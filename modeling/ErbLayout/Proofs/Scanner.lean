import ErbLayout.Proofs.Markup.Rows
import ErbLayout.Scanner

/-!
The scanner ends, and what it gives are the tokens of its source. Between two tags it stands where
the text before a tag begins; one or two steps bring it behind the tag. A tag match always has the
name of a closing or of an opening tag among its groups, so nothing is ever given as unrecognized.
-/

namespace ErbLayout

open Text Markup

def Found.ofToken (t : Token) : Found where
  offset := t.offset
  afterBlank := t.afterBlank
  kind :=
    match t.lexeme with
    | .text s => .text s
    | .raw s => .raw s
    | .tag (.opening name attributes _ ending) => .opening name attributes ending.written
    | .tag (.closing _ name _) => .closing name
    | .unrecognized s => .unrecognized s

/-- The scanner gives the listed things and then ends. -/
inductive Scanner.Yields : Scanner → List Found → Prop
  | done {m : Scanner} (h : m.next? = none) : Scanner.Yields m []
  | step {m m' : Scanner} {t : Found} {ts : List Found} (h : m.next? = some (t, m'))
      (hrest : Scanner.Yields m' ts) : Scanner.Yields m (t :: ts)

section Matches

def Markup.Tag.groups : Tag → List (Option Text)
  | .closing _ name _ => [some name, none, none, none]
  | .opening name attributes _ ending =>
    [none, some name, some attributes, some ending.written]

theorem ofParts?_tagParts (offset n : Nat) (whole : Text) (t : Tag) :
    Captures.ofParts? (some (offset, whole) :: tagParts n t) = some ⟨offset, whole, t.groups⟩ := by
  cases t <;> rfl

theorem kind_of_groups (offset : Nat) (whole : Text) (t : Tag) (n : Nat) (blank : Bool) :
    (⟨offset, whole, t.groups⟩ : Captures).kind = (Found.ofToken ⟨n, blank, .tag t⟩).kind := by
  cases t <;> rfl

theorem rawContainer?_kind (t : Tag) (n : Nat) (blank : Bool) :
    (Found.ofToken ⟨n, blank, .tag t⟩).kind.rawContainer? = t.rawContainer? := by
  cases t with
  | closing lead name trail => rfl
  | opening name attributes gap ending => cases ending <;> rfl

theorem all_tag_of_first?_eq_none {s : Text} (h : tags.first? s = none) :
    Captures.all .tag s = [] := by
  simp [Captures.all, Construct.find, occurrences, Recogniser.all, Recogniser.located,
    Recogniser.split_of_first?_eq_none h]

theorem all_tag_of_first? {s before rest : Text} {t : Tag}
    (h : tags.first? s = some (before, t, rest)) :
    ∃ more, Captures.all .tag s = ⟨byteSize before, t.written, t.groups⟩ :: more := by
  rw [Captures.all, Construct.find, occurrences, Recogniser.all,
    Recogniser.split_of_first?_eq_some h, Recogniser.located, List.map_cons, Nat.zero_add,
    List.filterMap_cons]
  have hparts := ofParts?_tagParts (byteSize before) (byteSize before) t.written t
  change Captures.ofParts? (some (byteSize before, tags.written t) :: _) = _ at hparts
  rw [hparts]
  exact ⟨_, rfl⟩

end Matches

section RawContent

variable {name : Text}

/-- Inside a closing tag no tag begins. -/
theorem tags_run_inside {s r : Text} {t : Tag} (hrun : (closers name).run s = some (t, r))
    {v : Text} (hv : v <:+ t.written) (hnil : v ≠ []) (hne : v ≠ t.written) (u : Text) :
    tags.run (v ++ u) = none := by
  have hsign : '<' ∉ t.written.tail := notMem_tail_of_closes hrun
  obtain ⟨tail, hwritten⟩ : ∃ tail, t.written = '<' :: tail := by cases t <;> exact ⟨_, rfl⟩
  rw [hwritten] at hv hne hsign
  cases hread : tags.run (v ++ u) with
  | none => rfl
  | some x =>
    obtain ⟨d, w, hw, -⟩ := exists_cons_of_tags_run hread
    obtain ⟨e, v, rfl⟩ := List.exists_cons_of_ne_nil hnil
    obtain ⟨rfl, -⟩ := List.cons.inj hw
    rcases List.suffix_cons_iff.mp hv with heq | htail
    · exact absurd heq hne
    · exact absurd (htail.subset List.mem_cons_self) hsign

theorem Text.Recogniser.first?_append_of_run {α : Type} {p : Recogniser α} {u r : Text}
    (h : ∀ v, v <:+ u → v ≠ [] → p.run (v ++ r) = none) :
    p.first? (u ++ r) = (p.first? r).map fun x => (u ++ x.1, x.2) := by
  induction u with
  | nil => simp
  | cons c u ih =>
    have hhead := h (c :: u) (List.suffix_refl _) (List.cons_ne_nil _ _)
    have htail := ih fun v hv hne => h v (hv.trans (List.suffix_cons c u)) hne
    rw [List.cons_append] at hhead ⊢
    rw [Recogniser.first?, hhead, htail]
    simp [Function.comp_def]

variable (hname : name ∈ rawTextElements)

include hname

theorem run_rawClosers_of_closers {s : Text} {x : Tag × Text} (h : (closers name).run s = some x) :
    rawClosers.run s = some x := by
  obtain ⟨hrun, hcloses⟩ := Option.filter_eq_some_iff.mp h
  exact Option.filter_eq_some_iff.mpr ⟨hrun, List.any_eq_true.mpr ⟨name, hname, hcloses⟩⟩

theorem run_closers_of_rawClosers {s : Text} (h : rawClosers.run s = none) :
    (closers name).run s = none := by
  cases hrun : (closers name).run s with
  | none => rfl
  | some x =>
    rw [run_rawClosers_of_closers hname hrun] at h
    simp at h

omit hname in
theorem run_closers_eq {s r : Text} {t : Tag} (h : rawClosers.run s = some (t, r)) :
    (closers name).run s = if t.closes name then some (t, r) else none := by
  have hrun := (Option.filter_eq_some_iff.mp h).1
  change (tags.run s).filter _ = _
  rw [hrun, Option.filter_some]

/-- Past a tag that closes another element, the search goes on behind it. -/
theorem first?_closers_skip {s before rest : Text} {t : Tag}
    (h : rawClosers.first? s = some (before, t, rest)) (hcloses : t.closes name = false) :
    (closers name).first? s
      = ((closers name).first? rest).map fun x => (before ++ t.written ++ x.1, x.2) := by
  obtain ⟨hs, hrun, hbefore⟩ := Recogniser.first?_eq_some_iff.mp h
  change s = before ++ (t.written ++ rest) at hs
  change rawClosers.run (t.written ++ rest) = some (t, rest) at hrun
  rw [hs, ← List.append_assoc]
  refine Recogniser.first?_append_of_run fun v hv hne => ?_
  rcases List.suffix_or_suffix_of_suffix hv (List.suffix_append before t.written) with hin | hout
  · by_cases heq : v = t.written
    · rw [heq, run_closers_eq hrun, if_neg (by simp [hcloses])]
    · obtain ⟨htag, hany⟩ := Option.filter_eq_some_iff.mp hrun
      obtain ⟨name', -, hcloses'⟩ := List.any_eq_true.mp hany
      have hother : (closers name').run (t.written ++ rest) = some (t, rest) :=
        Option.filter_eq_some_iff.mpr ⟨htag, hcloses'⟩
      change (tags.run (v ++ rest)).filter _ = none
      rw [tags_run_inside hother hin hne heq, Option.filter_none]
  · obtain ⟨v', rfl⟩ := hout
    obtain ⟨z, hz⟩ := hv
    have hv' : v' <:+ before := ⟨z, by
      rw [← List.append_assoc] at hz
      exact List.append_cancel_right hz⟩
    by_cases hnil : v' = []
    · rw [hnil, List.nil_append, run_closers_eq hrun, if_neg (by simp [hcloses])]
    · rw [List.append_assoc]
      exact run_closers_of_rawClosers hname (hbefore v' hv' hnil)

/-- Among the tags that close raw content, the first that closes an element called `name` is the
first of those that do. -/
theorem find?_located (n : Nat) (s : Text) :
    (rawClosers.located n (rawClosers.split s).1).find? (fun x => x.2.closes name)
      = ((closers name).first? s).map fun x => (n + byteSize x.1, x.2.1) := by
  fun_induction Recogniser.split rawClosers s generalizing n with
  | case1 s hnone =>
    have hfirst : (closers name).first? s = none := by
      rw [Recogniser.first?_eq_none_iff] at hnone ⊢
      exact fun v hv => run_closers_of_rawClosers hname (hnone v hv)
    rw [hfirst]
    rfl
  | case2 s before t rest hsome ih =>
    rw [Recogniser.located, List.find?_cons]
    cases hcloses : t.closes name with
    | true =>
      obtain ⟨hs, hrun, hbefore⟩ := Recogniser.first?_eq_some_iff.mp hsome
      have hfirst : (closers name).first? s = some (before, t, rest) := by
        refine Recogniser.first?_eq_some_iff.mpr ⟨hs, ?_, fun v hv hne => ?_⟩
        · exact (run_closers_eq hrun).trans (if_pos hcloses)
        · exact run_closers_of_rawClosers hname (hbefore v hv hne)
      rw [hfirst]
      rfl
    | false =>
      rw [first?_closers_skip hname hsome hcloses]
      simp only [ih, Option.map_map]
      congr 1
      funext x
      simp only [Function.comp_apply, byteSize_append, Prod.mk.injEq, and_true]
      change _ + byteSize t.written + _ = _
      omega

/-- The match that closes raw content. -/
theorem find?_all_rawTextClose (s : Text) :
    (Captures.all .rawTextClose s).find? (fun c => c.group 0 = some name)
      = ((closers name).first? s).map fun x =>
        ⟨byteSize x.1, x.2.1.written, x.2.1.groups.take 1⟩ := by
  have hall : Captures.all .rawTextClose s = (rawClosers.all s).map fun x =>
      ⟨x.1, x.2.written, x.2.groups.take 1⟩ := by
    rw [Captures.all, Construct.find, occurrences, List.filterMap_map, ← List.filterMap_eq_map]
    refine List.filterMap_congr fun x _ => ?_
    obtain ⟨offset, t⟩ := x
    cases t <;> rfl
  have hcloses : ((fun c : Captures => decide (c.group 0 = some name)) ∘ fun x : Nat × Tag =>
      (⟨x.1, x.2.written, x.2.groups.take 1⟩ : Captures)) = fun x => x.2.closes name := by
    funext x
    obtain ⟨offset, t⟩ := x
    cases t with
    | opening name' attributes gap ending => rfl
    | closing lead name' trail =>
      change decide (some name' = some name) = (name' == name)
      simp [beq_eq_decide]
  rw [hall, List.find?_map, hcloses, Recogniser.all, find?_located hname, Option.map_map]
  simp only [Function.comp_def, Nat.zero_add]

end RawContent

namespace Scanner

/-- A scanner with `b` behind it and `s` before it, and no tag waiting. -/
def between (b s : Text) (container : Option Text) : Scanner where
  source := b ++ s
  pos := byteSize b
  rawUntil := container

variable (b s : Text) (container : Option Text)

theorem rest_between : (between b s container).rest = s := by
  rw [rest, between, takeBytes_append, List.drop_left]

theorem found_between (kind : Kind) :
    (between b s container).found (byteSize b) kind = ⟨byteSize b, endsBlank b, kind⟩ := by
  rw [found, between, takeBytes_append]

theorem next?_between_nil : (between b [] container).next? = none := by
  simp [next?, takePending, between]

theorem next?_between {s : Text} (hs : s ≠ []) :
    (between b s container).next?
      = container.elim (between b s none).scanMarkup (between b s none).scanRaw := by
  have hpos := byteSize_pos hs
  have hgoing : ¬ byteSize (b ++ s) ≤ byteSize b := by
    rw [byteSize_append]
    omega
  cases container with
  | none => simp only [next?, takePending, between, Option.map_none, hgoing, if_false, Option.elim]
  | some name =>
    simp only [next?, takePending, between, Option.map_none, hgoing, if_false, Option.elim]

theorem end_between :
    { between b s none with pos := byteSize (between b s none).source } =
      between (b ++ s) [] none := by
  simp [between]

theorem scanMarkup_of_first?_eq_none (h : tags.first? s = none) :
    (between b s none).scanMarkup
      = some (⟨byteSize b, endsBlank b, .text s⟩, between (b ++ s) [] none) := by
  rw [scanMarkup, rest_between, all_tag_of_first?_eq_none h]
  exact congrArg some (Prod.ext (found_between b s none _) (end_between b s))

theorem scanRaw_of_first?_eq_none {name : Text} (hname : name ∈ rawTextElements)
    (h : (closers name).first? s = none) (hs : s ≠ []) :
    (between b s none).scanRaw name
      = some (⟨byteSize b, endsBlank b, .raw s⟩, between (b ++ s) [] none) := by
  rw [scanRaw, rest_between, find?_all_rawTextClose hname, h]
  dsimp only [Option.map_none]
  rw [if_neg (by simpa using hs)]
  exact congrArg some (Prod.ext (found_between b s none _) (end_between b s))

variable {s} {before rest : Text} {t : Tag}

/-- What the scanner gives for a tag that stands after `b` and the text before it. -/
def tagAfter (b : Text) (t : Tag) : Found := .ofToken ⟨byteSize b, endsBlank b, .tag t⟩

theorem found_tag (hs : s = before ++ (t.written ++ rest)) :
    (between b s none).found (byteSize b + byteSize before) (tagAfter (b ++ before) t).kind
      = tagAfter (b ++ before) t := by
  have htake : takeBytes (byteSize b + byteSize before) (b ++ s) = b ++ before := by
    rw [hs, ← List.append_assoc, ← byteSize_append, takeBytes_append]
  rw [found, between, htake, ← byteSize_append]
  rfl

theorem after_between (hs : s = before ++ (t.written ++ rest)) (container : Option Text) :
    (⟨b ++ s, byteSize b + (byteSize before + byteSize t.written), none, container⟩ : Scanner)
      = between (b ++ before ++ t.written) rest container := by
  simp [between, hs]

def given (b before : Text) (lead : Kind) (t : Tag) (next : Scanner) : Found × Scanner :=
  if before = [] then (tagAfter (b ++ before) t, next)
  else (⟨byteSize b, endsBlank b, lead⟩, { next with pending := some (tagAfter (b ++ before) t) })

theorem byteSize_eq_zero_iff : byteSize before = 0 ↔ before = [] := by
  refine ⟨fun h => ?_, fun h => by rw [h, byteSize_nil]⟩
  by_contra hne
  have := byteSize_pos hne
  omega

theorem scanMarkup_of_first? (h : tags.first? s = some (before, t, rest)) :
    (between b s none).scanMarkup = some (given b before (.text before) t
      (between (b ++ before ++ t.written) rest t.rawContainer?)) := by
  have hs : s = before ++ (t.written ++ rest) := (Recogniser.first?_eq_some h).1
  obtain ⟨more, hall⟩ := all_tag_of_first? h
  have hkind : (⟨byteSize before, t.written, t.groups⟩ : Captures).kind
      = (tagAfter (b ++ before) t).kind := kind_of_groups ..
  have hraw : (tagAfter (b ++ before) t).kind.rawContainer? = t.rawContainer? :=
    rawContainer?_kind ..
  have hpos : (between b s none).pos = byteSize b := rfl
  have htake : takeBytes (byteSize before) s = before := by rw [hs, takeBytes_append]
  rw [scanMarkup, rest_between, hall]
  simp only [hkind, hraw, hpos, found_tag b hs, found_between, htake, byteSize_eq_zero_iff,
    Captures.stop]
  rw [given, ← after_between b hs]
  split <;> rfl

theorem scanRaw_of_first? {name : Text} (hname : name ∈ rawTextElements)
    (h : (closers name).first? s = some (before, t, rest)) :
    (between b s none).scanRaw name = some (given b before (.raw before) t
      (between (b ++ before ++ t.written) rest t.rawContainer?)) := by
  have hs : s = before ++ (t.written ++ rest) := (Recogniser.first?_eq_some h).1
  have hcloses : t.closes name :=
    (Option.filter_eq_some_iff.mp (Recogniser.first?_eq_some_iff.mp h).2.1).2
  obtain ⟨lead, trail, rfl⟩ : ∃ lead trail, t = .closing lead name trail := by
    cases t with
    | opening name' attributes gap ending => simp [Tag.closes] at hcloses
    | closing lead name' trail =>
      obtain rfl : name' = name := by simpa [Tag.closes] using hcloses
      exact ⟨lead, trail, rfl⟩
  have hpos : (between b s none).pos = byteSize b := rfl
  have htake : takeBytes (byteSize before) s = before := by rw [hs, takeBytes_append]
  have hfound := found_tag b hs
  change (between b s none).found _ (.closing name) = _ at hfound
  rw [scanRaw, rest_between, find?_all_rawTextClose hname, h]
  simp only [Option.map_some, hpos, hfound, found_between, htake, byteSize_eq_zero_iff,
    Captures.stop, takePending]
  rw [given, ← after_between b hs]
  split <;> rfl

end Scanner

def leadKind (container : Option Text) (content : Text) : Kind :=
  if container.isSome then .raw content else .text content

theorem map_place_leadingLexeme (container : Option Text) {content : Text} (h : content ≠ [])
    (n : Nat) (blank : Bool) (ls : List Lexeme) :
    (place n blank (leadingLexeme container content ++ ls)).map Found.ofToken
      = ⟨n, blank, leadKind container content⟩
        :: (place (n + byteSize content) (endsBlank content) ls).map .ofToken := by
  have hempty : content.isEmpty = false := by simpa using h
  cases container <;> simp [leadingLexeme, hempty, place, leadKind, Found.ofToken, Lexeme.written]

open Scanner in
/-- From between two tags on, the scanner gives the rest of the tokens. -/
theorem yields_lexemesIn {container : Option Text}
    (hcontainer : ∀ name ∈ container, name ∈ rawTextElements) (b s : Text) :
    (between b s container).Yields
      ((place (byteSize b) (endsBlank b) (lexemesIn container s)).map .ofToken) := by
  fun_induction lexemesIn container s generalizing b with
  | case1 container s hnone =>
    by_cases hs : s = []
    · rw [hs]
      exact .done (next?_between_nil b container)
    · have hnext : (between b s container).next? =
          some (⟨byteSize b, endsBlank b, leadKind container s⟩, between (b ++ s) [] none) := by
        rw [next?_between b container hs]
        cases container with
        | none => exact scanMarkup_of_first?_eq_none b s hnone
        | some name => exact scanRaw_of_first?_eq_none b s (hcontainer name rfl) hnone hs
      rw [← List.append_nil (leadingLexeme container s), map_place_leadingLexeme container hs]
      exact .step hnext (.done (next?_between_nil (b ++ s) none))
  | case2 container s before t rest hsome ih =>
    have hwritten : t.written ≠ [] := by cases t <;> simp [Tag.written]
    have hs : s ≠ [] := by
      have := (Recogniser.first?_eq_some hsome).1
      rw [tagsIn_written] at this
      simp [this, hwritten]
    have hnext : (between b s container).next? = some (given b before (leadKind container before) t
        (between (b ++ before ++ t.written) rest t.rawContainer?)) := by
      rw [next?_between b container hs]
      cases container with
      | none => exact scanMarkup_of_first? b hsome
      | some name => exact scanRaw_of_first? b (hcontainer name rfl) hsome
    have hcontainer' : ∀ name ∈ t.rawContainer?, name ∈ rawTextElements := by
      intro name hname
      obtain ⟨attributes, gap, -, hmem⟩ := rawContainer?_eq_some hname
      exact hmem
    have hrest := ih hcontainer' (b ++ before ++ t.written)
    rw [endsBlank_append _ hwritten] at hrest
    -- The tag itself, and what follows it.
    have htag : ∀ n blank, n = byteSize (b ++ before) → blank = endsBlank (b ++ before) →
        (place n blank (.tag t :: lexemesIn t.rawContainer? rest)).map Found.ofToken
          = tagAfter (b ++ before) t :: (place (byteSize (b ++ before ++ t.written))
            (endsBlank t.written) (lexemesIn t.rawContainer? rest)).map .ofToken := by
      rintro n blank rfl rfl
      rw [byteSize_append (b ++ before)]
      rfl
    by_cases hbefore : before = []
    · subst hbefore
      rw [given, if_pos rfl] at hnext
      rw [show leadingLexeme container [] = [] by simp [leadingLexeme], List.nil_append,
        htag _ _ (by rw [List.append_nil]) (by rw [List.append_nil])]
      exact .step hnext hrest
    · rw [given, if_neg hbefore] at hnext
      rw [map_place_leadingLexeme container hbefore,
        htag _ _ (byteSize_append b before).symm (endsBlank_append b hbefore).symm]
      exact .step hnext (.step rfl hrest)

/-- The scanner ends and gives the tokens of its source, and these tile it. -/
theorem Markup.tiling_tokens (body : Text) :
    ({ source := body } : Scanner).Yields ((tokens body).map .ofToken) ∧
      Tiling body (tokens body) :=
  ⟨yields_lexemesIn (by simp) [] body, tokens_tile body⟩

end ErbLayout
