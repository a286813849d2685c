import ErbLayout.ClassOrder
import ErbLayout.Proofs.LaidTokens
import ErbLayout.Proofs.Layout.KeptAttributes

/-!
Where the classes of an element go when they are put in order. The tokens of a class attribute are
sorted with the markers of embedded code among them, by the rank of the marker's text. So a token
that holds code is no boundary: classes after it that rank lower come before it, and classes before
it that rank higher go after it. What stands before the code stays the same exactly when those that
come are those that go.
-/

namespace ErbLayout

open Text Markup Code Layout

namespace Layout

section StableSort

variable {α : Type} {key : α → Nat} {source sorted : List α}

theorem IsStableSort.perm [DecidableEq α] (h : IsStableSort key source sorted) :
    sorted.Perm source := by
  rw [List.perm_iff_count]
  intro a
  have hcount : ∀ l : List α, l.count a = (l.filter fun b => key b = key a).count a :=
    fun l => (List.count_filter (by simp)).symm
  rw [hcount sorted, h.stable, ← hcount source]

/-- In a sorted list an element has those before it that are not greater in the source, and the
smaller ones that come after it there. -/
theorem IsStableSort.exists_split [DecidableEq α] (h : IsStableSort key source sorted)
    {before after : List α} {t : α} (hsource : source = before ++ t :: after) :
    ∃ before' after', sorted = before' ++ t :: after' ∧
      before'.Perm (before.filter (key · ≤ key t) ++ after.filter (key · < key t)) := by
  have hsame := h.stable (key t)
  rw [hsource, List.filter_append, List.filter_cons_of_pos (by simp)] at hsame
  obtain ⟨u, v, rfl, hu, hv⟩ := List.filter_eq_append_iff.mp hsame
  obtain ⟨w, after', rfl, hw, -, -⟩ := List.filter_eq_cons_iff.mp hv
  have hequal : (u ++ w).filter (fun a => key a = key t) = before.filter fun a =>
      key a = key t := by
    rw [List.filter_append, hu, List.filter_eq_nil_iff.mpr hw, List.append_nil]
  have hperm := h.perm
  have hascending := h.ascending
  rw [← List.append_assoc] at hperm hascending ⊢
  generalize u ++ w = before' at hequal hperm hascending ⊢
  refine ⟨before', after', rfl, ?_⟩
  obtain ⟨-, hafter, hbefore⟩ := List.pairwise_append.mp hascending
  have hle : ∀ a ∈ before', key a ≤ key t := fun a ha => hbefore a ha t List.mem_cons_self
  have hge : ∀ a ∈ after', key t ≤ key a := (List.pairwise_cons.mp hafter).1
  -- smaller elements all come before, equal ones stay on their side, and greater ones all go after
  rw [List.perm_iff_count]
  intro a
  rw [List.count_append]
  rcases Nat.lt_trichotomy (key a) (key t) with hlt | heq | hgt
  · have hne : t ≠ a := fun hta => by simp [hta] at hlt
    have hnone : after'.count a = 0 := List.count_eq_zero.mpr fun ha => by
      have := hge a ha
      omega
    have hall := hperm.count_eq a
    rw [hsource, List.count_append, List.count_append, List.count_cons_of_ne hne,
      List.count_cons_of_ne hne, hnone, Nat.add_zero] at hall
    rw [hall, List.count_filter (by simpa using Nat.le_of_lt hlt),
      List.count_filter (by simpa using hlt)]
  · have hcount := congrArg (List.count a) hequal
    rw [List.count_filter (by simpa using heq), List.count_filter (by simpa using heq)] at hcount
    have hnone : (after.filter (key · < key t)).count a = 0 := List.count_eq_zero.mpr fun ha => by
      have hless : key a < key t := by simpa using (List.mem_filter.mp ha).2
      omega
    rw [hcount, hnone, List.count_filter (by simpa using Nat.le_of_eq heq), Nat.add_zero]
  · have hfirst : before'.count a = 0 := List.count_eq_zero.mpr fun ha => by
      have := hle a ha
      omega
    have hkept : (before.filter (key · ≤ key t)).count a = 0 := List.count_eq_zero.mpr fun ha => by
      have hless : key a ≤ key t := by simpa using (List.mem_filter.mp ha).2
      omega
    have hcome : (after.filter (key · < key t)).count a = 0 := List.count_eq_zero.mpr fun ha => by
      have hless : key a < key t := by simpa using (List.mem_filter.mp ha).2
      omega
    rw [hfirst, hkept, hcome]

/-- What stands before an element stays the same exactly when the greater ones that leave and the
smaller ones that come are the same, as far as a view of them shows. -/
theorem perm_before_iff {β : Type} (view : α → β) {before before' after : List α} {t : α}
    (h : before'.Perm (before.filter (key · ≤ key t) ++ after.filter (key · < key t))) :
    (before'.map view).Perm (before.map view) ↔
      ((before.filter (key t < key ·)).map view).Perm
        ((after.filter (key · < key t)).map view) := by
  have hgreater : before.filter (fun a => !decide (key a ≤ key t)) =
      before.filter (key t < key ·) :=
    List.filter_congr fun a _ => by simp [← decide_not]
  have hsplit := List.filter_append_perm (fun a => decide (key a ≤ key t)) before
  rw [hgreater] at hsplit
  have hsource := hsplit.map view
  have hshown := h.map view
  rw [List.map_append] at hsource hshown
  rw [hshown.congr_left, ← hsource.congr_right, List.perm_append_left_iff]
  exact List.perm_comm

end StableSort

section Classes

/-- What the tokens of a class attribute are sorted by: their rank, or nothing when there is no
ranking. -/
def classKey (ranking : Option Ranking) (token : Text) : Nat :=
  (ranking.map fun r => sortKey r token).getD 0

theorem isStableSort_tokensOf (ranking : Option Ranking) {a : Attribute} (ha : a.name = className) :
    IsStableSort (classKey ranking) (words (a.value.getD [])) (tokensOf ranking a) := by
  cases ranking with
  | none => exact ⟨List.pairwise_of_forall fun _ _ => Nat.le_refl 0, fun _ => rfl⟩
  | some r =>
    rw [tokensOf]
    simp only [ha, if_true]
    exact isStableSort_mergeSort (sortKey r) _

/-- How tokens are shown around each of them. Those before it that do not rank higher stay before
it, and those after it that rank lower come before it; so what stands before it is kept exactly when
the ones that leave are those that come, in the view given. -/
def ShowsAround (key : Text → Nat) (view : Text → Text) (source shown : List Text) : Prop :=
  ∀ before t after, source = before ++ t :: after → ∃ before' after',
    shown = before' ++ t :: after' ∧
    before'.Perm (before.filter (key · ≤ key t) ++ after.filter (key · < key t)) ∧
    ((before'.map view).Perm (before.map view) ↔
      ((before.filter (key t < key ·)).map view).Perm ((after.filter (key · < key t)).map view))

theorem IsStableSort.showsAround {key : Text → Nat} {source shown : List Text}
    (h : IsStableSort key source shown) (view : Text → Text) :
    ShowsAround key view source shown := by
  intro before t after hsource
  obtain ⟨before', after', hshown, hperm⟩ := h.exists_split hsource
  exact ⟨before', after', hshown, hperm, perm_before_iff view hperm⟩

/-- The text is the class attribute with its value on one line or several, blanks before it and the
tokens in it. -/
def ShowsTokens (a : Attribute) (tokens : List Text) (unit : Text) : Prop :=
  ∃ gap content, (∀ c ∈ gap, isBlank c = true) ∧ words content = tokens ∧
    unit = gap ++ (className ++ '=' :: (a.quote.written ++ content ++ a.quote.written))

/-- A value without quotes has no blank in it. -/
theorem isBlank_eq_false_of_bare {s : Text} {a : Attribute} (ha : a ∈ attributesOf s)
    (hbare : a.quote = .bare) {value : Text} (hvalue : a.value = some value) :
    value ≠ [] ∧ ∀ c ∈ value, isBlank c = false := by
  obtain ⟨⟨b, written⟩, -, rfl⟩ := List.mem_map.mp ha
  unfold Attribute.ofText at hbare hvalue
  dsimp only at hbare hvalue
  split at hvalue
  · simp at hvalue
  next name value' hcut =>
    simp only [hcut] at hbare
    split at hvalue
    next hchars =>
      obtain rfl : value' = value := Option.some.inj hvalue
      simp only [isBareValue, Bool.and_eq_true, Bool.not_eq_true', List.isEmpty_eq_false_iff,
        List.all_eq_true] at hchars
      exact ⟨hchars.1, fun c hc => isBlank_eq_false_of_isBareValueChar (hchars.2 c hc)⟩
    next hchars =>
      rw [if_neg hchars] at hbare
      split at hvalue
      next inner hinner =>
        simp only [hinner] at hbare
        split at hbare <;> simp at hbare
      · simp at hvalue

theorem notBlank_of_mem_tokensOf {ranking : Option Ranking} {a : Attribute} {w : Text}
    (h : w ∈ tokensOf ranking a) :
    w ≠ [] ∧ ∀ c ∈ w, isBlank c = false :=
  ⟨(of_mem_tokensOf h).1, fun c hc => ((of_mem_tokensOf h).2 c hc).2⟩

theorem trim_className (quote : Quote) (u : Text) :
    trim (className ++ '=' :: (u ++ quote.written)) = className ++ '=' :: (u ++ quote.written) := by
  have hstart : trimStart className = className := by decide
  obtain ⟨q, hq, hblank⟩ : ∃ q, quote.written = [q] ∧ isBlank q = false := by
    cases quote
    · exact ⟨'\'', rfl, by decide⟩
    · exact ⟨'"', rfl, by decide⟩
    · exact ⟨'"', rfl, by decide⟩
  rw [hq, trim_append_cons hblank, hstart]

theorem isBlank_of_mem_onNewLine_nil {depth : Nat} {c : Char} (h : c ∈ onNewLine depth []) :
    isBlank c = true :=
  isBlank_of_mem_plainBlanks (mem_plainBlanks_onNewLine_nil h)

/-- The lines of a broken attribute hold its tokens. -/
theorem showsTokens_brokenAttribute (style : AttributeStyle) (measure : Text → Nat) (depth : Nat)
    {a : Attribute} (hclass : a.name = className) :
    ShowsTokens a (tokensOf style.ranking a) (brokenAttribute style measure depth a) := by
  have hopening := trim_className a.quote []
  rw [List.nil_append] at hopening
  unfold brokenAttribute
  dsimp only
  rw [onNewLine_eq_append depth, hclass, hopening]
  refine ⟨onNewLine depth [], _, fun c => isBlank_of_mem_onNewLine_nil, ?_,
    by simp only [List.append_assoc]; rfl⟩
  have hlines := words_append_flatMap_onNewLine (depth + 1) []
  simp only [words_nil, List.nil_append] at hlines
  rw [hlines]
  split
  · exact (packed_lines _ _ _ _ fun w => notBlank_of_mem_tokensOf).1
  · rw [List.flatMap_congr fun w hw => (notBlank_of_mem_tokensOf hw).elim words_of_notBlank]
    exact List.flatMap_singleton' _

variable {s : Text} {a : Attribute} (ha : a ∈ attributesOf s) (hclass : a.name = className)
  {value : Text} (hvalue : a.value = some value)
include ha hclass hvalue

/-- A class attribute on one line shows its tokens. -/
theorem showsTokens_renderAttribute (ranking : Option Ranking) {gap : Text}
    (hgap : ∀ c ∈ gap, isBlank c = true) :
    ShowsTokens a (tokensOf ranking a) (gap ++ renderAttribute ranking a) := by
  refine ⟨gap, if a.quote = .bare then value else join [' '] (tokensOf ranking a), hgap, ?_, ?_⟩
  · split
    next hbare =>
      obtain ⟨hne, hvisible⟩ := isBlank_eq_false_of_bare ha hbare hvalue
      obtain ⟨name, value', quote⟩ := a
      obtain rfl : value' = some value := hvalue
      rw [tokensOf_of_notBlank ranking name quote hne hvisible, words_of_notBlank hne hvisible]
    next => exact words_join fun w => notBlank_of_mem_tokensOf
  · rw [renderAttribute, hvalue, hclass]

theorem showsTokens_laidAttribute (style : AttributeStyle) (measure : Text → Nat) (depth : Nat) :
    ShowsTokens a (tokensOf style.ranking a) (laidAttribute style measure depth a) := by
  have htrim : trim (renderAttribute style.ranking a) = renderAttribute style.ranking a := by
    rw [renderAttribute, hvalue, hclass]
    exact trim_className a.quote _
  unfold laidAttribute
  split
  · exact showsTokens_brokenAttribute style measure depth hclass
  · rw [onNewLine_eq_append, htrim]
    exact showsTokens_renderAttribute ha hclass hvalue style.ranking fun c =>
      isBlank_of_mem_onNewLine_nil

end Classes

section Tag

/-- The attributes of a tag, one after the other, where the tokens of classes are shown around each
other. -/
def ShowsAttributes (ranking : Option Ranking) (view : Text → Text) (attributes : List Attribute)
    (laid : Text) : Prop :=
  ∃ units tail, laid = units.flatten ++ tail ∧ (∀ c ∈ tail, isBlank c = true) ∧
    List.Forall₂ (fun a unit => a.name = className → ∀ value ∈ a.value, ∃ tokens,
      ShowsTokens a tokens unit ∧
        ShowsAround (classKey ranking) view (words value) tokens) attributes units

theorem showsAttributes_flatMap {ranking : Option Ranking} (view : Text → Text)
    {attributes : List Attribute} {unit : Attribute → Text} {tail : Text}
    (htail : ∀ c ∈ tail, isBlank c = true) (h : ∀ a ∈ attributes, a.name = className →
      a.value.isSome → ShowsTokens a (tokensOf ranking a) (unit a)) :
    ShowsAttributes ranking view attributes (attributes.flatMap unit ++ tail) := by
  refine ⟨attributes.map unit, tail, by rw [List.flatMap], htail, ?_⟩
  rw [List.forall₂_map_right_iff, List.forall₂_same]
  intro a ha hclass value hvalue
  have hsorted := isStableSort_tokensOf ranking hclass
  rw [Option.mem_def.mp hvalue, Option.getD_some] at hsorted
  exact ⟨_, h a ha hclass (Option.isSome_of_mem hvalue), hsorted.showsAround view⟩

/-- However the attributes of a tag with classes are laid out, the classes are shown in order around
the code. -/
theorem showsAttributes_formatAttributes (view : Text → Text) {attributes : Text}
    (hclass : ∃ a ∈ attributesOf (trim attributes), a.name = className) (style : AttributeStyle)
    (measure : Text → Nat) (name ending : Text) (depth : Nat) :
    ShowsAttributes style.ranking view (attributesOf (trim attributes))
      (formatAttributes style measure name (trim attributes) ending depth) := by
  obtain ⟨b, hb, hbname⟩ := hclass
  have hvisible : allBlank (trim attributes) = false := by
    cases hblank : allBlank attributes with
    | false => exact (isVisible_trim hblank).allBlank_eq_false
    | true =>
      have hnil : trim attributes = [] := trim_append_blank [] (List.all_eq_true.mp hblank)
      rw [hnil, attributesOf, Recogniser.split_of_first?_eq_none rfl] at hb
      simp at hb
  by_cases hfits : measure ('<' :: (name ++ ' ' :: (collapse (trim attributes) ++ ending)))
      ≤ available style.lineWidth depth
  · have hbroken : ¬ KeepsLine style measure name (trim attributes) ending depth :=
      fun h => h.noClass b hb hbname
    rw [formatAttributes_of_narrow hvisible hfits, if_neg hbroken,
      ← List.append_nil (List.flatMap _ _)]
    refine showsAttributes_flatMap view (by simp) fun a ha hname hsome => ?_
    obtain ⟨value, hvalue⟩ := Option.isSome_iff_exists.mp hsome
    have hspace : ∀ c ∈ [' '], isBlank c = true := by
      simp
      decide
    exact showsTokens_renderAttribute ha hname hvalue style.ranking hspace
  · rw [formatAttributes_of_wide hvisible (Nat.not_le.mp hfits)]
    refine showsAttributes_flatMap view (fun c => isBlank_of_mem_onNewLine_nil) fun a ha hname
      hsome => ?_
    obtain ⟨value, hvalue⟩ := Option.isSome_iff_exists.mp hsome
    exact showsTokens_laidAttribute ha hname hvalue style measure (depth + 1)

end Tag

end Layout

namespace Job

section Appending

variable {j : Job} {p q : Page}

theorem output_isPrefix_emit (p : Page) (s : Text) (newLine : Bool) :
    p.output <+: (p.emit s newLine).output := by
  rw [Page.output_emit]
  exact List.prefix_append _ _

theorem output_isPrefix_layText (j : Job) (s : Text) (tail : Nat) (p : Page) :
    p.output <+: (j.layText s tail p).output := by
  rw [output_layText]
  exact List.prefix_append _ _

/-- Whatever the formatter answers, a code tag adds to the output. -/
theorem output_isPrefix_layCodeTag {written : Text} {newLine : Bool}
    (h : j.layCodeTag written newLine p = .ok q) :
    p.output <+: q.output := by
  unfold layCodeTag at h
  cases htag : CodeTag.ofText? written with
  | none =>
    rw [htag] at h
    rw [← Except.ok.inj h]
    exact output_isPrefix_emit p _ _
  | some tag =>
    simp only [htag] at h
    generalize Kind.of j.options.probe tag.code = kind at h
    have hpopped : ∀ next : Page → Page,
      (∀ r, (next r).output = (r.emit (tag.render tag.code) newLine).output) →
        (p.pop .code (j.table.restore written) >>= fun r => .ok (next r)) = .ok q →
        p.output <+: q.output := by
      intro next hnext hbind
      obtain ⟨r, hpop, hr⟩ := bind_eq_ok hbind
      rw [← Except.ok.inj hr, hnext, ← Page.output_pop hpop]
      exact output_isPrefix_emit r _ _
    cases kind with
    | comment =>
      rw [← Except.ok.inj h]
      exact output_isPrefix_emit p _ _
    | closer => exact hpopped (fun r => r.emit (tag.render tag.code) newLine) (fun _ => rfl) h
    | reopener =>
      exact hpopped (fun r => (r.emit (tag.render tag.code) newLine).push (.code tag.code))
        (fun _ => rfl) h
    | opener =>
      rw [← Except.ok.inj h, ← output_layOpener j tag.code p]
      exact output_isPrefix_emit _ _ _
    | standalone =>
      rw [← Except.ok.inj h]
      exact output_isPrefix_emit (j.layCode tag.code p).2 _ _
    | expression =>
      rw [← Except.ok.inj h]
      exact output_isPrefix_emit (j.layCode tag.code p).2 _ _

theorem output_isPrefix_layPieces {pieces : List (Text × Text × Text)} {offset : Nat}
    (h : j.layPieces offset pieces p = .ok q) : p.output <+: q.output := by
  induction pieces generalizing offset p with
  | nil =>
    obtain rfl := Except.ok.inj h
    exact List.prefix_rfl
  | cons x pieces ih =>
    obtain ⟨before, written, code⟩ := x
    obtain ⟨r, hcode, hrest⟩ := bind_eq_ok h
    have hadded : (j.layText before 0 p).output <+: r.output :=
      output_isPrefix_layCodeTag
        (p := { j.layText before 0 p with position := offset + byteSize before }) hcode
    exact ((output_isPrefix_layText j before 0 p).trans hadded).trans (ih hrest)

/-- A token adds to the output. -/
theorem output_isPrefix_layToken {t : Token} {following : List Token}
    (h : j.layToken t following p = .ok q) :
    p.output <+: q.output := by
  obtain ⟨offset, afterBlank, lexeme⟩ := t
  cases lexeme with
  | text s =>
    change j.layTextToken offset s _ { p with position := offset } = .ok q at h
    unfold layTextToken at h
    split at h
    · simp at h
    · obtain ⟨r, hpieces, hr⟩ := bind_eq_ok h
      rw [← Except.ok.inj hr]
      exact (output_isPrefix_layPieces hpieces).trans (output_isPrefix_layText j _ _ r)
  | tag tag =>
    obtain ⟨depth, tag, -, hout, -⟩ :=
      exists_output_layTag (t := ⟨offset, afterBlank, .tag tag⟩) trivial h
    rw [hout]
    exact List.prefix_append _ _
  | raw s =>
    rw [← Except.ok.inj h, Page.output_append]
    exact List.prefix_append _ _
  | unrecognized s => simp [layToken] at h

/-- What a token puts on the page, if it is an opening tag with classes: itself after blanks, with
the tokens of its classes shown around each other. -/
def PutsTag (j : Job) (view : Text → Text) (t : Token) (chunk : Text) : Prop :=
  ∀ name attributes gap ending, t.lexeme = .tag (.opening name attributes gap ending) →
    (∃ a ∈ attributesOf (trim attributes), a.name = className) →
    ∃ blanks laid, (∀ c ∈ blanks, isBlank c = true) ∧
      chunk = blanks ++ '<' :: (name ++ laid ++ ending.written) ∧
      ShowsAttributes j.options.ranking view (attributesOf (trim attributes)) laid

theorem exists_putsTag (view : Text → Text) {t : Token} {following : List Token}
    (h : j.layToken t following p = .ok q) :
    ∃ chunk, q.output = p.output ++ chunk ∧ j.PutsTag view t chunk := by
  obtain ⟨chunk, hchunk⟩ := output_isPrefix_layToken h
  refine ⟨chunk, hchunk.symm, ?_⟩
  intro name attributes gap ending hlexeme hclass
  obtain ⟨depth, tag, -, hout, -, -, hlays⟩ :=
    exists_output_layTag (t := t) (by rw [hlexeme]; trivial) h
  obtain ⟨depth', rfl⟩ : ∃ depth', tag = laidTag j.style j.width name attributes ending depth' :=
    hlays _ hlexeme
  have hblanks : ∀ c ∈ gapAt t.afterBlank depth, isBlank c = true := by
    intro c hc
    unfold gapAt at hc
    split at hc
    · exact isBlank_of_mem_onNewLine_nil hc
    · simp at hc
  refine ⟨gapAt t.afterBlank depth, _, hblanks, List.append_cancel_left (hchunk.trans hout), ?_⟩
  exact showsAttributes_formatAttributes view hclass j.style j.width name ending.written depth'

/-- What tokens put on the page one after the other. -/
theorem exists_chunks (view : Text → Text) {ts : List Token} (h : j.layTokens ts p = .ok q) :
    ∃ chunks, q.output = p.output ++ chunks.flatten ∧ List.Forall₂ (j.PutsTag view) ts chunks := by
  induction ts generalizing p with
  | nil =>
    obtain rfl := Except.ok.inj h
    exact ⟨[], by simp, .nil⟩
  | cons t ts ih =>
    obtain ⟨r, hstep, hrest⟩ := bind_eq_ok h
    obtain ⟨chunk, hchunk, hputs⟩ := exists_putsTag view hstep
    obtain ⟨chunks, hchunks, hall⟩ := ih hrest
    exact ⟨chunk :: chunks, by rw [hchunks, hchunk]; simp, .cons hputs hall⟩

end Appending

end Job

/-- The document laid out as the text is made of one chunk for each token of its body, and in the
chunk of an opening tag the tokens of classes are shown around each other as they rank, code among
them. -/
def ShowsClasses (options : Options) (source out : Text) : Prop :=
  ∃ chunks : List Text,
    out = attachFrontMatter (splitFrontMatter source).1
    (trim ((markedBody source).2.restore chunks.flatten)) ∧
      List.Forall₂ ((⟨options, (markedBody source).2⟩ : Job).PutsTag (markedBody source).2.restore)
        (tokens (markedBody source).1) chunks

section Guarded

def oneRanked : Ranking := (ClassOrder.ofList [['b']]).rank

theorem sortTokens_oneRanked :
    sortTokens oneRanked ["erb0tag".toList, ['b'], "erb1tag".toList] =
      [['b'], "erb0tag".toList, "erb1tag".toList] := by
  have hfirst : sortKey oneRanked "erb0tag".toList = Nat.pow 2 64 - 1 := by decide +kernel
  have hclass : sortKey oneRanked ['b'] = 0 := by decide +kernel
  have hlast : sortKey oneRanked "erb1tag".toList = Nat.pow 2 64 - 1 := by decide +kernel
  generalize "erb0tag".toList = first at *
  generalize "erb1tag".toList = last at *
  generalize ['b'] = ranked at *
  simp [sortTokens, List.mergeSort, List.MergeSort.Internal.splitInTwo, hfirst, hclass, hlast]

theorem laidTag_oneRanked (measure : Text → Nat)
    (hmeasure : measure "<p class=\"erb0tag b erb1tag\">".toList ≤ 80) :
    laidTag ⟨80, false, some oneRanked⟩ measure
      ['p'] " class=\"erb0tag b erb1tag\"".toList .plain 0 =
      "<p class=\"b erb0tag erb1tag\">".toList := by
  have hattributes : attributesOf (trim " class=\"erb0tag b erb1tag\"".toList) =
      [⟨className, some "erb0tag b erb1tag".toList, .quotation⟩] := by decide +kernel
  have hwords : words "erb0tag b erb1tag".toList = ["erb0tag".toList, ['b'], "erb1tag".toList] := by
    decide +kernel
  have hranked : ¬ KeepsLine ⟨80, false, some oneRanked⟩ measure ['p']
    (trim " class=\"erb0tag b erb1tag\"".toList)
      Ending.plain.written 0 := fun h => absurd h.unranked (by decide)
  have htokens : tokensOf (some oneRanked)
    ⟨className, some "erb0tag b erb1tag".toList, .quotation⟩ =
      [['b'], "erb0tag".toList, "erb1tag".toList] := by
    rw [tokensOf, Option.getD_some, hwords]
    exact sortTokens_oneRanked
  rw [laidTag, formatAttributes_of_narrow (by decide +kernel) hmeasure, if_neg hranked, hattributes,
    List.flatMap_singleton, renderAttribute, htokens]
  decide +kernel

theorem formatDocument_oneRanked :
    formatDocument { ranking := some oneRanked } "<p class=\"<% if x %> b <% end %>\"></p>".toList =
      .ok "<p class=\"b <% if x %> <% end %>\"></p>\n".toList := by
  have hmarked : markedBody "<p class=\"<% if x %> b <% end %>\"></p>".toList =
      ("<p class=\"erb0tag b erb1tag\"></p>".toList,
        ⟨[], ["<% if x %>".toList, "<% end %>".toList]⟩) := by
    decide +kernel
  have htokens : tokens "<p class=\"erb0tag b erb1tag\"></p>".toList =
      [⟨0, false, .tag (.opening ['p'] " class=\"erb0tag b erb1tag\"".toList [] .plain)⟩,
        ⟨29, false, .tag (.closing [] ['p'] [])⟩] := by
    decide +kernel
  rw [formatDocument_eq, hmarked]
  unfold Job.layBody
  dsimp only
  rw [htokens]
  simp only [Job.layTokens, Job.layToken]
  generalize hjob : (⟨{ ranking := some oneRanked },
    ⟨[], ["<% if x %>".toList, "<% end %>".toList]⟩⟩ : Job) = j
  have hlaid : laidTag j.style j.width ['p'] " class=\"erb0tag b erb1tag\"".toList .plain
      (Page.depth { Page.blank with position := 0 }) =
      "<p class=\"b erb0tag erb1tag\">".toList := by
    subst hjob
    exact laidTag_oneRanked _ (by decide +kernel)
  rw [Job.layOpening_eq (by decide), hlaid]
  subst hjob
  decide +kernel

end Guarded

/-- Around code in a class attribute, as around every other token, the classes before it are in the
output those before it that do not rank higher and those after it that rank lower. They are the
classes of the source exactly when the ones that leave are the ones that come. -/
theorem formatDocument_showsClasses {options : Options} {source out : Text}
    (h : formatDocument options source = .ok out) : ShowsClasses options source out := by
  rw [formatDocument_eq] at h
  rcases Job.layBody_cases ⟨options, (markedBody source).2⟩ (markedBody source).1 with
    ⟨stop, -, hbody⟩ | ⟨p, hlaid, -, hbody⟩ | ⟨p, -, -, hbody⟩
  · simp [hbody] at h
  · obtain ⟨chunks, hchunks, hall⟩ := Job.exists_chunks (markedBody source).2.restore hlaid
    refine ⟨chunks, ?_, hall⟩
    rw [hbody] at h
    obtain rfl := Except.ok.inj h
    have hblank : Page.blank.output = [] := rfl
    rw [hchunks, hblank, List.nil_append]
  · simp [hbody] at h

theorem formatDocument_showsClasses_oneRanked :
    formatDocument { ranking := some oneRanked } "<p class=\"<% if x %> b <% end %>\"></p>".toList =
        .ok "<p class=\"b <% if x %> <% end %>\"></p>\n".toList ∧
      ShowsClasses { ranking := some oneRanked } "<p class=\"<% if x %> b <% end %>\"></p>".toList
        "<p class=\"b <% if x %> <% end %>\"></p>\n".toList :=
  ⟨formatDocument_oneRanked, formatDocument_showsClasses formatDocument_oneRanked⟩

/-- A class between the tags of a condition stays there without an order of classes, and leaves it
when it has a rank. -/
theorem formatDocument_moves_guarded_class :
    formatDocument {} "<p class=\"<% if x %> b <% end %>\"></p>".toList =
        .ok "<p class=\"<% if x %> b <% end %>\"></p>\n".toList ∧
      formatDocument { ranking := some oneRanked }
        "<p class=\"<% if x %> b <% end %>\"></p>".toList =
        .ok "<p class=\"b <% if x %> <% end %>\"></p>\n".toList :=
  ⟨by decide +kernel, formatDocument_oneRanked⟩

end ErbLayout
