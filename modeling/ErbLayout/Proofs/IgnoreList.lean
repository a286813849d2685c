import ErbLayout.IgnoreList
import ErbLayout.Proofs.Glob
import ErbLayout.Proofs.Path
import ErbLayout.Proofs.Text.Squeeze

/-!
A file that a line of the list names. The line and the path are both taken from the folder and freed
of dots, so that they come to the same text however the path is spelled. But only the line is then
read as a glob, with the folder in it: the file is on the list exactly if that text fits itself, and
a folder whose name has a bracket in it, or two stars, mostly hides its files from the list.
-/

namespace ErbLayout

open Text

namespace Path

section Names

def step (names : List Text) : Component → List Text
  | .name n => names ++ [n]
  | .up => names.dropLast
  | .root => names
  | .here => names

def namesFrom (names : List Text) (ps : List Text) : List Text :=
  (ps.filterMap componentOf).foldl step names

theorem namesFrom_append (names ps qs : List Text) :
    namesFrom names (ps ++ qs) = namesFrom (namesFrom names ps) qs := by
  rw [namesFrom, List.filterMap_append, List.foldl_append]
  rfl

theorem namesFrom_of_idle (names : List Text) {ps : List Text} (hps : ∀ x ∈ ps, isIdle x = true) :
    namesFrom names ps = names := by
  have hnone : ps.filterMap componentOf = [] :=
    List.filterMap_eq_nil_iff.mpr fun x hx => componentOf_eq_none_iff.mpr (hps x hx)
  rw [namesFrom, hnone, List.foldl_nil]

theorem names_eq (p : Path) : p.names = namesFrom [] (pieces p) := by
  have hstep : p.names = p.components.foldl step [] := by
    unfold names
    congr 1
    funext names c
    cases c <;> rfl
  have hlead : p.lead.foldl step [] = [] := by
    unfold lead
    split
    · rfl
    · split <;> rfl
  rw [hstep, components_eq, List.foldl_append, hlead]
  rfl

/-- A relative path goes on from the names of another. -/
theorem names_join {p q : Path} (hp : p ≠ []) (hq : q.isAbsolute = false) :
    (p.join q).names = namesFrom p.names (pieces q) := by
  obtain ⟨ps, idle, -, hidle, hpieces, hjoin⟩ := exists_pieces_join hp hq
  have hends : namesFrom (namesFrom [] ps) idle = namesFrom [] ps :=
    namesFrom_of_idle _ fun x hx => by rw [hidle x hx]; rfl
  rw [names_eq, names_eq, hjoin, hpieces, namesFrom_append, namesFrom_append, hends]

theorem eq_of_componentOf_eq_name {piece n : Text} (h : componentOf piece = some (.name n)) :
    piece = n := by
  unfold componentOf at h
  split at h
  · simp at h
  · split at h
    · simp at h
    · simpa using h

/-- Names come from those that a path goes on from and from its pieces. -/
theorem mem_of_mem_namesFrom {names ps : List Text} {n : Text} (h : n ∈ namesFrom names ps) :
    n ∈ names ∨ n ∈ ps ∧ componentOf n = some (.name n) := by
  have hsteps : ∀ (cs : List Component) (names : List Text),
      n ∈ cs.foldl step names → n ∈ names ∨ .name n ∈ cs := by
    intro cs
    induction cs with
    | nil => exact fun names hn => Or.inl hn
    | cons c cs ih =>
      intro names hn
      rcases ih (step names c) hn with hn | hn
      · cases c with
        | root => exact Or.inl hn
        | here => exact Or.inl hn
        | up => exact Or.inl (List.mem_of_mem_dropLast hn)
        | name m =>
          rcases List.mem_append.mp hn with hn | hn
          · exact Or.inl hn
          · obtain rfl := List.mem_singleton.mp hn
            exact Or.inr List.mem_cons_self
      · exact Or.inr (List.mem_cons_of_mem c hn)
  rcases hsteps _ names h with hn | hn
  · exact Or.inl hn
  · obtain ⟨piece, hpiece, hname⟩ := List.mem_filterMap.mp hn
    obtain rfl := eq_of_componentOf_eq_name hname
    exact Or.inr ⟨hpiece, hname⟩

/-- The names of a path are plain. -/
theorem of_mem_names {p : Path} {n : Text} (h : n ∈ p.names) :
    '/' ∉ n ∧ componentOf n = some (.name n) := by
  rw [names_eq] at h
  rcases mem_of_mem_namesFrom h with h | ⟨hpiece, hname⟩
  · simp at h
  · exact ⟨slash_notMem_of_mem_pieces hpiece, hname⟩

theorem namesFrom_of_plain {ns : List Text} (names : List Text)
    (hns : ∀ n ∈ ns, componentOf n = some (.name n)) :
    namesFrom names ns = names ++ ns := by
  induction ns generalizing names with
  | nil => simp [namesFrom]
  | cons n ns ih =>
    have hn := hns n List.mem_cons_self
    have hrest := ih (names ++ [n]) fun m hm => hns m (List.mem_cons_of_mem n hm)
    rw [List.append_assoc, List.singleton_append] at hrest
    rw [namesFrom, List.filterMap_cons, hn, List.foldl_cons]
    exact hrest

theorem normalise_of_isAbsolute {p : Path} (hp : p.isAbsolute = true) :
    p.normalise = '/' :: Text.join ['/'] p.names := by
  rw [normalise, hp]
  rfl

/-- To free an absolute path of dots keeps its names. -/
theorem names_normalise {p : Path} (hp : p.isAbsolute = true) : p.normalise.names = p.names := by
  have hplain : ∀ n ∈ p.names, componentOf n = some (.name n) := fun n hn => (of_mem_names hn).2
  rw [normalise_of_isAbsolute hp, names_eq ('/' :: _), pieces_slash, namesFrom,
    List.filterMap_cons_none componentOf_nil, filterMap_pieces_join fun n hn => (of_mem_names hn).1]
  exact namesFrom_of_plain [] hplain

theorem normalise_join {p q : Path} (hp : p ≠ []) (hq : q.isAbsolute = false) :
    (p.join q).normalise = ofNames p.isAbsolute (namesFrom p.names (pieces q)) := by
  rw [normalise, isAbsolute_join hp hq, names_join hp hq]

theorem ne_nil_of_isAbsolute {p : Path} (hp : p.isAbsolute = true) : p ≠ [] := by
  rintro rfl
  simp [isAbsolute] at hp

/-- From a folder without dots a path leads where it leads from the folder. -/
theorem normalise_join_normalise {base : Path} (hbase : base.isAbsolute = true) {p : Path}
    (hp : p.isAbsolute = false) : (base.normalise.join p).normalise = (base.join p).normalise := by
  have habs : base.normalise.isAbsolute = true := by
    rw [normalise_of_isAbsolute hbase]
    rfl
  rw [normalise_join (ne_nil_of_isAbsolute habs) hp, normalise_join (ne_nil_of_isAbsolute hbase) hp,
    habs, hbase, names_normalise hbase]

/-- A dot and a slash before a relative path mean nothing. -/
theorem normalise_join_dot {base : Path} (hbase : base ≠ []) {p : Path}
    (hp : p.isAbsolute = false) :
    (base.join ('.' :: '/' :: p)).normalise = (base.join p).normalise := by
  have hpieces : pieces ('.' :: '/' :: p) = ['.'] :: pieces p := pieces_append_slash ['.'] p
  rw [normalise_join hbase rfl, normalise_join hbase hp, hpieces]
  rfl

end Names

end Path

namespace IgnoreList

open ErbLayout.Path

/-- A name that the glob written with it takes: it has no bracket in it and no two stars in a row,
or is two stars. -/
def IsPlainName (n : Text) : Prop := '[' ∉ n ∧ ¬ ['*', '*'] <:+: n ∨ n = ['*', '*']

instance (n : Text) : Decidable (IsPlainName n) := inferInstanceAs (Decidable (_ ∨ _))

/-- A plain name at the end or before a slash is mild. -/
theorem isMild_append {n s : Text} (hn : IsPlainName n)
    (hs : s = [] ∨ ∃ r, s = '/' :: r ∧ Glob.IsMild true r) :
    Glob.IsMild true (n ++ s) := by
  rcases hn with ⟨hbracket, hstars⟩ | rfl
  · have hstop : ∀ b, Glob.IsMild b s := by
      intro b
      rcases hs with rfl | ⟨r, rfl, hr⟩
      · exact .nil b
      · exact .char b (by decide) (by decide) hr
    have hhead : s.head? ≠ some '*' := by rcases hs with rfl | ⟨r, rfl, -⟩ <;> simp
    generalize true = b
    induction n generalizing b with
    | nil => exact hstop b
    | cons c n ih =>
      have hrest := ih (fun hmem => hbracket (List.mem_cons_of_mem c hmem))
        (fun hin => hstars (hin.trans (List.suffix_cons c n).isInfix))
      by_cases hc : c = '*'
      · subst hc
        refine .star b ?_ (hrest false)
        cases n with
        | nil => exact hhead
        | cons d n =>
          intro hd
          obtain rfl : d = '*' := by simpa using hd
          exact hstars ⟨[], n, rfl⟩
      · exact .char b hc (fun heq => hbracket (heq ▸ List.mem_cons_self)) (hrest _)
  · rcases hs with rfl | ⟨r, rfl, hr⟩
    · exact .last
    · exact .folders hr

/-- A star before a slash or the end. -/
theorem eq_of_append_eq {n s s' : Text} (hn : '/' ∉ n) (hs : s = [] ∨ ∃ r, s = '/' :: r)
    (hs' : s' = [] ∨ ∃ r, s' = '/' :: r) (h : n ++ s = '*' :: s') : n = ['*'] ∧ s = s' := by
  cases n with
  | nil => rcases hs with rfl | ⟨r, rfl⟩ <;> simp at h
  | cons c n =>
    obtain ⟨rfl, rfl⟩ : c = '*' ∧ n ++ s = s' := by simpa using h
    cases n with
    | nil => simp
    | cons d n =>
      rcases hs' with hnil | ⟨r, hslash⟩
      · simp at hnil
      · obtain ⟨rfl, -⟩ : d = '/' ∧ n ++ s = r := by simpa using hslash
        simp at hn

/-- The names before and after a slash, or before the end, of a mild text. -/
theorem of_isMild_append {atStart : Bool} {n s : Text} (hn : '/' ∉ n)
    (hs : s = [] ∨ ∃ r, s = '/' :: r) (h : Glob.IsMild atStart (n ++ s)) :
    ('[' ∉ n ∧ ¬ ['*', '*'] <:+: n ∨ atStart = true ∧ n = ['*', '*']) ∧
      ∀ r, s = '/' :: r → Glob.IsMild true r := by
  induction n generalizing atStart with
  | nil =>
    refine ⟨Or.inl (by simp), ?_⟩
    rintro r rfl
    cases h with
    | char _ _ _ h => exact h
  | cons c n ih =>
    obtain ⟨hc, hslash⟩ : c ≠ '/' ∧ '/' ∉ n := by simpa [eq_comm] using hn
    rw [List.cons_append] at h
    -- stars that are read together may reach the end of the name, so the cases are on the whole
    generalize htail : n ++ s = tail at h
    cases h with
    | char _ hstar hbracket h =>
      subst htail
      obtain ⟨hplain, hrest⟩ := ih hslash h
      obtain ⟨hb, hstars⟩ := hplain.resolve_right (by simp [hc])
      refine ⟨Or.inl ⟨by simp [Ne.symm hbracket, hb], fun hin => ?_⟩, hrest⟩
      rcases List.infix_cons_iff.mp hin with hfirst | hin
      · exact hstar (List.cons_prefix_cons.mp hfirst).1.symm
      · exact hstars hin
    | star _ hnext h =>
      subst htail
      obtain ⟨hplain, hrest⟩ := ih hslash h
      obtain ⟨hb, hstars⟩ := hplain.resolve_right (by simp)
      refine ⟨Or.inl ⟨by simp [hb], fun hin => ?_⟩, hrest⟩
      rcases List.infix_cons_iff.mp hin with hfirst | hin
      · obtain ⟨r, rfl⟩ := (List.cons_prefix_cons.mp hfirst).2
        simp at hnext
      · exact hstars hin
    | @folders r h =>
      obtain ⟨rfl, rfl⟩ : n = ['*'] ∧ s = '/' :: r :=
        eq_of_append_eq hslash hs (Or.inr ⟨r, rfl⟩) htail
      refine ⟨Or.inr ⟨rfl, rfl⟩, fun r' hr' => ?_⟩
      obtain rfl : r = r' := by simpa using hr'
      exact h
    | last =>
      obtain ⟨rfl, rfl⟩ : n = ['*'] ∧ s = [] := eq_of_append_eq hslash hs (Or.inl rfl) htail
      exact ⟨Or.inr ⟨rfl, rfl⟩, by simp⟩

/-- Names between slashes are mild together exactly if each is plain. -/
theorem isMild_join_iff {ns : List Text} (hns : ∀ n ∈ ns, '/' ∉ n) :
    Glob.IsMild true (Text.join ['/'] ns) ↔ ∀ n ∈ ns, IsPlainName n := by
  induction ns with
  | nil => exact ⟨fun _ => by simp, fun _ => .nil true⟩
  | cons n ns ih =>
    have hn := hns n List.mem_cons_self
    have hrest := ih fun m hm => hns m (List.mem_cons_of_mem n hm)
    have hplain : ∀ {s : Text}, (s = [] ∨ ∃ r, s = '/' :: r) → Glob.IsMild true (n ++ s) →
        IsPlainName n := by
      intro s hs h
      rcases (of_isMild_append hn hs h).1 with hplain | ⟨-, hplain⟩
      · exact Or.inl hplain
      · exact Or.inr hplain
    cases ns with
    | nil =>
      rw [List.forall_mem_singleton, Text.join]
      refine ⟨fun h => hplain (Or.inl rfl) (s := []) (by rwa [List.append_nil]), fun h => ?_⟩
      simpa using isMild_append h (Or.inl rfl)
    | cons m ns =>
      rw [join_cons_of_ne_nil _ _ (List.cons_ne_nil m ns), List.append_assoc,
        List.forall_mem_cons, ← hrest]
      refine ⟨fun h => ⟨hplain (Or.inr ⟨_, rfl⟩) h, ?_⟩, fun h => ?_⟩
      · exact (of_isMild_append hn (Or.inr ⟨_, rfl⟩) h).2 _ rfl
      · exact isMild_append h.1 (Or.inr ⟨_, rfl, h.2⟩)

/-- A line without blanks at its end is an entry as it stands. -/
theorem mem_entries {contents line : Text} (hline : line ∈ lines contents) (hne : line ≠ [])
    (hend : endsBlank line = false) : line ∈ entries contents := by
  refine List.mem_filter.mpr ⟨List.mem_map.mpr ⟨line, hline, trimEnd_eq_self hend⟩, ?_⟩
  simpa using hne

def spellings (base p : Path) : List Path := [p, base.join p, '.' :: '/' :: p]

section Spellings

variable {base p : Path} (hbase : base.isAbsolute = true) (hp : p.isAbsolute = false)
include hbase hp

theorem globOf_eq : globOf base.normalise p = Glob.ofText (base.join p).normalise := by
  rw [globOf, normalise_join_normalise hbase hp]

/-- A path is compared in the same form however it is written. -/
theorem normalise_join_of_mem_spellings {q : Path} (hq : q ∈ spellings base p) :
    (base.normalise.join q).normalise = (base.join p).normalise := by
  have hne := ne_nil_of_isAbsolute hbase
  simp only [spellings, List.mem_cons, List.not_mem_nil, or_false] at hq
  rcases hq with rfl | rfl | rfl
  · exact normalise_join_normalise hbase hp
  · have habs : (base.join p).isAbsolute = true := by rw [isAbsolute_join hne hp, hbase]
    rw [Path.join, habs, Bool.true_or, if_pos rfl]
  · rw [normalise_join_normalise hbase rfl, normalise_join_dot hne hp]

theorem holds_of_mem_spellings {contents : Text} {q : Path} (hq : q ∈ spellings base p) :
    (ofContents contents base).holds q =
      (ofContents contents base).globs.any fun g => g.fits (base.join p).normalise := by
  rw [holds, ← normalise_join_of_mem_spellings hbase hp hq]
  rfl

end Spellings

theorem mem_join {c : Char} {t : Text} (hc : c ∈ t) {ts : List Text} (ht : t ∈ ts) :
    c ∈ Text.join ['/'] ts := by
  induction ts with
  | nil => simp at ht
  | cons u ts ih =>
    cases ts with
    | nil =>
      obtain rfl := List.mem_singleton.mp ht
      exact hc
    | cons v ts =>
      rw [join_cons_of_ne_nil _ _ (List.cons_ne_nil v ts)]
      rcases List.mem_cons.mp ht with rfl | ht
      · simp [hc]
      · simp [ih ht]

/-- The pieces of a path without wildcards are plain. -/
theorem isPlainName_of_mem_pieces {p : Path} (hstar : '*' ∉ p) (hbracket : '[' ∉ p) {n : Text}
    (hn : n ∈ pieces p) :
    IsPlainName n := by
  have hmem : ∀ c ∈ n, c ∈ p := fun c hc => join_pieces p ▸ mem_join hc hn
  refine Or.inl ⟨fun hc => hbracket (hmem _ hc), fun hstars => hstar (hmem _ ?_)⟩
  exact hstars.subset List.mem_cons_self

/-- What a path without wildcards comes to from a folder is mild exactly if the names that the
folder gives it are plain. -/
theorem isMild_normalise_iff {base p : Path} (hbase : base.isAbsolute = true)
    (hp : p.isAbsolute = false) (hstar : '*' ∉ p) (hbracket : '[' ∉ p) :
    Glob.IsMild true (base.join p).normalise ↔
      ∀ n ∈ base.names, n ∈ (base.join p).names → IsPlainName n := by
  have hne := ne_nil_of_isAbsolute hbase
  have hjoin : (base.join p).isAbsolute = true := by rw [isAbsolute_join hne hp, hbase]
  have hslash : ∀ s, Glob.IsMild true ('/' :: s) ↔ Glob.IsMild true s := by
    refine fun s => ⟨fun h => ?_, fun h => .char true (by decide) (by decide) h⟩
    cases h with
    | char _ _ _ h => exact h
  rw [normalise_of_isAbsolute hjoin, hslash, isMild_join_iff fun n hn => (of_mem_names hn).1]
  refine ⟨fun h n _ hn => h n hn, fun h n hn => ?_⟩
  -- a name that is kept comes from the folder or from the line, and the line has no wildcards
  have hfrom := hn
  rw [names_join hne hp] at hfrom
  rcases mem_of_mem_namesFrom hfrom with hold | ⟨hpiece, -⟩
  · exact h n hold hn
  · exact isPlainName_of_mem_pieces hstar hbracket hpiece

/-- A path without wildcards that is a line of the list is on the list, however it is written, if
what it comes to from the folder fits itself, and otherwise that line does not put it on the list.
Names that the folder gives it are plain exactly if it fits itself and has no bracket, and without a
star in it a bracket always hides it. -/
theorem holds_of_mem_lines {base p : Path} (hbase : base.isAbsolute = true)
    (hp : p.isAbsolute = false) (hne : p ≠ []) (hend : endsBlank p = false)
    (hliteral : '*' ∉ p ∧ '[' ∉ p) :
    (Glob.FitsItself (base.join p).normalise → ∀ contents, p ∈ lines contents →
        ∀ q ∈ spellings base p, (ofContents contents base).holds q = true) ∧
      (∀ contents, entries contents = [p] → ∀ q ∈ spellings base p,
        ((ofContents contents base).holds q = true ↔ Glob.FitsItself (base.join p).normalise)) ∧
      ((∀ n ∈ base.names, n ∈ (base.join p).names → IsPlainName n) ↔
        Glob.FitsItself (base.join p).normalise ∧ '[' ∉ (base.join p).normalise) ∧
      ('*' ∉ (base.join p).normalise →
        (Glob.FitsItself (base.join p).normalise ↔ '[' ∉ (base.join p).normalise)) := by
  obtain ⟨hstar, hbracket⟩ := hliteral
  refine ⟨?_, ?_, ?_, Glob.fitsItself_iff_of_notMem⟩
  · rintro ⟨g, hglob, hcovers⟩ contents hline q hq
    rw [holds_of_mem_spellings hbase hp hq]
    refine List.any_eq_true.mpr ⟨g, List.mem_filterMap.mpr ⟨p, mem_entries hline hne hend, ?_⟩,
      (Glob.fits_iff_covers hglob _).mpr hcovers⟩
    rw [globOf_eq hbase hp, hglob]
    rfl
  · intro contents hentries q hq
    have hglobs : (ofContents contents base).globs =
        (Glob.ofText (base.join p).normalise).toOption.toList := by
      change (entries contents).filterMap _ = _
      rw [hentries, List.filterMap_cons, globOf_eq hbase hp]
      cases (Glob.ofText (base.join p).normalise).toOption <;> rfl
    rw [holds_of_mem_spellings hbase hp hq, hglobs, ← Glob.any_fits_iff]
    cases (Glob.ofText (base.join p).normalise).toOption <;> simp
  · rw [Glob.fitsItself_and_iff, isMild_normalise_iff hbase hp hstar hbracket]

/-- A folder below stars, and beside one with brackets that the path does not keep. -/
theorem holds_of_mem_lines_below_stars :
    names "/srv/a*b/**/x?/[old]/../".toList =
        ["srv".toList, "a*b".toList, "**".toList, "x?".toList] ∧
      (ofContents "[\n../lib/./a.erb\r\nb**\n".toList "/srv/a*b/**/x?/[old]/../".toList).holds
        "./../lib/./a.erb".toList = true := by
  have hnames : names "/srv/a*b/**/x?/[old]/../".toList =
      ["srv".toList, "a*b".toList, "**".toList, "x?".toList] := by
    decide +kernel
  have habs : isAbsolute "/srv/a*b/**/x?/[old]/../".toList = true := by decide
  obtain ⟨hholds, -, hplain, -⟩ := holds_of_mem_lines (p := "../lib/./a.erb".toList) habs
    (by decide) (by decide) (by decide) (by decide)
  refine ⟨hnames, hholds (hplain.mp ?_).1 _ ?_ _ ?_⟩
  · intro n hn _
    rw [hnames] at hn
    simp only [List.mem_cons, List.not_mem_nil, or_false] at hn
    rcases hn with rfl | rfl | rfl | rfl <;> decide +kernel
  · decide +kernel
  · decide +kernel

-- a bracket that a star makes up for does not hide the file
example : (ofContents "a.erb\n".toList "/srv/*[]]".toList).holds "a.erb".toList = true := by
  decide +kernel

/-- A folder with brackets in its name hides a file that a line names. -/
theorem not_holds_below_brackets :
    (ofContents "a.erb\n".toList "/srv/[x]".toList).holds "a.erb".toList = false := by
  decide +kernel

end IgnoreList

end ErbLayout
