import ErbLayout.Proofs.Layout.SteadyTag
import ErbLayout.Proofs.PlacedTags
import ErbLayout.Proofs.RelaidText

/-!
Tags that are laid out and laid out again. A tag that is put out is read as a tag with the same
name, holds the same markers and nothing that begins a code tag, and it is laid out the same, and
opens the same, exactly when it is steady.
-/

namespace ErbLayout

open Text Markup Code Layout

section Openings

/-- The page with an opening tag put out, and its element open unless the tag closes it. -/
def putOpening (name : Text) (ending : Ending) (tag : Text) (newLine : Bool) (p : Page) : Page :=
  if ending = .slash || isVoidElement name then p.emit tag newLine
  else (p.emit tag newLine).push (.element name tag)

theorem output_putOpening (name : Text) (ending : Ending) (tag : Text) (newLine : Bool) (p : Page) :
    (putOpening name ending tag newLine p).output = (p.emit tag newLine).output := by
  unfold putOpening
  split <;> rfl

theorem Page.Matches.putOpening {margin : Text} {p q : Page} (h : p.Matches margin q) (name : Text)
    (ending : Ending) (tag : Text) (newLine : Bool) :
    (putOpening name ending tag newLine p).Matches margin
      (putOpening name ending tag newLine q) := by
  unfold ErbLayout.putOpening
  split
  · exact h.emit tag newLine
  · exact (h.emit tag newLine).push _

theorem Job.layOpening_eq {j : Job} {name : Text} (hname : isTagName name) (attributes : Text)
    (ending : Ending) (newLine : Bool) (p : Page) :
    j.layOpening name attributes ending newLine p =
      .ok (putOpening name ending (laidTag j.style j.width name attributes ending p.depth)
        newLine p) := by
  have hknown : (!isTagName name) = false := by simp [hname]
  unfold Job.layOpening
  rw [hknown, if_neg Bool.false_ne_true]
  rfl

end Openings

section Tags

theorem putOpening_congr {name attributes attributes' gap gap' : Text} {ending ending' : Ending}
    (h : (Tag.opening name attributes' gap' ending').brackets =
      (Tag.opening name attributes gap ending).brackets) :
    putOpening name ending' = putOpening name ending := by
  have hsame : (ending' = .slash || isVoidElement name) =
      (ending = .slash || isVoidElement name) := by
    rw [Tag.brackets, Tag.brackets] at h
    generalize (ending' = .slash || isVoidElement name) = closed' at h ⊢
    generalize (ending = .slash || isVoidElement name) = closed at h ⊢
    cases closed <;> cases closed' <;> simp at h ⊢
  unfold putOpening
  rw [hsame]

/-- The blanks of the attributes are plain, nothing in them begins a code tag, and no value without
quotes stands before the slash of an element with raw content. -/
def Markup.Tag.IsPlain : Tag → Prop
  | .opening name attributes _ ending =>
    HasPlainBlanks attributes ∧ holdsOpening attributes = false ∧
      (ending = .slash → name ∈ rawTextElements → ∀ a ∈ (attributesOf attributes).getLast?,
        ¬ a.IsUnquoted)
  | .closing .. => True

instance (t : Tag) : Decidable t.IsPlain :=
  match t with
  | .opening name attributes _ ending => inferInstanceAs (Decidable (HasPlainBlanks attributes ∧
      holdsOpening attributes = false ∧
      (ending = .slash → name ∈ rawTextElements → ∀ a ∈ (attributesOf attributes).getLast?,
        ¬ a.IsUnquoted)))
  | .closing .. => inferInstanceAs (Decidable True)

def Job.laid (j : Job) (depth : Nat) : Tag → Text
  | .opening name attributes _ ending => laidTag j.style j.width name attributes ending depth
  | .closing _ name _ => (Tag.closing [] name []).written

def Job.IsSteadyAt (j : Job) (depth : Nat) : Tag → Prop
  | .opening name attributes _ ending => IsSteady j.style j.width name attributes ending depth
  | .closing .. => True

instance (j : Job) (depth : Nat) (t : Tag) : Decidable (j.IsSteadyAt depth t) :=
  match t with
  | .opening name attributes _ ending =>
    inferInstanceAs (Decidable (IsSteady j.style j.width name attributes ending depth))
  | .closing .. => inferInstanceAs (Decidable True)

/-- What the layout sees of a tag, and what is read of it, is the same of another tag. -/
structure RelaidTag (t t' : Tag) : Prop where
  reads : ∀ r, tags.run (t'.written ++ r) = some (t', r)
  closes : ∀ name, t'.closes name = t.closes name
  raw : t'.rawContainer? = t.rawContainer?
  glue : t'.glue? = t.glue?
  found : markers.found t'.written = markers.found t.written
  noOpening : holdsOpening t'.written = false

theorem allBlank_attributes {l : List SpacedAttribute}
    (h : HasPlainBlanks (l.flatMap SpacedAttribute.text)) :
    allBlank (l.flatMap SpacedAttribute.text) = l.isEmpty := by
  cases l with
  | nil => rfl
  | cons x l =>
    have htrim := allBlank_trim_attributes h
    by_contra hblank
    have hall : allBlank ((x :: l).flatMap SpacedAttribute.text) = true := by simpa using hblank
    have hsub : allBlank (trim ((x :: l).flatMap SpacedAttribute.text)) = true :=
      List.all_eq_true.mpr fun c hc => List.all_eq_true.mp hall c ((trim_isInfix _).subset hc)
    rw [htrim] at hsub
    simp at hsub

theorem holdsOpening_opening {name s : Text} (hname : isTagName name) (hs : holdsOpening s = false)
    (ending : Ending) :
    holdsOpening ('<' :: (name ++ s ++ ending.written)) = false := by
  obtain ⟨hne, hchars⟩ := isTagName_iff.mp hname
  have hnot : ∀ c ∈ name, c ≠ '<' ∧ c ≠ '%' := by
    intro c hc
    constructor <;>
    · rintro rfl
      exact absurd (hchars _ hc) (by decide)
  have hlast : name.getLast? ≠ some '<' := fun hlast => (hnot _ (List.mem_of_getLast? hlast)).1 rfl
  have hend : ending.written.head? ≠ some '%' ∧ holdsOpening ending.written = false := by
    cases ending <;> decide
  have hrest : holdsOpening (name ++ s ++ ending.written) = false := by
    rw [holdsOpening_append (Or.inr hend.1), holdsOpening_append (Or.inl hlast),
      holdsOpening_of_notMem fun hmem => (hnot _ hmem).1 rfl, hs, hend.2]
    rfl
  obtain ⟨c, name, rfl⟩ := List.exists_cons_of_ne_nil hne
  rw [holdsOpening, hrest]
  simp [(hnot c List.mem_cons_self).2]

theorem relaidTag_closing {lead name trail : Text} (hread : (Tag.closing lead name trail).IsRead) :
    RelaidTag (.closing lead name trail) (.closing [] name []) := by
  obtain ⟨hlead, hname, htrail⟩ := hread
  have hnot : '<' ∉ '/' :: (name ++ ['>']) := by
    have hchars : '<' ∉ name := fun hmem => absurd ((isTagName_iff.mp hname).2 _ hmem) (by decide)
    simp [hchars]
  refine ⟨?_, fun _ => rfl, rfl, rfl, ?_, ?_⟩
  · intro r
    have hread : (Tag.closing [] name []).IsRead := ⟨by simp, hname, by simp⟩
    have hclosing := closingTag?_append_eq hread r
    simpa [Tag.written, tags, tag?] using hclosing
  · apply found_eq_of_content
    have hcontent := Job.content_closing isContent_markers name hlead htrail
    simpa [Tag.written] using hcontent
  · have hwritten : (Tag.closing [] name []).written = '<' :: '/' :: (name ++ ['>']) := by
      simp [Tag.written]
    rw [hwritten, holdsOpening, holdsOpening_of_notMem hnot]
    simp

/-- What is read of a tag that is laid out at the depth. -/
structure RelaidTagAt (j : Job) (depth : Nat) (t t' : Tag) : Prop extends RelaidTag t t' where
  plain : t'.IsPlain
  written : t'.written = j.laid depth t
  opens : t'.brackets = t.brackets ∨ t.brackets = [] ∧ ∃ name, t'.brackets = [.openTag name]
  again : j.laid depth t' = j.laid depth t ∧ t'.brackets = t.brackets ↔ j.IsSteadyAt depth t
  agree : j.IsSteadyAt depth t → ∀ (newLine : Bool) {p q : Page}, p.depth = depth → p.Matches [] q →
    Agree [] (j.layTag t newLine p) (j.layTag t' newLine q)

theorem rawContainer?_of_notMem {name attributes gap : Text} {ending : Ending}
    (h : name ∉ rawTextElements) :
    (Tag.opening name attributes gap ending).rawContainer? = none := by
  cases ending with
  | slash => rfl
  | plain => simpa [Tag.rawContainer?] using h

theorem relaidTagAt_closing (j : Job) (depth : Nat) {lead name trail : Text}
    (hread : (Tag.closing lead name trail).IsRead) :
    RelaidTagAt j depth (.closing lead name trail) (.closing [] name []) where
  toRelaidTag := relaidTag_closing hread
  plain := trivial
  written := rfl
  opens := Or.inl rfl
  again := iff_of_true ⟨rfl, rfl⟩ trivial
  agree _ newLine _ _ _ hpages := Job.agree_layTag (.closing lead name trail) newLine hpages

/-- The last attribute is the last of the list that the attributes are written from. -/
theorem getLast?_attributesOf {l : List SpacedAttribute}
    (hl : HasPlainBlanks (l.flatMap SpacedAttribute.text)) :
    (attributesOf (l.flatMap SpacedAttribute.text)).getLast? =
      l.getLast?.map SpacedAttribute.parsed := by
  rw [(attributesOf_flatMap hl).1, List.getLast?_map]

namespace Layout.RelaidAttributes

variable {j : Job} {depth : Nat} {name gap gap' : Text} {l m : List SpacedAttribute}
  {ending ending' : Ending}
  (h : RelaidAttributes j.style j.width name ending depth l m gap' ending')
include h

theorem written_opening :
    (Tag.opening name (m.flatMap SpacedAttribute.text) gap' ending').written =
      laidTag j.style j.width name (l.flatMap SpacedAttribute.text) ending depth := by
  rw [laidTag, List.append_assoc, h.written]
  simp [Tag.written]

theorem brackets_eq_iff :
    (Tag.opening name (m.flatMap SpacedAttribute.text) gap' ending').brackets =
        (Tag.opening name (l.flatMap SpacedAttribute.text) gap ending).brackets ↔
      (TakesSlash j.style j.width name (l.flatMap SpacedAttribute.text) ending depth →
        isVoidElement name) := by
  by_cases htakes : TakesSlash j.style j.width name (l.flatMap SpacedAttribute.text) ending depth
  · rw [h.taken htakes, htakes.1]
    simp [Tag.brackets, htakes.1 ▸ htakes]
  · rw [h.kept htakes]
    exact iff_of_true rfl fun htakes' => absurd htakes' htakes

/-- An element that is opened more comes of a slash that became part of a value. -/
theorem brackets_cases :
    (Tag.opening name (m.flatMap SpacedAttribute.text) gap' ending').brackets =
        (Tag.opening name (l.flatMap SpacedAttribute.text) gap ending).brackets ∨
      (Tag.opening name (l.flatMap SpacedAttribute.text) gap ending).brackets = [] ∧
        ∃ name', (Tag.opening name (m.flatMap SpacedAttribute.text) gap' ending').brackets =
          [.openTag name'] := by
  by_cases htakes : TakesSlash j.style j.width name (l.flatMap SpacedAttribute.text) ending depth
  · rw [h.taken htakes, htakes.1]
    cases hvoid : isVoidElement name with
    | true => exact Or.inl (by simp [Tag.brackets, hvoid])
    | false => exact Or.inr ⟨by simp [Tag.brackets], name, by simp [Tag.brackets, hvoid]⟩
  · rw [h.kept htakes]
    exact Or.inl rfl

/-- The tag is laid out the same, and opens the same, when it is steady. -/
theorem laid_eq_iff (gap : Text) :
    j.laid depth (.opening name (m.flatMap SpacedAttribute.text) gap' ending') =
          j.laid depth (.opening name (l.flatMap SpacedAttribute.text) gap ending) ∧
        (Tag.opening name (m.flatMap SpacedAttribute.text) gap' ending').brackets =
          (Tag.opening name (l.flatMap SpacedAttribute.text) gap ending).brackets ↔
      IsSteady j.style j.width name (l.flatMap SpacedAttribute.text) ending depth := by
  have hlaid : j.laid depth (.opening name (m.flatMap SpacedAttribute.text) gap' ending') =
        j.laid depth (.opening name (l.flatMap SpacedAttribute.text) gap ending) ↔
      formatAttributes j.style j.width name (trim (m.flatMap SpacedAttribute.text))
        ending'.written depth = m.flatMap SpacedAttribute.text ++ gap' := by
    rw [Job.laid, Job.laid, ← h.written_opening, laidTag, Tag.written]
    simp only [List.append_assoc, List.cons.injEq, true_and, List.append_cancel_left_eq]
    rw [← List.append_assoc (m.flatMap SpacedAttribute.text), List.append_cancel_right_eq]
  rw [hlaid, h.brackets_eq_iff, h.again, isSteady_iff]

theorem rawContainer?_eq
    (ht : (Tag.opening name (l.flatMap SpacedAttribute.text) gap ending).IsPlain) :
    (Tag.opening name (m.flatMap SpacedAttribute.text) gap' ending').rawContainer? =
      (Tag.opening name (l.flatMap SpacedAttribute.text) gap ending).rawContainer? := by
  by_cases htakes : TakesSlash j.style j.width name (l.flatMap SpacedAttribute.text) ending depth
  · obtain ⟨hslash, -, a, ha, hbare⟩ := htakes
    have hnot : name ∉ rawTextElements := fun hmem => ht.2.2 hslash hmem a ha hbare
    rw [rawContainer?_of_notMem hnot, rawContainer?_of_notMem hnot]
  · rw [h.kept htakes]
    cases ending <;> rfl

theorem glue?_eq (hl : HasPlainBlanks (l.flatMap SpacedAttribute.text)) :
    (Tag.opening name (m.flatMap SpacedAttribute.text) gap' ending').glue? =
      (Tag.opening name (l.flatMap SpacedAttribute.text) gap ending).glue? := by
  have hsame : m.isEmpty = l.isEmpty := by
    rw [Bool.eq_iff_iff, List.isEmpty_iff, List.isEmpty_iff, h.empty]
  rw [Tag.glue?, Tag.glue?, allBlank_attributes hl, allBlank_attributes h.plain, hsame]
  cases l with
  | cons x l => rfl
  | nil =>
    -- without attributes there is no value for the slash
    have htakes : ¬ TakesSlash j.style j.width name ([].flatMap SpacedAttribute.text) ending
        depth := by
      rintro ⟨-, -, a, ha, -⟩
      rw [getLast?_attributesOf hl] at ha
      simp at ha
    rw [h.kept htakes]

theorem found_eq (hj : j.IsPlain) (hl : HasPlainBlanks (l.flatMap SpacedAttribute.text))
    (hgap : ∀ c ∈ gap, isBlank c) :
    markers.found (Tag.opening name (m.flatMap SpacedAttribute.text) gap' ending').written =
      markers.found (Tag.opening name (l.flatMap SpacedAttribute.text) gap ending).written := by
  have hquote : (markers.found ['"']).flatMap markers.written = [] := by
    rw [Recogniser.found_of_first?_eq_none (first?_singleton '"')]
    rfl
  have hstyle : j.style.ranking = none := hj.ranking
  have hcontent := isContent_markers.formatAttributes_eq hl (fun x _ _ _ => hquote) hstyle j.width
    name ending.written depth
  apply found_eq_of_content
  rw [h.written_opening]
  exact Job.content_opening isContent_markers name ending hcontent (startsApart_flatMap fun x _ =>
    startsApart_text x) (startsApart_formatAttributes _ _ _ _ _ _) hgap

theorem isPlain_opening (hopening : holdsOpening (m.flatMap SpacedAttribute.text ++ gap') = false) :
    (Tag.opening name (m.flatMap SpacedAttribute.text) gap' ending').IsPlain := by
  refine ⟨h.plain, holdsOpening_of_isInfix hopening (List.prefix_append _ _).isInfix,
    fun hslash _ a ha => ?_⟩
  rw [getLast?_attributesOf h.plain] at ha
  obtain ⟨y, hy, rfl⟩ := Option.map_eq_some_iff.mp ha
  exact h.quoted hslash y hy

/-- A steady tag is put on the page as it was. -/
theorem agree_layTag (hname : isTagName name)
    (hsteady : IsSteady j.style j.width name (l.flatMap SpacedAttribute.text) ending depth)
    (newLine : Bool) {p q : Page} (hdepth : p.depth = depth) (hpages : p.Matches [] q) :
    Agree [] (j.layTag (.opening name (l.flatMap SpacedAttribute.text) gap ending) newLine p)
      (j.layTag (.opening name (m.flatMap SpacedAttribute.text) gap' ending') newLine q) := by
  obtain ⟨hlaid, hbrackets⟩ := (h.laid_eq_iff gap).mpr hsteady
  have hlaid : laidTag j.style j.width name (m.flatMap SpacedAttribute.text) ending' depth =
      laidTag j.style j.width name (l.flatMap SpacedAttribute.text) ending depth := hlaid
  rw [Job.layTag, Job.layTag, Job.layOpening_eq hname, Job.layOpening_eq hname,
    ← hpages.depth_eq, hdepth, putOpening_congr hbrackets, hlaid]
  exact .ok (hpages.putOpening name ending _ newLine)

end Layout.RelaidAttributes

/-- An opening tag is laid out as a tag with the attributes that are read of it. -/
theorem relaidTagAt_opening {j : Job} (hj : j.IsPlain) {depth : Nat} {name gap gap' : Text}
    {l m : List SpacedAttribute} {ending ending' : Ending} (hname : isTagName name)
    (hgap : ∀ c ∈ gap, isBlank c)
    (ht : (Tag.opening name (l.flatMap SpacedAttribute.text) gap ending).IsPlain)
    (h : RelaidAttributes j.style j.width name ending depth l m gap' ending') :
    RelaidTagAt j depth (.opening name (l.flatMap SpacedAttribute.text) gap ending)
      (.opening name (m.flatMap SpacedAttribute.text) gap' ending') := by
  have hblank : ∀ c ∈ gap', isBlank c := fun c hc => isBlank_of_mem_plainBlanks (h.blanks c hc)
  have hnoOpening : holdsOpening (m.flatMap SpacedAttribute.text ++ gap') = false :=
    h.opening.trans ht.2.1
  have hrelaid : RelaidTag (.opening name (l.flatMap SpacedAttribute.text) gap ending)
      (.opening name (m.flatMap SpacedAttribute.text) gap' ending') := by
    refine ⟨fun r => ?_, fun _ => rfl, h.rawContainer?_eq ht, h.glue?_eq ht.1,
      h.found_eq hj ht.1 hgap, ?_⟩
    · have hread := tag?_opening hname h.plain hblank (fun c hc _ => h.blanks c hc)
        (fun _ => h.quoted) r
      simpa [tags, Tag.written] using hread
    · have hopens := holdsOpening_opening hname hnoOpening ending'
      simpa [Tag.written] using hopens
  exact ⟨hrelaid, h.isPlain_opening hnoOpening, h.written_opening, h.brackets_cases,
    h.laid_eq_iff gap,
    fun hsteady newLine _ _ hdepth hpages => h.agree_layTag hname hsteady newLine hdepth hpages⟩

theorem exists_relaidTagAt {j : Job} (hj : j.IsPlain) (depth : Nat) {t : Tag}
    (hread : ∀ r, tags.run (t.written ++ r) = some (t, r)) (ht : t.IsPlain) :
    ∃ t', RelaidTagAt j depth t t' := by
  have hparts := tag?_eq_some_isRead (hread [])
  cases t with
  | closing lead name trail => exact ⟨_, relaidTagAt_closing j depth hparts⟩
  | opening name attributes gap ending =>
    obtain ⟨l, rfl⟩ := exists_attributes_of_run (hread [])
    have hstyle : j.style.ranking = none := hj.ranking
    obtain ⟨m, gap', ending', hrelaid⟩ :=
      exists_relaidAttributes ht.1 hstyle j.width name ending depth
    exact ⟨_, relaidTagAt_opening hj hparts.1 hparts.2 ht hrelaid⟩

end Tags

namespace Job

variable {j : Job}

/-- The tag is put out after the gap before it. -/
theorem output_layTag {t : Tag} (hread : ∀ r, tags.run (t.written ++ r) = some (t, r))
    {newLine : Bool} {p p' : Page} (hlay : j.layTag t newLine p = .ok p') :
    ∃ depth, p'.output = p.output ++ (gapAt newLine depth ++ j.laid p.depth t) := by
  have hparts := tag?_eq_some_isRead (hread [])
  cases t with
  | closing lead name trail =>
    obtain ⟨r, hpop, hp'⟩ := bind_eq_ok hlay
    have hwritten : (Tag.closing [] name []).written = '<' :: '/' :: (name ++ ['>']) := by
      simp [Tag.written]
    refine ⟨r.depth, ?_⟩
    rw [← Except.ok.inj hp', ← hwritten, output_emit_enclosed r (isEnclosed_written _),
      Page.output_pop hpop]
    rfl
  | opening name attributes gap ending =>
    rw [layTag, layOpening_eq hparts.1] at hlay
    refine ⟨p.depth, ?_⟩
    rw [← Except.ok.inj hlay, output_putOpening]
    exact output_emit_enclosed p (isEnclosed_opening name _ ending) newLine

end Job

end ErbLayout
