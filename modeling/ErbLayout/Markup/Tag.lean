import ErbLayout.Markup.Name
import ErbLayout.Text.Recogniser

/-!
Tags as they are written. A closing tag is a name between `</` and `>`, blanks allowed on both
sides; an opening tag is a name, attributes that each follow at least one blank, blanks, and `>` or
`/>`. The recogniser gives the parts of a tag, and the parts written one after the other are the
tag.

An attribute has a value in apostrophes, a value in quotation marks, a value without quotes, or
none, and these forms are tried in that order. Blanks outside ASCII may also stand inside a name, so
the blanks before an attribute are taken as long as possible and given back one by one.
-/

namespace ErbLayout.Markup

open Text

inductive Ending where
  | plain
  | slash
  deriving DecidableEq, Repr

def Ending.written : Ending → Text
  | .plain => ['>']
  | .slash => ['/', '>']

inductive Tag where
  | opening (name attributes gap : Text) (ending : Ending)
  | closing (lead name trail : Text)
  deriving DecidableEq, Repr

def Tag.written : Tag → Text
  | .opening name attributes gap ending => '<' :: (name ++ attributes ++ gap ++ ending.written)
  | .closing lead name trail => '<' :: '/' :: (lead ++ name ++ trail ++ ['>'])

/-- The longest start of the text in `p`, and the rest. -/
def spanOf (p : Char → Bool) (s : Text) : Text × Text := (s.takeWhile p, s.dropWhile p)

theorem spanOf_append (p : Char → Bool) (s : Text) : (spanOf p s).1 ++ (spanOf p s).2 = s := by
  simp [spanOf]

/-- A value up to the quote `q` that ends it, the quote included. -/
def quotedRest? (q : Char) (s : Text) : Option (Text × Text) :=
  match spanOf (· != q) s with
  | (value, q' :: rest) => some (value ++ [q'], rest)
  | (_, []) => none

def valuedAttribute? (s : Text) : Option (Text × Text) :=
  let name := (spanOf isAttributeNameChar s).1
  if name.isEmpty || name.getLast? == some '/' then none
  else
    match (spanOf isAttributeNameChar s).2 with
    | '=' :: '\'' :: r => (quotedRest? '\'' r).map fun (v, rest) => (name ++ '=' :: '\'' :: v, rest)
    | '=' :: '"' :: r => (quotedRest? '"' r).map fun (v, rest) => (name ++ '=' :: '"' :: v, rest)
    | '=' :: r =>
      let (value, rest) := spanOf isBareValueChar r
      if value.isEmpty then none else some (name ++ '=' :: value, rest)
    | _ => none

/-- A text without the slashes it ends with. -/
def dropFinalSlashes : Text → Text
  | [] => []
  | c :: cs =>
    match dropFinalSlashes cs with
    | [] => if c = '/' then [] else [c]
    | d :: ds => c :: d :: ds

def bareAttribute? (s : Text) : Option (Text × Text) :=
  let name := dropFinalSlashes (spanOf isAttributeNameChar s).1
  if name.isEmpty then none else some (name, s.drop name.length)

/-- The ways to part the blanks at the start from the rest, most blanks first and at least one. -/
def blankSplits (s : Text) : List (Text × Text) :=
  ((List.range (spanOf isBlank s).1.length).map fun k => (s.take (k + 1), s.drop (k + 1))).reverse

def spacedAttribute? (s : Text) : Option (Text × Text) :=
  let after (read : Text → Option (Text × Text)) : Option (Text × Text) :=
    (blankSplits s).findSome? fun (blanks, r) => (read r).map fun (a, rest) => (blanks ++ a, rest)
  (after valuedAttribute?).or (after bareAttribute?)

theorem quotedRest?_eq_some {q : Char} {s v r : Text} (h : quotedRest? q s = some (v, r)) :
    s = v ++ r := by
  unfold quotedRest? at h
  have hs := spanOf_append (· != q) s
  split at h
  next value q' rest heq =>
    rw [heq] at hs
    obtain ⟨rfl, rfl⟩ : value ++ [q'] = v ∧ rest = r := by simpa using h
    simpa using hs.symm
  next => simp at h

theorem valuedAttribute?_eq_some {s a r : Text} (h : valuedAttribute? s = some (a, r)) :
    s = a ++ r := by
  unfold valuedAttribute? at h
  have hs := spanOf_append isAttributeNameChar s
  simp only at h
  split at h
  · simp at h
  · generalize hspan : spanOf isAttributeNameChar s = parts at h hs
    obtain ⟨name, tail⟩ := parts
    simp only at h hs
    split at h
    next r' =>
      obtain ⟨⟨v, rest⟩, hv, heq⟩ := Option.map_eq_some_iff.1 h
      obtain ⟨rfl, rfl⟩ : name ++ '=' :: '\'' :: v = a ∧ rest = r := by simpa using heq
      rw [quotedRest?_eq_some hv] at hs
      simpa using hs.symm
    next r' =>
      obtain ⟨⟨v, rest⟩, hv, heq⟩ := Option.map_eq_some_iff.1 h
      obtain ⟨rfl, rfl⟩ : name ++ '=' :: '"' :: v = a ∧ rest = r := by simpa using heq
      rw [quotedRest?_eq_some hv] at hs
      simpa using hs.symm
    next r' _ _ =>
      have hv := spanOf_append isBareValueChar r'
      split at h
      · simp at h
      · obtain ⟨rfl, rfl⟩ : name ++ '=' :: (spanOf isBareValueChar r').1 = a
            ∧ (spanOf isBareValueChar r').2 = r := by simpa using h
        rw [← hv] at hs
        simpa [spanOf] using hs.symm
    next => simp at h

theorem dropFinalSlashes_isPrefix (s : Text) : dropFinalSlashes s <+: s := by
  induction s with
  | nil => simp [dropFinalSlashes]
  | cons c s ih =>
    cases h : dropFinalSlashes s with
    | nil => by_cases hc : c = '/' <;> simp [dropFinalSlashes, h, hc]
    | cons d ds =>
      rw [h] at ih
      simpa [dropFinalSlashes, h] using ih

theorem bareAttribute?_eq_some {s a r : Text} (h : bareAttribute? s = some (a, r)) :
    s = a ++ r := by
  unfold bareAttribute? at h
  simp only at h
  split at h
  · simp at h
  · obtain ⟨rfl, rfl⟩ := by simpa using h
    have hname : dropFinalSlashes (spanOf isAttributeNameChar s).1 <+: s :=
      (dropFinalSlashes_isPrefix _).trans ⟨_, spanOf_append isAttributeNameChar s⟩
    obtain ⟨t, ht⟩ := hname
    have hdrop := congrArg (List.drop (dropFinalSlashes (spanOf isAttributeNameChar s).1).length) ht
    rw [← hdrop]
    simpa using ht.symm

theorem blankSplits_mem {s b r : Text} (h : (b, r) ∈ blankSplits s) : s = b ++ r ∧ b ≠ [] := by
  simp only [blankSplits, List.mem_reverse, List.mem_map, List.mem_range] at h
  obtain ⟨k, hk, heq⟩ := h
  obtain ⟨rfl, rfl⟩ : s.take (k + 1) = b ∧ s.drop (k + 1) = r := by simpa using heq
  refine ⟨by simp, ?_⟩
  have hs : s ≠ [] := by rintro rfl; simp [spanOf] at hk
  simp [hs]

/-- Blanks, attribute and rest make up the text, and there is at least one blank. -/
theorem spacedAttribute?_eq_some {s a r : Text} (h : spacedAttribute? s = some (a, r)) :
    s = a ++ r ∧ a ≠ [] := by
  have key : ∀ (read : Text → Option (Text × Text)),
      (∀ {s a r}, read s = some (a, r) → s = a ++ r) →
      (blankSplits s).findSome? (fun (blanks, r) => (read r).map fun (a, rest) =>
        (blanks ++ a, rest)) = some (a, r) → s = a ++ r ∧ a ≠ [] := by
    intro read hread hfind
    obtain ⟨⟨b, t⟩, hmem, hmap⟩ := List.exists_of_findSome?_eq_some hfind
    obtain ⟨hs, hne⟩ := blankSplits_mem hmem
    obtain ⟨⟨a', rest⟩, ha, heq⟩ := Option.map_eq_some_iff.1 hmap
    obtain ⟨rfl, rfl⟩ : b ++ a' = a ∧ rest = r := by simpa using heq
    rw [hread ha] at hs
    exact ⟨by simpa using hs, by simp [hne]⟩
  simp only [spacedAttribute?, Option.or_eq_some_iff] at h
  rcases h with h | ⟨_, h⟩
  · exact key _ valuedAttribute?_eq_some h
  · exact key _ bareAttribute?_eq_some h

def attributeList (s : Text) : Text × Text :=
  match _h : spacedAttribute? s with
  | none => ([], s)
  | some (a, r) => (a ++ (attributeList r).1, (attributeList r).2)
termination_by s.length
decreasing_by
  all_goals
    obtain ⟨rfl, hne⟩ := spacedAttribute?_eq_some (by assumption)
    have := List.length_pos_iff.2 hne
    simp only [List.length_append]
    omega

theorem attributeList_append (s : Text) : (attributeList s).1 ++ (attributeList s).2 = s := by
  fun_induction attributeList s with
  | case1 => simp
  | case2 s a r h ih =>
    simp only [List.append_assoc]
    rw [ih]
    exact (spacedAttribute?_eq_some h).1.symm

def closingTag? (s : Text) : Option (Tag × Text) :=
  let (lead, r) := spanOf isBlank s
  let (name, r) := spanOf isTagNameChar r
  let (trail, r) := spanOf isBlank r
  if name.isEmpty then none
  else
    match r with
    | '>' :: rest => some (.closing lead name trail, rest)
    | _ => none

def openingTag? (s : Text) : Option (Tag × Text) :=
  let (name, r) := spanOf isTagNameChar s
  let (attributes, r) := attributeList r
  let (gap, r) := spanOf isBlank r
  if name.isEmpty then none
  else
    match r with
    | '>' :: rest => some (.opening name attributes gap .plain, rest)
    | '/' :: '>' :: rest => some (.opening name attributes gap .slash, rest)
    | _ => none

def tag? : Text → Option (Tag × Text)
  | '<' :: '/' :: r => closingTag? r
  | '<' :: r => openingTag? r
  | _ => none

theorem closingTag?_eq_some {s r : Text} {t : Tag} (h : closingTag? s = some (t, r)) :
    '<' :: '/' :: s = t.written ++ r := by
  unfold closingTag? at h
  simp only at h
  have h1 := spanOf_append isBlank s
  have h2 := spanOf_append isTagNameChar (spanOf isBlank s).2
  have h3 := spanOf_append isBlank (spanOf isTagNameChar (spanOf isBlank s).2).2
  split at h
  · simp at h
  · split at h
    next rest heq =>
      obtain ⟨rfl, rfl⟩ := by simpa using h
      rw [heq] at h3
      rw [← h3] at h2
      rw [← h2] at h1
      simp only [Tag.written, List.cons_append, List.append_assoc, List.nil_append]
      rw [h1]
    next => simp at h

theorem openingTag?_eq_some {s r : Text} {t : Tag} (h : openingTag? s = some (t, r)) :
    '<' :: s = t.written ++ r := by
  unfold openingTag? at h
  simp only at h
  have h1 := spanOf_append isTagNameChar s
  have h2 := attributeList_append (spanOf isTagNameChar s).2
  have h3 := spanOf_append isBlank (attributeList (spanOf isTagNameChar s).2).2
  split at h
  · simp at h
  · split at h
    next rest heq =>
      obtain ⟨rfl, rfl⟩ := by simpa using h
      rw [heq] at h3
      rw [← h3] at h2
      rw [← h2] at h1
      simp only [Tag.written, Ending.written, List.cons_append, List.append_assoc, List.nil_append]
      rw [h1]
    next rest heq =>
      obtain ⟨rfl, rfl⟩ := by simpa using h
      rw [heq] at h3
      rw [← h3] at h2
      rw [← h2] at h1
      simp only [Tag.written, Ending.written, List.cons_append, List.append_assoc, List.nil_append]
      rw [h1]
    next => simp at h

def tags : Recogniser Tag where
  run := tag?
  written := Tag.written
  sound s t r h := by
    refine ⟨?_, by cases t <;> simp [Tag.written]⟩
    unfold tag? at h
    split at h
    · exact closingTag?_eq_some h
    · exact openingTag?_eq_some h
    · simp at h

/-- Whether the tag closes an element called `name`. -/
def Tag.closes (name : Text) : Tag → Bool
  | .closing _ n _ => n == name
  | .opening .. => false

/-- The recogniser of the tags that close an element called `name`. -/
def closers (name : Text) : Recogniser Tag := tags.filter (Tag.closes name)

def rawClosers : Recogniser Tag :=
  tags.filter fun t => rawTextElements.any fun name => t.closes name

def Tag.rawContainer? : Tag → Option Text
  | .opening name _ _ .plain => if rawTextElements.contains name then some name else none
  | _ => none

end ErbLayout.Markup
