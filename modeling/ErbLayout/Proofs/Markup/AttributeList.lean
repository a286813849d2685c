import ErbLayout.Markup.Attribute
import ErbLayout.Proofs.Text.Blank
import ErbLayout.Proofs.Text.Occurrence

/-!
Reading the attributes of a tag. What is read is blanks and attributes one after the other, and it
is settled by the text up to the `>` that ends the tag. The one reader that could run on is that of
a quoted value, and a quote that is not closed inside the tag leaves an equals sign where the tag
would have to go on.
-/

namespace ErbLayout.Markup

open Text

/-- The longest start in `p` ends where a character outside `p` follows. -/
theorem spanOf_append_eq {p : Char → Bool} {a b : Text} (ha : ∀ c ∈ a, p c)
    (hb : ∀ c ∈ b.head?, p c = false) : spanOf p (a ++ b) = (a, b) := by
  have hstop : b.takeWhile p = [] ∧ b.dropWhile p = b := by
    cases b with
    | nil => simp
    | cons c b =>
      have hc : p c = false := hb c rfl
      simp [hc]
  rw [spanOf, List.takeWhile_append_of_pos ha, List.dropWhile_append_of_pos ha, hstop.1, hstop.2,
    List.append_nil]

theorem mem_spanOf {p : Char → Bool} {s : Text} {c : Char} (h : c ∈ (spanOf p s).1) : p c :=
  List.all_eq_true.mp List.all_takeWhile c h

theorem head?_spanOf {p : Char → Bool} {s : Text} {c : Char} (h : c ∈ (spanOf p s).2.head?) :
    p c = false := by
  have := List.head?_dropWhile_not p s
  simp only [spanOf] at h
  rw [Option.mem_def.mp h] at this
  simpa using this

theorem length_spanOf_le (p : Char → Bool) (s : Text) : (spanOf p s).1.length ≤ s.length := by
  have hwhole := congrArg List.length (spanOf_append p s)
  rw [List.length_append] at hwhole
  omega

/-- An attribute name: name characters, the last of which is no slash. -/
structure IsAttributeName (name : Text) : Prop where
  ne_nil : name ≠ []
  chars : ∀ c ∈ name, isAttributeNameChar c
  last : name.getLast? ≠ some '/'

/-- How an attribute is written. -/
inductive IsAttribute : Text → Attribute → Prop
  | name {name : Text} : IsAttributeName name → IsAttribute name ⟨name, none, .bare⟩
  | quoted {name value : Text} {q : Char} {quote : Quote} : IsAttributeName name → quote ≠ .bare →
      quote.written = [q] → q ∉ value → IsAttribute (name ++ '=' :: q :: (value ++ [q]))
      ⟨name, some value, quote⟩
  | bare {name value : Text} : IsAttributeName name → value ≠ [] →
      (∀ c ∈ value, isBareValueChar c) →
      IsAttribute (name ++ '=' :: value) ⟨name, some value, .bare⟩

/-- Blanks and the attribute after them. -/
structure SpacedAttribute where
  blanks : Text
  written : Text
  parsed : Attribute
  ne_nil : blanks ≠ []
  blank : ∀ c ∈ blanks, isBlank c
  isAttribute : IsAttribute written parsed

def SpacedAttribute.text (x : SpacedAttribute) : Text := x.blanks ++ x.written

theorem IsAttributeName.eq_notMem {name : Text} (h : IsAttributeName name) : '=' ∉ name := by
  intro hmem
  have := h.chars '=' hmem
  revert this
  decide

theorem IsAttributeName.of_append {s name : Text} (h : IsAttributeName (s ++ name))
    (hne : name ≠ []) :
    IsAttributeName name := by
  refine ⟨hne, fun c hc => h.chars c (List.mem_append_right s hc), ?_⟩
  intro hlast
  refine h.last ?_
  rw [List.getLast?_append, hlast]
  rfl

/-- An equals sign ends the name before it. -/
theorem isAttributeNameChar_eq_false_of_eq (t : Text) :
    ∀ c ∈ ('=' :: t).head?, isAttributeNameChar c = false := by
  intro c hc
  obtain rfl : '=' = c := by simpa using hc
  decide

theorem quotedRest?_append_cons {q : Char} {u : Text} (hu : q ∉ u) (v : Text) :
    quotedRest? q (u ++ q :: v) = some (u ++ [q], v) := by
  have hin : ∀ c ∈ u, (c != q) = true := by
    intro c hc
    simpa using fun heq : c = q => hu (heq ▸ hc)
  have hspan : spanOf (· != q) (u ++ q :: v) = (u, q :: v) :=
    spanOf_append_eq hin (by simp)
  simp [quotedRest?, hspan]

theorem quotedRest?_eq_some_iff {q : Char} {s v r : Text} :
    quotedRest? q s = some (v, r) ↔ ∃ u, q ∉ u ∧ v = u ++ [q] ∧ s = u ++ q :: r := by
  constructor
  · intro h
    unfold quotedRest? at h
    have hs := spanOf_append (· != q) s
    have hin : ∀ c ∈ (spanOf (· != q) s).1, (c != q) = true :=
      fun c hc => mem_spanOf (p := (· != q)) hc
    have hhead : ∀ c ∈ (spanOf (· != q) s).2.head?, (c != q) = false :=
      fun c hc => head?_spanOf (p := (· != q)) hc
    split at h
    next value q' rest heq =>
      rw [heq] at hs hin hhead
      obtain rfl : q' = q := by simpa using hhead q' rfl
      obtain ⟨rfl, rfl⟩ : value ++ [q'] = v ∧ rest = r := by simpa using h
      refine ⟨value, ?_, rfl, hs.symm⟩
      intro hmem
      simpa using hin q' hmem
    next => simp at h
  · rintro ⟨u, hu, rfl, rfl⟩
    exact quotedRest?_append_cons hu r


/-- What is read as an attribute with a value has one of its forms. -/
theorem isAttribute_of_valuedAttribute? {s a r : Text} (h : valuedAttribute? s = some (a, r)) :
    ∃ x, IsAttribute a x ∧ x.value.isSome := by
  unfold valuedAttribute? at h
  have hname : ∀ c ∈ (spanOf isAttributeNameChar s).1, isAttributeNameChar c :=
    fun c hc => mem_spanOf hc
  generalize spanOf isAttributeNameChar s = parts at h hname
  obtain ⟨name, tail⟩ := parts
  simp only at h hname
  split at h
  · simp at h
  next hbad =>
    obtain ⟨hne, hslash⟩ : name ≠ [] ∧ name.getLast? ≠ some '/' := by simpa using hbad
    have hisName : IsAttributeName name := ⟨hne, hname, hslash⟩
    split at h
    · obtain ⟨⟨v, rest⟩, hv, heq⟩ := Option.map_eq_some_iff.1 h
      obtain ⟨u, hu, rfl, -⟩ := quotedRest?_eq_some_iff.mp hv
      obtain ⟨rfl, -⟩ : name ++ '=' :: '\'' :: (u ++ ['\'']) = a ∧ rest = r := by simpa using heq
      exact ⟨⟨name, some u, .apostrophe⟩, .quoted hisName (by simp) rfl hu, rfl⟩
    · obtain ⟨⟨v, rest⟩, hv, heq⟩ := Option.map_eq_some_iff.1 h
      obtain ⟨u, hu, rfl, -⟩ := quotedRest?_eq_some_iff.mp hv
      obtain ⟨rfl, -⟩ : name ++ '=' :: '"' :: (u ++ ['"']) = a ∧ rest = r := by simpa using heq
      exact ⟨⟨name, some u, .quotation⟩, .quoted hisName (by simp) rfl hu, rfl⟩
    next value _ _ =>
      split at h
      · simp at h
      next hempty =>
        obtain ⟨rfl, -⟩ := by simpa using h
        exact ⟨_, .bare hisName (by simpa using hempty) fun c hc => mem_spanOf hc, rfl⟩
    · simp at h

theorem getLast?_dropFinalSlashes (s : Text) : (dropFinalSlashes s).getLast? ≠ some '/' := by
  induction s with
  | nil => simp [dropFinalSlashes]
  | cons c s ih =>
    cases h : dropFinalSlashes s with
    | nil => by_cases hc : c = '/' <;> simp [dropFinalSlashes, h, hc]
    | cons d ds =>
      rw [h] at ih
      simpa [dropFinalSlashes, h] using ih

theorem isAttributeName_of_bareAttribute? {s a r : Text} (h : bareAttribute? s = some (a, r)) :
    IsAttributeName a := by
  unfold bareAttribute? at h
  dsimp only at h
  split at h
  · simp at h
  next hne =>
    obtain ⟨rfl, -⟩ := Prod.mk.inj (Option.some.inj h)
    refine ⟨by simpa using hne, fun c hc => ?_, getLast?_dropFinalSlashes _⟩
    exact mem_spanOf ((dropFinalSlashes_isPrefix _).subset hc)

theorem dropFinalSlashes_eq_self {s : Text} (h : s.getLast? ≠ some '/') :
    dropFinalSlashes s = s := by
  induction s with
  | nil => rfl
  | cons c s ih =>
    cases s with
    | nil =>
      have hc : c ≠ '/' := by simpa using h
      simp [dropFinalSlashes, hc]
    | cons d s =>
      have htail := ih (by simpa using h)
      rw [dropFinalSlashes, htail]

theorem bareAttribute?_append_eq {name : Text} (hname : IsAttributeName name) (t : Text) :
    bareAttribute? (name ++ '=' :: t) = some (name, '=' :: t) := by
  have hspan := spanOf_append_eq hname.chars (isAttributeNameChar_eq_false_of_eq t)
  simp [bareAttribute?, hspan, dropFinalSlashes_eq_self hname.last, hname.ne_nil]

theorem isBlank_of_mem_blankSplits {s b r : Text} (h : (b, r) ∈ blankSplits s) :
    ∀ c ∈ b, isBlank c := by
  simp only [blankSplits, List.mem_reverse, List.mem_map, List.mem_range] at h
  obtain ⟨k, hk, heq⟩ := h
  obtain ⟨rfl, -⟩ : s.take (k + 1) = b ∧ s.drop (k + 1) = r := by simpa using heq
  have hwhole := spanOf_append isBlank s
  intro c hc
  rw [← hwhole, List.take_append_of_le_length hk] at hc
  exact mem_spanOf (List.mem_of_mem_take hc)

theorem eq_notMem_of_mem_blankSplits {s b r : Text} (h : (b, r) ∈ blankSplits s) : '=' ∉ b := by
  intro hmem
  have := isBlank_of_mem_blankSplits h '=' hmem
  revert this
  decide

/-- More blanks come first. -/
theorem pairwise_blankSplits (s : Text) :
    (blankSplits s).Pairwise fun x y => y.1.length < x.1.length := by
  have hlength := length_spanOf_le isBlank s
  unfold blankSplits
  rw [List.pairwise_reverse, List.pairwise_map]
  refine List.Pairwise.imp_of_mem ?_ List.pairwise_lt_range
  intro i j hi hj hij
  rw [List.mem_range] at hi hj
  simp only [List.length_take]
  omega

/-- Of two ways to part the blanks, the longer goes on from where the shorter ends. -/
theorem exists_append_of_mem_blankSplits {s b r b' r' : Text} (h : (b, r) ∈ blankSplits s)
    (h' : (b', r') ∈ blankSplits s) (hlength : b.length ≤ b'.length) :
    ∃ w, b' = b ++ w ∧ r = w ++ r' := by
  obtain ⟨hs, -⟩ := blankSplits_mem h
  obtain ⟨hs', -⟩ := blankSplits_mem h'
  obtain ⟨w, rfl⟩ : b <+: b' := List.prefix_of_prefix_length_le ⟨r, hs.symm⟩ ⟨r', hs'.symm⟩ hlength
  refine ⟨w, rfl, ?_⟩
  rw [hs, List.append_assoc] at hs'
  exact List.append_cancel_left hs'

def afterBlanks (read : Text → Option (Text × Text)) (s : Text) : Option (Text × Text) :=
  (blankSplits s).findSome? fun (b, r) => (read r).map fun (a, rest) => (b ++ a, rest)

theorem spacedAttribute?_eq (s : Text) :
    spacedAttribute? s = (afterBlanks valuedAttribute? s).or (afterBlanks bareAttribute? s) := rfl

section
variable {read : Text → Option (Text × Text)} {s : Text}

theorem afterBlanks_eq_some {a rest : Text} (h : afterBlanks read s = some (a, rest)) :
    ∃ b r a', (b, r) ∈ blankSplits s ∧ read r = some (a', rest) ∧ a = b ++ a' := by
  obtain ⟨⟨b, r⟩, hmem, hmap⟩ := List.exists_of_findSome?_eq_some h
  obtain ⟨⟨a', rest'⟩, hread, heq⟩ := Option.map_eq_some_iff.1 hmap
  obtain ⟨rfl, rfl⟩ : b ++ a' = a ∧ rest' = rest := by simpa using heq
  exact ⟨b, r, a', hmem, hread, rfl⟩

/-- Where an attribute can be read after some blanks, one is read after at least as many. -/
theorem afterBlanks_of_mem {b r : Text} (hmem : (b, r) ∈ blankSplits s) (hsome : (read r).isSome) :
    ∃ b' r' a rest, (b', r') ∈ blankSplits s ∧ b.length ≤ b'.length ∧ read r' = some (a, rest) ∧
      afterBlanks read s = some (b' ++ a, rest) := by
  obtain ⟨⟨a₀, rest₀⟩, hread₀⟩ := Option.isSome_iff_exists.mp hsome
  cases hfind : afterBlanks read s with
  | none =>
    have hnone := List.findSome?_eq_none_iff.mp hfind _ hmem
    simp [hread₀] at hnone
  | some x =>
    obtain ⟨l₁, ⟨b', r'⟩, l₂, hsplits, hmap, hbefore⟩ := List.findSome?_eq_some_iff.mp hfind
    obtain ⟨⟨a, rest⟩, hread, rfl⟩ := Option.map_eq_some_iff.1 hmap
    refine ⟨b', r', a, rest, by rw [hsplits]; simp, ?_, hread, rfl⟩
    have hpairs := pairwise_blankSplits s
    rw [hsplits] at hmem hpairs
    rcases List.mem_append.mp hmem with hin | hin
    · have hnone := hbefore _ hin
      simp [hread₀] at hnone
    · rcases List.mem_cons.mp hin with heq | hin
      · obtain ⟨rfl, -⟩ := Prod.mk.inj heq
        exact Nat.le_refl _
      · exact Nat.le_of_lt ((List.pairwise_cons.mp (List.pairwise_append.mp hpairs).2.1).1 _ hin)

end

theorem exists_spacedAttribute {s a r : Text} (h : spacedAttribute? s = some (a, r)) :
    ∃ x : SpacedAttribute, a = x.text := by
  rw [spacedAttribute?_eq, Option.or_eq_some_iff] at h
  rcases h with h | ⟨-, h⟩
  · obtain ⟨b, t, a', hmem, hread, rfl⟩ := afterBlanks_eq_some h
    obtain ⟨x, hx, -⟩ := isAttribute_of_valuedAttribute? hread
    exact ⟨⟨b, a', x, (blankSplits_mem hmem).2, isBlank_of_mem_blankSplits hmem, hx⟩, rfl⟩
  · obtain ⟨b, t, a', hmem, hread, rfl⟩ := afterBlanks_eq_some h
    have hx := IsAttribute.name (isAttributeName_of_bareAttribute? hread)
    exact ⟨⟨b, a', _, (blankSplits_mem hmem).2, isBlank_of_mem_blankSplits hmem, hx⟩, rfl⟩

/-- The attributes of a tag are blanks and attributes one after the other. -/
theorem exists_attributeList (s : Text) :
    ∃ l : List SpacedAttribute, (attributeList s).1 = l.flatMap SpacedAttribute.text := by
  fun_induction attributeList s with
  | case1 => exact ⟨[], rfl⟩
  | case2 s a r hsome ih =>
    obtain ⟨l, hl⟩ := ih
    obtain ⟨x, rfl⟩ := exists_spacedAttribute hsome
    exact ⟨x :: l, by rw [hl, List.flatMap_cons]⟩

theorem attributeList_head (s : Text) :
    (attributeList s).1 = [] ∨ ∃ c t, (attributeList s).1 = c :: t ∧ isBlank c := by
  obtain ⟨l, hl⟩ := exists_attributeList s
  rw [hl]
  cases l with
  | nil => exact Or.inl rfl
  | cons x l =>
    obtain ⟨c, b, hb⟩ := List.exists_cons_of_ne_nil x.ne_nil
    refine Or.inr ⟨c, b ++ x.written ++ l.flatMap SpacedAttribute.text, ?_,
      x.blank c (by simp [hb])⟩
    simp [SpacedAttribute.text, hb]

/-- A text that ends with the sign that ends tags. -/
def Sealed (s : Text) : Prop := s.getLast? = some '>'

theorem Sealed.ne_nil {s : Text} (h : Sealed s) : s ≠ [] := by
  rintro rfl
  simp [Sealed] at h

theorem Sealed.of_append {s t : Text} (h : Sealed (s ++ t)) (ht : t ≠ []) : Sealed t := by
  obtain ⟨u, c, rfl⟩ := (List.eq_nil_or_concat t).resolve_left ht
  simpa [Sealed] using h

theorem sealed_append (s : Text) {t : Text} (h : Sealed t) : Sealed (s ++ t) := by
  simp only [Sealed] at h ⊢
  simp [h]

/-- A run of characters that leaves out `>` ends inside a sealed text, whatever follows. -/
theorem Sealed.spanOf_append {p : Char → Bool} (hp : p '>' = false) {s : Text} (h : Sealed s)
    (z : Text) :
    spanOf p (s ++ z) = ((spanOf p s).1, (spanOf p s).2 ++ z) ∧ Sealed (spanOf p s).2 := by
  have hs := Markup.spanOf_append p s
  have hne : (spanOf p s).2 ≠ [] := by
    intro hnil
    rw [hnil, List.append_nil] at hs
    have hmem : '>' ∈ (spanOf p s).1 := by
      rw [hs]
      exact List.mem_of_getLast? h
    rw [mem_spanOf hmem] at hp
    simp at hp
  refine ⟨?_, Sealed.of_append (by rw [hs]; exact h) hne⟩
  have hhead : ∀ c ∈ ((spanOf p s).2 ++ z).head?, p c = false := by
    intro c hc
    rw [List.head?_append, Option.or_of_isSome (by simpa using hne)] at hc
    exact head?_spanOf hc
  have hin : ∀ c ∈ (spanOf p s).1, p c := fun c hc => mem_spanOf hc
  have heq := spanOf_append_eq hin hhead
  rwa [← List.append_assoc, hs] at heq

/-- What a reader gives for a text that has `z` after it. -/
def followedBy (z : Text) (o : Option (Text × Text)) : Option (Text × Text) :=
  o.map fun (a, r) => (a, r ++ z)

/-- The characters that stand around a quoted value. -/
def IsQuoteMark (q : Char) : Prop := q = '\'' ∨ q = '"'

/-- An attribute name, an equals sign and a quote that is not closed. -/
def Unclosed (s : Text) : Prop :=
  ∃ name q rest, s = name ++ '=' :: q :: rest ∧ IsAttributeName name ∧ IsQuoteMark q ∧ q ∉ rest

theorem quotedRest?_append {q : Char} {s : Text} (h : q ∈ s) (z : Text) :
    quotedRest? q (s ++ z) = followedBy z (quotedRest? q s) := by
  obtain ⟨u, v, rfl, hu⟩ := List.eq_append_cons_of_mem h
  rw [List.append_assoc, List.cons_append, quotedRest?_append_cons hu, quotedRest?_append_cons hu]
  rfl

/-- Whether an attribute with a value can be read, and which, is settled inside a sealed text,
unless a quote is not closed there. -/
theorem valuedAttribute?_append {s : Text} (hs : Sealed s) (hq : ¬ Unclosed s) (z : Text) :
    valuedAttribute? (s ++ z) = followedBy z (valuedAttribute? s) := by
  obtain ⟨hspan, hsealed⟩ := hs.spanOf_append (p := isAttributeNameChar) (by decide) z
  have hwhole := spanOf_append isAttributeNameChar s
  have hname : ∀ c ∈ (spanOf isAttributeNameChar s).1, isAttributeNameChar c :=
    fun c hc => mem_spanOf hc
  unfold valuedAttribute?
  rw [hspan]
  generalize spanOf isAttributeNameChar s = parts at hsealed hwhole hname ⊢
  obtain ⟨name, tail⟩ := parts
  simp only at hsealed hwhole hname ⊢
  by_cases hbad : (name.isEmpty || name.getLast? == some '/') = true
  · simp [hbad, followedBy]
  · simp only [hbad]
    obtain ⟨hne, hslash⟩ : name ≠ [] ∧ name.getLast? ≠ some '/' := by simpa using hbad
    -- an unclosed quote after this name would make the whole text unclosed
    have hclosed : ∀ q rest, IsQuoteMark q → tail = '=' :: q :: rest → q ∈ rest := by
      intro q rest hquote htail
      by_contra hnot
      exact hq ⟨name, q, rest, by rw [← hwhole, htail], ⟨hne, hname, hslash⟩, hquote, hnot⟩
    cases tail with
    | nil => exact absurd rfl hsealed.ne_nil
    | cons c tail =>
      by_cases hc : c = '='
      · subst hc
        have htail : Sealed tail := by
          refine Sealed.of_append (s := ['=']) hsealed ?_
          rintro rfl
          simp [Sealed] at hsealed
        cases tail with
        | nil => exact absurd rfl htail.ne_nil
        | cons d rest =>
          by_cases happos : d = '\''
          · subst happos
            simp [quotedRest?_append (hclosed _ _ (Or.inl rfl) rfl), followedBy, Option.map_map,
              Function.comp_def]
          · by_cases hquot : d = '"'
            · subst hquot
              simp [quotedRest?_append (hclosed _ _ (Or.inr rfl) rfl), followedBy, Option.map_map,
                Function.comp_def]
            · obtain ⟨hvalue, -⟩ := htail.spanOf_append (p := isBareValueChar) (by decide) z
              rw [List.cons_append] at hvalue
              by_cases hempty : (spanOf isBareValueChar (d :: rest)).1 = []
              · simp [happos, hquot, hvalue, hempty, followedBy]
              · simp [happos, hquot, hvalue, hempty, followedBy]
      · simp [hc, followedBy]

theorem bareAttribute?_append {s : Text} (hs : Sealed s) (z : Text) :
    bareAttribute? (s ++ z) = followedBy z (bareAttribute? s) := by
  obtain ⟨hspan, -⟩ := hs.spanOf_append (p := isAttributeNameChar) (by decide) z
  have hlength : (dropFinalSlashes (spanOf isAttributeNameChar s).1).length ≤ s.length :=
    Nat.le_trans (dropFinalSlashes_isPrefix _).length_le (length_spanOf_le _ s)
  unfold bareAttribute?
  rw [hspan]
  by_cases hempty : dropFinalSlashes (spanOf isAttributeNameChar s).1 = []
  · simp [hempty, followedBy]
  · simp [hempty, followedBy, List.drop_append_of_le_length hlength]

theorem blankSplits_append {s : Text} (hs : Sealed s) (z : Text) :
    blankSplits (s ++ z) = (blankSplits s).map fun (b, r) => (b, r ++ z) := by
  obtain ⟨hspan, -⟩ := hs.spanOf_append (p := isBlank) (by decide) z
  have hlength := length_spanOf_le isBlank s
  unfold blankSplits
  rw [hspan, List.map_reverse, List.map_map]
  congr 1
  apply List.map_congr_left
  intro k hk
  have hk : k + 1 ≤ s.length := by
    simp only [List.mem_range] at hk
    omega
  simp [List.take_append_of_le_length hk, List.drop_append_of_le_length hk]

theorem Sealed.of_mem_blankSplits {s b r : Text} (hs : Sealed s) (h : (b, r) ∈ blankSplits s) :
    Sealed r := by
  obtain ⟨rfl, -⟩ := blankSplits_mem h
  refine hs.of_append ?_
  rintro rfl
  rw [List.append_nil] at hs
  have hblank := isBlank_of_mem_blankSplits h '>' (List.mem_of_getLast? hs)
  revert hblank
  decide

theorem afterBlanks_append {read : Text → Option (Text × Text)} {s z : Text} (hs : Sealed s)
    (hread : ∀ b r, (b, r) ∈ blankSplits s → read (r ++ z) = followedBy z (read r)) :
    afterBlanks read (s ++ z) = followedBy z (afterBlanks read s) := by
  unfold afterBlanks
  rw [blankSplits_append hs, List.findSome?_map, followedBy, List.map_findSome?]
  generalize blankSplits s = splits at hread
  induction splits with
  | nil => rfl
  | cons x splits ih =>
    obtain ⟨b, r⟩ := x
    have hhead := hread b r (List.mem_cons_self ..)
    have htail := ih fun b' r' hmem => hread b' r' (List.mem_cons_of_mem _ hmem)
    simp only [List.findSome?_cons, Function.comp_apply, hhead, htail, followedBy, Option.map_map]
    rfl

theorem cutFirst?_append_cons {c : Char} {u : Text} (hu : c ∉ u) (v : Text) :
    cutFirst? c (u ++ c :: v) = some (u, v) := by
  induction u with
  | nil => simp [cutFirst?]
  | cons d u ih =>
    obtain ⟨hd, hu⟩ : c ≠ d ∧ c ∉ u := by simpa using hu
    simp [cutFirst?, Ne.symm hd, ih hu]

/-- A text has one first `c`. -/
theorem append_cons_inj_of_notMem {c : Char} {u u' v v' : Text} (hu : c ∉ u) (hu' : c ∉ u')
    (h : u ++ c :: v = u' ++ c :: v') : u = u' ∧ v = v' := by
  have hcut := cutFirst?_append_cons hu v
  rw [h, cutFirst?_append_cons hu' v'] at hcut
  exact Prod.mk.inj (Option.some.inj hcut.symm)

/-- When a quote is not closed in a text, a value that is read after all ends past the text. -/
theorem length_lt_of_unclosed {s z b r a rest : Text} (hmem : (b, r) ∈ blankSplits s)
    (hopen : Unclosed r) (h : afterBlanks valuedAttribute? (s ++ z) = some (a, rest)) :
    rest.length < z.length := by
  obtain ⟨b', r', a', hmem', hvalued, rfl⟩ := afterBlanks_eq_some h
  obtain ⟨name, q, tail, rfl, hname, hquote, hclosed⟩ := hopen
  obtain ⟨x, hform, hvalue⟩ := isAttribute_of_valuedAttribute? hvalued
  have hsz := (blankSplits_mem hmem').1
  rw [(blankSplits_mem hmem).1, valuedAttribute?_eq_some hvalued] at hsz
  -- both readings have the same first equals sign
  have hsame : ∀ name' t, IsAttributeName name' → a' = name' ++ '=' :: t →
      q :: (tail ++ z) = t ++ rest := by
    rintro name' t hname' rfl
    have heq : (b ++ name) ++ '=' :: (q :: (tail ++ z)) = (b' ++ name') ++ '=' :: (t ++ rest) := by
      simpa using hsz
    refine (append_cons_inj_of_notMem ?_ ?_ heq).2
    · simp [eq_notMem_of_mem_blankSplits hmem, hname.eq_notMem]
    · simp [eq_notMem_of_mem_blankSplits hmem', hname'.eq_notMem]
  cases hform with
  | name => simp at hvalue
  | @quoted name' value q' quote hname' hne' hquote' hvalue' =>
    obtain ⟨rfl, htail⟩ : q = q' ∧ tail ++ z = value ++ q' :: rest := by
      simpa using hsame _ _ hname' rfl
    rcases List.append_eq_append_iff.mp htail with ⟨w, -, rfl⟩ | ⟨w, rfl, hz⟩
    · simp only [List.length_append, List.length_cons]
      omega
    · cases w with
      | nil =>
        rw [List.nil_append] at hz
        simp [← hz]
      | cons d w =>
        obtain ⟨rfl, -⟩ : q = d ∧ rest = w ++ z := by simpa using hz
        exact absurd (by simp) hclosed
  | @bare name' value hname' hne hvalue' =>
    have hvalueEq := hsame _ _ hname' rfl
    obtain ⟨d, value, rfl⟩ := List.exists_cons_of_ne_nil hne
    obtain ⟨rfl, -⟩ : q = d ∧ tail ++ z = value ++ rest := by simpa using hvalueEq
    have hd := hvalue' q List.mem_cons_self
    rcases hquote with rfl | rfl <;> simp [isBareValueChar] at hd

/-- A name that is read from inside a name before an equals sign ends at that sign. -/
theorem rest_eq_of_bareAttribute? {name t w r a rest : Text} (hname : IsAttributeName name)
    (hw : '=' ∉ w) (htext : name ++ '=' :: t = w ++ r) (h : bareAttribute? r = some (a, rest)) :
    rest = '=' :: t := by
  obtain ⟨u, rfl, rfl⟩ : ∃ u, name = w ++ u ∧ r = u ++ '=' :: t := by
    rcases List.append_eq_append_iff.mp htext with ⟨u, hu, hrest⟩ | ⟨u, hu, hrest⟩
    · cases u with
      | nil => exact ⟨[], by simpa using hu.symm, by simpa using hrest.symm⟩
      | cons d u =>
        obtain ⟨rfl, -⟩ : '=' = d ∧ t = u ++ r := by simpa using hrest
        exact absurd (by simp [hu]) hw
    · exact ⟨u, hu, hrest⟩
  cases u with
  | nil =>
    have hspan := spanOf_append_eq (a := []) (by simp) (isAttributeNameChar_eq_false_of_eq t)
    rw [List.nil_append] at h hspan
    simp [bareAttribute?, hspan, dropFinalSlashes] at h
  | cons d u =>
    rw [bareAttribute?_append_eq (hname.of_append (List.cons_ne_nil d u))] at h
    exact (Prod.mk.inj (Option.some.inj h)).2.symm

/-- When a quote is not closed in a text, the name before it can be read alone, and an equals sign
is left. -/
theorem head?_eq_of_unclosed {s b r : Text} (z : Text) (hs : Sealed s)
    (hmem : (b, r) ∈ blankSplits s) (hopen : Unclosed r) :
    ∃ a rest, afterBlanks bareAttribute? (s ++ z) = some (a, rest) ∧ rest.head? = some '=' := by
  obtain ⟨name, q, tail, rfl, hname, -, -⟩ := hopen
  have hmemz : (b, name ++ '=' :: (q :: tail ++ z)) ∈ blankSplits (s ++ z) := by
    rw [blankSplits_append hs]
    exact List.mem_map.mpr ⟨_, hmem, by simp⟩
  have hsome : (bareAttribute? (name ++ '=' :: (q :: tail ++ z))).isSome := by
    rw [bareAttribute?_append_eq hname]
    rfl
  -- at least the blanks before the name are taken, so what is read begins inside the name
  obtain ⟨b', r', a, rest, hmem', hlength, hread, hafter⟩ := afterBlanks_of_mem hmemz hsome
  obtain ⟨w, rfl, htext⟩ := exists_append_of_mem_blankSplits hmemz hmem' hlength
  have hw : '=' ∉ w := fun h => eq_notMem_of_mem_blankSplits hmem' (List.mem_append_right b h)
  refine ⟨(b ++ w) ++ a, rest, hafter, ?_⟩
  rw [rest_eq_of_bareAttribute? hname hw htext hread]
  rfl

/-- Whether an attribute after blanks can be read, and which, is settled inside a sealed text,
unless what is read leaves an equals sign or ends past the text. -/
theorem spacedAttribute?_append {s : Text} (hs : Sealed s) (z : Text)
    (hrest : ∀ a r, spacedAttribute? (s ++ z) = some (a, r) → r.head? ≠ some '=' ∧
      z.length ≤ r.length) (z' : Text) :
    spacedAttribute? (s ++ z') = followedBy z' (spacedAttribute? s) := by
  have hclosed : ∀ b r, (b, r) ∈ blankSplits s → ¬ Unclosed r := by
    intro b r hmem hopen
    obtain ⟨a, rest, hbare, hhead⟩ := head?_eq_of_unclosed z hs hmem hopen
    cases hvalued : afterBlanks valuedAttribute? (s ++ z) with
    | none =>
      have hread : spacedAttribute? (s ++ z) = some (a, rest) := by
        rw [spacedAttribute?_eq, hvalued, hbare]
        rfl
      exact (hrest a rest hread).1 hhead
    | some x =>
      have hread : spacedAttribute? (s ++ z) = some (x.1, x.2) := by
        rw [spacedAttribute?_eq, hvalued]
        rfl
      have hshort := length_lt_of_unclosed hmem hopen hvalued
      have hlong := (hrest x.1 x.2 hread).2
      omega
  have hvalued := afterBlanks_append (z := z') hs fun b r hmem =>
    valuedAttribute?_append (hs.of_mem_blankSplits hmem) (hclosed b r hmem) z'
  have hbare := afterBlanks_append (z := z') hs fun b r hmem =>
    bareAttribute?_append (hs.of_mem_blankSplits hmem) z'
  rw [spacedAttribute?_eq, spacedAttribute?_eq, hvalued, hbare]
  cases afterBlanks valuedAttribute? s <;> rfl

theorem attributeList_of_eq_none {s : Text} (h : spacedAttribute? s = none) :
    attributeList s = ([], s) := by
  rw [attributeList]
  split
  · rfl
  next hsome => simp [h] at hsome

theorem attributeList_of_eq_some {s a r : Text} (h : spacedAttribute? s = some (a, r)) :
    attributeList s = (a ++ (attributeList r).1, (attributeList r).2) := by
  rw [attributeList]
  split
  next hnone => simp [h] at hnone
  next a' r' hsome =>
    obtain ⟨rfl, rfl⟩ : a = a' ∧ r = r' := by simpa [h] using hsome
    rfl

/-- The end of an opening tag: blanks, then `>` or `/>`. -/
def IsTagEnd (e : Text) : Prop :=
  ∃ gap ending, (∀ c ∈ gap, isBlank c) ∧ e = gap ++ Ending.written ending

theorem IsTagEnd.sealed {e : Text} (h : IsTagEnd e) : Sealed e := by
  obtain ⟨gap, ending, -, rfl⟩ := h
  apply sealed_append
  cases ending <;> rfl

theorem IsTagEnd.head?_ne {e : Text} (h : IsTagEnd e) (s z : Text) :
    ((attributeList s).1 ++ e ++ z).head? ≠ some '=' := by
  have hblank : isBlank '=' = false := by decide
  intro hhead
  rcases attributeList_head s with hnil | ⟨c, t, hct, hc⟩
  · obtain ⟨gap, ending, hgap, rfl⟩ := h
    rw [hnil] at hhead
    cases gap with
    | nil => cases ending <;> simp [Ending.written] at hhead
    | cons c gap =>
      obtain rfl : c = '=' := by simpa using hhead
      have := hgap '=' (List.mem_cons_self ..)
      rw [hblank] at this
      simp at this
  · rw [hct] at hhead
    obtain rfl : c = '=' := by simpa using hhead
    rw [hblank] at hc
    simp at hc

/-- The attributes of a tag are settled by the text up to the end of the tag. -/
theorem attributeList_append_eq {s attributes e z : Text} (he : IsTagEnd e)
    (hs : s = attributes ++ e ++ z) (h : attributeList s = (attributes, e ++ z)) (z' : Text) :
    attributeList (attributes ++ e ++ z') = (attributes, e ++ z') := by
  fun_induction attributeList s generalizing attributes with
  | case1 s hnone =>
    obtain ⟨rfl, -⟩ := Prod.mk.inj h
    rw [List.nil_append] at hs ⊢
    subst hs
    have hsettled := spacedAttribute?_append he.sealed z (by simp [hnone])
    have hnone' : spacedAttribute? e = none := by
      have hz := hsettled z
      rw [hnone] at hz
      exact Option.map_eq_none_iff.mp hz.symm
    exact attributeList_of_eq_none (by rw [hsettled, hnone']; rfl)
  | case2 s a r hsome ih =>
    obtain ⟨rfl, hlist⟩ := Prod.mk.inj h
    have hr : r = (attributeList r).1 ++ e ++ z := by
      rw [List.append_assoc, ← hlist, attributeList_append]
    have hwhole : Sealed (a ++ (attributeList r).1 ++ e) := sealed_append _ he.sealed
    have hsettled := spacedAttribute?_append hwhole z (by
      intro a' r' hread
      rw [← hs, hsome] at hread
      obtain ⟨-, rfl⟩ := Prod.mk.inj (Option.some.inj hread)
      rw [hr]
      exact ⟨he.head?_ne _ z, by simp only [List.length_append]; omega⟩)
    have hread : spacedAttribute? (a ++ (attributeList r).1 ++ e) =
        some (a, (attributeList r).1 ++ e) := by
      have hz := hsettled z
      rw [← hs, hsome] at hz
      obtain ⟨⟨a', r'⟩, hread, heq⟩ := Option.map_eq_some_iff.1 hz.symm
      obtain ⟨rfl, hr'⟩ : a' = a ∧ r' ++ z = r := by simpa using heq
      rw [hr] at hr'
      rw [hread, List.append_cancel_right hr']
    have hread' : spacedAttribute? (a ++ (attributeList r).1 ++ e ++ z') =
        some (a, (attributeList r).1 ++ e ++ z') := by
      rw [hsettled z', hread]
      rfl
    rw [attributeList_of_eq_some hread', ih hr (by rw [← hlist])]

end ErbLayout.Markup
