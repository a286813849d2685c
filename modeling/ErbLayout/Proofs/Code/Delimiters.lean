import ErbLayout.Proofs.Code.CodeTag
import ErbLayout.Proofs.Text.Squeeze

/-!
The delimiters of code tags. Where no opening delimiter occurs there is no code tag, and other
blanks between the words of a text make none. Code that is put between the delimiters it was read
with, with one space inside each, is read again.
-/

namespace ErbLayout.Code

open Text Markup

section Openings

def holdsOpening : Text → Bool
  | [] => false
  | c :: s => (c == '<' && s.head? == some '%') || holdsOpening s

theorem holdsOpening_of_notMem {s : Text} (h : '<' ∉ s) : holdsOpening s = false := by
  induction s with
  | nil => rfl
  | cons c s ih =>
    have hc : c ≠ '<' := fun heq => h (heq ▸ List.mem_cons_self)
    rw [holdsOpening, ih fun hmem => h (List.mem_cons_of_mem c hmem)]
    simp [hc]

theorem holdsOpening_append {s t : Text} (hcut : s.getLast? ≠ some '<' ∨ t.head? ≠ some '%') :
    holdsOpening (s ++ t) = (holdsOpening s || holdsOpening t) := by
  induction s with
  | nil => rfl
  | cons c s ih =>
    rw [List.cons_append, holdsOpening, holdsOpening, Bool.or_assoc]
    cases s with
    | nil =>
      have hfirst : (c == '<' && t.head? == some '%') = false := by
        simpa [List.getLast?_singleton, imp_iff_not_or] using hcut
      simp [hfirst, holdsOpening]
    | cons d s =>
      rw [ih (hcut.imp_left fun hlast => by simpa [List.getLast?_cons_cons] using hlast)]
      rfl

theorem holdsOpening_append_cons (s : Text) {c : Char} (hc : c ≠ '<') (hc' : c ≠ '%') (t : Text) :
    holdsOpening (s ++ c :: t) = (holdsOpening s || holdsOpening t) := by
  have hsign : (c == '<') = false := by simpa using hc
  rw [holdsOpening_append (Or.inr (by simpa using hc')), holdsOpening, hsign]
  rfl

theorem holdsOpening_append_blank_append (s : Text) {b : Text} (hne : b ≠ [])
    (hb : ∀ c ∈ b, isBlank c) (t : Text) :
    holdsOpening (s ++ (b ++ t)) = (holdsOpening s || holdsOpening t) := by
  have hnot : ∀ c, isBlank c → c ≠ '<' ∧ c ≠ '%' := by
    intro c hc
    constructor <;>
    · rintro rfl
      revert hc
      decide
  obtain ⟨c, b, rfl⟩ := List.exists_cons_of_ne_nil hne
  obtain ⟨hc, hc'⟩ := hnot c (hb c List.mem_cons_self)
  have hrest : ∀ b : Text, (∀ c ∈ b, isBlank c) → holdsOpening (b ++ t) = holdsOpening t := by
    intro b hb
    induction b with
    | nil => rfl
    | cons d b ih =>
      obtain ⟨hd, hd'⟩ := hnot d (hb d List.mem_cons_self)
      have hcut := holdsOpening_append_cons [] hd hd' (b ++ t)
      rw [ih fun c hc => hb c (List.mem_cons_of_mem d hc)] at hcut
      exact hcut
  rw [List.cons_append, holdsOpening_append_cons s hc hc', hrest b fun d hd =>
    hb d (List.mem_cons_of_mem c hd)]

theorem holdsOpening_iff {s : Text} : holdsOpening s ↔ ['<', '%'] <:+: s := by
  induction s with
  | nil => simp [holdsOpening]
  | cons c s ih =>
    have hfirst : ['<', '%'] <+: c :: s ↔ c = '<' ∧ s.head? = some '%' := by
      cases s with
      | nil => simp
      | cons d s => simp [eq_comm]
    rw [holdsOpening, Bool.or_eq_true, ih, List.infix_cons_iff, hfirst]
    simp

theorem holdsOpening_of_isInfix {s t : Text} (ht : holdsOpening t = false) (hs : s <:+: t) :
    holdsOpening s = false := by
  by_contra hopening
  have hinfix := (holdsOpening_iff.mp (by simpa using hopening)).trans hs
  rw [holdsOpening_iff.mpr hinfix] at ht
  simp at ht

/-- Whether the opening delimiter occurs in a text depends on its words only. -/
theorem holdsOpening_congr {s t : Text} (h : words s = words t) :
    holdsOpening s = holdsOpening t := by
  have hwords := eq_any_words rfl fun s c t hc =>
    holdsOpening_append_blank_append s (List.cons_ne_nil c []) (by simpa using hc) t
  rw [hwords s, hwords t, h]

end Openings

section Rendering

/-- A closing delimiter that can be read before a space stands in the text before the space. -/
theorem closing?_append_isSome {w z : Text} (h : (closing? (w ++ ' ' :: z)).isSome) (y : Text) :
    (closing? (w ++ y)).isSome := by
  obtain ⟨⟨c, x⟩, hread⟩ := Option.isSome_iff_exists.mp h
  obtain ⟨hc, heq⟩ := closing?_eq_some_iff.mp hread
  have hspace : ' ' ∉ c := by rcases hc with rfl | rfl <;> decide
  obtain ⟨k, hk⟩ : c <+: w := by
    rcases List.append_eq_append_iff.mp heq with ⟨k, hk, hz⟩ | ⟨k, hk, -⟩
    · cases k with
      | nil => exact ⟨[], by rw [hk]; simp⟩
      | cons d k =>
        obtain ⟨rfl, -⟩ : ' ' = d ∧ _ := by simpa using hz
        exact absurd (hk ▸ List.mem_append_right w List.mem_cons_self) hspace
    · exact ⟨k, hk.symm⟩
  rw [← hk, List.append_assoc, closing?_eq_some_iff.mpr ⟨hc, rfl⟩]
  rfl

/-- Code that ends where blanks and a closing delimiter follow ends there too when one space stands
for the blanks. -/
theorem codeBody?_space {code trail closing r : Text}
    (h : codeBody? (code ++ (trail ++ (closing ++ r))) = some (code, trail, closing, r))
    (r' : Text) :
    codeBody? (code ++ ' ' :: (closing ++ r')) = some (code, [' '], closing, r') := by
  obtain ⟨-, hc, htrail⟩ := codeBody?_append_eq h r
  induction code with
  | nil =>
    have hspan : spanOf isBlank (' ' :: (closing ++ r')) = ([' '], closing ++ r') :=
      spanOf_append_eq (a := [' ']) (by simp; decide) (head?_of_closing hc r')
    rw [List.nil_append, codeBody?.eq_def, hspan, closing?_eq_some_iff.mpr ⟨hc, rfl⟩]
  | cons d code ih =>
    rw [codeBody?.eq_def] at h
    split at h
    · simp at h
    next hclose =>
      obtain ⟨⟨code', rest⟩, hbody, heq⟩ := Option.map_eq_some_iff.1 h
      obtain ⟨rfl, rfl⟩ : code' = code ∧ rest = (trail, closing, r) := by simpa using heq
      have hnone : closing? (spanOf isBlank (d :: (code' ++ ' ' :: (closing ++ r')))).2 = none := by
        have hparts := spanOf_append isBlank (d :: code')
        have hblank : ∀ c ∈ (spanOf isBlank (d :: code')).1, isBlank c := fun c hc => mem_spanOf hc
        have hhead : ∀ c ∈ (spanOf isBlank (d :: code')).2.head?, isBlank c = false :=
          fun c hc => head?_spanOf hc
        generalize spanOf isBlank (d :: code') = parts at hparts hblank hhead
        obtain ⟨b, w⟩ := parts
        dsimp only at hparts hblank hhead
        cases w with
        | nil =>
          -- code of blanks only would not have been read before the closing delimiter
          rw [List.append_nil] at hparts
          have hspan : spanOf isBlank (d :: (code' ++ (trail ++ (closing ++ r)))) =
              (b ++ trail, closing ++ r) := by
            have hall : ∀ c ∈ b ++ trail, isBlank c :=
              fun c hc => (List.mem_append.mp hc).elim (hblank c) (htrail c)
            have hspan := spanOf_append_eq hall (head?_of_closing hc r)
            rw [hparts] at hspan
            simpa [hparts] using hspan
          rw [List.cons_append, hspan, closing?_eq_some_iff.mpr ⟨hc, rfl⟩] at hclose
          simp at hclose
        | cons e w =>
          have hspan : ∀ y, spanOf isBlank (d :: (code' ++ y)) = (b, e :: w ++ y) := by
            intro y
            have hspan := spanOf_append_eq hblank (b := e :: w ++ y) hhead
            rwa [← List.append_assoc, hparts] at hspan
          rw [List.cons_append, hspan] at hclose
          rw [hspan]
          by_contra hsome
          have hread := closing?_append_isSome (Option.isSome_iff_ne_none.mpr hsome)
            (trail ++ (closing ++ r))
          rw [hclose] at hread
          simp at hread
      rw [List.cons_append, codeBody?.eq_def, hnone]
      dsimp only
      rw [ih hbody]
      rfl

theorem opening?_append_cons {o : Text} (ho : o = ['<', '%', '=', '='] ∨ o = ['<', '%', '='] ∨
      o = ['<', '%', '-'] ∨ o = ['<', '%']) {c : Char} (hc : c ≠ '=') (hc' : c ≠ '-') (r : Text) :
    opening? (o ++ c :: r) = some (o, c :: r) := by
  rcases ho with rfl | rfl | rfl | rfl
  · rfl
  · simp [opening?, hc]
  · rfl
  · simp [opening?, hc, hc']

/-- A code tag that was read, with one space inside each delimiter, is read in the same parts but
for the blanks. -/
theorem codeTag?_render {s r : Text} {t : CodeTag} (h : codeTag? s = some (t, r)) :
    ∃ lead trail, ∀ r', codeTag? (t.render t.code ++ r') =
      some (⟨t.opening, lead, t.code, trail, t.closing⟩, r') := by
  unfold codeTag? at h
  split at h
  · simp at h
  next o x hopen =>
    obtain ⟨⟨code, trail, closing, rest⟩, hbody, heq⟩ := Option.map_eq_some_iff.1 h
    obtain ⟨rfl, rfl⟩ : (⟨o, (spanOf isBlank x).1, code, trail, closing⟩ : CodeTag) = t ∧
      rest = r := by simpa using heq
    have hread : ∀ c ∈ (spanOf isBlank x).2.head?, isBlank c = false := fun c hc => head?_spanOf hc
    have htext := codeBody?_eq_some hbody
    rw [htext] at hbody hread
    obtain ⟨-, hc, -⟩ := codeBody?_append_eq hbody []
    have ho := opening?_eq_some_cases hopen
    have hspaces : ∀ c ∈ [' ', ' '], isBlank c := by simp; decide
    cases code with
    | nil =>
      -- the two spaces stand before the code, which is empty
      refine ⟨[' ', ' '], [], fun r' => ?_⟩
      have hspan : spanOf isBlank (' ' :: ' ' :: (closing ++ r')) = ([' ', ' '], closing ++ r') :=
        spanOf_append_eq hspaces (head?_of_closing hc r')
      have hnone : spanOf isBlank (closing ++ r') = ([], closing ++ r') :=
        spanOf_append_eq (a := []) (by simp) (head?_of_closing hc r')
      have hempty : codeBody? (closing ++ r') = some ([], [], closing, r') := by
        rw [codeBody?.eq_def, hnone, closing?_eq_some_iff.mpr ⟨hc, rfl⟩]
      have hrender : CodeTag.render ⟨o, (spanOf isBlank x).1, [], trail, closing⟩ [] ++ r' =
          o ++ ' ' :: ' ' :: (closing ++ r') := by simp [CodeTag.render]
      rw [hrender, codeTag?, opening?_append_cons ho (by decide) (by decide)]
      dsimp only
      rw [hspan, hempty]
      rfl
    | cons d code =>
      have hd : isBlank d = false := hread d (by simp)
      have hlead : ∀ c ∈ if d == '#' then [] else [' '], isBlank c := by
        split
        · simp
        · simp; decide
      refine ⟨if d == '#' then [] else [' '], [' '], fun r' => ?_⟩
      have hrender : CodeTag.render ⟨o, (spanOf isBlank x).1, d :: code, trail, closing⟩
        (d :: code) ++ r' =
          o ++ ((if d == '#' then [] else [' ']) ++ (d :: code ++ ' ' :: (closing ++ r'))) := by
          simp [CodeTag.render]
      have hopen' : opening?
        (o ++ ((if d == '#' then [] else [' ']) ++ (d :: code ++ ' ' :: (closing ++ r')))) =
          some (o, (if d == '#' then [] else [' ']) ++ (d :: code ++ ' ' :: (closing ++ r'))) := by
        split
        next hsign =>
          obtain rfl : d = '#' := by simpa using hsign
          exact opening?_append_cons ho (by decide) (by decide) _
        next => exact opening?_append_cons ho (by decide) (by decide) _
      have hspan := spanOf_append_eq hlead (b := d :: code ++ ' ' :: (closing ++ r'))
        (by simpa using hd)
      rw [hrender, codeTag?, hopen']
      dsimp only
      rw [hspan, codeBody?_space hbody]
      rfl

/-- A code tag that was read, with one space inside each delimiter, is read with the same code. -/
theorem exists_codeTag?_render {s r : Text} {t : CodeTag} (h : codeTag? s = some (t, r)) :
    ∃ t', (∀ r', codeTag? (t.render t.code ++ r') = some (t', r')) ∧ t'.written = t.render t.code ∧
      t'.code = t.code ∧
      t'.render t'.code = t.render t.code := by
  obtain ⟨lead, trail, hrun⟩ := codeTag?_render h
  refine ⟨_, hrun, ?_, rfl, rfl⟩
  have hwritten := (codeTags.sound _ _ _ (hrun [])).1
  rw [List.append_nil, List.append_nil] at hwritten
  exact hwritten.symm

end Rendering

end ErbLayout.Code
