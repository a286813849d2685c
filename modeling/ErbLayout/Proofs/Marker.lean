import ErbLayout.Marker
import ErbLayout.Proofs.Code.CodeTag

/-!
Markers in a text. A marker is read the same whatever follows it, and nothing around it can combine
with it: its first letter only ever begins a marker and its last letter only ever ends one. A
character that is not a letter or a digit stands apart from the markers too, so replacement works on
both sides of it alone.
-/

namespace ErbLayout

open Text Markup Code

/-- The digits of a marker. -/
structure IsDigits (d : Text) : Prop where
  ne_nil : d ≠ []
  digits : ∀ c ∈ d, c.isDigit

theorem isDigits_toDigits (n : Nat) : IsDigits (Nat.toDigits 10 n) where
  ne_nil := Nat.toDigits_ne_nil
  digits _ hc := Nat.isDigit_of_mem_toDigits (by decide) (by decide) hc

theorem isDigit_iff_toNat {c : Char} : c.isDigit = true ↔ 48 ≤ c.toNat ∧ c.toNat ≤ 57 := by
  simp only [Char.isDigit, Bool.and_eq_true, decide_eq_true_eq]
  rfl

theorem isMarkerChar_of_isDigit {c : Char} (h : c.isDigit) : isMarkerChar c := by
  obtain ⟨h0, h9⟩ := isDigit_iff_toNat.mp h
  have hlow : '0' ≤ c := le_iff_toNat_le.mpr h0
  have hhigh : c ≤ '9' := le_iff_toNat_le.mpr h9
  simp [isMarkerChar, hlow, hhigh]

theorem range_of_isMarkerChar {c : Char} (h : isMarkerChar c) : '!' ≤ c ∧ c ≤ '~' := by
  simp only [isMarkerChar, Bool.or_eq_true, Bool.and_eq_true, decide_eq_true_eq] at h
  rcases h with h | h
  · exact ⟨Char.le_trans (by decide) h.1, Char.le_trans h.2 (by decide)⟩
  · exact ⟨Char.le_trans (by decide) h.1, Char.le_trans h.2 (by decide)⟩

theorem isMarkerChar_eq_false_of_isBlank {c : Char} (h : isBlank c) : isMarkerChar c = false := by
  cases hc : isMarkerChar c with
  | false => rfl
  | true =>
    have hbounds := range_of_isMarkerChar hc
    rw [isBlank_eq_false_of_visible hbounds.1 hbounds.2] at h
    simp at h

theorem after?_append (p s : Text) : after? p (p ++ s) = some s := after?_eq_some_iff.mpr rfl

/-- The digits of a marker are read in front of the word that ends it, whatever follows. -/
theorem run_written {d : Text} (h : IsDigits d) (r : Text) :
    markers.run (markers.written d ++ r) = some (d, r) := by
  have hspan : spanOf Char.isDigit (d ++ (['t', 'a', 'g'] ++ r)) = (d, ['t', 'a', 'g'] ++ r) := by
    apply spanOf_append_eq h.digits
    intro c hc
    obtain rfl : 't' = c := by simpa using hc
    decide
  have hstart : after? ['e', 'r', 'b'] (markers.written d ++ r) =
      some (d ++ (['t', 'a', 'g'] ++ r)) := by
    simp [markers, after?]
  change markerDigits? (markers.written d ++ r) = some (d, r)
  unfold markerDigits?
  rw [hstart]
  simp only [hspan, after?_append, Option.map_some, List.isEmpty_iff, h.ne_nil, if_false]

theorem isDigits_of_run {s d r : Text} (h : markers.run s = some (d, r)) : IsDigits d := by
  change markerDigits? s = some (d, r) at h
  unfold markerDigits? at h
  split at h
  · simp at h
  next s' hs =>
    split at h
    · simp at h
    next hne =>
      obtain ⟨rest, -, heq⟩ := Option.map_eq_some_iff.1 h
      obtain ⟨rfl, -⟩ := Prod.mk.inj heq
      exact ⟨by simpa using hne, fun c hc => mem_spanOf hc⟩

theorem markers_isLocal : markers.IsLocal := fun _ _ _ h r' => run_written (isDigits_of_run h) r'

/-- A marker has more than one character. -/
theorem first?_singleton (c : Char) : markers.first? [c] = none := by
  have hrun : markers.run [c] = none := by
    cases hread : markers.run [c] with
    | none => rfl
    | some x =>
      have hlength := congrArg List.length (markers.sound _ x.1 x.2 hread).1
      simp [markers] at hlength
  simp [Recogniser.first?, hrun]

theorem found_written {d : Text} (h : IsDigits d) : markers.found (markers.written d) = [d] := by
  have hrun := run_written h []
  rw [List.append_nil] at hrun
  rw [Recogniser.found_of_run hrun, Recogniser.found_of_first?_eq_none rfl]

theorem replace_written (f : Text → Text) {d : Text} (h : IsDigits d) :
    markers.replace f (markers.written d) = f d := by
  have hrun := run_written h []
  rw [List.append_nil] at hrun
  rw [Recogniser.replace_of_run f hrun, Recogniser.replace_of_first?_eq_none f rfl, List.append_nil]

theorem notMem_of_isDigits {d : Text} {c : Char} (h : IsDigits d) (hc : c.isDigit = false) :
    c ∉ d := by
  intro hmem
  rw [h.digits c hmem] at hc
  simp at hc

/-- A marker stands apart from the markers around it and from everything else. -/
theorem apart_written (d : Text) : markers.Apart (markers.written d) := by
  apply Recogniser.apart_of_ends (c := 'e') (d := 'g') (u := ['r', 'b'] ++ d ++ ['t', 'a', 'g'])
    (v := ['e', 'r', 'b'] ++ d ++ ['t', 'a'])
  · simp [markers]
  · simp [markers]
  · intro w a r hrun
    have ha : 'e' ∉ a := notMem_of_isDigits (isDigits_of_run hrun) (by decide)
    simp [markers, ha]
  · intro w a r hrun
    have ha : 'g' ∉ a := notMem_of_isDigits (isDigits_of_run hrun) (by decide)
    have hdrop : (markers.written a).dropLast = ['e', 'r', 'b'] ++ a ++ ['t', 'a'] :=
      List.dropLast_append_of_ne_nil (List.cons_ne_nil 't' ['a', 'g'])
    simp [hdrop, ha]

theorem isMarkerChar_of_mem_written {d : Text} (h : IsDigits d) {c : Char}
    (hc : c ∈ markers.written d) :
    isMarkerChar c := by
  simp only [markers, List.mem_append, List.mem_cons, List.not_mem_nil, or_false] at hc
  rcases hc with ((rfl | rfl | rfl) | hd) | (rfl | rfl | rfl)
  · decide
  · decide
  · decide
  · exact isMarkerChar_of_isDigit (h.digits c hd)
  · decide
  · decide
  · decide

theorem isBlank_eq_false_of_mem_written {d : Text} (hd : IsDigits d) {c : Char}
    (hc : c ∈ markers.written d) :
    isBlank c = false := by
  by_contra hblank
  have hmark := isMarkerChar_of_mem_written hd hc
  rw [isMarkerChar_eq_false_of_isBlank (by simpa using hblank)] at hmark
  simp at hmark

/-- A text whose first and last characters are neither letters nor digits stands apart from
markers. -/
theorem apart_of_not_isMarkerChar {c d : Char} {s u v : Text} (hfirst : s = c :: u)
    (hlast : s = v ++ [d]) (hc : isMarkerChar c = false) (hd : isMarkerChar d = false) :
    markers.Apart s := by
  have hnot : ∀ x, isMarkerChar x = false → ∀ w a r, markers.run w = some (a, r) →
      x ∉ markers.written a := by
    intro x hx w a r hrun hmem
    rw [isMarkerChar_of_mem_written (isDigits_of_run hrun) hmem] at hx
    simp at hx
  apply Recogniser.apart_of_ends hfirst hlast
  · intro w a r hrun hmem
    exact hnot c hc w a r hrun (List.mem_of_mem_tail hmem)
  · intro w a r hrun hmem
    exact hnot d hd w a r hrun (List.dropLast_subset _ hmem)

theorem apart_singleton {c : Char} (hc : isMarkerChar c = false) : markers.Apart [c] :=
  apart_of_not_isMarkerChar (u := []) (v := []) rfl rfl hc hc

theorem apart_code {t : CodeTag} (h : t.IsRead) : markers.Apart t.written := by
  obtain ⟨u, hu⟩ := h.written_eq
  exact apart_of_not_isMarkerChar hu (v := '<' :: u) (by rw [hu]; rfl) (by decide) (by decide)

/-- What a longest look for the word that ends a marker finds. -/
theorem upToLastTag?_isSome {d : Text} (hd : d ≠ []) (s : Text) :
    (upToLastTag? (d ++ (['t', 'a', 'g'] ++ s))).isSome := by
  induction d with
  | nil => exact absurd rfl hd
  | cons c d ih =>
    rw [List.cons_append, upToLastTag?]
    cases hrest : upToLastTag? (d ++ (['t', 'a', 'g'] ++ s)) with
    | some t => rfl
    | none =>
      -- nothing is found further on, so the word stands right after `c`
      have hnil : d = [] := by
        by_contra hne
        have := ih hne
        rw [hrest] at this
        simp at this
      have hstart : startsWith ['t', 'a', 'g'] (d ++ (['t', 'a', 'g'] ++ s)) := by
        rw [hnil, List.nil_append, startsWith, after?_append]
        rfl
      rw [hstart]
      rfl

/-- Every marker looks like a marker, whatever follows it. -/
theorem markerLikes_covers : markerLikes.Covers markers := by
  rintro v ⟨d, r⟩ t hrun
  have hd := isDigits_of_run hrun
  rw [(markers.sound _ _ _ hrun).1]
  change (markerLike? (markers.written d ++ r ++ t)).isSome
  have hstart : after? ['e', 'r', 'b'] (markers.written d ++ r ++ t) =
      some (d ++ ['t', 'a', 'g'] ++ (r ++ t)) := by
    simp [markers, after?]
  have hall : ∀ c ∈ d ++ ['t', 'a', 'g'], isMarkerChar c := by
    intro c hc
    apply isMarkerChar_of_mem_written hd
    simp only [markers, List.append_assoc]
    exact List.mem_append_right _ hc
  have hspan : (spanOf isMarkerChar (d ++ ['t', 'a', 'g'] ++ (r ++ t))).1 =
      d ++ (['t', 'a', 'g'] ++ (spanOf isMarkerChar (r ++ t)).1) := by
    simp only [spanOf]
    rw [List.takeWhile_append_of_pos hall, List.append_assoc]
  unfold markerLike?
  rw [hstart]
  simp only [hspan, Option.isSome_map]
  exact upToLastTag?_isSome hd.ne_nil _

namespace MarkerTable

theorem numberOf?_toDigits (n : Nat) : numberOf? (Nat.toDigits 10 n) = some n := by
  have hfold : (Nat.toDigits 10 n).foldl (fun n c => 10 * n + (c.toNat - 48)) 0 = n :=
    Nat.ofDigitChars_ten_toDigits
  unfold numberOf?
  simp only [hfold, if_true]

theorem numberOf?_eq_some_iff {d : Text} {n : Nat} :
    numberOf? d = some n ↔ d = Nat.toDigits 10 n := by
  constructor
  · intro h
    unfold numberOf? at h
    dsimp only at h
    split at h
    next hd =>
      obtain rfl := Option.some.inj h
      exact hd.symm
    next => simp at h
  · rintro rfl
    exact numberOf?_toDigits n

theorem toDigits_injective : Function.Injective (Nat.toDigits 10) := by
  intro m n h
  have hm := numberOf?_toDigits m
  rw [h, numberOf?_toDigits] at hm
  exact (Option.some.inj hm).symm

theorem literal?_isSome_iff {t : MarkerTable} {d : Text} :
    (t.literal? d).isSome ↔ ∃ n, d = Nat.toDigits 10 n ∧ n < t.literals.length := by
  simp only [literal?, Option.isSome_bind, Option.any_eq_true, numberOf?_eq_some_iff,
    isSome_getElem?]

theorem code?_isSome_iff {t : MarkerTable} {d : Text} :
    (t.code? d).isSome ↔ ∃ n, d = Nat.toDigits 10 n ∧ t.literals.length ≤ n ∧ n < t.size := by
  simp only [code?, Option.isSome_bind, Option.any_eq_true, numberOf?_eq_some_iff]
  refine exists_congr fun n => and_congr_right fun _ => ?_
  unfold size
  split
  next hlt =>
    simp only [Option.isSome_none, Bool.false_eq_true, false_iff]
    omega
  next hge =>
    rw [isSome_getElem?]
    omega

theorem marker_eq (n : Nat) : marker n = markers.written (Nat.toDigits 10 n) := rfl

theorem marker_injective : Function.Injective marker := by
  intro m n h
  apply toDigits_injective
  have hfound := congrArg markers.found h
  rw [marker_eq, marker_eq, found_written (isDigits_toDigits m),
    found_written (isDigits_toDigits n)] at hfound
  simpa using hfound

/-- Replacement in a numbered text puts back what the markers are looked up to stand for. -/
theorem replace_number {f : Text → Text} {n : Nat} {l : List (Text × Text)} {tail : Text}
    (hbefore : ∀ x ∈ l, markers.replace f x.1 = x.1) (htail : markers.replace f tail = tail)
    (hlook : ∀ i x, l[i]? = some x → f (Nat.toDigits 10 (n + i)) = x.2) :
    markers.replace f (number n l tail) = l.flatMap (fun x => x.1 ++ x.2) ++ tail := by
  induction l generalizing n with
  | nil => exact htail
  | cons x l ih =>
    have ih : markers.replace f (number (n + 1) l tail) = l.flatMap (fun x => x.1 ++ x.2) ++
        tail := by
      apply ih (fun y hy => hbefore y (List.mem_cons_of_mem x hy))
      intro i y hy
      rw [Nat.add_assoc, Nat.add_comm 1 i]
      exact hlook (i + 1) y (by simpa using hy)
    have hx : f (Nat.toDigits 10 n) = x.2 := hlook 0 x rfl
    rw [number, List.append_assoc, marker_eq, (apart_written _).replace_append markers_isLocal,
      replace_written f (isDigits_toDigits n), hx, ih, hbefore x List.mem_cons_self]
    simp

/-- The markers of a numbered text are the new ones and those of the texts between them. -/
theorem found_number_perm (n : Nat) (l : List (Text × Text)) (tail : Text) :
    (markers.found (number n l tail)).Perm
      ((List.range' n l.length).map (Nat.toDigits 10) ++
        (l.flatMap (fun x => markers.found x.1) ++ markers.found tail)) := by
  induction l generalizing n with
  | nil => simp [number]
  | cons x l ih =>
    rw [number, List.append_assoc, marker_eq, (apart_written _).found_append markers_isLocal,
      found_written (isDigits_toDigits n)]
    simp only [List.length_cons, List.range'_succ, List.map_cons, List.flatMap_cons,
      List.cons_append, List.nil_append, List.append_assoc]
    -- the new marker moves to the front, past those of the text before it
    refine List.perm_middle.trans (List.Perm.cons _ ?_)
    refine ((ih (n + 1)).append_left _).trans ?_
    exact List.perm_append_comm_assoc _ _ _

/-- The markers of a numbered text without other markers stand in the order of their numbers. -/
theorem found_number {n : Nat} {l : List (Text × Text)} {tail : Text}
    (hbefore : ∀ x ∈ l, markers.first? x.1 = none) (htail : markers.first? tail = none) :
    markers.found (number n l tail) = (List.range' n l.length).map (Nat.toDigits 10) := by
  induction l generalizing n with
  | nil => exact Recogniser.found_of_first?_eq_none htail
  | cons x l ih =>
    rw [number, List.append_assoc, marker_eq, (apart_written _).found_append markers_isLocal,
      found_written (isDigits_toDigits n), ih fun y hy => hbefore y (List.mem_cons_of_mem x hy),
      Recogniser.found_of_first?_eq_none (hbefore x List.mem_cons_self)]
    simp [List.range'_succ]

end MarkerTable

end ErbLayout
