import ErbLayout.Text.Basic

/-!
A text and its pieces between the occurrences of one character. The pieces with the character
between neighbours are the text, and texts without the character are the pieces of what they are
joined to.
-/

namespace ErbLayout.Text

theorem splitAt_eq_splitOnP (p : Char → Bool) (s : Text) : splitAt p s = s.splitOnP p := by
  induction s with
  | nil => simp [splitAt]
  | cons d s ih =>
    rw [splitAt, ih, List.splitOnP_cons_eq_if_modifyHead]
    split
    · rfl
    · cases h : s.splitOnP p with
      | nil => exact absurd h (List.splitOnP_ne_nil p s)
      | cons piece rest => rfl

theorem splitAt_eq_splitOn (c : Char) (s : Text) : splitAt (· == c) s = s.splitOn c :=
  splitAt_eq_splitOnP _ s

theorem join_eq_intercalate (sep : Text) (ts : List Text) :
    join sep ts = List.intercalate sep ts := by
  induction ts with
  | nil => rfl
  | cons t ts ih =>
    cases ts with
    | nil => simp [join]
    | cons u ts =>
      rw [List.intercalate_cons_cons, ← ih]
      rfl

theorem splitAt_ne_nil (c : Char) (s : Text) : splitAt (· == c) s ≠ [] := by
  rw [splitAt_eq_splitOn]
  exact List.splitOn_ne_nil c s

theorem join_splitAt (c : Char) (s : Text) : join [c] (splitAt (· == c) s) = s := by
  rw [join_eq_intercalate, splitAt_eq_splitOn, List.intercalate_splitOn]

theorem splitAt_append_separator {p : Char → Bool} {c : Char} (hc : p c) (s t : Text) :
    splitAt p (s ++ c :: t) = splitAt p s ++ splitAt p t := by
  simp only [splitAt_eq_splitOnP, List.splitOnP_append_cons s t hc]

theorem splitAt_append_cons (c : Char) (s t : Text) :
    splitAt (· == c) (s ++ c :: t) = splitAt (· == c) s ++ splitAt (· == c) t :=
  splitAt_append_separator (p := (· == c)) (beq_self_eq_true c) s t

theorem splitAt_of_notMem {c : Char} {s : Text} (h : c ∉ s) : splitAt (· == c) s = [s] := by
  rw [splitAt_eq_splitOn, List.splitOn_eq_singleton h]

theorem splitAt_join {c : Char} {ts : List Text} (hne : ts ≠ []) (hts : ∀ t ∈ ts, c ∉ t) :
    splitAt (· == c) (join [c] ts) = ts := by
  rw [splitAt_eq_splitOn, join_eq_intercalate, List.splitOn_intercalate c hts hne]

theorem splitAt_cons_of_ne {c d : Char} (h : d ≠ c) (s : Text) :
    ∃ piece rest, splitAt (· == c) (d :: s) = (d :: piece) :: rest := by
  rw [splitAt, if_neg (by simpa using h)]
  cases splitAt (· == c) s with
  | nil => exact ⟨[], [], rfl⟩
  | cons piece rest => exact ⟨piece, rest, rfl⟩

theorem notMem_of_mem_splitAt {c : Char} {s piece : Text} (h : piece ∈ splitAt (· == c) s) :
    c ∉ piece := by
  induction s generalizing piece with
  | nil =>
    obtain rfl : piece = [] := by simpa [splitAt] using h
    exact List.not_mem_nil
  | cons d s ih =>
    rw [splitAt_eq_splitOn, List.splitOn_cons_eq_if_modifyHead, ← splitAt_eq_splitOn] at h
    split at h
    · rcases List.mem_cons.mp h with rfl | h
      · exact List.not_mem_nil
      · exact ih h
    next hd =>
      cases hs : splitAt (· == c) s with
      | nil => simp [hs] at h
      | cons first rest =>
        rw [hs] at h ih
        rcases List.mem_cons.mp h with rfl | h
        · have hfirst : c ∉ first := ih List.mem_cons_self
          have hne : c ≠ d := by
            rintro rfl
            exact hd (by simp)
          simp [hne, hfirst]
        · exact ih (List.mem_cons_of_mem _ h)

/-- Where two texts meet, the last piece of the one and the first of the other are one piece. -/
theorem splitAt_append {p : Char → Bool} {s t last first : Text} {before after : List Text}
    (hs : splitAt p s = before ++ [last]) (ht : splitAt p t = first :: after) :
    splitAt p (s ++ t) = before ++ (last ++ first) :: after := by
  simp only [splitAt_eq_splitOnP] at hs ht ⊢
  induction s generalizing before last with
  | nil =>
    obtain ⟨rfl, rfl⟩ : before = [] ∧ last = [] := by
      cases before with
      | nil => simpa [eq_comm] using hs
      | cons piece before => simp at hs
    simpa using ht
  | cons d s ih =>
    rw [List.cons_append, List.splitOnP_cons_eq_if_modifyHead]
    rw [List.splitOnP_cons_eq_if_modifyHead] at hs
    obtain ⟨piece, pieces, hpieces⟩ := List.exists_cons_of_ne_nil (List.splitOnP_ne_nil p s)
    split
    next hd =>
      -- the separator ends an empty piece
      rw [if_pos hd] at hs
      cases before with
      | nil => simp [hpieces] at hs
      | cons x before =>
        obtain ⟨rfl, hrest⟩ := List.cons.inj hs
        rw [ih hrest]
        rfl
    next hd =>
      rw [if_neg hd, hpieces] at hs
      cases before with
      | nil =>
        obtain ⟨rfl, rfl⟩ := List.cons.inj hs
        have hlast : s.splitOnP p = [] ++ [piece] := hpieces
        rw [ih hlast]
        rfl
      | cons x before =>
        obtain ⟨rfl, rfl⟩ := List.cons.inj hs
        have hbefore : s.splitOnP p = (piece :: before) ++ [last] := hpieces
        rw [ih hbefore]
        rfl

end ErbLayout.Text
