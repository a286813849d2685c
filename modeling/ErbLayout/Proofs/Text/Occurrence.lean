import ErbLayout.Text.Recogniser
import Mathlib.Data.List.Basic
import Mathlib.Tactic.ByContra

/-!
Occurrences of a construct in a text that is put together from parts. A recogniser is local when
what it reads does not depend on what follows. Two texts are parted when no occurrence crosses from
the first into the second; for a local recogniser the occurrences in parted texts written one after
the other are those of the first and then those of the second, and replacement works on each text
alone.
-/

namespace ErbLayout.Text.Recogniser

variable {α : Type} {p : Recogniser α}

/-- What the recogniser reads does not depend on what follows it. -/
def IsLocal (p : Recogniser α) : Prop :=
  ∀ s a r, p.run s = some (a, r) → ∀ r', p.run (p.written a ++ r') = some (a, r')

/-- No occurrence that begins in `s` reaches into `t` when `t` follows `s`. -/
def Parted (p : Recogniser α) (s t : Text) : Prop :=
  ∀ v, v <:+ s → v ≠ [] → ∀ a r, p.run (v ++ t) = some (a, r) → p.written a <+: v

def found (p : Recogniser α) (s : Text) : List α := (p.split s).1.map Prod.snd

theorem run_nil (p : Recogniser α) : p.run [] = none := by
  cases h : p.run [] with
  | none => rfl
  | some x =>
    obtain ⟨heq, hne⟩ := p.sound [] x.1 x.2 h
    have hnil : p.written x.1 = [] := (List.append_eq_nil_iff.mp heq.symm).1
    exact absurd hnil hne

/-- A text without occurrences has none at any of its suffixes. -/
theorem first?_eq_none_iff {s : Text} : p.first? s = none ↔ ∀ v, v <:+ s → p.run v = none := by
  induction s with
  | nil =>
    refine ⟨fun _ v hv => ?_, fun _ => rfl⟩
    rw [List.suffix_nil.mp hv]
    exact run_nil p
  | cons c s ih =>
    constructor
    · intro h v hv
      simp only [first?] at h
      split at h
      · simp at h
      next hrun =>
        rcases List.suffix_cons_iff.mp hv with rfl | hv
        · exact hrun
        · exact ih.mp (Option.map_eq_none_iff.mp h) v hv
    · intro h
      have hhead : p.run (c :: s) = none := h _ (List.suffix_refl _)
      have htail : p.first? s = none := ih.mpr fun v hv => h v (hv.trans (List.suffix_cons c s))
      simp [first?, hhead, htail]

theorem first?_of_run {s r : Text} {a : α} (h : p.run s = some (a, r)) :
    p.first? s = some ([], a, r) := by
  cases s with
  | nil => simp [run_nil] at h
  | cons c s => simp [first?, h]

/-- The leftmost occurrence stands where the construct can be read, and nowhere before. -/
theorem first?_eq_some_iff {s b r : Text} {a : α} :
    p.first? s = some (b, a, r) ↔
      s = b ++ (p.written a ++ r) ∧ p.run (p.written a ++ r) = some (a, r) ∧
        ∀ v, v <:+ b → v ≠ [] → p.run (v ++ (p.written a ++ r)) = none := by
  induction s generalizing b with
  | nil =>
    refine ⟨fun h => by simp [first?] at h, ?_⟩
    rintro ⟨hs, hrun, -⟩
    obtain ⟨-, hnil⟩ := List.append_eq_nil_iff.mp hs.symm
    rw [hnil, run_nil] at hrun
    simp at hrun
  | cons c s ih =>
    cases hrun : p.run (c :: s) with
    | some x =>
      obtain ⟨a', r'⟩ := x
      have hs := (p.sound _ _ _ hrun).1
      simp only [first?, hrun, Option.some.injEq, Prod.mk.injEq]
      constructor
      · rintro ⟨rfl, rfl, rfl⟩
        refine ⟨by simpa using hs, by rw [← hs]; exact hrun, ?_⟩
        intro v hv hne
        exact absurd (List.suffix_nil.mp hv) hne
      · rintro ⟨heq, hread, hbefore⟩
        have hb : b = [] := by
          by_contra hne
          have := hbefore b (List.suffix_refl b) hne
          rw [← heq, hrun] at this
          simp at this
        subst hb
        rw [List.nil_append] at heq
        rw [← heq, hrun] at hread
        simpa [eq_comm] using hread
    | none =>
      simp only [first?, hrun, Option.map_eq_some_iff]
      constructor
      · rintro ⟨⟨b', a', r'⟩, hfirst, heq⟩
        obtain ⟨rfl, rfl, rfl⟩ : c :: b' = b ∧ a' = a ∧ r' = r := by simpa using heq
        obtain ⟨hs, hread, hbefore⟩ := ih.mp hfirst
        refine ⟨by rw [hs]; rfl, hread, ?_⟩
        intro v hv hne
        rcases List.suffix_cons_iff.mp hv with rfl | hv
        · rw [List.cons_append, ← hs]
          exact hrun
        · exact hbefore v hv hne
      · rintro ⟨heq, hread, hbefore⟩
        cases b with
        | nil =>
          rw [List.nil_append] at heq
          rw [← heq, hrun] at hread
          simp at hread
        | cons d b =>
          obtain ⟨rfl, hs⟩ : c = d ∧ s = b ++ (p.written a ++ r) := by simpa using heq
          refine ⟨(b, a, r), ih.mpr ⟨hs, hread, ?_⟩, rfl⟩
          intro v hv hne
          exact hbefore v (hv.trans (List.suffix_cons c b)) hne

theorem split_of_first?_eq_none {s : Text} (h : p.first? s = none) : p.split s = ([], s) := by
  rw [split]
  split
  · rfl
  next hfirst => simp [h] at hfirst

theorem split_of_first?_eq_some {s b r : Text} {a : α} (h : p.first? s = some (b, a, r)) :
    p.split s = ((b, a) :: (p.split r).1, (p.split r).2) := by
  rw [split]
  split
  next hfirst => simp [h] at hfirst
  next b' a' r' hfirst =>
    obtain ⟨rfl, rfl, rfl⟩ : b = b' ∧ a = a' ∧ r = r' := by simpa [h] using hfirst
    rfl

theorem found_of_first?_eq_none {s : Text} (h : p.first? s = none) : p.found s = [] := by
  simp [found, split_of_first?_eq_none h]

theorem found_of_run {s r : Text} {a : α} (h : p.run s = some (a, r)) :
    p.found s = a :: p.found r := by
  simp [found, split_of_first?_eq_some (first?_of_run h)]

theorem replace_of_run (f : α → Text) {s r : Text} {a : α} (h : p.run s = some (a, r)) :
    p.replace f s = f a ++ p.replace f r := by
  simp [replace, split_of_first?_eq_some (first?_of_run h)]

/-- Replacing depends only on what is put in place of the values that occur. -/
theorem replace_congr {f g : α → Text} {s : Text} (h : ∀ a ∈ p.found s, f a = g a) :
    p.replace f s = p.replace g s := by
  have hflat : (p.split s).1.flatMap (fun x => x.1 ++ f x.2) = (p.split s).1.flatMap fun x =>
      x.1 ++ g x.2 := by
    apply List.flatMap_congr
    intro x hx
    rw [h x.2 (List.mem_map_of_mem hx)]
  exact congrArg (· ++ (p.split s).2) hflat

/-- A text stays as it is when every occurrence is replaced by itself. -/
theorem replace_eq_self {f : α → Text} {s : Text} (h : ∀ a ∈ p.found s, f a = p.written a) :
    p.replace f s = s := by
  rw [replace_congr h]
  exact p.flatten_split s

theorem replace_of_first?_eq_none (f : α → Text) {s : Text} (h : p.first? s = none) :
    p.replace f s = s :=
  replace_eq_self (by simp [found_of_first?_eq_none h])

theorem mem_replace {f : α → Text} {s : Text} {c : Char}
    (h : c ∈ p.replace f s) : c ∈ s ∨ ∃ a ∈ p.found s, c ∈ f a := by
  have hwhole := p.flatten_split s
  rw [replace] at h
  rcases List.mem_append.mp h with h | h
  · obtain ⟨x, hx, hc⟩ := List.mem_flatMap.mp h
    rcases List.mem_append.mp hc with hc | hc
    · left
      rw [← hwhole]
      exact List.mem_append_left _ (List.mem_flatMap.mpr ⟨x, hx, List.mem_append_left _ hc⟩)
    · exact Or.inr ⟨x.2, List.mem_map_of_mem hx, hc⟩
  · left
    rw [← hwhole]
    exact List.mem_append_right _ h

theorem replace_ne_nil {f : α → Text} (hf : ∀ a, f a ≠ []) {s : Text}
    (hs : s ≠ []) : p.replace f s ≠ [] := by
  have hwhole := p.flatten_split s
  rw [replace]
  cases hfound : (p.split s).1 with
  | nil =>
    rw [hfound, List.flatMap_nil, List.nil_append] at hwhole
    rw [List.flatMap_nil, List.nil_append, hwhole]
    exact hs
  | cons x found =>
    intro hnil
    obtain ⟨hfirst, -⟩ := List.append_eq_nil_iff.mp hnil
    obtain ⟨hx, -⟩ := List.append_eq_nil_iff.mp hfirst
    exact hf x.2 (List.append_eq_nil_iff.mp hx).2

theorem IsLocal.run_append (hp : p.IsLocal) {s r : Text} {a : α} (h : p.run s = some (a, r))
    (t : Text) : p.run (s ++ t) = some (a, r ++ t) := by
  have hs := (p.sound s a r h).1
  rw [hs, List.append_assoc]
  exact hp s a r h (r ++ t)

theorem Parted.of_isSuffix {s s' t : Text} (h : p.Parted s t) (hs : s' <:+ s) : p.Parted s' t :=
  fun v hv => h v (hv.trans hs)

/-- Nothing crosses into a text whose first character only ever begins a construct. -/
theorem parted_cons {c : Char}
    (hc : ∀ v a r, p.run v = some (a, r) → c ∉ (p.written a).tail) (s t : Text) :
    p.Parted s (c :: t) := by
  intro v _ hne a r hrun
  have heq := (p.sound _ _ _ hrun).1
  rcases List.append_eq_append_iff.mp heq with ⟨w, hw, hcw⟩ | ⟨w, hw, -⟩
  · cases w with
    | nil => exact ⟨[], by simpa using hw⟩
    | cons d w =>
      -- what is read would reach over `c`
      obtain ⟨rfl, -⟩ : c = d ∧ t = w ++ r := by simpa using hcw
      refine absurd ?_ (hc _ _ _ hrun)
      rw [hw]
      cases v with
      | nil => exact absurd rfl hne
      | cons d v => simp
  · exact ⟨w, hw.symm⟩

/-- Nothing crosses out of a text whose last character only ever ends a construct. -/
theorem parted_concat {c : Char}
    (hc : ∀ v a r, p.run v = some (a, r) → c ∉ (p.written a).dropLast) (s t : Text) :
    p.Parted (s ++ [c]) t := by
  intro v hv hne a r hrun
  have heq := (p.sound _ _ _ hrun).1
  obtain ⟨v', rfl, -⟩ := (List.suffix_concat_iff.mp hv).resolve_left hne
  rcases List.append_eq_append_iff.mp heq with ⟨w, hw, -⟩ | ⟨w, hw, -⟩
  · cases w with
    | nil => exact ⟨[], by simpa using hw⟩
    | cons d w =>
      refine absurd ?_ (hc _ _ _ hrun)
      rw [hw, List.dropLast_append_of_ne_nil (List.cons_ne_nil d w)]
      simp
  · exact ⟨w, hw.symm⟩

/-- Where nothing crosses, an occurrence is read in the first text alone. -/
theorem Parted.run_eq (hp : p.IsLocal) {s t v r : Text} {a : α} (h : p.Parted s t) (hv : v <:+ s)
    (hne : v ≠ []) (hrun : p.run (v ++ t) = some (a, r)) :
    ∃ w, v = p.written a ++ w ∧ p.run v = some (a, w) := by
  obtain ⟨w, rfl⟩ := h v hv hne a r hrun
  exact ⟨w, rfl, hp _ _ _ hrun w⟩

theorem Parted.first?_of_eq_some (hp : p.IsLocal) {s t b r : Text} {a : α} (h : p.Parted s t)
    (hfirst : p.first? s = some (b, a, r)) : p.first? (s ++ t) = some (b, a, r ++ t) := by
  obtain ⟨rfl, hread, hbefore⟩ := first?_eq_some_iff.mp hfirst
  rw [first?_eq_some_iff]
  refine ⟨by simp, hp _ _ _ hread (r ++ t), ?_⟩
  intro v hv hne
  cases hrun : p.run (v ++ (p.written a ++ (r ++ t))) with
  | none => rfl
  | some x =>
    obtain ⟨a', r'⟩ := x
    have hsuffix : v ++ (p.written a ++ r) <:+ b ++ (p.written a ++ r) :=
      List.suffix_append_self_iff.mpr hv
    have hrun' : p.run (v ++ (p.written a ++ r) ++ t) = some (a', r') := by simpa using hrun
    obtain ⟨w, -, hshort⟩ := h.run_eq hp hsuffix (by simp [hne]) hrun'
    rw [hbefore v hv hne] at hshort
    simp at hshort

/-- When the first of two parted texts has no occurrence, the leftmost one is in the second. -/
theorem Parted.first?_of_eq_none (hp : p.IsLocal) {s t : Text} (h : p.Parted s t)
    (hfirst : p.first? s = none) :
    p.first? (s ++ t) = (p.first? t).map fun (b, a, r) => (s ++ b, a, r) := by
  induction s with
  | nil => simp
  | cons c s ih =>
    have hnone := first?_eq_none_iff.mp hfirst
    have hhead : p.run (c :: (s ++ t)) = none := by
      cases hrun : p.run (c :: (s ++ t)) with
      | none => rfl
      | some x =>
        obtain ⟨w, -, hshort⟩ :=
          h.run_eq hp (List.suffix_refl _) (List.cons_ne_nil c s) (r := x.2) (a := x.1) hrun
        rw [hnone _ (List.suffix_refl _)] at hshort
        simp at hshort
    have htail : p.first? s = none :=
      first?_eq_none_iff.mpr fun v hv => hnone v (hv.trans (List.suffix_cons c s))
    rw [List.cons_append, first?, hhead]
    simp only
    rw [ih (h.of_isSuffix (List.suffix_cons c s)) htail, Option.map_map]
    rfl

/-- Two split texts put together: the text after the last occurrence of the first belongs to the
text before the first occurrence of the second. -/
def joinSplits (x y : List (Text × α) × Text) : List (Text × α) × Text :=
  match y.1 with
  | [] => (x.1, x.2 ++ y.2)
  | (b, a) :: rest => (x.1 ++ (x.2 ++ b, a) :: rest, y.2)

theorem joinSplits_cons (b : Text) (a : α) (x y : List (Text × α) × Text) :
    joinSplits ((b, a) :: x.1, x.2) y = ((b, a) :: (joinSplits x y).1, (joinSplits x y).2) := by
  unfold joinSplits
  split <;> rfl

/-- Parted texts are split one after the other. -/
theorem Parted.split_append (hp : p.IsLocal) {s t : Text} (h : p.Parted s t) :
    p.split (s ++ t) = joinSplits (p.split s) (p.split t) := by
  fun_induction split p s with
  | case1 s hnone =>
    -- all of `s` stands before the first occurrence in `t`
    have hfirst := h.first?_of_eq_none hp hnone
    cases ht : p.first? t with
    | none =>
      rw [ht] at hfirst
      rw [split_of_first?_eq_none hfirst, split_of_first?_eq_none ht]
      rfl
    | some x =>
      obtain ⟨b, a, r⟩ := x
      rw [ht] at hfirst
      rw [split_of_first?_eq_some hfirst, split_of_first?_eq_some ht]
      rfl
  | case2 s b a r hsome ih =>
    have hsuffix : r <:+ s := by
      rw [(first?_eq_some hsome).1]
      exact ⟨b ++ p.written a, by simp⟩
    rw [split_of_first?_eq_some (h.first?_of_eq_some hp hsome), joinSplits_cons,
      ih (h.of_isSuffix hsuffix)]

/-- Replacement in parted texts works on each alone. -/
theorem Parted.replace_append (hp : p.IsLocal) (f : α → Text) {s t : Text} (h : p.Parted s t) :
    p.replace f (s ++ t) = p.replace f s ++ p.replace f t := by
  simp only [replace, h.split_append hp, joinSplits]
  split <;> simp_all

theorem Parted.found_append (hp : p.IsLocal) {s t : Text} (h : p.Parted s t) :
    p.found (s ++ t) = p.found s ++ p.found t := by
  simp only [found, h.split_append hp, joinSplits]
  split <;> simp_all

/-- No occurrence reaches into `s` from before it or out of `s` into what follows, wherever it
stands. -/
def Apart (p : Recogniser α) (s : Text) : Prop :=
  (∀ u v, p.Parted u (s ++ v)) ∧ ∀ v, p.Parted s v

/-- A text stands apart when its first character only ever begins a construct and its last one only
ever ends one. -/
theorem apart_of_ends {c d : Char} {s u v : Text} (hfirst : s = c :: u) (hlast : s = v ++ [d])
    (hc : ∀ w a r, p.run w = some (a, r) → c ∉ (p.written a).tail)
    (hd : ∀ w a r, p.run w = some (a, r) → d ∉ (p.written a).dropLast) : p.Apart s := by
  constructor
  · intro t t'
    rw [hfirst]
    exact parted_cons hc t (u ++ t')
  · intro t
    rw [hlast]
    exact parted_concat hd v t

theorem Apart.replace_append (hp : p.IsLocal) (f : α → Text) {s : Text} (h : p.Apart s)
    (u v : Text) :
    p.replace f (u ++ (s ++ v)) = p.replace f u ++ (p.replace f s ++ p.replace f v) := by
  rw [(h.1 u v).replace_append hp, (h.2 v).replace_append hp]

theorem Apart.found_append (hp : p.IsLocal) {s : Text} (h : p.Apart s) (u v : Text) :
    p.found (u ++ (s ++ v)) = p.found u ++ (p.found s ++ p.found v) := by
  rw [(h.1 u v).found_append hp, (h.2 v).found_append hp]

/-- The occurrences in the texts of a list, each with a text after it that stands apart. -/
theorem found_flatMap (hp : p.IsLocal) {l : List (Text × Text)} (hl : ∀ x ∈ l, p.Apart x.2)
    (tail : Text) :
    p.found (l.flatMap (fun x => x.1 ++ x.2) ++ tail) =
      l.flatMap (fun x => p.found x.1 ++ p.found x.2) ++ p.found tail := by
  induction l with
  | nil => rfl
  | cons x l ih =>
    have hx : p.Apart x.2 := hl x List.mem_cons_self
    have ih := ih fun y hy => hl y (List.mem_cons_of_mem x hy)
    simp only [List.flatMap_cons, List.append_assoc]
    rw [hx.found_append hp, ih]

variable {β : Type} {q : Recogniser β}

/-- Where `q` reads something, `p` reads something too, whatever follows. -/
def Covers (p : Recogniser α) (q : Recogniser β) : Prop :=
  ∀ v x t, q.run v = some x → (p.run (v ++ t)).isSome

theorem Covers.first?_eq_none (h : p.Covers q) {s : Text} (hs : p.first? s = none) :
    q.first? s = none := by
  rw [first?_eq_none_iff] at hs ⊢
  intro v hv
  cases hrun : q.run v with
  | none => rfl
  | some x =>
    have hsome := h v x [] hrun
    rw [List.append_nil, hs v hv] at hsome
    simp at hsome

theorem Covers.first?_before (h : p.Covers q) {s b r : Text} {a : α}
    (hs : p.first? s = some (b, a, r)) :
    q.first? b = none := by
  obtain ⟨-, -, hbefore⟩ := first?_eq_some_iff.mp hs
  rw [first?_eq_none_iff]
  intro v hv
  cases hrun : q.run v with
  | none => rfl
  | some x =>
    have hne : v ≠ [] := by
      rintro rfl
      simp [run_nil] at hrun
    have hsome := h v x (p.written a ++ r) hrun
    rw [hbefore v hv hne] at hsome
    simp at hsome

/-- Between the occurrences of one construct there are none of a construct that it covers. -/
theorem Covers.first?_split (h : p.Covers q) (s : Text) :
    (∀ x ∈ (p.split s).1, q.first? x.1 = none) ∧ q.first? (p.split s).2 = none := by
  fun_induction split p s with
  | case1 s hnone => exact ⟨by simp, h.first?_eq_none hnone⟩
  | case2 s b a r hsome ih =>
    refine ⟨?_, ih.2⟩
    intro x hx
    rcases List.mem_cons.mp hx with rfl | hx
    · exact h.first?_before hsome
    · exact ih.1 x hx

theorem IsLocal.covers (hp : p.IsLocal) : p.Covers p := by
  intro v x t hrun
  rw [hp.run_append hrun t]
  rfl

theorem exists_run_of_mem_split {s : Text} {x : Text × α} (hx : x ∈ (p.split s).1) :
    ∃ v r, p.run v = some (x.2, r) := by
  fun_induction split p s with
  | case1 => simp at hx
  | case2 s b a r hsome ih =>
    rcases List.mem_cons.mp hx with rfl | hx
    · exact ⟨_, _, (first?_eq_some_iff.mp hsome).2.1⟩
    · exact ih hx

end ErbLayout.Text.Recogniser
