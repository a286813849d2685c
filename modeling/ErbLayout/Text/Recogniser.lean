import ErbLayout.Text.Basic

/-!
A recogniser reads one construct at the start of a text and gives its value and the text after it.
What it reads is never empty and can be written back from the value. From a recogniser come its
leftmost occurrence in a text, all occurrences one after the other, and replacement: the occurrences
and the text between them make up the whole text.
-/

namespace ErbLayout.Text

structure Recogniser (α : Type) where
  /-- The value read and the text after it. -/
  run : Text → Option (α × Text)
  /-- The text that was read for a value. -/
  written : α → Text
  /-- What was read, followed by the rest, is the text, and something was read. -/
  sound : ∀ s a r, run s = some (a, r) → s = written a ++ r ∧ written a ≠ []

namespace Recogniser

variable {α : Type}

/-- The leftmost occurrence: the text before it, its value, the text after it. -/
def first? (p : Recogniser α) : Text → Option (Text × α × Text)
  | [] => none
  | c :: cs =>
    match p.run (c :: cs) with
    | some (a, r) => some ([], a, r)
    | none => (p.first? cs).map fun (b, a, r) => (c :: b, a, r)

/-- The leftmost occurrence with what surrounds it is the text. -/
theorem first?_eq_some {p : Recogniser α} {s b r : Text} {a : α} (h : p.first? s = some (b, a, r)) :
    s = b ++ (p.written a ++ r) ∧ p.written a ≠ [] := by
  induction s generalizing b with
  | nil => simp [first?] at h
  | cons c cs ih =>
    simp only [first?] at h
    split at h
    next a' r' hrun =>
      obtain ⟨rfl, rfl, rfl⟩ : b = [] ∧ a' = a ∧ r' = r := by simpa [eq_comm] using h
      simpa using p.sound _ _ _ hrun
    next hrun =>
      obtain ⟨⟨b', a', r'⟩, hfirst, heq⟩ := Option.map_eq_some_iff.1 h
      obtain ⟨rfl, rfl, rfl⟩ : c :: b' = b ∧ a' = a ∧ r' = r := by simpa using heq
      obtain ⟨hcs, hne⟩ := ih hfirst
      exact ⟨by simpa using hcs, hne⟩

/-- What follows an occurrence is shorter than the text. -/
theorem length_after_first? {p : Recogniser α} {s b r : Text} {a : α}
    (h : p.first? s = some (b, a, r)) : r.length < s.length := by
  obtain ⟨rfl, hne⟩ := first?_eq_some h
  have := List.length_pos_iff.2 hne
  simp only [List.length_append]
  omega

def split (p : Recogniser α) (s : Text) : List (Text × α) × Text :=
  match _h : p.first? s with
  | none => ([], s)
  | some (b, a, r) => ((b, a) :: (p.split r).1, (p.split r).2)
termination_by s.length
decreasing_by all_goals exact length_after_first? (by assumption)

/-- The occurrences and the text between them make up the text. -/
theorem flatten_split (p : Recogniser α) (s : Text) :
    (p.split s).1.flatMap (fun (b, a) => b ++ p.written a) ++ (p.split s).2 = s := by
  fun_induction split p s with
  | case1 => simp
  | case2 s b a r h ih =>
    simp only [List.flatMap_cons, List.append_assoc]
    rw [ih]
    exact (first?_eq_some h).1.symm

def occursIn (p : Recogniser α) (s : Text) : Bool := (p.first? s).isSome

def replace (p : Recogniser α) (f : α → Text) (s : Text) : Text :=
  (p.split s).1.flatMap (fun (b, a) => b ++ f a) ++ (p.split s).2

def located (p : Recogniser α) : Nat → List (Text × α) → List (Nat × α)
  | _, [] => []
  | n, (b, a) :: rest =>
    (n + byteSize b, a) :: p.located (n + byteSize b + byteSize (p.written a)) rest

def all (p : Recogniser α) (s : Text) : List (Nat × α) := p.located 0 (p.split s).1

def filter (p : Recogniser α) (keep : α → Bool) : Recogniser α where
  run s := (p.run s).filter fun (a, _) => keep a
  written := p.written
  sound s a r h := p.sound s a r (Option.filter_eq_some_iff.1 h).1

end Recogniser

end ErbLayout.Text
