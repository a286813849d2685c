import ErbLayout.Text.Basic

/-!
Words of brackets for the tags and code blocks of a template. The words in which they nest are given
by a grammar, and a stack machine with one frame for each open element or code block accepts exactly
these words: a nested word leaves the frames as they were, and a word that leaves frames open splits
into a nested word for each level.
-/

namespace ErbLayout

/-- A bracket that a construct of a template contributes. -/
inductive Bracket where
  | openTag (name : Text)
  | closeTag (name : Text)
  | opener
  | closer
  | reopener
  deriving DecidableEq, Repr

/-- The words in which tags and code blocks nest: a word is empty, or a word before an element with
a word inside, or a word before a code block whose parts are words. -/
inductive Nested : List Bracket → Prop
  | nil : Nested []
  | element {u v : List Bracket} (name : Text) : Nested u → Nested v →
      Nested (u ++ .openTag name :: (v ++ [.closeTag name]))
  | block {u v : List Bracket} {ws : List (List Bracket)} : Nested u → Nested v →
      (∀ w ∈ ws, Nested w) →
      Nested (u ++ .opener :: (v ++ ws.flatMap (.reopener :: ·) ++ [.closer]))

/-- What is open: an element, or a code block. -/
inductive Frame where
  | element (name : Text)
  | code
  deriving DecidableEq, Repr

/-- The frames after a bracket, innermost first, unless it closes what is not open. -/
def Bracket.step : Bracket → List Frame → Option (List Frame)
  | .openTag name, frames => some (.element name :: frames)
  | .closeTag name, .element open' :: frames => if open' = name then some frames else none
  | .opener, frames => some (.code :: frames)
  | .closer, .code :: frames => some frames
  | .reopener, .code :: frames => some (.code :: frames)
  | _, _ => none

def runBrackets : List Bracket → List Frame → Option (List Frame)
  | [], frames => some frames
  | b :: bs, frames => (b.step frames).bind (runBrackets bs)

theorem runBrackets_append (u v : List Bracket) (frames : List Frame) :
    runBrackets (u ++ v) frames = (runBrackets u frames).bind (runBrackets v) := by
  induction u generalizing frames with
  | nil => rfl
  | cons b u ih =>
    simp only [List.cons_append, runBrackets, Option.bind_assoc]
    congr 1
    funext frames'
    exact ih frames'

/-- The parts of a code block, each after a reopening bracket, leave the block open. -/
theorem runBrackets_parts {ws : List (List Bracket)} {frames : List Frame}
    (h : ∀ w ∈ ws, runBrackets w (.code :: frames) = some (.code :: frames)) :
    runBrackets (ws.flatMap (.reopener :: ·)) (.code :: frames) = some (.code :: frames) := by
  induction ws with
  | nil => rfl
  | cons w ws ih =>
    have hw := h w (List.mem_cons_self ..)
    have hws := ih fun w' hw' => h w' (List.mem_cons_of_mem w hw')
    simp [runBrackets_append, runBrackets, Bracket.step, hw, hws]

/-- A nested word leaves the frames as they were. -/
theorem Nested.runBrackets_eq {w : List Bracket} (h : Nested w) (frames : List Frame) :
    runBrackets w frames = some frames := by
  induction h generalizing frames with
  | nil => rfl
  | element name _ _ ihu ihv =>
    simp [runBrackets_append, runBrackets, Bracket.step, ihu, ihv]
  | block _ _ _ ihu ihv ihws =>
    have hparts := runBrackets_parts fun w hw => ihws w hw (.code :: frames)
    simp [runBrackets_append, runBrackets, Bracket.step, ihu, ihv, hparts]

/-- The words that leave the given frames open: a nested word for the outermost level, and for each
frame its opening bracket and what has been read inside it. -/
inductive Pending : List Frame → List Bracket → Prop
  | nil {w : List Bracket} : Nested w → Pending [] w
  | element {frames : List Frame} {u v : List Bracket} (name : Text) : Pending frames u → Nested v →
      Pending (.element name :: frames) (u ++ .openTag name :: v)
  | code {frames : List Frame} {u v : List Bracket} {ws : List (List Bracket)} : Pending frames u →
      Nested v → (∀ w ∈ ws, Nested w) →
      Pending (.code :: frames) (u ++ .opener :: (v ++ ws.flatMap (.reopener :: ·)))

/-- What may follow every nested word may follow a pending one. -/
theorem Pending.append {frames : List Frame} {u x : List Bracket} (h : Pending frames u)
    (hx : ∀ v, Nested v → Nested (v ++ x)) : Pending frames (u ++ x) := by
  cases h with
  | nil hw => exact .nil (hx u hw)
  | @element frames u v name hu hv =>
    have := Pending.element name hu (hx v hv)
    simpa using this
  | @code frames u v ws hu hv hws =>
    -- what follows goes to the part that is being read: the last one, or the first when nothing
    -- reopened the block
    rcases List.eq_nil_or_concat ws with rfl | ⟨ws, w, rfl⟩
    · have hnone : ∀ w ∈ ([] : List (List Bracket)), Nested w := by simp
      have := Pending.code hu (hx v hv) hnone
      simpa using this
    · have hparts : ∀ w' ∈ ws ++ [w ++ x], Nested w' := by
        intro w' hw'
        rcases List.mem_append.mp hw' with hw' | hw'
        · exact hws w' (by simp [hw'])
        · obtain rfl := List.mem_singleton.mp hw'
          exact hx w (hws w (by simp))
      have := Pending.code hu hv hparts
      simpa using this

/-- A bracket takes a pending word to a pending word. -/
theorem Pending.step {frames frames' : List Frame} {w : List Bracket} {b : Bracket}
    (h : Pending frames w) (hstep : b.step frames = some frames') : Pending frames' (w ++ [b]) := by
  cases b with
  | openTag name =>
    obtain rfl : .element name :: frames = frames' := by simpa [Bracket.step] using hstep
    exact .element name h .nil
  | opener =>
    obtain rfl : .code :: frames = frames' := by simpa [Bracket.step] using hstep
    have hnone : ∀ w ∈ ([] : List (List Bracket)), Nested w := by simp
    exact .code h .nil hnone
  | closeTag name =>
    cases h with
    | nil => simp [Bracket.step] at hstep
    | code => simp [Bracket.step] at hstep
    | element name' hu hv =>
      obtain ⟨rfl, rfl⟩ : name' = name ∧ _ = frames' := by simpa [Bracket.step] using hstep
      -- the closed element joins the word of the level around it
      have := hu.append fun v' hv' => Nested.element name' hv' hv
      simpa using this
  | closer =>
    cases h with
    | nil => simp [Bracket.step] at hstep
    | element => simp [Bracket.step] at hstep
    | code hu hv hws =>
      obtain rfl : _ = frames' := by simpa [Bracket.step] using hstep
      have := hu.append fun v' hv' => Nested.block hv' hv hws
      simpa using this
  | reopener =>
    cases h with
    | nil => simp [Bracket.step] at hstep
    | element => simp [Bracket.step] at hstep
    | @code frames u v ws hu hv hws =>
      obtain rfl : _ = frames' := by simpa [Bracket.step] using hstep
      -- the block stays open with one more part, empty so far
      have hparts : ∀ w' ∈ ws ++ [[]], Nested w' := by
        intro w' hw'
        rcases List.mem_append.mp hw' with hw' | hw'
        · exact hws w' hw'
        · obtain rfl := List.mem_singleton.mp hw'
          exact .nil
      have := Pending.code hu hv hparts
      simpa using this

theorem Pending.run {frames frames' : List Frame} {u w : List Bracket} (h : Pending frames u)
    (hrun : runBrackets w frames = some frames') : Pending frames' (u ++ w) := by
  induction w generalizing frames u with
  | nil =>
    obtain rfl : frames = frames' := by simpa [runBrackets] using hrun
    simpa using h
  | cons b w ih =>
    obtain ⟨middle, hstep, hrest⟩ := Option.bind_eq_some_iff.mp hrun
    have := ih (h.step hstep) hrest
    simpa using this

/-- The stack machine accepts exactly the nested words. -/
theorem runBrackets_eq_nil_iff {w : List Bracket} : runBrackets w [] = some [] ↔ Nested w := by
  constructor
  · intro h
    have hpending := (Pending.nil Nested.nil).run h
    cases hpending with
    | nil hw => simpa using hw
  · intro h
    exact h.runBrackets_eq []

end ErbLayout
