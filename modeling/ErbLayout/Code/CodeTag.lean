import ErbLayout.Markup.Tag

/-!
Code tags: embedded code between `<%`, `<%=`, `<%==` or `<%-` and the nearest `%>` or `-%>`. The
blanks inside the delimiters are not part of the code. The parts of a tag written one after the
other are the tag.
-/

namespace ErbLayout.Code

open Text Markup

structure CodeTag where
  opening : Text
  lead : Text
  code : Text
  trail : Text
  closing : Text
  deriving DecidableEq, Repr

def CodeTag.written (t : CodeTag) : Text := t.opening ++ t.lead ++ t.code ++ t.trail ++ t.closing

def opening? : Text → Option (Text × Text)
  | '<' :: '%' :: '=' :: '=' :: r => some (['<', '%', '=', '='], r)
  | '<' :: '%' :: '=' :: r => some (['<', '%', '='], r)
  | '<' :: '%' :: '-' :: r => some (['<', '%', '-'], r)
  | '<' :: '%' :: r => some (['<', '%'], r)
  | _ => none

def closing? : Text → Option (Text × Text)
  | '-' :: '%' :: '>' :: r => some (['-', '%', '>'], r)
  | '%' :: '>' :: r => some (['%', '>'], r)
  | _ => none

/-- The shortest code before blanks and a closing delimiter: the code, the blanks, the delimiter,
the rest. -/
def codeBody? (s : Text) : Option (Text × Text × Text × Text) :=
  match closing? (spanOf isBlank s).2 with
  | some (closing, r) => some ([], (spanOf isBlank s).1, closing, r)
  | none =>
    match s with
    | [] => none
    | c :: cs => (codeBody? cs).map fun (code, rest) => (c :: code, rest)

def codeTag? (s : Text) : Option (CodeTag × Text) :=
  match opening? s with
  | none => none
  | some (opening, r) =>
    (codeBody? (spanOf isBlank r).2).map fun (code, trail, closing, rest) =>
      (⟨opening, (spanOf isBlank r).1, code, trail, closing⟩, rest)

theorem opening?_eq_some {s o r : Text} (h : opening? s = some (o, r)) : s = o ++ r ∧ o ≠ [] := by
  unfold opening? at h
  split at h <;> simp only [Option.some.injEq, Prod.mk.injEq, reduceCtorEq] at h
  all_goals
    obtain ⟨rfl, rfl⟩ := h
    simp

theorem closing?_eq_some {s c r : Text} (h : closing? s = some (c, r)) : s = c ++ r := by
  unfold closing? at h
  split at h <;> simp only [Option.some.injEq, Prod.mk.injEq, reduceCtorEq] at h
  all_goals
    obtain ⟨rfl, rfl⟩ := h
    simp

theorem codeBody?_eq_some {s code trail closing r : Text}
    (h : codeBody? s = some (code, trail, closing, r)) : s = code ++ (trail ++ (closing ++ r)) := by
  fun_induction codeBody? s generalizing code with
  | case1 s c t hclose =>
    obtain ⟨rfl, rfl, rfl, rfl⟩ := by simpa using h
    have := spanOf_append isBlank s
    rw [closing?_eq_some hclose] at this
    simpa using this.symm
  | case2 => simp at h
  | case3 _ _ _ ih =>
    obtain ⟨⟨code', rest⟩, hbody, heq⟩ := Option.map_eq_some_iff.1 h
    obtain ⟨rfl, rfl⟩ := by simpa using heq
    simp [ih hbody]

def codeTags : Recogniser CodeTag where
  run := codeTag?
  written := CodeTag.written
  sound s t r h := by
    unfold codeTag? at h
    split at h
    · simp at h
    next o s' hopen =>
      obtain ⟨⟨code, trail, closing, rest⟩, hbody, heq⟩ := Option.map_eq_some_iff.1 h
      obtain ⟨rfl, rfl⟩ := by simpa using heq
      obtain ⟨hs, hne⟩ := opening?_eq_some hopen
      have hlead := spanOf_append isBlank s'
      rw [codeBody?_eq_some hbody] at hlead
      rw [← hlead] at hs
      exact ⟨by simpa [CodeTag.written] using hs, by simp [CodeTag.written, hne]⟩

def CodeTag.ofText? (s : Text) : Option CodeTag := (codeTags.first? s).map fun (_, t, _) => t

/-- The tag around `code`, with one space inside each delimiter; the sign of a comment stays at the
opening delimiter. -/
def CodeTag.render (t : CodeTag) (code : Text) : Text :=
  t.opening ++ (if code.head? == some '#' then [] else [' ']) ++ code ++ ' ' :: t.closing

end ErbLayout.Code
