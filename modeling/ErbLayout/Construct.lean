import ErbLayout.Code.Keyword
import ErbLayout.Marker
import ErbLayout.Markup.Attribute

/-!
The constructs of templates by name, and for each the places of its parts. An occurrence is the list
of its parts, the whole first, each with its byte offset; a part that does not take part is absent.
-/

namespace ErbLayout

open Text Markup Code

/-- A part of an occurrence: its byte offset and its text. -/
abbrev Part := Option (Nat × Text)

/-- Parts that lie one after the other from a byte offset on; those with `false` are left out. -/
def partsFrom (offset : Nat) : List (Bool × Text) → List Part
  | [] => []
  | (named, s) :: rest =>
    (if named then [some (offset, s)] else []) ++ partsFrom (offset + byteSize s) rest

def occurrences {α : Type} (p : Recogniser α) (parts : Nat → α → List Part) (s : Text) :
    List (List Part) :=
  (p.all s).map fun (offset, a) => some (offset, p.written a) :: parts offset a

/-- The parts of a tag: the name of a closing tag, then name, attributes and end of an opening
tag. -/
def tagParts (offset : Nat) : Tag → List Part
  | .closing lead name trail =>
    partsFrom offset [(false, ['<', '/'] ++ lead), (true, name), (false, trail)] ++
      [none, none, none]
  | .opening name attributes gap ending =>
    none :: partsFrom offset
      [(false, ['<']), (true, name), (true, attributes), (false, gap), (true, ending.written)]

/-- The parts of a code tag: its delimiters and the code between them. -/
def codeTagParts (offset : Nat) (t : CodeTag) : List Part :=
  partsFrom offset [(true, t.opening), (false, t.lead), (true, t.code), (false, t.trail),
    (true, t.closing)]

def whole (holds : Bool) (parts : List Part) (s : Text) : List (List Part) :=
  if holds then [some (0, s) :: parts] else []

def blankStretches : Recogniser Text where
  run s := if (spanOf isBlank s).1.isEmpty then none else some (spanOf isBlank s)
  written := id
  sound s a r h := by
    have hs := spanOf_append isBlank s
    split at h
    · simp at h
    next hne =>
      obtain ⟨rfl, rfl⟩ : (spanOf isBlank s).1 = a ∧ (spanOf isBlank s).2 = r := by
        simpa [Prod.ext_iff] using h
      exact ⟨hs.symm, by simpa using hne⟩

inductive Construct where
  | tag
  | attribute
  | bareValue
  | badAttribute
  | tagName
  | voidElement
  | rawTextClose
  | blanks
  | codeTag
  | markerLike
  | marker
  | standalone
  | closer
  | reopener
  deriving DecidableEq, Repr

def Construct.find (s : Text) : Construct → List (List Part)
  | .tag => occurrences tags tagParts s
  | .attribute => occurrences attributeTexts (fun _ _ => []) s
  | .bareValue => whole (isBareValue s) [] s
  | .badAttribute => occurrences badAttributes (fun _ _ => []) s
  | .tagName => whole (isTagName s) [] s
  | .voidElement => whole (isVoidElement s) [some (0, s)] s
  | .rawTextClose => occurrences rawClosers (fun offset t => (tagParts offset t).take 1) s
  | .blanks => occurrences blankStretches (fun _ _ => []) s
  | .codeTag => occurrences codeTags codeTagParts s
  | .markerLike => occurrences markerLikes (fun _ _ => []) s
  | .marker => occurrences markers (fun _ _ => []) s
  | .standalone =>
    match leadingKeyword? standaloneKeywords s with
    | some keyword => [[some (0, keyword), some (0, keyword)]]
    | none => []
  | .closer => whole (isCloser s) [some (0, s)] s
  | .reopener => whole (isReopener s) [some (0, s)] s

end ErbLayout
