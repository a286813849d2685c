import ErbLayout.Document
import ErbLayout.Proofs.Markup.Tiling

/-!
The steps of a layout as the proofs see them: what they do to the output, that a layout goes on only
when every step did, and a document as its body laid out and put together with its front matter.
-/

namespace ErbLayout

open Text Markup Layout

theorem bind_eq_ok {α β ε : Type} {r : Except ε α} {next : α → Except ε β} {b : β}
    (h : (r >>= next) = .ok b) : ∃ a, r = .ok a ∧ next a = .ok b := by
  cases r with
  | error e => simp [bind, Except.bind] at h
  | ok a => exact ⟨a, rfl, h⟩

theorem Page.output_append (p : Page) (s : Text) : (p.append s).output = p.output ++ s := by
  cases p
  rfl

theorem Page.output_emit (p : Page) (s : Text) (newLine : Bool) :
    (p.emit s newLine).output = p.output ++ if newLine then onNewLine p.depth s else s := by
  cases newLine <;> simp [Page.emit, Page.output_append]

theorem Page.output_pop {p q : Page} {closer : Closer} {found : Text}
    (h : p.pop closer found = .ok q) :
    q.output = p.output := by
  unfold Page.pop at h
  split at h
  · simp at h
  next =>
    obtain rfl := Except.ok.inj h
    rfl

/-- A body is laid out when its tokens are and no block is left open; otherwise the layout stops
where the tokens do, or at the end with the blocks that are left. -/
theorem Job.layBody_cases (j : Job) (body : Text) :
    (∃ stop, j.layTokens (tokens body) Page.blank = .error stop ∧ j.layBody body = .error stop) ∨
    (∃ p, j.layTokens (tokens body) Page.blank = .ok p ∧ p.blocks = [] ∧
      j.layBody body = .ok { p with position := byteSize body }) ∨
    ∃ p, j.layTokens (tokens body) Page.blank = .ok p ∧ p.blocks ≠ [] ∧
      j.layBody body = .error ⟨.unmatched none p.blocks.labels,
        { p with position := byteSize body }⟩ := by
  unfold layBody
  cases j.layTokens (tokens body) Page.blank with
  | error stop => exact Or.inl ⟨stop, rfl, rfl⟩
  | ok p =>
    refine Or.inr ?_
    obtain ⟨blocks, output, events, position⟩ := p
    cases blocks with
    | nil => exact Or.inl ⟨_, rfl, rfl, rfl⟩
    | cons b bs => exact Or.inr ⟨_, rfl, List.cons_ne_nil b bs, rfl⟩

def markedBody (source : Text) : Text × MarkerTable := extractCode (splitFrontMatter source).2

theorem formatDocument_eq (options : Options) (source : Text) :
    formatDocument options source =
      match (⟨options, (markedBody source).2⟩ : Job).layBody (markedBody source).1 with
      | .ok page => .ok (attachFrontMatter (splitFrontMatter source).1
          (trim ((markedBody source).2.restore page.output)))
      | .error stop => .error ((⟨options, (markedBody source).2⟩ : Job).failureAt
          (((splitFrontMatter source).1.getD []).count '\n') (markedBody source).1 stop) := by
  unfold formatDocument runDocument markedBody
  dsimp only
  cases (⟨options, (extractCode (splitFrontMatter source).2).2⟩ : Job).layBody
      (extractCode (splitFrontMatter source).2).1 with
  | ok page => rfl
  | error stop => rfl

end ErbLayout
