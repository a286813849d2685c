import ErbLayout.Proofs.Document
import ErbLayout.Proofs.Extraction
import ErbLayout.Proofs.FrontMatter

/-!
A document with front matter and its body as a document of its own. The body is laid out the same,
step by step, whether front matter stands before it or not. Front matter decides only what is put
before the body once it is laid out, and how many lines are counted above the place of a failure.
-/

namespace ErbLayout

open Text Markup

theorem runDocument_of_split {source body : Text} {front : Option Text}
    (h : splitFrontMatter source = (front, body)) (options : Options) :
    runDocument options source =
      match (⟨options, (extractCode body).2⟩ : Job).layBody (extractCode body).1 with
      | .ok page =>
        ⟨page.events, .ok (attachFrontMatter front
          (trim ((extractCode body).2.restore page.output)))⟩
      | .error stop => ⟨stop.page.events, .error ((⟨options, (extractCode body).2⟩ : Job).failureAt
          ((front.getD []).count '\n') (extractCode body).1 stop)⟩ := by
  cases hlay : (⟨options, (extractCode body).2⟩ : Job).layBody (extractCode body).1 with
  | ok page => simp [runDocument, h, hlay]
  | error stop => simp [runDocument, h, hlay]

/-- A failure below some lines is the failure without them, so many lines further down. -/
theorem Job.failureAt_eq (j : Job) (above : Nat) (body : Text) (stop : Stop) :
    j.failureAt above body stop =
      { j.failureAt 0 body stop with line := (j.failureAt 0 body stop).line + above } := by
  simp only [Job.failureAt, Failure.mk.injEq, true_and, and_true]
  omega

theorem Job.layBody_nil (j : Job) : j.layBody [] = .ok Page.blank := by
  rw [Job.layBody, tokens, lexemes, lexemesIn_nil]
  rfl

/-- What is put out for a document with front matter when its body alone is laid out as `t`. -/
def belowFrontMatter (matter t : Text) : Text :=
  if t = ['\n'] then if matter.getLast? = some '\n' then matter
  else matter ++ ['\n'] else matter ++ '\n' :: t

theorem attachFrontMatter_some {matter t : Text} (h : matter.getLast? = some '\n' ∨ t = []) :
    attachFrontMatter (some matter) t = belowFrontMatter matter (attachFrontMatter none t) := by
  by_cases ht : t = []
  · simp [attachFrontMatter, belowFrontMatter, ht]
  · have hend : matter.getLast? = some '\n' := h.resolve_right ht
    simp [attachFrontMatter, belowFrontMatter, ht, hend]

/-- Front matter without a line feed at its end has nothing after it, so nothing is put out for the
body. -/
theorem endsLine_or_output_nil {source matter body : Text}
    (hsource : splitFrontMatter source = (some matter, body)) {options : Options} {page : Page}
    (hlay : (⟨options, (extractCode body).2⟩ : Job).layBody (extractCode body).1 = .ok page) :
    matter.getLast? = some '\n' ∨ trim ((extractCode body).2.restore page.output) = [] := by
  rcases splitFrontMatter_again hsource with ⟨hend, -⟩ | ⟨-, rfl, -⟩
  · exact Or.inl hend
  · have hextract : extractCode [] = ([], ⟨[], []⟩) := by decide +kernel
    rw [hextract, Job.layBody_nil] at hlay
    rw [← Except.ok.inj hlay, hextract]
    exact Or.inr (congrArg trim (restore_nil _))

/-- A document with front matter is laid out with the steps of its body. Its text is that of the
body below the front matter, or it fails as the body does, as many lines further down as the front
matter has. -/
theorem runDocument_frontMatter (options : Options) {source matter body : Text}
    (hsource : splitFrontMatter source = (some matter, body))
    (hbody : (splitFrontMatter body).1 = none) :
    runDocument options source = ⟨(runDocument options body).events,
      match (runDocument options body).result with
      | .ok t => .ok (belowFrontMatter matter t)
      | .error e => .error { e with line := e.line + matter.count '\n' }⟩ := by
  rw [runDocument_of_split hsource, runDocument_of_split (splitFrontMatter_eq_of_none hbody)]
  cases hlay : (⟨options, (extractCode body).2⟩ : Job).layBody (extractCode body).1 with
  | ok page =>
    dsimp only
    rw [attachFrontMatter_some (endsLine_or_output_nil hsource hlay)]
  | error stop =>
    dsimp only
    rw [Job.failureAt_eq]
    rfl

/-- Front matter goes before the body and changes nothing else: the body is laid out with the same
steps as on its own and to the same text, or it fails alike, as many lines further down as the front
matter has. -/
theorem formatDocument_frontMatter (options : Options) (source matter body : Text)
    (hsource : splitFrontMatter source = (some matter, body))
    (hbody : (splitFrontMatter body).1 = none) :
    (∀ t, formatDocument options body = .ok t → t ≠ ['\n'] →
      formatDocument options source = .ok (matter ++ '\n' :: t)) ∧
    (formatDocument options body = .ok ['\n'] →
      formatDocument options source =
        .ok (if matter.getLast? = some '\n' then matter else matter ++ ['\n'])) ∧
    (∀ e, formatDocument options body = .error e →
      formatDocument options source = .error { e with line := e.line + matter.count '\n' }) ∧
    (runDocument options source).events = (runDocument options body).events := by
  have hrun := runDocument_frontMatter options hsource hbody
  refine ⟨fun t ht hne => ?_, fun ht => ?_, fun e he => ?_, by rw [hrun]⟩
  · rw [formatDocument, hrun, ← formatDocument, ht]
    dsimp only
    rw [belowFrontMatter, if_neg hne]
  · rw [formatDocument, hrun, ← formatDocument, ht]
    rfl
  · rw [formatDocument, hrun, ← formatDocument, he]

/-- The open element is reported on the first line of the body, and on the fourth of the
document. -/
theorem formatDocument_frontMatter_unclosed :
    splitFrontMatter "---\na: 1\n...\n<p> b".toList =
      (some "---\na: 1\n...\n".toList, "<p> b".toList) ∧
      (splitFrontMatter "<p> b".toList).1 = none ∧
      formatDocument {} "<p> b".toList = .error ⟨.unmatched none [['p']], "(erb)".toList, 1,
        some ['p']⟩ ∧
      formatDocument {} "---\na: 1\n...\n<p> b".toList =
        .error ⟨.unmatched none [['p']], "(erb)".toList, 4, some ['p']⟩ := by
  have hsource : splitFrontMatter "---\na: 1\n...\n<p> b".toList =
      (some "---\na: 1\n...\n".toList, "<p> b".toList) := by decide +kernel
  have hnone : (splitFrontMatter "<p> b".toList).1 = none := by decide +kernel
  have hbody : formatDocument {} "<p> b".toList =
      .error ⟨.unmatched none [['p']], "(erb)".toList, 1, some ['p']⟩ := by
    decide +kernel
  exact ⟨hsource, hnone, hbody, (formatDocument_frontMatter {} _ _ _ hsource hnone).2.2.1 _ hbody⟩

end ErbLayout
