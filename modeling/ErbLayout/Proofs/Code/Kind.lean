import ErbLayout.Proofs.Code.Balance

/-!
The kinds of fragments. A keyword at the start of a fragment ends before a character that belongs to
no word, so what follows that character does not change which keyword leads. A comment after a
fragment therefore keeps the kinds that are told by a leading keyword, and the probe does not count
it. It does change the fragments that are a closer or a reopener only as they stand. A keyword with
a condition reopens a block as long as the condition has no line feed.
-/

namespace ErbLayout.Code

open Text

section Keywords

theorem atWordEnd_append_cons {c : Char} (hc : isWordlike c = false) (s t : Text) :
    atWordEnd (s ++ c :: t) = atWordEnd s := by
  cases s with
  | nil => simp [atWordEnd, hc]
  | cons d s => rfl

/-- A keyword is found in front of a character that is in no word as it is found at the end of the
text. -/
theorem afterKeyword?_append_cons {keyword : Text} {c : Char} (hkeyword : c ∉ keyword)
    (hc : isWordlike c = false) (s t : Text) :
    afterKeyword? keyword (s ++ c :: t) = (afterKeyword? keyword s).map (· ++ c :: t) := by
  unfold afterKeyword?
  cases hs : after? keyword s with
  | some r =>
    have hlong : after? keyword (s ++ c :: t) = some (r ++ c :: t) := by
      rw [after?_eq_some_iff] at hs ⊢
      rw [hs, List.append_assoc]
    rw [hlong, Option.filter_some, Option.filter_some, atWordEnd_append_cons hc]
    split
    · rfl
    · rfl
  | none =>
    cases hlong : after? keyword (s ++ c :: t) with
    | none => rfl
    | some r =>
      -- the keyword would reach past the text, and so hold the character
      rcases List.append_eq_append_iff.mp (after?_eq_some_iff.mp hlong)
        with ⟨a, ha, hrest⟩ | ⟨a, ha, -⟩
      · cases a with
        | nil =>
          have hself : s = keyword ++ [] := by simp [ha]
          rw [after?_eq_some_iff.mpr hself] at hs
          simp at hs
        | cons d a =>
          obtain ⟨rfl, -⟩ := List.cons.inj hrest
          exact absurd (by simp [ha]) hkeyword
      · rw [after?_eq_some_iff.mpr ha] at hs
        simp at hs

theorem exists_of_leadingKeyword? {keywords : List Text} {s : Text}
    (h : (leadingKeyword? keywords s).isSome) :
    ∃ k ∈ keywords, ∃ rest, afterKeyword? k s = some rest := by
  obtain ⟨k, hk, hfound⟩ := List.find?_isSome.mp h
  exact ⟨k, hk, Option.isSome_iff_exists.mp hfound⟩

theorem eq_append_of_afterKeyword? {k s rest : Text} (h : afterKeyword? k s = some rest) :
    s = k ++ rest :=
  after?_eq_some_iff.mp (Option.filter_eq_some_iff.mp h).1

theorem head?_of_afterKeyword? {k s rest : Text} (hne : k ≠ [])
    (h : afterKeyword? k s = some rest) :
    s.head? = k.head? := by
  obtain ⟨c, k, rfl⟩ := List.exists_cons_of_ne_nil hne
  rw [eq_append_of_afterKeyword? h]
  rfl

/-- A fragment reopens a block when it is one of the fragments that do so as they stand, or begins
with one of the keywords and has no line feed. -/
theorem isReopener_iff {code : Text} :
    isReopener code ↔ code ∈ reopenerFragments ∨ (leadingKeyword? reopenerKeywords code).isSome ∧
      '\n' ∉ code := by
  have hkeywords : ∀ k ∈ reopenerKeywords, '\n' ∉ k := by decide
  unfold isReopener
  rw [Bool.or_eq_true, List.contains_iff_mem, List.any_eq_true]
  apply or_congr_right
  constructor
  · rintro ⟨k, hk, hany⟩
    obtain ⟨rest, hrest, hfeed⟩ := (Option.any_eq_true _ _).mp hany
    have hfeed : '\n' ∉ rest := by simpa using hfeed
    refine ⟨List.find?_isSome.mpr ⟨k, hk, by simp [hrest]⟩, ?_⟩
    rw [eq_append_of_afterKeyword? hrest, List.mem_append]
    exact not_or.mpr ⟨hkeywords k hk, hfeed⟩
  · rintro ⟨hleads, hfeed⟩
    obtain ⟨k, hk, rest, hrest⟩ := exists_of_leadingKeyword? hleads
    refine ⟨k, hk, ?_⟩
    have hnone : '\n' ∉ rest := fun hmem =>
      hfeed (eq_append_of_afterKeyword? hrest ▸ List.mem_append_right k hmem)
    simp [hrest, hnone]

end Keywords

section Comments

def withComment (code comment : Text) : Text := code ++ ' ' :: '#' :: ' ' :: comment

/-- A space at the end belongs to no statement. -/
theorem Balance.of_append_space (s : Text) : Balance.of (s ++ [' ']) = Balance.of s := by
  have hblocks : (Balance.of (s ++ [' '])).blocks = (Balance.of s).blocks := by
    rw [blocks_of, blocks_of]
    rcases List.eq_nil_or_concat (splitAt (fun c => c == ';' || c == '\n') s)
      with hnil | ⟨before, last, hpieces⟩
    · rw [splitAt_eq_splitOnP] at hnil
      exact absurd hnil (List.splitOnP_ne_nil _ s)
    · rw [List.concat_eq_append] at hpieces
      have htrim : trim (last ++ [' ']) = trim last := trim_append_blank last (by simp; decide)
      rw [splitAt_append hpieces rfl, hpieces]
      simp only [List.map_append, List.map_cons, List.map_nil, htrim]
  have hexcess : ∀ a b : Char, excess a b [' '] = 0 → excess a b (s ++ [' ']) = excess a b s := by
    intro a b hspace
    rw [excess_append, hspace, Int.add_zero]
  exact Balance.ext hblocks (hexcess '{' '}' rfl) (hexcess '(' ')' rfl) (hexcess '[' ']' rfl)

variable {code comment : Text}

theorem leavesOpen_withComment (hend : endPosition .plain code = .plain) (hline : '\n' ∉ comment) :
    leavesOpen (withComment code comment) = leavesOpen code := by
  have hcomment : stripFrom .plain (' ' :: '#' :: ' ' :: comment) = [' '] :=
    congrArg (' ' :: ·) (comment_of_notMem (by simpa using hline)).1
  rw [leavesOpen, stripLiterals, withComment, stripFrom_append, hend, hcomment,
    Balance.of_append_space]
  rfl

theorem space_mem_withComment (code comment : Text) : ' ' ∈ withComment code comment := by
  simp [withComment]

theorem isSome_leadingKeyword?_withComment {keywords : List Text} (h : ∀ k ∈ keywords, ' ' ∉ k) :
    (leadingKeyword? keywords (withComment code comment)).isSome =
      (leadingKeyword? keywords code).isSome := by
  have hspace : isWordlike ' ' = false := by decide
  rw [Bool.eq_iff_iff, leadingKeyword?, leadingKeyword?, List.find?_isSome, List.find?_isSome]
  refine exists_congr fun k => and_congr_right fun hk => ?_
  rw [withComment, afterKeyword?_append_cons (h k hk) hspace, Option.isSome_map]

theorem isStandalone_withComment : isStandalone (withComment code comment) = isStandalone code :=
  isSome_leadingKeyword?_withComment (by decide)

theorem isCloser_withComment : isCloser (withComment code comment) = false := by
  have hfragments : ∀ f ∈ closerFragments, ' ' ∉ f := by decide
  rw [isCloser, List.contains_eq_mem, decide_eq_false_iff_not]
  exact fun hmem => hfragments _ hmem (space_mem_withComment code comment)

theorem isReopener_withComment_iff (hline : '\n' ∉ comment) :
    isReopener (withComment code comment) ↔ (leadingKeyword? reopenerKeywords code).isSome ∧
      '\n' ∉ code := by
  have hfragments : ∀ f ∈ reopenerFragments, ' ' ∉ f := by decide
  have hnot : withComment code comment ∉ reopenerFragments :=
    fun hmem => hfragments _ hmem (space_mem_withComment code comment)
  have hfeed : '\n' ∉ withComment code comment ↔ '\n' ∉ code := by simp [withComment, hline]
  rw [isReopener_iff, isSome_leadingKeyword?_withComment (by decide), hfeed, or_iff_right hnot]

theorem head?_withComment (hstart : code.head? ≠ some '#') :
    (withComment code comment).head? ≠ some '#' := by
  cases code with
  | nil => simp [withComment]
  | cons c code => exact hstart

/-- The tests that are made of a fragment with a comment, in terms of the fragment. -/
theorem kind_withComment (hstart : code.head? ≠ some '#') (hend : endPosition .plain code = .plain)
    (hline : '\n' ∉ comment) :
    Kind.of leavesOpen (withComment code comment) =
      if isStandalone code then .standalone
      else if (leadingKeyword? reopenerKeywords code).isSome ∧ '\n' ∉ code then .reopener
      else if leavesOpen code then .opener
      else .expression := by
  have hhead : ((withComment code comment).head? == some '#') = false := by
    simpa using head?_withComment hstart
  unfold Kind.of
  rw [hhead, isStandalone_withComment, isCloser_withComment, leavesOpen_withComment hend hline]
  simp only [isReopener_withComment_iff hline, Bool.false_eq_true, if_false]

/-- The tests that are made of a fragment that is not by itself a closer or a reopener. -/
theorem kind_of_notMem (hstart : code.head? ≠ some '#')
    (hcode : code ∉ closerFragments ++ reopenerFragments) (probe : Text → Bool) :
    Kind.of probe code =
      if isStandalone code then .standalone
      else if (leadingKeyword? reopenerKeywords code).isSome ∧ '\n' ∉ code then .reopener
      else if probe code then .opener
      else .expression := by
  obtain ⟨hcloser, hreopener⟩ := not_or.mp (mt List.mem_append.mpr hcode)
  have hhead : (code.head? == some '#') = false := by simpa using hstart
  have hclose : isCloser code = false := by simpa [isCloser] using hcloser
  unfold Kind.of
  rw [hhead, hclose]
  simp only [isReopener_iff, hreopener, false_or, Bool.false_eq_true, if_false]

end Comments

/-- A comment after a fragment keeps the kind of the fragment, except when the fragment closes or
reopens a block just as it stands: with a comment it is then an expression. -/
theorem kind_withComment_iff (code comment : Text) (hstart : code.head? ≠ some '#')
    (hend : endPosition .plain code = .plain) (hline : '\n' ∉ comment) :
    (Kind.of leavesOpen (code ++ ' ' :: '#' :: ' ' :: comment) = Kind.of leavesOpen code ↔
      code ∉ closerFragments ++ reopenerFragments) ∧
      (code ∈ closerFragments ++ reopenerFragments →
        Kind.of leavesOpen (code ++ ' ' :: '#' :: ' ' :: comment) = .expression) := by
  have hcommented := kind_withComment hstart hend hline
  rw [withComment] at hcommented
  have hchanged : code ∈ closerFragments ++ reopenerFragments →
      Kind.of leavesOpen (code ++ ' ' :: '#' :: ' ' :: comment) = .expression ∧
        Kind.of leavesOpen code ≠ .expression := by
    intro hmem
    have hcases : ∀ f ∈ closerFragments ++ reopenerFragments, isStandalone f = false ∧
        (leadingKeyword? reopenerKeywords f).isSome = false ∧ leavesOpen f = false ∧
        Kind.of leavesOpen f ≠ .expression := by
      decide
    obtain ⟨hstandalone, hkeyword, hopen, hkind⟩ := hcases code hmem
    rw [hcommented, hstandalone, hkeyword, hopen]
    exact ⟨by simp, hkind⟩
  refine ⟨⟨fun hsame hmem => ?_, fun hcode => ?_⟩, fun hmem => (hchanged hmem).1⟩
  · obtain ⟨hexpression, hkind⟩ := hchanged hmem
    exact hkind (hsame.symm.trans hexpression)
  · rw [hcommented, kind_of_notMem hstart hcode]

/-- A reopener with a condition, an opener whose literal holds a number sign, and a standalone
fragment keep their kinds. -/
theorem kind_withComment_iff_kept :
    Kind.of leavesOpen "elsif a # end".toList = .reopener ∧
      Kind.of leavesOpen "f('#') do # end".toList = .opener ∧
      Kind.of leavesOpen "yield # \x7b".toList = .standalone := by
  refine ⟨?_, ?_, ?_⟩
  · exact ((kind_withComment_iff "elsif a".toList "end".toList (by decide) (by decide)
      (by decide)).1.mpr (by decide)).trans (by decide)
  · exact ((kind_withComment_iff "f('#') do".toList "end".toList (by decide) (by decide)
      (by decide)).1.mpr (by decide)).trans (by decide)
  · exact ((kind_withComment_iff "yield".toList "\x7b".toList (by decide) (by decide)
      (by decide)).1.mpr (by decide)).trans (by decide)

/-- An `end` with a comment after it closes nothing. -/
theorem kind_withComment_loses_closer :
    endPosition .plain "end".toList = .plain ∧ Kind.of leavesOpen "end".toList = .closer ∧
      Kind.of leavesOpen "end # if x".toList = .expression ∧
        Kind.of leavesOpen "else".toList = .reopener ∧
      Kind.of leavesOpen "else # x".toList = .expression := by
  decide

section Reopeners

variable {code : Text} (hkeyword : (leadingKeyword? reopenerKeywords code).isSome)
include hkeyword

theorem head?_of_reopenerKeyword : code.head? ∈ [some 'e', some 'w', some 'i', some 'r'] := by
  have hkeywords : ∀ k ∈ reopenerKeywords, k ≠ [] ∧
    k.head? ∈ [some 'e', some 'w', some 'i', some 'r'] := by decide
  obtain ⟨k, hk, rest, hrest⟩ := exists_of_leadingKeyword? hkeyword
  rw [head?_of_afterKeyword? (hkeywords k hk).1 hrest]
  exact (hkeywords k hk).2

theorem isStandalone_of_reopenerKeyword : isStandalone code = false := by
  have hkeywords : ∀ k ∈ standaloneKeywords, k ≠ [] ∧
    k.head? ∉ [some 'e', some 'w', some 'i', some 'r'] := by decide
  cases h : isStandalone code with
  | false => rfl
  | true =>
    obtain ⟨k, hk, rest, hrest⟩ := exists_of_leadingKeyword? h
    have hhead := head?_of_reopenerKeyword hkeyword
    rw [head?_of_afterKeyword? (hkeywords k hk).1 hrest] at hhead
    exact absurd hhead (hkeywords k hk).2

/-- A keyword that reopens a block does so unless a line feed follows; then the probe decides. -/
theorem kind_of_reopenerKeyword (probe : Text → Bool) :
    Kind.of probe code = if '\n' ∉ code then .reopener else if probe code then .opener
      else .expression := by
  have hstart : code.head? ≠ some '#' := by
    intro h
    have hhead := head?_of_reopenerKeyword hkeyword
    rw [h] at hhead
    exact absurd hhead (by decide)
  have hfragments : ∀ f ∈ closerFragments ++ reopenerFragments,
      (leadingKeyword? reopenerKeywords f).isSome = false := by
    decide
  have hcode : code ∉ closerFragments ++ reopenerFragments := by
    intro hmem
    rw [hfragments code hmem] at hkeyword
    simp at hkeyword
  rw [kind_of_notMem hstart hcode, isStandalone_of_reopenerKeyword hkeyword, hkeyword]
  simp

end Reopeners

end ErbLayout.Code
