import ErbLayout.Glob
import Mathlib.Data.List.Chain
import Mathlib.Data.List.Infix

/-!
What globs fit. The tokens of a glob stand for the texts that they cover piece by piece, and the
comparison finds every one of these: it gives up early only where a star before could not help,
since tokens of folders stand at the start of a component. Which globs fit the text that they are
written as follows from it. A character stands for itself, a question mark and a star also stand for
themselves, and two stars that make up a whole component stand for that component. Brackets stand
for one character and take more than one to write: without a star to make up for it, a text with a
bracket never fits itself.
-/

namespace ErbLayout.Glob

open Text

/-- Tokens that cover a text piece by piece. That of folders takes nothing, text up to a slash, or
all that is left if it is the last. -/
inductive Covers : List GlobToken → Text → Prop
  | nil : Covers [] []
  | char {t : GlobToken} {c : Char} {ts : List GlobToken} {s : Text} (htext : t ≠ .anyText)
      (hfolders : t ≠ .folders) (htakes : takes t c = true) (h : Covers ts s) :
      Covers (t :: ts) (c :: s)
  | text (u : Text) {ts : List GlobToken} {s : Text} (h : Covers ts s) :
      Covers (.anyText :: ts) (u ++ s)
  | none {ts : List GlobToken} {s : Text} (h : Covers ts s) : Covers (.folders :: ts) s
  | folders (u : Text) {ts : List GlobToken} {s : Text} (h : Covers ts s) :
      Covers (.folders :: ts) (u ++ '/' :: s)
  | rest (u : Text) : Covers [.folders] u

/-- Tokens of folders stand first, after another or after a slash. -/
def Aligned (ts : List GlobToken) : Prop :=
  ts.IsChain fun t t' => t' = .folders → t = .folders ∨ t = .char '/'

section Comparing

theorem eq_fits_of_ne {v : Verdict} (hdiffers : v ≠ .differs) (hexhausted : v ≠ .exhausted) :
    v = .fits := by
  cases v with
  | fits => rfl
  | differs => exact absurd rfl hdiffers
  | exhausted => exact absurd rfl hexhausted

/-- A text that fits is found, if no comparison before it comes to the end of the text. -/
theorem firstAfter_eq_fits {slashes : Bool} {rest : Text → Verdict} {c : Char} {s : Text}
    (hfits : rest s = .fits) (hrest : ∀ u, rest (u ++ c :: s) ≠ .exhausted)
    (hc : slashes = true → c = '/') (u : Text) :
    firstAfter slashes rest (u ++ c :: s) = some .fits := by
  induction u with
  | nil =>
    have hstop : (slashes && c != '/') = false := by
      cases slashes with
      | false => rfl
      | true => simp [hc rfl]
    simp [firstAfter, hstop, hfits]
  | cons d u ih =>
    rw [List.cons_append, firstAfter]
    split
    · exact ih
    · cases h : rest (u ++ c :: s) with
      | fits => rfl
      | differs => exact ih
      | exhausted => exact absurd h (hrest u)

theorem exists_of_firstAfter {slashes : Bool} {rest : Text → Verdict} {s : Text}
    (h : firstAfter slashes rest s = some .fits) :
    ∃ u c s', s = u ++ c :: s' ∧ rest s' = .fits ∧ (slashes = true → c = '/') := by
  induction s with
  | nil => simp [firstAfter] at h
  | cons c s ih =>
    have hlater : firstAfter slashes rest s = some .fits →
        ∃ u d s', c :: s = u ++ d :: s' ∧ rest s' = .fits ∧ (slashes = true → d = '/') := by
      intro hs
      obtain ⟨u, d, s', rfl, hfits, hd⟩ := ih hs
      exact ⟨c :: u, d, s', rfl, hfits, hd⟩
    rw [firstAfter] at h
    split at h
    · exact hlater h
    next hstop =>
      cases hverdict : rest s with
      | fits => exact ⟨[], c, s, rfl, hverdict, fun hslashes => by simpa [hslashes] using hstop⟩
      | differs => exact hlater (by simpa [hverdict] using h)
      | exhausted => simp [hverdict] at h

theorem firstAfter_compare_nil (slashes : Bool) (s : Text) :
    (firstAfter slashes (compare []) s).getD (compare [] []) = .fits := by
  induction s with
  | nil => rfl
  | cons c s ih =>
    rw [firstAfter]
    split
    · exact ih
    · cases s with
      | nil => rfl
      | cons d s => exact ih

/-- A token that takes more than one character leaves the text as it is, if what follows fits it or
the text is at its end. -/
theorem compare_many {token : GlobToken} (htoken : token = .anyText ∨ token = .folders)
    (ts : List GlobToken) (s : Text) :
    compare (token :: ts) s =
      if compare ts s = .differs then
        (firstAfter (token = .folders) (compare ts) s).getD (compare ts [])
      else compare ts s := by
  have hmany : (decide (token = .anyText) || decide (token = .folders)) = true := by
    simpa using htoken
  rw [compare.eq_def]
  dsimp only
  rw [if_pos hmany]
  cases compare ts s <;> simp

section One

variable {t : GlobToken} (htext : t ≠ .anyText) (hfolders : t ≠ .folders)
include htext hfolders

theorem compare_one_nil (ts : List GlobToken) : compare (t :: ts) [] = .exhausted := by
  simp [compare, htext, hfolders]

theorem compare_one_cons (ts : List GlobToken) (c : Char) (s : Text) :
    compare (t :: ts) (c :: s) = if takes t c then compare ts s else .differs := by
  simp [compare, htext, hfolders]

end One

/-- What takes no text takes any after a token of folders. -/
theorem Covers.folders_of_nil {ts : List GlobToken} {s : Text} (h : Covers ts s) (hs : s = [])
    (u : Text) : Covers (.folders :: ts) u := by
  induction h with
  | nil => exact .rest u
  | char => simp at hs
  | text v h ih =>
    obtain ⟨rfl, rfl⟩ := List.append_eq_nil_iff.mp hs
    simpa using Covers.none (Covers.text u h)
  | none h ih => exact .none (ih hs)
  | folders => simp at hs
  | rest => exact .none (.rest u)

/-- Tokens cover a text that they fit. -/
theorem covers_of_compare {ts : List GlobToken} {s : Text} (h : compare ts s = .fits) :
    Covers ts s := by
  induction ts generalizing s with
  | nil =>
    cases s with
    | nil => exact .nil
    | cons c s => simp [compare] at h
  | cons t ts ih =>
    by_cases hmany : t = .anyText ∨ t = .folders
    · rw [compare_many hmany] at h
      split at h
      · cases hafter : firstAfter (t = .folders) (compare ts) s with
        | none =>
          have hnil := ih (by simpa [hafter] using h)
          rcases hmany with rfl | rfl
          · simpa using Covers.text s hnil
          · exact hnil.folders_of_nil rfl s
        | some verdict =>
          obtain rfl : verdict = .fits := by simpa [hafter] using h
          obtain ⟨u, c, s', rfl, hfits, hc⟩ := exists_of_firstAfter hafter
          rcases hmany with rfl | rfl
          · simpa using Covers.text (u ++ [c]) (ih hfits)
          · rw [hc (by simp)]
            exact .folders u (ih hfits)
      · rcases hmany with rfl | rfl
        · exact .text [] (ih h)
        · exact .none (ih h)
    · obtain ⟨htext, hfolders⟩ := not_or.mp hmany
      cases s with
      | nil => simp [compare_one_nil htext hfolders] at h
      | cons c s =>
        rw [compare_one_cons htext hfolders] at h
        split at h
        next htakes => exact .char htext hfolders htakes (ih h)
        · simp at h

/-- Where tokens are tried before they come to a text that they cover: with one of folders first,
only after a slash. -/
def Before (ts : List GlobToken) (s s' : Text) : Prop :=
  s <:+ s' ∧ (ts.head? = some .folders → s' = s ∨ ∃ u, s' = u ++ '/' :: s)

theorem before_slash (ts : List GlobToken) (s u : Text) : Before ts s (u ++ '/' :: s) :=
  ⟨⟨u ++ ['/'], by simp⟩, fun _ => Or.inr ⟨u, rfl⟩⟩

/-- A token of folders takes the text up to a slash after which what follows fits. -/
theorem compare_folders {ts : List GlobToken} {s : Text} (hfits : compare ts s = .fits)
    (hrest : ∀ s', Before ts s s' → compare ts s' ≠ .exhausted) (u : Text) :
    compare (.folders :: ts) (u ++ '/' :: s) = .fits := by
  have htried : ∀ v, compare ts (v ++ '/' :: s) ≠ .exhausted :=
    fun v => hrest _ (before_slash ts s v)
  rw [compare_many (Or.inr rfl)]
  split
  · rw [firstAfter_eq_fits hfits htried (fun _ => rfl) u, Option.getD_some]
  next hdiffers => exact eq_fits_of_ne hdiffers (htried u)

theorem compare_anyText {ts : List GlobToken} {s : Text} (hfits : compare ts s = .fits)
    (hrest : ∀ s', s <:+ s' → compare ts s' ≠ .exhausted) (u : Text) :
    compare (.anyText :: ts) (u ++ s) = .fits := by
  rw [compare_many (Or.inl rfl)]
  split
  next hdiffers =>
    rcases List.eq_nil_or_concat u with rfl | ⟨u, c, rfl⟩
    · rw [List.nil_append, hfits] at hdiffers
      simp at hdiffers
    · have htried : ∀ v, compare ts (v ++ c :: s) ≠ .exhausted :=
        fun v => hrest _ ⟨v ++ [c], by simp⟩
      rw [List.concat_eq_append, List.append_assoc, List.singleton_append,
        firstAfter_eq_fits hfits htried (by simp) u, Option.getD_some]
  next hdiffers => exact eq_fits_of_ne hdiffers (hrest _ ⟨u, rfl⟩)

/-- Tokens fit a text that they cover. Nor do they come to the end of a longer text before it, so
that a star before them goes on to look for it. -/
theorem Covers.compare_eq {ts : List GlobToken} {s : Text} (h : Covers ts s) (hts : Aligned ts) :
    compare ts s = .fits ∧ ∀ s', Before ts s s' → compare ts s' ≠ .exhausted := by
  -- the second half carries the induction: a star tries longer texts before the one it covers
  induction h with
  | nil =>
    refine ⟨rfl, fun s' _ => ?_⟩
    cases s' <;> simp [compare]
  | @char t c ts s htext hfolders htakes h ih =>
    obtain ⟨hnext, hts⟩ := List.isChain_cons.mp hts
    obtain ⟨hfits, hrest⟩ := ih hts
    refine ⟨by rw [compare_one_cons htext hfolders, if_pos htakes, hfits], ?_⟩
    rintro s' ⟨⟨u, rfl⟩, -⟩
    cases u with
    | nil => simp [compare_one_cons htext hfolders, htakes, hfits]
    | cons d u =>
      rw [List.cons_append, compare_one_cons htext hfolders]
      split
      · refine hrest _ ⟨⟨u ++ [c], by simp⟩, fun hhead => Or.inr ⟨u, ?_⟩⟩
        obtain rfl : t = .char '/' := (hnext _ hhead rfl).resolve_left hfolders
        simpa [takes] using htakes
      · simp
  | @text u ts s h ih =>
    obtain ⟨hnext, hts⟩ := List.isChain_cons.mp hts
    obtain ⟨hfits, hrest⟩ := ih hts
    have htried : ∀ s', s <:+ s' → compare ts s' ≠ .exhausted := by
      refine fun s' hs' => hrest s' ⟨hs', fun hhead => ?_⟩
      simpa using hnext _ hhead rfl
    refine ⟨compare_anyText hfits htried u, ?_⟩
    rintro s' ⟨⟨v, rfl⟩, -⟩
    rw [← List.append_assoc, compare_anyText hfits htried]
    simp
  | @none ts s h ih =>
    obtain ⟨hfits, hrest⟩ := ih (List.isChain_cons.mp hts).2
    have hnow : compare (.folders :: ts) s = .fits := by simp [compare_many (Or.inr rfl), hfits]
    refine ⟨hnow, ?_⟩
    rintro s' ⟨-, hs'⟩
    rcases hs' rfl with rfl | ⟨u, rfl⟩
    · simp [hnow]
    · simp [compare_folders hfits hrest u]
  | @folders u ts s h ih =>
    obtain ⟨hfits, hrest⟩ := ih (List.isChain_cons.mp hts).2
    have hall := compare_folders hfits hrest
    refine ⟨hall u, ?_⟩
    rintro s' ⟨-, hs'⟩
    rcases hs' rfl with rfl | ⟨v, rfl⟩
    · simp [hall u]
    · have hmore := hall (v ++ '/' :: u)
      rw [List.append_assoc, List.cons_append] at hmore
      simp [hmore]
  | rest u =>
    have hall : ∀ s', compare [.folders] s' = .fits := by
      intro s'
      rw [compare_many (Or.inr rfl)]
      cases s' with
      | nil => rfl
      | cons c s' => exact firstAfter_compare_nil true (c :: s')
    exact ⟨hall u, fun s' _ => by rw [hall s']; simp⟩

end Comparing

section Reading

theorem pushFolders_cases (done : List GlobToken) :
    done.getLast? = some .folders ∧ pushFolders done = done ∨
      pushFolders done = done ++ [.folders] := by
  unfold pushFolders
  split
  next hmerged =>
    simp only [Bool.and_eq_true, beq_iff_eq] at hmerged
    exact Or.inl ⟨hmerged.2, rfl⟩
  next => exact Or.inr rfl

namespace Aligned

variable {done : List GlobToken}

theorem push (h : Aligned done) {t : GlobToken} (ht : t ≠ .folders) : Aligned (done ++ [t]) :=
  List.isChain_append.mpr ⟨h, .singleton t, by simp [ht]⟩

theorem pushFolders (h : Aligned done)
    (hlast : ∀ t ∈ done.getLast?, t = .folders ∨ t = .char '/') :
    Aligned (pushFolders done) ∧ (pushFolders done).getLast? = some .folders := by
  rcases pushFolders_cases done with ⟨hfolders, hpushed⟩ | hpushed <;> rw [hpushed]
  · exact ⟨h, hfolders⟩
  · refine ⟨List.isChain_append.mpr ⟨h, .singleton _, fun t ht _ _ _ => hlast t ht⟩, ?_⟩
    simp

end Aligned

/-- Brackets are read as one token from more than one character. -/
theorem of_bracket?_eq_some {s s' : Text} {t : GlobToken} (h : bracket? s = some (t, s')) :
    (t ≠ .anyText ∧ t ≠ .folders) ∧ s' <:+ s ∧ s'.length < s.length := by
  have hrest : ∀ (c : Char) (r : Text), (r.dropWhile (· != ']')).drop 1 <:+ c :: r ∧
      ((r.dropWhile (· != ']')).drop 1).length < (c :: r).length := by
    intro c r
    have hsuffix : (r.dropWhile (· != ']')).drop 1 <:+ r :=
      (List.drop_suffix 1 _).trans (List.dropWhile_suffix _)
    exact ⟨hsuffix.trans (List.suffix_cons c r), Nat.lt_succ_of_le hsuffix.length_le⟩
  unfold bracket? at h
  split at h
  next c r =>
    split at h
    · obtain ⟨rfl, rfl⟩ := Prod.mk.inj (Option.some.inj h)
      obtain ⟨hsuffix, hlength⟩ := hrest c r
      exact ⟨by simp, hsuffix.trans (List.suffix_cons _ _), Nat.lt_succ_of_lt hlength⟩
    · simp at h
  next c r _ =>
    split at h
    · obtain ⟨rfl, rfl⟩ := Prod.mk.inj (Option.some.inj h)
      exact ⟨by simp, hrest c r⟩
    · simp at h
  · simp at h

/-- The tokens that are read from a text are aligned. -/
theorem aligned_tokensFrom {fuel : Nat} {done out : List GlobToken} {atStart : Bool}
    {position : Nat} {s : Text} (hdone : Aligned done)
    (hlast : atStart = true → ∀ t ∈ done.getLast?, t = .folders ∨ t = .char '/')
    (h : tokensFrom fuel done atStart position s = .ok out) : Aligned out := by
  induction fuel generalizing done atStart position s with
  | zero =>
    obtain rfl : done = out := by simpa [tokensFrom] using h
    exact hdone
  | succ fuel ih =>
    cases s with
    | nil =>
      obtain rfl : done = out := by simpa [tokensFrom] using h
      exact hdone
    | cons c s =>
      rw [tokensFrom] at h
      split at h
      · exact ih (hdone.push (by simp)) (by simp) h
      split at h
      · dsimp only at h
        split at h
        · simp at h
        split at h
        · exact ih (hdone.push (by simp)) (by simp) h
        split at h
        · simp at h
        next hstart =>
          obtain ⟨hpushed, hfolders⟩ := hdone.pushFolders (hlast (by simpa using hstart))
          split at h
          · obtain rfl : pushFolders done = out := by simpa using h
            exact hpushed
          · exact ih hpushed (fun _ => by simp [hfolders]) h
          · simp at h
      split at h
      · split at h
        next hbracket => exact ih (hdone.push (of_bracket?_eq_some hbracket).1.2) (by simp) h
        · simp at h
      · exact ih (hdone.push (by simp)) (by simp) h

theorem tokensFrom_of_ofText {s : Text} {g : Glob} (h : ofText s = .ok g) :
    tokensFrom s.length [] true 0 s = .ok g.tokens := by
  unfold ofText at h
  cases hread : tokensFrom s.length [] true 0 s with
  | error e => simp [hread, Except.map] at h
  | ok ts =>
    obtain rfl : Glob.mk ts = g := by simpa [hread, Except.map] using h
    rfl

/-- A glob that is read from a text fits exactly the texts that its tokens cover. -/
theorem fits_iff_covers {s : Text} {g : Glob} (hg : ofText s = .ok g) (t : Text) :
    g.fits t = true ↔ Covers g.tokens t := by
  have haligned : Aligned g.tokens := aligned_tokensFrom .nil (by simp) (tokensFrom_of_ofText hg)
  rw [fits, beq_iff_eq]
  exact ⟨covers_of_compare, fun hcovers => (hcovers.compare_eq haligned).1⟩

end Reading

/-- Texts that are among those that the glob written so stands for. -/
def FitsItself (s : Text) : Prop := ∃ g, ofText s = .ok g ∧ Covers g.tokens s

theorem any_fits_iff {s : Text} :
    ((ofText s).toOption.any fun g => g.fits s) = true ↔ FitsItself s := by
  constructor
  · intro h
    cases hread : ofText s with
    | error e => simp [hread, Except.toOption] at h
    | ok g =>
      have hfits : g.fits s = true := by simpa [hread, Except.toOption] using h
      exact ⟨g, hread, (fits_iff_covers hread s).mp hfits⟩
  · rintro ⟨g, hread, hcovers⟩
    simp [hread, Except.toOption, (fits_iff_covers hread s).mpr hcovers]

section Stars

/-- Texts without a bracket, in which two stars in a row make up a component. The flag says that a
component starts here. -/
inductive IsMild : Bool → Text → Prop
  | nil (atStart : Bool) : IsMild atStart []
  | char (atStart : Bool) {c : Char} {s : Text} (hstar : c ≠ '*') (hbracket : c ≠ '[')
      (h : IsMild (c == '/') s) : IsMild atStart (c :: s)
  | star (atStart : Bool) {s : Text} (hs : s.head? ≠ some '*') (h : IsMild false s) :
      IsMild atStart ('*' :: s)
  | folders {s : Text} (h : IsMild true s) : IsMild true ('*' :: '*' :: '/' :: s)
  | last : IsMild true ['*', '*']

/-- Tokens that were read from a text, to which more are added: what more of them cover, all of them
cover after the text. That of folders at the end may take more folders first. -/
structure Leads (done : List GlobToken) (before : Text) : Prop where
  covers {ts : List GlobToken} {s : Text} : Covers ts s → Covers (done ++ ts) (before ++ s)
  more {ts : List GlobToken} {s : Text} (u : Text) :
    done.getLast? = some .folders → Covers ts s → Covers (done ++ ts) (before ++ (u ++ '/' :: s))
  all (u : Text) : done.getLast? = some .folders → Covers done (before ++ u)

namespace Leads

variable {done : List GlobToken} {before : Text}

theorem nil : Leads [] [] := ⟨id, by simp, by simp⟩

theorem push (h : Leads done before) {t : GlobToken} {w : Text} (ht : t ≠ .folders)
    (hcovers : ∀ {ts s}, Covers ts s → Covers (t :: ts) (w ++ s)) :
    Leads (done ++ [t]) (before ++ w) where
  covers hs := by
    rw [List.append_assoc, List.append_assoc]
    exact h.covers (hcovers hs)
  more _ hlast := absurd (by simpa using hlast) ht
  all _ hlast := absurd (by simpa using hlast) ht

/-- Two stars and a slash add a token for folders, or leave them to the one before. -/
theorem pushFolders (h : Leads done before) :
    Leads (pushFolders done) (before ++ ['*', '*', '/']) := by
  rcases pushFolders_cases done with ⟨hlast, hpushed⟩ | hpushed <;> rw [hpushed]
  · refine ⟨fun hs => ?_, fun u _ hs => ?_, fun u _ => ?_⟩
    · simpa using h.more ['*', '*'] hlast hs
    · simpa using h.more ('*' :: '*' :: '/' :: u) hlast hs
    · simpa using h.all ('*' :: '*' :: '/' :: u) hlast
  · refine ⟨fun hs => ?_, fun u _ hs => ?_, fun u _ => ?_⟩
    · simpa using h.covers (Covers.folders ['*', '*'] hs)
    · simpa using h.covers (Covers.folders ('*' :: '*' :: '/' :: u) hs)
    · simpa using h.covers (Covers.rest ('*' :: '*' :: '/' :: u))

theorem covers_pushFolders (h : Leads done before) :
    Covers (Glob.pushFolders done) (before ++ ['*', '*']) := by
  rcases pushFolders_cases done with ⟨hlast, hpushed⟩ | hpushed <;> rw [hpushed]
  · exact h.all _ hlast
  · exact h.covers (.rest _)

end Leads

/-- The stars that a text starts with. -/
theorem exists_stars (s : Text) :
    ∃ k r, s = List.replicate k '*' ++ r ∧ r.head? ≠ some '*' ∧
      (s.takeWhile (· == '*')).length = k ∧ s.dropWhile (· == '*') = r := by
  induction s with
  | nil => exact ⟨0, [], rfl, by simp, rfl, rfl⟩
  | cons c s ih =>
    by_cases hc : c = '*'
    · subst hc
      obtain ⟨k, r, hs, hr, hcount, hdrop⟩ := ih
      refine ⟨k + 1, r, ?_, hr, by simp [hcount], by simpa using hdrop⟩
      rw [List.replicate_succ, List.cons_append, ← hs]
    · exact ⟨0, c :: s, rfl, by simpa using hc, by simp [hc], by simp [hc]⟩

theorem takeWhile_star {s : Text} (hs : s.head? ≠ some '*') :
    s.takeWhile (· == '*') = [] ∧ s.dropWhile (· == '*') = s := by
  cases s with
  | nil => exact ⟨rfl, rfl⟩
  | cons c s =>
    have hc : c ≠ '*' := by simpa using hs
    simp [hc]

/-- A mild text is read as tokens that cover it. -/
theorem IsMild.exists_tokensFrom {atStart : Bool} {s : Text} (h : IsMild atStart s) {fuel : Nat}
    (hfuel : s.length ≤ fuel) {done : List GlobToken} {before : Text} (hdone : Leads done before)
    (position : Nat) :
    ∃ out, tokensFrom fuel done atStart position s = .ok out ∧ Covers out (before ++ s) := by
  induction h generalizing fuel done before position with
  | nil atStart =>
    have hread : tokensFrom fuel done atStart position [] = .ok done := by cases fuel <;> rfl
    refine ⟨done, hread, ?_⟩
    simpa using hdone.covers .nil
  | @char atStart c s hstar hbracket h ih =>
    cases fuel with
    | zero => simp at hfuel
    | succ fuel =>
      rw [List.length_cons, Nat.add_le_add_iff_right] at hfuel
      by_cases hmark : c = '?'
      · subst hmark
        have hpushed := hdone.push (t := .anyChar) (w := ['?']) (by simp)
          (.char (by simp) (by simp) rfl)
        obtain ⟨out, hread, hout⟩ := ih hfuel hpushed (position + 1)
        refine ⟨out, ?_, by simpa using hout⟩
        rw [tokensFrom, if_pos rfl]
        exact hread
      · have hpushed := hdone.push (t := .char c) (w := [c]) (by simp)
          (.char (by simp) (by simp) (by simp [takes]))
        obtain ⟨out, hread, hout⟩ := ih hfuel hpushed (position + 1)
        refine ⟨out, ?_, by simpa using hout⟩
        rw [tokensFrom, if_neg hmark, if_neg hstar, if_neg hbracket]
        exact hread
  | @star atStart s hs h ih =>
    cases fuel with
    | zero => simp at hfuel
    | succ fuel =>
      rw [List.length_cons, Nat.add_le_add_iff_right] at hfuel
      obtain ⟨htake, hdrop⟩ := takeWhile_star hs
      have hpushed := hdone.push (t := .anyText) (w := ['*']) (by simp) (.text ['*'])
      obtain ⟨out, hread, hout⟩ := ih hfuel hpushed (position + 1)
      refine ⟨out, ?_, by simpa using hout⟩
      rw [tokensFrom, if_neg (by decide), if_pos rfl]
      simp only [htake, hdrop]
      exact hread
  | @folders s h ih =>
    cases fuel with
    | zero => simp at hfuel
    | succ fuel =>
      simp only [List.length_cons] at hfuel
      have hrest : s.length ≤ fuel := by omega
      obtain ⟨out, hread, hout⟩ := ih hrest hdone.pushFolders (position + 3)
      exact ⟨out, hread, by simpa using hout⟩
  | last =>
    cases fuel with
    | zero => simp at hfuel
    | succ fuel => exact ⟨pushFolders done, rfl, hdone.covers_pushFolders⟩

theorem isMild_of_notMem {s : Text} (hstar : '*' ∉ s) (hbracket : '[' ∉ s) (atStart : Bool) :
    IsMild atStart s := by
  induction s generalizing atStart with
  | nil => exact .nil atStart
  | cons c s ih =>
    simp only [List.mem_cons, not_or] at hstar hbracket
    exact .char atStart (Ne.symm hstar.1) (Ne.symm hbracket.1) (ih hstar.2 hbracket.2 _)

theorem IsMild.bracket_notMem {atStart : Bool} {s : Text} (h : IsMild atStart s) : '[' ∉ s := by
  induction h with
  | nil => simp
  | char _ _ hbracket _ ih => simp [Ne.symm hbracket, ih]
  | star _ _ _ ih => simp [ih]
  | folders _ ih => simp [ih]
  | last => decide

/-- A text without brackets that is read is mild. -/
theorem isMild_of_tokensFrom {fuel : Nat} {done out : List GlobToken} {atStart : Bool}
    {position : Nat} {s : Text} (hfuel : s.length ≤ fuel) (hbracket : '[' ∉ s)
    (h : tokensFrom fuel done atStart position s = .ok out) : IsMild atStart s := by
  induction fuel generalizing done atStart position s with
  | zero =>
    obtain rfl : s = [] := List.eq_nil_of_length_eq_zero (Nat.le_zero.mp hfuel)
    exact .nil atStart
  | succ fuel ih =>
    cases s with
    | nil => exact .nil atStart
    | cons c s =>
      rw [List.length_cons, Nat.add_le_add_iff_right] at hfuel
      obtain ⟨hc, hs⟩ : c ≠ '[' ∧ '[' ∉ s := by simpa [eq_comm] using hbracket
      rw [tokensFrom] at h
      split at h
      next hmark =>
        subst hmark
        exact .char atStart (by decide) (by decide) (ih hfuel hs h)
      split at h
      next hstar =>
        subst hstar
        obtain ⟨k, r, rfl, hr, hcount, hdrop⟩ := exists_stars s
        simp only [hcount, hdrop] at h
        split at h
        · simp at h
        split at h
        next hone =>
          obtain rfl : k = 0 := by omega
          exact .star atStart hr (ih hfuel hs h)
        next hmany hone =>
          obtain rfl : k = 1 := by omega
          split at h
          · simp at h
          next hstart =>
            obtain rfl : atStart = true := by simpa using hstart
            split at h
            · exact .last
            next r =>
              have hlength : r.length ≤ fuel := by
                simp only [List.length_append, List.length_cons] at hfuel
                omega
              exact .folders (ih hlength (fun hmem => hs (by simp [hmem])) h)
            · simp at h
      next hstar =>
        exact .char atStart hstar hc (ih hfuel hs h)

/-- A text without brackets fits itself exactly if it is mild. -/
theorem fitsItself_and_iff {s : Text} : FitsItself s ∧ '[' ∉ s ↔ IsMild true s := by
  constructor
  · rintro ⟨⟨g, hread, -⟩, hbracket⟩
    exact isMild_of_tokensFrom (Nat.le_refl _) hbracket (tokensFrom_of_ofText hread)
  · intro h
    obtain ⟨ts, hread, hcovers⟩ := h.exists_tokensFrom (Nat.le_refl _) .nil 0
    exact ⟨⟨⟨ts⟩, by rw [ofText, hread]; rfl, hcovers⟩, h.bracket_notMem⟩

end Stars

section Brackets

/-- Tokens that take one character each fit texts of as many characters. -/
theorem length_eq_of_compare {ts : List GlobToken} (hts : ∀ t ∈ ts, t ≠ .anyText ∧ t ≠ .folders)
    {s : Text} (h : compare ts s = .fits) : ts.length = s.length := by
  induction ts generalizing s with
  | nil => cases s <;> simp_all [compare]
  | cons t ts ih =>
    obtain ⟨htext, hfolders⟩ := hts t List.mem_cons_self
    have hone : (decide (t = .anyText) || decide (t = .folders)) = false := by
      simp [htext, hfolders]
    cases s with
    | nil => simp [compare, hone] at h
    | cons c s =>
      simp only [compare, hone, Bool.false_eq_true, if_false] at h
      split at h
      · rw [List.length_cons, List.length_cons,
          ih (fun t ht => hts t (List.mem_cons_of_mem _ ht)) h]
      · simp at h

/-- Without stars, tokens take one character each, and there are fewer of them than characters if a
bracket is read. -/
theorem length_of_tokensFrom {fuel : Nat} {done out : List GlobToken} {atStart : Bool}
    {position : Nat} {s : Text} (hfuel : s.length ≤ fuel) (hstar : '*' ∉ s)
    (h : tokensFrom fuel done atStart position s = .ok out) :
    ∃ ts, out = done ++ ts ∧ (∀ t ∈ ts, t ≠ .anyText ∧ t ≠ .folders) ∧ ts.length ≤ s.length
      ∧ ('[' ∈ s → ts.length < s.length) := by
  induction fuel generalizing done atStart position s with
  | zero =>
    obtain rfl : s = [] := List.eq_nil_of_length_eq_zero (Nat.le_zero.mp hfuel)
    exact ⟨[], by simpa [tokensFrom] using h.symm, by simp, by simp, by simp⟩
  | succ fuel ih =>
    cases s with
    | nil => exact ⟨[], by simpa [tokensFrom] using h.symm, by simp, by simp, by simp⟩
    | cons c s =>
      rw [List.length_cons, Nat.add_le_add_iff_right] at hfuel
      have hs : '*' ∉ s := fun hmem => hstar (List.mem_cons_of_mem _ hmem)
      have hc : c ≠ '*' := fun heq => hstar (heq ▸ List.mem_cons_self)
      have hone : ∀ {t : GlobToken} {atStart : Bool}, t ≠ .anyText ∧ t ≠ .folders → c ≠ '[' →
          tokensFrom fuel (done ++ [t]) atStart (position + 1) s = .ok out →
          ∃ ts, out = done ++ ts ∧ (∀ t ∈ ts, t ≠ .anyText ∧ t ≠ .folders) ∧
            ts.length ≤ (c :: s).length ∧ ('[' ∈ c :: s → ts.length < (c :: s).length) := by
        intro t atStart ht hbracket hread
        obtain ⟨ts, rfl, hts, hlength, hless⟩ := ih hfuel hs hread
        refine ⟨t :: ts, by simp, by simpa [ht] using hts, Nat.succ_le_succ hlength, fun hmem => ?_⟩
        have hmem' : '[' ∈ s := by simpa [Ne.symm hbracket] using hmem
        exact Nat.succ_lt_succ (hless hmem')
      rw [tokensFrom, if_neg hc] at h
      split at h
      next hmark => exact hone (by simp) (by simp [hmark]) h
      · split at h
        · split at h
          next t s' hbracket =>
            obtain ⟨ht, hsuffix, hshorter⟩ := of_bracket?_eq_some hbracket
            have hs' : '*' ∉ s' := fun hmem => hs (hsuffix.subset hmem)
            obtain ⟨ts, rfl, hts, hlength, -⟩ := ih (by omega) hs' h
            have hless : (t :: ts).length < (c :: s).length := by
              simp only [List.length_cons]
              omega
            exact ⟨t :: ts, by simp, by simpa [ht] using hts, Nat.le_of_lt hless, fun _ => hless⟩
          · simp at h
        next hbracket => exact hone (by simp) hbracket h

/-- Without stars, a text fits itself exactly if there is no bracket in it. -/
theorem fitsItself_iff_of_notMem {s : Text} (hstar : '*' ∉ s) : FitsItself s ↔ '[' ∉ s := by
  constructor
  · rintro ⟨g, hread, hcovers⟩ hbracket
    have hfits : compare g.tokens s = .fits := by
      simpa [fits] using (fits_iff_covers hread s).mpr hcovers
    obtain ⟨ts, htokens, hts, -, hless⟩ :=
      length_of_tokensFrom (Nat.le_refl _) hstar (tokensFrom_of_ofText hread)
    rw [htokens, List.nil_append] at hfits
    have hlength := length_eq_of_compare hts hfits
    have hshort := hless hbracket
    omega
  · exact fun hbracket => (fitsItself_and_iff.mpr (isMild_of_notMem hstar hbracket true)).1

end Brackets

end ErbLayout.Glob
