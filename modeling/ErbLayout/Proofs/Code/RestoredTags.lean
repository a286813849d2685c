import ErbLayout.Proofs.Reextraction

/-!
The code tags of a text in which markers are replaced by words. A word of letters and digits neither
makes a delimiter nor breaks one, and no more than a marker does it count as a blank. So the code
tags stay where they are and only their code changes with the words: the code tags of a document are
those of its body with the text that looks like a marker numbered.
-/

namespace ErbLayout

open Text Markup Code MarkerTable

theorem Text.Recogniser.replace_cons_of_run_eq_none {α : Type} {p : Recogniser α} (f : α → Text)
    {c : Char} {s : Text} (h : p.run (c :: s) = none) :
    p.replace f (c :: s) = c :: p.replace f s := by
  have hfirst : p.first? (c :: s) = (p.first? s).map fun x => (c :: x.1, x.2) := by rw [first?, h]
  cases hs : p.first? s with
  | none =>
    rw [hs] at hfirst
    rw [replace_of_first?_eq_none f hfirst, replace_of_first?_eq_none f hs]
  | some x =>
    rw [hs] at hfirst
    rw [replace, replace, split_of_first?_eq_some hfirst, split_of_first?_eq_some hs]
    rfl

/-- A text is empty, or it begins with a marker or with a character that begins none. -/
theorem markers_induction {motive : Text → Prop} (nil : motive [])
    (marker : ∀ d r, IsDigits d → motive r → motive (markers.written d ++ r))
    (cons : ∀ c s, markers.run (c :: s) = none → motive s → motive (c :: s)) (s : Text) :
    motive s := by
  induction hn : s.length using Nat.strong_induction_on generalizing s with
  | _ n ih =>
    cases s with
    | nil => exact nil
    | cons c s =>
      cases hrun : markers.run (c :: s) with
      | none => exact cons c s hrun (ih s.length (by rw [← hn]; simp) s rfl)
      | some x =>
        obtain ⟨d, r⟩ := x
        obtain ⟨hs, hne⟩ := markers.sound _ _ _ hrun
        have hlength : r.length < n := by
          rw [← hn, hs, List.length_append]
          exact Nat.lt_add_of_pos_left (List.length_pos_iff.mpr hne)
        rw [hs]
        exact marker d r (isDigits_of_run hrun) (ih _ hlength r rfl)

def IsWord (u : Text) : Prop := u ≠ [] ∧ ∀ c ∈ u, isMarkerChar c

theorem isWord_written {d : Text} (hd : IsDigits d) : IsWord (markers.written d) :=
  ⟨by simp [markers], fun _ hc => isMarkerChar_of_mem_written hd hc⟩

section Word

variable {c : Char} (hc : isMarkerChar c)
include hc

theorem ne_of_isMarkerChar {d : Char} (hd : isMarkerChar d = false) : c ≠ d := by
  rintro rfl
  rw [hc] at hd
  simp at hd

theorem isBlank_eq_false_of_isMarkerChar : isBlank c = false :=
  isBlank_eq_false_of_visible (range_of_isMarkerChar hc).1 (range_of_isMarkerChar hc).2

/-- Code does not end at a letter or digit. -/
theorem codeBody?_cons_of_isMarkerChar (s : Text) :
    codeBody? (c :: s) = (codeBody? s).map fun x => (c :: x.1, x.2) := by
  have hspan : spanOf isBlank (c :: s) = ([], c :: s) := by
    simp [spanOf, isBlank_eq_false_of_isMarkerChar hc]
  have hclosing : closing? (c :: s) = none := by
    simp [closing?, ne_of_isMarkerChar hc (d := '-') (by decide), ne_of_isMarkerChar hc (d := '%')
      (by decide)]
  rw [codeBody?.eq_def, hspan]
  dsimp only
  rw [hclosing]

theorem run_codeTags_cons_of_isMarkerChar (s : Text) : codeTags.run (c :: s) = none := by
  change codeTag? (c :: s) = none
  simp [codeTag?, opening?, ne_of_isMarkerChar hc (d := '<') (by decide)]

end Word

theorem codeBody?_append_word {u : Text} (hu : ∀ c ∈ u, isMarkerChar c) (s : Text) :
    codeBody? (u ++ s) = (codeBody? s).map fun x => (u ++ x.1, x.2) := by
  induction u with
  | nil => simp
  | cons c u ih =>
    rw [List.cons_append, codeBody?_cons_of_isMarkerChar (hu c List.mem_cons_self),
      ih fun d hd => hu d (List.mem_cons_of_mem c hd), Option.map_map]
    rfl

theorem found_codeTags_append_word {u : Text} (hu : ∀ c ∈ u, isMarkerChar c) (s : Text) :
    codeTags.found (u ++ s) = codeTags.found s := by
  induction u with
  | nil => rfl
  | cons c u ih =>
    rw [List.cons_append,
      Recogniser.found_cons_of_run_eq_none
      (run_codeTags_cons_of_isMarkerChar (hu c List.mem_cons_self) _),
      ih fun d hd => hu d (List.mem_cons_of_mem c hd)]

def Code.CodeTag.mapCode (f : Text → Text) (t : CodeTag) : CodeTag := { t with code := f t.code }

section Restored

variable {look : Text → Option Text} (hlook : ∀ d, ∀ u ∈ look d, IsWord u)

theorem restoreFrom_marker {d : Text} (hd : IsDigits d) (r : Text) :
    restoreFrom look (markers.written d ++ r) = (look d).getD (markers.written d) ++
      restoreFrom look r :=
  Recogniser.replace_of_run _ (run_written hd r)

theorem restoreFrom_lead {v : Text} (hv : ∀ c ∈ v, isMarkerChar c = false) (s : Text) :
    restoreFrom look (v ++ s) = v ++ restoreFrom look s := by
  induction v with
  | nil => rfl
  | cons c v ih =>
    rw [List.cons_append, restoreFrom_cons _ (hv c List.mem_cons_self), ih fun d hd =>
      hv d (List.mem_cons_of_mem c hd)]
    rfl

include hlook

theorem isWord_getD {d : Text} (hd : IsDigits d) : IsWord ((look d).getD (markers.written d)) := by
  cases hlooked : look d with
  | none => exact isWord_written hd
  | some u => exact hlook d u hlooked

/-- What is put in place of a marker begins with no character that stands apart from markers. -/
theorem exists_of_restoreFrom_eq_cons {c : Char} (hc : isMarkerChar c = false) {s t : Text}
    (h : restoreFrom look s = c :: t) : ∃ u, s = c :: u ∧ restoreFrom look u = t := by
  induction s using markers_induction with
  | nil => simp [restoreFrom_nil] at h
  | marker d r hd _ =>
    rw [restoreFrom_marker hd] at h
    obtain ⟨hne, hword⟩ := isWord_getD hlook hd
    obtain ⟨e, u, hu⟩ := List.exists_cons_of_ne_nil hne
    rw [hu, List.cons_append] at h
    exact absurd (List.cons.inj h).1 (ne_of_isMarkerChar (hword e (by simp [hu])) hc)
  | cons d s hrun _ =>
    rw [restoreFrom, Recogniser.replace_cons_of_run_eq_none _ hrun] at h
    obtain ⟨rfl, hrest⟩ := List.cons.inj h
    exact ⟨s, rfl, hrest⟩

theorem exists_of_restoreFrom_eq_append {v : Text} (hv : ∀ c ∈ v, isMarkerChar c = false)
    {s t : Text} (h : restoreFrom look s = v ++ t) : ∃ u, s = v ++ u ∧ restoreFrom look u = t := by
  induction v generalizing s with
  | nil => exact ⟨s, rfl, h⟩
  | cons c v ih =>
    obtain ⟨u, rfl, hu⟩ := exists_of_restoreFrom_eq_cons hlook (hv c List.mem_cons_self) h
    obtain ⟨w, rfl, hw⟩ := ih (fun d hd => hv d (List.mem_cons_of_mem c hd)) hu
    exact ⟨w, rfl, hw⟩

theorem head?_restoreFrom_iff {c : Char} (hc : isMarkerChar c = false) (s : Text) :
    (restoreFrom look s).head? = some c ↔ s.head? = some c := by
  constructor
  · intro h
    obtain ⟨t, ht⟩ := List.head?_eq_some_iff.mp h
    obtain ⟨u, rfl, -⟩ := exists_of_restoreFrom_eq_cons hlook hc ht
    rfl
  · intro h
    obtain ⟨t, rfl⟩ := List.head?_eq_some_iff.mp h
    rw [restoreFrom_cons _ hc]
    rfl

theorem spanOf_restoreFrom (s : Text) :
    spanOf isBlank (restoreFrom look s) =
      ((spanOf isBlank s).1, restoreFrom look (spanOf isBlank s).2) := by
  have hblank : ∀ c ∈ (spanOf isBlank s).1, isBlank c := fun c hc => mem_spanOf hc
  have hlead : restoreFrom look ((spanOf isBlank s).1 ++ (spanOf isBlank s).2) =
      (spanOf isBlank s).1 ++ restoreFrom look (spanOf isBlank s).2 :=
    restoreFrom_lead (fun c hc => isMarkerChar_eq_false_of_isBlank (hblank c hc)) _
  rw [spanOf_append] at hlead
  rw [hlead]
  apply spanOf_append_eq hblank
  intro c hc
  by_contra hnot
  have hc' : isBlank c := by simpa using hnot
  have hhead := (head?_restoreFrom_iff hlook (isMarkerChar_eq_false_of_isBlank hc') _).mp hc
  rw [head?_spanOf hhead] at hc'
  simp at hc'

theorem closing?_restoreFrom (s : Text) :
    closing? (restoreFrom look s) = (closing? s).map fun x => (x.1, restoreFrom look x.2) := by
  have hmarks : ∀ {c : Text}, c = ['-', '%', '>'] ∨ c = ['%', '>'] →
      ∀ d ∈ c, isMarkerChar d = false := by
    rintro c (rfl | rfl) <;> simp <;> decide
  cases h : closing? s with
  | some x =>
    obtain ⟨hc, rfl⟩ := closing?_eq_some_iff.mp h
    rw [restoreFrom_lead (hmarks hc)]
    exact closing?_eq_some_iff.mpr ⟨hc, rfl⟩
  | none =>
    cases h' : closing? (restoreFrom look s) with
    | none => rfl
    | some x =>
      obtain ⟨hc, hs⟩ := closing?_eq_some_iff.mp h'
      obtain ⟨u, rfl, -⟩ := exists_of_restoreFrom_eq_append hlook (hmarks hc) hs
      rw [closing?_eq_some_iff.mpr ⟨hc, rfl⟩] at h
      simp at h

theorem opening?_restoreFrom (s : Text) :
    opening? (restoreFrom look s) = (opening? s).map fun x => (x.1, restoreFrom look x.2) := by
  cases h : opening? s with
  | some x =>
    obtain ⟨o, r⟩ := x
    have hmarks : ∀ c ∈ o, isMarkerChar c = false := by
      rcases opening?_eq_some_cases h with rfl | rfl | rfl | rfl <;> simp <;> decide
    rw [(opening?_eq_some h).1, restoreFrom_lead hmarks]
    apply opening?_append_eq h
    rintro c (rfl | rfl)
    · exact head?_restoreFrom_iff hlook (by decide) r
    · exact head?_restoreFrom_iff hlook (by decide) r
  | none =>
    cases h' : opening? (restoreFrom look s) with
    | none => rfl
    | some x =>
      -- a delimiter begins with two characters that stand apart from markers
      obtain ⟨t, ht⟩ : ∃ t, restoreFrom look s = ['<', '%'] ++ t := by
        rw [(opening?_eq_some h').1]
        rcases opening?_eq_some_cases h' with ho | ho | ho | ho <;> rw [ho] <;> exact ⟨_, rfl⟩
      obtain ⟨u, rfl, -⟩ := exists_of_restoreFrom_eq_append hlook (by simp; decide) ht
      have hsome : (opening? (['<', '%'] ++ u)).isSome := by
        unfold opening?
        split <;> simp_all
      rw [h] at hsome
      simp at hsome

theorem codeBody?_restoreFrom (s : Text) :
    codeBody? (restoreFrom look s) =
      (codeBody? s).map fun x => (restoreFrom look x.1, x.2.1, x.2.2.1,
        restoreFrom look x.2.2.2) := by
  induction s using markers_induction with
  | nil => rw [restoreFrom_nil]; rfl
  | marker d r hd ih =>
    rw [restoreFrom_marker hd, codeBody?_append_word (isWord_getD hlook hd).2, ih,
      codeBody?_append_word (isWord_written hd).2, Option.map_map, Option.map_map]
    simp only [Function.comp_def, restoreFrom_marker hd]
  | cons c s hrun ih =>
    have hcons : restoreFrom look (c :: s) = c :: restoreFrom look s :=
      Recogniser.replace_cons_of_run_eq_none _ hrun
    have hspan := spanOf_restoreFrom hlook (c :: s)
    have hclose := closing?_restoreFrom hlook (spanOf isBlank (c :: s)).2
    rw [hcons] at hspan ⊢
    rw [codeBody?.eq_def, codeBody?.eq_def (c :: s), hspan]
    dsimp only
    rw [hclose]
    cases closing? (spanOf isBlank (c :: s)).2 with
    | some x => simp [restoreFrom_nil]
    | none =>
      simp only [Option.map_none]
      rw [ih]
      cases hbody : codeBody? s with
      | none => rfl
      | some x =>
        obtain ⟨code, trail, closing, rest⟩ := x
        -- the marker that does not begin the text does not begin the code either
        have hcode : markers.run (c :: code) = none := by
          cases hread : markers.run (c :: code) with
          | none => rfl
          | some y =>
            have happend := markers_isLocal.run_append hread (trail ++ (closing ++ rest))
            rw [List.cons_append, ← codeBody?_eq_some hbody, hrun] at happend
            simp at happend
        have hrest : restoreFrom look (c :: code) = c :: restoreFrom look code :=
          Recogniser.replace_cons_of_run_eq_none _ hcode
        simp [hrest]

/-- A code tag is read where one was, with its code restored. -/
theorem run_codeTags_restoreFrom (s : Text) :
    codeTags.run (restoreFrom look s) =
      (codeTags.run s).map fun x => (x.1.mapCode (restoreFrom look), restoreFrom look x.2) := by
  change codeTag? _ = (codeTag? s).map _
  unfold codeTag?
  rw [opening?_restoreFrom hlook]
  cases opening? s with
  | none => rfl
  | some x =>
    simp only [Option.map_some, spanOf_restoreFrom hlook, codeBody?_restoreFrom hlook,
      Option.map_map]
    rfl

theorem found_codeTags_restoreFrom (s : Text) :
    codeTags.found (restoreFrom look s) =
      (codeTags.found s).map (CodeTag.mapCode (restoreFrom look)) := by
  induction hn : s.length using Nat.strong_induction_on generalizing s with
  | _ n ih =>
    have hread := run_codeTags_restoreFrom hlook s
    cases hrun : codeTags.run s with
    | some x =>
      obtain ⟨tag, r⟩ := x
      obtain ⟨hs, hne⟩ := codeTags.sound _ _ _ hrun
      have hlength : r.length < n := by
        rw [← hn, hs, List.length_append]
        exact Nat.lt_add_of_pos_left (List.length_pos_iff.mpr hne)
      rw [hrun] at hread
      rw [Recogniser.found_of_run hread, Recogniser.found_of_run hrun, List.map_cons,
        ih _ hlength r rfl]
    | none =>
      rw [hrun] at hread
      induction s using markers_induction with
      | nil =>
        have hnil : codeTags.found [] = [] := Recogniser.found_of_first?_eq_none rfl
        rw [restoreFrom_nil, hnil]
        rfl
      | marker d r hd _ =>
        have hlength : r.length < n := by
          rw [← hn, List.length_append]
          exact Nat.lt_add_of_pos_left (List.length_pos_iff.mpr (isWord_written hd).1)
        rw [restoreFrom_marker hd, found_codeTags_append_word (isWord_getD hlook hd).2,
          found_codeTags_append_word (isWord_written hd).2, ih _ hlength r rfl]
      | cons c s hmarker _ =>
        have hcons : restoreFrom look (c :: s) = c :: restoreFrom look s :=
          Recogniser.replace_cons_of_run_eq_none _ hmarker
        rw [hcons] at hread ⊢
        rw [Recogniser.found_cons_of_run_eq_none hread, Recogniser.found_cons_of_run_eq_none hrun,
          ih _ (by rw [← hn]; simp) s rfl]

end Restored

section Source

variable (body : Text)

/-- Text that looks like a marker is a word. -/
theorem isWord_of_run {s t r : Text} (h : markerLikes.run s = some (t, r)) : IsWord t := by
  refine ⟨(markerLikes.sound _ _ _ h).2, ?_⟩
  change markerLike? s = some (t, r) at h
  unfold markerLike? at h
  split at h
  · simp at h
  next u _ =>
    obtain ⟨v, hv, heq⟩ := Option.map_eq_some_iff.mp h
    obtain ⟨rfl, -⟩ := Prod.mk.inj heq
    have hword : ∀ c ∈ ['e', 'r', 'b'], isMarkerChar c := by simp; decide
    intro c hc
    rcases List.mem_append.mp hc with hc | hc
    · exact hword c hc
    · exact mem_spanOf ((upToLastTag?_isPrefix hv).subset hc)

theorem isWord_of_literal? (d : Text) : ∀ u ∈ (extractCode body).2.literal? d, IsWord u := by
  intro u hu
  obtain ⟨n, -, hget⟩ := Option.bind_eq_some_iff.mp hu
  obtain ⟨x, hx, rfl⟩ := List.mem_map.mp (List.mem_of_getElem? hget)
  obtain ⟨v, r, hrun⟩ := Recogniser.exists_run_of_mem_split hx
  exact isWord_of_run hrun

/-- The code tags of a body are those of the numbered body with the text that looked like a marker
in their code. -/
theorem found_codeTags_body :
    codeTags.found body =
      (codeTags.found (numbered body)).map
        (CodeTag.mapCode (restoreFrom (extractCode body).2.literal?)) := by
  have hfound := found_codeTags_restoreFrom (isWord_of_literal? body) (numbered body)
  rwa [restoreFrom_literal?_numbered] at hfound

variable {body} in
/-- A code tag that a marker stands for is one of the body, with its code as it stands there. -/
theorem exists_mem_found_of_code? {digits code : Text}
    (h : (extractCode body).2.code? digits = some code) :
    ∃ tag, CodeTag.ofText? code = some tag ∧
      tag.mapCode (restoreFrom (extractCode body).2.literal?) ∈ codeTags.found body := by
  obtain ⟨-, x, hx, rfl⟩ := exists_mem_codesOf h
  obtain ⟨y, hy, rfl⟩ := List.mem_map.mp hx
  obtain ⟨v, r, hrun⟩ := Recogniser.exists_run_of_mem_split hy
  refine ⟨y.2, ofText?_written hrun, ?_⟩
  rw [found_codeTags_body]
  exact List.mem_map_of_mem (List.mem_map_of_mem hy)

end Source

end ErbLayout
