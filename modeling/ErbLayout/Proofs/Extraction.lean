import ErbLayout.Proofs.Marker
import Mathlib.Data.List.Nodup
import Mathlib.Data.List.Perm.Basic

/-!
Putting markers in place of code tags and putting the code back. The first pass numbers the text
that looks like a marker, so that the numbered text has the markers numbered so far and no others;
the second pass numbers the code tags on from there. Every marker then occurs once, in the body or
inside one code tag, and the two passes are undone one after the other.
-/

namespace ErbLayout

open Text Markup Code MarkerTable

def markersIn (s : Text) : List Text := (markers.found s).map markers.written

def MarkerTable.markers (t : MarkerTable) : List Text := (List.range t.size).map marker

theorem written_mem_markers_iff (t : MarkerTable) (digits : Text) :
    markers.written digits ∈ t.markers ↔ (t.literal? digits).isSome ∨ (t.code? digits).isSome := by
  rw [literal?_isSome_iff, code?_isSome_iff]
  simp only [MarkerTable.markers, List.mem_map, List.mem_range]
  constructor
  · rintro ⟨n, hn, heq⟩
    have hdigits : digits = Nat.toDigits 10 n := by simpa [marker_eq, markers, eq_comm] using heq
    by_cases hlt : n < t.literals.length
    · exact Or.inl ⟨n, hdigits, hlt⟩
    · exact Or.inr ⟨n, hdigits, by omega, hn⟩
  · rintro (⟨n, rfl, hn⟩ | ⟨n, rfl, -, hn⟩)
    · exact ⟨n, by unfold size; omega, rfl⟩
    · exact ⟨n, hn, rfl⟩

theorem not_literal?_and_code? (t : MarkerTable) (digits : Text) :
    ¬((t.literal? digits).isSome ∧ (t.code? digits).isSome) := by
  rw [literal?_isSome_iff, code?_isSome_iff]
  rintro ⟨⟨m, rfl, hm⟩, n, hdigits, hn, -⟩
  have := toDigits_injective hdigits
  omega

/-- What it means that `b` with the markers of `t` stands for `body`. -/
structure Extraction (body b : Text) (t : MarkerTable) : Prop where
  /-- Putting everything back gives the body. -/
  restore_eq : t.restore b = body
  /-- No code tag is left. -/
  noCode : codeTags.first? b = none
  /-- The markers in the text and those in the code tags that were taken out are the markers of the
  table. -/
  markers_perm : (markersIn b ++ t.codes.flatMap markersIn).Perm t.markers
  /-- No marker was made twice. -/
  nodup : t.markers.Nodup
  /-- The markers of the table are those that stand for something. -/
  known : ∀ digits, markers.written digits ∈ t.markers ↔ (t.literal? digits).isSome ∨
    (t.code? digits).isSome
  /-- No marker stands for text that looked like a marker and for a code tag. -/
  disjoint : ∀ digits, ¬((t.literal? digits).isSome ∧ (t.code? digits).isSome)

def numbered (body : Text) : Text := number 0 (markerLikes.split body).1 (markerLikes.split body).2

def codesOf (body : Text) : List (Text × Text) :=
  (codeTags.split (numbered body)).1.map fun x => (x.1, x.2.written)

def afterCodes (body : Text) : Text := (codeTags.split (numbered body)).2

theorem extractCode_eq (body : Text) :
    extractCode body = (number (markerLikes.split body).1.length (codesOf body) (afterCodes body),
      ⟨(markerLikes.split body).1.map Prod.snd, (codesOf body).map Prod.snd⟩) := rfl

theorem exists_run_of_mem_codesOf {body : Text} {x : Text × Text} (hx : x ∈ codesOf body) :
    ∃ t v r, codeTags.run v = some (t, r) ∧ x.2 = t.written := by
  obtain ⟨y, hy, rfl⟩ := List.mem_map.mp hx
  obtain ⟨v, r, hrun⟩ := Recogniser.exists_run_of_mem_split hy
  exact ⟨y.2, v, r, hrun, rfl⟩

theorem apart_of_mem_codesOf {body : Text} {x : Text × Text} (hx : x ∈ codesOf body) :
    markers.Apart x.2 := by
  obtain ⟨t, v, r, hrun, heq⟩ := exists_run_of_mem_codesOf hx
  rw [heq]
  exact apart_code (isRead_of_run hrun)

theorem flatMap_codesOf (body : Text) :
    (codesOf body).flatMap (fun x => x.1 ++ x.2) ++ afterCodes body = numbered body := by
  rw [codesOf, List.flatMap_map]
  exact codeTags.flatten_split (numbered body)

/-- The markers of the numbered body are numbered from zero on. -/
theorem found_numbered (body : Text) :
    markers.found (numbered body) =
      (List.range (markerLikes.split body).1.length).map (Nat.toDigits 10) := by
  obtain ⟨hbefore, htail⟩ := markerLikes_covers.first?_split body
  rw [List.range_eq_range']
  exact found_number hbefore htail

theorem found_numbered_eq_flatMap (body : Text) :
    markers.found (numbered body) =
      (codesOf body).flatMap (fun x => markers.found x.1 ++ markers.found x.2) ++
        markers.found (afterCodes body) := by
  rw [← flatMap_codesOf]
  exact Recogniser.found_flatMap markers_isLocal (fun x hx => apart_of_mem_codesOf hx)
    (afterCodes body)

theorem code?_eq_none_of_mem_found {body d : Text} (h : d ∈ markers.found (numbered body)) :
    (extractCode body).2.code? d = none := by
  rw [found_numbered] at h
  obtain ⟨i, hi, rfl⟩ := List.mem_map.mp h
  have hlt : i < (markerLikes.split body).1.length := List.mem_range.mp hi
  simp [extractCode_eq, code?, numberOf?_toDigits, hlt]

theorem mem_found_of_before {body d : Text} {x : Text × Text} (hx : x ∈ codesOf body)
    (h : d ∈ markers.found x.1) : d ∈ markers.found (numbered body) := by
  rw [found_numbered_eq_flatMap]
  exact List.mem_append_left _ (List.mem_flatMap.mpr ⟨x, hx, List.mem_append_left _ h⟩)

theorem mem_found_of_code {body d : Text} {x : Text × Text} (hx : x ∈ codesOf body)
    (h : d ∈ markers.found x.2) : d ∈ markers.found (numbered body) := by
  rw [found_numbered_eq_flatMap]
  exact List.mem_append_left _ (List.mem_flatMap.mpr ⟨x, hx, List.mem_append_right _ h⟩)

theorem mem_found_of_after {body d : Text} (h : d ∈ markers.found (afterCodes body)) :
    d ∈ markers.found (numbered body) := by
  rw [found_numbered_eq_flatMap]
  exact List.mem_append_right _ h

/-- A text whose markers are all among those of the numbered body holds no code to put back. -/
theorem restoreFrom_code?_eq_self {body s : Text}
    (h : ∀ d ∈ markers.found s, d ∈ markers.found (numbered body)) :
    restoreFrom (extractCode body).2.code? s = s := by
  apply Recogniser.replace_eq_self
  intro d hd
  rw [code?_eq_none_of_mem_found (h d hd)]
  rfl

/-- Putting the code back gives the numbered body. -/
theorem restoreFrom_code?_extractCode (body : Text) :
    restoreFrom (extractCode body).2.code? (extractCode body).1 = numbered body := by
  rw [← flatMap_codesOf, extractCode_eq]
  apply replace_number
  · intro x hx
    exact restoreFrom_code?_eq_self fun d hd => mem_found_of_before hx hd
  · exact restoreFrom_code?_eq_self fun d hd => mem_found_of_after hd
  · -- the numbers of code markers begin where those of the first pass end
    intro i x hx
    have hnot : ¬(markerLikes.split body).1.length + i < (markerLikes.split body).1.length := by
      omega
    simp [code?, numberOf?_toDigits, hx, hnot]

/-- Putting the text that looked like a marker back gives the body. -/
theorem restoreFrom_literal?_numbered (body : Text) :
    restoreFrom (extractCode body).2.literal? (numbered body) = body := by
  obtain ⟨hbefore, htail⟩ := markerLikes_covers.first?_split body
  have hflat := markerLikes.flatten_split body
  refine Eq.trans ?_ hflat
  apply replace_number
  · intro x hx
    exact Recogniser.replace_of_first?_eq_none _ (hbefore x hx)
  · exact Recogniser.replace_of_first?_eq_none _ htail
  · intro i x hx
    simp [extractCode_eq, literal?, numberOf?_toDigits, hx]

theorem restore_extractCode (body : Text) :
    (extractCode body).2.restore (extractCode body).1 = body := by
  rw [restore, restoreFrom_code?_extractCode, restoreFrom_literal?_numbered]

theorem restoreFrom_append_cons (look : Text → Option Text) (s : Text) {c : Char}
    (hc : isMarkerChar c = false) (r : Text) :
    restoreFrom look (s ++ c :: r) = restoreFrom look s ++ c :: restoreFrom look r := by
  have happend := (apart_singleton hc).replace_append markers_isLocal
    (fun digits => (look digits).getD (markers.written digits)) s r
  rwa [Recogniser.replace_of_first?_eq_none _ (first?_singleton c)] at happend

/-- Restoring works on both sides of a character that belongs to no marker alone. -/
theorem restore_append_cons (t : MarkerTable) (s : Text) {c : Char} (hc : isMarkerChar c = false)
    (r : Text) :
    t.restore (s ++ c :: r) = t.restore s ++ c :: t.restore r := by
  rw [restore, restoreFrom_append_cons _ s hc, restoreFrom_append_cons _ _ hc]
  rfl

theorem restoreFrom_nil (look : Text → Option Text) : restoreFrom look [] = [] :=
  Recogniser.replace_of_first?_eq_none _ rfl

theorem restoreFrom_cons (look : Text → Option Text) {c : Char} (hc : isMarkerChar c = false)
    (r : Text) :
    restoreFrom look (c :: r) = c :: restoreFrom look r := by
  have happend := restoreFrom_append_cons look [] hc r
  rwa [restoreFrom_nil] at happend

theorem restore_nil (t : MarkerTable) : t.restore [] = [] := by
  rw [restore, restoreFrom_nil, restoreFrom_nil]

theorem restore_singleton (t : MarkerTable) {c : Char} (hc : isMarkerChar c = false) :
    t.restore [c] = [c] := by
  have happend := restore_append_cons t [] hc []
  rwa [restore_nil, List.nil_append] at happend

theorem exists_mem_codesOf {body digits code : Text}
    (h : (extractCode body).2.code? digits = some code) :
    IsDigits digits ∧ ∃ x ∈ codesOf body, x.2 = code := by
  obtain ⟨n, hn, hcode⟩ := Option.bind_eq_some_iff.mp h
  refine ⟨numberOf?_eq_some_iff.mp hn ▸ isDigits_toDigits n, ?_⟩
  split at hcode
  · simp at hcode
  · exact List.mem_map.mp (List.mem_of_getElem? hcode)

/-- A marker that stands for code is restored as the code, whatever stands around it. -/
theorem restore_append_marker {body digits code : Text}
    (h : (extractCode body).2.code? digits = some code) (s r : Text) :
    (extractCode body).2.restore (s ++ (markers.written digits ++ r)) =
      (extractCode body).2.restore s ++
        ((extractCode body).2.restore code ++ (extractCode body).2.restore r) := by
  obtain ⟨hdigits, x, hx, rfl⟩ := exists_mem_codesOf h
  -- the code holds markers of the first pass only, so the first step of restoring leaves it alone
  have hself : restoreFrom (extractCode body).2.code? x.2 = x.2 :=
    restoreFrom_code?_eq_self fun d hd => mem_found_of_code hx hd
  have hcode : restoreFrom (extractCode body).2.code? (s ++ (markers.written digits ++ r)) =
      restoreFrom (extractCode body).2.code? s ++
      (x.2 ++ restoreFrom (extractCode body).2.code? r) := by
    rw [restoreFrom, (apart_written digits).replace_append markers_isLocal,
      replace_written _ hdigits, h]
    rfl
  simp only [restore]
  rw [hcode, hself]
  exact (apart_of_mem_codesOf hx).replace_append markers_isLocal _ _ _

theorem codeTags_run_eq_some {s : Text} {x : CodeTag × Text} (h : codeTags.run s = some x) :
    ∃ u, s = '<' :: '%' :: u := by
  have hs := (codeTags.sound s x.1 x.2 h).1
  have hwritten : codeTags.written x.1 = x.1.written := rfl
  rw [hwritten, CodeTag.written] at hs
  rcases (isRead_of_run h).opening with ho | ho | ho | ho <;>
  · rw [hs, ho]
    exact ⟨_, rfl⟩

theorem suffix_append_cases {v s t : Text} (h : v <:+ s ++ t) :
    v <:+ t ∨ ∃ w, w ≠ [] ∧ w <:+ s ∧ v = w ++ t := by
  obtain ⟨u, hu⟩ := h
  rcases List.append_eq_append_iff.mp hu with ⟨w, hs, hv⟩ | ⟨w, -, ht⟩
  · cases w with
    | nil => exact Or.inl ⟨[], hv⟩
    | cons c w => exact Or.inr ⟨c :: w, List.cons_ne_nil c w, ⟨u, hs.symm⟩, hv⟩
  · exact Or.inl ⟨w, ht.symm⟩

/-- A marker in place of a code tag makes no code tag with the text around it. -/
theorem first?_codeTags_eq_none {s b r X : Text} {a : CodeTag} (n : Nat)
    (h : codeTags.first? s = some (b, a, r)) (hX : codeTags.first? X = none) :
    codeTags.first? (b ++ (marker n ++ X)) = none := by
  obtain ⟨-, hrun, hbefore⟩ := Recogniser.first?_eq_some_iff.mp h
  rw [Recogniser.first?_eq_none_iff] at hX ⊢
  intro v hv
  cases hread : codeTags.run v with
  | none => rfl
  | some x =>
    obtain ⟨u, hu⟩ := codeTags_run_eq_some hread
    have hmarker : ∀ c w, c :: w <:+ marker n → isMarkerChar c := by
      intro c w hw
      exact isMarkerChar_of_mem_written (isDigits_toDigits n) (hw.subset List.mem_cons_self)
    rcases suffix_append_cases hv with hv | ⟨w, hne, hw, rfl⟩
    · rcases suffix_append_cases hv with hv | ⟨w, hne, hw, rfl⟩
      · rw [hX _ hv] at hread
        simp at hread
      · -- it would begin inside the marker
        cases w with
        | nil => exact absurd rfl hne
        | cons c w =>
          obtain ⟨rfl, -⟩ := List.cons.inj hu
          exact absurd (hmarker _ _ hw) (by decide)
    · -- it would begin before the marker, where the closing delimiter of `a` made a code tag
      obtain ⟨w', rfl⟩ : ∃ w', w = '<' :: '%' :: w' := by
        match w with
        | [] => exact absurd rfl hne
        | [c] =>
          have hfirst : 'e' = '%' := (List.cons.inj (List.cons.inj hu).2).1
          exact absurd hfirst (by decide)
        | c :: d :: w' =>
          obtain ⟨rfl, rfl, -⟩ : c = '<' ∧ d = '%' ∧ _ := by simpa using hu
          exact ⟨w', rfl⟩
      have hclose : ['%', '>'] <:+: w' ++ (codeTags.written a ++ r) := by
        have ha : ['%', '>'] <:+: codeTags.written a := (isRead_of_run hrun).closing_isInfix
        exact ha.trans (List.infix_append' w' _ r)
      have hsome : (codeTags.run (('<' :: '%' :: w') ++ (codeTags.written a ++ r))).isSome :=
        codeTag?_isSome hclose
      rw [hbefore _ hw hne] at hsome
      simp at hsome

theorem first?_codeTags_number (n : Nat) (s : Text) :
    codeTags.first? (number n ((codeTags.split s).1.map fun x => (x.1, x.2.written))
      (codeTags.split s).2) = none := by
  fun_induction Recogniser.split codeTags s generalizing n with
  | case1 s hnone => exact hnone
  | case2 s b a r hsome ih =>
    rw [List.map_cons, number, List.append_assoc]
    exact first?_codeTags_eq_none n hsome (ih (n + 1))

/-- The markers of the table stand where the numbered body had code tags, and inside those. -/
theorem markers_perm_extractCode (body : Text) :
    (markersIn (extractCode body).1 ++ (extractCode body).2.codes.flatMap markersIn).Perm
      (extractCode body).2.markers := by
  have hcodes : (extractCode body).2.codes.flatMap markersIn =
      ((codesOf body).flatMap fun x => markers.found x.2).map markers.written := by
    rw [extractCode_eq, List.map_flatMap, List.flatMap_map]
    rfl
  have hsize : (extractCode body).2.markers = ((List.range (extractCode body).2.size).map
      (Nat.toDigits 10)).map markers.written := by
    rw [List.map_map]
    rfl
  rw [hcodes, hsize, markersIn, ← List.map_append]
  apply List.Perm.map
  have hnumber := found_number_perm (markerLikes.split body).1.length (codesOf body)
    (afterCodes body)
  have hflat := List.flatMap_append_perm (codesOf body) (fun x => markers.found x.1)
    (fun x => markers.found x.2)
  -- what stands between the code tags and in them are the markers of the first pass
  have hfirst : ((codesOf body).flatMap (fun x => markers.found x.1) ++
    markers.found (afterCodes body) ++
      (codesOf body).flatMap fun x => markers.found x.2).Perm (markers.found (numbered body)) := by
    rw [found_numbered_eq_flatMap, List.append_assoc]
    refine (List.perm_append_comm.append_left _).trans ?_
    rw [← List.append_assoc]
    exact hflat.append_right _
  have hrange : markers.found (numbered body) ++
      (List.range' (markerLikes.split body).1.length (codesOf body).length).map (Nat.toDigits 10) =
        (List.range (extractCode body).2.size).map (Nat.toDigits 10) := by
    rw [found_numbered, ← List.map_append, List.range_eq_range', List.range_eq_range']
    congr 1
    simpa [extractCode_eq, size] using List.range'_append_1 (s := 0)
  rw [← hrange]
  refine (hnumber.append_right _).trans ?_
  rw [List.append_assoc]
  exact (hfirst.append_left _).trans List.perm_append_comm

/-- Extraction and restoring of the code of a body: everything comes back, no code tag stays, and
the markers of the table occur once each. -/
theorem extraction_extractCode (body : Text) :
    Extraction body (extractCode body).1 (extractCode body).2 where
  restore_eq := restore_extractCode body
  noCode := first?_codeTags_number _ _
  markers_perm := markers_perm_extractCode body
  nodup := List.nodup_range.map marker_injective
  known := written_mem_markers_iff _
  disjoint := not_literal?_and_code? _

end ErbLayout
