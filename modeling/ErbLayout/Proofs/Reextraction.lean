import ErbLayout.Proofs.Code.Delimiters
import ErbLayout.Proofs.RelaidText

/-!
Taking the code out of a text that code was put back into. When the markers of a text are numbered
as they stand, the text holds no opening delimiter of its own, and nothing in the text with the code
put back looks like a marker, then the same text and the same table come out again. Layout makes no
text that looks like a marker.
-/

namespace ErbLayout

open Text Markup Code Layout MarkerTable

section MarkerLikes

/-- What is read in front of the text is read alike whether the text follows or not. -/
def Text.Recogniser.Cuts {α : Type} (p : Recogniser α) (t : Text) : Prop :=
  ∀ v, p.run (v ++ t) = (p.run v).map fun (a, r) => (a, r ++ t)

namespace Text.Recogniser

variable {α : Type} {p : Recogniser α}

theorem first?_append_of_cuts {s t : Text} (ht : p.Cuts t) (hs : p.first? s = none) :
    p.first? (s ++ t) = (p.first? t).map fun x => (s ++ x.1, x.2) := by
  induction s with
  | nil => simp
  | cons c s ih =>
    have hnone := first?_eq_none_iff.mp hs
    have hrun : p.run (c :: (s ++ t)) = none := by
      have hcut := ht (c :: s)
      rwa [hnone _ (List.suffix_refl _)] at hcut
    have hrest : p.first? s = none :=
      first?_eq_none_iff.mpr fun v hv => hnone v (hv.trans (List.suffix_cons c s))
    rw [List.cons_append, first?, hrun, ih hrest]
    simp [Function.comp_def]

theorem found_append_of_cuts (s : Text) {t : Text} (ht : p.Cuts t) :
    p.found (s ++ t) = p.found s ++ p.found t := by
  fun_induction split p s with
  | case1 s hnone =>
    have hfirst := first?_append_of_cuts ht hnone
    rw [found_of_first?_eq_none hnone, List.nil_append]
    cases ht' : p.first? t with
    | none =>
      rw [ht'] at hfirst
      rw [found_of_first?_eq_none hfirst, found_of_first?_eq_none ht']
    | some x =>
      rw [ht'] at hfirst
      rw [found, found, split_of_first?_eq_some hfirst, split_of_first?_eq_some ht']
      rfl
  | case2 s b a r hsome ih =>
    obtain ⟨hs, hrun, hbefore⟩ := first?_eq_some_iff.mp hsome
    have hfirst : p.first? (s ++ t) = some (b, a, r ++ t) := by
      refine first?_eq_some_iff.mpr ⟨by simp [hs], ?_, ?_⟩
      · rw [← List.append_assoc, ht, hrun]
        rfl
      · intro w hw hne
        rw [← List.append_assoc, ← List.append_assoc, List.append_assoc w, ht, hbefore w hw hne]
        rfl
    rw [found, split_of_first?_eq_some hfirst, found, split_of_first?_eq_some hsome]
    simpa [found] using ih

theorem found_cons_of_run_eq_none {c : Char} {t : Text} (h : p.run (c :: t) = none) :
    p.found (c :: t) = p.found t := by
  have hfirst : p.first? (c :: t) = (p.first? t).map fun x => (c :: x.1, x.2) := by rw [first?, h]
  cases ht : p.first? t with
  | none =>
    rw [ht] at hfirst
    rw [found_of_first?_eq_none hfirst, found_of_first?_eq_none ht]
  | some x =>
    rw [ht] at hfirst
    rw [found, found, split_of_first?_eq_some hfirst, split_of_first?_eq_some ht]
    rfl

end Text.Recogniser

theorem after?_append_cons {u : Text} (hu : ∀ d ∈ u, isMarkerChar d) {c : Char}
    (hc : isMarkerChar c = false) (v t : Text) :
    after? u (v ++ c :: t) = (after? u v).map (· ++ c :: t) := by
  induction u generalizing v with
  | nil => cases v <;> rfl
  | cons d u ih =>
    cases v with
    | nil =>
      have hne : d ≠ c := by
        rintro rfl
        rw [hu d List.mem_cons_self] at hc
        simp at hc
      simp [after?, hne]
    | cons e v =>
      rw [List.cons_append, after?, after?]
      split
      · exact ih (fun x hx => hu x (List.mem_cons_of_mem d hx)) v
      · rfl

/-- Text that looks like a marker ends before a character that belongs to no marker. -/
theorem markerLikes_cuts {c : Char} (hc : isMarkerChar c = false) (t : Text) :
    markerLikes.Cuts (c :: t) := by
  intro v
  change markerLike? (v ++ c :: t) = (markerLike? v).map fun x => (x.1, x.2 ++ c :: t)
  unfold markerLike?
  rw [after?_append_cons (by simp; decide) hc]
  cases after? ['e', 'r', 'b'] v with
  | none => rfl
  | some r =>
    have hspan : (spanOf isMarkerChar (r ++ c :: t)).1 = (spanOf isMarkerChar r).1 := by
      simp only [spanOf, List.takeWhile_append]
      split
      next hall =>
        have hself : r.takeWhile isMarkerChar = r := (List.takeWhile_prefix _).eq_of_length hall
        rw [List.takeWhile_cons_of_neg (by simp [hc]), hself, List.append_nil]
      next => rfl
    simp only [Option.map_some, hspan]
    cases htag : upToLastTag? (spanOf isMarkerChar r).1 with
    | none => rfl
    | some u =>
      have hprefix : u <+: r := (upToLastTag?_isPrefix htag).trans ⟨_, spanOf_append isMarkerChar r⟩
      simp [List.drop_append_of_le_length hprefix.length_le]

def markerLikeMarks (s : Text) : Text := (markerLikes.found s).map fun _ => 'x'

theorem markerLikeMarks_eq_nil_iff {s : Text} :
    markerLikeMarks s = [] ↔ markerLikes.first? s = none := by
  rw [markerLikeMarks, List.map_eq_nil_iff]
  constructor
  · intro h
    cases hfirst : markerLikes.first? s with
    | none => rfl
    | some x => simp [Recogniser.found, Recogniser.split_of_first?_eq_some hfirst] at h
  · exact Recogniser.found_of_first?_eq_none

theorem markerLikeMarks_append_cons (s : Text) {c : Char} (hc : isMarkerChar c = false) (t : Text) :
    markerLikeMarks (s ++ c :: t) = markerLikeMarks s ++ markerLikeMarks t := by
  have hrun : markerLikes.run (c :: t) = none := by
    have hcut := markerLikes_cuts hc t []
    rwa [Recogniser.run_nil] at hcut
  simp [markerLikeMarks, Recogniser.found_append_of_cuts s (markerLikes_cuts hc t),
    Recogniser.found_cons_of_run_eq_none hrun]

theorem markerLikeMarks_nil : markerLikeMarks [] = [] := markerLikeMarks_eq_nil_iff.mpr rfl

theorem isContent_markerLikeMarks : IsContent markerLikeMarks where
  nil := markerLikeMarks_nil
  cut s c t hc := by
    have hsingle := markerLikeMarks_append_cons [] hc []
    rw [List.nil_append, markerLikeMarks_nil] at hsingle
    rw [markerLikeMarks_append_cons s hc, hsingle]
    rfl
  blank c hc := by
    have hsingle := markerLikeMarks_append_cons [] (isMarkerChar_eq_false_of_isBlank hc) []
    rwa [List.nil_append, markerLikeMarks_nil] at hsingle

theorem markerLikeMarks_append_enclosed (s : Text) {u : Text} (hu : IsEnclosed u) (t : Text) :
    markerLikeMarks (s ++ (u ++ t)) = markerLikeMarks s ++
      (markerLikeMarks u ++ markerLikeMarks t) := by
  obtain ⟨v, rfl⟩ := hu
  have hopen := fun (s t : Text) => markerLikeMarks_append_cons s (c := '<') (by decide) t
  have hclose := fun (s t : Text) => markerLikeMarks_append_cons s (c := '>') (by decide) t
  have hself : markerLikeMarks ('<' :: (v ++ ['>'])) = markerLikeMarks v := by
    have hcut := hopen [] (v ++ ['>'])
    rw [hclose, markerLikeMarks_nil, List.append_nil] at hcut
    exact hcut
  have hwhole : s ++ ('<' :: (v ++ ['>']) ++ t) = s ++ '<' :: (v ++ '>' :: t) := by simp
  rw [hwhole, hopen, hclose, hself]

theorem restore_enclosed (table : MarkerTable) {s : Text} (hs : IsEnclosed s) :
    IsEnclosed (table.restore s) := by
  obtain ⟨u, rfl⟩ := hs
  have hopen := restore_append_cons table [] (c := '<') (by decide) (u ++ ['>'])
  rw [restore_nil, restore_append_cons table u (by decide), restore_nil] at hopen
  exact ⟨table.restore u, hopen⟩

theorem restores_markerLikeMarks (body : Text) :
    Restores (extractCode body).2 fun s => markerLikeMarks ((extractCode body).2.restore s) where
  nil := by rw [restore_nil, markerLikeMarks_nil]
  cut s c t hc := by
    rw [restore_append_cons _ s hc t, restore_singleton _ hc]
    exact isContent_markerLikeMarks.cut _ c _ hc
  blank c hc := by
    rw [restore_singleton _ (isMarkerChar_eq_false_of_isBlank hc)]
    exact isContent_markerLikeMarks.blank c hc
  code_eq h s t := by
    obtain ⟨tag, -, hread, hwritten⟩ := exists_codeTag_of_code? h
    have henclosed : IsEnclosed ((extractCode body).2.restore _) :=
      restore_enclosed (extractCode body).2 (hwritten ▸ hread.written_eq : IsEnclosed _)
    simp only [restore_append_marker h, markerLikeMarks_append_enclosed _ henclosed]
  isCode := exists_codeTag_of_code?

end MarkerLikes

section Extraction

theorem first?_codeTags_of_holdsOpening {s : Text} (h : holdsOpening s = false) :
    codeTags.first? s = none := by
  rw [Recogniser.first?_eq_none_iff]
  intro v hv
  cases hrun : codeTags.run v with
  | none => rfl
  | some x =>
    obtain ⟨u, rfl⟩ := codeTags_run_eq_some hrun
    have hopening : holdsOpening ('<' :: '%' :: u) = false := holdsOpening_of_isInfix h hv.isInfix
    simp [holdsOpening] at hopening

/-- The text is a code tag, whatever follows it. -/
def IsCodeTag (code : Text) : Prop :=
  ∃ tag : CodeTag, tag.written = code ∧ ∀ r, codeTags.run (code ++ r) = some (tag, r)

theorem first?_codeTags_append {b code : Text} {tag : CodeTag} (hb : holdsOpening b = false)
    (hrun : ∀ r, codeTags.run (code ++ r) = some (tag, r)) (hwritten : tag.written = code)
    (r : Text) :
    codeTags.first? (b ++ (code ++ r)) = some (b, tag, r) := by
  have hcode : codeTags.written tag = code := hwritten
  refine Recogniser.first?_eq_some_iff.mpr ⟨by rw [hcode], by rw [hcode]; exact hrun r, ?_⟩
  intro w hw hne
  rw [hcode]
  cases hread : codeTags.run (w ++ (code ++ r)) with
  | none => rfl
  | some x =>
    obtain ⟨v, hv⟩ := codeTags_run_eq_some hread
    obtain ⟨u, hu⟩ := codeTags_run_eq_some (hrun r)
    rw [hu] at hv
    match w with
    | [] => exact absurd rfl hne
    | [c] => simp at hv
    | c :: d :: w =>
      obtain ⟨rfl, rfl, -⟩ : c = '<' ∧ d = '%' ∧ _ := by simpa using hv
      have hopening := holdsOpening_of_isInfix hb hw.isInfix
      simp [holdsOpening] at hopening

/-- Code tags between texts without an opening delimiter are found where they stand. -/
theorem split_codeTags {found : List (Text × Text)} {f : Text → Text} {last : Text}
    (hbefore : ∀ x ∈ found, holdsOpening x.1 = false) (hcode : ∀ x ∈ found, IsCodeTag (f x.2))
    (hlast : holdsOpening last = false) :
    (codeTags.split (found.flatMap (fun x => x.1 ++ f x.2) ++ last)).1.map
      (fun x => (x.1, x.2.written)) =
        found.map (fun x => (x.1, f x.2)) ∧
      (codeTags.split (found.flatMap (fun x => x.1 ++ f x.2) ++ last)).2 = last := by
  induction found with
  | nil =>
    have hnone := first?_codeTags_of_holdsOpening hlast
    rw [List.flatMap_nil, List.nil_append, Recogniser.split_of_first?_eq_none hnone]
    exact ⟨rfl, rfl⟩
  | cons x found ih =>
    obtain ⟨tag, hwritten, hrun⟩ := hcode x List.mem_cons_self
    have hfirst := first?_codeTags_append (hbefore x List.mem_cons_self) hrun hwritten
      (found.flatMap (fun x => x.1 ++ f x.2) ++ last)
    obtain ⟨hfound, hrest⟩ := ih (fun y hy => hbefore y (List.mem_cons_of_mem x hy))
      fun y hy => hcode y (List.mem_cons_of_mem x hy)
    rw [List.flatMap_cons, List.append_assoc, List.append_assoc,
      Recogniser.split_of_first?_eq_some hfirst]
    dsimp only
    rw [List.map_cons, List.map_cons, hfound, hwritten]
    exact ⟨rfl, hrest⟩

theorem number_eq_joinMarkers {found : List (Text × Text)} {n : Nat}
    (h : found.map Prod.snd = (List.range' n found.length).map (Nat.toDigits 10)) (f : Text → Text)
    (last : Text) :
    number n (found.map fun x => (x.1, f x.2)) last = joinMarkers found last := by
  induction found generalizing n with
  | nil => rfl
  | cons x found ih =>
    obtain ⟨b, digits⟩ := x
    rw [List.map_cons, List.length_cons, List.range'_succ, List.map_cons, List.cons.injEq] at h
    obtain ⟨rfl, h⟩ := h
    rw [List.map_cons, number, ih h, joinMarkers_cons, List.append_assoc, marker_eq]

theorem restore_of_literals_nil {table : MarkerTable} (h : table.literals = []) (s : Text) :
    table.restore s = restoreFrom table.code? s := by
  have hnone : ∀ digits, table.literal? digits = none := by
    intro digits
    rw [literal?, h]
    cases numberOf? digits <;> rfl
  rw [restore, restoreFrom]
  exact Recogniser.replace_eq_self fun d _ => by rw [hnone]; rfl

theorem code?_toDigits {table : MarkerTable} (h : table.literals = []) (n : Nat) :
    table.code? (Nat.toDigits 10 n) = table.codes[n]? := by
  simp [code?, numberOf?_toDigits, h]

theorem isInfix_of_mem_split {s : Text} {x : Text × Text} (h : x ∈ (markers.split s).1) :
    x.1 <:+: s := by
  obtain ⟨l, m, hl⟩ := List.append_of_mem h
  have hjoin := joinMarkers_split s
  rw [hl] at hjoin
  refine ⟨l.flatMap fun x => x.1 ++ markers.written x.2,
    markers.written x.2 ++ joinMarkers m (markers.split s).2, ?_⟩
  refine Eq.trans ?_ hjoin
  simp [joinMarkers]

theorem split_isSuffix (s : Text) : (markers.split s).2 <:+ s := ⟨_, joinMarkers_split s⟩

/-- Code that was put back is taken out again, and the table is the same. -/
theorem extractCode_restore {table : MarkerTable} {s : Text} (hliterals : table.literals = [])
    (hfound : markers.found s = (List.range table.codes.length).map (Nat.toDigits 10))
    (hopening : holdsOpening s = false) (hcodes : ∀ code ∈ table.codes, IsCodeTag code)
    (hnone : markerLikes.first? (table.restore s) = none) :
    extractCode (table.restore s) = (s, table) := by
  obtain ⟨literals, codes⟩ := table
  obtain rfl : literals = [] := hliterals
  set table : MarkerTable := ⟨[], codes⟩ with htable
  let f := fun digits => (table.code? digits).getD (markers.written digits)
  have hnumber : ∀ n, (h : n < codes.length) → f (Nat.toDigits 10 n) = codes[n] := by
    intro n hn
    change (table.code? (Nat.toDigits 10 n)).getD _ = _
    rw [code?_toDigits rfl, List.getElem?_eq_getElem hn]
    rfl
  have hrestore : table.restore s = (markers.split s).1.flatMap (fun x => x.1 ++ f x.2) ++
      (markers.split s).2 :=
    restore_of_literals_nil rfl s
  have hlength : (markers.split s).1.length = codes.length := by
    simpa [Recogniser.found] using congrArg List.length hfound
  have hcode : ∀ x ∈ (markers.split s).1, IsCodeTag (f x.2) := by
    intro x hx
    have hmem : x.2 ∈ markers.found s := List.mem_map_of_mem hx
    rw [hfound] at hmem
    obtain ⟨n, hn, hdigits⟩ := List.mem_map.mp hmem
    rw [← hdigits, hnumber n (List.mem_range.mp hn)]
    exact hcodes _ (List.getElem_mem _)
  obtain ⟨hsplit, hrest⟩ :=
    split_codeTags (fun x hx => holdsOpening_of_isInfix hopening (isInfix_of_mem_split hx)) hcode
    (holdsOpening_of_isInfix hopening (split_isSuffix s).isInfix)
  rw [← hrestore] at hsplit hrest
  have hbody : numbered (table.restore s) = table.restore s := by
    rw [numbered, Recogniser.split_of_first?_eq_none hnone]
    rfl
  have hcodesOf : codesOf (table.restore s) = (markers.split s).1.map fun x => (x.1, f x.2) := by
    rw [codesOf, hbody, hsplit]
  rw [extractCode_eq, hcodesOf, afterCodes, hbody, hrest, Recogniser.split_of_first?_eq_none hnone]
  have hjoin : number 0 ((markers.split s).1.map fun x => (x.1, f x.2))
      (markers.split s).2 = s := by
    rw [number_eq_joinMarkers, joinMarkers_split]
    rw [hlength, ← List.range_eq_range']
    exact hfound
  have hsame : (markers.found s).map f = codes := by
    rw [hfound, List.map_map]
    apply List.ext_getElem
    · simp [htable]
    · intro n hn hn'
      simpa using hnumber n hn'
  refine Prod.ext hjoin ?_
  rw [htable, List.map_map]
  change (⟨[], (markers.split s).1.map fun x => f x.2⟩ : MarkerTable) = ⟨[], codes⟩
  rw [← hsame, Recogniser.found, List.map_map]
  rfl

end Extraction

section Clean

/-- The markers of the table all stand for code tags, and no code tag holds a marker. -/
structure IsCleanTable (table : MarkerTable) : Prop where
  literals : table.literals = []
  codes : ∀ code ∈ table.codes, IsCodeTag code ∧ markers.first? code = none

theorem IsCleanTable.of_code? {table : MarkerTable} (h : IsCleanTable table) {digits code : Text}
    (hcode : table.code? digits = some code) : IsCodeTag code ∧ markers.first? code = none := by
  obtain ⟨n, hn, hget⟩ := Option.bind_eq_some_iff.mp hcode
  rw [h.literals] at hget
  exact h.codes code (List.mem_of_getElem? (by simpa using hget))

theorem numbered_eq_self {body : Text} (h : markerLikes.first? body = none) :
    numbered body = body := by
  rw [numbered, Recogniser.split_of_first?_eq_none h]
  rfl

/-- The table of a text in which nothing looks like a marker. -/
theorem isCleanTable_extractCode {body : Text} (h : markerLikes.first? body = none) :
    IsCleanTable (extractCode body).2 := by
  have hnone : markers.found (numbered body) = [] := by
    rw [numbered_eq_self h]
    exact Recogniser.found_of_first?_eq_none (markerLikes_covers.first?_eq_none h)
  refine ⟨by rw [extractCode_eq, Recogniser.split_of_first?_eq_none h]; rfl, fun code hcode => ?_⟩
  rw [extractCode_eq] at hcode
  obtain ⟨x, hx, rfl⟩ := List.mem_map.mp hcode
  obtain ⟨tag, v, r, hrun, hwritten⟩ := exists_run_of_mem_codesOf hx
  refine ⟨⟨tag, hwritten.symm, fun r => ?_⟩, ?_⟩
  · rw [hwritten]
    exact codeTags_isLocal v tag _ hrun r
  · rw [← found_eq_nil_iff, List.eq_nil_iff_forall_not_mem]
    intro d hd
    have hmem := mem_found_of_code hx hd
    rw [hnone] at hmem
    simp at hmem

/-- The markers of a text in which nothing looked like a marker are numbered as they stand. -/
theorem found_extractCode {body : Text} (h : markerLikes.first? body = none) :
    markers.found (extractCode body).1 =
      (List.range (extractCode body).2.codes.length).map (Nat.toDigits 10) := by
  have hnone : ∀ d, d ∉ markers.found (numbered body) := by
    rw [numbered_eq_self h, Recogniser.found_of_first?_eq_none
      (markerLikes_covers.first?_eq_none h)]
    simp
  have hempty : ∀ s, (∀ d ∈ markers.found s, d ∈ markers.found (numbered body)) →
      markers.first? s = none := by
    intro s hs
    rw [← found_eq_nil_iff, List.eq_nil_iff_forall_not_mem]
    exact fun d hd => hnone d (hs d hd)
  rw [extractCode_eq, Recogniser.split_of_first?_eq_none h, List.range_eq_range', List.length_map]
  exact found_number (fun x hx => hempty x.1 fun d hd => mem_found_of_before hx hd)
    (hempty _ fun d hd => mem_found_of_after hd)

end Clean

section Ends

variable {f : Text → Text} {s : Text}

/-- What is put in place of markers, if it begins and ends with no blank, leaves the ends of a text
as they are. -/
theorem startsBlank_replace (hf : ∀ d ∈ markers.found s, IsVisible (f d)) :
    startsBlank (markers.replace f s) = startsBlank s := by
  have hjoin := joinMarkers_split s
  rw [Recogniser.replace]
  cases hfound : (markers.split s).1 with
  | nil =>
    rw [hfound] at hjoin
    exact congrArg startsBlank hjoin
  | cons x found =>
    obtain ⟨b, digits⟩ := x
    rw [hfound, joinMarkers_cons] at hjoin
    conv_rhs => rw [← hjoin]
    simp only [List.flatMap_cons, List.append_assoc]
    by_cases hb : b = []
    · have hvisible := hf digits (by simp [Recogniser.found, hfound])
      rw [hb, List.nil_append, List.nil_append, startsBlank_append hvisible.ne_nil, hvisible.starts]
      rfl
    · rw [startsBlank_append hb, startsBlank_append hb]

theorem endsBlank_replace (hf : ∀ d ∈ markers.found s, IsVisible (f d)) :
    endsBlank (markers.replace f s) = endsBlank s := by
  rw [← endsBlank_split s, Recogniser.replace]
  by_cases hlast : (markers.split s).2 = []
  · rw [hlast, List.append_nil]
    rcases List.eq_nil_or_concat (markers.split s).1 with hfound | ⟨found, x, hfound⟩
    · rw [hfound]
      rfl
    · have hvisible := hf x.2 (by simp [Recogniser.found, hfound])
      rw [hfound, List.concat_eq_append, List.flatMap_append, List.flatMap_singleton,
        ← List.append_assoc, endsBlank_append _ hvisible.ne_nil, hvisible.ends]
      rfl
  · rw [endsBlank_append _ hlast]

theorem restore_apart (table : MarkerTable) {u : Text} (hu : ∀ c ∈ u, isMarkerChar c = false)
    (s : Text) :
    table.restore (u ++ s) = u ++ table.restore s := by
  induction u with
  | nil => rfl
  | cons c u ih =>
    have hcut := restore_append_cons table [] (hu c List.mem_cons_self) (u ++ s)
    rw [restore_nil, ih fun d hd => hu d (List.mem_cons_of_mem c hd)] at hcut
    exact hcut

theorem restore_lead (table : MarkerTable) {lead : Text} (hlead : ∀ c ∈ lead, isBlank c)
    (s : Text) :
    table.restore (lead ++ s) = lead ++ table.restore s :=
  restore_apart table (fun c hc => isMarkerChar_eq_false_of_isBlank (hlead c hc)) s

theorem restore_trail (table : MarkerTable) (s : Text) {trail : Text}
    (htrail : ∀ c ∈ trail, isBlank c) :
    table.restore (s ++ trail) = table.restore s ++ trail := by
  cases trail with
  | nil => simp
  | cons c trail =>
    have hrest := restore_lead table (fun d hd => htrail d (List.mem_cons_of_mem c hd)) []
    rw [List.append_nil, restore_nil, List.append_nil] at hrest
    rw [restore_append_cons table s
      (isMarkerChar_eq_false_of_isBlank (htrail c List.mem_cons_self)), hrest]

theorem IsCodeTag.isEnclosed {code : Text} (h : IsCodeTag code) : IsEnclosed code := by
  obtain ⟨tag, rfl, hrun⟩ := h
  exact (isRead_of_run (hrun [])).written_eq

theorem isVisible_written (digits : Text) : IsVisible (markers.written digits) := by
  have hwritten : markers.written digits = 'e' :: ('r' :: 'b' :: (digits ++ ['t', 'a'])) ++
      ['g'] := by
    simp [markers]
  refine ⟨by simp [hwritten], rfl, ?_⟩
  rw [hwritten, endsBlank_concat]
  decide

/-- Whatever a marker stands for has no blank at either end. -/
structure IsVisibleTable (table : MarkerTable) : Prop where
  code : ∀ digits, IsVisible ((table.code? digits).getD (markers.written digits))
  literal : ∀ digits, IsVisible ((table.literal? digits).getD (markers.written digits))

theorem IsVisibleTable.startsBlank_restore {table : MarkerTable} (h : IsVisibleTable table)
    (s : Text) : startsBlank (table.restore s) = startsBlank s := by
  have hliterals := startsBlank_replace (s := restoreFrom table.code? s) fun d _ => h.literal d
  have hcodes := startsBlank_replace (s := s) fun d _ => h.code d
  exact hliterals.trans hcodes

theorem IsVisibleTable.endsBlank_restore {table : MarkerTable} (h : IsVisibleTable table)
    (s : Text) : endsBlank (table.restore s) = endsBlank s := by
  have hliterals := endsBlank_replace (s := restoreFrom table.code? s) fun d _ => h.literal d
  have hcodes := endsBlank_replace (s := s) fun d _ => h.code d
  exact hliterals.trans hcodes

namespace IsCleanTable

variable {table : MarkerTable} (h : IsCleanTable table)
include h

theorem isVisible : IsVisibleTable table where
  code digits := by
    cases hcode : table.code? digits with
    | some code => exact (h.of_code? hcode).1.isEnclosed.isVisible
    | none => exact isVisible_written digits
  literal digits := by
    have hnone : table.literal? digits = none := by simp [literal?, h.literals]
    rw [hnone]
    exact isVisible_written digits

/-- A character of no marker and no code tag stood where it stands. -/
theorem exists_of_restore_eq_cons {s t : Text} {c : Char} (hs : table.restore s = c :: t)
    (hc : isMarkerChar c = false) (hopening : c ≠ '<') :
    ∃ s', s = c :: s' ∧ table.restore s' = t := by
  have hput : ∀ digits u, (table.code? digits).getD (markers.written digits) ++ u ≠ c :: t := by
    intro digits u heq
    cases hcode : table.code? digits with
    | some code =>
      obtain ⟨v, rfl⟩ := (h.of_code? hcode).1.isEnclosed
      rw [hcode] at heq
      exact hopening (List.cons.inj heq).1.symm
    | none =>
      rw [hcode] at heq
      rw [← (List.cons.inj heq).1] at hc
      exact absurd hc (by decide)
  obtain ⟨s', rfl⟩ : ∃ s', s = c :: s' := by
    have hjoin := joinMarkers_split s
    rw [restore_of_literals_nil h.literals, restoreFrom, Recogniser.replace] at hs
    cases hfound : (markers.split s).1 with
    | nil =>
      rw [hfound] at hs hjoin
      exact ⟨t, hjoin.symm.trans hs⟩
    | cons x found =>
      obtain ⟨b, digits⟩ := x
      rw [hfound, joinMarkers_cons] at hjoin
      rw [hfound, List.flatMap_cons, List.append_assoc, List.append_assoc] at hs
      cases b with
      | nil => exact absurd hs (hput digits _)
      | cons d b =>
        obtain ⟨rfl, -⟩ := List.cons.inj hs
        exact ⟨_, hjoin.symm⟩
  have hcut := restore_append_cons table [] hc s'
  rw [restore_nil] at hcut
  exact ⟨s', rfl, (List.cons.inj (hcut.symm.trans hs)).2⟩

theorem exists_of_restore_eq_append {s u t : Text} (hs : table.restore s = u ++ t)
    (hu : ∀ c ∈ u, isMarkerChar c = false ∧ c ≠ '<') :
    ∃ s', s = u ++ s' ∧ table.restore s' = t := by
  induction u generalizing s with
  | nil => exact ⟨s, rfl, hs⟩
  | cons c u ih =>
    obtain ⟨hc, hopening⟩ := hu c List.mem_cons_self
    obtain ⟨s', rfl, hs'⟩ := h.exists_of_restore_eq_cons hs hc hopening
    obtain ⟨s'', rfl, hs''⟩ := ih hs' fun d hd => hu d (List.mem_cons_of_mem c hd)
    exact ⟨s'', rfl, hs''⟩

end IsCleanTable

end Ends

end ErbLayout
