import ErbLayout.Proofs.Path
import ErbLayout.Tree

/-!
Following paths in a tree. Where a path leads is decided by its components: pieces that mean nothing
may go before a name, and the names of the working folder lead from the root to it. It is also
decided without the contents of files, so it stays the same in a tree in which some files are
rewritten.
-/

namespace ErbLayout

open Text

namespace Path

/-- The piece that a component is written as; the root and a first dot are none. -/
def Component.piece? : Component → Option Text
  | .up => some ['.', '.']
  | .name n => some n
  | _ => none

theorem filterMap_piece?_filterMap_componentOf (ps : List Text) :
    (ps.filterMap componentOf).filterMap Component.piece? = ps.filter (!isIdle ·) := by
  have hpiece : ∀ piece, (componentOf piece).bind Component.piece? =
      if !isIdle piece then some piece else none := by
    intro piece
    unfold componentOf
    cases isIdle piece with
    | true => rfl
    | false =>
      by_cases hup : piece = ['.', '.']
      · simp [hup, Component.piece?]
      · simp [hup, Component.piece?]
  rw [List.filterMap_filterMap, ← List.filterMap_eq_filter]
  refine List.filterMap_congr fun piece _ => ?_
  rw [hpiece]
  rfl

theorem filterMap_piece?_lead (p : Path) : p.lead.filterMap Component.piece? = [] := by
  unfold lead
  split
  · rfl
  · split <;> rfl

theorem filterMap_piece?_map_name (ns : List Text) :
    (ns.map Component.name).filterMap Component.piece? = ns := by
  rw [List.filterMap_map]
  exact List.filterMap_some

end Path

namespace Tree

/-- What a folder lies in is a folder. -/
theorem isFolder_of_isPrefix {t : Tree} {l l' : Location} (hpre : l <+: l') (h : t.isFolder l') :
    t.isFolder l := by
  simp only [isFolder, Bool.or_eq_true, List.any_eq_true, List.isPrefixOf_iff_prefix,
    Bool.and_eq_true, bne_iff_ne] at h ⊢
  rcases h with (hempty | ⟨f, hf, hle⟩) | ⟨f, hf, hle, hne⟩
  · rw [List.isEmpty_iff.mp hempty, List.prefix_nil] at hpre
    simp [hpre]
  · exact Or.inl (Or.inr ⟨f, hf, hpre.trans hle⟩)
  · refine Or.inr ⟨f, hf, hpre.trans hle, ?_⟩
    rintro rfl
    exact hne (hle.eq_of_length_le hpre.length_le)

theorem follow_append (t : Tree) (l : Location) (ps qs : List Text) :
    t.follow l (ps ++ qs) = (t.follow l ps).bind (t.follow · qs) := by
  induction ps generalizing l with
  | nil => rfl
  | cons piece ps ih =>
    simp only [List.cons_append, follow]
    split
    · rfl
    · split
      · exact ih l
      · split
        · exact ih l.dropLast
        · split
          · exact ih (l ++ [piece])
          · rfl

theorem follow_eq_none_of_not_isFolder {t : Tree} {l : Location} (hl : ¬ t.isFolder l)
    {ps : List Text} (hps : ps ≠ []) : t.follow l ps = none := by
  obtain ⟨piece, ps, rfl⟩ := List.exists_cons_of_ne_nil hps
  rw [follow, if_pos (by simpa using hl)]

theorem follow_cons_of_isIdle (t : Tree) (l : Location) {piece : Text} (hpiece : Path.isIdle piece)
    {ps : List Text} (hps : ps ≠ []) : t.follow l (piece :: ps) = t.follow l ps := by
  by_cases hl : t.isFolder l
  · rw [follow, if_neg (by simp [hl]), if_pos hpiece]
  · rw [follow_eq_none_of_not_isFolder hl hps,
      follow_eq_none_of_not_isFolder hl (List.cons_ne_nil _ _)]

/-- Before a name, pieces that mean nothing may go. -/
theorem follow_filter_concat (t : Tree) (l : Location) (ps : List Text) (n : Text) :
    t.follow l (ps.filter (!Path.isIdle ·) ++ [n]) = t.follow l (ps ++ [n]) := by
  induction ps generalizing l with
  | nil => rfl
  | cons piece ps ih =>
    cases hidle : Path.isIdle piece with
    | true =>
      rw [List.filter_cons_of_neg (by simp [hidle]), ih, List.cons_append]
      rw [follow_cons_of_isIdle t l hidle (by simp)]
    | false =>
      rw [List.filter_cons_of_pos (by simp [hidle]), List.cons_append, List.cons_append, follow,
        follow, hidle]
      simp only [ih]

theorem eq_of_follow_of_isIdle {t : Tree} {l l' : Location} {ps : List Text}
    (hps : ∀ piece ∈ ps, Path.isIdle piece) (h : t.follow l ps = some l') : l' = l := by
  induction ps with
  | nil => exact (Option.some.inj h).symm
  | cons piece ps ih =>
    rw [follow, if_pos (hps piece List.mem_cons_self)] at h
    split at h
    · simp at h
    · exact ih (fun q hq => hps q (List.mem_cons_of_mem _ hq)) h

theorem follow_eq_some_of_names {t : Tree} {l : Location} {ns : List Text}
    (hns : ∀ n ∈ ns, ∃ m, Path.componentOf n = some (.name m)) (h : t.isFolder (l ++ ns)) :
    t.follow l ns = some (l ++ ns) := by
  induction ns generalizing l with
  | nil => simp [follow]
  | cons n ns ih =>
    have hfolder : t.isFolder l := isFolder_of_isPrefix (List.prefix_append l (n :: ns)) h
    have hnext : l ++ n :: ns = l ++ [n] ++ ns := by simp
    rw [hnext] at h ⊢
    have hstep : t.isFolder (l ++ [n]) := isFolder_of_isPrefix (List.prefix_append (l ++ [n]) ns) h
    obtain ⟨m, hm⟩ := hns n List.mem_cons_self
    have hidle : Path.isIdle n = false := by
      rw [← Bool.not_eq_true, ← Path.componentOf_eq_none_iff, hm]
      simp
    have hup : n ≠ ['.', '.'] := by
      rintro rfl
      simp [Path.componentOf, hidle] at hm
    rw [follow, if_neg (by simp [hfolder]), if_neg (by simp [hidle]), if_neg hup,
      if_pos (by simp [hstep])]
    exact ih (fun m hm => hns m (List.mem_cons_of_mem _ hm)) h

section Rewriting

def rewrite (t : Tree) (new : Location → Option Bytes) : Tree :=
  { t with files := t.files.map fun (l, old) => (l, (new l).getD old) }

variable (t : Tree) (new : Location → Option Bytes)

theorem contents?_rewrite (l : Location) :
    (t.rewrite new).contents? l = (t.contents? l).map fun old => (new l).getD old := by
  simp only [contents?, rewrite]
  induction t.files with
  | nil => rfl
  | cons f files ih =>
    obtain ⟨l', old⟩ := f
    rw [List.map_cons, List.lookup_cons, List.lookup_cons]
    cases hl : l == l' with
    | true => rw [eq_of_beq hl, Option.map_some]
    | false => exact ih

@[simp] theorem isFile_rewrite : (t.rewrite new).isFile = t.isFile := by
  funext l
  rw [isFile, isFile, contents?_rewrite, Option.isSome_map]

@[simp] theorem isFolder_rewrite : (t.rewrite new).isFolder = t.isFolder := by
  funext l
  simp [isFolder, rewrite, List.any_map, Function.comp_def]

@[simp] theorem follow_rewrite (l : Location) (ps : List Text) :
    (t.rewrite new).follow l ps = t.follow l ps := by
  induction ps generalizing l with
  | nil => rfl
  | cons piece ps ih => simp only [follow, isFile_rewrite, isFolder_rewrite, ih]

@[simp] theorem locateFile?_rewrite (cwd : Location) (p : Path) :
    (t.rewrite new).locateFile? cwd p = t.locateFile? cwd p := by
  simp only [locateFile?, locate?, follow_rewrite, isFile_rewrite]

@[simp] theorem locateFolder?_rewrite (cwd : Location) (p : Path) :
    (t.rewrite new).locateFolder? cwd p = t.locateFolder? cwd p := by
  simp only [locateFolder?, locate?, follow_rewrite, isFolder_rewrite]

/-- Writing a file rewrites it once more. -/
theorem write_rewrite (l : Location) (contents : Bytes) :
    (t.rewrite new).write l contents = t.rewrite fun l' => if l' = l then some contents
      else new l' := by
  simp only [write, rewrite, List.map_map, Tree.mk.injEq, and_true]
  refine List.map_congr_left fun f _ => ?_
  by_cases hf : f.1 = l
  · simp [hf]
  · simp [hf]

end Rewriting

end Tree

end ErbLayout
