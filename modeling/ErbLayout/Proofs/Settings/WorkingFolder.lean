import ErbLayout.Proofs.Settings.Discovery

/-!
How much the spelling of a path matters to its settings. A relative path and the same path with the
working folder before it lead to the same file and to the same folders below the working folder;
only the longer one also leads to the folders above it, and only there a settings file is missed by
the shorter one.
-/

namespace ErbLayout

open Text

section WorkingFolder

/-- The working folder is a folder, not a file, and its names are plain. -/
structure System.IsPlaced (s : System) : Prop where
  isFolder : s.tree.isFolder s.cwd = true
  notFile : s.tree.isFile s.cwd = false
  names : ∀ n ∈ s.cwd, '/' ∉ n ∧ Path.componentOf n = some (.name n)

namespace System.IsPlaced

variable {s : System} (hs : s.IsPlaced)

include hs

theorem filterMap_componentOf : s.cwd.filterMap Path.componentOf = s.cwd.map .name := by
  rw [← List.filterMap_eq_map]
  exact List.filterMap_congr fun n hn => (hs.names n hn).2

theorem components_cwdPath : s.cwdPath.components = .root :: s.cwd.map .name := by
  have hcwd : s.cwdPath = '/' :: Text.join ['/'] s.cwd := rfl
  rw [hcwd, Path.components_eq, Path.pieces_slash, List.filterMap_cons_none Path.componentOf_nil,
    Path.filterMap_pieces_join fun n hn => (hs.names n hn).1, hs.filterMap_componentOf]
  rfl

theorem pieces_cwdPath_join {p : Path} (hp : p.isAbsolute = false) :
    Path.pieces (s.cwdPath.join p) = [] :: (s.cwd ++ Path.pieces p) := by
  have hcwd : s.cwdPath = '/' :: Text.join ['/'] s.cwd := rfl
  by_cases hnil : s.cwd = []
  · have hjoin : s.cwdPath.join p = '/' :: p := by
      rw [hcwd, hnil]
      simp [Path.join, hp, Text.join]
    rw [hjoin, hnil, Path.pieces_slash, List.nil_append]
  · have hpieces : Path.pieces s.cwdPath = [] :: s.cwd := by
      rw [hcwd, Path.pieces_slash, Path.pieces_join hnil fun n hn => (hs.names n hn).1]
    obtain ⟨ps, idle, -, hidle, happend, hjoin⟩ := Path.exists_pieces_join (p := s.cwdPath)
      (by simp [hcwd]) hp
    -- The last name of the working folder is not empty, so there is no slash after it.
    have hnone : idle = [] := by
      by_contra hne
      have hlast : idle.getLast hne = s.cwd.getLast hnil := by
        have heq : (ps ++ idle).getLast? = ([] :: s.cwd).getLast? := by rw [← happend, hpieces]
        simpa [List.getLast?_append, List.getLast?_cons, List.getLast?_eq_some_getLast hne,
          List.getLast?_eq_some_getLast hnil] using heq
      have hname := (hs.names _ (List.getLast_mem hnil)).2
      rw [← hlast, hidle _ (List.getLast_mem hne)] at hname
      simp [Path.componentOf_nil] at hname
    rw [hnone, List.append_nil, hpieces] at happend
    rw [hjoin, ← happend, List.cons_append]

theorem isAbsolute_cwdPath_join {p : Path} (hp : p.isAbsolute = false) :
    (s.cwdPath.join p).isAbsolute = true := by
  rw [Path.isAbsolute_iff_pieces, hs.pieces_cwdPath_join hp]
  exact ⟨_, by simp [Path.pieces_eq_splitOn], rfl⟩

theorem components_cwdPath_join {p : Path} (hp : p.isAbsolute = false) :
    (s.cwdPath.join p).components = .root ::
      (s.cwd.map .name ++ (Path.pieces p).filterMap Path.componentOf) := by
  rw [Path.components_eq, hs.pieces_cwdPath_join hp, List.filterMap_cons_none Path.componentOf_nil,
    List.filterMap_append, hs.filterMap_componentOf]
  simp [Path.lead, hs.isAbsolute_cwdPath_join hp]

theorem follow_cwd (ps : List Text) : s.tree.follow [] (s.cwd ++ ps) = s.tree.follow s.cwd ps := by
  have hcwd : s.tree.follow [] s.cwd = some s.cwd :=
    Tree.follow_eq_some_of_names (fun n hn => ⟨n, (hs.names n hn).2⟩) hs.isFolder
  rw [Tree.follow_append, hcwd, Option.bind_some]

/-- A path leads to the same place when the working folder is written before it. -/
theorem locate?_cwdPath_join {p : Path} (hp : p.isAbsolute = false) (hne : p ≠ []) :
    s.tree.locate? s.cwd (s.cwdPath.join p) = s.tree.locate? s.cwd p := by
  have habs := hs.isAbsolute_cwdPath_join hp
  have hnonempty : (s.cwdPath.join p).isEmpty = false := by
    cases hjoin : s.cwdPath.join p with
    | nil => simp [hjoin, Path.isAbsolute] at habs
    | cons c q => rfl
  rw [Tree.locate?, Tree.locate?, hnonempty, habs, hp, hs.pieces_cwdPath_join hp,
    Tree.follow_cons_of_isIdle _ _ rfl (by simp [Path.pieces_eq_splitOn])]
  simpa [hne] using hs.follow_cwd (Path.pieces p)

end System.IsPlaced

end WorkingFolder

namespace Settings

section Spelling

variable {s : System} (keep : List Path.Component → Bool)

def overlayAlong (s : System) (keep : List Path.Component → Bool)
    (css : List (List Path.Component)) : Overlay :=
  Overlay.first ((css.filter keep).map (overlayAt s))

theorem overlayAlong_append (css css' : List (List Path.Component)) :
    overlayAlong s keep (css ++ css') =
      (overlayAlong s keep css).or (overlayAlong s keep css') := by
  rw [overlayAlong, List.filter_append, List.map_append, Overlay.first_append]
  rfl

theorem first_map_overlayIn (folders : List Path) :
    Overlay.first ((folders.filter fun folder => keep folder.components).map (overlayIn s))
      = overlayAlong s keep (folders.map Path.components) := by
  rw [overlayAlong, List.filter_map, List.map_map]
  simp only [Function.comp_def, ← overlayIn_eq]

def spelled (s : System) (cs : List Path.Component) : List Path.Component :=
  .root :: (s.cwd.map .name ++ cs.filter (· ≠ .here))

theorem folders_of_parent? {p folder : Path} (hfile : s.isFile p)
    (hfolder : p.parent? = some folder) :
    folders s p = folder.ancestors := by
  rw [folders, startFolder?, if_pos hfile, hfolder]
  rfl

/-- Folders that set nothing unless they are the home folder add nothing to what it sets. -/
theorem first_or_home {folders : List Path}
    (h : ∀ folder ∈ folders, isHome s folder = true ∨ overlayIn s folder = {}) :
    (Overlay.first (folders.map (overlayIn s))).or (Overlay.first (s.home.toList.map (overlayIn s)))
      = Overlay.first (s.home.toList.map (overlayIn s)) := by
  refine Overlay.first_or_of_forall fun o ho => ?_
  obtain ⟨folder, hmem, rfl⟩ := List.mem_map.mp ho
  rcases h folder hmem with hishome | hempty
  · right
    rw [isHome_eq] at hishome
    obtain ⟨home, hsome, hsame⟩ := (Option.any_eq_true _ _).mp hishome
    rw [hsome, Option.toList_some, List.map_singleton, Overlay.first_singleton, overlayIn_eq,
      overlayIn_eq, beq_iff_eq.mp hsame]
  · exact Or.inl hempty

theorem locationIn_of_relative {p : Path} (hp : p.isAbsolute = false) :
    locationIn s p.components
      = s.tree.follow s.cwd (((Path.pieces p).filterMap Path.componentOf).filterMap
        Path.Component.piece? ++ [fileName]) := by
  have hroot : p.components.head? ≠ some .root := fun h => by
    simp [(Path.isAbsolute_iff p).mpr h] at hp
  have hsteps : p.components.filterMap Path.Component.piece?
      = ((Path.pieces p).filterMap Path.componentOf).filterMap Path.Component.piece? := by
    rw [Path.components_eq, List.filterMap_append, Path.filterMap_piece?_lead, List.nil_append]
  rw [locationIn, if_neg hroot, hsteps]

variable (hs : s.IsPlaced)

include hs

/-- A folder below the working folder sets the same, however its path is written. -/
theorem overlayIn_cwdPath_join {p : Path} (hp : p.isAbsolute = false) :
    overlayIn s (s.cwdPath.join p) = overlayIn s p := by
  have hlocation : locationIn s (s.cwdPath.join p).components = locationIn s p.components := by
    rw [locationIn_of_relative hp, hs.components_cwdPath_join hp, locationIn, List.head?_cons,
      if_pos rfl, List.filterMap_cons_none rfl, List.filterMap_append,
      Path.filterMap_piece?_map_name, List.append_assoc, hs.follow_cwd]
  rw [overlayIn_eq, overlayIn_eq, overlayAt, overlayAt, hlocation]

/-- A relative path that leads to a file has more than a dot before it. -/
theorem filterMap_componentOf_ne_nil {p : Path} (hp : p.isAbsolute = false) (hfile : s.isFile p) :
    (Path.pieces p).filterMap Path.componentOf ≠ [] := by
  intro hnil
  have hidle : ∀ piece ∈ Path.pieces p, Path.isIdle piece := fun piece hpiece =>
    Path.componentOf_eq_none_iff.mp (List.filterMap_eq_nil_iff.mp hnil piece hpiece)
  obtain ⟨l, hl⟩ := Option.isSome_iff_exists.mp hfile
  obtain ⟨hlocate, hisFile⟩ := Option.filter_eq_some_iff.mp hl
  have hfollow : s.tree.follow s.cwd (Path.pieces p) = some l := by
    rw [Tree.locate?, hp] at hlocate
    split at hlocate
    · simp at hlocate
    · exact hlocate
  rw [Tree.eq_of_follow_of_isIdle hidle hfollow, hs.notFile] at hisFile
  simp at hisFile

/-- The folder of a file, in both spellings. -/
theorem exists_parent? {p : Path} (hp : p.isAbsolute = false) (hfile : s.isFile p) :
    ∃ folder folder', p.parent? = some folder ∧ folder.isAbsolute = false ∧
      (s.cwdPath.join p).parent? = some folder' ∧
      folder'.components = .root ::
        (s.cwd.map .name ++ (Path.pieces folder).filterMap Path.componentOf) := by
  have hne := filterMap_componentOf_ne_nil hs hp hfile
  obtain ⟨front, c, hconcat⟩ : ∃ front c, (Path.pieces p).filterMap Path.componentOf =
      front ++ [c] :=
    ⟨_, _, (List.dropLast_append_getLast hne).symm⟩
  have hcomponents := Path.components_eq p
  rw [hconcat, ← List.append_assoc] at hcomponents
  have hjoin := hs.components_cwdPath_join hp
  rw [hconcat, ← List.append_assoc, ← List.cons_append] at hjoin
  obtain ⟨folder, hfolder⟩ : ∃ folder, p.parent? = some folder := by
    refine Option.ne_none_iff_exists'.mp fun hnone => ?_
    rw [Path.components_of_parent?_eq_none hnone, hp] at hcomponents
    simp at hcomponents
  obtain ⟨folder', hfolder'⟩ : ∃ folder', (s.cwdPath.join p).parent? = some folder' := by
    refine Option.ne_none_iff_exists'.mp fun hnone => ?_
    rw [Path.components_of_parent?_eq_none hnone, hs.isAbsolute_cwdPath_join hp] at hjoin
    simp at hjoin
  obtain ⟨d, -, hd⟩ := Path.components_of_parent? hfolder
  obtain ⟨d', -, hd'⟩ := Path.components_of_parent? hfolder'
  have hrelative : folder.isAbsolute = false := by rw [Path.isAbsolute_of_parent? hfolder, hp]
  -- Both folders lose the last component, and the dot before a relative path is none of its own.
  have hfront : (Path.pieces folder).filterMap Path.componentOf = front := by
    have hfolderComponents : folder.components = p.lead ++ front :=
      List.append_inj_left' (hd.symm.trans hcomponents) rfl
    have hc : c ≠ .here := by
      rintro rfl
      exact Path.here_notMem_filterMap (Path.pieces p)
        (hconcat ▸ List.mem_append_right front List.mem_cons_self)
    have hown := Path.filter_components hp
    rw [hconcat, hcomponents, List.filter_append, ← hfolderComponents,
      Path.filter_components hrelative] at hown
    simpa [hc] using hown
  refine ⟨folder, folder', hfolder, hrelative, hfolder', ?_⟩
  rw [hfront]
  exact (List.append_inj_left' (hjoin.symm.trans hd') rfl).symm

/-- The folders of a path that begins at the working folder: those below it, and then those
above. -/
theorem map_components_ancestors_of_cwd {folder : Path} {cs : List Path.Component}
    (h : folder.components = .root :: (s.cwd.map .name ++ cs)) :
    folder.ancestors.map Path.components
      = (cs.inits.map fun ds => .root :: (s.cwd.map .name ++ ds)).reverse
        ++ s.cwdPath.ancestors.tail.map Path.components := by
  have habove : s.cwdPath.ancestors.tail.map Path.components
      = ((s.cwd.map Path.Component.name).inits.dropLast.map (.root :: ·)).reverse := by
    rw [List.map_tail, Path.map_components_ancestors, hs.components_cwdPath, List.tail_reverse,
      List.map_dropLast]
    rfl
  rw [Path.map_components_ancestors, h, habove, ← List.reverse_append]
  congr 1
  rw [Path.beginnings, Path.inits_append_eq, List.map_append, List.map_map]
  rfl

theorem map_components_join_ancestors {folder : Path} (hfolder : folder.isAbsolute = false) :
    (folder.ancestors.map s.cwdPath.join).map Path.components
      = (folder.components.inits.map (spelled s)).reverse := by
  rw [← List.map_reverse, ← Path.beginnings_of_relative hfolder, ← Path.map_components_ancestors,
    List.map_map, List.map_map]
  refine List.map_congr_left fun a ha => ?_
  have hrelative : a.isAbsolute = false := by rw [Path.isAbsolute_of_mem_ancestorsFrom ha, hfolder]
  rw [Function.comp_apply, Function.comp_apply, hs.components_cwdPath_join hrelative, spelled,
    Path.filter_components hrelative]

/-- What the folders below the working folder set, looked for from the root. -/
theorem overlayAlong_below {folder : Path} (hfolder : folder.isAbsolute = false) :
    overlayAlong s keep (((Path.pieces folder).filterMap Path.componentOf).inits.map
        fun ds => .root :: (s.cwd.map .name ++ ds)).reverse
      = Overlay.first ((folder.ancestors.filter fun a => keep (s.cwdPath.join a).components).map
        (overlayIn s)) := by
  have hright : Overlay.first
    ((folder.ancestors.filter fun a => keep (s.cwdPath.join a).components).map (overlayIn s))
      = overlayAlong s keep (folder.components.inits.map (spelled s)).reverse := by
    rw [← map_components_join_ancestors hs hfolder, ← first_map_overlayIn, List.filter_map,
      List.map_map]
    congr 1
    refine List.map_congr_left fun a ha => ?_
    have hrelative : a.isAbsolute = false := by
      rw [Path.isAbsolute_of_mem_ancestorsFrom (List.mem_of_mem_filter ha), hfolder]
    exact (overlayIn_cwdPath_join hs hrelative).symm
  have hplain : ((Path.pieces folder).filterMap Path.componentOf).inits.map (spelled s)
      = ((Path.pieces folder).filterMap Path.componentOf).inits.map fun ds =>
      .root :: (s.cwd.map .name ++ ds) := by
    refine List.map_congr_left fun ds hds => ?_
    have hkeep : ds.filter (· ≠ .here) = ds := by
      refine List.filter_eq_self.mpr fun c hc => decide_eq_true ?_
      rintro rfl
      exact Path.here_notMem_filterMap _ (((List.mem_inits _ _).mp hds).subset hc)
    rw [spelled, hkeep]
  rw [hright, ← hplain, Path.components_eq folder]
  rcases Path.lead_of_relative hfolder with hlead | hlead
  · rw [hlead, List.nil_append]
  · -- The working folder is then listed twice, with the dot and without.
    rw [hlead, List.singleton_append, List.inits_cons, List.map_cons, List.map_map,
      List.reverse_cons]
    have hrest : ∃ rest, ((Path.pieces folder).filterMap Path.componentOf).inits = [] :: rest := by
      cases (Path.pieces folder).filterMap Path.componentOf <;> simp
    obtain ⟨rest, hrest⟩ := hrest
    have hdot : (spelled s ∘ fun ds => .here :: ds) = spelled s := by
      funext ds
      simp [spelled]
    rw [hdot, hrest, List.map_cons, List.reverse_cons, overlayAlong_append, overlayAlong_append,
      overlayAlong_append, Overlay.or_assoc, Overlay.or_self]

/-- What the folders of a file set, looked for from the root: first those down from the working
folder, as they are found in the other spelling too, and then those above it. -/
theorem first_ancestors_of_cwd {folder folder' : Path} (hfolder : folder.isAbsolute = false)
    (hfolder' : folder'.components
      = .root :: (s.cwd.map .name ++ (Path.pieces folder).filterMap Path.componentOf)) :
    Overlay.first ((folder'.ancestors.filter fun a => keep a.components).map (overlayIn s))
      = (Overlay.first ((folder.ancestors.filter fun a => keep (s.cwdPath.join a).components).map
        (overlayIn s))).or
        (Overlay.first ((s.cwdPath.ancestors.tail.filter fun a => keep a.components).map
          (overlayIn s))) := by
  rw [first_map_overlayIn, map_components_ancestors_of_cwd hs hfolder', overlayAlong_append,
    overlayAlong_below keep hs hfolder, ← first_map_overlayIn]

/-- The settings of a file that is written from the working folder on and of the same file written
from the root. The first come from the folders down from the working folder; the second, where those
leave a setting open, also from the folders above it. So they are the same if no folder above sets
anything and the home folder is not nearer than others. -/
theorem discovered_cwdPath_join {p : Path} (hp : p.isAbsolute = false) (hfile : s.isFile p) :
    ∃ folder, p.parent? = some folder ∧
      discovered s p = ({} : Settings).overlay
        (Overlay.first
          ((folder.ancestors.filter (!isHome s ·) ++ s.home.toList).map (overlayIn s))) ∧
      discovered s (s.cwdPath.join p) = ({} : Settings).overlay
        (Overlay.first ((folder.ancestors.filter (fun a => !isHome s (s.cwdPath.join a))
          ++ s.cwdPath.ancestors.tail.filter (!isHome s ·) ++ s.home.toList).map (overlayIn s))) ∧
      (HomeIsFarthest s p → HomeIsFarthest s (s.cwdPath.join p) →
        (∀ above ∈ s.cwdPath.ancestors.tail, isHome s above = true ∨ overlayIn s above = {}) →
        discovered s (s.cwdPath.join p) = discovered s p) := by
  obtain ⟨folder, folder', hfolder, hrelative, hfolder', hcomponents⟩ := exists_parent? hs hp hfile
  have hne : p ≠ [] := by
    rintro rfl
    exact Bool.false_ne_true hfile
  have hfile' : s.isFile (s.cwdPath.join p) := by
    rwa [System.isFile, Tree.locateFile?, hs.locate?_cwdPath_join hp hne]
  have hfolders := folders_of_parent? hfile hfolder
  have hfolders' := folders_of_parent? hfile' hfolder'
  refine ⟨folder, hfolder, ?_, ?_, ?_⟩
  · rw [discovered_eq, hfolders]
  · have hsplit := first_ancestors_of_cwd (fun cs => !s.home.any fun home => cs == home.components)
      hs hrelative hcomponents
    simp only [← isHome_eq] at hsplit
    rw [discovered_eq, hfolders', List.map_append, Overlay.first_append, hsplit, List.map_append,
      List.map_append, Overlay.first_append, Overlay.first_append]
  · intro hnear hfar habove
    have hsplit := first_ancestors_of_cwd (fun _ => true) hs hrelative hcomponents
    simp only [List.filter_true] at hsplit
    rw [discovered_of_homeIsFarthest s _ hfar, discovered_of_homeIsFarthest s _ hnear, hfolders,
      hfolders', List.map_append, List.map_append, Overlay.first_append, Overlay.first_append,
      hsplit, Overlay.or_assoc, first_or_home habove]

end Spelling

def besideFiles : List (Location × Text) :=
  [(["app".toList, fileName], "line_width = 60\n".toList), (["app".toList, "x.erb".toList], [])]

theorem discovered_cwdPath_join_beside :
    discovered (systemWith besideFiles ["app".toList] (some ['/'])) "/app/x.erb".toList
        = discovered (systemWith besideFiles ["app".toList] (some ['/'])) "x.erb".toList ∧
      discovered (systemWith besideFiles ["app".toList] (some ['/'])) "x.erb".toList =
        { lineWidth := 60 } := by
  have hplaced : (systemWith besideFiles ["app".toList] (some ['/'])).IsPlaced :=
    ⟨by decide +kernel, by decide +kernel, by decide +kernel⟩
  obtain ⟨-, -, -, -, hsame⟩ := discovered_cwdPath_join hplaced (p := "x.erb".toList) (by decide)
    (by decide +kernel)
  have hnear : HomeIsFarthest (systemWith besideFiles ["app".toList] (some ['/']))
      "x.erb".toList := by
    unfold HomeIsFarthest
    decide +kernel
  have hfar : HomeIsFarthest (systemWith besideFiles ["app".toList] (some ['/']))
      "/app/x.erb".toList := by
    unfold HomeIsFarthest
    decide +kernel
  exact ⟨hsame hnear hfar (by decide +kernel), by decide +kernel⟩

/-- A settings file above the working folder is found for the path from the root only. -/
theorem discovered_misses_above :
    let s := systemWith [([fileName], "line_width = 100\n".toList),
      (["app".toList, "x.erb".toList], [])]
      ["app".toList] none
    discovered s "x.erb".toList = {} ∧ discovered s (s.cwdPath.join "x.erb".toList) =
        { lineWidth := 100 } := by
  decide +kernel

end Settings

end ErbLayout
