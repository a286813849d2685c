import ErbLayout.Proofs.Tree
import ErbLayout.Settings.Discovery
import Mathlib.Data.List.Pairwise

/-!
Which settings a document gets from the settings files around it. The files are found in the home
folder and in the folders from the root, or from where a relative path begins, down to the document.
Overlaying them in that order gives each setting to the last file that sets it. The file of the home
folder always comes first, so it loses its place when the home folder lies on the way; and a
relative path leads to no folder above the working folder.
-/

namespace ErbLayout

open Text

section Overlays

/-- What some overlays set together: each setting comes from the first that sets it. -/
def Overlay.first (os : List Overlay) : Overlay where
  lineWidth := os.findSome? Overlay.lineWidth
  singleClassPerLine := os.findSome? Overlay.singleClassPerLine
  classOrder := os.findSome? Overlay.classOrder
  codeFormatter := os.findSome? Overlay.codeFormatter

def Overlay.or (o o' : Overlay) : Overlay where
  lineWidth := o.lineWidth.or o'.lineWidth
  singleClassPerLine := o.singleClassPerLine.or o'.singleClassPerLine
  classOrder := o.classOrder.or o'.classOrder
  codeFormatter := o.codeFormatter.or o'.codeFormatter

namespace Overlay

@[simp] theorem empty_or (o : Overlay) : Overlay.or {} o = o := rfl

@[simp] theorem or_empty (o : Overlay) : o.or {} = o := by simp [Overlay.or]

@[simp] theorem or_self (o : Overlay) : o.or o = o := by simp [Overlay.or]

theorem or_assoc (a b c : Overlay) : (a.or b).or c = a.or (b.or c) := by
  simp [Overlay.or, Option.or_assoc]

@[simp] theorem first_nil : first [] = {} := rfl

theorem first_cons (o : Overlay) (os : List Overlay) : first (o :: os) = o.or (first os) := by
  simp only [first, Overlay.or, List.findSome?_cons, Overlay.mk.injEq]
  refine ⟨?_, ?_, ?_, ?_⟩ <;> split <;> simp [*]

theorem first_singleton (o : Overlay) : first [o] = o := by rw [first_cons, first_nil, or_empty]

theorem first_append (os os' : List Overlay) : first (os ++ os') = (first os).or (first os') := by
  induction os with
  | nil => rfl
  | cons o os ih => rw [List.cons_append, first_cons, first_cons, ih, or_assoc]

/-- Overlays that set nothing may go. -/
theorem first_map_filter {α : Type} {keep : α → Bool} {f : α → Overlay} {xs : List α}
    (h : ∀ x ∈ xs, keep x = false → f x = {}) :
    first ((xs.filter keep).map f) = first (xs.map f) := by
  induction xs with
  | nil => rfl
  | cons x xs ih =>
    have htail := ih fun y hy => h y (List.mem_cons_of_mem _ hy)
    cases hx : keep x with
    | true =>
      rw [List.filter_cons_of_pos hx, List.map_cons, List.map_cons, first_cons, first_cons, htail]
    | false =>
      rw [List.filter_cons_of_neg (by simp [hx]), List.map_cons, first_cons,
        h x List.mem_cons_self hx, htail, empty_or]

theorem first_or_of_forall {os : List Overlay} {o : Overlay} (h : ∀ o' ∈ os, o' = {} ∨ o' = o) :
    (first os).or o = o := by
  induction os with
  | nil => rfl
  | cons o' os ih =>
    rw [first_cons, or_assoc, ih fun o' ho' => h o' (List.mem_cons_of_mem _ ho')]
    rcases h o' List.mem_cons_self with rfl | rfl
    · rfl
    · exact or_self o'

/-- An overlay that comes last anyway may go from where nothing else follows it. -/
theorem first_filter_or {α : Type} {drop : α → Bool} {f : α → Overlay} {xs : List α} {o : Overlay}
    (hdrop : ∀ x ∈ xs, drop x = true → f x = o)
    (hxs : xs.Pairwise fun x y => drop x = true → f y = {} ∨ f y = o) :
    (first ((xs.filter (!drop ·)).map f)).or o = (first (xs.map f)).or o := by
  induction xs with
  | nil => rfl
  | cons x xs ih =>
    obtain ⟨hx, hxs⟩ := List.pairwise_cons.mp hxs
    cases hd : drop x with
    | true =>
      have hrest : ∀ y ∈ xs, f y = {} ∨ f y = o := fun y hy => hx y hy hd
      have hall : ∀ o' ∈ (x :: xs).map f, o' = {} ∨ o' = o := by
        intro o' ho'
        obtain ⟨y, hy, rfl⟩ := List.mem_map.mp ho'
        rcases List.mem_cons.mp hy with rfl | hy
        · exact Or.inr (hdrop y List.mem_cons_self hd)
        · exact hrest y hy
      have hkept : ∀ o' ∈ ((x :: xs).filter (!drop ·)).map f, o' = {} ∨ o' = o :=
        fun o' ho' => hall o' (List.map_subset f (List.filter_subset_self _) ho')
      rw [first_or_of_forall hall, first_or_of_forall hkept]
    | false =>
      rw [List.filter_cons_of_pos (by simp [hd]), List.map_cons, List.map_cons, first_cons,
        first_cons, or_assoc, or_assoc, ih (fun y hy => hdrop y (List.mem_cons_of_mem _ hy)) hxs]

end Overlay

theorem Settings.overlay_or (s : Settings) (o o' : Overlay) :
    s.overlay (o.or o') = (s.overlay o').overlay o := by
  simp only [Settings.overlay, Overlay.or, Settings.mk.injEq, Option.or_assoc, and_true]
  refine ⟨?_, ?_, ?_⟩ <;> exact Option.getD_or

/-- Of overlays that are laid one over the other, the last that sets a setting counts. -/
theorem Settings.foldl_overlay (s : Settings) (os : List Overlay) :
    os.foldl Settings.overlay s = s.overlay (Overlay.first os.reverse) := by
  induction os generalizing s with
  | nil => exact s.overlay_empty.symm
  | cons o os ih =>
    rw [List.foldl_cons, ih, List.reverse_cons, Overlay.first_append, Overlay.first_singleton,
      Settings.overlay_or]

end Overlays

namespace Settings

section Files

variable (s : System)

def fileIn (folder : Path) : Path := Path.join folder fileName

/-- What the settings file of a folder sets; where there is none, nothing. -/
def overlayIn (folder : Path) : Overlay := (load s (fileIn folder)).toOverlay

def isHome (folder : Path) : Bool := s.home.any fun home => Path.same (fileIn folder) (fileIn home)

def folders (start : Path) : List Path := ((startFolder? s start).map Path.ancestors).getD []

theorem components_fileIn (folder : Path) :
    (fileIn folder).components = folder.components ++ [.name fileName] :=
  Path.components_join_name folder (by decide) (by decide)

theorem same_fileIn (a b : Path) :
    Path.same (fileIn a) (fileIn b) = (a.components == b.components) := by
  rw [Path.same, components_fileIn, components_fileIn, Bool.eq_iff_iff, beq_iff_eq, beq_iff_eq]
  exact List.append_left_inj _

theorem isHome_eq (folder : Path) :
    isHome s folder = s.home.any fun home => folder.components == home.components := by
  simp only [isHome, same_fileIn]

def locationIn (cs : List Path.Component) : Option Location :=
  s.tree.follow (if cs.head? = some .root then [] else s.cwd)
    (cs.filterMap Path.Component.piece? ++ [fileName])

theorem locate?_fileIn (folder : Path) :
    s.tree.locate? s.cwd (fileIn folder) = locationIn s folder.components := by
  obtain ⟨ps, hpieces, hps, hlead⟩ := Path.exists_pieces_join_name folder (n := fileName)
    (by decide) (by decide)
  have hne : fileIn folder ≠ [] := by
    intro hnil
    have hcomponents := components_fileIn folder
    simp [hnil, Path.components_nil] at hcomponents
  have hsteps : folder.components.filterMap Path.Component.piece? = ps.filter (!Path.isIdle ·) := by
    rw [Path.components_eq, List.filterMap_append, Path.filterMap_piece?_lead, ← hps,
      Path.filterMap_piece?_filterMap_componentOf, List.nil_append]
  have habs : (fileIn folder).isAbsolute = true ↔ folder.components.head? = some .root := by
    rw [Path.isAbsolute_iff, components_fileIn]
    cases folder.components <;> simp
  rw [Tree.locate?, if_neg (by simpa using hne), locationIn, hsteps, Tree.follow_filter_concat,
    ← hpieces]
  simp only [habs]
  rfl

def overlayAt (cs : List Path.Component) : Overlay :=
  ((((locationIn s cs).filter s.tree.isFile).bind fun l => (s.textAt l).toOption).bind
    Toml.read?).getD {}

theorem overlayIn_eq (folder : Path) : overlayIn s folder = overlayAt s folder.components := by
  unfold overlayIn overlayAt load System.readText Tree.locateFile?
  rw [locate?_fileIn]
  cases (locationIn s folder.components).filter s.tree.isFile with
  | none => rfl
  | some l =>
    dsimp only [Option.bind_some]
    cases s.textAt l with
    | error fault => rfl
    | ok contents =>
      simp only [Except.toOption, Option.bind_some]
      cases Toml.read? contents <;> rfl

theorem isFile_fileIn (folder : Path) :
    s.isFile (fileIn folder) = ((locationIn s folder.components).filter s.tree.isFile).isSome := by
  rw [System.isFile, Tree.locateFile?, locate?_fileIn]

theorem overlayIn_of_not_isFile {folder : Path} (h : s.isFile (fileIn folder) = false) :
    overlayIn s folder = {} := by
  rw [isFile_fileIn, Option.isSome_eq_false_iff, Option.isNone_iff_eq_none] at h
  rw [overlayIn_eq, overlayAt, h]
  rfl

end Files

section Finding

variable (s : System) (start : Path)

/-- The folders have fewer and fewer components. -/
theorem pairwise_folders :
    (folders s start).Pairwise fun a b => b.components.length < a.components.length := by
  unfold folders
  cases startFolder? s start with
  | none => exact List.Pairwise.nil
  | some folder => exact Path.pairwise_ancestors folder

theorem foldl_addFile {ps : List Path} (hps : ps.Pairwise fun p q => Path.same q p = false)
    (found : List Path) :
    ps.foldl (addFile s) found = found ++ ps.filter fun p => s.isFile p &&
      !found.any (Path.same p) := by
  induction ps generalizing found with
  | nil => simp
  | cons p ps ih =>
    obtain ⟨hp, hps⟩ := List.pairwise_cons.mp hps
    rw [List.foldl_cons, ih hps, addFile]
    split
    next hadd =>
      rw [List.filter_cons, if_pos hadd, List.append_assoc, List.singleton_append]
      congr 2
      refine List.filter_congr fun q hq => ?_
      simp [hp q hq]
    next hadd => rw [List.filter_cons, if_neg hadd]

/-- The files that are found: that of the home folder, and then those of the other folders, the
nearest last. -/
theorem discover_eq : discover s start =
    (s.home.toList.map fileIn).filter s.isFile
      ++ (((folders s start).filter (!isHome s ·)).reverse.map fileIn).filter s.isFile := by
  have hpairwise : ((folders s start).reverse.map fileIn).Pairwise fun p q =>
      Path.same q p = false := by
    rw [List.pairwise_map, List.pairwise_reverse]
    refine (pairwise_folders s start).imp fun {a b} hlt => ?_
    rw [same_fileIn, beq_eq_false_iff_ne]
    intro heq
    rw [heq] at hlt
    omega
  have hdiscover : discover s start
      = ((folders s start).reverse.map fileIn).foldl (addFile s)
      ((s.home.toList.map fileIn).filter s.isFile) := by
    rw [List.foldl_map, discover]
    cases s.home <;> rfl
  rw [hdiscover, foldl_addFile s hpairwise, List.filter_map, List.filter_map, List.filter_map,
    ← List.filter_reverse, List.filter_filter]
  congr 2
  refine List.filter_congr fun folder _ => ?_
  -- A folder with the components of the home folder holds a settings file when that one does.
  simp only [Function.comp, isHome]
  cases s.home with
  | none => simp
  | some home =>
    have hfile : Path.same (fileIn folder) (fileIn home) = true →
        s.isFile (fileIn folder) = s.isFile (fileIn home) := by
      intro hsame
      rw [same_fileIn, beq_iff_eq] at hsame
      rw [isFile_fileIn, isFile_fileIn, hsame]
    cases hsame : Path.same (fileIn folder) (fileIn home) with
    | true =>
      rw [hfile hsame]
      cases hhome : s.isFile (fileIn home) <;> simp [hsame, hhome]
    | false => cases hhome : s.isFile (fileIn home) <;> simp [hsame, hhome]

/-- The settings that are found: each comes from the nearest folder that sets it, but the home
folder comes last. -/
theorem discovered_eq : discovered s start =
    ({} : Settings).overlay
      (Overlay.first (((folders s start).filter (!isHome s ·) ++ s.home.toList).map
        (overlayIn s))) := by
  have hdiscovered : discovered s start
      = ((discover s start).map fun p => (load s p).toOverlay).foldl Settings.overlay {} := by
    rw [List.foldl_map]
    rfl
  have hfound : ∀ l : List Path,
      Overlay.first (((l.map fileIn).filter s.isFile).map fun p => (load s p).toOverlay).reverse
        = Overlay.first (l.reverse.map (overlayIn s)) := by
    intro l
    rw [List.filter_map, List.map_map, ← List.map_reverse, ← List.filter_reverse]
    exact Overlay.first_map_filter fun folder _ hnot => overlayIn_of_not_isFile s hnot
  have hhome : s.home.toList.reverse = s.home.toList := by cases s.home <;> rfl
  rw [hdiscovered, Settings.foldl_overlay, discover_eq, List.map_append, List.reverse_append,
    Overlay.first_append, hfound, hfound, List.reverse_reverse, hhome, List.map_append,
    Overlay.first_append]

end Finding

section Nearness

variable (s : System) (start : Path)

def isOnWay (file : Path) : Bool :=
  (folders s start).any fun folder => Path.same file (fileIn folder)

/-- If the settings file of the home folder lies on the way, none on the way is farther from the
document. -/
def HomeIsFarthest : Prop :=
  ∀ home ∈ s.home, s.isFile (fileIn home) → isOnWay s start (fileIn home) →
    ∀ folder ∈ folders s start, s.isFile (fileIn folder) →
    home.components.length ≤ folder.components.length

theorem length_components_fileIn (folder : Path) :
    (fileIn folder).components.length = folder.components.length + 1 := by
  rw [components_fileIn, List.length_append, List.length_singleton]

theorem isOnWay_fileIn {folder : Path} (h : folder ∈ folders s start) :
    isOnWay s start (fileIn folder) :=
  List.any_eq_true.mpr ⟨folder, h, by simp [same_fileIn]⟩

/-- Of two folders on the way with as many components, there is only one. -/
theorem eq_of_length_components {a b : Path} (ha : a ∈ folders s start) (hb : b ∈ folders s start)
    (h : a.components.length = b.components.length) : a = b := by
  by_contra hne
  have hpairwise : (folders s start).Pairwise fun a b =>
      a.components.length ≠ b.components.length :=
    (pairwise_folders s start).imp fun hlt => by omega
  have : Std.Symm fun a b : Path => a.components.length ≠ b.components.length :=
    ⟨fun _ _ => Ne.symm⟩
  exact hpairwise.forall ha hb hne h

theorem mem_homeOnWay_iff (file : Path) :
    file ∈ ((s.home.toList.map fileIn).filter s.isFile).filter (isOnWay s start)
      ↔ ∃ home ∈ s.home, s.isFile (fileIn home) ∧ isOnWay s start (fileIn home) ∧
        file = fileIn home := by
  simp only [List.mem_filter, List.mem_map, Option.mem_toList]
  constructor
  · rintro ⟨⟨⟨home, hhome, rfl⟩, hfile⟩, hon⟩
    exact ⟨home, hhome, hfile, hon, rfl⟩
  · rintro ⟨home, hhome, hfile, hon, rfl⟩
    exact ⟨⟨⟨home, hhome, rfl⟩, hfile⟩, hon⟩

theorem mem_filesOnWay_iff (file : Path) :
    file ∈ ((((folders s start).filter (!isHome s ·)).reverse.map fileIn).filter s.isFile).filter
      (isOnWay s start)
      ↔ ∃ folder ∈ folders s start, isHome s folder = false ∧ s.isFile (fileIn folder) ∧
        file = fileIn folder := by
  simp only [List.mem_filter, List.mem_map, List.mem_reverse, Bool.not_eq_true']
  constructor
  · rintro ⟨⟨⟨folder, ⟨hfolder, hhome⟩, rfl⟩, hfile⟩, -⟩
    exact ⟨folder, hfolder, hhome, hfile, rfl⟩
  · rintro ⟨folder, hfolder, hhome, hfile, rfl⟩
    exact ⟨⟨⟨folder, ⟨hfolder, hhome⟩, rfl⟩, hfile⟩, isOnWay_fileIn s start hfolder⟩

/-- The files on the way are found from the farthest to the nearest exactly when the home folder is
no exception. -/
theorem pairwise_discover_iff :
    ((discover s start).filter (isOnWay s start)).Pairwise
      (fun f g => f.components.length < g.components.length)
      ↔ HomeIsFarthest s start := by
  have hway : ((((folders s start).filter (!isHome s ·)).reverse.map fileIn).filter
    s.isFile |>.filter
      (isOnWay s start)).Pairwise fun f g => f.components.length < g.components.length := by
    refine List.Pairwise.filter _ (List.Pairwise.filter _ ?_)
    rw [List.pairwise_map, List.pairwise_reverse]
    refine ((pairwise_folders s start).filter _).imp fun hlt => ?_
    simpa only [length_components_fileIn, Nat.add_lt_add_iff_right] using hlt
  have hhome : (((s.home.toList.map fileIn).filter s.isFile).filter (isOnWay s start)).Pairwise
      fun f g => f.components.length < g.components.length := by
    refine List.Pairwise.filter _ (List.Pairwise.filter _ ?_)
    cases s.home <;> simp
  rw [discover_eq, List.filter_append, List.pairwise_append]
  simp only [mem_homeOnWay_iff, mem_filesOnWay_iff]
  constructor
  · rintro ⟨-, -, hlt⟩ home hmem hfile hon folder hfolder hfile'
    cases hsame : isHome s folder with
    | true =>
      rw [isHome_eq, Option.mem_def.mp hmem, Option.any_some, beq_iff_eq] at hsame
      rw [hsame]
    | false =>
      have hlt := hlt _ ⟨home, hmem, hfile, hon, rfl⟩ _ ⟨folder, hfolder, hsame, hfile', rfl⟩
      rw [length_components_fileIn, length_components_fileIn] at hlt
      omega
  · rintro h
    refine ⟨hhome, hway, ?_⟩
    rintro f ⟨home, hmem, hfile, hon, rfl⟩ g ⟨folder, hfolder, hnot, hfile', rfl⟩
    have hle := h home hmem hfile hon folder hfolder hfile'
    -- With as many components the folder would be the home folder.
    have hne : home.components.length ≠ folder.components.length := by
      intro heq
      obtain ⟨folder', hfolder', hsame⟩ := List.any_eq_true.mp hon
      rw [same_fileIn, beq_iff_eq] at hsame
      obtain rfl := eq_of_length_components s start hfolder hfolder' (by rw [← heq, hsame])
      rw [isHome_eq, Option.mem_def.mp hmem, Option.any_some, hsame] at hnot
      simp at hnot
    rw [length_components_fileIn, length_components_fileIn]
    omega

theorem discovered_of_homeIsFarthest (h : HomeIsFarthest s start) :
    discovered s start
      = ({} : Settings).overlay (Overlay.first
        ((folders s start ++ s.home.toList).map (overlayIn s))) := by
  rw [discovered_eq]
  congr 1
  rw [List.map_append, List.map_append, Overlay.first_append, Overlay.first_append]
  cases hhome : s.home with
  | none =>
    have hnot : ∀ folder ∈ folders s start, (!isHome s folder) = true := fun folder _ => by
      simp [isHome, hhome]
    rw [List.filter_eq_self.mpr hnot]
  | some home =>
    have hsame : ∀ folder, isHome s folder = true → folder.components = home.components := by
      intro folder hfolder
      rwa [isHome_eq, hhome, Option.any_some, beq_iff_eq] at hfolder
    have hoverlay : ∀ folder ∈ folders s start, isHome s folder = true →
        overlayIn s folder = overlayIn s home := by
      intro folder _ hfolder
      rw [overlayIn_eq, overlayIn_eq, hsame folder hfolder]
    rw [Option.toList_some, List.map_singleton, Overlay.first_singleton]
    cases hfile : s.isFile (fileIn home) with
    | true =>
      refine Overlay.first_filter_or hoverlay ?_
      refine (pairwise_folders s start).imp_of_mem fun {near far} hnear hfar hlt hhomeNear
        => Or.inl ?_
      refine overlayIn_of_not_isFile s (Bool.eq_false_iff.mpr fun hfarFile => ?_)
      have hon : isOnWay s start (fileIn home) :=
        List.any_eq_true.mpr ⟨near, hnear, by simp [same_fileIn, hsame near hhomeNear]⟩
      have hle := h home hhome hfile hon far hfar hfarFile
      rw [hsame near hhomeNear] at hlt
      omega
    | false =>
      have hempty : overlayIn s home = {} := overlayIn_of_not_isFile s hfile
      rw [Overlay.first_map_filter fun folder hfolder hdrop => ?_]
      rw [hoverlay folder hfolder (by simpa using hdrop), hempty]

/-- The settings files on the way are found from the farthest to the nearest exactly when that of
the home folder is not nearer than another; then each setting comes from the nearest folder that
sets it, and from the home folder last. -/
theorem discover_nearest_last_iff :
    (((discover s start).filter (isOnWay s start)).Pairwise
      (fun f g => f.components.length < g.components.length)
        ↔ HomeIsFarthest s start)
      ∧ discovered s start = ({} : Settings).overlay
        (Overlay.first (((folders s start).filter (!isHome s ·) ++ s.home.toList).map
          (overlayIn s)))
      ∧ (HomeIsFarthest s start → discovered s start
        = ({} : Settings).overlay (Overlay.first
          ((folders s start ++ s.home.toList).map (overlayIn s)))) :=
  ⟨pairwise_discover_iff s start, discovered_eq s start, discovered_of_homeIsFarthest s start⟩

end Nearness

def systemWith (files : List (Location × Text)) (cwd : Location) (home : Option Path) :
    System where
  tree := { files := files.map fun (l, contents) => (l, encode contents) }
  cwd := cwd
  home := home
  programs := fun _ _ _ => .error .missing

def nestedFiles : List (Location × Text) :=
  [([fileName], "line_width = 100\n".toList),
    (["app".toList, fileName], "line_width = 60\n".toList),
    (["app".toList, "x.erb".toList], [])]

theorem discover_nearest_last_iff_rootHome :
    HomeIsFarthest (systemWith nestedFiles [] (some ['/'])) "/app/x.erb".toList ∧
      discovered (systemWith nestedFiles [] (some ['/'])) "/app/x.erb".toList
        = ({} : Settings).overlay (Overlay.first
          ((folders (systemWith nestedFiles [] (some ['/'])) "/app/x.erb".toList
            ++ [['/']]).map (overlayIn (systemWith nestedFiles [] (some ['/']))))) ∧
      discovered (systemWith nestedFiles [] (some ['/'])) "/app/x.erb".toList =
        { lineWidth := 60 } := by
  have hfarthest : HomeIsFarthest (systemWith nestedFiles [] (some ['/'])) "/app/x.erb".toList := by
    unfold HomeIsFarthest
    decide +kernel
  exact ⟨hfarthest, (discover_nearest_last_iff _ _).2.2 hfarthest, by decide +kernel⟩

/-- When the home folder is that of the document, a settings file above it is found later and takes
the setting. -/
theorem discovered_nearest_loses :
    discover (systemWith nestedFiles [] (some "/app".toList)) "/app/x.erb".toList
        = ["/app/erbfmt.toml".toList, "/erbfmt.toml".toList] ∧
      discovered (systemWith nestedFiles [] (some "/app".toList)) "/app/x.erb".toList =
        { lineWidth := 100 } := by
  decide +kernel

end Settings

end ErbLayout
