import ErbLayout.Proofs.Session.Layouts
import ErbLayout.Proofs.Tree

/-!
The work on a file when other files have been rewritten. Where paths lead does not change, so the
settings files that are found are the same; and as long as these and the file itself have not been
rewritten, the settings, the layout and what is written are the same too.
-/

namespace ErbLayout

open Text

namespace System

variable (s : System) (new : Location → Option Bytes)

def rewritten : System := { s with tree := s.tree.rewrite new }

/-- There are no new contents of the file to which the path leads. -/
def Keeps (p : Path) : Prop := ∀ l ∈ s.tree.locateFile? s.cwd p, new l = none

@[simp] theorem isFile_rewritten : (s.rewritten new).isFile = s.isFile := by
  funext p
  exact congrArg Option.isSome (Tree.locateFile?_rewrite s.tree new s.cwd p)

@[simp] theorem isFolder_rewritten : (s.rewritten new).isFolder = s.isFolder := by
  funext p
  exact congrArg Option.isSome (Tree.locateFolder?_rewrite s.tree new s.cwd p)

variable {s new}

theorem size?_rewritten {p : Path} (h : s.Keeps new p) :
    (s.rewritten new).size? p = s.size? p := by
  rw [size?, size?, isFolder_rewritten, rewritten, Tree.locateFile?_rewrite]
  cases hl : s.tree.locateFile? s.cwd p with
  | none => rfl
  | some l =>
    have hnone : new l = none := h l hl
    simp [Tree.contents?_rewrite, hnone]

theorem readText_rewritten {p : Path} (h : s.Keeps new p) :
    (s.rewritten new).readText p = s.readText p := by
  rw [readText, readText, isFolder_rewritten, rewritten, Tree.locateFile?_rewrite]
  cases hl : s.tree.locateFile? s.cwd p with
  | none => rfl
  | some l =>
    have hnone : new l = none := h l hl
    simp [textAt, Tree.contents?_rewrite, hnone]

theorem write_rewritten (l : Location) (contents : Bytes) :
    (s.rewritten new).write l contents
      = s.rewritten fun l' => if l' = l then some contents else new l' := by
  rw [write, rewritten, rewritten, Tree.write_rewrite]

end System

namespace Settings

variable {s : System} {new : Location → Option Bytes}

theorem discover_rewritten (start : Path) :
    discover (s.rewritten new) start = discover s start := by
  have hcwd : (s.rewritten new).cwdPath = s.cwdPath := rfl
  have hhome : (s.rewritten new).home = s.home := rfl
  simp only [discover, startFolder?, addFile, System.isFile_rewritten, System.isFolder_rewritten,
    hcwd, hhome]

theorem load_rewritten {p : Path} (h : s.Keeps new p) : load (s.rewritten new) p = load s p := by
  rw [load, load, System.readText_rewritten h]

theorem discovered_rewritten {start : Path} (h : ∀ f ∈ discover s start, s.Keeps new f) :
    discovered (s.rewritten new) start = discovered s start := by
  have hfold : ∀ s' : System, discovered s' start
      = ((discover s' start).map fun f => (load s' f).toOverlay).foldl Settings.overlay {} := by
    intro s'
    rw [List.foldl_map]
    rfl
  rw [hfold, hfold, discover_rewritten]
  congr 1
  exact List.map_congr_left fun f hf => by rw [load_rewritten (h f hf)]

end Settings

namespace Session

section Reading

variable (s : System) (a : Arguments) (ignore : IgnoreList) (common : Option Settings)

def settingsFiles (p : Path) : List Path :=
  match common, a.config with
  | some _, _ => []
  | none, some config => [config]
  | none, none => Settings.discover s p

def startSettings (p : Path) : Except Trouble Settings :=
  common.elim (settingsFor s a (some p)).result .ok

theorem result_work (p : Path) : (work s a ignore common p).result =
    match startSettings s a common p with
    | .ok settings => (workWith s a ignore p settings).result
    | .error t => .error t := by
  unfold work startSettings
  cases common with
  | some settings => rfl
  | none =>
    simp only [Option.elim_none]
    cases (settingsFor s a (some p)).result <;> rfl

theorem result_settingsFor (name : Option Path) : (settingsFor s a name).result =
    match (fileSettings s a name).result with
    | .error t => .error t
    | .ok base =>
      match (base.overlay (overlayOf a)).problem? with
      | some problem => .error (.invalid problem)
      | none => .ok (base.overlay (overlayOf a)) := by
  unfold settingsFor
  dsimp only
  cases (fileSettings s a name).result with
  | error t => rfl
  | ok base =>
    dsimp only
    cases (base.overlay (overlayOf a)).problem? <;> rfl

variable {s a common} {new : Location → Option Bytes}

theorem startSettings_rewritten {p : Path} (h : ∀ f ∈ settingsFiles s a common p, s.Keeps new f) :
    startSettings (s.rewritten new) a common p = startSettings s a common p := by
  cases hcommon : common with
  | some settings => rfl
  | none =>
    rw [hcommon] at h
    have hfiles : (fileSettings (s.rewritten new) a (some p)).result =
        (fileSettings s a (some p)).result := by
      unfold fileSettings
      unfold settingsFiles at h
      cases hconfig : a.config with
      | some config =>
        simp only [hconfig, List.mem_singleton, forall_eq] at h
        simp only [Settings.load_rewritten h]
      | none =>
        simp only [hconfig] at h
        exact congrArg Except.ok (Settings.discovered_rewritten h)
    simp only [startSettings, Option.elim_none, result_settingsFor, hfiles]

theorem workWith_rewritten {p : Path} (h : s.Keeps new p) (settings : Settings) :
    workWith (s.rewritten new) a ignore p settings = workWith s a ignore p settings := by
  rw [workWith, workWith, System.size?_rewritten h, System.readText_rewritten h]
  rfl

end Reading

end Session

end ErbLayout
