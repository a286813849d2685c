import ErbLayout.IgnoreList
import ErbLayout.Settings.Toml
import ErbLayout.System

/-!
Settings files and where they are found: in the home folder, then from the root down to the folder
of a document. Later files overlay earlier ones, so the nearest wins.
-/

namespace ErbLayout

open Text

namespace Settings

def fileName : Text := "erbfmt.toml".toList

/-- The folder from which settings are looked for: that of the file, the folder itself, or for a
path that leads nowhere its parent, if that is a folder, and otherwise the working folder. -/
def startFolder? (s : System) (start : Path) : Option Path :=
  if s.isFile start then start.parent?
  else if s.isFolder start then some start
  else (start.parent?.filter s.isFolder).or (some s.cwdPath)

/-- The files found so far with one more, unless it is no file or among them. -/
def addFile (s : System) (found : List Path) (p : Path) : List Path :=
  if s.isFile p && !found.any (Path.same p) then found ++ [p] else found

/-- The settings files for a document, the nearest last. -/
def discover (s : System) (start : Path) : List Path :=
  let atHome := (s.home.map fun home => Path.join home fileName).toList.filter s.isFile
  let folders := ((startFolder? s start).map Path.ancestors).getD []
  folders.reverse.foldl (fun found folder => addFile s found (Path.join folder fileName)) atHome

inductive Loaded where
  | overlay (o : Overlay)
  | unreadable (fault : ReadFault)
  | invalid
  deriving DecidableEq, Repr

def load (s : System) (p : Path) : Loaded :=
  match s.readText p with
  | .error fault => .unreadable fault
  | .ok contents =>
    match Toml.read? contents with
    | some o => .overlay o
    | none => .invalid

/-- The overlay of a file; an unreadable one sets nothing. -/
def Loaded.toOverlay : Loaded → Overlay
  | .overlay o => o
  | _ => {}

def discovered (s : System) (start : Path) : Settings :=
  (discover s start).foldl (fun settings p => settings.overlay (load s p).toOverlay) {}

end Settings

def System.ignoreList (s : System) : IgnoreList :=
  let contents := (s.readText (Path.join s.cwdPath IgnoreList.fileName)).toOption.getD []
  IgnoreList.ofContents contents s.cwdPath

end ErbLayout
