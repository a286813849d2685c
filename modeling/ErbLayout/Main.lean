import ErbLayout.Filter.Basic
import ErbLayout.Session.Basic
import ErbLayout.Session.Usage

/-!
The command line. The files that a session can look at are read first, the session runs on them, and
what it changed is written back.
-/

namespace ErbLayout.Main

open Text

partial def readAll (stream : IO.FS.Stream) (before : ByteArray) : IO ByteArray := do
  let chunk ← stream.read 65536
  if chunk.isEmpty then return before else readAll stream (before ++ chunk)

def locationOf? (p : Path) : IO (Option Location) := do
  let here ← IO.currentDir
  try return some (Path.names (← IO.FS.realPath (here / String.ofList p)).toString.toList)
  catch _ => return none

/-- What has been looked at so far: the tree, and the files that could not be read. -/
structure Found where
  tree : Tree := {}
  refused : List (Location × Text) := []

def addPath (found : Found) (p : Path) : IO Found := do
  let here ← IO.currentDir
  let onDisk := here / String.ofList p
  let t := found.tree
  match ← locationOf? p with
  | none => return found
  | some l =>
    if ← onDisk.isDir then return { found with tree := { t with folders := l :: t.folders } }
    else if t.isFile l then return found
    else
      try
        let contents := (← IO.FS.readBinFile onDisk).toList
        return { found with tree := { t with files := (l, contents) :: t.files } }
      catch e =>
        return ⟨{ t with files := (l, []) :: t.files }, (l, e.toString.toList) :: found.refused⟩

def addDocument (found : Found) (p : Path) : IO Found := do
  let mut found := found
  for folder in p.ancestors do
    found ← addPath found folder
    found ← addPath found (Path.join folder Settings.fileName)
  return found

partial def addFolder (found : Found) (depth : Nat) (p : Path) : IO Found := do
  let here ← IO.currentDir
  let onDisk := here / String.ofList p
  let mut found ← addPath found p
  if depth == 0 || !(← onDisk.isDir) then return found
  for entry in ← onDisk.readDir do
    let child := Path.join p entry.fileName.toList
    if (← entry.path.isDir) then found ← addFolder found (depth - 1) child
    else if Session.isTemplate child || entry.fileName.toList == Settings.fileName then
      found ← addPath found child
  return found

def systemFor (a : Arguments) : IO System := do
  let cwd := (← locationOf? ['.']).getD []
  let home := (← IO.getEnv "HOME").map String.toList
  let here := Path.ofNames true cwd
  let mut found ← addDocument {} here
  found ← addPath found (Path.join here IgnoreList.fileName)
  for p in a.config.toList ++ home.toList.map fun h => Path.join h Settings.fileName do
    found ← addPath found p
  for p in a.stdinFilename.toList ++ a.inputs do
    found ← addDocument found p
  for p in a.inputs do
    found ← addFolder found (Session.depthOf a) p
  let interactive ← (← IO.getStdin).isTty
  let refused := found.refused
  return { tree := found.tree, cwd, home, programs := Filter.programs, interactive,
           unreadable? := fun l => List.lookup l refused }

def save (before after : Tree) : IO Nat := do
  let here ← IO.currentDir
  let mut failures := 0
  for (l, contents) in after.files do
    if before.contents? l != some contents then
      let name := String.ofList (Path.ofNames true l)
      try
        IO.FS.writeBinFile (here / name) ⟨contents.toArray⟩
      catch e =>
        IO.eprintln s!"Error formatting {name}: {e}"
        failures := failures + 1
  return failures

def runSession (a : Arguments) : IO UInt32 := do
  let s ← systemFor a
  let takesInput := a.readsStdin || a.inputs.isEmpty && !s.interactive
  let input ← if takesInput then readAll (← IO.getStdin) .empty else pure .empty
  let r := Session.run s a input.toList
  let logging : Session.Logging := if a.debug then .debug else .warnings
  (← IO.getStderr).putStr (String.ofList (Session.shownText logging r.said))
  (← IO.getStdout).write ⟨r.printed.toArray⟩
  let failures ← save s.tree r.system.tree
  return if failures = 0 then r.status.toUInt32 else 1

end ErbLayout.Main

def main (arguments : List String) : IO UInt32 := do
  match ErbLayout.Arguments.ofList (arguments.map String.toList) with
  | .ok a => ErbLayout.Main.runSession a
  | .error .help =>
    IO.print (String.ofList ErbLayout.Session.usage)
    return 0
  | .error .version =>
    IO.print (String.ofList ErbLayout.Session.versionLine)
    return 0
  | .error _ =>
    IO.eprintln "error: invalid arguments, see --help"
    return 2
