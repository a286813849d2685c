import ErbLayout.Arguments
import ErbLayout.Document
import ErbLayout.Session.Notice
import ErbLayout.Session.Usage

/-!
Sessions: what the formatter does for the arguments of a command line, as a function of where it
runs and what it reads. Settings come from the discovered files or an explicit one, then from the
command line, and are checked; a directive in the document comes last. A document on the ignore list
or with a directive that turns formatting off stays as it is, and so does one that cannot be laid
out.
-/

namespace ErbLayout.Session

open Text

inductive Trouble where
  | bothSources
  | unloadable (p : Path)
  | invalid (problem : Problem)
  | missing
  | unreadable (p : Path) (fault : ReadFault)
  | unreadableInput
  | inputTooLarge
  | layout (f : Failure)
  | unwritable (reason : Text)
  deriving DecidableEq, Repr

/-- A larger document is not read. -/
def maxSize : Nat := 100 * 1024 * 1024

def megabytes (size : Nat) : Text := Nat.toDigits 10 (size / (1024 * 1024)) ++ " MB".toList

def Trouble.message : Trouble → Text
  | .bothSources => "Can't read both stdin and a list of files".toList
  | .unloadable p => "failed to load config ".toList ++ p
  | .invalid problem => "Invalid configuration: ".toList ++ problem.message
  | .missing => ReadFault.missing.message
  | .unreadable p _ => "failed to read ".toList ++ p
  | .unreadableInput => ReadFault.notUtf8.message
  | .inputTooLarge =>
    "stdin input too large (exceeds limit of ".toList ++ megabytes maxSize ++ [')']
  | .layout f => f.message
  | .unwritable reason => reason

def Trouble.fullMessage (t : Trouble) : Text :=
  match t with
  | .unreadable _ fault => t.message ++ ':' :: ' ' :: fault.message
  | .layout f => t.message ++ ':' :: ' ' :: f.cause.message
  | _ => t.message

/-- A document that is laid out, and the settings that it is laid out with. -/
structure LaidDocument where
  settings : Settings
  name : Path
  contents : Text
  deriving DecidableEq, Repr

def LaidDocument.run (programs : Programs) (d : LaidDocument) : Run :=
  runDocument (d.settings.options programs d.name) d.contents

/-- A result, what is said on the way to it, and what is laid out. -/
structure Told (α : Type) where
  said : List Saying := []
  laid : List LaidDocument := []
  result : α

def noting {α : Type} (notices : List Notice) (result : α) : Told α :=
  { said := notices.map .notice, result }

def overlayOf (a : Arguments) : Overlay where
  lineWidth := a.lineWidth
  singleClassPerLine := a.singleClassPerLine
  codeFormatter := a.codeFormatter

def noticeOf (s : System) (p : Path) : Notice :=
  match Settings.load s p with
  | .overlay _ => .loadedSettings p
  | .unreadable fault => .unreadableSettings p fault
  | .invalid => .invalidSettings p

/-- The settings before those of the command line, for a document or, when there is no name, for the
working folder. -/
def fileSettings (s : System) (a : Arguments) (name : Option Path) :
    Told (Except Trouble Settings) :=
  match a.config with
  | some p =>
    match Settings.load s p with
    | .overlay o => noting [.explicitSettings p] (.ok (({} : Settings).overlay o))
    | _ => noting [.explicitSettings p] (.error (.unloadable p))
  | none =>
    let start := name.getD s.cwdPath
    let found := Settings.discover s start
    let notices := if found.isEmpty then [.noSettings start] else found.map .settingsFile
    noting (notices ++ found.map (noticeOf s)) (.ok (Settings.discovered s start))

/-- The settings for a document, without its own. -/
def settingsFor (s : System) (a : Arguments) (name : Option Path) :
    Told (Except Trouble Settings) :=
  let files := fileSettings s a name
  match files.result with
  | .error t => { said := files.said, result := .error t }
  | .ok base =>
    let settings := base.overlay (overlayOf a)
    let said := files.said ++ [.notice (.settings settings)]
    match settings.problem? with
    | some problem => { said, result := .error (.invalid problem) }
    | none => { said, result := .ok settings }

/-- What there is to say about a step of a layout: the step, and whether the command that formats
code gave nothing. -/
def eventNotices (s : System) (settings : Settings) (e : Event) : List Notice :=
  match e, settings.command? with
  | .codeIn code width, some c =>
    match c.run s.programs code width with
    | .error .missing => [.layout e, .commandMissing c.program]
    | .error (.failed status) => [.layout e, .commandFailed c.program status]
    | .ok _ => [.layout e]
  | _, _ => [.layout e]

/-- A document laid out with its settings and those of its directive, or nothing when it is to stay
as it is. -/
def treat (s : System) (ignore : IgnoreList) (settings : Settings) (name : Path) (contents : Text) :
    Told (Except Trouble (Option Text)) :=
  if ignore.holds name then noting [.ignored name] (.ok none)
  else
    let (directive, unknown) := Directive.find contents
    let notices := unknown.map .unknownOption ++ directive.toList.map (.directive · name)
    if directive.any Directive.disabled then noting (notices ++ [.disabled name]) (.ok none)
    else
      let settings := settings.overlay ((directive.map Directive.overlay).getD {})
      let d : LaidDocument := ⟨settings, name, contents⟩
      let run := d.run s.programs
      { said := (notices ++ run.events.flatMap (eventNotices s settings)).map .notice
        laid := [d]
        result := (run.result.mapError .layout).map some }

structure Outcome where
  printed : Bytes := []
  /-- The new contents, when the file is to change. -/
  newContents : Option Bytes := none
  deriving DecidableEq, Repr

/-- What is to come of a file with some contents once it has been treated: it is printed, or changed
in place. -/
def outcome (a : Arguments) (contents : Text) (treated : Option Text) : Outcome :=
  let new := encode (treated.getD contents)
  if a.write then { newContents := if new = encode contents then none else some new }
  else { printed := new }

def skippedLine (p : Path) (size : Nat) : Saying :=
  .line ("Skipping ".toList ++ p ++ " (".toList ++ megabytes size ++ " exceeds limit of ".toList
    ++ megabytes maxSize ++ [')'])

def workWith (s : System) (a : Arguments) (ignore : IgnoreList) (p : Path) (settings : Settings) :
    Told (Except Trouble Outcome) :=
  match s.size? p with
  | none => { result := .error .missing }
  | some size =>
    if maxSize < size then
      { said := if a.silent then [] else [skippedLine p size], result := .ok {} }
    else
      match s.readText p with
      | .error fault => { result := .error (.unreadable p fault) }
      | .ok contents =>
        let opening := if a.write && !a.silent then [.line ("Formatting: ".toList ++ p)] else []
        let told := treat s ignore settings p contents
        { said := opening ++ told.said
          laid := told.laid
          result := told.result.map (outcome a contents) }

def work (s : System) (a : Arguments) (ignore : IgnoreList) (common : Option Settings) (p : Path) :
    Told (Except Trouble Outcome) :=
  match common with
  | some settings => workWith s a ignore p settings
  | none =>
    let told := settingsFor s a (some p)
    match told.result with
    | .error t => { said := told.said, result := .error t }
    | .ok settings =>
      let rest := workWith s a ignore p settings
      { rest with said := told.said ++ rest.said }

/-- The system when a file has got its new contents, as far as the system lets it, and the reason
why it has not got all of them. -/
def commit (s : System) (p : Path) (o : Outcome) : System × Option Trouble :=
  match o.newContents, s.tree.locateFile? s.cwd p with
  | some new, some l =>
    let attempt := s.writing l new
    ((attempt.kept?.map (s.write l)).getD s, attempt.reason?.map .unwritable)
  | _, _ => (s, none)

def conclude (s : System) (p : Path) : Except Trouble Outcome → System × Option Trouble
  | .error t => (s, some t)
  | .ok o => commit s p o

structure Report where
  system : System
  said : List Saying := []
  laid : List LaidDocument := []
  printed : Bytes := []
  failures : Nat := 0

def failedLine (p : Path) (t : Trouble) : Saying :=
  .line ("Error formatting ".toList ++ p ++ ':' :: ' ' :: t.fullMessage)

def Report.addFile (a : Arguments) (ignore : IgnoreList) (common : Option Settings) (r : Report)
    (p : Path) : Report :=
  let told := work r.system a ignore common p
  let (system, trouble) := conclude r.system p told.result
  { system
    said := r.said ++ told.said ++ trouble.toList.map (failedLine p)
    laid := r.laid ++ told.laid
    printed := r.printed ++ (told.result.toOption.map Outcome.printed).getD []
    failures := r.failures + trouble.toList.length }

def Report.addFiles (a : Arguments) (ignore : IgnoreList) (common : Option Settings) (r : Report)
    (files : List Path) : Report :=
  files.foldl (Report.addFile a ignore common) r

def isTemplate (p : Path) : Bool := p.extension?.any fun ext => ext.map Char.toLower = "erb".toList

def isExcluded (globs : List Glob) (p : Path) : Bool :=
  globs.any fun g => g.fits p || p.components.any fun
    | .name n => g.fits n
    | _ => false

def depthOf (a : Arguments) : Nat := if a.recursive then 256 else 1

/-- The files of an input: itself, or the templates in it when it is a folder. -/
def filesOf (s : System) (a : Arguments) (globs : List Glob) (input : Path) : List Path :=
  if s.isFile input then [input].filter fun p => !isExcluded globs p
  else
    match s.tree.locateFolder? s.cwd input with
    | some folder =>
      (s.tree.walk (depthOf a) folder input).filter fun p => isTemplate p && !isExcluded globs p
    | none => []

def missingInput (s : System) (input : Path) : List Saying :=
  if s.isFile input || s.isFolder input then []
  else [.line ("No such file or directory: ".toList ++ input)]

def excludeNotice (pattern : Text) : List Saying :=
  match Glob.ofText pattern with
  | .ok _ => []
  | .error e => [.notice (.badExclude pattern e)]

def collect (s : System) (a : Arguments) : List Saying × List Path :=
  let globs := a.exclude.filterMap fun pattern => (Glob.ofText pattern).toOption
  (a.exclude.flatMap excludeNotice ++ a.inputs.flatMap (missingInput s),
    a.inputs.flatMap (filesOf s a globs))

def ignoreNotices (s : System) : List Notice :=
  let p := Path.join s.cwdPath IgnoreList.fileName
  match s.readText p with
  | .ok contents => (IgnoreList.faults contents s.cwdPath).map fun (line, e) => .badIgnore line e
  | .error .missing => []
  | .error fault => [.unreadableIgnore p fault]

def summary (count failures : Nat) : Saying :=
  let formatted := "Formatted ".toList ++ Nat.toDigits 10 (count - failures) ++ " files".toList
  if failures = 0 then .line (formatted ++ " successfully.".toList)
  else .line (formatted ++ [',', ' '] ++ Nat.toDigits 10 failures ++ " errors.".toList)

def Report.stop (r : Report) (t : Trouble) : Report :=
  { r with said := r.said ++ [.line ("Error: ".toList ++ t.message)], failures := r.failures + 1 }

/-- A session on the standard input, of which no more is read than it takes to see that it is too
large. -/
def onInput (r : Report) (a : Arguments) (ignore : IgnoreList) (input : Bytes) : Report :=
  let told := settingsFor r.system a a.stdinFilename
  let r := { r with said := r.said ++ told.said }
  let taken := input.take (maxSize + 1)
  match told.result, decode? taken with
  | .error t, _ => r.stop t
  | .ok _, none => r.stop .unreadableInput
  | .ok settings, some contents =>
    if maxSize < taken.length then r.stop .inputTooLarge
    else
      let told := treat r.system ignore settings (a.stdinFilename.getD ['-']) contents
      let r := { r with said := r.said ++ told.said, laid := r.laid ++ told.laid }
      match told.result with
      | .error t => r.stop t
      | .ok out => { r with printed := encode (out.getD contents) }

def onFiles (r : Report) (a : Arguments) (ignore : IgnoreList) (common : Option Settings) :
    Report :=
  let (said, files) := collect r.system a
  let r := { r with said := r.said ++ said }
  if files.isEmpty then
    if a.silent then r
    else { r with said := r.said ++ [.line "No ERB files found to format.".toList] }
  else
    let r := r.addFiles a ignore common files
    if a.write && a.jobs != some 1 && !a.silent then
      { r with said := r.said ++ [summary files.length r.failures] }
    else r

def run (s : System) (a : Arguments) (input : Bytes) : Report :=
  if a.readsStdin && !(a.inputs.isEmpty || a.isDash) then Report.stop { system := s } .bothSources
  else if s.interactive && a.inputs.isEmpty && !a.readsStdin then
    { system := s, printed := encode usage }
  else
    let ignore := s.ignoreList
    let r : Report := { system := s, said := (ignoreNotices s).map .notice }
    if a.readsStdin || a.inputs.isEmpty then onInput r a ignore input
    else if a.config.isNone then onFiles r a ignore none
    else
      let told := settingsFor s a none
      let r := { r with said := r.said ++ told.said }
      match told.result with
      | .error t => r.stop t
      | .ok settings => onFiles r a ignore (some settings)

def versionLine : Text := "erbfmt 0.1.0\n".toList

def Report.status (r : Report) : Nat := if r.failures = 0 then 0 else 1

end ErbLayout.Session
