import ErbLayout.Proofs.Session.Rewriting
import Mathlib.Logic.Relation

/-!
Files that are worked on side by side. Each has a worker that reads the settings, reads the file and
writes it: the file is emptied and gets its new bytes, some at a time, until all of them are written
or the system takes no more. The steps of different workers may come in any order, and working on
one file after the other is one of the orders.
-/

namespace ErbLayout.Session

open Text

/-- How far the work on a file is. -/
inductive Stage where
  | waiting
  /-- The settings have been read. -/
  | settled (settings : Settings)
  /-- The file has been read and laid out. -/
  | treated (o : Outcome)
  /-- The file has been emptied and has got the first `count` of its new bytes. -/
  | writing (new : Bytes) (count : Nat)
  | finished
  | failed (t : Trouble)
  deriving DecidableEq

def Stage.isEnd : Stage → Bool
  | .finished | .failed _ => true
  | _ => false

def Stage.isFailed : Stage → Bool
  | .failed _ => true
  | _ => false

def endOf : Option Trouble → Stage
  | none => .finished
  | some t => .failed t

/-- The work on one of several files. -/
structure Worker where
  path : Path
  stage : Stage

/-- Files that are worked on side by side, and the system as the work so far has left it. -/
structure Crew where
  system : System
  workers : List Worker

namespace Crew

def start (s : System) (files : List Path) : Crew := ⟨s, files.map (⟨·, .waiting⟩)⟩

def failures (c : Crew) : Nat := c.workers.countP fun w => w.stage.isFailed

end Crew

section Steps

variable (a : Arguments) (ignore : IgnoreList) (common : Option Settings)

/-- A step of the work on the file at `p`. How many bytes are written at a time is left open. -/
inductive Advance (p : Path) : System × Stage → System × Stage → Prop
  | settle {s : System} {settings : Settings} (h : startSettings s a common p = .ok settings) :
      Advance p (s, .waiting) (s, .settled settings)
  | failToSettle {s : System} {t : Trouble} (h : startSettings s a common p = .error t) :
      Advance p (s, .waiting) (s, .failed t)
  | treat {s : System} {settings : Settings} {o : Outcome}
      (h : (workWith s a ignore p settings).result = .ok o) :
      Advance p (s, .settled settings) (s, .treated o)
  | failToTreat {s : System} {settings : Settings} {t : Trouble}
      (h : (workWith s a ignore p settings).result = .error t) :
      Advance p (s, .settled settings) (s, .failed t)
  | leave {s : System} {o : Outcome}
      (h : o.newContents = none ∨ s.tree.locateFile? s.cwd p = none) :
      Advance p (s, .treated o) (s, .finished)
  | failToOpen {s : System} {o : Outcome} {new : Bytes} {l : Location} {reason : Text}
      (hnew : o.newContents = some new) (hl : s.tree.locateFile? s.cwd p = some l)
      (hrefused : s.writing l new = .refused reason) :
      Advance p (s, .treated o) (s, .failed (.unwritable reason))
  | empty {s : System} {o : Outcome} {new : Bytes} {l : Location} {reach : Nat}
      (hnew : o.newContents = some new) (hl : s.tree.locateFile? s.cwd p = some l)
      (hreach : (s.writing l new).reach? = some reach) :
      Advance p (s, .treated o) (s.write l [], .writing new 0)
  | put {s : System} {new : Bytes} {l : Location} {count count' reach : Nat}
      (hl : s.tree.locateFile? s.cwd p = some l)
      (hreach : (s.writing l new).reach? = some reach) (hlt : count < count')
      (hle : count' ≤ reach) :
      Advance p (s, .writing new count) (s.write l (new.take count'), .writing new count')
  | close {s : System} {new : Bytes} {l : Location} {reach : Nat}
      (hl : s.tree.locateFile? s.cwd p = some l)
      (hreach : (s.writing l new).reach? = some reach) :
      Advance p (s, .writing new reach)
        (s, endOf ((s.writing l new).reason?.map .unwritable))

/-- A step of one of the workers, whichever it is. -/
inductive Crew.Step : Crew → Crew → Prop
  | mk {s s' : System} {p : Path} {stage stage' : Stage} (before after : List Worker)
      (h : Advance a ignore common p (s, stage) (s', stage')) :
      Crew.Step ⟨s, before ++ ⟨p, stage⟩ :: after⟩ ⟨s', before ++ ⟨p, stage'⟩ :: after⟩

abbrev Crew.Run : Crew → Crew → Prop := Relation.ReflTransGen (Crew.Step a ignore common)

end Steps

end ErbLayout.Session
