import ErbLayout.Proofs.Session.Workers
import ErbLayout.Proofs.Text.Bytes

/-!
The order of the steps does not matter. When the files are apart from each other and from the
settings files, no worker sees what another writes: each is where it would be after as many steps
alone, and the system is as it was but for what the workers have written. So in the end the files
are as after working on one after the other: each is as it was or as its layout, unless writing it
broke off, and no other file changes.
-/

namespace ErbLayout.Session

open Text

section Independence

variable (s : System) (a : Arguments) (ignore : IgnoreList) (common : Option Settings)

def Apart (p q : Path) : Prop :=
  ∀ l ∈ s.tree.locateFile? s.cwd p, s.tree.locateFile? s.cwd q ≠ some l

instance (p q : Path) : Decidable (Apart s p q) :=
  inferInstanceAs
    (Decidable (∀ l ∈ s.tree.locateFile? s.cwd p, s.tree.locateFile? s.cwd q ≠ some l))

/-- The files are apart from each other and from the settings files that are read for them. -/
structure AreApart (files : List Path) : Prop where
  pairwise : files.Pairwise (Apart s)
  settings : ∀ p ∈ files, ∀ f ∈ settingsFiles s a common p, ∀ q ∈ files, Apart s f q

def keptContents? (p : Path) (l : Location) : Option Bytes :=
  match (work s a ignore common p).result with
  | .ok o => o.newContents.bind fun new => (s.writing l new).kept?
  | .error _ => none

def troubleWith (p : Path) : Option Trouble :=
  (conclude s p (work s a ignore common p).result).2

/-- What a worker has put into its file, when it is the one at `l`. -/
def Worker.put? (w : Worker) (l : Location) : Option Bytes :=
  match w.stage with
  | .writing new count => some (new.take count)
  | .finished | .failed _ => keptContents? s a ignore common w.path l
  | _ => none

def Worker.written (w : Worker) (l : Location) : Option Bytes :=
  if s.tree.locateFile? s.cwd w.path = some l then w.put? s a ignore common l else none

def writtenBy (workers : List Worker) (l : Location) : Option Bytes :=
  workers.findSome? fun w => w.written s a ignore common l

/-- The work on a file alone is to write `new` into it, and the system takes `reach` bytes. -/
structure Writes (p : Path) (l : Location) (new : Bytes) (reach : Nat) : Prop where
  result : ∃ o, (work s a ignore common p).result = .ok o ∧ o.newContents = some new
  location : s.tree.locateFile? s.cwd p = some l
  reach : (s.writing l new).reach? = some reach

/-- A worker is where it would be after as many steps alone. -/
def Worker.Agrees (w : Worker) : Prop :=
  match w.stage with
  | .waiting => True
  | .settled settings => startSettings s a common w.path = .ok settings
  | .treated o => (work s a ignore common w.path).result = .ok o
  | .writing new count =>
    ∃ l reach, Writes s a ignore common w.path l new reach ∧ count ≤ reach
  | .finished => troubleWith s a ignore common w.path = none
  | .failed t => troubleWith s a ignore common w.path = some t

/-- Every worker is where it would be alone, and the system is as it was but for what the workers
have written. -/
structure Crew.Follows (files : List Path) (c : Crew) : Prop where
  paths : c.workers.map Worker.path = files
  agrees : ∀ w ∈ c.workers, w.Agrees s a ignore common
  system : c.system = s.rewritten (writtenBy s a ignore common c.workers)

variable {s a ignore common} {files : List Path}

theorem Writes.keptContents?_eq {p : Path} {l : Location} {new : Bytes} {reach : Nat}
    (h : Writes s a ignore common p l new reach) :
    keptContents? s a ignore common p l = some (new.take reach) := by
  obtain ⟨o, hwork, hnew⟩ := h.result
  rw [keptContents?, hwork]
  dsimp only
  rw [hnew, Option.bind_some, Writing.kept?, h.reach, Option.map_some]

theorem Writes.troubleWith_eq {p : Path} {l : Location} {new : Bytes} {reach : Nat}
    (h : Writes s a ignore common p l new reach) :
    troubleWith s a ignore common p = (s.writing l new).reason?.map .unwritable := by
  obtain ⟨o, hwork, hnew⟩ := h.result
  rw [troubleWith, hwork, conclude, commit, hnew, h.location]

theorem Worker.put?_endOf (p : Path) (trouble : Option Trouble) (l : Location) :
    (⟨p, endOf trouble⟩ : Worker).put? s a ignore common l
      = keptContents? s a ignore common p l := by
  cases trouble <;> rfl

theorem Worker.agrees_endOf {p : Path} {trouble : Option Trouble} :
    (⟨p, endOf trouble⟩ : Worker).Agrees s a ignore common
      ↔ troubleWith s a ignore common p = trouble := by
  cases trouble <;> rfl

section Written

theorem writtenBy_eq_none {workers : List Worker} {l : Location}
    (h : ∀ w ∈ workers, w.written s a ignore common l = none) :
    writtenBy s a ignore common workers l = none :=
  List.findSome?_eq_none_iff.mpr h

theorem Worker.written_of_ne {w : Worker} {l : Location}
    (h : s.tree.locateFile? s.cwd w.path ≠ some l) : w.written s a ignore common l = none := by
  rw [Worker.written, if_neg h]

theorem writtenBy_append (before after : List Worker) (l : Location) :
    writtenBy s a ignore common (before ++ after) l
      = (writtenBy s a ignore common before l).or (writtenBy s a ignore common after l) := by
  simp only [writtenBy, List.findSome?_append]

theorem writtenBy_cons (w : Worker) (workers : List Worker) (l : Location) :
    writtenBy s a ignore common (w :: workers) l
      = (w.written s a ignore common l).or (writtenBy s a ignore common workers l) := by
  simp only [writtenBy, List.findSome?_cons]
  cases w.written s a ignore common l <;> rfl

/-- What has been written elsewhere does not depend on a worker. -/
theorem writtenBy_middle_of_eq {before after : List Worker} {w w' : Worker} {l : Location}
    (h : w'.written s a ignore common l = w.written s a ignore common l) :
    writtenBy s a ignore common (before ++ w' :: after) l
      = writtenBy s a ignore common (before ++ w :: after) l := by
  rw [writtenBy_append, writtenBy_cons, h, ← writtenBy_cons, ← writtenBy_append]

/-- What has been written to the file of one worker is what that worker has written. -/
theorem writtenBy_middle {before after : List Worker} {w : Worker} {l : Location}
    (hothers : ∀ v ∈ before ++ after, s.tree.locateFile? s.cwd v.path ≠ some l) :
    writtenBy s a ignore common (before ++ w :: after) l = w.written s a ignore common l := by
  have hnone : ∀ vs : List Worker, (∀ v ∈ vs, v ∈ before ++ after) →
      writtenBy s a ignore common vs l = none := fun vs hvs =>
    writtenBy_eq_none fun v hv => Worker.written_of_ne (hothers v (hvs v hv))
  rw [writtenBy_append, writtenBy_cons, hnone before fun v hv => List.mem_append_left _ hv,
    hnone after fun v hv => List.mem_append_right _ hv, Option.none_or, Option.or_none]

end Written

section System

theorem Crew.Follows.locateFile?_eq {c : Crew} (hc : c.Follows s a ignore common files) (p : Path) :
    c.system.tree.locateFile? c.system.cwd p = s.tree.locateFile? s.cwd p := by
  rw [hc.system]
  exact Tree.locateFile?_rewrite _ _ _ _

theorem Crew.Follows.writing_eq {c : Crew} (hc : c.Follows s a ignore common files) :
    c.system.writing = s.writing := by
  rw [hc.system]
  rfl

/-- The settings files of a file of the list have not been written. -/
theorem Crew.Follows.keeps_settingsFile {c : Crew} (hc : c.Follows s a ignore common files)
    (hapart : AreApart s a common files) {p f : Path} (hp : p ∈ files)
    (hf : f ∈ settingsFiles s a common p) :
    s.Keeps (writtenBy s a ignore common c.workers) f := by
  intro l hl
  refine writtenBy_eq_none fun w hw => Worker.written_of_ne ?_
  have hpath : w.path ∈ files := hc.paths ▸ List.mem_map_of_mem hw
  exact hapart.settings p hp f hf w.path hpath l hl

theorem Crew.Follows.startSettings_eq {c : Crew} (hc : c.Follows s a ignore common files)
    (hapart : AreApart s a common files) {p : Path} (hp : p ∈ files) :
    startSettings c.system a common p = startSettings s a common p := by
  rw [hc.system]
  exact startSettings_rewritten fun f hf => hc.keeps_settingsFile hapart hp hf

end System

section Middle

variable {system : System} {before after : List Worker} {p : Path} {stage stage' : Stage}
  (hc : (⟨system, before ++ ⟨p, stage⟩ :: after⟩ : Crew).Follows s a ignore common files)

include hc

/-- The other workers work on other files. -/
theorem Crew.Follows.locateFile?_ne (hapart : AreApart s a common files) {l : Location}
    (hl : s.tree.locateFile? s.cwd p = some l) :
    ∀ v ∈ before ++ after, s.tree.locateFile? s.cwd v.path ≠ some l := by
  have hpairwise : (before ++ ⟨p, stage⟩ :: after).Pairwise fun v w => Apart s v.path w.path := by
    have := hapart.pairwise
    rw [← hc.paths] at this
    exact List.pairwise_map.mp this
  obtain ⟨-, hafter, hbefore⟩ := List.pairwise_append.mp hpairwise
  intro v hv hvl
  rcases List.mem_append.mp hv with hv | hv
  · exact hbefore v hv _ List.mem_cons_self l hvl hl
  · exact (List.pairwise_cons.mp hafter).1 v hv l hl hvl

/-- A file of which nothing has been written is as it was. -/
theorem Crew.Follows.keeps_path (hapart : AreApart s a common files)
    (hput : ∀ l, (⟨p, stage⟩ : Worker).put? s a ignore common l = none) :
    s.Keeps (writtenBy s a ignore common (before ++ ⟨p, stage⟩ :: after)) p := by
  intro l hl
  rw [writtenBy_middle (hc.locateFile?_ne hapart hl), Worker.written, hput, ite_self]

theorem Crew.Follows.replace {system' : System}
    (hagrees : (⟨p, stage'⟩ : Worker).Agrees s a ignore common)
    (hsystem : system'
      = s.rewritten (writtenBy s a ignore common (before ++ ⟨p, stage'⟩ :: after))) :
    (⟨system', before ++ ⟨p, stage'⟩ :: after⟩ : Crew).Follows s a ignore common files where
  paths := by
    have := hc.paths
    simpa using this
  agrees := by
    intro w hw
    rcases List.mem_append.mp hw with hw | hw
    · exact hc.agrees w (List.mem_append_left _ hw)
    · rcases List.mem_cons.mp hw with rfl | hw
      · exact hagrees
      · exact hc.agrees w (List.mem_append_right _ (List.mem_cons_of_mem _ hw))
  system := hsystem

/-- A step that writes nothing. -/
theorem Crew.Follows.keep (hagrees : (⟨p, stage'⟩ : Worker).Agrees s a ignore common)
    (hput : ∀ l, s.tree.locateFile? s.cwd p = some l →
      (⟨p, stage'⟩ : Worker).put? s a ignore common l
        = (⟨p, stage⟩ : Worker).put? s a ignore common l) :
    (⟨system, before ++ ⟨p, stage'⟩ :: after⟩ : Crew).Follows s a ignore common files := by
  refine hc.replace hagrees (hc.system.trans ?_)
  congr 1
  funext l
  refine writtenBy_middle_of_eq ?_
  unfold Worker.written
  split
  next hl => exact (hput l hl).symm
  · rfl

/-- A step that fails before anything is written. -/
theorem Crew.Follows.fail {t : Trouble} (h : (work s a ignore common p).result = .error t)
    (hput : ∀ l, (⟨p, stage⟩ : Worker).put? s a ignore common l = none) :
    (⟨system, before ++ ⟨p, .failed t⟩ :: after⟩ : Crew).Follows s a ignore common files := by
  refine hc.keep ?_ fun l _ => ?_
  · exact congrArg (fun r => (conclude s p r).2) h
  · rw [hput]
    simp only [Worker.put?, keptContents?, h]

/-- A step after which the file holds `contents`. -/
theorem Crew.Follows.write (hapart : AreApart s a common files)
    (hagrees : (⟨p, stage'⟩ : Worker).Agrees s a ignore common) {l : Location}
    (hl : s.tree.locateFile? s.cwd p = some l) {contents : Bytes}
    (hput : (⟨p, stage'⟩ : Worker).put? s a ignore common l = some contents) :
    (⟨system.write l contents, before ++ ⟨p, stage'⟩ :: after⟩ : Crew).Follows
      s a ignore common files := by
  refine hc.replace hagrees ?_
  have hsystem : system =
      s.rewritten (writtenBy s a ignore common (before ++ ⟨p, stage⟩ :: after)) :=
    hc.system
  rw [hsystem, System.write_rewritten]
  congr 1
  funext l'
  by_cases hl' : l' = l
  · subst hl'
    rw [if_pos rfl, writtenBy_middle (hc.locateFile?_ne hapart hl), Worker.written, if_pos hl, hput]
  · have hne : s.tree.locateFile? s.cwd p ≠ some l' := by
      rw [hl]
      exact fun h => hl' (Option.some.inj h).symm
    rw [if_neg hl']
    exact writtenBy_middle_of_eq
      ((Worker.written_of_ne (w := ⟨p, stage⟩) hne).trans
        (Worker.written_of_ne (w := ⟨p, stage'⟩) hne).symm)

end Middle

/-- As long as nothing has been written, the file reads as it did in the beginning. -/
theorem Crew.Follows.result_workWith {system : System} {before after : List Worker} {p : Path}
    {settings : Settings} (hapart : AreApart s a common files)
    (hc : (⟨system, before ++ ⟨p, .settled settings⟩ :: after⟩ : Crew).Follows
      s a ignore common files) :
    (workWith system a ignore p settings).result = (work s a ignore common p).result := by
  have hsystem : system =
      s.rewritten (writtenBy s a ignore common (before ++ ⟨p, .settled settings⟩ :: after)) :=
    hc.system
  have hok : startSettings s a common p = .ok settings :=
    hc.agrees ⟨p, .settled settings⟩ (by simp)
  rw [hsystem, workWith_rewritten ignore (hc.keeps_path hapart fun _ => rfl), result_work, hok]

/-- A step of a worker does what it would do alone. -/
theorem Crew.Follows.step {c c' : Crew} (hc : c.Follows s a ignore common files)
    (hapart : AreApart s a common files) (h : Crew.Step a ignore common c c') :
    c'.Follows s a ignore common files := by
  obtain ⟨before, after, hstep⟩ := h
  rename_i system system' p stage stage'
  have hp : p ∈ files := by
    rw [← hc.paths]
    simp
  have hagrees := hc.agrees ⟨p, stage⟩ (by simp)
  have hlocate : system.tree.locateFile? system.cwd p = s.tree.locateFile? s.cwd p :=
    hc.locateFile?_eq p
  have hwriting : system.writing = s.writing := hc.writing_eq
  have hstart : startSettings system a common p = startSettings s a common p :=
    hc.startSettings_eq hapart hp
  cases hstep with
  | settle h =>
    rw [hstart] at h
    exact hc.keep h fun _ _ => rfl
  | @failToSettle _ t h =>
    rw [hstart] at h
    have hresult : (work s a ignore common p).result = .error t := by rw [result_work, h]
    exact hc.fail hresult fun _ => rfl
  | treat h =>
    rw [hc.result_workWith hapart] at h
    exact hc.keep h fun _ _ => rfl
  | failToTreat h =>
    rw [hc.result_workWith hapart] at h
    exact hc.fail h fun _ => rfl
  | @leave _ o h =>
    rw [hlocate] at h
    have hresult : (work s a ignore common p).result = .ok o := hagrees
    refine hc.keep ?_ fun l hl => ?_
    · change troubleWith s a ignore common p = none
      rw [troubleWith, hresult, conclude, commit]
      rcases h with h | h
      · rw [h]
      · rw [h]
        cases o.newContents <;> rfl
    · have hnone : o.newContents = none := h.resolve_right (by simp [hl])
      simp only [Worker.put?, keptContents?, hresult, hnone, Option.bind_none]
  | @failToOpen _ o new l reason hnew hl hrefused =>
    rw [hlocate] at hl
    rw [hwriting] at hrefused
    have hresult : (work s a ignore common p).result = .ok o := hagrees
    refine hc.keep ?_ fun l' hl' => ?_
    · change troubleWith s a ignore common p = some (.unwritable reason)
      rw [troubleWith, hresult, conclude, commit, hnew, hl]
      simp only [hrefused, Writing.reason?, Option.map_some]
    · obtain rfl : l' = l := Option.some.inj (hl'.symm.trans hl)
      simp [Worker.put?, keptContents?, hresult, hnew, hrefused, Writing.kept?, Writing.reach?]
  | @empty _ o new l reach hnew hl hreach =>
    rw [hlocate] at hl
    rw [hwriting] at hreach
    have hwrites : Writes s a ignore common p l new reach := ⟨⟨o, hagrees, hnew⟩, hl, hreach⟩
    have hagrees' : (⟨p, .writing new 0⟩ : Worker).Agrees s a ignore common :=
      ⟨l, reach, hwrites, Nat.zero_le reach⟩
    exact hc.write hapart hagrees' hl rfl
  | @put _ new l count count' reach hl hreach hlt hle =>
    rw [hlocate] at hl
    rw [hwriting] at hreach
    obtain ⟨l', reach', hwrites, -⟩ := hagrees
    obtain rfl : l' = l := Option.some.inj (hwrites.location.symm.trans hl)
    have hagrees' : (⟨p, .writing new count'⟩ : Worker).Agrees s a ignore common :=
      ⟨l', reach, ⟨hwrites.result, hl, hreach⟩, hle⟩
    exact hc.write hapart hagrees' hl rfl
  | @close _ new l reach hl hreach =>
    rw [hlocate] at hl
    rw [hwriting] at hreach ⊢
    obtain ⟨l', reach', hwrites, -⟩ := hagrees
    obtain rfl : l' = l := Option.some.inj (hwrites.location.symm.trans hl)
    obtain rfl : reach' = reach := Option.some.inj (hwrites.reach.symm.trans hreach)
    refine hc.keep (Worker.agrees_endOf.mpr hwrites.troubleWith_eq) fun l hl => ?_
    obtain rfl : l' = l := Option.some.inj (hwrites.location.symm.trans hl)
    rw [Worker.put?_endOf, hwrites.keptContents?_eq]
    rfl

theorem Crew.Follows.run {c c' : Crew} (hc : c.Follows s a ignore common files)
    (hapart : AreApart s a common files) (h : Crew.Run a ignore common c c') :
    c'.Follows s a ignore common files := by
  induction h with
  | refl => exact hc
  | tail _ hstep ih => exact ih.step hapart hstep

section Done

variable {c : Crew} (hc : c.Follows s a ignore common files)

include hc

end Done

end Independence

section Fates

variable (s : System) (a : Arguments) (ignore : IgnoreList) (common : Option Settings)

variable {s a ignore common}

section Work

variable (ignore common) (hwrite : a.write = true) {p : Path} {l : Location} {old : Bytes}
  (hl : s.tree.locateFile? s.cwd p = some l) (hold : s.tree.contents? l = some old)

include hwrite hl hold

variable {ignore common}

end Work

end Fates

section Interleaving

variable {s : System} {a : Arguments} {ignore : IgnoreList} {common : Option Settings}
  {files : List Path}

end Interleaving

end ErbLayout.Session
