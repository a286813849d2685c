import ErbLayout.Session.Basic

/-!
The documents that a session lays out, and the settings that it lays them out with. They account for
every layout event that the session tells, in order. Settings are checked before a document is read,
and the directive of the document is not: so what may be wrong with the settings of a layout is the
width that its directive sets, and nothing else.
-/

namespace ErbLayout

open Text

theorem Settings.problem?_eq_none_iff (settings : Settings) :
    settings.problem? = none ↔ (1 ≤ settings.lineWidth ∧ settings.lineWidth ≤ widest) ∧
      settings.codeFormatter.any allBlank = false := by
  unfold problem?
  by_cases hzero : settings.lineWidth = 0
  · simp [hzero]
  · by_cases hwide : widest < settings.lineWidth
    · have hnot : ¬ settings.lineWidth ≤ widest := by omega
      simp [hzero, hwide, hnot]
    · have hwidth : 1 ≤ settings.lineWidth ∧ settings.lineWidth ≤ widest := by omega
      simp [hzero, hwide, hwidth]

namespace Session

def layouts (s : System) (a : Arguments) (input : Bytes) : List LaidDocument := (run s a input).laid

def LaidDocument.events (programs : Programs) (d : LaidDocument) : List Event :=
  (d.run programs).events

def directiveOverlay (contents : Text) : Overlay :=
  ((Directive.find contents).1.map Directive.overlay).getD {}

def directiveWidth? (contents : Text) : Option Nat :=
  (Directive.find contents).1.bind Directive.lineWidth

/-- A layout has checked settings, with those of the directive over them. -/
def LaidDocument.IsOverChecked (d : LaidDocument) : Prop :=
  ∃ checked : Settings,
    checked.problem? = none ∧ d.settings = checked.overlay (directiveOverlay d.contents)

section Told

def Notice.event? : Notice → Option Event
  | .layout e => some e
  | _ => none

def Saying.event? : Saying → Option Event
  | .notice n => n.event?
  | .line _ => none

def toldEvents (said : List Saying) : List Event := said.filterMap Saying.event?

@[simp] theorem toldEvents_nil : toldEvents [] = [] := rfl

@[simp] theorem toldEvents_append (u v : List Saying) :
    toldEvents (u ++ v) = toldEvents u ++ toldEvents v :=
  List.filterMap_append

@[simp] theorem toldEvents_line (text : Text) (said : List Saying) :
    toldEvents (.line text :: said) = toldEvents said := rfl

theorem toldEvents_notices (notices : List Notice) :
    toldEvents (notices.map .notice) = notices.filterMap Notice.event? := by
  rw [toldEvents, List.filterMap_map]
  rfl

/-- Notices of which none is about a layout tell no event. -/
theorem toldEvents_eq_nil {notices : List Notice} (h : ∀ n ∈ notices, n.event? = none) :
    toldEvents (notices.map .notice) = [] := by
  rw [toldEvents_notices]
  exact List.filterMap_eq_nil_iff.mpr h

theorem filterMap_eventNotices (s : System) (settings : Settings) (e : Event) :
    (eventNotices s settings e).filterMap Notice.event? = [e] := by
  unfold eventNotices
  split
  · split <;> rfl
  · rfl

end Told

section Accounts

/-- What is said tells the events of some layouts and no others, and the settings of these layouts
were checked. -/
structure Account (programs : Programs) (said : List Saying) (laid : List LaidDocument) : Prop where
  events : toldEvents said = laid.flatMap (LaidDocument.events programs)
  checked : ∀ d ∈ laid, d.IsOverChecked

namespace Account

variable {programs : Programs} {said said' : List Saying} {laid laid' : List LaidDocument}

theorem of_toldEvents_eq_nil (h : toldEvents said = []) : Account programs said [] where
  events := h
  checked := by simp

theorem append (h : Account programs said laid) (h' : Account programs said' laid') :
    Account programs (said ++ said') (laid ++ laid') where
  events := by rw [toldEvents_append, h.events, h'.events, List.flatMap_append]
  checked := by
    intro d hd
    rcases List.mem_append.mp hd with hd | hd
    · exact h.checked d hd
    · exact h'.checked d hd

/-- Where nothing is told of a layout, the layouts are still accounted for. -/
theorem append_quiet (h : Account programs said laid) (hquiet : toldEvents said' = []) :
    Account programs (said ++ said') laid := by
  simpa using h.append (of_toldEvents_eq_nil hquiet)

theorem quiet_append (hquiet : toldEvents said = []) (h : Account programs said' laid) :
    Account programs (said ++ said') laid := by
  simpa using (of_toldEvents_eq_nil hquiet).append h

end Account

variable (s : System) (a : Arguments) (ignore : IgnoreList) (common : Option Settings)

theorem laid_treat (settings : Settings) (name : Path) (contents : Text) :
    (treat s ignore settings name contents).laid =
      if ignore.holds name || (Directive.find contents).1.any Directive.disabled then []
      else [⟨settings.overlay (directiveOverlay contents), name, contents⟩] := by
  unfold treat directiveOverlay
  cases ignore.holds name with
  | true => rfl
  | false => cases hdisabled : (Directive.find contents).1.any Directive.disabled <;>
      simp [hdisabled, noting]

/-- The events that are told about a document are those of its layout. -/
theorem account_treat {settings : Settings} (hsettings : settings.problem? = none) (name : Path)
    (contents : Text) :
    Account s.programs (treat s ignore settings name contents).said
      (treat s ignore settings name contents).laid := by
  have hfound : ∀ n ∈ (Directive.find contents).2.map Notice.unknownOption ++
      (Directive.find contents).1.toList.map (Notice.directive · name), n.event? = none := by
    intro n hn
    rcases List.mem_append.mp hn with hn | hn
    · obtain ⟨word, -, rfl⟩ := List.mem_map.mp hn
      rfl
    · obtain ⟨d, -, rfl⟩ := List.mem_map.mp hn
      rfl
  refine ⟨?_, ?_⟩
  · unfold treat
    generalize Directive.find contents = found at hfound ⊢
    obtain ⟨directive, unknown⟩ := found
    cases ignore.holds name with
    | true => rfl
    | false =>
      cases hdisabled : directive.any Directive.disabled with
      | true =>
        simp only [hdisabled, noting, if_true, Bool.false_eq_true, if_false]
        rw [List.map_append, toldEvents_append, toldEvents_eq_nil hfound]
        rfl
      | false =>
        simp only [hdisabled, Bool.false_eq_true, if_false]
        rw [List.map_append, toldEvents_append, toldEvents_eq_nil hfound, toldEvents_notices,
          List.filterMap_flatMap]
        simp [filterMap_eventNotices, LaidDocument.events]
  · rw [laid_treat]
    split
    · simp
    · simp only [List.mem_singleton, forall_eq]
      exact ⟨settings, hsettings, rfl⟩

theorem toldEvents_fileSettings (name : Option Path) :
    toldEvents (fileSettings s a name).said = [] := by
  unfold fileSettings
  split
  · split <;> rfl
  · apply toldEvents_eq_nil
    intro n hn
    rcases List.mem_append.mp hn with hn | hn
    · split at hn
      · obtain rfl := List.mem_singleton.mp hn
        rfl
      · obtain ⟨p, -, rfl⟩ := List.mem_map.mp hn
        rfl
    · obtain ⟨p, -, rfl⟩ := List.mem_map.mp hn
      unfold noticeOf
      split <;> rfl

theorem toldEvents_settingsFor (name : Option Path) :
    toldEvents (settingsFor s a name).said = [] := by
  have hfiles := toldEvents_fileSettings s a name
  unfold settingsFor
  dsimp only
  split
  · exact hfiles
  · split
    · rw [toldEvents_append, hfiles]
      rfl
    · rw [toldEvents_append, hfiles]
      rfl

/-- Settings that come from files and the command line are checked. -/
theorem problem?_settingsFor {name : Option Path} {settings : Settings}
    (h : (settingsFor s a name).result = .ok settings) : settings.problem? = none := by
  unfold settingsFor at h
  dsimp only at h
  split at h
  · simp at h
  · split at h
    · simp at h
    next hproblem =>
      obtain rfl := Except.ok.inj h
      exact hproblem

theorem account_workWith {settings : Settings} (hsettings : settings.problem? = none) (p : Path) :
    Account s.programs (workWith s a ignore p settings).said
      (workWith s a ignore p settings).laid := by
  unfold workWith
  split
  · exact .of_toldEvents_eq_nil rfl
  · split
    · dsimp only
      split <;> exact .of_toldEvents_eq_nil rfl
    · split
      · exact .of_toldEvents_eq_nil rfl
      next contents _ =>
        have htold := account_treat s ignore hsettings p contents
        exact Account.quiet_append (by split <;> rfl) htold

theorem account_work (hcommon : ∀ settings ∈ common, settings.problem? = none) (p : Path) :
    Account s.programs (work s a ignore common p).said (work s a ignore common p).laid := by
  unfold work
  cases common with
  | some settings => exact account_workWith s a ignore (hcommon settings rfl) p
  | none =>
    have hquiet := toldEvents_settingsFor s a (some p)
    dsimp only
    split
    · exact .of_toldEvents_eq_nil hquiet
    next settings hresult =>
      have hsettings := problem?_settingsFor s a hresult
      exact Account.quiet_append hquiet (account_workWith s a ignore hsettings p)

def systemAfter (p : Path) : System := (conclude s p (work s a ignore common p).result).1

theorem programs_systemAfter (p : Path) :
    (systemAfter s a ignore common p).programs = s.programs := by
  unfold systemAfter conclude commit
  split
  · rfl
  · split
    · dsimp only
      cases Writing.kept? _ <;> rfl
    · rfl

theorem account_addFile (hcommon : ∀ settings ∈ common, settings.problem? = none) {r : Report}
    (hr : Account r.system.programs r.said r.laid) (p : Path) :
    Account r.system.programs (r.addFile a ignore common p).said
      (r.addFile a ignore common p).laid := by
  have htrouble : ∀ trouble : Option Trouble,
      toldEvents (trouble.toList.map (failedLine p)) = [] := by
    intro trouble
    cases trouble <;> rfl
  exact (hr.append (account_work r.system a ignore common hcommon p)).append_quiet (htrouble _)

/-- Files one after the other: each is worked on in the system that those before it leave. -/
theorem account_addFiles (hcommon : ∀ settings ∈ common, settings.problem? = none) {r : Report}
    (hr : Account r.system.programs r.said r.laid) (files : List Path) :
    Account r.system.programs (r.addFiles a ignore common files).said
      (r.addFiles a ignore common files).laid := by
  induction files generalizing r with
  | nil => exact hr
  | cons p files ih =>
    have hnext := account_addFile a ignore common hcommon hr p
    have hprograms : (r.addFile a ignore common p).system.programs = r.system.programs :=
      programs_systemAfter r.system a ignore common p
    rw [← hprograms] at hnext ⊢
    exact ih hnext

theorem toldEvents_collect : toldEvents (collect s a).1 = [] := by
  apply List.filterMap_eq_nil_iff.mpr
  intro said hsaid
  rcases List.mem_append.mp hsaid with hsaid | hsaid
  · obtain ⟨pattern, -, hsaid⟩ := List.mem_flatMap.mp hsaid
    unfold excludeNotice at hsaid
    split at hsaid
    · simp at hsaid
    · obtain rfl := List.mem_singleton.mp hsaid
      rfl
  · obtain ⟨input, -, hsaid⟩ := List.mem_flatMap.mp hsaid
    unfold missingInput at hsaid
    split at hsaid
    · simp at hsaid
    · obtain rfl := List.mem_singleton.mp hsaid
      rfl

theorem toldEvents_summary (count failures : Nat) : toldEvents [summary count failures] = [] := by
  unfold summary
  split <;> rfl

theorem account_onFiles (hcommon : ∀ settings ∈ common, settings.problem? = none) {r : Report}
    (hr : Account r.system.programs r.said r.laid) :
    Account r.system.programs (onFiles r a ignore common).said
      (onFiles r a ignore common).laid := by
  have hcollect := hr.append_quiet (toldEvents_collect r.system a)
  unfold onFiles
  generalize collect r.system a = collected at hcollect ⊢
  obtain ⟨said, files⟩ := collected
  dsimp only at hcollect ⊢
  split
  · split
    · exact hcollect
    · exact hcollect.append_quiet rfl
  · have hfiles := account_addFiles a ignore common hcommon
      (r := { r with said := r.said ++ said }) hcollect files
    split
    · exact hfiles.append_quiet (toldEvents_summary _ _)
    · exact hfiles

theorem account_onInput {r : Report} (hr : Account r.system.programs r.said r.laid)
    (input : Bytes) :
    Account r.system.programs (onInput r a ignore input).said
      (onInput r a ignore input).laid := by
  have hsettings := hr.append_quiet (toldEvents_settingsFor r.system a a.stdinFilename)
  unfold onInput
  dsimp only
  split
  · exact hsettings.append_quiet rfl
  · exact hsettings.append_quiet rfl
  next settings contents hresult _ =>
    have htreat := hsettings.append (account_treat r.system ignore
      (problem?_settingsFor r.system a hresult) (a.stdinFilename.getD ['-']) contents)
    split
    · exact hsettings.append_quiet rfl
    · split
      · exact htreat.append_quiet rfl
      · exact htreat

theorem toldEvents_ignoreNotices : toldEvents ((ignoreNotices s).map .notice) = [] := by
  apply toldEvents_eq_nil
  intro n hn
  unfold ignoreNotices at hn
  dsimp only at hn
  split at hn
  · obtain ⟨fault, -, rfl⟩ := List.mem_map.mp hn
    rfl
  · simp at hn
  · obtain rfl := List.mem_singleton.mp hn
    rfl

/-- The layouts of a session account for all the layout events that it tells. -/
theorem account_run (input : Bytes) :
    Account s.programs (run s a input).said (run s a input).laid := by
  have hignore : Account s.programs ((ignoreNotices s).map .notice) [] :=
    .of_toldEvents_eq_nil (toldEvents_ignoreNotices s)
  unfold run
  split
  · exact .of_toldEvents_eq_nil rfl
  · split
    · exact .of_toldEvents_eq_nil rfl
    · dsimp only
      split
      · exact account_onInput a _ (r := { system := s, said := _ }) hignore input
      · split
        · exact account_onFiles a _ none (by simp) (r := { system := s, said := _ }) hignore
        · have hsettings := hignore.append_quiet (toldEvents_settingsFor s a none)
          split
          · exact hsettings.append_quiet rfl
          next settings hresult =>
            refine account_onFiles a _ (some settings) ?_
              (r := { system := s, said := _ }) hsettings
            rintro _ ⟨⟩
            exact problem?_settingsFor s a hresult

end Accounts

theorem lineWidth_directiveOverlay (contents : Text) :
    (directiveOverlay contents).lineWidth = directiveWidth? contents := by
  unfold directiveOverlay directiveWidth?
  cases (Directive.find contents).1 <;> rfl

theorem codeFormatter_directiveOverlay (contents : Text) :
    (directiveOverlay contents).codeFormatter = none := by
  unfold directiveOverlay
  cases (Directive.find contents).1 <;> rfl

/-- Over checked settings only the width of a directive can be wrong. -/
theorem LaidDocument.IsOverChecked.problem?_eq_none_iff {d : LaidDocument} (h : d.IsOverChecked) :
    d.settings.problem? = none ↔
      ∀ width ∈ directiveWidth? d.contents, 1 ≤ width ∧ width ≤ Settings.widest := by
  obtain ⟨checked, hchecked, hsettings⟩ := h
  obtain ⟨hwidth, hformatter⟩ := checked.problem?_eq_none_iff.mp hchecked
  have hwidth' : d.settings.lineWidth = (directiveWidth? d.contents).getD checked.lineWidth := by
    rw [hsettings, Settings.overlay, lineWidth_directiveOverlay]
  have hformatter' : d.settings.codeFormatter = checked.codeFormatter := by
    rw [hsettings, Settings.overlay, codeFormatter_directiveOverlay, Option.none_or]
  rw [Settings.problem?_eq_none_iff, hwidth', hformatter', hformatter]
  cases directiveWidth? d.contents with
  | none => simpa using hwidth
  | some width => simp

/-- The documents that a session lays out account for the layout events that it tells, and the
settings of each have nothing wrong with them exactly when the width that its directive sets, if it
sets one, is in the bounds. -/
theorem problem?_layouts (s : System) (a : Arguments) (input : Bytes) :
    toldEvents (run s a input).said
        = (layouts s a input).flatMap (LaidDocument.events s.programs) ∧
      ∀ d ∈ layouts s a input, d.settings.problem? = none ↔
        ∀ width ∈ directiveWidth? d.contents, 1 ≤ width ∧ width ≤ Settings.widest :=
  ⟨(account_run s a input).events,
    fun d hd => ((account_run s a input).checked d hd).problem?_eq_none_iff⟩

/-- A system with files only, worked on from the root. -/
def systemOf (tree : Tree) : System where
  tree := tree
  cwd := []
  home := none
  programs := fun _ _ _ => .error .missing

theorem problem?_layouts_narrowed :
    ∃ d ∈ layouts
      (systemOf { files := [(["a.erb".toList], encode "<%# erbfmt: -l 40 %>\n<p>a</p>\n".toList)] })
        { inputs := ["a.erb".toList], lineWidth := some 60 } [],
      d.settings.lineWidth = 40 ∧ d.settings.problem? = none := by
  have hd : ⟨{ lineWidth := 40 }, "a.erb".toList, "<%# erbfmt: -l 40 %>\n<p>a</p>\n".toList⟩ ∈
      layouts
      (systemOf { files := [(["a.erb".toList], encode "<%# erbfmt: -l 40 %>\n<p>a</p>\n".toList)] })
        { inputs := ["a.erb".toList], lineWidth := some 60 } [] := by
    decide +kernel
  have hwidth : directiveWidth? "<%# erbfmt: -l 40 %>\n<p>a</p>\n".toList = some 40 := by
    decide +kernel
  refine ⟨_, hd, rfl, ((problem?_layouts _ _ _).2 _ hd).mpr ?_⟩
  rw [hwidth]
  decide

/-- A width of zero is refused on the command line, but a document whose directive sets it is laid
out with it. -/
theorem layouts_of_zero_width :
    (run (systemOf {}) { stdin := true, lineWidth := some 0 }
      (encode "<p>a b</p>\n".toList)).status = 1 ∧
      (run (systemOf {}) { stdin := true }
        (encode "<%# erbfmt: -l 0 %>\n<p>a b</p>\n".toList)).status = 0 ∧
      (layouts (systemOf {}) { stdin := true }
        (encode "<%# erbfmt: -l 0 %>\n<p>a b</p>\n".toList)).map
        (fun d => d.settings.problem?) = [some .noWidth] := by
  decide +kernel

end Session

end ErbLayout
