import ErbLayout.Proofs.Session.Layouts
import ErbLayout.Proofs.Settings.Discovery

/-!
Which source a setting of a document comes from. The directive of the document comes before the
command line, the command line before the settings files, of these the later ones before the
earlier, and the defaults come last. Each setting is taken from the first source that has it,
whatever the others leave open. A directive has a width and the layout of classes only, the command
line has no order of classes, and a file that cannot be read as settings has nothing.
-/

namespace ErbLayout

open Text

namespace Directive

/-- What a directive asks for in one place. -/
inductive Item where
  /-- A line width; it is left open again when what stands for it is no number. -/
  | width (columns : Option Nat)
  | classes (onePerLine : Bool)
  | off
  | unknown
  deriving DecidableEq, Repr

def itemOf (word : Text) : Item :=
  if word = "off".toList || word = "disable".toList then .off
  else if word = "--single-class-per-line".toList then .classes true
  else if word = "--no-single-class-per-line".toList then .classes false
  else
    match after? "--line-width=".toList word with
    | some value => .width (nat? wordLimit value)
    | none => .unknown

def items : List Text → List Item
  | [] => []
  | word :: rest =>
    if word = "-l".toList || word = "--line-width".toList then
      match rest with
      | [] => [.width none]
      | value :: rest => .width (nat? wordLimit value) :: items rest
    else itemOf word :: items rest

def itemsIn (contents : Text) : List Item := items (words ((options? contents).getD []))

def Item.width? : Item → Option (Option Nat)
  | .width columns => some columns
  | _ => none

def Item.classes? : Item → Option Bool
  | .classes onePerLine => some onePerLine
  | _ => none

/-- The width that items leave set: that of the last which is about the width. -/
def widthOf (is : List Item) : Option Nat := (is.filterMap Item.width?).getLast?.join

def classesOf (is : List Item) : Option Bool := (is.filterMap Item.classes?).getLast?

def add (d : Directive) : Item → Directive
  | .width columns => { d with lineWidth := columns }
  | .classes onePerLine => { d with singleClassPerLine := some onePerLine }
  | .off => { d with disabled := true }
  | .unknown => d

theorem set?_eq (d : Directive) (word : Text) :
    d.set? word = if itemOf word = .unknown then none else some (d.add (itemOf word)) := by
  unfold set? itemOf
  split
  · rfl
  · split
    · rfl
    · split
      · rfl
      · cases after? "--line-width=".toList word <;> rfl

/-- A directive is read item by item. -/
theorem read_fst (d : Directive) (ws : List Text) : (d.read ws).1 = (items ws).foldl add d := by
  fun_induction items ws generalizing d with
  | case1 => rfl
  | case2 word hword =>
    rw [read, if_pos hword]
    rfl
  | case3 word hword value rest ih =>
    rw [read, if_pos hword]
    exact ih { d with lineWidth := nat? wordLimit value }
  | case4 word rest hword ih =>
    rw [read.eq_def]
    dsimp only
    rw [if_neg hword, set?_eq]
    cases hitem : itemOf word <;> simp [add, ih]

/-- What every item sets or leaves is set by the last that sets it. -/
theorem foldl_add {α : Type} (get : Directive → α) (value? : Item → Option α)
    (h : ∀ d i, get (d.add i) = (value? i).getD (get d)) (d : Directive) (is : List Item) :
    get (is.foldl add d) = (is.filterMap value?).getLast?.getD (get d) := by
  induction is generalizing d with
  | nil => rfl
  | cons i is ih =>
    rw [List.foldl_cons, ih, h, List.filterMap_cons]
    cases value? i with
    | none => rfl
    | some v => cases hrest : (is.filterMap value?).getLast? <;> simp [List.getLast?_cons, hrest]

theorem lineWidth_read (ws : List Text) : (read {} ws).1.lineWidth = widthOf (items ws) := by
  rw [read_fst, foldl_add lineWidth Item.width? fun d i => by cases i <;> rfl, widthOf]
  cases ((items ws).filterMap Item.width?).getLast? <;> rfl

theorem singleClassPerLine_read (ws : List Text) :
    (read {} ws).1.singleClassPerLine = classesOf (items ws) := by
  have hlast := foldl_add singleClassPerLine (fun i => i.classes?.map some)
    (fun d i => by cases i <;> rfl) {} (items ws)
  rw [read_fst, hlast, classesOf, ← List.map_filterMap, List.getLast?_map]
  cases ((items ws).filterMap Item.classes?).getLast? <;> rfl

theorem disabled_read (ws : List Text) : (read {} ws).1.disabled = decide (.off ∈ items ws) := by
  have hfold : ∀ (is : List Item) (d : Directive),
      (is.foldl add d).disabled = (d.disabled || decide (.off ∈ is)) := by
    intro is
    induction is with
    | nil => simp
    | cons i is ih =>
      intro d
      rw [List.foldl_cons, ih]
      cases i <;> simp [add]
  rw [read_fst, hfold]
  rfl

def ofDocument (contents : Text) : Directive := (read {} (words ((options? contents).getD []))).1

theorem find_fst (contents : Text) :
    (find contents).1 = if (ofDocument contents).isEmpty then none
      else some (ofDocument contents) := by
  unfold find ofDocument
  cases options? contents <;> rfl

theorem any_disabled_find (contents : Text) :
    (find contents).1.any disabled = decide (.off ∈ itemsIn contents) := by
  have hdisabled : (ofDocument contents).disabled = decide (.off ∈ itemsIn contents) :=
    disabled_read _
  rw [find_fst, ← hdisabled]
  cases hd : (ofDocument contents).disabled <;> simp [isEmpty, hd, apply_ite (Option.any disabled)]

end Directive

/-- A directive overlays what its items leave set. -/
theorem Session.directiveOverlay_eq (contents : Text) : directiveOverlay contents =
    { lineWidth := Directive.widthOf (Directive.itemsIn contents),
      singleClassPerLine := Directive.classesOf (Directive.itemsIn contents) } := by
  have hread : (Directive.ofDocument contents).overlay =
      { lineWidth := Directive.widthOf (Directive.itemsIn contents),
        singleClassPerLine := Directive.classesOf (Directive.itemsIn contents) } := by
    rw [Directive.overlay, Directive.ofDocument, Directive.lineWidth_read,
      Directive.singleClassPerLine_read]
    rfl
  rw [directiveOverlay, Directive.find_fst, ← hread]
  split
  next hempty =>
    simp only [Directive.isEmpty, Bool.and_eq_true, Option.isNone_iff_eq_none] at hempty
    simp [Directive.overlay, hempty.1.1, hempty.1.2]
  next => rfl

namespace Settings

def Loaded.overlay? : Loaded → Option Overlay
  | .overlay o => some o
  | .unreadable _ => none
  | .invalid => none

/-- What the settings files for a document set, the last that is found first; files that cannot be
read as settings are left out. -/
def overlaysFor (s : System) (start : Path) : List Overlay :=
  (discover s start).reverse.filterMap fun p => (load s p).overlay?

def fromSources (directive : List Directive.Item) (a : Arguments) (files : List Overlay) :
    Settings where
  lineWidth :=
    ((Directive.widthOf directive :: a.lineWidth ::
      files.map Overlay.lineWidth).findSome? id).getD 80
  singleClassPerLine :=
    ((Directive.classesOf directive :: a.singleClassPerLine ::
      files.map Overlay.singleClassPerLine).findSome? id).getD false
  classOrder := ((files.map Overlay.classOrder).findSome? id).getD []
  codeFormatter := (a.codeFormatter :: files.map Overlay.codeFormatter).findSome? id

theorem first_filterMap_overlay? (loaded : List Loaded) :
    Overlay.first (loaded.map Loaded.toOverlay) =
      Overlay.first (loaded.filterMap Loaded.overlay?) := by
  induction loaded with
  | nil => rfl
  | cons l loaded ih =>
    rw [List.map_cons, Overlay.first_cons, ih]
    cases l with
    | overlay o => exact (Overlay.first_cons o _).symm
    | unreadable fault => rfl
    | invalid => rfl

theorem discovered_eq_overlaysFor (s : System) (start : Path) :
    discovered s start = ({} : Settings).overlay (Overlay.first (overlaysFor s start)) := by
  have hfold : discovered s start =
      (((discover s start).map (load s)).map Loaded.toOverlay).foldl Settings.overlay {} := by
    rw [List.foldl_map, List.foldl_map]
    rfl
  rw [hfold, Settings.foldl_overlay, ← List.map_reverse, ← List.map_reverse,
    first_filterMap_overlay?, List.filterMap_map]
  rfl

/-- Overlaying in turn takes each setting from the first source that has it. -/
theorem fromSources_eq (directive : List Directive.Item) (a : Arguments) (files : List Overlay) :
    fromSources directive a files =
      ((({} : Settings).overlay (Overlay.first files)).overlay (Session.overlayOf a)).overlay
        { lineWidth := Directive.widthOf directive, singleClassPerLine :=
          Directive.classesOf directive } := by
  have hcons : ∀ {α : Type} (x : Option α) (xs : List (Option α)),
      (x :: xs).findSome? id = x.or (xs.findSome? id) := by
    intro α x xs
    cases x <;> rfl
  have hfiles : ∀ {α : Type} (get : Overlay → Option α), (files.map get).findSome? id =
      files.findSome? get := by
    intro α get
    rw [List.findSome?_map]
    rfl
  simp only [fromSources, Settings.overlay, Session.overlayOf, Overlay.first, hcons, hfiles,
    Option.getD_or, Option.getD_none, Option.none_or, Option.or_none]

end Settings

namespace Session

/-- Without a settings file of its own on the command line, a document has the settings of the
sources before its directive, if there is nothing wrong with them. -/
theorem result_settingsFor_of_sources {s : System} {a : Arguments} (h : a.config = none)
    (name : Option Path) :
    (settingsFor s a name).result =
      match (Settings.fromSources [] a (Settings.overlaysFor s (name.getD s.cwdPath))).problem? with
      | none => .ok (Settings.fromSources [] a (Settings.overlaysFor s (name.getD s.cwdPath)))
      | some problem => .error (.invalid problem) := by
  have hfiles : (fileSettings s a name).result =
      .ok (Settings.discovered s (name.getD s.cwdPath)) := by
    rw [fileSettings, h]
    rfl
  have hsettings : (Settings.discovered s (name.getD s.cwdPath)).overlay (overlayOf a) =
      Settings.fromSources [] a (Settings.overlaysFor s (name.getD s.cwdPath)) := by
    rw [Settings.fromSources_eq, Settings.discovered_eq_overlaysFor]
    exact (Settings.overlay_empty _).symm
  unfold settingsFor
  simp only [hfiles, hsettings]
  generalize Settings.fromSources [] a (Settings.overlaysFor s (name.getD s.cwdPath)) = settings
  cases settings.problem? <;> rfl

def fileText? (s : System) (p : Path) : Option Text :=
  if (s.size? p).any (· ≤ maxSize) then (s.readText p).toOption else none

def inputText? (input : Bytes) : Option Text :=
  if input.length ≤ maxSize then decode? input else none

/-- A document that a session comes to: the system as it is then, the name of the document if it has
one, and its contents if they can be read. -/
structure Candidate where
  system : System
  name : Option Path
  contents? : Option Text

def Candidate.settings (c : Candidate) (a : Arguments) (directive : List Directive.Item) :
    Settings :=
  Settings.fromSources directive a
    (Settings.overlaysFor c.system (c.name.getD c.system.cwdPath))

/-- The layout of a document: there is one when it can be read, when nothing is wrong with the
settings before its directive, and when neither the list of files to leave nor its directive keeps
it as it is. -/
def Candidate.layout? (a : Arguments) (ignore : IgnoreList) (c : Candidate) : Option LaidDocument :=
  c.contents?.bind fun contents =>
    if (c.settings a []).problem? = none ∧ ignore.holds (c.name.getD ['-']) = false
        ∧ .off ∉ Directive.itemsIn contents then
      some ⟨c.settings a (Directive.itemsIn contents), c.name.getD ['-'], contents⟩
    else none

def fileCandidates (a : Arguments) (ignore : IgnoreList) : System → List Path → List Candidate
  | _, [] => []
  | s, p :: files =>
    ⟨s, some p, fileText? s p⟩ :: fileCandidates a ignore (systemAfter s a ignore none p) files

def candidates (s : System) (a : Arguments) (input : Bytes) : List Candidate :=
  if a.readsStdin && !(a.inputs.isEmpty || a.isDash) then []
  else if s.interactive && a.inputs.isEmpty && !a.readsStdin then []
  else if a.readsStdin || a.inputs.isEmpty then [⟨s, a.stdinFilename, inputText? input⟩]
  else fileCandidates a s.ignoreList s (collect s a).2

section Precedence

variable {s : System} {a : Arguments} {ignore : IgnoreList}

/-- A document for which there are settings is laid out as its candidate is. -/
theorem toList_layout? (h : a.config = none) {name : Option Path} {settings : Settings}
    (hsettings : (settingsFor s a name).result = .ok settings) (contents : Text) :
    ((⟨s, name, some contents⟩ : Candidate).layout? a ignore).toList
      = (treat s ignore settings (name.getD ['-']) contents).laid := by
  rw [result_settingsFor_of_sources h] at hsettings
  rw [Candidate.layout?, Option.bind_some]
  simp only [Candidate.settings]
  split at hsettings
  next hproblem =>
    obtain rfl := Except.ok.inj hsettings
    have hdirective : (Settings.fromSources [] a
          (Settings.overlaysFor s (name.getD s.cwdPath))).overlay (directiveOverlay contents)
        = Settings.fromSources (Directive.itemsIn contents) a
          (Settings.overlaysFor s (name.getD s.cwdPath)) := by
      rw [directiveOverlay_eq, Settings.fromSources_eq, Settings.fromSources_eq]
      exact congrArg (Settings.overlay · _) (Settings.overlay_empty _)
    rw [laid_treat, hdirective, Directive.any_disabled_find]
    cases ignore.holds (name.getD ['-']) with
    | true => simp
    | false =>
      by_cases hoff : .off ∈ Directive.itemsIn contents
      · simp [hoff]
      · simp [hoff, hproblem]
  · simp at hsettings

/-- Without settings there is no layout. -/
theorem layout?_eq_none (h : a.config = none) {name : Option Path} {t : Trouble}
    (hsettings : (settingsFor s a name).result = .error t) (contents? : Option Text) :
    (⟨s, name, contents?⟩ : Candidate).layout? a ignore = none := by
  rw [result_settingsFor_of_sources h] at hsettings
  rw [Candidate.layout?, Option.bind_eq_none_iff]
  intro contents _
  rw [if_neg]
  rintro ⟨hnone, -⟩
  rw [Candidate.settings] at hnone
  split at hsettings
  · simp at hsettings
  next problem hproblem =>
    rw [hnone] at hproblem
    simp at hproblem

theorem laid_workWith (p : Path) (settings : Settings) :
    (workWith s a ignore p settings).laid
      = (fileText? s p).elim [] fun contents => (treat s ignore settings p contents).laid := by
  unfold workWith fileText?
  cases s.size? p with
  | none => rfl
  | some size =>
    by_cases hsize : maxSize < size
    · have hlarge : ¬ size ≤ maxSize := by omega
      simp [hsize, hlarge]
    · have hsmall : size ≤ maxSize := by omega
      simp only [hsize, if_false, Option.any_some, hsmall, decide_true, if_true]
      cases s.readText p <;> rfl

theorem laid_work (h : a.config = none) (p : Path) :
    (work s a ignore none p).laid
      = ((⟨s, some p, fileText? s p⟩ : Candidate).layout? a ignore).toList := by
  unfold work
  dsimp only
  cases hresult : (settingsFor s a (some p)).result with
  | error t => rw [layout?_eq_none h hresult, Option.toList_none]
  | ok settings =>
    dsimp only
    rw [laid_workWith]
    cases fileText? s p with
    | none => rfl
    | some contents => exact (toList_layout? h hresult contents).symm

theorem laid_addFiles (h : a.config = none) (r : Report) (files : List Path) :
    (r.addFiles a ignore none files).laid
      = r.laid
        ++ (fileCandidates a ignore r.system files).filterMap (Candidate.layout? a ignore) := by
  induction files generalizing r with
  | nil => simp [Report.addFiles, fileCandidates]
  | cons p files ih =>
    have hrest := ih (r.addFile a ignore none p)
    have hlaid : (r.addFile a ignore none p).laid
        = r.laid ++
          ((⟨r.system, some p, fileText? r.system p⟩ : Candidate).layout? a ignore).toList :=
      congrArg (r.laid ++ ·) (laid_work h p)
    rw [hlaid] at hrest
    change ((r.addFile a ignore none p).addFiles a ignore none files).laid = _
    rw [hrest, fileCandidates, List.filterMap_cons, List.append_assoc]
    congr 1
    cases (⟨r.system, some p, fileText? r.system p⟩ : Candidate).layout? a ignore <;> rfl

theorem laid_onFiles (h : a.config = none) {r : Report} (hr : r.laid = []) :
    (onFiles r a ignore none).laid
      = (fileCandidates a ignore r.system (collect r.system a).2).filterMap
        (Candidate.layout? a ignore) := by
  unfold onFiles
  generalize collect r.system a = collected
  obtain ⟨said, files⟩ := collected
  dsimp only
  split
  next hempty =>
    rw [List.isEmpty_iff.mp hempty]
    split <;> exact hr
  · have hfiles : (Report.addFiles a ignore none { r with said := r.said ++ said } files).laid
        = r.laid ++ _ := laid_addFiles h _ files
    split <;> exact hfiles.trans (by rw [hr, List.nil_append])

theorem laid_onInput (h : a.config = none) {r : Report} (hr : r.laid = []) (input : Bytes) :
    (onInput r a ignore input).laid
      = ((⟨r.system, a.stdinFilename, inputText? input⟩ : Candidate).layout? a ignore).toList := by
  unfold onInput inputText?
  dsimp only
  by_cases hsize : input.length ≤ maxSize
  · have htake : input.take (maxSize + 1) = input := List.take_of_length_le (by omega)
    rw [htake, if_pos hsize]
    cases hresult : (settingsFor r.system a a.stdinFilename).result with
    | error t =>
      rw [layout?_eq_none h hresult]
      exact hr
    | ok settings =>
      cases decode? input with
      | none => exact hr
      | some contents =>
        dsimp only
        rw [if_neg (by omega), toList_layout? h hresult contents, hr, List.nil_append]
        split <;> rfl
  · have hlength : maxSize < (input.take (maxSize + 1)).length := by
      rw [List.length_take]
      omega
    rw [if_neg hsize]
    split
    · exact hr
    · exact hr
    · exact (congrArg Report.laid (if_pos hlength)).trans hr

end Precedence

/-- When no settings file is named on the command line, a session lays out the documents that it
comes to with the settings that the sources give in order: the directive, the command line, the
settings files from the last to the first, and the defaults. -/
theorem layouts_from_sources (s : System) (a : Arguments) (input : Bytes) (h : a.config = none) :
    toldEvents (run s a input).said
        = (layouts s a input).flatMap (LaidDocument.events s.programs) ∧
      layouts s a input = (candidates s a input).filterMap (Candidate.layout? a s.ignoreList) := by
  refine ⟨(account_run s a input).events, ?_⟩
  unfold layouts run candidates
  split
  · rfl
  · split
    · rfl
    · dsimp only
      split
      · rw [laid_onInput h rfl, List.filterMap_cons, List.filterMap_nil]
        cases (⟨s, a.stdinFilename, inputText? input⟩ : Candidate).layout? a s.ignoreList <;> rfl
      · rw [if_pos (by simp [h])]
        exact laid_onFiles h rfl

def mixedFiles : List (Location × Text) :=
  [([Settings.fileName], "line_width = 100\nclass_order = [\"b\"]\n".toList),
    (["app".toList, Settings.fileName], "line_width = 60\nline_width = 70\n".toList),
    (["app".toList, "x.erb".toList],
      "<%# erbfmt: -l 40 --single-class-per-line -l wide %>\n<p>a</p>\n".toList)]

theorem layouts_from_sources_mixed :
    (({ inputs := ["/app/x.erb".toList], singleClassPerLine := some false,
        codeFormatter := some "fmt".toList } : Arguments).config = none) ∧
      (layouts (Settings.systemWith mixedFiles [] none)
          { inputs := ["/app/x.erb".toList], singleClassPerLine := some false,
            codeFormatter := some "fmt".toList }
          []).map LaidDocument.settings =
        [{ lineWidth := 100, singleClassPerLine := true, classOrder := [['b']],
           codeFormatter := some "fmt".toList }] := by
  refine ⟨rfl, ?_⟩
  rw [(layouts_from_sources _ _ _ rfl).2]
  decide +kernel

end Session

end ErbLayout
