import ErbLayout.Proofs.Document
import ErbLayout.Proofs.Extraction
import ErbLayout.Proofs.FrontMatter
import ErbLayout.Proofs.Layout.Attributes

/-!
Layout keeps the content of a document. Without a formatter of code and without an order of classes,
each token that is laid out adds its own content to the output, whatever lines it is broken into.
Text and code meet only where a delimiter stands, so that no marker comes about between them;
putting the code back then gives the content of the body, and the front matter is kept as it is.
-/

namespace ErbLayout

open Text Markup Code Layout

/-- A content of texts that sees a code marker as the code tag it stands for. -/
structure Restores (table : MarkerTable) (content : Text → Text) :
    Prop extends IsContent content where
  code_eq : ∀ {digits code}, table.code? digits = some code → ∀ s t,
    content (s ++ (markers.written digits ++ t)) = content s ++ (content code ++ content t)
  isCode : ∀ {digits code}, table.code? digits = some code →
    ∃ tag, CodeTag.ofText? code = some tag ∧ tag.IsRead ∧ tag.written = code

def IsEnclosed (s : Text) : Prop := ∃ u, s = '<' :: (u ++ ['>'])

theorem IsEnclosed.startsApart {s : Text} (h : IsEnclosed s) : StartsApart s := by
  obtain ⟨u, rfl⟩ := h
  exact startsApart_cons (by decide) _

theorem IsEnclosed.endsApart_append {s : Text} (h : IsEnclosed s) (t : Text) :
    EndsApart (t ++ s) := by
  obtain ⟨u, rfl⟩ := h
  have hlast : t ++ '<' :: (u ++ ['>']) = (t ++ '<' :: u) ++ ['>'] := by simp
  rw [hlast]
  exact endsApart_concat (by decide) _

theorem IsEnclosed.trim_eq {s : Text} (h : IsEnclosed s) : trim s = s := by
  obtain ⟨u, rfl⟩ := h
  exact trim_append (b := []) (v := '<' :: u) (by simp) rfl rfl (by decide) (by decide)

theorem isEnclosed_opening (s t : Text) (ending : Ending) :
    IsEnclosed ('<' :: (s ++ t ++ ending.written)) := by
  cases ending with
  | plain => exact ⟨s ++ t, rfl⟩
  | slash => exact ⟨s ++ t ++ ['/'], by simp [Ending.written]⟩

/-- Output on a new line, or apart from the output so far, adds its content. -/
theorem content_emit {content : Text → Text} (h : IsContent content) (p : Page) {s : Text}
    {newLine : Bool} (hcut : newLine ∨ StartsApart s ∨ EndsApart p.output) :
    content (p.emit s newLine).output = content p.output ++ content s := by
  rw [Page.output_emit]
  cases newLine with
  | true =>
    rw [if_pos rfl, h.append_of_startsApart _ (startsApart_onNewLine p.depth s), h.onNewLine_eq]
  | false =>
    rw [if_neg (by simp)]
    rcases hcut with hfalse | hs | hp
    · simp at hfalse
    · exact h.append_of_startsApart _ hs
    · exact h.append_of_endsApart hp _

theorem endsApart_emit (p : Page) {s : Text} (hs : IsEnclosed s) (newLine : Bool) :
    EndsApart (p.emit s newLine).output := by
  rw [Page.output_emit]
  cases newLine with
  | true =>
    rw [if_pos rfl, onNewLine, hs.trim_eq, ← List.cons_append, ← List.append_assoc]
    exact hs.endsApart_append _
  | false =>
    rw [if_neg (by simp)]
    exact hs.endsApart_append _

/-- A tag or a code tag that is put out adds its content, and what follows it stands apart. -/
theorem content_emit_enclosed {content : Text → Text} (h : IsContent content) (p : Page) {s : Text}
    (hs : IsEnclosed s) (newLine : Bool) :
    content (p.emit s newLine).output = content p.output ++ content s ∧
      EndsApart (p.emit s newLine).output :=
  ⟨content_emit h p (Or.inr (Or.inl hs.startsApart)), endsApart_emit p hs newLine⟩

/-- The code of a tag between its delimiters has the content of the tag. -/
theorem content_render {content : Text → Text} (h : IsContent content) {tag : CodeTag}
    (htag : tag.IsRead) :
    content (tag.render tag.code) = content tag.written := by
  have hopen : EndsApart tag.opening := by
    rcases htag.opening with ho | ho | ho | ho <;> rw [ho] <;> simp [EndsApart] <;> decide
  have hclose : StartsApart tag.closing := by
    rcases htag.closing with hc | hc <;> rw [hc] <;> exact startsApart_cons (by decide) _
  have hspace : ∀ c ∈ (if tag.code.head? == some '#' then [] else [' '] : Text), isBlank c := by
    intro c hc
    split at hc
    · simp at hc
    · obtain rfl : c = ' ' := by simpa using hc
      decide
  have hwritten : content tag.written = content tag.opening ++
      (content tag.code ++ content tag.closing) := by
    rw [CodeTag.written, h.append_of_startsApart _ hclose, h.append_blank _ htag.trail]
    simp only [List.append_assoc]
    rw [h.append_of_endsApart hopen, h.blank_append htag.lead]
    simp
  have hrender : content (tag.render tag.code) =
      content tag.opening ++ (content tag.code ++ content tag.closing) := by
    rw [CodeTag.render, h.append_blank_cons _ (by decide)]
    simp only [List.append_assoc]
    rw [h.append_of_endsApart hopen, h.blank_append hspace]
    simp
  rw [hrender, hwritten]

theorem isEnclosed_render {tag : CodeTag} (htag : tag.IsRead) (code : Text) :
    IsEnclosed (tag.render code) := by
  have hrender : tag.render code =
      tag.opening ++ ((if code.head? == some '#' then [] else [' ']) ++ code ++ [' ']) ++
      tag.closing := by
    simp [CodeTag.render]
  rw [hrender]
  exact htag.exists_enclosed _

/-- The attributes of an opening tag as they are written; other lexemes have none. -/
def Markup.Lexeme.attributes : Lexeme → Text
  | .tag (.opening _ attributes _ _) => attributes
  | _ => []

/-- Content sees the same of the attributes of a tag before and after they are laid out. -/
def Markup.Lexeme.IsKept (content : Text → Text) (l : Lexeme) : Prop :=
  HasPlainBlanks l.attributes ∧ ∀ a ∈ attributesOf l.attributes, QuotesUnseen content a

namespace Job

variable {j : Job} {content : Text → Text}

/-- Lines put out one after the other add their contents. -/
theorem content_foldl_emit (h : IsContent content) (lines : List Text) (q : Page) (newLine : Bool)
    (hq : newLine ∨ EndsApart q.output) :
    content (lines.foldl (fun acc line => (acc.1.emit line acc.2, true)) (q, newLine)).1.output =
      content q.output ++ lines.flatMap content := by
  induction lines generalizing q newLine with
  | nil => simp
  | cons line lines ih =>
    have hcut : newLine ∨ StartsApart line ∨ EndsApart q.output := hq.imp_right Or.inr
    rw [List.foldl_cons, ih _ _ (Or.inl rfl), content_emit h q hcut, List.flatMap_cons,
      List.append_assoc]

/-- Running text laid out after a delimiter adds its content. -/
theorem content_layText (h : IsContent content) (s : Text) (tail : Nat) {p : Page}
    (hp : EndsApart p.output) :
    content (j.layText s tail p).output = content p.output ++ content s := by
  unfold layText
  split
  next hempty =>
    have hnil : s = [] := by simpa using hempty
    rw [hnil, h.nil, List.append_nil]
  next =>
    dsimp only
    have hline := h.reflow_eq j.width (j.room p)
      (j.options.lineWidth - j.width (lastLine p.output)) tail s
    generalize reflow j.width (j.room p) (j.options.lineWidth - j.width (lastLine p.output))
      tail s = laid at hline ⊢
    have hall := content_foldl_emit h laid.lines (p.note (.text s)) laid.onNewLine (Or.inr hp)
    rw [hline] at hall
    split
    · rw [h.append_blank _ (by simp; decide)]
      exact hall
    · exact hall

/-- No formatter of code and no order of classes is given. -/
structure IsPlain (j : Job) : Prop where
  formatCode : ∀ code width, j.options.formatCode code width = none
  ranking : j.options.ranking = none

theorem layCode_eq (hj : ∀ code width, j.options.formatCode code width = none) (code : Text)
    (p : Page) :
    (j.layCode code p).1 = code := by
  simp [layCode, formatted?, hj]

theorem layOpener_eq (hj : ∀ code width, j.options.formatCode code width = none) (code : Text)
    (p : Page) :
    (j.layOpener code p).1 = code := by
  unfold layOpener
  split
  · rfl
  · simp [formatted?, hj]

theorem output_layOpener (j : Job) (code : Text) (p : Page) :
    (j.layOpener code p).2.output = p.output := by
  unfold layOpener
  split <;> rfl

/-- Whatever its kind, a code tag is put out between its delimiters. -/
theorem exists_emit_of_layCodeTag (hj : ∀ code width, j.options.formatCode code width = none)
    {code : Text} {tag : CodeTag} {newLine : Bool} {p p' : Page}
    (htag : CodeTag.ofText? code = some tag) (h : j.layCodeTag code newLine p = .ok p') :
    ∃ q : Page, q.output = p.output ∧ p'.output =
      (q.emit (tag.render tag.code) newLine).output := by
  unfold layCodeTag at h
  rw [htag] at h
  dsimp only at h
  have hpop : ∀ next : Page → Page,
    (∀ q, (next q).output = (q.emit (tag.render tag.code) newLine).output) →
      (p.pop .code (j.table.restore code) >>= fun q => .ok (next q)) = .ok p' →
      ∃ q : Page, q.output = p.output ∧ p'.output =
          (q.emit (tag.render tag.code) newLine).output := by
    intro next hnext hbind
    obtain ⟨q, hq, hp'⟩ := bind_eq_ok hbind
    exact ⟨q, Page.output_pop hq, by rw [← Except.ok.inj hp', hnext]⟩
  cases hkind : Kind.of j.options.probe tag.code with
  | comment =>
    rw [hkind] at h
    exact ⟨p, rfl, by rw [← Except.ok.inj h]⟩
  | closer =>
    rw [hkind] at h
    exact hpop (fun q => q.emit (tag.render tag.code) newLine) (fun _ => rfl) h
  | reopener =>
    rw [hkind] at h
    exact hpop (fun q => (q.emit (tag.render tag.code) newLine).push (.code tag.code))
      (fun _ => rfl) h
  | opener =>
    rw [hkind] at h
    refine ⟨(j.layOpener tag.code p).2, j.output_layOpener tag.code p, ?_⟩
    rw [← Except.ok.inj h, layOpener_eq hj]
    rfl
  | standalone =>
    rw [hkind] at h
    refine ⟨(j.layCode tag.code p).2, rfl, ?_⟩
    rw [← Except.ok.inj h, layCode_eq hj]
  | expression =>
    rw [hkind] at h
    refine ⟨(j.layCode tag.code p).2, rfl, ?_⟩
    rw [← Except.ok.inj h, layCode_eq hj]

theorem content_layCodeTag (h : Restores j.table content) (hj : j.IsPlain) {digits code : Text}
    {newLine : Bool} {p p' : Page} (hcode : j.table.code? digits = some code)
    (hlay : j.layCodeTag code newLine p = .ok p') :
    content p'.output = content p.output ++ content code ∧ EndsApart p'.output := by
  obtain ⟨tag, htag, hread, hwritten⟩ := h.isCode hcode
  obtain ⟨q, hq, hp'⟩ := exists_emit_of_layCodeTag hj.formatCode htag hlay
  have hemit := content_emit_enclosed h.toIsContent q (isEnclosed_render hread tag.code) newLine
  rwa [← hp', hq, content_render h.toIsContent hread, hwritten] at hemit

theorem content_layPieces (h : Restores j.table content) (hj : j.IsPlain)
    {pieces : List (Text × Text × Text)}
    (hpieces : ∀ x ∈ pieces, ∃ digits, j.table.code? digits = some x.2.2 ∧
      x.2.1 = markers.written digits) {offset : Nat} {p p' : Page} (hp : EndsApart p.output)
    (hlay : j.layPieces offset pieces p = .ok p') :
    content p'.output = content p.output ++ pieces.flatMap (fun x => content x.1 ++ content x.2.2) ∧
      EndsApart p'.output := by
  induction pieces generalizing offset p with
  | nil =>
    obtain rfl := Except.ok.inj hlay
    exact ⟨by simp, hp⟩
  | cons x pieces ih =>
    obtain ⟨before, written, code⟩ := x
    obtain ⟨digits, hcode, -⟩ := hpieces _ List.mem_cons_self
    have htext := content_layText (j := j) h.toIsContent before 0 hp
    unfold layPieces at hlay
    dsimp only at hlay
    obtain ⟨q, hstep, hrest⟩ := bind_eq_ok hlay
    obtain ⟨hq, hend⟩ := content_layCodeTag h hj hcode hstep
    obtain ⟨hp', hend'⟩ := ih (fun y hy => hpieces y (List.mem_cons_of_mem _ hy)) hend hrest
    refine ⟨?_, hend'⟩
    rw [hp', hq, htext]
    simp

theorem code?_of_mem_codePieces {table : MarkerTable} {before : Text} {found : List (Text × Text)}
    {tail : Text} :
    ∀ x ∈ (codePieces table before found tail).1,
      ∃ digits, table.code? digits = some x.2.2 ∧ x.2.1 = markers.written digits := by
  induction found generalizing before with
  | nil => simp [codePieces]
  | cons y found ih =>
    obtain ⟨b, digits⟩ := y
    unfold codePieces
    split
    next code hcode =>
      intro x hx
      rcases List.mem_cons.mp hx with rfl | hx
      · exact ⟨digits, hcode, rfl⟩
      · exact ih x hx
    next => exact ih

theorem content_codePieces (h : Restores j.table content) (before : Text)
    (found : List (Text × Text)) (tail : Text) :
    content (before ++ (found.flatMap (fun x => x.1 ++ markers.written x.2) ++ tail)) =
      (codePieces j.table before found tail).1.flatMap (fun x => content x.1 ++ content x.2.2) ++
        content (codePieces j.table before found tail).2 := by
  induction found generalizing before with
  | nil => simp [codePieces]
  | cons y found ih =>
    obtain ⟨b, digits⟩ := y
    unfold codePieces
    split
    next code hcode =>
      have hrest := ih []
      rw [List.nil_append] at hrest
      have htext : before ++ (((b, digits) :: found).flatMap
        (fun x => x.1 ++ markers.written x.2) ++ tail) =
          (before ++ b) ++ (markers.written digits ++
            (found.flatMap (fun x => x.1 ++ markers.written x.2) ++ tail)) := by simp
      rw [htext, h.code_eq hcode, hrest]
      simp
    next =>
      -- a marker of no code stays in the text before the next piece
      have hrest := ih (before ++ b ++ markers.written digits)
      rw [← hrest]
      simp

theorem content_layTextToken (h : Restores j.table content) (hj : j.IsPlain) {offset : Nat}
    {s : Text} {tail : Nat} {p p' : Page} (hp : EndsApart p.output)
    (hlay : j.layTextToken offset s tail p = .ok p') :
    content p'.output = content p.output ++ content s := by
  unfold layTextToken at hlay
  split at hlay
  · simp at hlay
  · dsimp only at hlay
    have hwhole := content_codePieces h [] (markers.split s).1 (markers.split s).2
    rw [List.nil_append, markers.flatten_split s] at hwhole
    obtain ⟨q, hpieces, hp'⟩ := bind_eq_ok hlay
    obtain ⟨hq, hend⟩ := content_layPieces h hj code?_of_mem_codePieces hp hpieces
    rw [← Except.ok.inj hp', content_layText h.toIsContent _ _ hend, hq, hwhole, List.append_assoc]

/-- An opening tag with its attributes laid out has the content of the tag as it is written. -/
theorem content_opening (h : IsContent content) (name : Text) {attributes laid gap : Text}
    (ending : Ending) (hlaid : content laid = content attributes)
    (hattributes : StartsApart attributes) (hstart : StartsApart laid)
    (hgap : ∀ c ∈ gap, isBlank c) :
    content ('<' :: (name ++ laid ++ ending.written)) =
      content (Tag.opening name attributes gap ending).written := by
  have hend : StartsApart ending.written := by
    cases ending <;> exact startsApart_cons (by decide) _
  rw [Tag.written, h.cons (by decide) (name ++ laid ++ ending.written),
    h.cons (by decide) (name ++ attributes ++ gap ++ ending.written),
    h.append_of_startsApart _ hend, h.append_of_startsApart _ hend, h.append_blank _ hgap,
    h.append_of_startsApart name hstart, h.append_of_startsApart name hattributes, hlaid]

theorem content_layOpening (h : IsContent content) (hj : j.IsPlain) {name gap : Text}
    {l : List SpacedAttribute} {ending : Ending} {newLine : Bool} {p p' : Page}
    (hgap : ∀ c ∈ gap, isBlank c) (hplain : HasPlainBlanks (l.flatMap SpacedAttribute.text))
    (hunseen : ∀ x ∈ l, QuotesUnseen content x.parsed)
    (hlay : j.layOpening name (l.flatMap SpacedAttribute.text) ending newLine p = .ok p') :
    content p'.output =
        content p.output ++ content (Tag.opening name (l.flatMap SpacedAttribute.text) gap
          ending).written ∧
      EndsApart p'.output := by
  unfold layOpening at hlay
  split at hlay
  · simp at hlay
  · dsimp only at hlay
    generalize hlaid : formatAttributes ⟨j.options.lineWidth, j.options.singleClassPerLine,
      j.options.ranking⟩
      j.width name (trim (l.flatMap SpacedAttribute.text)) ending.written p.depth = laid at hlay
    have hcontent : content laid = content (l.flatMap SpacedAttribute.text) := by
      rw [← hlaid]
      exact h.formatAttributes_eq hplain hunseen hj.ranking j.width name ending.written p.depth
    have hstart : StartsApart laid := hlaid ▸ startsApart_formatAttributes _ _ _ _ _ _
    have hlist : StartsApart (l.flatMap SpacedAttribute.text) :=
      startsApart_flatMap fun x _ => startsApart_text x
    have hemit := content_emit_enclosed h p (isEnclosed_opening name laid ending) newLine
    rw [content_opening h name ending hcontent hlist hstart hgap] at hemit
    rw [← Except.ok.inj hlay]
    -- whether a block is opened or not, the output is the same
    split
    · exact hemit
    · exact hemit

/-- A closing tag without the blanks in it has the content of the tag as it is written. -/
theorem content_closing (h : IsContent content) (name : Text) {lead trail : Text}
    (hlead : ∀ c ∈ lead, isBlank c) (htrail : ∀ c ∈ trail, isBlank c) :
    content ('<' :: '/' :: (name ++ ['>'])) = content (Tag.closing lead name trail).written := by
  have hstart : ∀ s, content ('<' :: '/' :: s) = content ['<', '/'] ++ content s :=
    fun s => h.append_of_endsApart (endsApart_concat (s := ['<']) (by decide)) s
  have hend : StartsApart ['>'] := startsApart_cons (by decide) []
  rw [Tag.written, hstart (name ++ ['>']), hstart (lead ++ name ++ trail ++ ['>']),
    h.append_of_startsApart name hend, h.append_of_startsApart _ hend, h.append_blank _ htrail,
    h.blank_append hlead]

theorem content_layClosing (h : IsContent content) {lead name trail : Text} {newLine : Bool}
    {p p' : Page} (hlead : ∀ c ∈ lead, isBlank c) (htrail : ∀ c ∈ trail, isBlank c)
    (hlay : layClosing name newLine p = .ok p') :
    content p'.output = content p.output ++ content (Tag.closing lead name trail).written ∧
      EndsApart p'.output := by
  have hcontent := content_closing h name hlead htrail
  obtain ⟨q, hpop, hp'⟩ := bind_eq_ok hlay
  have hemit := content_emit_enclosed h q (s := '<' :: '/' :: (name ++ ['>']))
    ⟨'/' :: name, rfl⟩ newLine
  rw [hcontent, Page.output_pop hpop] at hemit
  rw [← Except.ok.inj hp']
  exact hemit

/-- A token laid out adds its content, if it is a tag or stands right after one. -/
theorem content_layToken (h : Restores j.table content) (hj : j.IsPlain) {t : Token}
    (hfits : t.lexeme.Fits t.lexeme.written) (hkept : t.lexeme.IsKept content)
    {following : List Token} {p p' : Page} (hp : t.lexeme.IsTag ∨ EndsApart p.output)
    (hlay : j.layToken t following p = .ok p') :
    content p'.output = content p.output ++ content t.lexeme.written ∧
      (t.lexeme.IsTag → EndsApart p'.output) := by
  unfold layToken at hlay
  dsimp only at hlay
  cases hl : t.lexeme with
  | text s =>
    rw [hl] at hlay hp
    have hp : EndsApart p.output := hp.resolve_left id
    exact ⟨content_layTextToken h hj (p := { p with position := t.offset }) hp hlay, False.elim⟩
  | raw s =>
    rw [hl] at hlay hp
    have hp : EndsApart p.output := hp.resolve_left id
    rw [← Except.ok.inj hlay, Page.output_append, h.append_of_endsApart hp, h.trimEnd_eq]
    exact ⟨rfl, False.elim⟩
  | unrecognized s =>
    rw [hl] at hlay
    simp at hlay
  | tag tag =>
    rw [hl] at hlay hfits hkept
    have hrun := hfits []
    have hread := tag?_eq_some_isRead hrun
    cases tag with
    | opening name attributes gap ending =>
      obtain ⟨l, rfl⟩ := exists_attributes_of_run hrun
      obtain ⟨hplain, hunseen⟩ := hkept
      have hparsed : ∀ x ∈ l, QuotesUnseen content x.parsed := by
        intro x hx
        apply hunseen
        rw [Lexeme.attributes, (attributesOf_flatMap hplain).1]
        exact List.mem_map_of_mem hx
      obtain ⟨hcontent, hend⟩ := content_layOpening h.toIsContent hj hread.2 hplain hparsed hlay
      exact ⟨hcontent, fun _ => hend⟩
    | closing lead name trail =>
      obtain ⟨hcontent, hend⟩ := content_layClosing h.toIsContent hread.1 hread.2.2 hlay
      exact ⟨hcontent, fun _ => hend⟩

theorem content_layTokens (h : Restores j.table content) (hj : j.IsPlain) {ts : List Token}
    (hfits : ∀ t ∈ ts, t.lexeme.Fits t.lexeme.written) (hkept : ∀ t ∈ ts, t.lexeme.IsKept content)
    (hchain : (ts.map Token.lexeme).IsChain fun l l' => l.IsTag ∨ l'.IsTag) {p p' : Page}
    (hp : (∀ t ∈ ts.head?, t.lexeme.IsTag) ∨ EndsApart p.output)
    (hlay : j.layTokens ts p = .ok p') :
    content p'.output = content p.output ++ ts.flatMap fun t => content t.lexeme.written := by
  -- carried along: the next token is a tag, or the output ends apart from it
  induction ts generalizing p with
  | nil =>
    obtain rfl := Except.ok.inj hlay
    simp
  | cons t ts ih =>
    obtain ⟨q, hstep, hrest⟩ := bind_eq_ok hlay
    have hfirst : t.lexeme.IsTag ∨ EndsApart p.output := hp.imp_left fun ht => ht t rfl
    obtain ⟨hq, hend⟩ := content_layToken h hj (hfits t List.mem_cons_self)
      (hkept t List.mem_cons_self) hfirst hstep
    have hnext : (∀ u ∈ ts.head?, u.lexeme.IsTag) ∨ EndsApart q.output := by
      cases ts with
      | nil => exact Or.inl (by simp)
      | cons u ts =>
        rw [List.map_cons, List.map_cons, List.isChain_cons_cons] at hchain
        rcases hchain.1 with ht | hu
        · exact Or.inr (hend ht)
        · exact Or.inl (by simpa using hu)
    rw [ih (fun u hu => hfits u (List.mem_cons_of_mem t hu))
      (fun u hu => hkept u (List.mem_cons_of_mem t hu))
      hchain.of_cons hnext hrest, hq, List.flatMap_cons, List.append_assoc]

end Job

theorem isEnclosed_written (t : Tag) : IsEnclosed t.written := by
  cases t with
  | closing lead name trail => exact ⟨'/' :: (lead ++ name ++ trail), rfl⟩
  | opening name attributes gap ending => exact isEnclosed_opening (name ++ attributes) gap ending

theorem Markup.Lexeme.IsTag.isEnclosed {l : Lexeme} (h : l.IsTag) : IsEnclosed l.written := by
  cases l with
  | tag t => exact isEnclosed_written t
  | text s => exact h.elim
  | raw s => exact h.elim
  | unrecognized s => exact h.elim

/-- The view of lexemes, of any two neighbours one a tag, is that of each alone. -/
theorem view_flatMap_written {view : Text → Text} (h : IsParted view) {ls : List Lexeme}
    (hchain : ls.IsChain fun l l' => l.IsTag ∨ l'.IsTag) :
    view (ls.flatMap Lexeme.written) = ls.flatMap fun l => view l.written := by
  induction ls with
  | nil => exact h.nil
  | cons l ls ih =>
    rw [List.flatMap_cons, List.flatMap_cons, ← ih hchain.of_cons]
    cases ls with
    | nil => simp [h.nil]
    | cons l' ls =>
      rcases (List.isChain_cons_cons.mp hchain).1 with hl | hl'
      · have hend : EndsApart l.written := by simpa using hl.isEnclosed.endsApart_append []
        exact h.append_of_endsApart hend _
      · obtain ⟨u, hu⟩ := hl'.isEnclosed
        have hstart : StartsApart ((l' :: ls).flatMap Lexeme.written) := by
          rw [List.flatMap_cons, hu]
          exact startsApart_cons (by decide) _
        exact h.append_of_startsApart _ hstart

theorem content_layBody {j : Job} {content : Text → Text} (h : Restores j.table content)
    (hj : j.IsPlain) {body : Text} {p : Page} (hkept : ∀ t ∈ tokens body, t.lexeme.IsKept content)
    (hlay : j.layBody body = .ok p) : content p.output = content body := by
  have hchain : (lexemes body).IsChain fun l l' => l.IsTag ∨ l'.IsTag := isChain_lexemesIn none body
  have hbody : content body = (lexemes body).flatMap fun l => content l.written := by
    rw [← view_flatMap_written h.toIsParted hchain, lexemes, flatMap_lexemesIn]
  have hblank : content Page.blank.output = [] := h.nil
  rcases j.layBody_cases body with ⟨stop, -, hstop⟩ | ⟨q, hq, -, hdone⟩ | ⟨q, -, -, hstop⟩
  · simp [hlay] at hstop
  · have hcontent := Job.content_layTokens h hj (fun t ht => fits_of_mem_tokens ht) hkept
      (map_lexeme_tokens body ▸ hchain) (Or.inr endsApart_nil) hq
    obtain rfl := Except.ok.inj (hlay.symm.trans hdone)
    rw [hcontent, hblank, List.nil_append, hbody, ← map_lexeme_tokens, List.flatMap_map]
  · simp [hlay] at hstop

theorem isContent_filter {keep : Char → Bool} (hkeep : ∀ c, isBlank c → keep c = false) :
    IsContent (List.filter keep) where
  nil := rfl
  cut s c t _ := by
    rw [List.filter_append]
    cases hc : keep c <;> simp [hc]
  blank c hc := by simp [hkeep c hc]

/-- What is taken out of a body as code is a code tag. -/
theorem exists_codeTag_of_code? {body digits code : Text}
    (h : (extractCode body).2.code? digits = some code) :
    ∃ tag, CodeTag.ofText? code = some tag ∧ tag.IsRead ∧ tag.written = code := by
  obtain ⟨-, x, hx, rfl⟩ := exists_mem_codesOf h
  obtain ⟨tag, v, r, hrun, heq⟩ := exists_run_of_mem_codesOf hx
  exact ⟨tag, heq ▸ ofText?_written hrun, isRead_of_run hrun, heq.symm⟩

/-- The characters of a kind that blanks are not of, once the code is put back, are a content that
sees code markers as code. -/
theorem restores_filter (body : Text) {keep : Char → Bool}
    (hkeep : ∀ c, isBlank c → keep c = false) :
    Restores (extractCode body).2 fun s => ((extractCode body).2.restore s).filter keep where
  nil := by
    rw [restore_nil]
    rfl
  cut s c t hc := by
    rw [restore_append_cons _ s hc t, restore_singleton _ hc]
    exact (isContent_filter hkeep).cut _ c _ hc
  blank c hc := by
    rw [restore_singleton _ (isMarkerChar_eq_false_of_isBlank hc)]
    exact (isContent_filter hkeep).blank c hc
  code_eq h s t := by
    simp only [restore_append_marker h, List.filter_append]
  isCode := exists_codeTag_of_code?

/-- Putting front matter and body together adds line feeds only. -/
theorem filter_attachFrontMatter {keep : Char → Bool} (hkeep : keep '\n' = false)
    (frontMatter : Option Text) (body : Text) :
    (attachFrontMatter frontMatter body).filter keep =
      (frontMatter.getD []).filter keep ++ body.filter keep := by
  unfold attachFrontMatter
  cases frontMatter with
  | none => simp [hkeep]
  | some matter =>
    dsimp only
    have hmatter : (if matter.getLast? == some '\n' then matter else matter ++ ['\n']).filter keep =
        matter.filter keep := by
      split <;> simp [hkeep]
    split
    next hempty =>
      have hnil : body = [] := by simpa using hempty
      rw [hmatter, hnil]
      simp
    next =>
      rw [List.filter_append, hmatter]
      simp [hkeep]

/-- A document that is laid out keeps its characters of a kind that blanks are not of. -/
theorem filter_formatDocument {options : Options} {source out : Text} {keep : Char → Bool}
    (hkeep : ∀ c, isBlank c → keep c = false)
    (hcode : ∀ code width, options.formatCode code width = none) (hranking : options.ranking = none)
    (hkept : ∀ t ∈ tokens (markedBody source).1, t.lexeme.IsKept fun s =>
      ((markedBody source).2.restore s).filter keep)
    (hout : formatDocument options source = .ok out) : out.filter keep = source.filter keep := by
  rw [formatDocument_eq] at hout
  split at hout
  next page hpage =>
    have hbody : ((markedBody source).2.restore page.output).filter keep =
        ((markedBody source).2.restore (markedBody source).1).filter keep :=
      content_layBody (restores_filter (splitFrontMatter source).2 hkeep)
        ⟨hcode, hranking⟩ hkept hpage
    have hrestore : (markedBody source).2.restore (markedBody source).1 =
        (splitFrontMatter source).2 :=
      restore_extractCode (splitFrontMatter source).2
    obtain rfl := Except.ok.inj hout
    rw [filter_attachFrontMatter (hkeep '\n' (by decide)), (isContent_filter hkeep).trim_eq,
      hbody, hrestore, ← List.filter_append, splitFrontMatter_append]
  next => simp at hout

/-- In every opening tag the only blanks between attributes and in them are those that no attribute
name can hold. -/
def HasPlainTags (body : Text) : Prop := ∀ t ∈ tokens body, HasPlainBlanks t.lexeme.attributes

/-- No opening tag has an attribute with a value without quotes. -/
def IsQuoted (body : Text) : Prop :=
  ∀ t ∈ tokens body, ∀ a ∈ attributesOf t.lexeme.attributes, a.value.isSome → a.quote ≠ .bare

instance (body : Text) : Decidable (HasPlainTags body) :=
  inferInstanceAs (Decidable (∀ t ∈ tokens body, HasPlainBlanks t.lexeme.attributes))

instance (body : Text) : Decidable (IsQuoted body) :=
  inferInstanceAs (Decidable (∀ t ∈ tokens body, ∀ a ∈ attributesOf t.lexeme.attributes,
    a.value.isSome → a.quote ≠ .bare))

theorem isKept_of_hasPlainTags {body : Text} {content : Text → Text} (hplain : HasPlainTags body)
    (hunseen : content ['"'] = [] ∨ IsQuoted body) :
    ∀ t ∈ tokens body, t.lexeme.IsKept content := by
  intro t ht
  refine ⟨hplain t ht, ?_⟩
  intro a ha hvalue hbare
  rcases hunseen with hmark | hquoted
  · exact hmark
  · exact absurd hbare (hquoted t ht a ha hvalue)

/-- A document that is laid out keeps its content. Without a formatter of code and without an order
of classes, and with plain blanks only in the attributes of its tags, the document and what is laid
out are the same but for blanks and quotation marks; when every value is quoted, they are the same
but for blanks. -/
theorem formatDocument_preserves_content (options : Options)
    (hcode : ∀ code width, options.formatCode code width = none) (hranking : options.ranking = none)
    (source out : Text) (hplain : HasPlainTags (markedBody source).1)
    (hout : formatDocument options source = .ok out) :
    (out.filter (fun c => !isBlank c && c != '"') = source.filter fun c => !isBlank c && c != '"') ∧
      (IsQuoted (markedBody source).1 → out.filter (fun c => !isBlank c) = source.filter fun c =>
        !isBlank c) := by
  have hmark : ((markedBody source).2.restore ['"']).filter (fun c => !isBlank c &&
      c != '"') = [] := by
    rw [restore_singleton _ (by decide)]
    decide
  constructor
  · exact filter_formatDocument (by simp +contextual) hcode hranking
      (isKept_of_hasPlainTags hplain (Or.inl hmark)) hout
  · intro hquoted
    exact filter_formatDocument (by simp +contextual) hcode hranking
      (isKept_of_hasPlainTags hplain (Or.inr hquoted)) hout

theorem formatDocument_preserves_content_quoted :
    HasPlainTags (markedBody "<p id='a'\tb>x <%=y%></p>".toList).1 ∧
      IsQuoted (markedBody "<p id='a'\tb>x <%=y%></p>".toList).1 ∧
      formatDocument {} "<p id='a'\tb>x <%=y%></p>".toList =
        .ok "<p id='a' b>x\n  <%= y %></p>\n".toList ∧
      "<p id='a' b>x\n  <%= y %></p>\n".toList.filter (fun c => !isBlank c) =
        "<p id='a'\tb>x <%=y%></p>".toList.filter fun c => !isBlank c := by
  have hplain : HasPlainTags (markedBody "<p id='a'\tb>x <%=y%></p>".toList).1 := by decide +kernel
  have hquoted : IsQuoted (markedBody "<p id='a'\tb>x <%=y%></p>".toList).1 := by decide +kernel
  have hout : formatDocument {} "<p id='a'\tb>x <%=y%></p>".toList =
      .ok "<p id='a' b>x\n  <%= y %></p>\n".toList := by decide +kernel
  exact ⟨hplain, hquoted, hout,
    (formatDocument_preserves_content {} (fun _ _ => rfl) rfl _ _ hplain hout).2 hquoted⟩

end ErbLayout
