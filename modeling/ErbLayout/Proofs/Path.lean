import ErbLayout.Path
import ErbLayout.Proofs.Text.Pieces
import Mathlib.Data.List.DropRight
import Mathlib.Data.List.Infix

/-!
Paths through their components. What a path means is decided by its components: whether it starts at
the root, and the names and double dots that remain of its pieces. Joining a name adds a component,
a parent has one component less, and the ancestors of a path are the beginnings of its components,
the longest first.
-/

namespace ErbLayout.Path

open Text

section Pieces

theorem pieces_eq_splitOn (s : Text) : pieces s = s.splitOn '/' := splitAt_eq_splitOn '/' s

theorem join_pieces (s : Text) : Text.join ['/'] (pieces s) = s := join_splitAt '/' s

theorem pieces_append_slash (s t : Text) : pieces (s ++ '/' :: t) = pieces s ++ pieces t :=
  splitAt_append_cons '/' s t

theorem pieces_slash (s : Text) : pieces ('/' :: s) = [] :: pieces s := pieces_append_slash [] s

theorem pieces_of_notMem {s : Text} (h : '/' ∉ s) : pieces s = [s] := splitAt_of_notMem h

theorem pieces_join {ps : List Text} (hne : ps ≠ []) (hps : ∀ p ∈ ps, '/' ∉ p) :
    pieces (Text.join ['/'] ps) = ps :=
  splitAt_join hne hps

theorem slash_notMem_of_mem_pieces {s piece : Text} (h : piece ∈ pieces s) : '/' ∉ piece :=
  notMem_of_mem_splitAt h

end Pieces

section Components

def lead (p : Path) : List Component :=
  if p.isAbsolute then [.root] else if (pieces p).head? = some ['.'] then [.here] else []

theorem componentOf_nil : componentOf [] = none := rfl

theorem componentOf_dot : componentOf ['.'] = none := rfl

theorem componentOf_ne_root (piece : Text) : componentOf piece ≠ some .root := by
  unfold componentOf
  split
  · simp
  · split <;> simp

theorem componentOf_ne_here (piece : Text) : componentOf piece ≠ some .here := by
  unfold componentOf
  split
  · simp
  · split <;> simp

theorem componentOf_eq_none_iff {piece : Text} : componentOf piece = none ↔ isIdle piece := by
  unfold componentOf
  split
  next h => simp [h]
  next h => split <;> simp [h]

/-- A path starts at the root, with a dot, or with another piece; its body is what its pieces are
after that. -/
theorem body_cases (p : Path) :
    (∃ r, p = '/' :: r ∧ p.head = ['/'] ∧ p.body = pieces r) ∨
      (∃ rest, p.isAbsolute = false ∧ pieces p = ['.'] :: rest ∧ p.head = ['.'] ∧
        p.body = [] :: rest) ∨
      p.isAbsolute = false ∧ (pieces p).head? ≠ some ['.'] ∧ p.head = [] ∧ p.body = pieces p := by
  cases habs : p.isAbsolute with
  | true =>
    obtain ⟨r, rfl⟩ : ∃ r, p = '/' :: r :=
      List.head?_eq_some_iff.mp (by simpa [isAbsolute] using habs)
    have hhead : head ('/' :: r) = ['/'] := by rw [head, habs, if_pos rfl]
    exact Or.inl ⟨r, rfl, hhead, by rw [body, hhead]; rfl⟩
  | false =>
    by_cases hdot : (pieces p).head? = some ['.']
    · have hhead : head p = ['.'] := by simp [head, habs, hdot]
      refine Or.inr (Or.inl ?_)
      obtain ⟨rest, hrest⟩ := List.head?_eq_some_iff.mp hdot
      refine ⟨rest, rfl, hrest, hhead, ?_⟩
      have hp : p = Text.join ['/'] (['.'] :: rest) := by rw [← hrest, join_pieces]
      have hslash : ∀ q ∈ [] :: rest, '/' ∉ q := by
        intro q hq
        rcases List.mem_cons.mp hq with rfl | hq
        · exact List.not_mem_nil
        · exact slash_notMem_of_mem_pieces (s := p) (by rw [hrest]; exact List.mem_cons_of_mem _ hq)
      have hdrop : p.drop 1 = Text.join ['/'] ([] :: rest) := by
        rw [hp]
        cases rest with
        | nil => rfl
        | cons q rest => rfl
      rw [body, hhead]
      change pieces (p.drop 1) = [] :: rest
      rw [hdrop, pieces_join (List.cons_ne_nil _ _) hslash]
    · have hhead : head p = [] := by simp [head, habs, hdot]
      exact Or.inr (Or.inr ⟨rfl, hdot, hhead, by rw [body, hhead]; rfl⟩)

theorem components_eq_body (p : Path) : p.components = p.lead ++ p.body.filterMap componentOf := by
  rcases body_cases p with ⟨r, rfl, hhead, -⟩ | ⟨rest, habs, hpieces, hhead, -⟩ | ⟨habs,
    hdot, hhead, -⟩
  · have habs : isAbsolute ('/' :: r) = true := rfl
    simp [components, lead, hhead, habs]
  · simp [components, lead, hhead, habs, hpieces]
  · simp [components, lead, hhead, habs, hdot]

theorem components_eq (p : Path) : p.components = p.lead ++ (pieces p).filterMap componentOf := by
  rw [components_eq_body]
  rcases body_cases p with ⟨r, rfl, -, hbody⟩ | ⟨rest, -, hpieces, -, hbody⟩ | ⟨-, -, -, hbody⟩
  · rw [hbody, pieces_slash, List.filterMap_cons_none componentOf_nil]
  · rw [hbody, hpieces, List.filterMap_cons_none componentOf_nil,
      List.filterMap_cons_none componentOf_dot]
  · rw [hbody]

theorem isAbsolute_iff (p : Path) : p.isAbsolute = true ↔ p.components.head? = some .root := by
  have hnot : ∀ ps : List Text, (ps.filterMap componentOf).head? ≠ some .root := by
    intro ps h
    obtain ⟨piece, -, hpiece⟩ := List.mem_filterMap.mp (List.mem_of_head? h)
    exact componentOf_ne_root piece hpiece
  rw [components_eq, lead]
  split
  next habs => simp [habs]
  next habs =>
    split
    · simp [habs]
    · simpa [habs] using hnot (pieces p)

theorem components_nil : components [] = [] := rfl

theorem lead_of_relative {p : Path} (hp : p.isAbsolute = false) :
    p.lead = [] ∨ p.lead = [.here] := by
  rw [lead, hp]
  split
  · contradiction
  · split <;> simp

theorem here_notMem_filterMap (ps : List Text) : .here ∉ ps.filterMap componentOf := by
  intro h
  obtain ⟨piece, -, hpiece⟩ := List.mem_filterMap.mp h
  exact componentOf_ne_here piece hpiece

/-- The components of a relative path without the dot before them. -/
theorem filter_components {p : Path} (hp : p.isAbsolute = false) :
    p.components.filter (· ≠ .here) = (pieces p).filterMap componentOf := by
  have hlead : p.lead.filter (· ≠ .here) = [] := by
    rcases lead_of_relative hp with h | h <;> simp [h]
  have hkeep : ∀ c ∈ (pieces p).filterMap componentOf, decide (c ≠ .here) = true := by
    intro c hc
    rw [decide_eq_true_iff]
    rintro rfl
    exact here_notMem_filterMap (pieces p) hc
  rw [components_eq, List.filter_append, hlead, List.nil_append, List.filter_eq_self.mpr hkeep]

theorem isAbsolute_iff_pieces (p : Path) :
    p.isAbsolute = true ↔ ∃ rest, rest ≠ [] ∧ pieces p = [] :: rest := by
  constructor
  · intro habs
    obtain ⟨r, rfl⟩ : ∃ r, p = '/' :: r :=
      List.head?_eq_some_iff.mp (by simpa [isAbsolute] using habs)
    exact ⟨pieces r, by simp [pieces_eq_splitOn], pieces_slash r⟩
  · rintro ⟨rest, hne, hrest⟩
    obtain ⟨q, rest, rfl⟩ := List.exists_cons_of_ne_nil hne
    rw [← join_pieces p, hrest]
    rfl

end Components

section Parents

theorem filterMap_trimPieces (ps : List Text) :
    (trimPieces ps).filterMap componentOf = ps.filterMap componentOf := by
  change (ps.rdropWhile isIdle).filterMap componentOf = _
  induction ps using List.reverseRecOn with
  | nil => rfl
  | append_singleton ps piece ih =>
    by_cases hidle : isIdle piece
    · have hnone : componentOf piece = none := componentOf_eq_none_iff.mpr hidle
      rw [List.rdropWhile_concat_pos _ _ _ hidle, ih]
      simp [hnone]
    · rw [List.rdropWhile_concat_neg _ _ _ hidle]

theorem trimPieces_isPrefix (ps : List Text) : trimPieces ps <+: ps :=
  List.rdropWhile_prefix isIdle ps

/-- What remains of some pieces ends with one that stands for a component. -/
theorem exists_concat_of_trimPieces_ne_nil {ps : List Text} (h : trimPieces ps ≠ []) :
    ∃ front last c, trimPieces ps = front ++ [last] ∧ componentOf last = some c := by
  have hlast : ¬ isIdle ((trimPieces ps).getLast h) := List.rdropWhile_last_not isIdle ps h
  obtain ⟨c, hc⟩ := Option.ne_none_iff_exists'.mp fun hnone =>
    hlast (componentOf_eq_none_iff.mp hnone)
  exact ⟨_, _, c, (List.dropLast_append_getLast h).symm, hc⟩

theorem filterMap_pieces_join {ps : List Text} (hps : ∀ p ∈ ps, '/' ∉ p) :
    (pieces (Text.join ['/'] ps)).filterMap componentOf = ps.filterMap componentOf := by
  by_cases hne : ps = []
  · subst hne
    rfl
  · rw [pieces_join hne hps]

/-- The pieces after a first dot begin with an empty one, and what remains of them does not end with
it. -/
theorem components_dot_append_join {ps rest : List Text} (hps : ps <+: [] :: rest)
    (hslash : ∀ q ∈ ps, '/' ∉ q) :
    components ('.' :: Text.join ['/'] (trimPieces ps)) =
      .here :: (trimPieces ps).filterMap componentOf := by
  by_cases hnil : trimPieces ps = []
  · rw [hnil]
    rfl
  have hpre : trimPieces ps <+: [] :: rest := (trimPieces_isPrefix ps).trans hps
  obtain ⟨front, last, c, htrim, hc⟩ := exists_concat_of_trimPieces_ne_nil hnil
  obtain ⟨first, more, hmore⟩ := List.exists_cons_of_ne_nil hnil
  obtain rfl : first = [] := by
    rw [hmore] at hpre
    exact (List.cons_prefix_cons.mp hpre).1
  have hne : more ≠ [] := by
    rintro rfl
    rw [hmore, List.cons_eq_append_iff] at htrim
    rcases htrim with ⟨-, hlast⟩ | ⟨front', -, hlast⟩
    · obtain rfl : last = [] := by simpa using hlast.symm
      simp [componentOf_nil] at hc
    · simp at hlast
  obtain ⟨q, more, rfl⟩ := List.exists_cons_of_ne_nil hne
  have hslash' : ∀ r ∈ ['.'] :: q :: more, '/' ∉ r := by
    intro r hr
    rcases List.mem_cons.mp hr with rfl | hr
    · decide
    · exact hslash r ((trimPieces_isPrefix ps).subset (hmore ▸ List.mem_cons_of_mem _ hr))
  have hpieces := pieces_join (List.cons_ne_nil _ _) hslash'
  have habs : isAbsolute (Text.join ['/'] (['.'] :: q :: more)) = false := rfl
  rw [hmore]
  change components (Text.join ['/'] (['.'] :: q :: more)) = _
  rw [components_eq, hpieces]
  simp [lead, habs, hpieces, List.filterMap_cons, componentOf_nil, componentOf_dot]

/-- The first pieces of a relative path without a dot before it are a relative path without one
too. -/
theorem components_join_of_isPrefix {p : Path} (habs : p.isAbsolute = false)
    (hdot : (pieces p).head? ≠ some ['.']) {ps : List Text} (hps : ps <+: pieces p) :
    components (Text.join ['/'] ps) = ps.filterMap componentOf := by
  by_cases hnil : ps = []
  · rw [hnil]
    rfl
  have hpieces := pieces_join hnil fun q hq => slash_notMem_of_mem_pieces (hps.subset hq)
  obtain ⟨more, hmore⟩ := hps
  have hfirst : ps.head? = (pieces p).head? := by rw [← hmore, List.head?_append_of_ne_nil _ hnil]
  have habs' : ¬ isAbsolute (Text.join ['/'] ps) := by
    intro h
    obtain ⟨rest, hne, hrest⟩ := (isAbsolute_iff_pieces _).mp h
    rw [hpieces] at hrest
    rw [hrest] at hmore
    have : p.isAbsolute = true := (isAbsolute_iff_pieces p).mpr ⟨rest ++ more, by simp [hne],
      hmore.symm⟩
    simp [this] at habs
  rw [components_eq, hpieces]
  simp [lead, habs', hpieces, hfirst, hdot]

/-- A path that is cut after some of its pieces has the components of those pieces. -/
theorem components_head_append_join {p : Path} {ps : List Text} (hps : ps <+: p.body) :
    components (p.head ++ Text.join ['/'] (trimPieces ps)) =
      p.lead ++ ps.filterMap componentOf := by
  have hslash : ∀ q ∈ ps, '/' ∉ q := fun q hq => slash_notMem_of_mem_pieces (hps.subset hq)
  rw [← filterMap_trimPieces ps]
  rcases body_cases p with ⟨r, rfl, hhead, -⟩ | ⟨rest, habs, hpieces, hhead, hbody⟩ | ⟨habs, hdot,
    hhead, hbody⟩
  · rw [hhead, components_eq, List.singleton_append, pieces_slash,
      List.filterMap_cons_none componentOf_nil,
      filterMap_pieces_join fun q hq => hslash q ((trimPieces_isPrefix ps).subset hq)]
    rfl
  · have hlead : p.lead = [.here] := by simp [lead, habs, hpieces]
    rw [hhead, hlead]
    exact components_dot_append_join (hbody ▸ hps) hslash
  · have hlead : p.lead = [] := by simp [lead, habs, hdot]
    rw [hhead, hlead]
    exact components_join_of_isPrefix habs hdot ((trimPieces_isPrefix ps).trans (hbody ▸ hps))

/-- A parent has one component less, and that is not the root. -/
theorem components_of_parent? {p q : Path} (h : p.parent? = some q) :
    ∃ c, c ≠ .root ∧ p.components = q.components ++ [c] := by
  have hcomponents : p.components = p.lead ++ (trimPieces p.body).filterMap componentOf := by
    rw [components_eq_body, filterMap_trimPieces]
  unfold parent? at h
  split at h
  next hnil =>
    split at h
    next hdot =>
      cases h
      refine ⟨.here, by simp, ?_⟩
      rcases body_cases p with ⟨r, rfl, hhead, -⟩ | ⟨rest, habs, hpieces, -, -⟩ | ⟨-, -, hhead, -⟩
      · simp [hhead] at hdot
      · rw [hcomponents, hnil]
        simp [lead, habs, hpieces, components_nil]
      · simp [hhead] at hdot
    next => simp at h
  next hne =>
    cases h
    obtain ⟨front, last, c, htrim, hc⟩ := exists_concat_of_trimPieces_ne_nil fun hnil => hne hnil
    have hfront : front <+: p.body := by
      have hpre : trimPieces p.body <+: p.body := trimPieces_isPrefix p.body
      rw [htrim] at hpre
      exact (List.prefix_append front [last]).trans hpre
    refine ⟨c, fun hroot => componentOf_ne_root last (hroot ▸ hc), ?_⟩
    rw [hcomponents, htrim, List.dropLast_concat, components_head_append_join hfront]
    simp [hc]

theorem isAbsolute_of_parent? {p q : Path} (h : p.parent? = some q) :
    q.isAbsolute = p.isAbsolute := by
  obtain ⟨c, hc, hcomponents⟩ := components_of_parent? h
  rw [Bool.eq_iff_iff, isAbsolute_iff, isAbsolute_iff, hcomponents]
  cases q.components with
  | nil => simpa using hc
  | cons d cs => simp

/-- A path without a parent has no component but the root. -/
theorem components_of_parent?_eq_none {p : Path} (h : p.parent? = none) :
    p.components = if p.isAbsolute then [.root] else [] := by
  have hcomponents : p.components = p.lead ++ (trimPieces p.body).filterMap componentOf := by
    rw [components_eq_body, filterMap_trimPieces]
  unfold parent? at h
  split at h
  next hnil =>
    split at h
    next => simp at h
    next hdot =>
      rcases body_cases p with ⟨r, rfl, -, -⟩ | ⟨rest, -, -, hhead, -⟩ | ⟨habs, hfirst, -, -⟩
      · rw [hcomponents, hnil]
        rfl
      · exact absurd hhead hdot
      · rw [hcomponents, hnil]
        simp [lead, habs, hfirst]
  next => simp at h

end Parents

section Ancestors

/-- The beginnings of some components, the shortest first. The root stands in each of them. -/
def beginnings : List Component → List (List Component)
  | .root :: cs => cs.inits.map (.root :: ·)
  | cs => cs.inits

theorem beginnings_concat {c : Component} (hc : c ≠ .root) (cs : List Component) :
    beginnings (cs ++ [c]) = beginnings cs ++ [cs ++ [c]] := by
  cases cs with
  | nil => cases c <;> simp_all [beginnings]
  | cons d cs => cases d <;> simp [beginnings, List.inits_append]

theorem inits_append_eq (cs ds : List Component) :
    (cs ++ ds).inits = cs.inits.dropLast ++ ds.inits.map (cs ++ ·) := by
  induction cs with
  | nil => simp
  | cons c cs ih =>
    have hne : cs.inits.map (c :: ·) ≠ [] := by
      cases cs <;> simp
    rw [List.cons_append, List.inits_cons, ih, List.inits_cons, List.dropLast_cons_of_ne_nil hne,
      List.map_append, List.map_dropLast, List.map_map]
    rfl

theorem pairwise_inits (cs : List Component) :
    cs.inits.Pairwise fun a b => a.length < b.length := by
  induction cs with
  | nil => simp
  | cons c cs ih =>
    rw [List.inits_cons, List.pairwise_cons, List.pairwise_map]
    exact ⟨by simp, ih.imp fun h => by simpa using h⟩

theorem pairwise_beginnings (cs : List Component) :
    (beginnings cs).Pairwise fun a b => a.length < b.length := by
  unfold beginnings
  split
  · rw [List.pairwise_map]
    exact (pairwise_inits _).imp fun h => by simpa using h
  · exact pairwise_inits _

theorem length_filterMap_pieces_le (s : Text) :
    ((pieces s).filterMap componentOf).length ≤ s.length := by
  induction s with
  | nil => simp [pieces, splitAt, componentOf_nil]
  | cons c s ih =>
    rw [pieces_eq_splitOn, List.splitOn_cons_eq_if_modifyHead, ← pieces_eq_splitOn]
    split
    · rw [List.filterMap_cons_none componentOf_nil, List.length_cons]
      omega
    · cases hs : pieces s with
      | nil => simp
      | cons first rest =>
        have hrest : (rest.filterMap componentOf).length ≤ s.length := by
          rw [hs] at ih
          refine le_trans ?_ ih
          exact ((List.sublist_cons_self first rest).filterMap componentOf).length_le
        have hcons : (((c :: first) :: rest).filterMap componentOf).length
            ≤ (rest.filterMap componentOf).length + 1 := by
          rw [List.filterMap_cons]
          split <;> simp
        simp only [List.modifyHead_cons, List.length_cons]
        omega

theorem length_components_le (p : Path) : p.components.length ≤ p.length := by
  have hbody : (p.body.filterMap componentOf).length ≤ p.length - p.head.length := by
    have hle := length_filterMap_pieces_le (p.drop p.head.length)
    rwa [List.length_drop] at hle
  have hlead : p.lead.length = p.head.length ∧ p.head.length ≤ p.length := by
    rcases body_cases p with ⟨r, rfl, hhead, -⟩ | ⟨rest, habs, hpieces, hhead, -⟩ | ⟨habs,
      hdot, hhead, -⟩
    · have habs : isAbsolute ('/' :: r) = true := rfl
      simp [lead, hhead, habs]
    · have hpos : 0 < p.length := by
        refine List.length_pos_of_ne_nil ?_
        rintro rfl
        simp [pieces, splitAt] at hpieces
      simp only [lead, habs, hpieces, hhead]
      exact ⟨rfl, hpos⟩
    · simp [lead, hhead, habs, hdot]
  rw [components_eq_body, List.length_append]
  omega

theorem map_components_ancestorsFrom {fuel : Nat} {p : Path} (h : p.components.length ≤ fuel) :
    (ancestorsFrom fuel p).map components = (beginnings p.components).reverse := by
  induction fuel generalizing p with
  | zero =>
    have hnil : p.components = [] := List.length_eq_zero_iff.mp (by omega)
    simp [ancestorsFrom, hnil, beginnings]
  | succ fuel ih =>
    rw [ancestorsFrom]
    split
    next q hq =>
      obtain ⟨c, hc, hcomponents⟩ := components_of_parent? hq
      have hlength : q.components.length ≤ fuel := by
        rw [hcomponents, List.length_append] at h
        simp at h
        omega
      rw [List.map_cons, ih hlength, hcomponents, beginnings_concat hc, List.reverse_concat]
    next hnone =>
      have hcomponents := components_of_parent?_eq_none hnone
      cases habs : p.isAbsolute <;> simp [hcomponents, habs, beginnings]

/-- The ancestors of a path are the beginnings of its components, the longest first. -/
theorem map_components_ancestors (p : Path) :
    p.ancestors.map components = (beginnings p.components).reverse :=
  map_components_ancestorsFrom (length_components_le p)

theorem isAbsolute_of_mem_ancestorsFrom {fuel : Nat} {p a : Path} (h : a ∈ ancestorsFrom fuel p) :
    a.isAbsolute = p.isAbsolute := by
  induction fuel generalizing p with
  | zero => rw [List.mem_singleton.mp h]
  | succ fuel ih =>
    rw [ancestorsFrom] at h
    split at h
    next q hq =>
      rcases List.mem_cons.mp h with rfl | h
      · rfl
      · rw [ih h, isAbsolute_of_parent? hq]
    next => rw [List.mem_singleton.mp h]

theorem beginnings_of_relative {p : Path} (hp : p.isAbsolute = false) :
    beginnings p.components = p.components.inits := by
  have hroot : p.components.head? ≠ some .root := fun h => by simp [(isAbsolute_iff p).mpr h] at hp
  unfold beginnings
  split
  next heq => simp [heq] at hroot
  next => rfl

/-- The ancestors of a path have fewer and fewer components. -/
theorem pairwise_ancestors (p : Path) :
    p.ancestors.Pairwise fun a b => b.components.length < a.components.length := by
  have hpairwise : (p.ancestors.map components).Pairwise fun a b => b.length < a.length := by
    rw [map_components_ancestors, List.pairwise_reverse]
    exact pairwise_beginnings p.components
  exact List.pairwise_map.mp hpairwise

end Ancestors

section Joining

/-- The pieces of a joined path: those of the first path, without the empty one after its last
slash, and those of the second. -/
theorem exists_pieces_join {p q : Path} (hp : p ≠ []) (hq : q.isAbsolute = false) :
    ∃ ps idle, ps ≠ [] ∧ (∀ x ∈ idle, x = []) ∧ pieces p = ps ++ idle ∧
      pieces (p.join q) = ps ++ pieces q := by
  have hempty : p.isEmpty = false := by simpa using hp
  unfold join
  rw [hq, hempty, Bool.or_self, if_neg Bool.false_ne_true]
  split
  next hslash =>
    obtain ⟨front, rfl⟩ : ∃ front, p = front ++ ['/'] := by
      rw [beq_iff_eq, List.getLast?_eq_some_iff] at hslash
      exact hslash
    refine ⟨pieces front, [[]], by simp [pieces_eq_splitOn], by simp,
      pieces_append_slash front [], ?_⟩
    rw [List.append_assoc]
    exact pieces_append_slash front q
  next =>
    exact ⟨pieces p, [], by simp [pieces_eq_splitOn], by simp, by simp, pieces_append_slash p q⟩

theorem isAbsolute_join {p q : Path} (hp : p ≠ []) (hq : q.isAbsolute = false) :
    (p.join q).isAbsolute = p.isAbsolute := by
  obtain ⟨c, p, rfl⟩ := List.exists_cons_of_ne_nil hp
  unfold join
  rw [hq]
  simp only [isAbsolute]
  split
  next h => simp at h
  next => split <;> rfl

theorem lead_join {p q : Path} (hp : p ≠ []) (hq : q.isAbsolute = false) :
    lead (p.join q) = p.lead := by
  obtain ⟨ps, idle, hne, -, hpieces, hjoin⟩ := exists_pieces_join hp hq
  unfold lead
  rw [isAbsolute_join hp hq, hjoin, hpieces, List.head?_append_of_ne_nil _ hne,
    List.head?_append_of_ne_nil _ hne]

theorem isAbsolute_eq_false_of_notMem {n : Text} (hn : '/' ∉ n) : isAbsolute n = false := by
  cases n with
  | nil => rfl
  | cons c n =>
    have hne : '/' ≠ c := fun h => hn (h ▸ List.mem_cons_self)
    simpa [isAbsolute] using hne.symm

/-- A name at the end of a path: it is the last of the pieces, and those before stand for what the
path stands for. -/
theorem exists_pieces_join_name (p : Path) {n : Text} (hn : '/' ∉ n) (hidle : isIdle n = false) :
    ∃ ps, pieces (p.join n) = ps ++ [n] ∧ ps.filterMap componentOf =
      (pieces p).filterMap componentOf ∧
      lead (p.join n) = p.lead := by
  have habs := isAbsolute_eq_false_of_notMem hn
  by_cases hp : p = []
  · subst hp
    have hdot : n ≠ ['.'] := by
      rintro rfl
      simp [isIdle] at hidle
    have hlead : lead n = [] := by simp [lead, habs, pieces_of_notMem hn, hdot]
    have hjoin : join [] n = n := by simp [join]
    rw [hjoin, pieces_of_notMem hn]
    exact ⟨[], rfl, rfl, hlead.trans rfl⟩
  · obtain ⟨ps, idle, -, hidle, hpieces, hjoin⟩ := exists_pieces_join hp habs
    refine ⟨ps, by rw [hjoin, pieces_of_notMem hn], ?_, lead_join hp habs⟩
    have hnone : idle.filterMap componentOf = [] :=
      List.filterMap_eq_nil_iff.mpr fun x hx => by rw [hidle x hx, componentOf_nil]
    rw [hpieces, List.filterMap_append, hnone, List.append_nil]

theorem components_join_name (p : Path) {n : Text} (hn : '/' ∉ n) {c : Component}
    (hc : componentOf n = some c) :
    (p.join n).components = p.components ++ [c] := by
  have hidle : isIdle n = false := by
    rw [← Bool.not_eq_true, ← componentOf_eq_none_iff, hc]
    simp
  obtain ⟨ps, hpieces, hps, hlead⟩ := exists_pieces_join_name p hn hidle
  rw [components_eq, components_eq, hpieces, hlead, List.filterMap_append, hps]
  simp [hc]

end Joining

end ErbLayout.Path
