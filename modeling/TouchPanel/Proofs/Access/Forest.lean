import TouchPanel.Proofs.Access.Widget
import TouchPanel.Proofs.Widget.Forest

/-!
# Accesses of a forest

The forest of a page is found by places. A parent stands on the page of its children, so that each
place on the way up and each list of children is there, and the way down ends.
-/

namespace TouchPanel.Access

open WidgetTree

variable {ps : List (Option Nat)} {ws : List Widget}

/-! ## Cycles -/

/-- Whether going up at most `steps` times leads to `goal`. -/
def climbs? (ps : List (Option Nat)) (goal : Nat) : Nat → Option Nat → Option Bool
  | 0, _ => some false
  | _ + 1, none => some false
  | steps + 1, some i =>
    if i = goal then some true else ps[i]?.bind (climbs? ps goal steps)

/-- Whether a widget lies on a cycle. -/
def onCycle? (ps : List (Option Nat)) (i : Nat) : Option Bool :=
  ps[i]?.bind (climbs? ps i ps.length)

theorem getElem?_eq_above {i : Nat} (hi : i < ps.length) : ps[i]? = some (above ps i) := by
  rw [above, List.getElem?_eq_getElem hi]
  rfl

theorem climbs?_eq (hclosed : Closed ps) {o : Option Nat} (ho : ∀ i ∈ o, i < ps.length)
    (goal steps : Nat) : climbs? ps goal steps o = some (climbs ps goal steps o) := by
  induction steps generalizing o with
  | zero => rfl
  | succ steps ih =>
    cases o with
    | none => rfl
    | some i =>
      have hup := getElem?_eq_above (ho i rfl)
      have hrest := ih (o := above ps i) fun p hp => hclosed i p hp
      rw [climbs?, climbs, hup, Option.bind_some, hrest]
      by_cases hgoal : i = goal <;> simp [hgoal]

theorem onCycle?_eq (hclosed : Closed ps) {i : Nat} (hi : i < ps.length) :
    onCycle? ps i = some (onCycle ps i) := by
  have hup := getElem?_eq_above hi
  rw [onCycle?, onCycle, hup, Option.bind_some,
    climbs?_eq hclosed fun p hp => hclosed i p hp]
  rfl

/-- The parents from place `i` on without those of the marked widgets, and what is found about
these. -/
def cutFrom? (ws : List Widget) :
    Nat → List Bool → List (Option Nat) → Option (List Diagnostic × List (Option Nat))
  | _, [], ps => some ([], ps)
  | i, cyclic :: r, ps =>
    if cyclic then do
      let w ← ws[i]?
      let ps ← setAt? i none ps
      let (found, ps) ← cutFrom? ws (i + 1) r ps
      return (.parentCycle w.id :: found, ps)
    else cutFrom? ws (i + 1) r ps

theorem cutFrom?_append (cyclic : Nat → Bool) (before : List Widget) (done : List (Option Nat))
    (hbefore : before.length = done.length) (hlen : ws.length = ps.length) :
    cutFrom? (before ++ ws) done.length ((List.range' done.length ps.length).map cyclic)
        (done ++ ps) =
      some ((ws.zipIdx done.length).filterMap
          (fun (w, i) => if cyclic i then some (.parentCycle w.id) else none),
        done ++ (ps.zipIdx done.length).map fun (p, i) => if cyclic i then none else p) := by
  -- The places in front of `done.length` have been visited and are not touched again.
  induction ps generalizing ws before done with
  | nil =>
    obtain rfl := List.length_eq_zero_iff.1 hlen
    rfl
  | cons p ps ih =>
    obtain ⟨w, ws, rfl⟩ := List.exists_cons_of_length_eq_add_one hlen
    have hget := getElem?_append before w ws
    have hset := setAt?_append done p none ps
    have hrest : ∀ q, cutFrom? (before ++ w :: ws) (done.length + 1)
        ((List.range' (done.length + 1) ps.length).map cyclic) (done ++ q :: ps) =
      some ((ws.zipIdx (done.length + 1)).filterMap
          (fun (w, i) => if cyclic i then some (.parentCycle w.id) else none),
        done ++ q :: (ps.zipIdx (done.length + 1)).map
          fun (p, i) => if cyclic i then none else p) := by
      intro q
      have hstep := ih (before ++ [w]) (done ++ [q]) (by simpa using hbefore) (by simpa using hlen)
      simpa using hstep
    rw [hbefore] at hget
    rw [List.length_cons, List.range'_succ, List.map_cons, cutFrom?, List.zipIdx_cons,
      List.zipIdx_cons, List.filterMap_cons, List.map_cons]
    cases hcyclic : cyclic done.length with
    | true => simp [hcyclic, hget, hset, hrest]
    | false => simp [hcyclic, hrest]

/-! ## Children -/

/-- Puts a place below its parent, or among the roots. -/
def putChild? (placed : List Nat × List (List Nat)) (entry : Option Nat × Nat) :
    Option (List Nat × List (List Nat)) :=
  match entry.1 with
  | none => some (placed.1 ++ [entry.2], placed.2)
  | some p => do
    let siblings ← placed.2[p]?
    let children ← setAt? p (siblings ++ [entry.2]) placed.2
    return (placed.1, children)

/-- The roots of a page and the children of each place. -/
def placed? (ps : List (Option Nat)) : Option (List Nat × List (List Nat)) :=
  ps.zipIdx.foldlM putChild? ([], List.replicate ps.length [])

/-- The places that some entries have below `o`. -/
def placesBelow (o : Option Nat) (entries : List (Option Nat × Nat)) : List Nat :=
  (entries.filter (·.1 = o)).map (·.2)

theorem placesBelow_cons (o : Option Nat) (e : Option Nat × Nat)
    (entries : List (Option Nat × Nat)) :
    placesBelow o (e :: entries) = (if e.1 = o then [e.2] else []) ++ placesBelow o entries := by
  rw [placesBelow, List.filter_cons]
  by_cases h : e.1 = o <;> simp [h, placesBelow]

theorem setAt?_map_range {α : Type} {n p : Nat} (hp : p < n) (f : Nat → α) (a : α) :
    setAt? p a ((List.range n).map f) = some ((List.range n).map (Function.update f p a)) := by
  rw [setAt?, if_pos (by simpa using hp)]
  refine congrArg some (List.ext_getElem (by simp) fun i hi hi' => ?_)
  rw [List.getElem_set, List.getElem_map, List.getElem_map, List.getElem_range,
    Function.update_apply]
  exact if_congr eq_comm rfl rfl

theorem foldlM_putChild?_eq {n : Nat} {entries : List (Option Nat × Nat)}
    (h : ∀ e ∈ entries, ∀ p ∈ e.1, p < n) (roots : List Nat) (below : Nat → List Nat) :
    entries.foldlM putChild? (roots, (List.range n).map below) =
      some (roots ++ placesBelow none entries,
        (List.range n).map fun p => below p ++ placesBelow (some p) entries) := by
  -- There are as many lists of children as places all the time, whatever has been put into them.
  induction entries generalizing roots below with
  | nil => simp [placesBelow]
  | cons e entries ih =>
    obtain ⟨parent, i⟩ := e
    obtain ⟨hparent, hrest⟩ := List.forall_mem_cons.1 h
    cases parent with
    | none =>
      have hstep := ih hrest (roots ++ [i]) below
      rw [List.foldlM_cons, putChild?]
      simpa [placesBelow_cons] using hstep
    | some p =>
      have hp : p < n := hparent p rfl
      have hstep := ih hrest roots (Function.update below p (below p ++ [i]))
      have hget : ((List.range n).map below)[p]? = some (below p) := by simp [hp]
      have hset := setAt?_map_range hp below (below p ++ [i])
      rw [List.foldlM_cons, putChild?]
      simp only [hget, hset, Option.bind_eq_bind, Option.bind_some, Option.pure_def, hstep]
      refine congrArg some (Prod.ext ?_ ?_)
      · simp [placesBelow_cons]
      · refine List.map_congr_left fun q _ => ?_
        rw [placesBelow_cons, Function.update_apply]
        by_cases hq : q = p
        · simp [hq]
        · simp [hq, Ne.symm hq]

theorem placesBelow_zipIdx (ps : List (Option Nat)) (o : Option Nat) :
    placesBelow o ps.zipIdx = childrenOf ps o := by
  have hplaces : List.range ps.length = ps.zipIdx.map (·.2) := by
    simp [List.range_eq_range']
  rw [placesBelow, childrenOf, hplaces, List.filter_map]
  refine congrArg _ (List.filter_congr fun e he => ?_)
  rw [Function.comp_apply, List.mem_zipIdx_iff_getElem?.1 he]
  rfl

theorem placed?_eq (hclosed : Closed ps) :
    placed? ps = some (childrenOf ps none,
      (List.range ps.length).map fun p => childrenOf ps (some p)) := by
  have hparents : ∀ e ∈ ps.zipIdx, ∀ p ∈ e.1, p < ps.length := by
    intro e he p hp
    refine hclosed e.2 p ?_
    rw [above, List.mem_zipIdx_iff_getElem?.1 he]
    exact hp
  have hnone : List.replicate ps.length ([] : List Nat) =
      (List.range ps.length).map fun _ => [] := by simp
  rw [placed?, hnone, foldlM_putChild?_eq hparents]
  simp [placesBelow_zipIdx]

/-! ## Trees -/

/-- The tree below place `i`, at most `depth` levels deep. -/
def tree? (ws : List Widget) (children : List (List Nat)) : Nat → Nat → Option WidgetTree
  | 0, _ => none
  | depth + 1, i => do
    let w ← ws[i]?
    let below ← children[i]?
    let trees ← below.mapM (tree? ws children depth)
    return .node w trees

theorem tree?_eq_grow (hlen : ps.length = ws.length)
    (hends : ∀ i < ws.length, climb ps ws.length i = none) {depth level i x : Nat}
    (hi : i < ws.length) (hlevel : climb ps level i = some x)
    (hdepth : ws.length ≤ depth + level) :
    tree? ws ((List.range ps.length).map fun p => childrenOf ps (some p)) depth i =
        grow ws ps depth i ∧ (grow ws ps depth i).isSome := by
  induction depth generalizing i level with
  | zero =>
    -- So far down there is no place: the walk back up from it would not have ended.
    obtain ⟨t, -, -, hgrow⟩ := exists_grown hlen hends hi hlevel hdepth
    cases hgrow
  | succ depth ih =>
    have hchildren : ∀ j ∈ childrenOf ps (some i),
        tree? ws ((List.range ps.length).map fun p => childrenOf ps (some p)) depth j =
          grow ws ps depth j ∧ (grow ws ps depth j).isSome := by
      intro j hj
      have habove := mem_childrenOf_some.1 hj
      have hdown : climb ps (level + 1) j = some x := by rw [climb, habove]; exact hlevel
      exact ih (hlen ▸ lt_of_above habove) hdown (by omega)
    have hw : ws[i]? = some ws[i] := List.getElem?_eq_getElem hi
    have hbelow : ((List.range ps.length).map fun p => childrenOf ps (some p))[i]? =
        some (childrenOf ps (some i)) := by
      simp [hlen, hi]
    rw [tree?, grow, hw, hbelow]
    simp [mapM_eq_filterMap hchildren]

/-- The trees of a page, and what is found about cycles. -/
def forest? (page : Page) : Option (List Diagnostic × List WidgetTree) := do
  let ps := parents page.widgets
  let cyclic ← (List.range page.widgets.length).mapM (onCycle? ps)
  let (found, ps) ← cutFrom? page.widgets 0 cyclic ps
  let (roots, children) ← placed? ps
  let trees ← roots.mapM (tree? page.widgets children page.widgets.length)
  return (found, trees)

/-- No parent is marked that lies on no cycle, and none is missed. -/
theorem cutFrom?_parents (ws : List Widget) :
    cutFrom? ws 0 ((List.range ws.length).map (onCycle (parents ws))) (parents ws) =
      some (ws.zipIdx.filterMap
          (fun (w, i) => if onCycle (parents ws) i then some (.parentCycle w.id) else none),
        cutCycles (parents ws)) := by
  have hcut := cutFrom?_append (onCycle (parents ws)) [] [] rfl (length_parents ws).symm
  rwa [List.nil_append, List.nil_append, List.nil_append, List.length_nil,
    ← List.range_eq_range', length_parents] at hcut

theorem forest?_eq (page : Page) :
    forest? page = some (cycleFindings page, WidgetTree.ofPage page) := by
  have hclosed := closed_parents page.widgets
  have hcyclic : (List.range page.widgets.length).mapM (onCycle? (parents page.widgets)) =
      some ((List.range page.widgets.length).map (onCycle (parents page.widgets))) :=
    mapM_eq fun i hi =>
      onCycle?_eq hclosed (by rw [length_parents]; exact List.mem_range.1 hi)
  have hplaced := placed?_eq (closed_cutCycles hclosed)
  have hlen : (cutCycles (parents page.widgets)).length = page.widgets.length := by
    rw [length_cutCycles, length_parents]
  have htrees : (childrenOf (cutCycles (parents page.widgets)) none).mapM
      (tree? page.widgets ((List.range (cutCycles (parents page.widgets)).length).map fun p =>
        childrenOf (cutCycles (parents page.widgets)) (some p)) page.widgets.length) =
      some (WidgetTree.ofPage page) := by
    refine mapM_eq_filterMap fun i hi => ?_
    have hplace : climb (cutCycles (parents page.widgets)) 0 i = some i := rfl
    exact tree?_eq_grow hlen (climb_page_length page) (hlen ▸ (mem_childrenOf.1 hi).1) hplace
      (by omega)
  simp only [forest?, hcyclic, cutFrom?_parents, hplaced, htrees, Option.bind_eq_bind,
    Option.bind_some]
  rfl

/-! ## Pages -/

/-- The node of a page, and what is found about its widgets. -/
def page? (page : Page) (theme : Theme) (index : WidgetIndex) (c : PageContext) :
    Option (Node × List Diagnostic) := do
  let color ← (page.color? theme).mapM colorNode?
  let (found, trees) ← forest? page
  let nodes ← treeNodes? c trees
  return (.map (("id", .ident (page.outId c.policy)) ::
      (color.map fun node => ("bg_color", node)).toList ++ [("widgets", .list nodes)]),
    page.widgets.filterMap (parentFinding? page index) ++ found ++
      collectAll (·.styleFindings c) trees)

theorem page?_eq (page : Page) (theme : Theme) (index : WidgetIndex) (c : PageContext) :
    page? page theme index c = some (page.node theme c, page.findings index c) := by
  have hcolor : (page.color? theme).mapM colorNode? =
      some ((page.color? theme).map colorNode) := by
    cases page.color? theme with
    | none => rfl
    | some s =>
      rw [Option.mapM_some, colorNode?_eq]
      rfl
  rw [page?, hcolor, forest?_eq]
  simp only [treeNodes?_eq, Option.bind_eq_bind, Option.bind_some]
  rw [Page.node, Page.findings, WidgetTree.findings, Option.map_map]
  rfl

/-! ## Theme -/

def styleNode? (c : PageContext) (entry : String × Table String Json.Value) : Option Node := do
  let entries ← putFields? c.assets false entry.2.entries c.registry.sharedStyle
    [("id", .ident (Identifier.plain entry.1))]
  return .map entries

theorem styleNode?_eq (c : PageContext) (entry : String × Table String Json.Value) :
    styleNode? c entry = some (Theme.styleNode c entry.1 entry.2) := by
  rw [styleNode?, putFields?_eq]
  rfl

def stopNode? (s : GradientStop) : Option Node := do
  let color ← colorNode? s.color
  return .map [("color", color), ("position", .int s.position)]

def gradientNode? (g : Gradient) : Option Node := do
  let stops ← g.stops.mapM stopNode?
  return .map (("id", .ident (Identifier.plain g.id)) ::
    ((g.direction.filter (· ≠ "")).map fun d => ("direction", .ident d)).toList ++
    [("stops", .list stops)])

theorem gradientNode?_eq (g : Gradient) : gradientNode? g = some (Theme.gradientNode g) := by
  have hstops : g.stops.mapM stopNode? = some (g.stops.map fun s =>
      .map [("color", colorNode s.color), ("position", .int s.position)]) :=
    mapM_eq fun s _ => by
      rw [stopNode?, colorNode?_eq]
      rfl
  rw [gradientNode?, hstops]
  rfl

/-- Style definitions, gradients and pages, and what is found about the widgets. -/
def lvgl? (p : Project) (index : WidgetIndex) (c : PageContext) :
    Option (Mapping × List Diagnostic) := do
  let styles ← p.theme.styles.entries.mapM (styleNode? c)
  let gradients ← p.theme.gradients.mapM gradientNode?
  let pages ← p.shownPages.mapM fun page => page? page p.theme index c
  return ((if styles.isEmpty then [] else [("style_definitions", .list styles)]) ++
      (if gradients.isEmpty then [] else [("gradients", .list gradients)]) ++
      [("pages", .list (pages.map (·.1)))],
    pages.flatMap (·.2))

theorem lvgl?_eq (p : Project) (index : WidgetIndex) (c : PageContext) :
    lvgl? p index c = some (p.lvgl c, p.pageFindings index c) := by
  rw [lvgl?, mapM_eq fun e _ => styleNode?_eq c e, mapM_eq fun g _ => gradientNode?_eq g,
    mapM_eq fun page _ => page?_eq page p.theme index c]
  simp [Project.lvgl, Project.pageFindings, List.flatMap_map]

end TouchPanel.Access
