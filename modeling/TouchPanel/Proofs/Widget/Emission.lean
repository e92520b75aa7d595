import TouchPanel.Proofs.Text.Trim
import TouchPanel.Proofs.Widget.Forest

/-!
# Emission of a page

The nodes of a page are those of its forest, so that every widget is written once, below
its parent or at the root. What cannot be placed below its parent is reported.
-/

namespace TouchPanel

theorem Mapping.get?_insert_self (m : Mapping) (key : String) (node : Node) :
    (m.insert key node).get? key = some node := by
  induction m with
  | nil => simp [insert, get?]
  | cons e r ih =>
    obtain ⟨k, v⟩ := e
    by_cases hk : k = key
    · simp [insert, get?, hk]
    · have hrest : (List.find? (fun e => decide (e.1 = key)) (insert r key node)).map (·.2) =
          some node := ih
      simp [insert, get?, hk, hrest]

theorem Mapping.get?_insert_of_ne (m : Mapping) {key k : String} (hne : k ≠ key) (node : Node) :
    (m.insert key node).get? k = m.get? k := by
  induction m with
  | nil => simp [insert, get?, Ne.symm hne]
  | cons e r ih =>
    obtain ⟨k', v⟩ := e
    unfold get? at ih ⊢
    rw [insert]
    split
    · next heq =>
      rw [List.find?_cons_of_neg, List.find?_cons_of_neg]
      · simpa [heq] using Ne.symm hne
      · simpa [heq] using Ne.symm hne
    · rw [List.find?_cons, List.find?_cons]
      split
      · rfl
      · exact ih

/-- The node of a widget has the entries of the widget and, if it has children, their list. -/
theorem Widget.exists_entries (w : Widget) (c : PageContext) (children : List Node) :
    ∃ key entries, w.node c children = .single key (.map entries) ∧
      (∀ k, k ≠ "widgets" → Mapping.get? entries k = Mapping.get? (w.body c) k) ∧
      (children ≠ [] → Mapping.get? entries "widgets" = some (.list children)) := by
  unfold Widget.node
  dsimp only
  refine ⟨_, _, rfl, fun k hk => ?_, fun hne => ?_⟩
  · split
    · exact Mapping.get?_insert_of_ne _ hk _
    · rfl
  · rw [if_pos (by simp [hne])]
    exact Mapping.get?_insert_self _ _ _

namespace WidgetTree

open PlacedTree

variable {c : PageContext} {ts : List WidgetTree} {ws : List Widget} {id : String}

/-! ## The forest -/

/-- A forest that has every widget of a page at its place. -/
structure IsForest (ws : List Widget) (forest : List PlacedTree) : Prop where
  once : (placesOf forest).Perm (List.range ws.length)
  widget : ∀ t ∈ nodesAll forest, ws[t.place]? = some t.widget
  child : ∀ t ∈ nodesAll forest, ∀ i,
    i ∈ t.children.map place ↔ IsParent ws t.place i ∧ ¬ OnParentCycle ws i
  root : ∀ i, i ∈ forest.map place ↔
    i < ws.length ∧ ((∃ p, IsParent ws p i) → OnParentCycle ws i)
  children_ordered : ∀ t ∈ nodesAll forest, (t.children.map place).Pairwise (· < ·)
  roots_ordered : (forest.map place).Pairwise (· < ·)

theorem above_cut_parents_eq_none {i : Nat} :
    above (cutCycles (parents ws)) i = none ↔ ((∃ p, IsParent ws p i) → OnParentCycle ws i) := by
  rw [Option.eq_none_iff_forall_ne_some]
  simp only [ne_eq, above_cut_parents_iff, not_and, not_not, forall_exists_index]

theorem isForest_of_grown {forest : List PlacedTree}
    (hroots : forest.map place = childrenOf (cutCycles (parents ws)) none)
    (hgrown : ∀ t ∈ forest, Grown ws (cutCycles (parents ws)) t) : IsForest ws forest := by
  have hlen : (cutCycles (parents ws)).length = ws.length := by
    rw [length_cutCycles, length_parents]
  have hclosed := closed_cutCycles (closed_parents ws)
  have hends : ∀ i < (cutCycles (parents ws)).length,
      ∃ k, climb (cutCycles (parents ws)) k i = none := by
    intro i hi
    rw [length_cutCycles] at hi
    exact ⟨_, (closed_parents ws).climb_cutCycles_length hi⟩
  have hnode : ∀ t ∈ nodesAll forest, ws[t.place]? = some t.widget ∧
      t.children.map place = childrenOf (cutCycles (parents ws)) (some t.place) := by
    intro s hs
    rw [nodesAll_eq_flatMap] at hs
    obtain ⟨t, ht, hst⟩ := List.mem_flatMap.1 hs
    exact (hgrown t ht).widget_eq s hst
  refine ⟨placesOf_perm_range hclosed hlen hends hgrown hroots, fun t ht => (hnode t ht).1,
    ?_, ?_, ?_, ?_⟩
  · intro t ht i
    rw [(hnode t ht).2, mem_childrenOf_some, above_cut_parents_iff]
  · intro i
    rw [hroots, mem_childrenOf, hlen, above_cut_parents_eq_none]
  · intro t ht
    rw [(hnode t ht).2]
    exact pairwise_childrenOf _ _
  · rw [hroots]
    exact pairwise_childrenOf _ _

/-! ## Nodes -/

theorem get?_widgets_node (w : Widget) (c : PageContext) (children : List Node)
    (hchildren : children ≠ []) :
    ∃ key entries, w.node c children = .single key (.map entries) ∧
      Mapping.get? entries "widgets" = some (.list children) := by
  obtain ⟨key, entries, hnode, -, hwidgets⟩ := w.exists_entries c children
  exact ⟨key, entries, hnode, hwidgets hchildren⟩

theorem get?_widgets_page (page : Page) (theme : Theme) (c : PageContext) :
    ∃ entries, page.node theme c = .map entries ∧
      Mapping.get? entries "widgets" = some (.list (toNodes c (ofPage page))) := by
  refine ⟨_, rfl, ?_⟩
  unfold Mapping.get?
  cases page.color? theme <;> simp

/-! ## Findings -/

/-- A widget that has the id. -/
def HasId (ws : List Widget) (id : String) : Prop := ∃ w ∈ ws, trimmed w.id = id

instance (ws : List Widget) (id : String) : Decidable (HasId ws id) :=
  inferInstanceAs (Decidable (∃ w ∈ ws, trimmed w.id = id))

/-- The report of a parent that no widget of the page has as its id. -/
def unresolved? (p : Project) (page : Page) (w : Widget) : Option Diagnostic :=
  w.parent?.bind fun id =>
    if HasId page.widgets id then none
    else if ∃ other ∈ p.pages, HasId other.widgets id then some (.crossPageParent w.id id)
    else some (.danglingParent w.id id)

def reportsCycle : Diagnostic → Bool
  | .parentCycle _ => true
  | _ => false

def reportsUnresolved : Diagnostic → Bool
  | .crossPageParent .. | .danglingParent .. => true
  | _ => false

theorem isSome_indexOf? : (indexOf? ws id).isSome = true ↔ HasId ws id := by
  simp [indexOf?, HasId]

theorem trimmed_of_parent? {w : Widget} (h : w.parent? = some id) : trimmed id = id := by
  obtain ⟨raw, -, -, rfl⟩ := parent?_eq_some_iff.1 h
  exact Text.trimmed_trimmed raw

theorem isSome_get?_ofProject (p : Project) (registry : Registry) (policy : Identifier.Policy)
    (hid : trimmed id = id) :
    ((WidgetIndex.ofProject p registry policy).get? id).isSome = true ↔
      ∃ page ∈ p.pages, HasId page.widgets id := by
  simp only [WidgetIndex.get?, WidgetIndex.ofProject, HasId, List.find?_isSome, hid,
    decide_eq_true_eq, List.mem_flatMap, List.mem_map]
  constructor
  · rintro ⟨_, ⟨⟨page, n⟩, hpage, w, hw, rfl⟩, heq⟩
    exact ⟨page, List.fst_mem_of_mem_zipIdx hpage, w, hw, heq⟩
  · rintro ⟨page, hpage, w, hw, heq⟩
    obtain ⟨n, hn, rfl⟩ := List.getElem_of_mem hpage
    exact ⟨_, ⟨(p.pages[n], n), by simp [List.mem_zipIdx_iff_getElem?, hn], w, hw, rfl⟩, heq⟩

theorem parentFinding?_eq (p : Project) (page : Page) (registry : Registry)
    (policy : Identifier.Policy) (w : Widget) :
    parentFinding? page (WidgetIndex.ofProject p registry policy) w = unresolved? p page w := by
  unfold parentFinding? unresolved?
  cases hparent : w.parent? with
  | none => rfl
  | some id =>
    simp only [isSome_indexOf?,
      isSome_get?_ofProject p registry policy (trimmed_of_parent? hparent), Option.bind_some]

theorem cycleFindings_eq (page : Page) :
    cycleFindings page = page.widgets.zipIdx.filterMap fun e =>
      if OnParentCycle page.widgets e.2 then some (.parentCycle e.1.id) else none := by
  unfold cycleFindings
  simp only [onCycle_parents_iff]

theorem reports_unresolved? {p : Project} {page : Page} {w : Widget} {d : Diagnostic}
    (h : unresolved? p page w = some d) : reportsUnresolved d = true ∧ reportsCycle d = false := by
  unfold unresolved? at h
  obtain ⟨id, -, h⟩ := Option.bind_eq_some_iff.1 h
  split at h
  · cases h
  · split at h <;> (cases h; exact ⟨rfl, rfl⟩)

theorem reports_cycleFindings {page : Page} {d : Diagnostic} (hd : d ∈ cycleFindings page) :
    reportsCycle d = true ∧ reportsUnresolved d = false := by
  rw [cycleFindings_eq] at hd
  obtain ⟨e, -, he⟩ := List.mem_filterMap.1 hd
  split at he
  · cases he
    exact ⟨rfl, rfl⟩
  · cases he

mutual

theorem forall_mem_collect {P : Diagnostic → Prop} {f : Widget → List Diagnostic}
    (h : ∀ w, ∀ d ∈ f w, P d) : ∀ t : WidgetTree, ∀ d ∈ collect f t, P d
  | .node w ts, d, hd => by
    rcases List.mem_append.1 hd with hd | hd
    · exact h w d hd
    · exact forall_mem_collectAll h ts d hd

theorem forall_mem_collectAll {P : Diagnostic → Prop} {f : Widget → List Diagnostic}
    (h : ∀ w, ∀ d ∈ f w, P d) : ∀ ts : List WidgetTree, ∀ d ∈ collectAll f ts, P d
  | [], d, hd => by cases hd
  | t :: ts, d, hd => by
    rcases List.mem_append.1 hd with hd | hd
    · exact forall_mem_collect h t d hd
    · exact forall_mem_collectAll h ts d hd

end

theorem reports_styleFindings (w : Widget) (c : PageContext) : ∀ d ∈ w.styleFindings c,
    reportsCycle d = false ∧ reportsUnresolved d = false := by
  intro d hd
  unfold Widget.styleFindings at hd
  split at hd
  · cases hd
  · obtain ⟨name, -, rfl⟩ := List.mem_map.1 hd
    exact ⟨rfl, rfl⟩

variable (p : Project) (page : Page) (c : PageContext)

theorem filter_reportsCycle :
    (page.findings (WidgetIndex.ofProject p c.registry c.policy) c).filter reportsCycle =
      page.widgets.zipIdx.filterMap fun e =>
        if OnParentCycle page.widgets e.2 then some (.parentCycle e.1.id) else none := by
  have hparents : (page.widgets.filterMap (unresolved? p page)).filter reportsCycle = [] := by
    rw [List.filter_eq_nil_iff]
    intro d hd
    obtain ⟨w, -, hw⟩ := List.mem_filterMap.1 hd
    simp [(reports_unresolved? hw).2]
  have hstyles : (collectAll (·.styleFindings c) (ofPage page)).filter reportsCycle = [] := by
    rw [List.filter_eq_nil_iff]
    intro d hd
    simp [(forall_mem_collectAll (fun w => reports_styleFindings w c) _ d hd).1]
  have hcycles : (cycleFindings page).filter reportsCycle = cycleFindings page := by
    rw [List.filter_eq_self]
    exact fun d hd => (reports_cycleFindings hd).1
  rw [Page.findings, WidgetTree.findings, List.filter_append, List.filter_append,
    funext (parentFinding?_eq p page c.registry c.policy), hparents, hcycles, hstyles,
    List.nil_append, List.append_nil, cycleFindings_eq]

theorem filter_reportsUnresolved :
    (page.findings (WidgetIndex.ofProject p c.registry c.policy) c).filter reportsUnresolved =
      page.widgets.filterMap (unresolved? p page) := by
  have hparents : (page.widgets.filterMap (unresolved? p page)).filter reportsUnresolved =
      page.widgets.filterMap (unresolved? p page) := by
    rw [List.filter_eq_self]
    intro d hd
    obtain ⟨w, -, hw⟩ := List.mem_filterMap.1 hd
    exact (reports_unresolved? hw).1
  have hstyles : (collectAll (·.styleFindings c) (ofPage page)).filter reportsUnresolved = [] := by
    rw [List.filter_eq_nil_iff]
    intro d hd
    simp [(forall_mem_collectAll (fun w => reports_styleFindings w c) _ d hd).2]
  have hcycles : (cycleFindings page).filter reportsUnresolved = [] := by
    rw [List.filter_eq_nil_iff]
    intro d hd
    simp [(reports_cycleFindings hd).2]
  rw [Page.findings, WidgetTree.findings, List.filter_append, List.filter_append,
    funext (parentFinding?_eq p page c.registry c.policy), hparents, hcycles, hstyles,
    List.append_nil, List.append_nil]

/-! ## The emitted page -/

/-- The nodes of a page are those of a forest with every widget once, which does not depend
on how far down its trees may grow, and the findings name the widgets that stand at the
root although they give a parent. -/
theorem page_emits_every_widget (theme : Theme) :
    ∃ forest : List PlacedTree, IsForest page.widgets forest ∧
      (∀ depth, page.widgets.length ≤ depth →
        (childrenOf (cutCycles (parents page.widgets)) none).filterMap
          (grow page.widgets (cutCycles (parents page.widgets)) depth) = forgetAll forest) ∧
      (∃ entries, page.node theme c = .map entries ∧
        Mapping.get? entries "widgets" = some (.list (forest.map (emitted c)))) ∧
      (∀ t ∈ nodesAll forest, t.emitted c = t.widget.node c (t.children.map (emitted c)) ∧
        (t.children ≠ [] → ∃ key entries, t.emitted c = .single key (.map entries) ∧
          Mapping.get? entries "widgets" = some (.list (t.children.map (emitted c))))) ∧
      (page.findings (WidgetIndex.ofProject p c.registry c.policy) c).filter reportsCycle =
        page.widgets.zipIdx.filterMap (fun e =>
          if OnParentCycle page.widgets e.2 then some (.parentCycle e.1.id) else none) ∧
      (page.findings (WidgetIndex.ofProject p c.registry c.policy) c).filter reportsUnresolved =
        page.widgets.filterMap (unresolved? p page) := by
  obtain ⟨forest, hroots, hgrown, hdepth⟩ := exists_forest page
  refine ⟨forest, isForest_of_grown hroots hgrown, hdepth, ?_, ?_,
    filter_reportsCycle p page c, filter_reportsUnresolved p page c⟩
  · have hpage : ofPage page = forgetAll forest := hdepth _ (Nat.le_refl _)
    obtain ⟨entries, hnode, hwidgets⟩ := get?_widgets_page page theme c
    rw [hpage, toNodes_forgetAll] at hwidgets
    exact ⟨entries, hnode, hwidgets⟩
  · intro t _
    refine ⟨t.emitted_eq c, fun hchildren => ?_⟩
    rw [t.emitted_eq c]
    exact get?_widgets_node t.widget c _ (by simpa using hchildren)

end WidgetTree

end TouchPanel
