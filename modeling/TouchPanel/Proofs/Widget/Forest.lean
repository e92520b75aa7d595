import Mathlib.Data.List.Perm.Basic
import TouchPanel.Proofs.Widget.Cycle
import TouchPanel.Widget.Page

/-!
# The forest of a page

Every widget of a page stands at one place of its forest: at the root if it has no parent
or lies on a cycle, and else below its parent. Walks along the parents that are left end,
so that growing the trees to the number of widgets reaches every place.
-/

namespace TouchPanel

/-- A tree of widgets with the place of each of them on the page. -/
inductive PlacedTree where
  | node (place : Nat) (widget : Widget) (children : List PlacedTree)

namespace PlacedTree

def place : PlacedTree → Nat
  | .node i _ _ => i

def widget : PlacedTree → Widget
  | .node _ w _ => w

def children : PlacedTree → List PlacedTree
  | .node _ _ ts => ts

mutual

/-- The tree without the places. -/
def forget : PlacedTree → WidgetTree
  | .node _ w ts => .node w (forgetAll ts)

def forgetAll : List PlacedTree → List WidgetTree
  | [] => []
  | t :: r => forget t :: forgetAll r

end

mutual

/-- The tree and those below it, from the top. -/
def nodes : PlacedTree → List PlacedTree
  | .node i w ts => .node i w ts :: nodesAll ts

def nodesAll : List PlacedTree → List PlacedTree
  | [] => []
  | t :: r => nodes t ++ nodesAll r

end

theorem nodesAll_eq_flatMap (ts : List PlacedTree) : nodesAll ts = ts.flatMap nodes := by
  induction ts with
  | nil => rfl
  | cons t ts ih => rw [nodesAll, ih, List.flatMap_cons]

/-- The node that is written for the widget at the top. -/
def emitted (c : PageContext) (t : PlacedTree) : Node := t.forget.toNode c

theorem toNodes_forgetAll (c : PageContext) (ts : List PlacedTree) :
    WidgetTree.toNodes c (forgetAll ts) = ts.map (emitted c) := by
  induction ts with
  | nil => rfl
  | cons t ts ih => rw [forgetAll, WidgetTree.toNodes, ih, List.map_cons, emitted]

theorem emitted_eq (c : PageContext) (t : PlacedTree) :
    t.emitted c = t.widget.node c (t.children.map (emitted c)) := by
  obtain ⟨i, w, ts⟩ := t
  rw [emitted, forget, WidgetTree.toNode, toNodes_forgetAll]
  rfl

end PlacedTree

namespace WidgetTree

open PlacedTree

variable {ws : List Widget} {ps : List (Option Nat)} {i p : Nat} {t : PlacedTree}
  {ts : List PlacedTree}

/-! ## Trees grown in full -/

theorem mem_childrenOf {o : Option Nat} :
    i ∈ childrenOf ps o ↔ i < ps.length ∧ above ps i = o := by
  simp [childrenOf, above]

theorem mem_childrenOf_some : i ∈ childrenOf ps (some p) ↔ above ps i = some p := by
  rw [mem_childrenOf]
  exact and_iff_right_of_imp lt_of_above

theorem pairwise_childrenOf (ps : List (Option Nat)) (o : Option Nat) :
    (childrenOf ps o).Pairwise (· < ·) :=
  List.pairwise_lt_range.filter _

/-- A tree in which every place has all of its children in their order. -/
inductive Grown (ws : List Widget) (ps : List (Option Nat)) : PlacedTree → Prop
  | node {i : Nat} {w : Widget} {ts : List PlacedTree} (widget : ws[i]? = some w)
      (children : ts.map place = childrenOf ps (some i)) (grown : ∀ t ∈ ts, Grown ws ps t) :
      Grown ws ps (.node i w ts)

theorem exists_trees {is : List Nat} {f : Nat → Option WidgetTree}
    (h : ∀ i ∈ is, ∃ t, t.place = i ∧ Grown ws ps t ∧ f i = some t.forget) :
    ∃ ts, ts.map place = is ∧ (∀ t ∈ ts, Grown ws ps t) ∧ is.filterMap f = forgetAll ts := by
  induction is with
  | nil => exact ⟨[], rfl, by simp, rfl⟩
  | cons i is ih =>
    obtain ⟨⟨t, ht, hgrown, hf⟩, hrest⟩ := List.forall_mem_cons.1 h
    obtain ⟨ts, hts, hall, hmap⟩ := ih hrest
    refine ⟨t :: ts, by rw [List.map_cons, ht, hts], List.forall_mem_cons.2 ⟨hgrown, hall⟩, ?_⟩
    rw [List.filterMap_cons_some hf, hmap, forgetAll]

/-- Whoever has gone down `level` steps needs only as many levels as are left. -/
theorem exists_grown (hlen : ps.length = ws.length)
    (hends : ∀ i < ws.length, climb ps ws.length i = none) {depth level x : Nat}
    (hi : i < ws.length) (hlevel : climb ps level i = some x)
    (hdepth : ws.length ≤ depth + level) :
    ∃ t, t.place = i ∧ Grown ws ps t ∧ grow ws ps depth i = some t.forget := by
  induction depth generalizing i level with
  | zero =>
    obtain ⟨y, hy⟩ := climb_isSome_of_le hlevel (l := ws.length) (by omega)
    rw [hends i hi] at hy
    cases hy
  | succ depth ih =>
    have hchildren : ∀ j ∈ childrenOf ps (some i),
        ∃ t, t.place = j ∧ Grown ws ps t ∧ grow ws ps depth j = some t.forget := by
      intro j hj
      have habove := mem_childrenOf_some.1 hj
      have hjlt : j < ws.length := hlen ▸ lt_of_above habove
      have hdown : climb ps (level + 1) j = some x := by rw [climb, habove]; exact hlevel
      exact ih hjlt hdown (by omega)
    obtain ⟨ts, hplaces, hgrown, hmap⟩ := exists_trees hchildren
    have hw : ws[i]? = some ws[i] := List.getElem?_eq_getElem hi
    refine ⟨.node i ws[i] ts, rfl, .node hw hplaces hgrown, ?_⟩
    rw [grow, hw, Option.map_some, hmap, forget]

theorem eq_of_map_place_eq {ts' : List PlacedTree} (hplaces : ts.map place = ts'.map place)
    (h : ∀ t ∈ ts, ∀ t' ∈ ts', t.place = t'.place → t = t') : ts = ts' := by
  refine List.ext_getElem (by simpa using congrArg List.length hplaces) fun n hn hn' => ?_
  have hplace : (ts[n]).place = (ts'[n]).place := by
    have hget : (ts.map place)[n]? = (ts'.map place)[n]? := by rw [hplaces]
    simpa [List.getElem?_eq_getElem hn, List.getElem?_eq_getElem hn'] using hget
  exact h _ (List.getElem_mem hn) _ (List.getElem_mem hn') hplace

theorem Grown.unique (h : Grown ws ps t) {t' : PlacedTree} (h' : Grown ws ps t')
    (hplace : t.place = t'.place) : t = t' := by
  induction h generalizing t' with
  | node hw hchildren _ ih =>
    cases h' with
    | node hw' hchildren' hgrown' =>
      obtain rfl := hplace
      obtain rfl := Option.some.inj (hw.symm.trans hw')
      congr 1
      exact eq_of_map_place_eq (hchildren.trans hchildren'.symm)
        fun t ht t' ht' heq => ih t ht (hgrown' t' ht') heq

/-- Every walk along the parents that are left has ended after as many steps as there are
widgets. -/
theorem climb_page_length (page : Page) : ∀ i < page.widgets.length,
    climb (cutCycles (parents page.widgets)) page.widgets.length i = none := by
  intro i hi
  have hend := (closed_parents page.widgets).climb_cutCycles_length (i := i)
    (by rwa [length_parents])
  rwa [length_parents] at hend

/-- The forest of the roots of a page is grown in full, and growing it deeper adds nothing. -/
theorem exists_forest (page : Page) :
    let ps := cutCycles (parents page.widgets)
    ∃ forest : List PlacedTree, forest.map place = childrenOf ps none ∧
      (∀ t ∈ forest, Grown page.widgets ps t) ∧
      ∀ depth, page.widgets.length ≤ depth →
        (childrenOf ps none).filterMap (grow page.widgets ps depth) = forgetAll forest := by
  intro ps
  have hlen : ps.length = page.widgets.length := by
    rw [length_cutCycles, length_parents]
  have hends : ∀ i < page.widgets.length, climb ps page.widgets.length i = none :=
    climb_page_length page
  have hgrow : ∀ depth, page.widgets.length ≤ depth → ∃ ts, ts.map place = childrenOf ps none ∧
      (∀ t ∈ ts, Grown page.widgets ps t) ∧
      (childrenOf ps none).filterMap (grow page.widgets ps depth) = forgetAll ts := by
    intro depth hdepth
    refine exists_trees fun i hi => ?_
    have hzero : climb ps 0 i = some i := rfl
    exact exists_grown hlen hends (hlen ▸ (mem_childrenOf.1 hi).1) hzero (by omega)
  obtain ⟨forest, hplaces, hgrown, -⟩ := hgrow _ (Nat.le_refl _)
  refine ⟨forest, hplaces, hgrown, fun depth hdepth => ?_⟩
  obtain ⟨ts, hts, hall, hmap⟩ := hgrow depth hdepth
  rw [hmap, eq_of_map_place_eq (hts.trans hplaces.symm)
    fun t ht t' ht' heq => (hall t ht).unique (hgrown t' ht') heq]

/-! ## Every place once -/

theorem Grown.widget_eq (h : Grown ws ps t) : ∀ s ∈ t.nodes,
    ws[s.place]? = some s.widget ∧ s.children.map place = childrenOf ps (some s.place) := by
  induction h with
  | node hw hchildren _ ih =>
    rw [nodes, nodesAll_eq_flatMap, List.forall_mem_cons]
    refine ⟨⟨hw, hchildren⟩, fun s hs => ?_⟩
    obtain ⟨t, ht, hst⟩ := List.mem_flatMap.1 hs
    exact ih t ht s hst

/-- The places of a forest. -/
def placesOf (ts : List PlacedTree) : List Nat := (nodesAll ts).map place

/-- How often the parent of a place is among some places. -/
def parentCount (ps : List (Option Nat)) (i : Nat) (places : List Nat) : Nat :=
  (above ps i).elim 0 fun p => places.count p

theorem parentCount_append (ps : List (Option Nat)) (i : Nat) (a b : List Nat) :
    parentCount ps i (a ++ b) = parentCount ps i a + parentCount ps i b := by
  unfold parentCount
  cases above ps i <;> simp

theorem count_childrenOf (ps : List (Option Nat)) (p i : Nat) :
    (childrenOf ps (some p)).count i = parentCount ps i [p] := by
  have hnodup : (childrenOf ps (some p)).Nodup := (pairwise_childrenOf ps _).imp Nat.ne_of_lt
  simp only [hnodup.count, mem_childrenOf_some, parentCount]
  cases h : above ps i with
  | none => simp
  | some q => simp [List.count_singleton, @eq_comm _ p]

/-- A place stands in a forest once for each time that it is a root, and once for each time
that its parent stands in it. -/
theorem count_placesOf_of_grown (hts : ∀ t ∈ ts, Grown ws ps t)
    (h : ∀ t ∈ ts, ∀ i, (t.nodes.map place).count i =
      [t.place].count i + parentCount ps i (t.nodes.map place)) (i : Nat) :
    (placesOf ts).count i = (ts.map place).count i + parentCount ps i (placesOf ts) := by
  induction ts with
  | nil =>
    unfold parentCount
    cases above ps i <;> simp [placesOf, nodesAll]
  | cons t ts ih =>
    obtain ⟨hhead, htail⟩ := List.forall_mem_cons.1 h
    have hrest := ih (fun s hs => hts s (List.mem_cons_of_mem _ hs)) htail
    have hsplit : placesOf (t :: ts) = t.nodes.map place ++ placesOf ts := by
      rw [placesOf, nodesAll, List.map_append, placesOf]
    have hplaces : (t :: ts).map place = [t.place] ++ ts.map place := rfl
    rw [hsplit, hplaces, List.count_append, List.count_append, parentCount_append, hhead i, hrest]
    omega

theorem Grown.count_nodes (h : Grown ws ps t) (i : Nat) :
    (t.nodes.map place).count i = [t.place].count i + parentCount ps i (t.nodes.map place) := by
  induction h generalizing i with
  | @node j w ts _ hchildren hgrown ih =>
    have hbelow := count_placesOf_of_grown hgrown ih i
    have hsplit : (PlacedTree.node j w ts).nodes.map place = [j] ++ placesOf ts := rfl
    rw [hsplit, List.count_append, parentCount_append, hbelow, hchildren, count_childrenOf]
    rfl

theorem count_placesOf (hts : ∀ t ∈ ts, Grown ws ps t) (i : Nat) :
    (placesOf ts).count i = (ts.map place).count i + parentCount ps i (placesOf ts) :=
  count_placesOf_of_grown hts (fun t ht => (hts t ht).count_nodes) i

theorem count_placesOf_eq_one (hclosed : Closed ps) (hts : ∀ t ∈ ts, Grown ws ps t)
    (hroots : ts.map place = childrenOf ps none) {k : Nat} (hi : i < ps.length)
    (hk : climb ps k i = none) : (placesOf ts).count i = 1 := by
  induction k generalizing i with
  | zero => cases hk
  | succ k ih =>
    have hnodup : (childrenOf ps none).Nodup := (pairwise_childrenOf ps _).imp Nat.ne_of_lt
    rw [count_placesOf hts, hroots]
    simp only [hnodup.count, mem_childrenOf, parentCount]
    cases habove : above ps i with
    | none => simp [hi]
    | some p =>
      rw [climb, habove] at hk
      have hp := ih (hclosed i p habove) hk
      simp [hp]

theorem placesOf_perm_range (hclosed : Closed ps) (hlen : ps.length = ws.length)
    (hends : ∀ i < ps.length, ∃ k, climb ps k i = none) (hts : ∀ t ∈ ts, Grown ws ps t)
    (hroots : ts.map place = childrenOf ps none) :
    (placesOf ts).Perm (List.range ws.length) := by
  rw [List.perm_iff_count]
  intro i
  by_cases hi : i < ps.length
  · obtain ⟨k, hk⟩ := hends i hi
    rw [count_placesOf_eq_one hclosed hts hroots hi hk, eq_comm]
    exact List.count_eq_one_of_mem List.nodup_range (List.mem_range.2 (hlen ▸ hi))
  · rw [List.count_eq_zero_of_not_mem (fun h => hi (hlen ▸ List.mem_range.1 h)),
      List.count_eq_zero]
    intro hmem
    obtain ⟨s, hs, rfl⟩ := List.mem_map.1 hmem
    rw [nodesAll_eq_flatMap] at hs
    obtain ⟨t, ht, hst⟩ := List.mem_flatMap.1 hs
    have hw := ((hts t ht).widget_eq s hst).1
    exact hi (hlen ▸ (List.getElem?_eq_some_iff.1 hw).1)

end WidgetTree

end TouchPanel
