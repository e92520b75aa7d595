import TouchPanel.Proofs.Output.Value
import TouchPanel.Proofs.Table
import TouchPanel.Proofs.Text.Trim
import TouchPanel.Widget.Page

/-!
# What pages are built of

The nodes of pages, styles and gradients are put together from plain words, numbers, colours, the
values of the editor, the defaults of the schema and the event handlers. So a property that these
have, and that a mapping and a list take over from what stands in them, holds of all pages.
-/

namespace TouchPanel

open Json (Value)

/-! ## The parts of pages -/

/-- The keys that pages have whatever the schema is. -/
def pageKeys : List String :=
  ["id", "x", "y", "width", "height", "styles", "widgets", "obj", "bg_color", "color", "position",
    "direction", "stops", "style_definitions", "gradients", "pages"]

/-- A property of nodes that all parts of pages have, as far as the strings of the project and of
the schemas have a property as well. -/
structure PageContext.Builds (c : PageContext) (S K : String → Prop) (D : Node → Prop) : Prop
    extends Node.Builds S K D where
  name (raw : String) : D (.ident (Identifier.plain raw))
  id (raw : String) : D (.ident (c.policy.emitted raw))
  direction {s : String} (h : S s) : D (.ident s)
  color {s : String} (h : S s) : D (colorNode s)
  asset {s ref : String} (h : c.assets.idOf? s = some ref) : D (.ident ref)
  fragment {s : String} (h : S s) : D (.fragment s)
  handlers : ∀ h ∈ c.handlers, D h.node
  keys : ∀ key ∈ pageKeys, K key
  registry : ∀ s ∈ c.registry.strings, S s

variable {c : PageContext} {S K : String → Prop} {D : Node → Prop} {m : Mapping}

namespace PageContext.Builds

variable (hc : c.Builds S K D)

include hc

theorem valueNode {output : String} {v : Value} (hv : ∀ s ∈ v.strings, S s) {node : Node}
    (h : valueNode? c.assets output v = some node) : D node := by
  unfold valueNode? at h
  split at h
  · next s =>
    have hs : S s := hv s List.mem_cons_self
    split at h
    · next ref href =>
      cases h
      exact hc.asset href
    · split at h
      · cases h
        exact hc.color hs
      · exact hc.text hs h
  · exact hc.value hv h

theorem literalEvent {v : Value} (hv : ∀ s ∈ v.strings, S s) {node : Node}
    (h : Widget.literalEvent? v = some node) : D node := by
  unfold Widget.literalEvent? at h
  split at h
  · next s =>
    split at h
    · cases h
    · cases h
      exact hc.fragment (hv s List.mem_cons_self)
  · exact hc.value hv h

theorem schema {schema : Schema} (h : schema ∈ c.registry.schemas) :
    S schema.rootKey ∧ (∀ f ∈ schema.props, ∀ s ∈ f.strings, S s) ∧
      (∀ f ∈ schema.style, ∀ s ∈ f.strings, S s) ∧
      (∀ part ∈ schema.parts, S part.1 ∧ ∀ f ∈ part.2, ∀ s ∈ f.strings, S s) ∧
      ∀ event ∈ schema.events, S event := by
  have hregistry := hc.registry
  simp only [Registry.strings, Schema.strings, List.forall_mem_append, List.forall_mem_flatMap,
    List.forall_mem_cons] at hregistry
  obtain ⟨⟨⟨hroot, hprops, hstyle⟩, hparts⟩, hevents⟩ := hregistry.1 schema h
  exact ⟨hroot, hprops, hstyle, hparts, hevents⟩

theorem sharedStyle : ∀ f ∈ c.registry.sharedStyle, ∀ s ∈ f.strings, S s := by
  have hregistry := hc.registry
  rw [Registry.strings, List.forall_mem_append] at hregistry
  exact List.forall_mem_flatMap.1 hregistry.2

theorem fieldNode {withDefaults : Bool} {values : List (String × Value)}
    (hvalues : ∀ s ∈ Value.fieldStrings values, S s) {f : Field} (hf : ∀ s ∈ f.strings, S s)
    {node : Node} (h : fieldNode? c.assets withDefaults values f = some node) : D node := by
  unfold fieldNode? at h
  split at h
  · next found hfound =>
    cases h
    obtain ⟨e, he, hnode⟩ := Option.bind_eq_some_iff.1 hfound
    refine hc.valueNode (fun s hs => hvalues s ?_) hnode
    have hsub := Value.strings_subset_fieldStrings (List.mem_of_find?_eq_some he)
    exact hsub (List.mem_cons_of_mem _ hs)
  · split at h
    · obtain ⟨v, hv, hnode⟩ := Option.bind_eq_some_iff.1 h
      refine hc.value (fun s hs => hf s (List.mem_cons_of_mem _ ?_)) hnode
      exact List.mem_flatMap.2 ⟨v, Option.mem_toList.2 hv, hs⟩
    · cases h

theorem putFields (withDefaults : Bool) {values : List (String × Value)}
    (hvalues : ∀ s ∈ Value.fieldStrings values, S s) {fields : List Field}
    (hfields : ∀ f ∈ fields, ∀ s ∈ f.strings, S s) (hm : m.Each K D) :
    (putFields c.assets withDefaults values fields m).Each K D := by
  refine List.foldlRecOn (motive := Mapping.Each K D) fields _ hm fun m hm f hf => ?_
  split
  · next node hnode =>
    have hkey : K f.output := hc.field (hfields f hf _ List.mem_cons_self)
    exact hm.insert hkey (hc.fieldNode hvalues (hfields f hf) hnode)
  · exact hm

/-! ### Widgets -/

theorem putStyles (w : Widget) (styles : List String) (hm : m.Each K D) :
    (w.putStyles styles m).Each K D := by
  have hkey : K "styles" := hc.keys _ (by decide)
  unfold Widget.putStyles
  split
  · exact hm
  · next names _ =>
    have hrefs : ∀ ref ∈ (names.filter styles.contains).map
        (fun n => Node.ident (Identifier.plain n)), D ref := by
      rw [List.forall_mem_map]
      exact fun n _ => hc.name n
    split
    · exact hm.erase _
    · next ref heq =>
      rw [heq] at hrefs
      exact hm.insert hkey (hrefs ref List.mem_cons_self)
    · exact hm.insert hkey (hc.list hrefs)

theorem putPart {w : Widget} (hw : ∀ s ∈ w.extra.strings, S s) {part : String × List Field}
    (hpart : S part.1 ∧ ∀ f ∈ part.2, ∀ s ∈ f.strings, S s) (hm : m.Each K D) :
    (w.putPart c.assets m part).Each K D := by
  unfold Widget.putPart
  split
  · next values hget =>
    have hvalues : ∀ s ∈ Value.fieldStrings values, S s := fun s hs => hw s <|
      Value.strings_subset_fieldStrings (Table.get?_eq_some_iff.1 hget) (List.mem_cons_of_mem _ hs)
    have hentries : (TouchPanel.putFields c.assets false values part.2 []).Each K D :=
      hc.putFields false hvalues hpart.2 Mapping.each_nil
    split
    · exact hm
    · exact hm.insert (hc.field hpart.1) (hc.map hentries)
  · exact hm

theorem putEvent {w : Widget} (hw : ∀ s ∈ w.events.strings, S s) (outId : String) {event : String}
    (hevent : S event) (hm : m.Each K D) : (w.putEvent c.handlers outId m event).Each K D := by
  unfold Widget.putEvent
  split
  · next node hnode =>
    apply hm.insert (hc.field hevent)
    unfold Widget.eventNode? at hnode
    split at hnode
    · next h hfind =>
      cases hnode
      exact hc.handlers h (List.mem_of_find?_eq_some hfind)
    · obtain ⟨v, hv, hliteral⟩ := Option.bind_eq_some_iff.1 hnode
      refine hc.literalEvent (fun s hs => hw s ?_) hliteral
      have hsub := Value.strings_subset_fieldStrings (Table.get?_eq_some_iff.1 hv)
      exact hsub (List.mem_cons_of_mem _ hs)
  · exact hm

theorem body {w : Widget} (hw : ∀ s ∈ w.strings, S s) : (w.body c).Each K D := by
  simp only [Widget.strings, List.forall_mem_append, List.forall_mem_cons] at hw
  obtain ⟨⟨⟨⟨-, hprops⟩, hstyle⟩, hevents⟩, hextra⟩ := hw
  have hgeometry : (w.geometry (c.policy.emitted w.id)).Each K D := by
    have hkeys : ∀ key ∈ ["id", "x", "y", "width", "height"], K key := fun key hkey =>
      hc.keys key (List.mem_of_mem_take (i := 5) hkey)
    simp only [List.forall_mem_cons] at hkeys
    obtain ⟨hid, hx, hy, hwidth, hheight, -⟩ := hkeys
    exact ((((Mapping.each_nil.cons hheight (hc.int _)).cons hwidth (hc.int _)).cons hy
      (hc.int _)).cons hx (hc.int _)).cons hid (hc.id _)
  unfold Widget.body
  dsimp only
  split
  · exact hgeometry
  · next schema hschema =>
    obtain ⟨-, hpropFields, hstyleFields, hparts, hschemaEvents⟩ :=
      hc.schema (List.mem_of_find?_eq_some hschema)
    refine List.foldlRecOn (motive := Mapping.Each K D) schema.events _ ?_
      fun m hm event hevent => hc.putEvent hevents _ (hschemaEvents event hevent) hm
    refine List.foldlRecOn (motive := Mapping.Each K D) schema.parts _ ?_
      fun m hm part hpart => hc.putPart hextra (hparts part hpart) hm
    refine hc.putStyles w _ (hc.putFields true hstyle hstyleFields ?_)
    exact hc.putFields true hprops hpropFields hgeometry

theorem node {w : Widget} (hw : ∀ s ∈ w.strings, S s) {children : List Node}
    (hchildren : ∀ n ∈ children, D n) : D (w.node c children) := by
  have hbody := hc.body hw
  have hroot : K (((c.registry.resolve? w.kind).map (·.rootKey)).getD "obj") := by
    cases hschema : c.registry.resolve? w.kind with
    | none => exact hc.keys _ (by decide)
    | some schema => exact hc.field (hc.schema (List.mem_of_find?_eq_some hschema)).1
  unfold Widget.node
  dsimp only
  refine hc.single hroot (hc.map ?_)
  split
  · exact hbody.insert (hc.keys _ (by decide)) (hc.list hchildren)
  · exact hbody

end PageContext.Builds

/-! ## Pages -/

theorem colorNode_trimmed (s : String) : colorNode (trimmed s) = colorNode s := by
  unfold colorNode
  rw [Text.trimmed_trimmed, trimmed, String.toList_ofList, Text.trim_trim]

namespace WidgetTree

theorem mem_collectAll {α : Type} {f : Widget → List α} {ts : List WidgetTree} {a : α} :
    a ∈ collectAll f ts ↔ ∃ t ∈ ts, a ∈ collect f t := by
  induction ts with
  | nil => simp [collectAll]
  | cons t r ih => simp [collectAll, ih]

/-- The widgets of a tree are among those of its page. -/
theorem widgets_grow_subset {ws : List Widget} {ps : List (Option Nat)} {depth i : Nat}
    {t : WidgetTree} (h : grow ws ps depth i = some t) : collect (fun w => [w]) t ⊆ ws := by
  induction depth generalizing i t with
  | zero => cases h
  | succ depth ih =>
    rw [grow] at h
    obtain ⟨w, hw, rfl⟩ := Option.map_eq_some_iff.1 h
    rw [collect, List.singleton_append]
    refine List.cons_subset.2 ⟨List.mem_of_getElem? hw, fun v hv => ?_⟩
    obtain ⟨child, hchild, hmem⟩ := mem_collectAll.1 hv
    obtain ⟨j, -, hgrow⟩ := List.mem_filterMap.1 hchild
    exact ih hgrow hmem

theorem widgets_ofPage_subset (page : Page) : widgets (ofPage page) ⊆ page.widgets := by
  intro w hw
  obtain ⟨t, ht, hmem⟩ := mem_collectAll.1 hw
  obtain ⟨i, -, hgrow⟩ := List.mem_filterMap.1 ht
  exact widgets_grow_subset hgrow hmem

end WidgetTree

namespace PageContext.Builds

open WidgetTree

mutual

theorem toNode (hc : c.Builds S K D) (t : WidgetTree)
    (ht : ∀ w ∈ collect (fun w => [w]) t, ∀ s ∈ w.strings, S s) : D (t.toNode c) := by
  match t with
  | .node w children =>
    rw [collect, List.singleton_append, List.forall_mem_cons] at ht
    rw [WidgetTree.toNode]
    exact hc.node ht.1 (toNodes hc children ht.2)

theorem toNodes (hc : c.Builds S K D) (ts : List WidgetTree)
    (hts : ∀ w ∈ widgets ts, ∀ s ∈ w.strings, S s) : ∀ node ∈ WidgetTree.toNodes c ts, D node := by
  match ts with
  | [] => exact fun _ h => absurd h List.not_mem_nil
  | t :: r =>
    obtain ⟨ht, hr⟩ := List.forall_mem_append.1 hts
    rw [WidgetTree.toNodes]
    exact List.forall_mem_cons.2 ⟨toNode hc t ht, toNodes hc r hr⟩

end

variable (hc : c.Builds S K D)

include hc

theorem styleNode {name : String} {values : Table String Value}
    (hvalues : ∀ s ∈ values.strings, S s) : D (Theme.styleNode c name values) :=
  hc.map (hc.putFields false hvalues hc.sharedStyle
    (Mapping.each_nil.cons (hc.keys _ (by decide)) (hc.name name)))

theorem gradientNode {g : Gradient} (hg : ∀ s ∈ g.strings, S s) : D (Theme.gradientNode g) := by
  simp only [Gradient.strings, List.forall_mem_append, List.forall_mem_cons,
    List.forall_mem_map] at hg
  obtain ⟨⟨-, hdirection⟩, hstops⟩ := hg
  unfold Theme.gradientNode
  refine hc.map ((Mapping.Each.cons (hc.keys _ (by decide)) (hc.name g.id)
    (fun e he => ?_)).append (Mapping.each_nil.cons (hc.keys _ (by decide)) (hc.list ?_)))
  · obtain ⟨d, hd, rfl⟩ := Option.map_eq_some_iff.1 (Option.mem_toList.1 he)
    have hd' := (Option.filter_eq_some_iff.1 hd).1
    exact ⟨hc.keys "direction" (by decide), hc.direction (hdirection d (Option.mem_toList.2 hd'))⟩
  · rw [List.forall_mem_map]
    intro stop hstop
    exact hc.map ((Mapping.each_nil.cons (hc.keys _ (by decide)) (hc.int _)).cons
      (hc.keys _ (by decide)) (hc.color (hstops stop hstop)))

theorem pageNode {page : Page} {theme : Theme}
    (hbackground : ∀ s ∈ page.background.toList ++ theme.background.toList, S s)
    (hwidgets : ∀ w ∈ page.widgets, ∀ s ∈ w.strings, S s) : D (page.node theme c) := by
  have hcolor : ∀ s ∈ page.color? theme, D (colorNode s) := by
    intro s hs
    obtain ⟨raw, hraw, rfl⟩ := Option.map_eq_some_iff.1 (Option.filter_eq_some_iff.1 hs).1
    rw [colorNode_trimmed]
    refine hc.color (hbackground raw (List.mem_append.2 ?_))
    simp only [Option.mem_toList]
    exact (Option.or_eq_some_iff.1 hraw).imp_right And.right
  have hid : D (.ident (page.outId c.policy)) := by
    unfold Page.outId
    exact hc.id _
  refine hc.map ((Mapping.Each.cons (hc.keys _ (by decide)) hid (fun e he => ?_)).append
    (Mapping.each_nil.cons (hc.keys _ (by decide)) (hc.list ?_)))
  · obtain ⟨s, hs, rfl⟩ := Option.map_eq_some_iff.1 (Option.mem_toList.1 he)
    exact ⟨hc.keys "bg_color" (by decide), hcolor s hs⟩
  · exact toNodes hc _ fun w hw => hwidgets w (widgets_ofPage_subset page hw)

/-- Whatever the parts of pages have and hand on holds of all that stands below `lvgl`. -/
theorem lvgl {p : Project} (hp : ∀ s ∈ p.strings, S s) : (p.lvgl c).Each K D := by
  simp only [Project.strings, List.forall_mem_append, List.forall_mem_flatMap, Page.strings,
    Theme.strings, List.forall_mem_cons] at hp
  obtain ⟨⟨⟨⟨⟨⟨hpages, -⟩, -⟩, -⟩, -⟩, -⟩, ⟨hbackground, hstyles⟩, hgradients⟩ := hp
  unfold Project.lvgl
  dsimp only
  refine (Mapping.Each.append ?_ ?_).append (Mapping.each_nil.cons (hc.keys _ (by decide))
    (hc.list ?_))
  · split
    · exact Mapping.each_nil
    · refine Mapping.each_nil.cons (hc.keys _ (by decide)) (hc.list ?_)
      rw [List.forall_mem_map]
      exact fun e he => hc.styleNode (hstyles e he).2
  · split
    · exact Mapping.each_nil
    · refine Mapping.each_nil.cons (hc.keys _ (by decide)) (hc.list ?_)
      rw [List.forall_mem_map]
      exact fun g hg => hc.gradientNode (hgradients g hg)
  · rw [List.forall_mem_map]
    intro page hpage
    unfold Project.shownPages at hpage
    split at hpage
    · obtain rfl := List.mem_singleton.1 hpage
      exact hc.pageNode hbackground fun w hw => absurd hw List.not_mem_nil
    · obtain ⟨⟨⟨-, hname⟩, hown⟩, hwidgets⟩ := hpages page hpage
      exact hc.pageNode (List.forall_mem_append.2 ⟨hown, hbackground⟩) hwidgets

end PageContext.Builds

end TouchPanel
