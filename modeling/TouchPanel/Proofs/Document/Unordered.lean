import TouchPanel.Document.Assembly
import TouchPanel.Proofs.Egress.Unordered
import TouchPanel.Proofs.Ingress.Unordered
import TouchPanel.Proofs.Widget.Alike
import TouchPanel.Schema.Builtin

/-!
# Input order without meaning

The order of bindings and that of action bindings say nothing about a device, as long as no
two of them compete for an id or an event. Declared values, handlers and locks are then the
same tables, and pages, links and scripts see nothing else of them.
-/

namespace TouchPanel

theorem Widget.putEvent_eq_of_nodeOf? {hs hs' : List Handler}
    (h : ∀ widgetId event, Handlers.nodeOf? hs' widgetId event = Handlers.nodeOf? hs widgetId event)
    (w : Widget) (outId : String) : w.putEvent hs' outId = w.putEvent hs outId := by
  have hevent : ∀ (l : List Handler) (event : String), w.eventNode? l outId event =
      (Handlers.nodeOf? l outId event).or ((w.events.get? event).bind literalEvent?) := by
    intro l event
    unfold eventNode? Handlers.nodeOf?
    cases Handlers.find? l outId event <;> rfl
  funext m event
  rw [putEvent, putEvent, hevent, hevent, h]

/-- A widget has the same entries with handlers that run the same on every event. -/
theorem Widget.body_withHandlers {c : PageContext} {hs : List Handler}
    (h : ∀ widgetId event,
      Handlers.nodeOf? hs widgetId event = Handlers.nodeOf? c.handlers widgetId event)
    (w : Widget) : w.body (c.withHandlers hs) = w.body c := by
  unfold body PageContext.withHandlers
  dsimp only
  rw [putEvent_eq_of_nodeOf? h]

theorem Lock.globals_congr {locks locks' : List String}
    (h : ∀ lock, lock ∈ locks' ↔ lock ∈ locks) : globals locks' = globals locks := by
  have hkeys :
      (Table.ofList (locks'.map (·, ()))).keys = (Table.ofList (locks.map (·, ()))).keys := by
    apply Table.keys_ofList_congr
    intro lock
    simpa using h lock
  rw [globals, globals, hkeys]

namespace Fragments

variable {p : Project} {registry : Registry} {options : Options}

/-- With no two bindings for one id and no two handlers for one event, the order of both is
lost in the tables that are made of them. -/
theorem ofProject_reordered {bindings : List Source} {actions : List ActionBinding}
    (hbindings : bindings.Perm p.bindings) (hactions : actions.Perm p.actionBindings)
    (hfree : Declarations.IdsFree p.bindings)
    (hdistinct : Handlers.Unshadowed (handlersOf p registry options).list) :
    (ofProject { p with bindings, actionBindings := actions } registry options).1 =
      (ofProject p registry options).1 := by
  let p' : Project := { p with bindings, actionBindings := actions }
  have hindex : indexOf p' registry options = indexOf p registry options := rfl
  have hlinks : linksOf p' registry options = linksOf p registry options := by
    have hdeclared : (Declarations.ofBindings p'.bindings).1 =
        (Declarations.ofBindings p.bindings).1 := hfree.ofBindings_perm hbindings
    unfold linksOf
    rw [hindex, hdeclared]
  have hscripts : scriptsOf p' registry options = scriptsOf p registry options := by
    unfold scriptsOf
    rw [hlinks]
  have hcontext : contextOf p' registry options =
      (contextOf p registry options).withHandlers (handlersOf p' registry options).list := rfl
  have hnode : ∀ widgetId event,
      Handlers.nodeOf? (handlersOf p' registry options).list widgetId event =
        Handlers.nodeOf? (handlersOf p registry options).list widgetId event :=
    hdistinct.nodeOf?_eq (Handlers.unplaced_perm hactions _ _)
  have hlvgl : p'.lvgl (contextOf p' registry options) = p.lvgl (contextOf p registry options) := by
    rw [hcontext]
    refine Project.lvgl_eq_of_alike rfl (List.forall₂_same.2 fun page _ => ⟨rfl, rfl, ?_⟩)
    exact List.forall₂_same.2 fun w _ => ⟨rfl, rfl, rfl, Widget.body_withHandlers hnode w⟩
  have hglobals : Lock.globals ((handlersOf p' registry options).locks ++
      (linksOf p' registry options).locks) =
        Lock.globals ((handlersOf p registry options).locks ++
          (linksOf p registry options).locks) := by
    apply Lock.globals_congr
    intro lock
    rw [hlinks, List.mem_append, List.mem_append]
    exact or_congr_left (Handlers.locks_perm hactions _ _).mem_iff
  exact ofProject_congr hlvgl hscripts hglobals rfl

end Fragments

namespace Compilation

/-- The findings about the project are among the findings of a compilation. -/
theorem mem_diagnostics_of_mem_fragments {device : Device} {recipe : Text} {registry : Registry}
    {options : Options} {d : Diagnostic}
    (h : d ∈ (Fragments.ofProject device.project registry options).2) :
    d ∈ (ofDevice device recipe registry options).diagnostics :=
  List.mem_append_left _ h

/-- A document is known by the fragments and the hand-written text of the project. -/
theorem document_congr {device : Device} {project : Project} (recipe : Text) (options : Options)
    {registry : Registry} (htext : project.userText = device.project.userText)
    (hfragments : (Fragments.ofProject project registry options).1 =
      (Fragments.ofProject device.project registry options).1) :
    (ofDevice { device with project } recipe registry options).document =
      (ofDevice device recipe registry options).document := by
  unfold ofDevice Document.assemble
  dsimp only
  rw [hfragments, htext]
  rfl

/-- If no id is derived twice and no handler is shadowed, the order of bindings and of action
bindings does not change the document. -/
theorem document_ignores_order (device : Device) (recipe : Text) (registry : Registry)
    (options : Options) {bindings : List Source} {actions : List ActionBinding}
    (hbindings : bindings.Perm device.project.bindings)
    (hactions : actions.Perm device.project.actionBindings)
    (hcollision : ∀ id first second, .derivedIdCollision id first second ∉
      (ofDevice device recipe registry options).diagnostics)
    (hshadowed : ∀ widget event shadowed winner, .shadowedAction widget event shadowed winner ∉
      (ofDevice device recipe registry options).diagnostics) :
    let project := { device.project with bindings, actionBindings := actions }
    (ofDevice { device with project } recipe registry options).document =
      (ofDevice device recipe registry options).document := by
  intro project
  have hfound : (Fragments.ofProject device.project registry options).2 = _ :=
    congrArg Prod.snd (Fragments.ofProject_eq device.project registry options)
  have hfree : Declarations.IdsFree device.project.bindings := by
    apply Declarations.idsFree_of_no_collision
    intro id first second hmem
    refine hcollision id first second (mem_diagnostics_of_mem_fragments ?_)
    rw [hfound]
    simp [hmem]
  have hdistinct : Handlers.Unshadowed
      (Fragments.handlersOf device.project registry options).list := by
    apply Handlers.unshadowed_ofBindings
    intro widget event shadowed winner hmem
    refine hshadowed widget event shadowed winner (mem_diagnostics_of_mem_fragments ?_)
    rw [hfound]
    simp only [List.mem_append]
    exact Or.inl (Or.inl (Or.inl (Or.inl (Or.inr hmem))))
  apply document_congr
  · rfl
  · exact Fragments.ofProject_reordered hbindings hactions hfree hdistinct

/-- A device with two inbound values, a switch with two handlers, and a link. -/
def switchPanel : Device where
  deviceId := "panel-1"
  slug := "hall"
  name := "Hall"
  apiKey := none
  recipeId := none
  project := { Project.empty with
    pages := [⟨"p", none, none,
      [⟨"sw", "switch", 0, 0, 1, 1, none, .empty, .empty, .empty, .empty⟩]⟩]
    bindings := [⟨"sensor.b", .state, none⟩, ⟨"light.a", .binary, none⟩]
    links := [⟨⟨"light.a", .binary, none⟩, ⟨"sw", "widget_checked", none, none, none, none⟩⟩]
    actionBindings := [
      ⟨"sw", "on_value", some ⟨"light", "toggle", some "light.a", .empty⟩, none⟩,
      ⟨"sw", "on_click", some ⟨"scene", "turn_on", none, .empty⟩, none⟩] }

theorem document_ignores_order_reversed :
    let project := { switchPanel.project with
      bindings := switchPanel.project.bindings.reverse
      actionBindings := switchPanel.project.actionBindings.reverse }
    (ofDevice { switchPanel with project } "lvgl:\n  #__LVGL_PAGES__".toList .builtin {}).document =
      (ofDevice switchPanel "lvgl:\n  #__LVGL_PAGES__".toList .builtin {}).document := by
  have hfound : (ofDevice switchPanel "lvgl:\n  #__LVGL_PAGES__".toList .builtin {}).diagnostics =
      [] := by decide +kernel
  apply document_ignores_order
  · exact List.reverse_perm _
  · exact List.reverse_perm _
  · exact fun id first second => hfound ▸ List.not_mem_nil
  · exact fun widget event shadowed winner => hfound ▸ List.not_mem_nil

end Compilation

end TouchPanel
