import TouchPanel.Proofs.Egress.Handler
import TouchPanel.Proofs.Ingress.Update
import TouchPanel.Proofs.Lock.Name
import TouchPanel.Proofs.Widget.Code

/-!
# Locks of a project

Code about a lock is in the updates of links and in event handlers only. Links and handlers
name the locks that they use, and each of these is declared once.
-/

namespace TouchPanel

open Node

variable {P : String → Prop}

/-! ## Inbound sections -/

namespace Fragments

variable (p : Project) (registry : Registry) (options : Options)

/-- The update of every attached link stands behind its lock in some section. -/
theorem exists_reads {a : Attachment} {i : Nat}
    (ha : (a, i) ∈ (linksOf p registry options).attached) :
    ∃ s ∈ (ofProject p registry options).1.sensors, ∃ node ∈ s.2, Lock.Reads node a.lock := by
  obtain ⟨s, hs, node, hnode, hlisted⟩ := exists_listed p registry options ha
  exact ⟨s, hs, node, hnode, (Lock.reads_guarded a.lock [a.update]).of_within hlisted⟩

theorem codeIn_sensors : ∀ s ∈ (ofProject p registry options).1.sensors, ∀ node ∈ s.2,
    node.CodeIn fun code => ∃ lock ∈ (linksOf p registry options).locks,
      code = Lock.guardCode lock := by
  simp only [codeIn_iff_everywhere]
  refine everywhere_sensors (fun u hu code hraw => absurd hraw (hu.1 code)) ?_ ?_
  · intro lock hlock code hraw
    cases hraw
    exact ⟨lock, hlock, rfl⟩
  · intro link i target a _ kind e code hraw
    cases hraw

end Fragments

/-! ## All locks -/

namespace Lock

/-- Names of globals. -/
def names (locks : List String) : List String := (Table.ofList (locks.map (·, ()))).keys

theorem mem_names {locks : List String} {lock : String} : lock ∈ names locks ↔ lock ∈ locks := by
  rw [names, Table.mem_keys_ofList, List.map_map]
  exact iff_of_eq (congrArg (lock ∈ ·) (List.map_id locks))

theorem pairwise_names (locks : List String) : (names locks).Pairwise (· < ·) := by
  refine (Table.pairwise_keys _).imp fun {a b} h => ?_
  exact compareOfLessAndEq_eq_lt.1 h

/-- Exactly one entry declares the lock. -/
def DeclaredOnce (entries : List Node) (lock : String) : Prop :=
  entries.countP (fun entry => entry.declaredId? = some lock) = 1

theorem declaredOnce_globals {locks : List String} {lock : String} (h : lock ∈ locks) :
    DeclaredOnce (globals locks) lock := by
  have hentry : ((fun entry : Node => decide (entry.declaredId? = some lock)) ∘ global) =
      fun name => name == lock := by
    funext name
    have hid : (global name).declaredId? = some name := rfl
    simp [hid, beq_eq_decide]
  have hnodup : (names locks).Nodup := Table.nodup_keys _
  calc
    (globals locks).countP (fun entry => entry.declaredId? = some lock)
      = (names locks).count lock := by
        rw [globals, List.countP_map, hentry]
        rfl
    _ = 1 := List.count_eq_one_of_mem hnodup (mem_names.2 h)

end Lock

namespace Fragments

/-- Locks that are read or written are declared once, and the declarations are in order. The
update of an attached link waits for its lock, and a handler takes its lock directly before
it makes its call. A lock belongs to one slug and one widget. -/
theorem locks_consistent (p : Project) (registry : Registry) (options : Options) :
    let f := (ofProject p registry options).1
    let handlers := (handlersOf p registry options).list
    (∃ names : List String, names.Pairwise (· < ·) ∧ f.globals = names.map Lock.global) ∧
    (∀ s ∈ f.sensors, ∀ node ∈ s.2, ∀ lock, Lock.Reads node lock →
      Lock.DeclaredOnce f.globals lock) ∧
    (∀ e ∈ (linksOf p registry options).attached, ∃ s ∈ f.sensors, ∃ node ∈ s.2,
      Lock.Reads node e.1.lock) ∧
    (∀ h ∈ handlers, ∀ lock, Lock.Writes h.node lock → Lock.DeclaredOnce f.globals lock) ∧
    (∀ h ∈ handlers, ∀ lock, Lock.Writes h.node lock ↔ h.lock = some lock) ∧
    (∀ e ∈ f.lvgl, ∀ lock, Lock.Writes e.2 lock → Lock.DeclaredOnce f.globals lock) ∧
    (∀ h ∈ handlers, ∃ b, p.actionBindings[h.index]? = some b ∧ h.IsMade options b) ∧
    (∀ entity entity' widgetId widgetId', Lock.name entity widgetId = Lock.name entity' widgetId' ↔
      Identifier.slug entity = Identifier.slug entity' ∧ widgetId = widgetId') := by
  intro f handlers
  have hproject : f = _ := congrArg Prod.fst (ofProject_eq p registry options)
  have hglobals : f.globals = Lock.globals
      ((handlersOf p registry options).locks ++ (linksOf p registry options).locks) := by
    rw [hproject]
  have hmade := Handlers.isMade_ofBindings p.actionBindings (indexOf p registry options) options
  have hcode : ∀ h ∈ handlers, h.node.CodeIn fun code =>
      ∃ lock ∈ (handlersOf p registry options).locks,
        code = Lock.writerCode options.lockWindow lock := by
    intro h hh code hheld
    obtain ⟨b, -, hb⟩ := hmade h hh
    obtain ⟨lock, hlock, heq⟩ := hb.codeIn code hheld
    exact ⟨lock, List.mem_filterMap.2 ⟨h, hh, hlock⟩, heq⟩
  have hwritten : ∀ {node : Node} {lock : String}, (node.CodeIn fun code =>
      ∃ lock ∈ (handlersOf p registry options).locks,
        code = Lock.writerCode options.lockWindow lock) →
      Lock.Writes node lock → Lock.DeclaredOnce f.globals lock := by
    rintro node lock hnode ⟨window, hheld⟩
    obtain ⟨lock', hlock', heq⟩ := hnode _ hheld
    rw [hglobals, Lock.writerCode_inj heq]
    exact Lock.declaredOnce_globals (List.mem_append_left _ hlock')
  refine ⟨⟨_, Lock.pairwise_names _, hglobals⟩, ?_,
    fun e he => exists_reads p registry options he, fun h hh lock => hwritten (hcode h hh),
    fun h hh lock => ?_, ?_, hmade, fun _ _ _ _ => Lock.name_inj⟩
  · intro s hs node hnode lock hreads
    obtain ⟨lock', hlock', heq⟩ := codeIn_sensors p registry options s hs node hnode _ hreads
    rw [hglobals, Lock.guardCode_inj heq]
    exact Lock.declaredOnce_globals (List.mem_append_right _ hlock')
  · obtain ⟨b, -, hb⟩ := hmade h hh
    exact hb.writes_iff
  · intro e he lock
    apply hwritten
    rw [hproject] at he
    have hpages : (p.lvgl (contextOf p registry options)).CodeIn _ := p.codeIn_lvgl hcode
    exact hpages e he

end Fragments

end TouchPanel
