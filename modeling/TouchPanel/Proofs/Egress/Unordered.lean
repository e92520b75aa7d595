import Mathlib.Data.List.Induction
import Mathlib.Data.List.Nodup
import Mathlib.Data.List.Perm.Basic
import TouchPanel.Proofs.Egress.Handler

/-!
# Action bindings in any order

The handler of a binding does not depend on the other bindings. Where no handler is shadowed
by a later one, what runs on an event of a widget and which locks are taken does not depend
on the order of the bindings.
-/

namespace TouchPanel

/-- A handler without the index of its binding. -/
def Handler.unplaced (h : Handler) : Handler := { h with index := 0 }

namespace Handlers

variable {bindings : List ActionBinding} {index : WidgetIndex} {options : Options}

theorem unplaced_resolve (b : ActionBinding) (i : Nat) (index : WidgetIndex) (options : Options) :
    (b.resolve i index options).2.map Handler.unplaced = (b.resolve 0 index options).2 := by
  unfold ActionBinding.resolve
  cases index.get? b.widgetId with
  | none => rfl
  | some target =>
    dsimp only
    cases target.schema.filter (·.supportsEvent (trimmed b.event)) with
    | none => rfl
    | some schema =>
      dsimp only
      cases nonBlank? b.literal with
      | some text => rfl
      | none => cases b.call.filter (·.isComplete) <;> rfl

theorem ofBindings_concat (bindings : List ActionBinding) (b : ActionBinding)
    (index : WidgetIndex) (options : Options) :
    ofBindings (bindings ++ [b]) index options =
      add index options (ofBindings bindings index options) (b, bindings.length) := by
  simp [ofBindings, List.zipIdx_append]

/-- The handler of a binding goes before those there are. -/
theorem list_add (hs : Handlers) (b : ActionBinding) (i : Nat) :
    (add index options hs (b, i)).list = (b.resolve i index options).2.toList ++ hs.list := by
  unfold add
  dsimp only
  cases hresolve : b.resolve i index options with
  | mk notes handler => cases handler <;> rfl

theorem unplaced_ofBindings (bindings : List ActionBinding) (index : WidgetIndex)
    (options : Options) : (ofBindings bindings index options).list.map Handler.unplaced =
      (bindings.filterMap fun b => (b.resolve 0 index options).2).reverse := by
  induction bindings using List.reverseRecOn with
  | nil => rfl
  | append_singleton bindings b ih =>
    rw [ofBindings_concat, list_add, List.map_append, ih, List.filterMap_append,
      List.reverse_append, List.filterMap_cons, List.filterMap_nil,
      ← unplaced_resolve b bindings.length]
    cases (b.resolve bindings.length index options).2 <;> rfl

/-- Handlers no two of which are for one event of one widget. -/
def Unshadowed (hs : List Handler) : Prop := (hs.map fun h => (h.widgetId, h.event)).Nodup

theorem find?_eq_none_iff {hs : List Handler} {widgetId event : String} :
    find? hs widgetId event = none ↔ (widgetId, event) ∉ hs.map fun h => (h.widgetId, h.event) := by
  simp [find?]

theorem unshadowed_ofBindings
    (h : ∀ widget event shadowed winner, .shadowedAction widget event shadowed winner ∉
      (ofBindings bindings index options).diagnostics) :
    Unshadowed (ofBindings bindings index options).list := by
  induction bindings using List.reverseRecOn with
  | nil => exact List.nodup_nil
  | append_singleton bindings b ih =>
    rw [ofBindings_concat] at h ⊢
    unfold add at h ⊢
    dsimp only at h ⊢
    cases hresolve : b.resolve bindings.length index options with
    | mk notes handler =>
      rw [hresolve] at h
      cases handler with
      | none =>
        refine ih fun widget event shadowed winner hmem => h widget event shadowed winner ?_
        exact List.mem_append_left _ hmem
      | some handler =>
        refine List.nodup_cons.2 ⟨find?_eq_none_iff.1 ?_, ih ?_⟩
        · -- an earlier handler for the event would have been reported
          rw [Option.eq_none_iff_forall_ne_some]
          intro earlier hearlier
          refine h b.widgetId handler.event earlier.index bindings.length ?_
          apply List.mem_append_right
          rw [hearlier]
          exact List.mem_singleton.2 rfl
        · intro widget event shadowed winner hmem
          refine h widget event shadowed winner ?_
          exact List.mem_append_left _ (List.mem_append_left _ hmem)

theorem Unshadowed.find?_eq_some_iff {hs : List Handler} (hdistinct : Unshadowed hs)
    {widgetId event : String} {h : Handler} :
    find? hs widgetId event = some h ↔ h ∈ hs ∧ h.widgetId = widgetId ∧ h.event = event := by
  constructor
  · intro hfind
    exact ⟨List.mem_of_find?_eq_some hfind, by simpa using List.find?_some hfind⟩
  · rintro ⟨hmem, rfl, rfl⟩
    cases hfind : find? hs h.widgetId h.event with
    | none => exact absurd (List.mem_map_of_mem hmem) (find?_eq_none_iff.1 hfind)
    | some other =>
      have hother : other.widgetId = h.widgetId ∧ other.event = h.event := by
        simpa using List.find?_some hfind
      have hsame : (other.widgetId, other.event) = (h.widgetId, h.event) :=
        Prod.ext hother.1 hother.2
      rw [List.inj_on_of_nodup_map hdistinct (List.mem_of_find?_eq_some hfind) hmem hsame]

/-- What runs on an event of a widget. -/
def nodeOf? (hs : List Handler) (widgetId event : String) : Option Node :=
  (find? hs widgetId event).map (·.node)

/-- Where no handler is shadowed, what runs on an event does not depend on the order of the
handlers or on the indices of their bindings. -/
theorem Unshadowed.nodeOf?_eq {hs hs' : List Handler} (hdistinct : Unshadowed hs)
    (hperm : (hs'.map Handler.unplaced).Perm (hs.map Handler.unplaced)) (widgetId event : String) :
    nodeOf? hs' widgetId event = nodeOf? hs widgetId event := by
  have hkeys : ∀ l : List Handler, l.map (fun h => (h.widgetId, h.event)) =
      (l.map Handler.unplaced).map fun h => (h.widgetId, h.event) := by
    intro l
    rw [List.map_map]
    rfl
  have hdistinct' : Unshadowed hs' := by
    unfold Unshadowed at hdistinct ⊢
    rw [hkeys] at hdistinct ⊢
    exact (hperm.map _).nodup_iff.2 hdistinct
  have hnode : ∀ {l : List Handler}, Unshadowed l → ∀ node, nodeOf? l widgetId event = some node ↔
      ∃ h ∈ l.map Handler.unplaced, h.widgetId = widgetId ∧ h.event = event ∧ h.node = node := by
    intro l hl node
    rw [nodeOf?, Option.map_eq_some_iff]
    simp only [hl.find?_eq_some_iff]
    constructor
    · rintro ⟨h, ⟨hmem, hwidget, hevent⟩, hn⟩
      exact ⟨h.unplaced, List.mem_map_of_mem hmem, hwidget, hevent, hn⟩
    · rintro ⟨_, hplaced, hwidget, hevent, hn⟩
      obtain ⟨h, hmem, rfl⟩ := List.mem_map.1 hplaced
      exact ⟨h, ⟨hmem, hwidget, hevent⟩, hn⟩
  apply Option.ext
  intro node
  rw [hnode hdistinct', hnode hdistinct]
  simp only [hperm.mem_iff]

theorem unplaced_perm {bindings' : List ActionBinding} (hperm : bindings'.Perm bindings)
    (index : WidgetIndex) (options : Options) :
    ((ofBindings bindings' index options).list.map Handler.unplaced).Perm
      ((ofBindings bindings index options).list.map Handler.unplaced) := by
  rw [unplaced_ofBindings, unplaced_ofBindings, List.reverse_perm']
  exact ((hperm.filterMap _).trans (List.reverse_perm _).symm)

theorem locks_perm {bindings' : List ActionBinding} (hperm : bindings'.Perm bindings)
    (index : WidgetIndex) (options : Options) :
    (ofBindings bindings' index options).locks.Perm (ofBindings bindings index options).locks := by
  have hlocks : ∀ hs : Handlers, hs.locks = (hs.list.map Handler.unplaced).filterMap (·.lock) := by
    intro hs
    rw [locks, List.filterMap_map]
    rfl
  rw [hlocks, hlocks]
  exact (unplaced_perm hperm index options).filterMap _

end Handlers

end TouchPanel
