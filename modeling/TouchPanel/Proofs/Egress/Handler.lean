import TouchPanel.Egress.Handler
import TouchPanel.Proofs.Lock.Code

/-!
# What a handler does

A handler is written by hand or made from a call. One that is made from a call about an
entity takes the lock of entity and widget directly before the call, and it has no other code.
-/

namespace TouchPanel

open Node

variable {P : String → Prop}

namespace ServiceCall

theorem codeIn_payload {v : Json.Value} {node : Node} (h : payloadNode? v = some node) :
    node.CodeIn P := by
  unfold payloadNode? at h
  split at h
  · split at h
    · exact .of_isQuoted (isQuoted_ofText? h)
    · cases h
      exact .of_isQuoted rfl
  · exact codeIn_ofValue? h

theorem codeIn_callNode (c : ServiceCall) : c.callNode.CodeIn P := by
  have hfield : ∀ (keep : String → Bool), Mapping.CodeIn P (c.data.entries.filterMap fun e =>
      if keep e.1 then none else (payloadNode? e.2).map fun n => (e.1, n)) := by
    intro keep e he
    obtain ⟨⟨k, v⟩, -, hv⟩ := List.mem_filterMap.1 he
    dsimp only at hv
    split at hv
    · cases hv
    · obtain ⟨node, hnode, rfl⟩ := Option.map_eq_some_iff.1 hv
      exact codeIn_payload hnode
  have hdata : Mapping.CodeIn P c.dataNode := by
    unfold dataNode
    dsimp only
    have hfields := hfield fun k => c.entity?.isSome && k = "entity_id"
    split
    · exact Mapping.codeIn_cons (.of_isQuoted rfl) hfields
    · exact hfields
  apply CodeIn.single
  apply CodeIn.map
  refine Mapping.codeIn_cons (.of_isQuoted rfl) (Mapping.codeIn_cons ?_ Mapping.codeIn_nil)
  exact .map hdata

end ServiceCall

namespace Handler

/-- What runs before the lock is taken. -/
def delay (options : Options) : List Node :=
  if 0 < options.outboundDelay then [.single "delay" (.ident s!"{options.outboundDelay}ms")] else []

/-- How a handler comes from a binding: written by hand, or as a call that takes the lock of
its entity, if it has one, in the statement before. -/
inductive IsMade (options : Options) (b : ActionBinding) (h : Handler) : Prop
  | literal {text : String} (hand : nonBlank? b.literal = some text)
      (node : h.node = .fragment text) (lock : h.lock = none)
  | unlocked {call : ServiceCall} (hand : nonBlank? b.literal = none) (made : b.call = some call)
      (about : call.entity? = none) (node : h.node = .list (delay options ++ [call.callNode]))
      (lock : h.lock = none)
  | locked {call : ServiceCall} {entity : String} (hand : nonBlank? b.literal = none)
      (made : b.call = some call) (about : call.entity? = some entity)
      (node : h.node = .list (delay options ++
        [Lock.writer options.lockWindow (Lock.name entity h.widgetId), call.callNode]))
      (lock : h.lock = some (Lock.name entity h.widgetId))

variable {options : Options} {b : ActionBinding} {h : Handler}

theorem isMade_of_resolve {i : Nat} {index : WidgetIndex}
    (hresolve : (b.resolve i index options).2 = some h) : h.IsMade options b ∧ h.index = i := by
  unfold ActionBinding.resolve at hresolve
  split at hresolve
  · cases hresolve
  · dsimp only at hresolve
    split at hresolve
    · cases hresolve
    · split at hresolve
      · next text _ hand =>
        obtain rfl := Option.some.inj hresolve
        exact ⟨.literal hand rfl rfl, rfl⟩
      · next call hand hcall =>
        obtain rfl := Option.some.inj hresolve
        have hmade : b.call = some call := (Option.filter_eq_some_iff.1 hcall).1
        refine ⟨?_, rfl⟩
        cases hentity : call.entity? with
        | none =>
          refine .unlocked hand hmade hentity ?_ ?_
          · simp [ServiceCall.statements, ServiceCall.lock?, hentity, delay]
          · simp [ServiceCall.lock?, hentity]
        | some entity =>
          refine .locked hand hmade hentity ?_ ?_
          · simp [ServiceCall.statements, ServiceCall.lock?, hentity, delay]
          · simp [ServiceCall.lock?, hentity]
      · cases hresolve

theorem codeIn_delay_append {statements : List Node} (h : ∀ node ∈ statements, node.CodeIn P) :
    CodeIn P (.list (delay options ++ statements)) := by
  apply CodeIn.list
  intro node hnode
  rcases List.mem_append.1 hnode with hdelay | hnode
  · unfold delay at hdelay
    split at hdelay
    · obtain rfl := List.mem_singleton.1 hdelay
      exact .single (.of_isQuoted rfl)
    · cases hdelay
  · exact h node hnode

/-- A handler has the code that takes its lock and no other. -/
theorem IsMade.codeIn (made : h.IsMade options b) : h.node.CodeIn fun code =>
    ∃ lock ∈ h.lock, code = Lock.writerCode options.lockWindow lock := by
  cases made with
  | literal hand node free =>
    rw [node]
    exact .of_isQuoted rfl
  | @unlocked call hand made about node free =>
    rw [node]
    apply codeIn_delay_append
    intro statement hstatement
    obtain rfl := List.mem_singleton.1 hstatement
    exact call.codeIn_callNode
  | @locked call entity hand made about node taken =>
    rw [node]
    apply codeIn_delay_append
    intro statement hstatement
    simp only [List.mem_cons, List.not_mem_nil, or_false] at hstatement
    rcases hstatement with rfl | rfl
    · exact Lock.codeIn_writer ⟨_, taken, rfl⟩
    · exact call.codeIn_callNode

/-- A handler takes the lock that it names. -/
theorem IsMade.writes_iff (made : h.IsMade options b) {lock : String} :
    Lock.Writes h.node lock ↔ h.lock = some lock := by
  constructor
  · rintro ⟨window, hheld⟩
    obtain ⟨lock', hlock, heq⟩ := made.codeIn _ hheld
    rw [Lock.writerCode_inj heq]
    exact hlock
  · intro hlock
    cases made with
    | literal hand node free =>
      rw [free] at hlock
      cases hlock
    | unlocked hand made about node free =>
      rw [free] at hlock
      cases hlock
    | locked hand made about node taken =>
      rw [taken] at hlock
      cases hlock
      obtain ⟨window, hheld⟩ := Lock.writes_writer options.lockWindow (Lock.name _ h.widgetId)
      rw [node]
      exact ⟨window, .list (List.mem_append_right _ List.mem_cons_self) hheld⟩

end Handler

/-- The widget of a handler has the event, or the event that ends the one that was asked for. -/
structure Handler.IsAimed (index : WidgetIndex) (b : ActionBinding) (h : Handler)
    (target : IndexedWidget) (schema : Schema) : Prop where
  found : index.get? b.widgetId = some target
  kind : target.schema = some schema
  supported : trimmed b.event ∈ schema.events
  widgetId : h.widgetId = target.outId
  event : h.event = (schema.commitEvent? (trimmed b.event)).getD (trimmed b.event)

theorem Handler.exists_isAimed_of_resolve {b : ActionBinding} {i : Nat} {index : WidgetIndex}
    {options : Options} {h : Handler} (hresolve : (b.resolve i index options).2 = some h) :
    ∃ target schema, h.IsAimed index b target schema := by
  unfold ActionBinding.resolve at hresolve
  split at hresolve
  · cases hresolve
  · next target htarget =>
    dsimp only at hresolve
    split at hresolve
    · cases hresolve
    · next schema hschema =>
      obtain ⟨hkind, hsupports⟩ := Option.filter_eq_some_iff.1 hschema
      have hevent : trimmed b.event ∈ schema.events := by
        simpa [Schema.supportsEvent] using hsupports
      refine ⟨target, schema, ?_⟩
      split at hresolve
      · obtain rfl := Option.some.inj hresolve
        exact ⟨htarget, hkind, hevent, rfl, rfl⟩
      · obtain rfl := Option.some.inj hresolve
        exact ⟨htarget, hkind, hevent, rfl, rfl⟩
      · cases hresolve

/-- Every handler is the one of some binding. -/
theorem Handlers.exists_resolve {bindings : List ActionBinding} {index : WidgetIndex}
    {options : Options} : ∀ h ∈ (ofBindings bindings index options).list,
      ∃ (b : ActionBinding) (i : Nat), bindings[i]? = some b ∧
        (b.resolve i index options).2 = some h := by
  refine List.foldlRecOn
    (motive := fun hs : Handlers => ∀ h ∈ hs.list,
      ∃ (b : ActionBinding) (i : Nat), bindings[i]? = some b ∧
        (b.resolve i index options).2 = some h)
    bindings.zipIdx (add index options) (by simp) ?_
  rintro hs hlist ⟨b, i⟩ hb
  unfold add
  dsimp only
  cases hresolve : b.resolve i index options with
  | mk notes handler =>
    cases handler with
    | none => exact hlist
    | some h =>
      have hget : bindings[i]? = some b := List.mk_mem_zipIdx_iff_getElem?.1 hb
      exact List.forall_mem_cons.2 ⟨⟨b, i, hget, congrArg Prod.snd hresolve⟩, hlist⟩

theorem Handlers.isMade_ofBindings (bindings : List ActionBinding) (index : WidgetIndex)
    (options : Options) : ∀ h ∈ (ofBindings bindings index options).list,
      ∃ b, bindings[h.index]? = some b ∧ h.IsMade options b := by
  intro h hh
  obtain ⟨b, i, hget, hresolve⟩ := exists_resolve h hh
  obtain ⟨hmade, rfl⟩ := Handler.isMade_of_resolve hresolve
  exact ⟨b, hget, hmade⟩

end TouchPanel
