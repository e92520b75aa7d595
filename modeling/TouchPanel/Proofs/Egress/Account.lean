import TouchPanel.Proofs.Egress.Unordered
import TouchPanel.Proofs.Intake
import TouchPanel.Proofs.Lock.Use

/-!
# Accounting for action bindings

Every binding is compiled once or refused with one finding. An event of a widget has the
handler of the latest binding that is compiled for it, each binding reports the one that it
replaces there, and the locks taken are those of the calls about an entity.
-/

namespace TouchPanel

/-- Whether a finding says that the binding at index `i` has no handler. -/
def Diagnostic.dismisses (i : Nat) : Diagnostic → Bool
  | .danglingActionWidget j _ | .unknownEvent j _ _ _ | .incompleteCall j _ => j = i
  | _ => false

/-- The earlier and the later binding of which a finding says that one replaces the other. -/
def Diagnostic.replacement? : Diagnostic → Option (Nat × Nat)
  | .shadowedAction _ _ shadowed winner => some (shadowed, winner)
  | _ => none

/-- A finding that neither refuses a binding nor says that one replaces another. -/
structure Diagnostic.IsRemark (d : Diagnostic) : Prop where
  dismisses (i : Nat) : d.dismisses i = false
  replacement : d.replacement? = none

theorem ServiceCall.isRemark_findings {c : ServiceCall} {i : Nat} :
    ∀ d ∈ c.findings i, d.IsRemark := by
  intro d hd
  unfold findings at hd
  split at hd
  · split at hd
    · cases hd
    · obtain rfl := List.mem_singleton.1 hd
      exact ⟨fun _ => rfl, rfl⟩
  · cases hd

namespace ActionBinding

/-! ## One binding -/

/-- Why the binding at index `i` has no handler. -/
inductive Refused (b : ActionBinding) (i : Nat) (index : WidgetIndex) : Diagnostic → Prop
  | danglingWidget (missing : index.get? b.widgetId = none) :
      Refused b i index (.danglingActionWidget i b.widgetId)
  | unknownEvent {target : IndexedWidget} (found : index.get? b.widgetId = some target)
      (unsupported : ∀ schema, target.schema = some schema → trimmed b.event ∉ schema.events) :
      Refused b i index (.unknownEvent i b.widgetId target.kindTag (trimmed b.event))
  | incompleteCall {target : IndexedWidget} {schema : Schema}
      (found : index.get? b.widgetId = some target) (kind : target.schema = some schema)
      (supported : trimmed b.event ∈ schema.events) (hand : nonBlank? b.literal = none)
      (incomplete : ∀ call, b.call = some call → call.isComplete = false) :
      Refused b i index (.incompleteCall i b.widgetId)

/-- The handler of the binding at index `i`: for an event that its widget has, and written by
hand or made from a call that says what to do. -/
structure Compiles (b : ActionBinding) (i : Nat) (index : WidgetIndex) (options : Options)
    (h : Handler) : Prop where
  aimed : ∃ target schema, h.IsAimed index b target schema
  made : h.IsMade options b
  complete : nonBlank? b.literal = none → ∃ call, b.call = some call ∧ call.isComplete = true
  place : h.index = i

variable {b : ActionBinding} {i j : Nat} {index : WidgetIndex} {options : Options}
  {d : Diagnostic}

theorem Refused.dismisses_iff (h : b.Refused i index d) : d.dismisses j = true ↔ i = j := by
  cases h <;> simp [Diagnostic.dismisses]

theorem Refused.replacement?_eq_none (h : b.Refused i index d) : d.replacement? = none := by
  cases h <;> rfl

/-- What is known of a handler is read off the result once it is there. -/
theorem compiles_of_resolve {notes : List Diagnostic} {h : Handler}
    (hresolve : b.resolve i index options = (notes, some h))
    (hcomplete : nonBlank? b.literal = none → ∃ call, b.call = some call ∧ call.isComplete = true) :
    b.Compiles i index options h := by
  have hhandler : (b.resolve i index options).2 = some h := congrArg Prod.snd hresolve
  obtain ⟨hmade, hplace⟩ := Handler.isMade_of_resolve hhandler
  exact ⟨Handler.exists_isAimed_of_resolve hhandler, hmade, hcomplete, hplace⟩

theorem isRemark_substituted (schema : Schema) (widget event : String) :
    ∀ d ∈ ((schema.commitEvent? event).map
      (Diagnostic.commitEventSubstituted widget event)).toList, d.IsRemark := by
  intro d hd
  obtain ⟨commit, -, rfl⟩ := Option.map_eq_some_iff.1 (Option.mem_toList.1 hd)
  exact ⟨fun _ => rfl, rfl⟩

/-- A binding is refused or compiled, with remarks in both cases. -/
theorem resolve_cases (b : ActionBinding) (i : Nat) (index : WidgetIndex) (options : Options) :
    (∃ notes d, (∀ note ∈ notes, Diagnostic.IsRemark note) ∧ b.Refused i index d ∧
      b.resolve i index options = (notes ++ [d], none)) ∨
    (∃ notes h, (∀ note ∈ notes, Diagnostic.IsRemark note) ∧ b.Compiles i index options h ∧
      b.resolve i index options = (notes, some h)) := by
  cases htarget : index.get? b.widgetId with
  | none =>
    refine Or.inl ⟨[], _, by simp, .danglingWidget htarget, ?_⟩
    rw [resolve, htarget]
    rfl
  | some target =>
    cases hschema : target.schema.filter (·.supportsEvent (trimmed b.event)) with
    | none =>
      refine Or.inl ⟨[], _, by simp, .unknownEvent htarget fun schema hkind hevent => ?_, ?_⟩
      · rw [hkind] at hschema
        simp [Option.filter, Schema.supportsEvent, hevent] at hschema
      · rw [resolve, htarget]
        dsimp only
        rw [hschema]
        rfl
    | some schema =>
      obtain ⟨hkind, hsupports⟩ := Option.filter_eq_some_iff.1 hschema
      have hevent : trimmed b.event ∈ schema.events := by
        simpa [Schema.supportsEvent] using hsupports
      have hremark := isRemark_substituted schema b.widgetId (trimmed b.event)
      have hresolve := resolve.eq_def b i index options
      rw [htarget] at hresolve
      dsimp only at hresolve
      rw [hschema] at hresolve
      dsimp only at hresolve
      cases hhand : nonBlank? b.literal with
      | some text =>
        rw [hhand] at hresolve
        refine Or.inr ⟨_, _, hremark, compiles_of_resolve hresolve fun h => ?_, hresolve⟩
        rw [hhand] at h
        cases h
      | none =>
        rw [hhand] at hresolve
        cases hcall : b.call.filter (·.isComplete) with
        | some call =>
          rw [hcall] at hresolve
          refine Or.inr ⟨_, _, List.forall_mem_append.2 ⟨hremark, call.isRemark_findings⟩,
            compiles_of_resolve hresolve fun _ => ⟨call, Option.filter_eq_some_iff.1 hcall⟩,
            hresolve⟩
        | none =>
          rw [hcall] at hresolve
          refine Or.inl ⟨_, _, hremark, .incompleteCall htarget hkind hevent hhand ?_, hresolve⟩
          intro call hmade
          rw [hmade] at hcall
          simpa [Option.filter] using hcall

end ActionBinding

open ActionBinding

namespace Handlers

variable {index : WidgetIndex} {options : Options}

/-! ## All bindings -/

/-- What one more binding adds: a finding that refuses it, or its handler and a finding about
the one that it replaces. -/
theorem ofBindings_concat_cases (bindings : List ActionBinding) (b : ActionBinding)
    (index : WidgetIndex) (options : Options) :
    let run := ofBindings bindings index options
    (∃ notes d, (∀ note ∈ notes, Diagnostic.IsRemark note) ∧
      b.Refused bindings.length index d ∧
      ofBindings (bindings ++ [b]) index options =
        ⟨run.list, run.diagnostics ++ (notes ++ [d])⟩) ∨
    (∃ notes h, (∀ note ∈ notes, Diagnostic.IsRemark note) ∧
      b.Compiles bindings.length index options h ∧
      ofBindings (bindings ++ [b]) index options =
        ⟨h :: run.list, run.diagnostics ++ notes ++
          ((find? run.list h.widgetId h.event).map fun earlier =>
            Diagnostic.shadowedAction b.widgetId h.event earlier.index bindings.length).toList⟩) := by
  intro run
  rw [ofBindings_concat]
  unfold add
  dsimp only
  rcases b.resolve_cases bindings.length index options with
    ⟨notes, d, hnotes, hd, hresolve⟩ | ⟨notes, h, hnotes, hh, hresolve⟩
  · rw [hresolve]
    exact Or.inl ⟨notes, d, hnotes, hd, rfl⟩
  · rw [hresolve]
    exact Or.inr ⟨notes, h, hnotes, hh, rfl⟩

/-- Bindings are entered as their handlers, and one that is compiled for the same event as an
earlier one replaces it. -/
def intake (index : WidgetIndex) (options : Options) : Intake ActionBinding Handler where
  Enters b i h := b.Compiles i index options h
  Refuses b i d := b.Refused i index d
  index h := h.index
  alike h g := g.widgetId = h.widgetId && g.event = h.event
  report b h first := .shadowedAction b.widgetId h.event first h.index
  refuses := Diagnostic.dismisses
  reported? := Diagnostic.replacement?
  index_eq h := h.place
  refuses_iff h := h.dismisses_iff
  reported?_eq_none h := h.replacement?_eq_none
  refuses_report _ _ _ _ := rfl
  reported?_report _ _ _ := rfl

theorem leaves_ofBindings (bindings : List ActionBinding) :
    (intake index options).Leaves bindings (ofBindings bindings index options).list
      (ofBindings bindings index options).diagnostics := by
  have hremarks : ∀ {notes : List Diagnostic}, (∀ note ∈ notes, Diagnostic.IsRemark note) →
      ∀ note ∈ notes, (intake index options).IsRemark note :=
    fun hnotes note hnote => ⟨(hnotes note hnote).dismisses, (hnotes note hnote).replacement⟩
  induction bindings using List.reverseRecOn with
  | nil => exact .nothing
  | append_singleton bindings b ih =>
    rcases ofBindings_concat_cases bindings b index options with
      ⟨notes, d, hnotes, hd, hrun⟩ | ⟨notes, h, hnotes, hh, hrun⟩
    · rw [hrun]
      exact ih.refused (hremarks hnotes) hd
    · rw [hrun, ← hh.place]
      exact ih.entered (hremarks hnotes) hh

/-- Later bindings come first. -/
theorem list_descending (bindings : List ActionBinding) :
    (ofBindings bindings index options).list.Pairwise fun g h => h.index < g.index :=
  (leaves_ofBindings bindings).descending

/-- What became of the binding at index `i`: it is compiled once and not refused, or it is
refused once and not compiled. -/
def Accounts (run : Handlers) (index : WidgetIndex) (options : Options) (b : ActionBinding)
    (i : Nat) : Prop :=
  (∃ h, b.Compiles i index options h ∧ run.list.filter (fun h => h.index = i) = [h] ∧
    run.diagnostics.filter (·.dismisses i) = []) ∨
  (∃ d, b.Refused i index d ∧ run.list.filter (fun h => h.index = i) = [] ∧
    run.diagnostics.filter (·.dismisses i) = [d])

theorem accounts_ofBindings (bindings : List ActionBinding) {b : ActionBinding} {i : Nat}
    (hb : bindings[i]? = some b) : Accounts (ofBindings bindings index options) index options b i :=
  (leaves_ofBindings bindings).accounts hb

theorem exists_compiles (bindings : List ActionBinding) :
    ∀ h ∈ (ofBindings bindings index options).list,
      ∃ b, bindings[h.index]? = some b ∧ b.Compiles h.index index options h :=
  (leaves_ofBindings bindings).exists_enters

/-! ## The latest binding for an event -/

/-- The indices of the bindings that are compiled for an event of a widget. -/
def compiledFor (hs : List Handler) (widgetId event : String) : Set Nat :=
  {i | ∃ h ∈ hs, h.widgetId = widgetId ∧ h.event = event ∧ h.index = i}

theorem find?_eq_some_iff_isGreatest {hs : List Handler} {widgetId event : String} {h : Handler}
    (hdescending : hs.Pairwise fun g h => h.index < g.index) :
    find? hs widgetId event = some h ↔ h ∈ hs ∧ h.widgetId = widgetId ∧ h.event = event ∧
      IsGreatest (compiledFor hs widgetId event) h.index := by
  rw [find?, find?_eq_some_iff_of_descending hdescending]
  simp only [compiledFor, Bool.and_eq_true, decide_eq_true_eq, and_assoc]

theorem find?_eq_none_iff_eq_empty {hs : List Handler} {widgetId event : String} :
    find? hs widgetId event = none ↔ compiledFor hs widgetId event = ∅ := by
  rw [find?_eq_none_iff, Set.eq_empty_iff_forall_notMem]
  constructor
  · rintro hfree i ⟨h, hh, rfl, rfl, -⟩
    exact hfree (List.mem_map_of_mem hh)
  · intro hempty hmem
    obtain ⟨h, hh, heq⟩ := List.mem_map.1 hmem
    exact hempty h.index ⟨h, hh, congrArg Prod.fst heq, congrArg Prod.snd heq, rfl⟩

theorem map_index_find?_eq_some_iff {hs : List Handler} {widgetId event : String} {i : Nat}
    (hdescending : hs.Pairwise fun g h => h.index < g.index) :
    (find? hs widgetId event).map (·.index) = some i ↔
      IsGreatest (compiledFor hs widgetId event) i := by
  rw [Option.map_eq_some_iff]
  constructor
  · rintro ⟨h, hh, rfl⟩
    exact ((find?_eq_some_iff_isGreatest hdescending).1 hh).2.2.2
  · intro hi
    obtain ⟨h, hmem, hwidget, hevent, rfl⟩ := hi.1
    exact ⟨h, (find?_eq_some_iff_isGreatest hdescending).2 ⟨hmem, hwidget, hevent, hi⟩, rfl⟩

/-! ## Replaced bindings -/

/-- The indices of the bindings before that of a handler that are compiled for its event. -/
def earlierFor (hs : List Handler) (h : Handler) : Set Nat :=
  {i | i < h.index ∧ i ∈ compiledFor hs h.widgetId h.event}

theorem earlier_eq_earlierFor (hs : List Handler) (h : Handler) :
    (intake index options).earlier hs h = earlierFor hs h := by
  simp only [Intake.earlier, intake, earlierFor, compiledFor, Bool.and_eq_true,
    decide_eq_true_eq, and_assoc, Set.mem_ofPred_eq]

theorem shadowed_mem_iff (bindings : List ActionBinding) {widget event : String}
    {shadowed winner : Nat} :
    Diagnostic.shadowedAction widget event shadowed winner ∈
        (ofBindings bindings index options).diagnostics ↔
      ∃ b, ∃ h ∈ (ofBindings bindings index options).list, bindings[winner]? = some b ∧
        h.index = winner ∧ b.widgetId = widget ∧ h.event = event ∧
        IsGreatest (earlierFor (ofBindings bindings index options).list h) shadowed := by
  rw [(leaves_ofBindings bindings).report_mem_iff rfl]
  simp only [earlier_eq_earlierFor]
  constructor
  · rintro ⟨b, h, hh, hb, first, hfirst, heq⟩
    cases heq
    exact ⟨b, h, hh, hb, rfl, rfl, rfl, hfirst⟩
  · rintro ⟨b, h, hh, hb, rfl, rfl, rfl, hfirst⟩
    exact ⟨b, h, hh, hb, shadowed, hfirst, rfl⟩

/-! ## Locks -/

theorem mem_locks_iff (bindings : List ActionBinding) {lock : String} :
    lock ∈ (ofBindings bindings index options).locks ↔
      ∃ b, ∃ h ∈ (ofBindings bindings index options).list, bindings[h.index]? = some b ∧
        nonBlank? b.literal = none ∧ ∃ call entity, b.call = some call ∧
          call.entity? = some entity ∧ lock = Lock.name entity h.widgetId := by
  rw [locks, List.mem_filterMap]
  constructor
  · rintro ⟨h, hh, hlock⟩
    obtain ⟨b, hb, hcompiles⟩ := exists_compiles bindings h hh
    cases hcompiles.made with
    | literal hand node free =>
      rw [free] at hlock
      cases hlock
    | unlocked hand made about node free =>
      rw [free] at hlock
      cases hlock
    | locked hand made about node taken =>
      rw [taken] at hlock
      exact ⟨b, h, hh, hb, hand, _, _, made, about, (Option.some.inj hlock).symm⟩
  · rintro ⟨b, h, hh, hb, hhand, call, entity, hmade, habout, rfl⟩
    refine ⟨h, hh, ?_⟩
    obtain ⟨b', hb', hcompiles⟩ := exists_compiles bindings h hh
    obtain rfl : b' = b := Option.some.inj (hb'.symm.trans hb)
    cases hcompiles.made with
    | literal hand node free =>
      rw [hhand] at hand
      cases hand
    | unlocked hand made about node free =>
      obtain rfl := Option.some.inj (made.symm.trans hmade)
      rw [habout] at about
      cases about
    | locked hand made about node taken =>
      obtain rfl := Option.some.inj (made.symm.trans hmade)
      obtain rfl := Option.some.inj (about.symm.trans habout)
      exact taken

/-- Every binding is compiled once or refused once, and there are no other handlers. An event
of a widget has the handler of the latest binding that is compiled for it, and a binding
reports the latest one before it that is compiled for the same event. To the locks that there
are come those of the compiled calls about an entity. -/
theorem bindings_accounted (bindings : List ActionBinding) (index : WidgetIndex)
    (options : Options) (previous : List String) :
    let run := ofBindings bindings index options
    (∀ i b, bindings[i]? = some b → Accounts run index options b i) ∧
    (∀ h ∈ run.list, ∃ b, bindings[h.index]? = some b ∧ b.Compiles h.index index options h) ∧
    (∀ widgetId event h, find? run.list widgetId event = some h ↔
      h ∈ run.list ∧ h.widgetId = widgetId ∧ h.event = event ∧
        IsGreatest (compiledFor run.list widgetId event) h.index) ∧
    (∀ widgetId event, find? run.list widgetId event = none ↔
      compiledFor run.list widgetId event = ∅) ∧
    (∀ widget event shadowed winner,
      Diagnostic.shadowedAction widget event shadowed winner ∈ run.diagnostics ↔
        ∃ b, ∃ h ∈ run.list, bindings[winner]? = some b ∧ h.index = winner ∧
          b.widgetId = widget ∧ h.event = event ∧ IsGreatest (earlierFor run.list h) shadowed) ∧
    ((run.diagnostics.filterMap (·.replacement?)).Pairwise fun c d => c.2 < d.2) ∧
    (∀ lock, lock ∈ Lock.names (previous ++ run.locks) ↔ lock ∈ Lock.names previous ∨
      ∃ b, ∃ h ∈ run.list, bindings[h.index]? = some b ∧ nonBlank? b.literal = none ∧
        ∃ call entity, b.call = some call ∧ call.entity? = some entity ∧
          lock = Lock.name entity h.widgetId) := by
  intro run
  refine ⟨fun _ _ => accounts_ofBindings bindings, exists_compiles bindings,
    fun _ _ _ => find?_eq_some_iff_isGreatest (list_descending bindings),
    fun _ _ => find?_eq_none_iff_eq_empty,
    fun _ _ _ _ => shadowed_mem_iff bindings, (leaves_ofBindings bindings).reported_ascending,
    fun lock => ?_⟩
  rw [Lock.mem_names, List.mem_append, Lock.mem_names, mem_locks_iff bindings]

end Handlers

end TouchPanel
