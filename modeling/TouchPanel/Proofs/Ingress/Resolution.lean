import Mathlib.Tactic.SplitIfs
import TouchPanel.Ingress.Link
import TouchPanel.Proofs.Table

/-!
# What a link resolves to

A link is attached, or it is refused for the first of seven reasons. Each reason is a
condition on the link, the widgets and the declared values, and names the finding.
-/

namespace TouchPanel

namespace Link

/-- Whether the kind of a widget, known or not, admits an action. -/
def Supports (target : IndexedWidget) (action : LinkAction) : Prop :=
  match target.kind? with
  | some kind => action.appliesTo kind = true
  | none => action = .hidden

/-- The widget and the action that a link between known things names. -/
structure Aims (link : Link) (index : WidgetIndex) (target : IndexedWidget)
    (action : LinkAction) : Prop where
  entity_valid : Identifier.isEntityReference (trimmed link.source.entityId) = true
  target_found : index.get? link.target.widgetId = some target
  action_known : LinkAction.ofTag? (trimmed link.target.action) = some action

/-- A link that can be attached, up to the expression that hides its target. -/
structure Fits (link : Link) (index : WidgetIndex) (ds : Declarations) (target : IndexedWidget)
    (action : LinkAction) : Prop extends Aims link index target action where
  supported : Supports target action
  declared : link.source.key ∈ ds.keys

/-- Why the link at index `i` has no effect. -/
inductive Refused (link : Link) (i : Nat) (index : WidgetIndex) (ds : Declarations) :
    Diagnostic → Prop
  | invalidEntity (invalid : Identifier.isEntityReference (trimmed link.source.entityId) = false) :
      Refused link i index ds (.invalidEntityReference link.source.entityId s!"link #{i}")
  | danglingTarget (valid : Identifier.isEntityReference (trimmed link.source.entityId) = true)
      (missing : index.get? link.target.widgetId = none) :
      Refused link i index ds (.danglingLinkTarget i link.target.widgetId)
  | unknownAction {target : IndexedWidget}
      (valid : Identifier.isEntityReference (trimmed link.source.entityId) = true)
      (found : index.get? link.target.widgetId = some target)
      (unknown : LinkAction.ofTag? (trimmed link.target.action) = none) :
      Refused link i index ds (.unknownLinkAction i link.target.action)
  | unsupported {target : IndexedWidget} {action : LinkAction} (aims : Aims link index target action)
      (unsupported : ¬ Supports target action) :
      Refused link i index ds
        (.unsupportedLinkAction i action.tag target.kindTag link.target.widgetId)
  | unbacked {target : IndexedWidget} {action : LinkAction} (aims : Aims link index target action)
      (supported : Supports target action) (undeclared : link.source.key ∉ ds.keys) :
      Refused link i index ds (.unbackedLink i link.source.key.describe)
  | emptyPredicate {target : IndexedWidget} {expression : String}
      (fits : Fits link index ds target .hidden) (synthesized : nonBlank? link.target.literal = none)
      (condition : link.target.condition = some expression)
      (blank : Text.allBlank expression.toList = true) :
      Refused link i index ds (.emptyPredicate i)
  | missingPredicate {target : IndexedWidget} (fits : Fits link index ds target .hidden)
      (synthesized : nonBlank? link.target.literal = none)
      (condition : link.target.condition = none) (kind : link.source.kind ≠ .binary) :
      Refused link i index ds (.missingPredicate i link.target.widgetId)

/-- What a link attaches: an update of its target under the lock of entity and target, for
the value that it reads. A literal is the update as it stands. -/
structure Attaches (link : Link) (i : Nat) (index : WidgetIndex) (ds : Declarations)
    (target : IndexedWidget) (a : Attachment) : Prop where
  fits : Fits link index ds target a.action
  key : a.key = link.source.key
  widgetId : a.widgetId = target.outId
  lock : a.lock = Lock.name (trimmed link.source.entityId) target.outId
  update : LinkUpdate.node link a.action target i = .ok a.update

end Link

namespace LinkUpdate

variable {link : Link} {action : LinkAction} {target : IndexedWidget} {i : Nat} {d : Diagnostic}

/-- The entry that carries the new value. -/
inductive Carries (link : Link) (i : Nat) : LinkAction → String × Node → Prop
  | checked : Carries link i .checked
      ("state", .single "checked" (.lambda s!"return {truth link.source.kind};"))
  | value {action : LinkAction} (number : action ∈ [.sliderValue, .arcValue, .barValue]) :
      Carries link i action
        ("value", .lambda s!"return {scaled link.source.kind link.target.scale};")
  | labelText : Carries link i .labelText ("text", text link.source.kind link.target)
  | selectedIndex : Carries link i .selectedIndex
      ("selected_index", .lambda s!"return (int) {scaled link.source.kind link.target.scale};")
  | hidden {p : String} (condition : predicate link.source.kind link.target i = .ok p) :
      Carries link i .hidden ("hidden", .lambda s!"return ({p});")

/-- Only a link that hides its target can lack an update. -/
theorem change_cases (link : Link) (action : LinkAction) (i : Nat) :
    (∃ e, change link action i = .ok e ∧ Carries link i action e) ∨
    (∃ d, change link action i = .error d ∧ action = .hidden ∧
      predicate link.source.kind link.target i = .error d) := by
  cases action with
  | checked => exact Or.inl ⟨_, rfl, .checked⟩
  | sliderValue | arcValue | barValue => exact Or.inl ⟨_, rfl, .value (by decide)⟩
  | labelText => exact Or.inl ⟨_, rfl, .labelText⟩
  | selectedIndex => exact Or.inl ⟨_, rfl, .selectedIndex⟩
  | hidden =>
    unfold change
    dsimp only
    cases hp : predicate link.source.kind link.target i with
    | ok p => exact Or.inl ⟨_, rfl, .hidden hp⟩
    | error d => exact Or.inr ⟨d, rfl, rfl, rfl⟩

theorem carries_of_change {e : String × Node} (h : change link action i = .ok e) :
    Carries link i action e := by
  rcases change_cases link action i with ⟨e', heq, hcarries⟩ | ⟨d, heq, -⟩
  · rw [heq] at h
    cases h
    exact hcarries
  · rw [heq] at h
    cases h

/-- An update is written by hand, or it gives the target the new value. -/
theorem node_cases {update : Node} (h : node link action target i = .ok update) :
    (∃ text, nonBlank? link.target.literal = some text ∧ update = .fragment text) ∨
    (nonBlank? link.target.literal = none ∧ ∃ kind e, Carries link i action e ∧
      update = .single (action.update kind) (.map [("id", .ident target.outId), e])) := by
  unfold node at h
  split at h
  · next text hliteral =>
    cases h
    exact Or.inl ⟨text, hliteral, rfl⟩
  · next hliteral =>
    cases hchange : change link action i with
    | error d =>
      rw [hchange] at h
      cases h
    | ok e =>
      rw [hchange] at h
      cases h
      exact Or.inr ⟨hliteral, _, e, carries_of_change hchange, rfl⟩

theorem node_error (h : node link action target i = .error d) :
    nonBlank? link.target.literal = none ∧ action = .hidden ∧
      predicate link.source.kind link.target i = .error d := by
  unfold node at h
  split at h
  · cases h
  · next hliteral =>
    rcases change_cases link action i with ⟨e, heq, -⟩ | ⟨d', heq, hhidden, hp⟩
    · rw [heq] at h
      cases h
    · rw [heq] at h
      cases h
      exact ⟨hliteral, hhidden, hp⟩

theorem predicate_error {source : DataKind} {t : LinkTarget} (h : predicate source t i = .error d) :
    (∃ expression, t.condition = some expression ∧ Text.allBlank expression.toList = true ∧
      d = .emptyPredicate i) ∨
    (t.condition = none ∧ source ≠ .binary ∧ d = .missingPredicate i t.widgetId) := by
  unfold predicate at h
  split at h
  · next expression hcondition =>
    split at h
    · next hblank =>
      cases h
      exact Or.inl ⟨expression, hcondition, hblank, rfl⟩
    · cases h
  · next hcondition =>
    split at h
    · cases h
    · next hkind =>
      cases h
      exact Or.inr ⟨hcondition, hkind, rfl⟩

end LinkUpdate

namespace Link

variable {link : Link} {i : Nat} {index : WidgetIndex} {ds : Declarations}

/-- A link that fits is refused only for the expression that hides its target. -/
theorem Fits.refused {target : IndexedWidget} {action : LinkAction} {d : Diagnostic}
    (fits : Fits link index ds target action)
    (h : LinkUpdate.node link action target i = .error d) : link.Refused i index ds d := by
  obtain ⟨hliteral, rfl, hpredicate⟩ := LinkUpdate.node_error h
  rcases LinkUpdate.predicate_error hpredicate with
    ⟨expression, hcondition, hblank, rfl⟩ | ⟨hcondition, hkind, rfl⟩
  · exact .emptyPredicate fits hliteral hcondition hblank
  · exact .missingPredicate fits hliteral hcondition hkind

/-- Everything that the resolution of a link can give. -/
theorem resolve_cases (link : Link) (i : Nat) (index : WidgetIndex) (ds : Declarations) :
    (∃ d, link.resolve i index ds.contains = .error d ∧ link.Refused i index ds d) ∨
    (∃ a target, link.resolve i index ds.contains = .ok a ∧ link.Attaches i index ds target a) := by
  generalize hresult : link.resolve i index ds.contains = result
  unfold resolve at hresult
  dsimp only at hresult
  split at hresult
  · next hentity =>
    subst hresult
    exact Or.inl ⟨_, rfl, .invalidEntity (by simpa using hentity)⟩
  · next hentity =>
    have hvalid : Identifier.isEntityReference (trimmed link.source.entityId) = true := by
      simpa using hentity
    split at hresult
    · next target htarget =>
      split at hresult
      · next action haction =>
        have aims : Aims link index target action := ⟨hvalid, htarget, haction⟩
        have not_supports (h : (!match target.kind? with
            | some kind => action.appliesTo kind
            | none => action = .hidden) = true) : ¬ Supports target action := by
          unfold Supports
          cases hkind : target.kind? <;> simp_all
        have supports (h : ¬ (!match target.kind? with
            | some kind => action.appliesTo kind
            | none => action = .hidden) = true) : Supports target action := by
          unfold Supports
          cases hkind : target.kind? <;> simp_all
        split_ifs at hresult with hunsupported hundeclared hundeclared
        · subst hresult
          exact Or.inl ⟨_, rfl, .unsupported aims (not_supports hunsupported)⟩
        · subst hresult
          exact Or.inl ⟨_, rfl, .unsupported aims (not_supports hunsupported)⟩
        · subst hresult
          have hsupports := supports hunsupported
          refine Or.inl ⟨_, rfl, .unbacked aims hsupports ?_⟩
          simpa [← Table.contains_iff] using hundeclared
        · have fits : Fits link index ds target action :=
            ⟨aims, supports hunsupported,
              by simpa [← Table.contains_iff] using hundeclared⟩
          cases hnode : LinkUpdate.node link action target i with
          | ok update =>
            rw [hnode] at hresult
            subst hresult
            exact Or.inr ⟨_, target, rfl, ⟨fits, rfl, rfl, rfl, hnode⟩⟩
          | error d =>
            rw [hnode] at hresult
            subst hresult
            exact Or.inl ⟨d, rfl, fits.refused hnode⟩
      · next haction =>
        subst hresult
        refine Or.inl ⟨_, rfl, .unknownAction hvalid htarget ?_⟩
        exact Option.eq_none_iff_forall_ne_some.2 haction
    · next htarget =>
      subst hresult
      refine Or.inl ⟨_, rfl, .danglingTarget hvalid ?_⟩
      exact Option.eq_none_iff_forall_ne_some.2 htarget

end Link

end TouchPanel
