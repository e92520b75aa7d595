/-!
# Diagnostics

Findings of a compilation that do not stop it. The document is always produced; the
caller decides what to do about a warning.
-/

namespace TouchPanel

inductive Severity where
  | info
  | warning
  deriving DecidableEq

def Severity.name : Severity → String
  | .info => "info"
  | .warning => "warning"

inductive Diagnostic where
  | unknownWidgetKind (widget kind : String)
  | duplicateWidgetId (widget : String)
  | duplicatePageId (page : String)
  | widgetIdTakenByPage (widget id : String)
  | danglingParent (widget parent : String)
  | crossPageParent (widget parent : String)
  | parentCycle (widget : String)
  | invalidEntityReference (entity context : String)
  | derivedIdCollision (id first second : String)
  | danglingLinkTarget (index : Nat) (widget : String)
  | unbackedLink (index : Nat) (source : String)
  | unknownLinkAction (index : Nat) (action : String)
  | unsupportedLinkAction (index : Nat) (action kind widget : String)
  | emptyPredicate (index : Nat)
  | missingPredicate (index : Nat) (widget : String)
  | conflictingLinks (first second : Nat) (widget action : String)
  | danglingActionWidget (index : Nat) (widget : String)
  | unknownEvent (index : Nat) (widget kind event : String)
  | incompleteCall (index : Nat) (widget : String)
  | commitEventSubstituted (widget event commit : String)
  | shadowedAction (widget event : String) (shadowed winner : Nat)
  | unknownStyleDefinition (widget style : String)
  | missingPagesMarker
  | unmergeableSection (name : String)
  | invalidScript (script reason : String)
  deriving DecidableEq

namespace Diagnostic

def severity : Diagnostic → Severity
  | commitEventSubstituted .. => .info
  | _ => .warning

def isWarning (d : Diagnostic) : Bool := d.severity = .warning

def message : Diagnostic → String
  | unknownWidgetKind widget kind =>
    s!"Widget '{widget}' has unknown kind '{kind}'; emitted as a plain container"
  | duplicateWidgetId widget => s!"Widget id '{widget}' is declared more than once"
  | duplicatePageId page => s!"Page id '{page}' is declared more than once"
  | widgetIdTakenByPage widget id =>
    s!"Widget '{widget}' is emitted as '{id}', which a page already uses"
  | danglingParent widget parent => s!"Widget '{widget}' references missing parent '{parent}'"
  | crossPageParent widget parent =>
    s!"Widget '{widget}' references parent '{parent}' on another page"
  | parentCycle widget => s!"Widget '{widget}' is part of a parent cycle; placed at page root"
  | invalidEntityReference entity context => s!"Invalid entity reference '{entity}' in {context}"
  | derivedIdCollision id first second =>
    s!"Bindings {first} and {second} derive the same id '{id}'; the later one was dropped"
  | danglingLinkTarget index widget => s!"Link #{index} targets missing widget '{widget}'"
  | unbackedLink index source => s!"Link #{index} reads '{source}' but no binding declares it"
  | unknownLinkAction index action => s!"Link #{index} uses unknown action '{action}'"
  | unsupportedLinkAction index action kind widget =>
    s!"Link #{index}: action '{action}' is not supported by '{kind}' widget '{widget}'"
  | emptyPredicate index => s!"Link #{index} has an empty visibility predicate"
  | missingPredicate index widget => s!"Link #{index} hides '{widget}' but declares no predicate"
  | conflictingLinks first second widget action =>
    s!"Links #{first} and #{second} both drive '{action}' on '{widget}'; the later one wins"
  | danglingActionWidget index widget =>
    s!"Action binding #{index} targets missing widget '{widget}'"
  | unknownEvent index widget kind event =>
    s!"Action binding #{index}: '{kind}' widget '{widget}' does not emit '{event}'"
  | incompleteCall index widget =>
    s!"Action binding #{index} on '{widget}' has no override and an incomplete call"
  | commitEventSubstituted widget event commit =>
    s!"Action on '{widget}' moved from '{event}' to '{commit}' to limit outbound calls"
  | shadowedAction widget event shadowed winner =>
    s!"Action binding #{shadowed} on '{widget}.{event}' is replaced by #{winner}"
  | unknownStyleDefinition widget style =>
    s!"Widget '{widget}' references unknown style definition '{style}'"
  | missingPagesMarker => "Recipe has no pages insertion point; page content was not inserted"
  | unmergeableSection name =>
    s!"Recipe section '{name}' cannot absorb generated entries; they were dropped"
  | invalidScript script reason => s!"Script '{script}' is invalid: {reason}"

end Diagnostic

end TouchPanel
