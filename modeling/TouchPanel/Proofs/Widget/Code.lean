import TouchPanel.Proofs.Output.Code
import TouchPanel.Proofs.Widget.Built

/-!
# Unquoted code on pages

Pages, styles and gradients have no code but that of the event handlers: every other value
of a widget comes from the editor.
-/

namespace TouchPanel

open Node

variable {P : String → Prop}

theorem codeIn_colorNode (s : String) : (colorNode s).CodeIn P := by
  unfold colorNode
  split <;> exact .of_isQuoted rfl

theorem PageContext.builds_codeIn {c : PageContext}
    (hhandlers : ∀ h ∈ c.handlers, h.node.CodeIn P) :
    c.Builds (fun _ => True) (fun _ => True) (·.CodeIn P) where
  toBuilds := Node.builds_codeIn
  name _ := .of_isQuoted rfl
  id _ := .of_isQuoted rfl
  direction _ := .of_isQuoted rfl
  color _ := codeIn_colorNode _
  asset _ := .of_isQuoted rfl
  fragment _ := .of_isQuoted rfl
  handlers := hhandlers
  keys _ _ := trivial
  registry _ _ := trivial

/-- The pages of a project have no code but that of its handlers. -/
theorem Project.codeIn_lvgl {c : PageContext} (hhandlers : ∀ h ∈ c.handlers, h.node.CodeIn P)
    (p : Project) : (p.lvgl c).CodeIn P := fun e he =>
  ((PageContext.builds_codeIn hhandlers).lvgl (fun _ _ => trivial) e he).2

end TouchPanel
