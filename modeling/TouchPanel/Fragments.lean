import TouchPanel.Ingress.Link
import TouchPanel.Ingress.Setpoint
import TouchPanel.Widget.Page

/-!
# Compiled fragments

What a project contributes to the document, divided by where it goes.
-/

namespace TouchPanel

structure Fragments where
  /-- The entries below `lvgl:`. -/
  lvgl : Mapping
  /-- The sections of inbound data. -/
  sensors : List (String × List Node)
  globals : List Node
  scripts : List Node
  fonts : List Node
  images : List Node

namespace Fragments

/-- The sections that follow the body of the recipe. -/
def trailing (f : Fragments) : List (String × List Node) :=
  [("globals", f.globals), ("script", f.scripts), ("font", f.fonts), ("image", f.images)].filter
    fun s => !s.2.isEmpty

/-- Compiles a project. Problems are reported and the rest is compiled. -/
def ofProject (p : Project) (registry : Registry) (options : Options) :
    Fragments × List Diagnostic :=
  let policy := options.idPolicy
  let index := WidgetIndex.ofProject p registry policy
  let assets := AssetTable.ofProject p
  let handlers := Handlers.ofBindings p.actionBindings index options
  let context : PageContext := ⟨registry, assets, handlers.list, policy, p.theme.styles.keys⟩
  let (declared, bindingFindings) := Declarations.ofBindings p.bindings
  let links := LinkRun.ofLinks p.links index declared
  let scripts := ScriptRun.ofScripts p.scripts links.declarations
  ({ lvgl := p.lvgl context
     sensors := scripts.declarations.sections
     globals := Lock.globals (handlers.locks ++ links.locks)
     scripts := scripts.nodes
     fonts := assets.fontNodes options
     images := assets.imageNodes options },
   index.findings p.pages policy ++ handlers.diagnostics ++ p.pageFindings index context ++
     bindingFindings ++ links.diagnostics ++ scripts.diagnostics)

end Fragments

end TouchPanel
