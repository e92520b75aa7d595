import TouchPanel.Recipe.Section
import TouchPanel.Yaml.Value

/-!
# Faults of a recipe

What a recipe should have before it is offered for compilation.
-/

namespace TouchPanel.Recipe

inductive Fault where
  | noLvgl
  | noPlaceForPages
  | notYaml
  | noDisplay
  | noTouchscreen
  deriving DecidableEq

def Fault.message : Fault → String
  | noLvgl => "recipe has no top-level 'lvgl:' section"
  | noPlaceForPages =>
    s!"recipe has neither a {String.ofList pagesMarker} insertion point nor its own 'pages:'"
  | notYaml => "recipe is not valid YAML: it is not one document with distinct keys"
  | noDisplay => "recipe has no 'display:' section"
  | noTouchscreen => "recipe has no 'touchscreen:' section"

/-- The fault that the absence of a section is. -/
def missing (t : Text) (name : String) (fault : Fault) : List Fault :=
  if hasSection t name.toList then [] else [fault]

/-- Whether the pages have a place: an insertion point, or a key of their own. -/
def hasPlaceForPages (t : Text) : Bool :=
  (findMarker? pagesMarker t).isSome ||
    (Text.lines t).any fun line => Text.startsWith "pages:".toList (Text.trimStart line)

/-- The faults of a recipe. It is read as YAML with some name for the device. -/
def lint (t : Text) : List Fault :=
  let t := normalize t
  missing t "lvgl" .noLvgl ++
    (if hasPlaceForPages t then [] else [.noPlaceForPages]) ++
    (if (Yaml.Value.ofText? (Text.replace deviceNamePlaceholder "device".toList t)).isSome then []
      else [.notYaml]) ++
    missing t "display" .noDisplay ++ missing t "touchscreen" .noTouchscreen

end TouchPanel.Recipe
