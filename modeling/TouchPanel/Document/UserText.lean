import TouchPanel.Project.Basic
import TouchPanel.Recipe.Marker

/-!
# User text

A project may carry text of its own for the insertion points of a recipe. The texts
for the beginning and the end are placed there if the recipe has no insertion point.
-/

namespace TouchPanel.UserText

open Recipe

def putBefore (before t : Text) : Text :=
  if before.isEmpty then removeMarker userPreMarker t
  else (replaceMarker? userPreMarker before t).getD (before ++ '\n' :: '\n' :: t)

def putAfter (after t : Text) : Text :=
  if after.isEmpty then removeMarker userPostMarker t
  else (replaceMarker? userPostMarker after t).getD
    (Text.trimEnd t ++ '\n' :: '\n' :: after ++ ['\n'])

/-- Fills an insertion point of the project, which needs a name. -/
def putMarker (t : Text) (marker : String × String) : Text :=
  match nonBlank? (some marker.1) with
  | none => t
  | some name =>
    (replaceMarker? (customMarker (trimmed name).toList) (Text.trimEnd marker.2.toList) t).getD t

/-- Puts the text of a project into a recipe. -/
def inject (u : UserText) (t : Text) : Text :=
  u.markers.entries.foldl putMarker
    (putAfter (Text.trimEnd u.after.toList) (putBefore (Text.trimEnd u.before.toList) t))

end TouchPanel.UserText
