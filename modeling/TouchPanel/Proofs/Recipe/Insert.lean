import TouchPanel.Proofs.Recipe.Fill

/-!
# Sections at an insertion point

Sections that are put at the margin end the section in which the insertion point stands.
The lines behind it then belong to the last of the new sections.
-/

namespace TouchPanel.Recipe

open Text

variable {marker : Text} {a r payload : List Text} {m : Text}

variable (hmarker : ∀ l, isMarkerLine marker l = true → isInner l = true)

include hmarker

end TouchPanel.Recipe
