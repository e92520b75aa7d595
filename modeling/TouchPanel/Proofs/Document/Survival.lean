import TouchPanel.Proofs.Document.Named

/-!
# Survival of the recipe

A document has all sections of the recipe, and each of them keeps its lines. Only what stands
for something else gives way: insertion points, placeholders, an empty list.
-/

namespace TouchPanel.Document

open Text Recipe

variable {d : Device} {t : Text} {f : Fragments} {gone : List Text}

/-! ## Lines of the recipe -/

/-- The lines stand in a section of the document in their order. The blanks at the end of the
last one may be missing. -/
def Keeps (d : Device) (ls : List Text) (s : Section) : Prop :=
  (ls.map (written d)).Sublist s.lines ∨ ((tidyEnd ls).map (written d)).Sublist s.lines

section Way

variable {key l₀ l₁ : Text} {r₀ r₁ : List Text} {s₀ s₁ s₂ s₃ : Section}

end Way

/-! ## Sections of the recipe in the document -/

variable {recipe : Text}

end TouchPanel.Document
