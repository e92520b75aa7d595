import TouchPanel.Proofs.Document.Entries
import TouchPanel.Proofs.Document.Survival
import TouchPanel.Proofs.Findings

/-!
# Placement of generated sections

Every generated section is in the document, unless the recipe has a section of its name that
cannot take entries. That section is in the document as it was then, and it is reported once.
-/

namespace TouchPanel.Document

open Text Recipe

variable {d : Device} {t recipe : Text} {f : Fragments} {gone : List Text}

/-! ## Entries in a section -/

section

variable {s₀ s₁ s₂ : Section}

end

/-! ## Generated sections -/

end TouchPanel.Document
