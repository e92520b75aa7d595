import TouchPanel.Text.Search

/-!
# Identifiers

Which characters an identifier may have, how a name is made plain, the slug of an
entity reference, and the policy that keeps one reserved identifier out of the
document.
-/

namespace TouchPanel.Identifier

/-- The letters, digits and underscore of ASCII. -/
def isPlainChar (c : Char) : Bool := c.isAlphanum || c == '_'

/-- Every character that an identifier may not have becomes an underscore. -/
def plain (raw : String) : String :=
  String.ofList (raw.toList.map fun c => if isPlainChar c then c else '_')

/-! ## Slugs -/

/-- The characters of a slug. -/
def isSlugChar (c : Char) : Bool := c.isLower || c.isDigit || c == '_'

/-- Lower case as far as a slug can show it. Besides the ASCII letters only the
Kelvin sign and the dotted capital I have a lower case that begins with an ASCII
letter; the dot of the latter is a character of its own. -/
def lowerForSlug (c : Char) : Text :=
  if c = '\u212a' then ['k']
  else if c = '\u0130' then ['i', '\u0307']
  else [c.toLower]

/-- The lower-case words of an entity reference with one underscore between each
two, or `entity` if there is none. -/
def slug (reference : String) : String :=
  let lowered := (Text.trim reference.toList).flatMap lowerForSlug
  match Text.words (fun c => !isSlugChar c || c == '_') lowered with
  | [] => "entity"
  | w :: ws => String.ofList (w ++ ws.flatMap ('_' :: ·))

/-! ## Entity references -/

/-- A domain and an object name in lower case with one dot between them. -/
def isEntityReference (s : String) : Bool :=
  match Text.splitAt? '.' s.toList with
  | none => false
  | some (domain, object) =>
    !domain.isEmpty && domain.all isSlugChar && !object.isEmpty && object.all isSlugChar

/-! ## Reserved identifier -/

/-- One identifier collides with the entry point of the firmware; it is written as
another one. -/
structure Policy where
  reserved : String := "main"
  replacement : String := "main_page"

/-- The identifier written for an editor name. -/
def Policy.emitted (policy : Policy) (raw : String) : String :=
  let id := plain (trimmed raw)
  if id = policy.reserved then policy.replacement
  else if id = "" then "w"
  else id

end TouchPanel.Identifier
