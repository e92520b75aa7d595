import TouchPanel.Text.Search

/-!
# Paths

A path is kept as the text that it was given as, which messages repeat. Where it leads
depends on what is there: two dots go back from a directory that must exist.
-/

namespace TouchPanel

structure Path where
  text : String
  deriving DecidableEq

namespace Path

/-- What stands between the slashes. -/
def parts (p : Path) : List String :=
  (Text.fields (· == '/') p.text.toList).map String.ofList

/-- A path from the root. Any other begins in the working directory. -/
def isAbsolute (p : Path) : Bool := p.text.toList.head? == some '/'

/-- Whether a slash stands at the end, so that only a directory can be meant. -/
def hasFinalSlash (p : Path) : Bool := p.text.toList.getLast? == some '/'

/-- The steps from directory to directory. A dot stays, two dots go back. -/
def steps (p : Path) : List String := p.parts.filter (· ≠ "")

/-- A part that adds nothing to the parts before it. -/
def isIdle (part : String) : Bool := part == "" || part == "."

/-- A path and the directories above it, the nearest first, from its parts in reverse.
The first part tells where the path begins. -/
def enclosing : List String → List Path
  | [] => []
  | [first] => [⟨if first = "" then "/" else first⟩]
  | part :: front =>
    if isIdle part then enclosing front
    else ⟨"/".intercalate (part :: front).reverse⟩ :: enclosing front

/-- The directories above a path that it names, the nearest first. -/
def parents (p : Path) : List Path := (enclosing p.parts.reverse).tail

/-- The last name, unless the path ends by going back or has no name. -/
def name? (p : Path) : Option String :=
  (p.parts.reverse.find? (!isIdle ·)).filter (· ≠ "..")

/-- The last name, or a name for what has none. -/
def name (p : Path) : String := p.name?.getD "export"

/-- The path to another name in the same directory, or in the directory that a path
without a name leads to. -/
def sibling (p : Path) (name : String) : Path :=
  let front := if p.name?.isSome then p.parents.head?.elim "" (·.text) else p.text
  if front = "" || front.toList.getLast? == some '/' then ⟨front ++ name⟩
  else ⟨front ++ "/" ++ name⟩

end Path

end TouchPanel
