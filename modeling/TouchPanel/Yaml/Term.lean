import TouchPanel.Yaml.Tree

/-!
# YAML terms

A term is a document without anchors: each alias is replaced by what it stands for.
There are bounds on the nesting of collections and on the number of replacements, so
a term is finite even if an anchor contains an alias to itself.
-/

namespace TouchPanel.Yaml

inductive Term where
  | scalar (tag : Option Octets) (style : Style) (text : Text)
  | sequence (tag : Option Octets) (items : List Term)
  | mapping (tag : Option Octets) (pairs : List (Term × Term))
  deriving Inhabited

namespace Term

/-- How many collections may be nested. -/
def nestingLimit : Nat := 128

/-- What an alias stands for. It uses up one of the replacements that are left. -/
def resolve (anchored : List (Nat × Tree)) : Tree → StateT Nat Option Tree
  | .alias n => do
    match ← get, (anchored.filter (·.1 = n)).getLast? with
    | left + 1, some (_, t) => set left; return t
    | _, _ => failure
  | t => return t

/-- Replaces the aliases of a tree with at most `depth` nested collections. -/
def expand (anchored : List (Nat × Tree)) : (depth : Nat) → Tree → StateT Nat Option Term
  | depth, t => do
    match ← resolve anchored t with
    | .alias _ => failure
    | .scalar p style text => return .scalar p.tag style text
    | .sequence p items =>
      match depth with
      | 0 => failure
      | depth + 1 => return .sequence p.tag (← items.mapM (expand anchored depth))
    | .mapping p pairs =>
      match depth with
      | 0 => failure
      | depth + 1 =>
        return .mapping p.tag
          (← pairs.mapM fun (k, v) => do
            return (← expand anchored depth k, ← expand anchored depth v))

/-- A tree allows a hundred replacements for each of its nodes. -/
def ofTree? (t : Tree) : Option Term :=
  (expand t.anchored nestingLimit t).run' (100 * t.events)

/-- The term of the only document of a text. -/
def ofText? (t : Text) : Option Term := (Tree.ofText? t).bind ofTree?

end Term

end TouchPanel.Yaml
