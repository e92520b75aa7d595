import TouchPanel.Decimal.Layout
import TouchPanel.Output.Node
import TouchPanel.Text.Lines
import TouchPanel.Text.Quoted
import TouchPanel.Text.Search

/-!
# Rows of the document

A node is laid out as rows: an indentation relative to the node and the text that
follows it. The absolute indentation is added once, when rows become text, so that
a node has the same shape at every depth.
-/

namespace TouchPanel

/-- A line of output. An empty body is an empty line whatever the indentation. -/
structure Row where
  indent : Nat
  body : Text
  deriving DecidableEq

namespace Row

def shift (n : Nat) (r : Row) : Row := { r with indent := n + r.indent }

def text (n : Nat) (r : Row) : Text :=
  if r.body = [] then ['\n'] else Text.spaces (n + r.indent) ++ r.body ++ ['\n']

/-- The rows as text, each indented by `n` more columns. -/
def render (n : Nat) (rows : List Row) : Text := rows.flatMap (text n)

/-- Makes the rows one item of a block list. -/
def asItem : List Row → List Row
  | [] => []
  | r :: rs => ⟨0, '-' :: ' ' :: r.body⟩ :: rs.map (shift 2)

end Row

/-! ## Hand-written fragments -/

/-- The non-blank lines with the common indentation removed. Each blank in front
of a line counts as one column. -/
def fragmentRows (t : Text) : List Row :=
  let kept := (Text.lines t).filter (!Text.allBlank ·)
  let width (l : Text) := (Text.leadingBlanks l).length
  let common := ((kept.map width).min?).getD 0
  kept.map fun l => ⟨width l - common, Text.trim l⟩

/-- The fragment re-indented to `n` columns. -/
def reindent (t : Text) (n : Nat) : Text := Row.render n (fragmentRows t)

/-! ## Block scalars -/

/-- A block scalar takes its indentation from its first non-blank line, so the
header has to give it when that line begins with a blank. -/
def blockHeader (t : Text) : Text :=
  match (Text.lines t).find? (!Text.allBlank ·) with
  | some (c :: _) => if Text.isBlank c then "|2-".toList else "|-".toList
  | _ => "|-".toList

def blockRows (t : Text) : List Row :=
  (Text.lines t).map fun l => if Text.allBlank l then ⟨0, []⟩ else ⟨0, Text.trimEnd l⟩

/-! ## Scalars on one line -/

/-- Documents write a number positionally from 0.0001 up to below 10^16. -/
def documentNumber : Decimal.Layout :=
  { leastPlaces := -3, mostPlaces := 16, plusSign := false, tie := .up }

/-- A number for the document; one that is not finite becomes zero. -/
def documentFloat (x : Float) : Text :=
  match Binary64.parts x with
  | .finite .. => documentNumber.text x
  | _ => "0.0".toList

/-- The characters that would give a plain scalar another meaning at its start. -/
def scalarIndicators : List Char :=
  ['\'', '"', '|', '>', '[', '{', '&', '*', '!', '%', '@', '`', '-', '?', '#']

/-- Whether an expression may stand as a plain scalar. -/
def isInlineCode (t : Text) : Bool :=
  !t.contains '\n' && !Text.occurs [':', ' '] t && !Text.occurs [' ', '#'] t &&
    t.getLast? != some ':' && !(t.head?.any scalarIndicators.contains)

namespace Node

/-- The text of a node that fits on the line of its key or dash. -/
def inline? : Node → Option Text
  | .str s => if s.toList.contains '\n' then none else some (Text.quote s.toList)
  | .ident s | .raw s => some s.toList
  | .int n => some (Decimal.ofInt n)
  | .float x => some (documentFloat x)
  | .bool b => some (if b then "true".toList else "false".toList)
  | .lambda code =>
    if isInlineCode code.toList then some ("!lambda ".toList ++ code.toList) else none
  | .map [] => some ['{', '}']
  | .list [] => some ['[', ']']
  | .text _ | .fragment _ | .map (_ :: _) | .list (_ :: _) => none

mutual

/-- The rows of `key: node`. -/
def entryRows (key : Text) (node : Node) : List Row :=
  match node.inline? with
  | some scalar => [⟨0, key ++ ':' :: ' ' :: scalar⟩]
  | none =>
    match node with
    | .map entries => ⟨0, key ++ [':']⟩ :: (mapRows entries).map (Row.shift 2)
    | .list items => ⟨0, key ++ [':']⟩ :: (listRows items).map (Row.shift 2)
    | .fragment s => ⟨0, key ++ [':']⟩ :: (fragmentRows s.toList).map (Row.shift 2)
    | .lambda s =>
      ⟨0, key ++ ": !lambda ".toList ++ blockHeader s.toList⟩ ::
        (blockRows s.toList).map (Row.shift 2)
    | .str s | .text s =>
      ⟨0, key ++ ':' :: ' ' :: blockHeader s.toList⟩ :: (blockRows s.toList).map (Row.shift 2)
    | _ => []

/-- The rows of a mapping. -/
def mapRows (m : List (String × Node)) : List Row :=
  match m with
  | [] => []
  | (key, node) :: r => entryRows key.toList node ++ mapRows r

/-- The rows of one item of a block list. -/
def itemRows (node : Node) : List Row :=
  match node.inline? with
  | some scalar => [⟨0, '-' :: ' ' :: scalar⟩]
  | none =>
    match node with
    | .map entries => Row.asItem (mapRows entries)
    | .list items => ⟨0, ['-']⟩ :: (listRows items).map (Row.shift 2)
    | .fragment s => fragmentRows s.toList
    | .lambda s =>
      ⟨0, "- !lambda ".toList ++ blockHeader s.toList⟩ :: (blockRows s.toList).map (Row.shift 2)
    | .str s | .text s =>
      ⟨0, '-' :: ' ' :: blockHeader s.toList⟩ :: (blockRows s.toList).map (Row.shift 2)
    | _ => []

/-- The rows of a block list. -/
def listRows (items : List Node) : List Row :=
  match items with
  | [] => []
  | node :: r => itemRows node ++ listRows r

end

/-- The items as a block list indented by `n` columns. -/
def renderList (items : List Node) (n : Nat) : Text := Row.render n (listRows items)

end Node

/-- The mapping as block text indented by `n` columns. -/
def Mapping.render (m : Mapping) (n : Nat) : Text := Row.render n (Node.mapRows m)

end TouchPanel
