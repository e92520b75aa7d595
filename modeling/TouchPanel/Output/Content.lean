import TouchPanel.Json.Term
import TouchPanel.Output.Node
import TouchPanel.Text.Search

/-!
# Nodes of editor values

A value of the editor becomes an output node. Null and the empty string become
nothing, so that their key is left out of the document.
-/

namespace TouchPanel.Node

/-- The tag that marks an expression. -/
def lambdaTag : Text := "!lambda".toList

/-- The text between two quotes `q`. -/
def between? (q : Char) : Text → Option Text
  | [] => none
  | c :: r => if c = q ∧ r.getLast? = some q then some r.dropLast else none

/-- Some editors keep the quotes that an expression had in a document. -/
def unquoteCode (code : Text) : Text :=
  match between? '\'' code with
  | some inner => Text.replace ['\'', '\''] ['\''] inner
  | none =>
    match between? '"' code with
    | some inner =>
      match Json.Token.ofText? code with
      | some [.string (some s)] => s.toList
      | _ => inner
    | none => code

/-- A string of the editor: an expression if it begins with the tag, a block if it
has several lines. -/
def ofText? (s : String) : Option Node :=
  if s = "" then none
  else match Text.after? lambdaTag (Text.trim s.toList) with
    | some code => some (.lambda (String.ofList (unquoteCode (Text.trim code))))
    | none => some (if s.toList.contains '\n' then .text s else .str s)

/-- The least and the greatest signed 64-bit integer. -/
def isWord (n : Int) : Bool := -(Nat.pow 2 63 : Nat) ≤ n && n < (Nat.pow 2 63 : Nat)

open Json in
mutual

def ofValue? (v : Value) : Option Node :=
  match v with
  | .null => none
  | .bool b => some (.bool b)
  | .number (.int n) => some (if isWord n then .int n else .float (Binary64.ofInt n))
  | .number (.float x) => some (.float x)
  | .string s => ofText? s
  | .array items => some (.list (ofValues items))
  | .object fields => some (.map (ofFields fields))

/-- The nodes of those values that have one. -/
def ofValues (items : List Value) : List Node :=
  match items with
  | [] => []
  | v :: r => (ofValue? v).toList ++ ofValues r

/-- The entries of those fields whose value has a node. -/
def ofFields (fields : List (String × Value)) : Mapping :=
  match fields with
  | [] => []
  | (k, v) :: r => ((ofValue? v).map fun n => (k, n)).toList ++ ofFields r

end

end TouchPanel.Node
