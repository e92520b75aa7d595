import TouchPanel.Hash.Sha256
import TouchPanel.Region.Basic

/-!
# Merging a document into a target

The document replaces the body of the managed region, or a new region is made
below what the target holds.
-/

namespace TouchPanel.Region

inductive Mode where
  /-- A target without a region gets one. -/
  | createOrUpdate
  /-- A target without a region is refused. -/
  | updateOnly
  deriving DecidableEq

inductive Outcome where
  /-- The target was empty. -/
  | created
  /-- A region was made below the content of the target. -/
  | appended
  | replaced
  deriving DecidableEq

def Outcome.name : Outcome → String
  | created => "Created"
  | appended => "Appended"
  | replaced => "Replaced"

structure Merged where
  text : Text
  outcome : Outcome
  /-- Whether the text differs from the target. -/
  changed : Bool
  deriving DecidableEq

/-- The note under a region that was made in an empty target. -/
def userHint : Text :=
  ("# --- USER YAML BELOW (preserved on future exports if you keep the marker block above) ---\n" ++
    "# Add sensors, switches, substitutions, packages, etc.\n").toList

/-- A document without the newlines, carriage returns, spaces and tabs at its end. -/
def bodyOf (document : Text) : Text :=
  Text.dropEndWhile (fun c => c == '\n' || c == '\r' || c == ' ' || c == '\t') document

/-- The lines of a new region. -/
def fresh (body : Text) : Text :=
  beginMarker ++ '\n' :: body ++ '\n' :: endMarker ++ ['\n']

def merge (target document : Text) (mode : Mode) : Except Refusal Merged :=
  if Text.occurs beginMarker document || Text.occurs endMarker document then
    .error .documentHasMarker
  else
    let body := bodyOf document
    let done (text : Text) (outcome : Outcome) : Except Refusal Merged :=
      .ok ⟨text, outcome, text != target⟩
    match find target with
    | .error refusal => .error refusal
    | .ok (some region) => done (region.before ++ body ++ '\n' :: region.after) .replaced
    | .ok none =>
      match mode with
      | .updateOnly => .error .missing
      | .createOrUpdate =>
        if Text.allBlank target then done (fresh body ++ '\n' :: userHint) .created
        else done (Text.trimEnd target ++ '\n' :: '\n' :: fresh body) .appended

/-- What a merge would do, with hashes of the text before and after it. -/
structure Preview where
  merged : Merged
  expectedHash : String
  newHash : String

def hashOf (t : Text) : String := Sha256.hex (String.ofList t)

def preview (target document : Text) (mode : Mode) : Except Refusal Preview :=
  (merge target document mode).map fun merged => ⟨merged, hashOf target, hashOf merged.text⟩

end TouchPanel.Region
