import TouchPanel.Text.Lines
import TouchPanel.Text.Search

/-!
# Managed region

A target file may hold one region between a line with the begin marker and a line
with the end marker. Everything outside the region belongs to the user. A target
whose markers do not form exactly one region is refused.
-/

namespace TouchPanel

/-- A text cut at its managed region. The first part ends with the line of the begin
marker, the last one starts with the line of the end marker. -/
structure Region where
  before : Text
  body : Text
  after : Text
  deriving DecidableEq

/-- Why a target is left as it is. -/
inductive Refusal where
  | duplicated (begins ends : Nat)
  | notWholeLine
  | unclosed
  | unopened
  | inverted
  | missing
  | documentHasMarker
  | modified (expected actual : String)
  deriving DecidableEq

namespace Refusal

/-- The stable name of the reason. -/
def code : Refusal → String
  | duplicated .. => "marker_duplicated"
  | notWholeLine | unclosed | unopened => "marker_malformed"
  | inverted => "marker_order_invalid"
  | missing => "marker_missing"
  | documentHasMarker => "generated_block_has_markers"
  | modified .. => "externally_modified"

def message : Refusal → String
  | duplicated begins ends =>
    s!"Target contains duplicated markers (begin={begins}, end={ends})"
  | notWholeLine => "Target contains malformed markers: marker must occupy a whole line"
  | unclosed => "Target contains malformed markers: BEGIN marker without END marker"
  | unopened => "Target contains malformed markers: END marker without BEGIN marker"
  | inverted => "END marker appears before BEGIN marker"
  | missing => "Target has no managed region to update"
  | documentHasMarker => "Generated document contains a managed-region marker line"
  | modified expected actual =>
    s!"Target changed since preview (expected {expected}, found {actual})"

end Refusal

namespace Region

def beginMarker : Text := "# --- BEGIN ESPHOME_TOUCH_DESIGNER GENERATED ---".toList

def endMarker : Text := "# --- END ESPHOME_TOUCH_DESIGNER GENERATED ---".toList

/-- Whether a newline-terminated piece holds nothing but the marker. -/
def isMarkerLine (marker piece : Text) : Bool := Text.trim piece == marker

/-- Splits a list in front of the first element that satisfies `p`. -/
def splitBefore (p : α → Bool) (l : List α) : List α × List α :=
  (l.takeWhile (!p ·), l.dropWhile (!p ·))

/-- The region of a text, nothing if the text has no marker at all. -/
def find (t : Text) : Except Refusal (Option Region) :=
  let begins := Text.count beginMarker t
  let ends := Text.count endMarker t
  let pieces := Text.segments t
  if 1 < begins || 1 < ends then .error (.duplicated begins ends)
  else
    let (front, rest) := splitBefore (isMarkerLine beginMarker) pieces
    let hasEnd := pieces.any (isMarkerLine endMarker)
    if (rest.isEmpty && begins == 1) || (!hasEnd && ends == 1) then .error .notWholeLine
    else match rest with
      | [] => if hasEnd then .error .unopened else .ok none
      | opening :: rest =>
        if !hasEnd then .error .unclosed
        else match splitBefore (isMarkerLine endMarker) rest with
          | (_, []) => .error .inverted
          | (body, tail) => .ok (some ⟨(front ++ [opening]).flatten, body.flatten, tail.flatten⟩)

end Region

end TouchPanel
