import TouchPanel.Text.Lines
import TouchPanel.Text.Search

/-!
# Insertion points of a recipe

A recipe is a hand-written template that is handled as text. A line that holds
nothing but a marker is an insertion point: generated lines take its place with its
indentation.
-/

namespace TouchPanel.Recipe

def pagesMarker : Text := "#__LVGL_PAGES__".toList

def bindingsMarker : Text := "#__HA_BINDINGS__".toList

def userPreMarker : Text := "#__USER_YAML_PRE__".toList

def userPostMarker : Text := "#__USER_YAML_POST__".toList

def deviceNamePlaceholder : Text := "__ETD_DEVICE_NAME__".toList

def apiKeyPlaceholder : Text := "__ETD_API_KEY__".toList

/-- The marker of an insertion point that a project defines. -/
def customMarker (name : Text) : Text := "#__".toList ++ name ++ "__".toList

/-! ## Lines -/

def isComment (line : Text) : Bool := (Text.trimStart line).head? == some '#'

/-- Neither blank nor a comment. -/
def isContent (line : Text) : Bool := !Text.allBlank line && !isComment line

/-- Width in bytes of the blanks that a line starts with. -/
def indentOf (line : Text) : Nat := Text.byteSize (Text.leadingBlanks line)

/-! ## Normal form -/

/-- Moves an indented `esphome:` to the margin if it is the first line of content. -/
def dedentFirst : List Text → List Text
  | [] => []
  | line :: r =>
    if isContent line then
      (if Text.startsWith "esphome:".toList (Text.trimStart line) then Text.trimStart line
        else line) :: r
    else line :: dedentFirst r

/-- A recipe without byte order mark and carriage returns before newlines, its last
line ended. -/
def normalize (t : Text) : Text :=
  let t := match t with
    | '\ufeff' :: r => r
    | _ => t
  Text.joinLines (dedentFirst (Text.lines (Text.replace ['\r', '\n'] ['\n'] t))) ++ ['\n']

/-! ## Markers -/

def isMarkerLine (marker line : Text) : Bool := Text.trim line == marker

/-- Indentation of the first insertion point of a marker. -/
def findMarker? (marker t : Text) : Option Nat :=
  ((Text.lines t).find? (isMarkerLine marker)).map indentOf

/-- A line with the blanks that `model` starts with in front, unless it is empty. -/
def indentLike (model line : Text) : Text :=
  if line.isEmpty then [] else Text.leadingBlanks model ++ line

/-- The lines with the first insertion point replaced and later ones removed. -/
def substituteLines? (marker : Text) (payload : List Text) : List Text → Option (List Text)
  | [] => none
  | line :: r =>
    if isMarkerLine marker line then
      some (payload.map (indentLike line) ++ r.filter (!isMarkerLine marker ·))
    else (substituteLines? marker payload r).map (line :: ·)

/-- Puts the lines of a payload at the first insertion point of a marker and removes
the later ones. There is no result if the marker has no insertion point. -/
def replaceMarker? (marker payload t : Text) : Option Text :=
  (substituteLines? marker (Text.lines (Text.dropEndWhile (· == '\n') payload))
    (Text.lines t)).map Text.unlines

def removeMarker (marker t : Text) : Text :=
  Text.unlines ((Text.lines t).filter (!isMarkerLine marker ·))

end TouchPanel.Recipe
