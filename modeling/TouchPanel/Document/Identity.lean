import TouchPanel.Recipe.Section
import TouchPanel.Text.Quoted

/-!
# Identity of a device

The name of a device stands in the section `esphome`, its API key in the section
`api`. What a recipe says about them is kept if it is the same or a placeholder, and
replaced otherwise.
-/

namespace TouchPanel.Document

open Recipe (Section indentOf)

/-- Changes the first line that satisfies `p`. -/
def updateFirst? (p : Text → Bool) (f : Text → Text) : List Text → Option (List Text)
  | [] => none
  | line :: r => if p line then some (f line :: r) else (updateFirst? p f r).map (line :: ·)

/-- The value of an indented line that has the given key. -/
def valueOf? (key line : Text) : Option Text :=
  if (Text.leadingBlanks line).isEmpty then none
  else match (Text.after? key (Text.trimStart line)).map Text.trimStart with
    | some (':' :: r) => some (Text.trim r)
    | _ => none

/-- A line with a key and a quoted value. -/
def quotedLine (indent : Nat) (key value : Text) : Text :=
  Text.spaces indent ++ key ++ ": ".toList ++ Text.quote value

/-- A text without the quotes at its two ends. -/
def unquoted (t : Text) : Text :=
  let isQuote (c : Char) : Bool := c == '"' || c == '\''
  Text.dropEndWhile isQuote (t.dropWhile isQuote)

/-! ## Name -/

/-- A line with a name of the device. Another name is replaced, a placeholder is left
to be substituted. -/
def nameLine (name line : Text) : Text :=
  let value := unquoted ((valueOf? "name".toList line).getD [])
  if value == name || Text.occurs Recipe.deviceNamePlaceholder value then line
  else quotedLine (indentOf line) "name".toList name

def isNameLine (s : Section) (line : Text) : Bool :=
  (valueOf? "name".toList line).isSome && indentOf line == s.childIndent

/-- The lines below the key of the section `esphome`. Without a name line the name is
put first, unless the recipe has the placeholder elsewhere. -/
def namedLines (name : Text) (namedElsewhere : Bool) (s : Section) : List Text :=
  let lines := s.lines.drop 1
  match updateFirst? (isNameLine s) (nameLine name) lines with
  | some lines => lines
  | none =>
    if namedElsewhere then lines else quotedLine s.childIndent "name".toList name :: lines

/-- The section `esphome` for a device; `recipe` is the text from which the section
was taken. -/
def esphomeSection (name recipe : Text) (s : Option Section) : Text :=
  let key := "esphome:".toList
  match s with
  | none => Text.joinLines [key, quotedLine 2 "name".toList name]
  | some s =>
    let namedElsewhere := Text.occurs Recipe.deviceNamePlaceholder recipe
    { s with lines := key :: namedLines name namedElsewhere s }.text

/-! ## API key -/

def isEncryptionLine (line : Text) : Bool :=
  Text.startsWith "encryption:".toList (Text.trimStart line)

/-- Removes the first line with the placeholder of the key, and the line
`encryption:` before it if that has nothing else below. -/
def dropKeyPlaceholder (lines : List Text) : List Text :=
  let before := lines.takeWhile (!Text.occurs Recipe.apiKeyPlaceholder ·)
  match lines.dropWhile (!Text.occurs Recipe.apiKeyPlaceholder ·) with
  | [] => lines
  | _ :: after =>
    match before.getLast? with
    | none => after
    | some line =>
      let hasMore := (after.find? (!Text.allBlank ·)).any (indentOf line < indentOf ·)
      if Text.trim line == "encryption:".toList && !hasMore then before.dropLast ++ after
      else before ++ after

/-- The lines below the key of the section `api` with the given key of the device. -/
def encryptedLines (key : Text) (s : Section) : List Text :=
  let lines := s.lines.drop 1
  let keyLine (indent : Nat) := quotedLine indent "key".toList key
  match lines.dropWhile (!isEncryptionLine ·) with
  | [] =>
    let indent := s.childIndent
    (Text.spaces indent ++ "encryption:".toList) :: keyLine (indent + 2) :: lines
  | opening :: after =>
    let isInner (line : Text) : Bool := Text.allBlank line || indentOf opening < indentOf line
    let isKeyLine (line : Text) : Bool := (valueOf? "key".toList line).isSome
    let replaced := updateFirst? isKeyLine (fun line => keyLine (indentOf line))
      (after.takeWhile isInner)
    lines.takeWhile (!isEncryptionLine ·) ++ opening :: match replaced with
      | some inner => inner ++ after.dropWhile isInner
      | none => keyLine (indentOf opening + 2) :: after

/-- The section `api` for a device. Without a key only the placeholder is removed. -/
def apiSection (key : Option Text) (s : Option Section) : Text :=
  let first := "api:".toList
  match key, s with
  | none, none => first
  | none, some s => { s with lines := dropKeyPlaceholder s.lines }.text
  | some key, none =>
    Text.joinLines [first, "  encryption:".toList, quotedLine 4 "key".toList key]
  | some key, some s =>
    if Text.occurs key s.text || Text.occurs Recipe.apiKeyPlaceholder s.text then s.text
    else { s with lines := first :: encryptedLines key s }.text

end TouchPanel.Document
