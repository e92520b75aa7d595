import TouchPanel.Text.Blank

/-!
# Quoted text

A text between double quotes, with the escapes that JSON and double-quoted YAML
scalars share. Only the quote, the backslash and the characters below U+0020 are
escaped.
-/

namespace TouchPanel.Text

/-- Lower-case hexadecimal digit of `n % 16`. -/
def hexDigit (n : Nat) : Char := Nat.digitChar (n % 16)

/-- The escaped form of one character. -/
def escape (c : Char) : Text :=
  if c = '"' then ['\\', '"']
  else if c = '\\' then ['\\', '\\']
  else if c = '\n' then ['\\', 'n']
  else if c = '\r' then ['\\', 'r']
  else if c = '\t' then ['\\', 't']
  else if c = '\x08' then ['\\', 'b']
  else if c = '\x0c' then ['\\', 'f']
  else if c.toNat < 0x20 then ['\\', 'u', '0', '0', hexDigit (c.toNat / 16), hexDigit c.toNat]
  else [c]

def quote (t : Text) : Text := '"' :: t.flatMap escape ++ ['"']

end TouchPanel.Text

namespace TouchPanel

/-- The string between double quotes, with its special characters escaped. -/
def quoted (s : String) : String := String.ofList (Text.quote s.toList)

end TouchPanel
