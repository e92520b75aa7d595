/-!
# Text and blanks

Text is a list of characters. A blank is a character with the Unicode property
White_Space; trimming removes blanks from the ends of a text.
-/

namespace TouchPanel

abbrev Text := List Char

namespace Text

/-- The 25 characters with the Unicode property White_Space. -/
def isBlank (c : Char) : Bool :=
  let n := c.toNat
  (9 ≤ n && n ≤ 13) || n == 0x20 || n == 0x85 || n == 0xA0 || n == 0x1680 ||
    (0x2000 ≤ n && n ≤ 0x200A) || n == 0x2028 || n == 0x2029 || n == 0x202F ||
    n == 0x205F || n == 0x3000

def trimStart (t : Text) : Text := t.dropWhile isBlank

/-- Drops the longest run at the end of `t` whose characters all satisfy `p`. -/
def dropEndWhile (p : Char → Bool) (t : Text) : Text :=
  (t.reverse.dropWhile p).reverse

def trimEnd (t : Text) : Text := dropEndWhile isBlank t

def trim (t : Text) : Text := trimEnd (trimStart t)

/-- The run of blanks that `t` starts with. -/
def leadingBlanks (t : Text) : Text := t.takeWhile isBlank

def allBlank (t : Text) : Bool := t.all isBlank

/-- Size in UTF-8 bytes. -/
def byteSize : Text → Nat
  | [] => 0
  | c :: r => c.utf8Size + byteSize r

def spaces (n : Nat) : Text := List.replicate n ' '

theorem leadingBlanks_append_trimStart (t : Text) :
    leadingBlanks t ++ trimStart t = t :=
  List.takeWhile_append_dropWhile

theorem isBlank_of_isWhitespace {c : Char} (h : c.isWhitespace = true) :
    isBlank c = true := by
  have h' : c = ' ' ∨ c = '\t' ∨ c = '\r' ∨ c = '\n' := by
    simpa [Char.isWhitespace, or_assoc] using h
  rcases h' with rfl | rfl | rfl | rfl <;> rfl

end Text

/-- The string without the blanks at its two ends. -/
def trimmed (s : String) : String := String.ofList (Text.trim s.toList)

end TouchPanel
