import TouchPanel.Text.Blank

/-!
# YAML tokens

The tokens of a document. The beginning and the end of a block collection are
tokens although only the indentation shows them.
-/

namespace TouchPanel.Yaml

/-- How a scalar is written. -/
inductive Style where
  | plain
  | singleQuoted
  | doubleQuoted
  | literal
  | folded
  deriving DecidableEq

/-- The octets of a tag in UTF-8. -/
abbrev Octets := List UInt8

inductive Token where
  | version (major minor : Nat)
  | tagPrefix (handle : Text) (octets : Octets)
  | documentStart
  | documentEnd
  | blockSequenceStart
  | blockMappingStart
  | blockEnd
  | flowSequenceStart
  | flowSequenceEnd
  | flowMappingStart
  | flowMappingEnd
  | blockEntry
  | flowEntry
  | key
  | value
  | alias (name : Text)
  | anchor (name : Text)
  /-- A tag without handle is complete. -/
  | tag (handle : Text) (suffix : Octets)
  | scalar (style : Style) (text : Text)
  deriving DecidableEq

end TouchPanel.Yaml
