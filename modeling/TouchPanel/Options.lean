import TouchPanel.Identifier
import TouchPanel.Yaml.Decode

/-!
# Compile options

Every option has a default. Options are read from a YAML mapping, of which a text
without content is one without keys.
-/

namespace TouchPanel

structure Options where
  /-- How long an outbound call keeps inbound updates away, in milliseconds. -/
  lockWindow : Nat := 500
  /-- Delay in front of an outbound call in milliseconds; none if zero. -/
  outboundDelay : Nat := 150
  assetRoot : String := "/config/esphome_touch_designer_assets"
  /-- Whether a recipe without network sections gets default ones. -/
  defaultNetwork : Bool := true
  headerComment : Bool := true
  reservedId : String := "main"
  reservedIdReplacement : String := "main_page"

/-- A value of an option that cannot be used. -/
inductive OptionFault where
  | zeroLockWindow
  | notPlain (option value : String)
  | sameReplacement

namespace OptionFault

def invalid (key reason : String) : String :=
  s!"Invalid configuration value for '{key}': {reason}"

def message : OptionFault → String
  | zeroLockWindow => invalid "lock_window_ms" "must be greater than zero"
  | notPlain option value => invalid option s!"'{value}' is not a plain identifier"
  | sameReplacement => invalid "reserved_id_replacement" "must differ from reserved_id"

end OptionFault

namespace Options

def isPlain (s : String) : Bool := s ≠ "" && Identifier.plain s = s

/-- The first fault of the options. -/
def fault? (o : Options) : Option OptionFault :=
  if o.lockWindow = 0 then some .zeroLockWindow
  else if !isPlain o.reservedId then some (.notPlain "reserved_id" o.reservedId)
  else if !isPlain o.reservedIdReplacement then
    some (.notPlain "reserved_id_replacement" o.reservedIdReplacement)
  else if o.reservedId = o.reservedIdReplacement then some .sameReplacement
  else none

def idPolicy (o : Options) : Identifier.Policy := ⟨o.reservedId, o.reservedIdReplacement⟩

def assetPath (o : Options) (file : String) : String :=
  String.ofList (Text.dropEndWhile (· == '/') o.assetRoot.toList) ++ "/" ++ file

/-! ## Reading -/

open Yaml.Decoder in
def decoder : Yaml.Decoder Options :=
  record ["lock_window_ms", "outbound_delay_ms", "asset_root", "default_network",
      "header_comment", "reserved_id", "reserved_id_replacement"] do
    let default : Options := {}
    return {
      lockWindow := ← Record.orElse (natBelow (Nat.pow 2 32)) default.lockWindow
      outboundDelay := ← Record.orElse (natBelow (Nat.pow 2 32)) default.outboundDelay
      assetRoot := ← Record.orElse string default.assetRoot
      defaultNetwork := ← Record.orElse bool default.defaultNetwork
      headerComment := ← Record.orElse bool default.headerComment
      reservedId := ← Record.orElse string default.reservedId
      reservedIdReplacement := ← Record.orElse string default.reservedIdReplacement }

/-- Why a text gives no options. -/
inductive ReadingFault where
  | notOptions
  | invalid (fault : OptionFault)

def ReadingFault.message : ReadingFault → String
  | notOptions => "YAML error: not a mapping of known options to their values"
  | invalid fault => fault.message

def ofText (t : Text) : Except ReadingFault Options :=
  if Text.allBlank t then .ok {}
  else match (Yaml.Term.ofText? t).bind decoder with
    | none => .error .notOptions
    | some options =>
      match options.fault? with
      | some fault => .error (.invalid fault)
      | none => .ok options

end Options

end TouchPanel
