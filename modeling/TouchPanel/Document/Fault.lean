import TouchPanel.Recipe.Section
import TouchPanel.Yaml.Value

/-!
# Faults of a document

What makes a document unfit for the tools that build the device. A section that is
declared twice also spoils the YAML, so that is not read then.
-/

namespace TouchPanel.Document

open Recipe (Section)

inductive Fault where
  | notYaml
  | repeatedSection (key : Text)
  | esphomeNotFirst
  | noDeviceName
  | leftMarker (marker : Text)
  | leftPlaceholder (placeholder : Text)
  deriving DecidableEq

def Fault.message : Fault → String
  | notYaml => "document is not valid YAML: it is not one document with distinct keys"
  | repeatedSection key => s!"top-level section '{String.ofList key}' is declared more than once"
  | esphomeNotFirst => "'esphome:' is not the first section"
  | noDeviceName => "'esphome:' has no name"
  | leftMarker marker => s!"insertion point '{String.ofList marker}' was not substituted"
  | leftPlaceholder placeholder =>
    s!"placeholder '{String.ofList placeholder}' was not substituted"

/-- The keys that stand before in the list, once for each time. -/
def repeated (seen : List Text) : List Text → List Text
  | [] => []
  | key :: r => if seen.contains key then key :: repeated seen r else repeated (key :: seen) r

/-- A text that looks like a marker: a name between `#__` and `__`. -/
def looksLikeMarker (t : Text) : Bool :=
  6 < Text.byteSize t && Text.startsWith "#__".toList t && Text.endsWith "__".toList t

def leftMarkers (t : Text) : List Fault :=
  (((Text.lines t).map Text.trim).filter looksLikeMarker).map .leftMarker

def leftPlaceholders (t : Text) : List Fault :=
  ([Recipe.deviceNamePlaceholder, Recipe.apiKeyPlaceholder].filter (Text.occurs · t)).map
    .leftPlaceholder

/-- The faults of the document as YAML. -/
def yamlFaults (t : Text) : List Fault :=
  match Yaml.Value.ofText? t with
  | none => [.notYaml]
  | some v =>
    let name := ((v.get? "esphome").bind (·.get? "name")).bind Yaml.Value.string?
    if name.all fun s => Text.allBlank s.toList then [.noDeviceName] else []

def faults (t : Text) : List Fault :=
  let keys := (Section.split t).filterMap (·.key)
  let doubled := repeated [] keys
  doubled.map .repeatedSection ++
    (if keys.head? = some "esphome".toList then [] else [.esphomeNotFirst]) ++
    leftMarkers t ++ leftPlaceholders t ++
    if doubled.isEmpty then yamlFaults t else []

end TouchPanel.Document
