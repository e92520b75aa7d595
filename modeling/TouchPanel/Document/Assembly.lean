import TouchPanel.Document.Identity
import TouchPanel.Document.UserText
import TouchPanel.Fragments

/-!
# Assembly of a document

A recipe and the fragments of a project make one document. Its order is fixed: the
header, the sections `esphome`, `api`, `wifi` and `ota`, the other sections of the
recipe, and then the generated sections that the recipe has no place for.
-/

namespace TouchPanel.Document

open Recipe (Section)

/-! ## Sections -/

/-- Adds entries to the first section with the given name. -/
def mergeSection (sections : List Section) (name : String) (entries : List Node) :
    List Section × List Diagnostic :=
  match sections with
  | [] => ([], [])
  | s :: r =>
    if s.key == some name.toList then
      match s.append? entries with
      | some s => (s :: r, [])
      | none => (s :: r, [.unmergeableSection name])
    else
      let (r, found) := mergeSection r name entries
      (s :: r, found)

def mergeSections (sections : List Section) (added : List (String × List Node)) :
    List Section × List Diagnostic :=
  added.foldl (fun (sections, found) (name, entries) =>
    let (sections, more) := mergeSection sections name entries
    (sections, found ++ more)) (sections, [])

/-- The first section with the given name, and the other sections. -/
def takeSection (name : String) (sections : List Section) : Option Section × List Section :=
  let isNamed (s : Section) : Bool := s.key == some name.toList
  (sections.find? isNamed, sections.eraseP isNamed)

/-- A generated section. -/
def sectionText (s : String × List Node) : Text :=
  s.1.toList ++ ':' :: '\n' :: Text.trimEnd (Node.renderList s.2 2)

/-! ## Fixed parts -/

def header (d : Device) : Text :=
  Text.joinLines ["# Generated by touch-designer v0.1.0".toList,
    ("# device_id: " ++ d.deviceId).toList, ("# slug: " ++ d.slug).toList]

def defaultWifi : Text :=
  Text.joinLines (["wifi:", "  networks:", "    - ssid: !secret wifi_ssid",
    "      password: !secret wifi_password", "  ap:", "    ssid: \"Fallback\"",
    "    password: \"12345678\""].map String.toList)

def defaultOta : Text := Text.joinLines (["ota:", "  - platform: esphome"].map String.toList)

/-- What stands before the first key, without the lines that begin or end a YAML
document. -/
def preamble (s : Section) : Text :=
  let isIndicator (line : Text) : Bool :=
    Text.trim line == "---".toList || Text.trim line == "...".toList
  Text.joinLines ((Text.lines s.text).filter (!isIndicator ·))

/-! ## Assembly -/

/-- A recipe with the pages and the sections of inbound data at their insertion
points. -/
structure Filled where
  text : Text
  /-- The generated sections for which the recipe has a section. -/
  existing : List (String × List Node)
  /-- The ones for which it has neither that nor an insertion point. -/
  left : List (String × List Node)
  diagnostics : List Diagnostic

def fill (recipe : Text) (f : Fragments) : Filled :=
  let (text, diagnostics) :=
    match Recipe.replaceMarker? Recipe.pagesMarker (f.lvgl.render 0) recipe with
    | some text => (text, [])
    | none => (recipe, [Diagnostic.missingPagesMarker])
  let (existing, fresh) := f.sensors.partition fun s => Recipe.hasSection text s.1.toList
  let mapping := Mapping.ofList (fresh.map fun (name, entries) => (name, .list entries))
  match Recipe.replaceMarker? Recipe.bindingsMarker (mapping.render 0) text with
  | some text => ⟨text, existing, [], diagnostics⟩
  | none => ⟨text, existing, fresh, diagnostics⟩

/-- The sections of a document in their order. -/
def sectionTexts (d : Device) (options : Options) (recipe : Text) (sections : List Section)
    (added : List (String × List Node)) : List Text :=
  let (esphome, sections) := takeSection "esphome" sections
  let (api, sections) := takeSection "api" sections
  let (wifi, sections) := takeSection "wifi" sections
  let (ota, sections) := takeSection "ota" sections
  let network (s : Option Section) (default : Text) : List Text :=
    match s with
    | some s => [s.text]
    | none => if options.defaultNetwork then [default] else []
  (if options.headerComment then [header d] else []) ++
    (sections.filter (·.key.isNone)).map preamble ++
    [esphomeSection d.nodeName.toList recipe esphome, apiSection (d.key?.map String.toList) api] ++
    network wifi defaultWifi ++ network ota defaultOta ++
    (sections.filter (·.key.isSome)).map Section.text ++ added.map sectionText

/-- Puts the name and the key of a device in place of their placeholders. -/
def substitute (d : Device) (t : Text) : Text :=
  let t := Text.replace Recipe.deviceNamePlaceholder (Text.quote d.nodeName.toList) t
  match d.key? with
  | some key => Text.replace Recipe.apiKeyPlaceholder (Text.quote key.toList) t
  | none => t

/-- The document that has the given sections, with an empty line between each two. -/
def joinSections (d : Device) (texts : List Text) : Text :=
  let texts := (texts.map Text.trimEnd).filter (!·.isEmpty)
  substitute d (Text.joinWith ['\n', '\n'] texts) ++ ['\n']

def assemble (d : Device) (recipe : Text) (f : Fragments) (options : Options) :
    Text × List Diagnostic :=
  let filled := fill (d.project.userText.inject (Recipe.normalize recipe)) f
  let (sections, found) := mergeSections (Section.split filled.text) filled.existing
  let isDeclared (s : String × List Node) : Bool :=
    sections.any (·.key == some s.1.toList)
  let (declared, added) := f.trailing.partition isDeclared
  let (sections, more) := mergeSections sections declared
  (joinSections d (sectionTexts d options filled.text sections (filled.left ++ added)),
    filled.diagnostics ++ found ++ more)

end Document

/-- A document and what was found while it was compiled. -/
structure Compilation where
  document : Text
  diagnostics : List Diagnostic

/-- Compiles a device with a recipe. Problems are reported and never stop it. -/
def Compilation.ofDevice (d : Device) (recipe : Text) (registry : Registry) (options : Options) :
    Compilation :=
  let (fragments, compiled) := Fragments.ofProject d.project registry options
  let (document, assembled) := Document.assemble d recipe fragments options
  ⟨document, compiled ++ assembled⟩

end TouchPanel
