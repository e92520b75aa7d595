import TouchPanel.Decimal.Reading
import TouchPanel.Identifier
import TouchPanel.Options
import TouchPanel.Order
import TouchPanel.Output.Node
import TouchPanel.Project.Basic

/-!
# Assets

Widgets refer to image files as `asset:<file>` and to fonts as
`asset:<file>:<size>`. Each reference gives way to the id of an entry that the
document declares.
-/

namespace TouchPanel

structure FontKey where
  file : String
  size : Nat
  deriving DecidableEq

namespace FontKey

def pair (k : FontKey) : String × Nat := (k.file, k.size)

instance : Ord FontKey := Order.image Order.pair pair

instance : Std.TransOrd FontKey := Order.transOrd_image Order.pair pair

instance : Std.LawfulEqOrd FontKey :=
  Order.lawfulEqOrd_image Order.pair fun a b h => by
    cases a; cases b; simpa [pair] using h

end FontKey

/-! ## References -/

/-- What an asset reference names. -/
inductive Asset where
  | image (file : String)
  | font (key : FontKey)
  deriving DecidableEq

/-- A positive size that fits 32 bits. A plus sign may stand in front. -/
def fontSize? (t : Text) : Option Nat :=
  let ds := match t with
    | '+' :: r => r
    | _ => t
  if ds.isEmpty || !ds.all Char.isDigit then none
  else
    let n := Decimal.digitsValue ds
    if 0 < n && n < Nat.pow 2 32 then some n else none

namespace Asset

/-- The keys whose references name images. All others name fonts. -/
def imageKeys : List String := ["src", "bg_image_src"]

/-- What the value of a key refers to. -/
def ofReference? (key value : String) : Option Asset :=
  match Text.after? "asset:".toList value.toList with
  | none => none
  | some rest =>
    if imageKeys.contains key then
      let file := Text.trim rest
      if file.isEmpty then none else some (.image (String.ofList file))
    else
      match Text.splitAtLast? ':' rest with
      | none => none
      | some (file, size) =>
        match Text.trim file, fontSize? (Text.trim size) with
        | [], _ => none
        | file, some n => some (.font ⟨String.ofList file, n⟩)
        | _, none => none

def imageId (file : String) : String := "asset_" ++ Identifier.plain file

/-- The last component of a path, unless it leads upwards. -/
def fileName? (path : Text) : Option Text :=
  let parts := (Text.words (· == '/') path).filter (· ≠ ['.'])
  parts.getLast?.filter (· ≠ ['.', '.'])

/-- A file name without what follows its last dot. A dot at the start does not
count. -/
def stemOf (name : Text) : Text :=
  match Text.splitAtLast? '.' name with
  | some (c :: stem, _) => c :: stem
  | _ => name

/-- The id of the font that comes at place `n` among all fonts. -/
def fontId (key : FontKey) (n : Nat) : String :=
  let stem := ((fileName? key.file.toList).map stemOf).getD key.file.toList
  s!"font_{Identifier.plain (String.ofList stem)}_{key.size}_{n}"

end Asset

/-! ## Table of assets -/

structure AssetTable where
  /-- The file of each image id. -/
  images : Table String String
  /-- The id of each font. -/
  fonts : Table FontKey String
  /-- The id that takes the place of each reference. -/
  references : Table String String

namespace AssetTable

/-- The string values of a table without surrounding blanks. -/
def textsOf (fields : List (String × Json.Value)) : List (String × String) :=
  fields.filterMap fun (k, v) => v.string?.map fun s => (k, trimmed s)

/-- The texts among a widget's properties, styles and parts. -/
def textsOfWidget (w : Widget) : List (String × String) :=
  textsOf w.props.entries ++ textsOf w.style.entries ++
    w.extra.values.flatMap fun
      | .object fields => textsOf fields
      | _ => []

/-- The references of a project with what they name. -/
def referencesOf (p : Project) : List (String × Asset) :=
  (p.widgets.flatMap textsOfWidget).filterMap fun (key, value) =>
    (Asset.ofReference? key value).map fun a => (value, a)

/-- Fonts are numbered in the order of their keys, so that their ids do not depend on
the order of the widgets. -/
def numberFonts (keys : List FontKey) : Table FontKey String :=
  let sorted := (Table.ofList (keys.map (·, ()))).keys
  .ofList (sorted.zipIdx.map fun (key, i) => (key, Asset.fontId key (i + 1)))

def ofProject (p : Project) : AssetTable :=
  let refs := referencesOf p
  let files := refs.filterMap fun
    | (ref, .image file) => some (ref, file)
    | _ => none
  let keys := refs.filterMap fun
    | (ref, .font key) => some (ref, key)
    | _ => none
  let fonts := numberFonts (keys.map (·.2))
  { images := .ofList (files.map fun (_, file) => (Asset.imageId file, file))
    fonts
    references := .ofList (files.map (fun (ref, file) => (ref, Asset.imageId file)) ++
      keys.filterMap fun (ref, key) => (fonts.get? key).map fun id => (ref, id)) }

/-- The id that takes the place of a reference. -/
def idOf? (t : AssetTable) (value : String) : Option String := t.references.get? (trimmed value)

def imageNodes (t : AssetTable) (options : Options) : List Node :=
  t.images.entries.map fun (id, file) =>
    .map [("file", .str (options.assetPath file)), ("id", .ident id)]

def fontNodes (t : AssetTable) (options : Options) : List Node :=
  t.fonts.entries.map fun (key, id) =>
    .map [("file", .str (options.assetPath key.file)), ("id", .ident id), ("size", .int key.size)]

end AssetTable

end TouchPanel
