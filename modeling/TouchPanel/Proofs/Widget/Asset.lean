import TouchPanel.Proofs.Identifier
import TouchPanel.Proofs.Output.Entry
import TouchPanel.Proofs.Table
import TouchPanel.Widget.Asset

/-!
# Files and their ids

Fonts are numbered, so that each has an id and an entry of its own. The id of an image shows
its file made plain: images that are plainly the same have one entry, which names one of
them. A text that refers to an image and to a font gives way to the id of the font.
-/

namespace TouchPanel

/-! ## References -/

/-- The reference that an entry is, with what it names. -/
def Asset.referenceOf? (e : String × Json.Value) : Option (String × Asset) :=
  e.2.string?.bind fun s => (ofReference? e.1 (trimmed s)).map fun a => (trimmed s, a)

namespace Widget

/-- The references of a value outside of properties and style. -/
def referencesInValue : Json.Value → List (String × Asset)
  | .object fields => fields.filterMap Asset.referenceOf?
  | _ => []

/-- The references of a widget. -/
def references (w : Widget) : List (String × Asset) :=
  w.props.entries.filterMap Asset.referenceOf? ++ w.style.entries.filterMap Asset.referenceOf? ++
    w.extra.entries.flatMap fun e => referencesInValue e.2

theorem exists_of_mem_references {w : Widget} {r : String × Asset} (h : r ∈ w.references) :
    ∃ e, Asset.referenceOf? e = some r := by
  unfold references at h
  rw [List.mem_append, List.mem_append, List.mem_filterMap, List.mem_filterMap,
    List.mem_flatMap] at h
  rcases h with (⟨e, -, he⟩ | ⟨e, -, he⟩) | ⟨⟨name, v⟩, -, hv⟩
  · exact ⟨e, he⟩
  · exact ⟨e, he⟩
  · cases v with
    | object fields =>
      obtain ⟨e, -, he⟩ := List.mem_filterMap.1 hv
      exact ⟨e, he⟩
    | _ => exact absurd hv List.not_mem_nil

end Widget

/-- The references of a project are those of its widgets, in order. -/
theorem AssetTable.referencesOf_eq (p : Project) :
    referencesOf p = p.widgets.flatMap Widget.references := by
  have htexts : ∀ entries : List (String × Json.Value), (textsOf entries).filterMap
      (fun e => (Asset.ofReference? e.1 e.2).map fun a => (e.2, a)) =
        entries.filterMap Asset.referenceOf? := by
    intro entries
    unfold textsOf
    rw [List.filterMap_filterMap]
    refine List.filterMap_congr fun e _ => ?_
    obtain ⟨key, v⟩ := e
    unfold Asset.referenceOf?
    dsimp only
    rw [Option.bind_map, Function.comp_def]
  unfold referencesOf
  rw [List.filterMap_flatMap]
  refine List.flatMap_congr fun w _ => ?_
  unfold textsOfWidget Widget.references
  rw [List.filterMap_append, List.filterMap_append, htexts, htexts, List.filterMap_flatMap,
    Table.values, List.flatMap_map]
  congr 1
  refine List.flatMap_congr fun e _ => ?_
  cases e.2 with
  | object fields => exact htexts fields
  | _ => rfl

/-- Some widget refers to the asset by the text. -/
def Project.Refers (p : Project) (ref : String) (a : Asset) : Prop :=
  ∃ w ∈ p.widgets, (ref, a) ∈ w.references

instance (p : Project) (ref : String) (a : Asset) : Decidable (p.Refers ref a) :=
  inferInstanceAs (Decidable (∃ w ∈ p.widgets, (ref, a) ∈ w.references))

namespace Asset

def isImage : Asset → Bool
  | .image _ => true
  | .font _ => false

theorem contains_imageKeys {key value : String} {a : Asset} (h : ofReference? key value = some a) :
    imageKeys.contains key = a.isImage := by
  unfold ofReference? at h
  grind [isImage]

/-- Of the key of a text it matters only whether images stand under it. -/
theorem ofReference?_congr {key key' : String} (value : String)
    (h : imageKeys.contains key = imageKeys.contains key') :
    ofReference? key value = ofReference? key' value := by
  unfold ofReference?
  rw [h]

end Asset

namespace Project.Refers

variable {p : Project} {ref : String}

theorem exists_key {a : Asset} (h : p.Refers ref a) :
    trimmed ref = ref ∧ ∃ key, Asset.ofReference? key ref = some a := by
  obtain ⟨w, -, hmem⟩ := h
  obtain ⟨⟨key, v⟩, he⟩ := Widget.exists_of_mem_references hmem
  obtain ⟨s, -, hs⟩ := Option.bind_eq_some_iff.1 he
  obtain ⟨b, hb, heq⟩ := Option.map_eq_some_iff.1 hs
  obtain ⟨rfl, rfl⟩ := Prod.mk.inj heq
  exact ⟨Text.trimmed_trimmed s, key, hb⟩

/-- A text refers to at most one image and to at most one font. -/
theorem eq_of_isImage {a b : Asset} (ha : p.Refers ref a) (hb : p.Refers ref b)
    (hkind : b.isImage = a.isImage) : b = a := by
  obtain ⟨-, key, hkey⟩ := ha.exists_key
  obtain ⟨-, key', hkey'⟩ := hb.exists_key
  have hkeys : Asset.imageKeys.contains key' = Asset.imageKeys.contains key := by
    rw [Asset.contains_imageKeys hkey, Asset.contains_imageKeys hkey', hkind]
  rw [Asset.ofReference?_congr ref hkeys, hkey] at hkey'
  exact (Option.some.inj hkey').symm

end Project.Refers

/-! ## Ids -/

namespace Asset

theorem plain_of_imageId {file file' : String} (h : imageId file = imageId file') :
    Identifier.plain file = Identifier.plain file' :=
  (String.append_right_inj _).1 h

/-- The number at its end tells the id of a font from those of all others. -/
theorem fontId_inj {key key' : FontKey} {n n' : Nat} (h : fontId key n = fontId key' n') :
    n = n' := by
  have hfree : ∀ n : Nat, '_' ∉ n.repr.toList := by
    intro n hmem
    cases isDigit_of_mem_repr hmem
  have hid : ∀ (key : FontKey) (n : Nat),
      ∃ front, (fontId key n).toList = front ++ '_' :: n.repr.toList := by
    intro key n
    let stem := ((fileName? key.file.toList).map stemOf).getD key.file.toList
    refine ⟨("font_" ++ Identifier.plain (String.ofList stem) ++ "_" ++ key.size.repr).toList, ?_⟩
    simp [fontId, stem, toString]
  obtain ⟨front, hfront⟩ := hid key n
  obtain ⟨front', hfront'⟩ := hid key' n'
  rw [h, hfront'] at hfront
  have hdigits := (append_cons_inj_of_not_mem (hfree n') (hfree n) hfront).2
  exact (repr_inj (String.toList_inj.1 hdigits)).symm

theorem imageId_ne_fontId (file : String) (key : FontKey) (n : Nat) :
    imageId file ≠ fontId key n := by
  intro h
  have hhead : (imageId file).toList.head? = (fontId key n).toList.head? := by rw [h]
  simp [imageId, fontId, toString] at hhead

end Asset

namespace AssetTable

variable {keys : List FontKey} {key key' : FontKey} {id : String}

theorem exists_number (h : key ∈ keys) : ∃ id, (numberFonts keys).get? key = some id := by
  apply Table.exists_get?_ofList
  rw [List.map_map]
  show key ∈ List.map Prod.fst (List.zipIdx _)
  rw [List.zipIdx_map_fst, Table.mem_keys_ofList]
  simpa using h

theorem exists_fontId (h : (numberFonts keys).get? key = some id) :
    ∃ i, (Table.ofList (keys.map (·, ()))).keys[i]? = some key ∧ id = Asset.fontId key (i + 1) := by
  have hmem := Table.mem_of_mem_ofList (Table.get?_eq_some_iff.1 h)
  obtain ⟨⟨k, i⟩, hki, heq⟩ := List.mem_map.1 hmem
  obtain ⟨rfl, rfl⟩ := Prod.mk.inj heq
  exact ⟨i, List.mem_zipIdx_iff_getElem?.1 hki, rfl⟩

/-- No two fonts have one id. -/
theorem numberFonts_inj (h : (numberFonts keys).get? key = some id)
    (h' : (numberFonts keys).get? key' = some id) : key = key' := by
  obtain ⟨i, hi, rfl⟩ := exists_fontId h
  obtain ⟨j, hj, hid⟩ := exists_fontId h'
  have hij : i + 1 = j + 1 := Asset.fontId_inj hid
  obtain rfl : i = j := by omega
  exact Option.some.inj (hi.symm.trans hj)

end AssetTable

/-! ## The table of a project -/

namespace Project

variable {p : Project} {ref : String}

theorem refers_iff_mem {a : Asset} : p.Refers ref a ↔ (ref, a) ∈ AssetTable.referencesOf p := by
  rw [AssetTable.referencesOf_eq, List.mem_flatMap]
  rfl

def imageRefs (p : Project) : List (String × String) :=
  (AssetTable.referencesOf p).filterMap fun
    | (ref, .image file) => some (ref, file)
    | _ => none

def fontRefs (p : Project) : List (String × FontKey) :=
  (AssetTable.referencesOf p).filterMap fun
    | (ref, .font key) => some (ref, key)
    | _ => none

theorem mem_imageRefs {file : String} : (ref, file) ∈ p.imageRefs ↔ p.Refers ref (.image file) := by
  rw [refers_iff_mem, imageRefs, List.mem_filterMap]
  constructor
  · rintro ⟨⟨r, a⟩, hmem, heq⟩
    cases a with
    | image f =>
      obtain ⟨rfl, rfl⟩ := Prod.mk.inj (Option.some.inj heq)
      exact hmem
    | font key => cases heq
  · exact fun hmem => ⟨_, hmem, rfl⟩

theorem mem_fontRefs {key : FontKey} : (ref, key) ∈ p.fontRefs ↔ p.Refers ref (.font key) := by
  rw [refers_iff_mem, fontRefs, List.mem_filterMap]
  constructor
  · rintro ⟨⟨r, a⟩, hmem, heq⟩
    cases a with
    | image file => cases heq
    | font k =>
      obtain ⟨rfl, rfl⟩ := Prod.mk.inj (Option.some.inj heq)
      exact hmem
  · exact fun hmem => ⟨_, hmem, rfl⟩

/-- An image may be shown as one whose file is plainly the same, or as a font to which the
text refers as well. A font is shown as itself. -/
def MayShow (p : Project) (ref : String) : Asset → Asset → Prop
  | .font key, b => b = .font key
  | .image _, .font key => p.Refers ref (.font key)
  | .image file, .image file' =>
    (∃ ref', p.Refers ref' (.image file')) ∧ Identifier.plain file' = Identifier.plain file

/-- A reference that is shown as nothing else. -/
def IsClear (p : Project) (ref : String) (a : Asset) : Prop := ∀ b, p.MayShow ref a b → b = a

end Project

namespace AssetTable

variable {p : Project} {ref id : String} {key : FontKey} {file : String}

/-- The references to images with their ids. -/
def imageIds (p : Project) : List (String × String) :=
  p.imageRefs.map fun e => (e.1, Asset.imageId e.2)

/-- The references to fonts with their ids. -/
def fontIds (p : Project) : List (String × String) :=
  p.fontRefs.filterMap fun e => ((ofProject p).fonts.get? e.2).map fun id => (e.1, id)

theorem ofProject_eq (p : Project) : ofProject p =
    { images := .ofList (p.imageRefs.map fun e => (Asset.imageId e.2, e.2))
      fonts := numberFonts (p.fontRefs.map (·.2))
      references := .ofList (imageIds p ++ fontIds p) } := rfl

theorem mem_imageIds : (ref, id) ∈ imageIds p ↔
    ∃ file, p.Refers ref (.image file) ∧ id = Asset.imageId file := by
  rw [imageIds, List.mem_map]
  constructor
  · rintro ⟨⟨r, file⟩, hmem, heq⟩
    obtain ⟨rfl, rfl⟩ := Prod.mk.inj heq
    exact ⟨file, Project.mem_imageRefs.1 hmem, rfl⟩
  · rintro ⟨file, hfile, rfl⟩
    exact ⟨(ref, file), Project.mem_imageRefs.2 hfile, rfl⟩

theorem mem_fontIds : (ref, id) ∈ fontIds p ↔
    ∃ key, p.Refers ref (.font key) ∧ (ofProject p).fonts.get? key = some id := by
  rw [fontIds, List.mem_filterMap]
  constructor
  · rintro ⟨⟨r, key⟩, hmem, heq⟩
    obtain ⟨id', hid, heq⟩ := Option.map_eq_some_iff.1 heq
    obtain ⟨rfl, rfl⟩ := Prod.mk.inj heq
    exact ⟨key, Project.mem_fontRefs.1 hmem, hid⟩
  · rintro ⟨key, hkey, hid⟩
    exact ⟨(ref, key), Project.mem_fontRefs.2 hkey, by rw [hid]; rfl⟩

/-- The assets that a table declares, with their ids. -/
def declared (t : AssetTable) : List (Asset × String) :=
  t.images.entries.map (fun e => (.image e.2, e.1)) ++ t.fonts.entries.map fun e => (.font e.1, e.2)

theorem image_mem_declared {t : AssetTable} :
    (.image file, id) ∈ t.declared ↔ t.images.get? id = some file := by
  rw [Table.get?_eq_some_iff]
  simp [declared]

theorem font_mem_declared {t : AssetTable} :
    (.font key, id) ∈ t.declared ↔ t.fonts.get? key = some id := by
  rw [Table.get?_eq_some_iff]
  simp [declared]

theorem exists_imageId (h : (ofProject p).images.get? id = some file) :
    id = Asset.imageId file ∧ ∃ ref, p.Refers ref (.image file) := by
  have hmem := Table.mem_of_mem_ofList (Table.get?_eq_some_iff.1 h)
  obtain ⟨⟨ref, f⟩, href, heq⟩ := List.mem_map.1 hmem
  obtain ⟨rfl, rfl⟩ := Prod.mk.inj heq
  exact ⟨rfl, ref, Project.mem_imageRefs.1 href⟩

/-- No two assets are declared under one id. -/
theorem declared_inj {a b : Asset} (ha : (a, id) ∈ (ofProject p).declared)
    (hb : (b, id) ∈ (ofProject p).declared) : a = b := by
  have hdistinct : ∀ file key, (ofProject p).images.get? id = some file →
      (ofProject p).fonts.get? key ≠ some id := by
    intro file key himage hfont
    obtain ⟨n, -, hid⟩ := exists_fontId hfont
    exact Asset.imageId_ne_fontId file key (n + 1) ((exists_imageId himage).1.symm.trans hid)
  cases a with
  | image file =>
    rw [image_mem_declared] at ha
    cases b with
    | image file' =>
      rw [image_mem_declared, ha] at hb
      rw [Option.some.inj hb]
    | font key => exact absurd (font_mem_declared.1 hb) (hdistinct file key ha)
  | font key =>
    rw [font_mem_declared] at ha
    cases b with
    | image file => exact absurd ha (hdistinct file key (image_mem_declared.1 hb))
    | font key' =>
      rw [font_mem_declared] at hb
      exact congrArg Asset.font (numberFonts_inj ha hb)

/-- A text that refers to a font gives way to the id of the font. -/
theorem idOf?_font (h : p.Refers ref (.font key)) :
    ∃ id, (ofProject p).idOf? ref = some id ∧ (.font key, id) ∈ (ofProject p).declared := by
  obtain ⟨id, hid⟩ : ∃ id, (ofProject p).fonts.get? key = some id :=
    exists_number (List.mem_map_of_mem (Project.mem_fontRefs.2 h))
  have hmem : (ref, id) ∈ fontIds p := mem_fontIds.2 ⟨key, h, hid⟩
  obtain ⟨id', hget⟩ := Table.exists_get?_ofList (List.mem_map_of_mem hmem)
  obtain ⟨key', hkey', hid'⟩ :=
    mem_fontIds.1 (Table.mem_of_mem_ofList (Table.get?_eq_some_iff.1 hget))
  obtain rfl : key' = key := Asset.font.inj (h.eq_of_isImage hkey' rfl)
  obtain rfl : id' = id := Option.some.inj (hid'.symm.trans hid)
  refine ⟨id', ?_, font_mem_declared.2 hid⟩
  rw [idOf?, h.exists_key.1, ofProject_eq]
  dsimp only
  rw [Table.get?_ofList_append, hget, Option.some_or]

/-- Any other text that refers to an image gives way to the id of the image. -/
theorem idOf?_image (h : p.Refers ref (.image file)) (hno : ∀ key, ¬ p.Refers ref (.font key)) :
    (ofProject p).idOf? ref = some (Asset.imageId file) := by
  have hfonts : (Table.ofList (fontIds p)).get? ref = none := by
    rw [Option.eq_none_iff_forall_ne_some]
    intro id hget
    obtain ⟨key, hkey, -⟩ :=
      mem_fontIds.1 (Table.mem_of_mem_ofList (Table.get?_eq_some_iff.1 hget))
    exact hno key hkey
  have hmem : (ref, Asset.imageId file) ∈ imageIds p := mem_imageIds.2 ⟨file, h, rfl⟩
  obtain ⟨id, hget⟩ := Table.exists_get?_ofList (List.mem_map_of_mem hmem)
  obtain ⟨file', hfile', rfl⟩ :=
    mem_imageIds.1 (Table.mem_of_mem_ofList (Table.get?_eq_some_iff.1 hget))
  obtain rfl : file' = file := Asset.image.inj (h.eq_of_isImage hfile' rfl)
  rw [idOf?, h.exists_key.1, ofProject_eq]
  dsimp only
  rw [Table.get?_ofList_append, hfonts, Option.none_or, hget]

/-- Under the id of an image an image is declared whose file is plainly the same. -/
theorem exists_declared_image (h : p.Refers ref (.image file)) :
    ∃ ref' file', p.Refers ref' (.image file') ∧
      Identifier.plain file' = Identifier.plain file ∧
      (.image file', Asset.imageId file) ∈ (ofProject p).declared := by
  have hmem := List.mem_map_of_mem (f := fun e : String × String => (Asset.imageId e.2, e.2))
    (Project.mem_imageRefs.2 h)
  obtain ⟨file', hget⟩ := Table.exists_get?_ofList (List.mem_map_of_mem hmem)
  obtain ⟨hid, ref', href'⟩ := exists_imageId hget
  exact ⟨ref', file', href', (Asset.plain_of_imageId hid).symm, image_mem_declared.2 hget⟩

theorem exists_idOf? {a : Asset} (h : p.Refers ref a) :
    ∃ id b, (ofProject p).idOf? ref = some id ∧ (b, id) ∈ (ofProject p).declared ∧
      p.MayShow ref a b := by
  cases a with
  | font key =>
    obtain ⟨id, hid, hmem⟩ := idOf?_font h
    exact ⟨id, .font key, hid, hmem, rfl⟩
  | image file =>
    by_cases hfont : ∃ key, p.Refers ref (.font key)
    · obtain ⟨key, hkey⟩ := hfont
      obtain ⟨id, hid, hmem⟩ := idOf?_font hkey
      exact ⟨id, .font key, hid, hmem, hkey⟩
    · obtain ⟨ref', file', href', hplain, hmem⟩ := exists_declared_image h
      have hid := idOf?_image h (not_exists.1 hfont)
      exact ⟨_, .image file', hid, hmem, ⟨ref', href'⟩, hplain⟩

end AssetTable

/-! ## Entries -/

/-- The entry of an asset with the id. -/
def Asset.entry (options : Options) (id : String) : Asset → Node
  | .image file => .map [("file", .str (options.assetPath file)), ("id", .ident id)]
  | .font key =>
    .map [("file", .str (options.assetPath key.file)), ("id", .ident id), ("size", .int key.size)]

theorem Asset.declaredId?_entry (options : Options) (id : String) (a : Asset) :
    (a.entry options id).declaredId? = some id := by
  cases a <;> rfl

namespace AssetTable

theorem nodes_eq (t : AssetTable) (options : Options) :
    t.imageNodes options ++ t.fontNodes options =
      t.declared.map fun e => e.1.entry options e.2 := by
  unfold imageNodes fontNodes declared
  rw [List.map_append, List.map_map, List.map_map]
  rfl

theorem nodup_declared (t : AssetTable) : t.declared.Nodup := by
  have himages : t.images.entries.Nodup := .of_map _ t.images.nodup_keys
  have hfonts : t.fonts.entries.Nodup := .of_map _ t.fonts.nodup_keys
  refine List.nodup_append.2 ⟨himages.map ?_, hfonts.map ?_, ?_⟩
  · rintro ⟨id, file⟩ ⟨id', file'⟩ heq
    simpa [and_comm] using heq
  · rintro ⟨key, id⟩ ⟨key', id'⟩ heq
    simpa using heq
  · intro x hx y hy heq
    obtain ⟨e, -, rfl⟩ := List.mem_map.1 hx
    obtain ⟨e', -, rfl⟩ := List.mem_map.1 hy
    cases (Prod.mk.inj heq).1

/-- Each id is declared once. -/
theorem nodup_declaredIds (p : Project) (options : Options) :
    (((ofProject p).imageNodes options ++ (ofProject p).fontNodes options).map
      Node.declaredId?).Nodup := by
  rw [nodes_eq, List.map_map]
  refine List.Nodup.map_on ?_ (nodup_declared _)
  rintro ⟨a, id⟩ ha ⟨b, id'⟩ hb heq
  rw [Function.comp_apply, Function.comp_apply, Asset.declaredId?_entry,
    Asset.declaredId?_entry] at heq
  obtain rfl := Option.some.inj heq
  rw [declared_inj ha hb]

/-- Every reference gives way to the id of one entry. The entry names the file, and the size of
a font, unless the reference is to an image that is not told from another asset. References
that are told from all others and name different assets have different ids. -/
theorem references_name_files (p : Project) (options : Options) :
    let t := ofProject p
    let entries := t.imageNodes options ++ t.fontNodes options
    (∀ ref a, p.Refers ref a → ∃ id b, t.idOf? ref = some id ∧
      entries.countP (fun entry => entry.declaredId? = some id) = 1 ∧
      b.entry options id ∈ entries ∧ p.MayShow ref a b) ∧
    ∀ ref a ref' a', p.Refers ref a → p.Refers ref' a' → p.IsClear ref a → p.IsClear ref' a' →
      t.idOf? ref = t.idOf? ref' → a = a' := by
  intro t entries
  constructor
  · intro ref a h
    obtain ⟨id, b, hid, hmem, hshow⟩ := exists_idOf? h
    have hentry : b.entry options id ∈ entries := by
      rw [show entries = _ from nodes_eq t options]
      exact List.mem_map_of_mem hmem
    refine ⟨id, b, hid, ?_, hentry, hshow⟩
    have hcount := countP_eq_one_of_nodup_map (nodup_declaredIds p options) hentry
    rwa [Asset.declaredId?_entry] at hcount
  · intro ref a ref' a' h h' hclear hclear' heq
    obtain ⟨id, b, hid, hmem, hshow⟩ := exists_idOf? h
    obtain ⟨id', b', hid', hmem', hshow'⟩ := exists_idOf? h'
    obtain rfl : id = id' := Option.some.inj (hid.symm.trans (heq.trans hid'))
    calc
      a = b := (hclear b hshow).symm
      _ = b' := declared_inj hmem hmem'
      _ = a' := hclear' b' hshow'

/-- Two images whose files are plainly the same. -/
def album : Project :=
  let image (id src : String) : Widget :=
    ⟨id, "image", 0, 0, 100, 50, none, Table.empty.insert "src" (.string src), .empty, .empty,
      .empty⟩
  { Project.empty with
    pages := [⟨"main", none, none, [image "a" "asset:a b.png", image "b" "asset:a_b.png"]⟩] }

/-- One of the files has no entry, and its reference is to the entry of the other. -/
theorem images_share_id :
    album.Refers "asset:a b.png" (.image "a b.png") ∧
    album.Refers "asset:a_b.png" (.image "a_b.png") ∧
    (ofProject album).idOf? "asset:a b.png" = some "asset_a_b_png" ∧
    (ofProject album).idOf? "asset:a_b.png" = some "asset_a_b_png" ∧
    (ofProject album).declared = [(.image "a_b.png", "asset_a_b_png")] := by
  decide +kernel

end AssetTable

end TouchPanel
