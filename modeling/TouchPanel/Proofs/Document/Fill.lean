import TouchPanel.Proofs.Fragments
import TouchPanel.Proofs.Recipe.Insert

/-!
# Filling a recipe

The pages go to an indented insertion point and open no section there. The sections of
inbound data that a recipe does not have go to an insertion point at the margin.
-/

namespace TouchPanel.Document

open Text Recipe

/-- A line that stands below a key: it is blank, a comment, or indented. -/
def isBelowKey (l : Text) : Bool := allBlank l || isComment l || !(leadingBlanks l).isEmpty

/-- A recipe in which nothing can be taken for a section that is none. -/
structure IsRegular (d : Device) (t : Text) (f : Fragments) : Prop where
  device : IsLineText d.deviceId ∧ IsLineText d.slug
  below : ∀ name ∈ ["esphome", "api"], ∀ s ∈ (takeSection name (Section.split t)).1,
    ∀ l ∈ s.lines.drop 1, isBelowKey l = true
  placeholders : ∀ l ∈ lines t, isInner l = false →
    occurs deviceNamePlaceholder l = false ∧ occurs apiKeyPlaceholder l = false
  pages : ∀ m ∈ (lines t).find? (isMarkerLine pagesMarker), leadingBlanks m ≠ []
  bindings : ∀ m ∈ (lines t).find? (isMarkerLine bindingsMarker), leadingBlanks m = []
  free : ∀ l ∈ lines (f.lvgl.render 0), isMarkerLine bindingsMarker l = false

/-- The lines of the pages with the indentation of their insertion point. -/
def pagesBlock (f : Fragments) (m : Text) : List Text :=
  (lines (dropEndWhile (· == '\n') (f.lvgl.render 0))).map fun l => bare (indentLike m l)

/-- The recipe with the pages. -/
def paged (t : Text) (f : Fragments) : Text :=
  (replaceMarker? pagesMarker (f.lvgl.render 0) t).getD t

/-- The sections of inbound data that the recipe does not have. -/
def fresh (t : Text) (f : Fragments) : List (String × List Node) :=
  f.sensors.filter fun s => !hasSection t s.1.toList

variable {d : Device} {t : Text} {f : Fragments}

theorem mem_keysOf {ls : List Text} {key : Text} :
    key ∈ keysOf ls ↔ ∃ l ∈ ls, topLevelKey? l = some key := List.mem_filterMap

theorem hasSection_iff {t key : Text} : hasSection t key = true ↔ key ∈ keysOf (lines t) := by
  simp [hasSection, mem_keysOf]

theorem fresh_sublist (t : Text) (f : Fragments) : (fresh t f).Sublist f.sensors :=
  List.filter_sublist

theorem isGenerated_fresh (hf : f.IsWritable) : ∀ s ∈ fresh t f, IsGenerated s := fun s hs =>
  hf.sensors s ((fresh_sublist t f).subset hs)

theorem nodup_names_fresh (hf : f.IsWritable) : ((fresh t f).map (·.1)).Nodup :=
  (((fresh_sublist t f).map _).trans hf.sensor_names).nodup (by decide)

theorem ofList_fresh (hf : f.IsWritable) :
    Mapping.ofList ((fresh t f).map fun s => (s.1, Node.list s.2)) =
      (fresh t f).map fun s => (s.1, Node.list s.2) := by
  refine Mapping.ofList_of_nodup ?_
  have hnodup := nodup_names_fresh (t := t) hf
  rwa [Mapping.keys, List.map_map]

/-- Filling a text puts the pages in and then the sections of inbound data that are missing. -/
theorem fill_eq_paged (t : Text) (f : Fragments) :
    fill t f =
      let missing := fresh (paged t f) f
      let filled := replaceMarker? bindingsMarker
        ((Mapping.ofList (missing.map fun s => (s.1, Node.list s.2))).render 0) (paged t f)
      { text := filled.getD (paged t f)
        existing := f.sensors.filter fun s => hasSection (paged t f) s.1.toList
        left := if filled.isSome then [] else missing
        diagnostics := if (replaceMarker? pagesMarker (f.lvgl.render 0) t).isSome then []
          else [.missingPagesMarker] } := by
  have hpaged : paged t f = (replaceMarker? pagesMarker (f.lvgl.render 0) t).getD t := rfl
  unfold fill
  cases hpages : replaceMarker? pagesMarker (f.lvgl.render 0) t with
  | none | some =>
    rw [hpages] at hpaged
    dsimp only [Option.getD_none, Option.getD_some] at hpaged ⊢
    have hmissing : ∀ t, f.sensors.filter (fun s => !hasSection t s.1.toList) = fresh t f :=
      fun _ => rfl
    rw [hpaged, List.partition_eq_filter_filter]
    dsimp only [Function.comp_def]
    rw [hmissing]
    generalize replaceMarker? bindingsMarker _ _ = filled
    cases filled <;> rfl

theorem indentLike_of_margin {m : Text} (hm : leadingBlanks m = []) (l : Text) :
    indentLike m l = l := by
  unfold indentLike
  split
  · next hl => exact (List.isEmpty_iff.1 hl).symm
  · rw [hm, List.nil_append]

/-- A section of a recipe and what filling makes of it. The lines behind its insertion
point for inbound data may belong to another section then. -/
def Carries (f : Fragments) (gone : List Text) (s s' : Section) : Prop :=
  s'.key = s.key ∧ ∃ paged back, Rewrites pagesMarker (pagesBlock f) s.lines paged ∧
    paged.filter (!isMarkerLine bindingsMarker ·) = s'.lines ++ back ∧ back ⊆ gone

theorem keyedOf_sectionLines {ss : List (String × List Node)} (h : ∀ s ∈ ss, IsGenerated s) :
    keyedOf (ss.flatMap sectionLines) =
      ss.map fun s => ⟨some s.1.toList, sectionLines s⟩ := by
  have hlead : ∀ ss : List (String × List Node), (∀ s ∈ ss, IsGenerated s) →
      leadOf (ss.flatMap sectionLines) = [] := by
    intro ss h
    cases ss with
    | nil => rfl
    | cons s ss => exact leadOf_cons_key (h s List.mem_cons_self).topLevelKey? _
  induction ss with
  | nil => rfl
  | cons s ss ih =>
    obtain ⟨hs, hss⟩ := List.forall_mem_cons.1 h
    rw [List.flatMap_cons, hs.keyedOf_append, hlead ss hss, List.append_nil, ih hss, List.map_cons]

end TouchPanel.Document
