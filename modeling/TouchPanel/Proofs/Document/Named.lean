import TouchPanel.Proofs.Document.Order

/-!
# Sections of one key

Of the sections of a key a document has those of the filled recipe in their order, and the
generated one. The first `esphome` and the first `api` are changed, so they are left out here.
-/

namespace TouchPanel.Document

open Text Recipe

variable {d : Device} {t : Text} {f : Fragments} {key : Text} {ss : List Section}

/-! ## Sections of a text -/

/-- The sections of a text that have the key, without carriage returns at the ends of
their lines. -/
def sectionsNamed (key t : Text) : List Section := (named key (Section.split t)).map Section.bare

theorem sectionsNamed_eq (key t : Text) :
    sectionsNamed key t = (named key (keyedOf (lines t))).map Section.bare := by
  rw [sectionsNamed, named_split]

theorem sectionsNamed_eq_bareLines (key t : Text) :
    sectionsNamed key t = named key (keyedOf (bareLines t)) := by
  rw [sectionsNamed_eq, ← named_bare, ← keyedOf_bare, bareLines]

theorem named_filter_isSome (key : Text) (ss : List Section) :
    named key (ss.filter (·.key.isSome)) = named key ss := by
  rw [named, List.filter_filter]
  refine List.filter_congr fun s _ => ?_
  cases s.key with
  | none => rfl
  | some key => exact Bool.and_true _

theorem named_foldl_takeSection {names : List String} (hnodup : (names.map String.toList).Nodup)
    (key : Text) (ss : List Section) :
    named key (names.foldl (fun ss name => (takeSection name ss).2) ss) =
      if key ∈ names.map String.toList then (named key ss).tail else named key ss := by
  induction names generalizing ss with
  | nil => rfl
  | cons name names ih =>
    obtain ⟨hname, hnames⟩ := List.nodup_cons.1 hnodup
    rw [List.foldl_cons, ih hnames]
    by_cases hkey : key = name.toList
    · rw [hkey, if_neg hname, List.map_cons, if_pos List.mem_cons_self, named_takeSection_self]
    · rw [named_takeSection_of_ne hkey]
      simp only [List.map_cons, List.mem_cons, hkey, false_or]

theorem named_others (key : Text) (ss : List Section) :
    named key ((others ss).filter (·.key.isSome)) =
      if key ∈ ["esphome", "api", "wifi", "ota"].map String.toList then (named key ss).tail
      else named key ss := by
  rw [named_filter_isSome]
  exact named_foldl_takeSection (by decide) key ss

end TouchPanel.Document
