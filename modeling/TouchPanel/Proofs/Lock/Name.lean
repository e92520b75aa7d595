import Mathlib.Data.List.Chain
import TouchPanel.Lock
import TouchPanel.Proofs.Identifier

/-!
# Names of locks

A slug has no two underscores next to each other and none at either end. So the first two
underscores in a row behind the slug are those that part it from the widget, and a lock
belongs to one slug and one widget only.
-/

namespace TouchPanel

open Text

/-- Two characters of which at most one is an underscore. -/
def NotUnderscores (c d : Char) : Prop := ¬(c = '_' ∧ d = '_')

instance : DecidableRel NotUnderscores :=
  fun c d => inferInstanceAs (Decidable ¬(c = '_' ∧ d = '_'))

namespace Identifier

/-- What slugs look like. -/
structure IsSlug (t : Text) : Prop where
  chars : ∀ c ∈ t, isSlugChar c = true
  ne_nil : t ≠ []
  /-- No two underscores meet, not even with one more at either end. -/
  framed : ('_' :: t ++ ['_']).IsChain NotUnderscores

/-- Words with an underscore before each of them. -/
theorem isChain_words {ws : List Text} (h : ∀ w ∈ ws, w ≠ [] ∧ '_' ∉ w) :
    (ws.flatMap ('_' :: ·) ++ ['_']).IsChain NotUnderscores := by
  induction ws with
  | nil => exact .singleton _
  | cons w ws ih =>
    obtain ⟨⟨hne, hfree⟩, hws⟩ := List.forall_mem_cons.1 h
    have hword : ∀ c ∈ w, c ≠ '_' := fun c hc heq => hfree (heq ▸ hc)
    rw [List.flatMap_cons, List.append_assoc, List.cons_append]
    refine List.isChain_cons.2 ⟨fun c hc => ?_, List.isChain_append.2 ⟨?_, ih hws, ?_⟩⟩
    · rw [List.head?_append_of_ne_nil _ hne] at hc
      exact fun hboth => hword c (List.mem_of_mem_head? hc) hboth.2
    · refine (List.pairwise_of_forall_mem_list ?_).isChain
      exact fun c hc d _ hboth => hword c hc hboth.1
    · intro c hc d _ hboth
      exact hword c (List.mem_of_mem_getLast? hc) hboth.1

theorem isSlug_slug (reference : String) : IsSlug (slug reference).toList := by
  unfold slug
  dsimp only
  split
  · have hchars : "entity".toList.all isSlugChar = true := by decide
    exact ⟨List.all_eq_true.1 hchars, by decide, by decide⟩
  · next w ws hwords =>
    have hmem : ∀ x ∈ w :: ws, x ≠ [] ∧ ∀ c ∈ x, isSlugChar c = true ∧ c ≠ '_' := by
      intro x hx
      rw [← hwords, words, List.mem_filter] at hx
      refine ⟨by simpa using hx.2, fun c hc => ?_⟩
      simpa using mem_fields hx.1 c hc
    have hframe : '_' :: (w ++ ws.flatMap ('_' :: ·)) ++ ['_'] =
        (w :: ws).flatMap ('_' :: ·) ++ ['_'] := by
      rw [List.flatMap_cons, List.cons_append, List.cons_append, List.cons_append]
    rw [String.toList_ofList]
    refine ⟨?_, ?_, ?_⟩
    · have hword : ∀ x ∈ w :: ws, ∀ c ∈ x, isSlugChar c = true :=
        fun x hx c hc => ((hmem x hx).2 c hc).1
      intro c hc
      rcases List.mem_append.1 hc with hc | hc
      · exact hword w List.mem_cons_self c hc
      · obtain ⟨x, hx, hc⟩ := List.mem_flatMap.1 hc
        rcases List.mem_cons.1 hc with rfl | hc
        · rfl
        · exact hword x (List.mem_cons_of_mem _ hx) c hc
    · exact List.append_ne_nil_of_left_ne_nil (hmem w List.mem_cons_self).1 _
    · rw [hframe]
      refine isChain_words fun x hx => ?_
      exact ⟨(hmem x hx).1, fun hc => ((hmem x hx).2 _ hc).2 rfl⟩

end Identifier

/-- Nothing but the end of the longer text fits between it and two underscores. -/
theorem eq_nil_of_underscores {a c u v : Text} (h : (a ++ c ++ ['_']).IsChain NotUnderscores)
    (heq : '_' :: '_' :: u = c ++ '_' :: '_' :: v) : c = [] := by
  rw [List.append_assoc] at h
  have hchain : (c ++ ['_']).IsChain NotUnderscores := h.right_of_append
  match c with
  | [] => rfl
  | [d] =>
    obtain ⟨rfl, -⟩ := List.cons.inj heq
    exact absurd ⟨rfl, rfl⟩ (List.isChain_cons_cons.1 hchain).1
  | d :: e :: c =>
    obtain ⟨rfl, hrest⟩ := List.cons.inj heq
    obtain ⟨rfl, -⟩ := List.cons.inj hrest
    exact absurd ⟨rfl, rfl⟩ (List.isChain_cons_cons.1 hchain).1

/-- The first two underscores in a row part a text in one way only. -/
theorem append_underscores_inj {a b u v : Text} (ha : (a ++ ['_']).IsChain NotUnderscores)
    (hb : (b ++ ['_']).IsChain NotUnderscores)
    (h : a ++ '_' :: '_' :: u = b ++ '_' :: '_' :: v) : a = b ∧ u = v := by
  rcases List.append_eq_append_iff.1 h with ⟨c, rfl, hc⟩ | ⟨c, rfl, hc⟩
  · obtain rfl := eq_nil_of_underscores hb hc
    rw [List.append_nil]
    simpa using hc
  · obtain rfl := eq_nil_of_underscores ha hc
    rw [List.append_nil]
    simpa using hc.symm

namespace Lock

theorem toList_name (entity widgetId : String) : (name entity widgetId).toList =
    "etd_lock_".toList ++ ((Identifier.slug entity).toList ++ '_' :: '_' :: widgetId.toList) := by
  simp [name]

/-- Two locks are one if and only if their slugs and their widgets are the same. -/
theorem name_inj {entity entity' widgetId widgetId' : String} :
    name entity widgetId = name entity' widgetId' ↔
      Identifier.slug entity = Identifier.slug entity' ∧ widgetId = widgetId' := by
  constructor
  · intro h
    have hlists := congrArg String.toList h
    rw [toList_name, toList_name] at hlists
    have hchain := fun s => (Identifier.isSlug_slug s).framed.tail
    obtain ⟨hslug, hwidget⟩ := append_underscores_inj (hchain entity) (hchain entity')
      (List.append_cancel_left hlists)
    exact ⟨String.toList_inj.1 hslug, String.toList_inj.1 hwidget⟩
  · rintro ⟨hslug, rfl⟩
    rw [name, name, hslug]

/-- The underscore of the widget is not lost between those that part it from the slug. -/
example : name " Light.Kitchen" "_sw" = "etd_lock_light_kitchen___sw" := by decide

end Lock

end TouchPanel
