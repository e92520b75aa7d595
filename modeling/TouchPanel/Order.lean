/-!
# Orders of composite keys

Pairs are ordered by their first component and then by their second. A composite
key takes the order of its image under an injective function.
-/

namespace TouchPanel.Order

open Std

variable {α β γ : Type}

/-- The order on pairs that looks at the first component first. -/
abbrev pair [Ord β] [Ord γ] : Ord (β × γ) := lexOrd

/-- The order of the images under `f`. -/
abbrev image (order : Ord β) (f : α → β) : Ord α := ⟨fun a b => order.compare (f a) (f b)⟩

theorem transOrd_image (order : Ord β) [TransOrd β] (f : α → β) :
    @TransOrd α (image order f) :=
  letI := image order f
  { eq_swap := by intro a b; exact @OrientedCmp.eq_swap _ order.compare _ (f a) (f b)
    isLE_trans := by
      intro a b c
      exact @TransCmp.isLE_trans _ order.compare _ (f a) (f b) (f c) }

theorem lawfulEqOrd_image (order : Ord β) [LawfulEqOrd β] {f : α → β}
    (hf : ∀ a b, f a = f b → a = b) : @LawfulEqOrd α (image order f) :=
  letI := image order f
  { compare_self := by intro a; exact @ReflCmp.compare_self _ order.compare _ (f a)
    eq_of_compare := by
      intro a b h
      exact hf a b (@LawfulEqCmp.eq_of_compare _ order.compare _ (f a) (f b) h) }

end TouchPanel.Order
