import Mathlib

/-!
# Lists joined by a separator

Two parts with a separator between them can be read back when the separator is not in the first
part.  In general a join has several readings, and they differ by a stretch between two
separators.
-/

namespace Headgate.Data

section
variable {α : Type*} {sep : α} {xs xs' ys ys' : List α}

/-- **Two readings of a join**: the same parts, or one reading splits at a later separator. -/
theorem joined_eq_iff : xs ++ sep :: ys = xs' ++ sep :: ys' ↔
    (xs = xs' ∧ ys = ys') ∨ (∃ zs, xs' = xs ++ sep :: zs ∧ ys = zs ++ sep :: ys') ∨
      ∃ zs, xs = xs' ++ sep :: zs ∧ ys' = zs ++ sep :: ys := by
  constructor
  · intro h
    rcases List.append_eq_append_iff.mp h with ⟨zs, hxs, hys⟩ | ⟨zs, hxs, hys⟩
    · cases zs with
      | nil =>
        cases hys
        exact .inl ⟨(List.append_nil xs ▸ hxs).symm, rfl⟩
      | cons z zs =>
        obtain ⟨rfl, htail⟩ := List.cons.inj hys
        exact .inr (.inl ⟨zs, hxs, htail⟩)
    · cases zs with
      | nil =>
        cases hys
        exact .inl ⟨List.append_nil xs' ▸ hxs, rfl⟩
      | cons z zs =>
        obtain ⟨rfl, htail⟩ := List.cons.inj hys
        exact .inr (.inr ⟨zs, hxs, htail⟩)
  · rintro (⟨rfl, rfl⟩ | ⟨zs, rfl, rfl⟩ | ⟨zs, rfl, rfl⟩) <;> simp

/-- The first separator of a join ends the first part. -/
theorem joined_inj (hx : sep ∉ xs) (hx' : sep ∉ xs') (h : xs ++ sep :: ys = xs' ++ sep :: ys') :
    xs = xs' ∧ ys = ys' := by
  rcases joined_eq_iff.mp h with hsame | ⟨zs, rfl, -⟩ | ⟨zs, rfl, -⟩
  · exact hsame
  · exact absurd (List.mem_append_right _ List.mem_cons_self) hx'
  · exact absurd (List.mem_append_right _ List.mem_cons_self) hx

end

end Headgate.Data
