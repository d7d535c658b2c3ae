import Mathlib.Data.List.Forall2

/-!
Programs that stop at the first error: what is known of the steps when the whole succeeded.
-/

namespace Dyx3.Lib

universe u

variable {ε : Type*} {α β : Type u}

theorem bind_ok {x : Except ε α} {f : α → Except ε β} {b : β} (h : (x >>= f) = .ok b) : ∃ a, x = .ok a ∧ f a = .ok b := by
  cases x with
  | error err => cases h
  | ok a => exact ⟨a, rfl, h⟩

theorem mapM_ok {f : α → Except ε β} {items : List α} {results : List β} :
    items.mapM f = .ok results ↔ List.Forall₂ (fun item result => f item = .ok result) items results := by
  induction items generalizing results with
  | nil =>
    rw [List.mapM_nil, List.forall₂_nil_left_iff]
    exact ⟨fun h => by cases h; rfl, fun h => by rw [h]; rfl⟩
  | cons item items ih =>
    rw [List.mapM_cons, List.forall₂_cons_left_iff]
    constructor
    · intro h
      obtain ⟨first, here, h⟩ := bind_ok h
      obtain ⟨rest, later, h⟩ := bind_ok h
      cases h
      exact ⟨first, rest, here, ih.mp later, rfl⟩
    · rintro ⟨first, rest, here, later, rfl⟩
      rw [here, ih.mpr later]
      rfl

end Dyx3.Lib
