import Mathlib.Algebra.Ring.Parity
import Mathlib.Logic.Function.Iterate

/-!
# Flip buffers

A flip buffer has a front, which readers see, and a back, which a writer fills; a flip exchanges
them. A write call fills the back and flips once. When several calls overlap, several fills can
come before the flips, and what a reader sees depends only on the parity of the flips after the
last fill (`front_fill_flips`): an odd number brings the last fill to the front, an even number
brings back what was there before it.
-/

/-- A front for readers and a back for writers. -/
structure Flip (α : Type) where
  front : α
  back : α

namespace Flip

variable {α β : Type}

/-- A writer fills the back. -/
def fill (f : Flip α) (x : α) : Flip α := { f with back := x }

/-- The front and the back change places. -/
def flip (f : Flip α) : Flip α := ⟨f.back, f.front⟩

@[simp] theorem front_fill (f : Flip α) (x : α) : (f.fill x).front = f.front := rfl
@[simp] theorem back_fill (f : Flip α) (x : α) : (f.fill x).back = x := rfl
@[simp] theorem front_flip (f : Flip α) : f.flip.front = f.back := rfl
@[simp] theorem back_flip (f : Flip α) : f.flip.back = f.front := rfl
@[simp] theorem flip_flip (f : Flip α) : f.flip.flip = f := rfl

theorem involutive_flip : Function.Involutive (@flip α) := flip_flip

theorem flips_even {n : Nat} (h : Even n) (f : Flip α) : flip^[n] f = f :=
  congrFun (involutive_flip.iterate_even h) f

theorem flips_odd {n : Nat} (h : Odd n) (f : Flip α) : flip^[n] f = f.flip :=
  congrFun (involutive_flip.iterate_odd h) f

/-- **Parity of flips.** After a fill, an odd number of flips brings it to the front, and an even
number brings back what was there before it. -/
theorem front_flips_fill (f : Flip α) (x : α) (n : Nat) :
    (flip^[n] (f.fill x)).front = x ↔ Odd n ∨ f.front = x := by
  by_cases h : Even n
  · simp [flips_even h, h]
  · have hn : Odd n := Nat.not_even_iff_odd.mp h
    simp [flips_odd hn, hn]

/-- After a fill and `n + 1` flips, the front is the fill exactly if `n` is even, or the front held
an equal value before the fill. -/
theorem front_fill_flips (f : Flip α) (x : α) (n : Nat) :
    (flip^[n + 1] (f.fill x)).front = x ↔ Even n ∨ f.front = x := by
  rw [front_flips_fill, Nat.odd_add_one, Nat.not_odd_iff_even]

end Flip
