import Mathlib.Data.List.Forall2

/-!
# Lists related element by element

What two-run proofs need of `List.Forall₂`: related lists have related elements at each place, find
the same place with tests that agree on related elements, and stay related when elements at one
place are changed to related ones.
-/

namespace List.Forall₂

variable {α β : Type} {R : α → β → Prop} {xs : List α} {ys : List β} {i : Nat}

theorem getElem? {x : α} (h : Forall₂ R xs ys) (hx : xs[i]? = some x) :
    ∃ y, ys[i]? = some y ∧ R x y := by
  induction h generalizing i with
  | nil => cases hx
  | cons hr _ ih =>
    cases i with
    | zero =>
      cases hx
      exact ⟨_, rfl, hr⟩
    | succ i => exact ih hx

theorem getElem?_none (h : Forall₂ R xs ys) (hx : xs[i]? = none) : ys[i]? = none := by
  rw [getElem?_eq_none_iff] at hx ⊢
  rwa [← h.length_eq]

theorem findIdx? {p : α → Bool} {q : β → Bool} (h : Forall₂ R xs ys)
    (hpq : ∀ x y, R x y → p x = q y) : xs.findIdx? p = ys.findIdx? q := by
  induction h with
  | nil => rfl
  | cons hr _ ih => simp only [findIdx?_cons, hpq _ _ hr, ih]

theorem modify {f : α → α} {g : β → β} (h : Forall₂ R xs ys)
    (hfg : ∀ x y, xs[i]? = some x → R x y → R (f x) (g y)) :
    Forall₂ R (xs.modify i f) (ys.modify i g) := by
  induction h generalizing i with
  | nil => simp
  | cons hr hrs ih =>
    cases i with
    | zero => exact .cons (hfg _ _ rfl hr) hrs
    | succ i => exact .cons hr (ih fun x y hx => hfg x y hx)

theorem map {f : α → α} {g : β → β} (h : Forall₂ R xs ys) (hfg : ∀ x y, R x y → R (f x) (g y)) :
    Forall₂ R (xs.map f) (ys.map g) :=
  rel_map (fun _ _ hr => hfg _ _ hr) h

end List.Forall₂
