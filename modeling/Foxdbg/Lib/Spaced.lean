import Mathlib.Data.List.Basic

/-!
# Events with a least gap

`Spaced g xs`: each time in the list is at least `g` later than every time before it. A window of
`n * g` or less holds at most `n` such times (`Spaced.countP_window`), which is how a least gap
bounds a rate.
-/

/-- Each time is at least `g` after the ones before it. -/
def Spaced (g : ℕ) (xs : List ℕ) : Prop := xs.Pairwise fun a b => a + g ≤ b

namespace Spaced

variable {g n first last x : ℕ} {xs : List ℕ}

theorem nil : Spaced g [] := List.Pairwise.nil

theorem filter (h : Spaced g xs) (p : ℕ → Bool) : Spaced g (xs.filter p) := List.Pairwise.filter p h

/-- One more time at the end. -/
theorem snoc (h : Spaced g xs) (hx : ∀ a ∈ xs, a + g ≤ x) : Spaced g (xs ++ [x]) :=
  List.pairwise_append.mpr
    ⟨h, List.pairwise_singleton _ _, fun a ha _ hb => List.mem_singleton.mp hb ▸ hx a ha⟩

/-- Between `first` and `first + n * g` there are at most `n` times. -/
theorem length_le (h : Spaced g xs) (hwindow : ∀ a ∈ xs, first ≤ a ∧ a < last)
    (hlast : last ≤ first + n * g) : xs.length ≤ n := by
  induction xs generalizing first n with
  | nil => exact Nat.zero_le n
  | cons a rest ih =>
    obtain ⟨hgap, hrest⟩ := List.pairwise_cons.mp h
    obtain ⟨ha, hrestWindow⟩ := List.forall_mem_cons.mp hwindow
    cases n with
    | zero => omega
    | succ n =>
      have hlater : ∀ b ∈ rest, first + g ≤ b ∧ b < last := by
        intro b hb
        have hb₁ := hgap b hb
        have hb₂ := hrestWindow b hb
        omega
      refine Nat.succ_le_succ (ih hrest hlater ?_)
      rw [Nat.succ_mul] at hlast
      omega

/-- **Windows.** A window no longer than `n` gaps holds at most `n` times. -/
theorem countP_window (h : Spaced g xs) {window : ℕ} (hwindow : window ≤ n * g) (first : ℕ) :
    xs.countP (fun a => first ≤ a ∧ a < first + window) ≤ n := by
  rw [List.countP_eq_length_filter]
  have hin : ∀ a ∈ xs.filter fun a => first ≤ a ∧ a < first + window,
      first ≤ a ∧ a < first + window := by
    intro a ha
    simpa using (List.mem_filter.mp ha).2
  exact (h.filter _).length_le hin (by omega)

end Spaced
