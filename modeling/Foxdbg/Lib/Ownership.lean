import Foxdbg.Lib.Prog
import Mathlib.Algebra.Order.Group.Multiset
import Mathlib.Algebra.Order.Sub.Unbundled.Basic
import Mathlib.Data.Multiset.UnionInter

/-!
# Programs that own things

A `Ledger` says what an operation takes from the things that are held, and what its answer gives:
`free` takes a block, `malloc` gives one. `exec` runs a program with the answers of its environment;
an operation that takes a thing that is not held is undefined.

`Owns answer i h p Q` is about a program alone: with the answers from the `i`-th one on, and with
the things `h` of its own, it takes no others, and `Q` holds at its end. `Owns.bind` is the rule for
sequences, `Owns.frame` adds things that the program leaves alone.

* `Owns.exec`: whatever else is held, the program is not undefined, and leaves the rest as it is.
-/

/-- What operations take and give (module doc). -/
structure Ledger (O : Type) (R : O → Type) (ρ : Type) where
  takes : O → Multiset ρ
  gives : (o : O) → R o → Multiset ρ

namespace Ledger

/-- A program ends with an undefined operation, or with a result and the things that are held. -/
inductive Ending (ρ α : Type) where
  | undefined
  | returned (a : α) (held : Multiset ρ)

variable {O : Type} {R : O → Type} {ρ α β : Type} [DecidableEq ρ] (L : Ledger O R ρ)
  (answer : Nat → (o : O) → R o)

/-- Runs a program with the answers of the environment from the `i`-th one on. `none`: an answer
gives a thing that is held already. -/
def exec : Nat → Multiset ρ → Prog O R α → Option (Ending ρ α)
  | _, held, .ret a => some (.returned a held)
  | i, held, .op o k =>
    if L.takes o ≤ held then
      if (held - L.takes o + L.gives o (answer i o)).Nodup then
        exec (i + 1) (held - L.takes o + L.gives o (answer i o)) (k (answer i o))
      else none
    else some .undefined

/-- What a program does with things of its own (module doc). -/
def Owns : Nat → Multiset ρ → Prog O R α → (Nat → α → Multiset ρ → Prop) → Prop
  | i, h, .ret a, Q => Q i a h
  | i, h, .op o k, Q => L.takes o ≤ h ∧
      Owns (i + 1) (h - L.takes o + L.gives o (answer i o)) (k (answer i o)) Q

variable {L answer} {i : Nat} {h : Multiset ρ} {Q : Nat → α → Multiset ρ → Prop} {p : Prog O R α}

/-- An operation on things of its own leaves the others. -/
theorem sub_frame {t g : Multiset ρ} (h : Multiset ρ) (F : Multiset ρ) (ht : t ≤ h) :
    h + F - t + g = h - t + g + F := by
  rw [← tsub_add_eq_add_tsub ht, add_right_comm]

namespace Owns

theorem mono {Q' : Nat → α → Multiset ρ → Prop} (hp : L.Owns answer i h p Q)
    (hq : ∀ j a h, Q j a h → Q' j a h) : L.Owns answer i h p Q' := by
  induction p generalizing i h with
  | ret a => exact hq i a h hp
  | op o k ih => exact ⟨hp.1, ih _ hp.2⟩

/-- **Sequences.** The second program starts with the things of the first. -/
theorem bind {Q' : Nat → β → Multiset ρ → Prop} {f : α → Prog O R β}
    (hp : L.Owns answer i h p Q) (hf : ∀ j a h, Q j a h → L.Owns answer j h (f a) Q') :
    L.Owns answer i h (p >>= f) Q' := by
  induction p generalizing i h with
  | ret a => exact hf i a h hp
  | op o k ih => exact ⟨hp.1, ih _ hp.2⟩

/-- **Frames.** With more things of its own, a program leaves them alone. -/
theorem frame (hp : L.Owns answer i h p Q) (F : Multiset ρ) :
    L.Owns answer i (h + F) p fun j a h' => ∃ h₁, h' = h₁ + F ∧ Q j a h₁ := by
  induction p generalizing i h with
  | ret a => exact ⟨h, rfl, hp⟩
  | op o k ih =>
    refine ⟨hp.1.trans (Multiset.le_add_right h F), ?_⟩
    rw [sub_frame h F hp.1]
    exact ih _ hp.2

/-- **Executions.** Whatever else is held, the program is not undefined, and leaves it as it is. -/
theorem exec (hp : L.Owns answer i h p Q) (F : Multiset ρ) {e : Ending ρ α}
    (he : L.exec answer i (h + F) p = some e) :
    ∃ j a h', e = .returned a (h' + F) ∧ Q j a h' := by
  induction p generalizing i h with
  | ret a =>
    cases he
    exact ⟨i, a, h, rfl, hp⟩
  | op o k ih =>
    obtain ⟨htakes, hrest⟩ := hp
    rw [Ledger.exec, if_pos (htakes.trans (Multiset.le_add_right h F)),
      Option.ite_none_right_eq_some] at he
    rw [sub_frame h F htakes] at he
    exact ih _ hrest he.2

end Owns

/-- The things that are held stay different. -/
theorem exec_nodup {held held' : Multiset ρ} {a : α}
    (he : L.exec answer i held p = some (.returned a held')) (hnodup : held.Nodup) :
    held'.Nodup := by
  induction p generalizing held i with
  | ret a =>
    cases he
    exact hnodup
  | op o k ih =>
    rw [exec] at he
    split at he
    · rw [Option.ite_none_right_eq_some] at he
      exact ih _ he.2 he.1
    · cases he

/-- Answers that give nothing are possible. -/
theorem exec_isSome {held : Multiset ρ} (hp : p.All fun o => ∀ r, L.gives o r = 0)
    (hnodup : held.Nodup) : (L.exec answer i held p).isSome := by
  induction p generalizing held i with
  | ret a => rfl
  | op o k ih =>
    have hrest : (held - L.takes o + L.gives o (answer i o)).Nodup := by
      rw [hp.1, add_zero]
      exact Multiset.nodup_of_le (Multiset.sub_le_self held (L.takes o)) hnodup
    rw [exec, if_pos hrest]
    split
    · exact ih _ (hp.2 _) hrest
    · rfl

end Ledger
