import Mathlib.Data.List.Forall2
import Mathlib.Data.List.Induction

/-!
# Runs of a labelled transition system

A system is a partial step function: from a state, a label leads to at most one state. Labels
carry the choices of the environment (which thread moves, what a clock reads), so a list of labels
is one interleaving.

* `Lts.Run Q s es t`: the labels `es` lead from `s` to `t`, and every step of the run satisfies the
  step condition `Q`. `Lts.Reach`: a run with no condition.
* `Run.inv`: a property that every such step keeps holds at the end (the step lemma gives the run
  lemma). `Run.strengthen`: an invariant that gives the step condition turns a run into a
  conditional run.
* `Run.split`, `Run.snoc`: a run and the states in its middle.
* `Run.labels`: each step's label is one of the run's. `Run.history`: a property of the state and of
  the labels so far. `Run.back`: a property of the last state that each step carries back holds in
  every state of the run.
* `Run.rel`: two runs with related labels end in related states (the rule for two-run properties).
* `Run.simulates`: a relation that every step of one system keeps with a step of another makes each
  run of the one a run of the other.
* `collect`: what the steps of a run show to a function of the state and the label, in order.
* `exists_run`, `exists_reach`: runs that evaluation finds.
-/

/-- A labelled transition system (module doc). -/
structure Lts (σ ε : Type) where
  step : σ → ε → Option σ

namespace Lts

variable {σ ε : Type} {L : Lts σ ε} {Q Q' : σ → ε → σ → Prop}

/-- The labels `es` lead from one state to the other, by steps that satisfy `Q`. -/
inductive Run (L : Lts σ ε) (Q : σ → ε → σ → Prop) : σ → List ε → σ → Prop
  | nil (s : σ) : Run L Q s [] s
  | cons {s s₁ t : σ} {e : ε} {es : List ε} :
      L.step s e = some s₁ → Q s e s₁ → Run L Q s₁ es t → Run L Q s (e :: es) t

/-- No condition on a step. -/
def anyStep (_ : σ) (_ : ε) (_ : σ) : Prop := True

/-- A run with no condition on its steps. -/
abbrev Reach (L : Lts σ ε) : σ → List ε → σ → Prop := L.Run anyStep

/-- The state that the labels `es` lead to, if every step passes the test. -/
def exec (L : Lts σ ε) (q : σ → ε → σ → Bool) : σ → List ε → Option σ
  | s, [] => some s
  | s, e :: es => (L.step s e).bind fun s₁ => if q s e s₁ then L.exec q s₁ es else none

/-- What the steps that `es` leads through show, in order. -/
def collect {α : Type} (L : Lts σ ε) (f : σ → ε → Option α) : σ → List ε → List α
  | _, [] => []
  | s, e :: es => (f s e).toList ++ (L.step s e).elim [] fun s₁ => L.collect f s₁ es

/-- Labels of which no step shows anything. -/
theorem collect_eq_nil {α : Type} {f : σ → ε → Option α} {s : σ} {es : List ε}
    (h : ∀ s, ∀ e ∈ es, f s e = none) : L.collect f s es = [] := by
  induction es generalizing s with
  | nil => rfl
  | cons e es ih =>
    rw [collect, h s e List.mem_cons_self]
    cases L.step s e with
    | none => rfl
    | some s₁ => exact ih fun s e he => h s e (List.mem_cons_of_mem _ he)

namespace Run

theorem mono (h : ∀ s e t, Q s e t → Q' s e t) {s t : σ} {es : List ε} (hr : L.Run Q s es t) :
    L.Run Q' s es t := by
  induction hr with
  | nil s => exact .nil s
  | cons hs hq _ ih => exact .cons hs (h _ _ _ hq) ih

theorem reach {s t : σ} {es : List ε} (hr : L.Run Q s es t) : L.Reach s es t :=
  hr.mono fun _ _ _ _ => trivial

/-- The labels of the steps of a run. -/
theorem labels {s t : σ} {es : List ε} (hr : L.Run Q s es t) :
    L.Run (fun _ e _ => e ∈ es) s es t := by
  induction hr with
  | nil s => exact .nil s
  | cons hs _ _ ih =>
    exact .cons hs (List.mem_cons_self ..) (ih.mono fun _ _ _ h => List.mem_cons_of_mem _ h)

theorem append {s t u : σ} {es fs : List ε} (h₁ : L.Run Q s es t) (h₂ : L.Run Q t fs u) :
    L.Run Q s (es ++ fs) u := by
  induction h₁ with
  | nil s => exact h₂
  | cons hs hq _ ih => exact .cons hs hq (ih h₂)

/-- One more step at the end. -/
theorem snoc {s t u : σ} {es : List ε} {e : ε} (h : L.Run Q s es t) (hs : L.step t e = some u)
    (hq : Q t e u) : L.Run Q s (es ++ [e]) u :=
  h.append (.cons hs hq (.nil u))

/-- The state between two parts of a run. -/
theorem split {s u : σ} {es fs : List ε} (h : L.Run Q s (es ++ fs) u) :
    ∃ t, L.Run Q s es t ∧ L.Run Q t fs u := by
  induction es generalizing s with
  | nil => exact ⟨s, .nil s, h⟩
  | cons e es ih =>
    cases h with
    | cons hs hq hr =>
      obtain ⟨t, h₁, h₂⟩ := ih hr
      exact ⟨t, .cons hs hq h₁, h₂⟩

/-- What one more step shows comes last. -/
theorem collect_snoc {α : Type} {f : σ → ε → Option α} {s t : σ} {es : List ε}
    (h : L.Run Q s es t) (e : ε) :
    L.collect f s (es ++ [e]) = L.collect f s es ++ (f t e).toList := by
  induction h with
  | nil s => cases hs : L.step s e <;> simp [collect, hs]
  | cons hs _ _ ih => simp [collect, hs, ih]

/-- What two runs show, one after the other. -/
theorem collect_append {α : Type} {f : σ → ε → Option α} {s t : σ} {es : List ε}
    (h : L.Run Q s es t) (fs : List ε) :
    L.collect f s (es ++ fs) = L.collect f s es ++ L.collect f t fs := by
  induction h with
  | nil s => rfl
  | cons hs _ _ ih => simp [collect, hs, ih]

/-- **The run rule.** What every step satisfying `Q` keeps, a run of such steps keeps. -/
theorem inv {I : σ → Prop} (hstep : ∀ s e t, L.step s e = some t → Q s e t → I s → I t)
    {s t : σ} {es : List ε} (hr : L.Run Q s es t) (hs : I s) : I t := by
  induction hr with
  | nil s => exact hs
  | cons h hq _ ih => exact ih (hstep _ _ _ h hq hs)

/-- An invariant of the steps with `Q` that gives `Q'` of each of them: the run satisfies `Q'`. -/
theorem strengthen {I : σ → Prop}
    (hstep : ∀ s e t, L.step s e = some t → Q s e t → I s → I t ∧ Q' s e t)
    {s t : σ} {es : List ε} (hr : L.Run Q s es t) (hs : I s) : L.Run Q' s es t := by
  induction hr with
  | nil s => exact .nil s
  | cons h hq _ ih =>
    obtain ⟨hi, hq'⟩ := hstep _ _ _ h hq hs
    exact .cons h hq' (ih hi)

/-- **The history rule.** A property of the labels so far and of the state holds at the end of a run
if each label after a run keeps it. -/
theorem history {I : List ε → σ → Prop} {s t : σ} {es : List ε} (hr : L.Run Q s es t) (hs : I [] s)
    (hstep : ∀ es t e u, L.Run Q s es t → L.step t e = some u → Q t e u → I es t →
      I (es ++ [e]) u) : I es t := by
  induction es using List.reverseRecOn generalizing t with
  | nil =>
    cases hr
    exact hs
  | append_singleton es e ih =>
    obtain ⟨u, h₁, h₂⟩ := hr.split
    cases h₂ with
    | cons h hq hnil =>
      cases hnil
      exact hstep es u e t h₁ h hq (ih h₁)

/-- What each step carries back from its end to its start holds after every step of a run that ends
with it. -/
theorem back {B : σ → Prop} (hback : ∀ s e t, L.step s e = some t → B t → B s) {s t : σ}
    {es : List ε} (hr : L.Run Q s es t) (ht : B t) :
    B s ∧ L.Run (fun s e t => Q s e t ∧ B t) s es t := by
  induction hr with
  | nil s => exact ⟨ht, .nil s⟩
  | cons h hq _ ih =>
    obtain ⟨hb, hr⟩ := ih ht
    exact ⟨hback _ _ _ h hb, .cons h ⟨hq, hb⟩ hr⟩

/-- The labels decide where a run ends. -/
theorem det {s t t' : σ} {es : List ε} (hr : L.Run Q s es t) (hr' : L.Run Q' s es t') : t = t' := by
  induction hr with
  | nil s => cases hr'; rfl
  | cons h _ _ ih =>
    cases hr' with
    | cons h' _ hr'' =>
      cases h.symm.trans h'
      exact ih hr''

/-- **The two-run rule.** A relation of states that every pair of steps with related labels keeps
relates the ends of two runs with related labels. -/
theorem rel {R : σ → σ → Prop} {S : ε → ε → Prop}
    (hstep : ∀ s e s' t f t', R s t → S e f → L.step s e = some s' → Q s e s' →
      L.step t f = some t' → Q' t f t' → R s' t')
    {s s' t t' : σ} {es fs : List ε} (hr : L.Run Q s es s') (hr' : L.Run Q' t fs t')
    (hl : List.Forall₂ S es fs) (h : R s t) : R s' t' := by
  induction hr generalizing t fs with
  | nil s =>
    cases hl
    cases hr'
    exact h
  | cons hs hq _ ih =>
    cases hl with
    | cons he hes =>
      cases hr' with
      | cons hs' hq' hr'' => exact ih hr'' hes (hstep _ _ _ _ _ _ h he hs hq hs' hq')

/-- **The simulation rule.** A relation that each step of `L` keeps with a step of `L'` of the same
label makes a run of `L` a run of `L'`. -/
theorem simulates {σ' : Type} {L' : Lts σ' ε} {R : σ → σ' → Prop}
    (hstep : ∀ s e s' t, L.step s e = some s' → Q s e s' → R s t →
      ∃ t', L'.step t e = some t' ∧ R s' t')
    {s s' : σ} {t : σ'} {es : List ε} (hr : L.Run Q s es s') (h : R s t) :
    ∃ t', L'.Reach t es t' ∧ R s' t' := by
  induction hr generalizing t with
  | nil s => exact ⟨t, .nil t, h⟩
  | cons hs hq _ ih =>
    obtain ⟨t₁, ht, h₁⟩ := hstep _ _ _ _ hs hq h
    obtain ⟨t', hr', h'⟩ := ih h₁
    exact ⟨t', .cons ht trivial hr', h'⟩

end Run

/-- What `exec` computes is a run. -/
theorem run_of_exec {q : σ → ε → σ → Bool} (hq : ∀ s e t, q s e t = true → Q s e t) {s t : σ}
    {es : List ε} (h : L.exec q s es = some t) : L.Run Q s es t := by
  induction es generalizing s with
  | nil =>
    simp only [exec, Option.some.injEq] at h
    subst h
    exact .nil s
  | cons e es ih =>
    simp only [exec, Option.bind_eq_some_iff] at h
    obtain ⟨s₁, hs, hr⟩ := h
    split at hr
    · rename_i hqs
      exact .cons hs (hq _ _ _ hqs) (ih hr)
    · cases hr

/-- A run to a state that passes a test, found by evaluation. -/
theorem exists_run {q : σ → ε → σ → Bool} {p : σ → Bool} {s : σ} (es : List ε)
    (hq : ∀ s e t, q s e t = true → Q s e t) (h : (L.exec q s es).any p = true) :
    ∃ t, L.Run Q s es t ∧ p t = true := by
  obtain ⟨t, ht, hp⟩ := (Option.any_eq_true p _).mp h
  exact ⟨t, run_of_exec hq ht, hp⟩

theorem exists_reach {p : σ → Bool} {s : σ} (es : List ε)
    (h : (L.exec (fun _ _ _ => true) s es).any p = true) : ∃ t, L.Reach s es t ∧ p t = true :=
  exists_run es (fun _ _ _ _ => trivial) h

end Lts
