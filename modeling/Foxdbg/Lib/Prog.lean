import Mathlib.Logic.Function.Basic
import Foxdbg.Lib.Run

/-!
# Threads that run programs

A program is a tree: it asks for operations one by one and goes on with their answers (`Prog`). A
`Machine` says what an operation of a thread does to the shared state, or that the thread has to
wait; its threads run calls, one operation at a time, in any order (`Machine.lts`).

A `Discipline` is a way to reason about each program alone. A thread has an account `T` of what it
knows; `pre` says which operations the account allows, `post` what the account may be after one, and
`Inv` relates the accounts of all threads to the shared state. `Keeps` is the weakest precondition
of a program, with one rule for sequences (`keeps_bind`).

* `Discipline.run`: if the code of every call keeps the discipline, then each thread's rest does in
  every state of a run.
* `Machine.rest_run`: a property of every operation of a call's code is one of each thread's rest.
* `Machine.history`: the calls and returns of a run. `Machine.refines`: a relation of two shared
  states that every operation keeps gives runs with the same history.
-/

/-- A program with operations in `O`, where `o` is answered by an `R o`, and a result in `α`. -/
inductive Prog (O : Type) (R : O → Type) (α : Type) where
  | ret (a : α)
  | op (o : O) (k : R o → Prog O R α)

namespace Prog

variable {O : Type} {R : O → Type} {α β : Type}

/-- One program after the other. -/
def bind : Prog O R α → (α → Prog O R β) → Prog O R β
  | .ret a, f => f a
  | .op o k, f => .op o fun r => (k r).bind f

instance : Monad (Prog O R) where
  pure := .ret
  bind := bind

@[simp] theorem pure_eq (a : α) : (pure a : Prog O R α) = .ret a := rfl

@[simp] theorem op_bind (o : O) (k : R o → Prog O R α) (f : α → Prog O R β) :
    Prog.op o k >>= f = .op o fun r => k r >>= f := rfl

/-- Every operation that the program can come to satisfies `P`. -/
def All (P : O → Prop) : Prog O R α → Prop
  | .ret _ => True
  | .op o k => P o ∧ ∀ r, (k r).All P

theorem All.bind {P : O → Prop} {p : Prog O R α} {f : α → Prog O R β} (hp : p.All P)
    (hf : ∀ a, (f a).All P) : (p >>= f).All P := by
  induction p with
  | ret a => exact hf a
  | op o k ih => exact ⟨hp.1, fun r => ih r (hp.2 r)⟩

end Prog

/-! ## The machine -/

/-- A state of the threads `ι`: what they share, and the call of each with the rest of its code. -/
structure Pool (ι σ O : Type) (R : O → Type) (C V : Type) where
  shared : σ
  thread : ι → Option (C × Prog O R V)

/-- A thread starts a call, performs an operation, or returns. -/
inductive Move (ι C : Type) where
  | call (t : ι) (c : C)
  | step (t : ι)
  | finish (t : ι)

/-- Threads that run calls of `C` (module doc). -/
structure Machine (ι σ O : Type) (R : O → Type) (C V : Type) where
  /-- The answer of an operation and the shared state after it; `none`: the thread has to wait. -/
  perform : ι → (o : O) → σ → Option (R o × σ)
  code : C → Prog O R V

variable {ι σ O C V : Type} {R : O → Type} [DecidableEq ι]

namespace Pool

/-- No thread runs a call. -/
def start (sh : σ) : Pool ι σ O R C V := ⟨sh, fun _ => none⟩

/-- The pool with another state of one thread. -/
def set (s : Pool ι σ O R C V) (t : ι) (x : Option (C × Prog O R V)) : Pool ι σ O R C V :=
  { s with thread := Function.update s.thread t x }

variable {s : Pool ι σ O R C V} {t u : ι} {x : Option (C × Prog O R V)}

@[simp] theorem set_self : (s.set t x).thread t = x := Function.update_self ..

theorem set_ne (h : u ≠ t) : (s.set t x).thread u = s.thread u := Function.update_of_ne h ..

end Pool

namespace Machine

variable (M : Machine ι σ O R C V)

/-- The machine as a transition system. -/
def lts : Lts (Pool ι σ O R C V) (Move ι C) where
  step s
    | .call t c =>
      match s.thread t with
      | none => some (s.set t (some (c, M.code c)))
      | some _ => none
    | .step t =>
      match s.thread t with
      | some (c, .op o k) =>
        (M.perform t o s.shared).map fun (r, sh) => { s with shared := sh }.set t (some (c, k r))
      | _ => none
    | .finish t =>
      match s.thread t with
      | some (_, .ret _) => some (s.set t none)
      | _ => none

/-- What a move does. -/
inductive Does (s : Pool ι σ O R C V) : Move ι C → Pool ι σ O R C V → Prop
  | call {t : ι} {c : C} : s.thread t = none → Does s (.call t c) (s.set t (some (c, M.code c)))
  | step {t : ι} {c : C} {o : O} {k : R o → Prog O R V} {r : R o} {sh : σ} :
      s.thread t = some (c, .op o k) → M.perform t o s.shared = some (r, sh) →
      Does s (.step t) ({ s with shared := sh }.set t (some (c, k r)))
  | finish {t : ι} {c : C} {v : V} : s.thread t = some (c, .ret v) →
      Does s (.finish t) (s.set t none)

variable {M} {s s' : Pool ι σ O R C V} {l : Move ι C}

theorem does_of_step (h : M.lts.step s l = some s') : M.Does s l s' := by
  cases l with
  | call t c =>
    simp only [lts] at h
    split at h
    · rename_i ht
      cases h
      exact .call ht
    · cases h
  | step t =>
    simp only [lts] at h
    split at h
    · rename_i c o k ht
      obtain ⟨⟨r, sh⟩, hp, rfl⟩ := Option.map_eq_some_iff.mp h
      exact .step ht hp
    · cases h
  | finish t =>
    simp only [lts] at h
    split at h
    · rename_i ht
      cases h
      exact .finish ht
    · cases h

/-- A thread that can perform its operation can step. -/
theorem step_isSome {t : ι} {c : C} {o : O} {k : R o → Prog O R V}
    (ht : s.thread t = some (c, .op o k)) (h : (M.perform t o s.shared).isSome) :
    (M.lts.step s (.step t)).isSome := by
  simpa [lts, ht] using h

/-- A step condition: the calls that start satisfy `P`. -/
def Calls (P : C → Prop) (_ : Pool ι σ O R C V) (l : Move ι C) (_ : Pool ι σ O R C V) : Prop :=
  ∀ t c, l = .call t c → P c

/-- **Rests.** What the code of every call has, and an operation hands on to what follows it, the
rest of each thread has in every state of a run. -/
theorem rest_run {P : C → Prop} {X : C → Prog O R V → Prop} (hcode : ∀ c, P c → X c (M.code c))
    (hop : ∀ c o k r, X c (.op o k) → X c (k r)) {sh : σ} {es : List (Move ι C)}
    (hr : M.lts.Run (Calls P) (.start sh) es s) : ∀ t c p, s.thread t = some (c, p) → X c p := by
  refine hr.inv (I := fun s => ∀ t c p, s.thread t = some (c, p) → X c p) ?_ nofun
  intro s l s' hs hcall hi u c p hu
  cases does_of_step hs with
  | @call t c' _ =>
    by_cases h : u = t
    · subst h
      rw [Pool.set_self] at hu
      cases hu
      exact hcode _ (hcall _ _ rfl)
    · exact hi u c p (Pool.set_ne h ▸ hu)
  | @step t c' o k r _ ht _ =>
    by_cases h : u = t
    · subst h
      rw [Pool.set_self] at hu
      cases hu
      exact hop _ _ _ r (hi u _ _ ht)
    · exact hi u c p (Pool.set_ne h ▸ hu)
  | @finish t _ _ _ =>
    by_cases h : u = t
    · subst h
      rw [Pool.set_self] at hu
      cases hu
    · exact hi u c p (Pool.set_ne h ▸ hu)

end Machine

/-! ## Histories -/

/-- A call, or a return with its result. -/
inductive Event (ι C V : Type) where
  | call (t : ι) (c : C)
  | ret (t : ι) (c : C) (v : V)

namespace Machine

/-- What a move shows of the calls. -/
def event (s : Pool ι σ O R C V) : Move ι C → Option (Event ι C V)
  | .call t c => some (.call t c)
  | .step _ => none
  | .finish t =>
    match s.thread t with
    | some (c, .ret v) => some (.ret t c v)
    | _ => none

/-- The calls and the returns of a run, in order. -/
def history (M : Machine ι σ O R C V) (s : Pool ι σ O R C V) (es : List (Move ι C)) :
    List (Event ι C V) := M.lts.collect event s es

end Machine

/-- An event whose result is seen through a function. -/
def Event.map {ι C V W : Type} (view : V → W) : Event ι C V → Event ι C W
  | .call t c => .call t c
  | .ret t c v => .ret t c (view v)

namespace Machine

variable {σ' : Type} {M : Machine ι σ O R C V} {Rel : σ → σ' → Prop} {Ok : O → Prop}
  {P : C → Prop} {s t : Pool ι σ O R C V} {es : List (Move ι C)}

/-- **Data refinement.** If each operation of the calls' code keeps a relation of the shared states
with the same operation and the same answer, then each run has the history of a run on the other
shared state. -/
theorem refines (M' : Machine ι σ' O R C V) (hcode : M'.code = M.code)
    (hok : ∀ c, P c → (M.code c).All Ok)
    (hperform : ∀ u o r sh sh₁ sh', Ok o → Rel sh sh' → M.perform u o sh = some (r, sh₁) →
      ∃ sh₁', M'.perform u o sh' = some (r, sh₁') ∧ Rel sh₁ sh₁')
    (hr : M.lts.Run (Calls P) s es t) (s' : Pool ι σ' O R C V) (hrel : Rel s.shared s'.shared)
    (hthread : s'.thread = s.thread) (hall : ∀ u c p, s.thread u = some (c, p) → p.All Ok) :
    ∃ t', M'.lts.Reach s' es t' ∧ M'.history s' es = M.history s es ∧
      Rel t.shared t'.shared := by
  induction hr generalizing s' with
  | nil s => exact ⟨s', .nil s', rfl, hrel⟩
  | @cons s s₁ t l es h hcall _ ih =>
    have set_all : ∀ {u c p}, p.All Ok → ∀ v c' p',
        Function.update s.thread u (some (c, p)) v = some (c', p') → p'.All Ok := by
      intro u c p hp v c' p' hv
      by_cases hvu : v = u
      · subst hvu
        rw [Function.update_self] at hv
        cases hv
        exact hp
      · rw [Function.update_of_ne hvu] at hv
        exact hall v c' p' hv
    obtain ⟨s₁', hs', hrel₁, hthread₁, hall₁⟩ : ∃ s₁', M'.lts.step s' l = some s₁' ∧
        Rel s₁.shared s₁'.shared ∧ s₁'.thread = s₁.thread ∧
        ∀ u c p, s₁.thread u = some (c, p) → p.All Ok := by
      cases does_of_step h with
      | @call u c hu =>
        refine ⟨s'.set u (some (c, M.code c)), ?_, hrel, ?_, set_all (hok c (hcall u c rfl))⟩
        · simp [lts, hthread, hu, hcode]
        · simp [Pool.set, hthread]
      | @step u c o k r sh hu hp =>
        have hops := hall u c _ hu
        obtain ⟨sh', hp', hrel'⟩ := hperform u o r _ sh _ hops.1 hrel hp
        let next : Pool ι σ' O R C V := { s' with shared := sh' }
        refine ⟨next.set u (some (c, k r)), ?_, hrel', ?_, set_all (hops.2 r)⟩
        · simp [lts, hthread, hu, hp', next]
        · simp [Pool.set, hthread, next]
      | @finish u c v hu =>
        refine ⟨s'.set u none, ?_, hrel, ?_, fun v' c' p' hv' => ?_⟩
        · simp [lts, hthread, hu]
        · simp [Pool.set, hthread]
        · by_cases hvu : v' = u
          · subst hvu
            rw [Pool.set_self] at hv'
            cases hv'
          · rw [Pool.set_ne hvu] at hv'
            exact hall v' c' p' hv'
    obtain ⟨t', hr', hhistory, hrel'⟩ := ih s₁' hrel₁ hthread₁ hall₁
    have hevent : event s' l = event s l := by
      cases l <;> simp [event, hthread]
    refine ⟨t', .cons hs' trivial hr', ?_, hrel'⟩
    unfold history at hhistory ⊢
    rw [Lts.collect, Lts.collect, hs', h, hevent]
    exact congrArg (_ ++ ·) hhistory

end Machine

/-! ## Disciplines -/

/-- A discipline of the operations of a machine (module doc). -/
structure Discipline (M : Machine ι σ O R C V) (T : Type) where
  /-- The account of a thread that runs no call. -/
  idle : T
  pre : T → O → Prop
  post : T → (o : O) → R o → T → Prop
  Inv : σ → (ι → T) → Prop
  /-- An operation that a thread's account allows leads to an account that it may have then. -/
  keeps : ∀ sh τs t o r sh', Inv sh τs → pre (τs t) o → M.perform t o sh = some (r, sh') →
    ∃ τ, post (τs t) o r τ ∧ Inv sh' (Function.update τs t τ)

namespace Discipline

variable {M : Machine ι σ O R C V} {T α β : Type} (D : Discipline M T)

/-- The weakest precondition: from this account every operation is allowed, and the account and the
result at the end satisfy `Q`. -/
def Keeps (Q : T → α → Prop) : T → Prog O R α → Prop
  | τ, .ret a => Q τ a
  | τ, .op o k => D.pre τ o ∧ ∀ r τ', D.post τ o r τ' → Keeps Q τ' (k r)

variable {D} {Q : T → α → Prop} {τ : T}

@[simp] theorem keeps_ret {a : α} : D.Keeps Q τ (.ret a) ↔ Q τ a := .rfl

theorem keeps_op {o : O} {k : R o → Prog O R α} :
    D.Keeps Q τ (.op o k) ↔ D.pre τ o ∧ ∀ r τ', D.post τ o r τ' → D.Keeps Q τ' (k r) := .rfl

/-- **Sequences.** The second program starts with the account and the result of the first. -/
theorem keeps_bind {Q : T → β → Prop} {p : Prog O R α} {f : α → Prog O R β} :
    D.Keeps Q τ (p >>= f) ↔ D.Keeps (fun τ a => D.Keeps Q τ (f a)) τ p := by
  induction p generalizing τ with
  | ret a => rfl
  | op o k ih => simp only [Prog.op_bind, keeps_op, ih]

theorem Keeps.mono {Q' : T → α → Prop} {p : Prog O R α} (h : D.Keeps Q τ p)
    (hq : ∀ τ a, Q τ a → Q' τ a) : D.Keeps Q' τ p := by
  induction p generalizing τ with
  | ret a => exact hq _ _ h
  | op o k ih => exact ⟨h.1, fun r τ' hp => ih r (h.2 r τ' hp)⟩

variable (D) in
/-- A call returns with the account of an idle thread, and a result that satisfies `Q`. -/
def Done (Q : C → V → Prop) (c : C) (τ : T) (v : V) : Prop := τ = D.idle ∧ Q c v

variable (D) in
/-- What the account of a thread says about the rest of its code. -/
def Covers (Q : C → V → Prop) (τ : T) : Option (C × Prog O R V) → Prop
  | none => τ = D.idle
  | some (c, p) => D.Keeps (D.Done Q c) τ p

variable (D) in
/-- The threads have accounts that fit the shared state and the rests of their code. -/
def Good (Q : C → V → Prop) (s : Pool ι σ O R C V) : Prop :=
  ∃ τs : ι → T, D.Inv s.shared τs ∧ ∀ t, D.Covers Q (τs t) (s.thread t)

variable {Q : C → V → Prop} {P : C → Prop} {s s' : Pool ι σ O R C V}

theorem Covers.set {τs : ι → T} {t : ι} {τ : T} {x : Option (C × Prog O R V)}
    (h : ∀ t, D.Covers Q (τs t) (s.thread t)) (hx : D.Covers Q τ x) (u : ι) :
    D.Covers Q (Function.update τs t τ u) ((s.set t x).thread u) := by
  by_cases hu : u = t
  · subst hu
    rwa [Function.update_self, Pool.set_self]
  · rw [Function.update_of_ne hu, Pool.set_ne hu]
    exact h u

theorem Good.step (hcode : ∀ c, P c → D.Keeps (D.Done Q c) D.idle (M.code c)) {l : Move ι C}
    (hcall : Machine.Calls P s l s') (h : M.lts.step s l = some s') (hg : D.Good Q s) :
    D.Good Q s' := by
  obtain ⟨τs, hinv, hc⟩ := hg
  cases Machine.does_of_step h with
  | @call t c ht =>
    have hidle : τs t = D.idle := by simpa [ht, Covers] using hc t
    refine ⟨Function.update τs t (τs t), ?_, Covers.set hc ?_⟩
    · rwa [Function.update_eq_self]
    · rw [hidle]
      exact hcode c (hcall t c rfl)
  | @step t c o k r sh ht hp =>
    obtain ⟨hpre, hpost⟩ : D.Keeps (D.Done Q c) (τs t) (.op o k) := by
      simpa only [ht, Covers] using hc t
    obtain ⟨τ, hτ, hinv'⟩ := D.keeps _ _ _ _ _ _ hinv hpre hp
    have hrest : D.Covers Q τ (some (c, k r)) := hpost r τ hτ
    exact ⟨Function.update τs t τ, hinv', Covers.set (s := { s with shared := sh }) hc hrest⟩
  | @finish t c v ht =>
    have hdone : D.Done Q c (τs t) v := by simpa [ht, Covers] using hc t
    refine ⟨Function.update τs t (τs t), ?_, Covers.set hc hdone.1⟩
    rwa [Function.update_eq_self]

/-- **The discipline rule.** If the code of every call keeps the discipline, then every state of a
run is good. -/
theorem run (hcode : ∀ c, P c → D.Keeps (D.Done Q c) D.idle (M.code c)) {sh : σ}
    (hinv : D.Inv sh fun _ => D.idle) {es : List (Move ι C)}
    (hr : M.lts.Run (Machine.Calls P) (.start sh) es s) : D.Good Q s :=
  hr.inv (fun _ _ _ hs hcall hg => hg.step hcode hcall hs) ⟨fun _ => D.idle, hinv, fun _ => rfl⟩

end Discipline
