import Mathlib.Order.WellFounded
import Foxdbg.Lib.Prog

/-!
# Mutexes and their order

The shared state of a machine with mutexes (`Locked`): who owns each mutex, and a memory in parts.
A `LockOp` takes a mutex, gives it back, or accesses one part. A mutex is not recursive, so a thread
that takes one it owns waits for itself; a mutex that a thread does not own cannot be given back.

A `LockOrder` says which stacks of mutexes a thread may hold. `LockOrder.discipline` is the
discipline of threads that keep to it: they take a mutex on top of their stack, give back the last
one first, and have none when they return.

* `owner_cases`: the owner of a mutex has an operation left, and a stack with the mutex.
* `exists_step`: if the rank of a mutex is above the ranks of those below it in a stack, and ranks
  do not rise forever, then some thread can step whenever some thread has an operation left. The
  owner of the mutex that a thread waits for waits, if it does, for one of a higher rank.
-/

/-- An operation of a thread on the mutexes `M` and on a memory in the parts `B`. -/
inductive LockOp (M B A : Type) where
  | lock (m : M)
  | unlock (m : M)
  | access (b : B) (a : A)

/-- The answer to an operation: that of the access. -/
@[reducible] def LockOp.Answer {M B A : Type} (R : A → Type) : LockOp M B A → Type
  | .lock _ => Unit
  | .unlock _ => Unit
  | .access _ a => R a

/-- The owners of the mutexes, and the memory. -/
structure Locked (ι M B μ : Type) where
  owner : M → Option ι
  mem : B → μ

variable {ι M B μ A C V : Type} {R : A → Type}

namespace Locked

/-- Every mutex is free. -/
def free (mem : B → μ) : Locked ι M B μ := ⟨fun _ => none, mem⟩

/-- The state with another owner of a mutex. -/
def own [DecidableEq M] (sh : Locked ι M B μ) (m : M) (x : Option ι) : Locked ι M B μ :=
  { sh with owner := Function.update sh.owner m x }

/-- The state with another content of a part. -/
def put [DecidableEq B] (sh : Locked ι M B μ) (b : B) (x : μ) : Locked ι M B μ :=
  { sh with mem := Function.update sh.mem b x }

section Lemmas

variable {sh : Locked ι M B μ} {m m' : M} {b b' : B} {x : Option ι} {y : μ}

@[simp] theorem own_self [DecidableEq M] : (sh.own m x).owner m = x := Function.update_self ..

theorem own_ne [DecidableEq M] (h : m' ≠ m) : (sh.own m x).owner m' = sh.owner m' :=
  Function.update_of_ne h ..

@[simp] theorem own_mem [DecidableEq M] : (sh.own m x).mem = sh.mem := rfl

@[simp] theorem put_self [DecidableEq B] : (sh.put b y).mem b = y := Function.update_self ..

theorem put_ne [DecidableEq B] (h : b' ≠ b) : (sh.put b y).mem b' = sh.mem b' :=
  Function.update_of_ne h ..

@[simp] theorem put_mem [DecidableEq B] : sh.put b (sh.mem b) = sh := by simp [put]

end Lemmas

variable [DecidableEq ι] [DecidableEq M] [DecidableEq B]

/-- An operation of a thread; `none`: it waits. -/
def perform (effect : (a : A) → μ → R a × μ) (t : ι) :
    (o : LockOp M B A) → Locked ι M B μ → Option (o.Answer R × Locked ι M B μ)
  | .lock m, sh => if sh.owner m = none then some ((), sh.own m (some t)) else none
  | .unlock m, sh => if sh.owner m = some t then some ((), sh.own m none) else none
  | .access b a, sh => some ((effect a (sh.mem b)).1, sh.put b (effect a (sh.mem b)).2)

/-- Threads with mutexes that run calls. -/
def machine (ι : Type) [DecidableEq ι] (effect : (a : A) → μ → R a × μ)
    (code : C → Prog (LockOp M B A) (LockOp.Answer R) V) :
    Machine ι (Locked ι M B μ) (LockOp M B A) (LockOp.Answer R) C V := ⟨perform effect, code⟩

variable {effect : (a : A) → μ → R a × μ} {t : ι} {sh sh' : Locked ι M B μ} {m : M} {b : B} {a : A}

theorem perform_lock {r : (LockOp.lock (B := B) (A := A) m).Answer R}
    (h : perform effect t (.lock m) sh = some (r, sh')) :
    sh.owner m = none ∧ sh' = sh.own m (some t) := by
  simp only [perform] at h
  split at h
  · cases h
    exact ⟨‹_›, rfl⟩
  · cases h

theorem perform_unlock {r : (LockOp.unlock (B := B) (A := A) m).Answer R}
    (h : perform effect t (.unlock m) sh = some (r, sh')) :
    sh.owner m = some t ∧ sh' = sh.own m none := by
  simp only [perform] at h
  split at h
  · cases h
    exact ⟨‹_›, rfl⟩
  · cases h

theorem perform_access {r : (LockOp.access (M := M) b a).Answer R}
    (h : perform effect t (.access b a) sh = some (r, sh')) :
    r = (effect a (sh.mem b)).1 ∧ sh' = sh.put b (effect a (sh.mem b)).2 := by
  cases h
  exact ⟨rfl, rfl⟩

/-- A thread that cannot perform its operation waits for a mutex, or gives back one that it does not
own. -/
theorem waits {o : LockOp M B A} (h : perform effect t o sh = none) :
    (∃ m u, o = .lock m ∧ sh.owner m = some u) ∨ ∃ m, o = .unlock m ∧ sh.owner m ≠ some t := by
  cases o with
  | lock m =>
    cases hm : sh.owner m with
    | none => simp [perform, hm] at h
    | some u => exact .inl ⟨m, u, rfl, hm⟩
  | unlock m =>
    refine .inr ⟨m, rfl, fun hm => ?_⟩
    simp [perform, hm] at h
  | access b a => cases h

end Locked

/-- The stacks of mutexes that a thread may hold, the last one taken first. -/
structure LockOrder (M : Type) where
  Ok : List M → Prop
  nil : Ok []
  tail : ∀ {m h}, Ok (m :: h) → Ok h

namespace LockOrder

/-- Each thread owns the mutexes of its stack. -/
structure Owns (L : LockOrder M) (sh : Locked ι M B μ) (hs : ι → List M) : Prop where
  owner_iff : ∀ m t, sh.owner m = some t ↔ m ∈ hs t
  nodup : ∀ t, (hs t).Nodup
  ok : ∀ t, L.Ok (hs t)

variable {L : LockOrder M}

theorem Owns.free (L : LockOrder M) (mem : B → μ) :
    L.Owns (Locked.free mem : Locked ι M B μ) fun _ => [] where
  owner_iff _ _ := by simp [Locked.free]
  nodup _ := .nil
  ok _ := L.nil

section Owns

variable [DecidableEq ι] [DecidableEq M] {sh : Locked ι M B μ} {hs : ι → List M} {t : ι} {m : M}

theorem Owns.lock (h : L.Owns sh hs) (hm : sh.owner m = none) (hok : L.Ok (m :: hs t)) :
    L.Owns (sh.own m (some t)) (Function.update hs t (m :: hs t)) where
  owner_iff m' u := by
    by_cases hm' : m' = m
    · subst hm'
      rw [Locked.own_self]
      by_cases hu : u = t
      · simp [hu]
      · rw [Function.update_of_ne hu, ← h.owner_iff, hm]
        simp [Ne.symm hu]
    · rw [Locked.own_ne hm', h.owner_iff]
      by_cases hu : u = t
      · simp [hu, hm']
      · rw [Function.update_of_ne hu]
  nodup := by
    refine (Function.forall_update_iff hs (p := fun _ h => h.Nodup)).mpr ⟨?_, fun u _ => h.nodup u⟩
    rw [List.nodup_cons, ← h.owner_iff, hm]
    exact ⟨nofun, h.nodup t⟩
  ok := (Function.forall_update_iff hs (p := fun _ h => L.Ok h)).mpr ⟨hok, fun u _ => h.ok u⟩

theorem Owns.unlock {rest : List M} (h : L.Owns sh hs) (hrest : hs t = m :: rest) :
    L.Owns (sh.own m none) (Function.update hs t rest) where
  owner_iff m' u := by
    by_cases hm' : m' = m
    · subst hm'
      have hm : sh.owner m' = some t := (h.owner_iff m' t).mpr (by simp [hrest])
      rw [Locked.own_self]
      refine ⟨nofun, fun hmem => ?_⟩
      by_cases hu : u = t
      · rw [hu, Function.update_self] at hmem
        exact absurd hmem (List.nodup_cons.mp (hrest ▸ h.nodup t)).1
      · rw [Function.update_of_ne hu, ← h.owner_iff, hm] at hmem
        exact absurd (Option.some.inj hmem).symm hu
    · rw [Locked.own_ne hm', h.owner_iff]
      by_cases hu : u = t
      · simp [hu, hrest, hm']
      · rw [Function.update_of_ne hu]
  nodup := (Function.forall_update_iff hs (p := fun _ h => h.Nodup)).mpr
    ⟨(List.nodup_cons.mp (hrest ▸ h.nodup t)).2, fun u _ => h.nodup u⟩
  ok := (Function.forall_update_iff hs (p := fun _ h => L.Ok h)).mpr
    ⟨L.tail (hrest ▸ h.ok t), fun u _ => h.ok u⟩

end Owns

variable [DecidableEq ι] [DecidableEq M] [DecidableEq B]

/-- The discipline of a lock order (module doc). The account of a thread is its stack. -/
def discipline (L : LockOrder M) (ι : Type) [DecidableEq ι] (effect : (a : A) → μ → R a × μ)
    (code : C → Prog (LockOp M B A) (LockOp.Answer R) V) :
    Discipline (Locked.machine ι effect code) (List M) where
  idle := []
  pre h
    | .lock m => L.Ok (m :: h)
    | .unlock m => h.head? = some m
    | .access _ _ => True
  post h
    | .lock m, _, h' => h' = m :: h
    | .unlock _, _, h' => h' = h.tail
    | .access _ _, _, h' => h' = h
  Inv := L.Owns
  keeps sh hs t o r sh' hinv hpre hp := by
    change Locked.perform effect t o sh = some (r, sh') at hp
    cases o with
    | lock m =>
      obtain ⟨hm, rfl⟩ := Locked.perform_lock hp
      exact ⟨_, rfl, hinv.lock hm hpre⟩
    | unlock m =>
      obtain ⟨-, rfl⟩ := Locked.perform_unlock hp
      obtain ⟨rest, hrest⟩ := List.head?_eq_some_iff.mp hpre
      exact ⟨rest, by simp [hrest], hinv.unlock hrest⟩
    | access b a =>
      obtain ⟨-, rfl⟩ := Locked.perform_access hp
      refine ⟨hs t, rfl, ?_⟩
      rw [Function.update_eq_self]
      exact ⟨hinv.owner_iff, hinv.nodup, hinv.ok⟩

variable {effect : (a : A) → μ → R a × μ} {code : C → Prog (LockOp M B A) (LockOp.Answer R) V}
  {α : Type} {Q : List M → α → Prop} {h : List M} {m : M}

@[simp] theorem keeps_lock {k : Unit → Prog (LockOp M B A) (LockOp.Answer R) α} :
    (L.discipline ι effect code).Keeps Q h (.op (.lock m) k) ↔
      L.Ok (m :: h) ∧ (L.discipline ι effect code).Keeps Q (m :: h) (k ()) := by
  refine Discipline.keeps_op.trans (and_congr_right fun _ => ⟨fun hk => hk () _ rfl, ?_⟩)
  rintro hk _ _ rfl
  exact hk

@[simp] theorem keeps_unlock {k : Unit → Prog (LockOp M B A) (LockOp.Answer R) α} :
    (L.discipline ι effect code).Keeps Q h (.op (.unlock m) k) ↔
      h.head? = some m ∧ (L.discipline ι effect code).Keeps Q h.tail (k ()) := by
  refine Discipline.keeps_op.trans (and_congr_right fun _ => ⟨fun hk => hk () _ rfl, ?_⟩)
  rintro hk _ _ rfl
  exact hk

@[simp] theorem keeps_access {b : B} {a : A}
    {k : R a → Prog (LockOp M B A) (LockOp.Answer R) α} :
    (L.discipline ι effect code).Keeps Q h (.op (.access b a) k) ↔
      ∀ r, (L.discipline ι effect code).Keeps Q h (k r) := by
  refine ⟨fun hk r => hk.2 r _ rfl, fun hk => ⟨trivial, ?_⟩⟩
  rintro r _ rfl
  exact hk r

/-! ## What the discipline gives -/

section Good

variable {Q : C → V → Prop}
  {s : Pool ι (Locked ι M B μ) (LockOp M B A) (LockOp.Answer R) C V} {t u : ι}

/-- The owner of a mutex has it on its stack, and has an operation left. -/
theorem owner_cases {hs : ι → List M} (hinv : L.Owns s.shared hs)
    (hc : ∀ t : ι, (L.discipline ι effect code).Covers Q (hs t) (s.thread t))
    (ho : s.shared.owner m = some t) :
    m ∈ hs t ∧ ∃ c o k, s.thread t = some (c, .op o k) := by
  have hm : m ∈ hs t := (hinv.owner_iff m t).mp ho
  refine ⟨hm, ?_⟩
  have ht := hc t
  rcases h : s.thread t with _ | ⟨c, v | ⟨o, k⟩⟩
  · rw [h] at ht
    exact absurd (ht ▸ hm) List.not_mem_nil
  · rw [h] at ht
    exact absurd (ht.1 ▸ hm) List.not_mem_nil
  · exact ⟨c, o, k, rfl⟩

/-- A thread that returns, or runs no call, owns no mutex. -/
theorem owns_nothing (hg : (L.discipline ι effect code).Good Q s)
    (ht : ∀ c o k, s.thread t ≠ some (c, .op o k)) : s.shared.owner m ≠ some t := by
  intro ho
  obtain ⟨hs, hinv, hc⟩ := hg
  obtain ⟨-, c, o, k, h⟩ := owner_cases hinv hc ho
  exact ht c o k h

/-- **No deadlock.** If each mutex of a stack ranks above those below it, some thread can step
whenever some thread has an operation left. -/
theorem exists_step {ρ : Type} [Preorder ρ] [WellFoundedGT ρ] {rank : M → ρ}
    (hrank : ∀ m h, L.Ok (m :: h) → ∀ m' ∈ h, rank m' < rank m)
    (hg : (L.discipline ι effect code).Good Q s) {c : C} {o : LockOp M B A}
    {k : o.Answer R → Prog (LockOp M B A) (LockOp.Answer R) V}
    (ht : s.thread t = some (c, .op o k)) :
    ∃ u : ι, ((Locked.machine ι effect code).lts.step s (.step u)).isSome := by
  obtain ⟨hs, hinv, hc⟩ := hg
  -- a thread that keeps to the order steps, or waits for a mutex that another thread owns
  have hwaits : ∀ (t : ι) c o k, s.thread t = some (c, .op o k) →
      ((Locked.machine ι effect code).lts.step s (.step t)).isSome ∨
      ∃ m u, o = .lock m ∧ s.shared.owner m = some u ∧ L.Ok (m :: hs t) := by
    intro t c o k ht
    have hpre : (L.discipline ι effect code).pre (hs t) o := by
      have := hc t
      rw [ht] at this
      exact this.1
    cases hp : Locked.perform effect t o s.shared with
    | some x => exact .inl (Machine.step_isSome ht (Option.isSome_of_eq_some hp))
    | none =>
      obtain ⟨m, u, rfl, hu⟩ | ⟨m, rfl, hu⟩ := Locked.waits hp
      · exact .inr ⟨m, u, rfl, hu, hpre⟩
      · exact absurd ((hinv.owner_iff m t).mpr (List.mem_of_mem_head? hpre)) hu
  -- the owner of a mutex steps, or waits for a mutex of a higher rank
  have howner : ∀ (x : ρ) (m : M) (u : ι), rank m = x → s.shared.owner m = some u →
      ∃ u : ι, ((Locked.machine ι effect code).lts.step s (.step u)).isSome := by
    intro x
    induction x using WellFoundedGT.induction with
    | ind x ih =>
      rintro m u rfl hu
      obtain ⟨hm, c, o, k, h⟩ := owner_cases hinv hc hu
      obtain hstep | ⟨m', u', -, hu', hok⟩ := hwaits u c o k h
      · exact ⟨u, hstep⟩
      · exact ih _ (hrank m' _ hok m hm) m' u' rfl hu'
  obtain hstep | ⟨m, u, -, hu, -⟩ := hwaits t c o k ht
  · exact ⟨t, hstep⟩
  · exact howner _ m u rfl hu

end Good

end LockOrder
