import Foxdbg.Lib.LockOrder

/-!
# Guarded sections

A mutex guards a part of the memory if threads store to the part only while they own the mutex. From
the lock to the unlock of the guard (a section) a thread is alone with the part: its code there runs
as it would with no other thread.

`Guarded` names the guard of each part, what holds of a part while its guard is free (`Inv`), and
what holds of it before each operation of a section (`point`). `Guarded.discipline` is the
discipline of threads that keep to this. The account of a thread in a section is the part and its
content, so `Keeps` runs the code of a section on that content (`keeps_own`): it starts with any
content that satisfies `Inv` (`keeps_enter`) and has to end with one (`keeps_leave`). Outside of the
sections a thread may load, and knows nothing of what it loads (`keeps_load`).

* `inv_or_point`: a part satisfies `Inv`, or the next operation of the owner of its guard satisfies
  `point`.
* `mem_eq`: while a thread is in a section, no step of another thread changes the part.
-/

/-- Guards of the parts of a memory (module doc). -/
structure Guarded (M B A μ : Type) where
  guard : B → M
  injective : Function.Injective guard
  Inv : B → μ → Prop
  point : B → μ → LockOp M B A → Prop

namespace Guarded

variable {ι M B μ A C V : Type} {R : A → Type}

/-- The owner of a guard knows the content of its part; a part with a free guard satisfies `Inv`. -/
structure Knows (G : Guarded M B A μ) (sh : Locked ι M B μ) (τs : ι → Option (B × μ)) : Prop where
  owner : ∀ t b x, τs t = some (b, x) → sh.owner (G.guard b) = some t ∧ sh.mem b = x
  account : ∀ t b, sh.owner (G.guard b) = some t → τs t = some (b, sh.mem b)
  free : ∀ b, sh.owner (G.guard b) = none → G.Inv b (sh.mem b)

variable {G : Guarded M B A μ}

theorem Knows.start {mem : B → μ} (h : ∀ b, G.Inv b (mem b)) :
    G.Knows (Locked.free mem : Locked ι M B μ) fun _ => none where
  owner := nofun
  account := nofun
  free b _ := h b

section Knows

variable {sh : Locked ι M B μ} {τs : ι → Option (B × μ)} {t : ι}
  {m : M} {b : B} {x : μ} {y : Option ι}

/-- A mutex that is no guard does not matter. -/
theorem Knows.own [DecidableEq M] (h : G.Knows sh τs) (hm : ∀ b, m ≠ G.guard b) :
    G.Knows (sh.own m y) τs where
  owner t b x ht := by
    rw [Locked.own_ne (hm b).symm]
    exact h.owner t b x ht
  account t b ho := h.account t b (by rwa [Locked.own_ne (hm b).symm] at ho)
  free b ho := h.free b (by rwa [Locked.own_ne (hm b).symm] at ho)

variable [DecidableEq ι]

theorem Knows.enter [DecidableEq M] (h : G.Knows sh τs) (ht : τs t = none)
    (hfree : sh.owner (G.guard b) = none) :
    G.Knows (sh.own (G.guard b) (some t)) (Function.update τs t (some (b, sh.mem b))) where
  owner u b' x hu := by
    by_cases hut : u = t
    · subst hut
      rw [Function.update_self] at hu
      cases hu
      exact ⟨Locked.own_self, rfl⟩
    · rw [Function.update_of_ne hut] at hu
      obtain ⟨ho, hx⟩ := h.owner u b' x hu
      refine ⟨?_, hx⟩
      rw [Locked.own_ne fun e => ?_]
      · exact ho
      · rw [e, hfree] at ho
        cases ho
  account u b' ho := by
    by_cases hb : b' = b
    · subst hb
      rw [Locked.own_self] at ho
      cases ho
      exact Function.update_self ..
    · rw [Locked.own_ne fun e => hb (G.injective e)] at ho
      have hu := h.account u b' ho
      rw [Function.update_of_ne]
      · exact hu
      · rintro rfl
        cases ht.symm.trans hu
  free b' ho := by
    by_cases hb : b' = b
    · subst hb
      rw [Locked.own_self] at ho
      cases ho
    · exact h.free b' (by rwa [Locked.own_ne fun e => hb (G.injective e)] at ho)

theorem Knows.leave [DecidableEq M] (h : G.Knows sh τs) (ht : τs t = some (b, x)) (hx : G.Inv b x) :
    G.Knows (sh.own (G.guard b) none) (Function.update τs t none) where
  owner u b' x' hu := by
    by_cases hut : u = t
    · subst hut
      rw [Function.update_self] at hu
      cases hu
    · rw [Function.update_of_ne hut] at hu
      obtain ⟨ho, hx'⟩ := h.owner u b' x' hu
      refine ⟨?_, hx'⟩
      rw [Locked.own_ne fun e => ?_]
      · exact ho
      · rw [e, (h.owner t b x ht).1] at ho
        exact hut (Option.some.inj ho).symm
  account u b' ho := by
    by_cases hb : b' = b
    · subst hb
      rw [Locked.own_self] at ho
      cases ho
    · rw [Locked.own_ne fun e => hb (G.injective e)] at ho
      have hu := h.account u b' ho
      rw [Function.update_of_ne]
      · exact hu
      · rintro rfl
        exact hb (congrArg Prod.fst (Option.some.inj (hu.symm.trans ht)))
  free b' ho := by
    by_cases hb : b' = b
    · subst hb
      rw [Locked.own_mem, (h.owner t b' x ht).2]
      exact hx
    · exact h.free b' (by rwa [Locked.own_ne fun e => hb (G.injective e)] at ho)

theorem Knows.put [DecidableEq B] {x' : μ} (h : G.Knows sh τs) (ht : τs t = some (b, x)) :
    G.Knows (sh.put b x') (Function.update τs t (some (b, x'))) where
  owner u b' y hu := by
    by_cases hut : u = t
    · subst hut
      rw [Function.update_self] at hu
      cases hu
      exact ⟨(h.owner u b x ht).1, Locked.put_self⟩
    · rw [Function.update_of_ne hut] at hu
      obtain ⟨ho, hy⟩ := h.owner u b' y hu
      refine ⟨ho, ?_⟩
      rw [Locked.put_ne]
      · exact hy
      · rintro rfl
        exact hut (Option.some.inj (ho.symm.trans (h.owner t b' x ht).1))
  account u b' ho := by
    by_cases hb : b' = b
    · subst hb
      cases (h.owner t b' x ht).1.symm.trans ho
      rw [Function.update_self, Locked.put_self]
    · have hu := h.account u b' ho
      rw [Function.update_of_ne, Locked.put_ne hb]
      · exact hu
      · rintro rfl
        exact hb (congrArg Prod.fst (Option.some.inj (hu.symm.trans ht)))
  free b' ho := by
    rw [Locked.put_ne]
    · exact h.free b' ho
    · rintro rfl
      cases (h.owner t b' x ht).1.symm.trans ho

end Knows

/-! ## The discipline -/

/-- The operations that an account allows. -/
def Allows (G : Guarded M B A μ) (effect : (a : A) → μ → R a × μ) (τ : Option (B × μ)) :
    LockOp M B A → Prop
  | .lock m => ∀ b, m = G.guard b → τ = none
  | .unlock m => ∀ b, m = G.guard b → ∃ x, τ = some (b, x) ∧ G.Inv b x
  | .access b a => (∃ x, τ = some (b, x)) ∨ ∀ x, (effect a x).2 = x

/-- The account after an operation and its answer. -/
def After (G : Guarded M B A μ) (effect : (a : A) → μ → R a × μ) (τ : Option (B × μ)) :
    (o : LockOp M B A) → o.Answer R → Option (B × μ) → Prop
  | .lock m, _, τ' =>
    (∃ b x, m = G.guard b ∧ G.Inv b x ∧ τ' = some (b, x)) ∨ (∀ b, m ≠ G.guard b) ∧ τ' = τ
  | .unlock m, _, τ' => (∃ b, m = G.guard b ∧ τ' = none) ∨ (∀ b, m ≠ G.guard b) ∧ τ' = τ
  | .access b a, r, τ' =>
    (∃ x, τ = some (b, x) ∧ r = (effect a x).1 ∧ τ' = some (b, (effect a x).2)) ∨
      (∀ x, τ ≠ some (b, x)) ∧ τ' = τ

variable [DecidableEq ι] [DecidableEq M] [DecidableEq B]

/-- The discipline of guarded sections (module doc). -/
def discipline (G : Guarded M B A μ) (ι : Type) [DecidableEq ι] (effect : (a : A) → μ → R a × μ)
    (code : C → Prog (LockOp M B A) (LockOp.Answer R) V) :
    Discipline (Locked.machine ι effect code) (Option (B × μ)) where
  idle := none
  pre τ o := (∀ b x, τ = some (b, x) → G.point b x o) ∧ G.Allows effect τ o
  post := G.After effect
  Inv := G.Knows
  keeps sh τs t o r sh' hinv hpre hp := by
    change Locked.perform effect t o sh = some (r, sh') at hp
    obtain ⟨-, hpre⟩ := hpre
    cases o with
    | lock m =>
      obtain ⟨hm, rfl⟩ := Locked.perform_lock hp
      by_cases hg : ∃ b, m = G.guard b
      · obtain ⟨b, rfl⟩ := hg
        exact ⟨_, .inl ⟨b, _, rfl, hinv.free b hm, rfl⟩, hinv.enter (hpre b rfl) hm⟩
      · have hg : ∀ b, m ≠ G.guard b := fun b e => hg ⟨b, e⟩
        refine ⟨τs t, .inr ⟨hg, rfl⟩, ?_⟩
        rw [Function.update_eq_self]
        exact hinv.own hg
    | unlock m =>
      obtain ⟨-, rfl⟩ := Locked.perform_unlock hp
      by_cases hg : ∃ b, m = G.guard b
      · obtain ⟨b, rfl⟩ := hg
        obtain ⟨x, hτ, hx⟩ := hpre b rfl
        exact ⟨none, .inl ⟨b, rfl, rfl⟩, hinv.leave hτ hx⟩
      · have hg : ∀ b, m ≠ G.guard b := fun b e => hg ⟨b, e⟩
        refine ⟨τs t, .inr ⟨hg, rfl⟩, ?_⟩
        rw [Function.update_eq_self]
        exact hinv.own hg
    | access b a =>
      obtain ⟨rfl, rfl⟩ := Locked.perform_access hp
      by_cases hx : ∃ x, τs t = some (b, x)
      · obtain ⟨x, hτ⟩ := hx
        obtain ⟨-, rfl⟩ := hinv.owner t b x hτ
        exact ⟨_, .inl ⟨_, hτ, rfl, rfl⟩, hinv.put hτ⟩
      · refine ⟨τs t, .inr ⟨fun x hτ => hx ⟨x, hτ⟩, rfl⟩, ?_⟩
        rwa [Function.update_eq_self, hpre.resolve_left hx, Locked.put_mem]

section Rules

variable {effect : (a : A) → μ → R a × μ} {code : C → Prog (LockOp M B A) (LockOp.Answer R) V}
  {α : Type} {Q : Option (B × μ) → α → Prop} {m : M} {b : B} {x : μ} {a : A}
  {k : Unit → Prog (LockOp M B A) (LockOp.Answer R) α}

/-- A section starts with any content that satisfies `Inv`. -/
theorem keeps_enter : (G.discipline ι effect code).Keeps Q none (.op (.lock (G.guard b)) k) ↔
    ∀ x, G.Inv b x → (G.discipline ι effect code).Keeps Q (some (b, x)) (k ()) := by
  refine Discipline.keeps_op.trans ⟨fun h x hx => h.2 () _ (.inl ⟨b, x, rfl, hx, rfl⟩), fun h => ?_⟩
  refine ⟨⟨nofun, fun _ _ => rfl⟩, ?_⟩
  rintro _ _ (⟨b', x, e, hx, rfl⟩ | ⟨hno, -⟩)
  · cases G.injective e
    exact h x hx
  · exact absurd rfl (hno b)

/-- A section ends with a content that satisfies `Inv`. -/
theorem keeps_leave :
    (G.discipline ι effect code).Keeps Q (some (b, x)) (.op (.unlock (G.guard b)) k) ↔
      (G.point b x (.unlock (G.guard b)) ∧ G.Inv b x) ∧
        (G.discipline ι effect code).Keeps Q none (k ()) := by
  refine Discipline.keeps_op.trans (and_congr ⟨fun ⟨hp, ha⟩ => ?_, fun ⟨hp, hx⟩ => ?_⟩
    ⟨fun h => h () _ (.inl ⟨b, rfl, rfl⟩), fun h => ?_⟩)
  · obtain ⟨_, ⟨⟩, hx⟩ := ha b rfl
    exact ⟨hp b x rfl, hx⟩
  · refine ⟨?_, fun b' e => ?_⟩
    · rintro _ _ ⟨⟩
      exact hp
    · cases G.injective e
      exact ⟨x, rfl, hx⟩
  · rintro _ _ (⟨_, -, rfl⟩ | ⟨hno, -⟩)
    · exact h
    · exact absurd rfl (hno b)

/-- In a section, an operation that an account allows and that keeps it. -/
theorem keeps_same {o : LockOp M B A}
    {k : o.Answer R → Prog (LockOp M B A) (LockOp.Answer R) α}
    (hallows : G.Allows effect (some (b, x)) o)
    (hafter : ∀ r τ', G.After effect (some (b, x)) o r τ' ↔ τ' = some (b, x)) :
    (G.discipline ι effect code).Keeps Q (some (b, x)) (.op o k) ↔
      G.point b x o ∧ ∀ r, (G.discipline ι effect code).Keeps Q (some (b, x)) (k r) := by
  refine Discipline.keeps_op.trans (and_congr ⟨fun h => h.1 b x rfl, fun hp => ⟨?_, hallows⟩⟩
    ⟨fun h r => h r _ ((hafter r _).mpr rfl), fun h r τ' hτ => ?_⟩)
  · rintro _ _ ⟨⟩
    exact hp
  · cases (hafter r τ').mp hτ
    exact h r

/-- A mutex that is no guard changes nothing. -/
theorem keeps_lock (hm : ∀ b, m ≠ G.guard b) :
    (G.discipline ι effect code).Keeps Q (some (b, x)) (.op (.lock m) k) ↔
      G.point b x (.lock m) ∧ (G.discipline ι effect code).Keeps Q (some (b, x)) (k ()) := by
  have hallows : G.Allows effect (some (b, x)) (.lock m) := fun b' e => absurd e (hm b')
  have hafter : ∀ r τ', G.After effect (some (b, x)) (.lock m) r τ' ↔ τ' = some (b, x) :=
    fun _ τ' => ⟨fun h => (h.resolve_left fun ⟨b', _, e, _⟩ => hm b' e).2, fun h => .inr ⟨hm, h⟩⟩
  exact (keeps_same hallows hafter).trans (and_congr_right' ⟨fun h => h (), fun h _ => h⟩)

theorem keeps_unlock (hm : ∀ b, m ≠ G.guard b) :
    (G.discipline ι effect code).Keeps Q (some (b, x)) (.op (.unlock m) k) ↔
      G.point b x (.unlock m) ∧ (G.discipline ι effect code).Keeps Q (some (b, x)) (k ()) := by
  have hallows : G.Allows effect (some (b, x)) (.unlock m) := fun b' e => absurd e (hm b')
  have hafter : ∀ r τ', G.After effect (some (b, x)) (.unlock m) r τ' ↔ τ' = some (b, x) :=
    fun _ τ' => ⟨fun h => (h.resolve_left fun ⟨b', e, _⟩ => hm b' e).2, fun h => .inr ⟨hm, h⟩⟩
  exact (keeps_same hallows hafter).trans (and_congr_right' ⟨fun h => h (), fun h _ => h⟩)

/-- In its section a thread reads and changes the content. -/
theorem keeps_own {k : R a → Prog (LockOp M B A) (LockOp.Answer R) α} :
    (G.discipline ι effect code).Keeps Q (some (b, x)) (.op (.access b a) k) ↔
      G.point b x (.access b a) ∧
        (G.discipline ι effect code).Keeps Q (some (b, (effect a x).2)) (k (effect a x).1) := by
  refine Discipline.keeps_op.trans (and_congr
    ⟨fun h => h.1 b x rfl, fun hp => ⟨?_, .inl ⟨x, rfl⟩⟩⟩
    ⟨fun h => h _ _ (.inl ⟨x, rfl, rfl, rfl⟩), fun h => ?_⟩)
  · rintro _ _ ⟨⟩
    exact hp
  · rintro _ _ (⟨_, ⟨⟩, rfl, rfl⟩ | ⟨hno, -⟩)
    · exact h
    · exact absurd rfl (hno x)

/-- Outside of the sections a load gives any value. -/
theorem keeps_load {k : R a → Prog (LockOp M B A) (LockOp.Answer R) α}
    (ha : ∀ x, (effect a x).2 = x) :
    (G.discipline ι effect code).Keeps Q none (.op (.access b a) k) ↔
      ∀ r, (G.discipline ι effect code).Keeps Q none (k r) := by
  refine Discipline.keeps_op.trans ⟨fun h r => h.2 r _ (.inr ⟨nofun, rfl⟩), fun h => ?_⟩
  refine ⟨⟨nofun, .inr ha⟩, ?_⟩
  rintro r _ (⟨_, ⟨⟩, -⟩ | ⟨-, rfl⟩)
  exact h r

end Rules

/-! ## What the discipline gives -/

section Good

variable {effect : (a : A) → μ → R a × μ} {code : C → Prog (LockOp M B A) (LockOp.Answer R) V}
  {Q : C → V → Prop} {s s' : Pool ι (Locked ι M B μ) (LockOp M B A) (LockOp.Answer R) C V} {t : ι}
  {b : B} {l : Move ι C}

/-- A part satisfies `Inv`, or a thread is in a section of the part and its next operation satisfies
`point`. -/
theorem inv_or_point (hg : (G.discipline ι effect code).Good Q s) (b : B) :
    G.Inv b (s.shared.mem b) ∨ ∃ t c o k, s.thread t = some (c, .op o k) ∧
      G.point b (s.shared.mem b) o := by
  obtain ⟨τs, hinv, hc⟩ := hg
  cases ho : s.shared.owner (G.guard b) with
  | none => exact .inl (hinv.free b ho)
  | some t =>
    refine .inr ⟨t, ?_⟩
    have hτ := hinv.account t b ho
    have ht := hc t
    rcases h : s.thread t with _ | ⟨c, v | ⟨o, k⟩⟩
    · rw [h] at ht
      cases hτ.symm.trans ht
    · rw [h] at ht
      cases hτ.symm.trans ht.1
    · rw [h] at ht
      exact ⟨c, o, k, rfl, ht.1.1 b _ hτ⟩

/-- While a thread owns a guard, a step changes the part only if it is a store of this thread. -/
theorem mem_eq (hg : (G.discipline ι effect code).Good Q s)
    (ho : s.shared.owner (G.guard b) = some t)
    (h : (Locked.machine ι effect code).lts.step s l = some s')
    (hl : ∀ c a k, s.thread t = some (c, .op (.access b a) k) → ∀ x, (effect a x).2 = x) :
    s'.shared.mem b = s.shared.mem b := by
  obtain ⟨τs, hinv, hc⟩ := hg
  cases Machine.does_of_step h with
  | call _ => rfl
  | finish _ => rfl
  | @step u c o k r sh hu hp =>
    change Locked.perform effect u o s.shared = some (r, sh) at hp
    cases o with
    | lock m =>
      obtain ⟨-, rfl⟩ := Locked.perform_lock hp
      rfl
    | unlock m =>
      obtain ⟨-, rfl⟩ := Locked.perform_unlock hp
      rfl
    | access b' a =>
      obtain ⟨-, rfl⟩ := Locked.perform_access hp
      by_cases hb : b' = b
      · subst hb
        have hload : ∀ x, (effect a x).2 = x := by
          by_cases hut : u = t
          · subst hut
            exact hl c a k hu
          · have hallows : G.Allows effect (τs u) (.access b' a) := by
              have := hc u
              rw [hu] at this
              exact this.1.2
            refine hallows.resolve_left fun ⟨x, hτ⟩ => hut ?_
            exact Option.some.inj ((hinv.owner u b' x hτ).1.symm.trans ho)
        rw [hload, Locked.put_mem]
        rfl
      · exact Locked.put_ne (Ne.symm hb)

end Good

end Guarded
