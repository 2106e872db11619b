import Foxdbg.Lib.Sections

/-!
# Sections as single steps

Threads that keep to guarded sections run as threads whose operations are whole sections. In the
machine of the sections (`SectionLevel.machine`) an operation `(b, s)` runs the section `s` on the
part `b` at once; the section `s` is a function of an abstract content, which `Rep` relates to the
memory of the part.

`Simulates` is the weakest precondition of one program of single steps: outside of its sections it
has the same rest as its abstract program (`outside`); in a section (`inside`) the abstract program
is still before the section, and the memory of the part has to represent the result of the section
when the guard is given back. There are a rule for sequences (`simulates_bind`) and one for each
operation (`simulates_*`).

* `SectionLevel.reduction`: if the code of every call simulates its abstract code, then each run of
  the single steps has the history of a run of the sections: the same calls and returns in the same
  order, with the same results.
-/

/-! ## The two levels -/

/-- What the sections of guarded parts do (module doc). -/
structure SectionLevel (M B A μ S ν : Type) (R : A → Type) (R' : S → Type) where
  guard : B → M
  injective : Function.Injective guard
  /-- The single steps. -/
  effect : (a : A) → μ → R a × μ
  /-- The sections. -/
  run : B → (s : S) → ν → R' s × ν
  Rep : B → μ → ν → Prop

namespace SectionLevel

variable {ι M B A μ S ν C V W α β : Type} {R : A → Type} {R' : S → Type}

/-- The programs of single steps, and of sections. -/
abbrev Steps (M B A : Type) (R : A → Type) (α : Type) := Prog (LockOp M B A) (LockOp.Answer R) α

abbrev Whole (B S : Type) (R' : S → Type) (W : Type) := Prog (B × S) (fun o => R' o.2) W

/-- Where a thread is: outside of the sections, with the rest of its abstract program; or in a
section of a part with this memory, from which it has to go to a content, and then to a rest. -/
inductive Mode (B μ S ν : Type) (R' : S → Type) (W : Type) where
  | outside (a : Whole B S R' W)
  | inside (b : B) (x : μ) (y : ν) (a : Whole B S R' W)

variable (L : SectionLevel M B A μ S ν R R')

/-- A program of single steps simulates its abstract program (module doc). -/
def Simulates (Q : Mode B μ S ν R' W → α → Prop) : Mode B μ S ν R' W → Steps M B A R α → Prop
  | m, .ret v => Q m v
  | .outside a, .op (.lock m) k => ∃ b s ka, m = L.guard b ∧ a = .op (b, s) ka ∧
      ∀ x y, L.Rep b x y →
        Simulates Q (.inside b x (L.run b s y).2 (ka (L.run b s y).1)) (k ())
  | .outside _, .op (.unlock _) _ => False
  | .outside a, .op (.access _ act) k =>
      (∀ x, (L.effect act x).2 = x) ∧ ∀ r, Simulates Q (.outside a) (k r)
  | .inside b x y a, .op (.lock m) k =>
      (∀ b', m ≠ L.guard b') ∧ Simulates Q (.inside b x y a) (k ())
  | .inside b x y a, .op (.unlock m) k =>
      (m = L.guard b ∧ L.Rep b x y ∧ Simulates Q (.outside a) (k ())) ∨
        ((∀ b', m ≠ L.guard b') ∧ Simulates Q (.inside b x y a) (k ()))
  | .inside b x y a, .op (.access b' act) k =>
      b' = b ∧ Simulates Q (.inside b (L.effect act x).2 y a) (k (L.effect act x).1)

section Rules

variable {L} {Q : Mode B μ S ν R' W → α → Prop} {m : M} {b : B} {x : μ} {y : ν} {act : A}
  {a : Whole B S R' W} {k : Unit → Steps M B A R α}

/-- **Sequences.** The second program starts where the first one ends. -/
theorem simulates_bind {Q : Mode B μ S ν R' W → β → Prop} {p : Steps M B A R α}
    {f : α → Steps M B A R β} {mode : Mode B μ S ν R' W}
    (h : L.Simulates (fun mode v => L.Simulates Q mode (f v)) mode p) :
    L.Simulates Q mode (p >>= f) := by
  induction p generalizing mode with
  | ret v => exact h
  | op o k ih =>
    cases o with
    | lock m =>
      cases mode with
      | outside a =>
        obtain ⟨b, s, ka, hm, ha, hrest⟩ := h
        exact ⟨b, s, ka, hm, ha, fun x y hrep => ih () (hrest x y hrep)⟩
      | inside b x y a => exact ⟨h.1, ih () h.2⟩
    | unlock m =>
      cases mode with
      | outside a => exact h
      | inside b x y a =>
        exact h.imp (fun ⟨hm, hrep, hrest⟩ => ⟨hm, hrep, ih () hrest⟩)
          fun ⟨hm, hrest⟩ => ⟨hm, ih () hrest⟩
    | access b' act =>
      cases mode with
      | outside a => exact ⟨h.1, fun r => ih r (h.2 r)⟩
      | inside b x y a => exact ⟨h.1, ih _ h.2⟩

/-- A section starts where the abstract program has one of the part. -/
theorem simulates_enter {s : S} {ka : R' s → Whole B S R' W}
    (h : ∀ x y, L.Rep b x y →
      L.Simulates Q (.inside b x (L.run b s y).2 (ka (L.run b s y).1)) (k ())) :
    L.Simulates Q (.outside (.op (b, s) ka)) (.op (.lock (L.guard b)) k) :=
  ⟨b, s, ka, rfl, rfl, h⟩

/-- It ends with the content that the section makes. -/
theorem simulates_leave (hrep : L.Rep b x y) (h : L.Simulates Q (.outside a) (k ())) :
    L.Simulates Q (.inside b x y a) (.op (.unlock (L.guard b)) k) :=
  .inl ⟨rfl, hrep, h⟩

theorem simulates_lock (hm : ∀ b', m ≠ L.guard b') (h : L.Simulates Q (.inside b x y a) (k ())) :
    L.Simulates Q (.inside b x y a) (.op (.lock m) k) := ⟨hm, h⟩

theorem simulates_unlock (hm : ∀ b', m ≠ L.guard b')
    (h : L.Simulates Q (.inside b x y a) (k ())) :
    L.Simulates Q (.inside b x y a) (.op (.unlock m) k) := .inr ⟨hm, h⟩

theorem simulates_access {k : R act → Steps M B A R α}
    (h : L.Simulates Q (.inside b (L.effect act x).2 y a) (k (L.effect act x).1)) :
    L.Simulates Q (.inside b x y a) (.op (.access b act) k) := ⟨rfl, h⟩

/-- Outside of the sections a load gives any value. -/
theorem simulates_load {k : R act → Steps M B A R α} (hload : ∀ x, (L.effect act x).2 = x)
    (h : ∀ r, L.Simulates Q (.outside a) (k r)) :
    L.Simulates Q (.outside a) (.op (.access b act) k) := ⟨hload, h⟩

end Rules

/-! ## The simulation -/

/-- Threads that run calls of whole sections. -/
def machine [DecidableEq B] (ι : Type) (code : C → Whole B S R' W) :
    Machine ι (B → ν) (B × S) (fun o => R' o.2) C W where
  perform _ o mem :=
    some ((L.run o.1 o.2 (mem o.1)).1, Function.update mem o.1 (L.run o.1 o.2 (mem o.1)).2)
  code := code

/-- The guards, where a free part has the memory of its content. -/
def guarded (mem : B → ν) : Guarded M B A μ where
  guard := L.guard
  injective := L.injective
  Inv b x := L.Rep b x (mem b)
  point _ _ _ := True

/-- A program returns outside of the sections, with the result of its abstract program. -/
def Returns (view : V → W) (mode : Mode B μ S ν R' W) (v : V) : Prop :=
  mode = .outside (.ret (view v))

/-- The rest of a thread, in a section or not, simulates its abstract rest. -/
def Tracks (view : V → W) (mem : B → ν) (τ : Option (B × μ)) :
    Option (C × Steps M B A R V) → Option (C × Whole B S R' W) → Prop
  | none, x => τ = none ∧ x = none
  | some (c, p), x => ∃ a, x = some (c, a) ∧
      ((τ = none ∧ L.Simulates (Returns view) (.outside a) p) ∨
        ∃ b x s ka, τ = some (b, x) ∧ a = .op (b, s) ka ∧ L.Simulates (Returns view)
          (.inside b x (L.run b s (mem b)).2 (ka (L.run b s (mem b)).1)) p)

/-- The states of the two levels: the memory of each part represents its content, except for the
part whose guard a thread owns. -/
def Level (view : V → W) (s : Pool ι (Locked ι M B μ) (LockOp M B A) (LockOp.Answer R) C V)
    (s' : Pool ι (B → ν) (B × S) (fun o => R' o.2) C W) : Prop :=
  ∃ τs : ι → Option (B × μ), (L.guarded s'.shared).Knows s.shared τs ∧
    ∀ t, L.Tracks view s'.shared (τs t) (s.thread t) (s'.thread t)

section Step

variable {L} {mem : B → ν} {τs : ι → Option (B × μ)} {τ : Option (B × μ)} {t u : ι}
  {sh : Locked ι M B μ} {b : B} {x : μ} {y : ν} {view : V → W}
  {s s₁ : Pool ι (Locked ι M B μ) (LockOp M B A) (LockOp.Answer R) C V}
  {s' : Pool ι (B → ν) (B × S) (fun o => R' o.2) C W}

/-- A part whose guard is free represents its content. -/
theorem Level.rep (hi : L.Level view s s') (b : B) (ho : s.shared.owner (L.guard b) = none) :
    L.Rep b (s.shared.mem b) (s'.shared b) := by
  obtain ⟨τs, hknows, -⟩ := hi
  exact hknows.free b ho

section Commit

variable [DecidableEq B]

/-- While a guard is owned, the content of its part may change. -/
theorem knows_commit (h : (L.guarded mem).Knows sh τs) (ht : τs t = some (b, x)) :
    (L.guarded (Function.update mem b y)).Knows sh τs where
  owner := h.owner
  account := h.account
  free b' ho := by
    have hb : b' ≠ b := by
      rintro rfl
      cases ho.symm.trans (h.owner t b' x ht).1
    show L.Rep b' (sh.mem b') (Function.update mem b y b')
    rw [Function.update_of_ne hb]
    exact h.free b' ho

/-- A thread does not see the content of a part in whose section another thread is. -/
theorem tracks_commit (h : (L.guarded mem).Knows sh τs) (ht : τs t = some (b, x)) (hu : u ≠ t)
    {p : Option (C × Steps M B A R V)} {q : Option (C × Whole B S R' W)}
    (htracks : L.Tracks view mem (τs u) p q) :
    L.Tracks view (Function.update mem b y) (τs u) p q := by
  cases p with
  | none => exact htracks
  | some cp =>
    obtain ⟨a, ha, hout | ⟨b', x', z, ka, hτ, hop, hin⟩⟩ := htracks
    · exact ⟨a, ha, .inl hout⟩
    · have hb : b' ≠ b := by
        rintro rfl
        exact hu (Option.some.inj ((h.owner u b' x' hτ).1.symm.trans (h.owner t b' x ht).1))
      refine ⟨a, ha, .inr ⟨b', x', z, ka, hτ, hop, ?_⟩⟩
      rw [Function.update_of_ne hb]
      exact hin

end Commit

/-- The other threads stay, one thread and its account change. -/
theorem tracks_set [DecidableEq ι] {f : ι → Option (C × Steps M B A R V)}
    {g : ι → Option (C × Whole B S R' W)}
    (h : ∀ u, u ≠ t → L.Tracks view mem (τs u) (f u) (g u)) {p : Option (C × Steps M B A R V)}
    {q : Option (C × Whole B S R' W)} (hp : L.Tracks view mem τ p q) (u : ι) :
    L.Tracks view mem (Function.update τs t τ u) (Function.update f t p u)
      (Function.update g t q u) := by
  by_cases hu : u = t
  · subst hu
    simpa only [Function.update_self] using hp
  · simpa only [Function.update_of_ne hu] using h u hu

variable [DecidableEq ι] [DecidableEq M] [DecidableEq B] {code : C → Steps M B A R V}
  {code' : C → Whole B S R' W} {l : Move ι C} {P : C → Prop}

/-- Each single step is a step of the sections with the same event, or none that shows. -/
theorem Level.step (hcode : ∀ c, P c → L.Simulates (Returns view) (.outside (code' c)) (code c))
    (hcall : Machine.Calls P s l s₁)
    (h : (Locked.machine ι L.effect code).lts.step s l = some s₁) (hi : L.Level view s s') :
    ∃ fs s₁', (L.machine ι code').lts.Run (Machine.Calls P) s' fs s₁' ∧ L.Level view s₁ s₁' ∧
      (L.machine ι code').history s' fs = (Machine.event s l).toList.map (Event.map view) := by
  obtain ⟨τs, hknows, htracks⟩ := hi
  cases Machine.does_of_step h with
  | @call t c ht =>
    obtain ⟨hτ, ht'⟩ : τs t = none ∧ s'.thread t = none := by simpa [ht, Tracks] using htracks t
    have hstep : (L.machine ι code').lts.step s' (.call t c) =
        some (s'.set t (some (c, code' c))) := by simp [Machine.lts, ht', machine]
    have hcalls : Machine.Calls P s' (.call t c) (s'.set t (some (c, code' c))) := hcall
    refine ⟨[.call t c], _, .cons hstep hcalls (.nil _), ⟨Function.update τs t none, ?_, ?_⟩, ?_⟩
    · rw [← hτ, Function.update_eq_self]
      exact hknows
    · exact tracks_set (fun u _ => htracks u)
        ⟨code' c, rfl, .inl ⟨rfl, hcode c (hcall t c rfl)⟩⟩
    · simp [Machine.history, Lts.collect, Machine.event, Event.map, hstep]
  | @finish t c v ht =>
    obtain ⟨a, ht', ⟨hτ, hret⟩ | ⟨b, x, z, ka, -, -, hret⟩⟩ :
        L.Tracks view s'.shared (τs t) (some (c, .ret v)) (s'.thread t) := ht ▸ htracks t
    · cases hret
      have hstep : (L.machine ι code').lts.step s' (.finish t) = some (s'.set t none) := by
        simp [Machine.lts, ht']
      refine ⟨[.finish t], _, .cons hstep (by rintro _ _ ⟨⟩) (.nil _),
        ⟨Function.update τs t none, ?_, ?_⟩, ?_⟩
      · rw [← hτ, Function.update_eq_self]
        exact hknows
      · exact tracks_set (fun u _ => htracks u) ⟨rfl, rfl⟩
      · simp [Machine.history, Lts.collect, Machine.event, ht, ht', Event.map, hstep]
    · cases hret
  | @step t c o k r sh ht hp =>
    change Locked.perform L.effect t o s.shared = some (r, sh) at hp
    obtain ⟨a, ht', hmode⟩ :
        L.Tracks view s'.shared (τs t) (some (c, .op o k)) (s'.thread t) := ht ▸ htracks t
    have silent : ∀ τ : Option (B × μ), (L.guarded s'.shared).Knows sh (Function.update τs t τ) →
        L.Tracks view s'.shared τ (some (c, k r)) (some (c, a)) →
        ∃ fs s₁', (L.machine ι code').lts.Run (Machine.Calls P) s' fs s₁' ∧
          L.Level view ({ s with shared := sh }.set t (some (c, k r))) s₁' ∧
          (L.machine ι code').history s' fs = [] := by
      intro τ hk htr
      refine ⟨[], s', .nil s', ⟨_, hk, fun u => ?_⟩, rfl⟩
      rw [← ht'] at htr
      have hset := tracks_set (t := t) (fun u _ => htracks u) htr u
      rwa [Function.update_eq_self] at hset
    cases o with
    | lock m =>
      obtain ⟨hfree, rfl⟩ := Locked.perform_lock hp
      obtain ⟨hτ, b, z, ka, rfl, rfl, hrest⟩ | ⟨b, x, z, ka, hτ, ha, hno, hrest⟩ := hmode
      · exact silent _ (hknows.enter hτ hfree)
          ⟨_, rfl, .inr ⟨b, _, z, ka, rfl, rfl, hrest _ _ (hknows.free b hfree)⟩⟩
      · refine silent (τs t) ?_ ⟨a, rfl, .inr ⟨b, x, z, ka, hτ, ha, hrest⟩⟩
        rw [Function.update_eq_self]
        exact hknows.own hno
    | unlock m =>
      obtain ⟨-, rfl⟩ := Locked.perform_unlock hp
      obtain ⟨-, ⟨⟩⟩ | ⟨b, x, z, ka, hτ, rfl, ⟨rfl, hrep, hrest⟩ | ⟨hno, hrest⟩⟩ := hmode
      · -- the section of the abstract thread
        generalize hrun : L.run b z (s'.shared b) = v at hrep hrest
        have hstep : (L.machine ι code').lts.step s' (.step t) = some
            ({ s' with shared := Function.update s'.shared b v.2 }.set t (some (c, ka v.1))) := by
          simp [Machine.lts, ht', machine, hrun]
        have hk := knows_commit (y := v.2) hknows hτ
        refine ⟨[.step t], _, .cons hstep (by rintro _ _ ⟨⟩) (.nil _),
          ⟨Function.update τs t none, ?_, ?_⟩, ?_⟩
        · refine hk.leave hτ ?_
          show L.Rep b x (Function.update s'.shared b v.2 b)
          rwa [Function.update_self]
        · exact tracks_set (fun u hu => tracks_commit hknows hτ hu (htracks u))
            ⟨ka v.1, rfl, .inl ⟨rfl, hrest⟩⟩
        · simp [Machine.history, Lts.collect, Machine.event, hstep]
      · refine silent (τs t) ?_ ⟨_, rfl, .inr ⟨b, x, z, ka, hτ, rfl, hrest⟩⟩
        rw [Function.update_eq_self]
        exact hknows.own hno
    | access b' act =>
      obtain ⟨rfl, rfl⟩ := Locked.perform_access hp
      obtain ⟨hτ, hload, hrest⟩ | ⟨b, x, z, ka, hτ, ha, rfl, hrest⟩ := hmode
      · refine silent (τs t) ?_ ⟨a, rfl, .inl ⟨hτ, hrest _⟩⟩
        rw [Function.update_eq_self, hload, Locked.put_mem]
        exact hknows
      · obtain ⟨-, rfl⟩ := hknows.owner t _ x hτ
        exact silent _ (hknows.put hτ) ⟨a, rfl, .inr ⟨_, _, z, ka, rfl, ha, hrest⟩⟩

theorem Level.run (hcode : ∀ c, P c → L.Simulates (Returns view) (.outside (code' c)) (code c))
    {es : List (Move ι C)}
    (hr : (Locked.machine ι L.effect code).lts.Run (Machine.Calls P) s es s₁)
    (hi : L.Level view s s') :
    ∃ fs s₁', (L.machine ι code').lts.Run (Machine.Calls P) s' fs s₁' ∧
      L.Level view s₁ s₁' ∧ (L.machine ι code').history s' fs =
        ((Locked.machine ι L.effect code).history s es).map (Event.map view) := by
  induction hr generalizing s' with
  | nil s => exact ⟨[], s', .nil s', hi, rfl⟩
  | cons h hcall _ ih =>
    obtain ⟨fs, s₂', hr₁, hi₁, heq₁⟩ := hi.step hcode hcall h
    obtain ⟨gs, s₃', hr₂, hi₂, heq₂⟩ := ih hi₁
    refine ⟨fs ++ gs, s₃', hr₁.append hr₂, hi₂, ?_⟩
    unfold Machine.history at heq₁ heq₂ ⊢
    rw [hr₁.collect_append, heq₁, heq₂, ← List.map_append, Lts.collect, h]
    rfl

/-- **Reduction.** If the code of every call simulates its abstract code, then a run of the single
steps has the history of a run of the sections, and its memory represents that of this run. -/
theorem reduction (hcode : ∀ c, P c → L.Simulates (Returns view) (.outside (code' c)) (code c))
    {sh : B → μ} (hrep : ∀ b, L.Rep b (sh b) (mem b)) {es : List (Move ι C)}
    (hr : (Locked.machine ι L.effect code).lts.Run (Machine.Calls P) (.start (.free sh)) es s) :
    ∃ fs s', (L.machine ι code').lts.Run (Machine.Calls P) (.start mem) fs s' ∧
      (L.machine ι code').history (.start mem) fs =
        ((Locked.machine ι L.effect code).history (.start (.free sh)) es).map (Event.map view) ∧
      ∀ b, s.shared.owner (L.guard b) = none → L.Rep b (s.shared.mem b) (s'.shared b) := by
  have hstart : L.Level view
      (.start (.free sh) : Pool ι _ _ (LockOp.Answer R) C V) (.start mem) :=
    ⟨fun _ => none, .start hrep, fun _ => ⟨rfl, rfl⟩⟩
  obtain ⟨fs, s', hr', hi, heq⟩ := hstart.run hcode hr
  exact ⟨fs, s', hr', heq, hi.rep⟩

end Step

end SectionLevel
