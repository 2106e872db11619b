import Foxdbg.Lib.Prog

/-!
# Calls that take effect at one instant

A `Routine` is the code of calls whose loops have no bound that the code knows: a call is at a point
of the code, and a step goes from a point and the shared state to the next ones. Its threads run
calls, one step at a time, in any order (`Routine.lts`), with the moves and the histories of
`Machine`.

`Routine.atomic` is the routine of a specification: a call takes one step, which gives its result
and the next state.

* `Routine.linearizes`: if each call of a run has one step at which the specification can take its
  own step, and the result that it returns is the one of the specification, then the run has the
  history of a run of the specification. What is kept (`Linearization`) says, with the shared state
  and the points of the threads, which calls have taken effect, and their results.
* `Alone.run`: a call that ends by its own steps ends in a pool if its thread alone is scheduled.
* `Protocol.linearization`: what is kept can be given by one assertion for each point (`Fits`),
  about a world that has the shared state and the state of the specification. A step has to keep the
  assertions of the points where other threads can be. A call can have a role, which only one thread
  has at a time; what holds of the world while no one has a role (`Rest`) is handed from each holder
  of the role to the next.
-/

/-- The code of calls in `C`, which return values in `V` (module doc). -/
structure Routine (σ L C V : Type) where
  /-- The point where a call starts. -/
  start : C → L
  /-- A step from a point; `none`: the thread has to wait. -/
  step : L → σ → Option (L × σ)
  /-- The result of a call, at a point where it ends. -/
  result : L → Option V

namespace Routine

/-- What the threads `ι` share, and the call of each with its point. -/
structure Pool (ι σ L C : Type) where
  shared : σ
  thread : ι → Option (C × L)

variable {ι σ σ' L C V : Type} [DecidableEq ι]

namespace Pool

/-- No thread runs a call. -/
def start (sh : σ) : Pool ι σ L C := ⟨sh, fun _ => none⟩

/-- The pool with another state of one thread. -/
def set (s : Pool ι σ L C) (t : ι) (x : Option (C × L)) : Pool ι σ L C :=
  { s with thread := Function.update s.thread t x }

variable {s : Pool ι σ L C} {t u : ι} {x : Option (C × L)}

@[simp] theorem set_self : (s.set t x).thread t = x := Function.update_self ..

theorem set_ne (h : u ≠ t) : (s.set t x).thread u = s.thread u := Function.update_of_ne h ..

@[simp] theorem set_shared : (s.set t x).shared = s.shared := rfl

end Pool

variable (M : Routine σ L C V)

/-- The threads that run the calls. -/
def lts : Lts (Pool ι σ L C) (Move ι C) where
  step s
    | .call t c =>
      match s.thread t with
      | none => some (s.set t (some (c, M.start c)))
      | some _ => none
    | .step t =>
      match s.thread t with
      | some (c, l) =>
        (M.step l s.shared).map fun (l', sh) => { s with shared := sh }.set t (some (c, l'))
      | none => none
    | .finish t =>
      match s.thread t with
      | some (_, l) => (M.result l).map fun _ => s.set t none
      | none => none

/-- What a move does. -/
inductive Does (s : Pool ι σ L C) : Move ι C → Pool ι σ L C → Prop
  | call {t : ι} {c : C} : s.thread t = none → Does s (.call t c) (s.set t (some (c, M.start c)))
  | step {t : ι} {c : C} {l l' : L} {sh : σ} :
      s.thread t = some (c, l) → M.step l s.shared = some (l', sh) →
      Does s (.step t) ({ s with shared := sh }.set t (some (c, l')))
  | finish {t : ι} {c : C} {l : L} {v : V} : s.thread t = some (c, l) → M.result l = some v →
      Does s (.finish t) (s.set t none)

variable {M} {s s' : Pool ι σ L C} {m : Move ι C}

theorem does_of_step (h : M.lts.step s m = some s') : M.Does s m s' := by
  cases m with
  | call t c =>
    simp only [lts] at h
    split at h
    · rename_i ht
      cases h
      exact .call ht
    · cases h
  | step t =>
    simp only [lts] at h
    split at h
    · rename_i c l ht
      obtain ⟨⟨l', sh⟩, hl, rfl⟩ := Option.map_eq_some_iff.mp h
      exact .step ht hl
    · cases h
  | finish t =>
    simp only [lts] at h
    split at h
    · rename_i c l ht
      obtain ⟨v, hv, rfl⟩ := Option.map_eq_some_iff.mp h
      exact .finish ht hv
    · cases h

/-- A thread takes `n` steps from a point to another, and no other thread does. -/
inductive Alone (M : Routine σ L C V) : Nat → L → σ → L → σ → Prop
  | done (l : L) (sh : σ) : Alone M 0 l sh l sh
  | step {n : Nat} {l l₁ l' : L} {sh sh₁ sh' : σ} : M.step l sh = some (l₁, sh₁) →
      Alone M n l₁ sh₁ l' sh' → Alone M (n + 1) l sh l' sh'

/-- What a thread does alone, it does in a pool. -/
theorem Alone.run {n : Nat} {l l' : L} {sh sh' : σ} (h : Alone M n l sh l' sh') {t : ι} {c : C}
    (ht : s.thread t = some (c, l)) (hs : s.shared = sh) :
    ∃ s', M.lts.Reach s (List.replicate n (.step t)) s' ∧ s'.thread t = some (c, l') ∧
      s'.shared = sh' ∧ ∀ u, u ≠ t → s'.thread u = s.thread u := by
  induction h generalizing s with
  | done l sh => exact ⟨s, .nil s, ht, hs, fun _ _ => rfl⟩
  | @step n l l₁ l' sh sh₁ sh' hstep _ ih =>
    obtain ⟨s', hr, ht', hs', hothers⟩ :=
      ih (s := { s with shared := sh₁ }.set t (some (c, l₁))) Pool.set_self rfl
    have hmove : M.lts.step s (.step t) = some ({ s with shared := sh₁ }.set t (some (c, l₁))) := by
      simp only [lts, ht, hs, hstep]
      rfl
    exact ⟨s', .cons hmove trivial hr, ht', hs', fun u hu =>
      (hothers u hu).trans (Pool.set_ne hu)⟩

/-- What the start of each call has and each step keeps holds of the points of all threads. -/
theorem points_inv {P : L → Prop} {Q : Pool ι σ L C → Move ι C → Pool ι σ L C → Prop}
    (hstart : ∀ c, P (M.start c))
    (hstep : ∀ l sh l' sh', M.step l sh = some (l', sh') → P l → P l') {es : List (Move ι C)}
    (hr : M.lts.Run Q s es s') (hs : ∀ t c l, s.thread t = some (c, l) → P l) :
    ∀ t c l, s'.thread t = some (c, l) → P l := by
  refine hr.inv (I := fun s => ∀ t c l, s.thread t = some (c, l) → P l)
    (fun s m s' h _ hs u c l hu => ?_) hs
  have hset : ∀ {s₁ : Pool ι σ L C} {t : ι} {x : Option (C × L)}, s₁.thread = s.thread →
      (∀ c l, x = some (c, l) → P l) → (s₁.set t x).thread u = some (c, l) → P l := by
    intro s₁ t x hs₁ hx hu
    by_cases hut : u = t
    · subst hut
      exact hx c l (Pool.set_self.symm.trans hu)
    · rw [Pool.set_ne hut, hs₁] at hu
      exact hs u c l hu
  cases does_of_step h with
  | call =>
    refine hset rfl (fun c' l' hx => ?_) hu
    cases hx
    exact hstart _
  | step ht hl =>
    refine hset rfl (fun c' l' hx => ?_) hu
    cases hx
    exact hstep _ _ _ _ hl (hs _ _ _ ht)
  | finish => exact hset rfl (by rintro _ _ ⟨⟩) hu

variable (M)

/-- What a move shows of the calls. -/
def event (s : Pool ι σ L C) : Move ι C → Option (Event ι C V)
  | .call t c => some (.call t c)
  | .step _ => none
  | .finish t => (s.thread t).bind fun (c, l) => (M.result l).map (.ret t c)

/-- The calls and the returns of a run, in order. -/
def history (s : Pool ι σ L C) (es : List (Move ι C)) : List (Event ι C V) :=
  M.lts.collect M.event s es

/-! ## Specifications -/

/-- The routine of a specification: a call has not taken effect, or it has and returns a result. -/
def atomic (apply : C → σ' → Option (V × σ')) : Routine σ' (C ⊕ V) C V where
  start := .inl
  step
    | .inl c, s => (apply c s).map fun (v, s') => (.inr v, s')
    | .inr _, _ => none
  result
    | .inl _ => none
    | .inr v => some v

/-- Where a call is in the specification: it has a result if it has taken effect. -/
def effectPoint (c : C) : Option V → C ⊕ V
  | none => .inl c
  | some v => .inr v

/-- What the steps of a routine keep, so that each call takes effect at one of them: `Inv` relates
the shared state and the points to the state of the specification and to the results of the calls
that have taken effect. -/
structure Linearization (M : Routine σ L C V) (apply : C → σ' → Option (V × σ'))
    (Q : Pool ι σ L C → Move ι C → Pool ι σ L C → Prop)
    (Inv : Pool ι σ L C → σ' → (ι → Option V) → Prop) : Prop where
  call : ∀ {s a d t c}, Inv s a d → s.thread t = none →
    Q s (.call t c) (s.set t (some (c, M.start c))) →
    Inv (s.set t (some (c, M.start c))) a (Function.update d t none)
  step : ∀ {s a d t c l l' sh}, Inv s a d → s.thread t = some (c, l) →
    M.step l s.shared = some (l', sh) →
    Inv ({ s with shared := sh }.set t (some (c, l'))) a d ∨
      d t = none ∧ ∃ v a', apply c a = some (v, a') ∧
        Inv ({ s with shared := sh }.set t (some (c, l'))) a' (Function.update d t (some v))
  finish : ∀ {s a d t c l v}, Inv s a d → s.thread t = some (c, l) → M.result l = some v →
    d t = some v ∧ Inv (s.set t none) a d

variable {M} {apply : C → σ' → Option (V × σ')}
  {Q : Pool ι σ L C → Move ι C → Pool ι σ L C → Prop}
  {Inv : Pool ι σ L C → σ' → (ι → Option V) → Prop}

/-- The call of a thread in the specification. -/
def specCall (r : Option V) (x : Option (C × L)) : Option (C × (C ⊕ V)) :=
  x.map fun y => (y.1, effectPoint y.1 r)

/-- The specification with the calls of a pool, of which those with a result have taken effect. -/
def Pool.spec (s : Pool ι σ L C) (a : σ') (d : ι → Option V) : Pool ι σ' (C ⊕ V) C :=
  ⟨a, fun t => specCall (d t) (s.thread t)⟩

/-- What a thread does changes the call of that thread in the specification. -/
theorem Pool.spec_set (s s' : Pool ι σ L C) (a a' : σ') (d d' : ι → Option V) {t : ι}
    {x : Option (C × L)} (hthread : s'.thread = Function.update s.thread t x)
    (hd : ∀ u, u ≠ t → d' u = d u) :
    s'.spec a' d' = { s.spec a d with shared := a' }.set t (specCall (d' t) x) := by
  unfold Pool.spec Pool.set
  congr 1
  funext u
  rw [hthread]
  by_cases hu : u = t
  · subst hu
    rw [Function.update_self, Function.update_self]
  · rw [Function.update_of_ne hu, Function.update_of_ne hu, hd u hu]

/-- A move of a thread is matched by a move of the specification with the same event, or by none. -/
theorem Linearization.matched {a : σ'} {d : ι → Option V}
    (hlin : Linearization M apply Q Inv) (hi : Inv s a d) (h : M.lts.step s m = some s')
    (hq : Q s m s') : ∃ fs a' d', (atomic apply).lts.Reach (s.spec a d) fs (s'.spec a' d') ∧
      Inv s' a' d' ∧ (atomic apply).history (s.spec a d) fs = (M.event s m).toList := by
  cases does_of_step h with
  | @call t c ht =>
    have hspec : (s.spec a d).thread t = none := by simp [Pool.spec, specCall, ht]
    have hset := Pool.spec_set s (s.set t (some (c, M.start c))) a a d (Function.update d t none)
      rfl fun u hu => Function.update_of_ne hu ..
    have hstep : (atomic apply).lts.step (s.spec a d) (.call t c) =
        some ((s.set t (some (c, M.start c))).spec a (Function.update d t none)) := by
      rw [hset, Function.update_self]
      simp only [lts, hspec]
      rfl
    refine ⟨[.call t c], a, _, .cons hstep trivial (.nil _), hlin.call hi ht hq, ?_⟩
    simp [history, Lts.collect, hstep, event]
  | @step t c l l' sh ht hl =>
    have hspec : (s.spec a d).thread t = some (c, effectPoint c (d t)) := by
      simp [Pool.spec, specCall, ht]
    obtain hi' | ⟨hd, v, a', happly, hi'⟩ := hlin.step hi ht hl
    · refine ⟨[], a, d, ?_, hi', rfl⟩
      have hset := Pool.spec_set s ({ s with shared := sh }.set t (some (c, l'))) a a d d
        rfl fun _ _ => rfl
      have hsame : s.spec a d = ({ s with shared := sh }.set t (some (c, l'))).spec a d := by
        rw [hset]
        unfold Pool.set
        rw [show specCall (d t) (some (c, l')) = (s.spec a d).thread t from hspec.symm,
          Function.update_eq_self]
        rfl
      rw [← hsame]
      exact .nil _
    · have hset := Pool.spec_set s ({ s with shared := sh }.set t (some (c, l'))) a a' d
        (Function.update d t (some v)) rfl fun u hu => Function.update_of_ne hu ..
      have hstep : (atomic apply).lts.step (s.spec a d) (.step t) =
          some (({ s with shared := sh }.set t (some (c, l'))).spec a'
            (Function.update d t (some v))) := by
        rw [hset, Function.update_self]
        simp only [lts, hspec, hd, effectPoint, atomic]
        rw [show (s.spec a d).shared = a from rfl, happly]
        rfl
      refine ⟨[.step t], a', _, .cons hstep trivial (.nil _), hi', ?_⟩
      simp [history, Lts.collect, hstep, event]
  | @finish t c l v ht hv =>
    obtain ⟨hd, hi'⟩ := hlin.finish hi ht hv
    have hspec : (s.spec a d).thread t = some (c, .inr v) := by
      simp [Pool.spec, specCall, ht, hd, effectPoint]
    have hset := Pool.spec_set s (s.set t none) a a d d rfl fun _ _ => rfl
    have hstep : (atomic apply).lts.step (s.spec a d) (.finish t) =
        some ((s.set t none).spec a d) := by
      rw [hset]
      simp only [lts, hspec, atomic]
      rfl
    have hresult : (atomic apply).result (.inr v) = some v := rfl
    refine ⟨[.finish t], a, d, .cons hstep trivial (.nil _), hi', ?_⟩
    simp [history, Lts.collect, hstep, event, hspec, hresult, ht, hv]

/-- **Linearizability.** Each run has the history of a run of the specification, and what is kept
holds at the end. -/
theorem linearizes (hlin : Linearization M apply Q Inv) {a : σ'} {d : ι → Option V}
    {es : List (Move ι C)} (hi : Inv s a d) (hr : M.lts.Run Q s es s') :
    ∃ fs a' d', (atomic apply).lts.Reach (s.spec a d) fs (s'.spec a' d') ∧ Inv s' a' d' ∧
      (atomic apply).history (s.spec a d) fs = M.history s es := by
  induction hr generalizing a d with
  | nil s => exact ⟨[], a, d, .nil _, hi, rfl⟩
  | @cons s s₁ s' m es h hq _ ih =>
    obtain ⟨fs, a₁, d₁, hr₁, hi₁, hevent⟩ := hlin.matched hi h hq
    obtain ⟨gs, a', d', hr', hi', hhistory⟩ := ih hi₁
    refine ⟨fs ++ gs, a', d', hr₁.append hr', hi', ?_⟩
    unfold history at hevent hhistory ⊢
    rw [hr₁.collect_append, hevent, hhistory, Lts.collect, h]
    rfl

/-! ## Protocols -/

/-- A protocol of the points of a routine (module doc). -/
structure Protocol (M : Routine σ L C V) (apply : C → σ' → Option (V × σ')) (W Role : Type) where
  shared : W → σ
  spec : W → σ'
  role : C → Option Role
  Inv : W → Prop
  Rest : Role → W → Prop
  Fits : W → C → L → Option V → Prop
  /-- Two threads can be at these points. -/
  Apart : L → L → Prop

namespace Protocol

variable {W Role : Type} (P : Protocol M apply W Role)

/-- Two calls can run at the same time. -/
def Together (c c' : C) : Prop := P.role c = none ∨ P.role c ≠ P.role c'

/-- A step condition: a call starts only if no thread has its role. -/
def OneEach (s : Pool ι σ L C) (m : Move ι C) (_ : Pool ι σ L C) : Prop :=
  ∀ t c, m = .call t c → ∀ u c' l, s.thread u = some (c', l) → P.Together c c'

/-- What a step of a call from one point to another makes of the world. -/
structure Outcome (w : W) (c : C) (l l' : L) (r : Option V) (sh : σ) (w' : W) (r' : Option V) :
    Prop where
  shared : P.shared w' = sh
  inv : P.Inv w'
  fits : P.Fits w' c l' r'
  effect : P.spec w' = P.spec w ∧ r' = r ∨
    r = none ∧ ∃ v, r' = some v ∧ apply c (P.spec w) = some (v, P.spec w')
  others : ∀ c₂ l₂ r₂, P.Together c c₂ → P.Apart l l₂ → P.Fits w c₂ l₂ r₂ →
    P.Fits w' c₂ l₂ r₂ ∧ P.Apart l' l₂
  rest : ∀ x, P.role c ≠ some x → P.Rest x w → P.Rest x w'

/-- The rules of a protocol. -/
structure Keeps : Prop where
  apart_symm : ∀ {l l'}, P.Apart l l' → P.Apart l' l
  start : ∀ {w c}, P.Inv w → (∀ x, P.role c = some x → P.Rest x w) → P.Fits w c (M.start c) none
  start_apart : ∀ c l, P.Apart (M.start c) l
  step : ∀ {w c l l' r sh}, P.Inv w → P.Fits w c l r → M.step l (P.shared w) = some (l', sh) →
    ∃ w' r', P.Outcome w c l l' r sh w' r'
  finish : ∀ {w c l r v}, P.Fits w c l r → M.result l = some v →
    r = some v ∧ ∀ x, P.role c = some x → P.Rest x w

/-- What a protocol says of a pool with a world. -/
structure Holds (s : Pool ι σ L C) (d : ι → Option V) (w : W) : Prop where
  shared : P.shared w = s.shared
  inv : P.Inv w
  fits : ∀ t c l, s.thread t = some (c, l) → P.Fits w c l (d t)
  apart : ∀ t u c l c' l', t ≠ u → s.thread t = some (c, l) → s.thread u = some (c', l') →
    P.Together c c' ∧ P.Apart l l'
  rest : ∀ x, (∀ t c l, s.thread t = some (c, l) → P.role c ≠ some x) → P.Rest x w

variable {P}

omit [DecidableEq ι] in
theorem Together.symm {c c' : C} (h : P.Together c c') : P.Together c' c := by
  unfold Together at h ⊢
  by_cases hr : P.role c' = P.role c
  · rcases h with h | h
    · exact .inl (hr.trans h)
    · exact absurd hr.symm h
  · exact .inr hr

/-- The threads of a pool with another state of one thread. -/
theorem thread_set_cases {t u : ι} {x y : Option (C × L)} (h : (s.set t x).thread u = y) :
    u = t ∧ x = y ∨ u ≠ t ∧ s.thread u = y := by
  by_cases hu : u = t
  · subst hu
    rw [Pool.set_self] at h
    exact .inl ⟨rfl, h⟩
  · rw [Pool.set_ne hu] at h
    exact .inr ⟨hu, h⟩

namespace Holds

variable {d : ι → Option V} {w : W}

theorem call (hk : P.Keeps) (hs : P.Holds s d w) {t : ι} {c : C} (ht : s.thread t = none)
    (hq : P.OneEach s (.call t c) (s.set t (some (c, M.start c)))) :
    P.Holds (s.set t (some (c, M.start c))) (Function.update d t none) w := by
  have hone := hq t c rfl
  refine ⟨hs.shared, hs.inv, fun u c' l hu => ?_, fun u v c₁ l₁ c₂ l₂ huv hut hvt => ?_,
    fun x hx => ?_⟩
  · obtain ⟨rfl, h⟩ | ⟨hne, hu⟩ := thread_set_cases hu
    · cases h
      rw [Function.update_self]
      refine hk.start hs.inv fun x hx => hs.rest x fun v c' l hv hrole => ?_
      obtain hnone | hdiff := hone v c' l hv
      · rw [hnone] at hx
        cases hx
      · exact hdiff (hx.trans hrole.symm)
    · rw [Function.update_of_ne hne]
      exact hs.fits u c' l hu
  · obtain ⟨rfl, h⟩ | ⟨-, hu⟩ := thread_set_cases hut
    · cases h
      obtain ⟨rfl, -⟩ | ⟨-, hv⟩ := thread_set_cases hvt
      · exact absurd rfl huv
      · exact ⟨hone v c₂ l₂ hv, hk.start_apart _ _⟩
    · obtain ⟨rfl, h⟩ | ⟨-, hv⟩ := thread_set_cases hvt
      · cases h
        exact ⟨(hone u c₁ l₁ hu).symm, hk.apart_symm (hk.start_apart _ _)⟩
      · exact hs.apart u v c₁ l₁ c₂ l₂ huv hu hv
  · refine hs.rest x fun u c' l hu => ?_
    by_cases hut : u = t
    · subst hut
      rw [ht] at hu
      cases hu
    · exact hx u c' l ((Pool.set_ne hut).trans hu)

theorem step (hk : P.Keeps) (hs : P.Holds s d w) {t : ι} {c : C} {l l' : L} {sh : σ}
    {r' : Option V} {w' : W} (ht : s.thread t = some (c, l))
    (ho : P.Outcome w c l l' (d t) sh w' r') :
    P.Holds ({ s with shared := sh }.set t (some (c, l'))) (Function.update d t r') w' := by
  have hother : ∀ u c₂ l₂, u ≠ t → s.thread u = some (c₂, l₂) →
      P.Together c c₂ ∧ P.Fits w' c₂ l₂ (d u) ∧ P.Apart l' l₂ := by
    intro u c₂ l₂ hu hthread
    obtain ⟨htogether, hapart⟩ := hs.apart t u c l c₂ l₂ (Ne.symm hu) ht hthread
    exact ⟨htogether, ho.others c₂ l₂ (d u) htogether hapart (hs.fits u c₂ l₂ hthread)⟩
  refine ⟨ho.shared, ho.inv, fun u c' l₂ hu => ?_, fun u v c₁ l₁ c₂ l₂ huv hut hvt => ?_,
    fun x hx => ?_⟩
  · obtain ⟨rfl, h⟩ | ⟨hne, hu⟩ := thread_set_cases hu
    · cases h
      rw [Function.update_self]
      exact ho.fits
    · rw [Function.update_of_ne hne]
      exact (hother u c' l₂ hne hu).2.1
  · obtain ⟨rfl, h⟩ | ⟨hne, hu⟩ := thread_set_cases hut
    · cases h
      obtain ⟨rfl, -⟩ | ⟨hne, hv⟩ := thread_set_cases hvt
      · exact absurd rfl huv
      · obtain ⟨htogether, -, hapart⟩ := hother v c₂ l₂ hne hv
        exact ⟨htogether, hapart⟩
    · obtain ⟨rfl, h⟩ | ⟨-, hv⟩ := thread_set_cases hvt
      · cases h
        obtain ⟨htogether, -, hapart⟩ := hother u c₁ l₁ hne hu
        exact ⟨htogether.symm, hk.apart_symm hapart⟩
      · exact hs.apart u v c₁ l₁ c₂ l₂ huv hu hv
  · have hrole : P.role c ≠ some x := hx t c l' Pool.set_self
    refine ho.rest x hrole (hs.rest x fun u c' l₂ hu => ?_)
    by_cases hut : u = t
    · subst hut
      cases ht.symm.trans hu
      exact hrole
    · exact hx u c' l₂ ((Pool.set_ne hut).trans hu)

theorem finish (hk : P.Keeps) (hs : P.Holds s d w) {t : ι} {c : C} {l : L} {v : V}
    (ht : s.thread t = some (c, l)) (hv : M.result l = some v) :
    P.Holds (s.set t none) d w := by
  obtain ⟨-, hrest⟩ := hk.finish (hs.fits t c l ht) hv
  refine ⟨hs.shared, hs.inv, fun u c' l' hu => ?_, fun u v c₁ l₁ c₂ l₂ huv hut hvt => ?_,
    fun x hx => ?_⟩
  · obtain ⟨-, hu⟩ | ⟨-, hu⟩ := thread_set_cases hu
    · cases hu
    · exact hs.fits u c' l' hu
  · obtain ⟨-, hu⟩ | ⟨-, hu⟩ := thread_set_cases hut
    · cases hu
    · obtain ⟨-, hv⟩ | ⟨-, hv⟩ := thread_set_cases hvt
      · cases hv
      · exact hs.apart u v c₁ l₁ c₂ l₂ huv hu hv
  · by_cases hrole : P.role c = some x
    · exact hrest x hrole
    · refine hs.rest x fun u c' l' hu => ?_
      by_cases hut : u = t
      · subst hut
        cases ht.symm.trans hu
        exact hrole
      · exact hx u c' l' ((Pool.set_ne hut).trans hu)

end Holds

variable (P) in
/-- What a protocol keeps. -/
def Kept (s : Pool ι σ L C) (a : σ') (d : ι → Option V) : Prop :=
  ∃ w, P.spec w = a ∧ P.Holds s d w

/-- **The protocol rule.** The rules of a protocol make its calls take effect at one instant. -/
theorem linearization (hk : P.Keeps) :
    Linearization M apply P.OneEach (P.Kept : Pool ι σ L C → σ' → (ι → Option V) → Prop) := by
  refine ⟨?_, ?_, ?_⟩
  · rintro s a d t c ⟨w, ha, h⟩ ht hq
    exact ⟨w, ha, h.call hk ht hq⟩
  · rintro s a d t c l l' sh ⟨w, rfl, h⟩ ht hl
    rw [← h.shared] at hl
    obtain ⟨w', r', ho⟩ := hk.step h.inv (h.fits t c l ht) hl
    have hstep := h.step hk ht ho
    obtain ⟨hspec, rfl⟩ | ⟨hd, v, rfl, happly⟩ := ho.effect
    · rw [Function.update_eq_self] at hstep
      exact .inl ⟨w', hspec, hstep⟩
    · exact .inr ⟨hd, v, _, happly, w', rfl, hstep⟩
  · rintro s a d t c l v ⟨w, ha, h⟩ ht hv
    exact ⟨(hk.finish (h.fits t c l ht) hv).1, w, ha, h.finish hk ht hv⟩

omit [DecidableEq ι] in
/-- A protocol starts with no call running, if every role is at rest. -/
theorem Holds.start {w : W} (hinv : P.Inv w) (hrest : ∀ x, P.Rest x w) (d : ι → Option V) :
    P.Holds (.start (P.shared w)) d w :=
  ⟨rfl, hinv, by rintro _ _ _ ⟨⟩, by rintro _ _ _ _ _ _ _ ⟨⟩, fun x _ => hrest x⟩

end Protocol

end Routine
