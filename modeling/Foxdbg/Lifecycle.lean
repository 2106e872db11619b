import Foxdbg.Passes

/-!
# The life of the server (`foxdbg_init`, `foxdbg_shutdown`, `foxdbg_thread.cpp`)

`sys` is the program while its server runs. Here is the process around it: the application's thread
that calls `foxdbg_init` and `foxdbg_shutdown`, and the server thread, from its start over the loop
around `lws_service` to its end (`lifecycle`). A wait in `lws_service` ends with a network event, or
with the wake-up that `lws_cancel_service` leaves in the pipe of the context. The other threads of
the application can call the rest of the interface at any time.

* `lifecycle_run`: from `foxdbg_init` to the next one, the process runs the program: its steps are a
  run of `sys` from the initial state (but for the static buffers, which keep what is in them).
* `silent_after_shutdown`: when `foxdbg_shutdown` has set `running` to false, the callback that runs
  then is the last one that sends; nothing is sent from its end to the next `foxdbg_init`.
* `shutdown_returns`: the `join` of `foxdbg_shutdown` comes to its end by the steps of the two
  threads, in a bounded number of them, exactly if the server thread does not wait without a
  wake-up. `lost_wakeup` is a run to such a state: the wake-up is sent before `running` is set to
  false, and the server thread can take it in between.
-/

namespace Foxdbg

/-- Where the server thread is. -/
inductive ServerPoint where
  /-- `foxdbg_server_thread` is not joinable. -/
  | none
  /-- At `lws_create_context`. -/
  | create
  /-- At `foxdbg_protocol_init`. -/
  | protocolInit
  /-- At the test of `running`. -/
  | test
  /-- In `lws_service`, waiting. -/
  | wait
  /-- In `lws_service`, handling events. -/
  | serve
  /-- At `foxdbg_protocol_shutdown`. -/
  | stop
  /-- It has returned. -/
  | exited
  deriving DecidableEq

/-- The server thread is before its loop or after `foxdbg_protocol_shutdown`. -/
def ServerPoint.isClosed : ServerPoint → Bool
  | .none | .create | .protocolInit | .exited => true
  | _ => false

/-- Where the thread is that calls `foxdbg_init` and `foxdbg_shutdown`. -/
inductive MainPoint where
  /-- In neither of them. -/
  | out
  /-- After `lws_cancel_service`. -/
  | cancelled
  /-- After `running.store(false)`, at the `join`. -/
  | joining
  deriving DecidableEq

/-- The process. -/
structure Process where
  program : State
  running : Bool
  /-- `context` is not `NULL`. -/
  context : Bool
  /-- The context has a wake-up that no wait has taken. -/
  wakeup : Bool
  server : ServerPoint
  main : MainPoint
  /-- `std::terminate` or a null pointer has ended the process. -/
  ended : Bool

/-- A step of the process. -/
inductive ProcessLabel where
  /-- `foxdbg_init`. -/
  | init
  /-- The steps of `foxdbg_shutdown`. -/
  | cancel
  | store
  | join
  /-- The steps of `foxdbg_server_thread_main`. -/
  | create (ok : Bool)
  | protocolInit
  | test
  /-- A wait ends, with an event of the network or a timer, or with the wake-up alone. -/
  | wake (event : Bool)
  /-- `lws_service` returns. -/
  | leave
  | protocolShutdown
  /-- A step of the program: of the application's threads, or in a callback. -/
  | program (l : Label)

/-- The steps of the server thread and the `join` that need no event from outside. -/
def ProcessLabel.isLocal : ProcessLabel → Bool
  | .join | .create _ | .protocolInit | .test | .wake false | .leave | .protocolShutdown => true
  | .program l => l.isPass
  | _ => false

def ProcessLabel.isInit : ProcessLabel → Bool
  | .init => true
  | _ => false

/-- A message that `lws_write` was called with. -/
def Obs.isSent : Obs → Bool
  | .text .. | .frame .. => true
  | _ => false

namespace State

/-- The messages of a run, newest first. -/
def sentMessages (s : State) : List Obs := s.trace.filter Obs.isSent

/-- The program after `foxdbg_init`: `foxdbg.c` resets its lists, and the new server thread makes a
context without sockets. The static buffers and the client of `foxdbg_protocol.cpp` stay. A write
call that is between its sections goes on in a buffer that is in no list. A trace is the one of a
session. -/
def restart (s : State) : State :=
  { State.init with
    rawDataBuffer := s.rawDataBuffer
    encodeBuffer := s.encodeBuffer
    infoDataBuffer := s.infoDataBuffer
    txBuffer := s.txBuffer
    client := s.client }

/-- The program after `foxdbg_protocol_shutdown`. The lists stay, since `foxdbg.c` owns them. -/
def dropClient (s : State) : State := { s with client := none }

end State

namespace Process

/-- Before the first `foxdbg_init`. -/
def boot : Process := ⟨.init, false, false, false, .none, .out, false⟩

/-- The label is a call of `websocket_callback` while `running` is false: it returns -1. -/
def refuses (p : Process) : Label → Bool
  | .callback .. => !p.running
  | _ => false

/-- A step of the program, if its thread can take it now. -/
def runProgram (env : Env) (p : Process) (l : Label) : Option Process :=
  if l.isApp then (p.program.step env l).map fun s => { p with program := s }
  else if p.server ≠ .serve then none
  else if p.refuses l then if p.program.pc = .idle then some p else none
  else (p.program.step env l).map fun s => { p with program := s }

/-- The effect of a label; `none` if the thread cannot take this step now. -/
def fire (env : Env) (p : Process) : ProcessLabel → Option Process
  | .init =>
    if p.main ≠ .out then none
    else if p.server ≠ .none then some { p with ended := true }
    else some { p with program := p.program.restart, running := true, server := .create }
  | .cancel =>
    if p.main ≠ .out then none
    else if !p.context then some { p with ended := true }
    else some { p with wakeup := true, main := .cancelled }
  | .store =>
    if p.main = .cancelled then some { p with running := false, main := .joining } else none
  | .join =>
    if p.main ≠ .joining then none
    else if p.server = .none ∨ p.server = .exited then some { p with server := .none, main := .out }
    else none
  | .create ok =>
    if p.server = .create then
      some { p with context := ok, wakeup := false, server := .protocolInit }
    else none
  | .protocolInit => if p.server = .protocolInit then some { p with server := .test } else none
  | .test =>
    if p.server ≠ .test then none
    else if !p.running then some { p with server := .stop }
    else if p.context then some { p with server := .wait }
    else some p
  | .wake event =>
    if p.server = .wait ∧ (event || p.wakeup) then
      some { p with server := .serve, wakeup := false }
    else none
  | .leave =>
    if p.server = .serve ∧ p.program.pc = .idle then some { p with server := .test } else none
  | .protocolShutdown =>
    if p.server = .stop then
      some { p with program := p.program.dropClient, server := .exited }
    else none
  | .program l => p.runProgram env l

/-- A step of the process. -/
def step (env : Env) (p : Process) (l : ProcessLabel) : Option Process :=
  if p.ended ∨ p.program.pc = .crashed then none else p.fire env l

end Process

/-- The process as a transition system. -/
def lifecycle (env : Env) : Lts Process ProcessLabel := ⟨Process.step env⟩

namespace Process

/-- The step of the program that a step of the process is. -/
def shown (p : Process) : ProcessLabel → Option Label
  | .program l => if p.refuses l then none else some l
  | _ => none

end Process

/-! ## Steps -/

namespace Process

variable {env : Env} {p q : Process} {l : ProcessLabel}

theorem step_eq_some : p.step env l = some q ↔
    p.ended = false ∧ p.program.pc ≠ .crashed ∧ p.fire env l = some q := by
  unfold step
  by_cases h : p.ended = true ∨ p.program.pc = .crashed
  · simp only [h, if_true]
    refine ⟨by rintro ⟨⟩, fun ⟨hended, hlive, _⟩ => ?_⟩
    obtain h | h := h
    · rw [h] at hended
      cases hended
    · exact absurd h hlive
  · rw [if_neg h]
    rw [not_or, Bool.not_eq_true] at h
    exact ⟨fun hfire => ⟨h.1, h.2, hfire⟩, fun hfire => hfire.2.2⟩

/-- What a step does. -/
inductive Does (env : Env) (p : Process) : ProcessLabel → Process → Prop
  | init : p.main = .out → p.server = .none → Does env p .init
      { p with program := p.program.restart, running := true, server := .create }
  /-- `foxdbg_init` assigns a thread to one that is joinable. -/
  | initTwice : p.main = .out → p.server ≠ .none → Does env p .init { p with ended := true }
  | cancel : p.main = .out → p.context = true → Does env p .cancel
      { p with wakeup := true, main := .cancelled }
  /-- `foxdbg_shutdown` passes a null pointer to `lws_cancel_service`. -/
  | cancelNull : p.main = .out → p.context = false → Does env p .cancel { p with ended := true }
  | store : p.main = .cancelled → Does env p .store { p with running := false, main := .joining }
  | join : p.main = .joining → p.server = .none ∨ p.server = .exited → Does env p .join
      { p with server := .none, main := .out }
  | create (ok : Bool) : p.server = .create → Does env p (.create ok)
      { p with context := ok, wakeup := false, server := .protocolInit }
  | protocolInit : p.server = .protocolInit → Does env p .protocolInit { p with server := .test }
  | testStop : p.server = .test → p.running = false → Does env p .test { p with server := .stop }
  | testWait : p.server = .test → p.running = true → p.context = true → Does env p .test
      { p with server := .wait }
  | testSpin : p.server = .test → p.running = true → p.context = false → Does env p .test p
  | wake (event : Bool) : p.server = .wait → (event || p.wakeup) = true → Does env p (.wake event)
      { p with server := .serve, wakeup := false }
  | leave : p.server = .serve → p.program.pc = .idle → Does env p .leave { p with server := .test }
  | protocolShutdown : p.server = .stop → Does env p .protocolShutdown
      { p with program := p.program.dropClient, server := .exited }
  | app {l : Label} {s : State} : l.isApp = true → p.program.step env l = some s →
      Does env p (.program l) { p with program := s }
  | refuse {l : Label} : l.isApp = false → p.server = .serve → p.refuses l = true →
      p.program.pc = .idle → Does env p (.program l) p
  | serve {l : Label} {s : State} : l.isApp = false → p.server = .serve → p.refuses l = false →
      p.program.step env l = some s → Does env p (.program l) { p with program := s }

theorem does_of_step (h : p.step env l = some q) : Does env p l q := by
  obtain ⟨-, -, h⟩ := step_eq_some.mp h
  cases l with
  | init =>
    simp only [fire, Option.ite_none_left_eq_some, not_not] at h
    obtain ⟨hmain, h⟩ := h
    split at h
    · cases h
      exact .initTwice hmain ‹_›
    · cases h
      exact .init hmain (not_not.mp ‹_›)
  | cancel =>
    simp only [fire, Option.ite_none_left_eq_some, not_not] at h
    obtain ⟨hmain, h⟩ := h
    split at h
    · cases h
      exact .cancelNull hmain (Bool.not_eq_true' _ |>.mp ‹_›)
    · cases h
      exact .cancel hmain (Bool.not_eq_false _ |>.mp fun hnull => ‹¬_› (by rw [hnull]; rfl))
  | store =>
    simp only [fire, Option.ite_none_right_eq_some] at h
    obtain ⟨hmain, h⟩ := h
    cases h
    exact .store hmain
  | join =>
    simp only [fire, Option.ite_none_left_eq_some, Option.ite_none_right_eq_some, not_not] at h
    obtain ⟨hmain, hserver, h⟩ := h
    cases h
    exact .join hmain hserver
  | create ok =>
    simp only [fire, Option.ite_none_right_eq_some] at h
    obtain ⟨hserver, h⟩ := h
    cases h
    exact .create ok hserver
  | protocolInit =>
    simp only [fire, Option.ite_none_right_eq_some] at h
    obtain ⟨hserver, h⟩ := h
    cases h
    exact .protocolInit hserver
  | test =>
    simp only [fire, Option.ite_none_left_eq_some, not_not] at h
    obtain ⟨hserver, h⟩ := h
    split at h
    · cases h
      exact .testStop hserver (Bool.not_eq_true' _ |>.mp ‹_›)
    · have hrunning : p.running = true :=
        Bool.not_eq_false _ |>.mp fun hstopped => ‹¬_› (by rw [hstopped]; rfl)
      split at h
      · cases h
        exact .testWait hserver hrunning ‹_›
      · cases h
        exact .testSpin hserver hrunning (Bool.not_eq_true _ |>.mp ‹_›)
  | wake event =>
    simp only [fire, Option.ite_none_right_eq_some] at h
    obtain ⟨⟨hserver, hwake⟩, h⟩ := h
    cases h
    exact .wake event hserver hwake
  | leave =>
    simp only [fire, Option.ite_none_right_eq_some] at h
    obtain ⟨⟨hserver, hpc⟩, h⟩ := h
    cases h
    exact .leave hserver hpc
  | protocolShutdown =>
    simp only [fire, Option.ite_none_right_eq_some] at h
    obtain ⟨hserver, h⟩ := h
    cases h
    exact .protocolShutdown hserver
  | program l =>
    simp only [fire, runProgram] at h
    cases happ : l.isApp with
    | true =>
      simp only [happ, if_true] at h
      obtain ⟨s, hs, rfl⟩ := Option.map_eq_some_iff.mp h
      exact .app happ hs
    | false =>
      simp only [happ, Bool.false_eq_true, if_false, Option.ite_none_left_eq_some, not_not] at h
      obtain ⟨hserver, h⟩ := h
      cases hrefuses : p.refuses l with
      | true =>
        simp only [hrefuses, if_true, Option.ite_none_right_eq_some, Option.some.injEq] at h
        obtain ⟨hpc, rfl⟩ := h
        exact .refuse happ hserver hrefuses hpc
      | false =>
        simp only [hrefuses, Bool.false_eq_true, if_false] at h
        obtain ⟨s, hs, rfl⟩ := Option.map_eq_some_iff.mp h
        exact .serve happ hserver hrefuses hs

/-! ## What holds at any time -/

/-- What holds of the process at any time. -/
structure Inv (p : Process) : Prop where
  /-- Callbacks run in `lws_service`. -/
  serving : p.program.pc ≠ .idle → p.program.pc ≠ .crashed → p.server = .serve
  within : p.program.pc.Within p.program.ids.length
  client : p.server.isClosed = true → p.program.client = none
  started : p.main ≠ .joining → (p.running = true ↔ p.server ≠ .none)
  stopped : p.main = .joining → p.running = false
  ended : p.ended = true → p.main = .out

namespace Inv

theorem boot : Inv boot where
  serving := fun h => absurd rfl h
  within := trivial
  client := fun _ => rfl
  started := fun _ => ⟨by rintro ⟨⟩, fun h => absurd rfl h⟩
  stopped := by rintro ⟨⟩
  ended := by rintro ⟨⟩

/-- The program steps. -/
theorem program (hi : Inv p) {l : Label} {s : State} (hs : p.program.step env l = some s)
    (hl : l.isApp = true ∨ p.server = .serve) : Inv { p with program := s } := by
  have hout := State.fire_outcome (State.step_eq_some.mp hs).2
  refine ⟨fun hidle hlive => ?_, within_step hs hi.within, fun hclosed => ?_, hi.started,
    hi.stopped, hi.ended⟩
  · obtain hl | hl := hl
    · have hpc : s.pc = p.program.pc := (hout.app hl).1.resolve_right hlive
      rw [hpc] at hidle hlive
      exact hi.serving hidle hlive
    · exact hl
  · obtain hl | hl := hl
    · rw [(hout.session (by rintro w r rfl; cases hl)).1]
      exact hi.client hclosed
    · replace hclosed : p.server.isClosed = true := hclosed
      rw [hl] at hclosed
      cases hclosed

/-- The server thread goes from one place to another, outside of a callback. -/
theorem move (hi : Inv p) {context wakeup : Bool} {place place' : ServerPoint}
    (hserver : p.server = place) (hplaces : place ≠ .none ∧ place' ≠ .none)
    (hidle : place = .serve → p.program.pc = .idle)
    (hclient : place'.isClosed = true → p.program.client = none) :
    Inv { p with context := context, wakeup := wakeup, server := place' } where
  serving := fun hpc hlive => absurd (hidle (hserver.symm.trans (hi.serving hpc hlive))) hpc
  within := hi.within
  client := hclient
  started := fun hmain =>
    ⟨fun _ => hplaces.2, fun _ => (hi.started hmain).mpr (hserver ▸ hplaces.1)⟩
  stopped := hi.stopped
  ended := hi.ended

/-- A step keeps it. -/
theorem step (h : p.step env l = some q) (hi : Inv p) : Inv q := by
  obtain ⟨hended, hlive, -⟩ := step_eq_some.mp h
  have hidle : p.server ≠ .serve → p.program.pc = .idle := fun hserver =>
    not_not.mp fun hpc => hserver (hi.serving hpc hlive)
  have hgoes : p.ended ≠ true := by rw [hended]; rintro ⟨⟩
  cases does_of_step h with
  | init hmain hserver =>
    exact ⟨fun hpc => absurd rfl hpc, trivial, fun _ => hi.client (by rw [hserver]; rfl),
      fun _ => ⟨fun _ => by rintro ⟨⟩, fun _ => rfl⟩,
      fun hjoining => absurd (hmain.symm.trans hjoining) (by rintro ⟨⟩), fun _ => hmain⟩
  | initTwice hmain =>
    exact ⟨hi.serving, hi.within, hi.client, hi.started, hi.stopped, fun _ => hmain⟩
  | cancel hmain =>
    exact ⟨hi.serving, hi.within, hi.client,
      fun _ => hi.started (by rw [hmain]; rintro ⟨⟩), by rintro ⟨⟩, fun h => absurd h hgoes⟩
  | cancelNull hmain =>
    exact ⟨hi.serving, hi.within, hi.client, hi.started, hi.stopped, fun _ => hmain⟩
  | store =>
    exact ⟨hi.serving, hi.within, hi.client, fun h => absurd rfl h, fun _ => rfl,
      fun h => absurd h hgoes⟩
  | join hmain hserver =>
    have hclosed : p.server ≠ .serve ∧ p.server.isClosed = true := by
      obtain h | h := hserver <;> rw [h] <;> exact ⟨by rintro ⟨⟩, rfl⟩
    refine ⟨fun hpc => absurd (hidle hclosed.1) hpc, hi.within, fun _ => hi.client hclosed.2,
      fun _ => ?_, by rintro ⟨⟩, fun _ => rfl⟩
    show p.running = true ↔ _
    rw [hi.stopped hmain]
    exact ⟨by rintro ⟨⟩, fun h => absurd rfl h⟩
  | create ok hserver =>
    exact hi.move hserver (by decide) (by rintro ⟨⟩) fun _ =>
      hi.client (by rw [hserver]; rfl)
  | protocolInit hserver =>
    exact hi.move hserver (by decide) (by rintro ⟨⟩) (by rintro ⟨⟩)
  | testStop hserver =>
    exact hi.move hserver (by decide) (by rintro ⟨⟩) (by rintro ⟨⟩)
  | testWait hserver =>
    exact hi.move hserver (by decide) (by rintro ⟨⟩) (by rintro ⟨⟩)
  | testSpin => exact hi
  | wake event hserver =>
    exact hi.move hserver (by decide) (by rintro ⟨⟩) (by rintro ⟨⟩)
  | leave hserver hpc =>
    exact hi.move hserver (by decide) (fun _ => hpc) (by rintro ⟨⟩)
  | protocolShutdown hserver =>
    have hpc := hidle (by rw [hserver]; rintro ⟨⟩)
    exact ⟨fun h => absurd hpc h, hi.within, fun _ => rfl,
      fun hmain => ⟨fun _ => by rintro ⟨⟩, fun _ => (hi.started hmain).mpr (by
        rw [hserver]
        rintro ⟨⟩)⟩, hi.stopped, hi.ended⟩
  | app happ hs => exact hi.program hs (.inl happ)
  | refuse => exact hi
  | serve _ hserver _ hs => exact hi.program hs (.inr hserver)

/-- It holds in every state that the process can reach. -/
theorem reach {ls : List ProcessLabel} (hr : (lifecycle env).Reach Process.boot ls p) : Inv p :=
  hr.inv (I := Inv) (fun _ _ _ h _ hi => hi.step h) boot

end Inv

/-! ## Sessions -/

/-- The program has taken the steps of `sys` to `s`, and has no client once the server thread is
over. -/
def Follows (p : Process) (s : State) : Prop :=
  p.program = s ∧ p.server ≠ .none ∧ p.server ≠ .exited ∨
    p.program = s.dropClient ∧ (p.server = .none ∨ p.server = .exited)

/-- The application does not look at the client. -/
theorem fire_dropClient (s : State) {l : Label} (hl : l.isApp = true) :
    s.dropClient.fire env l = (s.fire env l).map State.dropClient := by
  cases l with
  | addChannel n ty hz al =>
    simp only [State.fire, State.dropClient]
    cases s.registry.addChannel n ty hz al <;> rfl
  | addRxChannel n ty al => rfl
  | write u k c d =>
    show (if s.busy u then none else _) = Option.map _ (if s.busy u then none else _)
    cases s.busy u with
    | true => rfl
    | false =>
      have hregistry : s.dropClient.registry = s.registry := rfl
      rw [if_neg Bool.false_ne_true, if_neg Bool.false_ne_true, hregistry]
      cases s.registry.write k c d <;> rfl
  | swap u =>
    simp only [State.fire, State.dropClient]
    cases s.pending.find? (·.1 == u) <;> rfl
  | _ => cases hl

theorem step_dropClient (s : State) {l : Label} (hl : l.isApp = true) :
    s.dropClient.step env l = (s.step env l).map State.dropClient := by
  unfold State.step
  rw [apply_ite (Option.map _), ← fire_dropClient _ hl]
  rfl

/-- The application steps. -/
theorem Follows.app {s t : State} {l : Label} (hp : p.Follows s) (hl : l.isApp = true)
    (ht : p.program.step env l = some t) :
    ∃ u, s.step env l = some u ∧ Follows { p with program := t } u := by
  obtain ⟨hprogram, hserver⟩ | ⟨hprogram, hserver⟩ := hp
  · exact ⟨t, hprogram ▸ ht, .inl ⟨rfl, hserver⟩⟩
  · rw [hprogram, step_dropClient s hl] at ht
    obtain ⟨u, hu, rfl⟩ := Option.map_eq_some_iff.mp ht
    exact ⟨u, hu, .inr ⟨rfl, hserver⟩⟩

theorem Follows.eq {s : State} {place : ServerPoint} (hp : p.Follows s) (hserver : p.server = place)
    (hplace : place ≠ .none ∧ place ≠ .exited) : p.program = s := by
  obtain ⟨hprogram, -⟩ | ⟨-, hover⟩ := hp
  · exact hprogram
  · rw [hserver] at hover
    exact absurd hover (not_or.mpr hplace)

/-- The server thread goes from one place to another. -/
theorem Follows.move {s : State} {context wakeup : Bool} {place place' : ServerPoint}
    (hp : p.Follows s) (hserver : p.server = place) (hplace : place ≠ .none ∧ place ≠ .exited)
    (hplace' : place' ≠ .none ∧ place' ≠ .exited) :
    Follows { p with context := context, wakeup := wakeup, server := place' } s :=
  .inl ⟨hp.eq hserver hplace, hplace'⟩

/-- A step of a session is one of the program, or none. -/
theorem Follows.step {s : State} (h : p.step env l = some q) (hl : l ≠ .init) (hp : p.Follows s) :
    ∃ t, (sys env).Reach s (p.shown l).toList t ∧ q.Follows t := by
  cases does_of_step h with
  | init => exact absurd rfl hl
  | initTwice => exact absurd rfl hl
  | cancel => exact ⟨s, .nil s, hp⟩
  | cancelNull => exact ⟨s, .nil s, hp⟩
  | store => exact ⟨s, .nil s, hp⟩
  | join _ hserver =>
    refine ⟨s, .nil s, .inr ⟨?_, .inl rfl⟩⟩
    obtain ⟨-, hopen⟩ | ⟨hprogram, -⟩ := hp
    · exact absurd hserver (not_or.mpr hopen)
    · exact hprogram
  | create ok hserver => exact ⟨s, .nil s, hp.move hserver (by decide) (by decide)⟩
  | protocolInit hserver => exact ⟨s, .nil s, hp.move hserver (by decide) (by decide)⟩
  | testStop hserver => exact ⟨s, .nil s, hp.move hserver (by decide) (by decide)⟩
  | testWait hserver => exact ⟨s, .nil s, hp.move hserver (by decide) (by decide)⟩
  | testSpin => exact ⟨s, .nil s, hp⟩
  | wake event hserver => exact ⟨s, .nil s, hp.move hserver (by decide) (by decide)⟩
  | leave hserver => exact ⟨s, .nil s, hp.move hserver (by decide) (by decide)⟩
  | protocolShutdown hserver =>
    refine ⟨s, .nil s, .inr ⟨?_, .inr rfl⟩⟩
    rw [← hp.eq hserver (by decide)]
  | @app l t happ ht =>
    obtain ⟨u, hu, hfollows⟩ := hp.app happ ht
    have hshown : p.shown (.program l) = some l := by
      refine if_neg ?_
      cases l with
      | callback => cases happ
      | _ => rintro ⟨⟩
    rw [hshown]
    exact ⟨u, .cons hu trivial (.nil u), hfollows⟩
  | @refuse l _ _ hrefuses =>
    have hshown : p.shown (.program l) = none := if_pos hrefuses
    rw [hshown]
    exact ⟨s, .nil s, hp⟩
  | @serve l t _ hserver hrefuses ht =>
    have hshown : p.shown (.program l) = some l := if_neg (by rw [hrefuses]; rintro ⟨⟩)
    rw [hshown]
    rw [hp.eq hserver (by decide)] at ht
    refine ⟨t, .cons ht trivial (.nil t), .inl ⟨rfl, ?_⟩⟩
    show p.server ≠ .none ∧ p.server ≠ .exited
    rw [hserver]
    decide

/-- A run of a session is a run of the program. -/
theorem Follows.run {s : State} {fs : List ProcessLabel} (hp : p.Follows s)
    (hrun : (lifecycle env).Run (fun _ l _ => l ≠ .init) p fs q) :
    ∃ t, (sys env).Reach s ((lifecycle env).collect shown p fs) t ∧ q.Follows t := by
  induction hrun generalizing s with
  | nil p => exact ⟨s, .nil s, hp⟩
  | @cons p p₁ q l fs h hl _ ih =>
    obtain ⟨s₁, hs₁, hp₁⟩ := hp.step h hl
    obtain ⟨t, ht, hq⟩ := ih hp₁
    have hcollect : (lifecycle env).collect shown p (l :: fs) =
        (p.shown l).toList ++ (lifecycle env).collect shown p₁ fs := by
      rw [Lts.collect, h]
      rfl
    rw [hcollect]
    exact ⟨t, hs₁.append ht, hq⟩

end Process

/-- **Sessions.** -/
theorem lifecycle_run {env : Env} {p p₀ q : Process} {ls fs : List ProcessLabel}
    (hr : (lifecycle env).Reach Process.boot ls p) (hinit : p.step env .init = some p₀)
    (hended : p₀.ended = false) (hrun : (lifecycle env).Run (fun _ l _ => l ≠ .init) p₀ fs q) :
    p₀.program = { State.init with
      rawDataBuffer := p.program.rawDataBuffer
      encodeBuffer := p.program.encodeBuffer
      infoDataBuffer := p.program.infoDataBuffer
      txBuffer := p.program.txBuffer } ∧
    ∃ s, (sys env).Reach p₀.program ((lifecycle env).collect Process.shown p₀ fs) s ∧
      q.Follows s := by
  have hi := Process.Inv.reach hr
  cases Process.does_of_step hinit with
  | initTwice => cases hended
  | init hmain hserver =>
    refine ⟨?_, ?_⟩
    · have hclient := hi.client (by rw [hserver]; rfl)
      show p.program.restart = _
      rw [State.restart, hclient]
      rfl
    · exact Process.Follows.run (.inl ⟨rfl, by rintro ⟨⟩, by rintro ⟨⟩⟩) hrun

/-- The server thread starts, and a client connects. -/
def opening : List ProcessLabel :=
  [.create true, .protocolInit, .test, .wake true, .program (.callback 0 .established), .leave,
    .test, .cancel]

/-- The server thread ends. -/
def closing : List ProcessLabel :=
  [.wake false, .leave, .test, .protocolShutdown, .join]

theorem opening_run : ∃ p₀ q, Process.boot.step .standIn .init = some p₀ ∧
    (lifecycle .standIn).Run (fun _ l _ => l ≠ .init) p₀ opening q ∧
    ∃ s, (sys .standIn).Reach p₀.program
      ((lifecycle .standIn).collect Process.shown p₀ opening) s ∧ q.Follows s := by
  let p₀ : Process := { Process.boot with
    program := Process.boot.program.restart, running := true, server := .create }
  have hinit : Process.boot.step .standIn .init = some p₀ :=
    Process.step_eq_some.mpr ⟨rfl, by rintro ⟨⟩, rfl⟩
  obtain ⟨q, hq, -⟩ := Lts.exists_run (L := lifecycle .standIn) (s := p₀)
    (q := fun _ l _ => !l.isInit) (p := fun _ => true) (Q := fun _ l _ => l ≠ .init) opening
    (fun _ l _ h => by rintro rfl; cases h) (by decide +kernel)
  exact ⟨p₀, q, hinit, hq, (lifecycle_run (.nil _) hinit rfl hq).2⟩

namespace Process

variable {env : Env} {p q : Process} {l : ProcessLabel} {fs : List ProcessLabel}

/-! ## After `foxdbg_shutdown` -/

/-- `running` is false and no callback runs; there are the given messages. -/
structure Silent (sent : List Obs) (p : Process) : Prop where
  running : p.running = false
  pc : p.program.pc = .idle ∨ p.program.pc = .crashed
  sent : p.program.sentMessages = sent

/-- The application sends nothing. -/
theorem sentMessages_app {s t : State} {l : Label} (h : s.step env l = some t)
    (hl : l.isApp = true) : t.sentMessages = s.sentMessages := by
  obtain ⟨obs, htrace, hobs⟩ := (State.fire_outcome (State.step_eq_some.mp h).2).trace
  have hnone : obs.filter Obs.isSent = [] := by
    refine List.filter_eq_nil_iff.mpr fun o ho => ?_
    have hfrom := hobs o ho
    cases o with
    | text w d =>
      cases (show l = _ from hfrom)
      cases hl
    | frame w c d =>
      obtain ⟨nsec, rfl⟩ := hfrom
      cases hl
    | _ => rintro ⟨⟩
  rw [State.sentMessages, htrace, List.filter_append, hnone]
  rfl

theorem Silent.step {sent : List Obs} (h : p.step env l = some q) (hl : l ≠ .init)
    (hp : p.Silent sent) : q.Silent sent := by
  obtain ⟨-, hlive, -⟩ := step_eq_some.mp h
  cases does_of_step h with
  | init => exact absurd rfl hl
  | store => exact ⟨rfl, hp.pc, hp.sent⟩
  | testWait _ hrunning =>
    rw [hp.running] at hrunning
    cases hrunning
  | app happ hs =>
    have hout := State.fire_outcome (State.step_eq_some.mp hs).2
    refine ⟨hp.running, ?_, (sentMessages_app hs happ).trans hp.sent⟩
    obtain hpc | hpc := (hout.app happ).1
    · rw [show _ = _ from hpc]
      exact hp.pc
    · exact .inr hpc
  | @serve l s happ _ hrefuses hs =>
    -- no pass goes on, and a callback is refused
    have hidle := hp.pc.resolve_right hlive
    have hpass : l.isPass ≠ true := fun hpass => State.pc_ne_idle hs hpass hidle
    cases l with
    | callback w reason =>
      rw [refuses, hp.running] at hrefuses
      cases hrefuses
    | visit => exact absurd rfl hpass
    | readInfo => exact absurd rfl hpass
    | encode => exact absurd rfl hpass
    | stamp => exact absurd rfl hpass
    | _ => cases happ
  | _ => exact ⟨hp.running, hp.pc, hp.sent⟩

theorem Silent.run {sent : List Obs} (hrun : (lifecycle env).Run (fun _ l _ => l ≠ .init) p fs q)
    (hp : p.Silent sent) : q.Silent sent :=
  hrun.inv (I := Silent sent) (fun _ _ _ h hl hp => hp.step h hl) hp

/-- `running` stays false until the next `foxdbg_init`. -/
theorem running_step (h : p.step env l = some q) (hl : l ≠ .init) (hp : p.running = false) :
    q.running = false := by
  cases does_of_step h with
  | init => exact absurd rfl hl
  | store => rfl
  | _ => exact hp

end Process

/-- **Silence.** When `foxdbg_shutdown` has set `running` to false, nothing is sent any more if no
callback runs at that time, and in any case once the server thread is out of `lws_service`, or
`foxdbg_shutdown` has returned. So it is until the next `foxdbg_init`. -/
theorem silent_after_shutdown {env : Env} {p p₁ q r : Process} {ls fs gs : List ProcessLabel}
    (hr : (lifecycle env).Reach Process.boot ls p) (hstore : p.step env .store = some p₁)
    (hrun : (lifecycle env).Run (fun _ l _ => l ≠ .init) p₁ fs q)
    (hq : p₁.program.pc = .idle ∨ q.server ≠ .serve ∨ q.main = .out)
    (hrun' : (lifecycle env).Run (fun _ l _ => l ≠ .init) q gs r) :
    r.program.sentMessages = q.program.sentMessages := by
  have hi₁ : p₁.Inv := (Process.Inv.reach hr).step hstore
  have hi : q.Inv := hrun.inv (I := Process.Inv) (fun _ _ _ h _ hi => hi.step h) hi₁
  have hstopped : p₁.running = false := by
    cases Process.does_of_step hstore
    rfl
  have hrunning : q.running = false :=
    hrun.inv (I := fun q => q.running = false) (fun _ _ _ h hl => Process.running_step h hl)
      hstopped
  have hpc : q.program.pc = .idle ∨ q.program.pc = .crashed := by
    obtain hidle | hleft | hout := hq
    · exact (Process.Silent.run hrun ⟨hstopped, .inl hidle, rfl⟩).pc
    · by_contra hpc
      rw [not_or] at hpc
      exact hleft (hi.serving hpc.1 hpc.2)
    · by_contra hpc
      rw [not_or] at hpc
      have hserver := hi.serving hpc.1 hpc.2
      have hstarted := (hi.started (by rw [hout]; rintro ⟨⟩)).mpr (by rw [hserver]; rintro ⟨⟩)
      rw [hrunning] at hstarted
      cases hstarted
  exact (Process.Silent.run hrun' ⟨hrunning, hpc, rfl⟩).sent

/-- The application goes on. -/
def later : List ProcessLabel := [.program (.addChannel (ascii "a") (some .integer) 10 .zeroed)]

/-- A client got its texts before `foxdbg_shutdown`. -/
theorem silent_after_closing : ∃ p₁ q r : Process,
    (lifecycle .standIn).Reach .boot (.init :: opening ++ [.store]) p₁ ∧
    (lifecycle .standIn).Reach p₁ closing q ∧ (lifecycle .standIn).Reach q later r ∧
    q.program.sentMessages ≠ [] ∧ r.program.sentMessages = q.program.sentMessages := by
  let noInit : Process → ProcessLabel → Process → Bool := fun _ l _ => !l.isInit
  have hnoInit : ∀ p l q, noInit p l q = true → l ≠ .init := fun _ l _ h => by
    rintro rfl
    cases h
  obtain ⟨p, hp, hstore⟩ := Lts.exists_reach (L := lifecycle .standIn) (s := .boot)
    (p := fun p => (p.step .standIn .store).any fun p₁ =>
      ((lifecycle .standIn).exec noInit p₁ closing).any fun q =>
        q.main == .out && (!q.program.sentMessages.isEmpty &&
          ((lifecycle .standIn).exec noInit q later).isSome))
    (.init :: opening) (by decide +kernel)
  obtain ⟨p₁, hp₁, hclosing⟩ := (Option.any_eq_true ..).mp hstore
  obtain ⟨q, hq, htests⟩ := Lts.exists_run closing hnoInit hclosing
  simp only [Bool.and_eq_true, beq_iff_eq, Bool.not_eq_true', List.isEmpty_eq_false_iff] at htests
  obtain ⟨hout, hsent, hlater⟩ := htests
  obtain ⟨r, hr⟩ := Option.isSome_iff_exists.mp hlater
  have hr := Lts.run_of_exec hnoInit hr
  exact ⟨p₁, q, r, hp.snoc hp₁ trivial, hq.reach, hr.reach, hsent,
    silent_after_shutdown hp hp₁ hq (.inr (.inr hout)) hr⟩

namespace Process

variable {env : Env} {p q : Process} {l : ProcessLabel} {fs : List ProcessLabel}

/-! ## The `join` -/

/-- The server thread waits, and there is no wake-up. -/
def Stuck (p : Process) : Prop := p.server = .wait ∧ p.wakeup = false

/-- The most steps up to the end of the `join`. -/
def rest (p : Process) : Nat :=
  match p.server with
  | .none | .exited => 1
  | .stop => 2
  | .test => 3
  | .protocolInit => 4
  | .create | .wait => 5
  | .serve => 4 + (4 * p.program.ids.length + 1 - p.program.pc.steps p.program.ids.length)

theorem rest_le (p : Process) : p.rest ≤ 4 * p.program.ids.length + 5 := by
  unfold rest
  cases p.server <;> simp only <;> omega

theorem rest_pos (p : Process) : 0 < p.rest := by
  unfold rest
  cases p.server <;> simp only <;> omega

theorem joining_or_server (h : p.step env l = some q) (hl : l.isLocal = true) :
    p.main = .joining ∨ p.server ≠ .none := by
  have hother : ∀ {x}, p.server = x → x ≠ .none → p.main = .joining ∨ p.server ≠ .none :=
    fun hserver hx => .inr (hserver ▸ hx)
  cases does_of_step h with
  | join hmain => exact .inl hmain
  | create _ hserver => exact hother hserver nofun
  | protocolInit hserver => exact hother hserver nofun
  | testStop hserver => exact hother hserver nofun
  | testWait hserver => exact hother hserver nofun
  | testSpin hserver => exact hother hserver nofun
  | wake _ hserver => exact hother hserver nofun
  | leave hserver => exact hother hserver nofun
  | protocolShutdown hserver => exact hother hserver nofun
  | serve _ hserver => exact hother hserver nofun
  | refuse _ hserver => exact hother hserver nofun
  | app happ =>
    rw [Label.isApp_of_isPass hl] at happ
    cases happ
  | _ => cases hl

/-- A step of the two threads brings the end of the `join` nearer. -/
theorem rest_step (h : p.step env l = some q) (hl : l.isLocal = true) (hi : Inv p)
    (hmain : p.main = .joining) (hq : q.main = .joining) (hlive : q.program.pc ≠ .crashed) :
    q.rest < p.rest := by
  have hstopped := hi.stopped hmain
  cases does_of_step h with
  | join => cases hq
  | create _ hserver =>
    rw [show p.rest = 5 by rw [rest, hserver]]
    exact Nat.lt_succ_self 4
  | protocolInit hserver =>
    rw [show p.rest = 4 by rw [rest, hserver]]
    exact Nat.lt_succ_self 3
  | testStop hserver =>
    rw [show p.rest = 3 by rw [rest, hserver]]
    exact Nat.lt_succ_self 2
  | testWait _ hrunning =>
    rw [hstopped] at hrunning
    cases hrunning
  | testSpin _ hrunning =>
    rw [hstopped] at hrunning
    cases hrunning
  | wake event hserver =>
    have hidle : p.program.pc = .idle := by
      by_contra hpc
      have hserving := hi.serving hpc hlive
      rw [hserver] at hserving
      cases hserving
    rw [show p.rest = 5 by rw [rest, hserver]]
    simp only [rest, hidle, Pc.steps]
    omega
  | leave hserver =>
    simp only [rest, hserver]
    omega
  | protocolShutdown hserver =>
    rw [show p.rest = 2 by rw [rest, hserver]]
    exact Nat.lt_succ_self 1
  | app happ =>
    rw [Label.isApp_of_isPass hl] at happ
    cases happ
  | @refuse l _ _ hrefuses =>
    cases l with
    | callback => cases hl
    | _ => cases hrefuses
  | serve _ hserver _ hs =>
    have hnext := State.step_place hs hl hlive hi.within
    have hids := State.ids_of_isPass hs hl
    have hsteps := hnext.steps
    have hle := (hnext.within hi.within).steps_le
    simp only [rest, hserver, hids]
    omega
  | _ => cases hl

/-- Only the two threads' own `join` ends it. -/
theorem main_step (h : p.step env l = some q) (hl : l.isLocal = true) (hmain : p.main = .joining) :
    q.main = .joining ∨ q.main = .out ∧ q.server = .none := by
  cases does_of_step h with
  | init => cases hl
  | initTwice => cases hl
  | cancel => cases hl
  | store => cases hl
  | join => exact .inr ⟨rfl, rfl⟩
  | _ => exact .inl hmain

theorem not_stuck_step (h : p.step env l = some q) (hl : l.isLocal = true) (hi : Inv p)
    (hmain : p.main = .joining) (hp : ¬ p.Stuck) : ¬ q.Stuck := by
  have hstopped := hi.stopped hmain
  cases does_of_step h with
  | testWait _ hrunning =>
    rw [hstopped] at hrunning
    cases hrunning
  | serve _ hserver =>
    rintro ⟨hwait, -⟩
    exact absurd (hserver.symm.trans hwait) (by rintro ⟨⟩)
  | init => cases hl
  | initTwice => cases hl
  | cancel => cases hl
  | cancelNull => cases hl
  | store => cases hl
  | app => exact hp
  | refuse => exact hp
  | testSpin => exact hp
  | _ => rintro ⟨⟨⟩, -⟩

/-- If it is stuck, neither of them can. -/
theorem step_of_stuck (hl : l.isLocal = true) (hp : p.Stuck) : p.step env l ≠ some q := by
  intro h
  obtain ⟨hserver, hwakeup⟩ := hp
  have hwait : ∀ {place : ServerPoint}, p.server = place → place = .wait := fun hplace =>
    hplace.symm.trans hserver
  cases does_of_step h with
  | join _ hover => simp [hserver] at hover
  | wake event _ hwake =>
    cases event with
    | true => cases hl
    | false => simp [hwakeup] at hwake
  | app happ =>
    rw [Label.isApp_of_isPass hl] at happ
    cases happ
  | init => cases hl
  | initTwice => cases hl
  | cancel => cases hl
  | cancelNull => cases hl
  | store => cases hl
  | create _ hplace => cases hwait hplace
  | protocolInit hplace => cases hwait hplace
  | testStop hplace => cases hwait hplace
  | testWait hplace => cases hwait hplace
  | testSpin hplace => cases hwait hplace
  | leave hplace => cases hwait hplace
  | protocolShutdown hplace => cases hwait hplace
  | refuse _ hplace => cases hwait hplace
  | serve _ hplace => cases hwait hplace

/-- If it is not stuck, one of the two threads can step. -/
theorem exists_local_step (env : Env) (hi : Inv p) (hmain : p.main = .joining)
    (hlive : p.program.pc ≠ .crashed) (hp : ¬ p.Stuck) :
    ∃ l q, l.isLocal = true ∧ p.step env l = some q := by
  have hended : p.ended = false := by
    refine Bool.not_eq_true _ |>.mp fun h => ?_
    rw [hi.ended h] at hmain
    cases hmain
  have hstep : ∀ {l q}, p.fire env l = some q → p.step env l = some q := fun h =>
    step_eq_some.mpr ⟨hended, hlive, h⟩
  cases hserver : p.server with
  | none => exact ⟨.join, _, rfl, hstep (by simp only [fire, hmain, hserver]; rfl)⟩
  | exited => exact ⟨.join, _, rfl, hstep (by simp only [fire, hmain, hserver]; rfl)⟩
  | create => exact ⟨.create true, _, rfl, hstep (if_pos hserver)⟩
  | protocolInit => exact ⟨.protocolInit, _, rfl, hstep (if_pos hserver)⟩
  | test =>
    exact ⟨.test, _, rfl, hstep (by
      simp only [fire, hserver, hi.stopped hmain]
      rfl)⟩
  | wait =>
    have hwakeup : p.wakeup = true := by
      refine Bool.not_eq_false _ |>.mp fun h => hp ⟨hserver, h⟩
    exact ⟨.wake false, _, rfl, hstep (if_pos ⟨hserver, by rw [hwakeup]; rfl⟩)⟩
  | serve =>
    by_cases hpc : p.program.pc = .idle
    · exact ⟨.leave, _, rfl, hstep (if_pos ⟨hserver, hpc⟩)⟩
    · obtain ⟨l, s, hl, hs⟩ := exists_pass_step env hpc hlive
      have hrefuses : p.refuses l = false := by
        cases l with
        | callback => cases hl
        | _ => rfl
      refine ⟨.program l, { p with program := s }, hl, hstep ?_⟩
      simp only [fire, runProgram, Label.isApp_of_isPass hl, hrefuses, hserver, hs]
      rfl
  | stop => exact ⟨.protocolShutdown, _, rfl, hstep (if_pos hserver)⟩

/-- What is left of the `join` after a schedule of `n` steps of the two threads. -/
inductive Joining (p : Process) (n : Nat) (q : Process) : Prop
  | joins : q.main = .joining → ¬ q.Stuck → n + q.rest ≤ p.rest → Joining p n q
  | returned : q.main = .out → q.server = .none → n ≤ p.rest → Joining p n q
  | crashed : q.program.pc = .crashed → n ≤ p.rest → Joining p n q

theorem Joining.step {r : Process} {n : Nat} (hq : Joining p n q) (hi : Inv q)
    (h : q.step env l = some r) (hl : l.isLocal = true) : Joining p (n + 1) r := by
  cases hq with
  | joins hmain hstuck hrest =>
    have hpos := q.rest_pos
    by_cases hlive : r.program.pc = .crashed
    · exact .crashed hlive (by omega)
    obtain hmain' | ⟨hout, hserver⟩ := main_step h hl hmain
    · have hlt := rest_step h hl hi hmain hmain' hlive
      exact .joins hmain' (not_stuck_step h hl hi hmain hstuck) (by omega)
    · exact .returned hout hserver (by omega)
  | returned hout hserver =>
    obtain hmain | hplace := joining_or_server h hl
    · exact absurd (hout.symm.trans hmain) (by rintro ⟨⟩)
    · exact absurd hserver hplace
  | crashed hcrashed => exact absurd hcrashed (step_eq_some.mp h).2.1

end Process

/-- **The `join` of `foxdbg_shutdown`.** While it waits, every schedule of the server thread and the
`join` alone brings it to its return, or the process to an exception, in at most `4 * n + 5` steps
for `n` channels; except if the server thread waits in `lws_service` and no wake-up is left. A step
is a whole section: no thread of the application is stopped inside one. -/
theorem shutdown_returns {env : Env} {p : Process} {ls : List ProcessLabel}
    (hr : (lifecycle env).Reach Process.boot ls p) (hmain : p.main = .joining)
    (hlive : p.program.pc ≠ .crashed) :
    (∀ fs q, (lifecycle env).Run (fun _ l _ => l.isLocal = true) p fs q →
      fs.length ≤ 4 * p.program.registry.channels.length + 5 ∧
        (q.main = .out ∨ q.program.pc = .crashed ∨
          ∃ l r, l.isLocal = true ∧ q.step env l = some r)) ↔ ¬ p.Stuck := by
  have hi := Process.Inv.reach hr
  refine ⟨fun h hstuck => ?_, fun hp fs q hrun => ?_⟩
  · -- the empty schedule cannot go on
    obtain ⟨-, hout | hcrashed | ⟨l, r, hl, hstep⟩⟩ := h [] p (.nil p)
    · exact absurd (hmain.symm.trans hout) (by rintro ⟨⟩)
    · exact hlive hcrashed
    · exact Process.step_of_stuck hl hstuck hstep
  · obtain ⟨hq, hjoining⟩ := hrun.history
      (I := fun fs q => q.Inv ∧ Process.Joining p fs.length q)
      ⟨hi, .joins hmain hp (Nat.zero_add _).le⟩ fun fs q l r _ h hl hq => by
        obtain ⟨hi, hjoining⟩ := hq
        rw [List.length_append]
        exact ⟨hi.step h, hjoining.step hi h hl⟩
    have hle := p.rest_le
    rw [State.length_ids] at hle
    cases hjoining with
    | joins hmain' hstuck hrest =>
      refine ⟨by omega, ?_⟩
      by_cases hcrashed : q.program.pc = .crashed
      · exact .inr (.inl hcrashed)
      · exact .inr (.inr (Process.exists_local_step env hq hmain' hcrashed hstuck))
    | returned hout _ hlength => exact ⟨by omega, .inl hout⟩
    | crashed hcrashed hlength => exact ⟨by omega, .inr (.inl hcrashed)⟩

/-- The server thread takes the wake-up while `running` is true, and waits again. -/
theorem lost_wakeup : ∃ p, (lifecycle .standIn).Reach .boot
      (.init :: opening ++ [.wake false, .leave, .test, .store]) p ∧ p.main = .joining ∧ p.Stuck ∧
    ¬ (∀ fs q, (lifecycle .standIn).Run (fun _ l _ => l.isLocal = true) p fs q →
      fs.length ≤ 4 * p.program.registry.channels.length + 5 ∧
        (q.main = .out ∨ q.program.pc = .crashed ∨
          ∃ l r, l.isLocal = true ∧ q.step .standIn l = some r)) := by
  obtain ⟨p, hr, hp⟩ := Lts.exists_reach (L := lifecycle .standIn) (s := .boot)
    (p := fun p => p.main == .joining &&
      (p.server == .wait && (!p.wakeup && p.program.pc == .idle)))
    (.init :: opening ++ [.wake false, .leave, .test, .store]) (by decide +kernel)
  simp only [Bool.and_eq_true, beq_iff_eq, Bool.not_eq_true'] at hp
  obtain ⟨hmain, hserver, hwakeup, hpc⟩ := hp
  have hlive : p.program.pc ≠ .crashed := by
    rw [hpc]
    rintro ⟨⟩
  exact ⟨p, hr, hmain, ⟨hserver, hwakeup⟩, fun h =>
    (shutdown_returns hr hmain hlive).mp h ⟨hserver, hwakeup⟩⟩

end Foxdbg
