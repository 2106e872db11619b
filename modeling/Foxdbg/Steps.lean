import Foxdbg.System

/-!
# What a step does

`Outcome` says once what each kind of step does to the channels (`Effect`), to the session, to the
pending calls and to the trace, and what it leaves alone; `fire_outcome` is the case analysis behind
it. The invariants of the other modules are derived from it, through two views of a state: the
subscription table (`table`) and the buffers (`buffer?`).
-/

namespace Foxdbg

open Json

/-! ## What a step does to the channels -/

/-- The channels before and after a label. -/
inductive Effect : Label → List Channel → List Channel → Prop
  | keep (l : Label) (cs : List Channel) : Effect l cs cs
  | add {n : Bytes} {ty : Option ChannelType} {hz : Int32} {al : Alloc} {ch : Channel}
      (cs : List Channel) (fresh : ch.Fresh) : Effect (.addChannel n ty hz al) cs (cs ++ [ch])
  | write (t : Tid) (k : BufferKind) (channelId : Int32) (d : Bytes) (i : Nat) (cs : List Channel) :
      Effect (.write t k channelId d) cs (cs.modify i (Channel.mapBuffer k (k.section d)))
  | swap (t : Tid) (k : BufferKind) (i : Nat) (cs : List Channel) :
      Effect (.swap t) cs (cs.modify i (Channel.mapBuffer k Buffer.swapBuffers))
  | clear (w : Socket) (reason : Reason) (cs : List Channel) :
      Effect (.callback w reason) cs (cs.map (Channel.setSubscription (-1)))
  | subscribe (w : Socket) (d : Bytes) (i : Nat) (id : Int32) (cs : List Channel) :
      Effect (.callback w (.receive d)) cs (cs.modify i (Channel.setSubscription id))
  | stamp (now : UInt64) (i : Nat) (cs : List Channel) :
      Effect (.stamp now) cs (cs.modify i fun ch => { ch with lastTxTime := now })

/-- The job that the start of an iteration makes for a channel. -/
def Channel.job (ch : Channel) (now : UInt64) : Option Job :=
  if ch.Subscribed ∧ State.isDue ch now = true ∧
      (senderOf ch.channelType).admits ch.dataBuffer.frontBufferSize = true then
    some ⟨ch.dataBuffer.frontBuffer, ch.dataBuffer.frontBufferSize, 0⟩
  else none

theorem Channel.job_some {ch : Channel} {now : UInt64} {j : Job} (h : ch.job now = some j) :
    ch.Subscribed ∧ State.isDue ch now = true ∧
      (senderOf ch.channelType).admits ch.dataBuffer.frontBufferSize = true ∧
      j = ⟨ch.dataBuffer.frontBuffer, ch.dataBuffer.frontBufferSize, 0⟩ := by
  unfold Channel.job at h
  split at h
  · rename_i hserved
    cases h
    exact ⟨hserved.1, hserved.2.1, hserved.2.2, rfl⟩
  · cases h

/-- The steps of the threads of the application. -/
def Label.isApp : Label → Bool
  | .addChannel .. | .addRxChannel .. | .write .. | .swap .. => true
  | _ => false

/-- The kind of step that an observation comes from. -/
def Obs.From (l : Label) : Obs → Prop
  | .event _ => False
  | .called _ now => l = .visit now
  | .wrote _ k d => ∃ u c, l = .write u k c d
  | .text w _ => l = .callback w .established
  | .frame .. => ∃ nsec, l = .encode nsec

namespace State

variable {env : Env} {s t : State} {l : Label}

theorem step_eq_some : s.step env l = some t ↔
    s.pc ≠ .crashed ∧ (s.log (.event l)).fire env l = some t := by
  unfold step
  split <;> simp_all

theorem opened_channels (s : State) (w : Socket) : (s.opened w).registry.channels =
    if s.client.isSome then s.registry.channels.map (Channel.setSubscription (-1))
    else s.registry.channels := by
  unfold opened
  cases s.client <;> rfl

@[simp] theorem opened_client (s : State) (w : Socket) : (s.opened w).client = some w := rfl

@[simp] theorem opened_sockets (s : State) (w : Socket) : (s.opened w).sockets = s.sockets := by
  unfold opened
  cases s.client <;> rfl

@[simp] theorem opened_pending (s : State) (w : Socket) : (s.opened w).pending = s.pending := by
  unfold opened
  cases s.client <;> rfl

@[simp] theorem opened_pc (s : State) (w : Socket) : (s.opened w).pc = s.pc := by
  unfold opened
  cases s.client <;> rfl

@[simp] theorem opened_rxChannels (s : State) (w : Socket) :
    (s.opened w).registry.rxChannels = s.registry.rxChannels := by
  unfold opened
  cases s.client <;> rfl

/-- The end of the callback of a new socket: its session is open, and it got texts only. -/
theorem established_eq (env : Env) (s : State) (w : Socket) :
    ∃ tx obs pc, settle (s.connect env w) =
        { s.opened w with txBuffer := tx, trace := obs ++ s.trace, pc } ∧
      (∀ o ∈ obs, ∃ d, o = .text w d) ∧ (pc = s.pc ∨ pc = .crashed) := by
  have hmem : ∀ text, ∀ o ∈ texts w text, ∃ d, o = .text w d := by
    intro text o ho
    unfold texts at ho
    split at ho
    · exact ⟨text, List.mem_singleton.mp ho⟩
    · cases ho
  obtain ⟨info, tx, -, ⟨-, h⟩ | ⟨text, -, h⟩⟩ := connect_cases env s w
  · exact ⟨tx, texts w info, .crashed, by rw [h]; rfl, hmem info, .inr rfl⟩
  · refine ⟨tx, texts w text ++ texts w info, (s.opened w).pc, ?_, ?_, .inl (opened_pc s w)⟩
    · rw [h, List.append_assoc]; rfl
    · intro o ho
      rcases List.mem_append.mp ho with ho | ho
      · exact hmem text o ho
      · exact hmem info o ho

/-- A received message changes the subscription of at most one channel. -/
theorem handleMessage_cases (F : FloatLib) (cs : List Channel) (j : Json) :
    handleMessage F cs j = cs ∨
      ∃ i id, handleMessage F cs j = cs.modify i (.setSubscription id) := by
  unfold handleMessage
  split
  · exact .inr ⟨_, _, rfl⟩
  · split
    · exact .inr ⟨_, _, rfl⟩
    · exact .inl rfl

/-- The state after a received message. -/
theorem received_eq (env : Env) (s : State) (d : Bytes) :
    ∃ cs pc, settle (s.receive env d) = { s.setChannels cs with pc } ∧
      (pc = s.pc ∨ pc = .crashed) ∧
      (cs = s.registry.channels ∨ ∃ j, parseMessage env.toFloatLib d = some (some j) ∧
        cs = handleMessage env.toFloatLib s.registry.channels j) := by
  unfold receive
  split
  · exact ⟨s.registry.channels, .crashed, rfl, .inr rfl, .inl rfl⟩
  · exact ⟨s.registry.channels, s.pc, rfl, .inl rfl, .inl rfl⟩
  · rename_i j hj
    exact ⟨_, s.pc, rfl, .inl rfl, .inr ⟨j, hj, rfl⟩⟩

theorem fire_established {w : Socket} : s.fire env (.callback w .established) = some t ↔
    s.pc = .idle ∧ w ∉ s.sockets ∧
      settle ((s.openSocket w).connect env w) = t := by
  simp only [fire, lwsService, Option.ite_none_right_eq_some, Option.map_eq_some_iff,
    Option.ite_none_left_eq_some, Option.some.injEq]
  constructor
  · rintro ⟨hp, _, ⟨hw, rfl⟩, ht⟩
    exact ⟨hp, hw, ht⟩
  · rintro ⟨hp, hw, ht⟩
    exact ⟨hp, _, ⟨hw, rfl⟩, ht⟩

theorem fire_receive {w : Socket} {d : Bytes} : s.fire env (.callback w (.receive d)) = some t ↔
    s.pc = .idle ∧ w ∈ s.sockets ∧ settle (s.receive env d) = t := by
  simp only [fire, lwsService, Option.ite_none_right_eq_some, Option.map_eq_some_iff,
    Option.some.injEq]
  constructor
  · rintro ⟨hp, _, ⟨hw, rfl⟩, ht⟩
    exact ⟨hp, hw, ht⟩
  · rintro ⟨hp, hw, ht⟩
    exact ⟨hp, _, ⟨hw, rfl⟩, ht⟩

theorem fire_closed {w : Socket} : s.fire env (.callback w .closed) = some t ↔
    s.pc = .idle ∧ w ∈ s.sockets ∧
      (s.closeSocket w).disconnect w = t := by
  simp only [fire, lwsService, Option.ite_none_right_eq_some, Option.map_eq_some_iff,
    Option.some.injEq]
  constructor
  · rintro ⟨hp, _, ⟨hw, rfl⟩, ht⟩
    exact ⟨hp, hw, ht⟩
  · rintro ⟨hp, hw, ht⟩
    exact ⟨hp, _, ⟨hw, rfl⟩, ht⟩

theorem fire_serverWriteable {w : Socket} : s.fire env (.callback w .serverWriteable) = some t ↔
    s.pc = .idle ∧ w ∈ s.sockets ∧ { s with pc := .visit 0 } = t := by
  simp only [fire, lwsService, Option.ite_none_right_eq_some, Option.map_eq_some_iff,
    Option.some.injEq]
  constructor
  · rintro ⟨hp, _, ⟨hw, rfl⟩, ht⟩
    exact ⟨hp, hw, ht⟩
  · rintro ⟨hp, hw, ht⟩
    exact ⟨hp, _, ⟨hw, rfl⟩, ht⟩

/-- Callbacks run outside the passes. -/
theorem idle_of_callback {w : Socket} {reason : Reason}
    (h : s.step env (.callback w reason) = some t) : s.pc = .idle := by
  obtain ⟨-, hf⟩ := step_eq_some.mp h
  simp only [fire, Option.ite_none_right_eq_some] at hf
  exact hf.1

/-- A write call finds no channel, or its section is done and the call is pending. -/
theorem fire_write {u : Tid} {k : BufferKind} {c : Int32} {d : Bytes} :
    s.fire env (.write u k c d) = some t ↔ s.busy u = false ∧
      match s.registry.find k c with
      | none => s = t
      | some i => { s with
          registry := s.registry.modify i (Channel.mapBuffer k (k.section d))
          pending := (u, i, k) :: s.pending
          trace := .wrote i k d :: s.trace } = t := by
  simp only [fire, Registry.write_eq]
  cases s.registry.find k c <;> simp

theorem fire_visit {now : UInt64} : s.fire env (.visit now) = some t ↔
    ∃ k, s.pc = .visit k ∧ s.visit k now = t := by
  simp only [fire]
  split <;> simp_all

theorem fire_readInfo : s.fire env .readInfo = some t ↔
    (∃ k due, s.pc = .readInfo k due none ∧ { s with pc := .encode k due none } = t) ∨
      ∃ k due job, s.pc = .readInfo k due (some job) ∧ s.readInfo k due job = t := by
  simp only [fire]
  split <;> simp_all [-Bool.exists_bool]

theorem fire_encode {nsec : UInt64} : s.fire env (.encode nsec) = some t ↔
    (∃ k due, s.pc = .encode k due none ∧ { s with pc := .stamp k due } = t) ∨
      ∃ k due job, s.pc = .encode k due (some job) ∧ sent due k (s.encode env k job nsec) = t := by
  simp only [fire]
  split <;> simp_all [-Bool.exists_bool]

theorem fire_stamp {now : UInt64} : s.fire env (.stamp now) = some t ↔
    ∃ k due, s.pc = .stamp k due ∧ { s.stamp k due now with pc := .visit (k + 1) } = t := by
  simp only [fire]
  split <;> simp_all [-Bool.exists_bool]

/-- What the start of an iteration adds to the trace: the call of the sender, if the channel is
subscribed and due. -/
def calls (k : Nat) (now : UInt64) (ch : Channel) : List Obs :=
  if ch.Subscribed ∧ isDue ch now = true then [.called k now] else []

/-- The start of an iteration makes the channel's job, and copies its populated data. -/
theorem visit_some {k : Nat} {now : UInt64} {ch : Channel}
    (hch : s.registry.channels[k]? = some ch) : s.visit k now =
      { s with
        rawDataBuffer := (ch.job now).elim s.rawDataBuffer fun _ =>
          s.rawDataBuffer.copy 0 ch.dataBuffer.readSection
        pc := .readInfo k (isDue ch now) (ch.job now)
        trace := calls k now ch ++ s.trace } := by
  unfold visit readData Channel.job calls
  simp only [hch, Buffer.beginRead]
  by_cases hgate : ch.Subscribed ∧ isDue ch now = true
  · by_cases hadm : (senderOf ch.channelType).admits ch.dataBuffer.frontBufferSize = true
    · simp only [hgate, hadm, and_self, if_true]
      rfl
    · simp only [hgate, hadm, and_self, and_false, if_true, if_false, Bool.false_eq_true]
      rfl
  · rw [if_neg hgate, if_neg hgate, if_neg fun h => hgate ⟨h.1, h.2.1⟩]
    rfl

theorem calls_from {k : Nat} {now : UInt64} {ch : Channel} :
    ∀ o ∈ calls k now ch, o.From (.visit now) := by
  unfold State.calls
  split
  · exact List.forall_mem_singleton.mpr rfl
  · exact nofun

/-- The start of an iteration: the end of the pass, a channel that is not sent, or a copy of the
populated data to `raw_data_buffer`. -/
theorem visit_cases (s : State) (k : Nat) (now : UInt64) :
    (s.registry.channels[k]? = none ∧ s.visit k now = { s with pc := .idle }) ∨
    ∃ ch, s.registry.channels[k]? = some ch ∧
      (s.visit k now = { s with
        pc := .readInfo k (isDue ch now) none
        trace := calls k now ch ++ s.trace } ∨
      ch.Subscribed ∧ isDue ch now ∧
        (senderOf ch.channelType).admits ch.dataBuffer.frontBufferSize ∧
        s.visit k now = { s with
          rawDataBuffer := s.rawDataBuffer.copy 0 ch.dataBuffer.readSection
          pc := .readInfo k true
            (some ⟨ch.dataBuffer.frontBuffer, ch.dataBuffer.frontBufferSize, 0⟩)
          trace := calls k now ch ++ s.trace }) := by
  cases hch : s.registry.channels[k]? with
  | none => exact .inl ⟨rfl, by simp only [visit, hch]⟩
  | some ch =>
    refine .inr ⟨ch, rfl, ?_⟩
    rw [visit_some hch]
    cases hjob : ch.job now with
    | none => exact .inl rfl
    | some j =>
      obtain ⟨hsub, hdue, hadm, rfl⟩ := Channel.job_some hjob
      exact .inr ⟨hsub, hdue, hadm, by rw [hdue]; rfl⟩

/-- A channel with no subscription is not sent. -/
theorem visit_unsubscribed {k : Nat} {now : UInt64} {ch : Channel}
    (hch : s.registry.channels[k]? = some ch) (hsub : ¬ ch.Subscribed) :
    s.visit k now = { s with pc := .readInfo k (isDue ch now) none } := by
  have hjob : ch.job now = none := if_neg fun h => hsub h.1
  have hcalls : calls k now ch = [] := if_neg fun h => hsub h.1
  rw [visit_some hch, hjob, hcalls]
  rfl

/-- A subscribed channel that is due and has admissible data is sent. -/
theorem visit_served {k : Nat} {now : UInt64} {ch : Channel}
    (hch : s.registry.channels[k]? = some ch) (hsub : ch.Subscribed) (hdue : isDue ch now = true)
    (hadm : (senderOf ch.channelType).admits ch.dataBuffer.frontBufferSize = true) :
    ∃ job, (s.visit k now).pc = .readInfo k true (some job) := by
  have hjob : ch.job now = some _ := if_pos ⟨hsub, hdue, hadm⟩
  rw [visit_some hch, hjob, hdue]
  exact ⟨_, rfl⟩

/-- The info section of a sender gets past a small info. -/
theorem readInfo_served {k : Nat} {due : Bool} {job : Job} {ch : Channel}
    (hch : s.registry.channels[k]? = some ch)
    (hinfo : ch.channelType = .image →
      ∃ info, ch.infoBuffer = some info ∧ info.frontBufferSize ≤ sizeofInfoDataBuffer) :
    ∃ job', (s.readInfo k due job).pc = .encode k due (some job') := by
  unfold readInfo
  simp only [hch]
  split
  · rename_i hty
    obtain ⟨info, hbuf, hsize⟩ := hinfo hty
    simp only [hbuf, Buffer.beginRead, hsize, if_true]
    exact ⟨_, rfl⟩
  · exact ⟨_, rfl⟩

/-- The info section: a null `info_buffer`, a type without one, an info that is too large, or a copy
of the populated info to `info_data_buffer`. -/
theorem readInfo_cases (s : State) (k : Nat) (due : Bool) (job : Job) :
    s.readInfo k due job = { s with pc := .crashed } ∨
    s.readInfo k due job = { s with pc := .encode k due none } ∨
    ∃ ch, s.registry.channels[k]? = some ch ∧
      (ch.channelType ≠ .image ∧ s.readInfo k due job = { s with pc := .encode k due (some job) } ∨
      ch.channelType = .image ∧ ∃ info, ch.infoBuffer = some info ∧
        info.frontBufferSize ≤ sizeofInfoDataBuffer ∧ s.readInfo k due job = { s with
          infoDataBuffer := s.infoDataBuffer.copy 0 info.readSection
          pc := .encode k due (some { job with infoSize := info.frontBufferSize }) }) := by
  unfold readInfo
  split
  · rename_i ch h
    split
    · rename_i hty
      split
      · rename_i info hinfo
        dsimp only [Buffer.beginRead]
        split
        · rename_i hsize
          exact .inr (.inr ⟨ch, h, .inr ⟨hty, info, hinfo, hsize, rfl⟩⟩)
        · exact .inr (.inl rfl)
      · exact .inl rfl
    · rename_i hty
      exact .inr (.inr ⟨ch, h, .inl ⟨hty, rfl⟩⟩)
  · exact .inl rfl

/-- The end of a sender hands over at most the frame of its body. -/
theorem encode_cases (env : Env) (s : State) (k : Nat) (job : Job) (nsec : UInt64) :
    s.encode env k job nsec = .error s ∨ s.encode env k job nsec = .ok s ∨
      ∃ ch e tx, s.registry.channels[k]? = some ch ∧
        (senderOf ch.channelType).body env ch.topicName (s.source ch job) = some (some e) ∧
        s.encode env k job nsec = .ok { s with
          encodeBuffer := e.encodeBuffer
          txBuffer := tx
          trace := s.frames ch e.body nsec ++ s.trace } := by
  unfold encode
  split
  · exact .inl rfl
  · rename_i ch hch
    split
    · exact .inl rfl
    · exact .inr (.inl rfl)
    · rename_i e he
      obtain ⟨tx, htx⟩ := sendBody_eq s ch e nsec
      exact .inr (.inr ⟨ch, e, tx, hch, he, by rw [htx]⟩)

/-- What a step does, and what it leaves alone: only callbacks change the session, only the calls of
the writers are pending, the threads of the application stay out of the server thread's memory, and
each message comes from its own kind of step. -/
structure Outcome (l : Label) (s t : State) : Prop where
  channels : Effect l s.registry.channels t.registry.channels
  received : t.registry.rxChannels = s.registry.rxChannels ∨
    ∃ ch, ch.Fresh ∧ t.registry.rxChannels = s.registry.rxChannels ++ [ch]
  session : (∀ w reason, l ≠ .callback w reason) → t.client = s.client ∧ t.sockets = s.sockets
  pending : (∀ u k c d, l ≠ .write u k c d) → (∀ u, l ≠ .swap u) → t.pending = s.pending
  app : l.isApp → (t.pc = s.pc ∨ t.pc = .crashed) ∧ t.rawDataBuffer = s.rawDataBuffer ∧
    t.infoDataBuffer = s.infoDataBuffer
  trace : ∃ obs, t.trace = obs ++ s.trace ∧ ∀ o ∈ obs, o.From l

theorem frames_cases (s : State) (ch : Channel) (body : Bytes) (nsec : UInt64) :
    s.frames ch body nsec = [] ∨ ∃ w, s.client = some w ∧
      s.frames ch body nsec = [.frame w ch.channelId (header ch.subscriptionId nsec ++ body)] := by
  unfold frames
  split
  · exact .inl rfl
  · rename_i w hw
    split
    · exact .inr ⟨w, hw, rfl⟩
    · exact .inl rfl

/-- A body that passes both tests goes out in one frame. -/
theorem frames_of_fits {w : Socket} {ch : Channel} {body : Bytes} (hw : s.client = some w)
    (hfits : (senderOf ch.channelType).fits body.length = true)
    (hsize : body.length + 13 + lwsPre ≤ sizeofTxBuffer) (nsec : UInt64) :
    s.frames ch body nsec = [.frame w ch.channelId (header ch.subscriptionId nsec ++ body)] := by
  unfold frames
  rw [hw]
  exact if_pos ⟨hfits, hsize⟩

/-- A step of the server thread that changes its own memory only. -/
theorem outcome_server (l : Label) (s : State) (raw encoded info tx : Mem) (pc : Pc)
    (obs : List Obs) (hl : l.isApp = false) (ho : ∀ o ∈ obs, o.From l) :
    Outcome l s { s with
      rawDataBuffer := raw
      encodeBuffer := encoded
      infoDataBuffer := info
      txBuffer := tx
      pc
      trace := obs ++ s.trace } where
  channels := .keep _ _
  received := .inl rfl
  session _ := ⟨rfl, rfl⟩
  pending _ _ := rfl
  app h := by rw [hl] at h; cases h
  trace := ⟨obs, rfl, ho⟩

/-- A call that changes the registry only. -/
theorem outcome_registry (l : Label) (s : State) {r : Registry} {pc : Pc}
    (hpc : pc = s.pc ∨ pc = .crashed) (hch : Effect l s.registry.channels r.channels)
    (hrx : r.rxChannels = s.registry.rxChannels ∨
      ∃ ch, ch.Fresh ∧ r.rxChannels = s.registry.rxChannels ++ [ch]) :
    Outcome l s { s with registry := r, pc } where
  channels := hch
  received := hrx
  session _ := ⟨rfl, rfl⟩
  pending _ _ := rfl
  app _ := ⟨hpc, rfl, rfl⟩
  trace := ⟨[], rfl, by simp⟩

theorem outcome_established (env : Env) (s : State) (w : Socket) :
    Outcome (.callback w .established) s
      (settle ((s.openSocket w).connect env w)) := by
  obtain ⟨tx, obs, pc, he, ho, -⟩ := established_eq env (s.openSocket w) w
  rw [he]
  refine ⟨?_, .inl (opened_rxChannels _ w), fun h => absurd rfl (h w _),
    fun _ _ => opened_pending _ w, nofun, obs, rfl, fun o hmem => ?_⟩
  · show Effect _ _ (State.opened _ w).registry.channels
    rw [opened_channels]
    split
    · exact .clear ..
    · exact .keep _ _
  · obtain ⟨d, rfl⟩ := ho o hmem
    rfl

theorem outcome_receive (env : Env) (s : State) (w : Socket) (d : Bytes) :
    Outcome (.callback w (.receive d)) s (settle (s.receive env d)) := by
  obtain ⟨cs, pc, he, -, hcs⟩ := received_eq env s d
  rw [he]
  refine ⟨?_, .inl rfl, fun h => absurd rfl (h w _), fun _ _ => rfl, nofun, [], rfl, by simp⟩
  obtain rfl | ⟨j, -, rfl⟩ := hcs
  · exact .keep _ _
  · show Effect _ _ (handleMessage _ _ j)
    obtain hm | ⟨i, id, hm⟩ := handleMessage_cases env.toFloatLib s.registry.channels j
    · rw [hm]; exact .keep _ _
    · rw [hm]; exact .subscribe ..

/-- The end of a sender with a body hands over its frame. -/
theorem encode_some {k : Nat} {job : Job} {ch : Channel} {e : Encoded}
    (hch : s.registry.channels[k]? = some ch)
    (hbody : (senderOf ch.channelType).body env ch.topicName (s.source ch job) = some (some e))
    (nsec : UInt64) : ∃ tx, s.encode env k job nsec = .ok { s with
      encodeBuffer := e.encodeBuffer
      txBuffer := tx
      trace := s.frames ch e.body nsec ++ s.trace } := by
  obtain ⟨tx, htx⟩ := sendBody_eq s ch e nsec
  exact ⟨tx, by simp only [encode, hch, hbody, htx]⟩

/-- What an `encode` hands over: nothing, or the frame of the body of the channel in service. -/
theorem encode_trace {nsec : UInt64} (h : s.fire env (.encode nsec) = some t) :
    t.trace = s.trace ∨ ∃ k due job ch e w, s.pc = .encode k due (some job) ∧
      s.registry.channels[k]? = some ch ∧ s.client = some w ∧
      (senderOf ch.channelType).body env ch.topicName (s.source ch job) = some (some e) ∧
      t.trace =
        .frame w ch.channelId (header ch.subscriptionId nsec ++ e.body) :: s.trace := by
  obtain ⟨k, due, -, rfl⟩ | ⟨k, due, job, hpc, rfl⟩ := fire_encode.mp h
  · exact .inl rfl
  · obtain he | he | ⟨ch, e, tx, hch, hbody, he⟩ := encode_cases env s k job nsec <;> rw [he]
    · exact .inl rfl
    · exact .inl rfl
    · obtain hnone | ⟨w, hw, hframe⟩ := frames_cases s ch e.body nsec
      · exact .inl (by rw [hnone]; rfl)
      · exact .inr ⟨k, due, job, ch, e, w, hpc, hch, hw, hbody, by rw [hframe]; rfl⟩

theorem fire_outcome (h : s.fire env l = some t) : Outcome l s t := by
  cases l with
  | addChannel n ty hz al =>
    simp only [fire] at h
    split at h
    · cases h; exact outcome_registry _ s (.inr rfl) (.keep _ _) (.inl rfl)
    · rename_i r id hr
      cases h
      obtain rfl | ⟨ch, hf, -, rfl⟩ := Registry.addChannel_some hr
      · exact outcome_registry _ s (.inl rfl) (.keep _ _) (.inl rfl)
      · exact outcome_registry _ s (.inl rfl) (.add _ hf) (.inl rfl)
  | addRxChannel n ty al =>
    cases h
    obtain hr | ⟨ch, hf, hr⟩ := Registry.addRxChannel_cases s.registry n ty al <;> rw [hr]
    · exact outcome_registry _ s (.inl rfl) (.keep _ _) (.inl rfl)
    · exact outcome_registry _ s (.inl rfl) (.keep _ _) (.inr ⟨ch, hf, rfl⟩)
  | write u k c d =>
    obtain ⟨-, h⟩ := fire_write.mp h
    split at h <;> subst h
    · exact outcome_registry _ s (.inl rfl) (.keep _ _) (.inl rfl)
    · exact ⟨.write .., .inl rfl, fun _ => ⟨rfl, rfl⟩, fun hw => absurd rfl (hw _ _ _ _),
        fun _ => ⟨.inl rfl, rfl, rfl⟩, [_], rfl, by simp [Obs.From]⟩
  | swap u =>
    simp only [fire] at h
    split at h <;> cases h
    exact ⟨.swap .., .inl rfl, fun _ => ⟨rfl, rfl⟩, fun _ hw => absurd rfl (hw _),
      fun _ => ⟨.inl rfl, rfl, rfl⟩, [], rfl, by simp⟩
  | callback w reason =>
    cases reason with
    | established =>
      obtain ⟨-, -, rfl⟩ := fire_established.mp h
      exact outcome_established env s w
    | receive d =>
      obtain ⟨-, -, rfl⟩ := fire_receive.mp h
      exact outcome_receive env s w d
    | closed =>
      obtain ⟨-, -, rfl⟩ := fire_closed.mp h
      exact ⟨.clear .., .inl rfl, fun h => absurd rfl (h w _), fun _ _ => rfl, nofun, [], rfl,
        by simp⟩
    | serverWriteable =>
      obtain ⟨-, -, rfl⟩ := fire_serverWriteable.mp h
      exact outcome_server _ s _ _ _ _ _ [] rfl (by simp)
  | visit now =>
    obtain ⟨k, -, rfl⟩ := fire_visit.mp h
    obtain ⟨-, hv⟩ | ⟨ch, -, hv | ⟨-, -, -, hv⟩⟩ := visit_cases s k now <;> rw [hv]
    · exact outcome_server _ s _ _ _ _ _ [] rfl (by simp)
    all_goals exact outcome_server _ s _ _ _ _ _ _ rfl calls_from
  | readInfo =>
    obtain ⟨k, due, -, rfl⟩ | ⟨k, due, job, -, rfl⟩ := fire_readInfo.mp h
    · exact outcome_server _ s _ _ _ _ _ [] rfl (by simp)
    · obtain hv | hv | ⟨ch, -, ⟨-, hv⟩ | ⟨-, info, -, -, hv⟩⟩ := readInfo_cases s k due job <;>
        rw [hv]
      all_goals exact outcome_server _ s _ _ _ _ _ [] rfl (by simp)
  | encode nsec =>
    obtain ⟨k, due, -, rfl⟩ | ⟨k, due, job, -, rfl⟩ := fire_encode.mp h
    · exact outcome_server _ s _ _ _ _ _ [] rfl (by simp)
    · obtain he | he | ⟨ch, e, tx, -, -, he⟩ := encode_cases env s k job nsec <;> rw [he]
      · exact outcome_server _ s _ _ _ _ _ [] rfl (by simp)
      · exact outcome_server _ s _ _ _ _ _ [] rfl (by simp)
      · refine outcome_server _ s _ _ _ _ _ _ rfl fun o ho => ?_
        obtain hnone | ⟨w, -, hframe⟩ := frames_cases s ch e.body nsec
        · rw [hnone] at ho; cases ho
        · rw [hframe] at ho
          cases List.mem_singleton.mp ho
          exact ⟨nsec, rfl⟩
  | stamp now =>
    obtain ⟨k, due, -, rfl⟩ := fire_stamp.mp h
    unfold stamp
    split
    · exact ⟨.stamp .., .inl rfl, fun _ => ⟨rfl, rfl⟩, fun _ _ => rfl, nofun, [], rfl, by simp⟩
    · exact outcome_server _ s _ _ _ _ _ [] rfl (by simp)

end State

/-! ## The channel in service -/

/-- The place of the channel in service, and its job, if its sender still has something to do. -/
def Pc.job? : Pc → Option (Nat × Job)
  | .readInfo k _ (some job) => some (k, job)
  | .encode k _ (some job) => some (k, job)
  | _ => none

/-- Where a job comes from: it was there before a step of the application, its iteration started, or
its info section ran. -/
inductive JobStep (s t : State) (k : Nat) (job : Job) : Label → Prop
  | kept {l : Label} : l.isApp = true → s.pc.job? = some (k, job) →
      t.rawDataBuffer = s.rawDataBuffer → JobStep s t k job l
  | started {now : UInt64} {ch : Channel} : s.registry.channels[k]? = some ch → ch.Subscribed →
      (senderOf ch.channelType).admits ch.dataBuffer.frontBufferSize = true →
      t.registry = s.registry →
      t.rawDataBuffer = s.rawDataBuffer.copy 0 ch.dataBuffer.readSection →
      job = ⟨ch.dataBuffer.frontBuffer, ch.dataBuffer.frontBufferSize, 0⟩ →
      JobStep s t k job (.visit now)
  | informed {job₀ : Job} : s.pc.job? = some (k, job₀) → job.data = job₀.data →
      job.dataSize = job₀.dataSize → t.registry = s.registry →
      t.rawDataBuffer = s.rawDataBuffer → JobStep s t k job .readInfo

namespace State

variable {env : Env} {s t : State} {l : Label} {w : Socket} {k : Nat} {job : Job}

/-- After a callback, no channel is in service. -/
theorem job?_callback {reason : Reason} (h : s.fire env (.callback w reason) = some t) :
    t.pc.job? = none := by
  cases reason with
  | established =>
    obtain ⟨hpc, -, rfl⟩ := fire_established.mp h
    obtain ⟨tx, obs, pc, he, -, rfl | rfl⟩ := established_eq env (s.openSocket w) w <;> rw [he]
    · show s.pc.job? = none
      rw [hpc]; rfl
    · rfl
  | receive d =>
    obtain ⟨hpc, -, rfl⟩ := fire_receive.mp h
    obtain ⟨cs, pc, he, rfl | rfl, -⟩ := received_eq env s d <;> rw [he]
    · rw [hpc]; rfl
    · rfl
  | closed =>
    obtain ⟨hpc, -, rfl⟩ := fire_closed.mp h
    show s.pc.job? = none
    rw [hpc]; rfl
  | serverWriteable =>
    obtain ⟨-, -, rfl⟩ := fire_serverWriteable.mp h
    rfl

/-- Only the steps of an iteration make a job. -/
theorem step_job (h : s.step env l = some t) (hjob : t.pc.job? = some (k, job)) :
    JobStep s t k job l := by
  have hf := (step_eq_some.mp h).2
  have app : l.isApp = true → JobStep s t k job l := by
    intro hl
    obtain ⟨hpc | hpc, hraw, -⟩ := (fire_outcome hf).app hl
    · exact .kept hl (by rw [hpc] at hjob; exact hjob) hraw
    · rw [hpc] at hjob; cases hjob
  cases l with
  | callback w reason => rw [job?_callback hf] at hjob; cases hjob
  | visit now =>
    obtain ⟨k', -, rfl⟩ := fire_visit.mp hf
    obtain ⟨-, hv⟩ | ⟨ch, hch, hv | ⟨hsub, -, hadm, hv⟩⟩ :=
      visit_cases (s.log (.event (.visit now))) k' now <;> rw [hv] at hjob ⊢ <;> cases hjob
    exact .started hch hsub hadm rfl rfl rfl
  | readInfo =>
    obtain ⟨k', due, -, rfl⟩ | ⟨k', due, job₀, hpc, rfl⟩ := fire_readInfo.mp hf
    · cases hjob
    · have hold : s.pc.job? = some (k', job₀) := by
        rw [show s.pc = .readInfo k' due (some job₀) from hpc]; rfl
      obtain hv | hv | ⟨ch, -, ⟨-, hv⟩ | ⟨-, info, -, -, hv⟩⟩ :=
        readInfo_cases (s.log (.event .readInfo)) k' due job₀ <;> rw [hv] at hjob ⊢ <;> cases hjob
      all_goals exact .informed hold rfl rfl rfl rfl
  | encode nsec =>
    obtain ⟨k', due, -, rfl⟩ | ⟨k', due, job₀, -, rfl⟩ := fire_encode.mp hf
    · cases hjob
    · exact absurd hjob (by cases encode env _ k' job₀ nsec <;> nofun)
  | stamp now =>
    obtain ⟨k', due, -, rfl⟩ := fire_stamp.mp hf
    cases hjob
  | _ => exact app rfl

/-- An element of the first part of a list, or of the second. -/
theorem cons_suffix_append {α : Type} {x : α} {old a b : List α} (h : x :: old <:+ a ++ b) :
    x ∈ a ∨ x :: old <:+ b := by
  obtain ⟨p, hp⟩ := h
  rcases List.append_eq_append_iff.mp hp with ⟨a', rfl, h⟩ | ⟨c, rfl, h⟩
  · cases a' with
    | nil => exact .inr (by rw [h]; exact List.suffix_refl _)
    | cons y a₂ =>
      cases h
      exact .inl (List.mem_append_right _ List.mem_cons_self)
  · exact .inr ⟨c, h.symm⟩

/-- A frame was there before a step, or the step is the `encode` that hands it over. -/
theorem step_frame {c : Int32} {d : Bytes} {old : List Obs} (h : s.step env l = some t)
    (hsuf : .frame w c d :: old <:+ t.trace) :
    .frame w c d :: old <:+ s.trace ∨ ∃ nsec k job ch e, l = .encode nsec ∧
      s.pc.job? = some (k, job) ∧ s.registry.channels[k]? = some ch ∧ s.client = some w ∧
      (senderOf ch.channelType).body env ch.topicName (s.source ch job) = some (some e) ∧
      c = ch.channelId ∧ d = header ch.subscriptionId nsec ++ e.body ∧
      old = .event l :: s.trace := by
  have hf := (step_eq_some.mp h).2
  have logged : .frame w c d :: old <:+ .event l :: s.trace → .frame w c d :: old <:+ s.trace := by
    intro hsuf
    exact (List.suffix_cons_iff.mp hsuf).resolve_left nofun
  obtain ⟨obs, htr, hobs⟩ := (fire_outcome hf).trace
  rcases cons_suffix_append (htr ▸ hsuf) with hmem | hold
  · obtain ⟨nsec, rfl⟩ := hobs _ hmem
    obtain hsame | ⟨k, due, job, ch, e, v, hpc, hch, hv, hbody, hframe⟩ := encode_trace hf
    · rw [hsame] at hsuf
      exact .inl (logged hsuf)
    · rw [hframe] at hsuf
      rcases List.suffix_cons_iff.mp hsuf with he | hold
      · cases he
        refine .inr ⟨nsec, k, job, ch, e, rfl, ?_, hch, hv, hbody, rfl, rfl, rfl⟩
        rw [show s.pc = .encode k due (some job) from hpc]; rfl
      · exact .inl (logged hold)
  · exact .inl (logged hold)

/-- A sender always comes to its end. -/
theorem exists_encode {due : Bool} {job : Option Job} (hpc : s.pc = .encode k due job)
    (nsec : UInt64) : ∃ t, s.step env (.encode nsec) = some t := by
  have hlive : s.pc ≠ .crashed := by
    rw [hpc]
    nofun
  cases job with
  | none => exact ⟨_, step_eq_some.mpr ⟨hlive, fire_encode.mpr (.inl ⟨k, due, hpc, rfl⟩)⟩⟩
  | some job =>
    exact ⟨_, step_eq_some.mpr ⟨hlive, fire_encode.mpr (.inr ⟨k, due, job, hpc, rfl⟩)⟩⟩

/-- What an `encode` with a body hands over. -/
theorem trace_of_encode {nsec : UInt64} {due : Bool} {ch : Channel} {e : Encoded}
    (h : s.step env (.encode nsec) = some t) (hpc : s.pc = .encode k due (some job))
    (hch : s.registry.channels[k]? = some ch)
    (hbody : (senderOf ch.channelType).body env ch.topicName (s.source ch job) = some (some e)) :
    t.trace = s.frames ch e.body nsec ++ .event (.encode nsec) :: s.trace := by
  obtain ⟨k', due', hpc', -⟩ | ⟨k', due', job', hpc', rfl⟩ := fire_encode.mp (step_eq_some.mp h).2
  · cases hpc.symm.trans hpc'
  · cases hpc.symm.trans hpc'
    obtain ⟨tx, hencode⟩ := encode_some (s := s.log (.event (.encode nsec))) hch hbody nsec
    rw [hencode]
    rfl

end State

/-! ## The subscription table -/

/-- The row of a channel in the table of a session: its id and its subscription. -/
def Channel.row (ch : Channel) : Int32 × Int32 := (ch.channelId, ch.subscriptionId)

/-- A change that keeps a part of the channel keeps the list of the parts. -/
theorem map_modify_eq {α β : Type} {f : α → α} {g : α → β} (h : ∀ x, g (f x) = g x) (cs : List α)
    (i : Nat) : (cs.modify i f).map g = cs.map g := by
  refine List.ext_getElem? fun j => ?_
  simp only [List.getElem?_map, List.getElem?_modify]
  cases cs[j]? <;> simp
  split <;> simp [h]

namespace State

/-- The subscription table. -/
def table (s : State) : List (Int32 × Int32) := s.registry.channels.map Channel.row

variable {env : Env} {s t : State} {l : Label}

/-- Only a callback changes a row; a new channel has a row with no subscription. -/
theorem Outcome.table (h : Outcome l s t) (hl : ∀ w reason, l ≠ .callback w reason) :
    ∃ new, t.table = s.table ++ new ∧ ∀ row ∈ new, row.2 = -1 := by
  have keep : ∀ {cs : List Channel}, cs.map Channel.row = s.table →
      ∃ new, cs.map Channel.row = s.table ++ new ∧ ∀ row ∈ new, row.2 = -1 :=
    fun hcs => ⟨[], by rw [hcs, List.append_nil], by simp⟩
  have heff := h.channels
  unfold State.table at keep ⊢
  revert keep heff
  generalize s.registry.channels = cs, t.registry.channels = cs'
  intro keep heff
  cases heff with
  | keep => exact keep rfl
  | add _ fresh =>
    refine ⟨[_], List.map_append, ?_⟩
    simp only [List.mem_singleton, forall_eq]
    exact fresh.subscriptionId
  | write u k c d i => exact keep (map_modify_eq (by simp [Channel.row]) ..)
  | swap u k i => exact keep (map_modify_eq (by simp [Channel.row]) ..)
  | clear w r => exact absurd rfl (hl w r)
  | subscribe w d => exact absurd rfl (hl w _)
  | stamp now i => exact keep (map_modify_eq (by intro ch; rfl) ..)

/-- A row stays in its place. -/
theorem Outcome.row (h : Outcome l s t) (hl : ∀ w reason, l ≠ .callback w reason) {k : Nat}
    {row : Int32 × Int32} (hrow : s.table[k]? = some row) : t.table[k]? = some row := by
  obtain ⟨new, hnew, -⟩ := h.table hl
  rw [hnew, List.getElem?_append_left (List.getElem?_eq_some_iff.mp hrow).1, hrow]

theorem table_of_channel {k : Nat} {ch : Channel} (h : s.registry.channels[k]? = some ch) :
    s.table[k]? = some ch.row := by
  rw [table, List.getElem?_map, h]; rfl

end State

/-! ## What never changes -/

/-- What a channel keeps: its id, its type, its topic and the capacity of its data buffer. -/
def Channel.static (ch : Channel) : Int32 × ChannelType × Bytes × Nat :=
  (ch.channelId, ch.channelType, ch.topicName, ch.dataBuffer.bufferSize)

theorem static_eq {ch ch' : Channel} (h : ch'.static = ch.static) :
    ch'.channelId = ch.channelId ∧ ch'.channelType = ch.channelType ∧
      ch'.topicName = ch.topicName ∧ ch'.dataBuffer.bufferSize = ch.dataBuffer.bufferSize := by
  simpa [Channel.static] using h

theorem static_mapBuffer {k : BufferKind} {f : Buffer → Buffer}
    (hf : ∀ buf, (f buf).bufferSize = buf.bufferSize) (ch : Channel) :
    (ch.mapBuffer k f).static = ch.static := by
  cases k <;> simp [Channel.static, Channel.mapBuffer, Channel.mapData, Channel.mapInfo, hf]

/-- Only `foxdbg_add_channel` changes what the channels keep. -/
theorem Effect.static_eq {l : Label} {cs cs' : List Channel} (h : Effect l cs cs')
    (hl : ∀ n ty hz al, l ≠ .addChannel n ty hz al) :
    cs'.map Channel.static = cs.map Channel.static := by
  cases h with
  | keep => rfl
  | add => exact absurd rfl (hl _ _ _ _)
  | write u k c d i => exact map_modify_eq (static_mapBuffer (by simp)) ..
  | swap u k i => exact map_modify_eq (static_mapBuffer (by intro buf; rfl)) ..
  | clear => rw [List.map_map]; rfl
  | subscribe => exact map_modify_eq (by intro ch; rfl) ..
  | stamp => exact map_modify_eq (by intro ch; rfl) ..

theorem Effect.static {l : Label} {cs cs' : List Channel} (h : Effect l cs cs') :
    cs.map Channel.static <+: cs'.map Channel.static := by
  by_cases hl : ∃ n ty hz al, l = .addChannel n ty hz al
  · obtain ⟨n, ty, hz, al, rfl⟩ := hl
    cases h with
    | keep => exact List.prefix_rfl
    | add => exact List.map_append ▸ List.prefix_append ..
  · exact h.static_eq (fun n ty hz al e => hl ⟨n, ty, hz, al, e⟩) ▸ List.prefix_rfl

/-- A channel stays in its place. -/
theorem State.Outcome.channel {s t : State} {l : Label} (h : State.Outcome l s t) {k : Nat}
    {ch : Channel} (hch : s.registry.channels[k]? = some ch) :
    ∃ ch', t.registry.channels[k]? = some ch' ∧ ch'.static = ch.static := by
  have hk : (s.registry.channels.map Channel.static)[k]? = some ch.static := by
    rw [List.getElem?_map, hch]; rfl
  have hk' := List.prefix_iff_getElem?.mp h.channels.static k
    (List.getElem?_eq_some_iff.mp hk).1
  rw [List.getElem?_map, (List.getElem?_eq_some_iff.mp hk).2] at hk'
  exact Option.map_eq_some_iff.mp hk'

/-- A channel stays in its place over a run. -/
theorem channel_run {env : Env} {Q : State → Label → State → Prop} {s t : State} {es : List Label}
    (hr : (sys env).Run Q s es t) {k : Nat} {ch : Channel}
    (hch : s.registry.channels[k]? = some ch) :
    ∃ ch', t.registry.channels[k]? = some ch' ∧ ch'.static = ch.static := by
  refine hr.inv (I := fun u => ∃ ch', u.registry.channels[k]? = some ch' ∧
    ch'.static = ch.static) (fun u l v h _ hi => ?_) ⟨ch, hch, rfl⟩
  obtain ⟨ch', hch', hstatic⟩ := hi
  obtain ⟨ch'', hch'', hstatic'⟩ := (State.fire_outcome (State.step_eq_some.mp h).2).channel hch'
  exact ⟨ch'', hch'', hstatic'.trans hstatic⟩

/-! ## The application and the server thread -/

/-- A step of the application. -/
def AppStep (_ : State) (l : Label) (_ : State) : Prop := l.isApp = true

/-- The application leaves the memory of the server thread alone; and its place, unless a call
traps. -/
theorem app_run {env : Env} {s t : State} {es : List Label} (hr : (sys env).Run AppStep s es t) :
    (t.pc = s.pc ∨ t.pc = .crashed) ∧ t.rawDataBuffer = s.rawDataBuffer ∧
      t.infoDataBuffer = s.infoDataBuffer := by
  refine hr.inv (I := fun u => (u.pc = s.pc ∨ u.pc = .crashed) ∧
    u.rawDataBuffer = s.rawDataBuffer ∧ u.infoDataBuffer = s.infoDataBuffer)
    (fun u l v h hq hi => ?_) ⟨.inl rfl, rfl, rfl⟩
  obtain ⟨hpc, hraw, hinfo⟩ := (State.fire_outcome (State.step_eq_some.mp h).2).app hq
  refine ⟨?_, hraw.trans hi.2.1, hinfo.trans hi.2.2⟩
  obtain hsame | hcrashed := hpc
  · rw [hsame]
    exact hi.1
  · exact .inr hcrashed

/-! ## The buffers -/

/-- A buffer of the channel at a place. -/
def bufferAt (cs : List Channel) (i : Nat) (k : BufferKind) : Option Buffer :=
  cs[i]?.bind (·.buffer? k)

namespace State

/-- A buffer of the channel at a place. -/
def buffer? (s : State) (i : Nat) (k : BufferKind) : Option Buffer :=
  bufferAt s.registry.channels i k

theorem buffer?_data {s : State} {k : Nat} {ch : Channel}
    (h : s.registry.channels[k]? = some ch) : s.buffer? k .data = some ch.dataBuffer := by
  rw [buffer?, bufferAt, h]
  rfl

/-- How many write calls on a buffer are between their two sections. -/
def pendingOn (s : State) (i : Nat) (k : BufferKind) : Nat :=
  s.pending.countP fun p => p.2 = (i, k)

end State

variable {env : Env} {s t : State} {l : Label} {i : Nat} {k : BufferKind} {buf : Buffer}

theorem bufferAt_modify (cs : List Channel) (j : Nat) (k' : BufferKind) (f : Buffer → Buffer) :
    bufferAt (cs.modify j (Channel.mapBuffer k' f)) i k =
      if (j, k') = (i, k) then (bufferAt cs i k).map f else bufferAt cs i k := by
  unfold bufferAt
  rw [List.getElem?_modify]
  by_cases hj : j = i
  · subst hj
    by_cases hk : k' = k
    · subst hk
      cases cs[j]? <;> simp [Channel.buffer?_mapBuffer_self]
    · cases cs[j]? <;> simp [hk, Channel.buffer?_mapBuffer_ne (Ne.symm hk)]
  · cases cs[i]? <;> simp [hj]

/-- A change that leaves the buffers of a channel alone. -/
theorem bufferAt_modify_of_eq {f : Channel → Channel} (h : ∀ ch, (f ch).buffer? k = ch.buffer? k)
    (cs : List Channel) (j : Nat) : bufferAt (cs.modify j f) i k = bufferAt cs i k := by
  unfold bufferAt
  rw [List.getElem?_modify]
  cases cs[i]? <;> simp
  split <;> simp [h]

/-- A new channel leaves the buffers of the others alone. -/
theorem bufferAt_append_of_ne {cs : List Channel} (h : cs.length ≠ i) (ch : Channel) :
    bufferAt (cs ++ [ch]) i k = bufferAt cs i k := by
  unfold bufferAt
  rcases Nat.lt_or_ge i cs.length with hlt | hge
  · rw [List.getElem?_append_left hlt]
  · rw [List.getElem?_eq_none hge, List.getElem?_eq_none (by simp; omega)]

/-- The buffers after a step of none of the two sections: a new channel brings its own. -/
theorem Effect.bufferAt {cs cs' : List Channel} (h : Effect l cs cs')
    (hw : ∀ u k c d, l ≠ .write u k c d) (hs : ∀ u, l ≠ .swap u) :
    bufferAt cs' i k = bufferAt cs i k ∨ (∃ n ty hz al, l = .addChannel n ty hz al) ∧
      bufferAt cs i k = none ∧ ∃ ch : Channel, ch.Fresh ∧ bufferAt cs' i k = ch.buffer? k := by
  cases h with
  | keep => exact .inl rfl
  | @add n ty hz al ch _ fresh =>
    by_cases hi : cs.length = i
    · subst hi
      refine .inr ⟨⟨n, ty, hz, al, rfl⟩, by simp [Foxdbg.bufferAt], ch, fresh, ?_⟩
      simp [Foxdbg.bufferAt]
    · exact .inl (bufferAt_append_of_ne hi ch)
  | write u k c d => exact absurd rfl (hw u k c d)
  | swap u => exact absurd rfl (hs u)
  | clear w r =>
    left
    unfold Foxdbg.bufferAt
    rw [List.getElem?_map]
    cases cs[i]? <;> simp
  | subscribe w d j id => exact .inl (bufferAt_modify_of_eq (by simp) ..)
  | stamp now j => exact .inl (bufferAt_modify_of_eq (by intro ch; cases k <;> rfl) ..)

/-- What a step does to one buffer and to the calls that are pending on it. -/
inductive BufferStep (i : Nat) (k : BufferKind) (s t : State) : Label → Prop
  | alone (l : Label) : (∀ u id d, l = .write u k id d → s.registry.find k id ≠ some i) →
      t.buffer? i k = s.buffer? i k → t.pendingOn i k = s.pendingOn i k → BufferStep i k s t l
  | added {l : Label} {ch : Channel} : s.buffer? i k = none → ch.Fresh →
      t.buffer? i k = ch.buffer? k → t.pendingOn i k = s.pendingOn i k → BufferStep i k s t l
  | wrote {u : Tid} {id : Int32} {d : Bytes} : s.registry.find k id = some i →
      t.buffer? i k = (s.buffer? i k).map (k.section d) →
      t.pendingOn i k = s.pendingOn i k + 1 → BufferStep i k s t (.write u k id d)
  | swapped {u : Tid} : t.buffer? i k = (s.buffer? i k).map Buffer.swapBuffers →
      s.pendingOn i k = t.pendingOn i k + 1 → BufferStep i k s t (.swap u)

namespace State

theorem fire_swap {u : Tid} : s.fire env (.swap u) = some t ↔
    ∃ u' i k, s.pending.find? (·.1 == u) = some (u', i, k) ∧
      { s with registry := s.registry.swap i k, pending := s.pending.erase (u', i, k) } = t := by
  simp only [fire]
  cases s.pending.find? (·.1 == u) with
  | none => simp
  | some p =>
    obtain ⟨u', i, k⟩ := p
    simp only [Option.some.injEq, Prod.mk.injEq]
    constructor
    · exact fun h => ⟨u', i, k, ⟨rfl, rfl, rfl⟩, h⟩
    · rintro ⟨_, _, _, ⟨rfl, rfl, rfl⟩, h⟩
      exact h

/-- Only the two sections of the write calls change a buffer that is there. -/
theorem fire_buffer (h : s.fire env l = some t) (i : Nat) (k : BufferKind) :
    BufferStep i k s t l := by
  by_cases hw : ∃ u k' c d, l = .write u k' c d
  · obtain ⟨u, k', c, d, rfl⟩ := hw
    obtain ⟨-, h⟩ := fire_write.mp h
    split at h
    · rename_i hnone
      subst h
      refine .alone _ ?_ rfl rfl
      rintro _ _ _ ⟨⟩ hfind
      cases hnone.symm.trans hfind
    · rename_i j hj
      by_cases hjk : (j, k') = (i, k)
      · cases hjk
        subst h
        refine .wrote hj ?_ ?_
        · exact (bufferAt_modify ..).trans (if_pos rfl)
        · simp [pendingOn]
      · subst h
        refine .alone _ ?_ ?_ ?_
        · rintro _ _ _ ⟨⟩ hfind
          cases hj.symm.trans hfind
          exact hjk rfl
        · exact (bufferAt_modify ..).trans (if_neg hjk)
        · simp [pendingOn, hjk]
  by_cases hs : ∃ u, l = .swap u
  · obtain ⟨u, rfl⟩ := hs
    obtain ⟨u', j, k', hfind, rfl⟩ := fire_swap.mp h
    have hcount : s.pendingOn i k =
        List.countP (fun p => decide (p.2 = (i, k))) (s.pending.erase (u', j, k')) +
          if (j, k') = (i, k) then 1 else 0 := by
      unfold pendingOn
      rw [(List.perm_cons_erase (List.mem_of_find?_eq_some hfind)).countP_eq, List.countP_cons]
      simp
    by_cases hjk : (j, k') = (i, k)
    · cases hjk
      exact .swapped ((bufferAt_modify ..).trans (if_pos rfl)) (by rw [hcount, if_pos rfl]; rfl)
    · exact .alone _ nofun ((bufferAt_modify ..).trans (if_neg hjk))
        (by rw [hcount, if_neg hjk]; rfl)
  · have hw' : ∀ u k c d, l ≠ .write u k c d := fun u k c d e => hw ⟨u, k, c, d, e⟩
    have hs' : ∀ u, l ≠ .swap u := fun u e => hs ⟨u, e⟩
    have hout := fire_outcome h
    have hp : t.pendingOn i k = s.pendingOn i k := by
      unfold pendingOn
      rw [hout.pending hw' hs']
    obtain hb | ⟨-, hnone, ch, fresh, hb⟩ := hout.channels.bufferAt (i := i) (k := k) hw' hs'
    · exact .alone _ (fun u _ d e => absurd e (hw' u k _ d)) hb hp
    · exact .added hnone fresh hb hp

/-- A write section that finds its channel is observed. -/
theorem step_wrote {u : Tid} {id : Int32} {d : Bytes} (hfind : s.registry.find k id = some i)
    (h : s.step env (.write u k id d) = some t) :
    t.trace = .wrote i k d :: .event (.write u k id d) :: s.trace := by
  obtain ⟨-, ht⟩ := fire_write.mp (step_eq_some.mp h).2
  rw [show (s.log (.event (.write u k id d))).registry.find k id = some i from hfind] at ht
  rw [← ht]
  rfl

theorem step_buffer (h : s.step env l = some t) (i : Nat) (k : BufferKind) :
    BufferStep i k s t l := by
  have hb := fire_buffer (step_eq_some.mp h).2 i k
  generalize hl : l = l' at hb
  cases hb with
  | alone _ hs hb hp => exact .alone _ hs hb hp
  | added hn hf hb hp => exact .added hn hf hb hp
  | wrote hi hb hp => exact .wrote hi hb hp
  | swapped hb hp => exact .swapped hb hp

end State

end Foxdbg
