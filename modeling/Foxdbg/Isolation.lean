import Foxdbg.Lib.Related
import Foxdbg.Reads
import Foxdbg.Steps

/-!
# Isolation: the bodies of one channel, in two runs

Two runs differ in the payloads of the calls for other channels than `c`. The senders share
`raw_data_buffer`, `info_data_buffer` and `encode_buffer`, and a sender that stays within the bytes
of its own sections makes the same body in both runs. `send_image` does so only if its info section
copied a whole struct and its data section as many bytes as the info has pixels (`ReadsOwn`).
`Isolated` is the relation of the two states that every pair of steps keeps.
-/

namespace Foxdbg

open Json Mem

/-- The labels of two runs that differ in the payloads for other channels than `c`. -/
inductive SameFor (c : Int32) : Label → Label → Prop
  | same (l : Label) : SameFor c l l
  | write (u : Tid) (k : BufferKind) {id : Int32} (d d' : Bytes) (h : id ≠ c) :
      SameFor c (.write u k id d) (.write u k id d')

/-- The bodies sent for a channel, the last one first: what follows the header of a frame. -/
def bodies (c : Int32) (tr : List Obs) : List Bytes :=
  tr.filterMap fun
    | .frame _ id d => if id = c then some (d.drop 13) else none
    | _ => none

/-- An image sender of `c` that encodes has copied the whole info, and all the pixels of the
image. -/
def ReadsOwn (c : Int32) (s : State) (l : Label) (_ : State) : Prop :=
  ∀ nsec k job ch, l = .encode nsec → s.pc.job? = some (k, job) →
    s.registry.channels[k]? = some ch → ch.channelId = c → ch.channelType = .image →
    sizeofImageInfo ≤ job.infoSize ∧ imageSize s.infoDataBuffer ≤ job.dataSize

/-- Two channels that differ in their buffers only; with the id `c`, the same channel. -/
structure Alike (c : Int32) (ch ch' : Channel) : Prop where
  channelId : ch.channelId = ch'.channelId
  subscriptionId : ch.subscriptionId = ch'.subscriptionId
  targetTxTime : ch.targetTxTime = ch'.targetTxTime
  lastTxTime : ch.lastTxTime = ch'.lastTxTime
  info : ch.infoBuffer.isSome = ch'.infoBuffer.isSome
  own : ch.channelId = c → ch = ch'

/-- The same sender between its sections, with the same bytes copied. -/
structure SameJob (type : ChannelType) (s t : State) (job job' : Option Job) : Prop where
  eq : job = job'
  admits : ∀ j, job = some j → (senderOf type).admits j.dataSize = true
  raw : ∀ j, job = some j → Agree s.rawDataBuffer t.rawDataBuffer 0 j.dataSize
  info : ∀ j, job = some j → Agree s.infoDataBuffer t.infoDataBuffer 0 j.infoSize

/-- The server thread is at the same place, with the same job if it serves `c`. -/
inductive SamePc (c : Int32) (s t : State) : Prop
  | idle : s.pc = .idle → t.pc = .idle → SamePc c s t
  | visit (k : Nat) : s.pc = .visit k → t.pc = .visit k → SamePc c s t
  | readInfo (k : Nat) (due : Bool) {job job' : Option Job} {ch : Channel} :
      s.pc = .readInfo k due job → t.pc = .readInfo k due job' →
      s.registry.channels[k]? = some ch →
      (ch.channelId = c → SameJob ch.channelType s t job job') → SamePc c s t
  | encode (k : Nat) (due : Bool) {job job' : Option Job} {ch : Channel} :
      s.pc = .encode k due job → t.pc = .encode k due job' →
      s.registry.channels[k]? = some ch →
      (ch.channelId = c → SameJob ch.channelType s t job job') → SamePc c s t
  | stamp (k : Nat) (due : Bool) : s.pc = .stamp k due → t.pc = .stamp k due → SamePc c s t

/-- Two live states that differ in the data of other channels than `c`. -/
structure Alive (c : Int32) (s t : State) : Prop where
  channels : List.Forall₂ (Alike c) s.registry.channels t.registry.channels
  count : s.registry.channelCount = t.registry.channelCount
  client : s.client = t.client
  sockets : s.sockets = t.sockets
  pending : s.pending = t.pending
  pc : SamePc c s t

/-- Two states with the same bodies for `c`, which differ in the data of other channels. -/
structure Isolated (c : Int32) (s t : State) : Prop where
  sent : bodies c s.trace = bodies c t.trace
  alive : s.pc ≠ .crashed → t.pc ≠ .crashed → Alive c s t

variable {env : Env} {c : Int32} {s s' t t' : State} {l l' : Label} {ch ch' : Channel}

/-! ## Channels -/

namespace Alike

theorem refl (c : Int32) (ch : Channel) : Alike c ch ch := ⟨rfl, rfl, rfl, rfl, rfl, fun _ => rfl⟩

theorem isDue (h : Alike c ch ch') (now : UInt64) : State.isDue ch now = State.isDue ch' now := by
  unfold State.isDue
  rw [h.lastTxTime, h.targetTxTime]

theorem setSubscription (h : Alike c ch ch') (id : Int32) :
    Alike c (ch.setSubscription id) (ch'.setSubscription id) :=
  ⟨h.channelId, rfl, h.targetTxTime, h.lastTxTime, h.info, fun hc => by rw [h.own hc]⟩

theorem stamp (h : Alike c ch ch') (now : UInt64) :
    Alike c { ch with lastTxTime := now } { ch' with lastTxTime := now } :=
  ⟨h.channelId, h.subscriptionId, h.targetTxTime, rfl, h.info, fun hc => by rw [h.own hc]⟩

/-- A section on a buffer, with the same payload if the channel is `c`. -/
theorem mapBuffer {k : BufferKind} {f g : Buffer → Buffer} (h : Alike c ch ch')
    (hfg : ch.channelId = c → f = g) : Alike c (ch.mapBuffer k f) (ch'.mapBuffer k g) := by
  refine ⟨?_, ?_, ?_, ?_, ?_, fun hc => ?_⟩
  · simpa using h.channelId
  · simpa using h.subscriptionId
  · cases k <;> exact h.targetTxTime
  · cases k <;> exact h.lastTxTime
  · cases k
    · exact h.info
    · simpa [Channel.mapBuffer, Channel.mapInfo] using h.info
  · rw [Channel.mapBuffer_channelId] at hc
    rw [h.own hc, hfg hc]

end Alike

/-- A call finds the same channel in both states. -/
theorem find_eq {r r' : Registry} (h : List.Forall₂ (Alike c) r.channels r'.channels)
    (k : BufferKind) (id : Int32) : r.find k id = r'.find k id := by
  cases k with
  | data => exact h.findIdx? fun ch ch' ha => by rw [ha.channelId]
  | info => exact h.findIdx? fun ch ch' ha => by rw [ha.channelId, ha.info]

theorem subscribeTarget_eq {cs cs' : List Channel} (h : List.Forall₂ (Alike c) cs cs')
    (F : FloatLib) (es : List Json) : subscribeTarget F cs es = subscribeTarget F cs' es := by
  induction es with
  | nil => rfl
  | cons e es ih =>
    unfold subscribeTarget
    split
    · exact ih
    · rename_i id channelId _
      rw [h.findIdx? fun ch ch' (ha : Alike c ch ch') =>
        show (ch.channelId == channelId) = (ch'.channelId == channelId) by rw [ha.channelId], ih]

theorem unsubscribeTarget_eq {cs cs' : List Channel} (h : List.Forall₂ (Alike c) cs cs')
    (F : FloatLib) (es : List Json) : unsubscribeTarget F cs es = unsubscribeTarget F cs' es := by
  induction es with
  | nil => rfl
  | cons e es ih =>
    unfold unsubscribeTarget
    split
    · exact ih
    · rename_i id _
      rw [h.findIdx? fun ch ch' (ha : Alike c ch ch') =>
        show (ch.subscriptionId == id) = (ch'.subscriptionId == id) by rw [ha.subscriptionId], ih]

/-- A message has the same effect on both lists. -/
theorem handleMessage_alike {cs cs' : List Channel} (h : List.Forall₂ (Alike c) cs cs')
    (F : FloatLib) (j : Json) :
    List.Forall₂ (Alike c) (handleMessage F cs j) (handleMessage F cs' j) := by
  unfold handleMessage
  rw [← subscribeTarget_eq h, ← unsubscribeTarget_eq h]
  split
  · exact h.modify fun _ _ _ ha => ha.setSubscription _
  · split
    · exact h.modify fun _ _ _ ha => ha.setSubscription _
    · exact h

/-! ## The steps of the application -/

/-- The place of the server thread, after steps that leave it and the memory of its sender alone. -/
theorem SamePc.kept (h : SamePc c s t) (hpc : s'.pc = s.pc) (hpc' : t'.pc = t.pc)
    (hraw : s'.rawDataBuffer = s.rawDataBuffer ∧ s'.infoDataBuffer = s.infoDataBuffer)
    (hraw' : t'.rawDataBuffer = t.rawDataBuffer ∧ t'.infoDataBuffer = t.infoDataBuffer)
    (hch : ∀ (k : Nat) (ch : Channel), s.registry.channels[k]? = some ch →
      ∃ ch' : Channel, s'.registry.channels[k]? = some ch' ∧ ch'.static = ch.static) :
    SamePc c s' t' := by
  have job : ∀ {k : Nat} {ch : Channel} {job job' : Option Job}, s.registry.channels[k]? = some ch →
      (ch.channelId = c → SameJob ch.channelType s t job job') →
      ∃ ch' : Channel, s'.registry.channels[k]? = some ch' ∧
        (ch'.channelId = c → SameJob ch'.channelType s' t' job job') := by
    intro k ch job job' hk hjob
    obtain ⟨ch', hk', hstatic⟩ := hch k ch hk
    obtain ⟨hid, hty, -⟩ := static_eq hstatic
    refine ⟨ch', hk', fun hc => ?_⟩
    obtain ⟨heq, hadm, hr, hi⟩ := hjob (hid.symm.trans hc)
    refine ⟨heq, hty ▸ hadm, ?_, ?_⟩
    · rw [hraw.1, hraw'.1]
      exact hr
    · rw [hraw.2, hraw'.2]
      exact hi
  cases h with
  | idle hs ht => exact .idle (hpc.trans hs) (hpc'.trans ht)
  | visit k hs ht => exact .visit k (hpc.trans hs) (hpc'.trans ht)
  | readInfo k due hs ht hk hjob =>
    obtain ⟨ch', hk', hjob'⟩ := job hk hjob
    exact .readInfo k due (hpc.trans hs) (hpc'.trans ht) hk' hjob'
  | encode k due hs ht hk hjob =>
    obtain ⟨ch', hk', hjob'⟩ := job hk hjob
    exact .encode k due (hpc.trans hs) (hpc'.trans ht) hk' hjob'
  | stamp k due hs ht => exact .stamp k due (hpc.trans hs) (hpc'.trans ht)

/-- A log entry is not read. -/
theorem Alive.log (h : Alive c s t) (o o' : Obs) : Alive c (s.log o) (t.log o') :=
  { h with pc := h.pc.kept rfl rfl ⟨rfl, rfl⟩ ⟨rfl, rfl⟩ fun _ ch hch => ⟨ch, hch, rfl⟩ }

/-- A step of the application leaves the session and the server thread alone. -/
theorem Alive.app (hi : Alive c s t) (hl : l.isApp = true) (hl' : l'.isApp = true)
    (h : s.fire env l = some s') (h' : t.fire env l' = some t')
    (hlive : s'.pc ≠ .crashed) (hlive' : t'.pc ≠ .crashed)
    (hchannels : List.Forall₂ (Alike c) s'.registry.channels t'.registry.channels)
    (hcount : s'.registry.channelCount = t'.registry.channelCount)
    (hpending : s'.pending = t'.pending) : Alive c s' t' := by
  have ho := State.fire_outcome h
  have ho' := State.fire_outcome h'
  have hcb : ∀ {l : Label}, l.isApp = true → ∀ w reason, l ≠ .callback w reason := by
    rintro _ h w reason rfl
    cases h
  obtain ⟨hclient, hsockets⟩ := ho.session (hcb hl)
  obtain ⟨hclient', hsockets'⟩ := ho'.session (hcb hl')
  obtain ⟨hpc, hmem⟩ := ho.app hl
  obtain ⟨hpc', hmem'⟩ := ho'.app hl'
  refine ⟨hchannels, hcount, ?_, ?_, hpending, ?_⟩
  · rw [hclient, hclient', hi.client]
  · rw [hsockets, hsockets', hi.sockets]
  · exact hi.pc.kept (hpc.resolve_right hlive) (hpc'.resolve_right hlive') hmem hmem'
      fun _ _ hch => ho.channel hch

theorem Alive.addChannel {n : Bytes} {ty : Option ChannelType} {hz : Int32} {al : Alloc}
    (hi : Alive c s t) (h : s.fire env (.addChannel n ty hz al) = some s')
    (h' : t.fire env (.addChannel n ty hz al) = some t') (hlive : s'.pc ≠ .crashed)
    (hlive' : t'.pc ≠ .crashed) : Alive c s' t' := by
  obtain ⟨res, hres⟩ := Registry.addChannel_eq n ty hz al s.registry.channelCount
  have added : ∀ {s s' : State}, s.fire env (.addChannel n ty hz al) = some s' →
      s'.pc ≠ .crashed → s'.pending = s.pending ∧
        (s.registry.addChannel n ty hz al).map (·.1) = some s'.registry := by
    intro s s' h hlive
    simp only [State.fire] at h
    split at h
    · cases h
      exact absurd rfl hlive
    · rename_i hadd
      cases h
      rw [hadd]
      exact ⟨rfl, rfl⟩
  obtain ⟨hp, hr⟩ := added h hlive
  obtain ⟨hp', hr'⟩ := added h' hlive'
  have hpending : s'.pending = t'.pending := by rw [hp, hp', hi.pending]
  rw [hres _ rfl] at hr
  rw [hres _ hi.count.symm] at hr'
  cases res with
  | none => cases hr
  | some new =>
    replace hr := Option.some.inj hr
    replace hr' := Option.some.inj hr'
    cases new with
    | none =>
      refine hi.app rfl rfl h h' hlive hlive' ?_ ?_ hpending
      · rw [← hr, ← hr']
        exact hi.channels
      · rw [← hr, ← hr']
        exact hi.count
    | some ch =>
      refine hi.app rfl rfl h h' hlive hlive' ?_ ?_ hpending
      · rw [← hr, ← hr']
        exact List.rel_append hi.channels (.cons (.refl c ch) .nil)
      · rw [← hr, ← hr']

theorem Alive.addRxChannel {n : Bytes} {ty : Option ChannelType} {al : Alloc}
    (hi : Alive c s t) (h : s.fire env (.addRxChannel n ty al) = some s')
    (h' : t.fire env (.addRxChannel n ty al) = some t') (hlive : s'.pc ≠ .crashed)
    (hlive' : t'.pc ≠ .crashed) : Alive c s' t' := by
  have added : ∀ {s s' : State}, s.fire env (.addRxChannel n ty al) = some s' →
      s'.pending = s.pending ∧ s'.registry.channels = s.registry.channels ∧
        s'.registry.channelCount = s.registry.channelCount := by
    rintro s s' ⟨⟩
    obtain hr | ⟨ch, -, hr⟩ := Registry.addRxChannel_cases s.registry n ty al <;>
      exact ⟨rfl, by rw [hr], by rw [hr]⟩
  obtain ⟨hp, hc, hn⟩ := added h
  obtain ⟨hp', hc', hn'⟩ := added h'
  refine hi.app rfl rfl h h' hlive hlive' ?_ ?_ ?_
  · rw [hc, hc']
    exact hi.channels
  · rw [hn, hn']
    exact hi.count
  · rw [hp, hp', hi.pending]

/-- Two write sections with the same id, and the same payload if the id is `c`. -/
theorem Alive.write {u : Tid} {k : BufferKind} {id : Int32} {d d' : Bytes} (hi : Alive c s t)
    (hd : id = c → d = d') (h : s.fire env (.write u k id d) = some s')
    (h' : t.fire env (.write u k id d') = some t') (hlive : s'.pc ≠ .crashed)
    (hlive' : t'.pc ≠ .crashed) : Alive c s' t' := by
  obtain ⟨-, hw⟩ := State.fire_write.mp h
  obtain ⟨-, hw'⟩ := State.fire_write.mp h'
  rw [← find_eq hi.channels] at hw'
  cases hfind : s.registry.find k id with
  | none =>
    simp only [hfind] at hw hw'
    subst hw hw'
    exact hi
  | some i =>
    simp only [hfind] at hw hw'
    refine hi.app rfl rfl h h' hlive hlive' ?_ ?_ ?_
    · rw [← hw, ← hw']
      exact hi.channels.modify fun ch ch' hch ha => ha.mapBuffer fun hc => by
        rw [hd ((Registry.channelId_of_find hfind hch).symm.trans hc)]
    · rw [← hw, ← hw']
      exact hi.count
    · rw [← hw, ← hw']
      show (u, i, k) :: s.pending = (u, i, k) :: t.pending
      rw [hi.pending]

theorem Alive.swap {u : Tid} (hi : Alive c s t) (h : s.fire env (.swap u) = some s')
    (h' : t.fire env (.swap u) = some t') (hlive : s'.pc ≠ .crashed) (hlive' : t'.pc ≠ .crashed) :
    Alive c s' t' := by
  obtain ⟨u₁, i, k, hfind, hs⟩ := State.fire_swap.mp h
  obtain ⟨u₂, i', k', hfind', ht⟩ := State.fire_swap.mp h'
  rw [← hi.pending, hfind] at hfind'
  cases hfind'
  refine hi.app rfl rfl h h' hlive hlive' ?_ ?_ ?_
  · rw [← hs, ← ht]
    exact hi.channels.modify fun ch ch' _ ha => ha.mapBuffer fun _ => rfl
  · rw [← hs, ← ht]
    exact hi.count
  · rw [← hs, ← ht]
    show s.pending.erase _ = t.pending.erase _
    rw [hi.pending]

/-! ## The callbacks -/

theorem opened_channelCount (s : State) (w : Socket) :
    (s.opened w).registry.channelCount = s.registry.channelCount := by
  unfold State.opened
  cases s.client <;> rfl

theorem Alive.opened (hi : Alive c s t) (w : Socket) :
    List.Forall₂ (Alike c) (s.opened w).registry.channels (t.opened w).registry.channels := by
  rw [State.opened_channels, State.opened_channels, ← hi.client]
  split
  · exact hi.channels.map fun _ _ ha => ha.setSubscription _
  · exact hi.channels

theorem Alive.openSocket (hi : Alive c s t) (w : Socket) :
    Alive c (s.openSocket w) (t.openSocket w) :=
  { hi with
    sockets := by simp [hi.sockets]
    pc := hi.pc.kept rfl rfl ⟨rfl, rfl⟩ ⟨rfl, rfl⟩ fun _ ch hch => ⟨ch, hch, rfl⟩ }

/-- A callback has the same effect on both states, if both return. -/
theorem Alive.callback {w : Socket} {reason : Reason} (hi : Alive c s t)
    (h : s.fire env (.callback w reason) = some s') (h' : t.fire env (.callback w reason) = some t')
    (hlive : s'.pc ≠ .crashed) (hlive' : t'.pc ≠ .crashed) : Alive c s' t' := by
  cases reason with
  | established =>
    obtain ⟨hpc, -, hs⟩ := State.fire_established.mp h
    obtain ⟨hpc', -, ht⟩ := State.fire_established.mp h'
    obtain ⟨tx, obs, pc, he, -, hp⟩ := State.established_eq env (s.openSocket w) w
    obtain ⟨tx', obs', pc', he', -, hp'⟩ := State.established_eq env (t.openSocket w) w
    rw [← hs, he] at hlive ⊢
    rw [← ht, he'] at hlive' ⊢
    have ho := hi.openSocket w
    refine ⟨ho.opened w, ?_, rfl, ?_, ?_, .idle ?_ ?_⟩
    · simpa only [opened_channelCount] using ho.count
    · simpa only [State.opened_sockets] using ho.sockets
    · simpa only [State.opened_pending] using ho.pending
    · exact (hp.resolve_right hlive).trans hpc
    · exact (hp'.resolve_right hlive').trans hpc'
  | receive d =>
    obtain ⟨hpc, -, rfl⟩ := State.fire_receive.mp h
    obtain ⟨hpc', -, rfl⟩ := State.fire_receive.mp h'
    unfold State.receive at hlive hlive' ⊢
    cases hm : parseMessage env.toFloatLib d with
    | none =>
      rw [hm] at hlive
      exact absurd rfl hlive
    | some m =>
      cases m with
      | none => exact hi
      | some j =>
        exact { hi with
          channels := handleMessage_alike hi.channels _ j
          pc := .idle hpc hpc' }
  | closed =>
    obtain ⟨hpc, -, rfl⟩ := State.fire_closed.mp h
    obtain ⟨hpc', -, rfl⟩ := State.fire_closed.mp h'
    refine ⟨hi.channels.map fun _ _ ha => ha.setSubscription _, hi.count, rfl, ?_, hi.pending,
      .idle hpc hpc'⟩
    show s.sockets.filter _ = t.sockets.filter _
    rw [hi.sockets]
  | serverWriteable =>
    obtain ⟨-, -, rfl⟩ := State.fire_serverWriteable.mp h
    obtain ⟨-, -, rfl⟩ := State.fire_serverWriteable.mp h'
    exact { hi with pc := .visit 0 rfl rfl }

/-! ## The iterations -/

theorem Alive.visit {now : UInt64} (hi : Alive c s t) (h : s.fire env (.visit now) = some s')
    (h' : t.fire env (.visit now) = some t') : Alive c s' t' := by
  obtain ⟨k, hk, rfl⟩ := State.fire_visit.mp h
  obtain ⟨k', hk', rfl⟩ := State.fire_visit.mp h'
  obtain rfl : k = k' := by
    cases hi.pc <;> simp_all
  cases hch : s.registry.channels[k]? with
  | none =>
    have hch' := hi.channels.getElem?_none hch
    simp only [State.visit, hch, hch']
    exact { hi with pc := .idle rfl rfl }
  | some ch =>
    obtain ⟨ch', hch', ha⟩ := hi.channels.getElem? hch
    rw [State.visit_some hch, State.visit_some hch']
    refine { hi with
      pc := .readInfo k (State.isDue ch now) rfl (by rw [← ha.isDue]) hch fun hc => ?_ }
    cases ha.own hc
    refine ⟨rfl, fun j hj => ?_, fun j hj => ?_, fun j hj => ?_⟩ <;>
      obtain ⟨-, -, hadm, rfl⟩ := Channel.job_some hj
    · exact hadm
    · have hcopy := copy_agree s.rawDataBuffer t.rawDataBuffer 0 ch.dataBuffer.readSection
      simpa [hj, Buffer.readSection, Buffer.beginRead] using hcopy
    · intro i _ hlt
      exact absurd hlt (Nat.not_lt_zero i)

/-- The place of a sender that has its info section next. -/
theorem SamePc.of_readInfo {k k' : Nat} {due due' : Bool} {job job' : Option Job}
    (h : SamePc c s t) (hpc : s.pc = .readInfo k due job) (hpc' : t.pc = .readInfo k' due' job') :
    k' = k ∧ due' = due ∧ ∃ ch, s.registry.channels[k]? = some ch ∧
      (ch.channelId = c → SameJob ch.channelType s t job job') := by
  cases h with
  | readInfo k₁ due₁ hs ht hch hjob =>
    cases hpc.symm.trans hs
    cases hpc'.symm.trans ht
    exact ⟨rfl, rfl, _, hch, hjob⟩
  | idle hs => cases hpc.symm.trans hs
  | visit k hs => cases hpc.symm.trans hs
  | encode k due hs => cases hpc.symm.trans hs
  | stamp k due hs => cases hpc.symm.trans hs

/-- The place of a sender that encodes next. -/
theorem SamePc.of_encode {k k' : Nat} {due due' : Bool} {job job' : Option Job}
    (h : SamePc c s t) (hpc : s.pc = .encode k due job) (hpc' : t.pc = .encode k' due' job') :
    k' = k ∧ due' = due ∧ ∃ ch, s.registry.channels[k]? = some ch ∧
      (ch.channelId = c → SameJob ch.channelType s t job job') := by
  cases h with
  | encode k₁ due₁ hs ht hch hjob =>
    cases hpc.symm.trans hs
    cases hpc'.symm.trans ht
    exact ⟨rfl, rfl, _, hch, hjob⟩
  | idle hs => cases hpc.symm.trans hs
  | visit k hs => cases hpc.symm.trans hs
  | readInfo k due hs => cases hpc.symm.trans hs
  | stamp k due hs => cases hpc.symm.trans hs

/-- The info section of a sender, if it has a job. -/
def State.informed (s : State) (k : Nat) (due : Bool) : Option Job → State
  | none => { s with pc := .encode k due none }
  | some job => s.readInfo k due job

theorem fire_informed (h : s.fire env .readInfo = some s') :
    ∃ k due job, s.pc = .readInfo k due job ∧ s.informed k due job = s' := by
  obtain ⟨k, due, hpc, hs⟩ | ⟨k, due, job, hpc, hs⟩ := State.fire_readInfo.mp h
  · exact ⟨k, due, none, hpc, hs⟩
  · exact ⟨k, due, some job, hpc, hs⟩

/-- The info section ends at `encode`, with or without a job. -/
theorem informed_eq (s : State) (k : Nat) (due : Bool) (job : Option Job) :
    (s.informed k due job).pc = .crashed ∨ ∃ info job',
      s.informed k due job = { s with infoDataBuffer := info, pc := .encode k due job' } := by
  cases job with
  | none => exact .inr ⟨s.infoDataBuffer, none, rfl⟩
  | some job =>
    show (s.readInfo k due job).pc = .crashed ∨ ∃ info job', s.readInfo k due job = _
    obtain h | h | ⟨ch, -, ⟨-, h⟩ | ⟨-, info, -, -, h⟩⟩ := State.readInfo_cases s k due job <;>
      rw [h]
    · exact .inl rfl
    · exact .inr ⟨_, _, rfl⟩
    · exact .inr ⟨_, _, rfl⟩
    · exact .inr ⟨_, _, rfl⟩

/-- The info section of the same channel, with the same job. -/
theorem informed_same {k : Nat} {due : Bool} {job job₁ : Option Job}
    (hch : s.registry.channels[k]? = some ch) (hch' : t.registry.channels[k]? = some ch)
    (hjob : SameJob ch.channelType s t job job₁) (hlive : (s.informed k due job).pc ≠ .crashed) :
    ∃ info info' job',
      s.informed k due job = { s with infoDataBuffer := info, pc := .encode k due job' } ∧
      t.informed k due job₁ = { t with infoDataBuffer := info', pc := .encode k due job' } ∧
      ∀ j, job' = some j →
        (∃ j₀, job = some j₀ ∧ j₀.dataSize = j.dataSize) ∧ Agree info info' 0 j.infoSize := by
  cases hjob.eq
  cases job with
  | none => exact ⟨_, _, none, rfl, rfl, nofun⟩
  | some job =>
    unfold State.informed State.readInfo at hlive ⊢
    simp only [hch, hch'] at hlive ⊢
    by_cases hty : ch.channelType = .image
    · simp only [hty, if_true] at hlive ⊢
      cases hbuf : ch.infoBuffer with
      | none =>
        rw [hbuf] at hlive
        exact absurd rfl hlive
      | some info =>
        by_cases hsize : info.frontBufferSize ≤ sizeofInfoDataBuffer
        · simp only [Buffer.beginRead, hsize, if_true]
          refine ⟨_, _, _, rfl, rfl, ?_⟩
          rintro j ⟨⟩
          have hcopy := copy_agree s.infoDataBuffer t.infoDataBuffer 0 info.readSection
          exact ⟨⟨job, rfl, rfl⟩, by simpa [Buffer.readSection, Buffer.beginRead] using hcopy⟩
        · simp only [Buffer.beginRead, hsize, if_false]
          exact ⟨_, _, none, rfl, rfl, nofun⟩
    · simp only [hty, if_false]
      refine ⟨_, _, _, rfl, rfl, ?_⟩
      rintro j ⟨⟩
      exact ⟨⟨job, rfl, rfl⟩, hjob.info _ rfl⟩

theorem Alive.readInfo (hi : Alive c s t) (h : s.fire env .readInfo = some s')
    (h' : t.fire env .readInfo = some t') (hlive : s'.pc ≠ .crashed) (hlive' : t'.pc ≠ .crashed) :
    Alive c s' t' := by
  obtain ⟨k, due, job, hpc, rfl⟩ := fire_informed h
  obtain ⟨k', due', job', hpc', rfl⟩ := fire_informed h'
  obtain ⟨rfl, rfl, ch, hch, hjob⟩ := hi.pc.of_readInfo hpc hpc'
  by_cases hc : ch.channelId = c
  · obtain ⟨ch', hch', ha⟩ := hi.channels.getElem? hch
    cases ha.own hc
    obtain ⟨info, info', next, hs, ht, hnext⟩ := informed_same hch hch' (hjob hc) hlive
    rw [hs, ht]
    refine { hi with
      pc := .encode k' due' rfl rfl hch fun _ => ⟨rfl, ?_, ?_, fun j hj => (hnext j hj).2⟩ }
    · intro j hj
      obtain ⟨⟨j₀, hj₀, hsize⟩, -⟩ := hnext j hj
      rw [← hsize]
      exact (hjob hc).admits j₀ hj₀
    · intro j hj
      obtain ⟨⟨j₀, hj₀, hsize⟩, -⟩ := hnext j hj
      rw [← hsize]
      exact (hjob hc).raw j₀ hj₀
  · obtain ⟨info, next, hs⟩ := (informed_eq s k' due' job).resolve_left hlive
    obtain ⟨info', next', ht⟩ := (informed_eq t k' due' job').resolve_left hlive'
    rw [hs, ht]
    exact { hi with pc := .encode k' due' rfl rfl hch fun h => absurd h hc }

/-! ## The frames -/

/-- What a sender with a job hands over when it ends. -/
def State.emitted (env : Env) (s : State) (ch : Channel) (job : Option Job) (nsec : UInt64) :
    List Obs :=
  match job.map fun j => (senderOf ch.channelType).text env ch.topicName (s.source ch j) with
  | some (some (some body)) => s.frames ch body nsec
  | _ => []

/-- The end of a sender. -/
theorem encode_eq {k : Nat} {due : Bool} {job : Option Job} {nsec : UInt64}
    (h : s.fire env (.encode nsec) = some s') (hpc : s.pc = .encode k due job)
    (hch : s.registry.channels[k]? = some ch) : ∃ enc tx pc,
      s' = { s with
        encodeBuffer := enc
        txBuffer := tx
        trace := s.emitted env ch job nsec ++ s.trace
        pc } ∧ (pc = .stamp k due ∨ pc = .crashed) := by
  obtain ⟨k₁, due₁, hpc₁, rfl⟩ | ⟨k₁, due₁, j, hpc₁, rfl⟩ := State.fire_encode.mp h <;>
    cases hpc.symm.trans hpc₁
  · exact ⟨s.encodeBuffer, s.txBuffer, _, rfl, .inl rfl⟩
  · unfold State.emitted State.encode Sender.text
    simp only [hch, Option.map_some]
    cases (senderOf ch.channelType).body env ch.topicName (s.source ch j) with
    | none => exact ⟨s.encodeBuffer, s.txBuffer, _, rfl, .inr rfl⟩
    | some r =>
      cases r with
      | none => exact ⟨s.encodeBuffer, s.txBuffer, _, rfl, .inl rfl⟩
      | some e =>
        obtain ⟨tx, htx⟩ := State.sendBody_eq s ch e nsec
        exact ⟨e.encodeBuffer, tx, _, by simp only [htx]; rfl, .inl rfl⟩

theorem bodies_append (c : Int32) (tr tr' : List Obs) :
    bodies c (tr ++ tr') = bodies c tr ++ bodies c tr' := by
  simp [bodies]

/-- The sender of another channel sends no body of `c`. -/
theorem bodies_emitted_ne {job : Option Job} {nsec : UInt64} (hc : ch.channelId ≠ c) :
    bodies c (s.emitted env ch job nsec) = [] := by
  unfold State.emitted
  split
  · rename_i body _
    obtain h | ⟨w, -, h⟩ := State.frames_cases s ch body nsec <;> rw [h]
    · rfl
    · simp [bodies, hc]
  · rfl

/-- The sender of `c` hands over the same frames in both runs. -/
theorem emitted_same {job job' : Option Job} {nsec : UInt64} (hclient : s.client = t.client)
    (hjob : SameJob ch.channelType s t job job')
    (hown : ∀ j, job = some j → ch.channelType = .image →
      sizeofImageInfo ≤ j.infoSize ∧ imageSize s.infoDataBuffer ≤ j.dataSize) :
    s.emitted env ch job nsec = t.emitted env ch job' nsec := by
  cases hjob.eq
  cases job with
  | none => rfl
  | some job =>
    have htext : (senderOf ch.channelType).text env ch.topicName (s.source ch job) =
        (senderOf ch.channelType).text env ch.topicName (t.source ch job) := by
      by_cases hty : ch.channelType = .image
      · obtain ⟨hinfo, hsize⟩ := hown job rfl hty
        rw [hty]
        exact imageBody_congr ((hjob.info _ rfl).mono (Nat.le_refl _) (by omega))
          ((hjob.raw _ rfl).mono (Nat.le_refl _) (by rw [Nat.zero_add, Nat.zero_add]; exact hsize))
      · have hsame : SameData ch.channelType (s.source ch job) (t.source ch job) :=
          ⟨rfl, fun _ => hjob.raw _ rfl, fun _ => .refl _ _ _⟩
        exact text_congr hty (hjob.admits _ rfl) hsame _
    unfold State.emitted State.frames
    rw [Option.map_some, Option.map_some, htext, hclient]

/-- A step that does not encode sends nothing. -/
theorem bodies_step (h : s.step env l = some s') (hl : ∀ nsec, l ≠ .encode nsec) :
    bodies c s'.trace = bodies c s.trace := by
  obtain ⟨obs, htr, hobs⟩ := (State.fire_outcome (State.step_eq_some.mp h).2).trace
  have hnone : bodies c obs = [] := by
    refine List.filterMap_eq_nil_iff.mpr fun o ho => ?_
    cases o with
    | frame w id d =>
      obtain ⟨nsec, rfl⟩ := hobs _ ho
      exact absurd rfl (hl nsec)
    | _ => rfl
  rw [htr, bodies_append, hnone]
  rfl

theorem Isolated.encode {nsec : UInt64} (hi : Isolated c s t)
    (hq : ReadsOwn c s (.encode nsec) s') (h : s.step env (.encode nsec) = some s')
    (h' : t.step env (.encode nsec) = some t') : Isolated c s' t' := by
  obtain ⟨hlive, hf⟩ := State.step_eq_some.mp h
  obtain ⟨hlive', hf'⟩ := State.step_eq_some.mp h'
  have ha := (hi.alive hlive hlive').log (.event (.encode nsec)) (.event (.encode nsec))
  have hat : ∀ {s s' : State}, s.fire env (.encode nsec) = some s' →
      ∃ k due job, s.pc = .encode k due job := by
    intro s s' h
    obtain ⟨k, due, hpc, -⟩ | ⟨k, due, job, hpc, -⟩ := State.fire_encode.mp h
    · exact ⟨k, due, none, hpc⟩
    · exact ⟨k, due, some job, hpc⟩
  obtain ⟨k, due, job, hpc⟩ := hat hf
  obtain ⟨k', due', job', hpc'⟩ := hat hf'
  obtain ⟨rfl, rfl, ch, hch, hjob⟩ := ha.pc.of_encode hpc hpc'
  obtain ⟨ch', hch', halike⟩ := ha.channels.getElem? hch
  obtain ⟨enc, tx, pc, rfl, hp⟩ := encode_eq hf hpc hch
  obtain ⟨enc', tx', pc', rfl, hp'⟩ := encode_eq hf' hpc' hch'
  refine ⟨?_, fun hl hl' => { ha with
    pc := .stamp k' due' (hp.resolve_right hl) (hp'.resolve_right hl') }⟩
  show bodies c (_ ++ .event _ :: s.trace) = bodies c (_ ++ .event _ :: t.trace)
  rw [bodies_append, bodies_append]
  congr 1
  · by_cases hc : ch.channelId = c
    · cases halike.own hc
      rw [emitted_same ha.client (hjob hc) fun j hj hty =>
        hq nsec k' j ch rfl (by rw [show s.pc = _ from hpc, hj]; rfl) hch hc hty]
    · rw [bodies_emitted_ne hc, bodies_emitted_ne (halike.channelId ▸ hc)]
  · exact hi.sent

theorem Alive.stamp {now : UInt64} (hi : Alive c s t) (h : s.fire env (.stamp now) = some s')
    (h' : t.fire env (.stamp now) = some t') : Alive c s' t' := by
  obtain ⟨k, due, hpc, rfl⟩ := State.fire_stamp.mp h
  obtain ⟨k', due', hpc', rfl⟩ := State.fire_stamp.mp h'
  obtain ⟨rfl, rfl⟩ : k = k' ∧ due = due' := by
    cases hi.pc <;> simp_all
  cases due with
  | false =>
    exact { hi with pc := .visit (k + 1) rfl rfl }
  | true =>
    exact { hi with
      channels := hi.channels.modify fun _ _ _ ha => ha.stamp now
      pc := .visit (k + 1) rfl rfl }

namespace Isolated

theorem init (c : Int32) : Isolated c .init .init :=
  ⟨rfl, fun _ _ => ⟨.nil, rfl, rfl, rfl, rfl, .idle rfl rfl⟩⟩

/-- A step of an application thread, or a section of the server thread. -/
theorem of_alive (hi : Isolated c s t) (h : s.step env l = some s') (h' : t.step env l' = some t')
    (hl : ∀ nsec, l ≠ .encode nsec) (hl' : ∀ nsec, l' ≠ .encode nsec)
    (hstep : ∀ s t, Alive c s t → s.fire env l = some s' → t.fire env l' = some t' →
      s'.pc ≠ .crashed → t'.pc ≠ .crashed → Alive c s' t') : Isolated c s' t' := by
  obtain ⟨hlive, hf⟩ := State.step_eq_some.mp h
  obtain ⟨hlive', hf'⟩ := State.step_eq_some.mp h'
  refine ⟨?_, hstep _ _ ((hi.alive hlive hlive').log _ _) hf hf'⟩
  rw [bodies_step h hl, bodies_step h' hl', hi.sent]

theorem step (hi : Isolated c s t) (hl : SameFor c l l') (hq : ReadsOwn c s l s')
    (h : s.step env l = some s') (h' : t.step env l' = some t') : Isolated c s' t' := by
  cases hl with
  | write u k d d' hne =>
    exact hi.of_alive h h' nofun nofun fun _ _ ha => ha.write fun he => absurd he hne
  | same =>
    cases l with
    | addChannel => exact hi.of_alive h h' nofun nofun fun _ _ ha => ha.addChannel
    | addRxChannel => exact hi.of_alive h h' nofun nofun fun _ _ ha => ha.addRxChannel
    | write => exact hi.of_alive h h' nofun nofun fun _ _ ha => ha.write fun _ => rfl
    | swap => exact hi.of_alive h h' nofun nofun fun _ _ ha => ha.swap
    | callback => exact hi.of_alive h h' nofun nofun fun _ _ ha => ha.callback
    | visit => exact hi.of_alive h h' nofun nofun fun _ _ ha hf hf' _ _ => ha.visit hf hf'
    | readInfo => exact hi.of_alive h h' nofun nofun fun _ _ ha => ha.readInfo
    | encode nsec => exact hi.encode hq h h'
    | stamp => exact hi.of_alive h h' nofun nofun fun _ _ ha hf hf' _ _ => ha.stamp hf hf'

end Isolated

/-- **Isolation.** Two runs with the same steps, in which the calls for the channel `c` have the
same payloads, send the same bodies for `c`, if in one of them every image sender of `c` stays
within the bytes that it copied. -/
theorem bodies_isolated {es fs : List Label} (hs : (sys env).Run (ReadsOwn c) .init es s)
    (ht : (sys env).Reach .init fs t) (hl : List.Forall₂ (SameFor c) es fs) :
    bodies c s.trace = bodies c t.trace :=
  (hs.rel (R := Isolated c) (S := SameFor c)
    (fun _ _ _ _ _ _ hi hl h hq h' _ => hi.step hl hq h h') ht hl (.init c)).sent

/-- A `foxdbg_image_info_t`: one pixel with three channels. -/
def onePixel : Bytes := [1, 0, 0, 0, 1, 0, 0, 0, 3, 0, 0, 0]

/-- A run that sends two subscribed images of one pixel, first channel 0 and then channel 1, with
these infos. -/
def imagesRun (own other : Bytes) : List Label :=
  ([.addChannel (ascii "a") (some .image) 10 .zeroed,
    .addChannel (ascii "b") (some .image) 10 .zeroed] ++ writeCall .data 0 [5, 6, 7] ++
    writeCall .data 1 [8, 9, 10] ++ writeCall .info 1 own) ++ [.write 0 .info 0 other] ++
    (.swap 0 :: [.callback 1 .established, .callback 1 (.receive (subscribeText 5 0)),
      .callback 1 (.receive (subscribeText 6 1)), .callback 1 .serverWriteable] ++
      iteration 1000 7 ++ iteration 1000 7)

theorem sameFor_imagesRun (own other other' : Bytes) :
    List.Forall₂ (SameFor 1) (imagesRun own other) (imagesRun own other') := by
  have same : ∀ es, List.Forall₂ (SameFor 1) es es :=
    fun _ => List.forall₂_same.mpr fun l _ => .same l
  have info : List.Forall₂ (SameFor 1) [.write 0 .info 0 other] [.write 0 .info 0 other'] :=
    .cons (.write 0 .info other other' (by decide)) .nil
  exact List.rel_append (List.rel_append (same _) info) (same _)

/-- The check of `bodies_isolated`'s runs, for every channel. -/
def withinCopied (s : State) (l : Label) (_ : State) : Bool :=
  match l, s.pc.job? with
  | .encode _, some (_, job) =>
    sizeofImageInfo ≤ job.infoSize && imageSize s.infoDataBuffer ≤ job.dataSize
  | _, _ => true

theorem readsOwn_of_withinCopied (c : Int32) (s : State) (l : Label) (t : State)
    (h : withinCopied s l t = true) : ReadsOwn c s l t := by
  rintro nsec k job ch rfl hjob - - -
  simpa [withinCopied, hjob] using h

theorem own_info_isolated : ∃ s t, (sys .standIn).Reach .init (imagesRun onePixel onePixel) s ∧
    (sys .standIn).Reach .init (imagesRun onePixel (List.replicate 12 0)) t ∧
    bodies 1 s.trace = bodies 1 t.trace ∧ (bodies 1 t.trace).length = 1 := by
  obtain ⟨s, hs, -⟩ := Lts.exists_run (L := sys .standIn) (s := .init) (imagesRun onePixel onePixel)
    (p := fun _ => true) (readsOwn_of_withinCopied 1) (by decide +kernel)
  obtain ⟨t, ht, hone⟩ := Lts.exists_reach (L := sys .standIn) (s := .init)
    (imagesRun onePixel (List.replicate 12 0)) (p := fun t => (bodies 1 t.trace).length == 1)
    (by decide +kernel)
  exact ⟨s, t, hs.reach, ht, bodies_isolated hs ht (sameFor_imagesRun ..), eq_of_beq hone⟩

/-- Without an info of its own, channel 1 is sent with the info that `info_data_buffer` has from
channel 0: it gets a frame in one run only. -/
theorem stale_info : ∃ s t, (sys .standIn).Reach .init (imagesRun [] onePixel) s ∧
    (sys .standIn).Reach .init (imagesRun [] (List.replicate 12 0)) t ∧
    List.Forall₂ (SameFor 1) (imagesRun [] onePixel) (imagesRun [] (List.replicate 12 0)) ∧
    bodies 1 s.trace ≠ bodies 1 t.trace := by
  obtain ⟨s, hs, hone⟩ := Lts.exists_reach (L := sys .standIn) (s := .init) (imagesRun [] onePixel)
    (p := fun s => (bodies 1 s.trace).length == 1) (by decide +kernel)
  obtain ⟨t, ht, hnone⟩ := Lts.exists_reach (L := sys .standIn) (s := .init)
    (imagesRun [] (List.replicate 12 0)) (p := fun t => (bodies 1 t.trace).length == 0)
    (by decide +kernel)
  refine ⟨s, t, hs, ht, sameFor_imagesRun .., fun he => ?_⟩
  rw [he, eq_of_beq hnone] at hone
  cases hone

end Foxdbg
