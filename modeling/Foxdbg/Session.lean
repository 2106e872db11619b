import Foxdbg.Steps

/-!
# Sessions: who may get data

The server has one subscription table for all sockets, and `foxdbg_protocol_receive` does not know
which socket spoke. `Session` is what holds as long as only the client subscribes: each subscribed
row was asked for by the client since its `established` (`Asked`), the channel in service has such a
row, and so each frame goes to a socket that asked for it.

The second part is about `foxdbg_protocol_disconnect`, which does not look at the socket that
closed: the session survives a run exactly if no older socket closes in it.
-/

namespace Foxdbg

open Json

/-! ## History -/

/-- The event in which a socket is established. -/
def Obs.establishes (w : Socket) : Obs → Bool
  | .event (.callback v .established) => v == w
  | _ => false

/-- What a trace has since the last `established` of a socket. -/
def since (w : Socket) (tr : List Obs) : List Obs := tr.takeWhile fun o => !o.establishes w

/-- Since its `established`, the socket sent a subscribe message with an entry for the channel and
the subscription id. -/
def Asked (F : FloatLib) (tr : List Obs) (w : Socket) (channelId id : Int32) : Prop :=
  ∃ d j e, .event (.callback w (.receive d)) ∈ since w tr ∧ parseMessage F d = some (some j) ∧
    e ∈ entries "subscribe" "subscriptions" j ∧ subscription F e = some (id, channelId)

/-- The subscription id in the header of a frame. -/
def headerId (d : Bytes) : Nat := Mem.ofLe ((d.drop 1).take 4)

variable {env : Env} {F : FloatLib} {s t : State} {l : Label} {w : Socket} {tr obs : List Obs}

theorem since_append (h : ∀ o ∈ obs, o.establishes w = false) :
    since w (obs ++ tr) = obs ++ since w tr :=
  List.takeWhile_append_of_pos fun o ho => by rw [h o ho]; rfl

theorem Asked.append {c id : Int32} (h : Asked F tr w c id) (obs : List Obs)
    (ho : ∀ o ∈ obs, o.establishes w = false) : Asked F (obs ++ tr) w c id := by
  obtain ⟨d, j, e, hmem, hrest⟩ := h
  exact ⟨d, j, e, by rw [since_append ho]; exact List.mem_append_right _ hmem, hrest⟩

/-- Only an `established` is observed as one. -/
theorem Obs.From.establishes_eq {o : Obs} (h : o.From l) : o.establishes w = false := by
  cases o <;> first | rfl | cases h

/-- What a trace has since a socket's `established` stays, unless the step establishes it anew. -/
theorem mem_since_step {o : Obs} (h : State.Outcome l (s.log (.event l)) t)
    (hl : l ≠ .callback w .established) (ho : o ∈ since w s.trace) : o ∈ since w t.trace := by
  obtain ⟨obs, htr, hobs⟩ := h.trace
  have he : (Obs.event l).establishes w = false := by
    cases l with
    | callback v reason =>
      cases reason with
      | established => exact beq_false_of_ne fun hv => hl (by rw [hv])
      | _ => rfl
    | _ => rfl
  rw [htr, since_append fun o ho => (hobs o ho).establishes_eq]
  refine List.mem_append_right _ ?_
  show o ∈ since w ([.event l] ++ s.trace)
  rw [since_append (by simpa using he)]
  exact List.mem_append_right _ ho

/-- An `int` and the unsigned number of its bits. -/
theorem toInt_eq (id : Int32) : id.toInt =
    if 2 * id.toUInt32.toNat < 2 ^ 32 then (id.toUInt32.toNat : Int)
    else id.toUInt32.toNat - 2 ^ 32 := by
  rw [← Int32.toInt_toBitVec, BitVec.toInt_eq_toNat_cond, Int32.toNat_toBitVec]
  norm_cast

/-- A byte of an id is a digit of the unsigned number. -/
theorem toNat_idByte (id : Int32) {k : Nat} (hk : k < 4) :
    (State.idByte id k).toNat = id.toUInt32.toNat / 2 ^ (8 * k) % 256 := by
  have hbyte : ∀ x : Int, (UInt8.ofInt x).toNat = (x % 256).toNat := by
    intro x
    rw [UInt8.ofInt, UInt8.toNat_ofNat']
    omega
  have hi := toInt_eq id
  rw [State.idByte, Int.shiftRight_eq_div_pow, hbyte]
  generalize id.toUInt32.toNat = n at hi
  rw [hi]
  have hcases : k = 0 ∨ k = 1 ∨ k = 2 ∨ k = 3 := by omega
  rcases hcases with rfl | rfl | rfl | rfl <;> simp only [Nat.reduceMul, Nat.reducePow] <;>
    split <;> omega

/-- The header carries the id as an unsigned number. -/
theorem headerId_header (id : Int32) (nsec : UInt64) (body : Bytes) :
    headerId (State.header id nsec ++ body) = id.toUInt32.toNat := by
  have hdigits : headerId (State.header id nsec ++ body) =
      (State.idByte id 0).toNat + 256 * ((State.idByte id 1).toNat +
        256 * ((State.idByte id 2).toNat + 256 * ((State.idByte id 3).toNat + 256 * 0))) := rfl
  have hn : id.toUInt32.toNat < 2 ^ 32 := id.toUInt32.toNat_lt
  rw [hdigits, toNat_idByte id (by decide), toNat_idByte id (by decide),
    toNat_idByte id (by decide), toNat_idByte id (by decide)]
  omega

/-! ## The table of the client -/

theorem mem_modify {α : Type} {f : α → α} {xs : List α} {i : Nat} {x : α} (h : x ∈ xs.modify i f) :
    x ∈ xs ∨ ∃ y, xs[i]? = some y ∧ x = f y := by
  obtain ⟨j, hj⟩ := List.mem_iff_getElem?.mp h
  rw [List.getElem?_modify] at hj
  obtain ⟨y, hy, rfl⟩ := Option.map_eq_some_iff.mp hj
  split
  · rename_i hij
    exact .inr ⟨y, by rw [hij]; exact hy, rfl⟩
  · exact .inl (List.mem_of_getElem? hy)

/-- The channel that a subscribe message subscribes is named by one of its entries. -/
theorem subscribeTarget_some {cs : List Channel} {es : List Json} {i : Nat} {id : Int32}
    (h : subscribeTarget F cs es = some (i, id)) :
    ∃ e ∈ es, ∃ ch, cs[i]? = some ch ∧ subscription F e = some (id, ch.channelId) := by
  induction es with
  | nil => cases h
  | cons e es ih =>
    have skip : subscribeTarget F cs es = some (i, id) → ∃ e' ∈ e :: es, ∃ ch, cs[i]? = some ch ∧
        subscription F e' = some (id, ch.channelId) := by
      intro h
      obtain ⟨e', he', hrest⟩ := ih h
      exact ⟨e', List.mem_cons_of_mem _ he', hrest⟩
    unfold subscribeTarget at h
    split at h
    · exact skip h
    · rename_i id' c hsub
      split at h
      · rename_i i' hfind
        cases h
        obtain ⟨hlt, hc, -⟩ := List.findIdx?_eq_some_iff_getElem.mp hfind
        refine ⟨e, List.mem_cons_self, cs[i], List.getElem?_eq_getElem hlt, ?_⟩
        rw [hsub, eq_of_beq hc]
      · exact skip h

/-- A row after a message is an old row, a row with no subscription, or one that an entry of the
message asked for. -/
theorem mem_handleMessage {cs : List Channel} {j : Json} {row : Int32 × Int32}
    (h : row ∈ (handleMessage F cs j).map Channel.row) :
    row ∈ cs.map Channel.row ∨ row.2 = -1 ∨
      ∃ i, subscribeTarget F cs (entries "subscribe" "subscriptions" j) = some (i, row.2) ∧
        ∃ e ∈ entries "subscribe" "subscriptions" j, subscription F e = some (row.2, row.1) := by
  obtain ⟨ch, hch, rfl⟩ := List.mem_map.mp h
  unfold handleMessage at hch
  split at hch
  · rename_i i id htarget
    obtain hch | ⟨ch', hch', rfl⟩ := mem_modify hch
    · exact .inl (List.mem_map_of_mem hch)
    · obtain ⟨e, he, ch'', hi, hsub⟩ := subscribeTarget_some htarget
      cases hi.symm.trans hch'
      exact .inr (.inr ⟨i, htarget, e, he, hsub⟩)
  · split at hch
    · obtain hch | ⟨ch', -, rfl⟩ := mem_modify hch
      · exact .inl (List.mem_map_of_mem hch)
      · exact .inr (.inl rfl)
    · exact .inl (List.mem_map_of_mem hch)

theorem mem_cleared {cs : List Channel} {row : Int32 × Int32}
    (h : row ∈ (cs.map (Channel.setSubscription (-1))).map Channel.row) : row.2 = -1 := by
  obtain ⟨ch, hch, rfl⟩ := List.mem_map.mp h
  obtain ⟨ch', -, rfl⟩ := List.mem_map.mp hch
  rfl

/-- What holds as long as only the client subscribes. -/
structure Session (F : FloatLib) (s : State) : Prop where
  /-- The client asked for each subscription. -/
  own : ∀ row ∈ s.table, 0 ≤ row.2 → ∃ w, s.client = some w ∧ Asked F s.trace w row.1 row.2
  serving : ∀ k job, s.pc.job? = some (k, job) → ∃ row, s.table[k]? = some row ∧ 0 ≤ row.2
  /-- Each frame was asked for by its receiver before. -/
  frames : ∀ w c d old, .frame w c d :: old <:+ s.trace →
    ∃ id : Int32, headerId d = id.toUInt32.toNat ∧ Asked F old w c id

/-- A subscribe message that subscribes a channel comes from the client. -/
def OwnSubscribes (env : Env) (s : State) (l : Label) (_ : State) : Prop :=
  ∀ w d j i id, l = .callback w (.receive d) → parseMessage env.toFloatLib d = some (some j) →
    subscribeTarget env.toFloatLib s.registry.channels (entries "subscribe" "subscriptions" j) =
      some (i, id) → 0 ≤ id → s.client = some w

/-- After `foxdbg_protocol_connect` no channel is subscribed. -/
def ClearedByConnect (_ : State) (l : Label) (t : State) : Prop :=
  ∀ w, l = .callback w .established → ∀ ch ∈ t.registry.channels, ¬ ch.Subscribed

namespace Session

theorem init : Session F .init where
  own := by simp [State.table, State.init, Registry.init]
  serving := nofun
  frames := by simp [State.init]

/-- A step keeps what a socket asked for, unless it establishes the socket anew. -/
theorem asked_step {c id : Int32} (h : State.Outcome l (s.log (.event l)) t)
    (hl : l ≠ .callback w .established) (ha : Asked F s.trace w c id) : Asked F t.trace w c id := by
  obtain ⟨d, j, e, hmem, hrest⟩ := ha
  exact ⟨d, j, e, mem_since_step h hl hmem, hrest⟩

/-- `foxdbg_protocol_connect` leaves no subscription: the old client's are cleared, and without a
client there are none. -/
theorem established_rows (hn : s.client = none → ∀ row ∈ s.table, ¬ 0 ≤ row.2)
    (h : s.fire env (.callback w .established) = some t) : ∀ row ∈ t.table, ¬ 0 ≤ row.2 := by
  obtain ⟨-, -, rfl⟩ := State.fire_established.mp h
  obtain ⟨tx, obs, pc, he, -, -⟩ := State.established_eq env (s.openSocket w) w
  rw [he]
  intro row hrow
  replace hrow : row ∈ ((s.openSocket w).opened w).table := hrow
  unfold State.table at hrow
  rw [State.opened_channels] at hrow
  split at hrow
  · rw [mem_cleared hrow]; decide
  · rename_i hc
    exact hn (Option.not_isSome_iff_eq_none.mp hc) row hrow

theorem not_subscribed (hi : Session F s) (hc : s.client = none) :
    ∀ row ∈ s.table, ¬ 0 ≤ row.2 := by
  intro row hrow hpos
  obtain ⟨w, hw, -⟩ := hi.own row hrow hpos
  cases hc.symm.trans hw

/-- The client asked for the subscriptions after a step. -/
theorem own_step (hi : Session env.toFloatLib s) (hq : OwnSubscribes env s l t)
    (h : (s.log (.event l)).fire env l = some t) :
    ∀ row ∈ t.table, 0 ≤ row.2 →
      ∃ w, t.client = some w ∧ Asked env.toFloatLib t.trace w row.1 row.2 := by
  have hout := State.fire_outcome h
  -- an old row of an unchanged session
  have old : (∀ w, l ≠ .callback w .established) → t.client = s.client → ∀ row ∈ s.table,
      0 ≤ row.2 → ∃ w, t.client = some w ∧ Asked env.toFloatLib t.trace w row.1 row.2 := by
    intro hl hc row hrow hpos
    obtain ⟨w, hw, ha⟩ := hi.own row hrow hpos
    exact ⟨w, hc.trans hw, asked_step hout (hl w) ha⟩
  by_cases hl : ∃ w reason, l = .callback w reason
  · obtain ⟨w, reason, rfl⟩ := hl
    cases reason with
    | established =>
      intro row hrow hpos
      exact absurd hpos (established_rows (s := s.log _) hi.not_subscribed h row hrow)
    | receive d =>
      obtain ⟨-, -, ht⟩ := State.fire_receive.mp h
      obtain ⟨cs, pc, he, -, hcs⟩ :=
        State.received_eq env (s.log (.event (.callback w (.receive d)))) d
      rw [he] at ht
      have hc : t.client = s.client := by rw [← ht]; rfl
      obtain hcs | ⟨j, hj, hcs⟩ := hcs
      · have htable : t.table = s.table := by rw [← ht, hcs]; rfl
        rw [htable]
        exact old (by simp) hc
      · intro row hrow hpos
        have htable :
            row ∈ (handleMessage env.toFloatLib s.registry.channels j).map Channel.row := by
          rw [← ht, hcs] at hrow; exact hrow
        obtain hrow | hneg | ⟨i, htarget, e, hmem, hsub⟩ := mem_handleMessage htable
        · exact old (by simp) hc row hrow hpos
        · rw [hneg] at hpos
          exact absurd hpos (by decide)
        · refine ⟨w, hc.trans (hq w d j i row.2 rfl hj htarget hpos), d, j, e, ?_, hj, hmem, hsub⟩
          rw [← ht]
          exact List.mem_cons_self
    | closed =>
      obtain ⟨-, -, rfl⟩ := State.fire_closed.mp h
      intro row hrow hpos
      rw [mem_cleared hrow] at hpos
      exact absurd hpos (by decide)
    | serverWriteable =>
      obtain ⟨-, -, rfl⟩ := State.fire_serverWriteable.mp h
      exact old (by simp) rfl
  · have hl' : ∀ w reason, l ≠ .callback w reason := fun w reason e => hl ⟨w, reason, e⟩
    obtain ⟨new, hnew, hneg⟩ := hout.table hl'
    intro row hrow hpos
    rw [hnew] at hrow
    rcases List.mem_append.mp hrow with hrow | hrow
    · exact old (fun w => hl' w _) (hout.session hl').1 row hrow hpos
    · rw [hneg row hrow] at hpos
      exact absurd hpos (by decide)

/-- The channel in service after a step was subscribed when its iteration started. -/
theorem serving_step (hi : Session F s) (h : s.step env l = some t) :
    ∀ k job, t.pc.job? = some (k, job) → ∃ row, t.table[k]? = some row ∧ 0 ≤ row.2 := by
  have hout := State.fire_outcome (State.step_eq_some.mp h).2
  -- a channel that was in service before the step
  have old : ∀ k job, (∀ w reason, l ≠ .callback w reason) → s.pc.job? = some (k, job) →
      ∃ row, t.table[k]? = some row ∧ 0 ≤ row.2 := by
    intro k job hl hs
    obtain ⟨row, hrow, hpos⟩ := hi.serving k job hs
    exact ⟨row, hout.row hl hrow, hpos⟩
  intro k job hjob
  cases State.step_job h hjob with
  | kept hl hs => exact old k job (by rintro w r rfl; cases hl) hs
  | @started now ch hch hsub =>
    exact ⟨ch.row, hout.row (by simp) (State.table_of_channel hch), hsub⟩
  | informed hs => exact old k _ (by simp) hs

/-- The frames of a step, and the earlier ones, were asked for by their receivers. -/
theorem frames_step (hi : Session F s) (h : s.step env l = some t) :
    ∀ w c d old, .frame w c d :: old <:+ t.trace →
      ∃ id : Int32, headerId d = id.toUInt32.toNat ∧ Asked F old w c id := by
  intro w c d old hsuf
  obtain hold | ⟨nsec, k, job, ch, e, rfl, hjob, hch, hw, -, rfl, rfl, rfl⟩ :=
    State.step_frame h hsuf
  · exact hi.frames w c d old hold
  · obtain ⟨row, hrow, hpos⟩ := hi.serving k job hjob
    cases (State.table_of_channel hch).symm.trans hrow
    obtain ⟨v, hv, ha⟩ := hi.own _ (List.mem_of_getElem? hrow) hpos
    cases hw.symm.trans hv
    exact ⟨ch.subscriptionId, headerId_header .., ha.append [_] (by simp [Obs.establishes])⟩

/-- The step lemma of a session. -/
theorem step (hq : OwnSubscribes env s l t) (hi : Session env.toFloatLib s)
    (h : s.step env l = some t) : Session env.toFloatLib t :=
  ⟨own_step hi hq (State.step_eq_some.mp h).2, serving_step hi h, frames_step hi h⟩

theorem cleared (hi : Session F s) (h : s.step env l = some t) : ClearedByConnect s l t := by
  rintro w rfl ch hch hpos
  exact established_rows (s := s.log _) hi.not_subscribed (State.step_eq_some.mp h).2 ch.row
    (List.mem_map_of_mem hch) hpos

end Session

/-- Each frame of a trace was asked for by its receiver, under the id in its header. -/
def Delivered (F : FloatLib) (tr : List Obs) : Prop :=
  ∀ w c d old, .frame w c d :: old <:+ tr →
    ∃ id : Int32, headerId d = id.toUInt32.toNat ∧ Asked F old w c id

/-- **Delivery to the subscriber.** In a run in which only the client subscribes channels, each
frame goes to a socket that asked for it since its `established`, and no connection starts with a
subscription. -/
theorem frames_reach_subscriber {es : List Label}
    (hr : (sys env).Run (OwnSubscribes env) .init es s) :
    Delivered env.toFloatLib s.trace ∧ (sys env).Run ClearedByConnect .init es s :=
  ⟨(hr.inv (fun _ _ _ h hq hi => Session.step hq hi h) Session.init).frames,
    hr.strengthen (fun _ _ _ h hq hi => ⟨Session.step hq hi h, hi.cleared h⟩) Session.init⟩

/-- A run in which the client subscribes, and gets a frame. -/
def ownRun : List Label :=
  [.addChannel (ascii "a") (some .boolean) 10 .zeroed] ++ writeCall .data 0 [1] ++
    [.callback 1 .established, .callback 1 (.receive (subscribeText 5 0)),
      .callback 1 .serverWriteable] ++ iteration 1000 7

/-- A run in which socket 2 takes over, and socket 1 subscribes. -/
def stolenRun : List Label :=
  [.addChannel (ascii "a") (some .boolean) 10 .zeroed] ++ writeCall .data 0 [1] ++
    [.callback 1 .established, .callback 2 .established,
      .callback 1 (.receive (subscribeText 5 0)), .callback 2 .serverWriteable, .visit 1000,
      .readInfo, .encode 7]

/-- The socket of a received message. -/
def Obs.receives (w : Socket) : Obs → Bool
  | .event (.callback v (.receive _)) => v == w
  | _ => false

theorem not_asked (h : (since w tr).any (·.receives w) = false) (c id : Int32) :
    ¬ Asked F tr w c id := by
  rintro ⟨d, j, e, hmem, -⟩
  have := List.any_eq_false.mp h _ hmem
  simp [Obs.receives] at this

/-- The check of `frames_reach_subscriber`'s run: socket 1 is the client when it subscribes. -/
def fromClient (s : State) (l : Label) (_ : State) : Bool :=
  match l with
  | .callback w (.receive _) => s.client == some w
  | _ => true

theorem ownSubscribes_of_fromClient (s : State) (l : Label) (t : State)
    (h : fromClient s l t = true) : OwnSubscribes env s l t := by
  rintro w d j i id rfl - - -
  exact eq_of_beq h

theorem own_frame_delivered : ∃ s, s.trace.any (·.isFrame) = true ∧
    Delivered Env.standIn.toFloatLib s.trace ∧
    (sys .standIn).Run ClearedByConnect .init ownRun s := by
  obtain ⟨s, hr, hframe⟩ := Lts.exists_run (L := sys .standIn) (s := .init) ownRun
    (p := fun s => s.trace.any (·.isFrame)) ownSubscribes_of_fromClient (by decide +kernel)
  exact ⟨s, hframe, frames_reach_subscriber hr⟩

/-- The last frame of a trace went to a socket that received nothing since its `established`. -/
def stolen : List Obs → Bool
  | .frame w _ _ :: old => !(since w old).any (·.receives w)
  | _ => false

/-- The server takes a subscription from any socket: in `stolenRun`, socket 2 gets a frame on the
subscription of socket 1. -/
theorem stolen_frame : ∃ s, (sys .standIn).Reach .init stolenRun s ∧
    ¬ Delivered Env.standIn.toFloatLib s.trace := by
  obtain ⟨s, hr, hs⟩ := Lts.exists_reach (L := sys .standIn) (s := .init) stolenRun
    (p := fun s => stolen s.trace) (by decide +kernel)
  refine ⟨s, hr, fun h => ?_⟩
  unfold stolen at hs
  split at hs
  · rename_i w c d old htr
    obtain ⟨id, -, ha⟩ := h w c d old ⟨[], htr.symm⟩
    exact not_asked (by simpa using hs) c id ha
  · cases hs

/-! ## The end of a session -/

/-- The socket of the last `established`. -/
def latest : List Obs → Option Socket
  | [] => none
  | .event (.callback w .established) :: _ => some w
  | _ :: tr => latest tr

/-- The last established socket is the client, as long as it is open. -/
def LatestIsClient (s : State) : Prop :=
  ∀ w, latest s.trace = some w → w ∈ s.sockets → s.client = some w

/-- The session is right before and after the step, and the `closed` of an older socket leaves it
alone. -/
def KeepsSession (s : State) (l : Label) (t : State) : Prop :=
  LatestIsClient s ∧ LatestIsClient t ∧
    ∀ v w, l = .callback v .closed → latest s.trace = some w → w ∈ s.sockets → v ≠ w →
      t.client = s.client ∧ t.table = s.table

/-- A socket that closes while the last established one is open is that one. -/
def NotStale (s : State) (l : Label) (_ : State) : Prop :=
  ∀ v w, l = .callback v .closed → latest s.trace = some w → w ∈ s.sockets → v = w

theorem latest_cons {o : Obs} (h : ∀ w, o.establishes w = false) :
    latest (o :: tr) = latest tr := by
  cases o with
  | event l =>
    cases l with
    | callback w reason =>
      cases reason with
      | established => exact absurd (h w) (by simp [Obs.establishes])
      | _ => rfl
    | _ => rfl
  | _ => rfl

theorem latest_append (h : ∀ o ∈ obs, ∀ w, o.establishes w = false) :
    latest (obs ++ tr) = latest tr := by
  induction obs with
  | nil => rfl
  | cons o obs ih =>
    rw [List.cons_append, latest_cons (h o List.mem_cons_self)]
    exact ih fun o' ho' => h o' (List.mem_cons_of_mem _ ho')

/-- The last established socket after a step. -/
theorem latest_step (h : State.Outcome l (s.log (.event l)) t) :
    latest t.trace = latest (.event l :: s.trace) := by
  obtain ⟨obs, htr, hobs⟩ := h.trace
  rw [htr]
  exact latest_append fun o ho _ => (hobs o ho).establishes_eq

/-- The client and the open sockets after a callback. -/
def sessionAfter (s : State) (w : Socket) : Reason → Option Socket × List Socket
  | .established => (some w, w :: s.sockets)
  | .closed => (none, s.sockets.filter (· ≠ w))
  | _ => (s.client, s.sockets)

theorem callback_session {reason : Reason} (h : s.fire env (.callback w reason) = some t) :
    (t.client, t.sockets) = sessionAfter s w reason := by
  cases reason with
  | established =>
    obtain ⟨-, -, rfl⟩ := State.fire_established.mp h
    obtain ⟨tx, obs, pc, he, -, -⟩ := State.established_eq env (s.openSocket w) w
    simp only [he, sessionAfter, State.opened_client, State.opened_sockets,
      State.openSocket_sockets]
  | receive d =>
    obtain ⟨-, -, rfl⟩ := State.fire_receive.mp h
    obtain ⟨cs, pc, he, -, -⟩ := State.received_eq env s d
    simp only [he, sessionAfter, State.setChannels]
  | closed =>
    obtain ⟨-, -, rfl⟩ := State.fire_closed.mp h
    rfl
  | serverWriteable =>
    obtain ⟨-, -, rfl⟩ := State.fire_serverWriteable.mp h
    rfl

theorem LatestIsClient.init : LatestIsClient .init := nofun

theorem LatestIsClient.step (hq : NotStale s l t) (hi : LatestIsClient s)
    (h : s.step env l = some t) : LatestIsClient t := by
  have hf := (State.step_eq_some.mp h).2
  have hout := State.fire_outcome hf
  intro w hw hopen
  rw [latest_step hout] at hw
  have same : latest s.trace = some w → t.client = s.client → t.sockets = s.sockets →
      t.client = some w := by
    intro hw hc hs
    rw [hc]
    exact hi w hw (by rw [← hs]; exact hopen)
  by_cases hl : ∃ v reason, l = .callback v reason
  · obtain ⟨v, reason, rfl⟩ := hl
    have hcs := callback_session hf
    cases reason with
    | established =>
      cases hw
      exact (Prod.mk.inj hcs).1
    | closed =>
      obtain ⟨-, hsockets⟩ := Prod.mk.inj hcs
      rw [hsockets, List.mem_filter] at hopen
      have hne : w ≠ v := by simpa using hopen.2
      exact absurd (hq v w rfl hw hopen.1).symm hne
    | receive d => exact same hw (Prod.mk.inj hcs).1 (Prod.mk.inj hcs).2
    | serverWriteable => exact same hw (Prod.mk.inj hcs).1 (Prod.mk.inj hcs).2
  · have hl' : ∀ v reason, l ≠ .callback v reason := fun v reason e => hl ⟨v, reason, e⟩
    obtain ⟨hc, hs⟩ := hout.session hl'
    refine same ?_ hc hs
    rw [← hw, latest_cons]
    intro v
    cases l with
    | callback v reason => exact absurd rfl (hl' v reason)
    | _ => rfl

/-- A step that does not close an older socket keeps the session. -/
theorem keepsSession_of_notStale (hq : NotStale s l t) (hi : LatestIsClient s)
    (h : s.step env l = some t) : KeepsSession s l t :=
  ⟨hi, hi.step hq h, fun v w hl hw hopen hne => absurd (hq v w hl hw hopen) hne⟩

/-- The `closed` of an older socket ends the session. -/
theorem notStale_of_keepsSession (hk : KeepsSession s l t) (h : s.step env l = some t) :
    NotStale s l t := by
  rintro v w rfl hw hopen
  by_contra hne
  have hclient : t.client = none := (Prod.mk.inj (callback_session (State.step_eq_some.mp h).2)).1
  have hkept : t.client = s.client := (hk.2.2 v w rfl hw hopen hne).1
  rw [hclient, hk.1 w hw hopen] at hkept
  cases hkept

/-- **A stale close.** A run keeps the session in every step exactly if no socket closes in it while
a later one is open. -/
theorem session_kept_iff (env : Env) (es : List Label) (s : State) :
    (sys env).Run KeepsSession .init es s ↔ (sys env).Run NotStale .init es s := by
  constructor
  · intro h
    exact h.strengthen (I := fun _ => True)
      (fun _ _ _ hs hk _ => ⟨trivial, notStale_of_keepsSession hk hs⟩) trivial
  · intro h
    exact h.strengthen (I := LatestIsClient)
      (fun _ _ _ hs hq hi => ⟨hi.step hq hs, keepsSession_of_notStale hq hi hs⟩) .init

/-- A second socket connects before the first one closes. -/
def staleRun : List Label :=
  [.callback 1 .established, .callback 2 .established, .callback 1 .closed]

/-- The late `closed` of socket 1 ends the session of socket 2. -/
theorem stale_close : ∃ s, (sys .standIn).Reach .init staleRun s ∧ ¬ LatestIsClient s := by
  obtain ⟨s, hr, hs⟩ := Lts.exists_reach (L := sys .standIn) (s := .init) staleRun
    (p := fun s => latest s.trace == some 2 && s.sockets.contains 2 && s.client == none)
    (by decide +kernel)
  simp only [Bool.and_eq_true, beq_iff_eq, List.contains_iff_mem] at hs
  obtain ⟨⟨hlatest, hopen⟩, hclient⟩ := hs
  refine ⟨s, hr, fun h => ?_⟩
  cases hclient.symm.trans (h 2 hlatest hopen)

end Foxdbg
