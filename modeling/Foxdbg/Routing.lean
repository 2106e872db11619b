import Foxdbg.Session

/-!
# Routing by subscription ids

The ids of a subscribe message come from the client, and the server stores them as they are.

* `UniqueIds`: no two channels hold the same id. It holds in a run in which no message takes an id
  that another channel holds; then a header names one channel, and one unsubscribe ends an id.
* An id is a JSON integer that `get<int>` narrows to 32 bits. `Emits` and `handleMessage` keep its
  value exactly if the narrowing does: a subscription id below 2^31, and a channel id that does not
  become another one (`ids_keep_value_iff`).
-/

namespace Foxdbg

open Json

variable {env : Env} {F : FloatLib} {s t : State} {l : Label} {w : Socket} {d : Bytes}
  {cs : List Channel} {j : Json}

/-! ## One id, one channel -/

/-- No two rows of a table hold the same subscription id. -/
def UniqueIds (table : List (Int32 × Int32)) : Prop :=
  ∀ (i k : Nat) (row row' : Int32 × Int32), table[i]? = some row → table[k]? = some row' →
    0 ≤ row.2 → row.2 = row'.2 → i = k

/-- A subscribe message takes an id that no other channel holds. -/
def TakesFreeIds (env : Env) (s : State) (l : Label) (_ : State) : Prop :=
  ∀ w d j i id k ch, l = .callback w (.receive d) →
    parseMessage env.toFloatLib d = some (some j) →
    subscribeTarget env.toFloatLib s.registry.channels (entries "subscribe" "subscriptions" j) =
      some (i, id) → 0 ≤ id → s.registry.channels[k]? = some ch → ch.subscriptionId = id → k = i

namespace UniqueIds

/-- New rows have no subscription. -/
theorem append {table new : List (Int32 × Int32)} (h : UniqueIds table)
    (hnew : ∀ row ∈ new, row.2 = -1) : UniqueIds (table ++ new) := by
  have old : ∀ {i : Nat} {row : Int32 × Int32}, (table ++ new)[i]? = some row → 0 ≤ row.2 →
      table[i]? = some row := by
    intro i row hrow hpos
    rw [List.getElem?_append] at hrow
    split at hrow
    · exact hrow
    · rw [hnew row (List.mem_of_getElem? hrow)] at hpos
      exact absurd hpos (by decide)
  intro i k row row' hi hk hpos he
  exact h i k row row' (old hi hpos) (old hk (he ▸ hpos)) hpos he

theorem of_cleared {table : List (Int32 × Int32)} (h : ∀ row ∈ table, row.2 = -1) :
    UniqueIds table := by
  intro i k row row' hi _ hpos
  rw [h row (List.mem_of_getElem? hi)] at hpos
  exact absurd hpos (by decide)

/-- The row of a subscribed channel takes an id that no other row holds. -/
theorem subscribe {i : Nat} {id : Int32} (h : UniqueIds (cs.map Channel.row))
    (hfree : 0 ≤ id → ∀ k ch, cs[k]? = some ch → ch.subscriptionId = id → k = i) :
    UniqueIds ((cs.modify i (Channel.setSubscription id)).map Channel.row) := by
  -- a row after the message is the channel's new row, or the old row of another channel
  have rows : ∀ {k : Nat} {row : Int32 × Int32},
      ((cs.modify i (Channel.setSubscription id)).map Channel.row)[k]? = some row →
      (k = i ∧ row.2 = id) ∨ (k ≠ i ∧ ∃ ch, cs[k]? = some ch ∧ row = ch.row) := by
    intro k row hrow
    rw [List.getElem?_map, List.getElem?_modify] at hrow
    obtain ⟨ch', hch', rfl⟩ := Option.map_eq_some_iff.mp hrow
    obtain ⟨ch, hch, rfl⟩ := Option.map_eq_some_iff.mp hch'
    by_cases hk : i = k
    · exact .inl ⟨hk.symm, by simp [hk, Channel.row, Channel.setSubscription]⟩
    · exact .inr ⟨Ne.symm hk, ch, hch, by simp [hk]⟩
  intro a b row row' ha hb hpos he
  rcases rows ha with ⟨rfl, hrow⟩ | ⟨hane, ch, hch, rfl⟩ <;>
    rcases rows hb with ⟨rfl, hrow'⟩ | ⟨hbne, ch', hch', rfl⟩
  · rfl
  · rw [hrow] at hpos he
    exact (hfree hpos b ch' hch' he.symm).symm
  · rw [hrow'] at he
    exact hfree (he ▸ hpos) a ch hch he
  · refine h a b ch.row ch'.row ?_ ?_ hpos he <;> rw [List.getElem?_map]
    · rw [hch]; rfl
    · rw [hch']; rfl

/-- A message whose subscription takes a free id. -/
theorem handleMessage (h : UniqueIds (cs.map Channel.row))
    (hfree : ∀ i id, subscribeTarget F cs (entries "subscribe" "subscriptions" j) = some (i, id) →
      0 ≤ id → ∀ k ch, cs[k]? = some ch → ch.subscriptionId = id → k = i) :
    UniqueIds ((Foxdbg.handleMessage F cs j).map Channel.row) := by
  unfold Foxdbg.handleMessage
  split
  · rename_i i id htarget
    exact h.subscribe (hfree i id htarget)
  · split
    · exact h.subscribe fun hneg => absurd hneg (by decide)
    · exact h

theorem init : UniqueIds State.init.table := by
  simp [UniqueIds, State.table, State.init, Registry.init]

theorem step (hq : TakesFreeIds env s l t) (hi : UniqueIds s.table) (h : s.step env l = some t) :
    UniqueIds t.table := by
  have hf := (State.step_eq_some.mp h).2
  by_cases hl : ∃ w reason, l = .callback w reason
  · obtain ⟨w, reason, rfl⟩ := hl
    cases reason with
    | established =>
      obtain ⟨-, -, rfl⟩ := State.fire_established.mp hf
      obtain ⟨tx, obs, pc, he, -⟩ := State.established_eq env
        ((s.log (.event (.callback w .established))).openSocket w) w
      rw [he]
      show UniqueIds ((State.opened _ w).registry.channels.map Channel.row)
      rw [State.opened_channels]
      split
      · exact of_cleared fun row => mem_cleared
      · exact hi
    | receive d =>
      obtain ⟨-, -, rfl⟩ := State.fire_receive.mp hf
      obtain ⟨cs, pc, he, -, hcs⟩ := State.received_eq env
        (s.log (.event (.callback w (.receive d)))) d
      rw [he]
      obtain rfl | ⟨j, hj, rfl⟩ := hcs
      · exact hi
      · exact UniqueIds.handleMessage hi fun i id htarget hpos k ch hch heq =>
          hq w d j i id k ch rfl hj htarget hpos hch heq
    | closed =>
      obtain ⟨-, -, rfl⟩ := State.fire_closed.mp hf
      exact of_cleared fun row => mem_cleared
    | serverWriteable =>
      obtain ⟨-, -, rfl⟩ := State.fire_serverWriteable.mp hf
      exact hi
  · obtain ⟨new, hnew, hneg⟩ := (State.fire_outcome hf).table fun w reason e => hl ⟨w, reason, e⟩
    rw [hnew]
    exact hi.append hneg

end UniqueIds

theorem received_message (hj : parseMessage env.toFloatLib d = some (some j)) :
    State.settle (s.receive env d) =
      s.setChannels (handleMessage env.toFloatLib s.registry.channels j) := by
  unfold State.receive
  rw [hj]
  rfl

/-- A message has one `op`. -/
theorem entries_of_other_op {op op' : String} (key' : String) (hop : ascii op ≠ ascii op')
    (h : (j.find? "op").any (·.isLit op) = true) : entries op' key' j = [] := by
  obtain ⟨x, hx, hlit⟩ := (Option.any_eq_true _ _).mp h
  have hne : x.isLit op' = false := by
    cases x with
    | str t =>
      rw [eq_of_beq hlit]
      exact beq_false_of_ne hop
    | _ => rfl
  unfold entries
  rw [hx, Option.any_some, hne, Bool.and_false]
  rfl

theorem entries_eq_nil (op : String) {op' key key' : String} (hop : ascii op ≠ ascii op')
    (h : entries op key j ≠ []) : entries op' key' j = [] := by
  unfold entries at h
  split at h
  · rename_i hc
    exact entries_of_other_op key' hop (Bool.and_eq_true_iff.mp hc).2
  · exact absurd rfl h

/-- The one id of an unsubscribe message is held by no channel after it. -/
theorem unsubscribe_ends {e : Json} {id : Int32} (h : UniqueIds (cs.map Channel.row))
    (he : entries "unsubscribe" "subscriptionIds" j = [e]) (hid : e.getInt? F = some id)
    (hpos : 0 ≤ id) : ∀ ch ∈ handleMessage F cs j, ch.subscriptionId ≠ id := by
  have hsub : entries "subscribe" "subscriptions" j = [] :=
    entries_eq_nil "unsubscribe" (by decide) (by rw [he]; nofun)
  intro ch hch heq
  simp only [handleMessage, hsub, subscribeTarget, he, unsubscribeTarget, hid] at hch
  cases hfind : cs.findIdx? fun ch => ch.subscriptionId == id with
  | none =>
    simp only [hfind] at hch
    exact absurd (beq_iff_eq.mpr heq) (by simpa using List.findIdx?_eq_none_iff.mp hfind ch hch)
  | some i =>
    simp only [hfind] at hch
    obtain ⟨hlt, hi, -⟩ := List.findIdx?_eq_some_iff_getElem.mp hfind
    obtain ⟨k, hk⟩ := List.mem_iff_getElem?.mp hch
    rw [List.getElem?_modify] at hk
    obtain ⟨ch', hch', rfl⟩ := Option.map_eq_some_iff.mp hk
    by_cases hik : i = k
    · simp only [hik, if_true, Channel.setSubscription] at heq
      rw [← heq] at hpos
      exact absurd hpos (by decide)
    · simp only [hik, if_false] at heq
      refine hik (h i k cs[i].row ch'.row ?_ ?_ ?_ ?_)
      · rw [List.getElem?_map, List.getElem?_eq_getElem hlt]; rfl
      · rw [List.getElem?_map, hch']; rfl
      · rw [Channel.row, eq_of_beq hi]; exact hpos
      · rw [Channel.row, eq_of_beq hi]; exact heq.symm

/-- **Routing.** In a run whose messages take free ids, no two channels hold the same id: a header
with the id of a subscribed channel names it, and an unsubscribe message with an id ends it. -/
theorem ids_route_uniquely {es : List Label}
    (hr : (sys env).Run (TakesFreeIds env) .init es s) :
    UniqueIds s.table ∧
    (∀ (i k : Nat) (ch ch' : Channel) (nsec nsec' : UInt64) (body body' : Bytes),
      s.registry.channels[i]? = some ch → s.registry.channels[k]? = some ch' → ch.Subscribed →
      headerId (State.header ch.subscriptionId nsec ++ body) =
        headerId (State.header ch'.subscriptionId nsec' ++ body') → i = k) ∧
    ∀ j e id, entries "unsubscribe" "subscriptionIds" j = [e] →
      e.getInt? env.toFloatLib = some id → 0 ≤ id →
      ∀ ch ∈ handleMessage env.toFloatLib s.registry.channels j, ch.subscriptionId ≠ id := by
  have hi := hr.inv (I := fun s => UniqueIds s.table) (fun _ _ _ h hq hi => hi.step hq h) .init
  refine ⟨hi, ?_, fun j e id he hid hpos => unsubscribe_ends hi he hid hpos⟩
  intro i k ch ch' nsec nsec' body body' hch hch' hsub hheader
  rw [headerId_header, headerId_header, UInt32.toNat_inj] at hheader
  refine hi i k ch.row ch'.row (State.table_of_channel hch) (State.table_of_channel hch') hsub ?_
  rw [← Int32.toInt32_toUInt32 ch.row.2, ← Int32.toInt32_toUInt32 ch'.row.2]
  exact congrArg UInt32.toInt32 hheader

/-- A client subscribes two channels, with an id for each. -/
def twoIdsRun : List Label :=
  [.addChannel (ascii "a") (some .boolean) 10 .zeroed,
    .addChannel (ascii "b") (some .boolean) 10 .zeroed, .callback 1 .established,
    .callback 1 (.receive (subscribeText 5 0)), .callback 1 (.receive (subscribeText 6 1))]

/-- A client subscribes two channels with one id. -/
def oneIdRun : List Label :=
  [.addChannel (ascii "a") (some .boolean) 10 .zeroed,
    .addChannel (ascii "b") (some .boolean) 10 .zeroed, .callback 1 .established,
    .callback 1 (.receive (subscribeText 5 0)), .callback 1 (.receive (subscribeText 5 1))]

/-- No channel holds the id of a subscribe message. -/
def takesNewIds (env : Env) (s : State) (l : Label) (_ : State) : Bool :=
  match l with
  | .callback _ (.receive d) =>
    ((parseMessage env.toFloatLib d).join.bind fun j =>
      subscribeTarget env.toFloatLib s.registry.channels
        (entries "subscribe" "subscriptions" j)).all fun (_, id) =>
          s.registry.channels.all (·.subscriptionId != id)
  | _ => true

theorem takesFreeIds_of_takesNewIds (s : State) (l : Label) (t : State)
    (h : takesNewIds env s l t = true) : TakesFreeIds env s l t := by
  rintro w d j i id k ch rfl hj htarget - hch heq
  simp only [takesNewIds, hj, Option.join_some, Option.bind_some, htarget, Option.all_some,
    List.all_eq_true, bne_iff_ne] at h
  exact absurd heq (h ch (List.mem_of_getElem? hch))

theorem two_ids_unique : ∃ s : State, s.table = [(0, 5), (1, 6)] ∧ UniqueIds s.table := by
  obtain ⟨s, hr, h⟩ := Lts.exists_run (L := sys .standIn) (s := .init) twoIdsRun
    (q := takesNewIds .standIn) (p := fun s => s.table == [(0, 5), (1, 6)])
    takesFreeIds_of_takesNewIds (by decide +kernel)
  exact ⟨s, eq_of_beq h, (ids_route_uniquely hr).1⟩

/-- The server does not compare the ids of its channels: two of them get the id 5. -/
theorem one_id_twice : ∃ s : State, (sys .standIn).Reach .init oneIdRun s ∧
    ¬ UniqueIds s.table := by
  obtain ⟨s, hr, h⟩ := Lts.exists_reach (L := sys .standIn) (s := .init) oneIdRun
    (p := fun s => s.table == [(0, 5), (1, 5)]) (by decide +kernel)
  refine ⟨s, hr, fun hunique => ?_⟩
  rw [eq_of_beq h] at hunique
  exact absurd (hunique 0 1 (0, 5) (1, 5) rfl rfl (by decide) rfl) (by decide)

/-! ## The value of an id -/

/-- A subscribe message with one entry, whose ids are these integers. -/
def SubscribeMessage (F : FloatLib) (d : Bytes) (id channelId : Int) : Prop :=
  ∃ j e, parseMessage F d = some (some j) ∧ entries "subscribe" "subscriptions" j = [e] ∧
    e.at? "id" = some (.int id) ∧ e.at? "channelId" = some (.int channelId)

/-- The narrowed ids of a subscribe message are what the server works with. -/
theorem received_subscribe {id channelId : Int}
    (h : SubscribeMessage env.toFloatLib d id channelId) :
    State.settle (s.receive env d) = s.setChannels
      (match s.registry.findData (Int32.ofInt channelId) with
      | some i => s.registry.channels.modify i (Channel.setSubscription (Int32.ofInt id))
      | none => s.registry.channels) := by
  obtain ⟨j, e, hj, hentries, hid, hchannel⟩ := h
  have hunsub : entries "unsubscribe" "subscriptionIds" j = [] :=
    entries_eq_nil "subscribe" (by decide) (by rw [hentries]; nofun)
  have hsub : subscription env.toFloatLib e = some (Int32.ofInt id, Int32.ofInt channelId) := by
    simp only [subscription, hid, hchannel, getInt?, Option.bind_eq_bind, Option.bind_some]
    rfl
  rw [received_message hj]
  simp only [handleMessage, hentries, hunsub, subscribeTarget, hsub, unsubscribeTarget,
    Registry.findData]
  cases s.registry.channels.findIdx? fun ch => ch.channelId == Int32.ofInt channelId <;> rfl

/-- A message leaves the table alone exactly if its channel id, narrowed, names no channel, or names
one that has the narrowed id already. -/
theorem table_kept_iff {id channelId : Int} (h : SubscribeMessage env.toFloatLib d id channelId) :
    (State.settle (s.receive env d)).table = s.table ↔
      ∀ i ch, s.registry.findData (Int32.ofInt channelId) = some i →
        s.registry.channels[i]? = some ch → ch.subscriptionId = Int32.ofInt id := by
  rw [received_subscribe h]
  cases hfind : s.registry.findData (Int32.ofInt channelId) with
  | none => exact ⟨nofun, fun _ => rfl⟩
  | some i =>
    show (s.registry.channels.modify i _).map Channel.row = s.registry.channels.map Channel.row ↔ _
    constructor
    · rintro htable _ ch ⟨⟩ hch
      have hi := congrArg (·[i]?) htable
      simp only [List.getElem?_map, List.getElem?_modify_eq, hch] at hi
      exact (congrArg Prod.snd (Option.some.inj hi)).symm
    · intro hsame
      refine List.ext_getElem? fun k => ?_
      rw [List.getElem?_map, List.getElem?_map, List.getElem?_modify]
      cases hch : s.registry.channels[k]? with
      | none => rfl
      | some ch =>
        by_cases hk : i = k
        · simp [hk, Channel.row, Channel.setSubscription, hsame i ch rfl (hk ▸ hch)]
        · simp [hk]

/-- A step that starts and ends no session and receives no message. -/
def SameSession (_ : State) (l : Label) (_ : State) : Prop :=
  ∀ w reason, l = .callback w reason → reason = .serverWriteable

/-- The iteration of a pass for the channel at a place: the steps of the server thread, with steps
of the application between them. -/
structure Iteration (env : Env) (k : Nat) (now nsec : UInt64) (s s₁ s₂ s₃ s₄ s₅ t : State) :
    Prop where
  before : ∃ es, (sys env).Run SameSession s es s₁
  place : s₁.pc = .visit k
  visit : s₁.step env (.visit now) = some s₂
  between₁ : ∃ es, (sys env).Run AppStep s₂ es s₃
  readInfo : s₃.step env .readInfo = some s₄
  between₂ : ∃ es, (sys env).Run AppStep s₄ es s₅
  encode : s₅.step env (.encode nsec) = some t

/-- The channel at a place is due and has sendable data, and there is a client to send it to: the
sender gets past each test of its sizes, the info of an image too, and its body fits. -/
structure Sendable (env : Env) (k : Nat) (now : UInt64) (s₁ s₃ s₅ : State) : Prop where
  client : s₅.client.isSome
  due : ∀ ch, s₁.registry.channels[k]? = some ch → State.isDue ch now = true
  data : ∀ ch, s₁.registry.channels[k]? = some ch →
    (senderOf ch.channelType).admits ch.dataBuffer.frontBufferSize = true
  info : ∀ ch, s₃.registry.channels[k]? = some ch → ch.channelType = .image →
    ∃ info, ch.infoBuffer = some info ∧ info.frontBufferSize ≤ sizeofInfoDataBuffer
  body : ∀ ch due job, s₅.registry.channels[k]? = some ch → s₅.pc = .encode k due (some job) →
    ∃ e, (senderOf ch.channelType).body env ch.topicName (s₅.source ch job) = some (some e) ∧
      (senderOf ch.channelType).fits e.body.length = true ∧
      e.body.length + 13 + lwsPre ≤ sizeofTxBuffer

/-- The `encode` step hands a frame of the channel to `lws_write` whose header has the id. -/
def Emits (s t : State) (nsec : UInt64) (channelId : Int32) (id : Int) : Prop :=
  ∃ w d, t.trace = .frame w channelId d :: .event (.encode nsec) :: s.trace ∧ headerId d = id

theorem row_step {k : Nat} {row : Int32 × Int32} (hq : SameSession s l t)
    (h : s.step env l = some t) (hrow : s.table[k]? = some row) : t.table[k]? = some row := by
  have hf := (State.step_eq_some.mp h).2
  by_cases hl : ∃ w reason, l = .callback w reason
  · obtain ⟨w, reason, rfl⟩ := hl
    obtain rfl := hq w reason rfl
    obtain ⟨-, -, rfl⟩ := State.fire_serverWriteable.mp hf
    exact hrow
  · exact (State.fire_outcome hf).row (fun w reason e => hl ⟨w, reason, e⟩) hrow

/-- A row stays in its place as long as the session does. -/
theorem row_run {k : Nat} {row : Int32 × Int32} {es : List Label}
    (hr : (sys env).Run SameSession s es t) (hrow : s.table[k]? = some row) :
    t.table[k]? = some row :=
  hr.inv (I := fun s => s.table[k]? = some row) (fun _ _ _ h hq hi => row_step hq h hi) hrow

theorem sameSession_of_ne (h : ∀ w reason, l ≠ .callback w reason) : SameSession s l t :=
  fun w reason e => absurd e (h w reason)

theorem sameSession_of_app (h : AppStep s l t) : SameSession s l t := by
  rintro w reason rfl
  cases h

/-- The application does not move the server thread. -/
theorem pc_run {es : List Label} (hr : (sys env).Run AppStep s es t) (hlive : t.pc ≠ .crashed) :
    t.pc = s.pc :=
  (app_run hr).1.resolve_right hlive

/-- The rows along an iteration. -/
theorem Iteration.rows {k : Nat} {now nsec : UInt64} {s s₁ s₂ s₃ s₄ s₅ t : State}
    {row : Int32 × Int32} (h : Iteration env k now nsec s s₁ s₂ s₃ s₄ s₅ t)
    (hrow : s.table[k]? = some row) :
    s₁.table[k]? = some row ∧ s₃.table[k]? = some row ∧ s₅.table[k]? = some row := by
  obtain ⟨es, hbefore⟩ := h.before
  obtain ⟨fs, hbetween₁⟩ := h.between₁
  obtain ⟨gs, hbetween₂⟩ := h.between₂
  have h₁ := row_run hbefore hrow
  have h₂ := row_step (sameSession_of_ne (by simp)) h.visit h₁
  have h₃ := row_run (hbetween₁.mono fun _ _ _ => sameSession_of_app) h₂
  have h₄ := row_step (sameSession_of_ne (by simp)) h.readInfo h₃
  exact ⟨h₁, h₃, row_run (hbetween₂.mono fun _ _ _ => sameSession_of_app) h₄⟩

/-- The channel of a row. -/
theorem channel_of_row {k : Nat} {row : Int32 × Int32} (h : s.table[k]? = some row) :
    ∃ ch, s.registry.channels[k]? = some ch ∧ ch.row = row := by
  rw [State.table, List.getElem?_map] at h
  exact Option.map_eq_some_iff.mp h

section Served

variable {k : Nat} {now nsec : UInt64} {s₁ s₂ s₃ s₄ s₅ : State} {row : Int32 × Int32}

namespace Iteration

theorem visited (h : Iteration env k now nsec s s₁ s₂ s₃ s₄ s₅ t) :
    (s₁.log (.event (.visit now))).visit k now = s₂ := by
  obtain ⟨k', hpc, hv⟩ := State.fire_visit.mp (State.step_eq_some.mp h.visit).2
  cases h.place.symm.trans hpc
  exact hv

theorem pc_between₁ (h : Iteration env k now nsec s s₁ s₂ s₃ s₄ s₅ t) : s₃.pc = s₂.pc :=
  h.between₁.elim fun _ hr => pc_run hr (State.step_eq_some.mp h.readInfo).1

theorem pc_between₂ (h : Iteration env k now nsec s s₁ s₂ s₃ s₄ s₅ t) : s₅.pc = s₄.pc :=
  h.between₂.elim fun _ hr => pc_run hr (State.step_eq_some.mp h.encode).1

/-- Without a subscription the iteration has nothing to encode. -/
theorem idle_of_unsubscribed (h : Iteration env k now nsec s s₁ s₂ s₃ s₄ s₅ t)
    (hrow : s.table[k]? = some row) (hneg : ¬ 0 ≤ row.2) :
    ∃ due, s₅.pc = .encode k due none := by
  obtain ⟨ch, hch, rfl⟩ := channel_of_row (h.rows hrow).1
  have hpc₃ : s₃.pc = .readInfo k (State.isDue ch now) none := by
    rw [h.pc_between₁, ← h.visited,
      State.visit_unsubscribed (s := s₁.log (.event (.visit now))) hch hneg]
  refine ⟨State.isDue ch now, h.pc_between₂.trans ?_⟩
  rcases State.fire_readInfo.mp (State.step_eq_some.mp h.readInfo).2 with
    ⟨k', due, hpc, rfl⟩ | ⟨k', due, job, hpc, -⟩
  · cases hpc₃.symm.trans hpc
    rfl
  · cases hpc₃.symm.trans hpc

/-- With a subscription, a sendable channel has a job to encode. -/
theorem job_of_subscribed (h : Iteration env k now nsec s s₁ s₂ s₃ s₄ s₅ t)
    (hsend : Sendable env k now s₁ s₃ s₅) (hrow : s.table[k]? = some row) (hpos : 0 ≤ row.2) :
    ∃ due job, s₅.pc = .encode k due (some job) := by
  obtain ⟨ch, hch, rfl⟩ := channel_of_row (h.rows hrow).1
  obtain ⟨ch₃, hch₃, -⟩ := channel_of_row (h.rows hrow).2.1
  obtain ⟨job, hjob⟩ := State.visit_served (s := s₁.log (.event (.visit now))) hch hpos
    (hsend.due ch hch) (hsend.data ch hch)
  have hpc₃ : s₃.pc = .readInfo k true (some job) := by
    rw [h.pc_between₁, ← h.visited]
    exact hjob
  rcases State.fire_readInfo.mp (State.step_eq_some.mp h.readInfo).2 with
    ⟨k', due, hpc, -⟩ | ⟨k', due, job', hpc, hv⟩
  · cases hpc₃.symm.trans hpc
  · cases hpc₃.symm.trans hpc
    obtain ⟨job'', hjob''⟩ : ∃ job'', ((s₃.log (.event .readInfo)).readInfo k true job).pc =
        .encode k true (some job'') := State.readInfo_served hch₃ (hsend.info ch₃ hch₃)
    exact ⟨true, job'', by rw [h.pc_between₂, ← hv]; exact hjob''⟩

/-- An iteration emits the subscription id of its row, if it is one. -/
theorem emits_iff (h : Iteration env k now nsec s s₁ s₂ s₃ s₄ s₅ t)
    (hsend : Sendable env k now s₁ s₃ s₅) (hrow : s.table[k]? = some row) (id : Int) :
    Emits s₅ t nsec row.1 id ↔ 0 ≤ row.2 ∧ (row.2.toUInt32.toNat : Int) = id := by
  have hencode := State.fire_encode.mp (State.step_eq_some.mp h.encode).2
  by_cases hpos : 0 ≤ row.2
  · obtain ⟨due, job, hpc⟩ := h.job_of_subscribed hsend hrow hpos
    obtain ⟨ch, hch, rfl⟩ := channel_of_row (h.rows hrow).2.2
    obtain ⟨e, hbody, hfits, hsize⟩ := hsend.body ch due job hch hpc
    obtain ⟨w, hw⟩ := Option.isSome_iff_exists.mp hsend.client
    have htrace : t.trace = .frame w ch.channelId
        (State.header ch.subscriptionId nsec ++ e.body) :: .event (.encode nsec) :: s₅.trace := by
      rw [State.trace_of_encode h.encode hpc hch hbody, State.frames_of_fits hw hfits hsize]
      rfl
    constructor
    · rintro ⟨w', d, htrace', hid⟩
      cases htrace.symm.trans htrace'
      rw [headerId_header] at hid
      exact ⟨hpos, hid⟩
    · rintro ⟨-, hid⟩
      exact ⟨w, _, htrace, by rw [headerId_header]; exact hid⟩
  · obtain ⟨due, hpc⟩ := h.idle_of_unsubscribed hrow hpos
    constructor
    · rintro ⟨w, d, htrace, -⟩
      rcases hencode with ⟨k', due', hpc', rfl⟩ | ⟨k', due', job, hpc', -⟩
      · have hlen := congrArg List.length htrace
        simp only [State.log, List.length_cons] at hlen
        omega
      · cases hpc.symm.trans hpc'
    · exact fun h => absurd h.1 hpos

end Iteration

end Served

/-- An id of 32 bits stays a subscription exactly below 2^31. -/
theorem narrow_iff {id : Int} (h₀ : 0 ≤ id) (h₁ : id < 2 ^ 32) :
    (0 ≤ Int32.ofInt id ∧ ((Int32.ofInt id).toUInt32.toNat : Int) = id) ↔ id < 2 ^ 31 := by
  have hbits := toInt_eq (Int32.ofInt id)
  have hlt : (Int32.ofInt id).toUInt32.toNat < 2 ^ 32 := UInt32.toNat_lt _
  have hzero : (0 : Int32).toInt = 0 := rfl
  rw [Int32.le_iff_toInt_le, hzero]
  rw [Int32.toInt_ofInt] at hbits ⊢
  simp only [Int32.size, Int.bmod] at hbits ⊢
  split at hbits <;> split at hbits <;> omega

/-- **The value of an id.** For a subscribe message with one entry:
(a) if its channel id is registered and its subscription id has 32 bits, the channel's next
iteration with sendable data emits the subscription id exactly if it is below 2^31;
(b) if its channel id is not registered, the table stays as it is exactly if the narrowed channel id
is not registered either, or its channel has the narrowed subscription id already. -/
theorem ids_keep_value_iff {id channelId : Int}
    (hmsg : SubscribeMessage env.toFloatLib d id channelId) :
    (∀ k ch now nsec s₁ s₂ s₃ s₄ s₅ t, s.registry.findData (Int32.ofInt channelId) = some k →
      s.registry.channels[k]? = some ch → ch.channelId.toInt = channelId →
      0 ≤ id → id < 2 ^ 32 →
      Iteration env k now nsec (State.settle (s.receive env d)) s₁ s₂ s₃ s₄ s₅ t →
      Sendable env k now s₁ s₃ s₅ →
      (Emits s₅ t nsec ch.channelId id ↔ id < 2 ^ 31)) ∧
    ((∀ ch ∈ s.registry.channels, ch.channelId.toInt ≠ channelId) →
      ((State.settle (s.receive env d)).table = s.table ↔
        ∀ i ch, s.registry.findData (Int32.ofInt channelId) = some i →
          s.registry.channels[i]? = some ch → ch.subscriptionId = Int32.ofInt id)) := by
  refine ⟨?_, fun _ => table_kept_iff hmsg⟩
  intro k ch now nsec s₁ s₂ s₃ s₄ s₅ t hfind hch _ h₀ h₁ hit hsend
  have hrow : (State.settle (s.receive env d)).table[k]? = some (ch.channelId, Int32.ofInt id) := by
    rw [received_subscribe hmsg, hfind]
    show ((s.registry.channels.modify k _).map Channel.row)[k]? = _
    rw [List.getElem?_map, List.getElem?_modify_eq, hch]
    rfl
  exact (hit.emits_iff hsend hrow id).trans (narrow_iff h₀ h₁)

/-- The ids of a subscribe message with one entry. -/
def subscribeIds (F : FloatLib) (d : Bytes) : Option (Int × Int) :=
  (parseMessage F d).join.bind fun j =>
    match entries "subscribe" "subscriptions" j with
    | [e] =>
      match e.at? "id", e.at? "channelId" with
      | some (.int id), some (.int channelId) => some (id, channelId)
      | _, _ => none
    | _ => none

theorem subscribeMessage_of_ids {id channelId : Int} (h : subscribeIds F d = some (id, channelId)) :
    SubscribeMessage F d id channelId := by
  obtain ⟨j, hj, h⟩ := Option.bind_eq_some_iff.mp h
  split at h
  · rename_i e hentries
    split at h
    · rename_i id' channelId' hid hchannel
      cases h
      exact ⟨j, e, Option.join_eq_some_iff.mp hj, hentries, hid, hchannel⟩
    · cases h
  · cases h

/-- The tests of `Sendable` at the place 0, each at its step. -/
def sendableStep (env : Env) (s : State) (l : Label) (_ : State) : Bool :=
  match l with
  | .visit now => s.registry.channels[0]?.all fun ch =>
    State.isDue ch now && (senderOf ch.channelType).admits ch.dataBuffer.frontBufferSize
  | .readInfo => s.registry.channels[0]?.all fun ch => ch.channelType != .image
  | .encode _ => s.client.isSome && s.registry.channels[0]?.all fun ch =>
    match s.pc with
    | .encode 0 _ (some job) =>
      match (senderOf ch.channelType).body env ch.topicName (s.source ch job) with
      | some (some e) => (senderOf ch.channelType).fits e.body.length &&
        decide (e.body.length + 13 + lwsPre ≤ sizeofTxBuffer)
      | _ => false
    | _ => true
  | _ => true

theorem sendable_of_steps {now nsec : UInt64} {s₁ s₂ s₃ s₄ s₅ t : State}
    (hv : sendableStep env s₁ (.visit now) s₂ = true)
    (hi : sendableStep env s₃ .readInfo s₄ = true)
    (he : sendableStep env s₅ (.encode nsec) t = true) : Sendable env 0 now s₁ s₃ s₅ := by
  simp only [sendableStep, Option.all_eq_true, Bool.and_eq_true, bne_iff_ne] at hv hi he
  refine ⟨he.1, fun ch hch => (hv ch hch).1, fun ch hch => (hv ch hch).2,
    fun ch hch hty => absurd hty (hi ch hch), fun ch due job hch hpc => ?_⟩
  have hbody := he.2 ch hch
  simp only [hpc] at hbody
  split at hbody
  · rename_i e hsome
    simp only [Bool.and_eq_true, decide_eq_true_eq] at hbody
    exact ⟨e, hsome, hbody.1, hbody.2⟩
  · cases hbody

/-- A written channel, and a client. -/
def writtenRun : List Label :=
  .addChannel (ascii "a") (some .boolean) 10 .zeroed :: writeCall .data 0 [1] ++
    [.callback 1 .established]

theorem small_id_emitted : ∃ s t : State, s.step .standIn (.encode 7) = some t ∧
    Emits s t 7 0 5 := by
  obtain ⟨s, -, h⟩ := Lts.exists_reach (L := sys .standIn) (s := .init) writtenRun
    (p := fun s => s.registry.findData 0 == some 0 &&
      s.registry.channels[0]?.any (fun ch => ch.channelId == 0) &&
      ((sys .standIn).exec (sendableStep .standIn)
        (State.settle (s.receive .standIn (subscribeText 5 0)))
        [.callback 1 .serverWriteable, .visit 1000, .readInfo, .encode 7]).isSome)
    (by decide +kernel)
  simp only [Bool.and_eq_true, beq_iff_eq, Option.any_eq_true, Option.isSome_iff_exists] at h
  obtain ⟨⟨hfind, ch, hch, hid⟩, t, ht⟩ := h
  have hrun := Lts.run_of_exec (Q := fun s l t => sendableStep .standIn s l t = true)
    (fun _ _ _ h => h) ht
  cases hrun with
  | @cons _ s₁ _ _ _ hw _ hrun =>
  cases hrun with
  | @cons _ s₂ _ _ _ hv hqv hrun =>
  cases hrun with
  | @cons _ s₄ _ _ _ hi hqi hrun =>
  cases hrun with
  | @cons _ _ _ _ _ he hqe hrun =>
  cases hrun
  have hmsg : SubscribeMessage Env.standIn.toFloatLib (subscribeText 5 0) 5 0 :=
    subscribeMessage_of_ids (by decide +kernel)
  obtain ⟨-, -, hs₁⟩ := State.fire_serverWriteable.mp (State.step_eq_some.mp hw).2
  have hit : Iteration .standIn 0 1000 7 (State.settle (s.receive .standIn (subscribeText 5 0)))
      s₁ s₂ s₂ s₄ s₄ t :=
    { before := ⟨_, .cons hw (by rintro w reason ⟨⟩; rfl) (.nil s₁)⟩
      place := by rw [← hs₁]
      visit := hv
      between₁ := ⟨[], .nil s₂⟩
      readInfo := hi
      between₂ := ⟨[], .nil s₄⟩
      encode := he }
  have hsend := sendable_of_steps hqv hqi hqe
  have hemits := ((ids_keep_value_iff hmsg).1 0 ch 1000 7 s₁ s₂ s₂ s₄ s₄ t hfind hch
    (by rw [hid]; rfl) (by decide) (by decide) hit hsend).mpr (by decide)
  rw [hid] at hemits
  exact ⟨s₄, t, he, hemits⟩

/-- The channel id 2^32 is not registered, and becomes the registered id 0. -/
theorem narrowed_channel_id : ∃ s : State,
    (sys .standIn).Reach .init writtenRun s ∧
    SubscribeMessage Env.standIn.toFloatLib (subscribeText 5 4294967296) 5 4294967296 ∧
    (∀ ch ∈ s.registry.channels, ch.channelId.toInt ≠ 4294967296) ∧
    (State.settle (s.receive .standIn (subscribeText 5 4294967296))).table ≠ s.table := by
  obtain ⟨s, hr, h⟩ := Lts.exists_reach (L := sys .standIn) (s := .init) writtenRun
    (p := fun s => s.registry.channels.all (fun ch => ch.channelId.toInt != 4294967296) &&
      (State.settle (s.receive .standIn (subscribeText 5 4294967296))).table != s.table)
    (by decide +kernel)
  simp only [Bool.and_eq_true, List.all_eq_true, bne_iff_ne] at h
  exact ⟨s, hr, subscribeMessage_of_ids (by decide +kernel), h.1, h.2⟩

end Foxdbg
