import Foxdbg.Ids
import Foxdbg.Lib.Linearize

/-!
# The lists in single steps (`foxdbg.c`, `foxdbg_protocol.cpp`)

`sys` adds a channel and looks one up in one step. Here a call is at a point of its code
(`ListPoint`), and each load and store of a member of a `foxdbg_channel_t`, of a list head or of a
counter is a step of its own. No lock protects a list. Memory is sequentially consistent.

A channel is a node at an address. The memory of a node holds garbage until something is stored; the
buffers of a channel are in its node, since no other channel has them.

`listRoutine` has the calls that go through a list: `foxdbg_add_channel`, `foxdbg_get_channel` and
their variants for received channels, the lookups of the write functions, and the loops over the
channels in four callbacks of the server thread: `foxdbg_protocol_disconnect`, the two branches of
`foxdbg_protocol_receive`, and `send_advertise` (`Walk`). The loop of
`foxdbg_protocol_transmit_subscriptions` is not among them: it does not take effect at one instant,
and `Passes` has what holds of it.

`Directory` is what the calls are about: a registry, and the addresses of its channels. A call that
takes effect at once in a directory (`Directory.apply`) does to the registry what the program does
in one step (`apply_add`, `apply_disconnect`), or in the loops of one message (`walks_message`).
-/

namespace Foxdbg

/-- The address of a channel. -/
abbrev Addr := Nat

/-- The memory of a `foxdbg_channel_t`. -/
structure Node where
  channel : Channel
  next : Option Addr

/-- The memory that the lists are in, with the static variables of `foxdbg.c`. -/
structure Heap where
  node : Addr → Node
  allocated : List Addr
  /-- `channels`, `rx_channels`. -/
  head : Side → Option Addr
  /-- `channel_count`, `rx_channel_count`. -/
  count : Side → Nat

namespace Heap

/-- The memory with other contents of a node. -/
def put (h : Heap) (p : Addr) (n : Node) : Heap := { h with node := Function.update h.node p n }

/-- A store to a member of a channel. -/
def store (h : Heap) (p : Addr) (f : Channel → Channel) : Heap :=
  h.put p { h.node p with channel := f (h.node p).channel }

/-- `p->next = q`. -/
def storeNext (h : Heap) (p : Addr) (q : Option Addr) : Heap :=
  h.put p { h.node p with next := q }

def storeHead (h : Heap) (side : Side) (p : Addr) : Heap :=
  { h with head := Function.update h.head side (some p) }

def storeCount (h : Heap) (side : Side) (n : Nat) : Heap :=
  { h with count := Function.update h.count side n }

/-- `malloc`. -/
def malloc (h : Heap) (p : Addr) : Heap := { h with allocated := p :: h.allocated }

end Heap

/-- The members that a new channel gets before its id. -/
inductive Member where
  | topicName
  | targetTxTime
  | lastTxTime
  | channelType
  | dataBuffer
  | infoBuffer
  | subscriptionId
  deriving DecidableEq

namespace Member

/-- The members in the order of their stores. -/
def all : List Member :=
  [topicName, targetTxTime, lastTxTime, channelType, dataBuffer, infoBuffer, subscriptionId]

/-- The store to a member of what it is in `new`. -/
def store (new ch : Channel) : Member → Channel
  | topicName => { ch with topicName := new.topicName }
  | targetTxTime => { ch with targetTxTime := new.targetTxTime }
  | lastTxTime => { ch with lastTxTime := new.lastTxTime }
  | channelType => { ch with channelType := new.channelType }
  | dataBuffer => { ch with dataBuffer := new.dataBuffer }
  | infoBuffer => { ch with infoBuffer := new.infoBuffer }
  | subscriptionId => { ch with subscriptionId := new.subscriptionId }

end Member

namespace AddCall

/-- The channel that a call makes as the one with number `n`, if nothing fails. -/
def channel (n : Nat) : AddCall → Option Channel
  | .tx topicName channelType targetHz al => Registry.newChannel n topicName channelType targetHz al
  | .rx topicName channelType al => Registry.newRxChannel n topicName channelType al

/-- `1000 / target_hz` traps. -/
def traps : AddCall → Bool
  | .tx _ _ targetHz _ => targetHz == 0
  | .rx .. => false

/-- The number of a channel is its id, and nothing else. -/
theorem channel_eq (call : AddCall) (n : Nat) : call.channel n =
    (call.channel 0).map fun ch => { ch with channelId := Int32.ofNat n } := by
  cases call with
  | tx topicName channelType targetHz al =>
    simp only [channel, Registry.newChannel, Option.bind_eq_bind]
    cases channelType with
    | none => rfl
    | some type =>
      dsimp only [Option.bind_some]
      cases Buffer.alloc type.payloadSize al.data with
      | none => rfl
      | some data =>
        dsimp only [Option.bind_some]
        cases Registry.newInfoBuffer type al with
        | none => rfl
        | some info => cases al.channel <;> rfl
  | rx topicName channelType al =>
    simp only [channel, Registry.newRxChannel, Option.bind_eq_bind]
    cases channelType with
    | none => rfl
    | some type =>
      dsimp only [Option.bind_some]
      cases Buffer.alloc type.payloadSize al.data <;> cases type.isRx <;> cases al.channel <;> rfl

end AddCall

/-- A loop over a list: that of a lookup, or of a callback that is not a pass of the server
thread. -/
inductive Walk where
  /-- `foxdbg_get_channel`, `foxdbg_get_rx_channel`. -/
  | get (side : Side) (topicName : Bytes)
  /-- The lookup of `foxdbg_write_channel` or `foxdbg_write_channel_info`. -/
  | find (k : BufferKind) (channelId : Int32)
  /-- The loop of `foxdbg_protocol_receive` for an entry of a subscribe message. -/
  | subscribe (id channelId : Int32)
  /-- The loop for an id of an unsubscribe message. -/
  | unsubscribe (id : Int32)
  /-- The loop of `foxdbg_protocol_disconnect`. -/
  | disconnect
  /-- The loop of `send_advertise`. -/
  | advertise

/-- The members of a channel that an advertise message has. -/
structure Listed where
  channelType : ChannelType
  channelId : Int32
  topicName : Bytes
  deriving DecidableEq

/-- The members that `send_advertise` loads. -/
def Channel.listed (ch : Channel) : Listed := ⟨ch.channelType, ch.channelId, ch.topicName⟩

/-- What a call returns. -/
inductive Answer where
  /-- An id, or -1. -/
  | id (channelId : Int32)
  /-- The channel to write to, if there is one. -/
  | channel (p : Option Addr)
  /-- If the loop found a channel. -/
  | found (b : Bool)
  | done
  | listed (infos : List Listed)
  deriving DecidableEq

namespace Walk

/-- The list that the loop goes through. -/
def side : Walk → Side
  | .get side _ => side
  | _ => .tx

/-- The test of the loop body on a channel. -/
def test : Walk → Channel → Bool
  | .get _ topicName, ch => ch.topicName == topicName
  | .find k channelId, ch => ch.channelId == channelId && (ch.buffer? k).isSome
  | .subscribe _ channelId, ch => ch.channelId == channelId
  | .unsubscribe id, ch => ch.subscriptionId == id
  | .disconnect, _ => false
  | .advertise, _ => false

/-- The answer when `current` is `NULL`, with the infos so far. -/
def atEnd : Walk → List Listed → Answer
  | .get .., _ => .id (-1)
  | .find .., _ => .channel none
  | .subscribe .., _ => .found false
  | .unsubscribe _, _ => .found false
  | .disconnect, _ => .done
  | .advertise, infos => .listed infos

end Walk

/-- A call. `p` is the address that `malloc` gives to the channel. -/
inductive ListCall where
  | add (call : AddCall) (p : Addr)
  | walk (w : Walk)

/-- The points of the code, named after their step. -/
inductive ListPoint where
  | malloc (call : AddCall) (p : Addr)
  /-- `new_channel` gets the members `rest` of `new`. -/
  | store (call : AddCall) (p : Addr) (new : Channel) (rest : List Member)
  | loadCount (call : AddCall) (p : Addr)
  | storeId (call : AddCall) (p : Addr) (n : Nat)
  | storeNull (call : AddCall) (p : Addr)
  | loadHead (call : AddCall) (p : Addr)
  /-- The test `current->next` of the loop. -/
  | test (call : AddCall) (p current : Addr)
  /-- `current = current->next`. -/
  | advance (call : AddCall) (p current : Addr)
  | link (call : AddCall) (p : Addr) (current : Option Addr)
  | loadCounter (call : AddCall) (p : Addr)
  | storeCounter (call : AddCall) (p : Addr) (n : Nat)
  /-- `return current->channel_id`. -/
  | loadId (side : Side) (p : Addr)
  /-- `current = *channels`. -/
  | first (w : Walk)
  /-- The first access of the loop body. -/
  | visit (w : Walk) (infos : List Listed) (current : Addr)
  | loadInfoBuffer (channelId : Int32) (current : Addr)
  | storeSubscription (w : Walk) (current : Addr) (id : Int32)
  | loadListedId (infos : List Listed) (current : Addr) (channelType : ChannelType)
  | loadListedTopic (infos : List Listed) (current : Addr) (channelType : ChannelType)
      (channelId : Int32)
  /-- `current = current->next`. -/
  | next (w : Walk) (infos : List Listed) (current : Addr)
  | ret (v : Answer)

namespace ListPoint

/-- The point after a load of a pointer that the loop goes on with. -/
def goOn (w : Walk) (infos : List Listed) : Option Addr → ListPoint
  | none => .ret (w.atEnd infos)
  | some p => .visit w infos p

/-- The first access of the loop body, to the channel at `p`. -/
def body (h : Heap) (infos : List Listed) (p : Addr) : Walk → ListPoint × Heap
  | w@(.get side topicName) =>
    (if (h.node p).channel.topicName == topicName then .loadId side p else .next w infos p, h)
  | w@(.find .data channelId) =>
    (if (h.node p).channel.channelId == channelId then .ret (.channel (some p))
      else .next w infos p, h)
  | w@(.find .info channelId) =>
    (if (h.node p).channel.channelId == channelId then .loadInfoBuffer channelId p
      else .next w infos p, h)
  | w@(.subscribe id channelId) =>
    (if (h.node p).channel.channelId == channelId then .storeSubscription w p id
      else .next w infos p, h)
  | w@(.unsubscribe id) =>
    (if (h.node p).channel.subscriptionId == id then .storeSubscription w p (-1)
      else .next w infos p, h)
  | .disconnect => (.next .disconnect infos p, h.store p (Channel.setSubscription (-1)))
  | .advertise => (.loadListedId infos p (h.node p).channel.channelType, h)

/-- The step from a point. -/
def step (h : Heap) : ListPoint → Option (ListPoint × Heap)
  | .malloc call p =>
    match call.channel 0 with
    | none => some (.ret (.id (-1)), h)
    | some new =>
      if p ∈ h.allocated then none else some (.store call p new Member.all, h.malloc p)
  | .store call p _ [] => some (.loadCount call p, h)
  | .store call p new (m :: rest) =>
    if m = .targetTxTime ∧ call.traps then none
    else some (.store call p new rest, h.store p fun ch => m.store new ch)
  | .loadCount call p => some (.storeId call p (h.count call.side), h)
  | .storeId call p n =>
    some (.storeNull call p, h.store p fun ch => { ch with channelId := Int32.ofNat n })
  | .storeNull call p => some (.loadHead call p, h.storeNext p none)
  | .loadHead call p =>
    match h.head call.side with
    | none => some (.link call p none, h)
    | some current => some (.test call p current, h)
  | .test call p current =>
    match (h.node current).next with
    | none => some (.link call p (some current), h)
    | some _ => some (.advance call p current, h)
  | .advance call p current =>
    match (h.node current).next with
    | none => some (.link call p none, h)
    | some q => some (.test call p q, h)
  | .link call p none => some (.loadCounter call p, h.storeHead call.side p)
  | .link call p (some current) => some (.loadCounter call p, h.storeNext current (some p))
  | .loadCounter call p => some (.storeCounter call p (h.count call.side), h)
  | .storeCounter call p n => some (.loadId call.side p, h.storeCount call.side (n + 1))
  | .loadId _ p => some (.ret (.id (h.node p).channel.channelId), h)
  | .first w => some (goOn w [] (h.head w.side), h)
  | .visit w infos p => some (body h infos p w)
  | .loadInfoBuffer channelId p =>
    if (h.node p).channel.infoBuffer.isSome then some (.ret (.channel (some p)), h)
    else some (.next (.find .info channelId) [] p, h)
  | .storeSubscription _ p id => some (.ret (.found true), h.store p (Channel.setSubscription id))
  | .loadListedId infos p channelType =>
    some (.loadListedTopic infos p channelType (h.node p).channel.channelId, h)
  | .loadListedTopic infos p channelType channelId =>
    some (.next .advertise (infos ++ [⟨channelType, channelId, (h.node p).channel.topicName⟩]) p, h)
  | .next w infos p => some (goOn w infos (h.node p).next, h)
  | .ret _ => none

end ListPoint

/-- The calls on the lists (module doc). -/
def listRoutine : Routine Heap ListPoint ListCall Answer where
  start
    | .add call p => .malloc call p
    | .walk w => .first w
  step l h := l.step h
  result
    | .ret v => some v
    | _ => none

/-! ## The specification -/

/-- A registry, and the addresses of the channels of its lists. -/
structure Directory where
  registry : Registry
  nodes : Side → List Addr

namespace Directory

def init : Directory := ⟨.init, fun _ => []⟩

/-- One more channel at the end of a list. -/
def append (d : Directory) (side : Side) (ch : Channel) (p : Addr) : Directory :=
  ⟨d.registry.append side ch, Function.update d.nodes side (d.nodes side ++ [p])⟩

/-- The place of the first channel that passes the test of a walk. -/
def place (d : Directory) (w : Walk) : Option Nat := (d.registry.list w.side).findIdx? w.test

/-- The directory with other transmitted channels. -/
def setChannels (d : Directory) (channels : List Channel) : Directory :=
  { d with registry := { d.registry with channels } }

/-- A call that takes effect at once: its answer, and the directory after it. -/
def apply : ListCall → Directory → Option (Answer × Directory)
  | .add call p, d =>
    match call.channel (d.registry.count call.side) with
    | none => some (.id (-1), d)
    | some ch => if call.traps then none else some (.id ch.channelId, d.append call.side ch p)
  | .walk (.get side topicName), d => some (.id (d.registry.get side topicName), d)
  | .walk (.find k channelId), d =>
    some (.channel ((d.registry.find k channelId).bind fun i => (d.nodes .tx)[i]?), d)
  | .walk (.subscribe id channelId), d =>
    match d.place (.subscribe id channelId) with
    | none => some (.found false, d)
    | some i => some (.found true, d.setChannels (d.registry.channels.modify i
        (Channel.setSubscription id)))
  | .walk (.unsubscribe id), d =>
    match d.place (.unsubscribe id) with
    | none => some (.found false, d)
    | some i => some (.found true, d.setChannels (d.registry.channels.modify i
        (Channel.setSubscription (-1))))
  | .walk .disconnect, d =>
    some (.done, d.setChannels (d.registry.channels.map (Channel.setSubscription (-1))))
  | .walk .advertise, d => some (.listed (d.registry.channels.map Channel.listed), d)

/-- On the registry, a call that adds is the one of the program. -/
theorem apply_add (call : AddCall) (p : Addr) (d : Directory) :
    (apply (.add call p) d).map (fun x => (x.1, x.2.registry)) =
      (call.run d.registry).map fun x => (.id x.2, x.1) := by
  cases call with
  | tx topicName channelType targetHz al =>
    rw [AddCall.run, Registry.addChannel_eq_new]
    show Option.map _ (match Registry.newChannel d.registry.channelCount topicName channelType
      targetHz al with | none => _ | some ch => if (targetHz == 0) = true then _ else _) = _
    cases Registry.newChannel d.registry.channelCount topicName channelType targetHz al with
    | none => rfl
    | some ch =>
      by_cases hzero : targetHz = 0
      · simp only [hzero, beq_self_eq_true, if_true, Option.map_none]
      · simp only [hzero, beq_iff_eq, if_false, Option.map_some]
        rfl
  | rx topicName channelType al =>
    rw [AddCall.run, Registry.addRxChannel_eq_new]
    show Option.map _ (match Registry.newRxChannel d.registry.rxChannelCount topicName channelType
      al with | none => _ | some _ => _) = _
    cases Registry.newRxChannel d.registry.rxChannelCount topicName channelType al <;> rfl

/-- `foxdbg_protocol_disconnect` of the program is the walk. -/
theorem apply_disconnect (s : State) (nodes : Side → List Addr) (w : Socket) :
    apply (.walk .disconnect) ⟨s.registry, nodes⟩ =
      some (.done, ⟨(s.disconnect w).registry, nodes⟩) := rfl

/-- Loops one after the other, up to the first that finds a channel. -/
def walks : List Walk → Directory → Directory
  | [], d => d
  | w :: ws, d =>
    match d.place w with
    | none => walks ws d
    | some _ => (apply (.walk w) d).elim d (·.2)

/-- The loops of `foxdbg_protocol_receive` for a message. -/
def messageWalks (F : FloatLib) (j : Json) : List Walk :=
  (entries "subscribe" "subscriptions" j).filterMap
      (fun e => (subscription F e).map fun x => .subscribe x.1 x.2) ++
    (entries "unsubscribe" "subscriptionIds" j).filterMap
      (fun e => (e.getInt? F).map .unsubscribe)

variable {F : FloatLib} {d : Directory}

theorem walks_subscribe (es : List Json) (ws : List Walk) :
    walks (es.filterMap (fun e => (subscription F e).map fun x => .subscribe x.1 x.2) ++ ws) d =
      match subscribeTarget F d.registry.channels es with
      | some (i, id) => d.setChannels (d.registry.channels.modify i (Channel.setSubscription id))
      | none => walks ws d := by
  induction es with
  | nil => rfl
  | cons e es ih =>
    unfold subscribeTarget
    cases hsub : subscription F e with
    | none =>
      rw [List.filterMap_cons_none (by rw [hsub]; rfl)]
      exact ih
    | some x =>
      obtain ⟨id, channelId⟩ := x
      rw [List.filterMap_cons_some (b := .subscribe id channelId) (by rw [hsub]; rfl)]
      have hplace : d.place (.subscribe id channelId) =
        d.registry.channels.findIdx? fun ch => ch.channelId == channelId := rfl
      simp only [List.cons_append, walks, hplace, apply]
      cases d.registry.channels.findIdx? fun ch => ch.channelId == channelId with
      | none => exact ih
      | some i => rfl

theorem walks_unsubscribe (es : List Json) :
    walks (es.filterMap fun e => (e.getInt? F).map .unsubscribe) d =
      match unsubscribeTarget F d.registry.channels es with
      | some i => d.setChannels (d.registry.channels.modify i (Channel.setSubscription (-1)))
      | none => d := by
  induction es with
  | nil => rfl
  | cons e es ih =>
    unfold unsubscribeTarget
    cases hid : e.getInt? F with
    | none =>
      rw [List.filterMap_cons_none (by rw [hid]; rfl)]
      exact ih
    | some id =>
      rw [List.filterMap_cons_some (b := .unsubscribe id) (by rw [hid]; rfl)]
      have hplace : d.place (.unsubscribe id) =
        d.registry.channels.findIdx? fun ch => ch.subscriptionId == id := rfl
      simp only [walks, hplace, apply]
      cases d.registry.channels.findIdx? fun ch => ch.subscriptionId == id with
      | none => exact ih
      | some i => rfl

/-- The program handles a message by its loops. -/
theorem walks_message (j : Json) :
    walks (messageWalks F j) d = d.setChannels (handleMessage F d.registry.channels j) := by
  rw [messageWalks, walks_subscribe, walks_unsubscribe, handleMessage]
  cases subscribeTarget F d.registry.channels (entries "subscribe" "subscriptions" j) with
  | some x => rfl
  | none =>
    cases unsubscribeTarget F d.registry.channels (entries "unsubscribe" "subscriptionIds" j) <;>
      rfl

end Directory

end Foxdbg
