import Foxdbg.Senders

/-!
# The protocol (`foxdbg_protocol.cpp`)

The state of the server (`State`) and the functions that `websocket_callback` calls. A function
that can let an exception escape to its C caller returns `Except State State`: the error carries
the memory at that moment.

`trace` records, newest first, each step of the run (`Obs.event`), each call of a sender
(`Obs.called`), each write section that found its channel (`Obs.wrote`) and each message handed to
`lws_write` (`Obs.text`, `Obs.frame`). A frame's channel id is the sender's; its bytes are what
`lws_write` reads from `tx_buffer`.

`transmit_subscriptions` is a loop whose locked sections interleave with the writers, so it is a
machine (`Pc`) of one step for each section: `visit` reads the clock, tests if the channel is due
and runs the locked section of its sender, `readInfo` is the second locked section of `send_image`,
`encode` is the rest of the sender, and `stamp` stores the time.
-/

namespace Foxdbg

open Json

/-- A `struct lws *`. -/
abbrev Socket := Nat

/-- A thread of the application. -/
abbrev Tid := Nat

/-- The `reason` of a call of `websocket_callback`. -/
inductive Reason where
  | established
  | receive (d : Bytes)
  | closed
  | serverWriteable

/-- A step of a run. -/
inductive Label where
  /-- `foxdbg_add_channel`. -/
  | addChannel (topicName : Bytes) (channelType : Option ChannelType) (targetHz : Int32)
    (al : Alloc)
  /-- `foxdbg_add_rx_channel`. -/
  | addRxChannel (topicName : Bytes) (channelType : Option ChannelType) (al : Alloc)
  /-- The locked write section of `foxdbg_write_channel` (`foxdbg_write_channel_info`). -/
  | write (t : Tid) (k : BufferKind) (channelId : Int32) (d : Bytes)
  /-- The swap section of the thread's call. -/
  | swap (t : Tid)
  /-- A call of `websocket_callback`; with `serverWriteable`, its start. -/
  | callback (w : Socket) (reason : Reason)
  /-- The steps of `foxdbg_protocol_transmit_subscriptions` (module doc). -/
  | visit (now : UInt64)
  | readInfo
  | encode (nsec : UInt64)
  | stamp (now : UInt64)

/-- What a trace records. -/
inductive Obs where
  | event (l : Label)
  /-- A call of the sender of the channel at the place `k`, after this reading of the clock. -/
  | called (k : Nat) (now : UInt64)
  /-- A write section that found its channel, at the place `i`. -/
  | wrote (i : Nat) (k : BufferKind) (d : Bytes)
  | text (w : Socket) (d : Bytes)
  | frame (w : Socket) (channelId : Int32) (d : Bytes)

/-- The local variables of a sender between its sections. -/
structure Job where
  /-- `data`: the allocation that `begin_read` gave. -/
  data : Slot
  /-- The size that was copied to `raw_data_buffer`. -/
  dataSize : Nat
  /-- The size that was copied to `info_data_buffer`. -/
  infoSize : Nat
  deriving DecidableEq

/-- Where the server thread is. At the place `k` of the channel list, `due` tells if the channel's
time has elapsed; the job is there if its sender still has something to do. -/
inductive Pc where
  /-- In `lws_service`. -/
  | idle
  | visit (k : Nat)
  | readInfo (k : Nat) (due : Bool) (job : Option Job)
  | encode (k : Nat) (due : Bool) (job : Option Job)
  | stamp (k : Nat) (due : Bool)
  /-- An exception left a callback, or a trap: the process has ended. -/
  | crashed
  deriving DecidableEq

structure State where
  registry : Registry
  rawDataBuffer : Mem
  encodeBuffer : Mem
  infoDataBuffer : Mem
  txBuffer : Mem
  client : Option Socket
  /-- The open sockets of libwebsockets. -/
  sockets : List Socket
  /-- The write calls that are between their two sections: the thread, and the buffer. -/
  pending : List (Tid × Nat × BufferKind)
  pc : Pc
  trace : List Obs

namespace State

/-- The state after `foxdbg_init`. -/
def init : State :=
  ⟨.init, .zero, .zero, .zero, .zero, none, [], [], .idle, []⟩

def log (s : State) (o : Obs) : State := { s with trace := o :: s.trace }

def setChannels (s : State) (channels : List Channel) : State :=
  { s with registry := { s.registry with channels } }

/-! ## Messages -/

/-- `send_json`. -/
def sendJson (env : Env) (s : State) (data : Json) : Except State State :=
  match s.client with
  | none => .ok s
  | some w =>
    match dump env.toFloatLib data with
    | none => .error s
    | some text =>
      if text.length > sizeofTxBuffer - lwsPre then .ok s
      else
        let tx := s.txBuffer.copy lwsPre text
        .ok { s with txBuffer := tx, trace := .text w (tx.read lwsPre text.length) :: s.trace }

/-- The `k`-th byte of a subscription id: `(subscription_id >> 8 * k) & 0xFF`. -/
def idByte (id : Int32) (k : Nat) : UInt8 := UInt8.ofInt (id.toInt >>> (8 * k))

/-- The header of a frame. -/
def header (id : Int32) (nsec : UInt64) : Bytes :=
  [0x01, idByte id 0, idByte id 1, idByte id 2, idByte id 3] ++ Mem.le nsec.toNat 8

/-- `send_buffer` of the `data_size` bytes at `tx_buffer + LWS_PRE`, by the sender of a channel. -/
def sendBuffer (s : State) (channelId : Int32) (dataSize : Nat) (id : Int32) (nsec : UInt64) :
    State :=
  match s.client with
  | none => s
  | some w =>
    if dataSize + lwsPre > sizeofTxBuffer then s
    else
      let tx := s.txBuffer.copy lwsPre (header id nsec)
      { s with txBuffer := tx, trace := .frame w channelId (tx.read lwsPre dataSize) :: s.trace }

end State

/-- The name of a channel's schema. -/
def ChannelType.schemaName : ChannelType → String
  | .image => "foxglove.CompressedImage"
  | .pointcloud => "foxglove.PointCloud"
  | .cubes => "foxglove.SceneUpdate"
  | .lines => "foxglove.SceneUpdate"
  | .pose => "foxglove.SceneUpdate"
  | .transform => "foxglove.FrameTransform"
  | .location => "foxglove.LocationFix"
  | .float => "foxdbg.Float"
  | .integer => "foxdbg.Integer"
  | .boolean => "foxdbg.Boolean"

/-- A schema of an object with one member `value`. -/
def customSchema (title description type valueDescription : String) : Json :=
  ofMembers
    [("title", lit title), ("description", lit description), ("type", lit "object"),
      ("properties", ofMembers
        [("value", ofMembers [("type", lit type), ("description", lit valueDescription)])])]

/-- The custom schema of a type that has one. -/
def ChannelType.customSchema? : ChannelType → Option Json
  | .float => some (customSchema "foxdbg.Float" "float value" "number" "float value")
  | .integer => some (customSchema "foxdbg.Integer" "float value" "integer" "int value")
  | .boolean => some (customSchema "foxdbg.Boolean" "bool value" "boolean" "bool value")
  | _ => none

/-- The text of a type's schema: empty without a custom one. -/
def ChannelType.schemaText (F : FloatLib) (type : ChannelType) : Option Bytes :=
  match type.customSchema? with
  | none => some []
  | some schema => dump F schema

/-- What `send_advertise` tells about a channel. -/
def channelInfo (ch : Channel) (schema : Bytes) : Json :=
  ofMembers
    [("id", .int ch.channelId.toInt), ("topic", .str ch.topicName), ("encoding", lit "json"),
      ("schemaName", lit ch.channelType.schemaName), ("schema", .str schema)]

/-- The infos of the channels; `none`: the dump of a schema throws. -/
def channelInfos (F : FloatLib) (channels : List Channel) : Option (List Json) :=
  channels.mapM fun ch => (ch.channelType.schemaText F).map (channelInfo ch)

def advertiseJson (infos : List Json) : Json :=
  ofMembers [("op", lit "advertise"), ("channels", .arr infos)]

def serverInfo : Json :=
  ofMembers
    [("op", lit "serverInfo"), ("name", lit "TBReAI FOXDBG"),
      ("capabilities", .arr [lit "clientPublish"]),
      ("supportedEncodings", .arr [lit "json", lit "binary"]), ("metadata", .obj [])]

namespace State

/-- `send_advertise`. -/
def sendAdvertise (env : Env) (s : State) : Except State State :=
  match channelInfos env.toFloatLib s.registry.channels with
  | none => .error s
  | some infos => s.sendJson env (advertiseJson infos)

/-! ## Connections -/

/-- `foxdbg_protocol_disconnect`. The socket is not used. -/
def disconnect (s : State) (_clientPtr : Socket) : State :=
  { s with client := none }.setChannels (s.registry.channels.map (Channel.setSubscription (-1)))

/-- `foxdbg_protocol_connect`. -/
def connect (env : Env) (s : State) (clientPtr : Socket) : Except State State := do
  let s := match s.client with
    | some w => s.disconnect w
    | none => s
  let s := { s with client := some clientPtr }
  let s ← s.sendJson env serverInfo
  s.sendAdvertise env

end State

/-! ## Received messages -/

/-- The two ids of an entry of a subscribe message; `none`: one of them throws. -/
def subscription (F : FloatLib) (e : Json) : Option (Int32 × Int32) := do
  let id ← (← e.at? "id").getInt? F
  let channelId ← (← e.at? "channelId").getInt? F
  return (id, channelId)

/-- The loop over the entries of a subscribe message: the place of the channel that it subscribes,
and the id. It ends at the first entry that names a channel. -/
def subscribeTarget (F : FloatLib) (channels : List Channel) : List Json → Option (Nat × Int32)
  | [] => none
  | e :: es =>
    match subscription F e with
    | none => subscribeTarget F channels es
    | some (id, channelId) =>
      match channels.findIdx? fun ch => ch.channelId == channelId with
      | some i => some (i, id)
      | none => subscribeTarget F channels es

/-- The loop over the ids of an unsubscribe message: the place of the channel that it
unsubscribes. It ends at the first id that a channel has. -/
def unsubscribeTarget (F : FloatLib) (channels : List Channel) : List Json → Option Nat
  | [] => none
  | e :: es =>
    match e.getInt? F with
    | none => unsubscribeTarget F channels es
    | some id =>
      match channels.findIdx? fun ch => ch.subscriptionId == id with
      | some i => some i
      | none => unsubscribeTarget F channels es

/-- The entries of a message with this `op`: the items of its member `key`. -/
def entries (op key : String) (j : Json) : List Json :=
  if j.isObject && ((j.find? "op").any (·.isLit op)) then
    ((j.find? key).map (·.items)).getD []
  else []

/-- `foxdbg_protocol_receive` after the parser: the channels after the message. -/
def handleMessage (F : FloatLib) (channels : List Channel) (j : Json) : List Channel :=
  match subscribeTarget F channels (entries "subscribe" "subscriptions" j) with
  | some (i, id) => channels.modify i (Channel.setSubscription id)
  | none =>
    match unsubscribeTarget F channels (entries "unsubscribe" "subscriptionIds" j) with
    | some i => channels.modify i (Channel.setSubscription (-1))
    | none => channels

/-- The message that `foxdbg_protocol_receive` handles: `some none` for bytes that it ignores,
`none` for bytes whose parse throws. -/
def parseMessage (F : FloatLib) : Bytes → Option (Option Json)
  | [] => some none
  | b :: r => if b = 0x01 then some none else (parse F (b :: r)).map some

namespace State

/-- `foxdbg_protocol_receive`. -/
def receive (env : Env) (s : State) (d : Bytes) : Except State State :=
  match parseMessage env.toFloatLib d with
  | none => .error s
  | some none => .ok s
  | some (some j) => .ok (s.setChannels (handleMessage env.toFloatLib s.registry.channels j))

/-! ## Transmission -/

/-- `elapsed > target_tx_time`, where `elapsed` is a difference of unsigned numbers. -/
def isDue (ch : Channel) (now : UInt64) : Bool := now - ch.lastTxTime > ch.targetTxTime

/-- The locked section of a sender: the copy to `raw_data_buffer`, or an early return. -/
def readData (s : State) (ch : Channel) : State × Option Job :=
  let (data, dataSize) := ch.dataBuffer.beginRead
  if (senderOf ch.channelType).admits dataSize then
    ({ s with rawDataBuffer :=
        s.rawDataBuffer.copy 0 ((ch.dataBuffer.contents data).read 0 dataSize) },
      some ⟨data, dataSize, 0⟩)
  else (s, none)

/-- The start of an iteration of `foxdbg_protocol_transmit_subscriptions`. -/
def visit (s : State) (k : Nat) (now : UInt64) : State :=
  match s.registry.channels[k]? with
  | none => { s with pc := .idle }
  | some ch =>
    if ch.Subscribed ∧ isDue ch now then
      let (s, job) := (s.log (.called k now)).readData ch
      { s with pc := .readInfo k true job }
    else { s with pc := .readInfo k (isDue ch now) none }

/-- The locked info section of `send_image`; the other senders have none. -/
def readInfo (s : State) (k : Nat) (due : Bool) (job : Job) : State :=
  match s.registry.channels[k]? with
  | some ch =>
    if ch.channelType = .image then
      match ch.infoBuffer with
      | some info =>
        let (data, infoSize) := info.beginRead
        if infoSize ≤ sizeofInfoDataBuffer then
          { s with
            infoDataBuffer := s.infoDataBuffer.copy 0 ((info.contents data).read 0 infoSize)
            pc := .encode k due (some { job with infoSize }) }
        else { s with pc := .encode k due none }
      | none => { s with pc := .crashed }
    else { s with pc := .encode k due (some job) }
  | none => { s with pc := .crashed }

/-- The memory that the sender of a channel reads after its sections. -/
def source (s : State) (ch : Channel) (job : Job) : Source where
  rawDataBuffer := s.rawDataBuffer
  infoDataBuffer := s.infoDataBuffer
  encodeBuffer := s.encodeBuffer
  data := ch.dataBuffer.contents job.data
  dataSize := job.dataSize

/-- The frame of a body, if the sender lets it through. -/
def sendBody (s : State) (ch : Channel) (e : Encoded) (nsec : UInt64) : State :=
  let s := { s with encodeBuffer := e.encodeBuffer }
  if (senderOf ch.channelType).fits e.body.length then
    { s with txBuffer := s.txBuffer.copy (lwsPre + 13) e.body }.sendBuffer ch.channelId
      (e.body.length + 13) ch.subscriptionId nsec
  else s

/-- A sender after its locked sections. -/
def encode (env : Env) (s : State) (k : Nat) (job : Job) (nsec : UInt64) : Except State State :=
  match s.registry.channels[k]? with
  | none => .error s
  | some ch =>
    match (senderOf ch.channelType).body env ch.topicName (s.source ch job) with
    | none => .error s
    | some none => .ok s
    | some (some e) => .ok (s.sendBody ch e nsec)

/-- `current->last_tx_time = current_timestamp_ms()`, if the channel was due. -/
def stamp (s : State) (k : Nat) (due : Bool) (now : UInt64) : State :=
  if due then
    { s with registry := s.registry.modify k fun ch => { ch with lastTxTime := now } }
  else s

/-! ## What a sender hands over -/

theorem length_header (id : Int32) (nsec : UInt64) : (header id nsec).length = 13 := by
  simp [header]

/-- The frame that a sender hands to `lws_write` for a body: the header and the body, if there is a
client and the sizes fit. -/
def frames (s : State) (ch : Channel) (body : Bytes) (nsec : UInt64) : List Obs :=
  match s.client with
  | none => []
  | some w =>
    if (senderOf ch.channelType).fits body.length ∧ body.length + 13 + lwsPre ≤ sizeofTxBuffer then
      [.frame w ch.channelId (header ch.subscriptionId nsec ++ body)]
    else []

/-- The header goes in front of the body in `tx_buffer`. -/
theorem read_tx (m : Mem) (id : Int32) (nsec : UInt64) (body : Bytes) :
    ((m.copy (lwsPre + 13) body).copy lwsPre (header id nsec)).read lwsPre (body.length + 13) =
      header id nsec ++ body := by
  have h : (header id nsec).length = 13 := length_header id nsec
  have hh := Mem.read_copy (m.copy (lwsPre + 13) body) lwsPre (header id nsec)
  rw [h] at hh
  rw [Nat.add_comm body.length, Mem.read_append, hh, Mem.read_copy_disjoint (by omega),
    Mem.read_copy]

/-- A sender changes `encode_buffer`, `tx_buffer` and the trace. -/
theorem sendBody_eq (s : State) (ch : Channel) (e : Encoded) (nsec : UInt64) :
    ∃ tx, s.sendBody ch e nsec =
      { s with
        encodeBuffer := e.encodeBuffer
        txBuffer := tx
        trace := s.frames ch e.body nsec ++ s.trace } := by
  let tx := s.txBuffer.copy (lwsPre + 13) e.body
  unfold sendBody frames sendBuffer
  dsimp only
  by_cases hfit : (senderOf ch.channelType).fits e.body.length
  · cases hc : s.client with
    | none => exact ⟨tx, by simp only [hfit, if_true, List.nil_append, tx]⟩
    | some w =>
      by_cases hbig : e.body.length + 13 + lwsPre ≤ sizeofTxBuffer
      · refine ⟨tx.copy lwsPre (header ch.subscriptionId nsec), ?_⟩
        simp only [hfit, hbig, Nat.not_lt.mpr hbig, if_true, if_false, and_self, tx, read_tx,
          List.singleton_append]
      · refine ⟨tx, ?_⟩
        simp only [hfit, hbig, Nat.lt_of_not_le hbig, if_true, if_false, and_false, tx,
          List.nil_append]
  · refine ⟨s.txBuffer, ?_⟩
    cases s.client <;> simp [hfit]

/-! ## What a connection hands over -/

/-- The message that `send_json` hands to `lws_write` for a text, if it fits. -/
def texts (w : Socket) (text : Bytes) : List Obs :=
  if text.length ≤ sizeofTxBuffer - lwsPre then [.text w text] else []

theorem sendJson_some (env : Env) {s : State} {data : Json} {w : Socket} {text : Bytes}
    (hc : s.client = some w) (hd : dump env.toFloatLib data = some text) :
    ∃ tx, s.sendJson env data =
      .ok { s with txBuffer := tx, trace := texts w text ++ s.trace } := by
  unfold sendJson texts
  simp only [hc, hd]
  split
  · rename_i hbig
    exact ⟨s.txBuffer, by simp [Nat.not_le.mpr hbig, ← hc]⟩
  · rename_i hbig
    exact ⟨s.txBuffer.copy lwsPre text, by simp [Nat.not_lt.mp hbig, ← hc]⟩

theorem sendJson_none {env : Env} {s : State} {data : Json} {w : Socket}
    (hc : s.client = some w) (hd : dump env.toFloatLib data = none) :
    s.sendJson env data = .error s := by
  simp only [sendJson, hc, hd]

/-- The text of the advertise message; `none`: a dump throws. -/
def advertiseText (F : FloatLib) (channels : List Channel) : Option Bytes :=
  (channelInfos F channels).bind fun infos => dump F (advertiseJson infos)

/-- The state in which `foxdbg_protocol_connect` sends: the session of the socket starts with no
subscription, if a client was there. -/
def opened (s : State) (w : Socket) : State :=
  { (match s.client with | some v => s.disconnect v | none => s) with client := some w }

theorem serverInfo_dumps (F : FloatLib) : ∃ text, dump F serverInfo = some text :=
  Option.isSome_iff_exists.mp (by rw [dump_isSome]; decide +kernel)

/-- `foxdbg_protocol_connect` opens the session and sends two texts; it throws if the second one
cannot be dumped. -/
theorem connect_cases (env : Env) (s : State) (w : Socket) :
    ∃ info tx, dump env.toFloatLib serverInfo = some info ∧
      ((advertiseText env.toFloatLib (s.opened w).registry.channels = none ∧
        s.connect env w = .error { s.opened w with
          txBuffer := tx
          trace := texts w info ++ s.trace }) ∨
      ∃ text, advertiseText env.toFloatLib (s.opened w).registry.channels = some text ∧
        s.connect env w = .ok { s.opened w with
          txBuffer := tx
          trace := texts w text ++ (texts w info ++ s.trace) }) := by
  obtain ⟨info, hinfo⟩ := serverInfo_dumps env.toFloatLib
  obtain ⟨tx, htx⟩ := sendJson_some env (s := s.opened w) (w := w) rfl hinfo
  have ht : (s.opened w).trace = s.trace := by
    unfold opened; cases s.client <;> rfl
  have hconn : s.connect env w = State.sendAdvertise env
      { s.opened w with txBuffer := tx, trace := texts w info ++ s.trace } := by
    rw [← ht]
    show (State.sendJson env (s.opened w) serverInfo >>= fun s => s.sendAdvertise env) = _
    rw [htx]; rfl
  refine ⟨info, ?_⟩
  unfold sendAdvertise at hconn
  unfold advertiseText
  cases hinfos : channelInfos env.toFloatLib (s.opened w).registry.channels with
  | none =>
    simp only [hinfos] at hconn
    exact ⟨tx, hinfo, .inl ⟨rfl, hconn⟩⟩
  | some infos =>
    simp only [hinfos] at hconn
    cases hd : dump env.toFloatLib (advertiseJson infos) with
    | none => exact ⟨tx, hinfo, .inl ⟨hd, hconn.trans (sendJson_none rfl hd)⟩⟩
    | some text =>
      obtain ⟨tx', htx'⟩ := sendJson_some env (w := w)
        (s := { s.opened w with txBuffer := tx, trace := texts w info ++ s.trace }) rfl hd
      exact ⟨tx', hinfo, .inr ⟨text, hd, hconn.trans htx'⟩⟩

end State

end Foxdbg
