import Foxdbg.Lib.JsonDenotes
import Foxdbg.Lib.Run
import Foxdbg.Protocol

/-!
# The threads (`foxdbg_thread.cpp`, and the application)

`sys` is the whole program as a transition system: the threads of the application, which add
channels and write, and the server thread, which runs the callbacks of libwebsockets. A label is the
step of one thread, so a list of labels is one interleaving.

The locked sections of a write call are two steps (`write`, `swap`); any number of threads can be
between them (`pending`). Of libwebsockets the system assumes that a socket is open from its
`established` to its `closed`, and that callbacks do not overlap. A crashed process has no step.
-/

namespace Foxdbg

open Json

namespace State

/-- The end of a callback. An exception that leaves it ends the process. -/
def settle : Except State State → State
  | .ok s => s
  | .error s => { s with pc := .crashed }

/-- `websocket_callback`. -/
def websocketCallback (env : Env) (s : State) (w : Socket) : Reason → State
  | .established => settle (s.connect env w)
  | .receive d => settle (s.receive env d)
  | .closed => s.disconnect w
  | .serverWriteable => { s with pc := .visit 0 }

/-- A socket is open. -/
def openSocket (s : State) (w : Socket) : State := { s with sockets := w :: s.sockets }

@[simp] theorem openSocket_sockets (s : State) (w : Socket) :
    (s.openSocket w).sockets = w :: s.sockets := rfl

/-- A socket is not open any more. -/
def closeSocket (s : State) (w : Socket) : State :=
  { s with sockets := s.sockets.filter (· ≠ w) }

/-- The open sockets after an event of a socket, if the socket can have it. -/
def lwsService (s : State) (w : Socket) : Reason → Option State
  | .established => if w ∈ s.sockets then none else some (s.openSocket w)
  | .closed => if w ∈ s.sockets then some (s.closeSocket w) else none
  | _ => if w ∈ s.sockets then some s else none

/-- The place of the server thread after a sender. -/
def sent (due : Bool) (k : Nat) : Except State State → State
  | .ok s => { s with pc := .stamp k due }
  | .error s => { s with pc := .crashed }

/-- A thread is between the two sections of a write call. -/
def busy (s : State) (t : Tid) : Bool := s.pending.any (·.1 == t)

/-- The effect of a label; `none` if the thread cannot take this step now. -/
def fire (env : Env) (s : State) : Label → Option State
  | .addChannel topicName channelType targetHz al =>
    match s.registry.addChannel topicName channelType targetHz al with
    | none => some { s with pc := .crashed }
    | some (r, _) => some { s with registry := r }
  | .addRxChannel topicName channelType al =>
    some { s with registry := (s.registry.addRxChannel topicName channelType al).1 }
  | .write t k channelId d =>
    if s.busy t then none
    else
      match s.registry.write k channelId d with
      | none => some s
      | some (r, i) =>
        some { s with
          registry := r
          pending := (t, i, k) :: s.pending
          trace := .wrote i k d :: s.trace }
  | .swap t =>
    match s.pending.find? (·.1 == t) with
    | none => none
    | some (u, i, k) =>
      some { s with registry := s.registry.swap i k, pending := s.pending.erase (u, i, k) }
  | .callback w reason =>
    if s.pc = .idle then (s.lwsService w reason).map (·.websocketCallback env w reason) else none
  | .visit now =>
    match s.pc with
    | .visit k => some (s.visit k now)
    | _ => none
  | .readInfo =>
    match s.pc with
    | .readInfo k due none => some { s with pc := .encode k due none }
    | .readInfo k due (some job) => some (s.readInfo k due job)
    | _ => none
  | .encode nsec =>
    match s.pc with
    | .encode k due none => some { s with pc := .stamp k due }
    | .encode k due (some job) => some (sent due k (s.encode env k job nsec))
    | _ => none
  | .stamp now =>
    match s.pc with
    | .stamp k due => some { s.stamp k due now with pc := .visit (k + 1) }
    | _ => none

/-- A step of the program. -/
def step (env : Env) (s : State) (l : Label) : Option State :=
  if s.pc = .crashed then none else (s.log (.event l)).fire env l

end State

/-- The program. -/
def sys (env : Env) : Lts State Label := ⟨State.step env⟩

/-- The text of a subscribe message with one entry. -/
def subscribeText (id channelId : Int) : Bytes :=
  ascii "\x7b\"op\":\"subscribe\",\"subscriptions\":[\x7b\"id\":" ++ dumpInteger id ++
    ascii ",\"channelId\":" ++ dumpInteger channelId ++ ascii "\x7d]\x7d"

/-- The message of `subscribeText`. -/
def subscribeJson (id channelId : Int32) : Json :=
  ofMembers
    [("op", lit "subscribe"), ("subscriptions", .arr [ofMembers
      [("id", .int id.toInt), ("channelId", .int channelId.toInt)]])]

theorem parse_subscribeText (F : FloatLib) (id channelId : Int32) :
    parse F (subscribeText id.toInt channelId.toInt) = some (subscribeJson id channelId) := by
  have hentry := Denotes.object (F := F)
    [(ascii "id", dumpInteger id.toInt, .int id.toInt),
      (ascii "channelId", dumpInteger channelId.toInt, .int channelId.toInt)]
    (plain_keys rfl)
    (by
      simp only [List.forall_mem_cons, List.not_mem_nil, false_imp_iff, implies_true, and_true]
      exact ⟨denotes_int32 _, denotes_int32 _⟩)
  have hentries := Denotes.array (F := F) [(_, _)] (List.forall_mem_singleton.mpr hentry)
  have hmessage := Denotes.object (F := F)
    [(ascii "op", quoted (ascii "subscribe"), lit "subscribe"),
      (ascii "subscriptions", _, _)]
    (plain_keys rfl)
    (by
      simp only [List.forall_mem_cons, List.not_mem_nil, false_imp_iff, implies_true, and_true]
      exact ⟨.string (by decide), hentries⟩)
  refine (congrArg (parse F) ?_).trans hmessage.parse
  simp [subscribeText, objectText, arrayText, quoted, commaSeparated, List.intercalate, ascii]

/-- An entry with two integers in the range of `int` requests them. -/
theorem subscription_ints {F : FloatLib} {e : Json} {id channelId : Int32}
    (hid : e.at? "id" = some (.int id.toInt))
    (hchannel : e.at? "channelId" = some (.int channelId.toInt)) :
    subscription F e = some (id, channelId) := by
  simp only [subscription, hid, hchannel, getInt?, Option.bind_eq_bind, Option.bind_some,
    Int32.ofInt_toInt]
  rfl

/-- A subscribe message with one entry subscribes the channel that it names. -/
theorem handleMessage_subscribeJson (F : FloatLib) {channels : List Channel} {id channelId : Int32}
    {i : Nat} (hi : channels.findIdx? (fun ch => ch.channelId == channelId) = some i) :
    handleMessage F channels (subscribeJson id channelId) =
      channels.modify i (Channel.setSubscription id) := by
  have hentries : entries "subscribe" "subscriptions" (subscribeJson id channelId) = [ofMembers
      [("id", .int id.toInt), ("channelId", .int channelId.toInt)]] := rfl
  have hentry : subscription F (ofMembers
      [("id", .int id.toInt), ("channelId", .int channelId.toInt)]) = some (id, channelId) :=
    subscription_ints rfl rfl
  simp only [handleMessage, hentries, subscribeTarget, hentry, hi]

theorem receive_subscribeText (env : Env) {s : State} {id channelId : Int32} {i : Nat}
    (hi : s.registry.channels.findIdx? (fun ch => ch.channelId == channelId) = some i) :
    s.receive env (subscribeText id.toInt channelId.toInt) =
      .ok (s.setChannels (s.registry.channels.modify i (Channel.setSubscription id))) := by
  have hparse : parseMessage env.toFloatLib (subscribeText id.toInt channelId.toInt) =
      some (some (subscribeJson id channelId)) :=
    congrArg (Option.map some) (parse_subscribeText env.toFloatLib id channelId)
  simp only [State.receive, hparse, handleMessage_subscribeJson env.toFloatLib hi]

/-- An `Alloc` in which nothing fails, of zeroed memory. -/
def Alloc.zeroed : Alloc := ⟨some (.zero, .zero), some (.zero, .zero), true⟩

/-- The labels of a write call that nothing interrupts. -/
def writeCall (k : BufferKind) (channelId : Int32) (d : Bytes) : List Label :=
  [.write 0 k channelId d, .swap 0]

/-- The labels of one iteration of `foxdbg_protocol_transmit_subscriptions`. -/
def iteration (now nsec : UInt64) : List Label :=
  [.visit now, .readInfo, .encode nsec, .stamp now]

/-- A frame in a trace. -/
def Obs.isFrame : Obs → Bool
  | .frame .. => true
  | _ => false

end Foxdbg
