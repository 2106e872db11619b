import Foxdbg.Advertise
import Foxdbg.Messages
import Mathlib.Order.Bounds.Defs

/-!
# The ids of the channels

A channel's id is the value of a counter that is kept apart from the list. As long as the calls that
add channels keep the two together (`Numbered`), an id is a place in the list, and the walks that
look for an id, in `foxdbg_write_channel`, `foxdbg_protocol_receive` and `send_advertise`, agree on
the channel that it selects (`Selects`).

`addSys` is the registry under calls of `foxdbg_add_channel` and `foxdbg_add_rx_channel`, in any
order; a label is a call and the id that it returns.
-/

namespace Foxdbg

open Json

/-- One of the two lists: the transmitted channels, or the received ones. -/
inductive Side where
  | tx
  | rx
  deriving DecidableEq

namespace Registry

def list (r : Registry) : Side → List Channel
  | .tx => r.channels
  | .rx => r.rxChannels

def count (r : Registry) : Side → Nat
  | .tx => r.channelCount
  | .rx => r.rxChannelCount

/-- `foxdbg_get_channel`, or `foxdbg_get_rx_channel`. -/
def get (r : Registry) : Side → Bytes → Int32
  | .tx => r.getChannel
  | .rx => r.getRxChannel

/-- One more channel at the end of a list, counted. -/
def append (r : Registry) (side : Side) (ch : Channel) : Registry :=
  match side with
  | .tx => { r with channels := r.channels ++ [ch], channelCount := r.channelCount + 1 }
  | .rx => { r with rxChannels := r.rxChannels ++ [ch], rxChannelCount := r.rxChannelCount + 1 }

variable {r : Registry} {side other : Side} {ch : Channel}

@[simp] theorem list_append_self : (r.append side ch).list side = r.list side ++ [ch] := by
  cases side <;> rfl

@[simp] theorem count_append_self : (r.append side ch).count side = r.count side + 1 := by
  cases side <;> rfl

theorem list_append_ne (h : other ≠ side) : (r.append side ch).list other = r.list other := by
  cases side <;> cases other <;> first | rfl | exact absurd rfl h

theorem count_append_ne (h : other ≠ side) : (r.append side ch).count other = r.count other := by
  cases side <;> cases other <;> first | rfl | exact absurd rfl h

/-- The place of the channel with an id, if ids are places. -/
def place (r : Registry) (channelId : Int32) : Option Nat :=
  if 0 ≤ channelId.toInt ∧ channelId.toInt < r.channels.length then some channelId.toInt.toNat
  else none

end Registry

/-- A call that adds a channel. -/
inductive AddCall where
  | tx (topicName : Bytes) (channelType : Option ChannelType) (targetHz : Int32) (al : Alloc)
  | rx (topicName : Bytes) (channelType : Option ChannelType) (al : Alloc)

namespace AddCall

/-- The list that the call extends. -/
def side : AddCall → Side
  | .tx .. => .tx
  | .rx .. => .rx

def topicName : AddCall → Bytes
  | .tx topicName .. => topicName
  | .rx topicName .. => topicName

/-- The registry after the call, and the id it returns. -/
def run (r : Registry) : AddCall → Option (Registry × Int32)
  | .tx topicName channelType targetHz al => r.addChannel topicName channelType targetHz al
  | .rx topicName channelType al => some (r.addRxChannel topicName channelType al)

end AddCall

/-- The registry under the calls that add channels (module doc). -/
def addSys : Lts Registry (AddCall × Int32) where
  step r e := (e.1.run r).bind fun (r', id) => if id = e.2 then some r' else none

/-- A call fails: it returns -1, and nothing changes. Or it adds one channel at the end of its own
list, and returns the id of the channel, which is the length of the list before. -/
def AddOutcome (r : Registry) (e : AddCall × Int32) (r' : Registry) : Prop :=
  e.2 = -1 ∧ r' = r ∨
    ∃ ch, ch.Fresh ∧ ch.topicName = e.1.topicName ∧ ch.channelId = e.2 ∧
      e.2.toInt = (r.list e.1.side).length ∧ r' = r.append e.1.side ch

/-- The ids that the successful calls for a list returned, in their order. -/
def returned (side : Side) (es : List (AddCall × Int32)) : List Int32 :=
  (es.filter fun e => e.1.side == side && e.2 != -1).map (·.2)

/-- The counter of a list is its length, its ids are 0, 1, 2, ..., and the lookup of a topic gives
the least id of a channel with the topic, or -1 if there is none. -/
structure Consistent (r : Registry) (side : Side) : Prop where
  count : r.count side = (r.list side).length
  ids : (r.list side).map (·.channelId.toInt) = (List.range (r.list side).length).map Int.ofNat
  found : ∀ topicName, (∃ ch ∈ r.list side, ch.topicName = topicName) →
    IsLeast { id | ∃ ch ∈ r.list side, ch.topicName = topicName ∧ ch.channelId.toInt = id }
      (r.get side topicName).toInt
  missing : ∀ topicName,
    r.get side topicName = -1 ↔ ¬ ∃ ch ∈ r.list side, ch.topicName = topicName

/-- The walks agree on ids: a write, and a subscribe message with one entry, change the channel at
the place that the id is, and no other; and the advertise message lists the place of each channel as
its id. -/
structure Selects (r : Registry) : Prop where
  write : ∀ channelId d, r.writeChannel channelId d =
    (r.place channelId).map fun i => (r.modify i (Channel.mapData (·.writeSection d)), i)
  subscribe : ∀ (env : Env) (s : State) (d : Bytes) (e : Json) (id channelId : Int32),
    s.registry = r → ArrayMessage env.toFloatLib "subscribe" "subscriptions" d [e] →
    subscription env.toFloatLib e = some (id, channelId) →
    (State.settle (s.receive env d)).registry =
      match r.place channelId with
      | some i => r.modify i (Channel.setSubscription id)
      | none => r
  advertise : ∀ F, ∃ infos, channelInfos F r.channels = some infos ∧
    infos.length = r.channels.length ∧ ∀ (i : Nat) (ch : Channel) (info : Json),
      r.channels[i]? = some ch → infos[i]? = some info →
      info.find? "id" = some (.int i) ∧ info.find? "topic" = some (.str ch.topicName)

/-! ## The numbering -/

variable {r r' : Registry} {side : Side} {ch : Channel} {e : AddCall × Int32}

/-- The counter of a list is its length, and each channel's id is its place, as an `int`. -/
structure Numbered (r : Registry) (side : Side) : Prop where
  count : r.count side = (r.list side).length
  ids : ∀ i ch, (r.list side)[i]? = some ch → ch.channelId = Int32.ofNat i

namespace Numbered

theorem init (side : Side) : Numbered .init side := by
  cases side <;> exact ⟨rfl, nofun⟩

/-- A channel with the value of the counter as its id keeps the numbering. -/
theorem append {other : Side} (h : Numbered r side)
    (hid : ch.channelId = Int32.ofNat (r.count other)) : Numbered (r.append other ch) side := by
  by_cases hside : side = other
  · subst hside
    refine ⟨by simp [h.count], fun i ch' hi => ?_⟩
    rw [Registry.list_append_self, List.getElem?_append] at hi
    split at hi
    · exact h.ids i ch' hi
    · rename_i hge
      rw [List.getElem?_singleton] at hi
      split at hi
      · cases hi
        rw [hid, h.count]
        congr 1
        omega
      · cases hi
  · exact ⟨by rw [Registry.count_append_ne hside, Registry.list_append_ne hside, h.count],
      by rw [Registry.list_append_ne hside]; exact h.ids⟩

end Numbered

/-- A call fails, or it adds a channel with the value of the counter as its id. -/
theorem AddCall.run_cases {call : AddCall} {id : Int32} (h : call.run r = some (r', id)) :
    id = -1 ∧ r' = r ∨ ∃ ch, ch.Fresh ∧ ch.topicName = call.topicName ∧ ch.channelId = id ∧
      ch.channelId = Int32.ofNat (r.count call.side) ∧ r' = r.append call.side ch := by
  cases call with
  | tx n ty hz al =>
    rw [run, Registry.addChannel_eq_new] at h
    cases hnew : Registry.newChannel r.channelCount n ty hz al with
    | none =>
      rw [hnew] at h
      cases h
      exact .inl ⟨rfl, rfl⟩
    | some ch =>
      simp only [hnew, Option.ite_none_left_eq_some] at h
      obtain ⟨-, h⟩ := h
      cases h
      obtain ⟨hfresh, hid, htopic, -⟩ := Registry.newChannel_some hnew
      exact .inr ⟨ch, hfresh, htopic, rfl, hid, rfl⟩
  | rx n ty al =>
    rw [run, Registry.addRxChannel_eq_new] at h
    cases hnew : Registry.newRxChannel r.rxChannelCount n ty al with
    | none =>
      rw [hnew] at h
      cases h
      exact .inl ⟨rfl, rfl⟩
    | some ch =>
      rw [hnew] at h
      cases h
      obtain ⟨hfresh, hid, htopic, -⟩ := Registry.newRxChannel_some hnew
      exact .inr ⟨ch, hfresh, htopic, rfl, hid, rfl⟩

theorem addSys_step : addSys.step r e = some r' ↔ e.1.run r = some (r', e.2) := by
  simp only [addSys, Option.bind_eq_some_iff, Option.ite_none_right_eq_some, Option.some.injEq]
  constructor
  · rintro ⟨⟨r₁, id⟩, hrun, rfl, rfl⟩
    exact hrun
  · exact fun hrun => ⟨_, hrun, rfl, rfl⟩

theorem Numbered.step (h : addSys.step r e = some r') (hi : Numbered r side) :
    Numbered r' side := by
  obtain ⟨-, rfl⟩ | ⟨ch, -, -, -, hid, rfl⟩ := AddCall.run_cases (addSys_step.mp h)
  · exact hi
  · exact hi.append hid

/-- Both lists are shorter than `2 ^ 31`. -/
def Short (r : Registry) : Prop := ∀ side, (r.list side).length < 2 ^ 31

/-- The lists only grow. -/
theorem Short.back (h : addSys.step r e = some r') (hs : Short r') : Short r := by
  intro side
  obtain ⟨-, rfl⟩ | ⟨ch, -, -, -, -, rfl⟩ := AddCall.run_cases (addSys_step.mp h)
  · exact hs side
  · have hlen := hs side
    by_cases hside : side = e.1.side
    · subst hside
      rw [Registry.list_append_self, List.length_append] at hlen
      omega
    · rwa [Registry.list_append_ne hside] at hlen

theorem addOutcome_of_short (hs : Short r) (hi : ∀ side, Numbered r side)
    (h : addSys.step r e = some r') : AddOutcome r e r' := by
  obtain hfail | ⟨ch, hfresh, htopic, hret, hid, rfl⟩ := AddCall.run_cases (addSys_step.mp h)
  · exact .inl hfail
  · refine .inr ⟨ch, hfresh, htopic, hret, ?_, rfl⟩
    rw [← hret, hid, (hi e.1.side).count, Int32.toInt_ofNat_of_lt (hs e.1.side)]

/-- The ids that the calls so far returned, after one more call. -/
theorem returned_step {es : List (AddCall × Int32)} (h : AddOutcome r e r')
    (hi : (returned side es).map Int32.toInt = (List.range (r.list side).length).map Int.ofNat) :
    (returned side (es ++ [e])).map Int32.toInt =
      (List.range (r'.list side).length).map Int.ofNat := by
  unfold returned at hi ⊢
  rw [List.filter_append, List.map_append, List.map_append, hi]
  obtain ⟨hret, rfl⟩ | ⟨ch, -, -, -, hid, rfl⟩ := h
  · simp [hret]
  · have hne : e.2 ≠ -1 := by
      intro he
      rw [he] at hid
      exact absurd hid (by simp)
    by_cases hside : side = e.1.side
    · subst hside
      simp [hne, hid, List.range_succ]
    · simp [Ne.symm hside, Registry.list_append_ne hside]

/-! ## The walks -/

namespace Numbered

/-- In a short list, the ids are the places. -/
theorem toInt_channelId (h : Numbered r side) (hs : (r.list side).length < 2 ^ 31) {i : Nat}
    (hch : (r.list side)[i]? = some ch) : ch.channelId.toInt = i := by
  have hlt := (List.getElem?_eq_some_iff.mp hch).1
  rw [h.ids i ch hch, Int32.toInt_ofNat_of_lt (by omega)]

/-- The walk to a topic ends at the least id, or at the end of the list. -/
theorem consistent (h : Numbered r side) (hs : (r.list side).length < 2 ^ 31) :
    Consistent r side := by
  have hget : ∀ topicName, r.get side topicName =
      (((r.list side).find? fun ch => ch.topicName == topicName).map (·.channelId)).getD (-1) := by
    cases side <;> intro _ <;> rfl
  refine ⟨h.count, ?_, ?_, ?_⟩
  · refine List.ext_getElem (by simp) fun i h₁ h₂ => ?_
    simp only [List.getElem_map, List.getElem_range]
    exact h.toInt_channelId hs (List.getElem?_eq_getElem (by simpa using h₁))
  · rintro topicName ⟨ch, hmem, htopic⟩
    obtain ⟨first, hfirst⟩ : ∃ first,
        (r.list side).find? (fun ch => ch.topicName == topicName) = some first := by
      rw [← Option.isSome_iff_exists, List.find?_isSome]
      exact ⟨ch, hmem, beq_iff_eq.mpr htopic⟩
    obtain ⟨hp, i, hi, rfl, hbefore⟩ := List.find?_eq_some_iff_getElem.mp hfirst
    have hid := h.toInt_channelId hs (List.getElem?_eq_getElem hi)
    rw [hget, hfirst, Option.map_some, Option.getD_some]
    refine ⟨⟨_, List.getElem_mem hi, eq_of_beq hp, rfl⟩, ?_⟩
    rintro id ⟨ch', hmem', htopic', rfl⟩
    obtain ⟨j, hj, rfl⟩ := List.getElem_of_mem hmem'
    rw [hid, h.toInt_channelId hs (List.getElem?_eq_getElem hj)]
    by_contra hlt
    have hne := hbefore j (by omega)
    rw [htopic', beq_self_eq_true] at hne
    cases hne
  · intro topicName
    rw [hget]
    constructor
    · rintro hneg ⟨ch, hmem, htopic⟩
      cases hfind : (r.list side).find? fun ch => ch.topicName == topicName with
      | none => exact List.find?_eq_none.mp hfind ch hmem (beq_iff_eq.mpr htopic)
      | some first =>
        obtain ⟨i, hi, rfl⟩ := List.getElem_of_mem (List.mem_of_find?_eq_some hfind)
        have hid := h.toInt_channelId hs (List.getElem?_eq_getElem hi)
        rw [hfind, Option.map_some, Option.getD_some] at hneg
        rw [hneg] at hid
        exact absurd hid (by simp)
    · intro hnone
      have hfind : (r.list side).find? (fun ch => ch.topicName == topicName) = none :=
        List.find?_eq_none.mpr fun ch hmem htopic => hnone ⟨ch, hmem, eq_of_beq htopic⟩
      rw [hfind]
      rfl

/-- The walk to an id ends at the place that the id is. -/
theorem findData_eq_place (h : Numbered r .tx) (hs : r.channels.length < 2 ^ 31)
    (channelId : Int32) : r.findData channelId = r.place channelId := by
  unfold Registry.findData Registry.place
  split
  · rename_i hrange
    have hlt : channelId.toInt.toNat < r.channels.length := by omega
    refine List.findIdx?_eq_some_iff_getElem.mpr ⟨hlt, ?_, fun j hj hjid => ?_⟩
    · have hid := h.toInt_channelId hs (List.getElem?_eq_getElem hlt)
      exact beq_iff_eq.mpr (Int32.toInt_inj.mp (by omega))
    · have hjlt : j < r.channels.length := by omega
      have hid := h.toInt_channelId hs (List.getElem?_eq_getElem hjlt)
      have he : r.channels[j].channelId = channelId := eq_of_beq hjid
      rw [he] at hid
      omega
  · rename_i hrange
    refine List.findIdx?_eq_none_iff.mpr fun ch hmem => beq_false_of_ne ?_
    rintro rfl
    obtain ⟨i, hi, rfl⟩ := List.getElem_of_mem hmem
    have hid := h.toInt_channelId hs (List.getElem?_eq_getElem hi)
    exact hrange ⟨by rw [hid]; omega, by rw [hid]; omega⟩

end Numbered

/-- A subscribe message with one entry changes the channel that the walk to its id finds. -/
theorem registry_after_subscribe {env : Env} {s : State} {d : Bytes} {entry : Json}
    {id channelId : Int32}
    (h : ArrayMessage env.toFloatLib "subscribe" "subscriptions" d [entry])
    (hsub : subscription env.toFloatLib entry = some (id, channelId)) :
    (State.settle (s.receive env d)).registry =
      match s.registry.findData channelId with
      | some i => s.registry.modify i (Channel.setSubscription id)
      | none => s.registry := by
  obtain ⟨j, hj, hentries, hother⟩ := h.entries
  have hunsub := hother "unsubscribe" "subscriptionIds" (by decide)
  rw [received_message hj]
  show { s.registry with channels := handleMessage env.toFloatLib s.registry.channels j } = _
  unfold handleMessage Registry.findData
  simp only [hentries, hunsub, subscribeTarget, unsubscribeTarget, hsub]
  cases s.registry.channels.findIdx? fun ch => ch.channelId == channelId <;> rfl

/-- In a short list that is numbered, an id selects one channel in all walks. -/
theorem Numbered.selects (h : Numbered r .tx) (hs : r.channels.length < 2 ^ 31) : Selects r where
  write channelId d := by rw [Registry.writeChannel, h.findData_eq_place hs]
  subscribe env s d e id channelId hr hmessage hsub := by
    subst hr
    rw [registry_after_subscribe hmessage hsub, h.findData_eq_place hs]
  advertise F := by
    obtain ⟨infos, hinfos⟩ := exists_infos F r.channels
    refine ⟨infos, hinfos.eq_some, hinfos.each.length_eq.symm, fun i ch info hch hinfo => ?_⟩
    obtain ⟨info', hinfo', schema, -, rfl⟩ := hinfos.each.getElem? hch
    cases hinfo.symm.trans hinfo'
    rw [← h.toInt_channelId hs hch]
    exact ⟨rfl, rfl⟩

/-- **Agreement on ids.** In every sequence of calls that leaves both lists shorter than `2 ^ 31`,
each call fails with -1 or adds the channel whose id it returns; the ids that the successful calls
for a list return are 0, 1, 2, ..., as are the ids in the list; and every walk agrees on the channel
that an id selects. -/
theorem ids_agree {es : List (AddCall × Int32)} (hr : addSys.Reach .init es r)
    (hs : ∀ side, (r.list side).length < 2 ^ 31) :
    addSys.Run AddOutcome .init es r ∧
    (∀ side, (returned side es).map Int32.toInt =
      (List.range (r.list side).length).map Int.ofNat) ∧
    (∀ side, Consistent r side) ∧ Selects r := by
  have hnum : ∀ side, Numbered r side := fun side =>
    hr.inv (I := fun r => Numbered r side) (fun _ _ _ h _ hi => hi.step h) (.init side)
  obtain ⟨-, hshort⟩ := hr.back (B := Short) (fun _ _ _ h hs => hs.back h) hs
  have hrun : addSys.Run AddOutcome .init es r := hshort.strengthen
    (I := fun r => ∀ side, Numbered r side)
    (fun _ _ _ h hq hi => ⟨fun side => (hi side).step h, addOutcome_of_short (hq.2.back h) hi h⟩)
    .init
  refine ⟨hrun, fun side => ?_, fun side => (hnum side).consistent (hs side),
    (hnum .tx).selects (hs .tx)⟩
  exact hrun.history (by cases side <;> rfl)
    (I := fun es r => (returned side es).map Int32.toInt =
      (List.range (r.list side).length).map Int.ofNat)
    fun _ _ _ _ _ _ hq hi => returned_step hq hi

/-- Two channels with one topic and a received one, and a call with an invalid type. -/
def addsRun : List (AddCall × Int32) :=
  [(.tx (ascii "a") (some .boolean) 10 .zeroed, 0), (.rx (ascii "a") (some .float) .zeroed, 0),
    (.tx (ascii "b") none 10 .zeroed, -1), (.tx (ascii "a") (some .image) 10 .zeroed, 1)]

theorem adds_agree : ∃ r, addSys.Reach .init addsRun r ∧ r.channels.length = 2 ∧
    addSys.Run AddOutcome .init addsRun r ∧ r.getChannel (ascii "a") = 0 ∧ Selects r := by
  obtain ⟨r, hr, h⟩ := Lts.exists_reach (L := addSys) (s := .init) addsRun
    (p := fun r => r.channels.length == 2 && r.rxChannels.length == 1 &&
      r.getChannel (ascii "a") == 0) (by decide +kernel)
  simp only [Bool.and_eq_true, beq_iff_eq] at h
  obtain ⟨⟨htx, hrx⟩, hget⟩ := h
  have hs : ∀ side, (r.list side).length < 2 ^ 31 := by
    rintro (_ | _)
    · exact lt_of_eq_of_lt htx (by decide)
    · exact lt_of_eq_of_lt hrx (by decide)
  obtain ⟨hrun, -, -, hselects⟩ := ids_agree hr hs
  exact ⟨r, hr, htx, hrun, hget, hselects⟩

/-! ## The registry in a run of the program -/

/-- What a step of the program does to the registry: a call adds a channel with the value of the
counter as its id; the other steps leave the counters, what the channels keep and the received
channels alone. -/
inductive RegistryStep (r r' : Registry) : Prop
  | added (side : Side) (ch : Channel) (hid : ch.channelId = Int32.ofNat (r.count side))
      (happend : r' = r.append side ch)
  | kept (hcount : ∀ side, r'.count side = r.count side)
      (hstatic : r'.channels.map Channel.static = r.channels.map Channel.static)
      (hrx : r'.rxChannels = r.rxChannels)

theorem opened_count (s : State) (w : Socket) (side : Side) :
    (s.opened w).registry.count side = s.registry.count side := by
  unfold State.opened
  cases s.client <;> cases side <;> rfl

theorem registry_step {env : Env} {s t : State} {l : Label} (h : s.step env l = some t) :
    RegistryStep s.registry t.registry := by
  have hf := (State.step_eq_some.mp h).2
  have hout := (State.fire_outcome hf).channels
  cases l with
  | addChannel n ty hz al =>
    simp only [State.fire] at hf
    split at hf
    · cases hf
      exact .kept (fun _ => rfl) rfl rfl
    · rename_i r id hr
      cases hf
      obtain rfl | ⟨ch, -, hid, rfl⟩ := Registry.addChannel_some hr
      · exact .kept (fun _ => rfl) rfl rfl
      · exact .added .tx ch hid rfl
  | addRxChannel n ty al =>
    cases hf
    rw [Registry.addRxChannel_eq_new]
    cases hnew : Registry.newRxChannel s.registry.rxChannelCount n ty al with
    | none =>
      rw [show Registry.newRxChannel (s.log _).registry.rxChannelCount n ty al = none from hnew]
      exact .kept (fun _ => rfl) rfl rfl
    | some ch =>
      rw [show Registry.newRxChannel (s.log _).registry.rxChannelCount n ty al = some ch from hnew]
      exact .added .rx ch (Registry.newRxChannel_some hnew).2.1 rfl
  | write u k c d =>
    obtain ⟨-, hw⟩ := State.fire_write.mp hf
    split at hw <;> subst hw
    · exact .kept (fun _ => rfl) rfl rfl
    · exact .kept (fun side => by cases side <;> rfl) (hout.static_eq (by rintro _ _ _ _ ⟨⟩)) rfl
  | swap u =>
    obtain ⟨u₁, i, k, -, rfl⟩ := State.fire_swap.mp hf
    exact .kept (fun side => by cases side <;> rfl) (hout.static_eq (by rintro _ _ _ _ ⟨⟩)) rfl
  | callback w reason =>
    have hstatic := hout.static_eq (by rintro _ _ _ _ ⟨⟩)
    cases reason with
    | established =>
      obtain ⟨-, -, rfl⟩ := State.fire_established.mp hf
      obtain ⟨tx, obs, pc, he, -, -⟩ := State.established_eq env
        ((s.log (.event (.callback w .established))).openSocket w) w
      rw [he] at hstatic ⊢
      exact .kept (opened_count _ w) hstatic (State.opened_rxChannels _ w)
    | receive d =>
      obtain ⟨-, -, rfl⟩ := State.fire_receive.mp hf
      obtain ⟨cs, pc, he, -, -⟩ := State.received_eq env
        (s.log (.event (.callback w (.receive d)))) d
      rw [he] at hstatic ⊢
      exact .kept (fun side => by cases side <;> rfl) hstatic rfl
    | closed =>
      obtain ⟨-, -, rfl⟩ := State.fire_closed.mp hf
      exact .kept (fun side => by cases side <;> rfl) hstatic rfl
    | serverWriteable =>
      obtain ⟨-, -, rfl⟩ := State.fire_serverWriteable.mp hf
      exact .kept (fun _ => rfl) rfl rfl
  | visit now =>
    obtain ⟨k, -, rfl⟩ := State.fire_visit.mp hf
    obtain ⟨-, hv⟩ | ⟨ch, -, hv | ⟨-, -, -, hv⟩⟩ :=
      State.visit_cases (s.log (.event (.visit now))) k now <;> rw [hv]
    all_goals exact .kept (fun _ => rfl) rfl rfl
  | readInfo =>
    obtain ⟨k, due, -, rfl⟩ | ⟨k, due, job, -, rfl⟩ := State.fire_readInfo.mp hf
    · exact .kept (fun _ => rfl) rfl rfl
    · obtain hv | hv | ⟨ch, -, ⟨-, hv⟩ | ⟨-, info, -, -, hv⟩⟩ :=
        State.readInfo_cases (s.log (.event .readInfo)) k due job <;> rw [hv]
      all_goals exact .kept (fun _ => rfl) rfl rfl
  | encode nsec =>
    obtain ⟨k, due, -, rfl⟩ | ⟨k, due, job, -, rfl⟩ := State.fire_encode.mp hf
    · exact .kept (fun _ => rfl) rfl rfl
    · obtain he | he | ⟨ch, e, tx, -, -, he⟩ :=
        State.encode_cases env (s.log (.event (.encode nsec))) k job nsec <;> rw [he]
      all_goals exact .kept (fun _ => rfl) rfl rfl
  | stamp now =>
    have hstatic := hout.static_eq (by rintro _ _ _ _ ⟨⟩)
    obtain ⟨k, due, -, rfl⟩ := State.fire_stamp.mp hf
    revert hstatic
    unfold State.stamp
    split
    · exact fun hstatic => .kept (fun side => by cases side <;> rfl) hstatic rfl
    · exact fun hstatic => .kept (fun _ => rfl) rfl rfl

theorem Numbered.registry_step (h : RegistryStep r r') (hi : Numbered r .tx) :
    Numbered r' .tx := by
  cases h with
  | added other ch hid happend =>
    subst happend
    exact hi.append hid
  | kept hcount hstatic _ =>
    have hlength : r'.channels.length = r.channels.length := by
      simpa using congrArg List.length hstatic
    refine ⟨(hcount .tx).trans (hi.count.trans hlength.symm), fun i ch hch => ?_⟩
    have hi' : (r.channels.map Channel.static)[i]? = some ch.static := by
      rw [← hstatic, List.getElem?_map, show r'.channels[i]? = some ch from hch]
      rfl
    rw [List.getElem?_map] at hi'
    obtain ⟨ch', hch', heq⟩ := Option.map_eq_some_iff.mp hi'
    exact (static_eq heq).1.symm.trans (hi.ids i ch' hch')

/-- In a run of the program, the ids of the transmitted channels are their places. -/
theorem numbered_run {env : Env} {Q : State → Label → State → Prop} {es : List Label} {s : State}
    (hr : (sys env).Run Q .init es s) : Numbered s.registry .tx :=
  hr.inv (I := fun s => Numbered s.registry .tx)
    (fun _ _ _ h _ hi => hi.registry_step (registry_step h)) (.init .tx)

end Foxdbg
