import Foxdbg.Buffer
import Mathlib.Data.List.Basic

/-!
# Channels and their registry (`foxdbg_channel.h`, `foxdbg.c`)

The registry has the transmitted channels and the received ones, each a linked list that
`foxdbg_add_channel` (`foxdbg_add_rx_channel`) extends at its end, with a counter that gives the
next channel its id. A walk over a list that stops at the first match is `findIdx?`.

`writeChannel` and `writeChannelInfo` are the calls up to the end of their first locked section: the
lookup, `begin_write`, the copy and the store of the populated size. `swap` is the second section.
-/

namespace Foxdbg

/-- `foxdbg_channel_type_t`. A value outside the enumeration is `none` of `Option ChannelType`. -/
inductive ChannelType where
  | image
  | pointcloud
  | cubes
  | lines
  | pose
  | transform
  | location
  | float
  | integer
  | boolean
  deriving DecidableEq

/-! ## Sizes of the structs and buffers -/

def largeBufferSize : Nat := 10 * 1024 * 1024
def sizeofVector4 : Nat := 16
def sizeofPose : Nat := 40
def sizeofCube : Nat := 52
def sizeofTransform : Nat := 40
def sizeofLine : Nat := 44
def sizeofLocation : Nat := 32
def sizeofFloat : Nat := 4
def sizeofInt : Nat := 4
def sizeofBool : Nat := 1
def sizeofImageInfo : Nat := 12

namespace ChannelType

/-- The capacity of the data buffer of a channel. -/
def payloadSize : ChannelType → Nat
  | .image | .pointcloud | .cubes | .lines => largeBufferSize
  | .pose => sizeofPose
  | .transform => sizeofTransform
  | .location => sizeofLocation
  | .float => sizeofFloat
  | .integer => sizeofInt
  | .boolean => sizeofBool

/-- The capacity of the info buffer, 0 for a type that has none. -/
def infoSize : ChannelType → Nat
  | .image => sizeofImageInfo
  | _ => 0

/-- The types that `foxdbg_add_rx_channel` accepts. -/
def isRx : ChannelType → Bool
  | .float | .integer | .boolean => true
  | _ => false

end ChannelType

/-- `foxdbg_channel_t`. -/
structure Channel where
  topicName : Bytes
  targetTxTime : UInt64
  lastTxTime : UInt64
  channelId : Int32
  subscriptionId : Int32
  channelType : ChannelType
  dataBuffer : Buffer
  infoBuffer : Option Buffer

namespace Channel

/-- The gate of `foxdbg_protocol_transmit_subscriptions`: any id from 0 on is a subscription. -/
def Subscribed (ch : Channel) : Prop := 0 ≤ ch.subscriptionId

instance (ch : Channel) : Decidable ch.Subscribed := inferInstanceAs (Decidable (_ ≤ _))

/-- `ATOMIC_WRITE_INT(&channel->subscription_id, id)`. -/
def setSubscription (id : Int32) (ch : Channel) : Channel := { ch with subscriptionId := id }

end Channel

/-- What `malloc` gives to one call of `foxdbg_add_channel`: the memory of each buffer (`none`: an
allocation or a mutex fails), and if the channel itself could be allocated. -/
structure Alloc where
  data : Option (Mem × Mem)
  info : Option (Mem × Mem)
  channel : Bool

structure Registry where
  channels : List Channel
  channelCount : Nat
  rxChannels : List Channel
  rxChannelCount : Nat

/-- Which buffer of a channel. -/
inductive BufferKind where
  | data
  | info
  deriving DecidableEq

namespace Registry

/-- `foxdbg_init`. -/
def init : Registry := ⟨[], 0, [], 0⟩

/-- `target_tx_time`: an `int` division that rounds towards 0, and a conversion to `uint64_t`. -/
def targetTxTime (targetHz : Int32) : UInt64 := (1000 / targetHz).toInt64.toUInt64

/-- `foxdbg_add_channel`: the registry after the call and the id it returns, -1 for a failure. A
division by `target_hz = 0` traps (`none`). -/
def addChannel (r : Registry) (topicName : Bytes) (channelType : Option ChannelType)
    (targetHz : Int32) (al : Alloc) : Option (Registry × Int32) :=
  match channelType with
  | none => some (r, -1)
  | some type =>
    match Buffer.alloc type.payloadSize al.data with
    | none => some (r, -1)
    | some dataBuffer =>
      let infoBuffer := if 0 < type.infoSize then Buffer.alloc type.infoSize al.info else none
      if 0 < type.infoSize ∧ infoBuffer.isNone then some (r, -1)
      else if !al.channel then some (r, -1)
      else if targetHz = 0 then none
      else
        let channelId := Int32.ofNat r.channelCount
        let newChannel : Channel :=
          { topicName, targetTxTime := targetTxTime targetHz, lastTxTime := 0, channelId,
            subscriptionId := -1, channelType := type, dataBuffer, infoBuffer }
        some ({ r with channels := r.channels ++ [newChannel],
                       channelCount := r.channelCount + 1 }, channelId)

/-- `foxdbg_add_rx_channel`. -/
def addRxChannel (r : Registry) (topicName : Bytes) (channelType : Option ChannelType)
    (al : Alloc) : Registry × Int32 :=
  match channelType with
  | none => (r, -1)
  | some type =>
    if !type.isRx then (r, -1)
    else
      match Buffer.alloc type.payloadSize al.data with
      | none => (r, -1)
      | some dataBuffer =>
        if !al.channel then (r, -1)
        else
          let channelId := Int32.ofNat r.rxChannelCount
          let newChannel : Channel :=
            { topicName, targetTxTime := 0, lastTxTime := 0, channelId, subscriptionId := -1,
              channelType := type, dataBuffer, infoBuffer := none }
          ({ r with rxChannels := r.rxChannels ++ [newChannel],
                    rxChannelCount := r.rxChannelCount + 1 }, channelId)

/-- The walk over a list to the first channel with a topic: its id, or -1. -/
def idOfTopic (cs : List Channel) (topicName : Bytes) : Int32 :=
  ((cs.find? fun ch => ch.topicName == topicName).map (·.channelId)).getD (-1)

/-- `foxdbg_get_channel`. -/
def getChannel (r : Registry) (topicName : Bytes) : Int32 := idOfTopic r.channels topicName

/-- `foxdbg_get_rx_channel`. -/
def getRxChannel (r : Registry) (topicName : Bytes) : Int32 := idOfTopic r.rxChannels topicName

/-- The channel at a place in the list, changed by `f`. -/
def modify (r : Registry) (i : Nat) (f : Channel → Channel) : Registry :=
  { r with channels := r.channels.modify i f }

end Registry

/-- The locked write section of `foxdbg_write_channel`: a payload that does not fit populates the
back with size 0. -/
def Buffer.writeSection (buf : Buffer) (d : Bytes) : Buffer :=
  let (data, size) := buf.beginWrite
  if d.length ≤ size then (buf.memcpy data d).populate d.length else buf.populate 0

/-- The locked write section of `foxdbg_write_channel_info`: a payload that does not fit is not
copied, and its size is populated all the same. -/
def Buffer.writeInfoSection (buf : Buffer) (d : Bytes) : Buffer :=
  let (data, size) := buf.beginWrite
  (if d.length ≤ size then buf.memcpy data d else buf).populate d.length

namespace Channel

def mapData (f : Buffer → Buffer) (ch : Channel) : Channel :=
  { ch with dataBuffer := f ch.dataBuffer }

def mapInfo (f : Buffer → Buffer) (ch : Channel) : Channel :=
  { ch with infoBuffer := ch.infoBuffer.map f }

/-- A buffer of a channel, changed by `f`. -/
def mapBuffer (k : BufferKind) (f : Buffer → Buffer) : Channel → Channel :=
  match k with
  | .data => mapData f
  | .info => mapInfo f

/-- A buffer of a channel. -/
def buffer? (ch : Channel) : BufferKind → Option Buffer
  | .data => some ch.dataBuffer
  | .info => ch.infoBuffer

end Channel

namespace Registry

/-- The channel that `foxdbg_write_channel` writes to. -/
def findData (r : Registry) (channelId : Int32) : Option Nat :=
  r.channels.findIdx? fun ch => ch.channelId == channelId

/-- The channel that `foxdbg_write_channel_info` writes to. -/
def findInfo (r : Registry) (channelId : Int32) : Option Nat :=
  r.channels.findIdx? fun ch => ch.channelId == channelId && ch.infoBuffer.isSome

/-- `foxdbg_write_channel` up to the end of its write section, and the place of the channel that
it writes to (`none`: no channel has the id, and the call does nothing). -/
def writeChannel (r : Registry) (channelId : Int32) (d : Bytes) : Option (Registry × Nat) :=
  (r.findData channelId).map fun i => (r.modify i (Channel.mapData (·.writeSection d)), i)

/-- `foxdbg_write_channel_info` up to the end of its write section. -/
def writeChannelInfo (r : Registry) (channelId : Int32) (d : Bytes) : Option (Registry × Nat) :=
  (r.findInfo channelId).map fun i => (r.modify i (Channel.mapInfo (·.writeInfoSection d)), i)

/-- The first section of a write call on the data or the info buffer. -/
def write (r : Registry) : BufferKind → Int32 → Bytes → Option (Registry × Nat)
  | .data => r.writeChannel
  | .info => r.writeChannelInfo

/-- The swap section of a call. -/
def swap (r : Registry) (i : Nat) (k : BufferKind) : Registry :=
  r.modify i (Channel.mapBuffer k Buffer.swapBuffers)

end Registry

/-! ## What the calls change -/

/-- The write section of a call on the data or the info buffer. -/
def BufferKind.section : BufferKind → Bytes → Buffer → Buffer
  | .data, d, buf => buf.writeSection d
  | .info, d, buf => buf.writeInfoSection d

section Sections

variable {k : BufferKind} {buf : Buffer} {d : Bytes} {slot : Slot}

@[simp] theorem section_bufferSize (k : BufferKind) (d : Bytes) (buf : Buffer) :
    (k.section d buf).bufferSize = buf.bufferSize := by
  by_cases h : d.length ≤ buf.bufferSize <;> cases k <;>
    simp [BufferKind.section, Buffer.writeSection, Buffer.writeInfoSection, Buffer.beginWrite,
      Buffer.populate, h]

theorem section_of_fits (h : d.length ≤ buf.bufferSize) :
    k.section d buf = (buf.memcpy buf.backBuffer d).populate d.length := by
  cases k <;> simp only [BufferKind.section, Buffer.writeSection, Buffer.writeInfoSection,
    Buffer.beginWrite, h, if_true]

theorem dataSection_of_not_fits (h : ¬ d.length ≤ buf.bufferSize) :
    BufferKind.data.section d buf = buf.populate 0 := by
  simp only [BufferKind.section, Buffer.writeSection, Buffer.beginWrite, h, if_false]

theorem infoSection_of_not_fits (h : ¬ d.length ≤ buf.bufferSize) :
    BufferKind.info.section d buf = buf.populate d.length := by
  simp only [BufferKind.section, Buffer.writeInfoSection, Buffer.beginWrite, h, if_false]

/-- A write section with a payload that fits fills the back. -/
theorem view_section (h : d.length ≤ buf.bufferSize) :
    (k.section d buf).view = buf.view.fill d := by
  rw [section_of_fits h]
  exact Buffer.view_fill buf d

/-- Without a payload that fits, a data section fills the back with nothing. -/
theorem view_dataSection (h : ¬ d.length ≤ buf.bufferSize) :
    (BufferKind.data.section d buf).view = buf.view.fill [] := by
  rw [dataSection_of_not_fits h]
  simp only [Buffer.view, Buffer.contents_populate]
  rfl

/-- A data section with a payload that fits changes the back allocation only. -/
theorem contents_section (h : slot ≠ buf.backBuffer ∨ ¬ d.length ≤ buf.bufferSize) :
    (BufferKind.data.section d buf).contents slot = buf.contents slot := by
  by_cases hd : d.length ≤ buf.bufferSize
  · rw [section_of_fits hd, Buffer.contents_populate,
      Buffer.contents_memcpy_ne (h.resolve_right (not_not_intro hd))]
  · rw [dataSection_of_not_fits hd, Buffer.contents_populate]

theorem contents_section_back (h : d.length ≤ buf.bufferSize) :
    (k.section d buf).contents buf.backBuffer = (buf.contents buf.backBuffer).copy 0 d := by
  rw [section_of_fits h, Buffer.contents_populate, Buffer.contents_memcpy_self]

end Sections

namespace Channel

/-- A channel as `foxdbg_add_channel` makes it: nothing is populated, and no one subscribed. -/
structure Fresh (ch : Channel) : Prop where
  subscriptionId : ch.subscriptionId = -1
  empty : ∀ k buf, ch.buffer? k = some buf → buf.frontBufferSize = 0 ∧ buf.backBufferSize = 0

variable {ch : Channel} {k j : BufferKind} {f : Buffer → Buffer}

@[simp] theorem mapBuffer_channelId : (ch.mapBuffer k f).channelId = ch.channelId := by
  cases k <;> rfl

@[simp] theorem mapBuffer_subscriptionId :
    (ch.mapBuffer k f).subscriptionId = ch.subscriptionId := by
  cases k <;> rfl

@[simp] theorem mapBuffer_channelType : (ch.mapBuffer k f).channelType = ch.channelType := by
  cases k <;> rfl

@[simp] theorem mapBuffer_topicName : (ch.mapBuffer k f).topicName = ch.topicName := by
  cases k <;> rfl

theorem buffer?_mapBuffer_self : (ch.mapBuffer k f).buffer? k = (ch.buffer? k).map f := by
  cases k <;> rfl

theorem buffer?_mapBuffer_ne (h : j ≠ k) : (ch.mapBuffer k f).buffer? j = ch.buffer? j := by
  cases j <;> cases k <;> first | rfl | exact absurd rfl h

@[simp] theorem buffer?_setSubscription (id : Int32) :
    (ch.setSubscription id).buffer? k = ch.buffer? k := by
  cases k <;> rfl

end Channel

namespace Registry

variable {r r' : Registry}

/-- The channel that a call with this id writes to. -/
def find (r : Registry) : BufferKind → Int32 → Option Nat
  | .data => r.findData
  | .info => r.findInfo

/-- A write section changes one buffer of the channel that it finds. -/
theorem write_eq (r : Registry) (k : BufferKind) (channelId : Int32) (d : Bytes) :
    r.write k channelId d =
      (r.find k channelId).map fun i => (r.modify i (Channel.mapBuffer k (k.section d)), i) := by
  cases k <;> rfl

/-- The walk of a call: to the first channel that has the id, and the buffer. -/
theorem find_eq_findIdx? (r : Registry) (k : BufferKind) (channelId : Int32) :
    r.find k channelId =
      r.channels.findIdx? fun ch => ch.channelId == channelId && (ch.buffer? k).isSome := by
  cases k with
  | data => simp [find, findData, Channel.buffer?]
  | info => rfl

/-- A call finds a channel with its id, and a buffer. -/
theorem find_some {k : BufferKind} {channelId : Int32} {i : Nat}
    (h : r.find k channelId = some i) : ∃ ch buf, r.channels[i]? = some ch ∧
      ch.channelId = channelId ∧ ch.buffer? k = some buf := by
  rw [find_eq_findIdx?] at h
  obtain ⟨hi, hp, -⟩ := List.findIdx?_eq_some_iff_getElem.mp h
  obtain ⟨hid, hbuf⟩ := Bool.and_eq_true_iff.mp hp
  obtain ⟨buf, hbuf⟩ := Option.isSome_iff_exists.mp hbuf
  exact ⟨_, buf, List.getElem?_eq_getElem hi, eq_of_beq hid, hbuf⟩

theorem channelId_of_find {k : BufferKind} {channelId : Int32} {i : Nat} {ch : Channel}
    (h : r.find k channelId = some i) (hch : r.channels[i]? = some ch) :
    ch.channelId = channelId := by
  obtain ⟨ch', -, hch', hid, -⟩ := find_some h
  cases hch.symm.trans hch'
  exact hid

/-! ## What an add does -/

/-- The info buffer of a new channel, if the type has one; outer `none`: the allocation fails. -/
def newInfoBuffer (type : ChannelType) (al : Alloc) : Option (Option Buffer) :=
  if 0 < type.infoSize then (Buffer.alloc type.infoSize al.info).map some else some none

/-- The channel that `foxdbg_add_channel` makes as the one with number `n`, if nothing fails. -/
def newChannel (n : Nat) (topicName : Bytes) (channelType : Option ChannelType) (targetHz : Int32)
    (al : Alloc) : Option Channel := do
  let type ← channelType
  let dataBuffer ← Buffer.alloc type.payloadSize al.data
  let infoBuffer ← newInfoBuffer type al
  if al.channel then
    some ⟨topicName, targetTxTime targetHz, 0, Int32.ofNat n, -1, type, dataBuffer, infoBuffer⟩
  else none

/-- The channel that `foxdbg_add_rx_channel` makes as the one with number `n`, if nothing fails. -/
def newRxChannel (n : Nat) (topicName : Bytes) (channelType : Option ChannelType) (al : Alloc) :
    Option Channel := do
  let type ← channelType
  if type.isRx && al.channel then
    (Buffer.alloc type.payloadSize al.data).map fun dataBuffer =>
      ⟨topicName, 0, 0, Int32.ofNat n, -1, type, dataBuffer, none⟩
  else none

variable {topicName : Bytes} {channelType : Option ChannelType} {targetHz id : Int32} {al : Alloc}
  {n : Nat} {ch : Channel}

/-- `foxdbg_add_channel` fails, or it adds a new channel at the end and returns its id. -/
theorem addChannel_eq_new (r : Registry) (topicName : Bytes) (channelType : Option ChannelType)
    (targetHz : Int32) (al : Alloc) : r.addChannel topicName channelType targetHz al =
      match newChannel r.channelCount topicName channelType targetHz al with
      | none => some (r, -1)
      | some ch => if targetHz = 0 then none else
        some ({ r with channels := r.channels ++ [ch], channelCount := r.channelCount + 1 },
          ch.channelId) := by
  unfold addChannel newChannel newInfoBuffer
  cases channelType with
  | none => rfl
  | some type =>
    dsimp only [Option.bind_eq_bind, Option.bind_some]
    cases Buffer.alloc type.payloadSize al.data with
    | none => rfl
    | some data =>
      dsimp only [Option.bind_some]
      by_cases hinfo : 0 < type.infoSize
      · cases Buffer.alloc type.infoSize al.info <;> cases al.channel <;> simp [hinfo]
      · cases al.channel <;> simp [hinfo]

/-- `foxdbg_add_rx_channel` fails, or it adds a new channel at the end and returns its id. -/
theorem addRxChannel_eq_new (r : Registry) (topicName : Bytes) (channelType : Option ChannelType)
    (al : Alloc) : r.addRxChannel topicName channelType al =
      match newRxChannel r.rxChannelCount topicName channelType al with
      | none => (r, -1)
      | some ch =>
        ({ r with rxChannels := r.rxChannels ++ [ch], rxChannelCount := r.rxChannelCount + 1 },
          ch.channelId) := by
  unfold addRxChannel newRxChannel
  cases channelType with
  | none => rfl
  | some type =>
    dsimp only [Option.bind_eq_bind, Option.bind_some]
    cases type.isRx <;> cases Buffer.alloc type.payloadSize al.data <;> cases al.channel <;> rfl

/-- A new channel is as the call asked for. -/
theorem newChannel_some (h : newChannel n topicName channelType targetHz al = some ch) :
    ch.Fresh ∧ ch.channelId = Int32.ofNat n ∧ ch.topicName = topicName ∧
      channelType = some ch.channelType ∧ ch.targetTxTime = targetTxTime targetHz ∧
      ch.lastTxTime = 0 := by
  simp only [newChannel, Option.bind_eq_bind, Option.bind_eq_some_iff] at h
  obtain ⟨type, hty, data, hd, info, hinfo, h⟩ := h
  split at h
  · cases h
    refine ⟨⟨rfl, ?_⟩, rfl, rfl, hty, rfl, rfl⟩
    rintro (_ | _) buf hb
    · cases hb
      exact (Buffer.alloc_some hd).2.2
    · obtain rfl : info = some buf := hb
      unfold newInfoBuffer at hinfo
      split at hinfo
      · obtain ⟨_, ha, ⟨⟩⟩ := Option.map_eq_some_iff.mp hinfo
        exact (Buffer.alloc_some ha).2.2
      · cases hinfo
  · cases h

theorem newRxChannel_some (h : newRxChannel n topicName channelType al = some ch) :
    ch.Fresh ∧ ch.channelId = Int32.ofNat n ∧ ch.topicName = topicName ∧
      channelType = some ch.channelType := by
  simp only [newRxChannel, Option.bind_eq_bind, Option.bind_eq_some_iff] at h
  obtain ⟨type, hty, h⟩ := h
  split at h
  · obtain ⟨data, hd, rfl⟩ := Option.map_eq_some_iff.mp h
    refine ⟨⟨rfl, ?_⟩, rfl, rfl, hty⟩
    rintro (_ | _) buf hb
    · cases hb
      exact (Buffer.alloc_some hd).2.2
    · cases hb
  · cases h

/-- The data buffer of a new channel has the capacity of its type. -/
theorem newChannel_capacity (h : newChannel n topicName channelType targetHz al = some ch) :
    ch.dataBuffer.bufferSize = ch.channelType.payloadSize := by
  simp only [newChannel, Option.bind_eq_bind, Option.bind_eq_some_iff] at h
  obtain ⟨type, -, data, hd, info, -, h⟩ := h
  split at h
  · cases h
    exact (Buffer.alloc_some hd).2.1
  · cases h

/-- A new channel has an info buffer if its type has infos. -/
theorem newChannel_info (h : newChannel n topicName channelType targetHz al = some ch) :
    0 < ch.channelType.infoSize → ch.infoBuffer.isSome = true := by
  intro hsize
  simp only [newChannel, Option.bind_eq_bind, Option.bind_eq_some_iff] at h
  obtain ⟨type, -, data, -, info, hinfo, h⟩ := h
  split at h
  · cases h
    unfold newInfoBuffer at hinfo
    rw [if_pos hsize] at hinfo
    obtain ⟨buf, -, rfl⟩ := Option.map_eq_some_iff.mp hinfo
    rfl
  · cases h

/-- `foxdbg_add_channel` fails, or it adds a new channel at the end. -/
theorem addChannel_new (h : r.addChannel topicName channelType targetHz al = some (r', id)) :
    r' = r ∨ ∃ ch, newChannel r.channelCount topicName channelType targetHz al = some ch ∧
      r' = { r with channels := r.channels ++ [ch], channelCount := r.channelCount + 1 } := by
  rw [addChannel_eq_new] at h
  cases hnew : newChannel r.channelCount topicName channelType targetHz al with
  | none =>
    simp only [hnew] at h
    cases h
    exact .inl rfl
  | some ch =>
    simp only [hnew, Option.ite_none_left_eq_some] at h
    obtain ⟨-, h⟩ := h
    cases h
    exact .inr ⟨ch, rfl, rfl⟩

theorem addChannel_some (h : r.addChannel topicName channelType targetHz al = some (r', id)) :
    r' = r ∨ ∃ ch, ch.Fresh ∧ ch.channelId = Int32.ofNat r.channelCount ∧
      r' = { r with channels := r.channels ++ [ch], channelCount := r.channelCount + 1 } := by
  obtain rfl | ⟨ch, hnew, rfl⟩ := addChannel_new h
  · exact .inl rfl
  · obtain ⟨hfresh, hid, -⟩ := newChannel_some hnew
    exact .inr ⟨ch, hfresh, hid, rfl⟩

/-- What `foxdbg_add_channel` adds depends on the counter only. -/
theorem addChannel_eq (topicName : Bytes) (channelType : Option ChannelType) (targetHz : Int32)
    (al : Alloc) (n : Nat) : ∃ res : Option (Option Channel), ∀ r : Registry, r.channelCount = n →
      (r.addChannel topicName channelType targetHz al).map (·.1) = res.map fun
        | none => r
        | some ch => { r with channels := r.channels ++ [ch], channelCount := n + 1 } := by
  cases hnew : newChannel n topicName channelType targetHz al with
  | none =>
    refine ⟨some none, fun r hr => ?_⟩
    subst hr
    rw [addChannel_eq_new, hnew]
    rfl
  | some ch =>
    refine ⟨if targetHz = 0 then none else some (some ch), fun r hr => ?_⟩
    subst hr
    rw [addChannel_eq_new, hnew]
    by_cases hz : targetHz = 0
    · simp [hz]
    · simp [hz]

/-- `foxdbg_add_rx_channel` leaves the transmitted channels alone; it fails, or it adds a fresh
channel at the end of the received ones. -/
theorem addRxChannel_cases (r : Registry) (topicName : Bytes) (channelType : Option ChannelType)
    (al : Alloc) : (r.addRxChannel topicName channelType al).1 = r ∨
      ∃ ch, ch.Fresh ∧ (r.addRxChannel topicName channelType al).1 =
        { r with rxChannels := r.rxChannels ++ [ch], rxChannelCount := r.rxChannelCount + 1 } := by
  rw [addRxChannel_eq_new]
  cases hnew : newRxChannel r.rxChannelCount topicName channelType al with
  | none => exact .inl rfl
  | some ch => exact .inr ⟨ch, (newRxChannel_some hnew).1, rfl⟩

end Registry

end Foxdbg
