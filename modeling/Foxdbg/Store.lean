import Foxdbg.Ids

/-!
# The store of last values

`storeSys` is the registry under whole calls, of which none overlaps with another: a call adds a
channel, writes a payload or reads a buffer. `Store` is what the registry is for: the last payload
of each buffer, by channel id and kind. The double buffers refine it (`store_refines`): `store`
takes the stale bytes and sizes of the back away, and every call acts on what is left as the
abstract one does.

`foxdbg_write_channel` does not reject a payload that is too large: it publishes an empty one
(`rejected_write_reads_empty`).
-/

namespace Foxdbg

/-! ## Whole calls -/

/-- A whole call. -/
inductive StoreCall where
  | addChannel (topicName : Bytes) (channelType : Option ChannelType) (targetHz : Int32)
    (al : Alloc)
  | write (k : BufferKind) (channelId : Int32) (d : Bytes)
  /-- A read section, and the bytes it copied; `none`: there is no such buffer. -/
  | read (k : BufferKind) (channelId : Int32) (result : Option Bytes)

namespace Registry

/-- The buffer that the calls with this id access. -/
def buffer? (r : Registry) (k : BufferKind) (channelId : Int32) : Option Buffer :=
  (r.find k channelId).bind fun i => bufferAt r.channels i k

/-- The two sections of `foxdbg_write_channel` (`foxdbg_write_channel_info`). -/
def writeThrough (r : Registry) (k : BufferKind) (channelId : Int32) (d : Bytes) : Registry :=
  match r.write k channelId d with
  | none => r
  | some (r', i) => r'.swap i k

/-- The bytes that a read section copies. -/
def readBuffer (r : Registry) (k : BufferKind) (channelId : Int32) : Option Bytes :=
  (r.buffer? k channelId).map Buffer.readSection

end Registry

/-- The registry under whole calls. -/
def storeSys : Lts Registry StoreCall where
  step r
    | .addChannel topicName channelType targetHz al =>
      (r.addChannel topicName channelType targetHz al).map (·.1)
    | .write k channelId d => some (r.writeThrough k channelId d)
    | .read k channelId result => if r.readBuffer k channelId = result then some r else none

/-! ## The abstract store -/

/-- The type has a buffer of this kind. -/
def ChannelType.hasBuffer (type : ChannelType) : BufferKind → Bool
  | .data => true
  | .info => 0 < type.infoSize

/-- The type of the channel that a call adds, if nothing fails. -/
def addedType (channelType : Option ChannelType) (al : Alloc) : Option ChannelType :=
  channelType.filter fun type =>
    al.data.isSome && (!type.hasBuffer .info || al.info.isSome) && al.channel

/-- The number of channels, and the last payload of each buffer that there is. -/
structure Store where
  count : Nat
  payload : Int32 → BufferKind → Option Bytes

namespace Store

def empty : Store := ⟨0, fun _ _ => none⟩

/-- A channel with nothing written. A buffer that is there already under the id stays. -/
def add (s : Store) (type : ChannelType) : Store where
  count := s.count + 1
  payload id k :=
    (s.payload id k).or (if Int32.ofNat s.count = id ∧ type.hasBuffer k then some [] else none)

/-- The last payload of a buffer, if it is there. -/
def put (s : Store) (k : BufferKind) (channelId : Int32) (d : Bytes) : Store :=
  { s with payload := fun id j =>
      if (j, id) = (k, channelId) then (s.payload channelId k).map fun _ => d else s.payload id j }

/-- The abstract store under the same calls. -/
def sys : Lts Store StoreCall where
  step s
    | .addChannel _ channelType targetHz al =>
      match addedType channelType al with
      | none => some s
      | some type => if targetHz = 0 then none else some (s.add type)
    | .write k channelId d => some (s.put k channelId d)
    | .read k channelId result => if s.payload channelId k = result then some s else none

end Store

/-- What the registry stores. -/
def Registry.store (r : Registry) : Store := ⟨r.channelCount, fun id k => r.readBuffer k id⟩

/-- The payload is not larger than the buffer that it is written to. -/
def WriteFits (r : Registry) (e : StoreCall) (_ : Registry) : Prop :=
  ∀ k channelId d buf, e = .write k channelId d → r.buffer? k channelId = some buf →
    d.length ≤ buf.bufferSize

/-! ## What the calls do to the buffers -/

namespace Registry

variable {r : Registry} {k j : BufferKind} {channelId id : Int32} {d x : Bytes} {ch : Channel}
  {i : Nat}

/-- A change of buffers does not change what the walks find. -/
theorem find_modify {f : Buffer → Buffer} :
    (r.modify i (Channel.mapBuffer j f)).find k id = r.find k id := by
  have hmap : ∀ cs : List Channel,
      cs.findIdx? (fun ch => ch.channelId == id && (ch.buffer? k).isSome) =
        (cs.map fun ch => (ch.channelId, (ch.buffer? k).isSome)).findIdx? fun p =>
          p.1 == id && p.2 := by
    intro cs
    rw [List.findIdx?_map]
    rfl
  rw [find_eq_findIdx?, find_eq_findIdx?, hmap, hmap, modify, map_modify_eq]
  intro ch
  by_cases hk : k = j
  · subst hk
    simp [Channel.buffer?_mapBuffer_self]
  · simp [Channel.buffer?_mapBuffer_ne hk]

theorem writeThrough_eq (r : Registry) (k : BufferKind) (channelId : Int32) (d : Bytes) :
    r.writeThrough k channelId d = match r.find k channelId with
      | none => r
      | some i => r.modify i (Channel.mapBuffer k fun buf => (k.section d buf).swapBuffers) := by
  rw [writeThrough, write_eq]
  cases r.find k channelId with
  | none => rfl
  | some i =>
    simp only [Option.map_some, swap, modify, List.modify_modify_eq]
    congr 2
    funext ch
    cases k
    · rfl
    · simp [Channel.mapBuffer, Channel.mapInfo, Function.comp_def]

/-- A write changes the buffer that it finds, and no other. -/
theorem buffer?_writeThrough : (r.writeThrough k channelId d).buffer? j id =
    if (j, id) = (k, channelId) then
      (r.buffer? k channelId).map fun buf => (k.section d buf).swapBuffers
    else r.buffer? j id := by
  rw [writeThrough_eq]
  cases hfind : r.find k channelId with
  | none =>
    by_cases hk : (j, id) = (k, channelId)
    · cases hk
      simp [buffer?, hfind]
    · rw [if_neg hk]
  | some i =>
    unfold buffer?
    simp only [find_modify, hfind]
    by_cases hk : (j, id) = (k, channelId)
    · cases hk
      rw [if_pos rfl, hfind]
      exact (bufferAt_modify ..).trans (if_pos rfl)
    · rw [if_neg hk]
      refine Option.bind_congr fun i' hi' => ?_
      refine (bufferAt_modify ..).trans (if_neg ?_)
      rintro ⟨⟩
      obtain ⟨ch, -, hch, hid, -⟩ := find_some hfind
      exact hk (by rw [← hid, channelId_of_find hi' hch])

/-- A read after a write that filled the buffer with `x` returns `x`; the others return what they
did. -/
theorem readBuffer_writeThrough
    (h : ∀ buf, r.buffer? k channelId = some buf → (k.section d buf).view = buf.view.fill x) :
    (r.writeThrough k channelId d).readBuffer j id =
      if (j, id) = (k, channelId) then (r.readBuffer k channelId).map fun _ => x
      else r.readBuffer j id := by
  unfold readBuffer
  rw [buffer?_writeThrough]
  split
  · rw [Option.map_map, Option.map_map]
    refine Option.map_congr fun buf hbuf => ?_
    simp [Buffer.readSection_eq, h buf hbuf]
  · rfl

/-- A new channel is found last. -/
theorem buffer?_append : (r.append .tx ch).buffer? k id =
    (r.buffer? k id).or (if ch.channelId = id then ch.buffer? k else none) := by
  have hwalk : (r.append .tx ch).find k id = (r.find k id).or
      (if ch.channelId = id ∧ (ch.buffer? k).isSome then some r.channels.length else none) := by
    rw [find_eq_findIdx?, find_eq_findIdx?]
    show List.findIdx? _ (r.channels ++ [ch]) = _
    rw [List.findIdx?_append]
    by_cases hch : ch.channelId = id <;> simp [hch]
  unfold buffer?
  rw [hwalk]
  cases hfind : r.find k id with
  | some i =>
    obtain ⟨old, buf, hold, -, hbuf⟩ := find_some hfind
    have hlt := (List.getElem?_eq_some_iff.mp hold).1
    have hat : bufferAt r.channels i k = some buf := by rw [bufferAt, hold, Option.bind_some, hbuf]
    have hsame : (r.append .tx ch).channels[i]? = r.channels[i]? := List.getElem?_append_left hlt
    have happ : bufferAt (r.append .tx ch).channels i k = some buf := by
      rw [bufferAt, hsame, hold, Option.bind_some, hbuf]
    simp only [Option.some_or, Option.bind_some, hat, happ]
  | none =>
    have happ : bufferAt (r.append .tx ch).channels r.channels.length k = ch.buffer? k := by
      simp [bufferAt, append]
    by_cases hid : ch.channelId = id
    · cases hbuf : ch.buffer? k with
      | none => simp [hid]
      | some buf => simp [hid, happ, hbuf]
    · simp [hid]

end Registry

/-! ## Adding a channel -/

/-- The call makes a channel if no allocation that it needs fails. -/
theorem newChannel_type (n : Nat) (topicName : Bytes) (channelType : Option ChannelType)
    (targetHz : Int32) (al : Alloc) :
    (Registry.newChannel n topicName channelType targetHz al).map (·.channelType) =
      addedType channelType al := by
  cases channelType with
  | none => rfl
  | some type =>
    obtain ⟨data, info, channel⟩ := al
    cases type <;> cases data <;> cases info <;> cases channel <;> rfl

/-- A new channel has the buffers of its type, and nothing is in them. -/
theorem newChannel_reads {n : Nat} {topicName : Bytes} {channelType : Option ChannelType}
    {targetHz : Int32} {al : Alloc} {ch : Channel}
    (h : Registry.newChannel n topicName channelType targetHz al = some ch) (k : BufferKind) :
    (ch.buffer? k).map Buffer.readSection =
      if ch.channelType.hasBuffer k then some [] else none := by
  have hfresh := (Registry.newChannel_some h).1
  have hsome : (ch.buffer? k).isSome = ch.channelType.hasBuffer k := by
    cases k with
    | data => rfl
    | info =>
      simp only [Registry.newChannel, Option.bind_eq_bind, Option.bind_eq_some_iff] at h
      obtain ⟨type, -, data, -, info, hinfo, h⟩ := h
      split at h
      · cases h
        unfold Registry.newInfoBuffer at hinfo
        split at hinfo
        · rename_i hpos
          obtain ⟨buf, -, rfl⟩ := Option.map_eq_some_iff.mp hinfo
          simp [Channel.buffer?, ChannelType.hasBuffer, hpos]
        · rename_i hpos
          cases hinfo
          simp [Channel.buffer?, ChannelType.hasBuffer, hpos]
      · cases h
  rw [← hsome]
  cases hbuf : ch.buffer? k with
  | none => rfl
  | some buf =>
    simp [Buffer.readSection, Buffer.beginRead, (hfresh.empty k buf hbuf).1]

/-! ## Refinement -/

variable {r r' : Registry} {e : StoreCall}

theorem store_init : Registry.init.store = .empty := by
  simp only [Registry.store, Store.empty, Store.mk.injEq]
  refine ⟨rfl, ?_⟩
  funext id k
  cases k <;> rfl

/-- A new channel is added to the store. -/
theorem store_append {n : Bytes} {ty : Option ChannelType} {hz : Int32} {al : Alloc} {ch : Channel}
    (h : Registry.newChannel r.channelCount n ty hz al = some ch) :
    (r.append .tx ch).store = r.store.add ch.channelType := by
  have hid := (Registry.newChannel_some h).2.1
  simp only [Registry.store, Store.add, Store.mk.injEq]
  refine ⟨rfl, ?_⟩
  funext id k
  unfold Registry.readBuffer
  rw [Registry.buffer?_append, hid]
  have hreads := newChannel_reads h k
  by_cases hc : Int32.ofNat r.channelCount = id
  · cases r.buffer? k id <;> simp [hc, hreads]
  · simp [hc]

/-- A write that fits puts its payload in the store. -/
theorem store_writeThrough {k : BufferKind} {channelId : Int32} {d : Bytes}
    (h : ∀ buf, r.buffer? k channelId = some buf → d.length ≤ buf.bufferSize) :
    (r.writeThrough k channelId d).store = r.store.put k channelId d := by
  have hcount : (r.writeThrough k channelId d).channelCount = r.channelCount := by
    rw [Registry.writeThrough_eq]
    cases r.find k channelId <;> rfl
  simp only [Registry.store, Store.put, hcount, Store.mk.injEq, true_and]
  funext id j
  exact Registry.readBuffer_writeThrough fun buf hbuf => view_section (h buf hbuf)

/-- Each call acts on the store as the abstract call does. -/
theorem store_step (hq : WriteFits r e r') (h : storeSys.step r e = some r') :
    Store.sys.step r.store e = some r'.store := by
  cases e with
  | addChannel n ty hz al =>
    obtain ⟨⟨r₁, id⟩, hadd, rfl⟩ := Option.map_eq_some_iff.mp h
    rw [Registry.addChannel_eq_new] at hadd
    simp only [Store.sys, ← newChannel_type r.channelCount n ty hz al]
    cases hnew : Registry.newChannel r.channelCount n ty hz al with
    | none =>
      rw [hnew] at hadd
      cases hadd
      rfl
    | some ch =>
      simp only [hnew, Option.ite_none_left_eq_some] at hadd
      obtain ⟨hz, hadd⟩ := hadd
      cases hadd
      simp only [Option.map_some, hz, if_false]
      rw [← store_append hnew]
      rfl
  | write k channelId d =>
    cases h
    exact congrArg some (store_writeThrough fun buf hbuf => hq _ _ _ _ rfl hbuf).symm
  | read k channelId result =>
    obtain ⟨hread, ⟨⟩⟩ := Option.ite_none_right_eq_some.mp h
    exact if_pos hread

/-- A whole call keeps the numbering of the transmitted channels. -/
theorem Numbered.call (h : storeSys.step r e = some r') (hi : Numbered r .tx) :
    Numbered r' .tx := by
  cases e with
  | addChannel n ty hz al =>
    obtain ⟨⟨r₁, id⟩, hadd, rfl⟩ := Option.map_eq_some_iff.mp h
    exact hi.step (e := (.tx n ty hz al, id)) (addSys_step.mpr hadd)
  | write k channelId d =>
    cases h
    rw [Registry.writeThrough_eq]
    cases r.find k channelId with
    | none => exact hi
    | some i =>
      refine ⟨hi.count.trans (List.length_modify ..).symm, fun j ch hch => ?_⟩
      replace hch : (r.channels.modify i _)[j]? = some ch := hch
      rw [List.getElem?_modify] at hch
      obtain ⟨ch₀, hch₀, rfl⟩ := Option.map_eq_some_iff.mp hch
      have hid := hi.ids j ch₀ hch₀
      by_cases hj : i = j
      · simp [hj, hid]
      · simp [hj, hid]
  | read k channelId result =>
    obtain ⟨-, ⟨⟩⟩ := Option.ite_none_right_eq_some.mp h
    exact hi

/-- Up to `2 ^ 32` channels, an id finds its own channel. -/
theorem Numbered.reads_own (hi : Numbered r .tx) (hs : r.channelCount ≤ 2 ^ 32) {i : Nat}
    {ch : Channel} (hch : r.channels[i]? = some ch) (k : BufferKind) :
    r.readBuffer k ch.channelId = (ch.buffer? k).map Buffer.readSection := by
  have hlen : r.channels.length ≤ 2 ^ 32 := hi.count ▸ hs
  have own : ∀ j ch', r.channels[j]? = some ch' → ch'.channelId = ch.channelId → j = i := by
    intro j ch' hch' hid
    have hj := (List.getElem?_eq_some_iff.mp hch').1
    have hi' := (List.getElem?_eq_some_iff.mp hch).1
    rw [hi.ids j ch' hch', hi.ids i ch hch, ← Int32.toBitVec_inj] at hid
    have hmod := congrArg BitVec.toNat hid
    simp only [Int32.toBitVec_ofNat', BitVec.toNat_ofNat] at hmod
    omega
  unfold Registry.readBuffer Registry.buffer?
  cases hfind : r.find k ch.channelId with
  | some j =>
    obtain ⟨ch', buf, hch', hid, hbuf⟩ := Registry.find_some hfind
    cases own j ch' hch' hid
    rw [Option.bind_some, bufferAt, hch]
    rfl
  | none =>
    rw [Registry.find_eq_findIdx?] at hfind
    have hnone := List.findIdx?_eq_none_iff.mp hfind ch (List.mem_of_getElem? hch)
    rw [beq_self_eq_true, Bool.true_and, Option.isSome_eq_false_iff, Option.isNone_iff_eq_none]
      at hnone
    rw [hnone]
    rfl

/-- **Refinement.** A run of whole calls whose payloads fit is a run of the abstract store; and up
to `2 ^ 32` channels, the payloads that it has for an id are those in the buffers of the channel
with this id. -/
theorem store_refines {es : List StoreCall} (hr : storeSys.Run WriteFits .init es r) :
    Store.sys.Reach .empty es r.store ∧
    (r.channelCount ≤ 2 ^ 32 → ∀ (i : Nat) (ch : Channel) (k : BufferKind),
      r.channels[i]? = some ch →
      r.store.payload ch.channelId k = (ch.buffer? k).map Buffer.readSection) := by
  constructor
  · have hsim : ∃ s, Store.sys.Reach .empty es s ∧ s = r.store :=
      hr.simulates (R := fun r s => s = r.store)
        (fun _ _ _ _ h hq hrel => ⟨_, hrel ▸ store_step hq h, rfl⟩) store_init.symm
    obtain ⟨s, hs, rfl⟩ := hsim
    exact hs
  · intro hcount i ch k hch
    have hnum := hr.inv (I := fun r => Numbered r .tx) (fun _ _ _ h _ hi => hi.call h) (.init .tx)
    exact hnum.reads_own hcount hch k

/-- An image channel; two payloads, of which the second one is shorter; an info, an id that no
channel has, and reads. -/
def valuesRun : List StoreCall :=
  [.addChannel (ascii "a") (some .image) 10 .zeroed, .read .data 0 (some []), .write .data 0 [1, 2],
    .write .data 0 [3], .write .info 0 [4], .write .data 7 [5], .read .data 0 (some [3]),
    .read .info 0 (some [4]), .read .data 7 none]

/-- The payload of each write of a call fits. -/
def writeFits (r : Registry) (e : StoreCall) (_ : Registry) : Bool :=
  match e with
  | .write k channelId d => (r.buffer? k channelId).all fun buf => d.length ≤ buf.bufferSize
  | _ => true

theorem writeFits_sound (r : Registry) (e : StoreCall) (r' : Registry)
    (h : writeFits r e r' = true) : WriteFits r e r' := by
  rintro k channelId d buf rfl hbuf
  simpa [writeFits, hbuf] using h

theorem values_stored : ∃ r, storeSys.Run WriteFits .init valuesRun r ∧ r.channelCount = 1 ∧
    Store.sys.Reach .empty valuesRun r.store := by
  obtain ⟨r, hr, h⟩ := Lts.exists_run (L := storeSys) (s := .init) valuesRun (q := writeFits)
    (p := fun r => r.channelCount == 1) writeFits_sound (by decide +kernel)
  exact ⟨r, hr, eq_of_beq h, (store_refines hr).1⟩

/-! ## Payloads that are too large -/

/-- The call is not a write to the buffer with a payload that fits. -/
def NotAccepted (k : BufferKind) (channelId : Int32) (r : Registry) (e : StoreCall)
    (_ : Registry) : Prop :=
  ∀ d buf, e = .write k channelId d → r.buffer? k channelId = some buf → buf.bufferSize < d.length

/-- A payload that is too large empties the data buffer. -/
theorem readBuffer_rejected {channelId id : Int32} {d : Bytes} {j : BufferKind}
    (h : ∀ buf, r.buffer? .data channelId = some buf → buf.bufferSize < d.length) :
    (r.writeThrough .data channelId d).readBuffer j id =
      if (j, id) = (.data, channelId) then (r.readBuffer .data channelId).map fun _ => []
      else r.readBuffer j id :=
  Registry.readBuffer_writeThrough fun buf hbuf => view_dataSection (Nat.not_le.mpr (h buf hbuf))

/-- A data buffer stays empty until a payload is accepted. -/
theorem empty_step {channelId : Int32} (hq : NotAccepted .data channelId r e r')
    (h : storeSys.step r e = some r') (hi : r.readBuffer .data channelId = some []) :
    r'.readBuffer .data channelId = some [] := by
  cases e with
  | addChannel n ty hz al =>
    obtain ⟨⟨r₁, id⟩, hadd, rfl⟩ := Option.map_eq_some_iff.mp h
    obtain ⟨-, rfl⟩ | ⟨ch, -, -, -, -, rfl⟩ :=
      AddCall.run_cases (show (AddCall.tx n ty hz al).run r = some (r₁, id) from hadd)
    · exact hi
    · obtain ⟨buf, hbuf, hread⟩ := Option.map_eq_some_iff.mp hi
      show ((r.append .tx ch).buffer? .data channelId).map Buffer.readSection = some []
      rw [Registry.buffer?_append, hbuf, Option.some_or, Option.map_some, hread]
  | write k id d =>
    cases h
    by_cases hk : (k, id) = (.data, channelId)
    · cases hk
      rw [readBuffer_rejected fun buf hbuf => hq d buf rfl hbuf, if_pos rfl, hi]
      rfl
    · unfold Registry.readBuffer
      rw [Registry.buffer?_writeThrough, if_neg fun he => hk he.symm]
      exact hi
  | read k id result =>
    obtain ⟨-, ⟨⟩⟩ := Option.ite_none_right_eq_some.mp h
    exact hi

/-- **Rejected writes.** After a call of `foxdbg_write_channel` whose payload is larger than the
data buffer, a read of this buffer returns nothing, until a payload is accepted; the other buffers
read as before the call. -/
theorem rejected_write_reads_empty {channelId : Int32} {d : Bytes} {buf : Buffer}
    {es : List StoreCall} (hbuf : r.buffer? .data channelId = some buf)
    (hd : buf.bufferSize < d.length)
    (hr : storeSys.Run (NotAccepted .data channelId) (r.writeThrough .data channelId d) es r') :
    r'.readBuffer .data channelId = some [] ∧
    ∀ k id, (k, id) ≠ (.data, channelId) →
      (r.writeThrough .data channelId d).readBuffer k id = r.readBuffer k id := by
  have hrejected : ∀ buf', r.buffer? .data channelId = some buf' → buf'.bufferSize < d.length := by
    intro buf' hbuf'
    cases hbuf.symm.trans hbuf'
    exact hd
  constructor
  · refine hr.inv (I := fun r => r.readBuffer .data channelId = some [])
      (fun _ _ _ h hq hi => empty_step hq h hi) ?_
    rw [readBuffer_rejected hrejected, if_pos rfl, Registry.readBuffer, hbuf]
    rfl
  · intro k id hk
    rw [readBuffer_rejected hrejected, if_neg hk]

/-- A boolean channel with a payload. -/
def oneByteRun : List StoreCall :=
  [.addChannel (ascii "a") (some .boolean) 10 .zeroed, .write .data 0 [1]]

/-- Two bytes do not fit, and a read after the call finds nothing. -/
theorem rejected_boolean : ∃ (r : Registry) (buf : Buffer), storeSys.Reach .init oneByteRun r ∧
    r.buffer? .data 0 = some buf ∧ buf.bufferSize < [1, 2].length ∧
    (r.writeThrough .data 0 [1, 2]).readBuffer .data 0 = some [] := by
  obtain ⟨r, hr, h⟩ := Lts.exists_reach (L := storeSys) (s := .init) oneByteRun
    (p := fun r => (r.buffer? .data 0).any fun buf => buf.bufferSize < [1, 2].length)
    (by decide +kernel)
  simp only [Option.any_eq_true, decide_eq_true_eq] at h
  obtain ⟨buf, hbuf, hd⟩ := h
  exact ⟨r, buf, hr, hbuf, hd, (rejected_write_reads_empty hbuf hd (.nil _)).1⟩

/-- A payload that is too large does not leave the last one in place. -/
theorem rejected_write_seen : ∃ (r : Registry) (buf : Buffer), storeSys.Reach .init oneByteRun r ∧
    r.buffer? .data 0 = some buf ∧ buf.bufferSize < [1, 2].length ∧
    r.readBuffer .data 0 = some [1] ∧
    (r.writeThrough .data 0 [1, 2]).readBuffer .data 0 ≠ r.readBuffer .data 0 := by
  obtain ⟨r, hr, h⟩ := Lts.exists_reach (L := storeSys) (s := .init) oneByteRun
    (p := fun r => ((r.buffer? .data 0).any fun buf => buf.bufferSize < [1, 2].length) &&
      r.readBuffer .data 0 == some [1] &&
      (r.writeThrough .data 0 [1, 2]).readBuffer .data 0 == some []) (by decide +kernel)
  simp only [Bool.and_eq_true, Option.any_eq_true, decide_eq_true_eq, beq_iff_eq] at h
  obtain ⟨⟨⟨buf, hbuf, hd⟩, hread⟩, hempty⟩ := h
  exact ⟨r, buf, hr, hbuf, hd, hread, by rw [hread, hempty]; nofun⟩

end Foxdbg
