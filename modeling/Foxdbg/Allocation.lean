import Foxdbg.Lib.Ownership
import Foxdbg.LinkedList
import Foxdbg.Threads
import Mathlib.Algebra.Order.BigOperators.Group.List
import Mathlib.Data.Multiset.OrderedMonoid
import Mathlib.Tactic.Abel

/-!
# The memory of the channels (`foxdbg_buffer_alloc`, `foxdbg_add_channel`)

The functions that allocate are programs here, with each `malloc`, `free`, `pthread_mutex_init` and
`pthread_mutex_destroy` as an operation. `Registry.addChannel` gets what comes of them as its
`Alloc`; here it is a function of the answers to the operations (`AddRequest.call`).

* `memory_of_calls`: in every run of calls that add channels, nothing is freed twice, the registry
  is that of the run of `addSys` with the same calls, and what is held are the blocks of its
  channels, all different, and the buffers of the calls that failed after they had allocated them:
  no one frees those.
* `buffer_freed`: after such calls, `foxdbg_buffer_free` takes what a buffer of a channel has, and
  nothing else.

Any `malloc` can fail. The initialisation of a mutex is taken to succeed: where it fails,
`foxdbg_buffer_alloc` destroys a mutex that is not initialised.
-/

namespace Foxdbg

/-- What can be held: a block of memory, or a mutex of the `foxdbg_buffer_t` at an address. -/
inductive Thing where
  | block (p : Addr)
  | mutex (p : Addr) (m : MutexName)
  deriving DecidableEq

inductive HeapOp where
  | malloc (size : Nat)
  | free (p : Option Addr)
  | mutexInit (p : Addr) (m : MutexName)
  | mutexDestroy (p : Addr) (m : MutexName)

/-- The answer of an operation: of `malloc` an address and the bytes there, or `NULL`; of
`pthread_mutex_init` if it succeeds. -/
@[reducible] def HeapOp.Answer : HeapOp → Type
  | .malloc _ => Option (Addr × Mem)
  | .mutexInit .. => Bool
  | _ => Unit

/-- The answers of the environment to the operations of a call, by their number. -/
abbrev Answers := Nat → (o : HeapOp) → o.Answer

/-- What is taken and given. -/
def heapLedger : Ledger HeapOp HeapOp.Answer Thing where
  takes
    | .free (some p) => {.block p}
    | .mutexDestroy p m => {.mutex p m}
    | _ => 0
  gives
    | .malloc _, some (p, _) => {.block p}
    | .mutexInit p m, true => {.mutex p m}
    | _, _ => 0

/-- A function of the repository in single operations on the heap. -/
abbrev HeapCode := Prog HeapOp HeapOp.Answer

def sizeofBuffer : Nat := 176
def sizeofChannel : Nat := 64

/-- The blocks of a `foxdbg_buffer_t`. -/
structure BufferBlocks where
  self : Addr
  bufferA : Addr
  bufferB : Addr

/-- The blocks of a `foxdbg_channel_t`. -/
structure ChannelBlocks where
  self : Addr
  dataBuffer : BufferBlocks
  infoBuffer : Option BufferBlocks

namespace HeapCode

def malloc (size : Nat) : HeapCode (Option (Addr × Mem)) := .op (.malloc size) .ret

def free (p : Option Addr) : HeapCode Unit := .op (.free p) .ret

def mutexInit (p : Addr) (m : MutexName) : HeapCode Bool := .op (.mutexInit p m) .ret

def mutexDestroy (p : Addr) (m : MutexName) : HeapCode Unit := .op (.mutexDestroy p m) .ret

/-- The condition `pthread_mutex_init(..) != 0 || ..`, negated. -/
def mutexInits (p : Addr) : HeapCode Bool := do
  if ← mutexInit p .write then
    if ← mutexInit p .read then mutexInit p .swap else pure false
  else pure false

/-- `foxdbg_buffer_alloc`. -/
def bufferAlloc (size : Nat) : HeapCode (Option (BufferBlocks × Buffer)) :=
  if size = 0 then pure none
  else do
    match ← malloc sizeofBuffer with
    | none => pure none
    | some (buf, _) =>
      match ← malloc size, ← malloc size with
      | some (a, memA), some (b, memB) =>
        if ← mutexInits buf then
          pure (some (⟨buf, a, b⟩, ⟨size, memA, memB, .a, 0, .b, 0, Slot.a_ne_b⟩))
        else
          mutexDestroy buf .write
          mutexDestroy buf .read
          mutexDestroy buf .swap
          free (some a)
          free (some b)
          free (some buf)
          pure none
      | a, b =>
        free (a.map (·.1))
        free (b.map (·.1))
        free (some buf)
        pure none

/-- `foxdbg_buffer_free`. -/
def bufferFree : Option BufferBlocks → HeapCode Unit
  | none => pure ()
  | some buffer => do
    free (some buffer.bufferA)
    free (some buffer.bufferB)
    mutexDestroy buffer.self .write
    mutexDestroy buffer.self .read
    mutexDestroy buffer.self .swap
    free (some buffer.self)

/-- The allocation of `info_buffer`, which stays `NULL` for a type that has none. -/
def infoAlloc (type : ChannelType) : HeapCode (Option (BufferBlocks × Buffer)) :=
  if 0 < type.infoSize then bufferAlloc type.infoSize else pure none

/-- `malloc` of a `foxdbg_channel_t`, and the stores of its members. -/
def allocChannel (ch : Channel) (data : BufferBlocks) (info : Option BufferBlocks) :
    HeapCode (Option (Channel × ChannelBlocks)) := do
  match ← malloc sizeofChannel with
  | none => pure none
  | some (self, _) => pure (some (ch, ⟨self, data, info⟩))

/-- `foxdbg_add_channel` up to the link of the channel, with its number: `none` where the division
traps, `some none` where the call returns -1. -/
def addChannel (n : Nat) (topicName : Bytes) (channelType : Option ChannelType)
    (targetHz : Int32) : HeapCode (Option (Option (Channel × ChannelBlocks))) :=
  match channelType with
  | none => pure (some none)
  | some type => do
    match ← bufferAlloc type.payloadSize with
    | none => pure (some none)
    | some (data, dataBuffer) =>
      let info ← infoAlloc type
      if 0 < type.infoSize ∧ info.isNone then pure (some none)
      else
        let ch : Channel := ⟨topicName, Registry.targetTxTime targetHz, 0, Int32.ofNat n, -1, type,
          dataBuffer, info.map (·.2)⟩
        match ← allocChannel ch data (info.map (·.1)) with
        | none => pure (some none)
        | some newChannel => if targetHz = 0 then pure none else pure (some (some newChannel))

/-- `foxdbg_add_rx_channel` up to the link of the channel. -/
def addRxChannel (n : Nat) (topicName : Bytes) (channelType : Option ChannelType) :
    HeapCode (Option (Channel × ChannelBlocks)) :=
  match channelType with
  | none => pure none
  | some type =>
    if !type.isRx then pure none
    else do
      match ← bufferAlloc type.payloadSize with
      | none => pure none
      | some (data, dataBuffer) =>
        allocChannel ⟨topicName, 0, 0, Int32.ofNat n, -1, type, dataBuffer, none⟩ data none

end HeapCode

/-! ## What blocks are held -/

/-- What a buffer has, from the last operation of its allocation to the first. -/
def BufferBlocks.things (b : BufferBlocks) : Multiset Thing :=
  {.block b.bufferA} + ({.block b.bufferB} + ({.mutex b.self .write} + ({.mutex b.self .read} +
    ({.mutex b.self .swap} + ({.block b.self} + 0)))))

/-- What buffers have. -/
def thingsOf (bs : List BufferBlocks) : Multiset Thing := (bs.map BufferBlocks.things).sum

theorem thingsOf_append (as bs : List BufferBlocks) :
    thingsOf (as ++ bs) = thingsOf as + thingsOf bs := by
  rw [thingsOf, List.map_append, List.sum_append]
  rfl

namespace ChannelBlocks

def buffers (b : ChannelBlocks) : List BufferBlocks := b.dataBuffer :: b.infoBuffer.toList

def things (b : ChannelBlocks) : Multiset Thing := {.block b.self} + thingsOf b.buffers

theorem things_mk (self : Addr) (data : BufferBlocks) (info : Option BufferBlocks) :
    things ⟨self, data, info⟩ = {.block self} + (thingsOf info.toList + thingsOf [data]) := by
  rw [things, buffers, ← List.singleton_append, thingsOf_append, add_comm (thingsOf [data])]

/-- The blocks are those of a channel. -/
def Backs (b : ChannelBlocks) (ch : Channel) : Prop :=
  b.infoBuffer.isSome = ch.infoBuffer.isSome

end ChannelBlocks

/-! ## Calls -/

namespace Answers

variable (answers : Answers)

/-- No initialisation of a mutex fails. -/
def InitsMutexes : Prop := ∀ i p m, answers i (.mutexInit p m) = true

/-- The memory of a buffer, from the three answers to `foxdbg_buffer_alloc`. -/
def buffer (i size : Nat) : Option (Mem × Mem) :=
  match answers i (.malloc sizeofBuffer), answers (i + 1) (.malloc size),
    answers (i + 2) (.malloc size) with
  | some _, some (_, memA), some (_, memB) => some (memA, memB)
  | _, _, _ => none

end Answers

/-- A call of `foxdbg_add_channel` or `foxdbg_add_rx_channel`. -/
inductive AddRequest where
  | tx (topicName : Bytes) (channelType : Option ChannelType) (targetHz : Int32)
  | rx (topicName : Bytes) (channelType : Option ChannelType)

namespace AddRequest

/-- The list that the call extends. -/
def side : AddRequest → Side
  | .tx .. => .tx
  | .rx .. => .rx

/-- The code of the call, for a new channel with the number `n`. -/
def code (n : Nat) : AddRequest → HeapCode (Option (Option (Channel × ChannelBlocks)))
  | .tx topicName channelType targetHz => HeapCode.addChannel n topicName channelType targetHz
  | .rx topicName channelType => some <$> HeapCode.addRxChannel n topicName channelType

/-- What comes of the allocations of a call for a channel of a type, with or without info. -/
def allocOf (answers : Answers) (type : ChannelType) (infoSize : Nat) : Alloc where
  data := answers.buffer 0 type.payloadSize
  info := answers.buffer 6 infoSize
  channel := (answers (if 0 < infoSize then 12 else 6) (.malloc sizeofChannel)).isSome

/-- The call, with what the answers make of its allocations. -/
def call (answers : Answers) : AddRequest → AddCall
  | .tx topicName (some type) targetHz =>
    .tx topicName (some type) targetHz (allocOf answers type type.infoSize)
  | .tx topicName none targetHz => .tx topicName none targetHz ⟨none, none, false⟩
  | .rx topicName (some type) => .rx topicName (some type) (allocOf answers type 0)
  | .rx topicName none => .rx topicName none ⟨none, none, false⟩

end AddRequest

namespace AddCall

/-- How many buffers the call allocates. -/
def buffers : AddCall → Nat
  | .tx _ (some type) _ al =>
    if al.data.isSome then if 0 < type.infoSize ∧ al.info.isSome then 2 else 1 else 0
  | .rx _ (some type) al => if type.isRx ∧ al.data.isSome then 1 else 0
  | _ => 0

/-- How many buffers the call leaves without an owner: those of a call that fails. -/
def lost (call : AddCall) : Nat := if (call.channel 0).isNone then call.buffers else 0

end AddCall

/-- What a call comes to, and what it has in the end: it fails, it traps, or it makes a channel. -/
inductive Adds (call : AddCall) (n : Nat) :
    Option (Option (Channel × ChannelBlocks)) → Multiset Thing → Prop
  | failed (lost : List BufferBlocks) : call.channel n = none → lost.length = call.buffers →
      Adds call n (some none) (thingsOf lost)
  | trapped {ch : Channel} {h : Multiset Thing} : call.channel n = some ch → call.traps = true →
      Adds call n none h
  | added {ch : Channel} {b : ChannelBlocks} : call.channel n = some ch → call.traps = false →
      b.Backs ch → Adds call n (some (some (ch, b))) b.things

namespace HeapCode

variable {answers : Answers}

section Rules

variable {α : Type} {i : Nat} {h : Multiset Thing} {Q : Nat → α → Multiset Thing → Prop}
  {size : Nat} {p : Addr} {m : MutexName}

theorem owns_malloc {k : Option (Addr × Mem) → HeapCode α}
    (hnull : answers i (.malloc size) = none → heapLedger.Owns answers (i + 1) h (k none) Q)
    (hsome : ∀ p mem, answers i (.malloc size) = some (p, mem) →
      heapLedger.Owns answers (i + 1) ({.block p} + h) (k (some (p, mem))) Q) :
    heapLedger.Owns answers i h (.op (.malloc size) k) Q := by
  refine ⟨Multiset.zero_le h, ?_⟩
  show heapLedger.Owns answers (i + 1) (h - 0 + _) _ Q
  rw [tsub_zero]
  cases hanswer : answers i (.malloc size) with
  | none =>
    show heapLedger.Owns answers (i + 1) (h + 0) _ Q
    rw [add_zero]
    exact hnull hanswer
  | some x =>
    obtain ⟨p, mem⟩ := x
    show heapLedger.Owns answers (i + 1) (h + {.block p}) _ Q
    rw [add_comm h]
    exact hsome p mem hanswer

/-- The operation takes the thing that was given last. -/
theorem owns_take {o : HeapOp} {x : Thing} (ho : heapLedger.takes o = {x})
    (hgives : ∀ r, heapLedger.gives o r = 0) {k : o.Answer → HeapCode α}
    (hk : ∀ r, heapLedger.Owns answers (i + 1) h (k r) Q) :
    heapLedger.Owns answers i ({x} + h) (.op o k) Q := by
  refine ⟨ho ▸ Multiset.le_add_right _ h, ?_⟩
  rw [ho, hgives, add_zero, add_tsub_cancel_left]
  exact hk _

theorem owns_free {k : Unit → HeapCode α} (hk : heapLedger.Owns answers (i + 1) h (k ()) Q) :
    heapLedger.Owns answers i ({.block p} + h) (.op (.free (some p)) k) Q :=
  owns_take rfl (fun _ => rfl) fun _ => hk

theorem owns_free_null {k : Unit → HeapCode α}
    (hk : heapLedger.Owns answers (i + 1) h (k ()) Q) :
    heapLedger.Owns answers i h (.op (.free none) k) Q := by
  refine ⟨Multiset.zero_le h, ?_⟩
  show heapLedger.Owns answers (i + 1) (h - 0 + 0) _ Q
  rwa [tsub_zero, add_zero]

theorem owns_mutexDestroy {k : Unit → HeapCode α}
    (hk : heapLedger.Owns answers (i + 1) h (k ()) Q) :
    heapLedger.Owns answers i ({.mutex p m} + h) (.op (.mutexDestroy p m) k) Q :=
  owns_take rfl (fun _ => rfl) fun _ => hk

theorem owns_mutexInit (hinits : answers.InitsMutexes) {k : Bool → HeapCode α}
    (hk : heapLedger.Owns answers (i + 1) ({.mutex p m} + h) (k true) Q) :
    heapLedger.Owns answers i h (.op (.mutexInit p m) k) Q := by
  refine ⟨Multiset.zero_le h, ?_⟩
  rw [hinits i p m]
  show heapLedger.Owns answers (i + 1) (h - 0 + {.mutex p m}) _ Q
  rwa [tsub_zero, add_comm h]

end Rules

/-! ## Buffers -/

/-- What `foxdbg_buffer_alloc` comes to, from its first answer on. -/
structure Allocated (answers : Answers) (i size j : Nat) (res : Option (BufferBlocks × Buffer))
    (h : Multiset Thing) : Prop where
  buffer : Buffer.alloc size (answers.buffer i size) = res.map (·.2)
  /-- Its operations, if it succeeds. -/
  next : res.isSome → j = i + 6
  things : h = thingsOf (res.map (·.1)).toList

/-- A buffer is allocated with all its blocks and mutexes, or nothing is held. -/
theorem owns_bufferAlloc (hinits : answers.InitsMutexes) (i size : Nat) :
    heapLedger.Owns answers i 0 (bufferAlloc size) (Allocated answers i size) := by
  unfold bufferAlloc
  split
  · rename_i hsize
    exact ⟨by simp [Buffer.alloc, hsize], (by rintro ⟨⟩), rfl⟩
  · rename_i hsize
    have hnone : ∀ j, answers.buffer i size = none → Allocated answers i size j none 0 :=
      fun j h => ⟨by simp [Buffer.alloc, h], (by rintro ⟨⟩), rfl⟩
    refine owns_malloc (fun hbuf => hnone _ ?_) fun buf _ hbuf => owns_malloc (fun ha => ?_)
      fun a memA ha => ?_
    · simp only [Answers.buffer, hbuf]
    · have hbuffer : answers.buffer i size = none := by simp only [Answers.buffer, hbuf, ha]
      refine owns_malloc (fun _ => ?_) fun b _ _ => ?_
      · exact owns_free_null (owns_free_null (owns_free (hnone _ hbuffer)))
      · exact owns_free_null (owns_free (owns_free (hnone _ hbuffer)))
    · refine owns_malloc (fun hb => ?_) fun b memB hb => ?_
      · have hbuffer : answers.buffer i size = none := by simp only [Answers.buffer, hbuf, ha, hb]
        exact owns_free (owns_free_null (owns_free (hnone _ hbuffer)))
      · refine owns_mutexInit hinits (owns_mutexInit hinits (owns_mutexInit hinits ⟨?_, ?_, ?_⟩))
        · rw [Buffer.alloc, if_neg hsize]
          simp only [Answers.buffer, hbuf, ha, hb, Option.map_some]
        · exact fun _ => rfl
        · simp only [Option.map_some, Option.toList_some, thingsOf, List.map_cons, List.map_nil,
            List.sum_cons, List.sum_nil, BufferBlocks.things]
          abel

/-- `foxdbg_buffer_free` takes what a buffer has. -/
theorem owns_bufferFree (answers : Answers) (b : BufferBlocks) :
    heapLedger.Owns answers 0 b.things (bufferFree (some b)) fun _ _ h => h = 0 :=
  owns_free (owns_free (owns_mutexDestroy (owns_mutexDestroy (owns_mutexDestroy (owns_free rfl)))))

theorem payloadSize_pos (type : ChannelType) : type.payloadSize ≠ 0 := by
  cases type <;> decide

/-- A buffer that is not of size 0 is allocated if its memory is. -/
theorem isSome_of_alloc {size : Nat} {mem : Option (Mem × Mem)} {res : Option Buffer}
    (h : Buffer.alloc size mem = res) (hsize : size ≠ 0) : mem.isSome = res.isSome := by
  rw [Buffer.alloc, if_neg hsize] at h
  rw [← h, Option.isSome_map]

/-! ## Channels -/

/-- `malloc` of the channel fails, or it gives one more block. -/
theorem owns_allocChannel (i : Nat) (ch : Channel) (data : BufferBlocks)
    (info : Option BufferBlocks) (h : Multiset Thing) :
    heapLedger.Owns answers i h (allocChannel ch data info) fun _ res h' =>
      answers i (.malloc sizeofChannel) = none ∧ res = none ∧ h' = h ∨
        (answers i (.malloc sizeofChannel)).isSome ∧
          ∃ self, res = some (ch, ⟨self, data, info⟩) ∧ h' = {.block self} + h :=
  owns_malloc (fun hnull => .inl ⟨hnull, rfl, rfl⟩) fun self _ hsome =>
    .inr ⟨by rw [hsome]; rfl, self, rfl, rfl⟩

theorem owns_addRxChannel (hinits : answers.InitsMutexes) (n : Nat) (topicName : Bytes)
    (channelType : Option ChannelType) :
    heapLedger.Owns answers 0 0 (addRxChannel n topicName channelType) fun _ res h =>
      Adds (AddRequest.call answers (.rx topicName channelType)) n (some res) h := by
  unfold addRxChannel
  cases channelType with
  | none => exact Adds.failed [] rfl rfl
  | some type =>
    dsimp only
    split
    · rename_i hrx
      have hrx : type.isRx = false := by simpa using hrx
      refine Adds.failed [] ?_ ?_
      · simp [AddRequest.call, AddCall.channel, Registry.newRxChannel, hrx]
      · simp [AddRequest.call, AddCall.buffers, hrx]
    · rename_i hrx
      have hrx : type.isRx = true := by simpa using hrx
      refine (owns_bufferAlloc hinits 0 _).bind ?_
      rintro j (_ | ⟨data, dataBuffer⟩) h ⟨halloc, hnext, rfl⟩
      · have hmem := isSome_of_alloc halloc (payloadSize_pos type)
        refine Adds.failed [] ?_ ?_
        · simp [AddRequest.call, AddRequest.allocOf, AddCall.channel, Registry.newRxChannel, halloc]
        · simp [AddRequest.call, AddRequest.allocOf, AddCall.buffers, hmem]
      · have hmem := isSome_of_alloc halloc (payloadSize_pos type)
        obtain rfl : j = 6 := hnext rfl
        refine (owns_allocChannel ..).mono ?_
        rintro _ _ _ (⟨hnull, rfl, rfl⟩ | ⟨hself, self, rfl, rfl⟩)
        · refine Adds.failed [data] ?_ ?_
          · simp [AddRequest.call, AddRequest.allocOf, AddCall.channel, Registry.newRxChannel,
              hnull]
          · simp [AddRequest.call, AddRequest.allocOf, AddCall.buffers, hrx, hmem]
        · refine Adds.added (b := ⟨self, data, none⟩) ?_ rfl rfl
          simp [AddRequest.call, AddRequest.allocOf, AddCall.channel, Registry.newRxChannel, hrx,
            halloc, hself]

/-- What the second allocation of `foxdbg_add_channel` comes to: its buffer, if the type has one,
next to what is owned already. -/
structure InfoAllocated (answers : Answers) (type : ChannelType) (F : Multiset Thing) (j : Nat)
    (info : Option (BufferBlocks × Buffer)) (h : Multiset Thing) : Prop where
  buffer : Registry.newInfoBuffer type (AddRequest.allocOf answers type type.infoSize) =
    if 0 < type.infoSize ∧ info.isNone then none else some (info.map (·.2))
  memory : info.isSome ↔ 0 < type.infoSize ∧ (answers.buffer 6 type.infoSize).isSome
  next : ¬ (0 < type.infoSize ∧ info.isNone) → j = if 0 < type.infoSize then 12 else 6
  things : h = thingsOf (info.map (·.1)).toList + F

theorem owns_infoAlloc (hinits : answers.InitsMutexes) (type : ChannelType) (F : Multiset Thing) :
    heapLedger.Owns answers 6 F (infoAlloc type) (InfoAllocated answers type F) := by
  unfold infoAlloc
  split
  · rename_i hsize
    have halloc := (owns_bufferAlloc hinits 6 type.infoSize).frame F
    rw [zero_add] at halloc
    refine halloc.mono ?_
    rintro j info h ⟨_, rfl, halloc, hnext, rfl⟩
    have hmem := isSome_of_alloc halloc (Nat.pos_iff_ne_zero.mp hsize)
    refine ⟨?_, ?_, ?_, rfl⟩
    · rw [Registry.newInfoBuffer, if_pos hsize]
      show (Buffer.alloc _ (answers.buffer 6 type.infoSize)).map some = _
      rw [halloc]
      cases info <;> simp [hsize]
    · rw [hmem, Option.isSome_map]
      exact (and_iff_right hsize).symm
    · intro hgiven
      rw [if_pos hsize]
      cases info with
      | none => exact absurd ⟨hsize, rfl⟩ hgiven
      | some info => exact hnext rfl
  · rename_i hsize
    refine ⟨?_, by simp [hsize], fun _ => (if_neg hsize).symm, by simp [thingsOf]⟩
    rw [Registry.newInfoBuffer, if_neg hsize, if_neg fun h => hsize h.1]
    rfl

section Tx

variable {topicName : Bytes} {type : ChannelType} {targetHz : Int32} {n j : Nat}
  {data : BufferBlocks} {info : Option (BufferBlocks × Buffer)} {F h : Multiset Thing}

/-- With the data buffer, a call has as many buffers as it has allocated. -/
theorem length_buffers (hdata : (answers.buffer 0 type.payloadSize).isSome)
    (hinfo : InfoAllocated answers type F j info h) :
    ((info.map (·.1)).toList ++ [data]).length =
      (AddRequest.call answers (.tx topicName (some type) targetHz)).buffers := by
  cases info with
  | none =>
    have hmissing : ¬ (0 < type.infoSize ∧ (answers.buffer 6 type.infoSize).isSome) :=
      fun h => by cases hinfo.memory.mpr h
    simp [AddRequest.call, AddRequest.allocOf, AddCall.buffers, hdata, hmissing]
  | some info =>
    have hgiven := hinfo.memory.mp rfl
    simp [AddRequest.call, AddRequest.allocOf, AddCall.buffers, hdata, hgiven]

/-- A call that fails once it has its data buffer loses what it has. -/
theorem adds_failed (hdata : (answers.buffer 0 type.payloadSize).isSome)
    (hinfo : InfoAllocated answers type (thingsOf [data]) j info h)
    (hnew : (AddRequest.call answers (.tx topicName (some type) targetHz)).channel n = none) :
    Adds (AddRequest.call answers (.tx topicName (some type) targetHz)) n (some none) h := by
  rw [hinfo.things, ← thingsOf_append]
  exact Adds.failed _ hnew (length_buffers hdata hinfo)

end Tx

theorem owns_addChannel (hinits : answers.InitsMutexes) (n : Nat) (topicName : Bytes)
    (channelType : Option ChannelType) (targetHz : Int32) :
    heapLedger.Owns answers 0 0 (addChannel n topicName channelType targetHz) fun _ =>
      Adds (AddRequest.call answers (.tx topicName channelType targetHz)) n := by
  unfold addChannel
  cases channelType with
  | none => exact Adds.failed [] rfl rfl
  | some type =>
    refine (owns_bufferAlloc hinits 0 _).bind ?_
    rintro j (_ | ⟨data, dataBuffer⟩) h ⟨halloc, hnext, rfl⟩
    · have hmem := isSome_of_alloc halloc (payloadSize_pos type)
      refine Adds.failed [] ?_ ?_
      · simp [AddRequest.call, AddRequest.allocOf, AddCall.channel, Registry.newChannel, halloc]
      · simp [AddRequest.call, AddRequest.allocOf, AddCall.buffers, hmem]
    · have hmem : (answers.buffer 0 type.payloadSize).isSome :=
        isSome_of_alloc halloc (payloadSize_pos type)
      obtain rfl : j = 6 := hnext rfl
      refine (owns_infoAlloc hinits type _).bind ?_
      intro j info h hinfo
      have hbuffer := hinfo.buffer
      split
      · rename_i hmissing
        rw [if_pos hmissing] at hbuffer
        refine adds_failed hmem hinfo ?_
        simp [AddRequest.call, AddCall.channel, Registry.newChannel, hbuffer]
      · rename_i hgiven
        rw [if_neg hgiven] at hbuffer
        obtain rfl := hinfo.next hgiven
        refine (owns_allocChannel ..).bind ?_
        rintro _ _ _ (⟨hnull, rfl, rfl⟩ | ⟨hself, self, rfl, rfl⟩)
        · refine adds_failed hmem hinfo ?_
          simp [AddRequest.call, AddRequest.allocOf, AddCall.channel, Registry.newChannel, hnull]
        · have hnew : (AddRequest.call answers (.tx topicName (some type) targetHz)).channel n =
              some ⟨topicName, Registry.targetTxTime targetHz, 0, Int32.ofNat n, -1, type,
                dataBuffer, info.map (·.2)⟩ := by
            have hdata : Buffer.alloc type.payloadSize
                (AddRequest.allocOf answers type type.infoSize).data = some dataBuffer := halloc
            have hchannel : (AddRequest.allocOf answers type type.infoSize).channel = true := hself
            simp [AddRequest.call, AddCall.channel, Registry.newChannel, hdata, hchannel, hbuffer]
          dsimp only
          split
          · rename_i hzero
            exact Adds.trapped hnew (beq_iff_eq.mpr hzero)
          · rename_i hzero
            rw [hinfo.things]
            show Adds _ n _ ({.block self} + (thingsOf (info.map (·.1)).toList + thingsOf [data]))
            rw [← ChannelBlocks.things_mk]
            exact Adds.added hnew (beq_false_of_ne hzero) (by simp [ChannelBlocks.Backs])

/-- What the code of a call does is what the call is. -/
theorem owns_code (hinits : answers.InitsMutexes) (request : AddRequest) (n : Nat) :
    heapLedger.Owns answers 0 0 (request.code n) fun _ => Adds (request.call answers) n := by
  cases request with
  | tx topicName channelType targetHz =>
    exact owns_addChannel hinits n topicName channelType targetHz
  | rx topicName channelType =>
    exact (owns_addRxChannel hinits n topicName channelType).bind fun _ _ _ h => h

end HeapCode

/-! ## Runs -/

/-- The registry, the blocks of its channels, and all that is held. -/
structure Estate where
  registry : Registry
  blocks : Side → List ChannelBlocks
  held : Multiset Thing

/-- A call, the answers to its operations, and the id that it returns. -/
structure AddEvent where
  request : AddRequest
  answers : Answers
  id : Int32

/-- The call, with what came of its allocations. -/
def AddEvent.call (e : AddEvent) : AddCall := e.request.call e.answers

namespace Estate

/-- Before the first call, where other code holds `other`. -/
def start (other : Multiset Thing) : Estate := ⟨.init, fun _ => [], other⟩

/-- How the code of a call ends. -/
def exec (s : Estate) (request : AddRequest) (answers : Answers) :
    Option (Ledger.Ending Thing (Option (Option (Channel × ChannelBlocks)))) :=
  heapLedger.exec answers 0 s.held (request.code (s.registry.count request.side))

/-- A call that returns. -/
def step (s : Estate) (e : AddEvent) : Option Estate :=
  match s.exec e.request e.answers with
  | some (.returned (some none) held) => if e.id = -1 then some { s with held } else none
  | some (.returned (some (some (ch, b))) held) =>
    if e.id = ch.channelId then
      some ⟨s.registry.append e.request.side ch,
        Function.update s.blocks e.request.side (s.blocks e.request.side ++ [b]), held⟩
    else none
  | _ => none

/-- What the channels of the lists have. -/
def owned (s : Estate) : Multiset Thing :=
  ((s.blocks .tx).map ChannelBlocks.things).sum + ((s.blocks .rx).map ChannelBlocks.things).sum

end Estate

/-- The calls that add channels, with their memory. -/
def estateSys : Lts Estate AddEvent := ⟨Estate.step⟩

/-- What holds after calls: the registry is the one of `addSys` after the same calls, and what is
held are the blocks of its channels, the buffers of the calls that failed, and what other code
holds. -/
structure Accounts (other : Multiset Thing) (es : List AddEvent) (s : Estate)
    (lost : List BufferBlocks) : Prop where
  run : addSys.Reach .init (es.map fun e => (e.call, e.id)) s.registry
  backs : ∀ side, List.Forall₂ ChannelBlocks.Backs (s.blocks side) (s.registry.list side)
  held : s.held = s.owned + thingsOf lost + other
  lost : lost.length = (es.map fun e => e.call.lost).sum

namespace AddCall

variable {call : AddCall} {r : Registry} {ch : Channel} {n : Nat}

/-- A call without a new channel fails. -/
theorem run_of_failed (h : call.channel (r.count call.side) = none) :
    call.run r = some (r, -1) := by
  cases call with
  | tx topicName channelType targetHz al =>
    have hnew : Registry.newChannel r.channelCount topicName channelType targetHz al = none := h
    rw [run, Registry.addChannel_eq_new, hnew]
  | rx topicName channelType al =>
    have hnew : Registry.newRxChannel r.rxChannelCount topicName channelType al = none := h
    rw [run, Registry.addRxChannel_eq_new, hnew]

/-- A call with a new channel that does not trap adds it. -/
theorem run_of_added (h : call.channel (r.count call.side) = some ch)
    (htraps : call.traps = false) : call.run r = some (r.append call.side ch, ch.channelId) := by
  cases call with
  | tx topicName channelType targetHz al =>
    have hnew : Registry.newChannel r.channelCount topicName channelType targetHz al = some ch := h
    have hzero : targetHz ≠ 0 := ne_of_beq_false htraps
    rw [run, Registry.addChannel_eq_new, hnew]
    exact if_neg hzero
  | rx topicName channelType al =>
    have hnew : Registry.newRxChannel r.rxChannelCount topicName channelType al = some ch := h
    rw [run, Registry.addRxChannel_eq_new, hnew]
    rfl

theorem lost_of_failed (h : call.channel n = none) : call.lost = call.buffers := by
  rw [channel_eq, Option.map_eq_none_iff] at h
  rw [lost, h]
  rfl

theorem lost_of_added (h : call.channel n = some ch) : call.lost = 0 := by
  rw [channel_eq, Option.map_eq_some_iff] at h
  obtain ⟨ch', h, -⟩ := h
  rw [lost, h]
  rfl

end AddCall

theorem AddRequest.side_call (request : AddRequest) (answers : Answers) :
    (request.call answers).side = request.side := by
  rcases request with ⟨_, _ | _, _⟩ | ⟨_, _ | _⟩ <;> rfl

namespace Estate

variable {s s' : Estate} {e : AddEvent}

/-- A call ends as its code does alone, next to what is held. -/
theorem exec_eq_some {request : AddRequest} {answers : Answers} (hinits : answers.InitsMutexes)
    {x : Ledger.Ending Thing (Option (Option (Channel × ChannelBlocks)))}
    (hx : s.exec request answers = some x) : ∃ res h, x = .returned res (h + s.held) ∧
      Adds (request.call answers) (s.registry.count request.side) res h := by
  have howns := HeapCode.owns_code hinits request (s.registry.count request.side)
  obtain ⟨-, res, h, hres, hadds⟩ := howns.exec s.held (by rwa [zero_add])
  exact ⟨res, h, hres, hadds⟩

/-- What is held after a call is what its code ends with. -/
theorem exec_of_step (hs : s.step e = some s') : ∃ res held,
    s.exec e.request e.answers = some (.returned res held) ∧ s'.held = held := by
  unfold step at hs
  split at hs
  · rename_i held hexec
    obtain ⟨-, hs⟩ := Option.ite_none_right_eq_some.mp hs
    cases hs
    exact ⟨_, held, hexec, rfl⟩
  · rename_i ch b held hexec
    obtain ⟨-, hs⟩ := Option.ite_none_right_eq_some.mp hs
    cases hs
    exact ⟨_, held, hexec, rfl⟩
  · cases hs

/-- What a call does: it fails and leaves buffers, or it adds a channel with blocks. -/
theorem step_cases (hinits : e.answers.InitsMutexes) (hs : s.step e = some s') :
    (∃ lost, e.call.channel (s.registry.count e.request.side) = none ∧
      lost.length = e.call.buffers ∧ e.id = -1 ∧
      s' = { s with held := thingsOf lost + s.held }) ∨
    ∃ ch b, e.call.channel (s.registry.count e.request.side) = some ch ∧
      e.call.traps = false ∧ b.Backs ch ∧ e.id = ch.channelId ∧
      s' = ⟨s.registry.append e.request.side ch,
        Function.update s.blocks e.request.side (s.blocks e.request.side ++ [b]),
        b.things + s.held⟩ := by
  unfold step at hs
  split at hs
  · rename_i held hexec
    obtain ⟨hid, hs⟩ := Option.ite_none_right_eq_some.mp hs
    obtain ⟨res, h, hres, hadds⟩ := exec_eq_some hinits hexec
    cases hres
    cases hs
    cases hadds with
    | failed _ hnew hlost => exact .inl ⟨_, hnew, hlost, hid, rfl⟩
  · rename_i ch b held hexec
    obtain ⟨hid, hs⟩ := Option.ite_none_right_eq_some.mp hs
    obtain ⟨res, h, hres, hadds⟩ := exec_eq_some hinits hexec
    cases hres
    cases hs
    cases hadds with
    | added hnew htraps hbacks => exact .inr ⟨_, _, hnew, htraps, hbacks, hid, rfl⟩
  · cases hs

/-- The things of a list with one more channel. -/
theorem owned_append (s : Estate) (side : Side) (b : ChannelBlocks) (r : Registry)
    (held : Multiset Thing) :
    owned ⟨r, Function.update s.blocks side (s.blocks side ++ [b]), held⟩ =
      b.things + s.owned := by
  cases side <;> simp [owned] <;> abel

end Estate

namespace Accounts

variable {other : Multiset Thing} {es : List AddEvent} {s s' : Estate} {e : AddEvent}
  {lost : List BufferBlocks}

theorem start (other : Multiset Thing) : Accounts other [] (.start other) [] where
  run := .nil _
  backs side := by cases side <;> exact .nil
  held := by simp [Estate.start, Estate.owned, thingsOf]
  lost := rfl

/-- One more call is accounted for. -/
theorem step (ha : Accounts other es s lost) (hinits : e.answers.InitsMutexes)
    (hs : s.step e = some s') : ∃ lost', Accounts other (es ++ [e]) s' (lost' ++ lost) := by
  have hside : e.call.side = e.request.side := AddRequest.side_call e.request e.answers
  obtain ⟨lost', hnew, hlost, hid, rfl⟩ | ⟨ch, b, hnew, htraps, hbacks, hid, rfl⟩ :=
    Estate.step_cases hinits hs
  · refine ⟨lost', ?_, ha.backs, ?_, ?_⟩
    · rw [List.map_append]
      refine ha.run.snoc (addSys_step.mpr ?_) trivial
      show e.call.run s.registry = some (s.registry, e.id)
      rw [hid]
      exact AddCall.run_of_failed (by rwa [hside])
    · show thingsOf lost' + s.held = s.owned + thingsOf (lost' ++ lost) + other
      rw [ha.held]
      rw [thingsOf_append]
      abel
    · simp [ha.lost, hlost, AddCall.lost_of_failed hnew, Nat.add_comm]
  · refine ⟨[], ?_, ?_, ?_, ?_⟩
    · rw [List.map_append]
      refine ha.run.snoc (addSys_step.mpr ?_) trivial
      show e.call.run s.registry = some (s.registry.append e.request.side ch, e.id)
      rw [hid, ← hside]
      exact AddCall.run_of_added (by rwa [hside]) htraps
    · intro side
      show List.Forall₂ _ (Function.update s.blocks _ _ side) _
      by_cases hside : side = e.request.side
      · subst hside
        rw [Function.update_self, Registry.list_append_self]
        exact List.rel_append (ha.backs _) (.cons hbacks .nil)
      · rw [Function.update_of_ne hside, Registry.list_append_ne hside]
        exact ha.backs side
    · rw [Estate.owned_append]
      show b.things + s.held = _
      rw [ha.held, List.nil_append]
      abel
    · simp [ha.lost, AddCall.lost_of_added hnew]

end Accounts

/-- **The memory of the channels.** In every run of calls that add channels, in which any `malloc`
can fail, no call frees what is not held; what is held are the blocks of the channels, all
different, the buffers that failed calls had allocated, and what other code holds. -/
theorem memory_of_calls {other : Multiset Thing} (hother : other.Nodup) {es : List AddEvent}
    {s : Estate}
    (hr : estateSys.Run (fun _ e _ => e.answers.InitsMutexes) (.start other) es s) :
    (∀ request answers, answers.InitsMutexes → s.exec request answers ≠ some .undefined) ∧
      s.held.Nodup ∧ ∃ lost, Accounts other es s lost := by
  refine ⟨fun request answers hinits hexec => ?_, ?_, ?_⟩
  · obtain ⟨res, h, hres, -⟩ := Estate.exec_eq_some hinits hexec
    cases hres
  · refine hr.inv (I := fun s => s.held.Nodup) (fun s e s' hs hinits hnodup => ?_) hother
    obtain ⟨res, held, hexec, hheld⟩ := Estate.exec_of_step hs
    rw [hheld]
    exact Ledger.exec_nodup hexec hnodup
  · refine hr.history (I := fun es s => ∃ lost, Accounts other es s lost)
      ⟨[], .start other⟩ fun es s e s' _ hs hinits ⟨lost, ha⟩ => ?_
    obtain ⟨lost', ha'⟩ := ha.step hinits hs
    exact ⟨_, ha'⟩

/-- One of several has less than all. -/
theorem things_le_sum {β : Type} {f : β → Multiset Thing} {b : β} {bs : List β} (hb : b ∈ bs) :
    f b ≤ (bs.map f).sum :=
  List.le_sum_of_mem (List.mem_map_of_mem hb)

/-- **Freeing.** After such calls `foxdbg_buffer_free` can take a buffer of any channel. -/
theorem buffer_freed {other : Multiset Thing} (hother : other.Nodup) {es : List AddEvent}
    {s : Estate} (hr : estateSys.Run (fun _ e _ => e.answers.InitsMutexes) (.start other) es s)
    {side : Side} {b : ChannelBlocks} {buffer : BufferBlocks} (hb : b ∈ s.blocks side)
    (hbuffer : buffer ∈ b.buffers) (answers : Answers) :
    ∃ rest, s.held = buffer.things + rest ∧
      heapLedger.exec answers 0 s.held (HeapCode.bufferFree (some buffer)) =
        some (.returned () rest) := by
  obtain ⟨-, hnodup, lost, ha⟩ := memory_of_calls hother hr
  have hchannel : buffer.things ≤ b.things :=
    (things_le_sum hbuffer).trans (Multiset.le_add_left _ _)
  have hlist : b.things ≤ s.owned := by
    cases side with
    | tx => exact (things_le_sum hb).trans (Multiset.le_add_right _ _)
    | rx => exact (things_le_sum hb).trans (Multiset.le_add_left _ _)
  have hheld : s.owned ≤ s.held := by
    rw [ha.held, add_assoc]
    exact Multiset.le_add_right _ _
  obtain ⟨rest, hrest⟩ := exists_add_of_le ((hchannel.trans hlist).trans hheld)
  have hgives : (HeapCode.bufferFree (some buffer)).All fun o => ∀ r, heapLedger.gives o r = 0 := by
    iterate 6 refine ⟨fun _ => rfl, fun _ => ?_⟩
    trivial
  have hends : (heapLedger.exec answers 0 s.held (HeapCode.bufferFree (some buffer))).isSome :=
    Ledger.exec_isSome hgives hnodup
  obtain ⟨x, hx⟩ := Option.isSome_iff_exists.mp hends
  refine ⟨rest, hrest, ?_⟩
  rw [hrest] at hx ⊢
  obtain ⟨_, _, h', rfl, rfl⟩ := (HeapCode.owns_bufferFree answers buffer).exec rest hx
  rwa [zero_add] at hx

/-- Answers that give blocks from an address on, and `NULL` where `malloc` fails. -/
def answersFrom (base : Addr) (fails : Nat → Bool) : Answers
  | i, .malloc _ => if fails i then none else some (base + i, .zero)
  | _, .mutexInit .. => true
  | _, .free _ => ()
  | _, .mutexDestroy .. => ()

theorem initsMutexes_answersFrom (base : Addr) (fails : Nat → Bool) :
    (answersFrom base fails).InitsMutexes := fun _ _ _ => rfl

/-- An image whose `malloc` of the channel fails, and an integer. -/
def lostImageRun : List AddEvent :=
  [⟨.tx (ascii "a") (some .image) 10, answersFrom 0 (· == 12), -1⟩,
    ⟨.tx (ascii "b") (some .integer) 10, answersFrom 100 fun _ => false, 0⟩]

/-- The two buffers of the image are lost. -/
theorem image_lost : ∃ s,
    estateSys.Run (fun _ e _ => e.answers.InitsMutexes) (.start 0) lostImageRun s ∧
      s.held.card = 19 ∧ s.owned.card = 7 ∧
      (∀ request answers, answers.InitsMutexes → s.exec request answers ≠ some .undefined) ∧
      s.held.Nodup ∧ ∃ lost, Accounts 0 lostImageRun s lost := by
  obtain ⟨s, hr, hp⟩ := Lts.exists_reach (L := estateSys) (s := .start 0)
    (p := fun s => s.held.card == 19 && s.owned.card == 7) lostImageRun (by decide +kernel)
  rw [Bool.and_eq_true, beq_iff_eq, beq_iff_eq] at hp
  have hinits : ∀ e ∈ lostImageRun, e.answers.InitsMutexes := by
    simp [lostImageRun, initsMutexes_answersFrom]
  have hrun := hr.labels.mono fun _ e _ he => hinits e he
  exact ⟨s, hrun, hp.1, hp.2, memory_of_calls Multiset.nodup_zero hrun⟩

end Foxdbg
