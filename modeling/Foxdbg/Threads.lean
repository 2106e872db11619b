import Foxdbg.Lib.LockOrder
import Foxdbg.System

/-!
# The calls in single steps

`sys` runs a locked section as one step. Here the same functions are programs (`Prog`), in which
each lock and unlock of a mutex, each load and store of a field of `foxdbg_buffer_t` and each byte
of a `memcpy` is an operation of its own. `threads` is the machine of any number of threads that run
them. Memory is sequentially consistent.

`Cells` is the memory of a buffer. Between the two stores of `swap_buffers` both of its pointers are
the same, so it is not a `Buffer`; `Buffer.cells` embeds one.

The threads run `foxdbg_write_channel`, `foxdbg_write_channel_info`, a locked read of a buffer
(`begin_read`, a copy, `end_read`) and the senders. A sender's encoding takes no mutex: a sender
here returns the bytes that it copied (`Copied`), which `Sender.body` encodes.
-/

namespace Foxdbg

/-- The three mutexes of a buffer. -/
inductive MutexName where
  | swap
  | read
  | write
  deriving DecidableEq

/-- A buffer: the place of its channel, and which of its buffers it is. -/
abbrev BufId := Nat × BufferKind

/-- A mutex of a buffer. -/
abbrev Mutex := BufId × MutexName

/-- The memory of a `foxdbg_buffer_t` and of its allocations. -/
structure Cells where
  bufferSize : Nat
  bufferA : Mem
  bufferB : Mem
  frontBuffer : Slot
  frontBufferSize : Nat
  backBuffer : Slot
  backBufferSize : Nat

/-- The memory of a buffer. -/
def Buffer.cells (buf : Buffer) : Cells :=
  ⟨buf.bufferSize, buf.bufferA, buf.bufferB, buf.frontBuffer, buf.frontBufferSize, buf.backBuffer,
    buf.backBufferSize⟩

/-- The pointers that `swap_buffers` exchanges. -/
inductive PointerField where
  | frontBuffer
  | backBuffer
  deriving DecidableEq

/-- The sizes of a buffer. -/
inductive SizeField where
  | bufferSize
  | frontBufferSize
  | backBufferSize

namespace Cells

/-- What `foxdbg_buffer_alloc` makes of two allocations of a size. -/
def alloc (size : Nat) (a b : Mem) : Cells := ⟨size, a, b, .a, 0, .b, 0⟩

def pointer (x : Cells) : PointerField → Slot
  | .frontBuffer => x.frontBuffer
  | .backBuffer => x.backBuffer

def size (x : Cells) : SizeField → Nat
  | .bufferSize => x.bufferSize
  | .frontBufferSize => x.frontBufferSize
  | .backBufferSize => x.backBufferSize

/-- The memory of an allocation. -/
def contents (x : Cells) : Slot → Mem
  | .a => x.bufferA
  | .b => x.bufferB

def storePointer (x : Cells) (s : Slot) : PointerField → Cells
  | .frontBuffer => { x with frontBuffer := s }
  | .backBuffer => { x with backBuffer := s }

def storeSize (x : Cells) (n : Nat) : SizeField → Cells
  | .bufferSize => { x with bufferSize := n }
  | .frontBufferSize => { x with frontBufferSize := n }
  | .backBufferSize => { x with backBufferSize := n }

def storeByte (x : Cells) (s : Slot) (off : Nat) (v : UInt8) : Cells :=
  match s with
  | .a => { x with bufferA := x.bufferA.store off v }
  | .b => { x with bufferB := x.bufferB.store off v }

end Cells

/-- An atomic access to the memory of a buffer. -/
inductive Access where
  | loadPointer (f : PointerField)
  | loadSize (f : SizeField)
  | loadByte (s : Slot) (off : Nat)
  | storePointer (f : PointerField) (s : Slot)
  | storeSize (f : SizeField) (n : Nat)
  | storeByte (s : Slot) (off : Nat) (v : UInt8)

namespace Access

/-- What an access gives. -/
@[reducible] def Value : Access → Type
  | .loadPointer _ => Slot
  | .loadSize _ => Nat
  | .loadByte .. => UInt8
  | _ => Unit

/-- The value of an access, and the memory after it. -/
def effect : (a : Access) → Cells → a.Value × Cells
  | .loadPointer f, x => (x.pointer f, x)
  | .loadSize f, x => (x.size f, x)
  | .loadByte s off, x => (x.contents s off, x)
  | .storePointer f s, x => ((), x.storePointer s f)
  | .storeSize f n, x => ((), x.storeSize n f)
  | .storeByte s off v, x => ((), x.storeByte s off v)

end Access

abbrev Op := LockOp Mutex BufId Access

/-- A function of the repository in single steps. -/
abbrev Code := Prog Op (LockOp.Answer Access.Value)

namespace Code

def lock (b : BufId) (m : MutexName) : Code Unit := .op (.lock (b, m)) .ret

def unlock (b : BufId) (m : MutexName) : Code Unit := .op (.unlock (b, m)) .ret

def loadPointer (b : BufId) (f : PointerField) : Code Slot := .op (.access b (.loadPointer f)) .ret

def loadSize (b : BufId) (f : SizeField) : Code Nat := .op (.access b (.loadSize f)) .ret

def loadByte (b : BufId) (s : Slot) (off : Nat) : Code UInt8 :=
  .op (.access b (.loadByte s off)) .ret

def storePointer (b : BufId) (f : PointerField) (s : Slot) : Code Unit :=
  .op (.access b (.storePointer f s)) .ret

def storeSize (b : BufId) (f : SizeField) (n : Nat) : Code Unit :=
  .op (.access b (.storeSize f n)) .ret

def storeByte (b : BufId) (s : Slot) (off : Nat) (v : UInt8) : Code Unit :=
  .op (.access b (.storeByte s off v)) .ret

section Steps

variable {α : Type} {b : BufId} {m : MutexName} {s : Slot} {n off : Nat} {v : UInt8}
  {p : PointerField} {z : SizeField}

@[simp] theorem lock_bind {f : Unit → Code α} : lock b m >>= f = .op (.lock (b, m)) f := rfl

@[simp] theorem unlock_bind {f : Unit → Code α} : unlock b m >>= f = .op (.unlock (b, m)) f := rfl

@[simp] theorem loadPointer_bind {f : Slot → Code α} :
    loadPointer b p >>= f = .op (.access b (.loadPointer p)) f := rfl

@[simp] theorem loadSize_bind {f : Nat → Code α} :
    loadSize b z >>= f = .op (.access b (.loadSize z)) f := rfl

@[simp] theorem loadByte_bind {f : UInt8 → Code α} :
    loadByte b s off >>= f = .op (.access b (.loadByte s off)) f := rfl

@[simp] theorem storePointer_bind {f : Unit → Code α} :
    storePointer b p s >>= f = .op (.access b (.storePointer p s)) f := rfl

@[simp] theorem storeSize_bind {f : Unit → Code α} :
    storeSize b z n >>= f = .op (.access b (.storeSize z n)) f := rfl

@[simp] theorem storeByte_bind {f : Unit → Code α} :
    storeByte b s off v >>= f = .op (.access b (.storeByte s off v)) f := rfl

end Steps

/-- `memcpy` to an allocation, from an offset on. -/
def storeBytes (b : BufId) (s : Slot) : Nat → Bytes → Code Unit
  | _, [] => pure ()
  | off, v :: d => do
    storeByte b s off v
    storeBytes b s (off + 1) d

/-- `memcpy` of `n` bytes of an allocation, from an offset on. -/
def loadBytes (b : BufId) (s : Slot) : Nat → Nat → Code Bytes
  | _, 0 => pure []
  | off, n + 1 => do
    let v ← loadByte b s off
    let d ← loadBytes b s (off + 1) n
    pure (v :: d)

/-! ## `foxdbg_buffer.c` -/

/-- `foxdbg_buffer_begin_write`. -/
def beginWrite (b : BufId) : Code (Slot × Nat) := do
  lock b .swap
  lock b .write
  let data ← loadPointer b .backBuffer
  let size ← loadSize b .bufferSize
  pure (data, size)

/-- `swap_buffers`. -/
def swapBuffers (b : BufId) : Code Unit := do
  lock b .swap
  lock b .read
  lock b .write
  let tmp ← loadPointer b .frontBuffer
  let backBuffer ← loadPointer b .backBuffer
  storePointer b .frontBuffer backBuffer
  storePointer b .backBuffer tmp
  let tmpSize ← loadSize b .frontBufferSize
  let backBufferSize ← loadSize b .backBufferSize
  storeSize b .frontBufferSize backBufferSize
  storeSize b .backBufferSize tmpSize
  unlock b .write
  unlock b .read
  unlock b .swap

/-- `foxdbg_buffer_end_write`. -/
def endWrite (b : BufId) (populatedSize : Nat) : Code Unit := do
  storeSize b .backBufferSize populatedSize
  unlock b .write
  unlock b .swap
  swapBuffers b

/-- `foxdbg_buffer_begin_read`. -/
def beginRead (b : BufId) : Code (Slot × Nat) := do
  lock b .swap
  lock b .read
  let data ← loadPointer b .frontBuffer
  let size ← loadSize b .frontBufferSize
  pure (data, size)

/-- `foxdbg_buffer_end_read`. -/
def endRead (b : BufId) : Code Unit := do
  unlock b .read
  unlock b .swap

/-! ## `foxdbg.c` -/

/-- `foxdbg_write_channel`, with the channels that its walk finds. -/
def writeChannel (r : Registry) (channelId : Int32) (d : Bytes) : Code Unit :=
  match r.findData channelId with
  | none => pure ()
  | some i => do
    let (data, size) ← beginWrite (i, .data)
    if d.length ≤ size then
      storeBytes (i, .data) data 0 d
      endWrite (i, .data) d.length
    else
      endWrite (i, .data) 0

/-- `foxdbg_write_channel_info`. -/
def writeChannelInfo (r : Registry) (channelId : Int32) (d : Bytes) : Code Unit :=
  match r.findInfo channelId with
  | none => pure ()
  | some i => do
    let (data, size) ← beginWrite (i, .info)
    if d.length ≤ size then
      storeBytes (i, .info) data 0 d
    endWrite (i, .info) d.length

/-! ## The senders -/

/-- A locked section of a reader: `begin_read`, a copy if the size is admitted, and `end_read`. It
gives the allocation and the bytes. -/
def readSection (b : BufId) (admits : Nat → Bool) : Code (Option (Slot × Bytes)) := do
  let (data, size) ← beginRead b
  if admits size then
    let d ← loadBytes b data 0 size
    endRead b
    pure (some (data, d))
  else
    endRead b
    pure none

/-- What a reader has copied: the bytes of `raw_data_buffer`, those of `info_data_buffer`, and those
that it read through `data` after its sections. -/
structure Copied where
  raw : Bytes
  info : Bytes := []
  borrowed : Bytes := []

/-- A sender that encodes from `raw_data_buffer`. -/
def sendRaw (sender : Sender) (i : Nat) : Code (Option Copied) := do
  match ← readSection (i, .data) sender.admits with
  | none => pure none
  | some (_, raw) => pure (some { raw })

/-- `send_image`. -/
def sendImage (i : Nat) : Code (Option Copied) := do
  match ← readSection (i, .data) Foxdbg.sendImage.admits with
  | none => pure none
  | some (_, raw) =>
    match ← readSection (i, .info) (fun n => n ≤ sizeofInfoDataBuffer) with
    | none => pure none
    | some (_, info) => pure (some { raw, info })

/-- `send_pointcloud`. It loads the bytes that it encodes through `data`, after `end_read`. -/
def sendPointcloud (i : Nat) : Code (Option Copied) := do
  match ← readSection (i, .data) Foxdbg.sendPointcloud.admits with
  | none => pure none
  | some (data, raw) =>
    let borrowed ← loadBytes (i, .data) data 0 raw.length
    pure (some { raw, borrowed })

def sendCubes : Nat → Code (Option Copied) := sendRaw Foxdbg.sendCubes
def sendLines : Nat → Code (Option Copied) := sendRaw Foxdbg.sendLines
def sendPose : Nat → Code (Option Copied) := sendRaw Foxdbg.sendPose
def sendTransform : Nat → Code (Option Copied) := sendRaw Foxdbg.sendTransform
def sendLocation : Nat → Code (Option Copied) := sendRaw Foxdbg.sendLocation
def sendFloat : Nat → Code (Option Copied) := sendRaw Foxdbg.sendFloat
def sendInteger : Nat → Code (Option Copied) := sendRaw Foxdbg.sendInteger
def sendBool : Nat → Code (Option Copied) := sendRaw Foxdbg.sendBool

/-- The switch of `foxdbg_protocol_transmit_subscriptions`, for the channel at the place `i`. -/
def send : ChannelType → Nat → Code (Option Copied)
  | .image => sendImage
  | .pointcloud => sendPointcloud
  | .cubes => sendCubes
  | .lines => sendLines
  | .pose => sendPose
  | .transform => sendTransform
  | .location => sendLocation
  | .float => sendFloat
  | .integer => sendInteger
  | .boolean => sendBool

end Code

/-! ## The machine -/

/-- A call of a thread. -/
inductive Call where
  /-- `foxdbg_write_channel`, with the registry that it walks. -/
  | writeChannel (r : Registry) (channelId : Int32) (d : Bytes)
  /-- `foxdbg_write_channel_info`. -/
  | writeChannelInfo (r : Registry) (channelId : Int32) (d : Bytes)
  /-- A locked read of a buffer. -/
  | read (b : BufId)
  /-- The sender of a channel type. -/
  | send (ty : ChannelType) (i : Nat)

/-- The code of a call; a writer returns nothing. -/
def Call.code : Call → Code (Option Code.Copied)
  | .writeChannel r channelId d => do
    Code.writeChannel r channelId d
    pure none
  | .writeChannelInfo r channelId d => do
    Code.writeChannelInfo r channelId d
    pure none
  | .read b => do
    match ← Code.readSection b (fun _ => true) with
    | none => pure none
    | some (_, raw) => pure (some { raw })
  | .send ty i => Code.send ty i

/-- A state of the threads, with the mutexes and the memory of all buffers. -/
abbrev ThreadPool :=
  Pool Tid (Locked Tid Mutex BufId Cells) Op (LockOp.Answer Access.Value) Call (Option Code.Copied)

/-- Any number of threads that run calls, one operation at a time. -/
abbrev threads : Machine Tid (Locked Tid Mutex BufId Cells) Op (LockOp.Answer Access.Value) Call
    (Option Code.Copied) :=
  Locked.machine Tid Access.effect Call.code

end Foxdbg
