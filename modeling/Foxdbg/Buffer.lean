import Foxdbg.Lib.Memory
import Foxdbg.Lib.Flip

/-!
# The double buffer (`foxdbg_buffer.c`)

A buffer has two allocations of `bufferSize` bytes. Readers get the front one and its populated
size, writers the back one and its allocated size; `swapBuffers` exchanges them.

The three mutexes make the sections between `begin_*` and `end_*`, and the body of `swap_buffers`,
atomic with respect to each other (`Torn` shows it for the code in single steps); the functions here
are what the sections do. `endWrite` releases the mutexes before it swaps, so a call is two
sections: `populate` ends the first one.

`view` is the abstract flip buffer (`Flip`): the populated bytes in front and at the back.
-/

namespace Foxdbg

/-- One of the two allocations of a buffer. -/
inductive Slot where
  | a
  | b
  deriving DecidableEq

theorem Slot.a_ne_b : Slot.a ≠ Slot.b := nofun

/-- `foxdbg_buffer_t`, with the memory of its allocations. The front and the back pointer are
never the same allocation. -/
structure Buffer where
  bufferSize : Nat
  bufferA : Mem
  bufferB : Mem
  frontBuffer : Slot
  frontBufferSize : Nat
  backBuffer : Slot
  backBufferSize : Nat
  distinct : frontBuffer ≠ backBuffer

namespace Buffer

/-- `foxdbg_buffer_alloc`: `mem` has the bytes that the two allocations start with, or is `none` if
an allocation or a mutex fails. -/
def alloc (size : Nat) (mem : Option (Mem × Mem)) : Option Buffer :=
  if size = 0 then none
  else mem.map fun (a, b) => ⟨size, a, b, .a, 0, .b, 0, by decide⟩

/-- The memory of an allocation. -/
def contents (buf : Buffer) : Slot → Mem
  | .a => buf.bufferA
  | .b => buf.bufferB

/-- `memcpy` to the start of an allocation. -/
def memcpy (buf : Buffer) (s : Slot) (d : Bytes) : Buffer :=
  match s with
  | .a => { buf with bufferA := buf.bufferA.copy 0 d }
  | .b => { buf with bufferB := buf.bufferB.copy 0 d }

/-- `foxdbg_buffer_begin_write`: the back allocation and its size. -/
def beginWrite (buf : Buffer) : Slot × Nat := (buf.backBuffer, buf.bufferSize)

/-- `foxdbg_buffer_end_write` up to the release of the mutexes. -/
def populate (buf : Buffer) (populatedSize : Nat) : Buffer :=
  { buf with backBufferSize := populatedSize }

/-- `foxdbg_buffer_begin_read`: the front allocation and its populated size. -/
def beginRead (buf : Buffer) : Slot × Nat := (buf.frontBuffer, buf.frontBufferSize)

/-- `swap_buffers`. -/
def swapBuffers (buf : Buffer) : Buffer :=
  { buf with
    frontBuffer := buf.backBuffer
    frontBufferSize := buf.backBufferSize
    backBuffer := buf.frontBuffer
    backBufferSize := buf.frontBufferSize
    distinct := buf.distinct.symm }

/-- The bytes that a read section copies. -/
def readSection (buf : Buffer) : Bytes :=
  let (data, size) := buf.beginRead
  (buf.contents data).read 0 size

/-! ## Basic facts -/

variable {buf : Buffer} {s t : Slot} {d : Bytes}

@[simp] theorem contents_memcpy_self (buf : Buffer) (s : Slot) (d : Bytes) :
    (buf.memcpy s d).contents s = (buf.contents s).copy 0 d := by
  cases s <;> rfl

theorem contents_memcpy_ne (h : t ≠ s) : (buf.memcpy s d).contents t = buf.contents t := by
  cases s <;> cases t <;> first | rfl | exact absurd rfl h

@[simp] theorem memcpy_bufferSize : (buf.memcpy s d).bufferSize = buf.bufferSize := by
  cases s <;> rfl

@[simp] theorem memcpy_frontBuffer : (buf.memcpy s d).frontBuffer = buf.frontBuffer := by
  cases s <;> rfl

@[simp] theorem memcpy_backBuffer : (buf.memcpy s d).backBuffer = buf.backBuffer := by
  cases s <;> rfl

@[simp] theorem memcpy_frontBufferSize :
    (buf.memcpy s d).frontBufferSize = buf.frontBufferSize := by
  cases s <;> rfl

@[simp] theorem contents_populate (n : Nat) : (buf.populate n).contents s = buf.contents s := by
  cases s <;> rfl

@[simp] theorem contents_swapBuffers : buf.swapBuffers.contents s = buf.contents s := by
  cases s <;> rfl

@[simp] theorem length_readSection (buf : Buffer) :
    buf.readSection.length = buf.frontBufferSize := Mem.length_read ..

/-- An allocated buffer has size 0 in front and at the back. -/
theorem alloc_some {size : Nat} {mem : Option (Mem × Mem)} (h : alloc size mem = some buf) :
    0 < size ∧ buf.bufferSize = size ∧ buf.frontBufferSize = 0 ∧ buf.backBufferSize = 0 := by
  unfold alloc at h
  split at h
  · cases h
  · obtain ⟨p, -, rfl⟩ := Option.map_eq_some_iff.mp h
    exact ⟨by omega, rfl, rfl, rfl⟩

/-! ## The flip buffer -/

/-- The populated bytes in front and at the back. -/
def view (buf : Buffer) : Flip Bytes :=
  ⟨(buf.contents buf.frontBuffer).read 0 buf.frontBufferSize,
    (buf.contents buf.backBuffer).read 0 buf.backBufferSize⟩

theorem readSection_eq (buf : Buffer) : buf.readSection = buf.view.front := rfl

/-- A swap flips. -/
@[simp] theorem view_swapBuffers (buf : Buffer) : buf.swapBuffers.view = buf.view.flip := by
  simp only [view, contents_swapBuffers]
  rfl

/-- A full write section fills the back. -/
theorem view_fill (buf : Buffer) (d : Bytes) :
    ((buf.memcpy buf.backBuffer d).populate d.length).view = buf.view.fill d := by
  have hf : (buf.memcpy buf.backBuffer d).contents buf.frontBuffer =
      buf.contents buf.frontBuffer := contents_memcpy_ne buf.distinct
  simp only [view, Flip.fill, populate]
  congr 1
  · show ((buf.memcpy buf.backBuffer d).contents (buf.memcpy buf.backBuffer d).frontBuffer).read 0
      (buf.memcpy buf.backBuffer d).frontBufferSize = _
    rw [memcpy_frontBuffer, memcpy_frontBufferSize, hf]
  · show ((buf.memcpy buf.backBuffer d).contents (buf.memcpy buf.backBuffer d).backBuffer).read 0
      d.length = d
    rw [memcpy_backBuffer, contents_memcpy_self, Mem.read_copy]

end Buffer

end Foxdbg
