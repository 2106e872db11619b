import Mathlib.Data.Fintype.Order
import Foxdbg.Threads

/-!
# The order of the mutexes

The functions take the mutexes of a buffer in different combinations: the writers swap and write,
the readers swap and read, `swap_buffers` all three. In each the swap mutex is first and the write
mutex last, no function holds mutexes of two buffers, and each gives back the last one first
(`bufferOrder`). `foxdbg_buffer_end_write` gives back all it has before it swaps.

Every call keeps to this order on every path, whatever values it loads (`keeps_code`). So no thread
returns with a mutex, and there is no deadlock (`LockOrder.exists_step`).
-/

namespace Foxdbg

/-- The place of a mutex in the order. -/
def MutexName.rank : MutexName → Fin 3
  | .swap => 0
  | .read => 1
  | .write => 2

/-- A stack of mutexes of one buffer: at the bottom the swap mutex, and each of a higher rank than
the one below it. -/
def Nested : List Mutex → Prop
  | [] => True
  | [m] => m.2 = .swap
  | m :: m' :: h => m.1 = m'.1 ∧ m'.2.rank < m.2.rank ∧ Nested (m' :: h)

namespace Nested

variable {m m' : Mutex} {h : List Mutex}

theorem tail (hn : Nested (m :: h)) : Nested h := by
  cases h with
  | nil => trivial
  | cons m' h => exact hn.2.2

/-- The mutexes below another one are of the same buffer, and of a lower rank. -/
theorem below (hn : Nested (m :: h)) (hm : m' ∈ h) : m'.1 = m.1 ∧ m'.2.rank < m.2.rank := by
  induction h generalizing m with
  | nil => cases hm
  | cons n h ih =>
    obtain ⟨hb, hr, hn'⟩ := hn
    rcases List.mem_cons.mp hm with rfl | hm
    · exact ⟨hb.symm, hr⟩
    · obtain ⟨hb', hr'⟩ := ih hn' hm
      exact ⟨hb'.trans hb.symm, hr'.trans hr⟩

/-- A thread that holds a mutex of a buffer holds its swap mutex. -/
theorem swap_mem (hn : Nested h) (hm : m ∈ h) : (m.1, .swap) ∈ h := by
  induction h generalizing m with
  | nil => cases hm
  | cons n h ih =>
    rcases List.mem_cons.mp hm with rfl | hm
    · cases h with
      | nil =>
        obtain ⟨b, n⟩ := m
        cases (show n = .swap from hn)
        exact hm
      | cons n' h =>
        have hswap : (n'.1, .swap) ∈ n' :: h := ih hn.tail (List.mem_cons_self ..)
        rw [hn.1]
        exact List.mem_cons_of_mem _ hswap
    · exact List.mem_cons_of_mem _ (ih hn.tail hm)

end Nested

section Stacks

variable {b : BufId}

theorem nested_swap : Nested [(b, .swap)] := rfl

theorem nested_swap_read : Nested [(b, .read), (b, .swap)] :=
  ⟨rfl, show MutexName.swap.rank < MutexName.read.rank by decide, rfl⟩

theorem nested_swap_write : Nested [(b, .write), (b, .swap)] :=
  ⟨rfl, show MutexName.swap.rank < MutexName.write.rank by decide, rfl⟩

theorem nested_all : Nested [(b, .write), (b, .read), (b, .swap)] :=
  ⟨rfl, show MutexName.read.rank < MutexName.write.rank by decide, nested_swap_read⟩

end Stacks

/-- The order of the mutexes of the buffers. -/
def bufferOrder : LockOrder Mutex := ⟨Nested, trivial, Nested.tail⟩

/-- The discipline of the order. -/
abbrev order : Discipline threads (List Mutex) :=
  bufferOrder.discipline Tid Access.effect Call.code

/-! ## The functions keep to the order -/

namespace Code

section Keeps

variable {α : Type} {b : BufId} {s : Slot} {h : List Mutex}

theorem keeps_storeBytes {Q : List Mutex → Unit → Prop} (hq : Q h ()) (d : Bytes) (off : Nat) :
    order.Keeps Q h (storeBytes b s off d) := by
  induction d generalizing off with
  | nil => exact hq
  | cons v d ih =>
    rw [storeBytes, storeByte_bind, LockOrder.keeps_access]
    exact fun _ => ih (off + 1)

theorem keeps_loadBytes {Q : List Mutex → Bytes → Prop} (hq : ∀ d, Q h d) (off n : Nat) :
    order.Keeps Q h (loadBytes b s off n) := by
  induction n generalizing off Q with
  | zero => exact hq []
  | succ n ih =>
    rw [loadBytes, loadByte_bind, LockOrder.keeps_access]
    intro v
    rw [Discipline.keeps_bind]
    exact ih (fun d => hq (v :: d)) (off + 1)

theorem keeps_beginWrite {Q : List Mutex → Slot × Nat → Prop}
    (hq : ∀ v, Q [(b, .write), (b, .swap)] v) : order.Keeps Q [] (beginWrite b) := by
  simp only [beginWrite, lock_bind, loadPointer_bind, loadSize_bind, Prog.pure_eq,
    LockOrder.keeps_lock, LockOrder.keeps_access, Discipline.keeps_ret]
  exact ⟨nested_swap, nested_swap_write, fun data size => hq (data, size)⟩

theorem keeps_swapBuffers {Q : List Mutex → Unit → Prop} (hq : Q [] ()) :
    order.Keeps Q [] (swapBuffers b) := by
  simp only [swapBuffers, lock_bind, loadPointer_bind, storePointer_bind, loadSize_bind,
    storeSize_bind, unlock_bind, LockOrder.keeps_lock, LockOrder.keeps_unlock,
    LockOrder.keeps_access]
  refine ⟨nested_swap, nested_swap_read, nested_all, fun _ _ _ _ _ _ _ _ => ⟨rfl, rfl, ?_⟩⟩
  exact LockOrder.keeps_unlock.mpr ⟨rfl, hq⟩

theorem keeps_endWrite {Q : List Mutex → Unit → Prop} (hq : Q [] ()) (n : Nat) :
    order.Keeps Q [(b, .write), (b, .swap)] (endWrite b n) := by
  simp only [endWrite, storeSize_bind, unlock_bind, LockOrder.keeps_unlock, LockOrder.keeps_access]
  exact fun _ => ⟨rfl, rfl, keeps_swapBuffers hq⟩

theorem keeps_beginRead {Q : List Mutex → Slot × Nat → Prop}
    (hq : ∀ v, Q [(b, .read), (b, .swap)] v) : order.Keeps Q [] (beginRead b) := by
  simp only [beginRead, lock_bind, loadPointer_bind, loadSize_bind, Prog.pure_eq,
    LockOrder.keeps_lock, LockOrder.keeps_access, Discipline.keeps_ret]
  exact ⟨nested_swap, nested_swap_read, fun data size => hq (data, size)⟩

theorem keeps_endRead {Q : List Mutex → Unit → Prop} (hq : Q [] ()) :
    order.Keeps Q [(b, .read), (b, .swap)] (endRead b) := by
  simp only [endRead, unlock_bind, LockOrder.keeps_unlock]
  exact ⟨rfl, LockOrder.keeps_unlock.mpr ⟨rfl, hq⟩⟩

theorem keeps_writeChannel {Q : List Mutex → Unit → Prop} (hq : Q [] ()) (r : Registry)
    (channelId : Int32) (d : Bytes) : order.Keeps Q [] (writeChannel r channelId d) := by
  unfold writeChannel
  split
  · exact hq
  · rw [Discipline.keeps_bind]
    refine keeps_beginWrite fun (data, size) => ?_
    dsimp only
    split
    · rw [Discipline.keeps_bind]
      exact keeps_storeBytes (keeps_endWrite hq _) d 0
    · exact keeps_endWrite hq 0

theorem keeps_writeChannelInfo {Q : List Mutex → Unit → Prop} (hq : Q [] ()) (r : Registry)
    (channelId : Int32) (d : Bytes) : order.Keeps Q [] (writeChannelInfo r channelId d) := by
  unfold writeChannelInfo
  split
  · exact hq
  · rw [Discipline.keeps_bind]
    refine keeps_beginWrite fun (data, size) => ?_
    dsimp only
    split
    · rw [Discipline.keeps_bind]
      exact keeps_storeBytes (keeps_endWrite hq _) d 0
    · exact keeps_endWrite hq _

theorem keeps_readSection {Q : List Mutex → Option (Slot × Bytes) → Prop} (hq : ∀ v, Q [] v)
    (admits : Nat → Bool) : order.Keeps Q [] (readSection b admits) := by
  unfold readSection
  rw [Discipline.keeps_bind]
  refine keeps_beginRead fun (data, size) => ?_
  dsimp only
  split
  · rw [Discipline.keeps_bind]
    refine keeps_loadBytes (fun d => ?_) 0 size
    rw [Discipline.keeps_bind]
    exact keeps_endRead (hq _)
  · rw [Discipline.keeps_bind]
    exact keeps_endRead (hq _)

theorem keeps_sendRaw {Q : List Mutex → Option Copied → Prop} (hq : ∀ v, Q [] v) (sender : Sender)
    (i : Nat) : order.Keeps Q [] (sendRaw sender i) := by
  unfold sendRaw
  rw [Discipline.keeps_bind]
  refine keeps_readSection (fun v => ?_) sender.admits
  cases v <;> exact hq _

theorem keeps_sendImage {Q : List Mutex → Option Copied → Prop} (hq : ∀ v, Q [] v) (i : Nat) :
    order.Keeps Q [] (sendImage i) := by
  unfold sendImage
  rw [Discipline.keeps_bind]
  refine keeps_readSection (fun v => ?_) _
  cases v with
  | none => exact hq _
  | some v =>
    rw [Discipline.keeps_bind]
    refine keeps_readSection (fun v => ?_) _
    cases v <;> exact hq _

theorem keeps_sendPointcloud {Q : List Mutex → Option Copied → Prop} (hq : ∀ v, Q [] v) (i : Nat) :
    order.Keeps Q [] (sendPointcloud i) := by
  unfold sendPointcloud
  rw [Discipline.keeps_bind]
  refine keeps_readSection (fun v => ?_) _
  cases v with
  | none => exact hq _
  | some v =>
    rw [Discipline.keeps_bind]
    exact keeps_loadBytes (fun d => hq _) 0 _

theorem keeps_send {Q : List Mutex → Option Copied → Prop} (hq : ∀ v, Q [] v) (ty : ChannelType)
    (i : Nat) : order.Keeps Q [] (send ty i) := by
  cases ty with
  | image => exact keeps_sendImage hq i
  | pointcloud => exact keeps_sendPointcloud hq i
  | _ => exact keeps_sendRaw hq _ i

end Keeps

end Code

/-- Every call keeps to the order on every path, and returns with no mutex. -/
theorem keeps_code (c : Call) : order.Keeps (order.Done (fun _ _ => True) c) [] c.code := by
  have hq : ∀ v, order.Done (fun _ _ => True) c [] v := fun _ => ⟨rfl, trivial⟩
  cases c with
  | writeChannel r channelId d =>
    rw [Call.code, Discipline.keeps_bind]
    exact Code.keeps_writeChannel (hq _) r channelId d
  | writeChannelInfo r channelId d =>
    rw [Call.code, Discipline.keeps_bind]
    exact Code.keeps_writeChannelInfo (hq _) r channelId d
  | read b =>
    rw [Call.code, Discipline.keeps_bind]
    refine Code.keeps_readSection (fun v => ?_) _
    cases v <;> exact hq _
  | send ty i => exact Code.keeps_send hq ty i

/-! ## What holds in every run -/

/-- In every state of a run, the threads keep to the order. -/
theorem order_run {mem : BufId → Cells} {es : List (Move Tid Call)} {s : ThreadPool}
    (hr : threads.lts.Reach (.start (.free mem)) es s) : order.Good (fun _ _ => True) s :=
  order.run (P := fun _ => True) (fun c _ => keeps_code c) (LockOrder.Owns.free bufferOrder mem)
    (hr.mono fun _ _ _ _ _ _ _ => trivial)

/-- A thread that owns a mutex of a buffer owns its swap mutex. -/
theorem owner_swap {mem : BufId → Cells} {es : List (Move Tid Call)} {s : ThreadPool}
    (hr : threads.lts.Reach (.start (.free mem)) es s) {b : BufId} {m : MutexName} {t : Tid}
    (ho : s.shared.owner (b, m) = some t) : s.shared.owner (b, .swap) = some t := by
  obtain ⟨hs, hinv, -⟩ := order_run hr
  rw [hinv.owner_iff] at ho ⊢
  exact Nested.swap_mem (hinv.ok t) ho

/-- A thread has an operation left. -/
def Unfinished (s : ThreadPool) (t : Tid) : Prop := ∃ c o k, s.thread t = some (c, .op o k)

/-- The test of `Unfinished`. -/
def unfinished (s : ThreadPool) (t : Tid) : Bool :=
  match s.thread t with
  | some (_, .op _ _) => true
  | _ => false

theorem of_unfinished {s : ThreadPool} {t : Tid} (h : unfinished s t = true) : Unfinished s t := by
  unfold unfinished at h
  split at h
  · rename_i c o k ht
    exact ⟨c, o, k, ht⟩
  · cases h

/-- **No deadlock.** In every state of any number of threads that write, read and send on any number
of channels: if some thread is unfinished, then an unfinished thread can step. A thread that has
returned, or is about to, owns no mutex. -/
theorem no_deadlock {mem : BufId → Cells} {es : List (Move Tid Call)} {s : ThreadPool}
    (hr : threads.lts.Reach (.start (.free mem)) es s) :
    ((∃ t, Unfinished s t) → ∃ t, Unfinished s t ∧ (threads.lts.step s (.step t)).isSome) ∧
    ∀ t, ¬ Unfinished s t → ∀ m, s.shared.owner m ≠ some t := by
  have hg := order_run hr
  refine ⟨?_, fun t ht m => LockOrder.owns_nothing hg fun c o k h => ht ⟨c, o, k, h⟩⟩
  rintro ⟨t, c, o, k, ht⟩
  obtain ⟨u, hu⟩ := LockOrder.exists_step (fun m h hn m' hm => (Nested.below hn hm).2) hg ht
  refine ⟨u, ?_, hu⟩
  obtain ⟨s', hs'⟩ := Option.isSome_iff_exists.mp hu
  cases Machine.does_of_step hs' with
  | step h _ => exact ⟨_, _, _, h⟩

/-- A sender waits for the swap mutex that a reader of its buffer owns; the reader can step. -/
theorem reader_unblocks : ∃ s : ThreadPool,
    threads.lts.Reach (.start (.free fun _ => .alloc 1 .zero .zero))
      [.call 0 (.read (0, .data)), .step 0, .call 1 (.send .boolean 0)] s ∧
    (threads.lts.step s (.step 1)).isNone ∧
    ∃ t, Unfinished s t ∧ (threads.lts.step s (.step t)).isSome := by
  obtain ⟨s, hr, h⟩ := Lts.exists_reach (L := threads.lts)
    (s := .start (.free fun _ => .alloc 1 .zero .zero))
    [.call 0 (.read (0, .data)), .step 0, .call 1 (.send .boolean 0)]
    (p := fun s => (threads.lts.step s (.step 1)).isNone && unfinished s 1) (by decide +kernel)
  obtain ⟨hwait, h⟩ := Bool.and_eq_true_iff.mp h
  exact ⟨s, hr, hwait, (no_deadlock hr).1 ⟨1, of_unfinished h⟩⟩

end Foxdbg
