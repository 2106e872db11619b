import Foxdbg.Deadlock
import Foxdbg.Lib.Sections

/-!
# No torn reads

The swap mutex guards a buffer: `begin_write`, `begin_read` and `swap_buffers` take it first, and
give it back last. So a section of the code in single steps is the section of the coarse model: from
the cells of a `Buffer` to those of `Buffer.beginRead`, `Buffer.memcpy`, `Buffer.swapBuffers`
(`keeps_*`). Between the sections of a buffer its cells are a `Buffer`, and the populated bytes of a
data buffer, in front and at the back, are nothing or one accepted payload (`Rest`).

Inside a section only the two stores to the pointers in `swap_buffers` leave what is no `Buffer`:
after the first one both pointers are the same.
-/

namespace Foxdbg

namespace Cells

/-- `memcpy` to an allocation, from an offset on. -/
def copy (x : Cells) (s : Slot) (off : Nat) (d : Bytes) : Cells :=
  match s with
  | .a => { x with bufferA := x.bufferA.copy off d }
  | .b => { x with bufferB := x.bufferB.copy off d }

variable {x : Cells} {s : Slot} {off : Nat}

theorem copy_nil : x.copy s off [] = x := by
  cases s <;> simp [copy]

theorem copy_cons (v : UInt8) (d : Bytes) :
    x.copy s off (v :: d) = (x.storeByte s off v).copy s (off + 1) d := by
  cases s <;> simp [copy, storeByte, Mem.copy_cons]

@[simp] theorem storeByte_frontBuffer (v : UInt8) :
    (x.storeByte s off v).frontBuffer = x.frontBuffer := by
  cases s <;> rfl

@[simp] theorem storeByte_backBuffer (v : UInt8) :
    (x.storeByte s off v).backBuffer = x.backBuffer := by
  cases s <;> rfl

end Cells

theorem Buffer.cells_memcpy (buf : Buffer) (s : Slot) (d : Bytes) :
    (buf.memcpy s d).cells = buf.cells.copy s 0 d := by
  cases s <;> rfl

theorem Buffer.contents_cells (buf : Buffer) (s : Slot) :
    buf.cells.contents s = buf.contents s := by
  cases s <;> rfl

/-! ## A buffer between its sections -/

/-- A payload that satisfies `P`, or nothing. -/
def Untorn (P : Bytes → Prop) (d : Bytes) : Prop := d = [] ∨ P d

section Rest

variable {size : BufId → Nat} {P : BufId → Bytes → Prop} {b : BufId} {buf : Buffer} {d : Bytes}
  {i : Nat}

/-- What holds of a buffer between its sections: its capacity, and that of a data buffer the front
and the back are whole. -/
structure Rest (size : BufId → Nat) (P : BufId → Bytes → Prop) (b : BufId) (buf : Buffer) :
    Prop where
  bufferSize : buf.bufferSize = size b
  front : b.2 = .data → Untorn (P b) buf.view.front
  back : b.2 = .data → Untorn (P b) buf.view.back

namespace Rest

theorem swapBuffers (h : Rest size P b buf) : Rest size P b buf.swapBuffers where
  bufferSize := h.bufferSize
  front hb := by
    rw [Buffer.view_swapBuffers]
    exact h.back hb
  back hb := by
    rw [Buffer.view_swapBuffers]
    exact h.front hb

/-- A data section leaves the payload at the back, or nothing. -/
theorem dataSection (h : Rest size P (i, .data) buf)
    (hd : d.length ≤ size (i, .data) → P (i, .data) d) :
    Rest size P (i, .data) (BufferKind.data.section d buf) := by
  have hview : ∃ d', Untorn (P (i, .data)) d' ∧
      (BufferKind.data.section d buf).view = buf.view.fill d' := by
    by_cases hfit : d.length ≤ buf.bufferSize
    · exact ⟨d, .inr (hd (h.bufferSize ▸ hfit)), view_section hfit⟩
    · exact ⟨[], .inl rfl, view_dataSection hfit⟩
  obtain ⟨d', hd', hview⟩ := hview
  refine ⟨by rw [section_bufferSize, h.bufferSize], fun hb => ?_, fun _ => ?_⟩
  · rw [hview]
    exact h.front hb
  · rw [hview]
    exact hd'

theorem infoSection (h : Rest size P (i, .info) buf) :
    Rest size P (i, .info) (BufferKind.info.section d buf) :=
  ⟨by rw [section_bufferSize, h.bufferSize], nofun, nofun⟩

end Rest

end Rest

/-! ## The sections -/

/-- A buffer is guarded by its swap mutex. In a section, its pointers differ or the next operation
is the second store of `swap_buffers` to them. -/
def sections (size : BufId → Nat) (P : BufId → Bytes → Prop) :
    Guarded Mutex BufId Access Cells where
  guard b := (b, .swap)
  injective _ _ h := (Prod.mk.inj h).1
  Inv b x := ∃ buf, Rest size P b buf ∧ x = buf.cells
  point b x o := x.frontBuffer ≠ x.backBuffer ∨ ∃ s, o = .access b (.storePointer .backBuffer s)

/-- The discipline of the sections. -/
abbrev sectioned (size : BufId → Nat) (P : BufId → Bytes → Prop) :
    Discipline threads (Option (BufId × Cells)) :=
  (sections size P).discipline Tid Access.effect Call.code

namespace Code

section Keeps

variable {size : BufId → Nat} {P : BufId → Bytes → Prop} {b : BufId} {buf : Buffer} {s : Slot}
  {x : Cells}

theorem not_guard {m : MutexName} (hm : m ≠ .swap) (b' : BufId) :
    (b, m) ≠ (sections size P).guard b' :=
  fun h => hm (Prod.mk.inj h).2

/-- A section starts with the cells of a buffer at rest. -/
theorem keeps_lockSwap {α : Type} {Q : Option (BufId × Cells) → α → Prop} {k : Unit → Code α}
    (h : ∀ buf, Rest size P b buf → (sectioned size P).Keeps Q (some (b, buf.cells)) (k ())) :
    (sectioned size P).Keeps Q none (.op (.lock (b, .swap)) k) := by
  refine (Guarded.keeps_enter (G := sections size P)).mpr ?_
  rintro _ ⟨buf, hrest, rfl⟩
  exact h buf hrest

/-- A section ends with the cells of a buffer at rest. -/
theorem keeps_unlockSwap {α : Type} {Q : Option (BufId × Cells) → α → Prop} {k : Unit → Code α}
    (hrest : Rest size P b buf) (h : (sectioned size P).Keeps Q none (k ())) :
    (sectioned size P).Keeps Q (some (b, buf.cells)) (.op (.unlock (b, .swap)) k) :=
  (Guarded.keeps_leave (G := sections size P)).mpr ⟨⟨.inl buf.distinct, buf, hrest, rfl⟩, h⟩

theorem keeps_loadsOwn {Q : Option (BufId × Cells) → Bytes → Prop}
    (hx : x.frontBuffer ≠ x.backBuffer) {off n : Nat}
    (hq : Q (some (b, x)) ((x.contents s).read off n)) :
    (sectioned size P).Keeps Q (some (b, x)) (loadBytes b s off n) := by
  induction n generalizing off Q with
  | zero => exact hq
  | succ n ih =>
    rw [loadBytes, loadByte_bind]
    refine Guarded.keeps_own.mpr ⟨.inl hx, ?_⟩
    rw [Discipline.keeps_bind]
    refine ih ?_
    rw [Mem.read_succ] at hq
    exact hq

theorem keeps_storesOwn {Q : Option (BufId × Cells) → Unit → Prop}
    (hx : x.frontBuffer ≠ x.backBuffer) {off : Nat} {d : Bytes}
    (hq : Q (some (b, x.copy s off d)) ()) :
    (sectioned size P).Keeps Q (some (b, x)) (storeBytes b s off d) := by
  induction d generalizing off x with
  | nil => rwa [Cells.copy_nil] at hq
  | cons v d ih =>
    rw [storeBytes, storeByte_bind]
    refine Guarded.keeps_own.mpr ⟨.inl hx, ?_⟩
    refine ih ?_ ?_
    · simpa [Access.effect] using hx
    · rwa [Cells.copy_cons] at hq

/-- `begin_write` gives what `Buffer.beginWrite` does. -/
theorem sectioned_beginWrite {Q : Option (BufId × Cells) → Slot × Nat → Prop}
    (hq : ∀ buf, Rest size P b buf → Q (some (b, buf.cells)) buf.beginWrite) :
    (sectioned size P).Keeps Q none (beginWrite b) := by
  simp only [beginWrite, lock_bind, loadPointer_bind, loadSize_bind, Prog.pure_eq]
  refine keeps_lockSwap fun buf hrest => ?_
  refine (Guarded.keeps_lock (not_guard (by decide))).mpr ⟨.inl buf.distinct, ?_⟩
  refine Guarded.keeps_own.mpr ⟨.inl buf.distinct, ?_⟩
  refine Guarded.keeps_own.mpr ⟨.inl buf.distinct, ?_⟩
  exact hq buf hrest

/-- `swap_buffers` is `Buffer.swapBuffers`. -/
theorem sectioned_swapBuffers {Q : Option (BufId × Cells) → Unit → Prop} (hq : Q none ()) :
    (sectioned size P).Keeps Q none (swapBuffers b) := by
  simp only [swapBuffers, lock_bind, loadPointer_bind, storePointer_bind, loadSize_bind,
    storeSize_bind, unlock_bind]
  refine keeps_lockSwap fun buf hrest => ?_
  refine (Guarded.keeps_lock (not_guard (by decide))).mpr ⟨.inl buf.distinct, ?_⟩
  refine (Guarded.keeps_lock (not_guard (by decide))).mpr ⟨.inl buf.distinct, ?_⟩
  refine Guarded.keeps_own.mpr ⟨.inl buf.distinct, ?_⟩
  refine Guarded.keeps_own.mpr ⟨.inl buf.distinct, ?_⟩
  refine Guarded.keeps_own.mpr ⟨.inl buf.distinct, ?_⟩
  -- both pointers are the back buffer now
  refine Guarded.keeps_own.mpr ⟨.inr ⟨_, rfl⟩, ?_⟩
  refine Guarded.keeps_own.mpr ⟨.inl buf.distinct.symm, ?_⟩
  refine Guarded.keeps_own.mpr ⟨.inl buf.distinct.symm, ?_⟩
  refine Guarded.keeps_own.mpr ⟨.inl buf.distinct.symm, ?_⟩
  refine Guarded.keeps_own.mpr ⟨.inl buf.distinct.symm, ?_⟩
  refine (Guarded.keeps_unlock (not_guard (by decide))).mpr ⟨.inl buf.distinct.symm, ?_⟩
  refine (Guarded.keeps_unlock (not_guard (by decide))).mpr ⟨.inl buf.distinct.symm, ?_⟩
  exact keeps_unlockSwap hrest.swapBuffers hq

/-- `end_write` is `Buffer.populate`, and a swap. -/
theorem sectioned_endWrite {Q : Option (BufId × Cells) → Unit → Prop} (hq : Q none ()) {n : Nat}
    (hrest : Rest size P b (buf.populate n)) :
    (sectioned size P).Keeps Q (some (b, buf.cells)) (endWrite b n) := by
  simp only [endWrite, storeSize_bind, unlock_bind]
  refine Guarded.keeps_own.mpr ⟨.inl buf.distinct, ?_⟩
  refine (Guarded.keeps_unlock (not_guard (by decide))).mpr ⟨.inl buf.distinct, ?_⟩
  exact keeps_unlockSwap hrest (sectioned_swapBuffers hq)

/-- `begin_read` gives what `Buffer.beginRead` does. -/
theorem sectioned_beginRead {Q : Option (BufId × Cells) → Slot × Nat → Prop}
    (hq : ∀ buf, Rest size P b buf → Q (some (b, buf.cells)) buf.beginRead) :
    (sectioned size P).Keeps Q none (beginRead b) := by
  simp only [beginRead, lock_bind, loadPointer_bind, loadSize_bind, Prog.pure_eq]
  refine keeps_lockSwap fun buf hrest => ?_
  refine (Guarded.keeps_lock (not_guard (by decide))).mpr ⟨.inl buf.distinct, ?_⟩
  refine Guarded.keeps_own.mpr ⟨.inl buf.distinct, ?_⟩
  refine Guarded.keeps_own.mpr ⟨.inl buf.distinct, ?_⟩
  exact hq buf hrest

theorem sectioned_endRead {Q : Option (BufId × Cells) → Unit → Prop} (hq : Q none ())
    (hrest : Rest size P b buf) :
    (sectioned size P).Keeps Q (some (b, buf.cells)) (endRead b) := by
  simp only [endRead, unlock_bind]
  refine (Guarded.keeps_unlock (not_guard (by decide))).mpr ⟨.inl buf.distinct, ?_⟩
  exact keeps_unlockSwap hrest hq

/-- A locked section of a reader gives what `Buffer.readSection` does. -/
theorem sectioned_readSection {Q : Option (BufId × Cells) → Option (Slot × Bytes) → Prop}
    {admits : Nat → Bool} (hnone : Q none none)
    (hsome : ∀ buf, Rest size P b buf → Q none (some (buf.frontBuffer, buf.readSection))) :
    (sectioned size P).Keeps Q none (readSection b admits) := by
  unfold readSection
  rw [Discipline.keeps_bind]
  refine sectioned_beginRead fun buf hrest => ?_
  change Discipline.Keeps _ _ _ (if admits buf.frontBufferSize then _ else _)
  split
  · rw [Discipline.keeps_bind]
    refine keeps_loadsOwn buf.distinct ?_
    rw [Discipline.keeps_bind]
    refine sectioned_endRead ?_ hrest
    rw [Buffer.contents_cells]
    exact hsome buf hrest
  · rw [Discipline.keeps_bind]
    exact sectioned_endRead hnone hrest

variable {r : Registry} {channelId : Int32} {d : Bytes}

/-- `foxdbg_write_channel` is the write section of the coarse model, and a swap. -/
theorem sectioned_writeChannel {Q : Option (BufId × Cells) → Unit → Prop} (hq : Q none ())
    (hP : ∀ i, r.findData channelId = some i → d.length ≤ size (i, .data) → P (i, .data) d) :
    (sectioned size P).Keeps Q none (writeChannel r channelId d) := by
  unfold writeChannel
  split
  · exact hq
  · rename_i i hfind
    rw [Discipline.keeps_bind]
    refine sectioned_beginWrite fun buf hrest => ?_
    have hsection := hrest.dataSection (hP i hfind)
    change Discipline.Keeps _ _ _ (if d.length ≤ buf.bufferSize then _ else _)
    split
    · rename_i hfit
      rw [Discipline.keeps_bind]
      refine keeps_storesOwn buf.distinct ?_
      rw [← Buffer.cells_memcpy]
      rw [section_of_fits hfit] at hsection
      exact sectioned_endWrite hq hsection
    · rename_i hfit
      rw [dataSection_of_not_fits hfit] at hsection
      exact sectioned_endWrite hq hsection

/-- `foxdbg_write_channel_info` is the write section of the coarse model, and a swap. -/
theorem sectioned_writeChannelInfo {Q : Option (BufId × Cells) → Unit → Prop} (hq : Q none ()) :
    (sectioned size P).Keeps Q none (writeChannelInfo r channelId d) := by
  unfold writeChannelInfo
  split
  · exact hq
  · rename_i i hfind
    rw [Discipline.keeps_bind]
    refine sectioned_beginWrite fun buf hrest => ?_
    have hsection := hrest.infoSection (d := d)
    change Discipline.Keeps _ _ _ (if d.length ≤ buf.bufferSize then _ else _)
    split
    · rename_i hfit
      rw [Discipline.keeps_bind]
      refine keeps_storesOwn buf.distinct ?_
      rw [← Buffer.cells_memcpy]
      rw [section_of_fits hfit] at hsection
      exact sectioned_endWrite hq hsection
    · rename_i hfit
      rw [infoSection_of_not_fits hfit] at hsection
      exact sectioned_endWrite hq hsection

/-- Loads outside of the sections. -/
theorem sectioned_loadBytes {Q : Option (BufId × Cells) → Bytes → Prop} (hq : ∀ d, Q none d)
    (off n : Nat) : (sectioned size P).Keeps Q none (loadBytes b s off n) := by
  induction n generalizing off Q with
  | zero => exact hq []
  | succ n ih =>
    rw [loadBytes, loadByte_bind]
    refine (Guarded.keeps_load fun _ => rfl).mpr fun v => ?_
    rw [Discipline.keeps_bind]
    exact ih (fun d => hq (v :: d)) (off + 1)

end Keeps

/-! ## The senders -/

section Senders

variable {size : BufId → Nat} {P : BufId → Bytes → Prop} {i : Nat}
  {Q : Option (BufId × Cells) → Option Copied → Prop}

/-- What a data section of a sender gives is whole. -/
theorem sectioned_dataSection {Q : Option (BufId × Cells) → Option (Slot × Bytes) → Prop}
    {admits : Nat → Bool} (hnone : Q none none)
    (hsome : ∀ data d, Untorn (P (i, .data)) d → Q none (some (data, d))) :
    (sectioned size P).Keeps Q none (readSection (i, .data) admits) :=
  sectioned_readSection hnone fun _ hrest => hsome _ _ (hrest.front rfl)

theorem sectioned_send (hnone : Q none none)
    (hsome : ∀ copied, Untorn (P (i, .data)) copied.raw → Q none (some copied)) (ty : ChannelType) :
    (sectioned size P).Keeps Q none (send ty i) := by
  have hraw : ∀ sender, (sectioned size P).Keeps Q none (sendRaw sender i) := by
    intro sender
    unfold sendRaw
    rw [Discipline.keeps_bind]
    exact sectioned_dataSection hnone fun _ _ hd => hsome _ hd
  cases ty with
  | image =>
    unfold send sendImage
    rw [Discipline.keeps_bind]
    refine sectioned_dataSection hnone fun _ raw hraw => ?_
    rw [Discipline.keeps_bind]
    exact sectioned_readSection hnone fun _ _ => hsome _ hraw
  | pointcloud =>
    unfold send sendPointcloud
    rw [Discipline.keeps_bind]
    refine sectioned_dataSection hnone fun _ raw hraw => ?_
    rw [Discipline.keeps_bind]
    exact sectioned_loadBytes (fun _ => hsome _ hraw) 0 _
  | _ => exact hraw _

end Senders

end Code

/-! ## The calls -/

/-- The buffer whose bytes a reader returns. -/
def Call.source : Call → Option BufId
  | .read b => some b
  | .send _ i => some (i, .data)
  | _ => none

/-- The bytes that a call returns are whole, if they are of a data buffer. -/
def Returns (P : BufId → Bytes → Prop) (c : Call) (v : Option Code.Copied) : Prop :=
  ∀ i copied, c.source = some (i, .data) → v = some copied → Untorn (P (i, .data)) copied.raw

/-- A payload that a call of `foxdbg_write_channel` writes satisfies `P`. -/
def Writes (size : BufId → Nat) (P : BufId → Bytes → Prop) (c : Call) : Prop :=
  ∀ r channelId d i, c = .writeChannel r channelId d → r.findData channelId = some i →
    d.length ≤ size (i, .data) → P (i, .data) d

section Calls

variable {size : BufId → Nat} {P : BufId → Bytes → Prop}

theorem returns_none (c : Call) : Returns P c none := by
  rintro _ _ _ ⟨⟩

theorem sectioned_code {c : Call} (hc : Writes size P c) :
    (sectioned size P).Keeps ((sectioned size P).Done (Returns P) c) none c.code := by
  cases c with
  | writeChannel r channelId d =>
    rw [Call.code, Discipline.keeps_bind]
    exact Code.sectioned_writeChannel ⟨rfl, returns_none _⟩ (hc r channelId d · rfl)
  | writeChannelInfo r channelId d =>
    rw [Call.code, Discipline.keeps_bind]
    exact Code.sectioned_writeChannelInfo ⟨rfl, returns_none _⟩
  | read b =>
    rw [Call.code, Discipline.keeps_bind]
    refine Code.sectioned_readSection ⟨rfl, returns_none _⟩ fun buf hrest => ⟨rfl, ?_⟩
    rintro i _ hsource ⟨⟩
    cases hsource
    exact hrest.front rfl
  | send ty i =>
    refine Code.sectioned_send ⟨rfl, returns_none _⟩ (fun copied hraw => ⟨rfl, ?_⟩) ty
    rintro _ _ hsource ⟨⟩
    cases hsource
    exact hraw

end Calls

/-! ## Readers only load -/

/-- An operation that stores nothing to a buffer. -/
def Loads (o : Op) : Prop := ∀ b a, o = .access b a → ∀ x, (a.effect x).2 = x

theorem loads_access {b : BufId} {a : Access} (ha : ∀ x, (a.effect x).2 = x) :
    Loads (.access b a) := by
  rintro _ _ ⟨⟩
  exact ha

namespace Code

variable {b : BufId} {s : Slot}

theorem loads_loadBytes (off n : Nat) : (loadBytes b s off n).All Loads := by
  induction n generalizing off with
  | zero => trivial
  | succ n ih => exact ⟨loads_access fun _ => rfl, fun _ => (ih (off + 1)).bind fun _ => trivial⟩

theorem loads_readSection (admits : Nat → Bool) : (readSection b admits).All Loads := by
  have hbegin : (beginRead b).All Loads :=
    ⟨nofun, fun _ => ⟨nofun, fun _ => ⟨loads_access fun _ => rfl, fun _ =>
      ⟨loads_access fun _ => rfl, fun _ => trivial⟩⟩⟩⟩
  have hend : (endRead b).All Loads := ⟨nofun, fun _ => ⟨nofun, fun _ => trivial⟩⟩
  refine hbegin.bind fun (data, size) => ?_
  dsimp only
  split
  · exact (loads_loadBytes 0 size).bind fun _ => hend.bind fun _ => trivial
  · exact hend.bind fun _ => trivial

theorem loads_send (ty : ChannelType) (i : Nat) : (send ty i).All Loads := by
  have hraw : ∀ sender, (sendRaw sender i).All Loads := by
    intro sender
    refine (loads_readSection _).bind fun v => ?_
    cases v <;> trivial
  cases ty with
  | image =>
    refine (loads_readSection _).bind fun v => ?_
    cases v with
    | none => trivial
    | some v =>
      refine (loads_readSection _).bind fun v => ?_
      cases v <;> trivial
  | pointcloud =>
    refine (loads_readSection _).bind fun v => ?_
    cases v with
    | none => trivial
    | some v => exact (loads_loadBytes 0 _).bind fun _ => trivial
  | _ => exact hraw _

end Code

theorem loads_code {c : Call} (hc : c.source.isSome) : c.code.All Loads := by
  cases c with
  | writeChannel => cases hc
  | writeChannelInfo => cases hc
  | read b =>
    refine (Code.loads_readSection _).bind fun v => ?_
    cases v <;> trivial
  | send ty i => exact Code.loads_send ty i

/-! ## What holds in every run -/

/-- The threads run on buffers of these sizes that nobody has written. -/
def started (size : BufId → Nat) (mem : BufId → Mem × Mem) : ThreadPool :=
  .start (.free fun b => .alloc (size b) (mem b).1 (mem b).2)

/-- A thread is between the `begin_read` and the `end_read` of a buffer. -/
def Reading (s : ThreadPool) (t : Tid) (b : BufId) : Prop :=
  (∃ c p, s.thread t = some (c, p) ∧ c.source.isSome) ∧ s.shared.owner (b, .read) = some t

/-- A thread is between the two stores of `swap_buffers` to the pointers. -/
def BetweenStores (s : ThreadPool) (t : Tid) (b : BufId) : Prop :=
  ∃ c slot k, s.thread t = some (c, .op (.access b (.storePointer .backBuffer slot)) k)

/-- A call of `foxdbg_write_channel` with this payload wrote, or writes, to the data buffer of a
channel, and the payload fits. -/
def AcceptedWrite (size : BufId → Nat) (es : List (Move Tid Call)) (i : Nat) (d : Bytes) : Prop :=
  ∃ t r channelId, .call t (.writeChannel r channelId d) ∈ es ∧ r.findData channelId = some i ∧
    d.length ≤ size (i, .data)

section Runs

variable {size : BufId → Nat} {mem : BufId → Mem × Mem} {es : List (Move Tid Call)}
  {s s' : ThreadPool} {l : Move Tid Call} {t : Tid} {b : BufId}

theorem sectioned_run (hr : threads.lts.Reach (started size mem) es s) :
    (sectioned size fun b => AcceptedWrite size es b.1).Good
      (Returns fun b => AcceptedWrite size es b.1) s := by
  have hstart : ∀ b, (sections size fun b => AcceptedWrite size es b.1).Inv b
      (.alloc (size b) (mem b).1 (mem b).2) := by
    intro b
    let buf : Buffer := ⟨size b, (mem b).1, (mem b).2, .a, 0, .b, 0, by decide⟩
    exact ⟨buf, ⟨rfl, fun _ => .inl rfl, fun _ => .inl rfl⟩, rfl⟩
  have hcalls : threads.lts.Run (Machine.Calls (Writes size fun b => AcceptedWrite size es b.1))
      (started size mem) es s := by
    refine hr.labels.mono fun _ l _ hl => ?_
    rintro t _ rfl r channelId d i rfl hfind hfit
    exact ⟨t, r, channelId, hl, hfind, hfit⟩
  exact Discipline.run (fun _ hc => sectioned_code hc) (Guarded.Knows.start hstart) hcalls

/-- No step changes a buffer while a thread reads it. -/
theorem mem_eq_of_reading (hr : threads.lts.Reach (started size mem) es s) (ht : Reading s t b)
    (h : threads.lts.step s l = some s') : s'.shared.mem b = s.shared.mem b := by
  obtain ⟨⟨c, p, hcall, hsource⟩, ho⟩ := ht
  refine Guarded.mem_eq (sectioned_run hr) (owner_swap hr ho) h fun c' a k hop => ?_
  cases hcall.symm.trans hop
  have hloads := Machine.rest_run (P := fun _ => True)
    (X := fun (c : Call) p => c.source.isSome → Prog.All Loads p) (fun c _ hc => loads_code hc)
    (fun _ _ _ r h hc => (h hc).2 r) (hr.mono fun _ _ _ _ _ _ _ => trivial)
  exact (hloads t c _ hop hsource).1 b a rfl

/-- The pointers of a buffer differ unless a thread is between its stores to them. -/
theorem pointers_differ (hr : threads.lts.Reach (started size mem) es s)
    (hb : ∀ t, ¬ BetweenStores s t b) :
    (s.shared.mem b).frontBuffer ≠ (s.shared.mem b).backBuffer := by
  obtain ⟨buf, -, hx⟩ | ⟨t, c, o, k, ht, hpoint | ⟨slot, rfl⟩⟩ :=
    Guarded.inv_or_point (sectioned_run hr) b
  · rw [hx]
    exact buf.distinct
  · exact hpoint
  · exact absurd ⟨c, slot, k, ht⟩ (hb t)

/-- A read that is complete gives nothing, or one accepted payload. -/
theorem read_accepted (hr : threads.lts.Reach (started size mem) es s) {c : Call}
    {copied : Code.Copied} {i : Nat} (ht : s.thread t = some (c, .ret (some copied)))
    (hsource : c.source = some (i, .data)) :
    copied.raw = [] ∨ AcceptedWrite size es i copied.raw := by
  obtain ⟨τs, -, hc⟩ := sectioned_run hr
  have hdone := hc t
  rw [ht] at hdone
  exact hdone.2 i copied hsource rfl

/-- **No torn reads.** In every state of any number of threads that write and read, in any
interleaving of their single steps: no step changes a buffer between a thread's `begin_read` and
`end_read`; the pointers of a buffer are its two allocations unless a thread is between the stores
to them; and a completed read of a data buffer gives nothing, or the payload of one accepted
write. -/
theorem no_torn_reads (hr : threads.lts.Reach (started size mem) es s) :
    (∀ t b, Reading s t b → ∀ l s', threads.lts.step s l = some s' →
      s'.shared.mem b = s.shared.mem b) ∧
    (∀ b, (∀ t, ¬ BetweenStores s t b) →
      (s.shared.mem b).frontBuffer ≠ (s.shared.mem b).backBuffer) ∧
    ∀ t c copied i, s.thread t = some (c, .ret (some copied)) → c.source = some (i, .data) →
      copied.raw = [] ∨ AcceptedWrite size es i copied.raw :=
  ⟨fun _ _ ht _ _ h => mem_eq_of_reading hr ht h, fun _ hb => pointers_differ hr hb,
    fun _ _ _ _ ht hsource => read_accepted hr ht hsource⟩

end Runs

/-- A registry with one boolean channel. -/
def oneChannel : Registry :=
  (Registry.init.addChannel (ascii "a") (some .boolean) 10 .zeroed).elim .init Prod.fst

/-- A read of a buffer has given these bytes. -/
def readDone (b : BufId) (d : Bytes) : Option (Call × Code (Option Code.Copied)) → Bool
  | some (.read b', .ret (some copied)) => b' == b && copied.raw == d
  | _ => false

theorem readDone_eq_true {b : BufId} {d : Bytes} {x : Option (Call × Code (Option Code.Copied))}
    (h : readDone b d x = true) :
    ∃ copied, x = some (.read b, .ret (some copied)) ∧ copied.raw = d := by
  unfold readDone at h
  split at h
  · rename_i b' copied
    simp only [Bool.and_eq_true, beq_iff_eq] at h
    obtain ⟨rfl, hraw⟩ := h
    exact ⟨copied, rfl, hraw⟩
  · cases h

/-- A write of one byte that thread 0 has made, and a read that thread 1 has completed. -/
def readRun : List (Move Tid Call) :=
  .call 0 (.writeChannel oneChannel 0 [1]) :: List.replicate 22 (.step 0) ++
    .call 1 (.read (0, .data)) :: List.replicate 7 (.step 1)

theorem written_byte_read : ∃ (s : ThreadPool) (copied : Code.Copied),
    threads.lts.Reach (started (fun _ => 1) fun _ => (.zero, .zero)) readRun s ∧
    s.thread 1 = some (.read (0, .data), .ret (some copied)) ∧ copied.raw = [1] ∧
    AcceptedWrite (fun _ => 1) readRun 0 copied.raw := by
  obtain ⟨s, hr, h⟩ := Lts.exists_reach (L := threads.lts)
    (s := started (fun _ => 1) fun _ => (.zero, .zero)) readRun
    (p := fun s => readDone (0, .data) [1] (s.thread 1)) (by decide +kernel)
  obtain ⟨copied, ht, hraw⟩ := readDone_eq_true h
  refine ⟨s, copied, hr, ht, hraw, ?_⟩
  refine ((no_torn_reads hr).2.2 1 _ copied 0 ht rfl).resolve_left fun hnil => ?_
  rw [hraw] at hnil
  cases hnil

/-- Between the two stores of `swap_buffers`, both pointers are the same. -/
theorem same_pointers : ∃ s : ThreadPool,
    threads.lts.Reach (started (fun _ => 1) fun _ => (.zero, .zero))
      (.call 0 (.writeChannel oneChannel 0 [1]) :: List.replicate 14 (.step 0)) s ∧
    (s.shared.mem (0, .data)).frontBuffer = (s.shared.mem (0, .data)).backBuffer := by
  obtain ⟨s, hr, h⟩ := Lts.exists_reach (L := threads.lts)
    (s := started (fun _ => 1) fun _ => (.zero, .zero))
    (.call 0 (.writeChannel oneChannel 0 [1]) :: List.replicate 14 (.step 0))
    (p := fun s => (s.shared.mem (0, .data)).frontBuffer == (s.shared.mem (0, .data)).backBuffer)
    (by decide +kernel)
  exact ⟨s, hr, beq_iff_eq.mp h⟩

end Foxdbg
