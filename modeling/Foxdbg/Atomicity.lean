import Foxdbg.Lib.Reduction
import Foxdbg.Torn

/-!
# The locked sections are atomic

`sys` runs a locked section as one step (`Buffer.beginWrite` to `populate`, `swapBuffers`,
`readSection`). Here this is proved of the calls in single steps. `sectionThreads` is the machine
whose threads run the same calls with whole sections on `Buffer`s as their operations
(`Call.whole`), and `payloadThreads` has pairs of payloads in place of the `Buffer`s.

* `sections_atomic`: every run of `threads`, in any interleaving of single steps, has the history of
  a run of `sectionThreads`: the same calls and returns in the same order, and the same bytes read
  in the sections. A buffer whose swap mutex is free has the cells of the `Buffer` of that run.
* `payloads_atomic`: if no info is larger than its buffer, it has the history of a run of
  `payloadThreads`. A write call is two steps there, with those of other calls possibly in between.

What `send_pointcloud` loads after its section is not in the history: the writers may be storing
there (`torn_pointcloud` in the coarse model).
-/

namespace Foxdbg

/-- A locked section of a buffer. -/
inductive Section where
  /-- From `begin_write` to the unlock in `end_write`. -/
  | write (d : Bytes)
  | swap
  /-- From `begin_read` to `end_read`. -/
  | read (admits : Nat → Bool)

namespace Section

/-- What a section gives its thread. -/
@[reducible] def Answer : Section → Type
  | .read _ => Option Bytes
  | _ => Unit

/-- A section of the coarse model. -/
def run (b : BufId) : (s : Section) → Buffer → s.Answer × Buffer
  | .write d, buf => ((), b.2.section d buf)
  | .swap, buf => ((), buf.swapBuffers)
  | .read admits, buf =>
    (if admits buf.frontBufferSize then some buf.readSection else none, buf)

end Section

theorem injective_swap : Function.Injective fun b : BufId => (b, MutexName.swap) :=
  fun _ _ h => (Prod.mk.inj h).1

/-- The sections of the buffers, which the swap mutexes guard. -/
def level : SectionLevel Mutex BufId Access Cells Section Buffer Access.Value Section.Answer where
  guard b := (b, .swap)
  injective := injective_swap
  effect := Access.effect
  run := Section.run
  Rep _ x buf := x = buf.cells

/-- A function of the repository in whole sections. -/
abbrev WholeCode := Prog (BufId × Section) fun o => o.2.Answer

namespace WholeCode

/-- One section. -/
def perform (b : BufId) (s : Section) : WholeCode s.Answer := .op (b, s) .ret

/-- The two sections of a write call. -/
def writeBuffer (b : BufId) (d : Bytes) : WholeCode Unit := do
  perform b (.write d)
  perform b .swap

theorem writeBuffer_bind {α : Type} {b : BufId} {d : Bytes} {f : Unit → WholeCode α} :
    writeBuffer b d >>= f = .op (b, .write d) fun _ => .op (b, .swap) f := rfl

/-- `foxdbg_write_channel`. -/
def writeChannel (r : Registry) (channelId : Int32) (d : Bytes) : WholeCode Unit :=
  match r.findData channelId with
  | none => pure ()
  | some i => writeBuffer (i, .data) d

/-- `foxdbg_write_channel_info`. -/
def writeChannelInfo (r : Registry) (channelId : Int32) (d : Bytes) : WholeCode Unit :=
  match r.findInfo channelId with
  | none => pure ()
  | some i => writeBuffer (i, .info) d

/-- A sender with a data section only. -/
def sendRaw (sender : Sender) (i : Nat) : WholeCode (Option Code.Copied) := do
  match ← perform (i, .data) (.read sender.admits) with
  | none => pure none
  | some raw => pure (some { raw })

/-- `send_image`. -/
def sendImage (i : Nat) : WholeCode (Option Code.Copied) := do
  match ← perform (i, .data) (.read Foxdbg.sendImage.admits) with
  | none => pure none
  | some raw =>
    match ← perform (i, .info) (.read fun n => n ≤ sizeofInfoDataBuffer) with
    | none => pure none
    | some info => pure (some { raw, info })

/-- The sender of a channel type, for the channel at the place `i`. -/
def send : ChannelType → Nat → WholeCode (Option Code.Copied)
  | .image => sendImage
  | ty => sendRaw (senderOf ty)

end WholeCode

/-- The code of a call in whole sections. -/
def Call.whole : Call → WholeCode (Option Code.Copied)
  | .writeChannel r channelId d => do
    WholeCode.writeChannel r channelId d
    pure none
  | .writeChannelInfo r channelId d => do
    WholeCode.writeChannelInfo r channelId d
    pure none
  | .read b => do
    match ← WholeCode.perform b (.read fun _ => true) with
    | none => pure none
    | some raw => pure (some { raw })
  | .send ty i => WholeCode.send ty i

/-- Any number of threads that run calls, one section at a time. -/
abbrev sectionThreads : Machine Tid (BufId → Buffer) (BufId × Section) (fun o => o.2.Answer) Call
    (Option Code.Copied) :=
  level.machine Tid Call.whole

/-- The result of a call without the bytes that were loaded outside of the sections. -/
def copied : Option Code.Copied → Option Code.Copied :=
  Option.map fun c => { c with borrowed := [] }

/-! ## The functions -/

namespace Code

variable {b : BufId} {x : Cells} {y : Buffer} {α : Type}
  {Q : SectionLevel.Mode BufId Cells Section Buffer Section.Answer α → Unit → Prop}
  {a : WholeCode α} {s : Slot}

theorem not_swap {m : MutexName} (hm : m ≠ .swap) (b' : BufId) : (b, m) ≠ level.guard b' :=
  fun h => hm (Prod.mk.inj h).2

theorem simulates_storeBytes {off : Nat} {d : Bytes} (hq : Q (.inside b (x.copy s off d) y a) ()) :
    level.Simulates Q (.inside b x y a) (storeBytes b s off d) := by
  induction d generalizing off x with
  | nil => rwa [Cells.copy_nil] at hq
  | cons v d ih =>
    rw [storeBytes, storeByte_bind]
    refine SectionLevel.simulates_access (ih ?_)
    rwa [Cells.copy_cons] at hq

theorem simulates_loadBytes
    {Q : SectionLevel.Mode BufId Cells Section Buffer Section.Answer α → Bytes → Prop}
    {off n : Nat} (hq : Q (.inside b x y a) ((x.contents s).read off n)) :
    level.Simulates Q (.inside b x y a) (loadBytes b s off n) := by
  induction n generalizing off Q with
  | zero => exact hq
  | succ n ih =>
    rw [loadBytes, loadByte_bind]
    refine SectionLevel.simulates_access (SectionLevel.simulates_bind (ih ?_))
    rw [Mem.read_succ] at hq
    exact hq

/-- `swap_buffers` is the swap section. -/
theorem simulates_swapBuffers {ka : Unit → WholeCode α} (hq : Q (.outside (ka ())) ()) :
    level.Simulates Q (.outside (.op (b, .swap) ka)) (swapBuffers b) := by
  simp only [swapBuffers, lock_bind, loadPointer_bind, storePointer_bind, loadSize_bind,
    storeSize_bind, unlock_bind]
  refine SectionLevel.simulates_enter ?_
  rintro _ buf rfl
  refine SectionLevel.simulates_lock (not_swap (by decide)) ?_
  refine SectionLevel.simulates_lock (not_swap (by decide)) ?_
  iterate 8 refine SectionLevel.simulates_access ?_
  refine SectionLevel.simulates_unlock (not_swap (by decide)) ?_
  refine SectionLevel.simulates_unlock (not_swap (by decide)) ?_
  exact SectionLevel.simulates_leave rfl hq

/-- `end_write` is the end of a write section, and the swap section. -/
theorem simulates_endWrite {buf : Buffer} {ka : Unit → WholeCode α} {n : Nat}
    (hq : Q (.outside (ka ())) ()) :
    level.Simulates Q (.inside b buf.cells (buf.populate n) (.op (b, .swap) ka))
      (endWrite b n) := by
  simp only [endWrite, storeSize_bind, unlock_bind]
  refine SectionLevel.simulates_access ?_
  refine SectionLevel.simulates_unlock (not_swap (by decide)) ?_
  exact SectionLevel.simulates_leave rfl (simulates_swapBuffers hq)

/-- `begin_write` opens a write section with what `Buffer.beginWrite` gives. -/
theorem simulates_beginWrite {d : Bytes} {ka : Unit → WholeCode α}
    {Q : SectionLevel.Mode BufId Cells Section Buffer Section.Answer α → Slot × Nat → Prop}
    (hq : ∀ buf : Buffer, Q (.inside b buf.cells (b.2.section d buf) (ka ())) buf.beginWrite) :
    level.Simulates Q (.outside (.op (b, .write d) ka)) (beginWrite b) := by
  simp only [beginWrite, lock_bind, loadPointer_bind, loadSize_bind, Prog.pure_eq]
  refine SectionLevel.simulates_enter ?_
  rintro _ buf rfl
  refine SectionLevel.simulates_lock (not_swap (by decide)) ?_
  iterate 2 refine SectionLevel.simulates_access ?_
  exact hq buf

variable {r : Registry} {channelId : Int32} {d : Bytes}

/-- `foxdbg_write_channel` is a write section and a swap section. -/
theorem simulates_writeChannel {f : Unit → WholeCode α} (hq : Q (.outside (f ())) ()) :
    level.Simulates Q (.outside (WholeCode.writeChannel r channelId d >>= f))
      (writeChannel r channelId d) := by
  unfold WholeCode.writeChannel writeChannel
  cases r.findData channelId with
  | none => exact hq
  | some i =>
    rw [WholeCode.writeBuffer_bind]
    refine SectionLevel.simulates_bind (simulates_beginWrite fun buf => ?_)
    change level.Simulates _ _ (if d.length ≤ buf.bufferSize then _ else _)
    split
    · rename_i hfit
      refine SectionLevel.simulates_bind (simulates_storeBytes ?_)
      rw [← Buffer.cells_memcpy, section_of_fits hfit]
      exact simulates_endWrite hq
    · rename_i hfit
      rw [dataSection_of_not_fits hfit]
      exact simulates_endWrite hq

/-- `foxdbg_write_channel_info` is a write section and a swap section. -/
theorem simulates_writeChannelInfo {f : Unit → WholeCode α} (hq : Q (.outside (f ())) ()) :
    level.Simulates Q (.outside (WholeCode.writeChannelInfo r channelId d >>= f))
      (writeChannelInfo r channelId d) := by
  unfold WholeCode.writeChannelInfo writeChannelInfo
  cases r.findInfo channelId with
  | none => exact hq
  | some i =>
    rw [WholeCode.writeBuffer_bind]
    refine SectionLevel.simulates_bind (simulates_beginWrite fun buf => ?_)
    change level.Simulates _ _ (if d.length ≤ buf.bufferSize then _ else _)
    split
    · rename_i hfit
      refine SectionLevel.simulates_bind (simulates_storeBytes ?_)
      rw [← Buffer.cells_memcpy, section_of_fits hfit]
      exact simulates_endWrite hq
    · rename_i hfit
      rw [infoSection_of_not_fits hfit]
      exact simulates_endWrite hq

/-- A locked section of a reader is a read section. -/
theorem simulates_readSection {admits : Nat → Bool} {ka : Option Bytes → WholeCode α}
    {Q : SectionLevel.Mode BufId Cells Section Buffer Section.Answer α →
      Option (Slot × Bytes) → Prop}
    (hq : ∀ v, Q (.outside (ka (v.map Prod.snd))) v) :
    level.Simulates Q (.outside (.op (b, .read admits) ka)) (readSection b admits) := by
  simp only [readSection, beginRead, endRead, lock_bind, loadPointer_bind, loadSize_bind,
    unlock_bind, Prog.pure_eq]
  refine SectionLevel.simulates_enter ?_
  rintro _ buf rfl
  refine SectionLevel.simulates_lock (not_swap (by decide)) ?_
  iterate 2 refine SectionLevel.simulates_access ?_
  change level.Simulates _ _ (if admits buf.frontBufferSize then _ else _)
  have hanswer : level.run b (.read admits) buf =
      (if admits buf.frontBufferSize then some buf.readSection else none, buf) := rfl
  rw [hanswer]
  split
  · refine SectionLevel.simulates_bind (simulates_loadBytes ?_)
    refine SectionLevel.simulates_unlock (not_swap (by decide)) ?_
    refine SectionLevel.simulates_leave rfl ?_
    show Q (.outside (ka (some buf.readSection))) (some (buf.frontBuffer,
      (buf.cells.contents buf.frontBuffer).read 0 buf.frontBufferSize))
    rw [Buffer.contents_cells]
    exact hq (some (buf.frontBuffer, buf.readSection))
  · refine SectionLevel.simulates_unlock (not_swap (by decide)) ?_
    exact SectionLevel.simulates_leave rfl (hq none)

/-- The loads of `send_pointcloud` after its section. -/
theorem simulates_loadsOutside
    {Q : SectionLevel.Mode BufId Cells Section Buffer Section.Answer α → Bytes → Prop}
    (hq : ∀ d, Q (.outside a) d) (off n : Nat) :
    level.Simulates Q (.outside a) (loadBytes b s off n) := by
  induction n generalizing off Q with
  | zero => exact hq []
  | succ n ih =>
    rw [loadBytes, loadByte_bind]
    refine SectionLevel.simulates_load (fun _ => rfl) fun v => ?_
    exact SectionLevel.simulates_bind (ih (fun d => hq (v :: d)) (off + 1))

theorem simulates_sendRaw (sender : Sender) (i : Nat) :
    level.Simulates (SectionLevel.Returns copied) (.outside (WholeCode.sendRaw sender i))
      (sendRaw sender i) := by
  unfold sendRaw
  refine SectionLevel.simulates_bind (simulates_readSection fun v => ?_)
  cases v <;> exact rfl

theorem simulates_send (ty : ChannelType) (i : Nat) :
    level.Simulates (SectionLevel.Returns copied) (.outside (WholeCode.send ty i)) (send ty i) := by
  cases ty with
  | image =>
    unfold send sendImage
    refine SectionLevel.simulates_bind (simulates_readSection fun v => ?_)
    cases v with
    | none => exact rfl
    | some v =>
      refine SectionLevel.simulates_bind (simulates_readSection fun v => ?_)
      cases v <;> exact rfl
  | pointcloud =>
    unfold send sendPointcloud
    refine SectionLevel.simulates_bind (simulates_readSection fun v => ?_)
    cases v with
    | none => exact rfl
    | some v =>
      exact SectionLevel.simulates_bind (simulates_loadsOutside (fun _ => rfl) 0 _)
  | _ => exact simulates_sendRaw _ i

end Code

/-- The code of a call simulates its whole sections. -/
theorem simulates_code (c : Call) :
    level.Simulates (SectionLevel.Returns copied) (.outside c.whole) c.code := by
  cases c with
  | writeChannel r channelId d =>
    exact SectionLevel.simulates_bind (Code.simulates_writeChannel rfl)
  | writeChannelInfo r channelId d =>
    exact SectionLevel.simulates_bind (Code.simulates_writeChannelInfo rfl)
  | read b =>
    refine SectionLevel.simulates_bind (Code.simulates_readSection fun v => ?_)
    cases v <;> exact rfl
  | send ty i => exact Code.simulates_send ty i

theorem simulated_sections {P : Call → Prop} {bufs : BufId → Buffer} {es : List (Move Tid Call)}
    {s : ThreadPool}
    (hr : threads.lts.Run (Machine.Calls P) (.start (.free fun b => (bufs b).cells)) es s) :
    ∃ fs s', sectionThreads.lts.Run (Machine.Calls P) (.start bufs) fs s' ∧
      sectionThreads.history (.start bufs) fs =
        (threads.history (.start (.free fun b => (bufs b).cells)) es).map (Event.map copied) ∧
      ∀ b, s.shared.owner (b, .swap) = none → s.shared.mem b = (s'.shared b).cells :=
  level.reduction (fun c _ => simulates_code c) (fun _ => rfl) hr

/-- New buffers, as `foxdbg_buffer_alloc` makes them. -/
def newBuffers (size : BufId → Nat) (mem : BufId → Mem × Mem) (b : BufId) : Buffer :=
  ⟨size b, (mem b).1, (mem b).2, .a, 0, .b, 0, Slot.a_ne_b⟩

/-- **Atomic sections.** Every run of any number of threads in single steps, in any interleaving,
has the calls, the returns and, but for the bytes loaded after a section (`copied`), the results of
a run of whole sections, in the same order; a buffer that no thread is in a section of has the cells
of the `Buffer` of that run. -/
theorem sections_atomic {size : BufId → Nat} {mem : BufId → Mem × Mem} {es : List (Move Tid Call)}
    {s : ThreadPool} (hr : threads.lts.Reach (started size mem) es s) :
    ∃ fs s', sectionThreads.lts.Reach (.start (newBuffers size mem)) fs s' ∧
      sectionThreads.history (.start (newBuffers size mem)) fs =
        (threads.history (started size mem) es).map (Event.map copied) ∧
      ∀ b, s.shared.owner (b, .swap) = none → s.shared.mem b = (s'.shared b).cells := by
  have hcalls : threads.lts.Run (Machine.Calls fun _ => True)
      (.start (.free fun b => (newBuffers size mem b).cells)) es s :=
    hr.mono fun _ _ _ _ _ _ _ => trivial
  obtain ⟨fs, s', hr', hhistory, hmem⟩ := simulated_sections hcalls
  exact ⟨fs, s', hr'.reach, hhistory, hmem⟩

/-- A read of a buffer that returns these bytes. -/
def returnsBytes (b : BufId) (d : Bytes) : Event Tid Call (Option Code.Copied) → Bool
  | .ret _ (.read b') (some c) => b' == b && c.raw == d
  | _ => false

theorem returnsBytes_map (b : BufId) (d : Bytes) (e : Event Tid Call (Option Code.Copied)) :
    returnsBytes b d (e.map copied) = returnsBytes b d e := by
  rcases e with _ | ⟨t, c, _ | v⟩
  · rfl
  · cases c <;> rfl
  · cases c <;> rfl

/-- The run of a write and a read of one byte, up to the return of the read. -/
def returnedRun : List (Move Tid Call) := readRun ++ [.finish 1]

theorem exists_returned : ∃ s,
    threads.lts.Reach (started (fun _ => 1) fun _ => (.zero, .zero)) returnedRun s ∧
      (threads.history (started (fun _ => 1) fun _ => (.zero, .zero)) returnedRun).any
        (returnsBytes (0, .data) [1]) = true :=
  Lts.exists_reach returnedRun (p := fun _ =>
    (threads.history (started (fun _ => 1) fun _ => (.zero, .zero)) returnedRun).any
      (returnsBytes (0, .data) [1])) (by decide +kernel)

theorem returned_section : ∃ fs s',
    sectionThreads.lts.Reach (.start (newBuffers (fun _ => 1) fun _ => (.zero, .zero))) fs s' ∧
    (sectionThreads.history (.start (newBuffers (fun _ => 1) fun _ => (.zero, .zero))) fs).any
      (returnsBytes (0, .data) [1]) = true := by
  obtain ⟨s, hr, h⟩ := exists_returned
  obtain ⟨fs, s', hr', hhistory, -⟩ := sections_atomic hr
  refine ⟨fs, s', hr', ?_⟩
  rw [hhistory, List.any_map]
  exact (congrArg (List.any _) (funext (returnsBytes_map _ _))).trans h

/-! ## Buffers of payloads -/

/-- What a section does to the payloads in front and at the back of a buffer with this capacity. -/
def Section.onPayloads (size : Nat) : (s : Section) → Flip Bytes → s.Answer × Flip Bytes
  | .write d, v => ((), v.fill (if d.length ≤ size then d else []))
  | .swap, v => ((), v.flip)
  | .read admits, v => (if admits v.front.length then some v.front else none, v)

/-- What the buffers are for: threads that fill, flip and read pairs of payloads. -/
def payloadThreads (size : BufId → Nat) : Machine Tid (BufId → Flip Bytes) (BufId × Section)
    (fun o => o.2.Answer) Call (Option Code.Copied) where
  perform _ o mem :=
    some ((o.2.onPayloads (size o.1) (mem o.1)).1,
      Function.update mem o.1 (o.2.onPayloads (size o.1) (mem o.1)).2)
  code := Call.whole

/-- Buffers of these capacities that hold these payloads. -/
def Holds (size : BufId → Nat) (bufs : BufId → Buffer) (mem : BufId → Flip Bytes) : Prop :=
  ∀ b, (bufs b).bufferSize = size b ∧ (bufs b).view = mem b

/-- A section does not write an info that is larger than its buffer. -/
def InfoFits (size : BufId → Nat) (o : BufId × Section) : Prop :=
  ∀ d, o.1.2 = .info → o.2 = .write d → d.length ≤ size o.1

/-- A call does not write an info that is larger than its buffer. -/
def CallFits (size : BufId → Nat) (c : Call) : Prop :=
  ∀ r channelId d i, c = .writeChannelInfo r channelId d → r.findInfo channelId = some i →
    d.length ≤ size (i, .info)

section Payloads

variable {size : BufId → Nat} {bufs : BufId → Buffer} {mem : BufId → Flip Bytes} {b : BufId}
  {s : Section}

/-- A section does to the payloads what it does to the buffer. -/
theorem run_payloads (hfit : InfoFits size (b, s)) (h : Holds size bufs mem) :
    (s.run b (bufs b)).1 = (s.onPayloads (size b) (mem b)).1 ∧
      (s.run b (bufs b)).2.bufferSize = size b ∧
      (s.run b (bufs b)).2.view = (s.onPayloads (size b) (mem b)).2 := by
  obtain ⟨hsize, hview⟩ := h b
  cases s with
  | write d =>
    refine ⟨rfl, by rw [Section.run, section_bufferSize, hsize], ?_⟩
    show (b.2.section d (bufs b)).view = (mem b).fill (if d.length ≤ size b then d else [])
    split
    · rename_i hd
      rw [view_section (by rwa [hsize]), hview]
    · rename_i hd
      obtain ⟨i, k⟩ := b
      cases k with
      | data => rw [view_dataSection (by rwa [hsize]), hview]
      | info => exact absurd (hfit d rfl rfl) hd
  | swap => exact ⟨rfl, hsize, by rw [← hview]; exact Buffer.view_swapBuffers _⟩
  | read admits =>
    refine ⟨?_, hsize, hview⟩
    show (if admits (bufs b).frontBufferSize then some (bufs b).readSection else none) =
      if admits (mem b).front.length then some (mem b).front else none
    rw [← hview, ← Buffer.readSection_eq, Buffer.length_readSection]

theorem fits_whole {c : Call} (hc : CallFits size c) : c.whole.All (InfoFits size) := by
  have data : ∀ i s, InfoFits size ((i, .data), s) := nofun
  have swap : ∀ b, InfoFits size (b, .swap) := nofun
  have read : ∀ b admits, InfoFits size (b, .read admits) := nofun
  cases c with
  | writeChannel r channelId d =>
    have hwrite : (WholeCode.writeChannel r channelId d).All (InfoFits size) := by
      unfold WholeCode.writeChannel
      cases r.findData channelId with
      | none => trivial
      | some i => exact ⟨data i _, fun _ => ⟨swap _, fun _ => trivial⟩⟩
    exact hwrite.bind fun _ => trivial
  | writeChannelInfo r channelId d =>
    have hwrite : (WholeCode.writeChannelInfo r channelId d).All (InfoFits size) := by
      unfold WholeCode.writeChannelInfo
      cases hfind : r.findInfo channelId with
      | none => trivial
      | some i =>
        refine ⟨fun d' _ hd => ?_, fun _ => ⟨swap _, fun _ => trivial⟩⟩
        cases hd
        exact hc r channelId d i rfl hfind
    exact hwrite.bind fun _ => trivial
  | read b => exact ⟨read b _, fun v => by cases v <;> trivial⟩
  | send ty i =>
    have raw : ∀ sender, (WholeCode.sendRaw sender i).All (InfoFits size) :=
      fun _ => ⟨read _ _, fun v => by cases v <;> trivial⟩
    cases ty with
    | image =>
      refine ⟨read _ _, fun v => ?_⟩
      cases v with
      | none => trivial
      | some v => exact ⟨read _ _, fun v => by cases v <;> trivial⟩
    | _ => exact raw _

/-- A section keeps what the buffers hold. -/
theorem holds_perform {t : Tid} {o : BufId × Section} {r : o.2.Answer} {bufs' : BufId → Buffer}
    (hfit : InfoFits size o) (h : Holds size bufs mem)
    (hp : sectionThreads.perform t o bufs = some (r, bufs')) :
    ∃ mem', (payloadThreads size).perform t o mem = some (r, mem') ∧ Holds size bufs' mem' := by
  obtain ⟨b, s⟩ := o
  obtain ⟨hanswer, hsize, hview⟩ := run_payloads hfit h
  cases hp
  refine ⟨_, congrArg some (Prod.ext hanswer.symm rfl), fun b' => ?_⟩
  by_cases hb : b' = b
  · subst hb
    rw [Function.update_self, Function.update_self]
    exact ⟨hsize, hview⟩
  · rw [Function.update_of_ne hb, Function.update_of_ne hb]
    exact h b'

end Payloads

/-- **Double buffers.** Every run of any number of threads in single steps on new buffers, in which
no info is larger than its buffer, has the history of a run on pairs of payloads, in which a write
call is two steps, one that fills the back and one that flips, and a read is one that gives the
front. -/
theorem payloads_atomic {size : BufId → Nat} {mem : BufId → Mem × Mem}
    {es : List (Move Tid Call)} {s : ThreadPool}
    (hr : threads.lts.Run (Machine.Calls (CallFits size)) (started size mem) es s) :
    ∃ fs s', (payloadThreads size).lts.Reach (.start fun _ => ⟨[], []⟩) fs s' ∧
      (payloadThreads size).history (.start fun _ => ⟨[], []⟩) fs =
        (threads.history (started size mem) es).map (Event.map copied) := by
  have hcalls : threads.lts.Run (Machine.Calls (CallFits size))
      (.start (.free fun b => (newBuffers size mem b).cells)) es s := hr
  have hkeeps : ∀ t o r bufs bufs' mem, InfoFits size o → Holds size bufs mem →
      sectionThreads.perform t o bufs = some (r, bufs') →
      ∃ mem', (payloadThreads size).perform t o mem = some (r, mem') ∧ Holds size bufs' mem' :=
    fun _ _ _ _ _ _ hfit h hp => holds_perform hfit h hp
  obtain ⟨fs, s₁, hr₁, hhistory, -⟩ := simulated_sections hcalls
  obtain ⟨s₂, hr₂, hhistory', -⟩ := Machine.refines (M := sectionThreads) (payloadThreads size)
    rfl (fun _ hc => fits_whole hc) hkeeps hr₁ (.start fun _ => ⟨[], []⟩) (fun _ => ⟨rfl, rfl⟩)
    rfl nofun
  exact ⟨fs, s₂, hr₂, hhistory'.trans hhistory⟩

theorem returned_payload : ∃ fs s',
    (payloadThreads fun _ => 1).lts.Reach (.start fun _ => ⟨[], []⟩) fs s' ∧
    ((payloadThreads fun _ => 1).history (.start fun _ => ⟨[], []⟩) fs).any
      (returnsBytes (0, .data) [1]) = true := by
  obtain ⟨s, hr, h⟩ := exists_returned
  have hcalls : threads.lts.Run (Machine.Calls (CallFits fun _ => 1))
      (started (fun _ => 1) fun _ => (.zero, .zero)) returnedRun s := by
    refine hr.labels.mono fun _ l _ hl => ?_
    rintro t c rfl r channelId d i rfl
    simp [returnedRun, readRun] at hl
  obtain ⟨fs, s', hr', hhistory⟩ := payloads_atomic hcalls
  refine ⟨fs, s', hr', ?_⟩
  rw [hhistory, List.any_map]
  exact (congrArg (List.any _) (funext (returnsBytes_map _ _))).trans h

end Foxdbg
