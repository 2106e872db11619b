import Foxdbg.Steps

/-!
# Handover: what a read returns

A write call fills the back of a buffer in one section and flips it in another, and other calls can
run in between. `Flipped` follows one buffer over a run in which no write section reaches it: its
view is a number of flips away from the start, one for each call that ended. At rest every pending
call has flipped, so the parity of the pending calls tells what a read returns
(`Flip.front_fill_flips`).
-/

namespace Foxdbg

/-- The step is not a write section on the buffer. -/
def Spares (i : Nat) (k : BufferKind) (s : State) (l : Label) (_ : State) : Prop :=
  ∀ u id d, l = .write u k id d → s.registry.find k id ≠ some i

variable {env : Env} {s t : State} {l : Label} {i : Nat} {k : BufferKind} {buf : Buffer} {d : Bytes}

/-! ## A buffer that no one has written -/

/-- Nothing is populated, and no call is pending. -/
structure Untouched (i : Nat) (k : BufferKind) (s : State) : Prop where
  pending : s.pendingOn i k = 0
  empty : ∀ buf, s.buffer? i k = some buf → buf.frontBufferSize = 0

namespace Untouched

theorem init : Untouched i k .init where
  pending := rfl
  empty := by simp [State.buffer?, bufferAt, State.init, Registry.init]

theorem step (hq : Spares i k s l t) (hi : Untouched i k s) (h : s.step env l = some t) :
    Untouched i k t := by
  cases State.step_buffer h i k with
  | alone _ _ hb hp => exact ⟨hp.trans hi.pending, fun buf hbuf => hi.empty buf (hb ▸ hbuf)⟩
  | added _ hfresh hb hp =>
    exact ⟨hp.trans hi.pending, fun buf hbuf => (hfresh.empty k buf (hb ▸ hbuf)).1⟩
  | wrote hfind => exact absurd hfind (hq _ _ _ rfl)
  | swapped _ hp => rw [hi.pending] at hp; omega

end Untouched

/-! ## A buffer after its last write section -/

/-- The buffer is some flips away from a view, and they and the pending calls are `n`. -/
def Flipped (i : Nat) (k : BufferKind) (v : Flip Bytes) (n : Nat) (s : State) : Prop :=
  ∃ m buf, s.buffer? i k = some buf ∧ buf.view = Flip.flip^[m] v ∧ m + s.pendingOn i k = n

theorem Flipped.step {v : Flip Bytes} {n : Nat} (hq : Spares i k s l t) (hi : Flipped i k v n s)
    (h : s.step env l = some t) : Flipped i k v n t := by
  obtain ⟨m, buf, hbuf, hview, hn⟩ := hi
  cases State.step_buffer h i k with
  | alone _ _ hb hp => exact ⟨m, buf, hb.trans hbuf, hview, by rw [hp]; exact hn⟩
  | added hnone => cases hnone.symm.trans hbuf
  | wrote hfind => exact absurd hfind (hq _ _ _ rfl)
  | swapped hb hp =>
    refine ⟨m + 1, buf.swapBuffers, by rw [hb, hbuf]; rfl, ?_, by omega⟩
    rw [Buffer.view_swapBuffers, hview, Function.iterate_succ_apply']

/-- A write section starts with no flip: what was pending, and the call itself, will flip. -/
theorem flipped_of_write {u : Tid} {id : Int32} (hbuf : s.buffer? i k = some buf)
    (hfind : s.registry.find k id = some i) (hfit : d.length ≤ buf.bufferSize)
    (h : s.step env (.write u k id d) = some t) :
    Flipped i k (buf.view.fill d) (s.pendingOn i k + 1) t := by
  cases State.step_buffer h i k with
  | alone _ hs => exact absurd hfind (hs _ _ _ rfl)
  | added hnone => cases hnone.symm.trans hbuf
  | wrote _ hb hp =>
    refine ⟨0, k.section d buf, by rw [hb, hbuf]; rfl, view_section hfit, ?_⟩
    rw [hp, Nat.zero_add]

/-- **What a read returns.** In a state in which no write call on a buffer is pending, a read
returns nothing if no write section has run; it returns the payload of the last write section
exactly if the calls that were pending at this section are even in number, or the front had an equal
payload then. -/
theorem read_last_write (hbuf : s.buffer? i k = some buf) (hrest : s.pendingOn i k = 0) :
    (∀ es, (sys env).Run (Spares i k) .init es s → buf.readSection = []) ∧
    ∀ (s₀ s₁ : State) (u : Tid) (id : Int32) (d : Bytes) (buf₀ : Buffer) (es : List Label),
      s₀.step env (.write u k id d) = some s₁ → (sys env).Run (Spares i k) s₁ es s →
      s₀.registry.find k id = some i → s₀.buffer? i k = some buf₀ →
      d.length ≤ buf₀.bufferSize →
      (buf.readSection = d ↔ Even (s₀.pendingOn i k) ∨ buf₀.readSection = d) := by
  refine ⟨fun es hrun => ?_, fun s₀ _ _ _ d buf₀ _ hstep hrun hfind hbuf₀ hfit => ?_⟩
  · have hi := hrun.inv (I := Untouched i k) (fun _ _ _ hs hq hi => hi.step hq hs) .init
    rw [Buffer.readSection_eq]
    simp [Buffer.view, hi.empty buf hbuf]
  · have hflip := hrun.inv (I := Flipped i k (buf₀.view.fill d) (s₀.pendingOn i k + 1))
      (fun _ _ _ hs hq hi => hi.step hq hs) (flipped_of_write hbuf₀ hfind hfit hstep)
    obtain ⟨m, buf', hbuf', hview, hm⟩ := hflip
    cases hbuf.symm.trans hbuf'
    rw [hrest, Nat.add_zero] at hm
    rw [Buffer.readSection_eq, Buffer.readSection_eq, hview, hm, Flip.front_fill_flips]

/-- A channel of one byte, with no call pending. -/
def ready (s : State) : Bool :=
  s.registry.find .data 0 == some 0 && s.pendingOn 0 .data == 0 &&
    (s.buffer? 0 .data).any fun buf => buf.bufferSize == 1

theorem of_ready (h : ready s = true) : s.registry.find .data 0 = some 0 ∧
    s.pendingOn 0 .data = 0 ∧ ∃ buf, s.buffer? 0 .data = some buf ∧ buf.bufferSize = 1 := by
  simp only [ready, Bool.and_eq_true, beq_iff_eq, Option.any_eq_true] at h
  exact ⟨h.1.1, h.1.2, h.2⟩

theorem single_write_read : ∃ (s₀ s₁ s : State) (buf : Buffer),
    s₀.step .standIn (.write 0 .data 0 [1]) = some s₁ ∧
    (sys .standIn).Run (Spares 0 .data) s₁ [.swap 0] s ∧ s.buffer? 0 .data = some buf ∧
    buf.readSection = [1] := by
  let add : Label := .addChannel (ascii "a") (some .boolean) 10 .zeroed
  obtain ⟨s₀, hr₀, h₀⟩ := Lts.exists_reach (L := sys .standIn) (s := .init) [add] (p := ready)
    (by decide +kernel)
  obtain ⟨s, hr, h⟩ := Lts.exists_reach (L := sys .standIn) (s := .init)
    ([add] ++ .write 0 .data 0 [1] :: [.swap 0]) (p := ready) (by decide +kernel)
  obtain ⟨s', hr', hrest⟩ := hr.split
  cases hr₀.det hr'
  cases hrest with
  | @cons _ s₁ _ _ _ hwrite _ hswap =>
    have hspares : (sys .standIn).Run (Spares 0 .data) s₁ [.swap 0] s := by
      cases hswap with
      | cons hstep _ hnil =>
        cases hnil
        exact .cons hstep nofun (.nil s)
    obtain ⟨hfind, hpending, buf₀, hbuf₀, hsize⟩ := of_ready h₀
    obtain ⟨-, hrest, buf, hbuf, -⟩ := of_ready h
    refine ⟨s₀, s₁, s, buf, hwrite, hspares, hbuf, ?_⟩
    refine ((read_last_write hbuf hrest).2 _ _ 0 0 [1] buf₀ _ hwrite hspares hfind hbuf₀
      (by rw [hsize]; decide)).mpr (.inl ?_)
    rw [hpending]
    exact .zero

/-- Two write calls that overlap. -/
def lostRun : List Label :=
  [.addChannel (ascii "a") (some .boolean) 10 .zeroed, .write 0 .data 0 [1], .write 1 .data 0 [2],
    .swap 0, .swap 1]

/-- Both calls of `lostRun` have returned, and a read does not return the last payload. -/
theorem lost_update : ∃ (s : State) (buf : Buffer),
    (sys .standIn).Reach .init lostRun s ∧ s.pending = [] ∧ s.buffer? 0 .data = some buf ∧
    buf.readSection ≠ [2] := by
  obtain ⟨s, hr, h⟩ := Lts.exists_reach (L := sys .standIn) (s := .init) lostRun
    (p := fun s => s.pending.isEmpty && (s.buffer? 0 .data).any fun buf => buf.readSection != [2])
    (by decide +kernel)
  simp only [Bool.and_eq_true, List.isEmpty_iff, Option.any_eq_true, bne_iff_ne] at h
  obtain ⟨hp, buf, hbuf, hne⟩ := h
  exact ⟨s, buf, hr, hp, hbuf, hne⟩

end Foxdbg
