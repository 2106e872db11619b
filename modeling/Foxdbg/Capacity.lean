import Foxdbg.Steps

/-!
# Capacity: the populated size of a buffer

A buffer is bounded if neither of its sizes exceeds its allocations: what a reader copies after
`begin_read` is then inside one. `foxdbg_write_channel` populates a payload that does not fit with
size 0; `foxdbg_write_channel_info` populates its size all the same. So the data buffers are bounded
in every state, and all buffers are exactly as long as no info is larger than its buffer. A data
buffer keeps the capacity that `foxdbg_add_channel` gave it (`Sized`).
-/

namespace Foxdbg

/-- The populated sizes are inside the allocations. -/
structure Buffer.Bounded (buf : Buffer) : Prop where
  front : buf.frontBufferSize ≤ buf.bufferSize
  back : buf.backBufferSize ≤ buf.bufferSize

/-- The buffers of one kind of the transmitted channels are bounded. -/
def BoundedAt (k : BufferKind) (s : State) : Prop :=
  ∀ i buf, s.buffer? i k = some buf → buf.Bounded

/-- The buffers of all channels are bounded. -/
structure Bounded (s : State) : Prop where
  data : BoundedAt .data s
  info : BoundedAt .info s
  received : ∀ ch ∈ s.registry.rxChannels, ∀ k buf, ch.buffer? k = some buf → buf.Bounded

/-- The buffers are bounded before and after the step. -/
def KeepsBounds (s : State) (_ : Label) (t : State) : Prop := Bounded s ∧ Bounded t

/-- The payload of a write section on a buffer of the kind is not larger than the buffer. -/
def Fits (k : BufferKind) (s : State) (l : Label) (_ : State) : Prop :=
  ∀ u id d i buf, l = .write u k id d → s.registry.find k id = some i →
    s.buffer? i k = some buf → d.length ≤ buf.bufferSize

variable {env : Env} {s t : State} {l : Label} {k : BufferKind} {buf : Buffer} {d : Bytes}

namespace Buffer.Bounded

theorem swapBuffers (h : buf.Bounded) : buf.swapBuffers.Bounded := ⟨h.back, h.front⟩

theorem of_fresh {ch : Channel} (h : ch.Fresh) (hbuf : ch.buffer? k = some buf) : buf.Bounded := by
  obtain ⟨hf, hb⟩ := h.empty k buf hbuf
  exact ⟨by omega, by omega⟩

/-- A write section with a payload that fits, and any one on a data buffer, is bounded. -/
theorem writeSection (h : buf.Bounded) (hk : k = .data ∨ d.length ≤ buf.bufferSize) :
    (k.section d buf).Bounded := by
  by_cases hd : d.length ≤ buf.bufferSize
  · rw [section_of_fits hd]
    exact ⟨by simpa [populate] using h.front, by simpa [populate] using hd⟩
  · obtain rfl := hk.resolve_right hd
    rw [dataSection_of_not_fits hd]
    exact ⟨h.front, Nat.zero_le _⟩

end Buffer.Bounded

theorem BoundedAt.step (hq : k = .data ∨ Fits k s l t) (hi : BoundedAt k s)
    (h : s.step env l = some t) : BoundedAt k t := by
  intro i buf hbuf
  cases State.step_buffer h i k with
  | alone _ _ hb => exact hi i buf (hb ▸ hbuf)
  | added _ hfresh hb => exact .of_fresh hfresh (hb ▸ hbuf)
  | wrote hfind hb =>
    obtain ⟨buf₀, hbuf₀, rfl⟩ := Option.map_eq_some_iff.mp (hb ▸ hbuf)
    exact (hi i buf₀ hbuf₀).writeSection (hq.imp_right fun hq => hq _ _ _ _ _ rfl hfind hbuf₀)
  | swapped hb =>
    obtain ⟨buf₀, hbuf₀, rfl⟩ := Option.map_eq_some_iff.mp (hb ▸ hbuf)
    exact (hi i buf₀ hbuf₀).swapBuffers

namespace Bounded

theorem init : Bounded .init where
  data := by simp [BoundedAt, State.buffer?, bufferAt, State.init, Registry.init]
  info := by simp [BoundedAt, State.buffer?, bufferAt, State.init, Registry.init]
  received := by simp [State.init, Registry.init]

theorem step (hq : Fits .info s l t) (hi : Bounded s) (h : s.step env l = some t) : Bounded t where
  data := hi.data.step (.inl rfl) h
  info := hi.info.step (.inr hq) h
  received := by
    intro ch hch k buf hbuf
    obtain hrx | ⟨new, fresh, hrx⟩ := (State.fire_outcome (State.step_eq_some.mp h).2).received
    · rw [hrx] at hch
      exact hi.received ch hch k buf hbuf
    · rw [hrx] at hch
      rcases List.mem_append.mp hch with hch | hch
      · exact hi.received ch hch k buf hbuf
      · cases List.mem_singleton.mp hch
        exact .of_fresh fresh hbuf

end Bounded

/-- The data buffers are bounded in every state. -/
theorem data_bounded {es : List Label} (hr : (sys env).Reach .init es s) : BoundedAt .data s :=
  hr.inv (I := BoundedAt .data) (fun _ _ _ h _ hi => hi.step (.inl rfl) h) Bounded.init.data

/-- Each data buffer has the capacity of its channel's type. -/
def Sized (s : State) : Prop :=
  ∀ ch ∈ s.registry.channels, ch.dataBuffer.bufferSize = ch.channelType.payloadSize

theorem Sized.step (hi : Sized s) (h : s.step env l = some t) : Sized t := by
  have hf := (State.step_eq_some.mp h).2
  by_cases hl : ∃ n ty hz al, l = .addChannel n ty hz al
  · obtain ⟨n, ty, hz, al, rfl⟩ := hl
    simp only [State.fire] at hf
    split at hf
    · cases hf
      exact hi
    · rename_i r id hadd
      cases hf
      obtain rfl | ⟨ch, hnew, rfl⟩ := Registry.addChannel_new hadd
      · exact hi
      · intro ch' hch'
        rcases List.mem_append.mp hch' with hch' | hch'
        · exact hi ch' hch'
        · cases List.mem_singleton.mp hch'
          exact Registry.newChannel_capacity hnew
  · have hstatic := (State.fire_outcome hf).channels.static_eq
      fun n ty hz al e => hl ⟨n, ty, hz, al, e⟩
    intro ch hch
    have hmem : ch.static ∈ s.registry.channels.map Channel.static :=
      hstatic ▸ List.mem_map_of_mem hch
    obtain ⟨ch', hch', he⟩ := List.mem_map.mp hmem
    obtain ⟨-, hty, -, hcap⟩ := static_eq he
    rw [← hty, ← hcap]
    exact hi ch' hch'

/-- The capacity of a data buffer is the one of its channel's type in every state. -/
theorem sized {es : List Label} (hr : (sys env).Reach .init es s) : Sized s :=
  hr.inv (I := Sized) (fun _ _ _ h _ hi => hi.step h) nofun

/-- An info that does not fit breaks the bound. -/
theorem fits_of_bounded (ht : Bounded t) (h : s.step env l = some t) : Fits .info s l t := by
  rintro u id d i buf rfl hfind hbuf
  by_contra hd
  cases State.step_buffer h i .info with
  | alone _ hs => exact hs _ _ _ rfl hfind
  | added hnone => cases hnone.symm.trans hbuf
  | wrote _ hb =>
    rw [hbuf, Option.map_some, infoSection_of_not_fits hd] at hb
    exact hd (ht.info i _ hb).back

/-- **Capacity.** A run keeps every buffer bounded in every step exactly if no info in it is larger
than the info buffer that it is written to. -/
theorem bounded_iff (env : Env) (es : List Label) (s : State) :
    (sys env).Run KeepsBounds .init es s ↔ (sys env).Run (Fits .info) .init es s := by
  constructor
  · intro h
    exact h.strengthen (I := fun _ => True)
      (fun _ _ _ hs hk _ => ⟨trivial, fits_of_bounded hk.2 hs⟩) trivial
  · intro h
    exact h.strengthen (I := Bounded) (fun _ _ _ hs hq hi => ⟨hi.step hq hs, hi, hi.step hq hs⟩)
      .init

/-- An info that is one byte larger than its buffer. -/
def largeInfoRun : List Label :=
  .addChannel (ascii "a") (some .image) 10 .zeroed ::
    writeCall .info 0 (List.replicate (sizeofImageInfo + 1) 0)

/-- After `largeInfoRun`, a read copies more bytes than the allocation has. -/
theorem info_out_of_bounds : ∃ (s : State) (buf : Buffer),
    (sys .standIn).Reach .init largeInfoRun s ∧ s.buffer? 0 .info = some buf ∧
    buf.bufferSize < buf.beginRead.2 := by
  obtain ⟨s, hr, h⟩ := Lts.exists_reach (L := sys .standIn) (s := .init) largeInfoRun
    (p := fun s => (s.buffer? 0 .info).any fun buf => buf.bufferSize < buf.beginRead.2)
    (by decide +kernel)
  simp only [Option.any_eq_true, decide_eq_true_eq] at h
  obtain ⟨buf, hbuf, hlt⟩ := h
  exact ⟨s, buf, hr, hbuf, hlt⟩

end Foxdbg
