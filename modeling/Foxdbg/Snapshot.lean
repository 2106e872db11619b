import Foxdbg.Reads
import Foxdbg.Steps

/-!
# Snapshots: one frame, one payload

The populated bytes of a data buffer are the payload of one write section (`Whole`), so the copy in
`raw_data_buffer` is one payload too. All senders but one encode from this copy.
`send_pointcloud` encodes from the allocation that it read; while it is between its two sections,
two writers can have flipped and overwritten it. `Snapshot` holds as long as such a write leaves the
borrowed bytes one payload (`KeepsBorrowed`): it has their size, or does not change them.
-/

namespace Foxdbg

open Json

/-- The payload of an accepted write section. -/
def Accepted (tr : List Obs) (k capacity : Nat) (d : Bytes) : Prop :=
  .wrote k .data d ∈ tr ∧ d.length ≤ capacity

/-- Nothing, or the payload of one accepted write section. -/
def Whole (tr : List Obs) (k capacity : Nat) (x : Bytes) : Prop :=
  x = [] ∨ Accepted tr k capacity x

/-- The memory in which a sender finds a payload. -/
def Source.ofPayload (d : Bytes) : Source :=
  ⟨Mem.zero.copy 0 d, .zero, .zero, Mem.zero.copy 0 d, d.length⟩

/-- The frame is one of a channel; if the channel is no image, its body is the one that its sender
makes of one accepted payload. -/
def FromOne (env : Env) (s : State) (c : Int32) (frame : Bytes) (old : List Obs) : Prop :=
  ∃ k ch, s.registry.channels[k]? = some ch ∧ ch.channelId = c ∧
    (ch.channelType ≠ .image → ∃ id nsec d body,
      Accepted old k ch.dataBuffer.bufferSize d ∧
      (senderOf ch.channelType).text env ch.topicName (.ofPayload d) = some (some body) ∧
      frame = State.header id nsec ++ body)

/-- While a point cloud is between its sections, a write to the borrowed allocation has the size of
the payload that was read, or leaves its bytes as they are. -/
def KeepsBorrowed (s : State) (l : Label) (_ : State) : Prop :=
  ∀ u id d k job ch, l = .write u .data id d → s.registry.find .data id = some k →
    s.pc.job? = some (k, job) → s.registry.channels[k]? = some ch →
    ch.channelType = .pointcloud → ch.dataBuffer.backBuffer = job.data →
    d.length ≤ ch.dataBuffer.bufferSize →
    d.length = job.dataSize ∨
      (((ch.dataBuffer.contents job.data).copy 0 d).read 0 job.dataSize =
        (ch.dataBuffer.contents job.data).read 0 job.dataSize)

/-- The sender in service has one payload to encode. -/
structure Serving (s : State) (k : Nat) (job : Job) (ch : Channel) : Prop where
  channel : s.registry.channels[k]? = some ch
  admits : (senderOf ch.channelType).admits job.dataSize = true
  copied : Accepted s.trace k ch.dataBuffer.bufferSize (s.rawDataBuffer.read 0 job.dataSize)
  borrowed : ch.channelType = .pointcloud →
    Accepted s.trace k ch.dataBuffer.bufferSize
      ((ch.dataBuffer.contents job.data).read 0 job.dataSize)

/-- What holds in every state: the populated bytes of a data buffer are a payload, and so is the
copy of the sender in service. -/
structure Copied (s : State) : Prop where
  whole : ∀ k buf, s.buffer? k .data = some buf →
    Whole s.trace k buf.bufferSize buf.view.front ∧ Whole s.trace k buf.bufferSize buf.view.back
  serving : ∀ k job, s.pc.job? = some (k, job) → ∃ ch, s.registry.channels[k]? = some ch ∧
    (senderOf ch.channelType).admits job.dataSize = true ∧
    Accepted s.trace k ch.dataBuffer.bufferSize (s.rawDataBuffer.read 0 job.dataSize)

/-- What holds as long as the borrowed bytes are kept. -/
structure Snapshot (env : Env) (s : State) : Prop where
  whole : ∀ k buf, s.buffer? k .data = some buf →
    Whole s.trace k buf.bufferSize buf.view.front ∧ Whole s.trace k buf.bufferSize buf.view.back
  serving : ∀ k job, s.pc.job? = some (k, job) → ∃ ch, Serving s k job ch
  frames : ∀ w c d old, .frame w c d :: old <:+ s.trace → FromOne env s c d old

variable {env : Env} {s t : State} {l : Label} {k n : Nat} {d x : Bytes} {tr tr' : List Obs}

theorem Accepted.mono (h : Accepted tr k n x) (hsub : tr ⊆ tr') : Accepted tr' k n x :=
  ⟨hsub h.1, h.2⟩

theorem Whole.mono (h : Whole tr k n x) (hsub : tr ⊆ tr') : Whole tr' k n x :=
  h.imp_right (·.mono hsub)

/-- No sender takes an empty payload. -/
theorem admits_pos {type : ChannelType} (h : (senderOf type).admits n = true) : 0 < n := by
  rcases Nat.eq_zero_or_pos n with rfl | hpos
  · cases type <;> exact absurd h (by decide)
  · exact hpos

theorem step_trace (h : s.step env l = some t) : s.trace ⊆ t.trace := by
  obtain ⟨obs, htr, -⟩ := (State.fire_outcome (State.step_eq_some.mp h).2).trace
  rw [htr]
  exact fun o ho => List.mem_append_right _ (List.mem_cons_of_mem _ ho)

namespace Copied

theorem init : Copied .init where
  whole := by simp [State.buffer?, bufferAt, State.init, Registry.init]
  serving := nofun

theorem whole_step (hi : Copied s) (h : s.step env l = some t) :
    ∀ k buf, t.buffer? k .data = some buf → Whole t.trace k buf.bufferSize buf.view.front ∧
      Whole t.trace k buf.bufferSize buf.view.back := by
  intro k buf hbuf
  have hsub := step_trace h
  cases State.step_buffer h k .data with
  | alone _ _ hb =>
    obtain ⟨hf, hk⟩ := hi.whole k buf (hb ▸ hbuf)
    exact ⟨hf.mono hsub, hk.mono hsub⟩
  | added _ hfresh hb =>
    obtain ⟨hf, hk⟩ := hfresh.empty .data buf (hb ▸ hbuf)
    exact ⟨.inl (by simp [Buffer.view, hf]), .inl (by simp [Buffer.view, hk])⟩
  | @wrote u id d hfind hb =>
    obtain ⟨buf₀, hbuf₀, rfl⟩ := Option.map_eq_some_iff.mp (hb ▸ hbuf)
    obtain ⟨hf, -⟩ := hi.whole k buf₀ hbuf₀
    rw [section_bufferSize]
    by_cases hfit : d.length ≤ buf₀.bufferSize
    · rw [view_section hfit]
      exact ⟨hf.mono hsub, .inr ⟨by simp [State.step_wrote hfind h], hfit⟩⟩
    · rw [view_dataSection hfit]
      exact ⟨hf.mono hsub, .inl rfl⟩
  | swapped hb =>
    obtain ⟨buf₀, hbuf₀, rfl⟩ := Option.map_eq_some_iff.mp (hb ▸ hbuf)
    obtain ⟨hf, hk⟩ := hi.whole k buf₀ hbuf₀
    rw [Buffer.view_swapBuffers]
    exact ⟨hk.mono hsub, hf.mono hsub⟩

theorem serving_step (hi : Copied s) (h : s.step env l = some t) :
    ∀ k job, t.pc.job? = some (k, job) → ∃ ch, t.registry.channels[k]? = some ch ∧
      (senderOf ch.channelType).admits job.dataSize = true ∧
      Accepted t.trace k ch.dataBuffer.bufferSize (t.rawDataBuffer.read 0 job.dataSize) := by
  intro k job hjob
  have hsub := step_trace h
  cases State.step_job h hjob with
  | kept _ hold hraw =>
    obtain ⟨ch, hch, hadm, hcopied⟩ := hi.serving k job hold
    obtain ⟨ch', hch', hstatic⟩ := (State.fire_outcome (State.step_eq_some.mp h).2).channel hch
    obtain ⟨-, hty, -, hcap⟩ := static_eq hstatic
    exact ⟨ch', hch', hty ▸ hadm, by rw [hraw, hcap]; exact hcopied.mono hsub⟩
  | @started now ch hch _ hadm hreg hraw hjob =>
    have hbuf := State.buffer?_data hch
    have hpos := admits_pos hadm
    have hfront : Accepted t.trace k ch.dataBuffer.bufferSize ch.dataBuffer.readSection := by
      refine ((hi.whole k _ hbuf).1.resolve_left fun hnil => ?_).mono hsub
      have hlen := congrArg List.length hnil
      simp [Buffer.view] at hlen
      omega
    have hlen := ch.dataBuffer.length_readSection
    subst hjob
    refine ⟨ch, by rw [hreg]; exact hch, hadm, ?_⟩
    rw [hraw, ← hlen, Mem.read_copy]
    exact hfront
  | @informed job₀ hold hdata hsize hreg hraw =>
    obtain ⟨ch, hch, hadm, hcopied⟩ := hi.serving k job₀ hold
    refine ⟨ch, by rw [hreg]; exact hch, by rw [hsize]; exact hadm, ?_⟩
    rw [hraw, hsize]
    exact hcopied.mono hsub

theorem step (hi : Copied s) (h : s.step env l = some t) : Copied t :=
  ⟨hi.whole_step h, hi.serving_step h⟩

end Copied

namespace Snapshot

theorem init : Snapshot env .init where
  whole := Copied.init.whole
  serving := nofun
  frames := by simp [State.init]

theorem copied (hi : Snapshot env s) : Copied s where
  whole := hi.whole
  serving k job hjob := by
    obtain ⟨ch, hs⟩ := hi.serving k job hjob
    exact ⟨ch, hs.channel, hs.admits, hs.copied⟩

/-- The borrowed bytes after a step of the application. -/
theorem borrowed_step {job : Job} {ch ch' : Channel} (hq : KeepsBorrowed s l t)
    (hs : Serving s k job ch) (hjob : s.pc.job? = some (k, job)) (h : s.step env l = some t)
    (hch' : t.registry.channels[k]? = some ch') (hty : ch.channelType = .pointcloud) :
    Accepted t.trace k ch.dataBuffer.bufferSize
      ((ch'.dataBuffer.contents job.data).read 0 job.dataSize) := by
  have hsub := step_trace h
  have hbuf := State.buffer?_data hs.channel
  have hbuf' := State.buffer?_data hch'
  have same : (ch'.dataBuffer.contents job.data).read 0 job.dataSize =
      (ch.dataBuffer.contents job.data).read 0 job.dataSize →
      Accepted t.trace k ch.dataBuffer.bufferSize
        ((ch'.dataBuffer.contents job.data).read 0 job.dataSize) :=
    fun he => he ▸ (hs.borrowed hty).mono hsub
  cases State.step_buffer h k .data with
  | alone _ _ hb => exact same (by rw [Option.some.inj (hbuf'.symm.trans (hb.trans hbuf))])
  | added hnone => cases hnone.symm.trans hbuf
  | @wrote u id d hfind hb =>
    rw [hbuf, Option.map_some] at hb
    have he := Option.some.inj (hbuf'.symm.trans hb)
    by_cases hd : d.length ≤ ch.dataBuffer.bufferSize
    · by_cases hslot : job.data = ch.dataBuffer.backBuffer
      · have hcontents : ch'.dataBuffer.contents job.data =
            (ch.dataBuffer.contents job.data).copy 0 d := by
          rw [he, hslot, contents_section_back hd]
        rcases hq u id d k job ch rfl hfind hjob hs.channel hty hslot.symm hd with hlen | hkept
        · rw [hcontents, ← hlen, Mem.read_copy]
          exact ⟨by simp [State.step_wrote hfind h], hd⟩
        · exact same (by rw [hcontents, hkept])
      · exact same (by rw [he, contents_section (.inl hslot)])
    · exact same (by rw [he, contents_section (.inr hd)])
  | swapped hb =>
    rw [hbuf, Option.map_some] at hb
    exact same (by rw [Option.some.inj (hbuf'.symm.trans hb), Buffer.contents_swapBuffers])

theorem serving_step (hq : KeepsBorrowed s l t) (hi : Snapshot env s)
    (h : s.step env l = some t) :
    ∀ k job, t.pc.job? = some (k, job) → ∃ ch, Serving t k job ch := by
  intro k job hjob
  have hsub := step_trace h
  obtain ⟨ch', hch', hadm, hcopied⟩ := hi.copied.serving_step h k job hjob
  refine ⟨ch', hch', hadm, hcopied, fun hpc => ?_⟩
  cases State.step_job h hjob with
  | kept _ hold hraw =>
    obtain ⟨ch, hs⟩ := hi.serving k job hold
    obtain ⟨ch'', hch'', hstatic⟩ :=
      (State.fire_outcome (State.step_eq_some.mp h).2).channel hs.channel
    cases hch'.symm.trans hch''
    obtain ⟨-, hty, -, hcap⟩ := static_eq hstatic
    rw [hcap]
    exact borrowed_step hq hs hold h hch' (hty ▸ hpc)
  | @started now ch hch _ _ hreg hraw hjob =>
    -- the copy and the borrowed bytes are the same payload
    have hlen := ch.dataBuffer.length_readSection
    rw [hreg] at hch'
    cases hch'.symm.trans hch
    subst hjob
    rw [hraw, ← hlen, Mem.read_copy] at hcopied
    exact hcopied
  | @informed job₀ hold hdata hsize hreg hraw =>
    obtain ⟨ch, hs⟩ := hi.serving k job₀ hold
    rw [hreg] at hch'
    cases hch'.symm.trans hs.channel
    rw [hdata, hsize]
    exact (hs.borrowed hpc).mono hsub

/-- The body of a served channel is the one of its payload. -/
theorem text_of_serving (env : Env) {job : Job} {ch : Channel} (hs : Serving s k job ch)
    (hty : ch.channelType ≠ .image) : ∃ d, Accepted s.trace k ch.dataBuffer.bufferSize d ∧
      (senderOf ch.channelType).admits d.length = true ∧
      (senderOf ch.channelType).text env ch.topicName (s.source ch job) =
        (senderOf ch.channelType).text env ch.topicName (.ofPayload d) := by
  have agree : ∀ m : Mem, Mem.Agree m (Mem.zero.copy 0 (m.read 0 job.dataSize)) 0 job.dataSize := by
    intro m
    refine Mem.agree_of_read ?_
    have hread := Mem.read_copy Mem.zero 0 (m.read 0 job.dataSize)
    rw [Mem.length_read] at hread
    exact hread.symm
  by_cases hpc : ch.channelType = .pointcloud
  · refine ⟨_, hs.borrowed hpc, by rw [Mem.length_read]; exact hs.admits, ?_⟩
    exact text_congr hty hs.admits
      ⟨by simp [Source.ofPayload, State.source], fun hne => absurd hpc hne, fun _ => agree _⟩ _
  · refine ⟨_, hs.copied, by rw [Mem.length_read]; exact hs.admits, ?_⟩
    exact text_congr hty hs.admits
      ⟨by simp [Source.ofPayload, State.source], fun _ => agree _, fun h => absurd h hpc⟩ _

theorem frames_step (hi : Snapshot env s) (h : s.step env l = some t) :
    ∀ w c d old, .frame w c d :: old <:+ t.trace → FromOne env t c d old := by
  intro w c d old hsuf
  obtain hold | ⟨nsec, k, job, ch, e, rfl, hjob, hch, hw, hbody, rfl, rfl, rfl⟩ :=
    State.step_frame h hsuf
  · obtain ⟨k, ch, hch, hid, hrest⟩ := hi.frames w c d old hold
    obtain ⟨ch', hch', hstatic⟩ := (State.fire_outcome (State.step_eq_some.mp h).2).channel hch
    obtain ⟨hid', hty, htopic, hcap⟩ := static_eq hstatic
    refine ⟨k, ch', hch', hid'.trans hid, ?_⟩
    rw [hty, htopic, hcap]
    exact hrest
  · obtain ⟨ch₀, hs⟩ := hi.serving k job hjob
    cases hs.channel.symm.trans hch
    obtain ⟨ch', hch', hstatic⟩ := (State.fire_outcome (State.step_eq_some.mp h).2).channel hch
    obtain ⟨hid', hty, htopic, hcap⟩ := static_eq hstatic
    refine ⟨k, ch', hch', hid', fun himg => ?_⟩
    rw [hty] at himg
    obtain ⟨d, hd, -, htext⟩ := text_of_serving env hs himg
    refine ⟨ch.subscriptionId, nsec, d, e.body, ?_, ?_, rfl⟩
    · rw [hcap]
      exact hd.mono (List.subset_cons_self ..)
    · rw [hty, htopic, ← htext, Sender.text, hbody]
      rfl

theorem step (hq : KeepsBorrowed s l t) (hi : Snapshot env s) (h : s.step env l = some t) :
    Snapshot env t :=
  ⟨hi.copied.whole_step h, hi.serving_step hq h, hi.frames_step h⟩

end Snapshot

/-- **One payload.** In a run in which each write to the bytes that a point cloud borrows keeps them
one payload, the body of every frame of a channel that is no image is encoded from the payload of
one accepted write section before it. -/
theorem frames_from_one_payload {es : List Label}
    (hr : (sys env).Run KeepsBorrowed .init es s) :
    ∀ w c d old, .frame w c d :: old <:+ s.trace → FromOne env s c d old :=
  (hr.inv (I := Snapshot env) (fun _ _ _ h hq hi => hi.step hq h) .init).frames

/-- No write call starts a section while a sender is between its own. -/
def undisturbed (s : State) (l : Label) (_ : State) : Bool :=
  match l, s.pc.job? with
  | .write .., some _ => false
  | _, _ => true

theorem keepsBorrowed_of_undisturbed (s : State) (l : Label) (t : State)
    (h : undisturbed s l t = true) : KeepsBorrowed s l t := by
  rintro u id d k job ch rfl - hjob
  simp [undisturbed, hjob] at h

/-- A run that sends a subscribed point cloud of two points, with these labels between the sections
of its sender. -/
def pointcloudRun (between : List Label) : List Label :=
  [.addChannel (ascii "a") (some .pointcloud) 10 .zeroed] ++
    writeCall .data 0 (List.replicate 32 1) ++
    [.callback 1 .established, .callback 1 (.receive (subscribeText 5 0)),
      .callback 1 .serverWriteable, .visit 1000] ++ between ++ [.readInfo, .encode 7]

theorem undisturbed_pointcloud : ∃ s w c d old,
    (sys .standIn).Run KeepsBorrowed .init (pointcloudRun []) s ∧ s.trace = .frame w c d :: old ∧
      FromOne .standIn s c d old := by
  obtain ⟨s, hr, hs⟩ := Lts.exists_run (L := sys .standIn) (s := .init) (pointcloudRun [])
    (p := fun s => s.trace.head?.any (·.isFrame)) keepsBorrowed_of_undisturbed (by decide +kernel)
  obtain ⟨o, ho, hframe⟩ := (Option.any_eq_true _ _).mp hs
  obtain ⟨old, htr⟩ := List.head?_eq_some_iff.mp ho
  cases o with
  | frame w c d =>
    exact ⟨s, w, c, d, old, hr, htr,
      frames_from_one_payload hr w c d old ⟨[], htr.symm⟩⟩
  | _ => cases hframe

/-- The payloads of the write sections on a data buffer. -/
def payloads (k : Nat) (tr : List Obs) : List Bytes :=
  tr.filterMap fun
    | .wrote i .data d => if i = k then some d else none
    | _ => none

/-- The last frame of a trace is of no image, and its body is of no payload. -/
def torn (env : Env) (s : State) : Bool :=
  match s.trace with
  | .frame _ _ frame :: old => s.registry.channels.zipIdx.all fun (ch, k) =>
      ch.channelType != .image && (payloads k old).all fun d =>
        (senderOf ch.channelType).text env ch.topicName (.ofPayload d) !=
          some (some (frame.drop 13))
  | _ => false

theorem not_fromOne {w : Socket} {c : Int32} {frame : Bytes} {old : List Obs}
    (h : torn env s = true) (htr : s.trace = .frame w c frame :: old) :
    ¬ FromOne env s c frame old := by
  rintro ⟨k, ch, hch, -, hone⟩
  simp only [torn, htr, List.all_eq_true] at h
  have hk := h (ch, k) (List.mk_mem_zipIdx_iff_getElem?.mpr hch)
  simp only [Bool.and_eq_true, bne_iff_ne, List.all_eq_true] at hk
  obtain ⟨himg, hall⟩ := hk
  obtain ⟨id, nsec, d, body, ⟨hd, -⟩, htext, rfl⟩ := hone himg
  refine hall d (List.mem_filterMap.mpr ⟨_, hd, by simp⟩) ?_
  rw [htext, List.drop_left' (State.length_header id nsec)]

/-- Two write calls of one thread between the sections of `send_pointcloud`: the second one is
shorter, and goes to the allocation that the sender borrows. -/
def overwrites : List Label :=
  writeCall .data 0 (List.replicate 16 2) ++ writeCall .data 0 (List.replicate 16 3)

theorem torn_pointcloud : ∃ s w c d old,
    (sys .standIn).Reach .init (pointcloudRun overwrites) s ∧ s.trace = .frame w c d :: old ∧
      ¬ FromOne .standIn s c d old := by
  obtain ⟨s, hr, hs⟩ := Lts.exists_reach (L := sys .standIn) (s := .init)
    (pointcloudRun overwrites) (p := torn .standIn) (by decide +kernel)
  cases htr : s.trace with
  | nil => simp [torn, htr] at hs
  | cons o old =>
    cases o with
    | frame w c d => exact ⟨s, w, c, d, old, hr, htr, not_fromOne hs htr⟩
    | _ => simp [torn, htr] at hs

end Foxdbg
