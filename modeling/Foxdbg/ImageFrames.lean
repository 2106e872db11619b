import Foxdbg.Capacity
import Foxdbg.Decoding
import Foxdbg.Images
import Foxdbg.Isolation

/-!
# What the client reads of an image (`send_image`)

An image is written in two parts: its pixels, and a `foxdbg_image_info_t` with their dimensions. A
frame is made of the pixels of one write section, the info of one write section, and what the
compressor makes of them.

* `image_frames_decode`: in every run in which the infos fit their buffers, and each image sender
  stays within the bytes that it copied, the body of an image frame is the value of pixels and an
  info that were written to its channel, compressed; or it is empty, if they are too large for the
  text encoder.
-/

namespace Foxdbg

open Json Mem

/-- `foxdbg_image_info_t`. -/
structure ImageInfo where
  width : Int32
  height : Int32
  channels : Int32

namespace ImageInfo

def bytes (i : ImageInfo) : Bytes :=
  floatBytes i.width.toUInt32 ++ (floatBytes i.height.toUInt32 ++ floatBytes i.channels.toUInt32)

/-- The number of bytes of the pixels. -/
def size (i : ImageInfo) : Nat :=
  i.width.toInt.toNat * i.height.toInt.toNat * (pixelFormat i.channels).size

/-- What the compressor makes of the pixels at the start of `d`. -/
def compress (i : ImageInfo) (env : Env) (d : Bytes) : Option Bytes :=
  env.tjCompress2 (d.take i.size) i.width i.height (pixelFormat i.channels)

/-- The `foxdbg_image_info_t` in memory. -/
def ofMem (m : Mem) : ImageInfo := ⟨infoWidth m, infoHeight m, infoChannels m⟩

theorem size_ofMem (m : Mem) : (ofMem m).size = imageSize m := rfl

/-- The bytes of a word in memory. -/
theorem floatBytes_i32 (m : Mem) (off : Nat) : floatBytes (m.i32 off).toUInt32 = m.read off 4 := by
  have hlt := ofLe_lt (m.read off 4)
  rw [length_read] at hlt
  have hword : (m.i32 off).toUInt32 = m.u32 off := rfl
  rw [hword, floatBytes, u32, Nat.toUInt32_eq, UInt32.toNat_ofNat', Nat.mod_eq_of_lt (by omega)]
  have hread := le_ofLe (m.read off 4)
  rwa [length_read] at hread

/-- Memory that has been read so far as an info begins with its bytes. -/
theorem read_ofMem (m : Mem) {n : Nat} (h : sizeofImageInfo ≤ n) :
    m.read 0 n = (ofMem m).bytes ++ m.read sizeofImageInfo (n - sizeofImageInfo) := by
  have hbytes : (ofMem m).bytes = m.read 0 sizeofImageInfo := by
    show floatBytes (m.i32 0).toUInt32 ++ (floatBytes (m.i32 4).toUInt32 ++
      floatBytes (m.i32 8).toUInt32) = m.read 0 (4 + (4 + 4))
    rw [floatBytes_i32, floatBytes_i32, floatBytes_i32, read_append, read_append]
  rw [hbytes]
  conv_lhs => rw [← Nat.add_sub_cancel' h, read_append, Nat.zero_add]

end ImageInfo

/-! ## The infos -/

/-- Nothing, or the info of one write section. -/
def WholeInfo (tr : List Obs) (k : Nat) (x : Bytes) : Prop := x = [] ∨ .wrote k .info x ∈ tr

theorem WholeInfo.mono {tr tr' : List Obs} {k : Nat} {x : Bytes} (h : WholeInfo tr k x)
    (hsub : tr ⊆ tr') : WholeInfo tr' k x :=
  h.imp_right (hsub ·)

/-- What holds as long as the infos fit: an info buffer has infos, and so has `info_data_buffer`
after the info section of an image. -/
structure Informed (s : State) : Prop where
  whole : ∀ k buf, s.buffer? k .info = some buf →
    WholeInfo s.trace k buf.view.front ∧ WholeInfo s.trace k buf.view.back
  serving : ∀ k due job ch, s.pc = .encode k due (some job) → s.registry.channels[k]? = some ch →
    ch.channelType = .image → WholeInfo s.trace k (s.infoDataBuffer.read 0 job.infoSize)

variable {env : Env} {s t : State} {l : Label} {k : Nat}

namespace Informed

theorem init : Informed .init where
  whole := by simp [State.buffer?, bufferAt, State.init, Registry.init]
  serving := by
    rintro k due job ch ⟨⟩

theorem whole_step (hq : Fits .info s l t) (hi : Informed s) (h : s.step env l = some t) :
    ∀ k buf, t.buffer? k .info = some buf →
      WholeInfo t.trace k buf.view.front ∧ WholeInfo t.trace k buf.view.back := by
  intro k buf hbuf
  have hsub := step_trace h
  cases State.step_buffer h k .info with
  | alone _ _ hb =>
    obtain ⟨hf, hk⟩ := hi.whole k buf (hb ▸ hbuf)
    exact ⟨hf.mono hsub, hk.mono hsub⟩
  | added _ hfresh hb =>
    obtain ⟨hf, hk⟩ := hfresh.empty .info buf (hb ▸ hbuf)
    exact ⟨.inl (by simp [Buffer.view, hf]), .inl (by simp [Buffer.view, hk])⟩
  | @wrote u id d hfind hb =>
    obtain ⟨buf₀, hbuf₀, rfl⟩ := Option.map_eq_some_iff.mp (hb ▸ hbuf)
    rw [view_section (hq u id d k buf₀ rfl hfind hbuf₀)]
    exact ⟨(hi.whole k buf₀ hbuf₀).1.mono hsub, .inr (State.step_wrote hfind h ▸ by simp)⟩
  | swapped hb =>
    obtain ⟨buf₀, hbuf₀, rfl⟩ := Option.map_eq_some_iff.mp (hb ▸ hbuf)
    obtain ⟨hf, hk⟩ := hi.whole k buf₀ hbuf₀
    rw [Buffer.view_swapBuffers]
    exact ⟨hk.mono hsub, hf.mono hsub⟩

theorem serving_step (hi : Informed s) (hcopied : Copied s) (h : s.step env l = some t) :
    ∀ k due job ch, t.pc = .encode k due (some job) → t.registry.channels[k]? = some ch →
      ch.channelType = .image → WholeInfo t.trace k (t.infoDataBuffer.read 0 job.infoSize) := by
  intro k due job ch hpc hch hty
  have hsub := step_trace h
  have hf := (State.step_eq_some.mp h).2
  have app : l.isApp = true → WholeInfo t.trace k (t.infoDataBuffer.read 0 job.infoSize) := by
    intro hl
    have hout := State.fire_outcome hf
    obtain ⟨hsame | hcrashed, -, hinfo⟩ := hout.app hl
    · have hold : s.pc = .encode k due (some job) := hsame.symm.trans hpc
      obtain ⟨ch₀, hch₀, -⟩ := hcopied.serving k job (by rw [hold]; rfl)
      obtain ⟨ch', hch', hstatic⟩ := hout.channel hch₀
      cases hch.symm.trans hch'
      rw [show t.infoDataBuffer = s.infoDataBuffer from hinfo]
      exact (hi.serving k due job ch₀ hold hch₀ ((static_eq hstatic).2.1 ▸ hty)).mono hsub
    · rw [hcrashed] at hpc
      cases hpc
  cases l with
  | callback w reason =>
    have hjob := State.job?_callback hf
    rw [hpc] at hjob
    cases hjob
  | visit now =>
    obtain ⟨k', -, rfl⟩ := State.fire_visit.mp hf
    obtain ⟨-, hv⟩ | ⟨ch', -, hv | ⟨-, -, -, hv⟩⟩ :=
      State.visit_cases (s.log (.event (.visit now))) k' now <;> rw [hv] at hpc <;> cases hpc
  | readInfo =>
    obtain ⟨k', due', -, rfl⟩ | ⟨k', due', job₀, -, rfl⟩ := State.fire_readInfo.mp hf
    · cases hpc
    · obtain hv | hv | ⟨ch', hch', ⟨hty', hv⟩ | ⟨-, info, hinfo, -, hv⟩⟩ :=
        State.readInfo_cases (s.log (.event .readInfo)) k' due' job₀ <;>
        rw [hv] at hpc hch hsub ⊢ <;> cases hpc
      · cases hch.symm.trans hch'
        exact absurd hty hty'
      · -- the copy of the populated info
        have hbuf : s.buffer? k .info = some info := by
          rw [State.buffer?, bufferAt, show s.registry.channels[k]? = some ch' from hch']
          exact hinfo
        have hread : ((s.infoDataBuffer.copy 0 info.readSection).read 0 info.frontBufferSize) =
            info.readSection := by
          rw [← Buffer.length_readSection, read_copy]
        refine WholeInfo.mono ?_ hsub
        show WholeInfo s.trace k
          ((s.infoDataBuffer.copy 0 info.readSection).read 0 info.frontBufferSize)
        rw [hread]
        exact (hi.whole k info hbuf).1
  | encode nsec =>
    obtain ⟨k', due', -, rfl⟩ | ⟨k', due', job', -, rfl⟩ := State.fire_encode.mp hf
    · cases hpc
    · cases he : State.encode env (s.log (.event (.encode nsec))) k' job' nsec <;>
        rw [he] at hpc <;> cases hpc
  | stamp now =>
    obtain ⟨k', due', -, rfl⟩ := State.fire_stamp.mp hf
    cases hpc
  | _ => exact app rfl

theorem step (hq : Fits .info s l t) (hi : Informed s) (hcopied : Copied s)
    (h : s.step env l = some t) : Informed t :=
  ⟨hi.whole_step hq h, hi.serving_step hcopied h⟩

end Informed

/-! ## Frames -/

/-- The frame is one of a channel; if the channel is an image, the frame has the value of pixels and
an info that were written before, compressed. -/
def Pictures (env : Env) (s : State) (c : Int32) (frame : Bytes) (old : List Obs) : Prop :=
  ∃ k ch, s.registry.channels[k]? = some ch ∧ ch.channelId = c ∧
    (ch.channelType = .image → ∃ (i : ImageInfo) (rest d jpeg : Bytes),
      .wrote k .info (i.bytes ++ rest) ∈ old ∧ Accepted old k ch.dataBuffer.bufferSize d ∧
      i.size ≤ d.length ∧ i.compress env d = some jpeg ∧ ∃ id nsec body,
        decodeFrame frame = some (id, nsec, body) ∧
        (parse env.toFloatLib body = some (imageJson i.width i.height i.channels jpeg) ∨
          sizeofEncodeBuffer < estimatedTotalSize jpeg.length ∧ body = []))

/-- Each image sender stays within the bytes that it copied. -/
def ReadsCopied (s : State) (l : Label) (t : State) : Prop := ∀ c, ReadsOwn c s l t

/-- What `send_image` encodes, if the pixels of the info are among the copied bytes. -/
theorem imageBody_some (topic : Bytes) {src : Source} {e : Encoded}
    (h : imageBody env topic src = some (some e))
    (hsize : imageSize src.infoDataBuffer ≤ src.dataSize) :
    ∃ jpeg, (ImageInfo.ofMem src.infoDataBuffer).compress env
        (src.rawDataBuffer.read 0 src.dataSize) = some jpeg ∧
      (parse env.toFloatLib e.body = some (imageJson (infoWidth src.infoDataBuffer)
          (infoHeight src.infoDataBuffer) (infoChannels src.infoDataBuffer) jpeg) ∨
        sizeofEncodeBuffer < estimatedTotalSize jpeg.length ∧ e.body = []) := by
  have htake : (src.rawDataBuffer.read 0 src.dataSize).take (imageSize src.infoDataBuffer) =
      src.rawDataBuffer.read 0 (imageSize src.infoDataBuffer) := by
    rw [← Nat.add_sub_cancel' hsize, read_append]
    exact List.take_left' (length_read ..)
  rw [ImageInfo.compress, ImageInfo.size_ofMem, htake]
  simp only [imageBody] at h
  split at h
  · cases h
  · rename_i jpeg hjpeg
    cases h
    refine ⟨jpeg, hjpeg, ?_⟩
    by_cases hfits : estimatedTotalSize jpeg.length ≤ sizeofEncodeBuffer
    · have hholds : (encodeImageByteArray sizeofEncodeBuffer (infoWidth src.infoDataBuffer)
          (infoHeight src.infoDataBuffer) (infoChannels src.infoDataBuffer) jpeg).Holds
            (imageText (infoWidth src.infoDataBuffer) (infoHeight src.infoDataBuffer)
              (infoChannels src.infoDataBuffer) jpeg) := holds_encodeImageByteArray hfits
      left
      show parse env.toFloatLib (Mem.read _ 0 _) = _
      rw [hholds.length, hholds.read]
      exact (denotes_imageText ..).parse
    · refine .inr ⟨Nat.not_le.mp hfits, ?_⟩
      have hnone : encodeImageByteArray sizeofEncodeBuffer (infoWidth src.infoDataBuffer)
          (infoHeight src.infoDataBuffer) (infoChannels src.infoDataBuffer) jpeg = {} := by
        rw [encodeImageByteArray]
        exact if_pos (Nat.not_le.mp hfits)
      show Mem.read _ 0 _ = []
      rw [hnone]
      rfl

theorem encode_pc {nsec : UInt64} {job : Job} (h : s.step env (.encode nsec) = some t)
    (hjob : s.pc.job? = some (k, job)) : ∃ due, s.pc = .encode k due (some job) := by
  obtain ⟨k', due, hpc, -⟩ | ⟨k', due, job', hpc, -⟩ :=
    State.fire_encode.mp (State.step_eq_some.mp h).2
  all_goals
    replace hpc : s.pc = _ := hpc
    rw [hpc] at hjob
    cases hjob
  exact ⟨due, hpc⟩

/-- A step keeps what the frames of images so far are made of, and adds one that is made so. -/
theorem pictures_step (hq : ReadsCopied s l t) (hi : Informed s) (hcopied : Copied s)
    (hframes : ∀ w c d old, .frame w c d :: old <:+ s.trace → Pictures env s c d old)
    (h : s.step env l = some t) :
    ∀ w c d old, .frame w c d :: old <:+ t.trace → Pictures env t c d old := by
  have hout := State.fire_outcome (State.step_eq_some.mp h).2
  intro w c d old hsuf
  obtain hold | ⟨nsec, k, job, ch, e, rfl, hjob, hch, hw, hbody, rfl, rfl, rfl⟩ :=
    State.step_frame h hsuf
  · obtain ⟨k, ch, hch, hid, hrest⟩ := hframes w c d old hold
    obtain ⟨ch', hch', hstatic⟩ := hout.channel hch
    obtain ⟨hid', hty, -, hcap⟩ := static_eq hstatic
    refine ⟨k, ch', hch', hid'.trans hid, ?_⟩
    rw [hty, hcap]
    exact hrest
  · obtain ⟨ch₀, hch₀, -, hdata⟩ := hcopied.serving k job hjob
    cases hch₀.symm.trans hch
    obtain ⟨ch', hch', hstatic⟩ := hout.channel hch
    obtain ⟨hid', hty, -, hcap⟩ := static_eq hstatic
    refine ⟨k, ch', hch', hid', fun himg => ?_⟩
    rw [hty] at himg
    obtain ⟨hinfo, hsize⟩ := hq ch.channelId nsec k job ch rfl hjob hch rfl himg
    -- the bytes of the info section are an info that was written
    have hwrote : .wrote k .info (s.infoDataBuffer.read 0 job.infoSize) ∈ s.trace := by
      obtain ⟨due, hpc⟩ := encode_pc h hjob
      refine (hi.serving k due job ch hpc hch himg).resolve_left fun hnil => ?_
      have hlength := congrArg List.length hnil
      rw [length_read] at hlength
      rw [hlength] at hinfo
      exact absurd hinfo (by decide)
    rw [ImageInfo.read_ofMem _ hinfo] at hwrote
    rw [himg] at hbody
    obtain ⟨jpeg, hjpeg, hparse⟩ := imageBody_some ch.topicName hbody hsize
    refine ⟨.ofMem s.infoDataBuffer, _, _, jpeg, List.mem_cons_of_mem _ hwrote, ?_, ?_, hjpeg,
      _, _, _, decodeFrame_header _ _ _, hparse⟩
    · rw [hcap]
      exact hdata.mono (List.subset_cons_self ..)
    · rw [ImageInfo.size_ofMem, length_read]
      exact hsize

/-- **Images.** In a run in which each info fits its buffer, and each image sender stays within the
bytes that it copied, a client decodes every frame of an image, and its body is the value of pixels
and an info that write sections of its channel have had before, compressed; or it is empty, if the
encoder's estimate for them does not fit. -/
theorem image_frames_decode {es : List Label}
    (hr : (sys env).Run (fun s l t => Fits .info s l t ∧ ReadsCopied s l t) .init es s) :
    ∀ w c d old, .frame w c d :: old <:+ s.trace → Pictures env s c d old := by
  have hinit : ∀ w c d old, .frame w c d :: old <:+ (State.init).trace →
      Pictures env .init c d old := by simp [State.init]
  exact (hr.inv (I := fun s => Copied s ∧ Informed s ∧
    ∀ w c d old, .frame w c d :: old <:+ s.trace → Pictures env s c d old)
    (fun _ _ _ h hq hi => ⟨hi.1.step h, hi.2.1.step hq.1 hi.1 h,
      pictures_step hq.2 hi.2.1 hi.1 hi.2.2 h⟩) ⟨.init, .init, hinit⟩).2.2

/-- The check of `image_frames_decode`'s runs. -/
def infoFits (s : State) (l : Label) (_ : State) : Bool :=
  match l with
  | .write _ .info id d => (s.registry.find .info id).all fun i =>
      (s.buffer? i .info).all fun buf => d.length ≤ buf.bufferSize
  | _ => true

theorem fits_of_infoFits (s : State) (l : Label) (t : State) (h : infoFits s l t = true) :
    Fits .info s l t := by
  rintro u id d i buf rfl hfind hbuf
  simpa [infoFits, hfind, hbuf] using h

/-- A run that sends an image of one pixel. -/
def pictureRun : List Label :=
  .addChannel (ascii "a") (some .image) 10 .zeroed :: writeCall .data 0 [5, 6, 7] ++
    writeCall .info 0 onePixel ++
    [.callback 1 .established, .callback 1 (.receive (subscribeText 5 0)),
      .callback 1 .serverWriteable, .visit 1000, .readInfo, .encode 7]

theorem picture_decodes : ∃ s w c d old,
    (sys .standIn).Run (fun s l t => Fits .info s l t ∧ ReadsCopied s l t) .init pictureRun s ∧
      s.trace = .frame w c d :: old ∧ Pictures .standIn s c d old := by
  obtain ⟨s, hr, hs⟩ := Lts.exists_run (L := sys .standIn) (s := .init) pictureRun
    (q := fun s l t => infoFits s l t && withinCopied s l t)
    (Q := fun s l t => Fits .info s l t ∧ ReadsCopied s l t)
    (p := fun s => s.trace.head?.any (·.isFrame))
    (fun s l t h => by
      obtain ⟨hfits, hreads⟩ := Bool.and_eq_true_iff.mp h
      exact ⟨fits_of_infoFits s l t hfits, fun c => readsOwn_of_withinCopied c s l t hreads⟩)
    (by decide +kernel)
  obtain ⟨o, ho, hframe⟩ := (Option.any_eq_true _ _).mp hs
  obtain ⟨old, htr⟩ := List.head?_eq_some_iff.mp ho
  cases o with
  | frame w c d =>
    exact ⟨s, w, c, d, old, hr, htr, image_frames_decode hr w c d old ⟨[], htr.symm⟩⟩
  | _ => cases hframe

end Foxdbg
