import Foxdbg.Frames
import Foxdbg.Opening
import Foxdbg.Payloads

/-!
# What the client reads

The other side takes a frame apart (`decodeFrame`) and parses its body. What it gets is what the
application has written:

* `frames_decode`: in every run, the body of a frame is the value of one payload that was written to
  its channel.
* `payload_decoded`: a payload that is in front when its channel is due reaches the client.

A client reads doubles as `strtod` does (`RoundTrips`); an infinity or a NaN reaches it as `null`.
-/

namespace Foxdbg

open Json

variable {env : Env} {s t : State} {l : Label} {k : Nat} {w : Socket}

/-! ## Frames -/

/-- The frame is one of a channel; if the channel is no image, the frame has the value of one
payload that was accepted before. -/
def Decodes (env : Env) (s : State) (c : Int32) (frame : Bytes) (old : List Obs) : Prop :=
  ∃ k ch, s.registry.channels[k]? = some ch ∧ ch.channelId = c ∧
    (ch.channelType ≠ .image → ∃ (p : Payload) (v : Json), p.channelType = ch.channelType ∧
      Accepted old k ch.dataBuffer.bufferSize p.bytes ∧ p.json env ch.topicName = some v ∧
        ∃ id nsec body, decodeFrame frame = some (id, nsec, body) ∧
          parse env.toFloatLib body = some v.reread)

/-- A sender makes the text of the value of a payload. -/
theorem text_payload (p : Payload) (env : Env) (topic : Bytes) :
    (senderOf p.channelType).text env topic (.ofPayload p.bytes) =
      ((p.json env topic).bind (dump env.toFloatLib)).map some := by
  have hhas : (Mem.zero.copy 0 p.bytes).Has 0 p.bytes := Mem.read_copy _ _ _
  rw [Sender.text, body_payload p env topic (.ofPayload p.bytes) rfl (fun _ => hhas)
    fun _ => hhas, Option.map_map]
  rfl

/-- What a sender in service encodes reads as the value of an accepted payload. -/
theorem decodes_of_serving (hF : RoundTrips env.toFloatLib) {job : Job} {ch : Channel}
    {e : Encoded} (hs : Serving s k job ch) (hty : ch.channelType ≠ .image)
    (hbody : (senderOf ch.channelType).body env ch.topicName (s.source ch job) = some (some e)) :
    ∃ (p : Payload) (v : Json), p.channelType = ch.channelType ∧
      Accepted s.trace k ch.dataBuffer.bufferSize p.bytes ∧ p.json env ch.topicName = some v ∧
      parse env.toFloatLib e.body = some v.reread := by
  obtain ⟨d, hd, hadm, htext⟩ := Snapshot.text_of_serving env hs hty
  obtain ⟨p, hp, rfl⟩ := exists_payload hty hadm
  rw [Sender.text, hbody, ← hp, text_payload] at htext
  obtain ⟨text, hbind, heq⟩ := Option.map_eq_some_iff.mp htext.symm
  obtain ⟨v, hv, hdump⟩ := Option.bind_eq_some_iff.mp hbind
  cases heq
  exact ⟨p, v, hp, hd, hv, parse_dump hF hdump (kept_payload env hv)⟩

/-- A step keeps what the frames so far decode to, and adds a frame that decodes. -/
theorem decodes_step (hF : RoundTrips env.toFloatLib) (hi : Snapshot env s)
    (hframes : ∀ w c d old, .frame w c d :: old <:+ s.trace → Decodes env s c d old)
    (h : s.step env l = some t) :
    ∀ w c d old, .frame w c d :: old <:+ t.trace → Decodes env t c d old := by
  have hout := State.fire_outcome (State.step_eq_some.mp h).2
  intro w c d old hsuf
  obtain hold | ⟨nsec, k, job, ch, e, rfl, hjob, hch, hw, hbody, rfl, rfl, rfl⟩ :=
    State.step_frame h hsuf
  · obtain ⟨k, ch, hch, hid, hrest⟩ := hframes w c d old hold
    obtain ⟨ch', hch', hstatic⟩ := hout.channel hch
    obtain ⟨hid', hty, htopic, hcap⟩ := static_eq hstatic
    refine ⟨k, ch', hch', hid'.trans hid, ?_⟩
    rw [hty, htopic, hcap]
    exact hrest
  · obtain ⟨ch₀, hs⟩ := hi.serving k job hjob
    cases hs.channel.symm.trans hch
    obtain ⟨ch', hch', hstatic⟩ := hout.channel hch
    obtain ⟨hid', hty, htopic, hcap⟩ := static_eq hstatic
    refine ⟨k, ch', hch', hid', fun himg => ?_⟩
    rw [hty] at himg
    obtain ⟨p, v, hp, hd, hv, hparse⟩ := decodes_of_serving hF hs himg hbody
    refine ⟨p, v, by rw [hty]; exact hp, ?_, by rw [htopic]; exact hv, _, _, _,
      decodeFrame_header _ _ _, hparse⟩
    rw [hcap]
    exact hd.mono (List.subset_cons_self ..)

/-- **Frames.** In a run in which each write to the bytes that a point cloud borrows keeps them one
payload, a client decodes every frame of a channel that is no image, and its body is the value of
one payload that a write section has accepted before. -/
theorem frames_decode (hF : RoundTrips env.toFloatLib) {es : List Label}
    (hr : (sys env).Run KeepsBorrowed .init es s) :
    ∀ w c d old, .frame w c d :: old <:+ s.trace → Decodes env s c d old := by
  have hinit : ∀ w c d old, .frame w c d :: old <:+ (State.init).trace →
      Decodes env .init c d old := by simp [State.init]
  exact (hr.inv (I := fun s => Snapshot env s ∧
    ∀ w c d old, .frame w c d :: old <:+ s.trace → Decodes env s c d old)
    (fun _ _ _ h hq hi => ⟨hi.1.step hq h, decodes_step hF hi.1 hi.2 h⟩) ⟨.init, hinit⟩).2

/-- A run that sends the integer 7. -/
def integerRun : List Label :=
  channelRun .integer (ascii "a") ++ writeCall .data 0 (floatBytes 7) ++
    [.callback 1 .serverWriteable, .visit 1000, .readInfo, .encode 7]

theorem integer_decodes : ∃ s w c d old, (sys .indexed).Run KeepsBorrowed .init integerRun s ∧
    s.trace = .frame w c d :: old ∧ Decodes .indexed s c d old := by
  obtain ⟨s, hr, hs⟩ := Lts.exists_run (L := sys .indexed) (s := .init) integerRun
    (p := fun s => s.trace.head?.any (·.isFrame)) keepsBorrowed_of_undisturbed (by decide +kernel)
  obtain ⟨o, ho, hframe⟩ := (Option.any_eq_true _ _).mp hs
  obtain ⟨old, htr⟩ := List.head?_eq_some_iff.mp ho
  cases o with
  | frame w c d =>
    exact ⟨s, w, c, d, old, hr, htr,
      frames_decode roundTrips_indexed hr w c d old ⟨[], htr.symm⟩⟩
  | _ => cases hframe

/-! ## The next frame -/

section Delivery

variable {d : Bytes} {now nsec : UInt64} {ch₀ ch : Channel} {s₀ s₅ : State} {p : Payload}
  {v : Json}

/-- A sender takes every payload of its type but an empty array. -/
theorem admits_payload (hne : p.bytes ≠ []) (hfits : p.bytes.length ≤ p.channelType.payloadSize) :
    (senderOf p.channelType).admits p.bytes.length = true := by
  have hpos := List.length_pos_iff.mpr hne
  have one : ∀ {n size : Nat}, n = size → size ≤ sizeofRawDataBuffer →
      (decide (n ≤ sizeofRawDataBuffer) && n == size) = true := by
    rintro n _ rfl hsize
    rw [decide_eq_true hsize, Bool.true_and, beq_self_eq_true]
  cases p with
  | pointcloud points =>
    have hlength : (points.flatMap Vector4.bytes).length = points.length * sizeofVector4 := by
      simp [List.length_flatMap, Vector4.bytes, length_floatBytes, sizeofVector4]
    simp only [Payload.channelType, senderOf, sendPointcloud, Sender.ofJson, Bool.and_eq_true,
      decide_eq_true_eq, beq_iff_eq]
    exact ⟨hfits, hpos, by rw [Payload.bytes, hlength, Nat.mul_mod_left]⟩
  | cubes records =>
    refine (Batch.admits_iff (b := .cubes)).mpr ⟨hfits, hpos, ?_⟩
    exact Dvd.intro_left _ (Batch.length_payload (b := .cubes)).symm
  | lines records =>
    refine (Batch.admits_iff (b := .lines)).mpr ⟨hfits, hpos, ?_⟩
    exact Dvd.intro_left _ (Batch.length_payload (b := .lines)).symm
  | pose p =>
    have hsize : (Payload.pose p).bytes.length = sizeofPose := by
      simp [Payload.bytes, Pose.bytes, Vector3.length_bytes, Color.length_bytes, sizeofPose]
    exact one hsize (by decide)
  | transform t =>
    have hsize : (Payload.transform t).bytes.length = sizeofTransform := by
      simp [Payload.bytes, Transform.bytes, length_wordBytes, Vector3.length_bytes,
        sizeofTransform]
    exact one hsize (by decide)
  | location l =>
    have hsize : (Payload.location l).bytes.length = sizeofLocation := by
      simp [Payload.bytes, Location.bytes, length_wordBytes, length_floatBytes, sizeofLocation]
    exact one hsize (by decide)
  | float x => exact one (length_floatBytes x) (by decide)
  | integer i => exact one (length_floatBytes _) (by decide)
  | boolean b => rfl

/-- A run with no write section on a buffer leaves its allocations as they are. -/
theorem contents_run {es : List Label} (hr : (sys env).Run (Spares k .data) s es t)
    (hch : s.registry.channels[k]? = some ch) {ch' : Channel}
    (hch' : t.registry.channels[k]? = some ch') (slot : Slot) :
    ch'.dataBuffer.contents slot = ch.dataBuffer.contents slot := by
  obtain ⟨buf, hbuf, hsame⟩ := hr.inv (I := fun u => ∃ buf, u.buffer? k .data = some buf ∧
      buf.contents slot = ch.dataBuffer.contents slot)
    (fun u l v h hq ⟨buf, hbuf, hsame⟩ => by
      cases State.step_buffer h k .data with
      | alone _ _ hb => exact ⟨buf, hb.trans hbuf, hsame⟩
      | added hnone => cases hnone.symm.trans hbuf
      | wrote hfind => exact absurd hfind (hq _ _ _ rfl)
      | swapped hb =>
        refine ⟨buf.swapBuffers, by rw [hb, hbuf]; rfl, ?_⟩
        rw [Buffer.contents_swapBuffers, hsame])
    ⟨_, State.buffer?_data hch, rfl⟩
  cases hbuf.symm.trans (State.buffer?_data hch')
  exact hsame

/-- **Delivery.** A payload that fits its buffer is written to a channel, and nothing else after it;
the swap sections have brought it to the front when the channel is due, and if it is a point cloud
then no write section is on the channel in the pass. If the payload has a value (the frame ids of a
transform point to strings) and its strings are UTF-8, the pass hands the client one frame, unless
it is too large for the sender, and the client decodes it to the value. -/
theorem payload_decoded (hF : RoundTrips env.toFloatLib)
    (h : WriteAndPass env k p.bytes w now nsec ch₀ ch s₀ s s₅ t)
    (hty : ch₀.channelType = p.channelType) (hne : p.bytes ≠ [])
    (hfront : InFront k p.bytes ch₀ s₀ s)
    (hborrow : p.channelType = .pointcloud → ∃ es, (sys env).Run (Spares k .data) s es s₅)
    (hvalue : p.json env ch.topicName = some v) (hutf8 : v.utf8 = true) :
    ∃ frame body, t.trace =
        (if (senderOf p.channelType).fits body.length then [.frame w ch.channelId frame] else []) ++
          .event (.encode nsec) :: s₅.trace ∧
      decodeFrame frame = some (ch.subscriptionId, nsec, body) ∧
      parse env.toFloatLib body = some v.reread := by
  have hread : ch.dataBuffer.readSection = p.bytes := h.front.mpr hfront
  have hlength : ch.dataBuffer.frontBufferSize = p.bytes.length := by
    rw [← hread, Buffer.length_readSection]
  have hstatic₀ := static_eq h.static
  have himage : p.channelType ≠ .image := by cases p <;> nofun
  have hadm : (senderOf ch.channelType).admits ch.dataBuffer.frontBufferSize = true := by
    obtain ⟨es, hr⟩ := h.reach
    have hcap := sized hr ch₀ (List.mem_of_getElem? h.channel₀)
    rw [hstatic₀.2.1, hty, hlength]
    exact admits_payload hne (by rw [← hty, ← hcap]; exact h.fits)
  have hjob : ch.job now = some ⟨ch.dataBuffer.frontBuffer, p.bytes.length, 0⟩ := by
    rw [← hlength]
    exact if_pos ⟨h.subscribed, h.due, hadm⟩
  obtain ⟨s₂, s₃, s₄, hpass⟩ := h.pass
  obtain ⟨es, hmiddle⟩ := hpass.middle
  obtain ⟨ch₅, hch₅, hstatic⟩ := channel_run hmiddle h.channel
  obtain ⟨hid, hty₅, htopic, -⟩ := static_eq hstatic
  have htype : ch₅.channelType = p.channelType := by rw [hty₅, hstatic₀.2.1, hty]
  have hrow : ch₅.subscriptionId = ch.subscriptionId := by
    have hrows := (hpass.rows (State.table_of_channel h.channel)).2.2
    exact congrArg Prod.snd (Option.some.inj ((State.table_of_channel hch₅).symm.trans hrows))
  obtain ⟨hpc, hraw⟩ := hpass.served h.channel (by rw [hstatic₀.2.1, hty]; exact himage)
  rw [hjob] at hpc hraw
  have hhas : s₅.rawDataBuffer.Has 0 p.bytes := by
    rw [hraw, ← hread]
    exact Mem.read_copy _ _ _
  have hdata : p.channelType = .pointcloud →
      (ch₅.dataBuffer.contents ch.dataBuffer.frontBuffer).Has 0 p.bytes := by
    intro hpc
    obtain ⟨fs, hspared⟩ := hborrow hpc
    rw [contents_run hspared h.channel hch₅, ← hread, Mem.Has, Buffer.length_readSection]
    rfl
  have hbody := body_payload p env ch.topicName
    (s₅.source ch₅ ⟨ch.dataBuffer.frontBuffer, p.bytes.length, 0⟩) rfl (fun _ => hhas) hdata
  obtain ⟨text, htext⟩ : ∃ text, dump env.toFloatLib v = some text := by
    rw [← Option.isSome_iff_exists, dump_isSome]
    exact hutf8
  rw [hvalue, Option.bind_some, htext, ← htype, ← htopic] at hbody
  have hclient : s₅.client = some w := (client_run hmiddle).trans h.client
  refine ⟨_, text, ?_, decodeFrame_header _ _ _, parse_dump hF htext (kept_payload env hvalue)⟩
  rw [State.trace_of_encode hpass.encode hpc hch₅ hbody, ← htype, ← hid, ← hrow]
  split
  · rename_i hfits
    rw [State.frames_of_fits hclient hfits (le_of_fits hfits)]
  · rename_i hfits
    rw [State.frames, hclient]
    exact congrArg (· ++ _) (if_neg fun hboth => hfits hboth.1)

end Delivery

theorem integer_delivered : ∃ (ch : Channel) (s₅ t : State) (frame body : Bytes), t.trace =
      (if (senderOf .integer).fits body.length then [.frame 1 ch.channelId frame] else []) ++
        .event (.encode 7) :: s₅.trace ∧
    decodeFrame frame = some (ch.subscriptionId, 7, body) ∧
    parse Env.indexed.toFloatLib body = some (ofMembers [("value", .int 7)]) := by
  obtain ⟨ch₀, ch, s₀, s, s₅, t, h, hty, htopic, hfront, -⟩ :=
    exists_passed .indexed .integer (ascii "a") (floatBytes 7) (by decide +kernel)
  obtain ⟨frame, body, htrace, hframe, hbody⟩ := payload_decoded (p := .integer 7)
    roundTrips_indexed h hty (by decide) hfront nofun rfl rfl
  exact ⟨ch, s₅, t, frame, body, htrace, hframe, hbody⟩

end Foxdbg
