import Foxdbg.Steps
import Foxdbg.Lib.JsonGrammar

/-!
# Whole documents in frames

The body of a frame is the text of one JSON object, except for an image whose compressed bytes
`encode_image_byte_array` finds too many for `encode_buffer`: it returns 0 for a failure, which
`send_image` takes for the size of a body, so a frame with nothing after its header is sent
(`frames_whole_iff`).

`Writer.Holds` is what the stores of the encoder amount to: a text at the start of the buffer.
-/

namespace Foxdbg

open Json Mem

/-! ## The text of the encoder -/

namespace Writer

variable {w : Writer} {c : UInt8} {t u : Bytes}

/-- The stores leave the text at the start of the buffer. -/
structure Holds (w : Writer) (t : Bytes) : Prop where
  length : w.bytesWritten = t.length
  read : ∀ m, (w.apply m).read 0 t.length = t

namespace Holds

theorem init : Holds {} [] := ⟨rfl, fun _ => rfl⟩

theorem put (h : w.Holds t) : (w.put c).Holds (t ++ [c]) := by
  refine ⟨by simp [Writer.put, h.length], fun m => ?_⟩
  show ((w.apply m).store w.bytesWritten c).read 0 (t ++ [c]).length = t ++ [c]
  have hold : ((w.apply m).store w.bytesWritten c).read 0 t.length = t := by
    rw [← h.read m, h.length, length_read]
    refine read_congr fun i _ hi => if_neg ?_
    omega
  have hnew : ((w.apply m).store w.bytesWritten c).read (0 + t.length) 1 = [c] := by
    simp [Mem.read, store, h.length]
  rw [List.length_append, List.length_singleton, read_append, hold, hnew]

theorem puts (h : w.Holds t) : (w.puts u).Holds (t ++ u) := by
  induction u generalizing w t with
  | nil => rwa [List.append_nil]
  | cons c u ih =>
    rw [List.append_cons]
    exact ih h.put

/-- The zero after the text is no part of it. -/
theorem terminate (h : w.Holds t) : w.terminate.Holds t := by
  refine ⟨h.length, fun m => ?_⟩
  rw [← h.read m]
  rw [length_read]
  refine read_congr fun i _ hi => if_neg ?_
  rw [h.length]
  omega

theorem sprintf (h : w.Holds t) : (w.sprintf u).Holds (t ++ u) := h.puts.terminate

/-- The loop writes the digits of the bytes that are left, with a comma between two of them. -/
theorem imageBytes {size i : Nat} {r : Bytes} (h : w.Holds t) (hsize : i + r.length = size) :
    (Foxdbg.imageBytes size i r w).Holds (t ++ commaSeparated (r.map byteDigits)) := by
  induction r generalizing i w t with
  | nil => simpa [Foxdbg.imageBytes, commaSeparated] using h
  | cons b r ih =>
    rw [List.length_cons] at hsize
    unfold Foxdbg.imageBytes
    rw [List.map_cons, commaSeparated_cons, List.isEmpty_map]
    cases r with
    | nil =>
      have hlast : ¬ i < size - 1 := by
        rw [List.length_nil] at hsize
        omega
      simpa [hlast, Foxdbg.imageBytes] using h.puts
    | cons b' r =>
      have hmore : i < size - 1 := by
        rw [List.length_cons] at hsize
        omega
      have hrest := ih ((h.puts (u := byteDigits b)).put (c := 44)) (i := i + 1) (by omega)
      simpa [hmore] using hrest

end Holds

end Writer

/-- The text that `encode_image_byte_array` writes. -/
def imageText (width height components : Int32) (compressedImage : Bytes) : Bytes :=
  objectText
    [(quoted (ascii "width"), dumpInteger width.toInt),
      (quoted (ascii "height"), dumpInteger height.toInt),
      (quoted (ascii "channels"), dumpInteger components.toInt),
      (quoted (ascii "encoding"), quoted (ascii "jpeg")),
      (quoted (ascii "data"), arrayText (compressedImage.map byteDigits))]

/-- The encoder's estimate of the size of the text does not exceed `encode_buffer`. -/
def FitsEncodeBuffer (compressedImage : Bytes) : Prop :=
  estimatedTotalSize compressedImage.length ≤ sizeofEncodeBuffer

instance (compressedImage : Bytes) : Decidable (FitsEncodeBuffer compressedImage) :=
  inferInstanceAs (Decidable (_ ≤ _))

variable {width height components : Int32} {compressedImage : Bytes}

/-- The encoder writes its text, if the estimate fits. -/
theorem holds_encodeImageByteArray {txBufferSize : Nat}
    (h : estimatedTotalSize compressedImage.length ≤ txBufferSize) :
    (encodeImageByteArray txBufferSize width height components compressedImage).Holds
      (imageText width height components compressedImage) := by
  unfold encodeImageByteArray
  dsimp only
  rw [if_neg (Nat.not_lt.mpr h)]
  have hparts := ((((Writer.Holds.init.sprintf
    (u := ascii "\x7b\"width\":" ++ dumpInteger width.toInt ++ ascii ",")).sprintf
    (u := ascii "\"height\":" ++ dumpInteger height.toInt ++ ascii ",")).sprintf
    (u := ascii "\"channels\":" ++ dumpInteger components.toInt ++ ascii ",")).sprintf
    (u := ascii "\"encoding\":\"jpeg\",")).sprintf (u := ascii "\"data\":[")
  have htext := (((hparts.imageBytes (i := 0) (r := compressedImage) (Nat.zero_add _)).put
    (c := 93)).put (c := 125)).terminate
  convert htext using 1
  simp [imageText, objectText, arrayText, quoted, commaSeparated, List.intercalate, ascii]

/-- A text that does not fit is not written, and the size of the body is 0. -/
theorem encodeImageByteArray_of_not_fits (h : ¬ FitsEncodeBuffer compressedImage) :
    encodeImageByteArray sizeofEncodeBuffer width height components compressedImage = {} :=
  if_pos (Nat.not_le.mp h)

/-- The digits of a byte are a number. -/
theorem isInteger_byteDigits (b : UInt8) : IsInteger (byteDigits b) := by
  -- a test of the 256 bytes
  have htest : ∀ b, byteDigits b ≠ [] ∧ (byteDigits b).all isDigit = true ∧
      ((byteDigits b).head? = some 48 → byteDigits b = [48]) :=
    forall_byte (by decide +kernel)
  obtain ⟨hne, hall, hzero⟩ := htest b
  exact ⟨⟨hne, List.all_eq_true.mp hall⟩, hzero⟩

/-- A text of lower-case letters between quotation marks is a string. -/
theorem isString_lower {t : Bytes} (h : t.all (fun b => 97 ≤ b ∧ b ≤ 122) = true) :
    IsString (quoted t) := by
  refine ⟨t.map fun b => [b], fun c hc => ?_, by rw [← List.flatMap_def, List.flatMap_singleton']⟩
  obtain ⟨b, hb, rfl⟩ := List.mem_map.mp hc
  obtain ⟨hlow, hhigh⟩ := of_decide_eq_true (List.all_eq_true.mp h b hb)
  have hlow' : 97 ≤ b.toNat := UInt8.le_iff_toNat_le.mp hlow
  have hhigh' : b.toNat ≤ 122 := UInt8.le_iff_toNat_le.mp hhigh
  refine .ascii (UInt8.le_iff_toNat_le.mpr ?_) (UInt8.lt_iff_toNat_lt.mpr ?_) ?_ ?_
  · show 32 ≤ b.toNat
    omega
  · show b.toNat < 128
    omega
  · rintro rfl
    exact absurd hlow (by decide)
  · rintro rfl
    exact absurd hlow (by decide)

/-- The encoder's text is an object. -/
theorem isObject_imageText (width height components : Int32) (compressedImage : Bytes) :
    IsObject (imageText width height components compressedImage) := by
  have hnumber : ∀ i : Int32, IsValue (dumpInteger i.toInt) := fun i =>
    .number (isNumber_dumpInteger i.toInt)
  have hbytes : ∀ t ∈ compressedImage.map byteDigits, IsValue t := by
    intro t ht
    obtain ⟨b, -, rfl⟩ := List.mem_map.mp ht
    exact .number (isInteger_byteDigits b).isNumber
  refine ⟨_, rfl, ?_, ?_⟩
  · simp only [List.forall_mem_cons, List.not_mem_nil, false_imp_iff, implies_true, and_true]
    exact ⟨isString_lower (by decide), isString_lower (by decide), isString_lower (by decide),
      isString_lower (by decide), isString_lower (by decide)⟩
  · simp only [List.forall_mem_cons, List.not_mem_nil, false_imp_iff, implies_true, and_true]
    exact ⟨hnumber _, hnumber _, hnumber _, .string (isString_lower (by decide)), .array hbytes⟩

/-! ## The bodies -/

/-- The texts that the JSON library writes for finite doubles are numbers. -/
def NumberTexts (F : FloatLib) : Prop :=
  ∀ bits, isFinite bits = true → IsNumber (F.toChars bits)

variable {env : Env} {s t : State} {l : Label} {topic : Bytes} {src : Source} {e : Encoded}

/-- A sender that dumps an object makes the text of one. -/
theorem isObject_ofJson {admits fits : Nat → Bool} {value : Env → Bytes → Source → Option Json}
    (hF : NumberTexts env.toFloatLib)
    (hvalue : ∀ v, value env topic src = some v → ∃ members, v = .obj members)
    (h : (Sender.ofJson admits value fits).body env topic src = some (some e)) :
    IsObject e.body := by
  obtain ⟨text, htext, he⟩ := Option.map_eq_some_iff.mp h
  obtain ⟨v, hv, hdump⟩ := Option.bind_eq_some_iff.mp htext
  cases he
  obtain ⟨members, rfl⟩ := hvalue v hv
  exact isObject_dump hF hdump

/-- The body of a channel that is no image is an object. -/
theorem isObject_body {type : ChannelType} (hF : NumberTexts env.toFloatLib)
    (hty : type ≠ .image) (h : (senderOf type).body env topic src = some (some e)) :
    IsObject e.body := by
  cases type with
  | image => exact absurd rfl hty
  | transform =>
    refine isObject_ofJson hF (fun v hv => ?_) h
    obtain ⟨parentId, -, hv⟩ := Option.bind_eq_some_iff.mp hv
    obtain ⟨id, -, rfl⟩ := Option.map_eq_some_iff.mp hv
    exact ⟨_, rfl⟩
  | _ => exact isObject_ofJson hF (fun v hv => ⟨_, (Option.some.inj hv).symm⟩) h

/-- The body of an image is an object, or nothing. -/
theorem imageBody_cases (h : imageBody env topic src = some (some e)) :
    ∃ compressedImage, env.tjCompress2
        (src.rawDataBuffer.read 0 (imageSize src.infoDataBuffer)) (infoWidth src.infoDataBuffer)
        (infoHeight src.infoDataBuffer) (pixelFormat (infoChannels src.infoDataBuffer)) =
        some compressedImage ∧
      (FitsEncodeBuffer compressedImage ∧ IsObject e.body ∨
        ¬ FitsEncodeBuffer compressedImage ∧ e.body = []) := by
  simp only [imageBody] at h
  split at h
  · cases h
  · rename_i compressedImage hcompress
    refine ⟨compressedImage, hcompress, ?_⟩
    by_cases hfits : FitsEncodeBuffer compressedImage
    · cases h
      refine .inl ⟨hfits, ?_⟩
      show IsObject (Mem.read _ 0 (Writer.bytesWritten _))
      rw [(holds_encodeImageByteArray hfits).length, (holds_encodeImageByteArray hfits).read]
      exact isObject_imageText ..
    · rw [encodeImageByteArray_of_not_fits hfits] at h
      cases h
      exact .inr ⟨hfits, rfl⟩

/-! ## The frames -/

/-- A header, and one JSON object. -/
def WholeFrame (d : Bytes) : Prop :=
  ∃ header body, d = header ++ body ∧ header.length = 13 ∧ IsObject body

/-- Every frame so far is whole. -/
def SentWhole (s : State) : Prop := ∀ w c d, .frame w c d ∈ s.trace → WholeFrame d

/-- The image that a step compresses while a client is connected is not too large for the text
encoder. -/
def CompressesSmall (env : Env) (s : State) (l : Label) (_ : State) : Prop :=
  ∀ nsec k due job ch compressedImage, l = .encode nsec → s.pc = .encode k due (some job) →
    s.registry.channels[k]? = some ch → ch.channelType = .image → s.client ≠ none →
    env.tjCompress2 (s.rawDataBuffer.read 0 (imageSize s.infoDataBuffer))
      (infoWidth s.infoDataBuffer) (infoHeight s.infoDataBuffer)
      (pixelFormat (infoChannels s.infoDataBuffer)) = some compressedImage →
    FitsEncodeBuffer compressedImage

/-- A header alone is not a whole frame. -/
theorem not_wholeFrame {d : Bytes} (h : d.length = 13) : ¬ WholeFrame d := by
  rintro ⟨header, body, rfl, hheader, members, rfl, -⟩
  simp [objectText, hheader] at h

theorem SentWhole.init : SentWhole .init := by simp [SentWhole, State.init]

/-- The trace only grows. -/
theorem SentWhole.back (h : s.step env l = some t) (ht : SentWhole t) : SentWhole s := by
  intro w c d hmem
  obtain ⟨obs, htr, -⟩ := (State.fire_outcome (State.step_eq_some.mp h).2).trace
  refine ht w c d ?_
  rw [htr]
  exact List.mem_append_right _ (List.mem_cons_of_mem _ hmem)

/-- An `encode` with a job encodes the channel in service. -/
theorem pc_of_encode {nsec : UInt64} {k : Nat} {job : Job}
    (h : s.step env (.encode nsec) = some t) (hjob : s.pc.job? = some (k, job)) :
    ∃ due, s.pc = .encode k due (some job) := by
  obtain ⟨k', due, hpc, -⟩ | ⟨k', due, job', hpc, -⟩ :=
    State.fire_encode.mp (State.step_eq_some.mp h).2
  · rw [show s.pc = .encode k' due none from hpc] at hjob
    cases hjob
  · replace hpc : s.pc = .encode k' due (some job') := hpc
    rw [hpc] at hjob
    cases hjob
    exact ⟨due, hpc⟩

/-- A new frame has the body of the channel in service. -/
theorem SentWhole.step (hF : NumberTexts env.toFloatLib) (hq : CompressesSmall env s l t)
    (hi : SentWhole s) (h : s.step env l = some t) : SentWhole t := by
  intro w c d hmem
  obtain ⟨new, old, htr⟩ := List.append_of_mem hmem
  obtain hold | ⟨nsec, k, job, ch, e, rfl, hjob, hch, hw, hbody, -, rfl, -⟩ :=
    State.step_frame h ⟨new, htr.symm⟩
  · exact hi w c d (hold.subset List.mem_cons_self)
  · refine ⟨_, e.body, rfl, State.length_header _ _, ?_⟩
    by_cases hty : ch.channelType = .image
    · obtain ⟨due, hpc⟩ := pc_of_encode h hjob
      rw [hty] at hbody
      obtain ⟨image, hcompress, ⟨-, hobject⟩ | ⟨hlarge, -⟩⟩ :=
        imageBody_cases (show imageBody env ch.topicName _ = _ from hbody)
      · exact hobject
      · exact absurd (hq nsec k due job ch image rfl hpc hch hty (by simp [hw]) hcompress) hlarge
    · exact isObject_body hF hty hbody

/-- A compressed image that is too large is sent as a header alone. -/
theorem frame_of_large_image {nsec : UInt64} {k : Nat} {due : Bool} {job : Job} {ch : Channel}
    {w : Socket} {image : Bytes} (h : s.step env (.encode nsec) = some t)
    (hpc : s.pc = .encode k due (some job)) (hch : s.registry.channels[k]? = some ch)
    (hty : ch.channelType = .image) (hw : s.client = some w)
    (hcompress : env.tjCompress2 (s.rawDataBuffer.read 0 (imageSize s.infoDataBuffer))
      (infoWidth s.infoDataBuffer) (infoHeight s.infoDataBuffer)
      (pixelFormat (infoChannels s.infoDataBuffer)) = some image)
    (hlarge : ¬ FitsEncodeBuffer image) :
    .frame w ch.channelId (State.header ch.subscriptionId nsec) ∈ t.trace := by
  have hbody : (senderOf ch.channelType).body env ch.topicName (s.source ch job) =
      some (some ⟨[], s.encodeBuffer⟩) := by
    rw [hty]
    show imageBody env ch.topicName _ = _
    simp only [imageBody, State.source, hcompress, encodeImageByteArray_of_not_fits hlarge]
    rfl
  have hfits : (senderOf ch.channelType).fits ([] : Bytes).length = true := by
    rw [hty]
    decide
  have hsize : ([] : Bytes).length + 13 + lwsPre ≤ sizeofTxBuffer := by decide
  rw [State.trace_of_encode h hpc hch hbody, State.frames_of_fits hw hfits hsize,
    List.append_nil]
  exact List.mem_cons_self

/-- So no such image is compressed before a state in which every frame is whole. -/
theorem compressesSmall_of_sentWhole (ht : SentWhole t) (h : s.step env l = some t) :
    CompressesSmall env s l t := by
  rintro nsec k due job ch image rfl hpc hch hty hclient hcompress
  by_contra hlarge
  obtain ⟨w, hw⟩ := Option.ne_none_iff_exists'.mp hclient
  exact not_wholeFrame (State.length_header _ _)
    (ht _ _ _ (frame_of_large_image h hpc hch hty hw hcompress hlarge))

/-- **Whole documents.** Every frame of a run is a header and one JSON object exactly if no image
that is compressed for a client in it is too large for the text encoder. -/
theorem frames_whole_iff {es : List Label} (hF : NumberTexts env.toFloatLib)
    (hr : (sys env).Reach .init es s) :
    SentWhole s ↔ (sys env).Run (CompressesSmall env) .init es s := by
  constructor
  · intro hs
    obtain ⟨-, hrun⟩ := hr.back (B := SentWhole) (fun _ _ _ h ht => ht.back h) hs
    exact hrun.strengthen (I := fun _ => True)
      (fun _ _ _ h hq _ => ⟨trivial, compressesSmall_of_sentWhole hq.2 h⟩) trivial
  · intro hrun
    exact hrun.inv (I := SentWhole) (fun _ _ _ h hq hi => hi.step hF hq h) .init

/-- A subscribed image of one pixel, and a pass up to the call of the compressor. -/
def imageRun : List Label :=
  [.addChannel (ascii "a") (some .image) 10 .zeroed, .callback 1 .established,
    .callback 1 (.receive (subscribeText 5 0))] ++
  writeCall .data 0 [7, 8, 9] ++ writeCall .info 0 [1, 0, 0, 0, 1, 0, 0, 0, 3, 0, 0, 0] ++
  [.callback 1 .serverWriteable, .visit 200, .readInfo]

theorem numberTexts_standIn : NumberTexts Env.standIn.toFloatLib := by
  intro bits _
  refine ⟨[], [48], [46, 48], [], rfl, .inl rfl, ?_, .inr ⟨[48], rfl, ?_⟩, .inl rfl⟩
  · exact ⟨⟨nofun, List.forall_mem_singleton.mpr rfl⟩, fun _ => rfl⟩
  · exact ⟨nofun, List.forall_mem_singleton.mpr rfl⟩

/-- The check of the runs of `frames_whole_iff`. -/
def compressesSmall (env : Env) (s : State) (l : Label) (_ : State) : Bool :=
  match l with
  | .encode _ => (env.tjCompress2 (s.rawDataBuffer.read 0 (imageSize s.infoDataBuffer))
      (infoWidth s.infoDataBuffer) (infoHeight s.infoDataBuffer)
      (pixelFormat (infoChannels s.infoDataBuffer))).all fun image => FitsEncodeBuffer image
  | _ => true

theorem compressesSmall_sound (env : Env) (s : State) (l : Label) (t : State)
    (h : compressesSmall env s l t = true) : CompressesSmall env s l t := by
  rintro nsec k due job ch image rfl - - - - hcompress
  simpa [compressesSmall, hcompress] using h

theorem small_image_whole : ∃ s, (sys .standIn).Reach .init (imageRun ++ [.encode 0]) s ∧
    s.trace.any Obs.isFrame = true ∧ SentWhole s := by
  obtain ⟨s, hr, h⟩ := Lts.exists_run (L := sys .standIn) (s := .init) (imageRun ++ [.encode 0])
    (q := compressesSmall .standIn) (p := fun s => s.trace.any Obs.isFrame)
    (compressesSmall_sound .standIn) (by decide +kernel)
  exact ⟨s, hr.reach, h, (frames_whole_iff numberTexts_standIn hr.reach).mpr hr⟩

/-- A compressor that makes 2621413 bytes of an image. -/
def Env.large : Env := { Env.standIn with
  tjCompress2 := fun pixels width height pixelFormat =>
    (Env.standIn.tjCompress2 pixels width height pixelFormat).map fun _ =>
      List.replicate 2621413 0 }

/-- The server is at the call of the compressor for an image channel of the client, and the
compressor takes the image. -/
def atCompressor (s : State) : Bool :=
  match s.pc with
  | .encode k _ (some _) =>
    s.client == some 1 && ((s.registry.channels[k]?).any fun ch => ch.channelType == .image) &&
      (Env.standIn.tjCompress2 (s.rawDataBuffer.read 0 (imageSize s.infoDataBuffer))
        (infoWidth s.infoDataBuffer) (infoHeight s.infoDataBuffer)
        (pixelFormat (infoChannels s.infoDataBuffer))).isSome
  | _ => false

/-- The frame of an image that is too large for the encoder is a header alone. -/
theorem header_sent_alone : ∃ s w c d,
    (sys .large).Reach .init (imageRun ++ [.encode 0]) s ∧ .frame w c d ∈ s.trace ∧
    ¬ WholeFrame d := by
  obtain ⟨s, hr, h⟩ := Lts.exists_reach (L := sys .large) (s := .init) imageRun
    (p := atCompressor) (by decide +kernel)
  unfold atCompressor at h
  split at h
  · rename_i k due job hpc
    simp only [Bool.and_eq_true, beq_iff_eq, Option.any_eq_true] at h
    obtain ⟨⟨hw, ch, hch, hty⟩, htaken⟩ := h
    obtain ⟨image, himage⟩ := Option.isSome_iff_exists.mp htaken
    obtain ⟨t, ht⟩ : ∃ t, s.step .large (.encode 0) = some t := State.exists_encode hpc 0
    have hlarge : ¬ FitsEncodeBuffer (List.replicate 2621413 0) := by
      rw [FitsEncodeBuffer, List.length_replicate]
      decide
    exact ⟨t, 1, ch.channelId, _, hr.snoc ht trivial,
      frame_of_large_image ht hpc hch hty hw (congrArg (Option.map _) himage) hlarge,
      not_wholeFrame (State.length_header _ _)⟩
  · cases h

end Foxdbg
