import Foxdbg.Senders

/-!
# What a body depends on

A sender reads no byte beyond the ones that its locked sections copied, up to two exceptions: the
body of a point cloud is read from the borrowed pointer (`Source.data`), and the image sender reads
as many info bytes and pixels as it needs, whatever was copied. `Reads` is the memory that the body
of a type is a function of (`body_congr`).
-/

namespace Foxdbg

open Json Mem

variable {env : Env} {m m' : Mem} {off off' n : Nat}

/-! ## The structs in memory -/

theorem floatAt_congr (off : Nat) (h : Agree m m' off' n) (h₁ : off' ≤ off)
    (h₂ : off + 4 ≤ off' + n) :
    floatAt env m off = floatAt env m' off := by
  unfold floatAt
  rw [u32_congr _ h h₁ h₂]

theorem vector3At_congr (off : Nat) (h : Agree m m' off' n) (h₁ : off' ≤ off)
    (h₂ : off + 12 ≤ off' + n) :
    vector3At env m off = vector3At env m' off := by
  unfold vector3At
  rw [floatAt_congr _ h h₁ (by omega), floatAt_congr _ h (by omega) (by omega),
    floatAt_congr (off + 8) h (by omega) (by omega)]

theorem colorAt_congr (off : Nat) (h : Agree m m' off' n) (h₁ : off' ≤ off)
    (h₂ : off + 16 ≤ off' + n) :
    colorAt env m off = colorAt env m' off := by
  unfold colorAt
  rw [floatAt_congr _ h h₁ (by omega), floatAt_congr _ h (by omega) (by omega),
    floatAt_congr (off + 8) h (by omega) (by omega),
    floatAt_congr (off + 12) h (by omega) (by omega)]

theorem turnedAt_congr (off : Nat) (h : Agree m m' off' n) (h₁ : off' ≤ off)
    (h₂ : off + 12 ≤ off' + n) :
    turnedAt env m off = turnedAt env m' off := by
  unfold turnedAt
  rw [u32_congr _ h h₁ (by omega), u32_congr _ h (by omega) (by omega),
    u32_congr (off + 8) h (by omega) (by omega)]

theorem cubeAt_congr (off : Nat) (h : Agree m m' off' n) (h₁ : off' ≤ off)
    (h₂ : off + 52 ≤ off' + n) :
    cubeAt env m off = cubeAt env m' off := by
  unfold cubeAt
  rw [vector3At_congr _ h h₁ (by omega), turnedAt_congr _ h (by omega) (by omega),
    vector3At_congr (off + 12) h (by omega) (by omega),
    colorAt_congr _ h (by omega) (by omega)]

theorem lineAt_congr (off : Nat) (h : Agree m m' off' n) (h₁ : off' ≤ off)
    (h₂ : off + 44 ≤ off' + n) :
    lineAt env m off = lineAt env m' off := by
  unfold lineAt
  rw [vector3At_congr _ h h₁ (by omega), floatAt_congr (off + 40) h (by omega) (by omega),
    vector3At_congr (off + 12) h (by omega) (by omega),
    colorAt_congr _ h (by omega) (by omega)]

theorem arrowAt_congr (h : Agree m m' 0 40) : arrowAt env m = arrowAt env m' := by
  unfold arrowAt
  rw [vector3At_congr 0 h (by omega) (by omega),
    turnedAt_congr 12 h (by omega) (by omega),
    colorAt_congr 24 h (by omega) (by omega)]

/-- An array of structs in memory. -/
theorem map_range_congr {α : Type} {size : Nat} {f : Mem → Nat → α}
    (hf : ∀ off, off + size ≤ n → f m off = f m' off) :
    ((List.range (n / size)).map fun i => f m (i * size)) =
      (List.range (n / size)).map fun i => f m' (i * size) := by
  refine List.map_congr_left fun i hi => hf _ ?_
  have hlt : i + 1 ≤ n / size := List.mem_range.mp hi
  calc i * size + size = (i + 1) * size := by rw [Nat.add_mul, Nat.one_mul]
    _ ≤ n / size * size := Nat.mul_le_mul_right _ hlt
    _ ≤ n := Nat.div_mul_le_self ..

/-! ## Bodies -/

/-- The body that a sender makes, without the state of its buffers. -/
def Sender.text (sender : Sender) (env : Env) (topic : Bytes) (src : Source) :
    Option (Option Bytes) :=
  (sender.body env topic src).map (·.map (·.body))

/-- Two memories look the same to the sender of a type that is no image: the borrowed pointer for a
point cloud, and `raw_data_buffer` for the others. -/
structure SameData (type : ChannelType) (src src' : Source) : Prop where
  size : src.dataSize = src'.dataSize
  raw : type ≠ .pointcloud → Agree src.rawDataBuffer src'.rawDataBuffer 0 src.dataSize
  data : type = .pointcloud → Agree src.data src'.data 0 src.dataSize

theorem text_ofJson {admits fits : Nat → Bool} {value : Env → Bytes → Source → Option Json}
    {topic : Bytes} {src src' : Source} (h : value env topic src = value env topic src') :
    (Sender.ofJson admits value fits).text env topic src =
      (Sender.ofJson admits value fits).text env topic src' := by
  simp only [Sender.text, Sender.ofJson, h, Option.map_map]
  rfl

/-- The body of a channel that is no image depends on the copied data only, or the borrowed data for
a point cloud. -/
theorem text_congr {type : ChannelType} (hty : type ≠ .image) {src src' : Source}
    (hadm : (senderOf type).admits src.dataSize = true) (h : SameData type src src')
    (topic : Bytes) :
    (senderOf type).text env topic src = (senderOf type).text env topic src' := by
  obtain ⟨hsize, hraw, hdata⟩ := h
  cases type with
  | image => exact absurd rfl hty
  | pointcloud =>
    refine text_ofJson ?_
    rw [← hsize, read_congr (hdata rfl)]
  | cubes =>
    have h := hraw nofun
    refine text_ofJson ?_
    rw [← hsize, map_range_congr fun off hoff => cubeAt_congr _ h (by omega) (by
      simpa [sizeofCube] using hoff)]
  | lines =>
    have h := hraw nofun
    refine text_ofJson ?_
    rw [← hsize, map_range_congr fun off hoff => lineAt_congr _ h (by omega) (by
      simpa [sizeofLine] using hoff)]
  | pose =>
    have h := hraw nofun
    have hn : src.dataSize = sizeofPose := eq_of_beq (Bool.and_eq_true_iff.mp hadm).2
    rw [hn] at h
    exact text_ofJson (by rw [arrowAt_congr h])
  | transform =>
    have h := hraw nofun
    have hn : src.dataSize = sizeofTransform := eq_of_beq (Bool.and_eq_true_iff.mp hadm).2
    rw [hn] at h
    refine text_ofJson ?_
    dsimp only
    rw [u64_congr 8 h (by omega) (by decide),
      u64_congr 0 h (by omega) (by decide),
      vector3At_congr 16 h (by omega) (by decide),
      u32_congr 28 h (by omega) (by decide),
      u32_congr 32 h (by omega) (by decide),
      u32_congr 36 h (by omega) (by decide)]
  | location =>
    have h := hraw nofun
    have hn : src.dataSize = sizeofLocation := eq_of_beq (Bool.and_eq_true_iff.mp hadm).2
    rw [hn] at h
    refine text_ofJson ?_
    dsimp only
    rw [u32_congr 0 h (by omega) (by decide),
      u32_congr 4 h (by omega) (by decide),
      u64_congr 8 h (by omega) (by decide),
      u64_congr 16 h (by omega) (by decide),
      u64_congr 24 h (by omega) (by decide)]
  | float =>
    have h := hraw nofun
    have hn : src.dataSize = sizeofFloat := eq_of_beq (Bool.and_eq_true_iff.mp hadm).2
    rw [hn] at h
    exact text_ofJson (by rw [floatAt_congr _ h (by omega) (by decide)])
  | integer =>
    have h := hraw nofun
    have hn : src.dataSize = sizeofInt := eq_of_beq (Bool.and_eq_true_iff.mp hadm).2
    rw [hn] at h
    exact text_ofJson (by rw [i32_congr _ h (by omega) (by decide)])
  | boolean =>
    have h := hraw nofun
    have hn : src.dataSize = sizeofBool := eq_of_beq (Bool.and_eq_true_iff.mp hadm).2
    rw [hn] at h
    exact text_ofJson (by rw [h 0 (by omega) (by decide)])

/-! ## The image -/

section Induction

variable {p : Writer → Prop} {w : Writer}

theorem Writer.puts_induct (hput : ∀ w c, p w → p (w.put c)) (t : Bytes) (h : p w) :
    p (w.puts t) := by
  induction t generalizing w with
  | nil => exact h
  | cons c t ih => exact ih (hput w c h)

theorem imageBytes_induct (hput : ∀ w c, p w → p (w.put c)) {size i : Nat} {r : Bytes} (h : p w) :
    p (imageBytes size i r w) := by
  induction r generalizing i w with
  | nil => exact h
  | cons b r ih =>
    have hdigits := Writer.puts_induct hput (byteDigits b) h
    unfold imageBytes
    refine ih ?_
    split
    · exact hput _ _ hdigits
    · exact hdigits

/-- What both kinds of stores keep holds after `encode_image_byte_array`. -/
theorem encodeImageByteArray_induct (hinit : p {}) (hput : ∀ w c, p w → p (w.put c))
    (hterminate : ∀ w, p w → p w.terminate) (txBufferSize : Nat)
    (width height components : Int32) (compressedImage : Bytes) :
    p (encodeImageByteArray txBufferSize width height components compressedImage) := by
  have hsprintf : ∀ w t, p w → p (w.sprintf t) :=
    fun w t h => hterminate _ (Writer.puts_induct hput t h)
  unfold encodeImageByteArray
  dsimp only
  split
  · exact hinit
  · refine hterminate _ (hput _ _ (hput _ _ (imageBytes_induct hput ?_)))
    exact hsprintf _ _ (hsprintf _ _ (hsprintf _ _ (hsprintf _ _ (hsprintf _ _ hinit))))

end Induction

namespace Writer

variable {w : Writer}

/-- Every byte below the next index has been stored. -/
def Full (w : Writer) : Prop := ∀ i < w.bytesWritten, ∃ b, (i, b) ∈ w.stores

theorem Full.put (h : w.Full) (c : UInt8) : (w.put c).Full := by
  intro i hi
  rcases Nat.lt_or_ge i w.bytesWritten with hlt | hge
  · obtain ⟨b, hb⟩ := h i hlt
    exact ⟨b, List.mem_cons_of_mem _ hb⟩
  · have he : i = w.bytesWritten := by
      have : i < w.bytesWritten + 1 := hi
      omega
    exact ⟨c, he ▸ List.mem_cons_self⟩

theorem Full.terminate (h : w.Full) : w.terminate.Full := by
  intro i hi
  obtain ⟨b, hb⟩ := h i hi
  exact ⟨b, List.mem_cons_of_mem _ hb⟩

/-- What has been stored does not depend on the memory before. -/
theorem apply_eq_of_stored {i : Nat} {b : UInt8} {stores : List (Nat × UInt8)}
    (h : (i, b) ∈ stores) (m m' : Mem) :
    stores.foldr (fun s m => m.store s.1 s.2) m i =
      stores.foldr (fun s m => m.store s.1 s.2) m' i := by
  induction stores with
  | nil => cases h
  | cons s stores ih =>
    simp only [List.foldr_cons, store]
    split
    · rfl
    · rename_i hne
      rcases List.mem_cons.mp h with rfl | h
      · exact absurd rfl hne
      · exact ih h

theorem Full.agree (h : w.Full) (m m' : Mem) :
    Agree (w.apply m) (w.apply m') 0 w.bytesWritten := by
  intro i _ hi
  obtain ⟨b, hb⟩ := h i (by omega)
  exact apply_eq_of_stored hb m m'

end Writer

/-- `encode_image_byte_array` stores every byte that it counts. -/
theorem full_encodeImageByteArray (size : Nat) (width height components : Int32) (image : Bytes) :
    (encodeImageByteArray size width height components image).Full :=
  encodeImageByteArray_induct nofun (fun _ c h => h.put c) (fun _ h => h.terminate) ..

/-- The body of an image depends on its info and its pixels. -/
theorem imageBody_congr {src src' : Source} {topic topic' : Bytes}
    (hinfo : Agree src.infoDataBuffer src'.infoDataBuffer 0 sizeofImageInfo)
    (hraw : Agree src.rawDataBuffer src'.rawDataBuffer 0 (imageSize src.infoDataBuffer)) :
    sendImage.text env topic src = sendImage.text env topic' src' := by
  have hwidth : infoWidth src.infoDataBuffer = infoWidth src'.infoDataBuffer :=
    i32_congr _ hinfo (by omega) (by decide)
  have hheight : infoHeight src.infoDataBuffer = infoHeight src'.infoDataBuffer :=
    i32_congr _ hinfo (by omega) (by decide)
  have hchannels : infoChannels src.infoDataBuffer = infoChannels src'.infoDataBuffer :=
    i32_congr _ hinfo (by omega) (by decide)
  have hsize : imageSize src.infoDataBuffer = imageSize src'.infoDataBuffer := by
    rw [imageSize, hwidth, hheight, hchannels]
    rfl
  have hpixels := read_congr (hsize ▸ hraw)
  simp only [Sender.text, sendImage, imageBody, hwidth, hheight, hchannels, hsize, hpixels]
  cases env.tjCompress2 (src'.rawDataBuffer.read 0 (imageSize src'.infoDataBuffer))
      (infoWidth src'.infoDataBuffer) (infoHeight src'.infoDataBuffer)
      (pixelFormat (infoChannels src'.infoDataBuffer)) with
  | none => rfl
  | some image =>
    have hagree := (full_encodeImageByteArray sizeofEncodeBuffer (infoWidth src'.infoDataBuffer)
      (infoHeight src'.infoDataBuffer) (infoChannels src'.infoDataBuffer) image).agree
      src.encodeBuffer src'.encodeBuffer
    simp only [Option.map_some, read_congr hagree]

end Foxdbg
