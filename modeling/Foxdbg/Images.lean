import Foxdbg.Documents
import Foxdbg.Reads
import Foxdbg.Lib.JsonDenotes

/-!
# The text encoder of images (`encode_image_byte_array`)

The encoder leaves a C string in the buffer: the text of an object, which the JSON library reads as
the size of the image, its channels and its bytes (`image_round_trip`).

A buffer that the estimate lets through holds every store (`stores_bounded`). The estimate is in the
arithmetic of `size_t`, so this is so up to `2 ^ 62 - 28` bytes; the next size makes it wrap
(`estimate_wraps`).
-/

namespace Foxdbg

open Json Mem

/-! ## The text -/

/-- The value of an image: its bytes are numbers. -/
def imageJson (width height components : Int32) (compressedImage : Bytes) : Json :=
  ofMembers
    [("width", .int width.toInt), ("height", .int height.toInt),
      ("channels", .int components.toInt), ("encoding", lit "jpeg"),
      ("data", .arr (compressedImage.map fun b => .int b.toNat))]

variable {F : FloatLib} {width height components : Int32} {compressedImage : Bytes}

theorem denotes_byteDigits (b : UInt8) : Denotes F (byteDigits b) (.int b.toNat) := by
  -- a test of the 256 bytes
  have htest : ∀ b, digitsValue (byteDigits b) = b.toNat := forall_byte (by decide +kernel)
  have hden := denotes_natural (F := F) (isInteger_byteDigits b)
    (by rw [htest]; exact Nat.lt_trans b.toNat_lt (by decide))
  rwa [htest] at hden

/-- The encoder's text is that of the image. -/
theorem denotes_imageText (width height components : Int32) (compressedImage : Bytes) :
    Denotes F (imageText width height components compressedImage)
      (imageJson width height components compressedImage) := by
  have hdata : Denotes F (arrayText (compressedImage.map byteDigits))
      (.arr (compressedImage.map fun b => .int b.toNat)) := by
    have harray := Denotes.array (F := F)
      (compressedImage.map fun b => (byteDigits b, Json.int b.toNat)) (by
        intro p hp
        obtain ⟨b, -, rfl⟩ := List.mem_map.mp hp
        exact denotes_byteDigits b)
    rwa [List.map_map, List.map_map] at harray
  have hobject := Denotes.object (F := F)
    [(ascii "width", dumpInteger width.toInt, .int width.toInt),
      (ascii "height", dumpInteger height.toInt, .int height.toInt),
      (ascii "channels", dumpInteger components.toInt, .int components.toInt),
      (ascii "encoding", quoted (ascii "jpeg"), lit "jpeg"),
      (ascii "data", arrayText (compressedImage.map byteDigits),
        .arr (compressedImage.map fun b => .int b.toNat))]
    (plain_keys rfl)
    (by
      simp only [List.forall_mem_cons, List.not_mem_nil, false_imp_iff, implies_true, and_true]
      exact ⟨denotes_int32 _, denotes_int32 _, denotes_int32 _, .string (by decide), hdata⟩)
  exact hobject

/-! ## The string in the buffer -/

/-- The bytes at the start of memory are a C string. -/
structure CString (m : Mem) (t : Bytes) : Prop where
  read : m.read 0 t.length = t
  terminated : m t.length = 0
  nonzero : 0 ∉ t

theorem zero_not_mem_commaSeparated {ts : List Bytes} (h : ∀ t ∈ ts, (0 : UInt8) ∉ t) :
    (0 : UInt8) ∉ commaSeparated ts := by
  induction ts with
  | nil => simp [commaSeparated]
  | cons t ts ih =>
    obtain ⟨ht, hts⟩ := List.forall_mem_cons.mp h
    rw [commaSeparated_cons, List.mem_append]
    rintro (hmem | hmem)
    · exact ht hmem
    · split at hmem
      · cases hmem
      · rcases List.mem_cons.mp hmem with hcomma | hmem
        · cases hcomma
        · exact ih hts hmem

theorem zero_not_mem_digits {t : Bytes} (h : ∀ b ∈ t, isDigit b = true) : (0 : UInt8) ∉ t :=
  fun hmem => absurd (h 0 hmem) (by decide)

theorem zero_not_mem_dumpInteger (i : Int) : (0 : UInt8) ∉ dumpInteger i := by
  have hdigits := zero_not_mem_digits (isInteger_decimal i.natAbs).1.2
  unfold dumpInteger
  split
  · rw [List.mem_cons, not_or]
    exact ⟨by decide, hdigits⟩
  · exact hdigits

theorem zero_not_mem_imageText (width height components : Int32) (compressedImage : Bytes) :
    (0 : UInt8) ∉ imageText width height components compressedImage := by
  have hbytes : (0 : UInt8) ∉ commaSeparated (compressedImage.map byteDigits) := by
    refine zero_not_mem_commaSeparated fun t ht => ?_
    obtain ⟨b, -, rfl⟩ := List.mem_map.mp ht
    exact zero_not_mem_digits (isInteger_byteDigits b).1.2
  have hw := zero_not_mem_dumpInteger width.toInt
  have hh := zero_not_mem_dumpInteger height.toInt
  have hc := zero_not_mem_dumpInteger components.toInt
  simp [imageText, objectText, arrayText, quoted, ascii, commaSeparated_cons, *]

/-- The estimate does not exceed the bytes that it stands for. -/
theorem estimatedTotalSize_le (n : Nat) : estimatedTotalSize n ≤ 4 * n + 110 := by
  have hmod := Nat.mod_le (100 + n * 4 + 10) (2 ^ 64)
  unfold estimatedTotalSize
  dsimp only
  omega

/-- The last store is a zero after the text. -/
theorem encodeImageByteArray_terminated {txBufferSize : Nat}
    (h : estimatedTotalSize compressedImage.length ≤ txBufferSize) (m : Mem) :
    ((encodeImageByteArray txBufferSize width height components compressedImage).apply m)
      (encodeImageByteArray txBufferSize width height components compressedImage).bytesWritten =
      0 := by
  unfold encodeImageByteArray
  dsimp only
  rw [if_neg (Nat.not_lt.mpr h)]
  exact if_pos rfl

/-- **Round trip.** With four bytes for each byte of the image and 110 more, the encoder leaves a C
string in the buffer and returns its length. The string is the text of an object, and reads as the
image. -/
theorem image_round_trip {txBufferSize : Nat}
    (h : 4 * compressedImage.length + 110 ≤ txBufferSize) (F : FloatLib)
    (width height components : Int32) (m : Mem) :
    let w := encodeImageByteArray txBufferSize width height components compressedImage
    ∃ text, CString (w.apply m) text ∧ w.bytesWritten = text.length ∧ IsObject text ∧
      parse F text = some (imageJson width height components compressedImage) := by
  have hfits := Nat.le_trans (estimatedTotalSize_le compressedImage.length) h
  have hholds : (encodeImageByteArray txBufferSize width height components compressedImage).Holds
      (imageText width height components compressedImage) := holds_encodeImageByteArray hfits
  refine ⟨_, ⟨hholds.read m, ?_, zero_not_mem_imageText _ _ _ _⟩, hholds.length,
    isObject_imageText .., (denotes_imageText ..).parse⟩
  rw [← hholds.length]
  exact encodeImageByteArray_terminated hfits m

/-- An image of three bytes in a buffer of 122. -/
theorem image_round_trip_three : ∃ text,
    CString ((encodeImageByteArray 122 2 1 (-1) [0, 99, 255]).apply .zero) text ∧
    (encodeImageByteArray 122 2 1 (-1) [0, 99, 255]).bytesWritten = text.length ∧
    IsObject text ∧
    parse Env.standIn.toFloatLib text = some (imageJson 2 1 (-1) [0, 99, 255]) :=
  image_round_trip (by decide) _ 2 1 (-1) .zero

/-! ## The estimate -/

/-- No store is past the index that is written next. -/
def Writer.Bounded (w : Writer) : Prop := ∀ p ∈ w.stores, p.1 ≤ w.bytesWritten

theorem bounded_encodeImageByteArray (txBufferSize : Nat) (width height components : Int32)
    (compressedImage : Bytes) :
    (encodeImageByteArray txBufferSize width height components compressedImage).Bounded := by
  refine encodeImageByteArray_induct nofun (fun w c h p hp => ?_) (fun w h p hp => ?_) ..
  · rcases List.mem_cons.mp hp with rfl | hp
    · exact Nat.le_succ _
    · exact Nat.le_succ_of_le (h p hp)
  · rcases List.mem_cons.mp hp with rfl | hp
    · exact Nat.le_refl _
    · exact h p hp

theorem length_decimalFuel_le {fuel n k : Nat} (hfuel : n < fuel) (hn : n < 10 ^ (k + 1)) :
    (decimalFuel fuel n).length ≤ k + 1 := by
  induction fuel generalizing n k with
  | zero => omega
  | succ fuel ih =>
    unfold decimalFuel
    split
    · simp
    · rename_i hten
      cases k with
      | zero => omega
      | succ k =>
        have hquot := ih (n := n / 10) (k := k) (by omega) (by omega)
        simpa using hquot

/-- The text of an `int` has at most ten digits and a sign. -/
theorem length_dumpInteger_le (i : Int32) : (dumpInteger i.toInt).length ≤ 11 := by
  have hlow := i.le_toInt
  have hhigh := i.toInt_lt
  have hdigits : (decimal i.toInt.natAbs).length ≤ 10 :=
    length_decimalFuel_le (Nat.lt_succ_self _) (by omega)
  unfold dumpInteger
  split
  · exact Nat.succ_le_succ hdigits
  · exact Nat.le_succ_of_le hdigits

/-- The text of the bytes has one to four characters for each. -/
theorem length_imageBytes (r : Bytes) :
    r.length ≤ (commaSeparated (r.map byteDigits)).length ∧
      (commaSeparated (r.map byteDigits)).length ≤ 4 * r.length := by
  -- a test of the 256 bytes
  have htest : ∀ b, 1 ≤ (byteDigits b).length ∧ (byteDigits b).length ≤ 3 :=
    forall_byte (by decide +kernel)
  induction r with
  | nil => exact ⟨Nat.le_refl _, Nat.le_refl _⟩
  | cons b r ih =>
    have hb := htest b
    rw [List.map_cons, commaSeparated_cons, List.length_append, List.length_cons]
    split
    · rw [List.length_nil]
      rename_i hempty
      rw [List.isEmpty_iff, List.map_eq_nil_iff] at hempty
      subst hempty
      rw [List.length_nil]
      omega
    · rw [List.length_cons]
      omega

/-- The text has a byte for each byte of the image, and at most four of them and 93 more. -/
theorem length_imageText (width height components : Int32) (compressedImage : Bytes) :
    compressedImage.length ≤ (imageText width height components compressedImage).length ∧
      (imageText width height components compressedImage).length ≤
        4 * compressedImage.length + 93 := by
  have hw := length_dumpInteger_le width
  have hh := length_dumpInteger_le height
  have hc := length_dumpInteger_le components
  have hdata := length_imageBytes compressedImage
  have hnames : "width".toList.length = 5 ∧ "height".toList.length = 6 ∧
      "channels".toList.length = 8 ∧ "encoding".toList.length = 8 ∧
      "jpeg".toList.length = 4 ∧ "data".toList.length = 4 := by decide
  simp only [imageText, objectText, arrayText, quoted, ascii, commaSeparated_cons, List.map_cons,
    List.map_nil, List.isEmpty_cons, List.isEmpty_nil, List.length_append, List.length_cons,
    List.length_map, List.length_nil, Bool.false_eq_true, if_false, if_true]
  omega

/-- **The estimate.** Up to `2 ^ 62 - 28` bytes, a buffer that the estimate lets through holds every
store of the encoder, its zeros included, and one that it does not gets none. -/
theorem stores_bounded (txBufferSize : Nat) (width height components : Int32)
    (compressedImage : Bytes) (hsize : compressedImage.length ≤ 2 ^ 62 - 28) :
    let w := encodeImageByteArray txBufferSize width height components compressedImage
    (estimatedTotalSize compressedImage.length ≤ txBufferSize →
      ∀ p ∈ w.stores, p.1 < txBufferSize) ∧
    (txBufferSize < estimatedTotalSize compressedImage.length →
      w.stores = [] ∧ w.bytesWritten = 0) := by
  constructor
  · intro hfits p hp
    have hbound := bounded_encodeImageByteArray _ _ _ _ _ p hp
    rw [(holds_encodeImageByteArray hfits).length] at hbound
    have hlength := (length_imageText width height components compressedImage).2
    have hexact : estimatedTotalSize compressedImage.length =
        100 + compressedImage.length * 4 + 10 := Nat.mod_eq_of_lt (by omega)
    omega
  · intro hlarge
    rw [encodeImageByteArray, if_pos hlarge]
    exact ⟨rfl, rfl⟩

/-- An image of two bytes fits a buffer of 118, and not one of 117. -/
theorem stores_bounded_two :
    (∀ p ∈ (encodeImageByteArray 118 7 7 3 [0, 255]).stores, p.1 < 118) ∧
    (encodeImageByteArray 117 7 7 3 [0, 255]).stores = [] :=
  ⟨(stores_bounded 118 7 7 3 [0, 255] (by decide)).1 (by decide),
    ((stores_bounded 117 7 7 3 [0, 255] (by decide)).2 (by decide)).1⟩

/-- `2 ^ 62 - 27` bytes wrap the estimate to 2, so the encoder writes past `encode_buffer`. -/
theorem estimate_wraps : ∃ compressedImage : Bytes, compressedImage.length < 2 ^ 62 ∧
    estimatedTotalSize compressedImage.length ≤ sizeofEncodeBuffer ∧
    ∃ p ∈ (encodeImageByteArray sizeofEncodeBuffer 0 0 0 compressedImage).stores,
      sizeofEncodeBuffer ≤ p.1 := by
  obtain ⟨compressedImage, hlength⟩ : ∃ image : Bytes, image.length = 2 ^ 62 - 27 :=
    ⟨List.replicate _ 0, List.length_replicate⟩
  have hfits : estimatedTotalSize compressedImage.length ≤ sizeofEncodeBuffer := by
    rw [hlength]
    decide
  refine ⟨compressedImage, by omega, hfits, ?_⟩
  -- the zero after the text is the last store
  obtain ⟨b, hb⟩ : ∃ b, ((imageText 0 0 0 compressedImage).length, b) ∈
      (encodeImageByteArray sizeofEncodeBuffer 0 0 0 compressedImage).stores := by
    rw [← (holds_encodeImageByteArray hfits).length]
    unfold encodeImageByteArray
    dsimp only
    rw [if_neg (Nat.not_lt.mpr hfits)]
    exact ⟨0, List.mem_cons_self⟩
  have hlong := (length_imageText 0 0 0 compressedImage).1
  refine ⟨_, hb, ?_⟩
  show 10 * 1024 * 1024 ≤ _
  omega

end Foxdbg
