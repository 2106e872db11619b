import Foxdbg.Session
import Foxdbg.Lib.JsonDenotes

/-!
# Binary frames (`send_buffer`)

A sender puts its body behind the place of the header, and `send_buffer` puts the header in front
of it. `decodeFrame` is the reader of the other side: it finds the id, the time and the body again
(`frame_round_trip`).

Each sender compares the size of its body with the room in `tx_buffer` on its own. All of them agree
with `send_buffer`, except at the size that fills the buffer to its last byte: five of them turn it
away (`one_limit_iff`).
-/

namespace Foxdbg

open Json

/-! ## The frame -/

/-- The parts of a frame: the opcode, an `int`, a `uint64_t` and the rest. -/
def decodeFrame : Bytes → Option (Int32 × UInt64 × Bytes)
  | [] => none
  | opcode :: r =>
    if opcode = 0x01 ∧ 12 ≤ r.length then
      some ((Mem.ofLe (r.take 4)).toUInt32.toInt32, (Mem.ofLe ((r.drop 4).take 8)).toUInt64,
        r.drop 12)
    else none

/-- The decoder finds what the header and the body say. -/
theorem decodeFrame_header (id : Int32) (nsec : UInt64) (body : Bytes) :
    decodeFrame (State.header id nsec ++ body) = some (id, nsec, body) := by
  have hid := headerId_header id nsec body
  have hnsec : Mem.ofLe (Mem.le nsec.toNat 8) = nsec.toNat := by
    have hlt : nsec.toNat < 256 ^ 8 := by
      have h := nsec.toNat_lt
      omega
    rw [Mem.ofLe_le, Nat.mod_eq_of_lt hlt]
  obtain ⟨r, hr, htime, hbody, hlength⟩ : ∃ r, State.header id nsec ++ body = 0x01 :: r ∧
      (r.drop 4).take 8 = Mem.le nsec.toNat 8 ∧ r.drop 12 = body ∧ 12 ≤ r.length := by
    refine ⟨_, rfl, ?_, ?_, ?_⟩
    · exact List.take_left' (Mem.length_le _ _)
    · show ([_, _, _, _] ++ Mem.le nsec.toNat 8 ++ body).drop 12 = body
      exact List.drop_left' rfl
    · simp
  rw [hr] at hid ⊢
  rw [decodeFrame, if_pos ⟨rfl, hlength⟩, htime, hbody, hnsec]
  simp only [headerId, List.drop_succ_cons, List.drop_zero] at hid
  rw [hid]
  simp

namespace State

variable {s : State} {w : Socket} {body : Bytes}

/-- **Round trip of a frame.** For a body behind the place of the header, `send_buffer` hands over a
frame that reads as the id, the time and the body. The header leaves the body as it is, and no byte
outside the two changes. -/
theorem frame_round_trip (hw : s.client = some w)
    (hsize : lwsPre + 13 + body.length ≤ sizeofTxBuffer) (channelId id : Int32) (nsec : UInt64) :
    let t := sendBuffer { s with txBuffer := s.txBuffer.copy (lwsPre + 13) body } channelId
      (body.length + 13) id nsec
    (∃ d, t.trace = .frame w channelId d :: s.trace ∧ d.length = body.length + 13 ∧
      decodeFrame d = some (id, nsec, body)) ∧
    t.txBuffer.read (lwsPre + 13) body.length = body ∧
    ∀ i, i < lwsPre ∨ lwsPre + 13 + body.length ≤ i ∨ sizeofTxBuffer ≤ i →
      t.txBuffer i = s.txBuffer i := by
  intro t
  have hfits : ¬ body.length + 13 + lwsPre > sizeofTxBuffer := by omega
  have ht : t = { s with
      txBuffer := (s.txBuffer.copy (lwsPre + 13) body).copy lwsPre (header id nsec)
      trace := .frame w channelId (header id nsec ++ body) :: s.trace } := by
    simp only [t, sendBuffer, hw, if_neg hfits, read_tx]
  have hheader := length_header id nsec
  rw [ht]
  refine ⟨⟨_, rfl, ?_, decodeFrame_header id nsec body⟩, ?_, fun i hi => ?_⟩
  · rw [List.length_append, hheader, Nat.add_comm]
  · show Mem.read _ _ _ = body
    rw [Mem.read_copy_disjoint (by omega), Mem.read_copy]
  · show (s.txBuffer.copy (lwsPre + 13) body).copy lwsPre (header id nsec) i = s.txBuffer i
    rw [Mem.copy_apply_out (by omega), Mem.copy_apply_out (by omega)]

/-- A frame of three bytes for the subscription -2. -/
theorem frame_round_trip_three :
    let s : State := { State.init with client := some 7 }
    let t := sendBuffer { s with txBuffer := s.txBuffer.copy (lwsPre + 13) [1, 2, 3] } 0 16 (-2) 5
    ∃ d, t.trace = .frame 7 0 d :: s.trace ∧ decodeFrame d = some (-2, 5, [1, 2, 3]) := by
  intro s t
  obtain ⟨⟨d, htrace, -, hd⟩, -⟩ :=
    @frame_round_trip s 7 [1, 2, 3] rfl (by decide) 0 (-2) 5
  exact ⟨d, htrace, hd⟩

end State

/-! ## The size limit -/

/-- The limit is one for all senders at the size of this body: the sender and `send_buffer` together
let the body through exactly if the frame fits `tx_buffer`, no other sender would treat its size in
another way, `send_buffer` rejects nothing that the sender has let through, and nothing is copied
past the end of `tx_buffer`. -/
structure OneLimit (s : State) (w : Socket) (ch : Channel) (e : Encoded) (nsec : UInt64) :
    Prop where
  sent : (s.sendBody ch e nsec).trace =
      .frame w ch.channelId (State.header ch.subscriptionId nsec ++ e.body) :: s.trace ↔
    lwsPre + 13 + e.body.length ≤ sizeofTxBuffer
  same : ∀ type, (senderOf type).fits e.body.length =
    (senderOf ch.channelType).fits e.body.length
  accepted : (senderOf ch.channelType).fits e.body.length = true →
    e.body.length + 13 + lwsPre ≤ sizeofTxBuffer
  inside : ∀ i, sizeofTxBuffer ≤ i → (s.sendBody ch e nsec).txBuffer i = s.txBuffer i

/-- The senders that compare with `<`. -/
def ChannelType.strict : ChannelType → Bool
  | .transform | .location | .float | .integer | .boolean => true
  | _ => false

theorem fits_eq (type : ChannelType) (n : Nat) :
    (senderOf type).fits n = if type.strict then fitsLt n else fitsGe n := by
  cases type <;> rfl

/-- Apart from the size that fills `tx_buffer`, a sender lets a body through exactly if its frame
fits. -/
theorem fits_iff (type : ChannelType) {n : Nat} (hne : lwsPre + 13 + n ≠ sizeofTxBuffer) :
    (senderOf type).fits n = true ↔ lwsPre + 13 + n ≤ sizeofTxBuffer := by
  rw [fits_eq]
  split
  · rw [fitsLt, decide_eq_true_iff]
    omega
  · rw [fitsGe, decide_eq_true_iff]
    omega

/-- What a sender lets through fits `tx_buffer`. -/
theorem le_of_fits {type : ChannelType} {n : Nat} (h : (senderOf type).fits n = true) :
    n + 13 + lwsPre ≤ sizeofTxBuffer := by
  rw [fits_eq] at h
  split at h
  · rw [fitsLt, decide_eq_true_iff] at h
    omega
  · rw [fitsGe, decide_eq_true_iff] at h
    omega

/-- No sender copies past the end of `tx_buffer`. -/
theorem sendBody_inside (s : State) (ch : Channel) (e : Encoded) (nsec : UInt64) {i : Nat}
    (hi : sizeofTxBuffer ≤ i) : (s.sendBody ch e nsec).txBuffer i = s.txBuffer i := by
  unfold State.sendBody State.sendBuffer
  dsimp only
  split
  · rename_i hfits
    have hle := le_of_fits hfits
    have hbody : s.txBuffer.copy (lwsPre + 13) e.body i = s.txBuffer i :=
      Mem.copy_apply_out (by omega)
    split
    · exact hbody
    · rw [if_neg (by omega)]
      show (s.txBuffer.copy (lwsPre + 13) e.body).copy lwsPre _ i = s.txBuffer i
      rw [Mem.copy_apply_out (by rw [State.length_header]; omega), hbody]
  · rfl

/-- **One limit.** The senders agree on a size exactly if it does not fill `tx_buffer` to its last
byte. -/
theorem one_limit_iff (s : State) (w : Socket) (ch : Channel) (e : Encoded) (nsec : UInt64)
    (hw : s.client = some w) :
    OneLimit s w ch e nsec ↔ lwsPre + 13 + e.body.length ≠ sizeofTxBuffer := by
  constructor
  · intro h hfull
    have hlt : fitsLt e.body.length = fitsGe e.body.length :=
      (h.same .transform).trans (h.same .image).symm
    have hge : fitsGe e.body.length = true := by
      rw [fitsGe, decide_eq_true_iff]
      omega
    rw [hge, fitsLt, decide_eq_true_iff] at hlt
    omega
  · intro hne
    have hfits := fits_iff ch.channelType hne
    refine ⟨?_, fun type => ?_, le_of_fits, fun i hi => sendBody_inside s ch e nsec hi⟩
    · obtain ⟨tx, htx⟩ := s.sendBody_eq ch e nsec
      rw [htx]
      show s.frames ch e.body nsec ++ s.trace = _ ↔ _
      unfold State.frames
      rw [hw]
      constructor
      · intro htrace
        by_contra hlarge
        dsimp only at htrace
        rw [if_neg fun h => hlarge (hfits.mp h.1)] at htrace
        exact absurd (congrArg List.length htrace) (by simp)
      · intro hle
        dsimp only
        rw [if_pos ⟨hfits.mpr hle, by omega⟩]
        rfl
    · rw [Bool.eq_iff_iff, fits_iff type hne, hfits]

/-- An empty channel of a type that needs no memory yet, for runs on fixed inputs. -/
def Channel.blank (type : ChannelType) : Channel where
  topicName := []
  targetTxTime := 0
  lastTxTime := 0
  channelId := 0
  subscriptionId := 0
  channelType := type
  dataBuffer := ⟨type.payloadSize, .zero, .zero, .a, 0, .b, 0, Slot.a_ne_b⟩
  infoBuffer := none

/-- At a size of three bytes there is one limit. -/
theorem one_limit_three :
    OneLimit { State.init with client := some 7 } 7 (.blank .location) ⟨[1, 2, 3], .zero⟩ 5 :=
  (one_limit_iff _ _ _ _ _ rfl).mpr (by decide)

/-- A program whose string at the address 1 is `ids`. -/
def Env.naming (ids : Bytes) : Env := { Env.standIn with
  cstr := fun address => if address = 0 then none else if address = 1 then some ids else some [] }

/-- The memory of a transform whose child frame has its id at the address 1, and whose parent frame
has its id at the address 2. -/
def transformSource : Source where
  rawDataBuffer := (Mem.zero.store 0 1).store 8 2
  infoDataBuffer := .zero
  encodeBuffer := .zero
  data := .zero
  dataSize := sizeofTransform

/-- The body of a transform with a plain frame id has 158 bytes and the id. -/
theorem length_transform {ids : Bytes} (h : Plain ids) :
    ∃ e, sendTransform.body (.naming ids) [] transformSource = some (some e) ∧
      e.body.length = 158 + ids.length := by
  let F := Env.standIn.toFloatLib
  have hparts : (dump F (quaternionJson .standIn (0, 0, 0, 0))).map List.length = some 33 ∧
      (dump F timestamp).map List.length = some 18 ∧
      (dump F (vector3At .standIn .zero 0)).map List.length = some 25 := by decide +kernel
  obtain ⟨hrotation, htime, htranslation⟩ := hparts
  obtain ⟨rotation, hrotation, hlenRotation⟩ := Option.map_eq_some_iff.mp hrotation
  obtain ⟨time, htime, hlenTime⟩ := Option.map_eq_some_iff.mp htime
  obtain ⟨translation, htranslation, hlenTranslation⟩ := Option.map_eq_some_iff.mp htranslation
  have hdump := dump_obj (F := F)
    [(ascii "child_frame_id", quoted ids, .str ids),
      (ascii "parent_frame_id", quoted [], .str []),
      (ascii "rotation", rotation, quaternionJson .standIn (0, 0, 0, 0)),
      (ascii "timestamp", time, timestamp),
      (ascii "translation", translation, vector3At .standIn .zero 0)]
    (plain_keys rfl)
    (by
      simp only [List.forall_mem_cons, List.not_mem_nil, false_imp_iff, implies_true, and_true]
      exact ⟨dump_str h, dump_str (by decide), hrotation, htime, htranslation⟩)
  refine ⟨_, congrArg (Option.map _) hdump, ?_⟩
  have hnames : "child_frame_id".toList.length = 14 ∧ "parent_frame_id".toList.length = 15 ∧
      "rotation".toList.length = 8 ∧ "timestamp".toList.length = 9 ∧
      "translation".toList.length = 11 := by decide
  simp only [objectText, quoted, ascii, commaSeparated_cons, List.map_cons, List.map_nil,
    List.isEmpty_cons, List.isEmpty_nil, List.length_append, List.length_cons, List.length_map,
    List.length_nil, Bool.false_eq_true, if_false, if_true, hlenRotation, hlenTime,
    hlenTranslation]
  omega

/-- A transform whose frame fills `tx_buffer` to its last byte is never sent. -/
theorem full_transform_dropped : ∃ ids e,
    sendTransform.body (.naming ids) [] transformSource = some (some e) ∧
    lwsPre + 13 + e.body.length ≤ sizeofTxBuffer ∧
    ∀ s w ch nsec, s.client = some w → ch.channelType = .transform →
      (s.sendBody ch e nsec).trace = s.trace ∧ ¬ OneLimit s w ch e nsec := by
  obtain ⟨ids, hlength, hplain⟩ : ∃ ids : Bytes, ids.length = 1048389 ∧ Plain ids := by
    refine ⟨List.replicate _ 97, List.length_replicate, ?_⟩
    rw [Plain, List.all_eq_true]
    intro b hb
    rw [List.eq_of_mem_replicate hb]
    rfl
  obtain ⟨e, hbody, he⟩ := length_transform hplain
  rw [hlength] at he
  have hroom : lwsPre + 13 + e.body.length ≤ sizeofTxBuffer := by
    rw [he]
    decide
  refine ⟨ids, e, hbody, hroom, fun s w ch nsec hw hty => ?_⟩
  have hdropped : (s.sendBody ch e nsec).trace = s.trace := by
    have hfits : ¬ (senderOf ch.channelType).fits e.body.length = true := by
      rw [hty, he]
      decide
    simp [State.sendBody, hfits]
  refine ⟨hdropped, fun h => ?_⟩
  have hsent := h.sent.mpr hroom
  rw [hdropped] at hsent
  exact absurd (congrArg List.length hsent) (by simp)

end Foxdbg
