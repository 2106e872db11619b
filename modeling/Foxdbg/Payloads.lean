import Foxdbg.Records
import Foxdbg.Lib.JsonRoundTrip

/-!
# Payloads and their values (`foxdbg_channel.h`, `send_*`)

`Payload` is what an application writes to a channel that is no image: an array of points, cubes or
lines, one struct, or one number. `Payload.bytes` is its memory, and `Payload.json` the value that
the sender of its type has to make of it (`body_payload`); a transform has one only if its frame ids
point to strings. A sender takes exactly the sizes of payloads (`exists_payload`).
-/

namespace Foxdbg

open Json Mem

/-! ## The structs -/

/-- `foxdbg_vector4_t`. -/
structure Vector4 where
  x : UInt32
  y : UInt32
  z : UInt32
  w : UInt32

/-- `foxdbg_pose_t`. -/
structure Pose where
  position : Vector3
  orientation : Vector3
  color : Color

/-- `foxdbg_transform_t`. The ids are pointers to strings. -/
structure Transform where
  id : UInt64
  parentId : UInt64
  position : Vector3
  orientation : Vector3

/-- `foxdbg_location_t`. A `double` is its bits. -/
structure Location where
  timestampSec : UInt32
  timestampNsec : UInt32
  latitude : UInt64
  longitude : UInt64
  altitude : UInt64

/-- The bytes of a `double` or a pointer. -/
def wordBytes (x : UInt64) : Bytes := le x.toNat 8

def Vector4.bytes (v : Vector4) : Bytes :=
  floatBytes v.x ++ (floatBytes v.y ++ (floatBytes v.z ++ floatBytes v.w))

def Pose.bytes (p : Pose) : Bytes := p.position.bytes ++ (p.orientation.bytes ++ p.color.bytes)

def Transform.bytes (t : Transform) : Bytes :=
  wordBytes t.id ++ (wordBytes t.parentId ++ (t.position.bytes ++ t.orientation.bytes))

def Location.bytes (l : Location) : Bytes :=
  floatBytes l.timestampSec ++ (floatBytes l.timestampNsec ++
    (wordBytes l.latitude ++ (wordBytes l.longitude ++ wordBytes l.altitude)))

/-- What an application writes to a channel (module doc). -/
inductive Payload where
  | pointcloud (points : List Vector4)
  | cubes (records : List Cube)
  | lines (records : List Line)
  | pose (p : Pose)
  | transform (t : Transform)
  | location (l : Location)
  | float (x : UInt32)
  | integer (i : Int32)
  /-- A `bool` is its byte. -/
  | boolean (b : UInt8)

namespace Payload

def channelType : Payload → ChannelType
  | .pointcloud _ => .pointcloud
  | .cubes _ => .cubes
  | .lines _ => .lines
  | .pose _ => .pose
  | .transform _ => .transform
  | .location _ => .location
  | .float _ => .float
  | .integer _ => .integer
  | .boolean _ => .boolean

def bytes : Payload → Bytes
  | .pointcloud points => points.flatMap Vector4.bytes
  | .cubes records => records.flatMap Cube.bytes
  | .lines records => records.flatMap Line.bytes
  | .pose p => p.bytes
  | .transform t => t.bytes
  | .location l => l.bytes
  | .float x => floatBytes x
  | .integer i => floatBytes i.toUInt32
  | .boolean b => [b]

end Payload

/-! ## Their values -/

/-- The bytes of the points, and how to read them. -/
def pointcloudJson (data : Bytes) : Json :=
  ofMembers
    [("timestamp", timestamp), ("frame_id", lit "world"),
      ("pose", ofMembers
        [("position", ofMembers
          [("x", .float zeroBits), ("y", .float zeroBits), ("z", .float liftBits)]),
          ("orientation", ofMembers
            [("x", .float zeroBits), ("y", .float zeroBits), ("z", .float zeroBits),
              ("w", .float oneBits)])]),
      ("point_stride", .int sizeofVector4),
      ("fields", .arr [pointField "x" 0, pointField "y" 4, pointField "z" 8,
        pointField "intensity" 12]),
      ("data", .arr (data.map fun b => .int b.toNat))]

/-- The position and the color of a pose, and its orientation as a quaternion. -/
def Pose.json (env : Env) (p : Pose) : Json :=
  ofMembers
    [("pose", ofMembers
      [("position", p.position.json env),
        ("orientation", quaternionJson env (env.quaternion p.orientation.x p.orientation.y
          (env.addHalfPi p.orientation.z)))]),
      ("shaft_length", .float (env.widen 0x3F000000)),
      ("shaft_diameter", .float (env.widen 0x3D4CCCCD)),
      ("head_length", .float (env.widen 0x3E19999A)),
      ("head_diameter", .float (env.widen 0x3DCCCCCD)),
      ("color", p.color.json env)]

/-- The strings of the ids, the position and the orientation as a quaternion. -/
def Transform.json (env : Env) (t : Transform) : Option Json :=
  (env.cstr t.parentId).bind fun parentId =>
    (env.cstr t.id).map fun id =>
      ofMembers
        [("timestamp", timestamp), ("parent_frame_id", .str parentId),
          ("child_frame_id", .str id), ("translation", t.position.json env),
          ("rotation", quaternionJson env
            (env.quaternion t.orientation.x t.orientation.y t.orientation.z))]

def Location.json (l : Location) : Json :=
  ofMembers
    [("timestamp", ofMembers
      [("sec", .int l.timestampSec.toNat), ("nsec", .int l.timestampNsec.toNat)]),
      ("frame_id", lit "world"), ("latitude", .float l.latitude),
      ("longitude", .float l.longitude), ("altitude", .float l.altitude),
      ("position_covariance", .arr (List.replicate 9 (.float zeroBits))),
      ("position_covariance_type", .int 0)]

/-- The value of a payload on a channel with this topic. A transform whose ids point to no strings
has none. -/
def Payload.json (env : Env) (topic : Bytes) : Payload → Option Json
  | .pointcloud points => some (pointcloudJson (points.flatMap Vector4.bytes))
  | .cubes records => some (sceneUpdate topic "cubes" (records.map (Cube.json env)))
  | .lines records => some (sceneUpdate topic "lines" (records.map (Line.json env)))
  | .pose p => some (sceneUpdate topic "arrows" [p.json env])
  | .transform t => t.json env
  | .location l => some l.json
  | .float x => some (ofMembers [("value", floatJson env x)])
  | .integer i => some (ofMembers [("value", .int i.toInt)])
  | .boolean b => some (ofMembers [("value", .bool (b != 0))])

/-! ## What a sender makes of the bytes -/

section Body

variable {env : Env} {m : Mem} {off : Nat}

theorem length_wordBytes (x : UInt64) : (wordBytes x).length = 8 := length_le _ _

theorem arrowAt_of_has {p : Pose} (h : m.Has 0 p.bytes) : arrowAt env m = p.json env := by
  simp only [Pose.bytes, has_append, Vector3.length_bytes] at h
  obtain ⟨hposition, horientation, hcolor⟩ := h
  rw [arrowAt, vector3At_of_has hposition, turnedAt_of_has horientation, colorAt_of_has hcolor]
  rfl

/-- In memory that has the payload, each sender finds the value of the payload. -/
theorem body_payload (p : Payload) (env : Env) (topic : Bytes) (src : Source)
    (hsize : src.dataSize = p.bytes.length)
    (hraw : p.channelType ≠ .pointcloud → src.rawDataBuffer.Has 0 p.bytes)
    (hdata : p.channelType = .pointcloud → src.data.Has 0 p.bytes) :
    (senderOf p.channelType).body env topic src =
      ((p.json env topic).bind (dump env.toFloatLib)).map fun text =>
        some ⟨text, src.encodeBuffer⟩ := by
  have same : ∀ {admits fits : Nat → Bool} {value : Env → Bytes → Source → Option Json},
      value env topic src = p.json env topic →
      (Sender.ofJson admits value fits).body env topic src =
        ((p.json env topic).bind (dump env.toFloatLib)).map fun text =>
          some ⟨text, src.encodeBuffer⟩ := by
    intro admits fits value h
    rw [← h]
    rfl
  cases p with
  | pointcloud points =>
    refine same ?_
    have hread := hdata rfl
    rw [Has, ← hsize] at hread
    show some (pointcloudJson (src.data.read 0 src.dataSize)) = _
    rw [hread]
    rfl
  | cubes records => exact Batch.body_of_has (b := .cubes) env topic src hsize (hraw (by rintro ⟨⟩))
  | lines records => exact Batch.body_of_has (b := .lines) env topic src hsize (hraw (by rintro ⟨⟩))
  | pose p =>
    refine same ?_
    show some (sceneUpdate topic "arrows" [arrowAt env src.rawDataBuffer]) = _
    rw [arrowAt_of_has (hraw (by rintro ⟨⟩))]
    rfl
  | transform t =>
    refine same ?_
    have h := hraw (by rintro ⟨⟩)
    simp only [Payload.bytes, Transform.bytes, Vector3.bytes, has_append, length_wordBytes,
      length_floatBytes, List.length_append, Nat.reduceAdd] at h
    obtain ⟨hid, hparent, ⟨hx, hy, hz⟩, hpitch, hroll, hyaw⟩ := h
    have hposition : src.rawDataBuffer.Has 16 t.position.bytes := by
      simp only [Vector3.bytes, has_append, length_floatBytes]
      exact ⟨hx, hy, hz⟩
    dsimp only
    rw [u64_of_has hid, u64_of_has hparent, vector3At_of_has hposition, u32_of_has hpitch,
      u32_of_has hroll, u32_of_has hyaw]
    rfl
  | location l =>
    refine same ?_
    have h := hraw (by rintro ⟨⟩)
    simp only [Payload.bytes, Location.bytes, has_append, length_wordBytes, length_floatBytes,
      Nat.reduceAdd] at h
    obtain ⟨hsec, hnsec, hlatitude, hlongitude, haltitude⟩ := h
    show some (ofMembers _) = _
    rw [u32_of_has hsec, u32_of_has hnsec, u64_of_has hlatitude, u64_of_has hlongitude,
      u64_of_has haltitude]
    rfl
  | float x =>
    refine same ?_
    show some (ofMembers [("value", floatAt env src.rawDataBuffer 0)]) = _
    rw [floatAt_of_has (hraw (by rintro ⟨⟩))]
    rfl
  | integer i =>
    refine same ?_
    show some (ofMembers [("value", .int (src.rawDataBuffer.i32 0).toInt)]) = _
    rw [i32, u32_of_has (hraw (by rintro ⟨⟩))]
    rfl
  | boolean b =>
    refine same ?_
    have hread : [src.rawDataBuffer 0] = [b] := hraw (by rintro ⟨⟩)
    show some (ofMembers [("value", .bool (src.rawDataBuffer 0 != 0))]) = _
    rw [(List.cons.inj hread).1]
    rfl

end Body

/-! ## The sizes that a sender takes -/

theorem onto_vector3 : Onto Vector3.bytes 12 :=
  (onto_u32.append (onto_u32.append onto_u32)).map (fun x => ⟨x.1, x.2.1, x.2.2⟩) fun _ => rfl

theorem onto_color : Onto Color.bytes 16 :=
  (onto_u32.append (onto_u32.append (onto_u32.append onto_u32))).map
    (fun x => ⟨x.1, x.2.1, x.2.2.1, x.2.2.2⟩) fun _ => rfl

theorem onto_vector4 : Onto Vector4.bytes sizeofVector4 :=
  (onto_u32.append (onto_u32.append (onto_u32.append onto_u32))).map
    (fun x => ⟨x.1, x.2.1, x.2.2.1, x.2.2.2⟩) fun _ => rfl

theorem onto_cube : Onto Cube.bytes sizeofCube :=
  (onto_vector3.append (onto_vector3.append (onto_vector3.append onto_color))).map
    (fun x => ⟨x.1, x.2.1, x.2.2.1, x.2.2.2⟩) fun _ => rfl

theorem onto_line : Onto Line.bytes sizeofLine :=
  (onto_vector3.append (onto_vector3.append (onto_color.append onto_u32))).map
    (fun x => ⟨x.1, x.2.1, x.2.2.1, x.2.2.2⟩) fun _ => rfl

theorem onto_pose : Onto Pose.bytes sizeofPose :=
  (onto_vector3.append (onto_vector3.append onto_color)).map (fun x => ⟨x.1, x.2.1, x.2.2⟩)
    fun _ => rfl

theorem onto_transform : Onto Transform.bytes sizeofTransform :=
  (onto_u64.append (onto_u64.append (onto_vector3.append onto_vector3))).map
    (fun x => ⟨x.1, x.2.1, x.2.2.1, x.2.2.2⟩) fun _ => rfl

theorem onto_location : Onto Location.bytes sizeofLocation :=
  (onto_u32.append (onto_u32.append (onto_u64.append (onto_u64.append onto_u64)))).map
    (fun x => ⟨x.1, x.2.1, x.2.2.1, x.2.2.2.1, x.2.2.2.2⟩) fun _ => rfl

/-- Bytes of a size that the sender takes are those of a payload of its type. -/
theorem exists_payload {type : ChannelType} {d : Bytes} (hty : type ≠ .image)
    (h : (senderOf type).admits d.length = true) :
    ∃ p : Payload, p.channelType = type ∧ p.bytes = d := by
  have array : ∀ {size : Nat} {α : Type} {f : α → Bytes}, Onto f size →
      (decide (d.length ≤ sizeofRawDataBuffer) &&
        (decide (0 < d.length) && d.length % size == 0)) = true →
      ∃ xs : List α, xs.flatMap f = d := by
    intro size α f hf h
    simp only [Bool.and_eq_true, beq_iff_eq] at h
    refine hf.flatMap (d.length / size) d ?_
    rw [Nat.div_mul_cancel (Nat.dvd_of_mod_eq_zero h.2.2)]
  have one : ∀ {size : Nat},
      (decide (d.length ≤ sizeofRawDataBuffer) && d.length == size) = true →
      d.length = size := by
    intro size h
    simp only [Bool.and_eq_true, beq_iff_eq] at h
    exact h.2
  cases type with
  | image => exact absurd rfl hty
  | pointcloud =>
    obtain ⟨points, rfl⟩ := array onto_vector4 h
    exact ⟨.pointcloud points, rfl, rfl⟩
  | cubes =>
    obtain ⟨records, rfl⟩ := array onto_cube h
    exact ⟨.cubes records, rfl, rfl⟩
  | lines =>
    obtain ⟨records, rfl⟩ := array onto_line h
    exact ⟨.lines records, rfl, rfl⟩
  | pose =>
    obtain ⟨p, rfl⟩ := onto_pose d (one h)
    exact ⟨.pose p, rfl, rfl⟩
  | transform =>
    obtain ⟨t, rfl⟩ := onto_transform d (one h)
    exact ⟨.transform t, rfl, rfl⟩
  | location =>
    obtain ⟨l, rfl⟩ := onto_location d (one h)
    exact ⟨.location l, rfl, rfl⟩
  | float =>
    obtain ⟨x, rfl⟩ := onto_u32 d (one h)
    exact ⟨.float x, rfl, rfl⟩
  | integer =>
    obtain ⟨x, rfl⟩ := onto_u32 d (one h)
    exact ⟨.integer x.toInt32, rfl, rfl⟩
  | boolean =>
    obtain ⟨b, rfl⟩ := List.length_eq_one_iff.mp (one h)
    exact ⟨.boolean b, rfl, rfl⟩

/-! ## The library holds the values -/

section Kept

variable (env : Env)

theorem kept_cube (c : Cube) : (c.json env).kept = true := rfl

theorem kept_line (l : Line) : (l.json env).kept = true := rfl

theorem kept_pose (p : Pose) : (p.json env).kept = true := rfl

theorem kept_sceneUpdate (topic : Bytes) (kind : String) {objects : List Json}
    (h : ∀ x ∈ objects, x.kept = true) : (sceneUpdate topic kind objects).kept = true := by
  refine kept_ofMembers (List.forall_mem_singleton.mpr (kept_arr
    (List.forall_mem_singleton.mpr (kept_ofMembers ?_))))
  simp only [List.forall_mem_cons, List.not_mem_nil, false_imp_iff, implies_true, and_true]
  exact ⟨rfl, rfl, rfl, kept_arr h⟩

theorem kept_u32 (x : UInt32) : (Json.int x.toNat).kept = true := by
  have h := x.toNat_lt
  exact kept_int (by omega) (by omega)

/-- **Values.** Every value that a sender makes of a payload is one that the library holds. -/
theorem kept_payload {topic : Bytes} {p : Payload} {v : Json} (h : p.json env topic = some v) :
    v.kept = true := by
  cases p with
  | pointcloud points =>
    cases h
    refine kept_ofMembers ?_
    simp only [List.forall_mem_cons, List.not_mem_nil, false_imp_iff, implies_true, and_true]
    refine ⟨rfl, rfl, rfl, rfl, rfl, kept_arr (List.forall_mem_map.mpr fun b _ => ?_)⟩
    have h := b.toNat_lt
    exact kept_int (by omega) (by omega)
  | cubes records =>
    cases h
    exact kept_sceneUpdate topic _ (List.forall_mem_map.mpr fun c _ => kept_cube env c)
  | lines records =>
    cases h
    exact kept_sceneUpdate topic _ (List.forall_mem_map.mpr fun l _ => kept_line env l)
  | pose p =>
    cases h
    exact kept_sceneUpdate topic _ (List.forall_mem_singleton.mpr (kept_pose env p))
  | transform t =>
    obtain ⟨parentId, -, h⟩ := Option.bind_eq_some_iff.mp h
    obtain ⟨id, -, rfl⟩ := Option.map_eq_some_iff.mp h
    rfl
  | location l =>
    cases h
    refine kept_ofMembers ?_
    simp only [List.forall_mem_cons, List.not_mem_nil, false_imp_iff, implies_true, and_true]
    refine ⟨kept_ofMembers ?_, rfl, rfl, rfl, rfl, rfl, rfl⟩
    simp only [List.forall_mem_cons, List.not_mem_nil, false_imp_iff, implies_true, and_true]
    exact ⟨kept_u32 _, kept_u32 _⟩
  | float x =>
    cases h
    rfl
  | integer i =>
    cases h
    have hlow := i.le_toInt
    have hhigh := i.toInt_lt
    exact kept_ofMembers (List.forall_mem_singleton.mpr (kept_int (by omega) (by omega)))
  | boolean b =>
    cases h
    rfl

end Kept

end Foxdbg
