import Foxdbg.Registry
import Foxdbg.Lib.JsonText

/-!
# The bodies of the frames (`send_*` of `foxdbg_protocol.cpp`)

A sender copies the populated data of its channel to `raw_data_buffer` in a locked section and
encodes a body after it. `Sender` is one of the ten: the sizes it copies (`admits`), the body it
encodes from the memory it reads (`body`) and the lengths of the body it lets through (`fits`).
`senderOf` is the switch of `foxdbg_protocol_transmit_subscriptions`.

`send_image` has a second locked section, which copies the channel's info to `info_data_buffer`.
`encode_image_byte_array` is a list of stores to `encode_buffer` (`Writer`).

A parameter (`Env`) stands for floating-point numbers and for code outside the repository:

* functions on floats, as bits. The arithmetic that turns angles to a quaternion is in the source
  (`send_cubes`, `send_pose` and `send_transform`); it is not modelled;
* the string at an address (the frame ids of a transform are pointers). The JSON library throws on
  a null pointer;
* `tjCompress2`, a function of its parameters and of the pixels it reads.
-/

namespace Foxdbg

open Json

/-! ## Constants -/

/-- The bytes that libwebsockets takes before a message. -/
def lwsPre : Nat := 16

def sizeofRawDataBuffer : Nat := 10 * 1024 * 1024
def sizeofEncodeBuffer : Nat := 10 * 1024 * 1024
def sizeofInfoDataBuffer : Nat := 1024 * 1024
def sizeofTxBuffer : Nat := 1024 * 1024

/-- `pixelFormat` of `tjCompress2`. -/
inductive PixelFormat where
  | gray
  | rgb
  | rgba
  deriving DecidableEq

/-- The size of a pixel. -/
def PixelFormat.size : PixelFormat → Nat
  | .gray => 1
  | .rgb => 3
  | .rgba => 4

/-- Floating-point numbers and the code outside the repository (module doc). -/
structure Env extends FloatLib where
  /-- A `float` as a `double`. -/
  widen : UInt32 → UInt64
  /-- A `float` plus `M_PI / 2`. -/
  addHalfPi : UInt32 → UInt32
  /-- The quaternion of the angles pitch, roll and yaw, as x, y, z and w. -/
  quaternion : UInt32 → UInt32 → UInt32 → UInt32 × UInt32 × UInt32 × UInt32
  /-- The string at an address; `none`: a value made of it throws. -/
  cstr : UInt64 → Option Bytes
  /-- The JPEG image of `width * height` pixels; `none`: the compressor fails. -/
  tjCompress2 : Bytes → (width height : Int32) → PixelFormat → Option Bytes

/-- The memory that a sender reads after its locked sections. -/
structure Source where
  rawDataBuffer : Mem
  infoDataBuffer : Mem
  encodeBuffer : Mem
  /-- The memory at `data`, the pointer that `begin_read` gave. -/
  data : Mem
  /-- The size that the locked section copied. -/
  dataSize : Nat

/-- The result of a sender: its body and `encode_buffer` after it. -/
structure Encoded where
  body : Bytes
  encodeBuffer : Mem

/-- One of the ten senders (module doc). The outer `none` of `body` is an exception; with the
inner `none` the sender returns without a frame. -/
structure Sender where
  admits : Nat → Bool
  body : Env → Bytes → Source → Option (Option Encoded)
  fits : Nat → Bool

/-! ## JSON senders -/

/-- A sender that dumps a JSON value; it leaves `encode_buffer` alone. With `none` for the value, to
make it throws. -/
def Sender.ofJson (admits : Nat → Bool) (value : Env → Bytes → Source → Option Json)
    (fits : Nat → Bool) : Sender where
  admits n := decide (n ≤ sizeofRawDataBuffer) && admits n
  body env topic src :=
    ((value env topic src).bind (dump env.toFloatLib)).map fun text =>
      some ⟨text, src.encodeBuffer⟩
  fits := fits

/-- `tx_buffer_size >= size + LWS_PRE + 13` -/
def fitsGe (size : Nat) : Bool := size + lwsPre + 13 ≤ sizeofTxBuffer

/-- `size + LWS_PRE + 13 < sizeof(tx_buffer)` -/
def fitsLt (size : Nat) : Bool := size + lwsPre + 13 < sizeofTxBuffer

/-- A `float` in memory as a number. -/
def floatAt (env : Env) (m : Mem) (off : Nat) : Json := .float (env.widen (m.u32 off))

/-- A `foxdbg_vector3_t` in memory. -/
def vector3At (env : Env) (m : Mem) (off : Nat) : Json :=
  ofMembers [("x", floatAt env m off), ("y", floatAt env m (off + 4)),
    ("z", floatAt env m (off + 8))]

/-- A `foxdbg_color_t` in memory. -/
def colorAt (env : Env) (m : Mem) (off : Nat) : Json :=
  ofMembers [("r", floatAt env m off), ("g", floatAt env m (off + 4)),
    ("b", floatAt env m (off + 8)), ("a", floatAt env m (off + 12))]

def quaternionJson (env : Env) (q : UInt32 × UInt32 × UInt32 × UInt32) : Json :=
  let (qx, qy, qz, qw) := q
  ofMembers [("x", .float (env.widen qx)), ("y", .float (env.widen qy)),
    ("z", .float (env.widen qz)), ("w", .float (env.widen qw))]

/-- The quaternion of the angles in memory, with the yaw turned by 90 degrees. -/
def turnedAt (env : Env) (m : Mem) (off : Nat) : Json :=
  quaternionJson env
    (env.quaternion (m.u32 off) (m.u32 (off + 4)) (env.addHalfPi (m.u32 (off + 8))))

/-- `{"sec": 0, "nsec": 0}` -/
def timestamp : Json := ofMembers [("sec", .int 0), ("nsec", .int 0)]

/-- A double literal, as bits. -/
def zeroBits : UInt64 := 0
def oneBits : UInt64 := 0x3FF0000000000000
/-- 0.6 -/
def liftBits : UInt64 := 0x3FE3333333333333

/-- A field of a point: its name and its offset. The type 7 is `FLOAT32`. -/
def pointField (name : String) (offset : Int) : Json :=
  ofMembers [("name", lit name), ("offset", .int offset), ("type", .int 7)]

/-- `send_pointcloud`. It copies the data to `raw_data_buffer`, and then encodes from the pointer
that `begin_read` gave. -/
def sendPointcloud : Sender :=
  .ofJson (fun n => decide (0 < n) && n % sizeofVector4 == 0)
    (fun _ _ src => some (ofMembers
      [("timestamp", timestamp),
        ("frame_id", lit "world"),
        ("pose", ofMembers
          [("position", ofMembers
            [("x", .float zeroBits), ("y", .float zeroBits), ("z", .float liftBits)]),
            ("orientation", ofMembers
              [("x", .float zeroBits), ("y", .float zeroBits), ("z", .float zeroBits),
                ("w", .float oneBits)])]),
        ("point_stride", .int sizeofVector4),
        ("fields", .arr [pointField "x" 0, pointField "y" 4, pointField "z" 8,
          pointField "intensity" 12]),
        ("data", .arr ((src.data.read 0 src.dataSize).map fun b => .int b.toNat))]))
    fitsGe

/-- A scene update with one entity. -/
def sceneUpdate (topic : Bytes) (kind : String) (objects : List Json) : Json :=
  ofMembers [("entities", .arr [ofMembers
    [("frame_id", lit "world"), ("id", .str topic), ("timestamp", timestamp),
      (kind, .arr objects)]])]

/-- The object of the `foxdbg_cube_t` at `off`. -/
def cubeAt (env : Env) (m : Mem) (off : Nat) : Json :=
  ofMembers
    [("pose", ofMembers
      [("position", vector3At env m off), ("orientation", turnedAt env m (off + 24))]),
      ("size", vector3At env m (off + 12)), ("color", colorAt env m (off + 36))]

/-- `send_cubes`. -/
def sendCubes : Sender :=
  .ofJson (fun n => decide (0 < n) && n % sizeofCube == 0)
    (fun env topic src => some (sceneUpdate topic "cubes"
      ((List.range (src.dataSize / sizeofCube)).map fun i =>
        cubeAt env src.rawDataBuffer (i * sizeofCube))))
    fitsGe

/-- The object of the `foxdbg_line_t` at `off`. The type 2 is `LINE_LIST`. -/
def lineAt (env : Env) (m : Mem) (off : Nat) : Json :=
  ofMembers
    [("type", .int 2),
      ("pose", ofMembers
        [("position", ofMembers
          [("x", .float zeroBits), ("y", .float zeroBits), ("z", .float zeroBits)]),
          ("orientation", ofMembers
            [("x", .float zeroBits), ("y", .float zeroBits), ("z", .float zeroBits),
              ("w", .float oneBits)])]),
      ("thickness", floatAt env m (off + 40)), ("scale_invariant", .bool false),
      ("points", .arr [vector3At env m off, vector3At env m (off + 12)]),
      ("color", colorAt env m (off + 24))]

/-- `send_lines`. -/
def sendLines : Sender :=
  .ofJson (fun n => decide (0 < n) && n % sizeofLine == 0)
    (fun env topic src => some (sceneUpdate topic "lines"
      ((List.range (src.dataSize / sizeofLine)).map fun i =>
        lineAt env src.rawDataBuffer (i * sizeofLine))))
    fitsGe

/-- The arrow of the `foxdbg_pose_t` at the start of memory. The lengths are the floats 0.5, 0.05,
0.15 and 0.1. -/
def arrowAt (env : Env) (m : Mem) : Json :=
  ofMembers
    [("pose", ofMembers [("position", vector3At env m 0), ("orientation", turnedAt env m 12)]),
      ("shaft_length", .float (env.widen 0x3F000000)),
      ("shaft_diameter", .float (env.widen 0x3D4CCCCD)),
      ("head_length", .float (env.widen 0x3E19999A)),
      ("head_diameter", .float (env.widen 0x3DCCCCCD)),
      ("color", colorAt env m 24)]

/-- `send_pose`. -/
def sendPose : Sender :=
  .ofJson (fun n => n == sizeofPose)
    (fun env topic src => some (sceneUpdate topic "arrows" [arrowAt env src.rawDataBuffer]))
    fitsGe

/-- `send_transform`. The struct starts with the pointers to the ids of its two frames. -/
def sendTransform : Sender :=
  .ofJson (fun n => n == sizeofTransform)
    (fun env _ src =>
      let m := src.rawDataBuffer
      (env.cstr (m.u64 8)).bind fun parentId =>
        (env.cstr (m.u64 0)).map fun id =>
          ofMembers
            [("timestamp", timestamp),
              ("parent_frame_id", .str parentId),
              ("child_frame_id", .str id),
              ("translation", vector3At env m 16),
              ("rotation", quaternionJson env
                (env.quaternion (m.u32 28) (m.u32 32) (m.u32 36)))])
    fitsLt

/-- `send_location`. -/
def sendLocation : Sender :=
  .ofJson (fun n => n == sizeofLocation)
    (fun _ _ src =>
      let m := src.rawDataBuffer
      some (ofMembers
        [("timestamp", ofMembers
          [("sec", .int (m.u32 0).toNat), ("nsec", .int (m.u32 4).toNat)]),
          ("frame_id", lit "world"), ("latitude", .float (m.u64 8)),
          ("longitude", .float (m.u64 16)), ("altitude", .float (m.u64 24)),
          ("position_covariance", .arr (List.replicate 9 (.float zeroBits))),
          ("position_covariance_type", .int 0)]))
    fitsLt

/-- `send_float`. -/
def sendFloat : Sender :=
  .ofJson (fun n => n == sizeofFloat)
    (fun env _ src => some (ofMembers [("value", floatAt env src.rawDataBuffer 0)]))
    fitsLt

/-- `send_integer`. -/
def sendInteger : Sender :=
  .ofJson (fun n => n == sizeofInt)
    (fun _ _ src => some (ofMembers [("value", .int (src.rawDataBuffer.i32 0).toInt)]))
    fitsLt

/-- `send_bool`. -/
def sendBool : Sender :=
  .ofJson (fun n => n == sizeofBool)
    (fun _ _ src => some (ofMembers [("value", .bool (src.rawDataBuffer 0 != 0))]))
    fitsLt

/-! ## The image sender -/

/-- The stores that a function has made to a buffer, the last one first, and the index it writes
next. -/
structure Writer where
  stores : List (Nat × UInt8) := []
  bytesWritten : Nat := 0

namespace Writer

/-- `buffer_ptr[bytes_written++] = c` -/
def put (w : Writer) (c : UInt8) : Writer := ⟨(w.bytesWritten, c) :: w.stores, w.bytesWritten + 1⟩

def puts (w : Writer) (t : Bytes) : Writer := t.foldl put w

/-- `buffer_ptr[bytes_written] = '\0'` -/
def terminate (w : Writer) : Writer := { w with stores := (w.bytesWritten, 0) :: w.stores }

/-- `bytes_written += sprintf(buffer_ptr + bytes_written, ...)`: the text and a zero after it. -/
def sprintf (w : Writer) (t : Bytes) : Writer := (w.puts t).terminate

/-- The memory after the stores. -/
def apply (w : Writer) (m : Mem) : Mem := w.stores.foldr (fun s m => m.store s.1 s.2) m

end Writer

/-- The digits of a byte, as `encode_image_byte_array` writes them. -/
def byteDigits (b : UInt8) : Bytes :=
  if b ≥ 100 then [48 + b / 100, 48 + b / 10 % 10, 48 + b % 10]
  else if b ≥ 10 then [48 + b / 10, 48 + b % 10]
  else [48 + b]

/-- The loop over the image from its `i`-th byte on: the digits of each byte, and a comma if it is
not the last one. -/
def imageBytes (compressedSize : Nat) : Nat → Bytes → Writer → Writer
  | _, [], w => w
  | i, b :: r, w =>
    let w := w.puts (byteDigits b)
    let w := if i < compressedSize - 1 then w.put 44 else w
    imageBytes compressedSize (i + 1) r w

/-- `estimated_total_size` of `encode_image_byte_array`, in the arithmetic of `size_t`. -/
def estimatedTotalSize (compressedSize : Nat) : Nat :=
  let estimatedJsonOverhead := 100
  let estimatedDataSize := compressedSize * 4
  (estimatedJsonOverhead + estimatedDataSize + 10) % 2 ^ 64

/-- `encode_image_byte_array`. A buffer that the estimate finds too small gets no store, and
`bytes_written` is 0. -/
def encodeImageByteArray (txBufferSize : Nat) (width height components : Int32)
    (compressedImage : Bytes) : Writer :=
  let compressedSize := compressedImage.length
  if estimatedTotalSize compressedSize > txBufferSize then {}
  else
    let w : Writer := {}
    let w := w.sprintf (ascii "\x7b\"width\":" ++ dumpInteger width.toInt ++ ascii ",")
    let w := w.sprintf (ascii "\"height\":" ++ dumpInteger height.toInt ++ ascii ",")
    let w := w.sprintf (ascii "\"channels\":" ++ dumpInteger components.toInt ++ ascii ",")
    let w := w.sprintf (ascii "\"encoding\":\"jpeg\",")
    let w := w.sprintf (ascii "\"data\":[")
    let w := imageBytes compressedSize 0 compressedImage w
    ((w.put 93).put 125).terminate

/-- `foxdbg_image_info_t` in memory. -/
def infoWidth (m : Mem) : Int32 := m.i32 0
def infoHeight (m : Mem) : Int32 := m.i32 4
def infoChannels (m : Mem) : Int32 := m.i32 8

/-- The pixel format of a number of channels. -/
def pixelFormat (channels : Int32) : PixelFormat :=
  if channels = 1 then .gray
  else if channels = 3 then .rgb
  else if channels = 4 then .rgba
  else .rgb

/-- The bytes that `tjCompress2` reads, in exact integers: none of an image with no pixels. -/
def imageSize (info : Mem) : Nat :=
  (infoWidth info).toInt.toNat * (infoHeight info).toInt.toNat *
    (pixelFormat (infoChannels info)).size

/-- `send_image` after its locked sections. -/
def imageBody (env : Env) (_topic : Bytes) (src : Source) : Option (Option Encoded) :=
  let info := src.infoDataBuffer
  match env.tjCompress2 (src.rawDataBuffer.read 0 (imageSize info)) (infoWidth info)
      (infoHeight info) (pixelFormat (infoChannels info)) with
  | none => some none
  | some compressedImage =>
    let w := encodeImageByteArray sizeofEncodeBuffer (infoWidth info) (infoHeight info)
      (infoChannels info) compressedImage
    let encodeBuffer := w.apply src.encodeBuffer
    some (some ⟨encodeBuffer.read 0 w.bytesWritten, encodeBuffer⟩)

/-- `send_image`. -/
def sendImage : Sender where
  admits n := decide (n ≤ sizeofRawDataBuffer) && decide (0 < n)
  body := imageBody
  fits := fitsGe

/-- The switch of `foxdbg_protocol_transmit_subscriptions`. -/
def senderOf : ChannelType → Sender
  | .image => sendImage
  | .pointcloud => sendPointcloud
  | .cubes => sendCubes
  | .lines => sendLines
  | .transform => sendTransform
  | .location => sendLocation
  | .pose => sendPose
  | .float => sendFloat
  | .integer => sendInteger
  | .boolean => sendBool

/-- A stand-in for runs that do not depend on the parameter: the floats are 0, and a pointer that is
not null is to an empty string. The compressor fails on an image with no pixels and, as the
subsampling is 4:2:0, on gray pixels; it copies any other image. -/
def Env.standIn : Env where
  toChars _ := ascii "0.0"
  strtod _ := 0
  toInt _ := 0
  widen _ := 0
  addHalfPi x := x
  quaternion _ _ _ := (0, 0, 0, 0)
  cstr address := if address = 0 then none else some []
  tjCompress2 pixels width height pixelFormat :=
    if width ≤ 0 ∨ height ≤ 0 ∨ pixelFormat = .gray then none else some pixels

end Foxdbg
