import Foxdbg.Capacity
import Foxdbg.Handover
import Foxdbg.Routing
import Foxdbg.Snapshot

/-!
# Batches of records (`send_cubes`, `send_lines`)

The payload of a channel of cubes or lines is an array of structs. Its sender makes a scene update
with one entity, and one object in it for each struct. `Batch` is one of the two senders, and
`Batch.value` the value that it has to make for a list of records: no record is lost or cut, and a
batch goes out whole or not at all (`batch_sent_iff`).
-/

namespace Foxdbg

open Json Mem

/-! ## The structs -/

/-- `foxdbg_vector3_t`. A `float` is its bits. -/
structure Vector3 where
  x : UInt32
  y : UInt32
  z : UInt32

/-- `foxdbg_color_t`. -/
structure Color where
  r : UInt32
  g : UInt32
  b : UInt32
  a : UInt32

/-- `foxdbg_cube_t`. -/
structure Cube where
  position : Vector3
  size : Vector3
  orientation : Vector3
  color : Color

/-- `foxdbg_line_t`, from `start` to `end`. -/
structure Line where
  start : Vector3
  endPoint : Vector3
  color : Color
  thickness : UInt32

/-- The bytes of a `float`. -/
def floatBytes (x : UInt32) : Bytes := le x.toNat 4

def Vector3.bytes (v : Vector3) : Bytes := floatBytes v.x ++ (floatBytes v.y ++ floatBytes v.z)

def Color.bytes (c : Color) : Bytes :=
  floatBytes c.r ++ (floatBytes c.g ++ (floatBytes c.b ++ floatBytes c.a))

def Cube.bytes (c : Cube) : Bytes :=
  c.position.bytes ++ (c.size.bytes ++ (c.orientation.bytes ++ c.color.bytes))

def Line.bytes (l : Line) : Bytes :=
  l.start.bytes ++ (l.endPoint.bytes ++ (l.color.bytes ++ floatBytes l.thickness))

/-! ## Their objects -/

variable (env : Env)

def floatJson (x : UInt32) : Json := .float (env.widen x)

def Vector3.json (v : Vector3) : Json :=
  ofMembers [("x", floatJson env v.x), ("y", floatJson env v.y), ("z", floatJson env v.z)]

def Color.json (c : Color) : Json :=
  ofMembers [("r", floatJson env c.r), ("g", floatJson env c.g), ("b", floatJson env c.b),
    ("a", floatJson env c.a)]

/-- The position, the size and the color of a cube, and its orientation as a quaternion. -/
def Cube.json (c : Cube) : Json :=
  ofMembers
    [("pose", ofMembers
      [("position", c.position.json env),
        ("orientation", quaternionJson env (env.quaternion c.orientation.x c.orientation.y
          (env.addHalfPi c.orientation.z)))]),
      ("size", c.size.json env), ("color", c.color.json env)]

/-- The start, the end, the color and the thickness of a line; its pose is the origin. -/
def Line.json (l : Line) : Json :=
  ofMembers
    [("type", .int 2),
      ("pose", ofMembers
        [("position", ofMembers
          [("x", .float zeroBits), ("y", .float zeroBits), ("z", .float zeroBits)]),
          ("orientation", ofMembers
            [("x", .float zeroBits), ("y", .float zeroBits), ("z", .float zeroBits),
              ("w", .float oneBits)])]),
      ("thickness", floatJson env l.thickness), ("scale_invariant", .bool false),
      ("points", .arr [l.start.json env, l.endPoint.json env]),
      ("color", l.color.json env)]

variable {env} {m : Mem} {off : Nat}

theorem length_floatBytes (x : UInt32) : (floatBytes x).length = 4 := length_le _ _

theorem Vector3.length_bytes (v : Vector3) : v.bytes.length = 12 := by
  simp [Vector3.bytes, length_floatBytes]

theorem Color.length_bytes (c : Color) : c.bytes.length = 16 := by
  simp [Color.bytes, length_floatBytes]

theorem floatAt_of_has {x : UInt32} (h : m.Has off (floatBytes x)) :
    floatAt env m off = floatJson env x := by
  rw [floatAt, u32_of_has h]
  rfl

theorem vector3At_of_has {v : Vector3} (h : m.Has off v.bytes) :
    vector3At env m off = v.json env := by
  simp only [Vector3.bytes, has_append, length_floatBytes] at h
  obtain ⟨hx, hy, hz⟩ := h
  rw [vector3At, floatAt_of_has hx, floatAt_of_has hy, floatAt_of_has hz]
  rfl

theorem colorAt_of_has {c : Color} (h : m.Has off c.bytes) : colorAt env m off = c.json env := by
  simp only [Color.bytes, has_append, length_floatBytes] at h
  obtain ⟨hr, hg, hb, ha⟩ := h
  rw [colorAt, floatAt_of_has hr, floatAt_of_has hg, floatAt_of_has hb, floatAt_of_has ha]
  rfl

theorem turnedAt_of_has {v : Vector3} (h : m.Has off v.bytes) : turnedAt env m off =
    quaternionJson env (env.quaternion v.x v.y (env.addHalfPi v.z)) := by
  simp only [Vector3.bytes, has_append, length_floatBytes] at h
  obtain ⟨hx, hy, hz⟩ := h
  rw [turnedAt, u32_of_has hx, u32_of_has hy, u32_of_has hz]

theorem cubeAt_of_has {c : Cube} (h : m.Has off c.bytes) : cubeAt env m off = c.json env := by
  simp only [Cube.bytes, has_append, Vector3.length_bytes] at h
  obtain ⟨hposition, hsize, horientation, hcolor⟩ := h
  rw [cubeAt, vector3At_of_has hposition, vector3At_of_has hsize, turnedAt_of_has horientation,
    colorAt_of_has hcolor]
  rfl

theorem lineAt_of_has {l : Line} (h : m.Has off l.bytes) : lineAt env m off = l.json env := by
  simp only [Line.bytes, has_append, Vector3.length_bytes, Color.length_bytes] at h
  obtain ⟨hstart, hend, hcolor, hthickness⟩ := h
  rw [lineAt, vector3At_of_has hstart, vector3At_of_has hend, colorAt_of_has hcolor,
    floatAt_of_has hthickness]
  rfl

/-! ## Batches -/

/-- The two senders of batches. -/
inductive Batch where
  | cubes
  | lines

namespace Batch

/-- The struct of a batch. -/
def Record : Batch → Type
  | .cubes => Cube
  | .lines => Line

def channelType : Batch → ChannelType
  | .cubes => .cubes
  | .lines => .lines

def size : Batch → Nat
  | .cubes => sizeofCube
  | .lines => sizeofLine

/-- The key of the objects in the entity. -/
def key : Batch → String
  | .cubes => "cubes"
  | .lines => "lines"

def bytes : (b : Batch) → b.Record → Bytes
  | .cubes => Cube.bytes
  | .lines => Line.bytes

def object (env : Env) : (b : Batch) → b.Record → Json
  | .cubes => Cube.json env
  | .lines => Line.json env

/-- The object of the struct at `off`. -/
def objectAt (env : Env) : Batch → Mem → Nat → Json
  | .cubes => cubeAt env
  | .lines => lineAt env

/-- The value of a list of records: one entity, and one object for each record. -/
def value (b : Batch) (env : Env) (topic : Bytes) (records : List b.Record) : Json :=
  sceneUpdate topic b.key (records.map (b.object env))

variable {b : Batch} {topic : Bytes} {records : List b.Record}

theorem length_bytes (r : b.Record) : (b.bytes r).length = b.size := by
  cases b with
  | cubes => simp [bytes, Cube.bytes, Vector3.length_bytes, Color.length_bytes, size, sizeofCube]
  | lines =>
    simp [bytes, Line.bytes, Vector3.length_bytes, Color.length_bytes, length_floatBytes, size,
      sizeofLine]

theorem length_payload : (records.flatMap b.bytes).length = records.length * b.size := by
  simp [List.length_flatMap, length_bytes]

theorem size_pos (b : Batch) : 0 < b.size := by cases b <;> decide

theorem objectAt_of_has {r : b.Record} (h : m.Has off (b.bytes r)) :
    b.objectAt env m off = b.object env r := by
  cases b with
  | cubes => exact cubeAt_of_has h
  | lines => exact lineAt_of_has h

/-- The sender reads the objects struct by struct. -/
theorem senderOf_eq (b : Batch) : senderOf b.channelType =
    .ofJson (fun n => decide (0 < n) && n % b.size == 0)
      (fun env topic src => some (sceneUpdate topic b.key
        ((List.range (src.dataSize / b.size)).map fun i =>
          b.objectAt env src.rawDataBuffer (i * b.size))))
      fitsGe := by
  cases b <;> rfl

theorem admits_iff {n : Nat} : (senderOf b.channelType).admits n = true ↔
    n ≤ sizeofRawDataBuffer ∧ 0 < n ∧ b.size ∣ n := by
  rw [senderOf_eq]
  simp [Sender.ofJson, Nat.dvd_iff_mod_eq_zero]

/-- From the bytes of the records the sender makes their value. -/
theorem body_of_has (env : Env) (topic : Bytes) (src : Source)
    (hsize : src.dataSize = (records.flatMap b.bytes).length)
    (h : src.rawDataBuffer.Has 0 (records.flatMap b.bytes)) :
    (senderOf b.channelType).body env topic src =
      (dump env.toFloatLib (b.value env topic records)).map fun text =>
        some ⟨text, src.encodeBuffer⟩ := by
  have hcount : src.dataSize / b.size = records.length := by
    rw [hsize, length_payload, Nat.mul_div_cancel _ b.size_pos]
  have hobjects := map_range_of_has (f := b.objectAt env) (g := b.object env) b.length_bytes
    (fun r off h => objectAt_of_has h) h
  simp only [Nat.zero_add] at hobjects
  rw [senderOf_eq]
  show (dump env.toFloatLib (sceneUpdate topic b.key _)).map _ = _
  rw [hcount, hobjects]
  rfl

theorem utf8_object (r : b.Record) : (b.object env r).utf8 = true := by
  cases b with
  | cubes => exact rfl
  | lines => exact rfl

/-- The topic is the only string of a value that can be no valid UTF-8. -/
theorem utf8_value : (b.value env topic records).utf8 = validUtf8 topic := by
  have hobjects : utf8Items (records.map (b.object env)) = true := by
    induction records with
    | nil => rfl
    | cons r rs ih => rw [List.map_cons, utf8Items, utf8_object, ih, Bool.and_true]
  have hkeys : ∀ k ∈ ["entities", "cubes", "lines", "frame_id", "id", "timestamp", "world"],
      validUtf8 (ascii k) = true := by simp [validUtf8_ascii]
  simp only [List.forall_mem_cons] at hkeys
  have htimestamp : timestamp.utf8 = true := rfl
  cases b with
  | cubes =>
    have hvalue : value .cubes env topic records = .obj [(ascii "entities", .arr [.obj
        [(ascii "cubes", .arr (records.map (object env .cubes))), (ascii "frame_id", lit "world"),
          (ascii "id", .str topic), (ascii "timestamp", timestamp)]])] := rfl
    simp [hvalue, utf8, utf8Items, utf8Members, utf8Member, lit, hkeys, hobjects, htimestamp]
  | lines =>
    have hvalue : value .lines env topic records = .obj [(ascii "entities", .arr [.obj
        [(ascii "frame_id", lit "world"), (ascii "id", .str topic),
          (ascii "lines", .arr (records.map (object env .lines))),
          (ascii "timestamp", timestamp)]])] := rfl
    simp [hvalue, utf8, utf8Items, utf8Members, utf8Member, lit, hkeys, hobjects, htimestamp]

end Batch

/-! ## The iteration of a channel -/

section Iteration

variable {s s₁ s₂ s₃ s₄ s₅ t : State} {l : Label} {k : Nat} {now nsec : UInt64} {ch : Channel}

/-- No callback starts. -/
def NoCallback (_ : State) (l : Label) (_ : State) : Prop := ∀ w reason, l ≠ .callback w reason

/-- The steps from the `visit` of a channel up to its `encode`. -/
theorem Iteration.middle (h : Iteration env k now nsec s s₁ s₂ s₃ s₄ s₅ t) :
    ∃ es, (sys env).Run NoCallback s₁ es s₅ := by
  obtain ⟨es, hbetween₁⟩ := h.between₁
  obtain ⟨fs, hbetween₂⟩ := h.between₂
  have app : ∀ u l v, AppStep u l v → NoCallback u l v := by
    rintro u l v hl w reason rfl
    cases hl
  exact ⟨_, .cons h.visit nofun ((hbetween₁.mono app).append
    (.cons h.readInfo nofun (hbetween₂.mono app)))⟩

theorem client_run {es : List Label} (hr : (sys env).Run NoCallback s es t) :
    t.client = s.client :=
  hr.inv (I := fun u => u.client = s.client) (fun _ _ _ h hq hi =>
    ((State.fire_outcome (State.step_eq_some.mp h).2).session hq).1.trans hi) rfl

/-- At its `encode`, the sender of a channel that is no image has the job and the copy that the
`visit` made. -/
theorem Iteration.served (h : Iteration env k now nsec s s₁ s₂ s₃ s₄ s₅ t)
    (hch : s₁.registry.channels[k]? = some ch) (hty : ch.channelType ≠ .image) :
    s₅.pc = .encode k (State.isDue ch now) (ch.job now) ∧
      s₅.rawDataBuffer = (ch.job now).elim s₁.rawDataBuffer fun _ =>
        s₁.rawDataBuffer.copy 0 ch.dataBuffer.readSection := by
  have hvisit := h.visited
  rw [State.visit_some (s := s₁.log (.event (.visit now))) hch] at hvisit
  obtain ⟨es, hbetween₁⟩ := h.between₁
  obtain ⟨fs, hbetween₂⟩ := h.between₂
  have hpc₃ : s₃.pc = .readInfo k (State.isDue ch now) (ch.job now) := by
    rw [h.pc_between₁, ← hvisit]
  have hraw₃ : s₃.rawDataBuffer = (ch.job now).elim s₁.rawDataBuffer fun _ =>
      s₁.rawDataBuffer.copy 0 ch.dataBuffer.readSection := by
    rw [(app_run hbetween₁).2.1, ← hvisit]
    rfl
  obtain ⟨ch₃, hch₃, hstatic⟩ := channel_run (Lts.Run.cons h.visit trivial hbetween₁.reach) hch
  have hty₃ : ch₃.channelType ≠ .image := (static_eq hstatic).2.1 ▸ hty
  -- the info section of the other senders does nothing
  have hinfo : s₄ = { s₃.log (.event .readInfo) with
      pc := .encode k (State.isDue ch now) (ch.job now) } := by
    rcases State.fire_readInfo.mp (State.step_eq_some.mp h.readInfo).2 with
      ⟨k', due, hpc, rfl⟩ | ⟨k', due, job, hpc, rfl⟩
    · obtain ⟨rfl, rfl, hjob⟩ := Pc.readInfo.inj (hpc₃.symm.trans hpc)
      rw [hjob]
    · obtain ⟨rfl, rfl, hjob⟩ := Pc.readInfo.inj (hpc₃.symm.trans hpc)
      have hch₃' : (s₃.log (.event .readInfo)).registry.channels[k]? = some ch₃ := hch₃
      simp only [State.readInfo, hch₃', if_neg hty₃, hjob]
  constructor
  · rw [h.pc_between₂, hinfo]
  · rw [(app_run hbetween₂).2.1, hinfo]
    exact hraw₃

end Iteration

/-! ## Sent whole, or not at all -/

section Sent

variable {b : Batch} {k : Nat} {d : Bytes} {w : Socket} {now nsec : UInt64} {ch₀ ch : Channel}
  {s₀ s s₅ t : State} {l : Label}

/-- A write section with the payload `d` and no later one on the buffer, and then the iteration of
the channel in a pass in which it is due and the client has a subscription on it. -/
structure WriteAndPass (env : Env) (k : Nat) (d : Bytes) (w : Socket) (now nsec : UInt64)
    (ch₀ ch : Channel) (s₀ s s₅ t : State) : Prop where
  reach : ∃ es, (sys env).Reach .init es s₀
  channel₀ : s₀.registry.channels[k]? = some ch₀
  fits : d.length ≤ ch₀.dataBuffer.bufferSize
  write : ∃ u id s₁ es, s₀.registry.find .data id = some k ∧
    s₀.step env (.write u .data id d) = some s₁ ∧ (sys env).Run (Spares k .data) s₁ es s
  channel : s.registry.channels[k]? = some ch
  subscribed : ch.Subscribed
  client : s.client = some w
  due : State.isDue ch now = true
  pass : ∃ s₂ s₃ s₄, Iteration env k now nsec s s s₂ s₃ s₄ s₅ t

/-- An odd number of swap sections has run on the buffer since the write section (one, if no other
call was pending), or a read before it would have returned an equal payload. -/
def InFront (k : Nat) (d : Bytes) (ch₀ : Channel) (s₀ s : State) : Prop :=
  Odd (s₀.pendingOn k .data + 1 - s.pendingOn k .data) ∨ ch₀.dataBuffer.readSection = d

/-- The sender encodes these records and nothing else, and hands their value over in one frame, or
nothing if the frame is larger than `tx_buffer`. -/
structure Batch.Sent (b : Batch) (env : Env) (k : Nat) (ch : Channel) (w : Socket) (nsec : UInt64)
    (records : List b.Record) (s t : State) : Prop where
  built : ∃ due job ch', s.pc = .encode k due (some job) ∧ s.registry.channels[k]? = some ch' ∧
    s.rawDataBuffer.read 0 job.dataSize = records.flatMap b.bytes ∧
    (senderOf ch'.channelType).body env ch'.topicName (s.source ch' job) =
      (dump env.toFloatLib (b.value env ch.topicName records)).map fun text =>
        some ⟨text, s.encodeBuffer⟩
  handed : ∃ text, dump env.toFloatLib (b.value env ch.topicName records) = some text ∧
    t.trace =
      (if lwsPre + 13 + text.length ≤ sizeofTxBuffer then
        [.frame w ch.channelId (State.header ch.subscriptionId nsec ++ text)] else []) ++
      .event (.encode nsec) :: s.trace

/-- What a batch sender encodes for a frame is an accepted payload of one whole record or more. -/
def Batch.SendsWhole (b : Batch) (s : State) (l : Label) (t : State) : Prop :=
  ∀ w c f k due job ch, t.trace = .frame w c f :: .event l :: s.trace →
    s.pc = .encode k due (some job) → s.registry.channels[k]? = some ch →
    ch.channelType = b.channelType →
    ∃ p, Accepted s.trace k ch.dataBuffer.bufferSize p ∧
      s.rawDataBuffer.read 0 job.dataSize = p ∧ 0 < p.length ∧ b.size ∣ p.length

/-- The payload that the pass finds. -/
theorem WriteAndPass.front (h : WriteAndPass env k d w now nsec ch₀ ch s₀ s s₅ t) :
    ch.dataBuffer.readSection = d ↔ InFront k d ch₀ s₀ s := by
  obtain ⟨u, id, s₁, es, hfind, hstep, hrun⟩ := h.write
  have hbuf₀ := State.buffer?_data h.channel₀
  have hbuf := State.buffer?_data h.channel
  obtain ⟨m, buf, hbuf', hview, hm⟩ := hrun.inv
    (I := Flipped k .data (ch₀.dataBuffer.view.fill d) (s₀.pendingOn k .data + 1))
    (fun _ _ _ hs hq hi => hi.step hq hs) (flipped_of_write hbuf₀ hfind h.fits hstep)
  cases hbuf.symm.trans hbuf'
  have hflips : s₀.pendingOn k .data + 1 - s.pendingOn k .data = m := by omega
  rw [InFront, Buffer.readSection_eq, Buffer.readSection_eq, hview, hflips, Flip.front_flips_fill]

/-- The channel of the pass is the one of the write call. -/
theorem WriteAndPass.static (h : WriteAndPass env k d w now nsec ch₀ ch s₀ s s₅ t) :
    ch.static = ch₀.static := by
  obtain ⟨u, id, s₁, es, -, hstep, hrun⟩ := h.write
  obtain ⟨ch', hch', hstatic⟩ := channel_run (Lts.Run.cons hstep trivial hrun.reach) h.channel₀
  cases h.channel.symm.trans hch'
  exact hstatic

/-- A batch channel in front of whose buffer the payload is has a job for it. -/
theorem WriteAndPass.job {records : List b.Record} (hne : records ≠ [])
    (hty : ch₀.channelType = b.channelType)
    (h : WriteAndPass env k (records.flatMap b.bytes) w now nsec ch₀ ch s₀ s s₅ t)
    (hread : ch.dataBuffer.readSection = records.flatMap b.bytes) :
    ch.job now = some ⟨ch.dataBuffer.frontBuffer, (records.flatMap b.bytes).length, 0⟩ := by
  have hlength : ch.dataBuffer.frontBufferSize = (records.flatMap b.bytes).length := by
    rw [← hread, Buffer.length_readSection]
  have hcapacity : ch₀.dataBuffer.bufferSize = sizeofRawDataBuffer := by
    obtain ⟨es, hr⟩ := h.reach
    rw [sized hr ch₀ (List.mem_of_getElem? h.channel₀), hty]
    cases b <;> rfl
  have hpos : 0 < (records.flatMap b.bytes).length := by
    rw [Batch.length_payload]
    exact Nat.mul_pos (List.length_pos_iff.mpr hne) b.size_pos
  have hadmits : (senderOf ch.channelType).admits ch.dataBuffer.frontBufferSize = true := by
    rw [(static_eq h.static).2.1, hty, hlength, Batch.admits_iff, ← hcapacity]
    exact ⟨h.fits, hpos, by rw [Batch.length_payload]; exact Nat.dvd_mul_left ..⟩
  rw [← hlength]
  exact if_pos ⟨h.subscribed, h.due, hadmits⟩

theorem Batch.ne_image (b : Batch) : b.channelType ≠ .image := by cases b <;> nofun

/-- What is sent is what the pass finds in front. -/
theorem Batch.Sent.read {records : List b.Record} (hty : ch₀.channelType = b.channelType)
    (h : WriteAndPass env k (records.flatMap b.bytes) w now nsec ch₀ ch s₀ s s₅ t)
    (hsent : b.Sent env k ch w nsec records s₅ t) :
    ch.dataBuffer.readSection = records.flatMap b.bytes := by
  obtain ⟨due, job, ch', hpc, -, hread, -⟩ := hsent.built
  obtain ⟨s₂, s₃, s₄, hpass⟩ := h.pass
  have hty' : ch.channelType ≠ .image := by
    rw [(static_eq h.static).2.1, hty]
    exact b.ne_image
  obtain ⟨hpc₅, hraw⟩ := hpass.served h.channel hty'
  have hjob : ch.job now = some job := (Pc.encode.inj (hpc₅.symm.trans hpc)).2.2
  obtain ⟨-, -, -, rfl⟩ := Channel.job_some hjob
  rw [hraw, hjob] at hread
  replace hread : (s.rawDataBuffer.copy 0 ch.dataBuffer.readSection).read 0
      ch.dataBuffer.frontBufferSize = records.flatMap b.bytes := hread
  rwa [← Buffer.length_readSection, read_copy] at hread

/-- A batch sender and `send_buffer` have one limit. -/
theorem Batch.frames_eq (hty : ch.channelType = b.channelType) (hclient : s.client = some w)
    (text : Bytes) (nsec : UInt64) : s.frames ch text nsec =
      if lwsPre + 13 + text.length ≤ sizeofTxBuffer then
        [.frame w ch.channelId (State.header ch.subscriptionId nsec ++ text)] else [] := by
  have hfits : (senderOf ch.channelType).fits text.length = true ∧
      text.length + 13 + lwsPre ≤ sizeofTxBuffer ↔ lwsPre + 13 + text.length ≤ sizeofTxBuffer := by
    rw [hty, Batch.senderOf_eq]
    show fitsGe text.length = true ∧ _ ↔ _
    rw [fitsGe, decide_eq_true_iff]
    omega
  unfold State.frames
  rw [hclient]
  exact if_congr hfits rfl rfl

/-- A batch in front whose topic is valid is sent. -/
theorem Batch.sent_of_front {records : List b.Record} (hne : records ≠ [])
    (hty : ch₀.channelType = b.channelType)
    (h : WriteAndPass env k (records.flatMap b.bytes) w now nsec ch₀ ch s₀ s s₅ t)
    (hread : ch.dataBuffer.readSection = records.flatMap b.bytes)
    (hutf8 : validUtf8 ch.topicName = true) : b.Sent env k ch w nsec records s₅ t := by
  obtain ⟨s₂, s₃, s₄, hpass⟩ := h.pass
  obtain ⟨es, hmiddle⟩ := hpass.middle
  obtain ⟨ch₅, hch₅, hstatic⟩ := channel_run hmiddle h.channel
  obtain ⟨hid, hty₅, htopic, -⟩ := static_eq hstatic
  have hrow : ch₅.subscriptionId = ch.subscriptionId := by
    have hrows := (hpass.rows (State.table_of_channel h.channel)).2.2
    exact congrArg Prod.snd
      (Option.some.inj ((State.table_of_channel hch₅).symm.trans hrows))
  have hbatch : ch₅.channelType = b.channelType := by rw [hty₅, (static_eq h.static).2.1, hty]
  have hjob := h.job hne hty hread
  obtain ⟨hpc, hraw⟩ := hpass.served h.channel (by rw [← hty₅, hbatch]; exact b.ne_image)
  rw [hjob] at hpc hraw
  replace hraw : s₅.rawDataBuffer = s.rawDataBuffer.copy 0 (records.flatMap b.bytes) := by
    rw [hraw, ← hread]
    rfl
  have hhas : s₅.rawDataBuffer.Has 0 (records.flatMap b.bytes) := by
    rw [hraw]
    exact read_copy _ _ _
  have hbody := Batch.body_of_has env ch.topicName
    (s₅.source ch₅ ⟨ch.dataBuffer.frontBuffer, (records.flatMap b.bytes).length, 0⟩) rfl hhas
  rw [← hbatch, ← htopic] at hbody
  obtain ⟨text, htext⟩ : ∃ text, dump env.toFloatLib (b.value env ch.topicName records) =
      some text := by
    rw [← Option.isSome_iff_exists, dump_isSome, utf8_value]
    exact hutf8
  refine ⟨⟨_, _, ch₅, hpc, hch₅, hhas, htopic ▸ hbody⟩, text, htext, ?_⟩
  rw [← htopic] at htext
  rw [htext] at hbody
  rw [State.trace_of_encode hpass.encode hpc hch₅ hbody]
  have hclient : s₅.client = some w := (client_run hmiddle).trans h.client
  rw [Batch.frames_eq hbatch hclient, hid, hrow]

/-- Every batch sender sends whole records. -/
theorem Batch.sendsWhole_step (b : Batch) (hi : Copied s) : b.SendsWhole s l t := by
  intro w c f k due job ch _ hpc hch hty
  obtain ⟨ch', hch', hadm, haccepted⟩ := hi.serving k job (by rw [hpc]; rfl)
  cases hch.symm.trans hch'
  rw [hty, Batch.admits_iff] at hadm
  obtain ⟨-, hpos, hdvd⟩ := hadm
  exact ⟨_, haccepted, rfl, by rwa [length_read], by rwa [length_read]⟩

/-- **Batches.** A batch of at least one record that fits its buffer is sent whole at the next pass,
or not at all if the frame is too large, exactly if the topic is valid UTF-8 and the swap sections
have brought the payload to the front. In every run, the batch senders send whole records only. -/
theorem batch_sent_iff (b : Batch) (env : Env) :
    (∀ {k w now nsec ch₀ ch s₀ s s₅ t} (records : List b.Record), records ≠ [] →
      ch₀.channelType = b.channelType →
      WriteAndPass env k (records.flatMap b.bytes) w now nsec ch₀ ch s₀ s s₅ t →
      (b.Sent env k ch w nsec records s₅ t ↔
        validUtf8 ch.topicName = true ∧ InFront k (records.flatMap b.bytes) ch₀ s₀ s)) ∧
    ∀ es s, (sys env).Reach .init es s → (sys env).Run b.SendsWhole .init es s := by
  refine ⟨fun {k w now nsec ch₀ ch s₀ s s₅ t} records hne hty h => ?_, fun es s hr => ?_⟩
  · rw [← h.front]
    constructor
    · intro hsent
      refine ⟨?_, hsent.read hty h⟩
      obtain ⟨text, hdump, -⟩ := hsent.handed
      have hutf8 := dump_isSome env.toFloatLib (b.value env ch.topicName records)
      rw [hdump, Batch.utf8_value] at hutf8
      exact hutf8.symm
    · rintro ⟨hutf8, hread⟩
      exact b.sent_of_front hne hty h hread hutf8
  · exact hr.strengthen (I := Copied) (fun _ _ _ h _ hi => ⟨hi.step h, b.sendsWhole_step hi⟩) .init

/-- A cube of zeros. -/
def zeroCube : Cube := ⟨⟨0, 0, 0⟩, ⟨0, 0, 0⟩, ⟨0, 0, 0⟩, ⟨0, 0, 0, 0⟩⟩

/-- The payload of one cube. -/
def cubePayload : Bytes := [zeroCube].flatMap (Batch.bytes .cubes)

/-- A channel that the client subscribes. -/
def channelRun (type : ChannelType) (topic : Bytes) : List Label :=
  [.callback 1 .established, .addChannel topic (some type) 10 .zeroed,
    .callback 1 (.receive (subscribeText 5 0))]

/-- The tests of `WriteAndPass` for a channel of this type. -/
def passStep (type : ChannelType) (topic : Bytes) (s : State) (l : Label) (_ : State) : Bool :=
  match l with
  | .write _ _ id d => s.registry.find .data id == some 0 && s.pendingOn 0 .data == 0 &&
    (s.registry.channels[0]?).any fun ch =>
      decide (d.length ≤ ch.dataBuffer.bufferSize) && ch.channelType == type
  | .visit now => s.pc == .visit 0 && s.client == some 1 && s.pendingOn 0 .data == 0 &&
    (s.registry.channels[0]?).any fun ch =>
      decide ch.Subscribed && State.isDue ch now && ch.topicName == topic
  | _ => true

/-- A payload is written to the channel of `channelRun`, and passed. -/
theorem exists_passed (env : Env) (type : ChannelType) (topic d : Bytes)
    (h : ((sys env).exec (passStep type topic) .init (channelRun type topic ++
      .write 0 .data 0 d :: ([.swap 0, .callback 1 .serverWriteable] ++
        [.visit 1000, .readInfo]))).any (fun s => (s.step env (.encode 7)).isSome) = true) :
    ∃ ch₀ ch s₀ s s₅ t, WriteAndPass env 0 d 1 1000 7 ch₀ ch s₀ s s₅ t ∧
      ch₀.channelType = type ∧ ch.topicName = topic ∧ InFront 0 d ch₀ s₀ s ∧
      (sys env).Reach s [.visit 1000, .readInfo] s₅ := by
  obtain ⟨s₅, hr, hencode⟩ := Lts.exists_run (Q := fun s l t => passStep type topic s l t = true)
    _ (fun _ _ _ h => h) h
  obtain ⟨s₀, hr₀, hrest⟩ := hr.split
  cases hrest with
  | @cons _ s₁ _ _ _ hwrite hqw hrest =>
    obtain ⟨s, hbetween, hpass⟩ := hrest.split
    have hreach := hpass.reach
    cases hpass with
    | @cons _ s₂ _ _ _ hv hqv hpass =>
      cases hpass with
      | cons hi _ hnil =>
        cases hnil
        obtain ⟨t, ht⟩ := Option.isSome_iff_exists.mp hencode
        simp only [passStep, Bool.and_eq_true, beq_iff_eq, Option.any_eq_true,
          decide_eq_true_eq] at hqw hqv
        obtain ⟨⟨hfind, hpending₀⟩, ch₀, hch₀, hfits, hty⟩ := hqw
        obtain ⟨⟨⟨hpc, hclient⟩, hpending⟩, ch, hch, ⟨hsub, hdue⟩, htopic⟩ := hqv
        have hspares : (sys env).Run (Spares 0 .data) s₁
            [.swap 0, .callback 1 .serverWriteable] s := by
          refine hbetween.labels.mono fun s l t hl => ?_
          rintro u id d rfl
          simp at hl
        have hodd : InFront 0 d ch₀ s₀ s := by
          refine .inl ?_
          rw [hpending₀, hpending]
          exact odd_one
        exact ⟨ch₀, ch, s₀, s, _, t,
          { reach := ⟨_, hr₀.reach⟩
            channel₀ := hch₀
            fits := hfits
            write := ⟨0, 0, s₁, _, hfind, hwrite, hspares⟩
            channel := hch
            subscribed := hsub
            client := hclient
            due := hdue
            pass := ⟨s₂, s₂, s₅, ⟨[], .nil s⟩, hpc, hv, ⟨[], .nil s₂⟩, hi, ⟨[], .nil s₅⟩, ht⟩ },
          hty, htopic, hodd, hreach⟩

/-- A cube is sent whole. -/
theorem one_cube_sent : ∃ ch s₅ t, Batch.Sent .cubes .standIn 0 ch 1 7 [zeroCube] s₅ t := by
  obtain ⟨ch₀, ch, s₀, s, s₅, t, h, hty, htopic, hfront, -⟩ :=
    exists_passed .standIn .cubes (ascii "a") cubePayload (by decide +kernel)
  exact ⟨ch, s₅, t, ((batch_sent_iff .cubes .standIn).1 [zeroCube] (by simp) hty h).mpr
    ⟨by rw [htopic]; decide, hfront⟩⟩

/-- The first payload of a channel whose topic is no UTF-8 is not sent, though it would fit. -/
theorem invalid_topic_unsent : ∃ ch₀ ch s₀ s s₅ t,
    WriteAndPass .standIn 0 cubePayload 1 1000 7 ch₀ ch s₀ s s₅ t ∧
    ch₀.channelType = Batch.channelType .cubes ∧ InFront 0 cubePayload ch₀ s₀ s ∧
    ¬ Batch.Sent .cubes .standIn 0 ch 1 7 [zeroCube] s₅ t := by
  obtain ⟨ch₀, ch, s₀, s, s₅, t, h, hty, htopic, hfront, -⟩ :=
    exists_passed .standIn .cubes [0xFF] cubePayload (by decide +kernel)
  refine ⟨ch₀, ch, s₀, s, s₅, t, h, hty, hfront, fun hsent => ?_⟩
  obtain ⟨text, hdump, -⟩ := hsent.handed
  have hutf8 := dump_isSome Env.standIn.toFloatLib
    (Batch.value .cubes .standIn ch.topicName [zeroCube])
  rw [hdump, Batch.utf8_value, htopic] at hutf8
  have hinvalid : validUtf8 [0xFF] = false := by decide
  exact absurd (hutf8.trans hinvalid) (by simp)

end Sent

end Foxdbg
