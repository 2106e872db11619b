import Foxdbg.Documents
import Foxdbg.Lib.JsonDenotes
import Foxdbg.Lib.JsonSchema

/-!
# Bodies and the advertised schemas

`send_advertise` gives the channels of floats, integers and booleans a schema of its own: an object
with one member `value` of a JSON type. The bodies that the senders of these channels make are valid
under it, except for a float that is an infinity or a NaN, which the JSON library writes as `null`
(`conforming_iff`).
-/

namespace Foxdbg

open Json

variable {env : Env} {F : FloatLib} {s t : State} {l : Label} {type : ChannelType} {body : Bytes}

/-- The body reads as an object with a member `value`, and is valid under the schema that
`send_advertise` tells for the type. -/
def Conforms (F : FloatLib) (type : ChannelType) (body : Bytes) : Prop :=
  ∃ text schema j v, type.schemaText F = some text ∧ parse F text = some schema ∧
    parse F body = some j ∧ Valid schema j ∧ j.find? "value" = some v

/-! ## The schemas -/

/-- The text of a schema reads as the schema. -/
theorem writes_customSchema {title description type valueDescription : String}
    (htitle : Plain (ascii title)) (hdescription : Plain (ascii description))
    (htype : Plain (ascii type)) (hvalue : Plain (ascii valueDescription)) :
    ∃ text, Writes F (customSchema title description type valueDescription) text := by
  have hsub := writes_obj (F := F)
    [(ascii "description", _, lit valueDescription), (ascii "type", _, lit type)]
    (plain_keys rfl) rfl
    (List.forall_mem_cons.mpr
      ⟨writes_lit hvalue, List.forall_mem_singleton.mpr (writes_lit htype)⟩)
  have hproperties := writes_obj (F := F) [(ascii "value", _, _)] (plain_keys rfl) rfl
    (List.forall_mem_singleton.mpr hsub)
  have hschema := writes_obj (F := F)
    [(ascii "description", _, lit description), (ascii "properties", _, _),
      (ascii "title", _, lit title), (ascii "type", _, lit "object")]
    (plain_keys rfl) rfl
    (by
      simp only [List.forall_mem_cons, List.not_mem_nil, false_imp_iff, implies_true, and_true]
      exact ⟨writes_lit hdescription, hproperties, writes_lit htitle, writes_lit (by decide)⟩)
  exact ⟨_, hschema⟩

/-- A value is valid under the schema of a member `value` exactly if the member has its type. -/
theorem valid_customSchema {title description type valueDescription : String} {v : Json} :
    Valid (customSchema title description type valueDescription) (.obj [(ascii "value", v)]) ↔
      HasType (ascii type) v := by
  constructor
  · intro h
    exact (valid_of_type rfl rfl).mp (h.property (k := ascii "value") rfl List.mem_cons_self rfl)
  · intro h
    refine .intro (fun type' ht => ?_) fun properties k sub u hp hk hu => ?_
    · cases ht
      rfl
    · cases hp
      cases List.mem_singleton.mp hk
      cases hu
      exact (valid_of_type rfl rfl).mpr h

/-- The type that the schema of a channel type has for its member. -/
def ChannelType.valueType? : ChannelType → Option String
  | .float => some "number"
  | .integer => some "integer"
  | .boolean => some "boolean"
  | _ => none

/-- A body with one member conforms exactly if the member has the type. -/
theorem conforms_iff {type : ChannelType} {valueType : String} {text : Bytes} {v : Json}
    (htype : type.valueType? = some valueType) (hv : Denotes F text v) :
    Conforms F type (objectText [(quoted (ascii "value"), text)]) ↔
      HasType (ascii valueType) v := by
  have hbody := (Denotes.object [(ascii "value", text, v)] (plain_keys rfl)
    (List.forall_mem_singleton.mpr hv)).parse
  replace hbody : parse F (objectText [(quoted (ascii "value"), text)]) =
    some (.obj [(ascii "value", v)]) := hbody
  obtain ⟨title, description, valueDescription, hschema, hplain⟩ :
      ∃ title description valueDescription, type.customSchema? =
        some (customSchema title description valueType valueDescription) ∧
        (Plain (ascii title) ∧ Plain (ascii description) ∧ Plain (ascii valueType) ∧
          Plain (ascii valueDescription)) := by
    cases type <;> cases htype <;> exact ⟨_, _, _, rfl, by decide⟩
  obtain ⟨text', hdump, hden⟩ := writes_customSchema (F := F) hplain.1 hplain.2.1 hplain.2.2.1
    hplain.2.2.2
  have htext : type.schemaText F = some text' := by
    rw [ChannelType.schemaText, hschema]
    exact hdump
  constructor
  · rintro ⟨text, schema, j, -, ht, hs, hj, hvalid, -⟩
    cases htext.symm.trans ht
    cases hden.parse.symm.trans hs
    cases hbody.symm.trans hj
    exact valid_customSchema.mp hvalid
  · intro h
    exact ⟨text', _, _, v, htext, hden.parse, hbody, valid_customSchema.mpr h, rfl⟩

/-! ## The bodies -/

/-- The texts that the JSON library writes for finite doubles are numbers, and do not overflow when
they are read. -/
def ReadableTexts (F : FloatLib) : Prop :=
  ∀ bits, isFinite bits = true → IsNumber (F.toChars bits) ∧
    isFinite (F.strtod (F.toChars bits)) = true

/-- The text of a double is one of a number, or `null`. -/
theorem denotes_dumpFloat (hF : ReadableTexts F) (bits : UInt64) :
    ∃ v, Denotes F (dumpFloat F bits) v ∧ (HasType (ascii "number") v ↔ isFinite bits = true) := by
  unfold dumpFloat
  split
  · rename_i hfinite
    obtain ⟨v, hv, hden⟩ := exists_denotes_number (hF bits hfinite).1 (hF bits hfinite).2
    refine ⟨v, hden, ⟨fun _ => hfinite, fun _ => ?_⟩⟩
    cases v with
    | int i => exact .inr rfl
    | float b => rfl
    | _ => cases hv
  · rename_i hfinite
    exact ⟨.null, .null, ⟨fun h => absurd h (by decide), fun h => absurd h hfinite⟩⟩

/-- A sender of one value makes an object with one member. -/
theorem body_ofJson_value {admits fits : Nat → Bool} {value : Env → Bytes → Source → Option Json}
    {topic text : Bytes} {src : Source} {v : Json}
    (hvalue : value env topic src = some (ofMembers [("value", v)]))
    (hv : dump env.toFloatLib v = some text) :
    (Sender.ofJson admits value fits).body env topic src =
      some (some ⟨objectText [(quoted (ascii "value"), text)], src.encodeBuffer⟩) := by
  have hdump := dump_obj [(ascii "value", text, v)] (plain_keys rfl)
    (List.forall_mem_singleton.mpr hv)
  show ((value env topic src).bind (dump env.toFloatLib)).map _ = _
  rw [hvalue]
  exact congrArg (Option.map _) hdump

/-- The sender of a float, an integer or a boolean makes an object with one member, which has the
type in the schema unless it is a float that is not finite. -/
theorem body_valueType (hF : ReadableTexts env.toFloatLib) {valueType : String}
    (htype : type.valueType? = some valueType) (topic : Bytes) (src : Source) :
    ∃ text v, (senderOf type).body env topic src =
        some (some ⟨objectText [(quoted (ascii "value"), text)], src.encodeBuffer⟩) ∧
      Denotes env.toFloatLib text v ∧ (HasType (ascii valueType) v ↔
        (type = .float → isFinite (env.widen (src.rawDataBuffer.u32 0)) = true)) := by
  cases type with
  | float =>
    cases htype
    obtain ⟨v, hden, hv⟩ := denotes_dumpFloat hF (env.widen (src.rawDataBuffer.u32 0))
    exact ⟨_, v, body_ofJson_value rfl rfl, hden, by simpa using hv⟩
  | integer =>
    cases htype
    exact ⟨_, _, body_ofJson_value rfl rfl, denotes_int32 _, ⟨fun _ => nofun, fun _ => .inl rfl⟩⟩
  | boolean =>
    cases htype
    exact ⟨_, _, body_ofJson_value rfl rfl, .bool _, ⟨fun _ => nofun, fun _ => rfl⟩⟩
  | _ => cases htype

/-! ## Runs -/

/-- The frame of a step, if it is one of a channel with a custom schema, conforms to it. -/
def SendsConforming (env : Env) (s : State) (l : Label) (t : State) : Prop :=
  ∀ k due job ch w d, s.pc = .encode k due (some job) → s.registry.channels[k]? = some ch →
    ch.channelType.customSchema?.isSome = true →
    t.trace = .frame w ch.channelId d :: .event l :: s.trace →
    Conforms env.toFloatLib ch.channelType (d.drop 13)

/-- A float that a step encodes for a client is finite. -/
def EncodesFinite (env : Env) (s : State) (l : Label) (_ : State) : Prop :=
  ∀ nsec k due job ch, l = .encode nsec → s.pc = .encode k due (some job) →
    s.registry.channels[k]? = some ch → ch.channelType = .float → s.client ≠ none →
    isFinite (env.widen (s.rawDataBuffer.u32 0)) = true

theorem exists_valueType {type : ChannelType} (h : type.customSchema?.isSome = true) :
    ∃ valueType, type.valueType? = some valueType := by
  cases type <;> first | exact ⟨_, rfl⟩ | cases h

theorem State.drop_header (id : Int32) (nsec : UInt64) (body : Bytes) :
    (header id nsec ++ body).drop 13 = body := List.drop_left' (length_header id nsec)

/-- A step that encodes no infinity and no NaN sends a body that conforms. -/
theorem SendsConforming.of_finite (hF : ReadableTexts env.toFloatLib) (hq : EncodesFinite env s l t)
    (h : s.step env l = some t) : SendsConforming env s l t := by
  intro k due job ch w d hpc hch hcustom htrace
  obtain ⟨valueType, htype⟩ := exists_valueType hcustom
  obtain hold | ⟨nsec, k', job', ch', e, rfl, hjob, hch', hw, hbody, -, rfl, -⟩ :=
    State.step_frame h ⟨[], htrace.symm⟩
  · exact absurd hold.length_le (by rw [List.length_cons, List.length_cons]; omega)
  · rw [hpc] at hjob
    cases hjob
    cases hch.symm.trans hch'
    obtain ⟨text, v, hbody', hden, hv⟩ :=
      body_valueType hF htype ch.topicName (s.source ch job)
    cases hbody.symm.trans hbody'
    rw [State.drop_header]
    exact (conforms_iff htype hden).mpr
      (hv.mpr fun hty => hq nsec k due job ch rfl hpc hch hty (by simp [hw]))

/-- The frame of an infinity or a NaN does not conform. -/
theorem SendsConforming.finite (hq : SendsConforming env s l t) (h : s.step env l = some t) :
    EncodesFinite env s l t := by
  rintro nsec k due job ch rfl hpc hch hty hclient
  obtain ⟨w, hw⟩ := Option.ne_none_iff_exists'.mp hclient
  have htype : ch.channelType.valueType? = some "number" := by rw [hty]; rfl
  by_contra hfinite
  have hdump : dump env.toFloatLib (floatAt env s.rawDataBuffer 0) = some (ascii "null") :=
    congrArg some (if_neg hfinite)
  have hbody : (senderOf ch.channelType).body env ch.topicName (s.source ch job) =
      some (some ⟨objectText [(quoted (ascii "value"), ascii "null")], s.encodeBuffer⟩) := by
    rw [hty]
    exact body_ofJson_value rfl hdump
  have hfits : (senderOf ch.channelType).fits
      (objectText [(quoted (ascii "value"), ascii "null")]).length = true := by
    rw [hty]
    decide
  have hsent := State.trace_of_encode h hpc hch hbody
  rw [State.frames_of_fits hw hfits (by decide)] at hsent
  have hconforms := hq k due job ch w _ hpc hch (by rw [hty]; rfl) hsent
  rw [State.drop_header] at hconforms
  exact absurd ((conforms_iff htype .null).mp hconforms) (by decide)

/-- **Advertised schemas.** In a run, every body of a float, an integer or a boolean channel is
valid under the schema of the channel exactly if no float that is encoded for a client is an
infinity or a NaN. -/
theorem conforming_iff (hF : ReadableTexts env.toFloatLib) (es : List Label) (s : State) :
    (sys env).Run (SendsConforming env) .init es s ↔
      (sys env).Run (EncodesFinite env) .init es s := by
  constructor
  · intro h
    exact h.strengthen (I := fun _ => True)
      (fun _ _ _ hs hq _ => ⟨trivial, hq.finite hs⟩) trivial
  · intro h
    exact h.strengthen (I := fun _ => True)
      (fun _ _ _ hs hq _ => ⟨trivial, .of_finite hF hq hs⟩) trivial

/-- A subscribed float with this payload, and a pass up to its encoder. -/
def floatRun (payload : Bytes) : List Label :=
  [.addChannel (ascii "a") (some .float) 10 .zeroed, .callback 1 .established,
    .callback 1 (.receive (subscribeText 5 0))] ++
  writeCall .data 0 payload ++ [.callback 1 .serverWriteable, .visit 200, .readInfo]

theorem readableTexts_standIn : ReadableTexts Env.standIn.toFloatLib := by
  have hzero : isFinite 0 = true := by decide
  exact fun bits h => ⟨numberTexts_standIn bits h, hzero⟩

/-- The check of the runs of `conforming_iff`. -/
def encodesFinite (env : Env) (s : State) (_ : Label) (_ : State) : Bool :=
  isFinite (env.widen (s.rawDataBuffer.u32 0))

/-- The frame of a float conforms. -/
theorem finite_float_conforms : ∃ s,
    (sys .standIn).Run (SendsConforming .standIn) .init (floatRun [0, 0, 0, 0] ++ [.encode 0]) s ∧
    s.trace.any Obs.isFrame = true := by
  obtain ⟨s, hr, h⟩ := Lts.exists_run (L := sys .standIn) (s := .init)
    (floatRun [0, 0, 0, 0] ++ [.encode 0]) (Q := EncodesFinite .standIn)
    (q := encodesFinite .standIn) (p := fun s => s.trace.any Obs.isFrame)
    (fun s l t h nsec k due job ch _ _ _ _ _ => h) (by decide +kernel)
  exact ⟨s, (conforming_iff readableTexts_standIn _ s).mpr hr, h⟩

/-- A program with the infinity of floats. -/
def Env.infinity : Env := { Env.standIn with
  widen := fun x => if x = 0x7F800000 then 0x7FF0000000000000 else 0 }

/-- The server is at the encoder of an infinity for a client. -/
def atInfinity (s : State) : Bool :=
  match s.pc with
  | .encode k _ (some _) =>
    s.client.isSome && s.rawDataBuffer.u32 0 == 0x7F800000 &&
      (s.registry.channels[k]?).any fun ch => ch.channelType == .float
  | _ => false

/-- The body of an infinity is not valid under the schema of its channel. -/
theorem infinity_not_conforming : ∃ s,
    (sys .infinity).Reach .init (floatRun [0x00, 0x00, 0x80, 0x7F] ++ [.encode 0]) s ∧
    ¬ (sys .infinity).Run (SendsConforming .infinity) .init
      (floatRun [0x00, 0x00, 0x80, 0x7F] ++ [.encode 0]) s := by
  obtain ⟨s, hr, h⟩ := Lts.exists_reach (L := sys .infinity) (s := .init)
    (floatRun [0x00, 0x00, 0x80, 0x7F]) (p := atInfinity) (by decide +kernel)
  unfold atInfinity at h
  split at h
  · rename_i k due job hpc
    simp only [Bool.and_eq_true, beq_iff_eq, Option.any_eq_true] at h
    obtain ⟨⟨hclient, hbits⟩, ch, hch, hty⟩ := h
    obtain ⟨t, ht⟩ : ∃ t, s.step .infinity (.encode 0) = some t := State.exists_encode hpc 0
    refine ⟨t, hr.snoc ht trivial, fun hrun => ?_⟩
    obtain ⟨s', hr', hlast⟩ := hrun.split
    cases hr'.det hr
    cases hlast with
    | cons hs hq _ =>
      have hfinite := hq.finite hs 0 k due job ch rfl hpc hch hty
        (Option.isSome_iff_ne_none.mp hclient)
      rw [hbits] at hfinite
      exact absurd hfinite (by decide)
  · cases h

end Foxdbg
