import Foxdbg.Lib.Related
import Foxdbg.Session

/-!
# The advertise message

`foxdbg_protocol_connect` advertises the channels of that moment, in one message, if its text fits
`tx_buffer`. So what the client of a state knows is decided at the `established` of its session
(`advertised_since_connect`); a channel that is added later is not advertised to it.

The dump of the message throws only for a topic that is not valid UTF-8: the ids are numbers, and
the schemas are valid (`advertiseText_isSome`).
-/

namespace Foxdbg

open Json

variable {env : Env} {F : FloatLib} {s s₀ s₁ t : State} {l : Label} {w : Socket}
  {cs : List Channel} {ch : Channel} {infos : List Json}

/-! ## The infos of the channels -/

set_option maxRecDepth 20000 in
/-- The text of a schema is valid UTF-8. -/
theorem schemaText_valid (F : FloatLib) (type : ChannelType) :
    ∃ schema, type.schemaText F = some schema ∧ validUtf8 schema = true := by
  cases type
  case float => exact ⟨_, rfl, rfl⟩
  case integer => exact ⟨_, rfl, rfl⟩
  case boolean => exact ⟨_, rfl, rfl⟩
  all_goals exact ⟨[], rfl, rfl⟩

/-- The members of an info, in the order of their keys. -/
theorem channelInfo_eq (ch : Channel) (schema : Bytes) : channelInfo ch schema = .obj
    [(ascii "encoding", lit "json"), (ascii "id", .int ch.channelId.toInt),
      (ascii "schema", .str schema), (ascii "schemaName", lit ch.channelType.schemaName),
      (ascii "topic", .str ch.topicName)] := rfl

theorem advertiseJson_eq (infos : List Json) : advertiseJson infos = .obj
    [(ascii "channels", .arr infos), (ascii "op", lit "advertise")] := rfl

theorem schemaName_valid (type : ChannelType) : validUtf8 (ascii type.schemaName) = true := by
  refine validUtf8_ascii ?_
  cases type <;> simp [ChannelType.schemaName]

theorem utf8_channelInfo (ch : Channel) (schema : Bytes) :
    (channelInfo ch schema).utf8 = (validUtf8 ch.topicName && validUtf8 schema) := by
  have hkeys : ∀ k ∈ ["encoding", "id", "schema", "schemaName", "topic", "json"],
      validUtf8 (ascii k) = true := by simp [validUtf8_ascii]
  simp only [List.forall_mem_cons] at hkeys
  simp [channelInfo_eq, utf8, utf8Members, utf8Member, lit, schemaName_valid, hkeys, Bool.and_comm]

theorem utf8_advertiseJson (infos : List Json) : (advertiseJson infos).utf8 = utf8Items infos := by
  have hkeys : ∀ k ∈ ["channels", "op", "advertise"], validUtf8 (ascii k) = true := by
    simp [validUtf8_ascii]
  simp only [List.forall_mem_cons] at hkeys
  simp [advertiseJson_eq, utf8, utf8Members, utf8Member, lit, hkeys]

/-- The infos of the channels: one for each in their order, whose strings are valid if the topics
are. -/
structure Infos (F : FloatLib) (cs : List Channel) (infos : List Json) : Prop where
  eq_some : channelInfos F cs = some infos
  utf8 : utf8Items infos = cs.all fun ch => validUtf8 ch.topicName
  each : List.Forall₂ (fun ch info => ∃ schema, ch.channelType.schemaText F = some schema ∧
    info = channelInfo ch schema) cs infos

theorem exists_infos (F : FloatLib) (cs : List Channel) : ∃ infos, Infos F cs infos := by
  induction cs with
  | nil => exact ⟨[], rfl, rfl, .nil⟩
  | cons ch cs ih =>
    obtain ⟨infos, hinfos, hutf8, heach⟩ := ih
    obtain ⟨schema, hschema, hvalid⟩ := schemaText_valid F ch.channelType
    refine ⟨channelInfo ch schema :: infos, ?_, ?_, .cons ⟨schema, hschema, rfl⟩ heach⟩
    · unfold channelInfos at hinfos ⊢
      rw [List.mapM_cons, hinfos, hschema]
      rfl
    · rw [utf8Items, utf8_channelInfo, hvalid, hutf8, Bool.and_true, List.all_cons]

/-- The info of a channel is among them. -/
theorem Infos.mem (h : Infos F cs infos) (hch : ch ∈ cs) :
    ∃ schema, ch.channelType.schemaText F = some schema ∧ channelInfo ch schema ∈ infos := by
  obtain ⟨i, hi⟩ := List.mem_iff_getElem?.mp hch
  obtain ⟨info, hinfo, schema, hschema, rfl⟩ := h.each.getElem? hi
  exact ⟨schema, hschema, List.mem_of_getElem? hinfo⟩

theorem advertiseText_eq (h : channelInfos F cs = some infos) :
    State.advertiseText F cs = dump F (advertiseJson infos) := by
  rw [State.advertiseText, h]
  rfl

/-- The advertise message can be dumped exactly if the topics are valid UTF-8. -/
theorem advertiseText_isSome (F : FloatLib) (cs : List Channel) :
    (State.advertiseText F cs).isSome = cs.all fun ch => validUtf8 ch.topicName := by
  obtain ⟨infos, h⟩ := exists_infos F cs
  rw [advertiseText_eq h.eq_some, dump_isSome, utf8_advertiseJson, h.utf8]

/-- The infos do not tell who subscribed. -/
theorem channelInfos_opened (F : FloatLib) (s : State) (w : Socket) :
    channelInfos F (s.opened w).registry.channels = channelInfos F s.registry.channels := by
  rw [State.opened_channels]
  split
  · unfold channelInfos
    rw [List.mapM_map]
    rfl
  · rfl

/-! ## What the client knows -/

/-- Since its `established`, the socket was handed an advertise message with the info of the
channel: its id, topic and schema. -/
def Advertised (F : FloatLib) (tr : List Obs) (w : Socket) (ch : Channel) : Prop :=
  ∃ infos text schema, dump F (advertiseJson infos) = some text ∧ .text w text ∈ since w tr ∧
    ch.channelType.schemaText F = some schema ∧ channelInfo ch schema ∈ infos

/-- The text of the advertise message of these channels fits `tx_buffer`. -/
def AdvertiseFits (F : FloatLib) (cs : List Channel) : Prop :=
  ∀ text, State.advertiseText F cs = some text → text.length ≤ sizeofTxBuffer - lwsPre

/-- A list has no element with a property, or a last one. -/
theorem exists_last {α : Type} (p : α → Prop) (xs : List α) :
    (∀ x ∈ xs, ¬ p x) ∨ ∃ pre x post, xs = pre ++ x :: post ∧ p x ∧ ∀ y ∈ post, ¬ p y := by
  induction xs with
  | nil => exact .inl (by simp)
  | cons a xs ih =>
    obtain h | ⟨pre, x, post, rfl, hx, hpost⟩ := ih
    · by_cases ha : p a
      · exact .inr ⟨[], a, xs, rfl, ha, h⟩
      · exact .inl (List.forall_mem_cons.mpr ⟨ha, h⟩)
    · exact .inr ⟨a :: pre, x, post, rfl, hx, hpost⟩

/-- The label is an `established`. -/
def Establishes (l : Label) : Prop := ∃ w, l = .callback w .established

/-- Without an `established`, the client stays or leaves. -/
theorem client_step (hl : ¬ Establishes l) (h : s.step env l = some t) :
    t.client = s.client ∨ t.client = none := by
  have hf := (State.step_eq_some.mp h).2
  by_cases hc : ∃ w reason, l = .callback w reason
  · obtain ⟨w, reason, rfl⟩ := hc
    have hcs := callback_session hf
    cases reason with
    | established => exact absurd ⟨w, rfl⟩ hl
    | closed => exact .inr (Prod.mk.inj hcs).1
    | receive d => exact .inl (Prod.mk.inj hcs).1
    | serverWriteable => exact .inl (Prod.mk.inj hcs).1
  · exact .inl ((State.fire_outcome hf).session fun w reason e => hc ⟨w, reason, e⟩).1

/-- The client of a run with no `established` was the client at its start, and what it was handed
since its own `established` is still there. -/
theorem session_run {es : List Label} (hes : ∀ l ∈ es, ¬ Establishes l)
    (hr : (sys env).Reach s es t) (hc : t.client = some w) :
    s.client = some w ∧ ∀ o ∈ since w s.trace, o ∈ since w t.trace := by
  induction hr with
  | nil s => exact ⟨hc, fun _ ho => ho⟩
  | cons hs _ _ ih =>
    obtain ⟨hl, hes⟩ := List.forall_mem_cons.mp hes
    obtain ⟨hc₁, hsince⟩ := ih hes hc
    have hout := State.fire_outcome (State.step_eq_some.mp hs).2
    refine ⟨?_, fun o ho => hsince o (mem_since_step hout (fun e => hl ⟨w, e⟩) ho)⟩
    rcases client_step hl hs with h | h
    · rw [← h]; exact hc₁
    · rw [h] at hc₁; cases hc₁

/-- A crashed process has no further step. -/
theorem run_of_crashed {es : List Label} (hc : s.pc = .crashed) (hr : (sys env).Reach s es t) :
    t = s := by
  cases hr with
  | nil => rfl
  | cons hs => exact absurd hc (State.step_eq_some.mp hs).1

/-- What a socket has been handed at the end of the callback that establishes it. -/
theorem since_established (h : s₀.step env (.callback w .established) = some s₁) :
    ∃ info, dump env.toFloatLib serverInfo = some info ∧
      (State.advertiseText env.toFloatLib s₀.registry.channels = none ∧ s₁.pc = .crashed ∨
      ∃ text, State.advertiseText env.toFloatLib s₀.registry.channels = some text ∧
        s₁.pc = s₀.pc ∧ since w s₁.trace = State.texts w text ++ State.texts w info) := by
  obtain ⟨-, -, ht⟩ := State.fire_established.mp (State.step_eq_some.mp h).2
  generalize hu : (s₀.log (.event (.callback w .established))).openSocket w = u at ht
  have htr : u.trace = .event (.callback w .established) :: s₀.trace := by rw [← hu]; rfl
  have hcs : u.registry.channels = s₀.registry.channels := by rw [← hu]; rfl
  have hadvertise : State.advertiseText env.toFloatLib (u.opened w).registry.channels =
      State.advertiseText env.toFloatLib s₀.registry.channels := by
    unfold State.advertiseText
    rw [channelInfos_opened, hcs]
  have hpc : (u.opened w).pc = s₀.pc := by
    rw [State.opened_pc, ← hu]
    rfl
  obtain ⟨info, tx, hinfo, ⟨hnone, hconn⟩ | ⟨text, htext, hconn⟩⟩ := State.connect_cases env u w
  · exact ⟨info, hinfo, .inl ⟨hadvertise.symm.trans hnone, by rw [← ht, hconn]; rfl⟩⟩
  · have hquiet : ∀ text, ∀ o ∈ State.texts w text, o.establishes w = false := by
      intro text o ho
      unfold State.texts at ho
      split at ho
      · rw [List.mem_singleton.mp ho]
        rfl
      · cases ho
    have hstart : since w u.trace = [] := by
      rw [htr]
      simp [since, Obs.establishes]
    refine ⟨info, hinfo, .inr ⟨text, hadvertise.symm.trans htext, ?_, ?_⟩⟩
    · rw [← ht, hconn]
      exact hpc
    · rw [← ht, hconn]
      show since w (State.texts w text ++ (State.texts w info ++ u.trace)) = _
      rw [since_append (hquiet text), since_append (hquiet info), hstart, List.append_nil]

/-- The callback of the first client leaves the channels alone. -/
theorem channels_of_established (hc : s₀.client = none)
    (h : s₀.step env (.callback w .established) = some s₁) :
    s₁.registry.channels = s₀.registry.channels := by
  obtain ⟨-, -, ht⟩ := State.fire_established.mp (State.step_eq_some.mp h).2
  obtain ⟨tx, obs, pc, heq, -, -⟩ := State.established_eq env
    ((s₀.log (.event (.callback w .established))).openSocket w) w
  rw [← ht, heq]
  refine (State.opened_channels _ w).trans (if_neg ?_)
  rw [show ((s₀.log (.event (.callback w .established))).openSocket w).client = none from hc]
  exact Bool.false_ne_true

/-- The callback of a new socket hands it the advertise message, if its text fits. -/
theorem advertised_of_established (h : s₀.step env (.callback w .established) = some s₁)
    (hlive : s₁.pc ≠ .crashed) (hfit : AdvertiseFits env.toFloatLib s₀.registry.channels)
    (hch : ch ∈ s₀.registry.channels) : Advertised env.toFloatLib s₁.trace w ch := by
  obtain ⟨info, -, ⟨-, hcrash⟩ | ⟨text, htext, -, hsince⟩⟩ := since_established h
  · exact absurd hcrash hlive
  · obtain ⟨infos, hinfos⟩ := exists_infos env.toFloatLib s₀.registry.channels
    obtain ⟨schema, hschema, hin⟩ := hinfos.mem hch
    have hdump := (advertiseText_eq hinfos.eq_some).symm.trans htext
    refine ⟨infos, text, schema, hdump, ?_, hschema, hin⟩
    have htexts : State.texts w text = [.text w text] := if_pos (hfit text htext)
    rw [hsince, htexts]
    exact List.mem_cons_self

/-- It hands it no advertise message, if the text does not fit. -/
theorem dropped_of_established {text : Bytes} (h : s₀.step env (.callback w .established) = some s₁)
    (htext : State.advertiseText env.toFloatLib s₀.registry.channels = some text)
    (hbig : sizeofTxBuffer - lwsPre < text.length) {d : Bytes} (hd : .text w d ∈ since w s₁.trace) :
    dump env.toFloatLib serverInfo = some d := by
  obtain ⟨info, hinfo, ⟨hnone, -⟩ | ⟨text', htext', -, hsince⟩⟩ := since_established h
  · cases hnone.symm.trans htext
  · cases htext'.symm.trans htext
    have hdropped : State.texts w text = [] := if_neg (Nat.not_le.mpr hbig)
    rw [hsince, hdropped, List.nil_append] at hd
    unfold State.texts at hd
    split at hd
    · cases List.mem_singleton.mp hd
      exact hinfo
    · cases hd

/-- The last `established` of the run is the socket's, and the channels that were there then have
been advertised to it since, if the text of that message fits. -/
def AdvertisedSince (env : Env) (es : List Label) (s : State) (w : Socket) : Prop :=
  ∃ pre s₀ s₁ post, es = pre ++ .callback w .established :: post ∧
    (∀ l ∈ post, ¬ Establishes l) ∧ (sys env).Reach .init pre s₀ ∧
    s₀.step env (.callback w .established) = some s₁ ∧ (sys env).Reach s₁ post s ∧
    (AdvertiseFits env.toFloatLib s₀.registry.channels →
      ∀ ch ∈ s₀.registry.channels, Advertised env.toFloatLib s.trace w ch)

/-- **What the client knows.** In every state of the running process, the client has been told of
the channels that were there when it connected. -/
theorem advertised_since_connect {es : List Label} (hr : (sys env).Reach .init es s)
    (hc : s.client = some w) (hlive : s.pc ≠ .crashed) : AdvertisedSince env es s w := by
  obtain hnone | ⟨pre, l, post, rfl, ⟨v, rfl⟩, hpost⟩ := exists_last Establishes es
  · cases (session_run hnone hr hc).1
  · obtain ⟨s₀, hr₀, hrest⟩ := hr.split
    cases hrest with
    | @cons _ s₁ _ _ _ hs _ hr₁ =>
      obtain ⟨hc₁, hsince⟩ := session_run hpost hr₁ hc
      have hv : s₁.client = some v :=
        (Prod.mk.inj (callback_session (State.step_eq_some.mp hs).2)).1
      cases hv.symm.trans hc₁
      refine ⟨pre, s₀, s₁, post, rfl, hpost, hr₀, hs, hr₁, fun hfit ch hch => ?_⟩
      have hlive₁ : s₁.pc ≠ .crashed := fun h => hlive (by rw [run_of_crashed h hr₁]; exact h)
      obtain ⟨infos, text, schema, hd, ho, hrest⟩ := advertised_of_established hs hlive₁ hfit hch
      exact ⟨infos, text, schema, hd, hsince _ ho, hrest⟩

/-- A channel is added before the client connects. -/
def earlyRun : List Label :=
  [.addChannel (ascii "a") (some .boolean) 10 .zeroed, .callback 1 .established]

theorem early_channel : ∃ s, (sys .standIn).Reach .init earlyRun s ∧ s.registry.channels ≠ [] ∧
    AdvertisedSince .standIn earlyRun s 1 := by
  obtain ⟨s, hr, h⟩ := Lts.exists_reach (L := sys .standIn) (s := .init) earlyRun
    (p := fun s => s.client == some 1 && decide (s.pc ≠ .crashed) && !s.registry.channels.isEmpty)
    (by decide +kernel)
  simp only [Bool.and_eq_true, beq_iff_eq, decide_eq_true_eq, Bool.not_eq_true',
    List.isEmpty_eq_false_iff] at h
  exact ⟨s, hr, h.2, advertised_since_connect hr h.1.1 h.1.2⟩

/-! ## Channels that the client is not told of -/

/-- An advertise message is not shorter than the info of a channel in it. -/
theorem length_le_advertise {x : Json} {a text : Bytes} (hx : x ∈ infos) (ha : dump F x = some a)
    (h : dump F (advertiseJson infos) = some text) : a.length ≤ text.length := by
  obtain ⟨items, hitems⟩ : ∃ items, dump F (.arr infos) = some items := by
    rw [← Option.isSome_iff_exists, dump_isSome]
    have hutf8 := dump_isSome F (advertiseJson infos)
    rw [h, utf8_advertiseJson] at hutf8
    exact hutf8.symm
  rw [advertiseJson_eq] at h
  exact Nat.le_trans (length_le_dump_arr hx ha hitems)
    (length_le_dump_obj List.mem_cons_self hitems h)

/-- A socket that was handed only texts shorter than the info of a channel does not know it. -/
theorem not_advertised {tr : List Obs} {schema info : Bytes}
    (hschema : ch.channelType.schemaText F = some schema)
    (hinfo : dump F (channelInfo ch schema) = some info)
    (h : ∀ d, .text w d ∈ since w tr → d.length < info.length) : ¬ Advertised F tr w ch := by
  rintro ⟨infos, text, schema', hdump, hmem, hschema', hin⟩
  cases hschema.symm.trans hschema'
  exact Nat.not_lt.mpr (length_le_advertise hin hinfo hdump) (h text hmem)

/-- The info of a channel can be dumped if the topic is valid UTF-8. -/
theorem channelInfo_dumps {schema : Bytes} (hschema : ch.channelType.schemaText F = some schema)
    (htopic : validUtf8 ch.topicName = true) :
    ∃ info, dump F (channelInfo ch schema) = some info := by
  obtain ⟨schema', hschema', hutf8⟩ := schemaText_valid F ch.channelType
  cases hschema.symm.trans hschema'
  rw [← Option.isSome_iff_exists, dump_isSome, utf8_channelInfo, htopic, hutf8]
  rfl

/-- An info is not shorter than the topic in it. -/
theorem length_topic_le {schema info : Bytes} (h : dump F (channelInfo ch schema) = some info) :
    ch.topicName.length ≤ info.length := by
  have hutf8 := dump_isSome F (channelInfo ch schema)
  rw [h, utf8_channelInfo] at hutf8
  obtain ⟨topic, htopic⟩ : ∃ topic, dump F (.str ch.topicName) = some topic := by
    rw [← Option.isSome_iff_exists, dump_isSome]
    exact (Bool.and_eq_true_iff.mp hutf8.symm).1
  rw [channelInfo_eq] at h
  have hmem : (ascii "topic", Json.str ch.topicName) ∈
      [(ascii "encoding", lit "json"), (ascii "id", .int ch.channelId.toInt),
        (ascii "schema", .str schema), (ascii "schemaName", lit ch.channelType.schemaName),
        (ascii "topic", .str ch.topicName)] := by simp
  exact Nat.le_trans (length_le_dump_str htopic) (length_le_dump_obj hmem htopic h)

/-- A channel with a topic as large as `tx_buffer` is not advertised. -/
theorem not_advertised_of_large_topic {text : Bytes}
    (h : s₀.step env (.callback w .established) = some s₁)
    (htext : State.advertiseText env.toFloatLib s₀.registry.channels = some text)
    (hshort : ∀ d, dump env.toFloatLib serverInfo = some d → d.length < sizeofTxBuffer)
    (hch : ch ∈ s₀.registry.channels) (hbig : sizeofTxBuffer ≤ ch.topicName.length) :
    ¬ Advertised env.toFloatLib s₁.trace w ch := by
  obtain ⟨infos, hinfos⟩ := exists_infos env.toFloatLib s₀.registry.channels
  obtain ⟨schema, hschema, hin⟩ := hinfos.mem hch
  have hvalid : validUtf8 ch.topicName = true := by
    have hall := advertiseText_isSome env.toFloatLib s₀.registry.channels
    rw [htext] at hall
    exact List.all_eq_true.mp hall.symm ch hch
  obtain ⟨info, hinfo⟩ := channelInfo_dumps hschema hvalid
  have hlong : sizeofTxBuffer ≤ info.length := Nat.le_trans hbig (length_topic_le hinfo)
  have hdropped : sizeofTxBuffer - lwsPre < text.length := by
    have hlen := length_le_advertise hin hinfo
      ((advertiseText_eq hinfos.eq_some).symm.trans htext)
    have hpre : 0 < lwsPre ∧ lwsPre ≤ sizeofTxBuffer := by decide
    omega
  refine not_advertised hschema hinfo fun d hd => ?_
  exact Nat.lt_of_lt_of_le (hshort d (dropped_of_established h htext hdropped hd)) hlong

/-- A socket is the client, and has not been told of a channel. -/
def Unaware (env : Env) (es : List Label) (w : Socket) : Prop :=
  ∃ s ch, (sys env).Reach .init es s ∧ s.pc ≠ .crashed ∧ s.client = some w ∧
    ch ∈ s.registry.channels ∧ ¬ Advertised env.toFloatLib s.trace w ch

/-- A channel is added, and then a client connects. -/
def registerRun (topic : Bytes) : List Label :=
  [.addChannel topic (some .boolean) 10 .zeroed, .callback 1 .established]

theorem unaware_of_large_topic {topic : Bytes} (hvalid : validUtf8 topic = true)
    (hbig : sizeofTxBuffer ≤ topic.length) : Unaware .standIn (registerRun topic) 1 := by
  obtain ⟨s₀, ch, hadd, hchannels, htopic, hpc, hsockets, hclient⟩ : ∃ s₀ ch,
      State.init.step .standIn (.addChannel topic (some .boolean) 10 .zeroed) = some s₀ ∧
      s₀.registry.channels = [ch] ∧ ch.topicName = topic ∧ s₀.pc = .idle ∧ s₀.sockets = [] ∧
      s₀.client = none := ⟨_, _, rfl, rfl, rfl, rfl, rfl, rfl⟩
  have hclosed : 1 ∉ s₀.sockets := by simp [hsockets]
  obtain ⟨s₁, hs₁⟩ : ∃ s₁, s₀.step .standIn (.callback 1 .established) = some s₁ :=
    ⟨_, State.step_eq_some.mpr
      ⟨by rw [hpc]; nofun, State.fire_established.mpr ⟨hpc, hclosed, rfl⟩⟩⟩
  have hch : ch ∈ s₀.registry.channels := by simp [hchannels]
  obtain ⟨text, htext⟩ : ∃ text,
      State.advertiseText Env.standIn.toFloatLib s₀.registry.channels = some text := by
    rw [← Option.isSome_iff_exists, advertiseText_isSome, hchannels]
    simp [htopic, hvalid]
  have hshort : ∀ d, dump Env.standIn.toFloatLib serverInfo = some d →
      d.length < sizeofTxBuffer := by
    have hall : (dump Env.standIn.toFloatLib serverInfo).all (·.length < sizeofTxBuffer) := by
      decide +kernel
    intro d hd
    rw [hd] at hall
    exact of_decide_eq_true hall
  refine ⟨s₁, ch, .cons hadd trivial (.cons hs₁ trivial (.nil s₁)), ?_, ?_, ?_, ?_⟩
  · obtain ⟨-, -, ⟨hnone, -⟩ | ⟨-, -, hlive, -⟩⟩ := since_established hs₁
    · cases hnone.symm.trans htext
    · rw [hlive, hpc]
      nofun
  · exact (Prod.mk.inj (callback_session (State.step_eq_some.mp hs₁).2)).1
  · rw [channels_of_established hclient hs₁]
    exact hch
  · exact not_advertised_of_large_topic hs₁ htext hshort hch (htopic ▸ hbig)

/-- A channel is added after the client connected. -/
def lateRun : List Label :=
  [.callback 1 .established, .addChannel (ascii "a") (some .boolean) 10 .zeroed]

/-- A message shorter than this. -/
def Obs.textBelow (n : Nat) : Obs → Bool
  | .text _ d => d.length < n
  | _ => true

/-- A client is not told of a channel that is added after it connected, nor of one whose topic is
too large. -/
theorem late_channel : Unaware .standIn lateRun 1 ∧
    Unaware .standIn (registerRun (List.replicate sizeofTxBuffer 97)) 1 := by
  refine ⟨?_, unaware_of_large_topic (validUtf8_of_ascii ?_) ?_⟩
  · obtain ⟨s, hr, h⟩ := Lts.exists_reach (L := sys .standIn) (s := .init) lateRun
      (p := fun s => decide (s.pc ≠ .crashed) && s.client == some 1 &&
        s.registry.channels.any fun ch =>
          (ch.channelType.schemaText Env.standIn.toFloatLib).any fun schema =>
            (dump Env.standIn.toFloatLib (channelInfo ch schema)).any fun info =>
              (since 1 s.trace).all (·.textBelow info.length)) (by decide +kernel)
    simp only [Bool.and_eq_true, decide_eq_true_eq, beq_iff_eq, List.any_eq_true,
      Option.any_eq_true, List.all_eq_true] at h
    obtain ⟨⟨hlive, hc⟩, ch, hch, schema, hschema, info, hinfo, hall⟩ := h
    refine ⟨s, ch, hr, hlive, hc, hch, not_advertised hschema hinfo fun d hd => ?_⟩
    simpa [Obs.textBelow] using hall _ hd
  · intro b hb
    rw [List.eq_of_mem_replicate hb]
    decide
  · rw [List.length_replicate]

end Foxdbg
