import Foxdbg.Advertise
import Foxdbg.Ids
import Foxdbg.Lib.JsonRoundTrip
import Foxdbg.Lib.JsonUtf8

/-!
# The messages of a session

`foxdbg_protocol_connect` hands a new socket the server's info and the list of the channels as two
texts, and what follows are frames. The client parses the texts, looks up a topic in the list and
subscribes to its id.

* `conversation`: after an `established` that returns, a socket has got, in this order, the server's
  info, the list of the channels of that moment exactly if its text fits `tx_buffer`, and then
  frames only. The texts are valid UTF-8, and their parse gives the info and the list.
* `subscribe_advertised`: if a list that a socket got has a topic, then a subscribe message for the
  id in the list subscribes the first channel with this topic, and no other.
-/

namespace Foxdbg

open Json

variable {env : Env} {F : FloatLib} {s t : State} {l : Label} {w : Socket} {tr : List Obs}
  {cs cs' : List Channel} {infos : List Json} {d : Bytes}

/-- A message to a socket. -/
def Obs.sentTo (w : Socket) : Obs → Bool
  | .text v _ => v == w
  | .frame v _ _ => v == w
  | _ => false

/-- What a socket got since its `established`, newest first. -/
def messages (w : Socket) (tr : List Obs) : List Obs := (since w tr).filter (Obs.sentTo w)

/-- The text is the info of the server. -/
def Greets (F : FloatLib) (d : Bytes) : Prop := validUtf8 d = true ∧ parse F d = some serverInfo

/-- The text lists the channels. -/
def Lists (F : FloatLib) (cs : List Channel) (d : Bytes) : Prop :=
  validUtf8 d = true ∧ ∃ infos, channelInfos F cs = some infos ∧
    parse F d = some (advertiseJson infos)

/-- The messages of a session that was opened when the server had these channels, newest first: the
info of the server, the list of the channels exactly if its text fits `tx_buffer`, and frames. -/
def Conversation (F : FloatLib) (cs : List Channel) (w : Socket) (obs : List Obs) : Prop :=
  ∃ frames info text, obs = frames ++
      ((if text.length ≤ sizeofTxBuffer - lwsPre then [.text w text] else []) ++
        [.text w info]) ∧
    (∀ o ∈ frames, o.isFrame = true) ∧ Greets F info ∧
    State.advertiseText F cs = some text ∧ Lists F cs text

/-! ## The two texts -/

/-- The text of a value that the library holds, and in which no double is infinite or a NaN. -/
theorem read_dump (hF : RoundTrips F) {j : Json} (h : dump F j = some d) (hk : j.kept = true)
    (hsame : j.reread = j) : validUtf8 d = true ∧ parse F d = some j := by
  have hparse := parse_dump hF h hk
  rw [hsame] at hparse
  exact ⟨(isValue_dump (fun _ hfinite => hF.isNumber hfinite) _ _ h).isUtf8.valid, hparse⟩

theorem greets_serverInfo (hF : RoundTrips F) (h : dump F serverInfo = some d) : Greets F d :=
  read_dump hF h (by decide +kernel) rfl

theorem kept_channelInfo (ch : Channel) (schema : Bytes) : (channelInfo ch schema).kept = true := by
  have hlow := ch.channelId.le_toInt
  have hhigh := ch.channelId.toInt_lt
  refine kept_ofMembers ?_
  simp only [List.forall_mem_cons, List.not_mem_nil, false_imp_iff, implies_true, and_true]
  exact ⟨kept_int (by omega) (by omega), rfl, rfl, rfl, rfl⟩

theorem lists_advertiseText (hF : RoundTrips F) (h : State.advertiseText F cs = some d) :
    Lists F cs d := by
  obtain ⟨infos, hinfos⟩ := exists_infos F cs
  rw [advertiseText_eq hinfos.eq_some] at h
  have hmem : ∀ info ∈ infos, ∃ ch schema, info = channelInfo ch schema := by
    intro info hinfo
    obtain ⟨i, hi⟩ := List.mem_iff_getElem?.mp hinfo
    obtain ⟨ch, -, schema, -, heq⟩ := hinfos.each.flip.getElem? hi
    exact ⟨ch, schema, heq⟩
  have hk : (advertiseJson infos).kept = true := by
    refine kept_ofMembers ?_
    simp only [List.forall_mem_cons, List.not_mem_nil, false_imp_iff, implies_true, and_true]
    refine ⟨rfl, kept_arr fun info hinfo => ?_⟩
    obtain ⟨ch, schema, rfl⟩ := hmem info hinfo
    exact kept_channelInfo ch schema
  have hsame : (advertiseJson infos).reread = advertiseJson infos := by
    have hitems : rereadItems infos = infos := by
      rw [rereadItems_eq]
      refine List.map_congr_left (fun info hinfo => ?_) |>.trans (List.map_id infos)
      obtain ⟨ch, schema, rfl⟩ := hmem info hinfo
      rfl
    rw [advertiseJson_eq, reread, rereadMembers, rereadMember, reread, hitems]
    rfl
  obtain ⟨hvalid, hparse⟩ := read_dump hF h hk hsame
  exact ⟨hvalid, infos, hinfos.eq_some, hparse⟩

/-- The infos depend on what the channels keep. -/
theorem channelInfos_of_static (h : cs.map Channel.static = cs'.map Channel.static) :
    channelInfos F cs = channelInfos F cs' := by
  unfold channelInfos
  induction cs generalizing cs' with
  | nil =>
    rw [List.map_eq_nil_iff.mp h.symm]
  | cons ch cs ih =>
    obtain ⟨ch', cs', rfl, hstatic, hrest⟩ := List.map_eq_cons_iff.mp h.symm
    obtain ⟨hid, hty, htopic, -⟩ := static_eq hstatic.symm
    rw [List.mapM_cons, List.mapM_cons, ih hrest.symm]
    unfold channelInfo
    rw [hid, hty, htopic]

/-- A list of the first channels stays one. -/
theorem Lists.mono {n : Nat} (h : Lists F (cs.take n) d)
    (hpre : cs.map Channel.static <+: cs'.map Channel.static) :
    Lists F (cs'.take (min n cs.length)) d := by
  obtain ⟨hvalid, infos, hinfos, hparse⟩ := h
  refine ⟨hvalid, infos, ?_, hparse⟩
  rw [← hinfos]
  refine channelInfos_of_static ?_
  obtain ⟨rest, hrest⟩ := hpre
  rw [List.map_take, List.map_take, ← hrest,
    List.take_append_of_le_length (by rw [List.length_map]; exact Nat.min_le_right ..),
    List.take_eq_take_iff]
  simp

/-! ## The order of the messages -/

set_option maxRecDepth 20000 in
/-- The info fits `tx_buffer`. -/
theorem texts_serverInfo {info : Bytes} (h : dump F serverInfo = some info) :
    State.texts w info = [.text w info] := by
  obtain ⟨info', hinfo', hsize⟩ : ∃ info', dump F serverInfo = some info' ∧
      info'.length ≤ sizeofTxBuffer - lwsPre := ⟨_, rfl, by decide⟩
  cases hinfo'.symm.trans h
  exact if_pos hsize

/-- What the `established` of a socket adds to the trace: the info, and the list of the channels if
its text fits; or the info alone, if the text of the list throws. -/
theorem trace_established (h : s.step env (.callback w .established) = some t) :
    ∃ info, dump env.toFloatLib serverInfo = some info ∧
      ((t.pc = .crashed ∧
        t.trace = .text w info :: .event (.callback w .established) :: s.trace) ∨
      ∃ text, State.advertiseText env.toFloatLib s.registry.channels = some text ∧
        t.trace = State.texts w text ++
          .text w info :: .event (.callback w .established) :: s.trace) := by
  obtain ⟨-, -, ht⟩ := State.fire_established.mp (State.step_eq_some.mp h).2
  generalize hu : (s.log (.event (.callback w .established))).openSocket w = u at ht
  have htr : u.trace = .event (.callback w .established) :: s.trace := by rw [← hu]; rfl
  have hcs : u.registry.channels = s.registry.channels := by rw [← hu]; rfl
  obtain ⟨info, tx, hinfo, ⟨-, hconn⟩ | ⟨text, htext, hconn⟩⟩ := State.connect_cases env u w
  · refine ⟨info, hinfo, .inl ⟨by rw [← ht, hconn]; rfl, ?_⟩⟩
    rw [← ht, hconn, ← htr]
    exact congrArg (· ++ _) (texts_serverInfo hinfo)
  · rw [State.advertiseText, channelInfos_opened, hcs] at htext
    refine ⟨info, hinfo, .inr ⟨text, htext, ?_⟩⟩
    rw [← ht, hconn, ← htr]
    exact congrArg (State.texts w text ++ ·) (congrArg (· ++ _) (texts_serverInfo hinfo))

theorem messages_append {obs : List Obs} (h : ∀ o ∈ obs, o.establishes w = false) :
    messages w (obs ++ tr) = obs.filter (Obs.sentTo w) ++ messages w tr := by
  rw [messages, since_append h, List.filter_append]
  rfl

theorem messages_cons {o : Obs} (h : o.establishes w = false) :
    messages w (o :: tr) = if o.sentTo w then o :: messages w tr else messages w tr := by
  have hone : messages w ([o] ++ tr) = [o].filter (Obs.sentTo w) ++ messages w tr :=
    messages_append (List.forall_mem_singleton.mpr h)
  rw [List.singleton_append, List.filter_singleton] at hone
  rw [hone]
  cases o.sentTo w <;> rfl

theorem messages_log (h : (Obs.event l).establishes w = false) :
    messages w (.event l :: tr) = messages w tr :=
  (messages_cons h).trans (if_neg Bool.false_ne_true)

/-- A step that does not establish a socket hands it nothing, or one frame if it is the client. -/
theorem messages_step (h : s.step env l = some t) (hl : l ≠ .callback w .established) :
    messages w t.trace = messages w s.trace ∨
      s.client = some w ∧ ∃ c d, messages w t.trace = .frame w c d :: messages w s.trace := by
  have hf := (State.step_eq_some.mp h).2
  obtain ⟨obs, htr, hobs⟩ := (State.fire_outcome hf).trace
  have hevent : (Obs.event l).establishes w = false := by
    cases l with
    | callback v reason =>
      cases reason with
      | established => exact beq_false_of_ne fun hv => hl (by rw [hv])
      | _ => rfl
    | _ => rfl
  have hlogged : messages w (s.log (.event l)).trace = messages w s.trace := messages_log hevent
  by_cases hencode : ∃ nsec, l = .encode nsec
  · obtain ⟨nsec, rfl⟩ := hencode
    obtain hsame | ⟨k, due, job, ch, e, v, -, -, hv, -, hframe⟩ := State.encode_trace hf
    · exact .inl (by rw [hsame, hlogged])
    · by_cases hvw : v = w
      · subst hvw
        refine .inr ⟨hv, ch.channelId, State.header ch.subscriptionId nsec ++ e.body, ?_⟩
        rw [hframe, messages_cons rfl, hlogged]
        exact if_pos (beq_self_eq_true v)
      · refine .inl ?_
        rw [hframe, messages_cons rfl, hlogged]
        exact if_neg fun heq => hvw (eq_of_beq heq)
  · have hquiet : ∀ o ∈ obs, ¬ o.sentTo w = true := by
      intro o ho
      have hfrom := hobs o ho
      cases o with
      | event l' => nofun
      | called => nofun
      | wrote => nofun
      | text v d =>
        cases hfrom
        exact fun heq => hl (by rw [eq_of_beq heq])
      | frame v c d =>
        obtain ⟨nsec, rfl⟩ := hfrom
        exact absurd ⟨nsec, rfl⟩ hencode
    refine .inl ?_
    rw [htr, messages_append fun o ho => (hobs o ho).establishes_eq,
      List.filter_eq_nil_iff.mpr hquiet, hlogged]
    rfl

theorem texts_cases (w : Socket) (text : Bytes) :
    State.texts w text = [] ∨ State.texts w text = [.text w text] := by
  unfold State.texts
  split
  · exact .inr rfl
  · exact .inl rfl

/-- The `established` of a socket opens its session. -/
theorem messages_established (h : s.step env (.callback w .established) = some t) :
    ∃ info, dump env.toFloatLib serverInfo = some info ∧
      ((t.pc = .crashed ∧ messages w t.trace = [.text w info]) ∨
      ∃ text, State.advertiseText env.toFloatLib s.registry.channels = some text ∧
        messages w t.trace = State.texts w text ++ [.text w info]) := by
  obtain ⟨info, hinfo, htr⟩ := trace_established h
  have hstart : messages w (.text w info :: .event (.callback w .established) :: s.trace) =
      [.text w info] := by
    simp [messages, since, Obs.establishes, Obs.sentTo]
  refine ⟨info, hinfo, ?_⟩
  obtain ⟨hpc, htr⟩ | ⟨text, htext, htr⟩ := htr
  · exact .inl ⟨hpc, by rw [htr, hstart]⟩
  · refine .inr ⟨text, htext, ?_⟩
    rw [htr]
    obtain hnone | hone := texts_cases w text
    · rw [hnone]
      exact hstart
    · rw [hone, List.singleton_append, messages_cons rfl, hstart]
      exact if_pos (beq_self_eq_true w)

/-- **Sessions.** After an `established` that returns, and up to the next one of the socket, what
the socket has got is the server's info, the list of the channels of that moment exactly if its text
fits, and frames, in this order. -/
theorem conversation (hF : RoundTrips env.toFloatLib) {s₀ s₁ : State} {es : List Label}
    (h : s₀.step env (.callback w .established) = some s₁) (hret : s₁.pc ≠ .crashed)
    (hr : (sys env).Run (fun _ l _ => l ≠ .callback w .established) s₁ es s) :
    Conversation env.toFloatLib s₀.registry.channels w (messages w s.trace) := by
  refine hr.inv (I := fun s =>
    Conversation env.toFloatLib s₀.registry.channels w (messages w s.trace))
    (fun s l t hstep hl hi => ?_) ?_
  · obtain hsame | ⟨-, c, d, hframe⟩ := messages_step hstep hl
    · rw [hsame]
      exact hi
    · obtain ⟨frames, info, text, heq, hframes, hrest⟩ := hi
      refine ⟨.frame w c d :: frames, info, text, by rw [hframe, heq]; rfl, ?_, hrest⟩
      exact List.forall_mem_cons.mpr ⟨rfl, hframes⟩
  · obtain ⟨info, hinfo, ⟨hpc, -⟩ | ⟨text, htext, hmessages⟩⟩ := messages_established h
    · exact absurd hpc hret
    · exact ⟨[], info, text, hmessages, nofun, greets_serverInfo hF hinfo, htext,
        lists_advertiseText hF htext⟩

/-- Each text that a socket got since its `established` is the info of the server, or lists the
first channels of the registry. -/
def Told (env : Env) (s : State) : Prop :=
  ∀ w d, .text w d ∈ messages w s.trace →
    Greets env.toFloatLib d ∨ ∃ n, Lists env.toFloatLib (s.registry.channels.take n) d

theorem Told.step (hF : RoundTrips env.toFloatLib) (h : s.step env l = some t)
    (hi : Told env s) : Told env t := by
  have hpre := (State.fire_outcome (State.step_eq_some.mp h).2).channels.static
  intro w d hd
  have old : .text w d ∈ messages w s.trace →
      Greets env.toFloatLib d ∨ ∃ n, Lists env.toFloatLib (t.registry.channels.take n) d :=
    fun hd => (hi w d hd).imp_right fun ⟨n, hlists⟩ => ⟨_, hlists.mono hpre⟩
  by_cases hl : l = .callback w .established
  · subst hl
    obtain ⟨info, hinfo, hmessages⟩ := messages_established h
    obtain ⟨-, hmessages⟩ | ⟨text, htext, hmessages⟩ := hmessages
    · rw [hmessages, List.mem_singleton] at hd
      cases hd
      exact .inl (greets_serverInfo hF hinfo)
    · rw [hmessages, List.mem_append, List.mem_singleton] at hd
      obtain hd | hd := hd
      · obtain hnone | hone := texts_cases w text
        · rw [hnone] at hd
          cases hd
        · rw [hone, List.mem_singleton] at hd
          cases hd
          have hlists := lists_advertiseText hF htext
          rw [← List.take_length (l := s.registry.channels)] at hlists
          exact .inr ⟨_, hlists.mono hpre⟩
      · cases hd
        exact .inl (greets_serverInfo hF hinfo)
  · obtain hsame | ⟨-, c, f, hframe⟩ := messages_step h hl
    · exact old (hsame ▸ hd)
    · rw [hframe] at hd
      exact old ((List.mem_cons.mp hd).resolve_left (by rintro ⟨⟩))

theorem told (hF : RoundTrips env.toFloatLib) {es : List Label} (hr : (sys env).Reach .init es s) :
    Told env s :=
  hr.inv (fun _ _ _ h _ hi => hi.step hF h) fun _ _ hd => by cases hd

/-! ## Looking up a topic -/

/-- The info of a list is about a channel with the topic. -/
def isAbout (topic : Bytes) (info : Json) : Bool :=
  (info.find? "topic").any fun
    | .str name => name == topic
    | _ => false

/-- What a client looks up in a message: the id of the first info about a topic. -/
def advertisedId (j : Json) (topic : Bytes) : Option Json :=
  ((entries "advertise" "channels" j).find? (isAbout topic)).bind (·.find? "id")

/-- A list gives the id of the first channel with the topic. -/
theorem advertisedId_list (h : channelInfos F cs = some infos) (topic : Bytes) :
    advertisedId (advertiseJson infos) topic =
      (cs.find? fun ch => ch.topicName == topic).map fun ch => .int ch.channelId.toInt := by
  obtain ⟨infos', hinfos⟩ := exists_infos F cs
  cases h.symm.trans hinfos.eq_some
  have heach := hinfos.each
  have hentries : entries "advertise" "channels" (advertiseJson infos) = infos := rfl
  rw [advertisedId, hentries]
  clear h hinfos hentries
  induction heach with
  | nil => rfl
  | cons hinfo _ ih =>
    obtain ⟨schema, -, rfl⟩ := hinfo
    have habout : ∀ ch : Channel, isAbout topic (channelInfo ch schema) =
        (ch.topicName == topic) := fun _ => rfl
    rw [List.find?_cons, List.find?_cons, habout]
    cases (_ : Channel).topicName == topic with
    | true => rfl
    | false => exact ih

/-- **Subscriptions.** If the look-up of a topic in a text that a socket got since its `established`
finds an id (that of the first entry; a topic can have several), then this is the id of the first
channel with the topic, and a subscribe message for it subscribes this channel and changes nothing
else. -/
theorem subscribe_advertised (hF : RoundTrips env.toFloatLib) {es : List Label}
    (hr : (sys env).Reach .init es s) (hshort : s.registry.channels.length < 2 ^ 31)
    (hd : .text w d ∈ messages w s.trace) {j : Json} (hj : parse env.toFloatLib d = some j)
    {topic : Bytes} {c : Json} (hc : advertisedId j topic = some c) (id : Int32) :
    ∃ i ch, s.registry.channels[i]? = some ch ∧ c = .int ch.channelId.toInt ∧
      s.registry.channels.findIdx? (fun ch => ch.topicName == topic) = some i ∧
      s.receive env (subscribeText id.toInt ch.channelId.toInt) =
        .ok (s.setChannels (s.registry.channels.modify i (Channel.setSubscription id))) := by
  obtain ⟨n, -, infos, hinfos, hparse⟩ :
      ∃ n, Lists env.toFloatLib (s.registry.channels.take n) d := by
    refine (told hF hr w d hd).resolve_left fun hgreet => ?_
    cases hj.symm.trans hgreet.2
    cases hc
  cases hj.symm.trans hparse
  rw [advertisedId_list hinfos, Option.map_eq_some_iff] at hc
  obtain ⟨ch, hfind, rfl⟩ := hc
  obtain ⟨htopic, i, hi, hch, hbefore⟩ := List.find?_eq_some_iff_getElem.mp hfind
  rw [List.length_take] at hi
  rw [List.getElem_take] at hch
  have hlt : i < s.registry.channels.length := by omega
  have hplace := List.getElem?_eq_getElem hlt
  rw [hch] at hplace
  refine ⟨i, ch, hplace, rfl, ?_, ?_⟩
  · refine List.findIdx?_eq_some_iff_getElem.mpr ⟨hlt, by rw [hch]; exact htopic, ?_⟩
    intro i' hi'
    have hne := hbefore i' hi'
    rw [List.getElem_take] at hne
    simpa using hne
  · refine receive_subscribeText env ?_
    have hnum := numbered_run hr
    have hid := hnum.toInt_channelId hshort hplace
    have hselect := hnum.findData_eq_place hshort ch.channelId
    rw [Registry.findData, Registry.place, hid, if_pos (by omega)] at hselect
    rw [hselect]
    simp

/-! ## A session -/

/-- A stand-in whose doubles are written as numbers and read back. -/
def Env.indexed : Env := { Env.standIn with toFloatLib := Json.indexed }

/-- Two channels. -/
def twoTopicsRun : List Label :=
  [.addChannel (ascii "a") (some .pose) 10 .zeroed,
    .addChannel (ascii "b") (some .cubes) 10 .zeroed]

/-- Two channels, a client, and a third channel that the client is not told of. -/
def greetedRun : List Label :=
  twoTopicsRun ++ [.callback 1 .established, .addChannel (ascii "c") (some .lines) 10 .zeroed]

/-- The client connects, and gets the info and the list of the two channels. -/
theorem greeted_conversation : ∃ s₀ s₁ s, (sys .indexed).Reach .init twoTopicsRun s₀ ∧
    s₀.step .indexed (.callback 1 .established) = some s₁ ∧
    s₁.step .indexed (.addChannel (ascii "c") (some .lines) 10 .zeroed) = some s ∧
    (messages 1 s.trace).length = 2 ∧
    Conversation Env.indexed.toFloatLib s₀.registry.channels 1 (messages 1 s.trace) := by
  obtain ⟨s₀, hr, h⟩ := Lts.exists_reach (L := sys .indexed) (s := .init) twoTopicsRun
    (p := fun s₀ => (s₀.step .indexed (.callback 1 .established)).any fun s₁ =>
      s₁.pc != .crashed &&
      (s₁.step .indexed (.addChannel (ascii "c") (some .lines) 10 .zeroed)).any fun s =>
        (messages 1 s.trace).length == 2) (by decide +kernel)
  simp only [Option.any_eq_true, Bool.and_eq_true, bne_iff_ne, beq_iff_eq] at h
  obtain ⟨s₁, h₁, hlive, s, hadd, hlength⟩ := h
  exact ⟨s₀, s₁, s, hr, h₁, hadd, hlength,
    conversation roundTrips_indexed h₁ hlive (.cons hadd (by rintro ⟨⟩) (.nil s))⟩

/-- What a text message says about a topic. -/
def Obs.advertisedId? (F : FloatLib) (topic : Bytes) : Obs → Option Json
  | .text _ d => (parse F d).bind (advertisedId · topic)
  | _ => none

/-- The client subscribes to the second channel by its topic. -/
theorem greeted_subscribes : ∃ s ch, (sys .indexed).Reach .init greetedRun s ∧
    s.registry.channels[1]? = some ch ∧ ch.topicName = ascii "b" ∧
    s.receive .indexed (subscribeText (5 : Int32).toInt ch.channelId.toInt) =
      .ok (s.setChannels (s.registry.channels.modify 1 (Channel.setSubscription 5))) := by
  obtain ⟨s, hr, h⟩ := Lts.exists_reach (L := sys .indexed) (s := .init) greetedRun
    (p := fun s => s.registry.channels.length == 3 &&
      s.registry.channels.findIdx? (fun ch => ch.topicName == ascii "b") == some 1 &&
      (messages 1 s.trace).any fun o =>
        (o.advertisedId? Env.indexed.toFloatLib (ascii "b")).isSome) (by decide +kernel)
  simp only [Bool.and_eq_true, beq_iff_eq, List.any_eq_true] at h
  obtain ⟨⟨hlength, hfind⟩, o, ho, hsome⟩ := h
  obtain ⟨c, hc⟩ := Option.isSome_iff_exists.mp hsome
  have hsent := List.of_mem_filter ho
  cases o with
  | text w d =>
    obtain ⟨j, hj, hid⟩ := Option.bind_eq_some_iff.mp hc
    cases eq_of_beq hsent
    obtain ⟨i, ch, hch, -, hi, hreceive⟩ :=
      subscribe_advertised roundTrips_indexed hr (by omega) ho hj hid 5
    cases hi.symm.trans hfind
    obtain ⟨hlt, htopic, -⟩ := List.findIdx?_eq_some_iff_getElem.mp hfind
    rw [(List.getElem?_eq_some_iff.mp hch).2] at htopic
    exact ⟨s, ch, hr, hch, eq_of_beq htopic, hreceive⟩
  | event => cases hc
  | called => cases hc
  | wrote => cases hc
  | frame => cases hc

end Foxdbg
