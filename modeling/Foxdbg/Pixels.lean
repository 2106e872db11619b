import Foxdbg.Steps

/-!
# The pixels that the compressor reads

`send_image` passes `raw_data_buffer` to `tjCompress2`, which reads as many bytes as the width, the
height and the pixel format in `info_data_buffer` make (`imageSize`). Nothing compares this with the
size of the data that was copied, and the info section copies an info of any size over what
`info_data_buffer` held.

The data and the info come through two buffers. `written` is what the write calls of the application
have made of one of them, section by section: a call of `send_image` copies what was written in
front of the data buffer when it was called, and what was written in front of the info buffer when
it came to its info section (`written_eq`). The compressor stays within the frame exactly if the two
match in every call (`WritesMatch`, `pixels_within_iff`), where a short info leaves the rest to the
info that `info_data_buffer` had before the call.
-/

namespace Foxdbg

/-- `send_image` is at its call of `tjCompress2`, and its data section copied `dataSize` bytes. -/
def Compressing (s : State) (dataSize : Nat) : Prop :=
  ∃ k due job ch, s.pc = .encode k due (some job) ∧ s.registry.channels[k]? = some ch ∧
    ch.channelType = .image ∧ job.dataSize = dataSize

/-- With positive dimensions, the compressor reads no more than was copied. -/
def WithinFrame (s : State) : Prop :=
  ∀ dataSize, Compressing s dataSize → 0 < infoWidth s.infoDataBuffer →
    0 < infoHeight s.infoDataBuffer → imageSize s.infoDataBuffer ≤ dataSize

/-- The compressor stays within the frame before and after the step. -/
def KeepsFrame (s : State) (_ : Label) (t : State) : Prop := WithinFrame s ∧ WithinFrame t

/-! ## What the application has written -/

/-- What a step does to a buffer: its channel is added, or a section of a write call runs. -/
inductive BufferEvent where
  | added (buf : Option Buffer)
  | wrote (d : Bytes)
  | swapped

/-- The buffer after the event. -/
def BufferEvent.apply (kind : BufferKind) (buf : Option Buffer) : BufferEvent → Option Buffer
  | .added new => new
  | .wrote d => buf.map (kind.section d)
  | .swapped => buf.map Buffer.swapBuffers

/-- What a step does to a buffer of the channel at a place, if it does something. -/
def State.eventOn (k : Nat) (kind : BufferKind) (s : State) : Label → Option BufferEvent
  | .addChannel topicName channelType targetHz al =>
    if s.registry.channels.length = k then
      (s.registry.addChannel topicName channelType targetHz al).map fun p =>
        .added (bufferAt p.1.channels k kind)
    else none
  | .write _ kind' channelId d =>
    if (s.registry.find kind' channelId).map (·, kind') = some (k, kind) then some (.wrote d)
    else none
  | .swap u =>
    if (s.pending.find? (·.1 == u)).map (·.2) = some (k, kind) then some .swapped else none
  | _ => none

/-- What the labels have made of a buffer of the channel at a place. -/
def written (env : Env) (es : List Label) (k : Nat) (kind : BufferKind) : Option Buffer :=
  ((sys env).collect (State.eventOn k kind) .init es).foldl (BufferEvent.apply kind) none

/-- After `es`, the server thread calls `send_image` for the channel at a place. -/
structure SendsImage (env : Env) (es : List Label) (now : UInt64) (k : Nat) (u : State) :
    Prop where
  reach : (sys env).Reach .init es u
  place : u.pc = .visit k
  called : ∃ ch, u.registry.channels[k]? = some ch ∧ ch.channelType = .image ∧ ch.Subscribed ∧
    State.isDue ch now = true

/-- In each call of `send_image`, the info that was written when its info section ran (and, after a
short info, what `info_data_buffer` had before the call) describes no more pixels than the data that
was written when it was called; if the call lets both sizes pass. -/
def WritesMatch (env : Env) (es : List Label) : Prop :=
  ∀ es₀ now mid es₁ k u data info, es = es₀ ++ .visit now :: (mid ++ .readInfo :: es₁) →
    SendsImage env es₀ now k u → (∀ l ∈ mid, l.isApp = true) →
    written env es₀ k .data = some data →
    (senderOf .image).admits data.frontBufferSize = true →
    written env (es₀ ++ .visit now :: mid) k .info = some info →
    info.frontBufferSize ≤ sizeofInfoDataBuffer →
    imageSize (u.infoDataBuffer.copy 0 info.readSection) ≤ data.readSection.length

variable {env : Env} {s t u : State} {l : Label} {k n : Nat} {due : Bool} {job : Job}
  {ch : Channel} {kind : BufferKind} {es : List Label}

theorem State.buffer?_step (h : s.step env l = some t) : t.buffer? k kind =
    (s.eventOn k kind l).elim (s.buffer? k kind) (BufferEvent.apply kind (s.buffer? k kind)) := by
  have hf := (State.step_eq_some.mp h).2
  have alone : (∀ n ty hz al, l ≠ .addChannel n ty hz al) → (∀ u k c d, l ≠ .write u k c d) →
      (∀ u, l ≠ .swap u) → t.buffer? k kind = s.buffer? k kind := by
    intro hadd hwrite hswap
    obtain hsame | ⟨⟨n, ty, hz, al, hl⟩, -⟩ :=
      (State.fire_outcome hf).channels.bufferAt hwrite hswap
    · exact hsame
    · exact absurd hl (hadd n ty hz al)
  cases l with
  | addChannel n ty hz al =>
    simp only [State.fire] at hf
    split at hf
    · rename_i hadd
      cases hf
      have hnone : s.registry.addChannel n ty hz al = none := hadd
      simp only [State.eventOn, hnone, Option.map_none, ite_self]
      rfl
    · rename_i r id hadd
      cases hf
      have hsome : s.registry.addChannel n ty hz al = some (r, id) := hadd
      simp only [State.eventOn, hsome, Option.map_some]
      split
      · rfl
      · rename_i hk
        show bufferAt r.channels k kind = bufferAt s.registry.channels k kind
        obtain rfl | ⟨ch, -, rfl⟩ := Registry.addChannel_new hsome
        · rfl
        · exact bufferAt_append_of_ne hk ch
  | write u kind' c d =>
    obtain ⟨-, hf⟩ := State.fire_write.mp hf
    have hlog : (s.log (.event (.write u kind' c d))).registry.find kind' c =
        s.registry.find kind' c := rfl
    rw [hlog] at hf
    cases hfind : s.registry.find kind' c with
    | none =>
      rw [hfind] at hf
      subst hf
      simp only [State.eventOn, hfind, Option.map_none, reduceCtorEq, if_false]
      rfl
    | some i =>
      rw [hfind] at hf
      subst hf
      simp only [State.eventOn, hfind, Option.map_some, Option.some.injEq]
      refine (bufferAt_modify ..).trans ?_
      split
      · rename_i hik
        cases hik
        rfl
      · rfl
  | swap u =>
    obtain ⟨u', i, kind', hfind, rfl⟩ := State.fire_swap.mp hf
    have hpending : s.pending.find? (·.1 == u) = some (u', i, kind') := hfind
    simp only [State.eventOn, hpending, Option.map_some, Option.some.injEq]
    refine (bufferAt_modify ..).trans ?_
    split
    · rfl
    · rfl
  | _ => exact alone (by rintro _ _ _ _ ⟨⟩) (by rintro _ _ _ _ ⟨⟩) (by rintro _ ⟨⟩)

/-- The buffers are what the application has written. -/
theorem written_eq (hr : (sys env).Reach .init es s) (k : Nat) (kind : BufferKind) :
    written env es k kind = s.buffer? k kind := by
  refine hr.history (I := fun es s => written env es k kind = s.buffer? k kind) rfl
    fun es t l u hrun h _ hi => ?_
  rw [written, hrun.collect_snoc, List.foldl_append, State.buffer?_step h, ← hi]
  cases t.eventOn k kind l <;> rfl

/-! ## The info section -/

/-- The info that the info section of `send_image` leaves in `info_data_buffer` describes no more
pixels than the data section copied. -/
def InfoMatches (s : State) (l : Label) (_ : State) : Prop :=
  ∀ k due job ch info, l = .readInfo → s.pc = .readInfo k due (some job) →
    s.registry.channels[k]? = some ch → ch.channelType = .image → ch.infoBuffer = some info →
    info.frontBufferSize ≤ sizeofInfoDataBuffer →
    imageSize (s.infoDataBuffer.copy 0 info.readSection) ≤ job.dataSize

/-- An image with no pixels has no bytes. -/
theorem imageSize_of_not_pos {info : Mem} (h : ¬ (0 < infoWidth info ∧ 0 < infoHeight info)) :
    imageSize info = 0 := by
  have nonpos : ∀ x : Int32, ¬ 0 < x → x.toInt.toNat = 0 := by
    intro x hx
    rw [Int32.lt_iff_toInt_lt] at hx
    exact Int.toNat_of_nonpos (Int.not_lt.mp hx)
  unfold imageSize
  by_cases hw : 0 < infoWidth info
  · rw [nonpos _ fun hh => h ⟨hw, hh⟩, Nat.mul_zero, Nat.zero_mul]
  · rw [nonpos _ hw, Nat.zero_mul, Nat.zero_mul]

/-- The info section of `send_image`, with an info that is not too large. -/
theorem readInfo_image {info : Buffer} (hch : s.registry.channels[k]? = some ch)
    (hty : ch.channelType = .image) (hinfo : ch.infoBuffer = some info)
    (hsize : info.frontBufferSize ≤ sizeofInfoDataBuffer) :
    s.readInfo k due job = { s with
      infoDataBuffer := s.infoDataBuffer.copy 0 info.readSection
      pc := .encode k due (some { job with infoSize := info.frontBufferSize }) } := by
  unfold State.readInfo
  simp only [hch, hty, if_true, hinfo, Buffer.beginRead, hsize]
  rfl

/-- The channel that is in service is in the list. -/
def InService (s : State) : Prop :=
  ∀ k job, s.pc.job? = some (k, job) → ∃ ch, s.registry.channels[k]? = some ch

theorem InService.step (hi : InService s) (h : s.step env l = some t) : InService t := by
  intro k job hjob
  cases State.step_job h hjob with
  | kept _ hold =>
    obtain ⟨ch, hch⟩ := hi k job hold
    obtain ⟨ch', hch', -⟩ := (State.fire_outcome (State.step_eq_some.mp h).2).channel hch
    exact ⟨ch', hch'⟩
  | started hch _ _ hreg => exact ⟨_, hreg ▸ hch⟩
  | informed hold _ _ hreg =>
    obtain ⟨ch, hch⟩ := hi k _ hold
    exact ⟨ch, hreg ▸ hch⟩

namespace WithinFrame

theorem init : WithinFrame .init := by
  rintro n ⟨k, due, job, ch, hpc, -⟩
  cases hpc

/-- The compressor is not called. -/
theorem of_pc (h : ∀ k due job, t.pc ≠ .encode k due (some job)) : WithinFrame t := by
  rintro n ⟨k, due, job, ch, hpc, -⟩
  exact absurd hpc (h k due job)

/-- A thread of the application leaves the info and the place of the server thread alone. -/
theorem app (hl : l.isApp = true) (hserving : InService s) (hi : WithinFrame s)
    (h : s.step env l = some t) : WithinFrame t := by
  have hout := State.fire_outcome (State.step_eq_some.mp h).2
  obtain ⟨hpc | hpc, -, hinfo⟩ := hout.app hl
  · rintro n ⟨k, due, job, ch, hat, hch, hty, hsize⟩ hw hh
    have hserved : s.pc = .encode k due (some job) := hpc.symm.trans hat
    obtain ⟨ch₀, hch₀⟩ := hserving k job (by rw [hserved]; rfl)
    obtain ⟨ch', hch', hstatic⟩ := hout.channel hch₀
    cases hch.symm.trans hch'
    have hty₀ : ch₀.channelType = .image := (static_eq hstatic).2.1 ▸ hty
    have hinfo' : t.infoDataBuffer = s.infoDataBuffer := hinfo
    rw [hinfo'] at hw hh ⊢
    exact hi n ⟨k, due, job, ch₀, hserved, hch₀, hty₀, hsize⟩ hw hh
  · exact of_pc fun k due job he => by rw [hpc] at he; cases he

/-- The info section: the compressor's info is what the section left in `info_data_buffer`. -/
theorem readInfo (hq : InfoMatches s .readInfo t) (h : s.step env .readInfo = some t) :
    WithinFrame t := by
  obtain ⟨k, due, -, rfl⟩ | ⟨k, due, job, hpc, rfl⟩ :=
    State.fire_readInfo.mp (State.step_eq_some.mp h).2
  · exact of_pc nofun
  · obtain hv | hv | ⟨ch, hch, ⟨hty, hv⟩ | ⟨hty, info, hinfo, hsize, hv⟩⟩ :=
      State.readInfo_cases (s.log (.event .readInfo)) k due job
    · exact of_pc (hv ▸ nofun)
    · exact of_pc (hv ▸ nofun)
    · rw [hv]
      rintro n ⟨k', due', job', ch', hat, hch', hty', -⟩
      cases hat
      cases hch.symm.trans hch'
      exact absurd hty' hty
    · rw [hv]
      rintro n ⟨k', due', job', ch', hat, -, -, rfl⟩ - -
      cases hat
      exact hq k due job ch info rfl hpc hch hty hinfo hsize

theorem step (hq : InfoMatches s l t) (hserving : InService s) (hi : WithinFrame s)
    (h : s.step env l = some t) : WithinFrame t := by
  have hf := (State.step_eq_some.mp h).2
  cases l with
  | callback w reason =>
    refine of_pc fun k due job he => ?_
    have hjob := State.job?_callback hf
    rw [he] at hjob
    cases hjob
  | visit now =>
    obtain ⟨k, -, rfl⟩ := State.fire_visit.mp hf
    refine of_pc fun k' due job => ?_
    obtain ⟨-, hv⟩ | ⟨ch, -, hv | ⟨-, -, -, hv⟩⟩ :=
      State.visit_cases (s.log (.event (.visit now))) k now <;> rw [hv] <;> nofun
  | readInfo => exact readInfo hq h
  | encode nsec =>
    refine of_pc fun k due job => ?_
    obtain ⟨k', due', -, rfl⟩ | ⟨k', due', job', -, rfl⟩ := State.fire_encode.mp hf
    · nofun
    · cases State.encode env (s.log (.event (.encode nsec))) k' job' nsec <;> nofun
  | stamp now =>
    obtain ⟨k, due, -, rfl⟩ := State.fire_stamp.mp hf
    exact of_pc nofun
  | _ => exact app rfl hserving hi h

/-- An info section that leaves a larger info than the data lets the compressor read past it. -/
theorem infoMatches (ht : WithinFrame t) (h : s.step env l = some t) : InfoMatches s l t := by
  rintro k due job ch info rfl hpc hch hty hinfo hsize
  obtain ⟨k', due', hpc', -⟩ | ⟨k', due', job', hpc', rfl⟩ :=
    State.fire_readInfo.mp (State.step_eq_some.mp h).2
  · cases hpc.symm.trans hpc'
  · cases hpc.symm.trans hpc'
    rw [readInfo_image (s := s.log (.event .readInfo)) hch hty hinfo hsize] at ht
    by_cases hpos : 0 < infoWidth (s.infoDataBuffer.copy 0 info.readSection) ∧
        0 < infoHeight (s.infoDataBuffer.copy 0 info.readSection)
    · exact ht job.dataSize ⟨k, due, _, ch, rfl, hch, hty, rfl⟩ hpos.1 hpos.2
    · rw [imageSize_of_not_pos hpos]
      exact Nat.zero_le _

end WithinFrame

/-- The compressor stays within the frame in a run exactly if each info section finds an info that
matches. -/
theorem keepsFrame_iff :
    (sys env).Run KeepsFrame .init es s ↔ (sys env).Run InfoMatches .init es s := by
  constructor
  · intro h
    exact h.strengthen (I := fun _ => True)
      (fun _ _ _ hs hk _ => ⟨trivial, hk.2.infoMatches hs⟩) trivial
  · intro h
    exact h.strengthen (I := fun s => InService s ∧ WithinFrame s)
      (fun _ _ _ hs hq hi =>
        ⟨⟨hi.1.step hs, hi.2.step hq hi.1 hs⟩, hi.2, hi.2.step hq hi.1 hs⟩)
      ⟨nofun, .init⟩

/-! ## From the call to the info section -/

/-- A sender was called after `es₀`, got past its data section with `job`, and only the application
has run since then. -/
structure Called (env : Env) (es₀ mid : List Label) (now : UInt64) (k : Nat) (job : Job)
    (u t : State) : Prop where
  reach : (sys env).Reach .init es₀ u
  place : u.pc = .visit k
  job : ∃ ch, u.registry.channels[k]? = some ch ∧ ch.job now = some job
  app : ∀ l ∈ mid, l.isApp = true
  info : t.infoDataBuffer = u.infoDataBuffer

/-- Before an info section, there was a call. -/
theorem called (hr : (sys env).Reach .init es t) (hpc : t.pc = .readInfo k due (some job)) :
    ∃ es₀ now mid u, es = es₀ ++ .visit now :: mid ∧ Called env es₀ mid now k job u t := by
  refine hr.history (I := fun es t => ∀ k due job, t.pc = .readInfo k due (some job) →
    ∃ es₀ now mid u, es = es₀ ++ .visit now :: mid ∧ Called env es₀ mid now k job u t)
    (by rintro k due job ⟨⟩) (fun es s l t hrun h _ hi k due job hpc => ?_) k due job hpc
  have hf := (State.step_eq_some.mp h).2
  have app : l.isApp = true →
      ∃ es₀ now mid u, es ++ [l] = es₀ ++ .visit now :: mid ∧ Called env es₀ mid now k job u t := by
    intro hl
    obtain ⟨hkept | hcrashed, -, hinfo⟩ := (State.fire_outcome hf).app hl
    · obtain ⟨es₀, now, mid, u, rfl, hc⟩ := hi k due job (hkept.symm.trans hpc)
      refine ⟨es₀, now, mid ++ [l], u, by simp, hc.reach, hc.place, hc.job, fun l' hl' => ?_,
        hinfo.trans hc.info⟩
      rcases List.mem_append.mp hl' with hmem | hmem
      · exact hc.app l' hmem
      · rw [List.mem_singleton.mp hmem]
        exact hl
    · cases hcrashed.symm.trans hpc
  cases l with
  | callback w reason =>
    have hjob := State.job?_callback hf
    rw [hpc] at hjob
    cases hjob
  | visit now =>
    obtain ⟨k', hplace, rfl⟩ := State.fire_visit.mp hf
    cases hch : s.registry.channels[k']? with
    | none =>
      have hv : ((s.log (.event (.visit now))).visit k' now).pc = .idle := by
        simp only [State.visit, State.log, hch]
      cases hv.symm.trans hpc
    | some ch =>
      have hlogged : (s.log (.event (.visit now))).registry.channels[k']? = some ch := hch
      rw [State.visit_some hlogged] at hpc ⊢
      obtain ⟨hk, -, hjob⟩ := Pc.readInfo.inj hpc
      subst hk
      exact ⟨es, now, [], s, rfl, hrun, hplace, ⟨ch, hch, hjob⟩, List.forall_mem_nil _, rfl⟩
  | readInfo =>
    obtain ⟨k', due', -, rfl⟩ | ⟨k', due', job', -, rfl⟩ := State.fire_readInfo.mp hf
    · cases hpc
    · obtain hv | hv | ⟨ch, -, ⟨-, hv⟩ | ⟨-, info, -, -, hv⟩⟩ :=
        State.readInfo_cases (s.log (.event .readInfo)) k' due' job' <;>
          rw [hv] at hpc <;> cases hpc
  | encode nsec =>
    obtain ⟨k', due', -, rfl⟩ | ⟨k', due', job', -, rfl⟩ := State.fire_encode.mp hf
    · cases hpc
    · revert hpc
      cases State.encode env (s.log (.event (.encode nsec))) k' job' nsec <;> rintro ⟨⟩
  | stamp now =>
    obtain ⟨k', due', -, rfl⟩ := State.fire_stamp.mp hf
    cases hpc
  | _ => exact app rfl

namespace WritesMatch

/-- A part of a run has fewer calls. -/
theorem of_append {es fs : List Label} (h : WritesMatch env (es ++ fs)) : WritesMatch env es := by
  rintro es₀ now mid es₁ k u data info rfl
  exact h es₀ now mid (es₁ ++ fs) k u data info (by simp)

/-- If the info sections of a run find infos that match, then what was written matches. -/
theorem of_run (hr : (sys env).Run InfoMatches .init es s) : WritesMatch env es := by
  rintro es₀ now mid es₁ k u data info rfl hcall hmid hdata hadm hinfo hsize
  obtain ⟨u', hr₀, hr₁⟩ := hr.split
  obtain rfl := hr₀.det hcall.reach
  obtain ⟨ch, hch, hty, hsub, hdue⟩ := hcall.called
  rw [written_eq hcall.reach, State.buffer?_data hch] at hdata
  cases hdata
  have hjob : ch.job now = some ⟨ch.dataBuffer.frontBuffer, ch.dataBuffer.frontBufferSize, 0⟩ :=
    if_pos ⟨hsub, hdue, by rw [hty]; exact hadm⟩
  cases hr₁ with
  | cons hvisit _ hr₁ =>
    obtain ⟨t, hrmid, hr₂⟩ := hr₁.split
    cases hr₂ with
    | cons hread hq _ =>
      rw [written_eq (hcall.reach.append (.cons hvisit trivial hrmid.reach))] at hinfo
      obtain ⟨k', hplace, rfl⟩ := State.fire_visit.mp (State.step_eq_some.mp hvisit).2
      cases hcall.place.symm.trans hplace
      have hlogged : (u'.log (.event (.visit now))).registry.channels[k]? = some ch := hch
      rw [State.visit_some hlogged] at hrmid
      obtain ⟨hplaced, -, hleft⟩ := app_run (hrmid.labels.mono fun _ l _ hl => hmid l hl)
      have hpc := hplaced.resolve_right (State.step_eq_some.mp hread).1
      obtain ⟨ch', hch', hstatic⟩ := channel_run hrmid hch
      have hinfo' : ch'.infoBuffer = some info := by
        rw [← hinfo, State.buffer?, bufferAt, hch']
        rfl
      have hmatch := hq k (State.isDue ch now) _ ch' info rfl (hpc.trans (by rw [hjob])) hch'
        ((static_eq hstatic).2.1.trans hty) hinfo' hsize
      rw [hleft] at hmatch
      exact hmatch.trans_eq (Buffer.length_readSection _).symm

/-- If what was written matches, then the info sections of the run find infos that match. -/
theorem run (h : WritesMatch env es) (hr : (sys env).Reach .init es s) :
    (sys env).Run InfoMatches .init es s := by
  refine hr.history (I := fun es s => WritesMatch env es → (sys env).Run InfoMatches .init es s)
    (fun _ => .nil _) (fun es t l v hrun hstep _ hi hm => ?_) h
  refine (hi hm.of_append).snoc hstep ?_
  rintro k due job ch' info rfl hpc hch' hty hinfo hsize
  obtain ⟨es₀, now, mid, u, rfl, hc⟩ := called hrun hpc
  obtain ⟨ch, hch, hjob⟩ := hc.job
  obtain ⟨hsub, hdue, hadm, rfl⟩ := Channel.job_some hjob
  obtain ⟨u', hr₀, hr₁⟩ := hrun.split
  obtain rfl := hr₀.det hc.reach
  obtain ⟨ch'', hch'', hstatic⟩ := channel_run hr₁ hch
  cases hch'.symm.trans hch''
  have hty₀ : ch.channelType = .image := (static_eq hstatic).2.1.symm.trans hty
  have hdata : written env es₀ k .data = some ch.dataBuffer :=
    (written_eq hr₀ k .data).trans (State.buffer?_data hch)
  have hinfo' : written env (es₀ ++ .visit now :: mid) k .info = some info := by
    rw [written_eq hrun, State.buffer?, bufferAt, hch', ← hinfo]
    rfl
  have hmatch := hm es₀ now mid [] k u' ch.dataBuffer info (by simp)
    ⟨hc.reach, hc.place, ch, hch, hty₀, hsub, hdue⟩ hc.app hdata (hty₀ ▸ hadm) hinfo' hsize
  rw [hc.info]
  exact hmatch.trans_eq (Buffer.length_readSection _)

end WritesMatch

/-- **Pixels.** The compressor stays within the frame in every state of a run exactly if what the
application has written matches in each call of `send_image`. -/
theorem pixels_within_iff (env : Env) (es : List Label) (s : State) :
    (sys env).Run KeepsFrame .init es s ↔ (sys env).Reach .init es s ∧ WritesMatch env es := by
  rw [keepsFrame_iff]
  constructor
  · intro h
    exact ⟨h.reach, .of_run h⟩
  · rintro ⟨hr, hm⟩
    exact hm.run hr

/-- An image of two pixels with three channels, of which one pixel was written, up to the call of
the compressor. -/
def shortImageRun : List Label :=
  [.addChannel (ascii "a") (some .image) 10 .zeroed, .callback 1 .established,
    .callback 1 (.receive (subscribeText 5 0))] ++
  writeCall .data 0 [7, 8, 9] ++ writeCall .info 0 [2, 0, 0, 0, 1, 0, 0, 0, 3, 0, 0, 0] ++
  [.callback 1 .serverWriteable, .visit 200, .readInfo]

/-- The channel in service is an image at its call of the compressor. -/
def compressing? (s : State) : Option Nat :=
  match s.pc with
  | .encode k _ (some job) =>
    (s.registry.channels[k]?).bind fun ch =>
      if ch.channelType = .image then some job.dataSize else none
  | _ => none

theorem compressing_of_eq_some (h : compressing? s = some n) : Compressing s n := by
  unfold compressing? at h
  split at h
  · rename_i k due job hpc
    obtain ⟨ch, hch, h⟩ := Option.bind_eq_some_iff.mp h
    obtain ⟨hty, ⟨⟩⟩ := Option.ite_none_right_eq_some.mp h
    exact ⟨k, due, job, ch, hpc, hch, hty, rfl⟩
  · cases h

/-- Of two pixels, one was written. -/
theorem pixels_out_of_frame : ∃ s, (sys .standIn).Reach .init shortImageRun s ∧
    Compressing s 3 ∧ 0 < infoWidth s.infoDataBuffer ∧ 0 < infoHeight s.infoDataBuffer ∧
    imageSize s.infoDataBuffer = 6 := by
  obtain ⟨s, hr, h⟩ := Lts.exists_reach (L := sys .standIn) (s := .init) shortImageRun
    (p := fun s => compressing? s == some 3 && decide (0 < infoWidth s.infoDataBuffer) &&
      decide (0 < infoHeight s.infoDataBuffer) && imageSize s.infoDataBuffer == 6)
    (by decide +kernel)
  simp only [Bool.and_eq_true, beq_iff_eq, decide_eq_true_eq] at h
  obtain ⟨⟨⟨hat, hw⟩, hh⟩, hsize⟩ := h
  exact ⟨s, hr, compressing_of_eq_some hat, hw, hh, hsize⟩

end Foxdbg
