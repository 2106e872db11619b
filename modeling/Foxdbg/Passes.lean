import Foxdbg.Steps
import Mathlib.Data.List.Infix

/-!
# The passes (`foxdbg_protocol_transmit_subscriptions`)

A pass goes through the channels in the order of the list, with four steps of the server thread for
each channel and one for the end of the list. The threads of the application can step in between,
and add channels: a pass goes through these too, if it is not over.

* `pass_in_order`: at each moment of a pass, the channels whose frames it has handed over are some
  of those that it has gone through, in the order of the list and each of them once; and if the pass
  is over, it took `4 * n + 1` steps for the `n` channels that there are then.
* `inPass_of_goesOn`: only an exception of a sender or a trap of `foxdbg_add_channel` ends a pass
  before it has gone through the list.
-/

namespace Foxdbg

/-- The steps of the server thread in a pass. -/
def Label.isPass : Label → Bool
  | .visit _ | .readInfo | .encode _ | .stamp _ => true
  | _ => false

theorem Label.isApp_of_isPass {l : Label} (h : l.isPass = true) : l.isApp = false := by
  cases l <;> first | rfl | cases h

/-- The channel id of a frame. -/
def Obs.frameId? : Obs → Option Int32
  | .frame _ channelId _ => some channelId
  | _ => none

/-- The channel ids of the frames of a trace, oldest first. -/
def frameIds (obs : List Obs) : List Int32 := (obs.filterMap Obs.frameId?).reverse

namespace Pc

/-- The steps of a pass before this place, if the list has `n` channels. -/
def steps (n : Nat) : Pc → Nat
  | .visit k => 4 * k
  | .readInfo k _ _ => 4 * k + 1
  | .encode k _ _ => 4 * k + 2
  | .stamp k _ => 4 * k + 3
  | .idle | .crashed => 4 * n + 1

/-- The channels that the senders of a pass are done with at this place. -/
def served (n : Nat) : Pc → Nat
  | .visit k | .readInfo k _ _ | .encode k _ _ => k
  | .stamp k _ => k + 1
  | .idle | .crashed => n

/-- The place is one of a list of `n` channels. -/
def Within (n : Nat) : Pc → Prop
  | .visit k => k ≤ n
  | .readInfo k _ _ | .encode k _ _ | .stamp k _ => k < n
  | .idle | .crashed => True

theorem Within.steps_le {n : Nat} {pc : Pc} (h : pc.Within n) : pc.steps n ≤ 4 * n + 1 := by
  cases pc <;> simp only [Within] at h <;> simp only [steps] <;> omega

theorem Within.mono {m n : Nat} {pc : Pc} (h : pc.Within m) (hle : m ≤ n) : pc.Within n := by
  cases pc <;> simp only [Within] at h ⊢ <;> omega

/-- From one place of a pass to the next one. -/
inductive Next (n : Nat) : Pc → Pc → Prop
  | done : Next n (.visit n) .idle
  | visit {k : Nat} {due : Bool} {job : Option Job} :
      k < n → Next n (.visit k) (.readInfo k due job)
  | readInfo {k : Nat} {due : Bool} {job job' : Option Job} :
      Next n (.readInfo k due job) (.encode k due job')
  | encode {k : Nat} {due : Bool} {job : Option Job} : Next n (.encode k due job) (.stamp k due)
  | stamp {k : Nat} {due : Bool} : Next n (.stamp k due) (.visit (k + 1))

namespace Next

variable {n : Nat} {pc pc' : Pc}

theorem within (h : Next n pc pc') (hw : pc.Within n) : pc'.Within n := by
  cases h with
  | done => trivial
  | visit hk => exact hk
  | readInfo => exact hw
  | encode => exact hw
  | stamp => exact hw

theorem steps (h : Next n pc pc') : pc'.steps n = pc.steps n + 1 := by
  cases h <;> simp only [Pc.steps, Nat.mul_add_one]

theorem served_le (h : Next n pc pc') : pc.served n ≤ pc'.served n := by
  cases h <;> simp only [Pc.served] <;> omega

end Next

end Pc

namespace State

/-- The ids of the transmitted channels. -/
def ids (s : State) : List Int32 := s.registry.channels.map (·.channelId)

variable {env : Env} {s t : State} {l : Label}

theorem length_ids (s : State) : s.ids.length = s.registry.channels.length := List.length_map ..

theorem ids_eq (s : State) : s.ids = (s.registry.channels.map Channel.static).map (·.1) := by
  rw [List.map_map]
  rfl

/-- Ids stay in their places. -/
theorem Outcome.ids (h : Outcome l s t) : s.ids <+: t.ids := by
  rw [State.ids_eq, State.ids_eq]
  exact h.channels.static.map _

theorem Outcome.ids_eq (h : Outcome l s t) (hl : ∀ n ty hz al, l ≠ .addChannel n ty hz al) :
    t.ids = s.ids := by
  rw [State.ids_eq, State.ids_eq, h.channels.static_eq hl]

theorem frameIds_eq_nil {obs : List Obs} (h : ∀ o ∈ obs, o.frameId? = none) :
    frameIds obs = [] := by
  rw [frameIds, List.filterMap_eq_nil_iff.mpr h, List.reverse_nil]

theorem frameIds_append (a b : List Obs) : frameIds (a ++ b) = frameIds b ++ frameIds a := by
  rw [frameIds, List.filterMap_append, List.reverse_append]
  rfl

/-! ## The steps of a pass -/

/-- A step of the server thread goes to the next place of the pass. -/
theorem step_place (h : s.step env l = some t) (hl : l.isPass = true) (ht : t.pc ≠ .crashed)
    (hwithin : s.pc.Within s.ids.length) : Pc.Next s.ids.length s.pc t.pc := by
  obtain ⟨-, hfire⟩ := step_eq_some.mp h
  rw [length_ids] at hwithin ⊢
  cases l with
  | visit now =>
    obtain ⟨k, hpc, rfl⟩ := fire_visit.mp hfire
    replace hpc : s.pc = .visit k := hpc
    rw [hpc] at hwithin ⊢
    obtain ⟨hnone, hv⟩ | ⟨ch, hch, hv⟩ := visit_cases (s.log (.event (.visit now))) k now
    · have hge := List.getElem?_eq_none_iff.mp hnone
      obtain rfl : k = s.registry.channels.length := Nat.le_antisymm hwithin hge
      rw [hv]
      exact .done
    · have hlt := (List.getElem?_eq_some_iff.mp hch).1
      obtain hv | ⟨-, -, -, hv⟩ := hv <;> rw [hv] <;> exact .visit hlt
  | readInfo =>
    obtain ⟨k, due, hpc, rfl⟩ | ⟨k, due, job, hpc, rfl⟩ := fire_readInfo.mp hfire
    · rw [show s.pc = _ from hpc]
      exact .readInfo
    · rw [show s.pc = _ from hpc]
      obtain hv | hv | ⟨ch, -, ⟨-, hv⟩ | ⟨-, info, -, -, hv⟩⟩ :=
        readInfo_cases (s.log (.event .readInfo)) k due job
      · rw [hv] at ht
        exact absurd rfl ht
      all_goals
        rw [hv]
        exact .readInfo
  | encode nsec =>
    obtain ⟨k, due, hpc, rfl⟩ | ⟨k, due, job, hpc, rfl⟩ := fire_encode.mp hfire
    · rw [show s.pc = _ from hpc]
      exact .encode
    · rw [show s.pc = _ from hpc]
      obtain he | he | ⟨ch, e, tx, -, -, he⟩ :=
        encode_cases env (s.log (.event (.encode nsec))) k job nsec
      · rw [he] at ht
        exact absurd rfl ht
      all_goals
        rw [he]
        exact .encode
  | stamp now =>
    obtain ⟨k, due, hpc, rfl⟩ := fire_stamp.mp hfire
    rw [show s.pc = _ from hpc]
    exact .stamp
  | _ => cases hl

/-- The frames of a step: none, or the one of the channel whose sender comes to its end. -/
theorem step_frameIds (h : s.step env l = some t) :
    ∃ obs, t.trace = obs ++ s.trace ∧ (frameIds obs = [] ∨
      ∃ nsec k due job ch, l = .encode nsec ∧ s.pc = .encode k due job ∧
        s.registry.channels[k]? = some ch ∧ frameIds obs = [ch.channelId]) := by
  obtain ⟨-, hfire⟩ := step_eq_some.mp h
  by_cases hl : ∃ nsec, l = .encode nsec
  · obtain ⟨nsec, rfl⟩ := hl
    obtain hsame | ⟨k, due, job, ch, e, w, hpc, hch, -, -, htrace⟩ := encode_trace hfire
    · exact ⟨[.event (.encode nsec)], hsame, .inl rfl⟩
    · exact ⟨[_, .event (.encode nsec)], htrace, .inr ⟨nsec, k, due, _, ch, rfl, hpc, hch, rfl⟩⟩
  · obtain ⟨obs, htrace, hobs⟩ := (fire_outcome hfire).trace
    refine ⟨obs ++ [.event l], htrace.trans (by simp [log]), .inl (frameIds_eq_nil ?_)⟩
    intro o ho
    obtain ho | ho := List.mem_append.mp ho
    · cases o with
      | frame w id d => exact absurd (hobs _ ho) hl
      | _ => rfl
    · rw [List.mem_singleton.mp ho]
      rfl

/-- During a pass, only the server thread and the application step. -/
theorem isApp_of_not_isPass (h : s.step env l = some t) (hpc : s.pc ≠ .idle)
    (hl : l.isPass = false) : l.isApp = true := by
  cases l with
  | callback w reason => exact absurd (idle_of_callback h) hpc
  | visit => cases hl
  | readInfo => cases hl
  | encode => cases hl
  | stamp => cases hl
  | _ => rfl

/-- Outside a pass, the server thread does no step of one. -/
theorem pc_ne_idle (h : s.step env l = some t) (hl : l.isPass = true) : s.pc ≠ .idle := by
  obtain ⟨-, hfire⟩ := step_eq_some.mp h
  have hpc : ∀ {pc : Pc}, (s.log (.event l)).pc = pc → pc ≠ .idle → s.pc ≠ .idle := by
    rintro _ rfl hne
    exact hne
  cases l with
  | visit now =>
    obtain ⟨k, h, -⟩ := fire_visit.mp hfire
    exact hpc h (by rintro ⟨⟩)
  | readInfo =>
    obtain ⟨k, due, h, -⟩ | ⟨k, due, job, h, -⟩ := fire_readInfo.mp hfire <;>
      exact hpc h (by rintro ⟨⟩)
  | encode nsec =>
    obtain ⟨k, due, h, -⟩ | ⟨k, due, job, h, -⟩ := fire_encode.mp hfire <;>
      exact hpc h (by rintro ⟨⟩)
  | stamp now =>
    obtain ⟨k, due, h, -⟩ := fire_stamp.mp hfire
    exact hpc h (by rintro ⟨⟩)
  | _ => cases hl

/-- A pass adds no channels. -/
theorem ids_of_isPass (h : s.step env l = some t) (hl : l.isPass = true) : t.ids = s.ids := by
  refine (fire_outcome (step_eq_some.mp h).2).ids_eq ?_
  rintro n ty hz al rfl
  cases hl

/-- What has happened in a pass since a state at its start. -/
structure InPass (s : State) (es : List Label) (t : State) : Prop where
  within : t.pc.Within t.ids.length
  steps : es.countP Label.isPass = t.pc.steps t.ids.length
  frames : ∃ obs, t.trace = obs ++ s.trace ∧
    (frameIds obs).Sublist (t.ids.take (t.pc.served t.ids.length))

namespace InPass

variable {u : State} {es : List Label}

theorem start (hpc : s.pc = .visit 0) : InPass s [] s := by
  refine ⟨?_, ?_, [], rfl, List.nil_sublist _⟩
  · rw [hpc]
    exact Nat.zero_le _
  · rw [hpc]
    rfl

/-- The server thread goes on. -/
theorem pass (h : InPass s es t) (hstep : t.step env l = some u) (hl : l.isPass = true)
    (hu : u.pc ≠ .crashed) : InPass s (es ++ [l]) u := by
  have hnext := step_place hstep hl hu h.within
  have hids : u.ids = t.ids := ids_of_isPass hstep hl
  obtain ⟨old, htrace, hsub⟩ := h.frames
  obtain ⟨obs, htrace', hobs⟩ := step_frameIds hstep
  refine ⟨hids ▸ hnext.within h.within, ?_, obs ++ old, ?_, ?_⟩
  · rw [List.countP_append, h.steps, hids, hnext.steps, List.countP_singleton, if_pos hl]
  · rw [htrace', htrace, List.append_assoc]
  · rw [frameIds_append, hids]
    obtain hnone | ⟨nsec, k, due, job, ch, rfl, hpc, hch, hone⟩ := hobs
    · rw [hnone, List.append_nil]
      exact hsub.trans (List.take_sublist_take_left hnext.served_le)
    · -- the sender of the channel is done
      have hid : t.ids[k]? = some ch.channelId := by
        rw [State.ids, List.getElem?_map, hch]
        rfl
      rw [hpc] at hnext hsub
      rw [hone]
      generalize u.pc = pc at hnext
      cases hnext
      show (frameIds old ++ [ch.channelId]).Sublist (t.ids.take (k + 1))
      rw [List.take_add_one, hid]
      exact hsub.append (List.Sublist.refl _)

/-- A thread of the application steps. -/
theorem app (h : InPass s es t) (hstep : t.step env l = some u) (hl : l.isPass = false)
    (hpc : t.pc ≠ .idle) (hu : u.pc ≠ .crashed) : InPass s (es ++ [l]) u := by
  obtain ⟨hlive, hfire⟩ := step_eq_some.mp hstep
  have hout := fire_outcome hfire
  have hplace : u.pc = t.pc :=
    (hout.app (isApp_of_not_isPass hstep hpc hl)).1.resolve_right hu
  have hprefix : t.ids <+: u.ids := hout.ids
  have hsame : u.pc.steps u.ids.length = t.pc.steps t.ids.length ∧
      u.pc.served u.ids.length = t.pc.served t.ids.length := by
    rw [hplace]
    cases hcase : t.pc with
    | idle => exact absurd hcase hpc
    | crashed => exact absurd hcase hlive
    | _ => exact ⟨rfl, rfl⟩
  obtain ⟨old, htrace, hsub⟩ := h.frames
  obtain ⟨obs, htrace', hobs⟩ := step_frameIds hstep
  refine ⟨hplace ▸ h.within.mono hprefix.length_le, ?_, obs ++ old, ?_, ?_⟩
  · rw [List.countP_append, h.steps, hsame.1, List.countP_singleton, hl]
    rfl
  · rw [htrace', htrace, List.append_assoc]
  · have hnone : frameIds obs = [] := by
      obtain hnone | ⟨nsec, -, -, -, -, rfl, -⟩ := hobs
      · exact hnone
      · cases hl
    rw [frameIds_append, hnone, List.append_nil, hsame.2]
    exact hsub.trans (List.IsPrefix.take hprefix _).sublist

end InPass

end State

open State

/-- **Passes in order.** At each moment of a pass that no exception has ended, the channels whose
frames it has handed over are some of those whose senders it is done with, in the order of the list
and each at most once. If it is over, it has gone through all channels that there are then, in
`4 * n + 1` steps of the server thread. -/
theorem pass_in_order {env : Env} {s t : State} {es : List Label} (hpc : s.pc = .visit 0)
    (hr : (sys env).Run (fun s _ _ => s.pc ≠ .idle) s es t) (ht : t.pc ≠ .crashed) :
    (∃ obs, t.trace = obs ++ s.trace ∧
      (frameIds obs).Sublist (t.ids.take (t.pc.served t.ids.length))) ∧
    es.countP Label.isPass = t.pc.steps t.ids.length ∧
    (t.pc = .idle → es.countP Label.isPass = 4 * t.registry.channels.length + 1) := by
  have hin : t.pc ≠ .crashed → InPass s es t := by
    refine hr.history (I := fun es t => t.pc ≠ .crashed → InPass s es t)
      (fun _ => .start hpc) fun es t l u _ h hq hi hu => ?_
    have hi := hi (step_eq_some.mp h).1
    cases hl : l.isPass with
    | true => exact hi.pass h hl hu
    | false => exact hi.app h hl hq hu
  obtain ⟨-, hsteps, hframes⟩ := hin ht
  refine ⟨hframes, hsteps, fun hidle => ?_⟩
  rw [hsteps, hidle, ← length_ids]
  rfl

/-- The server thread is never blocked in a pass. -/
theorem exists_pass_step (env : Env) {s : State} (hidle : s.pc ≠ .idle) (hlive : s.pc ≠ .crashed) :
    ∃ l t, l.isPass = true ∧ s.step env l = some t := by
  cases hpc : s.pc with
  | idle => exact absurd hpc hidle
  | crashed => exact absurd hpc hlive
  | visit k =>
    exact ⟨.visit 0, _, rfl, step_eq_some.mpr ⟨hlive, fire_visit.mpr ⟨k, hpc, rfl⟩⟩⟩
  | readInfo k due job =>
    cases job with
    | none =>
      exact ⟨.readInfo, _, rfl, step_eq_some.mpr ⟨hlive,
        fire_readInfo.mpr (.inl ⟨k, due, hpc, rfl⟩)⟩⟩
    | some job =>
      exact ⟨.readInfo, _, rfl, step_eq_some.mpr ⟨hlive,
        fire_readInfo.mpr (.inr ⟨k, due, job, hpc, rfl⟩)⟩⟩
  | encode k due job =>
    obtain ⟨t, ht⟩ : ∃ t, s.step env (.encode 0) = some t := exists_encode hpc 0
    exact ⟨.encode 0, t, rfl, ht⟩
  | stamp k due =>
    exact ⟨.stamp 0, _, rfl, step_eq_some.mpr ⟨hlive, fire_stamp.mpr ⟨k, due, hpc, rfl⟩⟩⟩

/-- A channel with data that a client subscribes, and the start of a pass. -/
def startOfPass : List Label :=
  [.addChannel (ascii "a") (some .integer) 10 .zeroed, .callback 0 .established,
    .callback 0 (.receive (subscribeText 5 0))] ++ writeCall .data 0 [7, 0, 0, 0] ++
  [.callback 0 .serverWriteable]

/-- A pass of a channel, during which another channel is added. -/
def growingPass : List Label :=
  [.visit 1000, .addChannel (ascii "b") (some .integer) 10 .zeroed, .readInfo, .encode 0,
    .stamp 1000, .visit 1000, .readInfo, .encode 0, .stamp 1000, .visit 1000]

/-- A pass hands over a frame, and a channel that is added during it is in it. -/
theorem grown_pass : ∃ s t obs, (sys .standIn).Reach .init startOfPass s ∧
      (sys .standIn).Run (fun s _ _ => s.pc ≠ .idle) s growingPass t ∧
      t.trace = obs ++ s.trace ∧ frameIds obs = [0] ∧
      (frameIds obs).Sublist (t.ids.take (t.pc.served t.ids.length)) ∧
      t.pc = .idle ∧ growingPass.countP Label.isPass = 4 * t.registry.channels.length + 1 := by
  obtain ⟨s, hs, hp⟩ := Lts.exists_reach (L := sys .standIn) (s := .init)
    (p := fun s => s.pc == .visit 0 && frameIds s.trace == [] &&
      ((sys .standIn).exec (fun s _ _ => s.pc != .idle) s growingPass).any fun t =>
        t.pc == .idle && frameIds t.trace == [0])
    startOfPass (by decide +kernel)
  simp only [Bool.and_eq_true, beq_iff_eq] at hp
  obtain ⟨⟨hpc, hnone⟩, hrun⟩ := hp
  obtain ⟨t, hr, ht⟩ := Lts.exists_run (L := sys .standIn) (s := s)
    (Q := fun s _ _ => s.pc ≠ .idle) growingPass (fun _ _ _ h => bne_iff_ne.mp h) hrun
  simp only [Bool.and_eq_true, beq_iff_eq] at ht
  obtain ⟨hidle, hone⟩ := ht
  have hlive : t.pc ≠ .crashed := by
    rw [hidle]
    rintro ⟨⟩
  obtain ⟨⟨obs, htrace, hframes⟩, -, hsteps⟩ := pass_in_order hpc hr hlive
  rw [htrace, frameIds_append, hnone, List.nil_append] at hone
  exact ⟨s, t, obs, hs, hr, htrace, hone, hframes, hidle, hsteps hidle⟩

/-- A callback that does not start a pass leaves the server thread in `lws_service`. -/
theorem callback_pc {env : Env} {s t : State} {w : Socket} {reason : Reason}
    (h : s.step env (.callback w reason) = some t) :
    t.pc = .idle ∨ t.pc = .visit 0 ∨ t.pc = .crashed := by
  obtain ⟨-, hfire⟩ := step_eq_some.mp h
  cases reason with
  | established =>
    obtain ⟨hpc, -, rfl⟩ := fire_established.mp hfire
    obtain ⟨tx, obs, pc, he, -, rfl | rfl⟩ := established_eq env
      ((s.log (.event (.callback w .established))).openSocket w) w
    · exact .inl (by rw [he]; exact hpc)
    · exact .inr (.inr (by rw [he]))
  | receive d =>
    obtain ⟨hpc, -, rfl⟩ := fire_receive.mp hfire
    obtain ⟨cs, pc, he, rfl | rfl, -⟩ :=
      received_eq env (s.log (.event (.callback w (.receive d)))) d
    · exact .inl (by rw [he]; exact hpc)
    · exact .inr (.inr (by rw [he]))
  | closed =>
    obtain ⟨hpc, -, rfl⟩ := fire_closed.mp hfire
    exact .inl hpc
  | serverWriteable =>
    obtain ⟨-, -, rfl⟩ := fire_serverWriteable.mp hfire
    exact .inr (.inl rfl)

/-- The server thread is at a place of the list. -/
theorem within_step {env : Env} {s t : State} {l : Label} (h : s.step env l = some t)
    (hi : s.pc.Within s.ids.length) : t.pc.Within t.ids.length := by
  by_cases ht : t.pc = .crashed
  · rw [ht]
    trivial
  have hout := fire_outcome (step_eq_some.mp h).2
  have hmono : ∀ pc : Pc, pc.Within s.ids.length → pc.Within t.ids.length :=
    fun _ hw => hw.mono (List.IsPrefix.length_le hout.ids)
  cases hl : l.isPass with
  | true => exact hmono _ ((step_place h hl ht hi).within hi)
  | false =>
    cases happ : l.isApp with
    | true =>
      rw [(hout.app happ).1.resolve_right ht]
      exact hmono _ hi
    | false =>
      cases l with
      | callback w reason =>
        obtain hpc | hpc | hpc := callback_pc h <;> rw [hpc]
        · trivial
        · exact Nat.zero_le _
        · trivial
      | visit => cases hl
      | readInfo => cases hl
      | encode => cases hl
      | stamp => cases hl
      | _ => cases happ

/-! ## What ends a pass -/

/-- The step makes no sender throw, and no `foxdbg_add_channel` trap. -/
structure NothingThrows (env : Env) (s : State) (l : Label) (_ : State) : Prop where
  sender : ∀ nsec k job ch, l = .encode nsec → s.pc.job? = some (k, job) →
    s.registry.channels[k]? = some ch →
    (senderOf ch.channelType).body env ch.topicName (s.source ch job) ≠ none
  add : ∀ n ty hz al, l = .addChannel n ty hz al → s.registry.addChannel n ty hz al ≠ none

/-- The image channels have info buffers. -/
def Equipped (cs : List Channel) : Prop :=
  ∀ ch ∈ cs, ch.channelType = .image → ch.infoBuffer.isSome = true

theorem Effect.equipped {l : Label} {cs cs' : List Channel} (h : Effect l cs cs')
    (hl : ∀ n ty hz al, l ≠ .addChannel n ty hz al) (hi : Equipped cs) : Equipped cs' := by
  have hmap : cs'.map (fun ch => (ch.channelType, ch.infoBuffer.isSome)) =
      cs.map fun ch => (ch.channelType, ch.infoBuffer.isSome) := by
    have hbuffer : ∀ (k : BufferKind) (f : Buffer → Buffer) (ch : Channel),
        ((ch.mapBuffer k f).channelType, (ch.mapBuffer k f).infoBuffer.isSome) =
          (ch.channelType, ch.infoBuffer.isSome) := by
      intro k f ch
      cases k with
      | data => rfl
      | info => exact congrArg (Prod.mk _) Option.isSome_map
    cases h with
    | keep => rfl
    | add => exact absurd rfl (hl _ _ _ _)
    | write u k c d i => exact map_modify_eq (hbuffer k _) ..
    | swap u k i => exact map_modify_eq (hbuffer k _) ..
    | clear => rw [List.map_map]; rfl
    | subscribe => exact map_modify_eq (by intro ch; rfl) ..
    | stamp => exact map_modify_eq (by intro ch; rfl) ..
  intro ch hch hty
  have hmem := List.mem_map_of_mem (f := fun ch : Channel =>
    (ch.channelType, ch.infoBuffer.isSome)) hch
  rw [hmap, List.mem_map] at hmem
  obtain ⟨ch₀, hch₀, heq⟩ := hmem
  obtain ⟨htype, hsome⟩ := Prod.mk.inj heq
  rw [← hsome]
  exact hi ch₀ hch₀ (htype.trans hty)

theorem Equipped.step {env : Env} {s t : State} {l : Label} (h : s.step env l = some t)
    (hi : Equipped s.registry.channels) : Equipped t.registry.channels := by
  have hf := (step_eq_some.mp h).2
  by_cases hl : ∃ n ty hz al, l = .addChannel n ty hz al
  · obtain ⟨n, ty, hz, al, rfl⟩ := hl
    simp only [fire] at hf
    split at hf
    · cases hf
      exact hi
    · rename_i r id hadd
      cases hf
      obtain rfl | ⟨ch, hnew, rfl⟩ := Registry.addChannel_new hadd
      · exact hi
      · intro ch' hch' hty
        obtain hold | hnewest := List.mem_append.mp hch'
        · exact hi ch' hold hty
        · cases List.mem_singleton.mp hnewest
          exact Registry.newChannel_info hnew (by rw [hty]; decide)
  · exact (fire_outcome hf).channels.equipped (fun n ty hz al e => hl ⟨n, ty, hz, al, e⟩) hi

/-- A step of a pass that makes nothing throw or trap does not end the process. -/
theorem lives_of_nothingThrows {env : Env} {s t : State} {l : Label}
    (hequipped : Equipped s.registry.channels) (hwithin : s.pc.Within s.ids.length)
    (hidle : s.pc ≠ .idle) (hq : NothingThrows env s l t) (h : s.step env l = some t) :
    t.pc ≠ .crashed := by
  obtain ⟨hlive, hf⟩ := step_eq_some.mp h
  have channel : ∀ k, k < s.ids.length → ∃ ch, s.registry.channels[k]? = some ch := by
    intro k hk
    rw [length_ids] at hk
    exact ⟨_, List.getElem?_eq_getElem hk⟩
  cases l with
  | addChannel n ty hz al =>
    simp only [fire] at hf
    split at hf
    · rename_i hnone
      exact absurd hnone (hq.add _ _ _ _ rfl)
    · cases hf
      exact hlive
  | addRxChannel n ty al =>
    cases hf
    exact hlive
  | write u k c d =>
    obtain ⟨-, hf⟩ := fire_write.mp hf
    split at hf <;> subst hf <;> exact hlive
  | swap u =>
    simp only [fire] at hf
    split at hf <;> cases hf
    exact hlive
  | callback w reason => exact absurd (idle_of_callback h) hidle
  | visit now =>
    obtain ⟨k, -, rfl⟩ := fire_visit.mp hf
    obtain ⟨-, hv⟩ | ⟨ch, -, hv | ⟨-, -, -, hv⟩⟩ :=
      visit_cases (s.log (.event (.visit now))) k now <;> rw [hv] <;> rintro ⟨⟩
  | readInfo =>
    obtain ⟨k, due, -, rfl⟩ | ⟨k, due, job, hpc, rfl⟩ := fire_readInfo.mp hf
    · rintro ⟨⟩
    · replace hpc : s.pc = .readInfo k due (some job) := hpc
      rw [hpc] at hwithin
      obtain ⟨ch, hch⟩ := channel k hwithin
      replace hch : (s.log (.event .readInfo)).registry.channels[k]? = some ch := hch
      unfold readInfo
      simp only [hch]
      split
      · rename_i hty
        obtain ⟨info, hinfo⟩ := Option.isSome_iff_exists.mp
          (hequipped ch (List.mem_of_getElem? hch) hty)
        simp only [hinfo]
        split <;> rintro ⟨⟩
      · rintro ⟨⟩
  | encode nsec =>
    obtain ⟨k, due, -, rfl⟩ | ⟨k, due, job, hpc, rfl⟩ := fire_encode.mp hf
    · rintro ⟨⟩
    · replace hpc : s.pc = .encode k due (some job) := hpc
      have hjob : s.pc.job? = some (k, job) := by
        rw [hpc]
        rfl
      rw [hpc] at hwithin
      obtain ⟨ch, hch⟩ := channel k hwithin
      have hbody := hq.sender nsec k job ch rfl hjob hch
      replace hch : (s.log (.event (.encode nsec))).registry.channels[k]? = some ch := hch
      replace hbody : (senderOf ch.channelType).body env ch.topicName
        ((s.log (.event (.encode nsec))).source ch job) ≠ none := hbody
      unfold encode
      simp only [hch]
      split
      · rename_i hnone
        exact absurd hnone hbody
      all_goals rintro ⟨⟩
  | stamp now =>
    obtain ⟨k, due, -, rfl⟩ := fire_stamp.mp hf
    rintro ⟨⟩

/-- A step of a pass that makes nothing throw or trap. -/
def GoesOn (env : Env) (s : State) (l : Label) (t : State) : Prop :=
  s.pc ≠ .idle ∧ NothingThrows env s l t

/-- Such steps keep to the order of the pass. -/
theorem inPass_of_goesOn {env : Env} {s t : State} {es : List Label} (hpc : s.pc = .visit 0)
    (hequipped : Equipped s.registry.channels) (hr : (sys env).Run (GoesOn env) s es t) :
    InPass s es t ∧ Equipped t.registry.channels := by
  refine hr.history (I := fun es t => InPass s es t ∧ Equipped t.registry.channels)
    ⟨.start hpc, hequipped⟩ fun es t l u _ h hq hi => ?_
  have hlives := lives_of_nothingThrows hi.2 hi.1.within hq.1 hq.2 h
  refine ⟨?_, hi.2.step h⟩
  cases hl : l.isPass with
  | true => exact hi.1.pass h hl hlives
  | false => exact hi.1.app h hl hq.1 hlives

end Foxdbg
