import Foxdbg.Passes
import Foxdbg.Rate
import Foxdbg.Lib.JsonDenotes

/-!
# Starvation

`foxdbg_add_channel` takes any `int` for `target_hz`. The division traps at 0; from -1000 to -1 the
quotient is negative, and as a `uint64_t` it is a period of more than 500 million years, so the
channel is never due. All other rates give a period of at most one second, and then each pass calls
the sender of a subscribed channel whose last transmission is more than a second ago, unless an
exception of an earlier sender ends it (`not_starved_iff`).
-/

namespace Foxdbg

open Json

/-! ## The period -/

/-- A rate for which `foxdbg_add_channel` makes a period of at most a second. -/
def GoodRate (hz : Int32) : Prop := 1 ≤ hz ∨ hz < -1000

instance (hz : Int32) : Decidable (GoodRate hz) := inferInstanceAs (Decidable (_ ∨ _))

/-- The period of a negative rate: the quotient is converted to `uint64_t`. -/
theorem toNat_targetTxTime_neg {hz : Int32} {n : Nat} (hhz : hz.toInt = -n) :
    (Registry.targetTxTime hz).toNat = if 1000 / n = 0 then 0 else 2 ^ 64 - 1000 / n := by
  have hdiv : (1000 / hz).toInt = -((1000 / n : Nat) : Int) := by
    rw [Int32.toInt_div_of_ne_left _ _ (by decide),
      show (1000 : Int32).toInt = (1000 : Nat) by decide, hhz, Int.tdiv_neg]
    rfl
  have hbits : ∀ x : Int64, x.toInt =
      if 2 * x.toUInt64.toNat < 2 ^ 64 then (x.toUInt64.toNat : Int)
      else x.toUInt64.toNat - 2 ^ 64 := by
    intro x
    rw [← Int64.toInt_toBitVec, BitVec.toInt_eq_toNat_cond, Int64.toNat_toBitVec]
    norm_cast
  have hquot := hbits (1000 / hz).toInt64
  rw [Int32.toInt_toInt64, hdiv] at hquot
  have hlt := (1000 / hz).toInt64.toUInt64.toNat_lt
  have hle : 1000 / n ≤ 1000 := Nat.div_le_self _ _
  unfold Registry.targetTxTime
  generalize 1000 / n = q at *
  split at hquot <;> split <;> omega

/-- A good rate gives a period of at most a second. -/
theorem GoodRate.le {hz : Int32} (h : GoodRate hz) : (Registry.targetTxTime hz).toNat ≤ 1000 := by
  obtain hpos | hneg := h
  · rw [toNat_targetTxTime hpos]
    exact Nat.div_le_self _ _
  · have hint : hz.toInt < -1000 := Int32.lt_iff_toInt_lt.mp hneg
    rw [toNat_targetTxTime_neg (n := hz.toInt.natAbs) (by omega),
      if_pos (Nat.div_eq_of_lt (by omega))]
    exact Nat.zero_le _

/-- A rate from -1000 to -1 gives a period that never ends. -/
theorem le_targetTxTime {hz : Int32} (hlow : -1000 ≤ hz) (hhigh : hz ≤ -1) :
    2 ^ 64 - 1000 ≤ (Registry.targetTxTime hz).toNat := by
  have hlow' : -1000 ≤ hz.toInt := Int32.le_iff_toInt_le.mp hlow
  have hhigh' : hz.toInt ≤ -1 := Int32.le_iff_toInt_le.mp hhigh
  rw [toNat_targetTxTime_neg (n := hz.toInt.natAbs) (by omega)]
  have hpos : 0 < 1000 / hz.toInt.natAbs := Nat.div_pos (by omega) (by omega)
  have hle : 1000 / hz.toInt.natAbs ≤ 1000 := Nat.div_le_self _ _
  split <;> omega

/-! ## Due channels -/

/-- No channel of this type and rate is starved: `foxdbg_add_channel` computes a period; and in
every run with a clock that does not go back, a pass comes to the channel with its `4 * k + 1`-th
step, if no sender throws before it, and it calls the sender, once and with its reading of the
clock, if the channel is subscribed and its last transmission is more than a second ago. -/
structure NotStarved (type : ChannelType) (hz : Int32) : Prop where
  computes : ∀ (r : Registry) (topicName : Bytes) (al : Alloc),
    r.addChannel topicName (some type) hz al ≠ none
  served : ∀ {env : Env} {es es' fs : List Label} {s₀ s t : State} {topicName : Bytes} {al : Alloc}
    {r : Registry} {id : Int32} {k : Nat} {ch : Channel},
    (sys env).Reach .init es s₀ →
    s₀.registry.addChannel topicName (some type) hz al = some (r, id) → 0 ≤ id →
    k = s₀.registry.channels.length →
    (sys env).Reach s₀ (.addChannel topicName (some type) hz al :: es') s →
    s.pc = .visit 0 → s.registry.channels[k]? = some ch → ch.Subscribed →
    (sys env).Run (GoesOn env) s fs t → 4 * k < fs.countP Label.isPass →
    ((sys env).collect State.clockReading .init
      (es ++ .addChannel topicName (some type) hz al :: es' ++ fs)).Pairwise (· ≤ ·) →
    ∃ fs₁ now fs₂ u, fs = fs₁ ++ .visit now :: fs₂ ∧ (sys env).Reach s fs₁ u ∧ u.pc = .visit k ∧
      (ch.lastTxTime.toNat + 1000 < now.toNat →
        senderCalls k t.trace = senderCalls k s.trace ++ [now])

variable {env : Env} {s t : State} {k : Nat} {ch : Channel} {now : UInt64} {hz : Int32}
  {type : ChannelType}

/-- A channel keeps its period. -/
theorem period_of_run {es : List Label} {period : UInt64} (hr : (sys env).Reach s es t)
    (h : s.clocks[k]?.map (·.1) = some period) : t.clocks[k]?.map (·.1) = some period := by
  refine hr.inv (I := fun s => s.clocks[k]?.map (·.1) = some period)
    (fun s l t hstep _ hi => ?_) h
  obtain hadd | ⟨now, j, rfl, hpc⟩ := clocks_step hstep
  · rw [hadd, List.getElem?_append_left, hi]
    by_contra hk
    rw [List.getElem?_eq_none (Nat.le_of_not_lt hk)] at hi
    cases hi
  · rw [clocks_stamp hstep hpc, List.getElem?_modify, ← hi]
    cases s.clocks[k]? with
    | none => rfl
    | some clock =>
      by_cases hjk : j = k <;> simp [hjk]

/-- The period of a channel that is added. -/
theorem period_of_add {topicName : Bytes} {al : Alloc} {r : Registry} {id : Int32}
    (hadd : s.registry.addChannel topicName (some type) hz al = some (r, id)) (hid : 0 ≤ id)
    (h : s.step env (.addChannel topicName (some type) hz al) = some t) :
    t.clocks[s.registry.channels.length]?.map (·.1) = some (Registry.targetTxTime hz) := by
  have hf := (State.step_eq_some.mp h).2
  have hadd' : (s.log (.event (.addChannel topicName (some type) hz al))).registry.addChannel
    topicName (some type) hz al = some (r, id) := hadd
  simp only [State.fire, hadd'] at hf
  cases hf
  rw [Registry.addChannel_eq_new] at hadd
  cases hnew : Registry.newChannel s.registry.channelCount topicName (some type) hz al with
  | none =>
    rw [hnew] at hadd
    cases hadd
    exact absurd hid (by decide)
  | some ch =>
    obtain ⟨-, -, -, -, htarget, -⟩ := Registry.newChannel_some hnew
    rw [hnew] at hadd
    dsimp only at hadd
    split at hadd
    · cases hadd
    · cases hadd
      simp [State.clocks, Channel.clock, htarget]

/-- A channel with a period of at most a second is due more than a second after its last
transmission. -/
theorem isDue_of_le (hperiod : ch.targetTxTime.toNat ≤ 1000)
    (hlate : ch.lastTxTime.toNat + 1000 < now.toNat) : State.isDue ch now = true := by
  have hle : ch.lastTxTime ≤ now := UInt64.le_iff_toNat_le.mpr (by omega)
  refine decide_eq_true (UInt64.lt_iff_toNat_lt.mpr ?_)
  rw [UInt64.toNat_sub_of_le _ _ hle]
  omega

/-! ## The pass comes to the channel -/

/-- What a pass from `s` has done for the subscribed channel at a place: it has not come to it, and
the channel is as it was; or it has read the clock there, and called the sender if it was due. -/
inductive Comes (env : Env) (k : Nat) (ch : Channel) (s : State) : List Label → State → Prop
  | before {es : List Label} {t : State} : es.countP Label.isPass ≤ 4 * k →
      t.clocks[k]? = some ch.clock → t.table[k]? = some ch.row →
      senderCalls k t.trace = senderCalls k s.trace → Comes env k ch s es t
  | past {es es' : List Label} {now : UInt64} {u t : State} : (sys env).Reach s es u →
      u.pc = .visit k → 4 * k < (es ++ .visit now :: es').countP Label.isPass →
      senderCalls k t.trace =
        senderCalls k s.trace ++ (if State.isDue ch now then [now] else []) →
      Comes env k ch s (es ++ .visit now :: es') t

/-- At the start of the iteration of a subscribed channel, its sender is called if it is due. -/
theorem senderCalls_visit {ch₀ : Channel} (h : s.step env (.visit now) = some t)
    (hpc : s.pc = .visit k) (hclock : s.clocks[k]? = some ch₀.clock)
    (hrow : s.table[k]? = some ch₀.row) (hsub : ch₀.Subscribed) :
    senderCalls k t.trace =
      senderCalls k s.trace ++ (if State.isDue ch₀ now then [now] else []) := by
  rw [State.clocks, List.getElem?_map, Option.map_eq_some_iff] at hclock
  obtain ⟨ch, hch, hclock⟩ := hclock
  obtain ⟨hperiod, hlast⟩ := Prod.mk.inj hclock
  have hsubscription : ch.subscriptionId = ch₀.subscriptionId :=
    congrArg Prod.snd (Option.some.inj ((State.table_of_channel hch).symm.trans hrow))
  have hdue : State.isDue ch now = State.isDue ch₀ now := by
    rw [State.isDue, State.isDue, hperiod, hlast]
  have hsub' : ch.Subscribed := by
    rw [Channel.Subscribed, hsubscription]
    exact hsub
  have hcalls : State.calls k now ch = if State.isDue ch₀ now then [.called k now] else [] := by
    rw [State.calls, hdue]
    exact if_congr (and_iff_right hsub') rfl rfl
  rw [trace_visit h hpc hch, hcalls]
  have hlogged := senderCalls_append k s.trace
  cases State.isDue ch₀ now with
  | true =>
    refine (hlogged [.called k now, .event (.visit now)]).trans ?_
    simp [senderCalls, Obs.senderCall?]
  | false => exact hlogged [.event (.visit now)]

/-- The place with as many steps before it as the start of an iteration. -/
theorem pc_of_steps {pc : Pc} {n : Nat} (h : pc.steps n = 4 * k) (hidle : pc ≠ .idle)
    (hlive : pc ≠ .crashed) : pc = .visit k := by
  cases pc with
  | visit j =>
    simp only [Pc.steps] at h
    rw [show j = k by omega]
  | readInfo j due job =>
    simp only [Pc.steps] at h
    omega
  | encode j due job =>
    simp only [Pc.steps] at h
    omega
  | stamp j due =>
    simp only [Pc.steps] at h
    omega
  | idle => exact absurd rfl hidle
  | crashed => exact absurd rfl hlive

theorem Comes.step {es : List Label} {l : Label} {u : State} (hc : Comes env k ch s es t)
    (hsub : ch.Subscribed) (hr : (sys env).Reach s es t) (hi : State.InPass s es t)
    (hidle : t.pc ≠ .idle) (h : t.step env l = some u) : Comes env k ch s (es ++ [l]) u := by
  have hlive := (State.step_eq_some.mp h).1
  have at_visit : t.pc = .visit k → es.countP Label.isPass = 4 * k := by
    intro hpc
    rw [hi.steps, hpc]
    rfl
  cases hc with
  | @past es₁ es₂ now v _ hv hpc hcount hcalls =>
    rw [List.append_assoc, List.cons_append]
    refine .past hv hpc ?_ ?_
    · rw [← List.cons_append, ← List.append_assoc, List.countP_append]
      omega
    · obtain hsame | ⟨now', ch', rfl, hat, -⟩ := senderCalls_step h (k := k)
      · rw [hsame, hcalls]
      · have hback := at_visit hat
        omega
  | before hcount hclock hrow hcalls =>
    by_cases hvisit : l.isPass = true ∧ es.countP Label.isPass = 4 * k
    · -- the step is the start of the iteration
      obtain ⟨hl, hfull⟩ := hvisit
      have hpc : t.pc = .visit k := pc_of_steps (hi.steps.symm.trans hfull) hidle hlive
      obtain ⟨now, rfl⟩ : ∃ now, l = .visit now := by
        have hf := (State.step_eq_some.mp h).2
        have hlogged : (t.log (.event l)).pc = .visit k := hpc
        cases l with
        | visit now => exact ⟨now, rfl⟩
        | readInfo => simp [State.fire, hlogged] at hf
        | encode nsec => simp [State.fire, hlogged] at hf
        | stamp now => simp [State.fire, hlogged] at hf
        | _ => cases hl
      refine .past hr hpc ?_ ?_
      · rw [List.countP_append, hfull]
        exact Nat.lt_succ_self _
      · rw [senderCalls_visit h hpc hclock hrow hsub, hcalls]
    · have hcount' : (es ++ [l]).countP Label.isPass ≤ 4 * k := by
        rw [List.countP_append, List.countP_singleton]
        split
        · rename_i hl
          have hne : es.countP Label.isPass ≠ 4 * k := fun hfull => hvisit ⟨hl, hfull⟩
          omega
        · omega
      refine .before hcount' ?_ ?_ ?_
      · refine (clock_step h (k := k) ?_).elim (fun hsame => hsame.trans hclock) fun hnew => ?_
        · rintro now rfl hpc
          have hsteps := hi.steps
          rw [hpc, Pc.steps] at hsteps
          omega
        · cases hnew.1.symm.trans hclock
      · refine (State.fire_outcome (State.step_eq_some.mp h).2).row ?_ hrow
        rintro w reason rfl
        exact hidle (State.idle_of_callback h)
      · obtain hsame | ⟨now, ch', rfl, hat, -⟩ := senderCalls_step h (k := k)
        · rw [hsame, hcalls]
        · exact absurd ⟨rfl, at_visit hat⟩ hvisit

/-- A pass comes to each channel, if it has taken so many steps and nothing has thrown. -/
theorem comes_of_pass {es : List Label} (hpc : s.pc = .visit 0)
    (hequipped : Equipped s.registry.channels) (hch : s.registry.channels[k]? = some ch)
    (hsub : ch.Subscribed) (hr : (sys env).Run (GoesOn env) s es t) : Comes env k ch s es t := by
  refine hr.history (I := Comes env k ch s) ?_ fun es t l u hrun h hq hc => ?_
  · refine .before (Nat.zero_le _) ?_ (State.table_of_channel hch) rfl
    rw [State.clocks, List.getElem?_map, hch]
    rfl
  · exact hc.step hsub hrun.reach (inPass_of_goesOn hpc hequipped hrun).1 hq.1 h

/-- A good rate starves no channel. -/
theorem GoodRate.notStarved (h : GoodRate hz) : NotStarved type hz where
  computes r topicName al := by
    have hne : hz ≠ 0 := by
      rintro rfl
      exact absurd h (by decide)
    rw [Registry.addChannel_eq_new]
    split
    · nofun
    · rw [if_neg hne]
      nofun
  served := by
    rintro env es es' fs s₀ s t topicName al r id k ch hr₀ hadd hid rfl hrun hpc hch hsub hpass
      hcount -
    have hequipped : Equipped s.registry.channels :=
      (hr₀.append hrun).inv (I := fun s => Equipped s.registry.channels)
        (fun _ _ _ h _ hi => hi.step h) nofun
    have hcomes := comes_of_pass hpc hequipped hch hsub hpass
    cases hrun with
    | cons hstep _ hrest =>
      have hperiod := period_of_run hrest (period_of_add hadd hid hstep)
      rw [State.clocks, List.getElem?_map, hch] at hperiod
      have htarget : ch.targetTxTime = Registry.targetTxTime hz := Option.some.inj hperiod
      cases hcomes with
      | before hbefore => omega
      | @past fs₁ fs₂ now u _ hu hat _ hcalls =>
        refine ⟨fs₁, now, fs₂, u, rfl, hu, hat, fun hlate => ?_⟩
        rw [hcalls, isDue_of_le (by rw [htarget]; exact h.le) hlate]
        rfl

/-! ## A starved channel -/

/-- A client connects, a channel is added, and the client subscribes it before a pass. -/
theorem subscribed_run (type : ChannelType) (hne : hz ≠ 0) :
    ∃ s₀ r s ch, (sys .standIn).Reach .init [.callback 1 .established] s₀ ∧
      s₀.registry.channels.length = 0 ∧
      s₀.registry.addChannel [] (some type) hz .zeroed = some (r, 0) ∧
      (sys .standIn).Reach s₀ [.addChannel [] (some type) hz .zeroed,
        .callback 1 (.receive (subscribeText (5 : Int32).toInt (0 : Int32).toInt)),
        .callback 1 .serverWriteable] s ∧
      s.pc = .visit 0 ∧ s.registry.channels[0]? = some ch ∧ ch.Subscribed ∧
      ch.lastTxTime = 0 ∧ ch.targetTxTime = Registry.targetTxTime hz := by
  obtain ⟨s₀, hr₀, h₀⟩ := Lts.exists_reach (L := sys .standIn) (s := .init)
    [.callback 1 .established]
    (p := fun s => s.pc == .idle && s.sockets == [1] && s.registry.channels.isEmpty &&
      s.registry.channelCount == 0) (by decide +kernel)
  simp only [Bool.and_eq_true, beq_iff_eq, List.isEmpty_iff] at h₀
  obtain ⟨⟨⟨hpc, hsockets⟩, hnil⟩, hcount⟩ := h₀
  obtain ⟨ch, hnew, hlast, htarget⟩ : ∃ ch, Registry.newChannel 0 [] (some type) hz .zeroed =
      some ch ∧ ch.lastTxTime = 0 ∧ ch.targetTxTime = Registry.targetTxTime hz := by
    cases type <;> exact ⟨_, rfl, rfl, rfl⟩
  obtain ⟨-, hid, -⟩ := Registry.newChannel_some hnew
  have hadd : s₀.registry.addChannel [] (some type) hz .zeroed =
      some ({ s₀.registry with channels := [ch], channelCount := 1 }, 0) := by
    simp only [Registry.addChannel_eq_new, hcount, hnew, hnil, if_neg hne, hid]
    rfl
  let s₁ : State := { s₀.log (.event (.addChannel [] (some type) hz .zeroed)) with
    registry := { s₀.registry with channels := [ch], channelCount := 1 } }
  have hstep₁ : s₀.step .standIn (.addChannel [] (some type) hz .zeroed) = some s₁ := by
    refine State.step_eq_some.mpr ⟨by rw [hpc]; nofun, ?_⟩
    simp only [State.fire, State.log, hadd]
    rfl
  let d := subscribeText (5 : Int32).toInt (0 : Int32).toInt
  let s₂ := (s₁.log (.event (.callback 1 (.receive d)))).setChannels [ch.setSubscription 5]
  have hstep₂ : s₁.step .standIn (.callback 1 (.receive d)) = some s₂ := by
    refine State.step_eq_some.mpr ⟨by rw [show s₁.pc = .idle from hpc]; nofun,
      State.fire_receive.mpr ⟨hpc, ?_, ?_⟩⟩
    · show 1 ∈ s₀.sockets
      rw [hsockets]
      exact List.mem_cons_self
    · rw [receive_subscribeText (i := 0)]
      · rfl
      · show List.findIdx? _ [ch] = some 0
        simp [hid]
  let s₃ : State := { s₂.log (.event (.callback 1 .serverWriteable)) with pc := .visit 0 }
  have hstep₃ : s₂.step .standIn (.callback 1 .serverWriteable) = some s₃ := by
    refine State.step_eq_some.mpr ⟨by rw [show s₂.pc = .idle from hpc]; nofun,
      State.fire_serverWriteable.mpr ⟨hpc, ?_, rfl⟩⟩
    show 1 ∈ s₀.sockets
    rw [hsockets]
    exact List.mem_cons_self
  refine ⟨s₀, _, s₃, ch.setSubscription 5, hr₀, by rw [hnil]; rfl, hadd, ?_, rfl, rfl, ?_, hlast,
    htarget⟩
  · exact .cons hstep₁ trivial (.cons hstep₂ trivial (.cons hstep₃ trivial (.nil _)))
  · show (0 : Int32) ≤ 5
    decide

/-- A rate from -1000 to -1 starves a channel: it is not served 1001 milliseconds after its
start. -/
theorem not_notStarved_of_negative (hlow : -1000 ≤ hz) (hhigh : hz ≤ -1) :
    ¬ NotStarved type hz := by
  intro h
  have hne : hz ≠ 0 := by
    rintro rfl
    exact absurd hhigh (by decide)
  obtain ⟨s₀, r, s, ch, hr₀, hlen, hadd, hr, hpc, hch, hsub, hlast, htarget⟩ :=
    subscribed_run type hne
  obtain ⟨t, hstep⟩ : ∃ t, s.step .standIn (.visit 1001) = some t :=
    ⟨_, State.step_eq_some.mpr ⟨by rw [hpc]; rintro ⟨⟩, State.fire_visit.mpr ⟨0, hpc, rfl⟩⟩⟩
  have hpass : (sys .standIn).Run (GoesOn .standIn) s [.visit 1001] t :=
    .cons hstep ⟨by rw [hpc]; rintro ⟨⟩, nofun, nofun⟩ (.nil t)
  have hclock : ((sys .standIn).collect State.clockReading .init
      ([.callback 1 .established] ++ .addChannel [] (some type) hz .zeroed ::
        [.callback 1 (.receive (subscribeText (5 : Int32).toInt (0 : Int32).toInt)),
          .callback 1 .serverWriteable] ++ [.visit 1001])).Pairwise (· ≤ ·) := by
    -- the pass makes the only reading of the clock
    rw [(hr₀.append hr).collect_snoc, Lts.collect_eq_nil]
    · cases State.clockReading s (.visit 1001) with
      | none => exact .nil
      | some now => exact List.pairwise_singleton _ _
    · intro s l hl
      simp only [List.cons_append, List.nil_append, List.mem_cons, List.not_mem_nil, or_false] at hl
      rcases hl with rfl | rfl | rfl | rfl <;> rfl
  obtain ⟨fs₁, now, fs₂, u, hfs, hu, -, hcalled⟩ := h.served hr₀ hadd (Int32.le_refl 0) hlen.symm hr
    hpc hch hsub hpass (by decide) hclock
  obtain ⟨rfl, rfl⟩ : fs₁ = [] ∧ now = 1001 := by
    cases fs₁ with
    | nil =>
      cases hfs
      exact ⟨rfl, rfl⟩
    | cons l fs₁ =>
      cases fs₁ <;> cases hfs
  have hcalled := hcalled (by rw [hlast]; decide)
  obtain hsame | ⟨now, ch', hl, -, hch', hdue, -⟩ := senderCalls_step hstep (k := 0)
  · rw [hsame] at hcalled
    exact absurd (congrArg List.length hcalled) (by simp)
  · cases hl
    cases hch.symm.trans hch'
    have hlt := UInt64.lt_iff_toNat_lt.mp (of_decide_eq_true hdue)
    have hperiod := le_targetTxTime hlow hhigh
    rw [hlast, htarget, UInt64.sub_zero, show (1001 : UInt64).toNat = 1001 by decide] at hlt
    omega

/-- **Starvation.** A rate starves no channel exactly if it is positive or below -1000. -/
theorem not_starved_iff (type : ChannelType) (hz : Int32) : NotStarved type hz ↔ GoodRate hz := by
  constructor
  · intro h
    by_contra hbad
    simp only [GoodRate, not_or, Int32.not_le, Int32.not_lt] at hbad
    obtain ⟨hhigh, hlow⟩ := hbad
    by_cases hzero : hz = 0
    · subst hzero
      refine h.computes .init [] .zeroed ?_
      cases type <;> rfl
    · refine not_notStarved_of_negative hlow ?_ h
      rw [Int32.le_iff_toInt_le]
      have hlt := Int32.lt_iff_toInt_lt.mp hhigh
      have hne : hz.toInt ≠ 0 := fun h0 => hzero (Int32.toInt_inj.mp h0)
      have hone : (1 : Int32).toInt = 1 := by decide
      have hminus : (-1 : Int32).toInt = -1 := by decide
      omega
  · exact GoodRate.notStarved

/-- The division traps for the rate 0. -/
theorem zero_rate_traps :
    Registry.init.addChannel (ascii "a") (some .boolean) 0 .zeroed = none ∧
    ¬ NotStarved .boolean 0 :=
  ⟨rfl, fun h => h.computes .init (ascii "a") .zeroed rfl⟩

end Foxdbg
