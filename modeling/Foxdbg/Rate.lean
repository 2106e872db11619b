import Foxdbg.Steps
import Foxdbg.Lib.Spaced

/-!
# The rate limit

`foxdbg_protocol_transmit_subscriptions` calls a channel's sender if more than `target_tx_time`
milliseconds have passed since `last_tx_time`, and stores a later reading of the clock after it. So
each reading with which a sender is called (`senderCalls`, from the trace) is more than a period
after the one before it (`Paced`), and no window of one second has more of them than `target_hz`
(`rate_limit`): what the division in `foxdbg_add_channel` rounds away, the strict comparison adds
again.
-/

namespace Foxdbg

/-- The times of a channel: its period, and its last transmission. -/
def Channel.clock (ch : Channel) : UInt64 × UInt64 := (ch.targetTxTime, ch.lastTxTime)

namespace State

/-- The reading of `current_timestamp_ms` that a step makes. -/
def clockReading (s : State) : Label → Option UInt64
  | .visit now =>
    match s.pc with
    | .visit k => s.registry.channels[k]?.map fun _ => now
    | _ => none
  | .stamp now =>
    match s.pc with
    | .stamp _ true => some now
    | _ => none
  | _ => none

/-- The `target_hz` of the channel that a step adds. -/
def addedHz (s : State) : Label → Option Int32
  | .addChannel topicName channelType targetHz al =>
    if targetHz = 0 then none
    else
      (Registry.newChannel s.registry.channelCount topicName channelType targetHz al).map fun _ =>
        targetHz
  | _ => none

/-- The times of the channels. -/
def clocks (s : State) : List (UInt64 × UInt64) := s.registry.channels.map Channel.clock

end State

/-- The reading of a call of the sender of the channel at a place. -/
def Obs.senderCall? (k : Nat) : Obs → Option UInt64
  | .called j now => if j = k then some now else none
  | _ => none

/-- The readings with which the sender of the channel at a place was called, oldest first. -/
def senderCalls (k : Nat) (tr : List Obs) : List UInt64 :=
  (tr.filterMap (Obs.senderCall? k)).reverse

/-- The server thread is between a call of the sender at a place and the store of the time, or has
ended. -/
def Stamping (k : Nat) : Pc → Prop
  | .readInfo j due _ | .encode j due _ | .stamp j due => j = k ∧ due = true
  | .crashed => True
  | _ => False

variable {env : Env} {s t : State} {l : Label} {k : Nat} {now : UInt64}

/-! ## What a step does to the times -/

/-- Only new channels and the stores of the time change the times. -/
theorem Effect.clocks {cs cs' : List Channel} (h : Effect l cs cs')
    (ha : ∀ n ty hz al, l ≠ .addChannel n ty hz al) (hs : ∀ now, l ≠ .stamp now) :
    cs'.map Channel.clock = cs.map Channel.clock := by
  cases h with
  | keep => rfl
  | add => exact absurd rfl (ha _ _ _ _)
  | write u j c d i => exact map_modify_eq (by intro ch; cases j <;> rfl) ..
  | swap u j i => exact map_modify_eq (by intro ch; cases j <;> rfl) ..
  | clear => rw [List.map_map]; rfl
  | subscribe => exact map_modify_eq (by intro ch; rfl) ..
  | stamp now => exact absurd rfl (hs now)

/-- The store of the time is at the channel in service. -/
theorem clocks_stamp (h : s.step env (.stamp now) = some t) (hpc : s.pc = .stamp k true) :
    t.clocks = s.clocks.modify k fun clock => (clock.1, now) := by
  obtain ⟨j, due, hj, rfl⟩ := State.fire_stamp.mp (State.step_eq_some.mp h).2
  cases hpc.symm.trans hj
  refine List.ext_getElem? fun i => ?_
  show ((s.registry.channels.modify k _).map Channel.clock)[i]? = _
  simp only [State.clocks, List.getElem?_map, List.getElem?_modify]
  cases s.registry.channels[i]? with
  | none => rfl
  | some ch => by_cases hij : k = i <;> simp [hij, Channel.clock]

/-- A new channel was never sent. -/
theorem clocks_step (h : s.step env l = some t) :
    t.clocks = s.clocks ++ ((s.addedHz l).toList.map fun hz => (Registry.targetTxTime hz, 0)) ∨
      ∃ now j, l = .stamp now ∧ s.pc = .stamp j true := by
  have hf := (State.step_eq_some.mp h).2
  by_cases ha : ∃ n ty hz al, l = .addChannel n ty hz al
  · obtain ⟨n, ty, hz, al, rfl⟩ := ha
    left
    simp only [State.fire, Registry.addChannel_eq_new] at hf
    unfold State.addedHz State.clocks
    cases hnew : Registry.newChannel s.registry.channelCount n ty hz al with
    | none =>
      rw [show Registry.newChannel (s.log _).registry.channelCount n ty hz al = none
        from hnew] at hf
      cases hf
      simp [State.log, hnew]
    | some ch =>
      rw [show Registry.newChannel (s.log _).registry.channelCount n ty hz al = some ch from hnew]
        at hf
      obtain ⟨-, -, -, -, htarget, hlast⟩ := Registry.newChannel_some hnew
      by_cases hz0 : hz = 0
      · simp only [hz0, if_true] at hf
        cases hf
        simp [hz0, State.log]
      · simp only [hz0, if_false] at hf
        cases hf
        simp [hz0, State.log, hnew, Channel.clock, htarget, hlast]
  by_cases hs : ∃ now, l = .stamp now
  · obtain ⟨now, rfl⟩ := hs
    obtain ⟨j, due, hpc, rfl⟩ := State.fire_stamp.mp hf
    cases due with
    | false => exact .inl (List.append_nil _).symm
    | true => exact .inr ⟨now, j, rfl, hpc⟩
  · left
    have ha' : ∀ n ty hz al, l ≠ .addChannel n ty hz al := fun n ty hz al e => ha ⟨n, ty, hz, al, e⟩
    have hnone : s.addedHz l = none := by
      cases l with
      | addChannel n ty hz al => exact absurd rfl (ha' n ty hz al)
      | _ => rfl
    rw [hnone]
    exact ((State.fire_outcome hf).channels.clocks ha' fun now e => hs ⟨now, e⟩).trans
      (List.append_nil _).symm

/-- The times of the channel at a place change only when its own transmission is stored. -/
theorem clock_step (h : s.step env l = some t)
    (hs : ∀ now, l = .stamp now → s.pc ≠ .stamp k true) :
    t.clocks[k]? = s.clocks[k]? ∨
      s.clocks[k]? = none ∧ ∃ period, t.clocks[k]? = some (period, 0) := by
  obtain hadd | ⟨now, j, rfl, hpc⟩ := clocks_step h
  · rw [hadd]
    cases s.addedHz l with
    | none => exact .inl (by simp)
    | some hz =>
      rcases Nat.lt_trichotomy k s.clocks.length with hk | rfl | hk
      · exact .inl (List.getElem?_append_left hk)
      · exact .inr ⟨by simp, Registry.targetTxTime hz, by simp⟩
      · left
        rw [List.getElem?_eq_none (by simp; omega), List.getElem?_eq_none (by omega)]
  · left
    have hjk : j ≠ k := by
      rintro rfl
      exact hs now rfl hpc
    simp [clocks_stamp h hpc, hjk]

/-- Between a call of a sender and the store of the time, only the server thread moves on. -/
theorem Stamping.step (hp : Stamping k s.pc) (h : s.step env l = some t) :
    Stamping k t.pc ∨ ∃ now, l = .stamp now ∧ s.pc = .stamp k true := by
  obtain ⟨hlive, hf⟩ := State.step_eq_some.mp h
  have app : l.isApp = true → Stamping k t.pc := by
    intro hl
    obtain ⟨hpc | hpc, -⟩ := (State.fire_outcome hf).app hl
    · rw [show t.pc = s.pc from hpc]
      exact hp
    · rw [hpc]
      trivial
  cases l with
  | callback w reason =>
    have hidle : s.pc = .idle := State.idle_of_callback h
    rw [hidle] at hp
    exact hp.elim
  | visit now =>
    obtain ⟨j, hpc, -⟩ := State.fire_visit.mp hf
    rw [show s.pc = .visit j from hpc] at hp
    exact hp.elim
  | readInfo =>
    left
    obtain ⟨j, due, hpc, rfl⟩ | ⟨j, due, job, hpc, rfl⟩ := State.fire_readInfo.mp hf
    · rw [show s.pc = .readInfo j due none from hpc] at hp
      exact hp
    · rw [show s.pc = .readInfo j due (some job) from hpc] at hp
      obtain hv | hv | ⟨ch, -, ⟨-, hv⟩ | ⟨-, info, -, -, hv⟩⟩ :=
        State.readInfo_cases (s.log (.event .readInfo)) j due job <;> rw [hv]
      · trivial
      all_goals exact hp
  | encode nsec =>
    left
    obtain ⟨j, due, hpc, rfl⟩ | ⟨j, due, job, hpc, rfl⟩ := State.fire_encode.mp hf
    · rw [show s.pc = .encode j due none from hpc] at hp
      exact hp
    · rw [show s.pc = .encode j due (some job) from hpc] at hp
      cases State.encode env (s.log (.event (.encode nsec))) j job nsec with
      | ok u => exact hp
      | error u => trivial
  | stamp now =>
    obtain ⟨j, due, hpc, -⟩ := State.fire_stamp.mp hf
    replace hpc : s.pc = .stamp j due := hpc
    rw [hpc] at hp
    obtain ⟨rfl, rfl⟩ := hp
    exact .inr ⟨now, rfl, hpc⟩
  | _ => exact .inl (app rfl)

/-! ## The calls of a step -/

theorem senderCalls_append (k : Nat) (tr tr' : List Obs) :
    senderCalls k (tr' ++ tr) = senderCalls k tr ++ senderCalls k tr' := by
  rw [senderCalls, List.filterMap_append, List.reverse_append]
  rfl

/-- The start of an iteration records the call of its sender. -/
theorem trace_visit {ch : Channel} (h : s.step env (.visit now) = some t) (hpc : s.pc = .visit k)
    (hch : s.registry.channels[k]? = some ch) :
    t.trace = State.calls k now ch ++ .event (.visit now) :: s.trace := by
  obtain ⟨j, hj, rfl⟩ := State.fire_visit.mp (State.step_eq_some.mp h).2
  cases hpc.symm.trans hj
  rw [State.visit_some (s := s.log _) hch]
  rfl

/-- The sender of the channel at a place is called by the start of its iteration only, and only if
the channel is due. -/
theorem senderCalls_step (h : s.step env l = some t) :
    senderCalls k t.trace = senderCalls k s.trace ∨
      ∃ now ch, l = .visit now ∧ s.pc = .visit k ∧ s.registry.channels[k]? = some ch ∧
        State.isDue ch now = true ∧ senderCalls k t.trace = senderCalls k s.trace ++ [now] := by
  have hf := (State.step_eq_some.mp h).2
  have none_added : ∀ obs : List Obs, t.trace = obs ++ s.trace →
      (∀ o ∈ obs, o.senderCall? k = none) → senderCalls k t.trace = senderCalls k s.trace := by
    intro obs htr hobs
    rw [htr, senderCalls_append, senderCalls, senderCalls, List.filterMap_eq_nil_iff.mpr hobs]
    exact List.append_nil _
  by_cases hl : ∃ now, l = .visit now
  · obtain ⟨now, rfl⟩ := hl
    obtain ⟨j, hpc, hv⟩ := State.fire_visit.mp hf
    replace hpc : s.pc = .visit j := hpc
    cases hch : s.registry.channels[j]? with
    | none =>
      refine .inl (none_added [.event (.visit now)] ?_ (List.forall_mem_singleton.mpr rfl))
      rw [← hv]
      simp only [State.visit, State.log, hch]
      rfl
    | some ch =>
      have htr := trace_visit h hpc hch
      unfold State.calls at htr
      split at htr
      · rename_i hgate
        by_cases hjk : j = k
        · subst hjk
          refine .inr ⟨now, ch, rfl, hpc, hch, hgate.2, ?_⟩
          rw [htr]
          exact (senderCalls_append j s.trace [.called j now, .event (.visit now)]).trans
            (by simp [senderCalls, Obs.senderCall?])
        · refine .inl (none_added [.called j now, .event (.visit now)] htr ?_)
          exact List.forall_mem_cons.mpr ⟨if_neg hjk, List.forall_mem_singleton.mpr rfl⟩
      · exact .inl (none_added [.event (.visit now)] htr (List.forall_mem_singleton.mpr rfl))
  · obtain ⟨obs, htr, hobs⟩ := (State.fire_outcome hf).trace
    refine .inl (none_added (obs ++ [.event l]) (htr.trans (by simp [State.log])) fun o ho => ?_)
    obtain ho | ho := List.mem_append.mp ho
    · cases o with
      | called j now => exact absurd ⟨now, hobs _ ho⟩ hl
      | _ => rfl
    · rw [List.mem_singleton.mp ho]
      rfl

/-! ## The gap between two calls -/

/-- The readings and the sender calls of the channel at a place so far: each call is a period and
more after the ones before it, and no later than the last store of the time, or the store is still
to come. -/
structure Paced (k : Nat) (s : State) (readings calls : List UInt64) : Prop where
  read : ∀ a ∈ calls, a ∈ readings
  absent : s.clocks[k]? = none → calls = []
  last : ∀ period last, s.clocks[k]? = some (period, last) → last = 0 ∨ last ∈ readings
  gap : ∀ period last, s.clocks[k]? = some (period, last) →
    Spaced (period.toNat + 1) (calls.map (·.toNat))
  stored : ∀ period last, s.clocks[k]? = some (period, last) →
    (∀ a ∈ calls, a ≤ last) ∨ Stamping k s.pc

variable {readings calls : List UInt64}

/-- A due channel's last transmission is more than a period ago. -/
theorem add_period_lt {ch : Channel} (h : State.isDue ch now = true) (hle : ch.lastTxTime ≤ now) :
    ch.lastTxTime.toNat + ch.targetTxTime.toNat < now.toNat := by
  have hlt := UInt64.lt_iff_toNat_lt.mp (of_decide_eq_true h)
  rw [UInt64.toNat_sub_of_le _ _ hle] at hlt
  omega

namespace Paced

theorem init (k : Nat) : Paced k .init [] [] where
  read := nofun
  absent _ := rfl
  last := by simp [State.clocks, State.init, Registry.init]
  gap := by simp [State.clocks, State.init, Registry.init]
  stored := by simp [State.clocks, State.init, Registry.init]

/-- The step calls the sender: the reading is more than a period after the last store. -/
theorem call {ch : Channel} (hi : Paced k s readings calls) (h : s.step env (.visit now) = some t)
    (hpc : s.pc = .visit k) (hch : s.registry.channels[k]? = some ch)
    (hdue : State.isDue ch now = true) (hlatest : ∀ a ∈ readings, a ≤ now) :
    Paced k t (readings ++ [now]) (calls ++ [now]) := by
  have hclock : s.clocks[k]? = some (ch.targetTxTime, ch.lastTxTime) := by
    rw [State.clocks, List.getElem?_map, hch]
    rfl
  have hsame : t.clocks[k]? = s.clocks[k]? :=
    (clock_step h nofun).resolve_right fun hnew => by rw [hclock] at hnew; cases hnew.1
  have hpc' : Stamping k t.pc := by
    obtain ⟨j, hj, rfl⟩ := State.fire_visit.mp (State.step_eq_some.mp h).2
    cases hpc.symm.trans hj
    rw [State.visit_some (s := s.log _) hch]
    exact ⟨rfl, hdue⟩
  have hlast : ch.lastTxTime ≤ now := by
    rcases hi.last _ _ hclock with hzero | hread
    · rw [hzero]
      exact UInt64.zero_le
    · exact hlatest _ hread
  have hbefore : ∀ a ∈ calls, a ≤ ch.lastTxTime := by
    refine (hi.stored _ _ hclock).resolve_right ?_
    rw [hpc]
    exact id
  have hgap := add_period_lt hdue hlast
  rw [hclock] at hsame
  refine ⟨?_, fun hnone => ?_, ?_, ?_, fun _ _ _ => .inr hpc'⟩
  · intro a ha
    exact (List.mem_append.mp ha).elim (fun ha => List.mem_append_left _ (hi.read a ha))
      (List.mem_append_right _)
  · cases hsame.symm.trans hnone
  · rintro period last hat
    cases hsame.symm.trans hat
    exact (hi.last _ _ hclock).imp_right (List.mem_append_left _)
  · rintro period last hat
    cases hsame.symm.trans hat
    rw [List.map_append]
    refine (hi.gap _ _ hclock).snoc fun a ha => ?_
    obtain ⟨b, hb, rfl⟩ := List.mem_map.mp ha
    have hle := UInt64.le_iff_toNat_le.mp (hbefore b hb)
    show b.toNat + (ch.targetTxTime.toNat + 1) ≤ now.toNat
    omega

/-- The step stores the time. -/
theorem store (hi : Paced k s readings calls) (h : s.step env (.stamp now) = some t)
    (hpc : s.pc = .stamp k true) (hlatest : ∀ a ∈ readings, a ≤ now) :
    Paced k t (readings ++ [now]) calls := by
  have hclocks := clocks_stamp h hpc
  have hat : ∀ period last, t.clocks[k]? = some (period, last) →
      last = now ∧ ∃ last₀, s.clocks[k]? = some (period, last₀) := by
    intro period last hat
    rw [hclocks, List.getElem?_modify] at hat
    obtain ⟨clock, hclock, hnow⟩ := Option.map_eq_some_iff.mp hat
    simp only [if_true, Prod.mk.injEq] at hnow
    exact ⟨hnow.2.symm, clock.2, by rw [hclock, ← hnow.1]⟩
  refine ⟨fun a ha => List.mem_append_left _ (hi.read a ha), ?_, ?_, ?_, ?_⟩
  · intro hnone
    refine hi.absent ?_
    rw [hclocks, List.getElem?_modify] at hnone
    exact Option.map_eq_none_iff.mp hnone
  · intro period last hlast
    obtain ⟨rfl, -⟩ := hat _ _ hlast
    exact .inr (List.mem_append_right _ List.mem_cons_self)
  · intro period last hlast
    obtain ⟨-, last₀, hold⟩ := hat _ _ hlast
    exact hi.gap _ _ hold
  · intro period last hlast
    obtain ⟨rfl, -⟩ := hat _ _ hlast
    exact .inl fun a ha => hlatest a (hi.read a ha)

/-- Any other step. -/
theorem other (hi : Paced k s readings calls) (h : s.step env l = some t)
    (hs : ∀ now, l = .stamp now → s.pc ≠ .stamp k true) (more : List UInt64) :
    Paced k t (readings ++ more) calls := by
  have hread : ∀ a ∈ calls, a ∈ readings ++ more := fun a ha =>
    List.mem_append_left _ (hi.read a ha)
  obtain hsame | ⟨hnone, period, hnew⟩ := clock_step h hs
  · refine ⟨hread, hsame ▸ hi.absent, fun period last hat => ?_, fun period last hat => ?_,
      fun period last hat => ?_⟩
    · exact (hi.last _ _ (hsame ▸ hat)).imp_right (List.mem_append_left _)
    · exact hi.gap _ _ (hsame ▸ hat)
    · refine (hi.stored _ _ (hsame ▸ hat)).imp_right fun hp => ?_
      exact (hp.step h).resolve_right fun ⟨now, hl, hpc⟩ => hs now hl hpc
  · obtain rfl := hi.absent hnone
    refine ⟨nofun, fun _ => rfl, fun period last hat => ?_, fun _ _ _ => .nil,
      fun _ _ _ => .inl nofun⟩
    rw [hnew] at hat
    cases hat
    exact .inl rfl

/-- A step that reads the clock no earlier than before keeps the pace. -/
theorem step (hi : Paced k s readings (senderCalls k s.trace)) (h : s.step env l = some t)
    (hclock : (readings ++ (s.clockReading l).toList).Pairwise (· ≤ ·)) :
    Paced k t (readings ++ (s.clockReading l).toList) (senderCalls k t.trace) := by
  have hlatest : ∀ now, s.clockReading l = some now → ∀ a ∈ readings, a ≤ now := by
    intro now hnow a ha
    rw [hnow] at hclock
    exact (List.pairwise_append.mp hclock).2.2 a ha now List.mem_cons_self
  obtain hsame | ⟨now, ch, rfl, hpc, hch, hdue, hcall⟩ := senderCalls_step h (k := k)
  · rw [hsame]
    by_cases hs : ∃ now, l = .stamp now ∧ s.pc = .stamp k true
    · obtain ⟨now, rfl, hpc⟩ := hs
      have hread : s.clockReading (.stamp now) = some now := by
        simp only [State.clockReading, hpc]
      rw [hread]
      exact hi.store h hpc (hlatest now hread)
    · exact hi.other h (fun now hl hpc => hs ⟨now, hl, hpc⟩) _
  · have hread : s.clockReading (.visit now) = some now := by
      simp only [State.clockReading, hpc, hch, Option.map_some]
    rw [hcall, hread]
    exact hi.call h hpc hch hdue (hlatest now hread)

end Paced

/-! ## The rate -/

/-- The period of a channel with a positive rate, in milliseconds. -/
theorem toNat_targetTxTime {hz : Int32} (hhz : 1 ≤ hz) :
    (Registry.targetTxTime hz).toNat = 1000 / hz.toInt.toNat := by
  have hint : 1 ≤ hz.toInt := Int32.le_iff_toInt_le.mp hhz
  have hdiv : (1000 / hz).toInt = (1000 / hz.toInt.toNat : Nat) := by
    rw [Int32.toInt_div_of_ne_left _ _ (by decide),
      show (1000 : Int32).toInt = (1000 : Nat) by decide]
    conv_lhs => rw [← Int.toNat_of_nonneg (show 0 ≤ hz.toInt by omega)]
    rfl
  have hnonneg : 0 ≤ (1000 / hz).toInt64 := by
    rw [Int64.le_iff_toInt_le, Int32.toInt_toInt64, hdiv]
    exact Int.natCast_nonneg _
  rw [Registry.targetTxTime, Int64.toNat_toUInt64_of_le hnonneg, Int32.toNatClampNeg_toInt64]
  show (1000 / hz).toInt.toNat = _
  rw [hdiv, Int.toNat_natCast]

/-- The periods of the channels are those of the rates that they were added with. -/
theorem periods_of_run {es : List Label} (hr : (sys env).Reach .init es s) :
    s.clocks.map (·.1) = ((sys env).collect State.addedHz .init es).map Registry.targetTxTime := by
  refine hr.history rfl (I := fun es s => s.clocks.map (·.1) =
    ((sys env).collect State.addedHz .init es).map Registry.targetTxTime) ?_
  intro es s l t hr h _ hi
  rw [hr.collect_snoc, List.map_append, ← hi]
  obtain hadd | ⟨now, k, rfl, hpc⟩ := clocks_step h
  · rw [hadd, List.map_append]
    cases s.addedHz l <;> rfl
  · rw [clocks_stamp h hpc, map_modify_eq (by intro clock; rfl)]
    exact (List.append_nil _).symm

/-- **The rate limit.** In a run in which the clock does not go back, the sender of a channel that
was added with a positive `target_hz` is called at most `target_hz` times in each second. -/
theorem rate_limit {es : List Label} {hz : Int32} (hr : (sys env).Reach .init es s)
    (hclock : ((sys env).collect State.clockReading .init es).Pairwise (· ≤ ·))
    (hhz : ((sys env).collect State.addedHz .init es)[k]? = some hz) (hpos : 1 ≤ hz)
    (start : Nat) :
    (senderCalls k s.trace).countP
      (fun now => start ≤ now.toNat ∧ now.toNat < start + 1000) ≤ hz.toInt.toNat := by
  have hpaced := hr.history (I := fun es s =>
      ((sys env).collect State.clockReading .init es).Pairwise (· ≤ ·) →
      Paced k s ((sys env).collect State.clockReading .init es) (senderCalls k s.trace))
    (fun _ => .init k)
    (fun es s l t hr h _ hi hclock => by
      rw [hr.collect_snoc] at hclock
      rw [hr.collect_snoc]
      exact (hi (List.pairwise_append.mp hclock).1).step h hclock) hclock
  have hperiod : s.clocks[k]?.map (·.1) = some (Registry.targetTxTime hz) := by
    rw [← List.getElem?_map, periods_of_run hr, List.getElem?_map, hhz]
    rfl
  obtain ⟨⟨period, last⟩, hat, rfl⟩ := Option.map_eq_some_iff.mp hperiod
  have hspaced := hpaced.gap _ _ hat
  have hn : 0 < hz.toInt.toNat := by
    have hint : 1 ≤ hz.toInt := Int32.le_iff_toInt_le.mp hpos
    omega
  have hlong : 1000 ≤ hz.toInt.toNat * ((Registry.targetTxTime hz).toNat + 1) := by
    rw [toNat_targetTxTime hpos]
    exact Nat.le_of_lt (Nat.lt_mul_div_succ 1000 hn)
  have hcount := hspaced.countP_window hlong start
  rwa [List.countP_map] at hcount

/-- A subscribed channel of 3 Hz and three passes; the second one is 333 ms after the first. -/
def threeHertzRun : List Label :=
  [.addChannel (ascii "a") (some .boolean) 3 .zeroed, .callback 1 .established,
    .callback 1 (.receive (subscribeText 5 0)), .callback 1 .serverWriteable] ++
  iteration 400 0 ++ [.visit 400, .callback 1 .serverWriteable] ++
  iteration 733 0 ++ [.visit 733, .callback 1 .serverWriteable] ++ iteration 734 0

theorem three_hertz : ∃ s, (sys .standIn).Reach .init threeHertzRun s ∧
    senderCalls 0 s.trace = [400, 734] ∧
    (senderCalls 0 s.trace).countP
      (fun now => 400 ≤ now.toNat ∧ now.toNat < 400 + 1000) ≤ 3 := by
  obtain ⟨s, hr, hcalls⟩ := Lts.exists_reach (L := sys .standIn) (s := .init) threeHertzRun
    (p := fun s => senderCalls 0 s.trace == [400, 734]) (by decide +kernel)
  obtain ⟨hclock, hhz⟩ :
      ((sys .standIn).collect State.clockReading .init threeHertzRun).Pairwise (· ≤ ·) ∧
      ((sys .standIn).collect State.addedHz .init threeHertzRun)[0]? = some 3 := by decide +kernel
  exact ⟨s, hr, eq_of_beq hcalls,
    rate_limit hr hclock hhz (show (1 : Int32) ≤ 3 by decide) 400⟩

end Foxdbg
