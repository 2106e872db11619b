import Foxdbg.Linearizable

/-!
# Calls on the lists that come to their end

No call waits for another one. `calls_finish`: in the runs of `registry_linearizable`, wherever the
other threads are, a thread that is scheduled alone comes to the end of its call, in a number of
steps that is linear in the length of the list.

The loops end since the nodes from the head of a list on are a chain to `NULL` (`Heap.Chain`). The
channel that a thread adds is not in it until it is linked.
-/

namespace Foxdbg

open Routine (Alone)

/-- `n` nodes are linked from a pointer on, to `NULL`. -/
inductive Heap.Chain (h : Heap) : Option Addr → Nat → Prop
  | nil : Chain h none 0
  | cons {p : Addr} {n : Nat} : Chain h (h.node p).next n → Chain h (some p) (n + 1)

theorem Heap.Chain.store {h : Heap} {q : Option Addr} {n : Nat} (hc : h.Chain q n) (p : Addr)
    (f : Channel → Channel) : (h.store p f).Chain q n := by
  induction hc with
  | nil => exact .nil
  | @cons q n _ ih =>
    refine .cons ?_
    have hnext : ((h.store p f).node q).next = (h.node q).next := by
      show (Function.update h.node p _ q).next = _
      by_cases hq : q = p
      · subst hq
        rw [Function.update_self]
      · rw [Function.update_of_ne hq]
    rwa [hnext]

/-- The list of a call. -/
def ListCall.side : ListCall → Side
  | .add call _ => call.side
  | .walk k => k.side

/-- The call comes to its end from a point, in at most `n` steps. -/
def ListPoint.Ends (n : Nat) (l : ListPoint) (h : Heap) : Prop :=
  ∃ m ≤ n, ∃ v h', Alone listRoutine m l h (.ret v) h'

/-- The members that are left to store are not more than all. -/
def ListPoint.Short : ListPoint → Prop
  | .store _ _ _ rest => rest.length ≤ Member.all.length
  | _ => True

theorem ListPoint.short_goOn (k : Walk) (infos : List Listed) (q : Option Addr) :
    (goOn k infos q).Short := by
  cases q <;> trivial

theorem ListPoint.short_body (h : Heap) (infos : List Listed) (p : Addr) (k : Walk) :
    (body h infos p k).1.Short := by
  rcases k with - | ⟨- | -⟩ | - | - | - | -
  case disconnect => trivial
  case advertise => trivial
  all_goals
    unfold body
    dsimp only
    split <;> trivial

theorem ListPoint.short_step {l l' : ListPoint} {h h' : Heap} (hstep : l.step h = some (l', h'))
    (hl : l.Short) : l'.Short := by
  cases l with
  | malloc call p =>
    simp only [step] at hstep
    split at hstep
    · cases hstep
      trivial
    · split at hstep <;> cases hstep
      exact Nat.le_refl _
  | store call p new rest =>
    cases rest with
    | nil =>
      cases hstep
      trivial
    | cons m rest =>
      simp only [step] at hstep
      split at hstep <;> cases hstep
      exact (Nat.le_succ _).trans hl
  | visit k infos p =>
    obtain rfl : (body h infos p k).1 = l' := congrArg Prod.fst (Option.some.inj hstep)
    exact short_body h infos p k
  | first k =>
    cases hstep
    exact short_goOn ..
  | next k infos p =>
    cases hstep
    exact short_goOn ..
  | loadHead call p =>
    simp only [step] at hstep
    split at hstep <;> cases hstep <;> trivial
  | test call p current =>
    simp only [step] at hstep
    split at hstep <;> cases hstep <;> trivial
  | advance call p current =>
    simp only [step] at hstep
    split at hstep <;> cases hstep <;> trivial
  | link call p current => cases current <;> cases hstep <;> trivial
  | loadInfoBuffer channelId p =>
    simp only [step] at hstep
    split at hstep <;> cases hstep <;> trivial
  | ret v => cases hstep
  | _ =>
    cases hstep
    trivial

namespace ListPoint.Ends

variable {n : Nat} {l l' : ListPoint} {h h' : Heap}

theorem ret (n : Nat) (v : Answer) (h : Heap) : (ListPoint.ret v).Ends n h :=
  ⟨0, Nat.zero_le n, v, h, .done _ _⟩

theorem step (hs : l.step h = some (l', h')) (he : l'.Ends n h') : l.Ends (n + 1) h := by
  obtain ⟨m, hm, v, h₁, halone⟩ := he
  exact ⟨m + 1, Nat.succ_le_succ hm, v, h₁, .step hs halone⟩

theorem mono {m : Nat} (he : l.Ends m h) (hle : m ≤ n) : l.Ends n h := by
  obtain ⟨k, hk, hrest⟩ := he
  exact ⟨k, hk.trans hle, hrest⟩

/-! ## Loops -/

/-- A loop ends from its `next` on. -/
theorem next_visit {n : Nat} {k : Walk} {h : Heap} (hvisit : ∀ infos p, h.Chain (some p) n →
      (ListPoint.visit k infos p).Ends (4 * n) h) {infos : List Listed} {p : Addr}
    (hc : h.Chain (h.node p).next n) : (ListPoint.next k infos p).Ends (4 * n + 1) h := by
  have hstep : (ListPoint.next k infos p).step h = some (goOn k infos (h.node p).next, h) := rfl
  refine step hstep ?_
  cases hnext : (h.node p).next with
  | none => exact ret _ _ h
  | some q =>
    rw [hnext] at hc
    exact hvisit infos q hc

/-- The test of the info buffer in the loop of `foxdbg_write_channel_info`. -/
theorem loadInfoBuffer {channelId : Int32} {p : Addr}
    (he : (ListPoint.next (.find .info channelId) [] p).Ends n h) :
    (ListPoint.loadInfoBuffer channelId p).Ends (n + 1) h := by
  have hload : (ListPoint.loadInfoBuffer channelId p).step h =
      if (h.node p).channel.infoBuffer.isSome then some (.ret (.channel (some p)), h)
      else some (.next (.find .info channelId) [] p, h) := rfl
  split at hload
  · exact (step hload (ret 0 _ h)).mono (by omega)
  · exact step hload he

/-- A loop ends from a node on. -/
theorem visit (k : Walk) {n : Nat} {h : Heap} {infos : List Listed} {p : Addr}
    (hc : h.Chain (some p) n) : (ListPoint.visit k infos p).Ends (4 * n) h := by
  induction n generalizing h infos p with
  | zero => cases hc
  | succ n ih =>
    cases hc with
    | cons hc =>
      have hnext : ∀ infos', (ListPoint.next k infos' p).Ends (4 * n + 1) h := fun _ =>
        next_visit (fun _ _ => ih) hc
      cases k with
      | get side topicName =>
        refine step (n := 4 * n + 3) rfl ?_
        split
        · exact (step (n := 0) rfl (ret _ _ h)).mono (by omega)
        · exact (hnext infos).mono (by omega)
      | find kind channelId =>
        cases kind with
        | data =>
          refine step (n := 4 * n + 3) rfl ?_
          split
          · exact ret _ _ h
          · exact (hnext infos).mono (by omega)
        | info =>
          refine step (n := 4 * n + 3) rfl ?_
          split
          · exact (loadInfoBuffer (hnext [])).mono (by omega)
          · exact (hnext infos).mono (by omega)
      | subscribe id channelId =>
        refine step (n := 4 * n + 3) rfl ?_
        split
        · exact (step (n := 0) rfl (ret _ _ _)).mono (by omega)
        · exact (hnext infos).mono (by omega)
      | unsubscribe id =>
        refine step (n := 4 * n + 3) rfl ?_
        split
        · exact (step (n := 0) rfl (ret _ _ _)).mono (by omega)
        · exact (hnext infos).mono (by omega)
      | disconnect =>
        -- the store leaves the chain
        refine step (n := 4 * n + 3) rfl ((next_visit (fun _ _ => ih) ?_).mono (by omega))
        have hstored := (Heap.Chain.cons hc).store p (Channel.setSubscription (-1))
        cases hstored with
        | cons hc => exact hc
      | advertise =>
        exact step (n := 4 * n + 3) rfl (step (n := 4 * n + 2) rfl (step rfl (hnext _)))

theorem first (k : Walk) (hc : h.Chain (h.head k.side) n) :
    (ListPoint.first k).Ends (4 * n + 1) h := by
  have hstep : (ListPoint.first k).step h = some (goOn k [] (h.head k.side), h) := rfl
  refine step hstep ?_
  cases hhead : h.head k.side with
  | none => exact ret _ _ h
  | some p =>
    rw [hhead] at hc
    exact visit k hc

/-! ## Calls that add -/

theorem loadCounter (call : AddCall) (p : Addr) (h : Heap) :
    (ListPoint.loadCounter call p).Ends 3 h :=
  step rfl (step rfl (step rfl (ret 0 _ _)))

/-- The end of a call that adds, from its `link` on. -/
theorem link (call : AddCall) (p : Addr) (current : Option Addr) (h : Heap) :
    (ListPoint.link call p current).Ends 4 h := by
  cases current with
  | none => exact step rfl (loadCounter call p _)
  | some current => exact step rfl (loadCounter call p _)

/-- The loop to the last node. -/
theorem test (call : AddCall) (p : Addr) {n : Nat} {h : Heap} {current : Addr}
    (hc : h.Chain (some current) n) : (ListPoint.test call p current).Ends (2 * n + 3) h := by
  induction n generalizing current with
  | zero => cases hc
  | succ n ih =>
    cases hc with
    | cons hc =>
      cases hnext : (h.node current).next with
      | none =>
        have htest : (ListPoint.test call p current).step h =
            some (.link call p (some current), h) := by
          simp only [ListPoint.step, hnext]
        exact (step htest (link call p (some current) h)).mono (by omega)
      | some q =>
        have htest : (ListPoint.test call p current).step h =
            some (.advance call p current, h) := by
          simp only [ListPoint.step, hnext]
        have hadvance : (ListPoint.advance call p current).step h = some (.test call p q, h) := by
          simp only [ListPoint.step, hnext]
        rw [hnext] at hc
        exact (step htest (step hadvance (ih hc))).mono (by omega)

theorem advance (call : AddCall) (p : Addr) {current : Addr} (hc : h.Chain (some current) n) :
    (ListPoint.advance call p current).Ends (2 * n + 4) h := by
  cases hc with
  | cons hc =>
    cases hnext : (h.node current).next with
    | none =>
      have hstep : (ListPoint.advance call p current).step h = some (.link call p none, h) := by
        simp only [ListPoint.step, hnext]
      exact (step hstep (link call p none h)).mono (by omega)
    | some q =>
      have hstep : (ListPoint.advance call p current).step h = some (.test call p q, h) := by
        simp only [ListPoint.step, hnext]
      rw [hnext] at hc
      exact (step hstep (test call p hc)).mono (by omega)

theorem loadHead (call : AddCall) (p : Addr) {n : Nat} {h : Heap}
    (hc : h.Chain (h.head call.side) n) : (ListPoint.loadHead call p).Ends (2 * n + 5) h := by
  cases hhead : h.head call.side with
  | none =>
    have hstep : (ListPoint.loadHead call p).step h = some (.link call p none, h) := by
      simp only [ListPoint.step, hhead]
    exact (step hstep (link call p none h)).mono (by omega)
  | some current =>
    have hstep : (ListPoint.loadHead call p).step h = some (.test call p current, h) := by
      simp only [ListPoint.step, hhead]
    rw [hhead] at hc
    exact (step hstep (test call p hc)).mono (by omega)

end ListPoint.Ends

namespace ListWorld

variable {w : ListWorld} {c : ListCall} {l : ListPoint} {r : Option Answer} {p : Addr}
  {side : Side} {i : Nat}

/-- The nodes of a list from a place on are a chain. -/
theorem Linked.chain_from (hl : w.Linked) (side : Side) {m : Nat} :
    ∀ {i : Nat}, i + m = (w.nodes side).length → w.heap.Chain ((w.nodes side)[i]?) m := by
  induction m with
  | zero =>
    intro i hi
    rw [List.getElem?_eq_none (by omega)]
    exact .nil
  | succ m ih =>
    intro i hi
    obtain ⟨p, hat⟩ : ∃ p, (w.nodes side)[i]? = some p :=
      ⟨_, List.getElem?_eq_getElem (by omega)⟩
    rw [hat]
    refine .cons ?_
    rw [hl.next hat]
    exact ih (by omega)

theorem Linked.chain (hl : w.Linked) (side : Side) :
    w.heap.Chain (w.heap.head side) (w.nodes side).length := by
  rw [hl.head]
  exact hl.chain_from side (Nat.zero_add _)

theorem Linked.chain_at (hl : w.Linked) (hat : w.At side i p) :
    w.heap.Chain (some p) ((w.nodes side).length - i) := by
  have hlt := (List.getElem?_eq_some_iff.mp hat).1
  rw [← hat]
  exact hl.chain_from side (by omega)

/-- A loop that goes on from a node of the list. -/
theorem Linked.ends_next {k : Walk} (hl : w.Linked) (hat : w.At k.side i p) (infos : List Listed) :
    (ListPoint.next k infos p).Ends (4 * (w.nodes k.side).length) w.heap := by
  have hchain := hl.chain_at hat
  generalize hn : (w.nodes k.side).length - i = n at hchain
  cases hchain with
  | cons hchain =>
    exact (ListPoint.Ends.next_visit (fun _ _ => .visit k) hchain).mono (by omega)

/-! ## The new node -/

section New

variable (call : AddCall)

theorem Linked.ends_storeNull (hl : w.Linked) (hp : w.Private p) :
    (ListPoint.storeNull call p).Ends (2 * (w.nodes call.side).length + 6) w.heap :=
  .step rfl (.loadHead call p ((hl.put hp _).chain call.side))

theorem Linked.ends_storeId (hl : w.Linked) (hp : w.Private p) (n : Nat) :
    (ListPoint.storeId call p n).Ends (2 * (w.nodes call.side).length + 7) w.heap :=
  .step rfl ((hl.put hp _).ends_storeNull (w := w.setHeap _) call hp)

theorem Linked.ends_loadCount (hl : w.Linked) (hp : w.Private p) :
    (ListPoint.loadCount call p).Ends (2 * (w.nodes call.side).length + 8) w.heap :=
  .step rfl (hl.ends_storeId call hp _)

/-- The stores of the members end, if `1000 / target_hz` does not trap. -/
theorem Linked.ends_store (hl : w.Linked) (hp : w.Private p) (htraps : call.traps = false)
    (new : Channel) (rest : List Member) : (ListPoint.store call p new rest).Ends
      (2 * (w.nodes call.side).length + 9 + rest.length) w.heap := by
  induction rest generalizing w with
  | nil => exact .step rfl (hl.ends_loadCount call hp)
  | cons m rest ih =>
    have hstep : (ListPoint.store call p new (m :: rest)).step w.heap =
        if m = .targetTxTime ∧ call.traps then none
        else some (.store call p new rest, w.heap.store p fun ch => m.store new ch) := rfl
    rw [if_neg (by rw [htraps]; rintro ⟨-, ⟨⟩⟩)] at hstep
    exact .step hstep (ih (w := w.setHeap _) (hl.put hp _) hp)

theorem Linked.ends_malloc (hl : w.Linked) (hp : p ∉ w.heap.allocated)
    (htraps : call.traps = false) : (ListPoint.malloc call p).Ends
      (2 * (w.nodes call.side).length + 17) w.heap := by
  cases hnew : call.channel 0 with
  | none =>
    have hstep : (ListPoint.malloc call p).step w.heap = some (.ret (.id (-1)), w.heap) := by
      simp only [ListPoint.step, hnew]
    exact .step hstep (.ret _ _ _)
  | some new =>
    have hstep : (ListPoint.malloc call p).step w.heap =
        some (.store call p new Member.all, w.heap.malloc p) := by
      simp only [ListPoint.step, hnew]
      exact if_neg hp
    exact .step hstep ((hl.malloc (p := p)).ends_store (w := w.setHeap _) call
      (private_malloc hl hp) htraps new Member.all)

end New

/-- A thread ends its call alone, from what it knows at its point. -/
theorem Fits.ends (hl : w.Linked) (hf : w.Fits c l r) (hshort : l.Short)
    (hmalloc : ∀ call p, l = .malloc call p → p ∉ w.heap.allocated)
    (htraps : ∀ call p, c = .add call p → call.traps = false) :
    l.Ends (4 * (w.nodes c.side).length + 17) w.heap := by
  cases l with
  | malloc call q =>
    obtain rfl := hf.runs
    exact (hl.ends_malloc call (hmalloc call q rfl) (htraps call q rfl)).mono (by
      simp only [ListCall.side]
      omega)
  | store call q new rest =>
    obtain rfl := hf.1.runs
    have hrest : rest.length ≤ 7 := hshort
    exact (hl.ends_store call hf.1.fresh (htraps call q rfl) new rest).mono (by
      simp only [ListCall.side]
      omega)
  | loadCount call q =>
    obtain rfl := hf.runs
    exact (hl.ends_loadCount call (Filled.toBuilding hf).fresh).mono (by
      simp only [ListCall.side]
      omega)
  | storeId call q n =>
    obtain rfl := hf.1.runs
    exact (hl.ends_storeId call hf.1.fresh n).mono (by
      simp only [ListCall.side]
      omega)
  | storeNull call q =>
    obtain rfl := hf.runs
    exact (hl.ends_storeNull call (Made.toBuilding hf).fresh).mono (by
      simp only [ListCall.side]
      omega)
  | loadHead call q =>
    obtain rfl := hf.runs
    exact (ListPoint.Ends.loadHead call q (hl.chain call.side)).mono (by
      simp only [ListCall.side]
      omega)
  | test call q current =>
    obtain ⟨hready, i, hat⟩ := hf
    obtain rfl := hready.runs
    exact (ListPoint.Ends.test call q (hl.chain_at hat)).mono (by
      simp only [ListCall.side]
      omega)
  | advance call q current =>
    obtain ⟨hready, i, hat, hlt⟩ := hf
    obtain rfl := hready.runs
    exact (ListPoint.Ends.advance call q (hl.chain_at hat)).mono (by
      simp only [ListCall.side]
      omega)
  | link call q current => exact (ListPoint.Ends.link ..).mono (by omega)
  | loadCounter call q => exact (ListPoint.Ends.loadCounter call q w.heap).mono (by omega)
  | storeCounter call q n =>
    exact (ListPoint.Ends.step rfl (.step rfl (.ret 0 _ _))).mono (by omega)
  | loadId side q => exact (ListPoint.Ends.step rfl (.ret 0 _ _)).mono (by omega)
  | first k =>
    obtain rfl := hf.1
    exact (ListPoint.Ends.first k (hl.chain k.side)).mono (by
      simp only [ListCall.side]
      omega)
  | visit k infos q =>
    obtain ⟨rfl, -, i, -, hat, -⟩ := hf
    exact (ListPoint.Ends.visit k (hl.chain_at hat)).mono (by
      simp only [ListCall.side]
      omega)
  | loadInfoBuffer channelId q =>
    obtain ⟨rfl, -, i, -, hat, -⟩ := hf
    exact (ListPoint.Ends.loadInfoBuffer (hl.ends_next hat [])).mono (by
      simp only [ListCall.side]
      omega)
  | storeSubscription k q id => exact (ListPoint.Ends.step rfl (.ret 0 _ _)).mono (by omega)
  | loadListedId infos q channelType =>
    obtain ⟨rfl, -, i, -, hat, -⟩ := hf
    exact (ListPoint.Ends.step rfl (.step rfl (hl.ends_next hat _))).mono (by
      simp only [ListCall.side]
      omega)
  | loadListedTopic infos q channelType channelId =>
    obtain ⟨rfl, -, i, -, hat, -⟩ := hf
    exact (ListPoint.Ends.step rfl (hl.ends_next hat _)).mono (by
      simp only [ListCall.side]
      omega)
  | next k infos q =>
    obtain ⟨rfl, -, i, hat, -⟩ := hf
    exact (hl.ends_next hat infos).mono (by
      simp only [ListCall.side]
      omega)
  | ret v => exact .ret _ _ _

end ListWorld

/-- **No blocking.** In the runs of `registry_linearizable`, a thread that is scheduled alone comes
to the end of its call, wherever the other threads are: in at most `4 * n + 17` steps, if the list
has `n` nodes. The exceptions are a call that traps, and `malloc` with an address that is in use. -/
theorem calls_finish {ι : Type} [DecidableEq ι] {h : Heap} (he : h.Empty)
    {s : Routine.Pool ι Heap ListPoint ListCall} {es : List (Move ι ListCall)}
    (hr : listRoutine.lts.Run listProtocol.OneEach (.start h) es s) {u : ι} {c : ListCall}
    {l : ListPoint} (hu : s.thread u = some (c, l))
    (hmalloc : ∀ call p, l = .malloc call p → p ∉ s.shared.allocated)
    (htraps : ∀ call p, c = .add call p → call.traps = false) :
    ∃ n, s.shared.Chain (s.shared.head c.side) n ∧ ∃ m ≤ 4 * n + 17, ∃ v s',
      listRoutine.lts.Reach s (List.replicate m (.step u)) s' ∧
        s'.thread u = some (c, .ret v) ∧ ∀ t, t ≠ u → s'.thread t = s.thread t := by
  obtain ⟨fs, a, d, -, ⟨w, -, hw⟩, -⟩ :=
    Routine.linearizes (Routine.Protocol.linearization listProtocol_keeps)
      ⟨_, rfl, listProtocol_start he⟩ hr
  have hshared : w.heap = s.shared := hw.shared
  have hlinked : w.Linked := hw.inv
  have hshort : l.Short :=
    Routine.points_inv (P := ListPoint.Short) (fun c => by cases c <;> trivial)
      (fun _ _ _ _ => ListPoint.short_step) hr (by rintro _ _ _ ⟨⟩) u c l hu
  obtain ⟨m, hm, v, h', halone⟩ := ListWorld.Fits.ends hlinked (hw.fits u c l hu) hshort
    (hshared ▸ hmalloc) htraps
  obtain ⟨s', hrun, hthread, -, hothers⟩ := halone.run hu hshared.symm
  exact ⟨_, hshared ▸ hlinked.chain c.side, m, hm, v, s', hrun, hthread, hothers⟩

/-- A lookup ends while an addition has linked its channel and does not go on. -/
theorem lookup_finishes : ∃ es s c l,
    listRoutine.lts.Run listProtocol.OneEach (.start .garbage) es s ∧
      s.thread true = some (c, l) ∧ l.accesses = some 1 ∧ s.shared.count .tx = 0 ∧
      ∃ n, s.shared.Chain (s.shared.head c.side) n ∧ ∃ m ≤ 4 * n + 17, ∃ v s',
        listRoutine.lts.Reach s (List.replicate m (.step true)) s' ∧
          s'.thread true = some (c, .ret v) ∧ ∀ t, t ≠ true → s'.thread t = s.thread t := by
  obtain ⟨s, hr, hp⟩ := Lts.exists_run (L := listRoutine.lts) (s := .start .garbage)
    (p := fun s => s.shared.count .tx == 0 && (s.thread true).any fun x =>
      x.1.role == none && x.2.accesses == some 1)
    (.call false (addInteger (ascii "a") 1) :: List.replicate 14 (.step false) ++
      .call true (.walk (.get .tx (ascii "a"))) :: List.replicate 1 (.step true))
    oneEach_sound (by decide +kernel)
  rw [Bool.and_eq_true, beq_iff_eq] at hp
  obtain ⟨hcount, hp⟩ := hp
  obtain ⟨⟨c, l⟩, hthread, hp⟩ := (Option.any_eq_true ..).mp hp
  rw [Bool.and_eq_true, beq_iff_eq, beq_iff_eq] at hp
  obtain ⟨hrole, haccess⟩ : c.role = none ∧ l.accesses = some 1 := hp
  refine ⟨_, s, c, l, hr, hthread, haccess, hcount,
    calls_finish Heap.garbage_empty hr hthread ?_ ?_⟩
  · rintro call p rfl
    cases haccess
  · rintro call p rfl
    cases hrole

end Foxdbg
