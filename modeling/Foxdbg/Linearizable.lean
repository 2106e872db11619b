import Foxdbg.LinkedList

/-!
# The lists without a lock

In any run in which one thread at a time adds to a list, and one thread at a time is the server, the
calls on the lists return what they return when each of them takes effect at one instant.

A `ListWorld` is the memory with the directory that it stands for (`Linked`): the nodes of a list
are linked in the order of its channels, and hold these channels. `cleared` is how many of them
the loop of `foxdbg_protocol_disconnect` has already reset. `Fits` says for each point of the code
what a thread that is there knows:

* a thread that adds has a node that no one else has (`Private`), and it links the node at the end
  of the list when all of it is stored;
* a thread that walks is at a node of the list, and no channel before it passes the test
  (`Walked`); what it knows stays true when others add (`Rely`).

The results: `registry_linearizable`, and `lost_channel` for two threads that add.
-/

namespace Foxdbg

/-! ## Worlds -/

/-- What only one thread can do at a time: add to a list, or write subscriptions. -/
inductive ListRole where
  | adder (side : Side)
  | server
  deriving DecidableEq

def Walk.role : Walk → Option ListRole
  | .subscribe .. | .unsubscribe _ | .disconnect => some .server
  | _ => none

def ListCall.role : ListCall → Option ListRole
  | .add call _ => some (.adder call.side)
  | .walk w => w.role

/-- The memory, and the directory that it stands for (module doc). -/
structure ListWorld where
  heap : Heap
  directory : Directory
  cleared : Nat

namespace ListWorld

variable (w : ListWorld)

def list (side : Side) : List Channel := w.directory.registry.list side

def nodes (side : Side) : List Addr := w.directory.nodes side

/-- A node is the one at a place of a list. -/
def At (side : Side) (i : Nat) (p : Addr) : Prop := (w.nodes side)[i]? = some p

/-- The subscription id that a node of a list holds. -/
def subscription (side : Side) (i : Nat) (ch : Channel) : Int32 :=
  if side = .tx ∧ i < w.cleared then -1 else ch.subscriptionId

/-- The memory stands for the directory. -/
structure Linked : Prop where
  head : ∀ side, w.heap.head side = (w.nodes side)[0]?
  next : ∀ {side i p}, w.At side i p → (w.heap.node p).next = (w.nodes side)[i + 1]?
  length : ∀ side, (w.nodes side).length = (w.list side).length
  channel : ∀ {side i p ch}, w.At side i p → (w.list side)[i]? = some ch →
    (w.heap.node p).channel = ch.setSubscription (w.subscription side i ch)
  allocated : ∀ {side i p}, w.At side i p → p ∈ w.heap.allocated
  distinct : ∀ {side other i j p}, w.At side i p → w.At other j p → side = other ∧ i = j

/-- A node that is in no list. -/
def Private (p : Addr) : Prop := p ∈ w.heap.allocated ∧ ∀ side, p ∉ w.nodes side

/-- The counter of a list is the one of the registry. -/
def Counted (side : Side) : Prop := w.heap.count side = w.directory.registry.count side

/-- What the holder of a role leaves for the next one. -/
def Rest : ListRole → ListWorld → Prop
  | .adder side, w => w.Counted side
  | .server, w => w.cleared = 0

/-- What a call leaves for the next one with its role. -/
def AtRest (c : ListCall) : Prop := ∀ x, c.role = some x → Rest x w

end ListWorld

/-! ## Points -/

namespace Walk

/-- The infos of the channels that the loop has gone past. -/
def infosOf : Walk → List Channel → List Listed
  | .advertise, cs => cs.map Channel.listed
  | _, _ => []

/-- How many subscriptions the loop has reset, when it has gone past `i` channels. -/
def clears : Walk → Nat → Nat
  | .disconnect, i => i
  | _, _ => 0

/-- The loop stores this subscription id in the channel that it finds. -/
def Stores : Walk → Int32 → Prop
  | .subscribe id _, x => x = id
  | .unsubscribe _, x => x = -1
  | _, _ => False

end Walk

/-- A new node that the thread has at this point. -/
def ListPoint.private? : ListPoint → Option Addr
  | .store _ p _ _ | .loadCount _ p | .storeId _ p _ | .storeNull _ p | .loadHead _ p
  | .test _ p _ | .advance _ p _ | .link _ p _ => some p
  | _ => none

namespace ListWorld

variable (w : ListWorld)

/-- A loop has gone past `i` channels, and none of them passed its test. -/
structure Walked (k : Walk) (infos : List Listed) (i : Nat) : Prop where
  le : i ≤ (w.list k.side).length
  missed : ∀ {j ch}, j < i → (w.list k.side)[j]? = some ch → k.test ch = false
  infos : infos = k.infosOf ((w.list k.side).take i)
  cleared : k.role = some .server → w.cleared = k.clears i

/-- A thread that adds has not linked its channel. -/
structure Adding (c : ListCall) (call : AddCall) (p : Addr) (r : Option Answer) : Prop where
  runs : c = .add call p
  pending : r = none
  counted : w.Counted call.side

/-- The thread has a new node. -/
structure Building (c : ListCall) (call : AddCall) (p : Addr) (r : Option Answer) : Prop
    extends w.Adding c call p r where
  fresh : w.Private p

/-- All members of the new node but the id are stored. -/
structure Filled (c : ListCall) (call : AddCall) (p : Addr) (r : Option Answer) : Prop
    extends w.Building c call p r where
  traps : call.traps = false
  filled : ∃ new, call.channel 0 = some new ∧
    (w.heap.node p).channel = { new with channelId := (w.heap.node p).channel.channelId }

/-- The new node holds the channel. -/
structure Made (c : ListCall) (call : AddCall) (p : Addr) (r : Option Answer) : Prop
    extends w.Building c call p r where
  traps : call.traps = false
  made : call.channel (w.directory.registry.count call.side) = some (w.heap.node p).channel

/-- The new node can be linked. -/
structure Ready (c : ListCall) (call : AddCall) (p : Addr) (r : Option Answer) : Prop
    extends w.Made c call p r where
  next : (w.heap.node p).next = none

/-- The call has taken effect, with the id of a channel as its result. -/
def Returns (side : Side) (p : Addr) (r : Option Answer) : Prop :=
  ∃ i ch, w.At side i p ∧ (w.list side)[i]? = some ch ∧ r = some (.id ch.channelId)

/-- A channel has been linked and not counted. -/
structure Linking (c : ListCall) (call : AddCall) (p : Addr) (r : Option Answer) : Prop where
  runs : c = .add call p
  uncounted : w.heap.count call.side + 1 = w.directory.registry.count call.side
  result : w.Returns call.side p r

/-- A loop is at a node, which has the property `φ`. -/
def Visits (c : ListCall) (k : Walk) (infos : List Listed) (p : Addr) (r : Option Answer)
    (φ : Channel → Prop) : Prop :=
  c = .walk k ∧ r = none ∧ ∃ i ch, w.At k.side i p ∧ (w.list k.side)[i]? = some ch ∧
    w.Walked k infos i ∧ φ ch

/-- What a thread at a point knows. -/
def Fits (c : ListCall) (l : ListPoint) (r : Option Answer) : Prop :=
  match l with
  | .malloc call p => w.Adding c call p r
  | .store call p new rest => w.Building c call p r ∧ call.channel 0 = some new ∧
      (call.traps → .targetTxTime ∈ rest) ∧
      rest.foldl (fun ch m => m.store new ch) (w.heap.node p).channel =
        { new with channelId := (w.heap.node p).channel.channelId }
  | .loadCount call p => w.Filled c call p r
  | .storeId call p n => w.Filled c call p r ∧ n = w.directory.registry.count call.side
  | .storeNull call p => w.Made c call p r
  | .loadHead call p => w.Ready c call p r
  | .test call p current => w.Ready c call p r ∧ ∃ i, w.At call.side i current
  | .advance call p current => w.Ready c call p r ∧
      ∃ i, w.At call.side i current ∧ i + 1 < (w.nodes call.side).length
  | .link call p current => w.Ready c call p r ∧ current = (w.nodes call.side).getLast?
  | .loadCounter call p => w.Linking c call p r
  | .storeCounter call p n => w.Linking c call p r ∧ n = w.heap.count call.side
  | .loadId side p => w.Returns side p r ∧ w.AtRest c
  | .first k => c = .walk k ∧ r = none ∧ w.AtRest c
  | .visit k infos p => w.Visits c k infos p r fun _ => True
  | .loadInfoBuffer channelId p =>
      w.Visits c (.find .info channelId) [] p r fun ch => ch.channelId = channelId
  | .storeSubscription k p id => k.Stores id ∧ w.Visits c k [] p r fun ch => k.test ch = true
  | .loadListedId infos p channelType =>
      w.Visits c .advertise infos p r fun ch => ch.channelType = channelType
  | .loadListedTopic infos p channelType channelId =>
      w.Visits c .advertise infos p r fun ch =>
        ch.channelType = channelType ∧ ch.channelId = channelId
  | .next k infos p => c = .walk k ∧ r = none ∧ ∃ i, w.At k.side i p ∧ w.Walked k infos (i + 1)
  | .ret v => r = some v ∧ w.AtRest c

/-- What the steps of other threads keep for a thread with this call, at this point. -/
structure Rely (c : ListCall) (l : ListPoint) (w' : ListWorld) : Prop where
  nodes : ∀ {side i p}, w.At side i p → w'.At side i p
  list : ∀ {side} {i : Nat} {ch : Channel}, (w.list side)[i]? = some ch →
    ∃ x, (w'.list side)[i]? = some (ch.setSubscription x) ∧
      (c.role = some .server → x = ch.subscriptionId)
  fresh : ∀ {p}, l.private? = some p → w.Private p →
    w'.Private p ∧ w'.heap.node p = w.heap.node p
  adder : ∀ {side}, c.role = some (.adder side) → w'.nodes side = w.nodes side ∧
    w'.heap.count side = w.heap.count side ∧
    w'.directory.registry.count side = w.directory.registry.count side
  server : c.role = some .server → w'.cleared = w.cleared

end ListWorld

/-- The protocol of the lists. -/
def listProtocol : Routine.Protocol listRoutine Directory.apply ListWorld ListRole where
  shared := ListWorld.heap
  spec := ListWorld.directory
  role := ListCall.role
  Inv := ListWorld.Linked
  Rest := ListWorld.Rest
  Fits := ListWorld.Fits
  Apart l l' := ∀ p, l.private? = some p → l'.private? ≠ some p

/-! ## What stays true when others step -/

namespace ListWorld

variable {w w' : ListWorld} {c : ListCall} {l : ListPoint} {call : AddCall} {p : Addr}
  {r : Option Answer} {k : Walk} {infos : List Listed} {i : Nat}

theorem list_lt {side : Side} {ch : Channel} (h : (w.list side)[i]? = some ch) :
    i < (w.list side).length :=
  (List.getElem?_eq_some_iff.mp h).1

/-- A test of a loop that is not the server's reads nothing that the server stores. -/
theorem test_setSubscription (ch : Channel) (x : Int32)
    (hx : k.role = some .server → x = ch.subscriptionId) :
    k.test (ch.setSubscription x) = k.test ch := by
  cases k with
  | unsubscribe id =>
    rw [hx rfl]
    rfl
  | find kind channelId => cases kind <;> rfl
  | _ => rfl

theorem infosOf_setSubscription {cs cs' : List Channel} {n : Nat} (hn : n ≤ cs.length)
    (h : ∀ (j : Nat) ch, cs[j]? = some ch → ∃ x, cs'[j]? = some (ch.setSubscription x)) :
    k.infosOf (cs'.take n) = k.infosOf (cs.take n) := by
  cases k with
  | advertise =>
    refine List.ext_getElem? fun j => ?_
    simp only [Walk.infosOf, List.getElem?_map, List.getElem?_take]
    by_cases hj : j < n
    · obtain ⟨x, hx⟩ := h j _ (List.getElem?_eq_getElem (by omega))
      rw [if_pos hj, if_pos hj, hx, List.getElem?_eq_getElem (by omega)]
      rfl
    · rw [if_neg hj, if_neg hj]
  | _ => rfl

namespace Rely

theorem length_le (h : w.Rely c l w') (side : Side) :
    (w.list side).length ≤ (w'.list side).length := by
  by_contra hlt
  push Not at hlt
  obtain ⟨x, hx, -⟩ := h.list (List.getElem?_eq_getElem hlt)
  exact absurd (list_lt hx) (Nat.lt_irrefl _)

theorem walked (h : w.Rely c l w') (hc : c = .walk k) (hw : w.Walked k infos i) :
    w'.Walked k infos i := by
  subst hc
  refine ⟨hw.le.trans (h.length_le _), fun {j ch'} hj hch' => ?_, ?_,
    fun hk => (h.server hk).trans (hw.cleared hk)⟩
  · have hle := hw.le
    have hlt : j < (w.list k.side).length := by omega
    obtain ⟨x, hx, hserver⟩ := h.list (List.getElem?_eq_getElem hlt)
    cases hch'.symm.trans hx
    rw [test_setSubscription _ x hserver]
    exact hw.missed hj (List.getElem?_eq_getElem hlt)
  · rw [infosOf_setSubscription hw.le fun j ch hch => (h.list hch).imp fun _ hx => hx.1]
    exact hw.infos

theorem visits {φ : Channel → Prop} (h : w.Rely c l w') (hv : w.Visits c k infos p r φ)
    (hφ : ∀ ch x, (k.role = some .server → x = ch.subscriptionId) → φ ch →
      φ (ch.setSubscription x)) : w'.Visits c k infos p r φ := by
  obtain ⟨rfl, hr, i, ch, hat, hch, hwalked, hprop⟩ := hv
  obtain ⟨x, hx, hserver⟩ := h.list hch
  exact ⟨rfl, hr, i, _, h.nodes hat, hx, h.walked rfl hwalked, hφ ch x hserver hprop⟩

theorem returns {side : Side} (h : w.Rely c l w') (hr : w.Returns side p r) :
    w'.Returns side p r := by
  obtain ⟨i, ch, hat, hch, hr⟩ := hr
  obtain ⟨x, hx, -⟩ := h.list hch
  exact ⟨i, _, h.nodes hat, hx, hr⟩

theorem counted (h : w.Rely c l w') (hc : c = .add call p) (hcount : w.Counted call.side) :
    w'.Counted call.side := by
  subst hc
  obtain ⟨-, hheap, hregistry⟩ := h.adder rfl
  exact (hheap.trans hcount).trans hregistry.symm

theorem atRest (h : w.Rely c l w') (hrest : w.AtRest c) : w'.AtRest c := by
  intro x hx
  cases x with
  | adder side =>
    obtain ⟨-, hheap, hregistry⟩ := h.adder hx
    exact (hheap.trans (hrest _ hx)).trans hregistry.symm
  | server => exact (h.server hx).trans (hrest _ hx)

theorem adding (h : w.Rely c l w') (ha : w.Adding c call p r) : w'.Adding c call p r :=
  ⟨ha.runs, ha.pending, h.counted ha.runs ha.counted⟩

theorem building (h : w.Rely c l w') (hl : l.private? = some p) (hb : w.Building c call p r) :
    w'.Building c call p r :=
  ⟨h.adding hb.toAdding, (h.fresh hl hb.fresh).1⟩

theorem filled (h : w.Rely c l w') (hl : l.private? = some p) (hf : w.Filled c call p r) :
    w'.Filled c call p r := by
  refine ⟨h.building hl hf.toBuilding, hf.traps, ?_⟩
  rw [(h.fresh hl hf.fresh).2]
  exact hf.filled

theorem registryCount (h : w.Rely c l w') (hc : c = .add call p) :
    w'.directory.registry.count call.side = w.directory.registry.count call.side := by
  subst hc
  exact (h.adder rfl).2.2

theorem nodes_side (h : w.Rely c l w') (hc : c = .add call p) :
    w'.nodes call.side = w.nodes call.side := by
  subst hc
  exact (h.adder rfl).1

theorem made (h : w.Rely c l w') (hl : l.private? = some p) (hm : w.Made c call p r) :
    w'.Made c call p r := by
  refine ⟨h.building hl hm.toBuilding, hm.traps, ?_⟩
  rw [(h.fresh hl hm.fresh).2, h.registryCount hm.runs]
  exact hm.made

theorem ready (h : w.Rely c l w') (hl : l.private? = some p) (hr : w.Ready c call p r) :
    w'.Ready c call p r := by
  refine ⟨h.made hl hr.toMade, ?_⟩
  rw [(h.fresh hl hr.fresh).2]
  exact hr.next

theorem linking (h : w.Rely c l w') (hk : w.Linking c call p r) : w'.Linking c call p r := by
  obtain ⟨rfl, huncounted, hresult⟩ := hk
  obtain ⟨-, hheap, hregistry⟩ := h.adder rfl
  exact ⟨rfl, by rw [hheap, hregistry, huncounted], h.returns hresult⟩

/-- What a thread knows stays true. -/
theorem fits (h : w.Rely c l w') (hf : w.Fits c l r) : w'.Fits c l r := by
  cases l with
  | malloc call p => exact h.adding hf
  | store call p new rest =>
    obtain ⟨hb, hnew, htraps, hfill⟩ := hf
    refine ⟨h.building rfl hb, hnew, htraps, ?_⟩
    rw [(h.fresh rfl hb.fresh).2]
    exact hfill
  | loadCount call p => exact h.filled rfl hf
  | storeId call p n =>
    obtain ⟨hfilled, hn⟩ := hf
    exact ⟨h.filled rfl hfilled, by rw [hn, h.registryCount hfilled.runs]⟩
  | storeNull call p => exact h.made rfl hf
  | loadHead call p => exact h.ready rfl hf
  | test call p current =>
    obtain ⟨hready, i, hat⟩ := hf
    exact ⟨h.ready rfl hready, i, h.nodes hat⟩
  | advance call p current =>
    obtain ⟨hready, i, hat, hlt⟩ := hf
    exact ⟨h.ready rfl hready, i, h.nodes hat, by rwa [h.nodes_side hready.runs]⟩
  | link call p current =>
    obtain ⟨hready, hlast⟩ := hf
    exact ⟨h.ready rfl hready, by rwa [h.nodes_side hready.runs]⟩
  | loadCounter call p => exact h.linking hf
  | storeCounter call p n =>
    obtain ⟨hlinking, hn⟩ := hf
    refine ⟨h.linking hlinking, ?_⟩
    obtain ⟨rfl, -⟩ := hlinking
    rw [(h.adder rfl).2.1, hn]
  | loadId side p => exact ⟨h.returns hf.1, h.atRest hf.2⟩
  | first k => exact ⟨hf.1, hf.2.1, h.atRest hf.2.2⟩
  | visit k infos p => exact h.visits hf fun _ _ _ _ => trivial
  | loadInfoBuffer channelId p => exact h.visits hf fun _ _ _ hch => hch
  | storeSubscription k p id =>
    refine ⟨hf.1, h.visits hf.2 fun ch x hx hch => ?_⟩
    rwa [test_setSubscription ch x hx]
  | loadListedId infos p channelType => exact h.visits hf fun _ _ _ hch => hch
  | loadListedTopic infos p channelType channelId => exact h.visits hf fun _ _ _ hch => hch
  | next k infos p =>
    obtain ⟨hc, hr, i, hat, hwalked⟩ := hf
    exact ⟨hc, hr, i, h.nodes hat, h.walked hc hwalked⟩
  | ret v => exact ⟨hf.1, h.atRest hf.2⟩

end Rely

/-- A new node of a thread is in no list. -/
theorem Fits.fresh (hf : w.Fits c l r) (hl : l.private? = some p) : w.Private p := by
  cases l with
  | store call q new rest => cases hl; exact hf.1.fresh
  | loadCount call q => cases hl; exact hf.fresh
  | storeId call q n => cases hl; exact hf.1.fresh
  | storeNull call q => cases hl; exact hf.fresh
  | loadHead call q => cases hl; exact hf.fresh
  | test call q current => cases hl; exact hf.1.fresh
  | advance call q current => cases hl; exact hf.1.fresh
  | link call q current => cases hl; exact hf.1.fresh
  | _ => cases hl

/-! ## What the steps do -/

/-- The world with another memory. -/
def setHeap (w : ListWorld) (h : Heap) : ListWorld := { w with heap := h }

/-- A step has an outcome if the others can rely on what it does. -/
theorem outcome (w' : ListWorld) (r' : Option Answer) {l' : ListPoint} (hl : w'.Linked)
    (hf : w'.Fits c l' r')
    (heffect : w'.directory = w.directory ∧ r' = r ∨ r = none ∧ ∃ v, r' = some v ∧
      Directory.apply c w.directory = some (v, w'.directory))
    (hrely : ∀ c₂ l₂, listProtocol.Together c c₂ → listProtocol.Apart l l₂ → w.Rely c₂ l₂ w')
    (hpriv : ∀ p, l'.private? = some p → l.private? = some p ∨ p ∉ w.heap.allocated)
    (hrest : ∀ x, c.role ≠ some x → Rest x w → Rest x w') :
    ∃ w₁ r₁, listProtocol.Outcome w c l l' r w'.heap w₁ r₁ := by
  refine ⟨w', r', rfl, hl, hf, heffect, fun c₂ l₂ r₂ htogether hapart hf₂ => ?_, hrest⟩
  refine ⟨(hrely c₂ l₂ htogether hapart).fits hf₂, fun p hp hp₂ => ?_⟩
  obtain hp | hnew := hpriv p hp
  · exact hapart p hp hp₂
  · exact hnew (Fits.fresh hf₂ hp₂).1

theorem rest_setHeap {x : ListRole} {h : Heap} (hcount : h.count = w.heap.count)
    (hrest : Rest x w) : Rest x (w.setHeap h) := by
  cases x with
  | adder side => exact (congrFun hcount side).trans hrest
  | server => exact hrest

theorem rely_self (w : ListWorld) (c : ListCall) (l : ListPoint) : w.Rely c l w :=
  ⟨fun h => h, fun {_ _ ch} h => ⟨ch.subscriptionId, h, fun _ => rfl⟩, fun _ hp => ⟨hp, rfl⟩,
    fun _ => ⟨rfl, rfl, rfl⟩, fun _ => rfl⟩

/-- A step that stores nothing. -/
theorem outcome_load {l' : ListPoint} {r' : Option Answer} (hl : w.Linked) (hf : w.Fits c l' r')
    (heffect : r' = r ∨ r = none ∧ ∃ v, r' = some v ∧
      Directory.apply c w.directory = some (v, w.directory))
    (hpriv : l'.private? = none ∨ l'.private? = l.private?) :
    ∃ w₁ r₁, listProtocol.Outcome w c l l' r w.heap w₁ r₁ := by
  refine outcome w r' hl hf (heffect.imp_left fun h => ⟨rfl, h⟩) (fun _ _ _ _ => rely_self ..) ?_
    fun _ _ h => h
  intro p hp
  obtain h | h := hpriv
  · rw [h] at hp
    cases hp
  · exact .inl (h ▸ hp)

/-- Another new node is not this one. -/
theorem ne_of_apart {l₂ : ListPoint} {q : Addr} (h : listProtocol.Apart l l₂)
    (hl : l.private? = some p) (hl₂ : l₂.private? = some q) : q ≠ p := by
  rintro rfl
  exact h q hl hl₂

/-! ### The new node -/

theorem Private.not_at {side : Side} (hp : w.Private p) : ¬ w.At side i p :=
  fun h => hp.2 side (List.mem_of_getElem? h)

section New

variable {n : Node}

/-- What a thread stores in its new node does not change the lists. -/
theorem Linked.put (hl : w.Linked) (hp : w.Private p) (n : Node) :
    (w.setHeap (w.heap.put p n)).Linked := by
  have hnode : ∀ {side i q}, w.At side i q → (w.heap.put p n).node q = w.heap.node q := by
    intro side i q hq
    refine Function.update_of_ne ?_ ..
    rintro rfl
    exact hp.not_at hq
  refine ⟨hl.head, fun hq => ?_, hl.length, fun hq hch => ?_, hl.allocated, hl.distinct⟩
  · exact (congrArg Node.next (hnode hq)).trans (hl.next hq)
  · exact (congrArg Node.channel (hnode hq)).trans (hl.channel hq hch)

theorem rely_put (n : Node) {c₂ : ListCall} {l₂ : ListPoint} (hp : l.private? = some p)
    (hapart : listProtocol.Apart l l₂) : w.Rely c₂ l₂ (w.setHeap (w.heap.put p n)) :=
  ⟨fun h => h, fun {_ _ ch} h => ⟨ch.subscriptionId, h, fun _ => rfl⟩,
    fun hq hfresh => ⟨hfresh, Function.update_of_ne (ne_of_apart hapart hp hq) ..⟩,
    fun _ => ⟨rfl, rfl, rfl⟩, fun _ => rfl⟩

/-- A step that stores to the new node of its thread. -/
theorem outcome_put {l' : ListPoint} (hl : w.Linked) (hfresh : w.Private p) (n : Node)
    (hf : (w.setHeap (w.heap.put p n)).Fits c l' r) (hp : l.private? = some p)
    (hpriv : l'.private? = some p) :
    ∃ w₁ r₁, listProtocol.Outcome w c l l' r (w.heap.put p n) w₁ r₁ :=
  outcome (w.setHeap (w.heap.put p n)) r (hl.put hfresh n) hf (.inl ⟨rfl, rfl⟩)
    (fun _ _ _ hapart => rely_put n hp hapart) (fun _ hq => .inl (hp.trans (hpriv ▸ hq)))
    fun _ _ => rest_setHeap rfl

theorem node_put : (w.heap.put p n).node p = n := Function.update_self ..

end New

theorem Linked.malloc (hl : w.Linked) : (w.setHeap (w.heap.malloc p)).Linked :=
  ⟨hl.head, hl.next, hl.length, hl.channel,
    fun h => List.mem_cons_of_mem _ (hl.allocated h), hl.distinct⟩

/-- A node that `malloc` gives is in no list, and no other thread has it. -/
theorem outcome_malloc {l' : ListPoint} (hl : w.Linked) (hnew : p ∉ w.heap.allocated)
    (hf : (w.setHeap (w.heap.malloc p)).Fits c l' r) (hpriv : l'.private? = some p) :
    ∃ w₁ r₁, listProtocol.Outcome w c l l' r (w.heap.malloc p) w₁ r₁ := by
  refine outcome (w.setHeap (w.heap.malloc p)) r hl.malloc hf (.inl ⟨rfl, rfl⟩)
    (fun _ _ _ _ => ?_) (fun q hq => ?_) fun _ _ => rest_setHeap rfl
  · exact ⟨fun h => h, fun {_ _ ch} h => ⟨ch.subscriptionId, h, fun _ => rfl⟩,
      fun _ hq => ⟨⟨List.mem_cons_of_mem _ hq.1, hq.2⟩, rfl⟩, fun _ => ⟨rfl, rfl, rfl⟩,
      fun _ => rfl⟩
  · rw [hpriv] at hq
    cases hq
    exact .inr hnew

theorem private_malloc (hl : w.Linked) (hnew : p ∉ w.heap.allocated) :
    (w.setHeap (w.heap.malloc p)).Private p := by
  refine ⟨List.mem_cons_self, fun side hmem => ?_⟩
  obtain ⟨i, hi⟩ := List.getElem?_of_mem hmem
  exact hnew (hl.allocated hi)

/-! ### The counter -/

/-- The counter of a list is stored by the thread that adds to the list. -/
theorem outcome_count {l' : ListPoint} {side : Side} (hl : w.Linked)
    (hrole : c.role = some (.adder side)) (n : Nat)
    (hf : (w.setHeap (w.heap.storeCount side n)).Fits c l' r) (hpriv : l'.private? = none) :
    ∃ w₁ r₁, listProtocol.Outcome w c l l' r (w.heap.storeCount side n) w₁ r₁ := by
  have hcount : ∀ other, c.role ≠ some (.adder other) →
      (w.heap.storeCount side n).count other = w.heap.count other := by
    intro other hne
    refine Function.update_of_ne ?_ ..
    rintro rfl
    exact hne hrole
  refine outcome (w.setHeap (w.heap.storeCount side n)) r ?_ hf (.inl ⟨rfl, rfl⟩)
    (fun c₂ _ htogether _ => ?_) (fun q hq => ?_) fun x hx hrest => ?_
  · exact ⟨hl.head, hl.next, hl.length, hl.channel, hl.allocated, hl.distinct⟩
  · refine ⟨fun h => h, fun {_ _ ch} h => ⟨ch.subscriptionId, h, fun _ => rfl⟩,
      fun _ hq => ⟨hq, rfl⟩, fun {other} h₂ => ⟨rfl, hcount other fun h => ?_, rfl⟩, fun _ => rfl⟩
    obtain hnone | hne := htogether
    · cases hrole.symm.trans hnone
    · exact hne (h.trans h₂.symm)
  · rw [hpriv] at hq
    cases hq
  · cases x with
    | adder other => exact (hcount other hx).trans hrest
    | server => exact hrest

/-! ### The link -/

/-- The store that links a node after `current`. -/
def linkHeap (h : Heap) (side : Side) (p : Addr) : Option Addr → Heap
  | none => h.storeHead side p
  | some current => h.storeNext current (some p)

section Link

variable {current : Option Addr} {ch : Channel} {side other : Side}

theorem linkHeap_channel (h : Heap) (q : Addr) :
    ((linkHeap h side p current).node q).channel = (h.node q).channel := by
  cases current with
  | none => rfl
  | some a =>
    by_cases hq : q = a
    · subst hq
      simp [linkHeap, Heap.storeNext, Heap.put]
    · simp [linkHeap, Heap.storeNext, Heap.put, Function.update_of_ne hq]

theorem linkHeap_node (h : Heap) {q : Addr} (hq : current ≠ some q) :
    (linkHeap h side p current).node q = h.node q := by
  cases current with
  | none => rfl
  | some a =>
    refine Function.update_of_ne ?_ ..
    rintro rfl
    exact hq rfl

theorem linkHeap_count (h : Heap) : (linkHeap h side p current).count = h.count := by
  cases current <;> rfl

theorem linkHeap_allocated (h : Heap) :
    (linkHeap h side p current).allocated = h.allocated := by
  cases current <;> rfl

/-- The world after the link. -/
def linked (w : ListWorld) (side : Side) (p : Addr) (ch : Channel) (current : Option Addr) :
    ListWorld :=
  ⟨linkHeap w.heap side p current, w.directory.append side ch p, w.cleared⟩

theorem nodes_linked_self : (w.linked side p ch current).nodes side = w.nodes side ++ [p] :=
  Function.update_self ..

theorem nodes_linked_ne (h : other ≠ side) :
    (w.linked side p ch current).nodes other = w.nodes other :=
  Function.update_of_ne h ..

theorem list_linked_self : (w.linked side p ch current).list side = w.list side ++ [ch] :=
  Registry.list_append_self

theorem list_linked_ne (h : other ≠ side) :
    (w.linked side p ch current).list other = w.list other :=
  Registry.list_append_ne h

theorem At.linked {q : Addr} (h : w.At other i q) : (w.linked side p ch current).At other i q := by
  unfold At at h ⊢
  by_cases hs : other = side
  · subst hs
    rw [nodes_linked_self, List.getElem?_append_left (List.getElem?_eq_some_iff.mp h).1]
    exact h
  · rwa [nodes_linked_ne hs]

/-- The nodes of the lists after the link. -/
theorem at_linked {j : Nat} {q : Addr} (h : (w.linked side p ch current).At other j q) :
    w.At other j q ∨ other = side ∧ j = (w.nodes side).length ∧ q = p := by
  unfold At at h ⊢
  by_cases hs : other = side
  · subst hs
    rw [nodes_linked_self, List.getElem?_append] at h
    split at h
    · exact .inl h
    · rename_i hge
      rw [List.getElem?_singleton, Option.ite_none_right_eq_some] at h
      obtain ⟨hj, ⟨⟩⟩ := h
      exact .inr ⟨rfl, by omega, rfl⟩
  · rw [nodes_linked_ne hs] at h
    exact .inl h

theorem list_linked_lt (hlt : i < (w.list other).length) :
    ((w.linked side p ch current).list other)[i]? = (w.list other)[i]? := by
  by_cases hs : other = side
  · subst hs
    rw [list_linked_self, List.getElem?_append_left hlt]
  · rw [list_linked_ne hs]

theorem at_lt (hl : w.Linked) {q : Addr} (h : w.At other i q) : i < (w.list other).length := by
  have := (List.getElem?_eq_some_iff.mp h).1
  rwa [hl.length] at this

/-- The last node of a list is the one that a link stores to. -/
theorem at_current (hlast : current = (w.nodes side).getLast?) {q : Addr} (hq : current = some q) :
    w.At side ((w.nodes side).length - 1) q := by
  rw [hlast, List.getLast?_eq_getElem?] at hq
  exact hq

theorem link_head (hl : w.Linked) (hlast : current = (w.nodes side).getLast?) (other : Side) :
    (w.linked side p ch current).heap.head other =
      ((w.linked side p ch current).nodes other)[0]? := by
  by_cases hs : other = side
  · subst hs
    rw [nodes_linked_self]
    cases hnodes : w.nodes other with
    | nil =>
      rw [hnodes] at hlast
      subst hlast
      exact Function.update_self ..
    | cons q qs =>
      have hhead := hl.head other
      rw [hnodes] at hhead
      rw [hnodes, List.getLast?_cons] at hlast
      subst hlast
      exact hhead
  · rw [nodes_linked_ne hs, ← hl.head]
    cases current with
    | none => exact Function.update_of_ne hs ..
    | some a => rfl

/-- A node that was in a list points to the new node if it was the last one. -/
theorem link_next (hl : w.Linked) (hlast : current = (w.nodes side).getLast?) {j : Nat} {q : Addr}
    (hq : w.At other j q) : ((w.linked side p ch current).heap.node q).next =
      ((w.linked side p ch current).nodes other)[j + 1]? := by
  have hlen := (List.getElem?_eq_some_iff.mp hq).1
  by_cases hcur : current = some q
  · obtain ⟨rfl, rfl⟩ := hl.distinct hq (at_current hlast hcur)
    have hzero : (w.nodes other).length - 1 + 1 - (w.nodes other).length = 0 := by omega
    rw [nodes_linked_self, List.getElem?_append_right (by omega), hzero]
    subst hcur
    simp [ListWorld.linked, linkHeap, Heap.storeNext, Heap.put]
  · rw [show (w.linked side p ch current).heap.node q = w.heap.node q from
      linkHeap_node w.heap hcur, hl.next hq]
    by_cases hs : other = side
    · subst hs
      have hne : j ≠ (w.nodes other).length - 1 := by
        rintro rfl
        rw [List.getLast?_eq_getElem?] at hlast
        exact hcur (hlast.trans hq)
      rw [nodes_linked_self, List.getElem?_append_left (by omega)]
    · rw [nodes_linked_ne hs]

/-- The link keeps the lists linked: it makes the new node the last one of its list. -/
theorem Linked.link (hl : w.Linked) (hp : w.Private p) (hch : (w.heap.node p).channel = ch)
    (hid : ch.subscriptionId = -1) (hnext : (w.heap.node p).next = none)
    (hlast : current = (w.nodes side).getLast?) : (w.linked side p ch current).Linked := by
  have hself : current ≠ some p := fun h => hp.not_at (at_current hlast h)
  refine ⟨link_head hl hlast, fun {other j q} hq => ?_, fun other => ?_,
    fun {other j q ch'} hq hch' => ?_, fun {other j q} hq => ?_,
    fun {s₁ s₂ i₁ i₂ q} hq₁ hq₂ => ?_⟩
  · obtain hq' | ⟨rfl, rfl, rfl⟩ := at_linked hq
    · exact link_next hl hlast hq'
    · rw [show (w.linked other q ch current).heap.node q = w.heap.node q from
        linkHeap_node w.heap hself, hnext, nodes_linked_self]
      exact (List.getElem?_eq_none (by simp)).symm
  · by_cases hs : other = side
    · subst hs
      rw [nodes_linked_self, list_linked_self, List.length_append, List.length_append, hl.length,
        List.length_singleton, List.length_singleton]
    · rw [nodes_linked_ne hs, list_linked_ne hs, hl.length]
  · rw [show ((w.linked side p ch current).heap.node q).channel = (w.heap.node q).channel from
      linkHeap_channel w.heap q]
    obtain hq' | ⟨rfl, rfl, rfl⟩ := at_linked hq
    · rw [list_linked_lt (at_lt hl hq')] at hch'
      exact hl.channel hq' hch'
    · rw [list_linked_self, hl.length, List.getElem?_concat_length] at hch'
      cases hch'
      -- a new channel is as one that has been reset
      rw [hch, ListWorld.subscription, hid, ite_self, ← hid]
      rfl
  · rw [show (w.linked side p ch current).heap.allocated = w.heap.allocated from
      linkHeap_allocated w.heap]
    obtain hq' | ⟨-, -, rfl⟩ := at_linked hq
    · exact hl.allocated hq'
    · exact hp.1
  · obtain h₁ | ⟨rfl, rfl, rfl⟩ := at_linked hq₁
    · obtain h₂ | ⟨-, -, rfl⟩ := at_linked hq₂
      · exact hl.distinct h₁ h₂
      · exact (hp.not_at h₁).elim
    · obtain h₂ | ⟨rfl, rfl, -⟩ := at_linked hq₂
      · exact (hp.not_at h₂).elim
      · exact ⟨rfl, rfl⟩

/-- Other threads can rely on a link: their lists grow at the end, and they do not add to it. -/
theorem rely_link {c₂ : ListCall} {l₂ : ListPoint} (hp : l.private? = some p)
    (hlast : current = (w.nodes side).getLast?) (hrole : c₂.role ≠ some (.adder side))
    (hapart : listProtocol.Apart l l₂) : w.Rely c₂ l₂ (w.linked side p ch current) := by
  refine ⟨At.linked, fun {other j ch'} h => ⟨ch'.subscriptionId, ?_, fun _ => rfl⟩,
    fun {q} hq hfresh => ⟨⟨?_, fun other hmem => ?_⟩, linkHeap_node w.heap ?_⟩,
    fun {other} h₂ => ?_, fun _ => rfl⟩
  · rw [list_linked_lt (list_lt h)]
    exact h
  · rw [show (w.linked side p ch current).heap.allocated = w.heap.allocated from
      linkHeap_allocated w.heap]
    exact hfresh.1
  · obtain ⟨j, hj⟩ := List.getElem?_of_mem hmem
    obtain hj | ⟨-, -, rfl⟩ := at_linked hj
    · exact hfresh.not_at hj
    · exact ne_of_apart hapart hp hq rfl
  · intro h
    exact hfresh.not_at (at_current hlast h)
  · have hs : other ≠ side := by
      rintro rfl
      exact hrole h₂
    exact ⟨nodes_linked_ne hs, congrFun (linkHeap_count w.heap) other,
      Registry.count_append_ne hs⟩

end Link

/-! ### Subscriptions -/

/-- A step of the server that stores subscriptions of transmitted channels, in the memory or in the
directory. -/
theorem outcome_server (cs : List Channel) (n : Nat) {h : Heap} {l' : ListPoint}
    {r' : Option Answer} (hl : w.Linked) (hrole : c.role = some .server)
    (hheap : h = w.heap ∨
      ∃ i p x, w.At .tx i p ∧ h = w.heap.store p (Channel.setSubscription x))
    (hlength : cs.length = (w.list .tx).length)
    (hlist : ∀ {i : Nat} {ch}, (w.list .tx)[i]? = some ch →
      ∃ x, cs[i]? = some (ch.setSubscription x))
    (hchannel : ∀ {i p ch}, w.At .tx i p → cs[i]? = some ch → (h.node p).channel =
      ch.setSubscription (if i < n then -1 else ch.subscriptionId))
    (hf : (ListWorld.mk h (w.directory.setChannels cs) n).Fits c l' r')
    (heffect : w.directory.setChannels cs = w.directory ∧ r' = r ∨ r = none ∧ ∃ v, r' = some v ∧
      Directory.apply c w.directory = some (v, w.directory.setChannels cs))
    (hpriv : l'.private? = none) : ∃ w₁ r₁, listProtocol.Outcome w c l l' r h w₁ r₁ := by
  -- what the memory has besides the subscriptions
  have hsame : h.head = w.heap.head ∧ h.count = w.heap.count ∧ h.allocated = w.heap.allocated ∧
      ∀ q, (h.node q).next = (w.heap.node q).next ∧
        ((∀ i, ¬ w.At .tx i q) → h.node q = w.heap.node q) := by
    obtain rfl | ⟨i, p, x, hp, rfl⟩ := hheap
    · exact ⟨rfl, rfl, rfl, fun _ => ⟨rfl, fun _ => rfl⟩⟩
    · refine ⟨rfl, rfl, rfl, fun q => ?_⟩
      by_cases hq : q = p
      · subst hq
        exact ⟨by simp [Heap.store, Heap.put], fun hnot => absurd hp (hnot i)⟩
      · have : (w.heap.store p (Channel.setSubscription x)).node q = w.heap.node q :=
          Function.update_of_ne hq ..
        exact ⟨congrArg Node.next this, fun _ => this⟩
  obtain ⟨hhead, hcount, hallocated, hnode⟩ := hsame
  have hrx : ∀ {i q}, w.At .rx i q → h.node q = w.heap.node q := by
    intro i q hq
    refine (hnode q).2 fun j hj => ?_
    cases (hl.distinct hq hj).1
  refine outcome ⟨h, w.directory.setChannels cs, n⟩ r' ?_ hf heffect
    (fun c₂ l₂ htogether _ => ?_) (fun q hq => ?_) fun x hx hrest => ?_
  · refine ⟨fun side => (congrFun hhead side).trans (hl.head side),
      fun {side i q} hq => (hnode q).1.trans (hl.next hq), fun side => ?_,
      fun {side i q ch} hq hch => ?_, fun hq => hallocated ▸ hl.allocated hq, hl.distinct⟩
    · cases side with
      | tx => exact (hl.length .tx).trans hlength.symm
      | rx => exact hl.length .rx
    · cases side with
      | tx => simpa [ListWorld.subscription] using hchannel hq hch
      | rx =>
        refine (congrArg Node.channel (hrx hq)).trans ?_
        simpa [ListWorld.subscription] using hl.channel hq hch
  · refine ⟨fun hq => hq, fun {side i ch} hch => ?_, fun {q} _ hfresh => ⟨⟨?_, hfresh.2⟩, ?_⟩,
      fun {side} _ => ⟨rfl, congrFun hcount side, ?_⟩, fun hserver => ?_⟩
    · have hrole₂ : c₂.role ≠ some .server := by
        obtain hnone | hne := htogether
        · cases hrole.symm.trans hnone
        · exact fun h₂ => hne (hrole.trans h₂.symm)
      cases side with
      | tx => exact (hlist hch).imp fun x hx => ⟨hx, fun h₂ => absurd h₂ hrole₂⟩
      | rx => exact ⟨ch.subscriptionId, hch, fun _ => rfl⟩
    · exact hallocated ▸ hfresh.1
    · exact (hnode q).2 fun j hj => hfresh.not_at hj
    · cases side <;> rfl
    · obtain hnone | hne := htogether
      · cases hrole.symm.trans hnone
      · exact absurd (hrole.trans hserver.symm) hne
  · rw [hpriv] at hq
    cases hq
  · cases x with
    | adder side =>
      refine (congrFun hcount side).trans (hrest.trans ?_)
      cases side <;> rfl
    | server => exact absurd hrole hx

/-! ## The steps of an add -/

theorem foldl_all (new ch : Channel) :
    Member.all.foldl (fun ch m => m.store new ch) ch = { new with channelId := ch.channelId } := rfl

theorem store_channelId (new ch : Channel) (m : Member) :
    (m.store new ch).channelId = ch.channelId := by
  cases m <;> rfl

theorem channel_subscriptionId {n : Nat} {ch : Channel} (h : call.channel n = some ch) :
    ch.subscriptionId = -1 := by
  cases call with
  | tx topicName channelType targetHz al => exact (Registry.newChannel_some h).1.subscriptionId
  | rx topicName channelType al => exact (Registry.newRxChannel_some h).1.subscriptionId

/-- What the adding calls do up to the link of the new channel. -/
theorem step_adding {l' : ListPoint} {h' : Heap} (hl : w.Linked) (hf : w.Fits c l r)
    (hpoint : l.private? = some p) (hstep : l.step w.heap = some (l', h'))
    (hlink : ∀ call p current, l ≠ .link call p current) :
    ∃ w₁ r₁, listProtocol.Outcome w c l l' r h' w₁ r₁ := by
  cases l with
  | store call q new rest =>
    obtain ⟨hb, hnew, htraps, hfill⟩ := hf
    cases rest with
    | nil =>
      simp only [ListPoint.step, Option.some.injEq, Prod.mk.injEq] at hstep
      obtain ⟨rfl, rfl⟩ := hstep
      have hnot : call.traps = false := by
        by_contra ht
        exact absurd (htraps (by simpa using ht)) List.not_mem_nil
      exact outcome_load hl ⟨hb, hnot, new, hnew, hfill⟩ (.inl rfl) (.inr rfl)
    | cons m rest =>
      simp only [ListPoint.step, Option.ite_none_left_eq_some, Option.some.injEq,
        Prod.mk.injEq] at hstep
      obtain ⟨hno, rfl, rfl⟩ := hstep
      refine outcome_put hl hb.fresh _ ⟨⟨⟨hb.runs, hb.pending, hb.counted⟩, hb.fresh⟩, hnew,
        fun ht => ?_, ?_⟩ rfl rfl
      · obtain rfl | hmem := List.mem_cons.mp (htraps ht)
        · exact absurd ⟨rfl, ht⟩ hno
        · exact hmem
      · simp only [setHeap, node_put, store_channelId]
        exact hfill
  | loadCount call q =>
    simp only [ListPoint.step, Option.some.injEq, Prod.mk.injEq] at hstep
    obtain ⟨rfl, rfl⟩ := hstep
    exact outcome_load hl ⟨hf, hf.counted⟩ (.inl rfl) (.inr rfl)
  | storeId call q n =>
    simp only [ListPoint.step, Option.some.injEq, Prod.mk.injEq] at hstep
    obtain ⟨rfl, rfl⟩ := hstep
    obtain ⟨hfilled, rfl⟩ := hf
    refine outcome_put hl hfilled.fresh _ ⟨⟨⟨hfilled.runs, hfilled.pending, hfilled.counted⟩,
      hfilled.fresh⟩, hfilled.traps, ?_⟩ rfl rfl
    obtain ⟨new, hnew, hnode⟩ := hfilled.filled
    simp only [setHeap, node_put]
    rw [AddCall.channel_eq, hnew, hnode]
    rfl
  | storeNull call q =>
    simp only [ListPoint.step, Option.some.injEq, Prod.mk.injEq] at hstep
    obtain ⟨rfl, rfl⟩ := hstep
    have hm : w.Made c call q r := hf
    refine outcome_put hl hm.fresh _ ⟨⟨⟨⟨hm.runs, hm.pending, hm.counted⟩, hm.fresh⟩, hm.traps, ?_⟩,
      ?_⟩ rfl rfl
    · simp only [setHeap, node_put]
      exact hm.made
    · simp only [setHeap, node_put]
  | loadHead call q =>
    rw [ListPoint.step, hl.head] at hstep
    cases hnodes : w.nodes call.side with
    | nil =>
      simp only [hnodes, List.getElem?_nil, Option.some.injEq, Prod.mk.injEq] at hstep
      obtain ⟨rfl, rfl⟩ := hstep
      exact outcome_load hl ⟨hf, by rw [hnodes]; rfl⟩ (.inl rfl) (.inr rfl)
    | cons a as =>
      simp only [hnodes, List.getElem?_cons_zero, Option.some.injEq, Prod.mk.injEq] at hstep
      obtain ⟨rfl, rfl⟩ := hstep
      exact outcome_load hl ⟨hf, 0, by rw [At, hnodes]; rfl⟩ (.inl rfl) (.inr rfl)
  | test call q current =>
    obtain ⟨hready, i, hat⟩ := hf
    rw [ListPoint.step, hl.next hat] at hstep
    have hlt := (List.getElem?_eq_some_iff.mp hat).1
    cases hnext : (w.nodes call.side)[i + 1]? with
    | none =>
      simp only [hnext, Option.some.injEq, Prod.mk.injEq] at hstep
      obtain ⟨rfl, rfl⟩ := hstep
      have hlast : i = (w.nodes call.side).length - 1 := by
        have := List.getElem?_eq_none_iff.mp hnext
        omega
      refine outcome_load hl ⟨hready, ?_⟩ (.inl rfl) (.inr rfl)
      rw [List.getLast?_eq_getElem?, ← hlast]
      exact hat.symm
    | some a =>
      simp only [hnext, Option.some.injEq, Prod.mk.injEq] at hstep
      obtain ⟨rfl, rfl⟩ := hstep
      exact outcome_load hl ⟨hready, i, hat, (List.getElem?_eq_some_iff.mp hnext).1⟩ (.inl rfl)
        (.inr rfl)
  | advance call q current =>
    obtain ⟨hready, i, hat, hlt⟩ := hf
    rw [ListPoint.step, hl.next hat, List.getElem?_eq_getElem hlt] at hstep
    simp only [Option.some.injEq, Prod.mk.injEq] at hstep
    obtain ⟨rfl, rfl⟩ := hstep
    exact outcome_load hl ⟨hready, i + 1, List.getElem?_eq_getElem hlt⟩ (.inl rfl) (.inr rfl)
  | link call q current => exact absurd rfl (hlink call q current)
  | _ => cases hpoint

theorem step_malloc {call : AddCall} {l' : ListPoint} {h' : Heap} (hl : w.Linked)
    (hf : w.Adding c call p r) (hstep : (ListPoint.malloc call p).step w.heap = some (l', h')) :
    ∃ w₁ r₁, listProtocol.Outcome w c (.malloc call p) l' r h' w₁ r₁ := by
  obtain ⟨rfl, rfl, hcounted⟩ := hf
  rw [ListPoint.step] at hstep
  cases hnew : call.channel 0 with
  | none =>
    simp only [hnew, Option.some.injEq, Prod.mk.injEq] at hstep
    obtain ⟨rfl, rfl⟩ := hstep
    refine outcome_load hl ⟨rfl, ?_⟩ (.inr ⟨rfl, _, rfl, ?_⟩) (.inl rfl)
    · rintro x ⟨⟩
      exact hcounted
    · have hnone : call.channel (w.directory.registry.count call.side) = none := by
        rw [AddCall.channel_eq, hnew]
        rfl
      simp only [Directory.apply, hnone]
  | some new =>
    simp only [hnew, Option.ite_none_left_eq_some, Option.some.injEq, Prod.mk.injEq] at hstep
    obtain ⟨hfresh, rfl, rfl⟩ := hstep
    refine outcome_malloc hl hfresh ⟨⟨⟨rfl, rfl, hcounted⟩, private_malloc hl hfresh⟩, hnew,
      fun _ => by decide, ?_⟩ rfl
    exact foldl_all new _

/-- A channel takes its place in the list when it is linked. -/
theorem step_link {call : AddCall} {current : Option Addr} {l' : ListPoint} {h' : Heap}
    (hl : w.Linked) (hf : w.Fits c (.link call p current) r)
    (hstep : (ListPoint.link call p current).step w.heap = some (l', h')) :
    ∃ w₁ r₁, listProtocol.Outcome w c (.link call p current) l' r h' w₁ r₁ := by
  obtain ⟨hready, hlast⟩ := hf
  have hmade := hready.made
  obtain ⟨rfl, rfl⟩ : l' = .loadCounter call p ∧ h' = linkHeap w.heap call.side p current := by
    cases current <;> simpa only [ListPoint.step, linkHeap, Option.some.injEq, Prod.mk.injEq,
      eq_comm] using hstep
  have hruns := hready.runs
  have hlen := hl.length call.side
  let w' := w.linked call.side p (w.heap.node p).channel current
  have hat : w'.At call.side (w.nodes call.side).length p := by
    rw [At, nodes_linked_self, List.getElem?_concat_length]
  have hch : (w'.list call.side)[(w.nodes call.side).length]? = some (w.heap.node p).channel := by
    rw [hlen, list_linked_self, List.getElem?_concat_length]
  have hcounted : w.heap.count call.side = w.directory.registry.count call.side := hready.counted
  refine outcome w' (some (.id (w.heap.node p).channel.channelId))
    (hl.link hready.fresh rfl (channel_subscriptionId hmade) hready.next hlast)
    ⟨hruns, ?_, _, _, hat, hch, rfl⟩ (.inr ⟨hready.pending, _, rfl, ?_⟩)
    (fun c₂ l₂ htogether hapart => rely_link rfl hlast ?_ hapart) ?_ ?_
  · show (linkHeap w.heap call.side p current).count call.side + 1 =
      (w.directory.registry.append call.side _).count call.side
    rw [linkHeap_count, Registry.count_append_self, hcounted]
  · rw [hruns]
    simp only [Directory.apply, hmade, hready.traps, Bool.false_eq_true, if_false]
    rfl
  · intro h₂
    obtain hnone | hne := htogether
    · rw [show listProtocol.role c = c.role from rfl, hruns] at hnone
      cases hnone
    · rw [show listProtocol.role c = c.role from rfl, hruns] at hne
      exact hne h₂.symm
  · rintro q ⟨⟩
  · intro x hx hrest
    cases x with
    | adder side =>
      have hs : side ≠ call.side := by
        rintro rfl
        exact hx (by rw [hruns]; rfl)
      exact (congrFun (linkHeap_count w.heap) side).trans
        (hrest.trans (Registry.count_append_ne hs).symm)
    | server => exact hrest

/-- The id of a linked channel. -/
theorem Returns.channelId {side : Side} (hl : w.Linked) (h : w.Returns side p r) :
    r = some (.id (w.heap.node p).channel.channelId) := by
  obtain ⟨i, ch, hat, hch, rfl⟩ := h
  rw [hl.channel hat hch]
  rfl

/-- What the adding calls do from the link on. -/
theorem step_linked {l' : ListPoint} {h' : Heap} (hl : w.Linked) (hf : w.Fits c l r)
    (hpoint : (∃ call q, l = .loadCounter call q) ∨ (∃ call q n, l = .storeCounter call q n) ∨
      ∃ side q, l = .loadId side q)
    (hstep : l.step w.heap = some (l', h')) :
    ∃ w₁ r₁, listProtocol.Outcome w c l l' r h' w₁ r₁ := by
  obtain ⟨call, q, rfl⟩ | ⟨call, q, n, rfl⟩ | ⟨side, q, rfl⟩ := hpoint
  · simp only [ListPoint.step, Option.some.injEq, Prod.mk.injEq] at hstep
    obtain ⟨rfl, rfl⟩ := hstep
    exact outcome_load hl ⟨hf, rfl⟩ (.inl rfl) (.inl rfl)
  · simp only [ListPoint.step, Option.some.injEq, Prod.mk.injEq] at hstep
    obtain ⟨rfl, rfl⟩ := hstep
    obtain ⟨⟨rfl, huncounted, hresult⟩, rfl⟩ := hf
    refine outcome_count hl rfl _ ⟨hresult, ?_⟩ rfl
    rintro x ⟨⟩
    exact (Function.update_self ..).trans huncounted
  · simp only [ListPoint.step, Option.some.injEq, Prod.mk.injEq] at hstep
    obtain ⟨rfl, rfl⟩ := hstep
    exact outcome_load hl ⟨hf.1.channelId hl, hf.2⟩ (.inl rfl) (.inl rfl)

/-! ## The steps of a loop -/

/-- A loop that has not found a channel before one that passes its test finds that one. -/
theorem Walked.place (hw : w.Walked k infos i) {ch : Channel}
    (hch : (w.list k.side)[i]? = some ch) (htest : k.test ch = true) :
    w.directory.place k = some i := by
  obtain ⟨hlt, rfl⟩ := List.getElem?_eq_some_iff.mp hch
  refine List.findIdx?_eq_some_iff_getElem.mpr ⟨hlt, htest, fun j hj => ?_⟩
  have hmissed := hw.missed hj (List.getElem?_eq_getElem (hj.trans hlt))
  exact Bool.eq_false_iff.mp hmissed

/-- A loop that comes to the end finds none. -/
theorem Walked.place_none (hw : w.Walked k infos (w.list k.side).length) :
    w.directory.place k = none := by
  refine List.findIdx?_eq_none_iff.mpr fun ch hmem => ?_
  obtain ⟨j, hj, rfl⟩ := List.getElem_of_mem hmem
  exact hw.missed hj (List.getElem?_eq_getElem hj)

theorem get_eq (d : Directory) (side : Side) (topicName : Bytes) :
    d.registry.get side topicName = ((d.place (.get side topicName)).bind fun i =>
      (d.registry.list side)[i]?.map (·.channelId)).getD (-1) := by
  have hget : d.registry.get side topicName =
      Registry.idOfTopic (d.registry.list side) topicName := by
    cases side <;> rfl
  rw [hget, Registry.idOfTopic, Directory.place]
  show _ = Option.getD (((d.registry.list side).findIdx? fun ch => ch.topicName == topicName).bind
    _) (-1)
  induction d.registry.list side with
  | nil => rfl
  | cons ch cs ih =>
    rw [List.find?_cons, List.findIdx?_cons]
    cases ch.topicName == topicName with
    | true => rfl
    | false =>
      simp only [Bool.false_eq_true, if_false]
      rw [ih]
      cases cs.findIdx? fun ch => ch.topicName == topicName <;> rfl

theorem find_eq (d : Directory) (kind : BufferKind) (channelId : Int32) :
    d.registry.find kind channelId = d.place (.find kind channelId) :=
  Registry.find_eq_findIdx? ..

/-- A loop that is not `disconnect`'s, at the end: nothing changes. -/
theorem apply_atEnd (hk : k ≠ .disconnect)
    (hw : w.Walked k infos (w.list k.side).length) :
    Directory.apply (.walk k) w.directory = some (k.atEnd infos, w.directory) := by
  have hplace := hw.place_none
  cases k with
  | get side topicName =>
    simp only [Directory.apply, get_eq, hplace]
    rfl
  | find kind channelId =>
    simp only [Directory.apply, find_eq, hplace]
    rfl
  | subscribe id channelId =>
    simp only [Directory.apply, hplace]
    rfl
  | unsubscribe id =>
    simp only [Directory.apply, hplace]
    rfl
  | disconnect => exact absurd rfl hk
  | advertise =>
    have hinfos := hw.infos
    rw [List.take_length] at hinfos
    simp only [Directory.apply, Walk.atEnd, hinfos]
    rfl

/-- What the server thread leaves at the end of a loop. -/
theorem Walked.atRest (hk : k ≠ .disconnect) (hw : w.Walked k infos i) : w.AtRest (.walk k) := by
  intro x hx
  have hx : k.role = some x := hx
  cases k with
  | subscribe id channelId =>
    cases hx
    exact hw.cleared rfl
  | unsubscribe id =>
    cases hx
    exact hw.cleared rfl
  | disconnect => exact absurd rfl hk
  | _ => cases hx

/-- The end of the loop of `foxdbg_protocol_disconnect`: every subscription is reset. -/
theorem outcome_disconnected (hl : w.Linked)
    (hw : w.Walked .disconnect infos (w.list .tx).length) :
    ∃ w₁ r₁, listProtocol.Outcome w (.walk .disconnect) l (.ret .done) none w.heap w₁ r₁ := by
  refine outcome_server (w.directory.registry.channels.map (Channel.setSubscription (-1))) 0 hl rfl
    (.inl rfl) (List.length_map ..) (fun {i ch} hch => ⟨-1, ?_⟩) (fun {i p ch} hp hch => ?_)
    ⟨rfl, ?_⟩ (.inr ⟨rfl, _, rfl, rfl⟩) rfl
  · rw [List.getElem?_map]
    exact congrArg (Option.map _) hch
  · rw [List.getElem?_map] at hch
    obtain ⟨old, hold, rfl⟩ := Option.map_eq_some_iff.mp hch
    have hlt : i < w.cleared := (list_lt (w := w) hold).trans_eq (hw.cleared rfl).symm
    rw [hl.channel hp hold, ListWorld.subscription, if_pos ⟨rfl, hlt⟩]
    rfl
  · rintro x ⟨⟩
    rfl

/-- The loop goes on with a load of `next`, or of the head of the list. -/
theorem outcome_goOn (hl : w.Linked) (hw : w.Walked k infos i) :
    ∃ w₁ r₁, listProtocol.Outcome w (.walk k) l (.goOn k infos (w.nodes k.side)[i]?) none
      w.heap w₁ r₁ := by
  cases hp : (w.nodes k.side)[i]? with
  | some p =>
    have hlt := (List.getElem?_eq_some_iff.mp hp).1
    rw [hl.length] at hlt
    exact outcome_load hl ⟨rfl, rfl, i, _, hp, List.getElem?_eq_getElem hlt, hw, trivial⟩ (.inl rfl)
      (.inl rfl)
  | none =>
    have hend : i = (w.list k.side).length := by
      have hge := List.getElem?_eq_none_iff.mp hp
      rw [hl.length] at hge
      exact Nat.le_antisymm hw.le hge
    subst hend
    by_cases hk : k = .disconnect
    · subst hk
      exact outcome_disconnected hl hw
    · exact outcome_load hl ⟨rfl, hw.atRest hk⟩
        (.inr ⟨rfl, _, rfl, apply_atEnd hk hw⟩) (.inl rfl)

/-- The loop goes past a channel that does not pass its test. -/
theorem Walked.succ (hw : w.Walked k infos i) {ch : Channel} {infos' : List Listed}
    (hch : (w.list k.side)[i]? = some ch) (htest : k.test ch = false)
    (hinfos : infos' = k.infosOf ((w.list k.side).take (i + 1)))
    (hclears : k.clears (i + 1) = k.clears i) : w.Walked k infos' (i + 1) := by
  refine ⟨list_lt hch, fun {j ch'} hj hch' => ?_, hinfos, fun hk => ?_⟩
  · obtain hlt | rfl := Nat.lt_succ_iff_lt_or_eq.mp hj
    · exact hw.missed hlt hch'
    · cases hch.symm.trans hch'
      exact htest
  · rw [hclears]
    exact hw.cleared hk

/-- Outside of `disconnect`, the server thread finds the subscriptions of the registry. -/
theorem node_subscriptionId (hl : w.Linked) {ch : Channel} (hp : w.At .tx i p)
    (hch : (w.list .tx)[i]? = some ch) (hcleared : w.cleared = 0) :
    (w.heap.node p).channel = ch := by
  rw [hl.channel hp hch, ListWorld.subscription, hcleared, if_neg (by omega)]
  rfl

/-- The lookups that take effect at a channel which passes the test. -/
theorem outcome_hit {l' : ListPoint} {v : Answer} (hl : w.Linked)
    (hf : w.Fits (.walk k) l' (some v))
    (happly : Directory.apply (.walk k) w.directory = some (v, w.directory))
    (hpriv : l'.private? = none) :
    ∃ w₁ r₁, listProtocol.Outcome w (.walk k) l l' none w.heap w₁ r₁ :=
  outcome_load hl hf (.inr ⟨rfl, v, rfl, happly⟩) (.inl hpriv)

/-- The loop goes on to load `next`. -/
theorem outcome_miss {infos' : List Listed} (hl : w.Linked) (hp : w.At k.side i p)
    (hw : w.Walked k infos' (i + 1)) :
    ∃ w₁ r₁, listProtocol.Outcome w (.walk k) l (.next k infos' p) none w.heap w₁ r₁ :=
  outcome_load hl ⟨rfl, rfl, i, hp, hw⟩ (.inl rfl) (.inl rfl)

/-- A test of the loop body: it goes on with the channel, or to the next one. -/
theorem outcome_test {b : Bool} {l₁ : ListPoint} {ch : Channel} (hl : w.Linked)
    (hp : w.At k.side i p) (hch : (w.list k.side)[i]? = some ch) (hw : w.Walked k infos i)
    (hk : k ≠ .disconnect ∧ k ≠ .advertise) (hmiss : b = false → k.test ch = false)
    (hit : b = true → ∃ w₁ r₁, listProtocol.Outcome w (.walk k) l l₁ none w.heap w₁ r₁) :
    ∃ w₁ r₁, listProtocol.Outcome w (.walk k) l (if b then l₁ else .next k infos p) none
      w.heap w₁ r₁ := by
  cases b with
  | true => exact hit rfl
  | false =>
    refine outcome_miss hl hp (hw.succ hch (hmiss rfl) ?_ ?_)
    · rw [hw.infos]
      cases k <;> first | rfl | exact absurd rfl hk.2
    · cases k <;> first | rfl | exact absurd rfl hk.1

/-- A step of a loop that looks for a channel, at a channel: it stores nothing. -/
theorem step_lookup {l' : ListPoint} {h' : Heap} (hl : w.Linked)
    (hf : w.Visits c k infos p r fun _ => True)
    (hk : k ≠ .disconnect ∧ k ≠ .advertise)
    (hstep : (ListPoint.visit k infos p).step w.heap = some (l', h')) :
    ∃ w₁ r₁, listProtocol.Outcome w c (.visit k infos p) l' r h' w₁ r₁ := by
  obtain ⟨rfl, rfl, i, ch, hp, hch, hw, -⟩ := hf
  have htopic : (w.heap.node p).channel.topicName = ch.topicName := by rw [hl.channel hp hch]; rfl
  have hid : (w.heap.node p).channel.channelId = ch.channelId := by rw [hl.channel hp hch]; rfl
  rw [ListPoint.step, Option.some.injEq] at hstep
  cases k with
  | get side topicName =>
    simp only [ListPoint.body, htopic, Prod.mk.injEq] at hstep
    obtain ⟨rfl, rfl⟩ := hstep
    refine outcome_test hl hp hch hw hk (fun htest => htest) fun htest => ?_
    refine outcome_hit (v := .id ch.channelId) hl ⟨⟨i, ch, hp, hch, rfl⟩, hw.atRest hk.1⟩ ?_ rfl
    simp only [Directory.apply, get_eq, hw.place hch htest, Option.bind_some]
    rw [show (w.directory.registry.list side)[i]? = some ch from hch]
    rfl
  | find kind channelId =>
    cases kind with
    | data =>
      simp only [ListPoint.body, hid, Prod.mk.injEq] at hstep
      obtain ⟨rfl, rfl⟩ := hstep
      refine outcome_test hl hp hch hw hk (fun htest => ?_) fun htest => ?_
      · simp only [Walk.test, htest, Bool.false_and]
      · have hplace := hw.place hch (by simp only [Walk.test, htest, Channel.buffer?]; rfl)
        refine outcome_hit (v := .channel (some p)) hl ⟨rfl, hw.atRest hk.1⟩ ?_ rfl
        simp only [Directory.apply, find_eq, hplace, Option.bind_some]
        rw [show (w.directory.nodes .tx)[i]? = some p from hp]
    | info =>
      simp only [ListPoint.body, hid, Prod.mk.injEq] at hstep
      obtain ⟨rfl, rfl⟩ := hstep
      refine outcome_test hl hp hch hw hk (fun htest => ?_) fun htest => ?_
      · simp only [Walk.test, htest, Bool.false_and]
      · obtain rfl : infos = [] := hw.infos
        exact outcome_load hl ⟨rfl, rfl, i, ch, hp, hch, hw, eq_of_beq htest⟩ (.inl rfl) (.inl rfl)
  | subscribe id channelId =>
    simp only [ListPoint.body, hid, Prod.mk.injEq] at hstep
    obtain ⟨rfl, rfl⟩ := hstep
    refine outcome_test hl hp hch hw hk (fun htest => htest) fun htest => ?_
    obtain rfl : infos = [] := hw.infos
    exact outcome_load hl ⟨rfl, rfl, rfl, i, ch, hp, hch, hw, htest⟩ (.inl rfl) (.inl rfl)
  | unsubscribe id =>
    simp only [ListPoint.body, node_subscriptionId hl hp hch (hw.cleared rfl),
      Prod.mk.injEq] at hstep
    obtain ⟨rfl, rfl⟩ := hstep
    refine outcome_test hl hp hch hw hk (fun htest => htest) fun htest => ?_
    obtain rfl : infos = [] := hw.infos
    exact outcome_load hl ⟨rfl, rfl, rfl, i, ch, hp, hch, hw, htest⟩ (.inl rfl) (.inl rfl)
  | disconnect => exact absurd rfl hk.1
  | advertise => exact absurd rfl hk.2

/-- The second test of `foxdbg_write_channel_info`. -/
theorem step_infoBuffer {channelId : Int32} {l' : ListPoint} {h' : Heap} (hl : w.Linked)
    (hf : w.Fits c (.loadInfoBuffer channelId p) r)
    (hstep : (ListPoint.loadInfoBuffer channelId p).step w.heap = some (l', h')) :
    ∃ w₁ r₁, listProtocol.Outcome w c (.loadInfoBuffer channelId p) l' r h' w₁ r₁ := by
  obtain ⟨rfl, rfl, i, ch, hp, hch, hw, hid⟩ := hf
  have hinfo : (w.heap.node p).channel.infoBuffer = ch.infoBuffer := by
    rw [hl.channel hp hch]
    rfl
  have htest : (Walk.find .info channelId).test ch = ch.infoBuffer.isSome := by
    simp only [Walk.test, hid, BEq.rfl, Bool.true_and, Channel.buffer?]
  rw [ListPoint.step, hinfo, ← apply_ite some, ← apply_ite (fun l => (l, w.heap))] at hstep
  cases hstep
  refine outcome_test hl hp hch hw ⟨by rintro ⟨⟩, by rintro ⟨⟩⟩ (fun h => htest.trans h) fun h => ?_
  refine outcome_hit (v := .channel (some p)) hl ⟨rfl, hw.atRest (by rintro ⟨⟩)⟩ ?_ rfl
  simp only [Directory.apply, find_eq, hw.place hch (htest.trans h), Option.bind_some]
  rw [show (w.directory.nodes .tx)[i]? = some p from hp]

/-- A channel is subscribed or unsubscribed. -/
theorem step_subscription {id : Int32} {l' : ListPoint} {h' : Heap} (hl : w.Linked)
    (hf : w.Fits c (.storeSubscription k p id) r)
    (hstep : (ListPoint.storeSubscription k p id).step w.heap = some (l', h')) :
    ∃ w₁ r₁, listProtocol.Outcome w c (.storeSubscription k p id) l' r h' w₁ r₁ := by
  obtain ⟨hstores, rfl, rfl, i, ch, hp, hch, hw, htest⟩ := hf
  simp only [ListPoint.step, Option.some.injEq, Prod.mk.injEq] at hstep
  obtain ⟨rfl, rfl⟩ := hstep
  obtain ⟨hside, hrole, hk⟩ : k.side = .tx ∧ k.role = some .server ∧ k ≠ .disconnect := by
    cases k <;> first | exact False.elim hstores | exact ⟨rfl, rfl, by rintro ⟨⟩⟩
  have hcleared : w.cleared = 0 := hw.atRest hk .server hrole
  have hplace := hw.place hch htest
  rw [hside] at hp hch
  refine outcome_server (w.directory.registry.channels.modify i (Channel.setSubscription id)) 0
    hl hrole
    (.inr ⟨i, p, id, hp, rfl⟩) (List.length_modify ..) (fun {j ch'} hch' => ?_)
    (fun {j q ch'} hq hch' => ?_) ⟨rfl, ?_⟩ (.inr ⟨rfl, _, rfl, ?_⟩) rfl
  · refine ⟨if i = j then id else ch'.subscriptionId, ?_⟩
    rw [List.getElem?_modify, show w.directory.registry.channels[j]? = some ch' from hch']
    by_cases hij : i = j
    · simp only [hij, if_true]
      rfl
    · simp only [hij, if_false]
      rfl
  · rw [if_neg (Nat.not_lt_zero _)]
    rw [List.getElem?_modify] at hch'
    obtain ⟨old, hold, rfl⟩ := Option.map_eq_some_iff.mp hch'
    by_cases hij : i = j
    · subst hij
      cases hp.symm.trans hq
      rw [if_pos rfl]
      have hnode := node_subscriptionId hl hp hold hcleared
      simp only [Heap.store, Heap.put, Function.update_self, hnode]
      rfl
    · have hne : q ≠ p := fun h => hij (hl.distinct hp (h ▸ hq)).2
      rw [if_neg hij, Heap.store, Heap.put]
      simp only [Function.update_of_ne hne]
      exact node_subscriptionId hl hq hold hcleared
  · intro x hx
    cases hrole.symm.trans hx
    rfl
  · cases k with
    | subscribe id' channelId =>
      obtain rfl : id = id' := hstores
      simp only [Directory.apply, hplace]
    | unsubscribe id' =>
      obtain rfl : id = -1 := hstores
      simp only [Directory.apply, hplace]
    | _ => exact hstores.elim

/-- `foxdbg_protocol_disconnect` resets one more subscription. -/
theorem step_reset {l' : ListPoint} {h' : Heap} (hl : w.Linked)
    (hf : w.Visits c .disconnect infos p r fun _ => True)
    (hstep : (ListPoint.visit .disconnect infos p).step w.heap = some (l', h')) :
    ∃ w₁ r₁, listProtocol.Outcome w c (.visit .disconnect infos p) l' r h' w₁ r₁ := by
  obtain ⟨rfl, rfl, i, ch, hp, hch, hw, -⟩ := hf
  simp only [ListPoint.step, ListPoint.body, Option.some.injEq, Prod.mk.injEq] at hstep
  obtain ⟨rfl, rfl⟩ := hstep
  have hcleared : w.cleared = i := hw.cleared rfl
  refine outcome_server w.directory.registry.channels (i + 1) hl rfl
    (.inr ⟨i, p, -1, hp, rfl⟩) rfl (fun {j ch'} hch' => ⟨ch'.subscriptionId, hch'⟩)
    (fun {j q ch'} hq hch' => ?_) ⟨rfl, rfl, i, hp, list_lt hch, fun {j ch'} _ _ => rfl, hw.infos,
      fun _ => rfl⟩ (.inl ⟨rfl, rfl⟩) rfl
  by_cases hij : q = p
  · subst hij
    obtain ⟨-, rfl⟩ := hl.distinct hp hq
    rw [if_pos (Nat.lt_succ_self i), Heap.store, Heap.put]
    simp only [Function.update_self, hl.channel hq hch']
    rfl
  · have hne : j ≠ i := by
      rintro rfl
      exact hij (Option.some.inj (hq.symm.trans hp))
    rw [Heap.store, Heap.put]
    simp only [Function.update_of_ne hij, hl.channel hq hch', ListWorld.subscription, hcleared,
      true_and, Nat.lt_succ_iff_lt_or_eq, hne, or_false]

/-- `send_advertise` loads what it tells about a channel. -/
theorem step_listed {l' : ListPoint} {h' : Heap} (hl : w.Linked) (hf : w.Fits c l r)
    (hpoint : l = .visit .advertise infos p ∨ (∃ ty, l = .loadListedId infos p ty) ∨
      ∃ ty id, l = .loadListedTopic infos p ty id)
    (hstep : l.step w.heap = some (l', h')) :
    ∃ w₁ r₁, listProtocol.Outcome w c l l' r h' w₁ r₁ := by
  obtain rfl | ⟨ty, rfl⟩ | ⟨ty, id, rfl⟩ := hpoint
  · obtain ⟨rfl, rfl, i, ch, hp, hch, hw, -⟩ := hf
    simp only [ListPoint.step, ListPoint.body, Option.some.injEq, Prod.mk.injEq] at hstep
    obtain ⟨rfl, rfl⟩ := hstep
    refine outcome_load hl ⟨rfl, rfl, i, ch, hp, hch, hw, ?_⟩ (.inl rfl) (.inl rfl)
    rw [hl.channel hp hch]
    rfl
  · obtain ⟨rfl, rfl, i, ch, hp, hch, hw, hty⟩ := hf
    simp only [ListPoint.step, Option.some.injEq, Prod.mk.injEq] at hstep
    obtain ⟨rfl, rfl⟩ := hstep
    refine outcome_load hl ⟨rfl, rfl, i, ch, hp, hch, hw, hty, ?_⟩ (.inl rfl) (.inl rfl)
    rw [hl.channel hp hch]
    rfl
  · obtain ⟨rfl, rfl, i, ch, hp, hch, hw, hty, hid⟩ := hf
    simp only [ListPoint.step, Option.some.injEq, Prod.mk.injEq] at hstep
    obtain ⟨rfl, rfl⟩ := hstep
    refine outcome_miss (k := .advertise) hl hp (hw.succ hch rfl ?_ rfl)
    have htopic : (w.heap.node p).channel.topicName = ch.topicName := by
      rw [hl.channel hp hch]
      rfl
    rw [hw.infos, htopic, ← hty, ← hid, List.take_add_one, hch]
    simp only [Walk.infosOf, List.map_append]
    rfl

/-- The protocol's rule for a step. -/
theorem step_outcome {l' : ListPoint} {h' : Heap} (hl : w.Linked) (hf : w.Fits c l r)
    (hstep : l.step w.heap = some (l', h')) :
    ∃ w₁ r₁, listProtocol.Outcome w c l l' r h' w₁ r₁ := by
  cases l with
  | malloc call p => exact step_malloc hl hf hstep
  | link call p current => exact step_link hl hf hstep
  | loadCounter call p => exact step_linked hl hf (.inl ⟨_, _, rfl⟩) hstep
  | storeCounter call p n => exact step_linked hl hf (.inr (.inl ⟨_, _, _, rfl⟩)) hstep
  | loadId side p => exact step_linked hl hf (.inr (.inr ⟨_, _, rfl⟩)) hstep
  | first k =>
    simp only [ListPoint.step, Option.some.injEq, Prod.mk.injEq] at hstep
    obtain ⟨rfl, rfl⟩ := hstep
    obtain ⟨rfl, rfl, hrest⟩ := hf
    rw [hl.head]
    refine outcome_goOn hl ⟨Nat.zero_le _, fun {j ch} hj => absurd hj (Nat.not_lt_zero j), ?_,
      fun hk => (hrest .server hk).trans ?_⟩
    · cases k <;> rfl
    · cases k <;> rfl
  | visit k infos p =>
    by_cases hd : k = .disconnect
    · subst hd
      exact step_reset hl hf hstep
    · by_cases ha : k = .advertise
      · subst ha
        exact step_listed hl hf (.inl rfl) hstep
      · exact step_lookup hl hf ⟨hd, ha⟩ hstep
  | loadInfoBuffer channelId p => exact step_infoBuffer hl hf hstep
  | storeSubscription k p id => exact step_subscription hl hf hstep
  | loadListedId infos p ty => exact step_listed hl hf (.inr (.inl ⟨_, rfl⟩)) hstep
  | loadListedTopic infos p ty id => exact step_listed hl hf (.inr (.inr ⟨_, _, rfl⟩)) hstep
  | next k infos p =>
    simp only [ListPoint.step, Option.some.injEq, Prod.mk.injEq] at hstep
    obtain ⟨rfl, rfl⟩ := hstep
    obtain ⟨rfl, rfl, i, hp, hw⟩ := hf
    rw [hl.next hp]
    exact outcome_goOn hl hw
  | ret v => cases hstep
  | _ => exact step_adding hl hf rfl hstep (by rintro _ _ _ ⟨⟩)

end ListWorld

/-- **The protocol of the lists.** -/
theorem listProtocol_keeps : listProtocol.Keeps := by
  refine ⟨fun {l l'} h p hp hp' => h p hp' hp, fun {w c} _ hrest => ?_, fun c l p hp => ?_,
    fun hl hf hstep => ListWorld.step_outcome hl hf hstep, fun {w c l r v} hf hv => ?_⟩
  · cases c with
    | add call p => exact ⟨rfl, rfl, hrest _ rfl⟩
    | walk k => exact ⟨rfl, rfl, hrest⟩
  · cases c <;> cases hp
  · cases l with
    | ret v' =>
      cases hv
      exact hf
    | _ => cases hv

/-- The memory after `foxdbg_init`: the lists are empty. -/
structure Heap.Empty (h : Heap) : Prop where
  head : ∀ side, h.head side = none
  count : ∀ side, h.count side = 0

/-- The memory stands for a directory, and the counters are right. -/
def Heap.Holds (h : Heap) (d : Directory) : Prop :=
  (ListWorld.mk h d 0).Linked ∧ ∀ side, (ListWorld.mk h d 0).Counted side

theorem Heap.Empty.holds {h : Heap} (he : h.Empty) : h.Holds .init := by
  refine ⟨⟨fun side => he.head side, ?_, fun side => ?_, ?_, ?_, ?_⟩, fun side => ?_⟩
  · rintro _ _ _ ⟨⟩
  · cases side <;> rfl
  · rintro _ _ _ _ ⟨⟩
  · rintro _ _ _ ⟨⟩
  · rintro _ _ _ _ _ ⟨⟩
  · refine (he.count side).trans ?_
    cases side <;> rfl

/-- The protocol holds at the start. -/
theorem listProtocol_start {ι : Type} {h : Heap} (he : h.Empty) :
    listProtocol.Holds (.start h) (fun _ : ι => none) ⟨h, .init, 0⟩ := by
  obtain ⟨hlinked, hcounted⟩ := he.holds
  refine Routine.Protocol.Holds.start (P := listProtocol) (w := ⟨h, .init, 0⟩) hlinked
    (fun x => ?_) _
  cases x with
  | adder side => exact hcounted side
  | server => rfl

/-- **Linearizability of the lists.** In a run in which no two threads add to the same list at the
same time, and no two are the server, the calls (`ListCall`; a pass is none) return what they return
in a run in which each call takes effect in one step; and when no call runs, the memory stands for
the directory of that run. -/
theorem registry_linearizable {ι : Type} [DecidableEq ι] {h : Heap} (he : h.Empty)
    {s : Routine.Pool ι Heap ListPoint ListCall} {es : List (Move ι ListCall)}
    (hr : listRoutine.lts.Run listProtocol.OneEach (.start h) es s) :
    ∃ fs t, (Routine.atomic Directory.apply).lts.Reach (.start .init) fs t ∧
      (Routine.atomic Directory.apply).history (.start .init) fs =
        listRoutine.history (.start h) es ∧
      ((∀ u, s.thread u = none) → s.shared.Holds t.shared) := by
  obtain ⟨fs, a, d, hreach, ⟨w, rfl, hw⟩, hhistory⟩ :=
    Routine.linearizes (Routine.Protocol.linearization listProtocol_keeps)
      ⟨_, rfl, listProtocol_start he⟩ hr
  refine ⟨fs, _, hreach, hhistory, fun hidle => ?_⟩
  have hrest : ∀ x, ListWorld.Rest x w := fun x => hw.rest x fun u c l hu => by
    rw [hidle u] at hu
    cases hu
  obtain ⟨heap, directory, cleared⟩ := w
  obtain rfl : cleared = 0 := hrest .server
  obtain rfl : heap = s.shared := hw.shared
  exact ⟨hw.inv, fun side => hrest (.adder side)⟩

/-- Memory in which every node holds garbage, and points to itself. -/
def Heap.garbage : Heap where
  node p :=
    ⟨⟨[], 7, 7, 7, 7, .image, ⟨0, .zero, .zero, .a, 0, .b, 0, Slot.a_ne_b⟩, none⟩, some p⟩
  allocated := []
  head _ := none
  count _ := 0

theorem Heap.garbage_empty : Heap.garbage.Empty := ⟨fun _ => rfl, fun _ => rfl⟩

/-- A call that adds a channel for integers, at an address. -/
def addInteger (topicName : Bytes) (p : Addr) : ListCall :=
  .add (.tx topicName (some .integer) 10 .zeroed) p

/-- The test of the step condition, for two threads. -/
def oneEach (s : Routine.Pool Bool Heap ListPoint ListCall) (m : Move Bool ListCall)
    (_ : Routine.Pool Bool Heap ListPoint ListCall) : Bool :=
  match m with
  | .call _ c => [false, true].all fun u =>
      (s.thread u).all fun x => c.role = none ∨ c.role ≠ x.1.role
  | _ => true

theorem oneEach_sound (s : Routine.Pool Bool Heap ListPoint ListCall) (m : Move Bool ListCall)
    (s' : Routine.Pool Bool Heap ListPoint ListCall) (h : oneEach s m s' = true) :
    listProtocol.OneEach s m s' := by
  rintro t c rfl u c' l hu
  have hall := List.all_eq_true.mp h u (by cases u <;> decide)
  rw [hu] at hall
  exact of_decide_eq_true (p := c.role = none ∨ c.role ≠ c'.role) hall

/-- The result of a thread that has come to the end of its call. -/
def resultOf (s : Routine.Pool Bool Heap ListPoint ListCall) (u : Bool) : Option Answer :=
  (s.thread u).bind fun x => listRoutine.result x.2

/-- A lookup finds a channel that has been linked and not counted. -/
theorem lookup_linearized : ∃ es s,
    listRoutine.lts.Run listProtocol.OneEach (.start .garbage) es s ∧
      resultOf s true = some (.id 0) ∧ s.shared.count .tx = 0 ∧
      ∃ fs t, (Routine.atomic Directory.apply).lts.Reach (.start .init) fs t ∧
        (Routine.atomic Directory.apply).history (.start .init) fs =
          listRoutine.history (.start .garbage) es ∧
        ((∀ u, s.thread u = none) → s.shared.Holds t.shared) := by
  obtain ⟨s, hr, hp⟩ := Lts.exists_run (L := listRoutine.lts) (s := .start .garbage)
    (p := fun s => resultOf s true == some (.id 0) && s.shared.count .tx == 0)
    (.call false (addInteger (ascii "a") 1) :: List.replicate 14 (.step false) ++
      .call true (.walk (.get .tx (ascii "a"))) :: List.replicate 3 (.step true))
    oneEach_sound (by decide +kernel)
  rw [Bool.and_eq_true, beq_iff_eq, beq_iff_eq] at hp
  exact ⟨_, s, hr, hp.1, hp.2, registry_linearizable Heap.garbage_empty hr⟩

/-- **Two threads that add.** Without the condition of `registry_linearizable` a channel can be
lost: both calls return the id 0, and the list has one channel. -/
theorem lost_channel : ∃ es s, listRoutine.lts.Reach (.start .garbage) es s ∧
    resultOf s false = some (.id 0) ∧ resultOf s true = some (.id 0) ∧
    s.shared.head .tx = some 2 ∧ (s.shared.node 2).next = none := by
  obtain ⟨s, hr, hp⟩ := Lts.exists_reach (L := listRoutine.lts) (s := .start .garbage)
    (p := fun s => resultOf s false == some (.id 0) && resultOf s true == some (.id 0) &&
      s.shared.head .tx == some 2 && (s.shared.node 2).next == none)
    (.call false (addInteger (ascii "a") 1) :: List.replicate 13 (.step false) ++
      .call true (addInteger (ascii "b") 2) :: List.replicate 13 (.step true) ++
      List.replicate 4 (.step false) ++ List.replicate 4 (.step true))
    (by decide +kernel)
  simp only [Bool.and_eq_true, beq_iff_eq] at hp
  exact ⟨_, s, hr, hp.1.1.1, hp.1.1.2, hp.1.2, hp.2⟩

/-! ## Accesses -/

/-- The channel that the step from a point accesses. -/
def ListPoint.accesses : ListPoint → Option Addr
  | .store _ p _ _ | .storeId _ p _ | .storeNull _ p | .loadId _ p | .loadInfoBuffer _ p
  | .storeSubscription _ p _ | .loadListedId _ p _ | .loadListedTopic _ p _ _
  | .visit _ _ p | .next _ _ p => some p
  | .test _ _ current | .advance _ _ current => some current
  | .link _ _ current => current
  | _ => none

namespace ListWorld

variable {w : ListWorld} {c : ListCall} {l : ListPoint} {r : Option Answer} {p : Addr}

theorem Visits.allocated {k : Walk} {infos : List Listed} {φ : Channel → Prop} (hl : w.Linked)
    (hv : w.Visits c k infos p r φ) : p ∈ w.heap.allocated := by
  obtain ⟨-, -, i, ch, hp, -⟩ := hv
  exact hl.allocated hp

/-- A thread accesses a channel that has been allocated. -/
theorem Fits.allocated (hl : w.Linked) (hf : w.Fits c l r) (hp : l.accesses = some p) :
    p ∈ w.heap.allocated := by
  cases l with
  | store call q new rest =>
    cases hp
    exact hf.1.fresh.1
  | storeId call q n =>
    cases hp
    exact hf.1.fresh.1
  | storeNull call q =>
    cases hp
    have hm : w.Made c call p r := hf
    exact hm.fresh.1
  | test call q current =>
    cases hp
    obtain ⟨-, i, hat⟩ := hf
    exact hl.allocated hat
  | advance call q current =>
    cases hp
    obtain ⟨-, i, hat, -⟩ := hf
    exact hl.allocated hat
  | link call q current => exact hl.allocated (at_current hf.2 hp)
  | loadId side q =>
    cases hp
    obtain ⟨⟨i, ch, hat, -⟩, -⟩ := hf
    exact hl.allocated hat
  | visit k infos q =>
    cases hp
    exact Visits.allocated hl hf
  | loadInfoBuffer channelId q =>
    cases hp
    exact Visits.allocated hl hf
  | storeSubscription k q id =>
    cases hp
    exact Visits.allocated hl hf.2
  | loadListedId infos q ty =>
    cases hp
    exact Visits.allocated hl hf
  | loadListedTopic infos q ty id =>
    cases hp
    exact Visits.allocated hl hf
  | next k infos q =>
    cases hp
    obtain ⟨-, -, i, hat, -⟩ := hf
    exact hl.allocated hat
  | _ => cases hp

end ListWorld

/-- **Accesses.** In the same runs, no step accesses a channel that was not allocated. -/
theorem accesses_allocated {ι : Type} [DecidableEq ι] {h : Heap} (he : h.Empty)
    {s : Routine.Pool ι Heap ListPoint ListCall} {es : List (Move ι ListCall)}
    (hr : listRoutine.lts.Run listProtocol.OneEach (.start h) es s) {u : ι} {c : ListCall}
    {l : ListPoint} {p : Addr} (hu : s.thread u = some (c, l)) (hp : l.accesses = some p) :
    p ∈ s.shared.allocated := by
  obtain ⟨fs, a, d, -, ⟨w, -, hw⟩, -⟩ :=
    Routine.linearizes (Routine.Protocol.linearization listProtocol_keeps)
      ⟨_, rfl, listProtocol_start he⟩ hr
  rw [← hw.shared]
  exact ListWorld.Fits.allocated hw.inv (hw.fits u c l hu) hp

/-- A lookup loads a member of a channel that has been linked. -/
theorem lookup_accesses : ∃ es s c l,
    listRoutine.lts.Run listProtocol.OneEach (.start .garbage) es s ∧
      s.thread true = some (c, l) ∧ l.accesses = some 1 ∧ 1 ∈ s.shared.allocated := by
  obtain ⟨s, hr, hp⟩ := Lts.exists_run (L := listRoutine.lts) (s := .start .garbage)
    (p := fun s => (s.thread true).any fun x => x.2.accesses == some 1)
    (.call false (addInteger (ascii "a") 1) :: List.replicate 14 (.step false) ++
      .call true (.walk (.get .tx (ascii "a"))) :: List.replicate 2 (.step true))
    oneEach_sound (by decide +kernel)
  obtain ⟨⟨c, l⟩, hthread, haccess⟩ := (Option.any_eq_true ..).mp hp
  have haccess : l.accesses = some 1 := eq_of_beq haccess
  exact ⟨_, s, c, l, hr, hthread, haccess,
    accesses_allocated Heap.garbage_empty hr hthread haccess⟩

end Foxdbg
