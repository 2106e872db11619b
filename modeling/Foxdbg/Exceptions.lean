import Foxdbg.Advertise

/-!
# Exceptions

The callbacks are called from C, and an exception that leaves one ends the process.
`foxdbg_protocol_connect` dumps the topics outside any `try`, and `foxdbg_protocol_receive` parses
the message before it: so the one returns exactly if the topics are valid UTF-8, and the other
exactly on an empty message, a binary one and a JSON text.
-/

namespace Foxdbg

open Json

variable {env : Env} {F : FloatLib} {s : State} {d : Bytes} {j : Json} {cs : List Channel}

/-- The message is a JSON object with an `op`. -/
def WellFormed (F : FloatLib) (d : Bytes) : Prop :=
  ∃ j, parse F d = some j ∧ j.isObject = true ∧ j.contains "op" = true

/-- The bytes are empty, a binary message, or a JSON text. -/
def Readable (F : FloatLib) (d : Bytes) : Prop :=
  d = [] ∨ d.head? = some 1 ∨ ∃ j, parse F d = some j

/-- `foxdbg_protocol_connect` returns exactly if the topics are valid UTF-8. -/
theorem connect_returns_iff (env : Env) (s : State) (w : Socket) :
    (∃ t, s.connect env w = .ok t) ↔ ∀ ch ∈ s.registry.channels, validUtf8 ch.topicName = true := by
  have htext : (State.advertiseText env.toFloatLib (s.opened w).registry.channels).isSome =
      s.registry.channels.all fun ch => validUtf8 ch.topicName := by
    rw [← advertiseText_isSome env.toFloatLib, State.advertiseText, channelInfos_opened,
      State.advertiseText]
  rw [← List.all_eq_true, ← htext]
  obtain ⟨info, tx, -, ⟨hnone, hconn⟩ | ⟨text, hsome, hconn⟩⟩ := State.connect_cases env s w
  · rw [hnone, hconn]
    constructor
    · rintro ⟨t, ht⟩
      cases ht
    · intro h
      cases h
  · rw [hsome, hconn]
    exact ⟨fun _ => rfl, fun _ => ⟨_, rfl⟩⟩

/-- `foxdbg_protocol_receive` returns exactly on readable bytes. -/
theorem receive_returns_iff (env : Env) (s : State) (d : Bytes) :
    (∃ t, s.receive env d = .ok t) ↔ Readable env.toFloatLib d := by
  unfold State.receive Readable
  cases d with
  | nil => exact ⟨fun _ => .inl rfl, fun _ => ⟨s, rfl⟩⟩
  | cons b r =>
    by_cases hb : b = 0x01
    · subst hb
      exact ⟨fun _ => .inr (.inl rfl), fun _ => ⟨s, rfl⟩⟩
    · simp only [parseMessage, if_neg hb]
      cases hp : parse env.toFloatLib (b :: r) with
      | none => simp [hb]
      | some j => simp

/-- A message with no `op` changes no channel. -/
theorem handleMessage_of_no_op (h : ¬ (j.isObject = true ∧ j.contains "op" = true)) :
    handleMessage F cs j = cs := by
  have hentries : ∀ op key, entries op key j = [] := by
    intro op key
    unfold entries
    cases hobj : j.isObject with
    | false => rfl
    | true =>
      have hop : j.find? "op" = none := by
        simpa [hobj, Json.contains] using h
      rw [hop]
      rfl
  rw [handleMessage, hentries, hentries]
  rfl

/-- A message that is not a JSON object with an `op` changes no subscription, also when it ends the
process. -/
theorem table_of_not_wellFormed (h : ¬ WellFormed env.toFloatLib d) :
    (State.settle (s.receive env d)).table = s.table := by
  obtain ⟨cs, pc, he, -, hcs⟩ := State.received_eq env s d
  rw [he]
  obtain rfl | ⟨j, hj, rfl⟩ := hcs
  · rfl
  · have hno : ¬ (j.isObject = true ∧ j.contains "op" = true) := fun hop => h ⟨j, ?_, hop⟩
    · show (handleMessage _ _ j).map Channel.row = _
      rw [handleMessage_of_no_op hno]
      rfl
    · unfold parseMessage at hj
      split at hj
      · cases hj
      · split at hj
        · cases hj
        · obtain ⟨j', hj', he⟩ := Option.map_eq_some_iff.mp hj
          cases he
          exact hj'

/-- **Exceptions.** The two callbacks return exactly on valid topics and readable bytes; a message
that is not a JSON object with an `op` changes no subscription. -/
theorem callbacks_return_iff (env : Env) (s : State) (w : Socket) (d : Bytes) :
    ((∃ t, s.connect env w = .ok t) ↔
      ∀ ch ∈ s.registry.channels, validUtf8 ch.topicName = true) ∧
    ((∃ t, s.receive env d = .ok t) ↔ Readable env.toFloatLib d) ∧
    (¬ WellFormed env.toFloatLib d → (State.settle (s.receive env d)).table = s.table) :=
  ⟨connect_returns_iff env s w, receive_returns_iff env s d, table_of_not_wellFormed⟩

/-- A client connects to a server without channels. -/
def connectedRun : List Label := [.callback 1 .established]

/-- The text `x` ends the process of a connected server. -/
theorem parse_escapes : ∃ s, (sys .standIn).Reach .init connectedRun s ∧ s.client = some 1 ∧
    ¬ ∃ t, s.receive .standIn (ascii "x") = .ok t := by
  obtain ⟨s, hr, h⟩ := Lts.exists_reach (L := sys .standIn) (s := .init) connectedRun
    (p := fun s => s.client == some 1) (by decide +kernel)
  refine ⟨s, hr, eq_of_beq h, fun hret => ?_⟩
  rcases (receive_returns_iff .standIn s _).mp hret with he | hbin | ⟨j, hj⟩
  · exact absurd he (by decide)
  · exact absurd hbin (by decide)
  · have hnone : (parse Env.standIn.toFloatLib (ascii "x")).isNone = true := by decide +kernel
    rw [hj] at hnone
    cases hnone

end Foxdbg
