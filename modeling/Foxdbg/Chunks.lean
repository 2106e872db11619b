import Foxdbg.Exceptions

/-!
# Messages in pieces

libwebsockets can give one message to the callback in several pieces. `foxdbg_protocol_receive`
parses each of them alone, so the first piece of a JSON text is no text itself, or it is all of it
but white space, and then the next piece is none. Either way a parse throws, and the exception ends
the process: a request is handled exactly if it comes in one piece (`invisible_iff`).
-/

namespace Foxdbg

open Json

/-- A subscribe or unsubscribe message: the text of an object with one of the two `op`s. No text has
a byte 0. -/
def IsRequest (F : FloatLib) (d : Bytes) : Prop :=
  0 ∉ d ∧ ∃ j, parse F d = some j ∧ j.isObject = true ∧
    (j.find? "op" = some (lit "subscribe") ∨ j.find? "op" = some (lit "unsubscribe"))

/-- The callbacks of a socket for the pieces of a message. -/
def receives (w : Socket) (chunks : List Bytes) : List Label :=
  chunks.map fun c => .callback w (.receive c)

/-- The callbacks for the pieces lead to the subscription table that one callback for the whole
message makes, and the process goes on. -/
def Invisible (env : Env) (s : State) (w : Socket) (chunks : List Bytes) : Prop :=
  ∃ t, (sys env).Reach s (receives w chunks) t ∧ t.pc ≠ .crashed ∧
    t.table = (State.settle (s.receive env chunks.flatten)).table

variable {env : Env} {F : FloatLib} {s t : State} {w : Socket} {c d : Bytes} {j : Json}

/-- A piece that is no text ends the process. -/
theorem crashed_of_receive (hparse : parseMessage env.toFloatLib c = none)
    (h : s.step env (.callback w (.receive c)) = some t) : t.pc = .crashed := by
  obtain ⟨-, -, rfl⟩ := State.fire_receive.mp (State.step_eq_some.mp h).2
  simp only [State.receive, hparse]
  rfl

/-- A binary message is no text. -/
theorem parse_binary (F : FloatLib) (r : Bytes) : parse F (1 :: r) = none := rfl

/-- The bytes of a message that is not binary are parsed. -/
theorem parseMessage_cons {b : UInt8} (r : Bytes) (hb : b ≠ 1) :
    parseMessage F (b :: r) = (parse F (b :: r)).map some := if_neg hb

/-- One of the first two pieces of a request is no text. -/
theorem parseMessage_of_cut {c₁ c₂ rest : Bytes} (h : IsRequest F (c₁ ++ (c₂ ++ rest)))
    (hne₁ : c₁ ≠ []) (hne₂ : c₂ ≠ []) :
    parseMessage F c₁ = none ∨ parseMessage F c₂ = none := by
  obtain ⟨hzero, j, hj, hobject, -⟩ := h
  obtain ⟨b₁, r₁, rfl⟩ := List.exists_cons_of_ne_nil hne₁
  obtain ⟨b₂, r₂, rfl⟩ := List.exists_cons_of_ne_nil hne₂
  have hb₁ : b₁ ≠ 1 := by
    rintro rfl
    rw [List.cons_append, parse_binary] at hj
    cases hj
  cases h₁ : parse F (b₁ :: r₁) with
  | none => exact .inl (by rw [parseMessage_cons r₁ hb₁, h₁]; rfl)
  | some j₁ =>
    -- the first piece is the whole text: white space is left
    have hspace := skipWhitespace_eq_nil.mp (skipWhitespace_of_parse h₁ hj hobject hzero)
    have hspace₂ : skipWhitespace (b₂ :: r₂) = [] :=
      skipWhitespace_eq_nil.mpr fun b hb => hspace b (List.mem_append_left _ hb)
    have hb₂ : b₂ ≠ 1 := by
      rintro rfl
      exact absurd (hspace 1 (List.mem_append_left _ List.mem_cons_self)) (by decide)
    exact .inr (by rw [parseMessage_cons r₂ hb₂, parse_of_whitespace hspace₂]; rfl)

/-- No step follows the end of the process. -/
theorem crashed_of_reach {es : List Label} (hpc : s.pc = .crashed) (h : (sys env).Reach s es t) :
    t.pc = .crashed := by
  cases h with
  | nil => exact hpc
  | cons hstep _ _ => exact absurd hpc (State.step_eq_some.mp hstep).1

/-- A request in two or more pieces ends the process. -/
theorem crashed_of_cut {c₁ c₂ : Bytes} {chunks : List Bytes} (hne₁ : c₁ ≠ []) (hne₂ : c₂ ≠ [])
    (hmsg : IsRequest env.toFloatLib (c₁ :: c₂ :: chunks).flatten)
    (h : (sys env).Reach s (receives w (c₁ :: c₂ :: chunks)) t) : t.pc = .crashed := by
  cases h with
  | cons hstep₁ _ hrest =>
    rcases parseMessage_of_cut hmsg hne₁ hne₂ with hnone | hnone
    · exact crashed_of_reach (crashed_of_receive hnone hstep₁) hrest
    · cases hrest with
      | cons hstep₂ _ hrest => exact crashed_of_reach (crashed_of_receive hnone hstep₂) hrest

/-- A request in one piece is handled. -/
theorem invisible_single (hpc : s.pc = .idle) (hw : w ∈ s.sockets)
    (hmsg : IsRequest env.toFloatLib d) : Invisible env s w [d] := by
  obtain ⟨-, j, hj, -⟩ := hmsg
  have hd : parseMessage env.toFloatLib d = some (some j) := by
    cases d with
    | nil => cases hj
    | cons b r =>
      rw [parseMessage_cons, hj]
      · rfl
      · rintro rfl
        rw [parse_binary] at hj
        cases hj
  have hstep : s.step env (.callback w (.receive d)) =
      some (State.settle ((s.log (.event (.callback w (.receive d)))).receive env d)) :=
    State.step_eq_some.mpr ⟨by rw [hpc]; nofun, State.fire_receive.mpr ⟨hpc, hw, rfl⟩⟩
  refine ⟨_, .cons hstep trivial (.nil _), ?_, ?_⟩
  · simp only [State.receive, hd]
    show s.pc ≠ .crashed
    rw [hpc]
    nofun
  · rw [List.flatten_singleton]
    simp only [State.receive, hd]
    rfl

/-- **Pieces.** A request is handled as one message exactly if it comes in one piece. -/
theorem invisible_iff {chunks : List Bytes} (hpc : s.pc = .idle) (hw : w ∈ s.sockets)
    (hne : ∀ c ∈ chunks, c ≠ []) (hmsg : IsRequest env.toFloatLib chunks.flatten) :
    Invisible env s w chunks ↔ chunks.length = 1 := by
  match chunks with
  | [] =>
    obtain ⟨-, j, hj, -⟩ := hmsg
    cases hj
  | [d] =>
    rw [List.flatten_singleton] at hmsg
    exact ⟨fun _ => rfl, fun _ => invisible_single hpc hw hmsg⟩
  | c₁ :: c₂ :: chunks =>
    obtain ⟨hne₁, hne⟩ := List.forall_mem_cons.mp hne
    obtain ⟨hne₂, -⟩ := List.forall_mem_cons.mp hne
    constructor
    · rintro ⟨t, hr, hlive, -⟩
      exact absurd (crashed_of_cut hne₁ hne₂ hmsg hr) hlive
    · intro hone
      cases hone

theorem isRequest_subscribeText (F : FloatLib) :
    IsRequest F (subscribeText (5 : Int32).toInt (0 : Int32).toInt) :=
  ⟨by decide, _, parse_subscribeText F 5 0, rfl, .inl rfl⟩

/-- A server with a client waits for callbacks. -/
theorem exists_connected : ∃ s, (sys .standIn).Reach .init connectedRun s ∧ s.pc = .idle ∧
    1 ∈ s.sockets := by
  obtain ⟨s, hr, h⟩ := Lts.exists_reach (L := sys .standIn) (s := .init) connectedRun
    (p := fun s => s.pc == .idle && s.sockets.contains 1) (by decide +kernel)
  simp only [Bool.and_eq_true, beq_iff_eq, List.contains_iff_mem] at h
  exact ⟨s, hr, h⟩

/-- The server handles a subscribe message of its client that comes in one piece. -/
theorem whole_request : ∃ s, (sys .standIn).Reach .init connectedRun s ∧
    Invisible .standIn s 1 [subscribeText (5 : Int32).toInt (0 : Int32).toInt] := by
  obtain ⟨s, hr, hpc, hw⟩ := exists_connected
  refine ⟨s, hr, (invisible_iff hpc hw ?_ ?_).mpr rfl⟩
  · exact List.forall_mem_singleton.mpr (by decide)
  · rw [List.flatten_singleton]
    exact isRequest_subscribeText _

/-- The same message in two pieces ends the process with the first one. -/
theorem cut_request : ∃ s c₁ c₂, (sys .standIn).Reach .init connectedRun s ∧
    c₁ ++ c₂ = subscribeText (5 : Int32).toInt (0 : Int32).toInt ∧
    IsRequest Env.standIn.toFloatLib (c₁ ++ c₂) ∧ c₁ ≠ [] ∧ c₂ ≠ [] ∧
    (∃ t, s.step .standIn (.callback 1 (.receive c₁)) = some t ∧ t.pc = .crashed) ∧
    ¬ Invisible .standIn s 1 [c₁, c₂] := by
  obtain ⟨s, hr, h⟩ := exists_connected
  let d := subscribeText (5 : Int32).toInt (0 : Int32).toInt
  have hmsg : IsRequest Env.standIn.toFloatLib (d.take 10 ++ d.drop 10) := by
    rw [List.take_append_drop]
    exact isRequest_subscribeText _
  have hfirst : (parseMessage Env.standIn.toFloatLib (d.take 10)).isNone = true := by
    decide +kernel
  have hstep : s.step .standIn (.callback 1 (.receive (d.take 10))) = some _ :=
    State.step_eq_some.mpr ⟨by rw [h.1]; nofun, State.fire_receive.mpr ⟨h.1, h.2, rfl⟩⟩
  refine ⟨s, d.take 10, d.drop 10, hr, List.take_append_drop .., hmsg, by decide, by decide,
    ⟨_, hstep, crashed_of_receive (Option.isNone_iff_eq_none.mp hfirst) hstep⟩, ?_⟩
  have hflat : IsRequest Env.standIn.toFloatLib [d.take 10, d.drop 10].flatten := by
    rw [List.flatten_cons, List.flatten_singleton]
    exact hmsg
  rintro ⟨t, hrun, hlive, -⟩
  exact hlive (crashed_of_cut (by decide) (by decide) hflat hrun)

end Foxdbg
