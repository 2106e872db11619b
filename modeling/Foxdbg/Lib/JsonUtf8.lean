import Foxdbg.Lib.JsonGrammar

/-!
# JSON text is UTF-8

Every text of the grammar is valid UTF-8 (`IsValue.isUtf8`): outside of its strings it is ASCII, and
in them the characters above ASCII are whole. `accepts` is the UTF-8 machine without the text that
it writes.
-/

namespace Json

variable {s t : Bytes}

/-- From a state, the UTF-8 machine reads the bytes and accepts. -/
def accepts (state : Nat) : Bytes → Bool
  | [] => state == 0
  | b :: r => nextState state b != 1 && accepts (nextState state b) r

theorem isSome_escapeFrom (state codep : Nat) (s : Bytes) :
    (escapeFrom state codep s).isSome = accepts state s := by
  induction s generalizing state codep with
  | nil => by_cases h : state = 0 <;> simp [escapeFrom, accepts, h]
  | cons b s ih =>
    have hnext : (decode state codep b).1 = nextState state b := rfl
    simp only [escapeFrom, hnext]
    split
    · rename_i hzero
      rw [Option.isSome_map, ih, accepts, hzero]
      rfl
    · split
      · rename_i hone
        rw [accepts, hone]
        rfl
      · rename_i hone
        rw [Option.isSome_map, ih, accepts, bne_iff_ne.mpr hone, Bool.true_and]

theorem validUtf8_eq (s : Bytes) : validUtf8 s = accepts 0 s := isSome_escapeFrom 0 0 s

/-- After the bytes, the UTF-8 machine is where it was before them. -/
def IsUtf8 (t : Bytes) : Prop := ∀ u, accepts 0 (t ++ u) = accepts 0 u

theorem IsUtf8.valid (h : IsUtf8 t) : validUtf8 t = true := by
  rw [validUtf8_eq, ← List.append_nil t, h []]
  rfl

theorem isUtf8_nil : IsUtf8 [] := fun _ => rfl

theorem IsUtf8.append (hs : IsUtf8 s) (ht : IsUtf8 t) : IsUtf8 (s ++ t) := fun u => by
  rw [List.append_assoc, hs, ht]

theorem isUtf8_flatten {ts : List Bytes} (h : ∀ t ∈ ts, IsUtf8 t) : IsUtf8 ts.flatten := by
  induction ts with
  | nil => exact isUtf8_nil
  | cons t ts ih =>
    obtain ⟨ht, hts⟩ := List.forall_mem_cons.mp h
    exact ht.append (ih hts)

/-! ## Characters -/

theorem isUtf8_byte {b : UInt8} (h : b < 0x80) : IsUtf8 [b] := by
  have hstate : ∀ b : UInt8, b < 0x80 → nextState 0 b = 0 := forall_byte (by decide +kernel)
  intro u
  rw [List.singleton_append, accepts, hstate b h]
  rfl

theorem isUtf8_ascii {t : Bytes} (h : ∀ b ∈ t, b < 0x80) : IsUtf8 t := by
  induction t with
  | nil => exact isUtf8_nil
  | cons b t ih =>
    obtain ⟨hb, ht⟩ := List.forall_mem_cons.mp h
    exact (isUtf8_byte hb).append (ih ht)

/-- The states after the lead bytes that differ in nothing else. -/
theorem nextState_lead : ∀ b : UInt8,
    (0xC2 ≤ b ∧ b ≤ 0xDF → nextState 0 b = 2) ∧
    (0xE1 ≤ b ∧ b ≤ 0xEF ∧ b ≠ 0xED → nextState 0 b = 3) ∧
    (0xF1 ≤ b ∧ b ≤ 0xF3 → nextState 0 b = 7) :=
  forall_byte (by decide +kernel)

/-- The states after a byte in the middle of a character. -/
theorem nextState_tail : ∀ b : UInt8,
    (IsTail b → nextState 2 b = 0 ∧ nextState 3 b = 2 ∧ nextState 7 b = 3) ∧
    (0xA0 ≤ b ∧ b ≤ 0xBF → nextState 4 b = 2) ∧ (0x80 ≤ b ∧ b ≤ 0x9F → nextState 5 b = 2) ∧
    (0x90 ≤ b ∧ b ≤ 0xBF → nextState 6 b = 3) ∧ (0x80 ≤ b ∧ b ≤ 0x8F → nextState 8 b = 3) :=
  forall_byte (by decide +kernel)

theorem isUtf8_multibyte (h : IsMultibyte t) : IsUtf8 t := by
  intro u
  cases h with
  | @two a b h₁ h₂ hb =>
    simp [accepts, (nextState_lead a).1 ⟨h₁, h₂⟩, (nextState_tail b).1 hb]
  | @e0 b c h₁ h₂ hc =>
    have hlead : nextState 0 0xE0 = 4 := by decide
    simp [accepts, hlead, (nextState_tail b).2.1 ⟨h₁, h₂⟩, (nextState_tail c).1 hc]
  | @ed b c h₁ h₂ hc =>
    have hlead : nextState 0 0xED = 5 := by decide
    simp [accepts, hlead, (nextState_tail b).2.2.1 ⟨h₁, h₂⟩, (nextState_tail c).1 hc]
  | @three a b c h₁ h₂ h₃ hb hc =>
    simp [accepts, (nextState_lead a).2.1 ⟨h₁, h₂, h₃⟩, (nextState_tail b).1 hb,
      (nextState_tail c).1 hc]
  | @f0 b c d h₁ h₂ hc hd =>
    have hlead : nextState 0 0xF0 = 6 := by decide
    simp [accepts, hlead, (nextState_tail b).2.2.2.1 ⟨h₁, h₂⟩, (nextState_tail c).1 hc,
      (nextState_tail d).1 hd]
  | @f4 b c d h₁ h₂ hc hd =>
    have hlead : nextState 0 0xF4 = 8 := by decide
    simp [accepts, hlead, (nextState_tail b).2.2.2.2 ⟨h₁, h₂⟩, (nextState_tail c).1 hc,
      (nextState_tail d).1 hd]
  | @four a b c d h₁ h₂ hb hc hd =>
    simp [accepts, (nextState_lead a).2.2 ⟨h₁, h₂⟩, (nextState_tail b).1 hb,
      (nextState_tail c).1 hc, (nextState_tail d).1 hd]

theorem ascii_of_hexValue : ∀ b : UInt8, (hexValue b).isSome → b < 0x80 :=
  forall_byte (by decide +kernel)

theorem IsChar.isUtf8 (h : IsChar t) : IsUtf8 t := by
  cases h with
  | ascii _ hb => exact isUtf8_byte hb
  | multibyte h => exact isUtf8_multibyte h
  | escape hb =>
    have hescapes : ∀ b ∈ escapes, b < 0x80 := by decide +kernel
    refine isUtf8_ascii ?_
    simp only [List.forall_mem_cons, List.not_mem_nil, false_imp_iff, implies_true, and_true]
    exact ⟨by decide, hescapes _ hb⟩
  | unicode ha hb hc hd =>
    refine isUtf8_ascii ?_
    simp only [List.forall_mem_cons, List.not_mem_nil, false_imp_iff, implies_true, and_true]
    exact ⟨by decide, by decide, ascii_of_hexValue _ ha, ascii_of_hexValue _ hb,
      ascii_of_hexValue _ hc, ascii_of_hexValue _ hd⟩

theorem isUtf8_quoted (h : IsUtf8 t) : IsUtf8 (quoted t) :=
  ((isUtf8_byte (b := 34) (by decide)).append h).append (isUtf8_byte (by decide))

theorem IsString.isUtf8 (h : IsString t) : IsUtf8 t := by
  obtain ⟨chars, hchars, rfl⟩ := h
  exact isUtf8_quoted (isUtf8_flatten fun c hc => (hchars c hc).isUtf8)

/-! ## Values -/

theorem ascii_of_isDigit {b : UInt8} (h : isDigit b = true) : b < 0x80 := by
  simp only [isDigit, Bool.and_eq_true, decide_eq_true_eq] at h
  exact UInt8.lt_of_le_of_lt h.2 (by decide)

theorem IsDigits.isUtf8 (h : IsDigits t) : IsUtf8 t :=
  isUtf8_ascii fun b hb => ascii_of_isDigit (h.2 b hb)

theorem IsNumber.isUtf8 (h : IsNumber t) : IsUtf8 t := by
  obtain ⟨sign, integer, fraction, exponent, rfl, hsign, hinteger, hfraction, hexponent⟩ := h
  have hsign : IsUtf8 sign := by
    rcases hsign with rfl | rfl
    · exact isUtf8_nil
    · exact isUtf8_byte (by decide)
  have hfraction : IsUtf8 fraction := by
    obtain rfl | ⟨ds, rfl, hds⟩ := hfraction
    · exact isUtf8_nil
    · exact (isUtf8_byte (b := 46) (by decide)).append hds.isUtf8
  have hexponent : IsUtf8 exponent := by
    obtain rfl | ⟨e, sign, ds, rfl, he, hsign, hds⟩ := hexponent
    · exact isUtf8_nil
    · have he : e < 0x80 := by rcases he with rfl | rfl <;> decide
      have hsign : IsUtf8 sign := by
        rcases hsign with rfl | rfl | rfl
        · exact isUtf8_nil
        · exact isUtf8_byte (by decide)
        · exact isUtf8_byte (by decide)
      exact (isUtf8_byte he).append (hsign.append hds.isUtf8)
  exact ((hsign.append hinteger.1.isUtf8).append hfraction).append hexponent

theorem isUtf8_commaSeparated {ts : List Bytes} (h : ∀ t ∈ ts, IsUtf8 t) :
    IsUtf8 (commaSeparated ts) := by
  induction ts with
  | nil => exact isUtf8_nil
  | cons t ts ih =>
    obtain ⟨ht, hts⟩ := List.forall_mem_cons.mp h
    rw [commaSeparated_cons]
    refine ht.append ?_
    split
    · exact isUtf8_nil
    · exact (isUtf8_byte (b := 44) (by decide)).append (ih hts)

theorem isUtf8_arrayText {items : List Bytes} (h : ∀ t ∈ items, IsUtf8 t) :
    IsUtf8 (arrayText items) :=
  ((isUtf8_byte (b := 91) (by decide)).append (isUtf8_commaSeparated h)).append
    (isUtf8_byte (by decide))

theorem isUtf8_objectText {members : List (Bytes × Bytes)} (hnames : ∀ m ∈ members, IsUtf8 m.1)
    (hvalues : ∀ m ∈ members, IsUtf8 m.2) : IsUtf8 (objectText members) := by
  refine ((isUtf8_byte (b := 123) (by decide)).append (isUtf8_commaSeparated ?_)).append
    (isUtf8_byte (by decide))
  refine List.forall_mem_map.mpr fun m hm => (hnames m hm).append ?_
  exact (isUtf8_byte (b := 58) (by decide)).append (hvalues m hm)

/-- **UTF-8.** A text of the grammar is valid UTF-8. -/
theorem IsValue.isUtf8 (h : IsValue t) : IsUtf8 t := by
  induction h with
  | null => exact isUtf8_ascii (by decide +kernel)
  | true => exact isUtf8_ascii (by decide +kernel)
  | false => exact isUtf8_ascii (by decide +kernel)
  | number h => exact h.isUtf8
  | string h => exact h.isUtf8
  | array _ ih => exact isUtf8_arrayText ih
  | object hnames _ ih => exact isUtf8_objectText (fun m hm => (hnames m hm).isUtf8) ih

end Json
