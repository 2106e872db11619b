import Foxdbg.Lib.JsonText

/-!
# The grammar of JSON text

The texts of RFC 8259, as predicates on bytes in UTF-8: characters of a string (`IsChar`), strings,
numbers, values and objects. White space between two tokens, which the RFC allows, is left out, so
every text here is a JSON text.

`dump` writes values of this grammar (`isValue_dump`), given that the text of a finite double is a
number. The proof for strings follows the states of the UTF-8 machine: `Awaits` tells for each state
what the bytes since the last character still need.
-/

namespace Json

/-! ## Characters -/

/-- A byte that continues a character. -/
def IsTail (b : UInt8) : Prop := 0x80 ≤ b ∧ b ≤ 0xBF

instance (b : UInt8) : Decidable (IsTail b) := inferInstanceAs (Decidable (_ ∧ _))

/-- A character above ASCII, by its lead byte. -/
inductive IsMultibyte : Bytes → Prop
  | two {a b : UInt8} : 0xC2 ≤ a → a ≤ 0xDF → IsTail b → IsMultibyte [a, b]
  | e0 {b c : UInt8} : 0xA0 ≤ b → b ≤ 0xBF → IsTail c → IsMultibyte [0xE0, b, c]
  | ed {b c : UInt8} : 0x80 ≤ b → b ≤ 0x9F → IsTail c → IsMultibyte [0xED, b, c]
  | three {a b c : UInt8} : 0xE1 ≤ a → a ≤ 0xEF → a ≠ 0xED → IsTail b → IsTail c →
      IsMultibyte [a, b, c]
  | f0 {b c d : UInt8} : 0x90 ≤ b → b ≤ 0xBF → IsTail c → IsTail d → IsMultibyte [0xF0, b, c, d]
  | f4 {b c d : UInt8} : 0x80 ≤ b → b ≤ 0x8F → IsTail c → IsTail d → IsMultibyte [0xF4, b, c, d]
  | four {a b c d : UInt8} : 0xF1 ≤ a → a ≤ 0xF3 → IsTail b → IsTail c → IsTail d →
      IsMultibyte [a, b, c, d]

/-- The bytes that a backslash can escape. -/
def escapes : Bytes := [34, 92, 47, 98, 102, 110, 114, 116]

/-- A character of a string, or an escape. -/
inductive IsChar : Bytes → Prop
  | ascii {b : UInt8} : 0x20 ≤ b → b < 0x80 → b ≠ 34 → b ≠ 92 → IsChar [b]
  | multibyte {s : Bytes} : IsMultibyte s → IsChar s
  | escape {b : UInt8} : b ∈ escapes → IsChar [92, b]
  | unicode {a b c d : UInt8} : (hexValue a).isSome → (hexValue b).isSome → (hexValue c).isSome →
      (hexValue d).isSome → IsChar [92, 117, a, b, c, d]

/-- Characters between two quotation marks. -/
def IsString (t : Bytes) : Prop :=
  ∃ chars : List Bytes, (∀ c ∈ chars, IsChar c) ∧ t = quoted chars.flatten

/-! ## Values -/

def IsDigits (t : Bytes) : Prop := t ≠ [] ∧ ∀ b ∈ t, isDigit b = true

/-- `0`, or digits that do not start with `0`. -/
def IsInteger (t : Bytes) : Prop := IsDigits t ∧ (t.head? = some 48 → t = [48])

def IsFraction (t : Bytes) : Prop := t = [] ∨ ∃ ds, t = 46 :: ds ∧ IsDigits ds

def IsExponent (t : Bytes) : Prop :=
  t = [] ∨ ∃ e sign ds, t = e :: (sign ++ ds) ∧ (e = 101 ∨ e = 69) ∧
    (sign = [] ∨ sign = [43] ∨ sign = [45]) ∧ IsDigits ds

def IsNumber (t : Bytes) : Prop :=
  ∃ sign integer fraction exponent, t = sign ++ integer ++ fraction ++ exponent ∧
    (sign = [] ∨ sign = [45]) ∧ IsInteger integer ∧ IsFraction fraction ∧ IsExponent exponent

/-- Texts with a comma between two of them. -/
def commaSeparated (ts : List Bytes) : Bytes := List.intercalate [44] ts

def arrayText (items : List Bytes) : Bytes := 91 :: commaSeparated items ++ [93]

/-- The text of an object with these names and values. -/
def objectText (members : List (Bytes × Bytes)) : Bytes :=
  123 :: commaSeparated (members.map fun m => m.1 ++ 58 :: m.2) ++ [125]

inductive IsValue : Bytes → Prop
  | null : IsValue (ascii "null")
  | true : IsValue (ascii "true")
  | false : IsValue (ascii "false")
  | number {t : Bytes} : IsNumber t → IsValue t
  | string {t : Bytes} : IsString t → IsValue t
  | array {items : List Bytes} : (∀ t ∈ items, IsValue t) → IsValue (arrayText items)
  | object {members : List (Bytes × Bytes)} : (∀ m ∈ members, IsString m.1) →
      (∀ m ∈ members, IsValue m.2) → IsValue (objectText members)

/-- The text of a whole object. -/
def IsObject (t : Bytes) : Prop :=
  ∃ members, t = objectText members ∧ (∀ m ∈ members, IsString m.1) ∧ ∀ m ∈ members, IsValue m.2

/-! ## Strings -/

/-- What holds of all bytes if it holds of the numbers below 256. -/
theorem forall_byte {p : UInt8 → Prop} (h : ∀ n : Fin 256, p (UInt8.ofNat n)) (b : UInt8) :
    p b := by
  have hb := h ⟨b.toNat, b.toNat_lt⟩
  rwa [UInt8.ofNat_toNat] at hb

/-- The state of the UTF-8 machine after a byte. -/
def nextState (state : Nat) (b : UInt8) : Nat := stateTable.getD (state * 16 + byteClass b) 1

/-- The bits of the code point in a lead byte. -/
def leadBits (b : UInt8) : Nat := (0xFF >>> byteClass b) &&& b.toNat

/-- The states after a lead byte. -/
theorem lead_cases : ∀ b : UInt8,
    (nextState 0 b = 0 ∧ b < 0x80 ∧ leadBits b = b.toNat) ∨ nextState 0 b = 1 ∨
    (nextState 0 b = 2 ∧ 0xC2 ≤ b ∧ b ≤ 0xDF ∧ 2 ≤ leadBits b) ∨
    (nextState 0 b = 3 ∧ 0xE1 ≤ b ∧ b ≤ 0xEF ∧ b ≠ 0xED ∧ 1 ≤ leadBits b) ∨
    (nextState 0 b = 4 ∧ b = 0xE0) ∨ (nextState 0 b = 5 ∧ b = 0xED ∧ 1 ≤ leadBits b) ∨
    (nextState 0 b = 6 ∧ b = 0xF0) ∨
    (nextState 0 b = 7 ∧ 0xF1 ≤ b ∧ b ≤ 0xF3 ∧ 1 ≤ leadBits b) ∨
    (nextState 0 b = 8 ∧ b = 0xF4 ∧ 1 ≤ leadBits b) :=
  forall_byte (by decide +kernel)

/-- The states after a byte in the middle of a character. -/
theorem tail_cases : ∀ b : UInt8,
    (nextState 2 b = 1 ∨ nextState 2 b = 0 ∧ IsTail b) ∧
    (nextState 3 b = 1 ∨ nextState 3 b = 2 ∧ IsTail b) ∧
    (nextState 4 b = 1 ∨ nextState 4 b = 2 ∧ 0xA0 ≤ b ∧ b ≤ 0xBF ∧ 2 ≤ b.toNat &&& 0x3F) ∧
    (nextState 5 b = 1 ∨ nextState 5 b = 2 ∧ 0x80 ≤ b ∧ b ≤ 0x9F) ∧
    (nextState 6 b = 1 ∨ nextState 6 b = 3 ∧ 0x90 ≤ b ∧ b ≤ 0xBF ∧ 1 ≤ b.toNat &&& 0x3F) ∧
    (nextState 7 b = 1 ∨ nextState 7 b = 3 ∧ IsTail b) ∧
    (nextState 8 b = 1 ∨ nextState 8 b = 3 ∧ 0x80 ≤ b ∧ b ≤ 0x8F) :=
  forall_byte (by decide +kernel)

/-- What the bytes since the last character still need, and a bound of the code point that makes the
character one above ASCII. -/
def Awaits (pre : Bytes) (codep : Nat) : Nat → Prop
  | 0 => pre = []
  | 2 => 2 ≤ codep ∧ ∀ a, IsTail a → IsMultibyte (pre ++ [a])
  | 3 => 1 ≤ codep ∧ ∀ a b, IsTail a → IsTail b → IsMultibyte (pre ++ [a, b])
  | 4 => pre = [0xE0]
  | 5 => pre = [0xED] ∧ 1 ≤ codep
  | 6 => pre = [0xF0]
  | 7 => 1 ≤ codep ∧ ∀ a b c, IsTail a → IsTail b → IsTail c → IsMultibyte (pre ++ [a, b, c])
  | 8 => pre = [0xF4] ∧ 1 ≤ codep
  | _ => False

theorem decode_eq (state codep : Nat) (b : UInt8) : decode state codep b = (nextState state b,
    if state = 0 then leadBits b else (b.toNat &&& 0x3F) ||| (codep <<< 6)) := rfl

theorem hexValue_hexDigit {n : Nat} (h : n < 16) : (hexValue (hexDigit n)).isSome := by
  revert n
  decide

/-- The text of an ASCII character. -/
theorem isChar_escape {b : UInt8} (h : b < 0x80) : IsChar (escape b.toNat b) := by
  have hlt : b.toNat < 0x80 := UInt8.lt_iff_toNat_lt.mp h
  unfold escape
  split
  · exact .escape (by decide)
  split
  · exact .escape (by decide)
  split
  · exact .escape (by decide)
  split
  · exact .escape (by decide)
  split
  · exact .escape (by decide)
  split
  · exact .escape (by decide)
  split
  · exact .escape (by decide)
  split
  · exact .unicode (by decide) (by decide) (hexValue_hexDigit (by omega))
      (hexValue_hexDigit (by omega))
  · rename_i hquote hslash hcontrol
    refine .ascii (UInt8.le_iff_toNat_le.mpr ?_) h ?_ ?_
    · show 32 ≤ b.toNat
      omega
    · rintro rfl
      exact hquote rfl
    · rintro rfl
      exact hslash rfl

/-- A character above ASCII is not escaped. -/
theorem escape_of_large {codep : Nat} (b : UInt8) (h : 0x80 ≤ codep) : escape codep b = [b] := by
  unfold escape
  simp only [show codep ≠ 0x08 by omega, show codep ≠ 0x09 by omega, show codep ≠ 0x0A by omega,
    show codep ≠ 0x0C by omega, show codep ≠ 0x0D by omega, show codep ≠ 0x22 by omega,
    show codep ≠ 0x5C by omega, show ¬ codep ≤ 0x1F by omega, if_false]

/-- The code point after a byte in the middle of a character. -/
theorem le_codepoint {n codep : Nat} (b : UInt8) (h : n ≤ codep) :
    n * 64 ≤ (b.toNat &&& 0x3F) ||| (codep <<< 6) := by
  have hshift : codep <<< 6 = codep * 64 := Nat.shiftLeft_eq codep 6
  have hor : codep <<< 6 ≤ (b.toNat &&& 0x3F) ||| (codep <<< 6) := Nat.right_le_or
  omega

variable {pre : Bytes} {codep : Nat} {b : UInt8}

/-- A lead byte is a whole character, or starts one. -/
theorem awaits_lead (hok : nextState 0 b ≠ 1) :
    (nextState 0 b = 0 → b < 0x80 ∧ leadBits b = b.toNat) ∧
      (nextState 0 b ≠ 0 → Awaits [b] (leadBits b) (nextState 0 b)) := by
  obtain ⟨h, hb, hbits⟩ | h | ⟨h, h₁, h₂, hbits⟩ | ⟨h, h₁, h₂, h₃, hbits⟩ | ⟨h, rfl⟩ |
    ⟨h, rfl, hbits⟩ | ⟨h, rfl⟩ | ⟨h, h₁, h₂, hbits⟩ | ⟨h, rfl, hbits⟩ := lead_cases b
  · exact ⟨fun _ => ⟨hb, hbits⟩, fun hne => absurd h hne⟩
  · exact absurd h hok
  all_goals
    rw [h]
    refine ⟨nofun, fun _ => ?_⟩
  · exact ⟨hbits, fun a ha => .two h₁ h₂ ha⟩
  · exact ⟨hbits, fun a c ha hc => .three h₁ h₂ h₃ ha hc⟩
  · rfl
  · exact ⟨rfl, hbits⟩
  · rfl
  · exact ⟨hbits, fun a c d ha hc hd => .four h₁ h₂ ha hc hd⟩
  · exact ⟨rfl, hbits⟩

/-- A byte in the middle of a character ends it, or leaves less to come. -/
theorem awaits_tail {state : Nat} (h : Awaits pre codep state) (hstate : state ≠ 0)
    (hok : nextState state b ≠ 1) :
    (nextState state b = 0 → escape ((b.toNat &&& 0x3F) ||| (codep <<< 6)) b = [b] ∧
      IsMultibyte (pre ++ [b])) ∧
    (nextState state b ≠ 0 →
      Awaits (pre ++ [b]) ((b.toNat &&& 0x3F) ||| (codep <<< 6)) (nextState state b)) := by
  obtain ⟨h2, h3, h4, h5, h6, h7, h8⟩ := tail_cases b
  have hlow : b.toNat &&& 0x3F ≤ (b.toNat &&& 0x3F) ||| (codep <<< 6) := Nat.left_le_or
  match state, h with
  | 0, _ => exact absurd rfl hstate
  | 2, ⟨hcodep, hchar⟩ =>
    obtain ⟨hnext, htail⟩ := h2.resolve_left hok
    exact ⟨fun _ => ⟨escape_of_large b (le_codepoint b hcodep), hchar b htail⟩,
      fun hne => absurd hnext hne⟩
  | 3, ⟨hcodep, hchar⟩ =>
    obtain ⟨hnext, htail⟩ := h3.resolve_left hok
    rw [hnext]
    refine ⟨nofun, fun _ => ⟨?_, fun a ha => ?_⟩⟩
    · exact Nat.le_trans (by decide) (le_codepoint b hcodep)
    · rw [List.append_assoc]
      exact hchar b a htail ha
  | 4, hpre =>
    obtain ⟨hnext, h₁, h₂, hbits⟩ := h4.resolve_left hok
    rw [hnext, show pre = [0xE0] from hpre]
    exact ⟨nofun, fun _ => ⟨Nat.le_trans hbits hlow, fun a ha => .e0 h₁ h₂ ha⟩⟩
  | 5, ⟨hpre, hcodep⟩ =>
    obtain ⟨hnext, h₁, h₂⟩ := h5.resolve_left hok
    rw [hnext, hpre]
    exact ⟨nofun, fun _ => ⟨Nat.le_trans (by decide) (le_codepoint b hcodep),
      fun a ha => .ed h₁ h₂ ha⟩⟩
  | 6, hpre =>
    obtain ⟨hnext, h₁, h₂, hbits⟩ := h6.resolve_left hok
    rw [hnext, show pre = [0xF0] from hpre]
    exact ⟨nofun, fun _ => ⟨Nat.le_trans hbits hlow, fun a c ha hc => .f0 h₁ h₂ ha hc⟩⟩
  | 7, ⟨hcodep, hchar⟩ =>
    obtain ⟨hnext, htail⟩ := h7.resolve_left hok
    rw [hnext]
    refine ⟨nofun, fun _ => ⟨?_, fun a c ha hc => ?_⟩⟩
    · exact Nat.le_trans (by decide) (le_codepoint b hcodep)
    · rw [List.append_assoc]
      exact hchar b a c htail ha hc
  | 8, ⟨hpre, hcodep⟩ =>
    obtain ⟨hnext, h₁, h₂⟩ := h8.resolve_left hok
    rw [hnext, hpre]
    exact ⟨nofun, fun _ => ⟨Nat.le_trans (by decide) (le_codepoint b hcodep),
      fun a c ha hc => .f4 h₁ h₂ ha hc⟩⟩

/-- **Characters.** From a state of the UTF-8 machine, `escapeFrom` ends the character and writes
the rest character by character: each one is ASCII and escaped, or above ASCII and as it is. -/
theorem pieces_escapeFrom {R : Bytes → Bytes → Prop}
    (hascii : ∀ b : UInt8, b < 0x80 → R [b] (escape b.toNat b))
    (hmultibyte : ∀ c, IsMultibyte c → R c c) {s t : Bytes} {state : Nat}
    (h : escapeFrom state codep s = some t) (hpre : Awaits pre codep state) :
    ∃ pieces : List (Bytes × Bytes), (∀ p ∈ pieces, R p.1 p.2) ∧
      pre ++ s = (pieces.map (·.1)).flatten ∧ pre ++ t = (pieces.map (·.2)).flatten := by
  induction s generalizing pre codep state t with
  | nil =>
    obtain ⟨rfl, ⟨⟩⟩ := Option.ite_none_right_eq_some.mp h
    obtain rfl : pre = [] := hpre
    exact ⟨[], nofun, rfl, rfl⟩
  | cons b s ih =>
    have hstep : nextState state b ≠ 1 →
        (nextState state b = 0 → R (pre ++ [b]) (pre ++ escape (decode state codep b).2 b)) ∧
        (nextState state b ≠ 0 →
          Awaits (pre ++ [b]) (decode state codep b).2 (nextState state b)) := by
      intro hok
      rw [decode_eq]
      by_cases hstate : state = 0
      · subst hstate
        obtain rfl : pre = [] := hpre
        obtain ⟨hlead, hmore⟩ := awaits_lead hok
        refine ⟨fun hzero => ?_, hmore⟩
        obtain ⟨hb, hbits⟩ := hlead hzero
        show R [b] (escape (leadBits b) b)
        rw [hbits]
        exact hascii b hb
      · rw [if_neg hstate]
        obtain ⟨hend, hmore⟩ := awaits_tail hpre hstate hok
        refine ⟨fun hzero => ?_, hmore⟩
        obtain ⟨hescape, hchar⟩ := hend hzero
        rw [hescape]
        exact hmultibyte _ hchar
    unfold escapeFrom at h
    generalize hdecode : decode state codep b = next at h hstep
    obtain ⟨state', codep'⟩ := next
    have hnext : nextState state b = state' := congrArg Prod.fst hdecode
    rw [hnext] at hstep
    dsimp only at h hstep
    split at h
    · rename_i hzero
      subst hzero
      obtain ⟨r, hr, rfl⟩ := Option.map_eq_some_iff.mp h
      obtain ⟨pieces, hall, hvalue, htext⟩ := ih hr (show Awaits [] _ _ from rfl)
      refine ⟨(pre ++ [b], pre ++ escape codep' b) :: pieces, ?_, ?_, ?_⟩
      · exact List.forall_mem_cons.mpr ⟨(hstep (by decide)).1 rfl, hall⟩
      · rw [List.map_cons, List.flatten_cons, ← hvalue, List.nil_append, List.append_assoc]
        rfl
      · rw [List.map_cons, List.flatten_cons, ← htext, List.nil_append, List.append_assoc]
    · rename_i hzero
      split at h
      · cases h
      · rename_i hone
        obtain ⟨r, hr, rfl⟩ := Option.map_eq_some_iff.mp h
        obtain ⟨pieces, hall, hvalue, htext⟩ := ih hr ((hstep hone).2 hzero)
        refine ⟨pieces, hall, ?_, ?_⟩
        · rw [← hvalue, List.append_assoc]
          rfl
        · rw [← htext, List.append_assoc]
          rfl

/-- The text of a string is a string of the grammar. -/
theorem isString_dumpEscaped {s t : Bytes} (h : dumpEscaped s = some t) : IsString (quoted t) := by
  obtain ⟨pieces, hall, -, htext⟩ := pieces_escapeFrom (R := fun _ c => IsChar c)
    (fun _ hb => isChar_escape hb) (fun _ hc => .multibyte hc) h (show Awaits [] _ _ from rfl)
  refine ⟨pieces.map (·.2), List.forall_mem_map.mpr hall, ?_⟩
  rw [← htext]
  rfl

/-! ## Numbers -/

theorem isDigit_digit {n : Nat} (h : n < 10) : isDigit (48 + n).toUInt8 = true := by
  revert n
  decide

/-- The digits of a number; they start with `0` for 0 only. -/
theorem isDigits_decimalFuel {fuel n : Nat} (h : n < fuel) :
    IsDigits (decimalFuel fuel n) ∧ ((decimalFuel fuel n).head? = some 48 → n = 0) := by
  induction fuel generalizing n with
  | zero => omega
  | succ fuel ih =>
    unfold decimalFuel
    split
    · rename_i hn
      refine ⟨⟨by simp, fun b hb => List.mem_singleton.mp hb ▸ isDigit_digit hn⟩, fun h0 => ?_⟩
      have hzero : ∀ m < 10, (48 + m).toUInt8 = 48 → m = 0 := by decide
      exact hzero n hn (Option.some.inj h0)
    · rename_i hn
      obtain ⟨⟨hne, hdigits⟩, hhead⟩ := ih (n := n / 10) (by omega)
      refine ⟨⟨by simp, fun b hb => ?_⟩, fun h0 => ?_⟩
      · rcases List.mem_append.mp hb with hb | hb
        · exact hdigits b hb
        · cases List.mem_singleton.mp hb
          exact isDigit_digit (Nat.mod_lt _ (by decide))
      · rw [List.head?_append_of_ne_nil _ hne] at h0
        have hquot := hhead h0
        omega

theorem isInteger_decimal (n : Nat) : IsInteger (decimal n) := by
  obtain ⟨hdigits, hhead⟩ := isDigits_decimalFuel (Nat.lt_succ_self n)
  refine ⟨hdigits, fun h0 => ?_⟩
  obtain rfl := hhead h0
  rfl

theorem IsInteger.isNumber {t : Bytes} (h : IsInteger t) : IsNumber t :=
  ⟨[], t, [], [], by simp, .inl rfl, h, .inl rfl, .inl rfl⟩

theorem isNumber_dumpInteger (i : Int) : IsNumber (dumpInteger i) := by
  unfold dumpInteger
  split
  · exact ⟨[45], decimal i.natAbs, [], [], by simp, .inr rfl, isInteger_decimal _, .inl rfl,
      .inl rfl⟩
  · exact (isInteger_decimal _).isNumber

/-! ## The text of a value is a value -/

theorem commaSeparated_cons (t : Bytes) (ts : List Bytes) :
    commaSeparated (t :: ts) = t ++ (if ts.isEmpty then [] else 44 :: commaSeparated ts) := by
  cases ts <;> simp [commaSeparated, List.intercalate]

variable {F : FloatLib}

mutual

/-- `dump` writes a value. -/
theorem isValue_dump (hF : ∀ bits, isFinite bits = true → IsNumber (F.toChars bits)) :
    ∀ (j : Json) (t : Bytes), dump F j = some t → IsValue t
  | .null, _, h => by cases h; exact .null
  | .bool true, _, h => by cases h; exact .true
  | .bool false, _, h => by cases h; exact .false
  | .int i, _, h => by cases h; exact .number (isNumber_dumpInteger i)
  | .float bits, _, h => by
    cases h
    unfold dumpFloat
    split
    · rename_i hfinite
      exact .number (hF bits hfinite)
    · exact .null
  | .str s, _, h => by
    obtain ⟨t, ht, rfl⟩ := Option.map_eq_some_iff.mp h
    exact .string (isString_dumpEscaped ht)
  | .arr xs, _, h => by
    obtain ⟨t, ht, rfl⟩ := Option.map_eq_some_iff.mp h
    obtain ⟨items, rfl, -, hitems⟩ := values_dumpItems hF xs t ht
    exact .array hitems
  | .obj members, _, h => by
    obtain ⟨t, ht, rfl⟩ := Option.map_eq_some_iff.mp h
    obtain ⟨texts, rfl, -, hnames, hvalues⟩ := values_dumpMembers hF members t ht
    exact .object hnames hvalues

theorem values_dumpItems (hF : ∀ bits, isFinite bits = true → IsNumber (F.toChars bits)) :
    ∀ (xs : List Json) (t : Bytes), dumpItems F xs = some t →
      ∃ items, t = commaSeparated items ∧ items.isEmpty = xs.isEmpty ∧ ∀ x ∈ items, IsValue x
  | [], _, h => by cases h; exact ⟨[], rfl, rfl, nofun⟩
  | x :: xs, t, h => by
    simp only [dumpItems, Option.bind_eq_bind, Option.bind_eq_some_iff] at h
    obtain ⟨a, ha, r, hr, h⟩ := h
    cases h
    obtain ⟨items, rfl, hempty, hitems⟩ := values_dumpItems hF xs r hr
    refine ⟨a :: items, by rw [commaSeparated_cons, hempty], rfl, ?_⟩
    exact List.forall_mem_cons.mpr ⟨isValue_dump hF x a ha, hitems⟩

theorem values_dumpMembers (hF : ∀ bits, isFinite bits = true → IsNumber (F.toChars bits)) :
    ∀ (members : List (Bytes × Json)) (t : Bytes), dumpMembers F members = some t →
      ∃ texts : List (Bytes × Bytes), t = commaSeparated (texts.map fun m => m.1 ++ 58 :: m.2) ∧
        texts.isEmpty = members.isEmpty ∧ (∀ m ∈ texts, IsString m.1) ∧ ∀ m ∈ texts, IsValue m.2
  | [], _, h => by cases h; exact ⟨[], rfl, rfl, nofun, nofun⟩
  | (k, v) :: r, t, h => by
    simp only [dumpMembers, Option.bind_eq_bind, Option.bind_eq_some_iff] at h
    obtain ⟨a, ha, u, hu, h⟩ := h
    cases h
    simp only [dumpMember, Option.bind_eq_bind, Option.bind_eq_some_iff] at ha
    obtain ⟨name, hname, value, hvalue, ha⟩ := ha
    cases ha
    obtain ⟨texts, rfl, hempty, hnames, hvalues⟩ := values_dumpMembers hF r u hu
    refine ⟨(quoted name, value) :: texts, ?_, rfl, ?_, ?_⟩
    · rw [List.map_cons, commaSeparated_cons, List.isEmpty_map, hempty]
    · exact List.forall_mem_cons.mpr ⟨isString_dumpEscaped hname, hnames⟩
    · exact List.forall_mem_cons.mpr ⟨isValue_dump hF v value hvalue, hvalues⟩

end

/-- The text of an object is an object. -/
theorem isObject_dump (hF : ∀ bits, isFinite bits = true → IsNumber (F.toChars bits))
    {members : List (Bytes × Json)} {t : Bytes} (h : dump F (.obj members) = some t) :
    IsObject t := by
  obtain ⟨t, ht, rfl⟩ := Option.map_eq_some_iff.mp h
  obtain ⟨texts, rfl, -, hnames, hvalues⟩ := values_dumpMembers hF members t ht
  exact ⟨texts, rfl, hnames, hvalues⟩

end Json
