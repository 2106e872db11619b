import Foxdbg.Lib.Memory

/-!
# JSON values and their text

JSON values as the JSON library keeps them, the accesses that throw or not, and `dump`: the
compact text of a value, with every object's members in the order of their keys.

* A string is any bytes. `dump` runs each string through the UTF-8 machine (`decode`) and throws
  (`none`) on bytes that are not valid UTF-8 (`dump_isSome`).
* A number is an integer, or the bits of a double. What the C library does with doubles
  (`FloatLib`) is a parameter: the shortest text, the value of a text, the conversion to `int`.
-/

/-- The functions on doubles (as bits) that the JSON library uses. -/
structure FloatLib where
  /-- The shortest text that reads back as the number. -/
  toChars : UInt64 → Bytes
  /-- The number that a text denotes. -/
  strtod : Bytes → UInt64
  /-- The conversion to `int`. -/
  toInt : UInt64 → Int32

/-- The exponent of a double's bits is not that of an infinity or a NaN. -/
def isFinite (bits : UInt64) : Bool := (bits >>> 52) &&& 0x7FF != 0x7FF

/-- A JSON value (module doc). An object's members are sorted by key, one for each key. -/
inductive Json where
  | null
  | bool (b : Bool)
  | int (i : Int)
  | float (bits : UInt64)
  | str (s : Bytes)
  | arr (items : List Json)
  | obj (members : List (Bytes × Json))

namespace Json

/-- The order of keys: byte by byte, a prefix first. -/
def keyLt : Bytes → Bytes → Bool
  | _, [] => false
  | [], _ :: _ => true
  | a :: r, b :: r' => a < b || (a == b && keyLt r r')

/-- The members with `k` set to `v`: `map::operator[]` and an assignment. -/
def setMember (k : Bytes) (v : Json) : List (Bytes × Json) → List (Bytes × Json)
  | [] => [(k, v)]
  | (k', v') :: r =>
    if k == k' then (k, v) :: r else if keyLt k k' then (k, v) :: (k', v') :: r
    else (k', v') :: setMember k v r

def setMembers : List (String × Json) → List (Bytes × Json) → List (Bytes × Json)
  | [], members => members
  | (k, v) :: r, members => setMembers r (setMember (ascii k) v members)

/-- The object that a braced list of pairs makes. -/
def ofMembers (kvs : List (String × Json)) : Json := .obj (setMembers kvs [])

/-- A string literal. -/
def lit (s : String) : Json := .str (ascii s)

/-! ## Accesses -/

/-- The value of a member. -/
def find? (k : String) : Json → Option Json
  | .obj members => (members.find? fun kv => kv.1 == ascii k).map (·.2)
  | _ => none

def isObject : Json → Bool
  | .obj _ => true
  | _ => false

def contains (j : Json) (k : String) : Bool := (j.find? k).isSome

/-- `j == "s"`. -/
def isLit (s : String) : Json → Bool
  | .str t => t == ascii s
  | _ => false

/-- `j["k"]` of a value that is not `const`: `null` becomes an object, a missing member is added
as `null`, and a value of another type throws. -/
def at? (k : String) : Json → Option Json
  | .obj members => some ((Json.obj members).find? k |>.getD .null)
  | .null => some .null
  | _ => none

/-- The values that a range-`for` over `j` visits: a value of no container type is its own only
item, `null` has none. -/
def items : Json → List Json
  | .arr xs => xs
  | .obj members => members.map (·.2)
  | .null => []
  | j => [j]

/-- `j.get<int>()`: a `static_cast` from the stored number or boolean; other types throw. -/
def getInt? (F : FloatLib) : Json → Option Int32
  | .int i => some (Int32.ofInt i)
  | .float bits => some (F.toInt bits)
  | .bool b => some (if b then 1 else 0)
  | _ => none

/-! ## UTF-8 -/

/-- The class of a byte: the first 256 entries of the library's table `utf8d`. -/
def byteClass (b : UInt8) : Nat :=
  if b < 0x80 then 0
  else if b < 0x90 then 1
  else if b < 0xA0 then 9
  else if b < 0xC0 then 7
  else if b < 0xC2 then 8
  else if b < 0xE0 then 2
  else if b = 0xE0 then 0xA
  else if b < 0xED then 3
  else if b = 0xED then 4
  else if b < 0xF0 then 3
  else if b = 0xF0 then 0xB
  else if b < 0xF4 then 6
  else if b = 0xF4 then 5
  else 8

/-- The state after a byte of a class: the other 144 entries of `utf8d`, 16 for each state. -/
def stateTable : List Nat :=
  [0, 1, 2, 3, 5, 8, 7, 1, 1, 1, 4, 6, 1, 1, 1, 1,
   1, 1, 1, 1, 1, 1, 1, 1, 1, 1, 1, 1, 1, 1, 1, 1,
   1, 0, 1, 1, 1, 1, 1, 0, 1, 0, 1, 1, 1, 1, 1, 1,
   1, 2, 1, 1, 1, 1, 1, 2, 1, 2, 1, 1, 1, 1, 1, 1,
   1, 1, 1, 1, 1, 1, 1, 2, 1, 1, 1, 1, 1, 1, 1, 1,
   1, 2, 1, 1, 1, 1, 1, 1, 1, 2, 1, 1, 1, 1, 1, 1,
   1, 1, 1, 1, 1, 1, 1, 3, 1, 3, 1, 1, 1, 1, 1, 1,
   1, 3, 1, 1, 1, 1, 1, 3, 1, 3, 1, 1, 1, 1, 1, 1,
   1, 3, 1, 1, 1, 1, 1, 1, 1, 1, 1, 1, 1, 1, 1, 1]

/-- One byte in the UTF-8 machine: the state (0 accepts, 1 rejects) and the code point so far. -/
def decode (state codep : Nat) (b : UInt8) : Nat × Nat :=
  let type := byteClass b
  (stateTable.getD (state * 16 + type) 1,
    if state = 0 then (0xFF >>> type) &&& b.toNat else (b.toNat &&& 0x3F) ||| (codep <<< 6))

def hexDigit (n : Nat) : UInt8 := if n < 10 then (48 + n).toUInt8 else (87 + n).toUInt8

/-- The text of a code point that ends with byte `b`: an escape for the quotation mark, the
backslash and the control characters, else the byte. -/
def escape (codep : Nat) (b : UInt8) : Bytes :=
  if codep = 0x08 then ascii "\\b"
  else if codep = 0x09 then ascii "\\t"
  else if codep = 0x0A then ascii "\\n"
  else if codep = 0x0C then ascii "\\f"
  else if codep = 0x0D then ascii "\\r"
  else if codep = 0x22 then ascii "\\\""
  else if codep = 0x5C then ascii "\\\\"
  else if codep ≤ 0x1F then ascii "\\u00" ++ [hexDigit (codep / 16), hexDigit (codep % 16)]
  else [b]

/-- The text of a string from a state of the UTF-8 machine; `none`: bytes that are not UTF-8. -/
def escapeFrom (state codep : Nat) : Bytes → Option Bytes
  | [] => if state = 0 then some [] else none
  | b :: r =>
    let (state', codep') := decode state codep b
    if state' = 0 then (escapeFrom state' codep' r).map (escape codep' b ++ ·)
    else if state' = 1 then none
    else (escapeFrom state' codep' r).map (b :: ·)

/-- The text of a string, without its quotes. -/
def dumpEscaped (s : Bytes) : Option Bytes := escapeFrom 0 0 s

/-- The UTF-8 machine accepts the bytes. -/
def validUtf8 (s : Bytes) : Bool := (dumpEscaped s).isSome

/-- An ASCII text is valid UTF-8. -/
theorem validUtf8_of_ascii {s : Bytes} (h : ∀ b ∈ s, b < 0x80) : validUtf8 s = true := by
  have accepts : ∀ codep, (escapeFrom 0 codep s).isSome = true := by
    induction s with
    | nil => intro codep; rfl
    | cons b r ih =>
      intro codep
      obtain ⟨hb, hr⟩ := List.forall_mem_cons.mp h
      have hstate : (decode 0 codep b).1 = 0 := by
        simp only [decode, byteClass, if_pos hb]
        rfl
      rw [escapeFrom]
      simp only [hstate, if_true, Option.isSome_map]
      exact ih hr _
  exact accepts 0

theorem validUtf8_ascii {s : String} (h : s.toList.all (·.toNat < 0x80) = true) :
    validUtf8 (ascii s) = true := by
  refine validUtf8_of_ascii fun b hb => ?_
  obtain ⟨c, hc, rfl⟩ := List.mem_map.mp hb
  have hlt : c.toNat < 0x80 := of_decide_eq_true (List.all_eq_true.mp h c hc)
  rw [UInt8.lt_iff_toNat_lt]
  simp only [Nat.toUInt8_eq, UInt8.toNat_ofNat', UInt8.reduceToNat]
  omega

/-! ## The text of a value -/

/-- The decimal digits of a number, with `fuel` above their count. -/
def decimalFuel : Nat → Nat → Bytes
  | 0, _ => []
  | fuel + 1, n => if n < 10 then [(48 + n).toUInt8]
    else decimalFuel fuel (n / 10) ++ [(48 + n % 10).toUInt8]

def decimal (n : Nat) : Bytes := decimalFuel (n + 1) n

/-- The text of an integer. -/
def dumpInteger (i : Int) : Bytes := if i < 0 then 45 :: decimal i.natAbs else decimal i.natAbs

/-- The text of a double; an infinity or a NaN is `null`. -/
def dumpFloat (F : FloatLib) (bits : UInt64) : Bytes :=
  if isFinite bits then F.toChars bits else ascii "null"

def quoted (t : Bytes) : Bytes := 34 :: t ++ [34]

mutual

/-- The compact text of a value; `none`: the library throws. -/
def dump (F : FloatLib) : Json → Option Bytes
  | .null => some (ascii "null")
  | .bool b => some (ascii (if b then "true" else "false"))
  | .int i => some (dumpInteger i)
  | .float bits => some (dumpFloat F bits)
  | .str s => (dumpEscaped s).map quoted
  | .arr xs => (dumpItems F xs).map fun t => 91 :: t ++ [93]
  | .obj members => (dumpMembers F members).map fun t => 123 :: t ++ [125]

/-- The items of an array, with a comma between two of them. -/
def dumpItems (F : FloatLib) : List Json → Option Bytes
  | [] => some []
  | x :: xs => do
    let t ← dump F x
    let r ← dumpItems F xs
    return t ++ (if xs.isEmpty then [] else 44 :: r)

/-- The members of an object, with a comma between two of them. -/
def dumpMembers (F : FloatLib) : List (Bytes × Json) → Option Bytes
  | [] => some []
  | kv :: r => do
    let t ← dumpMember F kv
    let u ← dumpMembers F r
    return t ++ (if r.isEmpty then [] else 44 :: u)

def dumpMember (F : FloatLib) : Bytes × Json → Option Bytes
  | (k, v) => do
    let t ← dumpEscaped k
    let u ← dump F v
    return quoted t ++ 58 :: u

end

/-! ## When the text exists -/

mutual

/-- Every string of the value, keys included, is valid UTF-8. -/
def utf8 : Json → Bool
  | .str s => validUtf8 s
  | .arr xs => utf8Items xs
  | .obj members => utf8Members members
  | _ => true

def utf8Items : List Json → Bool
  | [] => true
  | x :: xs => x.utf8 && utf8Items xs

def utf8Members : List (Bytes × Json) → Bool
  | [] => true
  | kv :: r => utf8Member kv && utf8Members r

def utf8Member : Bytes × Json → Bool
  | (k, v) => validUtf8 k && v.utf8

end

mutual

/-- `dump` throws exactly on a value with a string that is not valid UTF-8. -/
theorem dump_isSome (F : FloatLib) : ∀ j : Json, (dump F j).isSome = j.utf8
  | .null => rfl
  | .bool _ => rfl
  | .int _ => rfl
  | .float _ => rfl
  | .str s => by simp [dump, utf8, validUtf8]
  | .arr xs => by simp [dump, utf8, dumpItems_isSome F xs]
  | .obj members => by simp [dump, utf8, dumpMembers_isSome F members]

theorem dumpItems_isSome (F : FloatLib) : ∀ xs : List Json, (dumpItems F xs).isSome = utf8Items xs
  | [] => rfl
  | x :: xs => by
    have hx := dump_isSome F x
    have hr := dumpItems_isSome F xs
    simp only [dumpItems, utf8Items, ← hx, ← hr]
    cases dump F x <;> cases dumpItems F xs <;> rfl

theorem dumpMembers_isSome (F : FloatLib) :
    ∀ members : List (Bytes × Json), (dumpMembers F members).isSome = utf8Members members
  | [] => rfl
  | kv :: r => by
    have hx := dumpMember_isSome F kv
    have hr := dumpMembers_isSome F r
    simp only [dumpMembers, utf8Members, ← hx, ← hr]
    cases dumpMember F kv <;> cases dumpMembers F r <;> rfl

theorem dumpMember_isSome (F : FloatLib) :
    ∀ kv : Bytes × Json, (dumpMember F kv).isSome = utf8Member kv
  | (k, v) => by
    have hv := dump_isSome F v
    simp only [dumpMember, utf8Member, validUtf8, ← hv]
    cases dumpEscaped k <;> cases dump F v <;> rfl

end

/-! ## Lengths -/

theorem length_escape_pos (codep : Nat) (b : UInt8) : 1 ≤ (escape codep b).length := by
  unfold escape
  split_ifs <;> simp [ascii]

/-- The text of a string is not shorter than the string. -/
theorem length_le_escapeFrom {s t : Bytes} {state codep : Nat}
    (h : escapeFrom state codep s = some t) : s.length ≤ t.length := by
  induction s generalizing state codep t with
  | nil => exact Nat.zero_le _
  | cons b r ih =>
    simp only [escapeFrom] at h
    split at h
    · obtain ⟨u, hu, rfl⟩ := Option.map_eq_some_iff.mp h
      have hlen := ih hu
      have hone := length_escape_pos (decode state codep b).2 b
      rw [List.length_append, List.length_cons]
      omega
    · split at h
      · cases h
      · obtain ⟨u, hu, rfl⟩ := Option.map_eq_some_iff.mp h
        have hlen := ih hu
        rw [List.length_cons, List.length_cons]
        omega

variable {F : FloatLib}

theorem length_le_dumpItems {x : Json} {xs : List Json} (hx : x ∈ xs) {a b : Bytes}
    (ha : dump F x = some a) (hb : dumpItems F xs = some b) : a.length ≤ b.length := by
  induction xs generalizing b with
  | nil => cases hx
  | cons y xs ih =>
    simp only [dumpItems, Option.bind_eq_bind, Option.bind_eq_some_iff] at hb
    obtain ⟨c, hc, r, hr, hb⟩ := hb
    cases hb
    rcases List.mem_cons.mp hx with rfl | hx
    · cases ha.symm.trans hc
      simp
    · have hlen := ih hx hr
      have hne : xs.isEmpty = false := by
        cases xs with
        | nil => cases hx
        | cons => rfl
      simp only [hne, Bool.false_eq_true, if_false, List.length_append, List.length_cons]
      omega

theorem length_le_dumpMembers {k : Bytes} {x : Json} {members : List (Bytes × Json)}
    (hx : (k, x) ∈ members) {a b : Bytes} (ha : dump F x = some a)
    (hb : dumpMembers F members = some b) : a.length ≤ b.length := by
  induction members generalizing b with
  | nil => cases hx
  | cons kv r ih =>
    simp only [dumpMembers, Option.bind_eq_bind, Option.bind_eq_some_iff] at hb
    obtain ⟨t, ht, u, hu, hb⟩ := hb
    cases hb
    rcases List.mem_cons.mp hx with rfl | hx
    · simp only [dumpMember, Option.bind_eq_bind, Option.bind_eq_some_iff] at ht
      obtain ⟨key, -, value, hvalue, ht⟩ := ht
      cases ht
      cases ha.symm.trans hvalue
      simp only [quoted, List.length_append, List.length_cons]
      omega
    · have hlen := ih hx hu
      have hne : r.isEmpty = false := by
        cases r with
        | nil => cases hx
        | cons => rfl
      simp only [hne, Bool.false_eq_true, if_false, List.length_append, List.length_cons]
      omega

theorem length_le_dump_str {s a : Bytes} (h : dump F (.str s) = some a) : s.length ≤ a.length := by
  obtain ⟨t, ht, rfl⟩ := Option.map_eq_some_iff.mp h
  have hlen := length_le_escapeFrom ht
  simp only [quoted, List.length_append, List.length_cons]
  omega

/-- An array's text is not shorter than the text of an item. -/
theorem length_le_dump_arr {x : Json} {xs : List Json} (hx : x ∈ xs) {a b : Bytes}
    (ha : dump F x = some a) (hb : dump F (.arr xs) = some b) : a.length ≤ b.length := by
  obtain ⟨t, ht, rfl⟩ := Option.map_eq_some_iff.mp hb
  have hlen := length_le_dumpItems hx ha ht
  simp only [List.length_append, List.length_cons]
  omega

/-- An object's text is not shorter than the text of a member. -/
theorem length_le_dump_obj {k : Bytes} {x : Json} {members : List (Bytes × Json)}
    (hx : (k, x) ∈ members) {a b : Bytes} (ha : dump F x = some a)
    (hb : dump F (.obj members) = some b) : a.length ≤ b.length := by
  obtain ⟨t, ht, rfl⟩ := Option.map_eq_some_iff.mp hb
  have hlen := length_le_dumpMembers hx ha ht
  simp only [List.length_append, List.length_cons]
  omega

end Json
