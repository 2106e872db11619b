import Foxdbg.Lib.Json
import Mathlib.Algebra.Group.Nat.Defs

/-!
# Reading JSON text

The JSON library's `parse`: a lexer that turns bytes into tokens (`nextToken`) and a machine with
a stack that turns tokens into a value (`Parser.step`). `parse` is `none` where the library throws:
on text that is not JSON (RFC 8259), on a number that overflows a double, and on anything after
the value. A byte 0 outside a string ends the input, as the library's lexer has it.
-/

namespace Json

inductive Token where
  | beginArray
  | endArray
  | beginObject
  | endObject
  | nameSeparator
  | valueSeparator
  /-- A string, unescaped. -/
  | string (s : Bytes)
  /-- A number or one of the literals `true`, `false`, `null`. -/
  | scalar (j : Json)
  | endOfInput
  | parseError

/-! ## The lexer -/

def isDigit (b : UInt8) : Bool := 48 ≤ b && b ≤ 57

def hexValue (b : UInt8) : Option Nat :=
  if isDigit b then some (b.toNat - 48)
  else if 65 ≤ b && b ≤ 70 then some (b.toNat - 55)
  else if 97 ≤ b && b ≤ 102 then some (b.toNat - 87)
  else none

/-- The four hexadecimal digits of a `\u` escape. -/
def getCodepoint : Bytes → Option (Nat × Bytes)
  | a :: b :: c :: d :: r => do
    let a ← hexValue a
    let b ← hexValue b
    let c ← hexValue c
    let d ← hexValue d
    return (((a * 16 + b) * 16 + c) * 16 + d, r)
  | _ => none

/-- A code point in UTF-8. -/
def utf8Bytes (c : Nat) : Bytes :=
  if c < 0x80 then [c.toUInt8]
  else if c ≤ 0x7FF then [(0xC0 ||| c >>> 6).toUInt8, (0x80 ||| (c &&& 0x3F)).toUInt8]
  else if c ≤ 0xFFFF then
    [(0xE0 ||| c >>> 12).toUInt8, (0x80 ||| (c >>> 6 &&& 0x3F)).toUInt8,
      (0x80 ||| (c &&& 0x3F)).toUInt8]
  else
    [(0xF0 ||| c >>> 18).toUInt8, (0x80 ||| (c >>> 12 &&& 0x3F)).toUInt8,
      (0x80 ||| (c >>> 6 &&& 0x3F)).toUInt8, (0x80 ||| (c &&& 0x3F)).toUInt8]

/-- A `\u` escape after its `u`; a high surrogate takes the low one that must follow. -/
def scanUnicode (r : Bytes) : Option (Bytes × Bytes) := do
  let (c, r) ← getCodepoint r
  if 0xD800 ≤ c ∧ c ≤ 0xDBFF then
    match r with
    | 92 :: 117 :: r =>
      let (c', r) ← getCodepoint r
      if 0xDC00 ≤ c' ∧ c' ≤ 0xDFFF then some (utf8Bytes (c * 1024 + c' - 0x35FDC00), r) else none
    | _ => none
  else if 0xDC00 ≤ c ∧ c ≤ 0xDFFF then none
  else some (utf8Bytes c, r)

/-- An escape after its backslash. -/
def scanEscape : Bytes → Option (Bytes × Bytes)
  | [] => none
  | e :: r =>
    if e = 34 then some ([34], r)
    else if e = 92 then some ([92], r)
    else if e = 47 then some ([47], r)
    else if e = 98 then some ([8], r)
    else if e = 102 then some ([12], r)
    else if e = 110 then some ([10], r)
    else if e = 114 then some ([13], r)
    else if e = 116 then some ([9], r)
    else if e = 117 then scanUnicode r
    else none

/-- The bytes that must follow a lead byte, each in its range. -/
def nextByteInRange : List (UInt8 × UInt8) → Bytes → Option (Bytes × Bytes)
  | [], r => some ([], r)
  | _ :: _, [] => none
  | (lo, hi) :: ranges, b :: r =>
    if lo ≤ b ∧ b ≤ hi then (nextByteInRange ranges r).map fun (s, r) => (b :: s, r) else none

/-- The ranges of the bytes after a lead byte; `none`: the byte is no lead byte. -/
def tailRanges (c : UInt8) : Option (List (UInt8 × UInt8)) :=
  if c < 0x80 then some []
  else if c < 0xC2 then none
  else if c < 0xE0 then some [(0x80, 0xBF)]
  else if c = 0xE0 then some [(0xA0, 0xBF), (0x80, 0xBF)]
  else if c = 0xED then some [(0x80, 0x9F), (0x80, 0xBF)]
  else if c < 0xF0 then some [(0x80, 0xBF), (0x80, 0xBF)]
  else if c = 0xF0 then some [(0x90, 0xBF), (0x80, 0xBF), (0x80, 0xBF)]
  else if c < 0xF4 then some [(0x80, 0xBF), (0x80, 0xBF), (0x80, 0xBF)]
  else if c = 0xF4 then some [(0x80, 0x8F), (0x80, 0xBF), (0x80, 0xBF)]
  else none

/-- One character of a string. -/
def scanChar (c : UInt8) (r : Bytes) : Option (Bytes × Bytes) :=
  if c = 92 then scanEscape r
  else if c < 0x20 then none
  else do
    let ranges ← tailRanges c
    let (s, r) ← nextByteInRange ranges r
    return (c :: s, r)

/-- The rest of a string after its opening quote; every character takes a byte of `fuel`. -/
def scanString : Nat → Bytes → Option (Bytes × Bytes)
  | 0, _ => none
  | _ + 1, [] => none
  | fuel + 1, c :: r =>
    if c = 34 then some ([], r)
    else do
      let (s, r) ← scanChar c r
      let (t, r) ← scanString fuel r
      return (s ++ t, r)

def digitsValue (ds : Bytes) : Nat := ds.foldl (fun n d => n * 10 + (d.toNat - 48)) 0

/-- The digits of an integer part: `0`, or digits that do not start with `0`. -/
def scanInteger : Bytes → Option (Bytes × Bytes)
  | [] => none
  | c :: r =>
    if c = 48 then some ([c], r)
    else if isDigit c then some ((c :: r).span isDigit) else none

/-- Digits, at least one. -/
def scanDigits (r : Bytes) : Option (Bytes × Bytes) :=
  match r.span isDigit with
  | ([], _) => none
  | p => some p

/-- `.` and digits, if there is a `.`. -/
def scanFraction : Bytes → Option (Bytes × Bytes)
  | 46 :: r => (scanDigits r).map fun (ds, r) => (46 :: ds, r)
  | r => some ([], r)

/-- `e` or `E`, a sign and digits, if there is an `e` or `E`. -/
def scanExponent : Bytes → Option (Bytes × Bytes)
  | [] => some ([], [])
  | e :: r =>
    if e = 101 ∨ e = 69 then
      match r with
      | [] => none
      | s :: r' =>
        if s = 43 ∨ s = 45 then (scanDigits r').map fun (ds, r) => (e :: s :: ds, r)
        else (scanDigits r).map fun (ds, r) => (e :: ds, r)
    else some ([], e :: r)

/-- A double; an infinity is an error. -/
def floatToken (F : FloatLib) (text : Bytes) : Token :=
  if isFinite (F.strtod text) then .scalar (.float (F.strtod text)) else .parseError

/-- A number. An integer that fits no 64-bit type is a double. -/
def scanNumber (F : FloatLib) (bs : Bytes) : Option (Token × Bytes) := do
  let (sign, r) : Bytes × Bytes := match bs with
    | 45 :: r => ([45], r)
    | r => ([], r)
  let (digits, r) ← scanInteger r
  let (frac, r) ← scanFraction r
  let (exp, r) ← scanExponent r
  let n := digitsValue digits
  if frac.isEmpty && exp.isEmpty then
    if sign.isEmpty then
      return (if n < 2 ^ 64 then .scalar (.int n) else floatToken F digits, r)
    else
      return (if n ≤ 2 ^ 63 then .scalar (.int (-n)) else floatToken F (sign ++ digits), r)
  else
    return (floatToken F (sign ++ digits ++ frac ++ exp), r)

def skipWhitespace : Bytes → Bytes
  | [] => []
  | b :: r => if b = 32 ∨ b = 9 ∨ b = 10 ∨ b = 13 then skipWhitespace r else b :: r

/-- The rest of a literal after its first byte. -/
def scanLiteral (text : String) (j : Json) (r : Bytes) : Token × Bytes :=
  if ascii text <+: r then (.scalar j, r.drop (ascii text).length) else (.parseError, [])

/-- The next token, and the bytes after it. -/
def nextToken (F : FloatLib) (bs : Bytes) : Token × Bytes :=
  match skipWhitespace bs with
  | [] => (.endOfInput, [])
  | c :: r =>
    if c = 91 then (.beginArray, r)
    else if c = 93 then (.endArray, r)
    else if c = 123 then (.beginObject, r)
    else if c = 125 then (.endObject, r)
    else if c = 58 then (.nameSeparator, r)
    else if c = 44 then (.valueSeparator, r)
    else if c = 116 then scanLiteral "rue" (.bool true) r
    else if c = 102 then scanLiteral "alse" (.bool false) r
    else if c = 110 then scanLiteral "ull" .null r
    else if c = 34 then
      match scanString (r.length + 1) r with
      | some (s, r) => (.string s, r)
      | none => (.parseError, [])
    else if c = 45 || isDigit c then (scanNumber F (c :: r)).getD (.parseError, [])
    else if c = 0 then (.endOfInput, [])
    else (.parseError, [])

/-- The tokens up to the end of the input or an error; every other token takes at least one byte
of `fuel`. -/
def tokens (F : FloatLib) : Nat → Bytes → List Token
  | 0, _ => []
  | fuel + 1, bs =>
    match nextToken F bs with
    | (.endOfInput, _) => [.endOfInput]
    | (.parseError, _) => [.parseError]
    | (t, r) => t :: tokens F fuel r

/-- The byte order mark, which may start the text. -/
def skipBom : Bytes → Option Bytes
  | 0xEF :: 0xBB :: 0xBF :: r => some r
  | 0xEF :: _ => none
  | bs => some bs

/-! ## The parser -/

namespace Parser

/-- A container that the value being read is part of. -/
inductive Frame where
  | array (items : List Json)
  | object (members : List (Bytes × Json)) (key : Bytes)

/-- What the machine has read last. -/
inductive Mode where
  /-- A value must follow. -/
  | value
  /-- `[`: a value or `]` must follow. -/
  | arrayStart
  /-- An item of the array. -/
  | item (items : List Json)
  /-- `{`: a key or `}` must follow. -/
  | objectStart
  /-- `,` in an object. -/
  | nextKey (members : List (Bytes × Json))
  /-- A key. -/
  | key (members : List (Bytes × Json)) (key : Bytes)
  /-- A member of the object. -/
  | member (members : List (Bytes × Json))
  /-- The whole value. -/
  | done (j : Json)

abbrev State := Mode × List Frame

/-- A value is complete: it goes to the container around it. -/
def complete (j : Json) : List Frame → State
  | [] => (.done j, [])
  | .array items :: st => (.item (items ++ [j]), st)
  | .object members key :: st => (.member (setMember key j members), st)

/-- A token where a value must start. -/
def startValue (st : List Frame) : Token → Option State
  | .beginArray => some (.arrayStart, st)
  | .beginObject => some (.objectStart, st)
  | .string s => some (complete (.str s) st)
  | .scalar j => some (complete j st)
  | _ => none

/-- One token; `none`: the text is not JSON. -/
def step : State → Token → Option State
  | (.value, st), t => startValue st t
  | (.arrayStart, st), .endArray => some (complete (.arr []) st)
  | (.arrayStart, st), t => startValue (.array [] :: st) t
  | (.item items, st), .valueSeparator => some (.value, .array items :: st)
  | (.item items, st), .endArray => some (complete (.arr items) st)
  | (.objectStart, st), .endObject => some (complete (.obj []) st)
  | (.objectStart, st), .string k => some (.key [] k, st)
  | (.nextKey members, st), .string k => some (.key members k, st)
  | (.key members k, st), .nameSeparator => some (.value, .object members k :: st)
  | (.member members, st), .valueSeparator => some (.nextKey members, st)
  | (.member members, st), .endObject => some (complete (.obj members) st)
  | _, _ => none

def run : State → List Token → Option Json
  | (.done j, _), [.endOfInput] => some j
  | s, t :: ts => (step s t).bind fun s => run s ts
  | _, [] => none

end Parser

/-- `json::parse`; `none`: the library throws. -/
def parse (F : FloatLib) (bs : Bytes) : Option Json := do
  let bs ← skipBom bs
  Parser.run (.value, []) (tokens F (bs.length + 1) bs)

end Json
