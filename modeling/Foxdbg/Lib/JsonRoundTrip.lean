import Foxdbg.Lib.JsonDenotes

/-!
# Reading what was written

`parse` reads the text that `dump` writes back as the same value (`parse_dump`), but for a double
that JSON cannot write: an infinity or a NaN is read as `null` (`reread`). The value has to be one
that the library can hold (`kept`): integers of 64 bits, and the keys of an object in their order.
Of the C library it takes that the text of a double is that of a floating-point number which reads
as the double (`RoundTrips`).
-/

namespace Json

variable {F : FloatLib} {s t u : Bytes}

/-! ## Strings -/

/-- In a string, the scanner reads `text` as the character `x`. -/
def Spells (x text : Bytes) : Prop :=
  ∃ c r, text = c :: r ∧ c ≠ 34 ∧ ∀ u, scanChar c (r ++ u) = some (x, u)

theorem hexValue_hexDigit_eq {n : Nat} (h : n < 16) : hexValue (hexDigit n) = some n := by
  revert n
  decide

/-- An escape is read as the character. -/
theorem spells_escape {b : UInt8} (h : b < 0x80) : Spells [b] (escape b.toNat b) := by
  have byte : ∀ c : UInt8, b.toNat = c.toNat → b = c := fun c => UInt8.toNat_inj.mp
  unfold escape
  split
  · obtain rfl := byte 0x08 ‹_›
    exact ⟨92, [98], rfl, by decide, fun _ => rfl⟩
  split
  · obtain rfl := byte 0x09 ‹_›
    exact ⟨92, [116], rfl, by decide, fun _ => rfl⟩
  split
  · obtain rfl := byte 0x0A ‹_›
    exact ⟨92, [110], rfl, by decide, fun _ => rfl⟩
  split
  · obtain rfl := byte 0x0C ‹_›
    exact ⟨92, [102], rfl, by decide, fun _ => rfl⟩
  split
  · obtain rfl := byte 0x0D ‹_›
    exact ⟨92, [114], rfl, by decide, fun _ => rfl⟩
  split
  · obtain rfl := byte 0x22 ‹_›
    exact ⟨92, [34], rfl, by decide, fun _ => rfl⟩
  split
  · obtain rfl := byte 0x5C ‹_›
    exact ⟨92, [92], rfl, by decide, fun _ => rfl⟩
  split
  · rename_i hcontrol
    refine ⟨92, [117, 48, 48, hexDigit (b.toNat / 16), hexDigit (b.toNat % 16)], rfl, by decide,
      fun u => ?_⟩
    have hhigh := hexValue_hexDigit_eq (n := b.toNat / 16) (by omega)
    have hlow := hexValue_hexDigit_eq (n := b.toNat % 16) (by omega)
    have hzero : hexValue 48 = some 0 := by decide
    have hcode : ((0 * 16 + 0) * 16 + b.toNat / 16) * 16 + b.toNat % 16 = b.toNat := by omega
    have hcodepoint :
        getCodepoint ([48, 48, hexDigit (b.toNat / 16), hexDigit (b.toNat % 16)] ++ u) =
          some (b.toNat, u) := by
      simp only [getCodepoint, List.cons_append, List.nil_append, hzero, hhigh, hlow]
      exact congrArg (fun n => some (n, u)) hcode
    have hscan : scanUnicode ([48, 48, hexDigit (b.toNat / 16), hexDigit (b.toNat % 16)] ++ u) =
        some (utf8Bytes b.toNat, u) := by
      rw [scanUnicode, hcodepoint]
      dsimp only [Option.bind_eq_bind, Option.bind_some]
      rw [if_neg (by omega), if_neg (by omega)]
    have hbytes : utf8Bytes b.toNat = [b] := by
      rw [utf8Bytes, if_pos (by omega)]
      simp
    rw [hbytes] at hscan
    exact hscan
  · rename_i hquote hslash hcontrol
    refine ⟨b, [], rfl, fun hb => hquote (congrArg UInt8.toNat hb), fun u => ?_⟩
    have hlow : ¬ b < 0x20 := by
      rw [UInt8.lt_iff_toNat_lt]
      show ¬ b.toNat < 32
      omega
    rw [scanChar, if_neg fun hb => hslash (congrArg UInt8.toNat hb), if_neg hlow, tailRanges,
      if_pos h]
    rfl

/-- The ranges after the lead bytes that differ in nothing else. -/
theorem tailRanges_lead : ∀ b : UInt8,
    (0xC2 ≤ b ∧ b ≤ 0xDF → tailRanges b = some [(0x80, 0xBF)]) ∧
    (0xE1 ≤ b ∧ b ≤ 0xEF ∧ b ≠ 0xED → tailRanges b = some [(0x80, 0xBF), (0x80, 0xBF)]) ∧
    (0xF1 ≤ b ∧ b ≤ 0xF3 →
      tailRanges b = some [(0x80, 0xBF), (0x80, 0xBF), (0x80, 0xBF)]) :=
  forall_byte (by decide +kernel)

/-- A byte from 0xC0 on is scanned as a lead byte. -/
theorem spells_lead {c : UInt8} {r : Bytes} {ranges : List (UInt8 × UInt8)} (hc : 0xC0 ≤ c)
    (hranges : tailRanges c = some ranges)
    (hr : ∀ u, nextByteInRange ranges (r ++ u) = some (r, u)) : Spells (c :: r) (c :: r) := by
  refine ⟨c, r, rfl, ?_, fun u => ?_⟩
  · rintro rfl
    exact absurd hc (by decide)
  · have hslash : c ≠ 92 := by
      rintro rfl
      exact absurd hc (by decide)
    have hlow : ¬ c < 0x20 := UInt8.not_lt.mpr (UInt8.le_trans (by decide) hc)
    rw [scanChar, if_neg hslash, if_neg hlow, hranges]
    simp [hr]

/-- A character above ASCII is read as it is. -/
theorem spells_multibyte (h : IsMultibyte s) : Spells s s := by
  cases h with
  | @two a b h₁ h₂ hb =>
    refine spells_lead (UInt8.le_trans (by decide) h₁) ((tailRanges_lead a).1 ⟨h₁, h₂⟩) fun u => ?_
    simp [nextByteInRange, hb.1, hb.2]
  | e0 h₁ h₂ hc =>
    refine spells_lead (by decide) rfl fun u => ?_
    simp [nextByteInRange, h₁, h₂, hc.1, hc.2]
  | ed h₁ h₂ hc =>
    refine spells_lead (by decide) rfl fun u => ?_
    simp [nextByteInRange, h₁, h₂, hc.1, hc.2]
  | @three a b c h₁ h₂ h₃ hb hc =>
    refine spells_lead (UInt8.le_trans (by decide) h₁) ((tailRanges_lead a).2.1 ⟨h₁, h₂, h₃⟩)
      fun u => ?_
    simp [nextByteInRange, hb.1, hb.2, hc.1, hc.2]
  | f0 h₁ h₂ hc hd =>
    refine spells_lead (by decide) rfl fun u => ?_
    simp [nextByteInRange, h₁, h₂, hc.1, hc.2, hd.1, hd.2]
  | f4 h₁ h₂ hc hd =>
    refine spells_lead (by decide) rfl fun u => ?_
    simp [nextByteInRange, h₁, h₂, hc.1, hc.2, hd.1, hd.2]
  | @four a b c d h₁ h₂ hb hc hd =>
    refine spells_lead (UInt8.le_trans (by decide) h₁) ((tailRanges_lead a).2.2 ⟨h₁, h₂⟩)
      fun u => ?_
    simp [nextByteInRange, hb.1, hb.2, hc.1, hc.2, hd.1, hd.2]

/-- Characters up to the closing quote are read one by one. -/
theorem scanString_pieces {pieces : List (Bytes × Bytes)} (h : ∀ p ∈ pieces, Spells p.1 p.2)
    (u : Bytes) : ∀ fuel, (pieces.map (·.2)).flatten.length < fuel →
      scanString fuel ((pieces.map (·.2)).flatten ++ 34 :: u) =
        some ((pieces.map (·.1)).flatten, u) := by
  induction pieces with
  | nil =>
    intro fuel hfuel
    obtain ⟨fuel, rfl⟩ := Nat.exists_eq_add_of_le' hfuel
    rfl
  | cons p pieces ih =>
    intro fuel hfuel
    obtain ⟨⟨c, r, htext, hquote, hscan⟩, hpieces⟩ := List.forall_mem_cons.mp h
    obtain ⟨fuel, rfl⟩ := Nat.exists_eq_add_of_le' (Nat.one_le_of_lt hfuel)
    rw [List.map_cons, List.flatten_cons, htext] at hfuel ⊢
    have hrest := ih hpieces fuel (by
      rw [List.cons_append, List.length_cons, List.length_append] at hfuel
      omega)
    rw [List.append_assoc, List.cons_append, scanString, if_neg hquote, hscan]
    simp [hrest]

/-- A written string is read as the string. -/
theorem nextToken_dumpEscaped (h : dumpEscaped s = some t) (u : Bytes) :
    nextToken F (quoted t ++ u) = (.string s, u) := by
  obtain ⟨pieces, hall, hvalue, htext⟩ := pieces_escapeFrom (R := Spells)
    (fun _ hb => spells_escape hb) (fun _ hc => spells_multibyte hc) h (show Awaits [] _ _ from rfl)
  rw [List.nil_append] at hvalue htext
  have hscan := scanString_pieces hall u ((t ++ 34 :: u).length + 1) (by
    rw [← htext, List.length_append]
    omega)
  rw [← htext, ← hvalue] at hscan
  have heq : quoted t ++ u = 34 :: (t ++ 34 :: u) := by simp [quoted]
  have hskip : skipWhitespace (34 :: (t ++ 34 :: u)) = 34 :: (t ++ 34 :: u) := rfl
  rw [heq]
  simp [nextToken, hskip, hscan, -List.length_append]

/-! ## Values that the library holds -/

/-- The keys are in their order. -/
def sortedKeys : List (Bytes × Json) → Bool
  | [] => true
  | kv :: r => r.all (fun kv' => keyLt kv.1 kv'.1) && sortedKeys r

mutual

/-- Integers fit a 64-bit type, and the keys of objects are in their order. -/
def kept : Json → Bool
  | .int i => decide (-2 ^ 63 ≤ i ∧ i < 2 ^ 64)
  | .arr xs => keptItems xs
  | .obj members => sortedKeys members && keptMembers members
  | _ => true

def keptItems : List Json → Bool
  | [] => true
  | x :: xs => x.kept && keptItems xs

def keptMembers : List (Bytes × Json) → Bool
  | [] => true
  | kv :: r => keptMember kv && keptMembers r

def keptMember : Bytes × Json → Bool
  | (_, v) => v.kept

end

mutual

/-- The value as it is read back: an infinity or a NaN is `null`. -/
def reread : Json → Json
  | .float bits => if isFinite bits then .float bits else .null
  | .arr xs => .arr (rereadItems xs)
  | .obj members => .obj (rereadMembers members)
  | j => j

def rereadItems : List Json → List Json
  | [] => []
  | x :: xs => x.reread :: rereadItems xs

def rereadMembers : List (Bytes × Json) → List (Bytes × Json)
  | [] => []
  | kv :: r => rereadMember kv :: rereadMembers r

def rereadMember : Bytes × Json → Bytes × Json
  | (k, v) => (k, v.reread)

end

theorem rereadMember_fst (kv : Bytes × Json) : (rereadMember kv).1 = kv.1 := by
  obtain ⟨k, v⟩ := kv
  rw [rereadMember]

/-- Reading back keeps the keys. -/
theorem sortedKeys_rereadMembers (members : List (Bytes × Json)) :
    sortedKeys (rereadMembers members) = sortedKeys members := by
  have hall : ∀ (p : Bytes → Bool) (members : List (Bytes × Json)),
      (rereadMembers members).all (fun kv => p kv.1) = members.all fun kv => p kv.1 := by
    intro p members
    induction members with
    | nil => rfl
    | cons kv members ih => rw [rereadMembers, List.all_cons, List.all_cons, ih, rereadMember_fst]
  induction members with
  | nil => rfl
  | cons kv members ih =>
    rw [rereadMembers, sortedKeys, sortedKeys, ih, hall (keyLt (rereadMember kv).1),
      rereadMember_fst]

theorem keyLt_asymm : ∀ a b : Bytes, keyLt a b = true → (a == b) = false ∧ keyLt b a = false
  | _, [], h => by rw [keyLt] at h; cases h
  | [], _ :: _, _ => ⟨rfl, rfl⟩
  | a :: r, b :: r', h => by
    simp only [keyLt, Bool.or_eq_true, Bool.and_eq_true, decide_eq_true_eq, beq_iff_eq] at h
    rcases h with hlt | ⟨rfl, hr⟩
    · have hne : (a == b) = false := beq_false_of_ne (UInt8.ne_of_lt hlt)
      have hne' : (b == a) = false := beq_false_of_ne (UInt8.ne_of_lt hlt).symm
      have hnlt : ¬ b < a := UInt8.not_lt.mpr (UInt8.le_of_lt hlt)
      simp [keyLt, hne, hne', hnlt]
    · obtain ⟨hne, hnlt⟩ := keyLt_asymm r r' hr
      simp only [beq_eq_false_iff_ne] at hne
      simp [keyLt, hne, hnlt]

/-- A key behind all others goes to the end. -/
theorem setMember_last {acc : List (Bytes × Json)} {k : Bytes} {v : Json}
    (h : ∀ kv ∈ acc, keyLt kv.1 k = true) : setMember k v acc = acc ++ [(k, v)] := by
  induction acc with
  | nil => rfl
  | cons kv acc ih =>
    obtain ⟨hkv, hacc⟩ := List.forall_mem_cons.mp h
    obtain ⟨hne, hnlt⟩ := keyLt_asymm _ _ hkv
    have hne' : (k == kv.1) = false := by
      rw [beq_eq_false_iff_ne] at hne ⊢
      exact Ne.symm hne
    obtain ⟨k', v'⟩ := kv
    simp only [setMember, hne', hnlt, Bool.false_eq_true, if_false, ih hacc, List.cons_append]

/-- Members in the order of their keys are the object that they make one by one. -/
theorem foldl_setMember {members : List (Bytes × Bytes × Json)} {acc : List (Bytes × Json)}
    (h : sortedKeys (acc ++ members.map fun m => (m.1, m.2.2)) = true) :
    members.foldl (fun acc m => setMember m.1 m.2.2 acc) acc =
      acc ++ members.map fun m => (m.1, m.2.2) := by
  induction members generalizing acc with
  | nil => simp
  | cons m members ih =>
    have hlast : ∀ kv ∈ acc, keyLt kv.1 m.1 = true := by
      clear ih
      induction acc with
      | nil => nofun
      | cons kv acc ih =>
        simp only [List.cons_append, sortedKeys, Bool.and_eq_true, List.all_eq_true] at h
        refine List.forall_mem_cons.mpr ⟨h.1 (m.1, m.2.2) (by simp), ih h.2⟩
    rw [List.foldl_cons, setMember_last hlast, List.map_cons, ih]
    · simp
    · simpa using h

/-! ## Values -/

/-- The text of a finite double is that of a floating-point number, and reads as the double. -/
structure RoundTrips (F : FloatLib) : Prop where
  text : ∀ bits, isFinite bits = true → ∃ sign integer fraction exponent,
    F.toChars bits = sign ++ integer ++ fraction ++ exponent ∧ (sign = [] ∨ sign = [45]) ∧
      IsInteger integer ∧ IsFraction fraction ∧ IsExponent exponent ∧
      (fraction ≠ [] ∨ exponent ≠ [])
  value : ∀ bits, isFinite bits = true → F.strtod (F.toChars bits) = bits

theorem RoundTrips.isNumber (hF : RoundTrips F) {bits : UInt64} (h : isFinite bits = true) :
    IsNumber (F.toChars bits) := by
  obtain ⟨sign, integer, fraction, exponent, htext, hsign, hinteger, hfraction, hexponent, -⟩ :=
    hF.text bits h
  exact ⟨sign, integer, fraction, exponent, htext, hsign, hinteger, hfraction, hexponent⟩

theorem denotes_float (hF : RoundTrips F) {bits : UInt64} (h : isFinite bits = true) :
    Denotes F (F.toChars bits) (.float bits) := by
  obtain ⟨sign, integer, fraction, exponent, htext, hsign, hinteger, hfraction, hexponent, hne⟩ :=
    hF.text bits h
  have hvalue := hF.value bits h
  have hscan := scanNumber_of_parts (F := F) hsign hinteger hfraction hexponent
  have hparts : (fraction.isEmpty && exponent.isEmpty) = false := by
    rw [Bool.and_eq_false_iff, List.isEmpty_eq_false_iff, List.isEmpty_eq_false_iff]
    exact hne
  have htoken : numberToken F sign integer fraction exponent = .scalar (.float bits) := by
    have hfloat : floatToken F (F.toChars bits) = .scalar (.float bits) := by
      rw [floatToken, hvalue, if_pos h]
    rw [numberToken, hparts, ← htext, hfloat]
    rfl
  rw [htoken, ← htext] at hscan
  exact .number hscan

/-- A library that writes a double as the number that its bits are. -/
def indexed : FloatLib where
  toChars bits := decimal bits.toNat ++ ascii ".0"
  strtod text := (digitsValue (text.takeWhile isDigit)).toUInt64
  toInt _ := 0

theorem roundTrips_indexed : RoundTrips indexed where
  text bits _ := by
    refine ⟨[], decimal bits.toNat, [46, 48], [], by simp [indexed, ascii], .inl rfl,
      isInteger_decimal _, .inr ⟨[48], rfl, nofun, ?_⟩, .inl rfl, .inl nofun⟩
    exact List.forall_mem_singleton.mpr rfl
  value bits _ := by
    have hdigits : ∀ b ∈ decimal bits.toNat, isDigit b = true := (isInteger_decimal _).1.2
    have hread : (decimal bits.toNat ++ [46, 48]).takeWhile isDigit = decimal bits.toNat := by
      rw [List.takeWhile_append_of_pos hdigits]
      exact List.append_nil _
    have hvalue : digitsValue (decimal bits.toNat) = bits.toNat :=
      digitsValue_decimalFuel (Nat.lt_succ_self _)
    show (digitsValue ((decimal bits.toNat ++ [46, 48]).takeWhile isDigit)).toUInt64 = bits
    rw [hread, hvalue]
    exact UInt64.ofNat_toNat

mutual

/-- What `dump` writes for a value is read as the value. -/
theorem readsAs_dump (hF : RoundTrips F) :
    ∀ (j : Json) (t : Bytes), dump F j = some t → j.kept = true → ReadsAs F t j.reread
  | .null, _, h, _ => by cases h; exact Denotes.null.readsAs
  | .bool b, _, h, _ => by cases h; exact (Denotes.bool b).readsAs
  | .int i, _, h, hk => by
    cases h
    obtain ⟨hlow, hhigh⟩ := of_decide_eq_true hk
    exact (denotes_dumpInteger hlow hhigh).readsAs
  | .float bits, _, h, _ => by
    cases h
    unfold dumpFloat reread
    split
    · rename_i hfinite
      exact (denotes_float hF hfinite).readsAs
    · exact Denotes.null.readsAs
  | .str s, _, h, _ => by
    obtain ⟨t, ht, rfl⟩ := Option.map_eq_some_iff.mp h
    exact fun _ u _ => .single (nextToken_dumpEscaped ht u) rfl
  | .arr xs, _, h, hk => by
    obtain ⟨t, ht, rfl⟩ := Option.map_eq_some_iff.mp h
    obtain ⟨items, rfl, -, hvalues, hitems⟩ := readsAs_dumpItems hF xs t ht hk
    rw [reread, ← hvalues]
    exact .array items hitems
  | .obj members, _, h, hk => by
    obtain ⟨t, ht, rfl⟩ := Option.map_eq_some_iff.mp h
    rw [kept, Bool.and_eq_true] at hk
    obtain ⟨hsorted, hk⟩ := hk
    obtain ⟨texts, rfl, -, hvalues, hkeys, hread⟩ := readsAs_dumpMembers hF members t ht hk
    have hobj := ReadsAs.object (fun k => (dumpEscaped k).getD []) texts hkeys hread
    rw [foldl_setMember, List.nil_append, hvalues, objectText, List.map_map] at hobj
    · exact hobj
    · rw [List.nil_append, hvalues, sortedKeys_rereadMembers]
      exact hsorted

theorem readsAs_dumpItems (hF : RoundTrips F) :
    ∀ (xs : List Json) (t : Bytes), dumpItems F xs = some t → keptItems xs = true →
      ∃ items : List (Bytes × Json), t = commaSeparated (items.map (·.1)) ∧
        items.isEmpty = xs.isEmpty ∧ items.map (·.2) = rereadItems xs ∧
        ∀ p ∈ items, ReadsAs F p.1 p.2
  | [], _, h, _ => by cases h; exact ⟨[], rfl, rfl, rfl, nofun⟩
  | x :: xs, t, h, hk => by
    simp only [dumpItems, Option.bind_eq_bind, Option.bind_eq_some_iff] at h
    obtain ⟨a, ha, r, hr, h⟩ := h
    cases h
    rw [keptItems, Bool.and_eq_true] at hk
    obtain ⟨items, rfl, hempty, hvalues, hitems⟩ := readsAs_dumpItems hF xs r hr hk.2
    refine ⟨(a, x.reread) :: items, ?_, rfl, ?_, ?_⟩
    · rw [List.map_cons, commaSeparated_cons, List.isEmpty_map, hempty]
    · rw [List.map_cons, hvalues, rereadItems]
    · exact List.forall_mem_cons.mpr ⟨readsAs_dump hF x a ha hk.1, hitems⟩

theorem readsAs_dumpMembers (hF : RoundTrips F) :
    ∀ (members : List (Bytes × Json)) (t : Bytes), dumpMembers F members = some t →
      keptMembers members = true →
      ∃ texts : List (Bytes × Bytes × Json),
        t = commaSeparated (texts.map fun m => quoted ((dumpEscaped m.1).getD []) ++ 58 :: m.2.1) ∧
        texts.isEmpty = members.isEmpty ∧
        (texts.map fun m => (m.1, m.2.2)) = rereadMembers members ∧
        (∀ m ∈ texts, ∀ u,
          nextToken F (quoted ((dumpEscaped m.1).getD []) ++ u) = (.string m.1, u)) ∧
        ∀ m ∈ texts, ReadsAs F m.2.1 m.2.2
  | [], _, h, _ => by cases h; exact ⟨[], rfl, rfl, rfl, nofun, nofun⟩
  | (k, v) :: r, t, h, hk => by
    simp only [dumpMembers, Option.bind_eq_bind, Option.bind_eq_some_iff] at h
    obtain ⟨a, ha, u, hu, h⟩ := h
    cases h
    simp only [dumpMember, Option.bind_eq_bind, Option.bind_eq_some_iff] at ha
    obtain ⟨name, hname, value, hvalue, ha⟩ := ha
    cases ha
    rw [keptMembers, keptMember, Bool.and_eq_true] at hk
    obtain ⟨texts, rfl, hempty, hvalues, hkeys, hread⟩ := readsAs_dumpMembers hF r u hu hk.2
    refine ⟨(k, value, v.reread) :: texts, ?_, rfl, ?_, ?_, ?_⟩
    · rw [List.map_cons, commaSeparated_cons, List.isEmpty_map, hempty, hname]
      rfl
    · rw [List.map_cons, hvalues, rereadMembers, rereadMember]
    · refine List.forall_mem_cons.mpr ⟨fun u => ?_, hkeys⟩
      rw [hname]
      exact nextToken_dumpEscaped hname u
    · exact List.forall_mem_cons.mpr ⟨readsAs_dump hF v value hvalue hk.1, hread⟩

end

/-- **Round trip.** `parse` reads what `dump` writes as the value. -/
theorem parse_dump (hF : RoundTrips F) {j : Json} (h : dump F j = some t) (hk : j.kept = true) :
    parse F t = some j.reread := (readsAs_dump hF j t h hk).parse

/-! ## Objects that are made member by member -/

theorem keyLt_or : ∀ a b : Bytes, (a == b) = false → keyLt a b = false → keyLt b a = true
  | [], [], h, _ => by cases h
  | [], _ :: _, _, h => by cases h
  | _ :: _, [], _, _ => rfl
  | a :: r, b :: r', hne, h => by
    simp only [keyLt, Bool.or_eq_false_iff, decide_eq_false_iff_not] at h
    obtain ⟨hnlt, hr⟩ := h
    by_cases hab : a = b
    · subst hab
      have hrest := keyLt_or r r' (by simpa using hne) (by simpa using hr)
      simp [keyLt, hrest]
    · have hlt : b < a := UInt8.lt_of_le_of_ne (UInt8.not_lt.mp hnlt) (Ne.symm hab)
      simp [keyLt, hlt]

theorem keyLt_trans : ∀ a b c : Bytes, keyLt a b = true → keyLt b c = true → keyLt a c = true
  | _, _, [], _, h => by rw [keyLt] at h; cases h
  | [], _, _ :: _, _, _ => rfl
  | _ :: _, [], _, h, _ => by cases h
  | a :: r, b :: r', c :: r'', h, h' => by
    simp only [keyLt, Bool.or_eq_true, Bool.and_eq_true, decide_eq_true_eq, beq_iff_eq] at h h' ⊢
    rcases h with hlt | ⟨rfl, hr⟩
    · rcases h' with hlt' | ⟨rfl, -⟩
      · exact .inl (UInt8.lt_trans hlt hlt')
      · exact .inl hlt
    · rcases h' with hlt' | ⟨rfl, hr'⟩
      · exact .inl hlt'
      · exact .inr ⟨rfl, keyLt_trans r r' r'' hr hr'⟩

/-- A member that is set leaves the other keys, and adds its own. -/
theorem all_setMember {p : Bytes → Bool} {k : Bytes} {v : Json} {members : List (Bytes × Json)}
    (hk : p k = true) (h : members.all (fun kv => p kv.1) = true) :
    (setMember k v members).all (fun kv => p kv.1) = true := by
  induction members with
  | nil => simpa [setMember] using hk
  | cons kv members ih =>
    obtain ⟨k', v'⟩ := kv
    rw [List.all_cons, Bool.and_eq_true] at h
    obtain ⟨hk', hmembers⟩ := h
    simp only [setMember]
    split
    · rw [List.all_cons, hk, hmembers]
      rfl
    · split
      · rw [List.all_cons, List.all_cons, hk, hk', hmembers]
        rfl
      · rw [List.all_cons, hk', ih hmembers]
        rfl

theorem sortedKeys_setMember {k : Bytes} {v : Json} {members : List (Bytes × Json)}
    (h : sortedKeys members = true) : sortedKeys (setMember k v members) = true := by
  induction members with
  | nil => rfl
  | cons kv members ih =>
    obtain ⟨k', v'⟩ := kv
    rw [sortedKeys, Bool.and_eq_true] at h
    obtain ⟨hall, hmembers⟩ := h
    simp only [setMember]
    split
    · rename_i heq
      rw [sortedKeys, beq_iff_eq.mp heq, hall, hmembers]
      rfl
    · rename_i hne
      split
      · rename_i hlt
        have hk : ((k', v') :: members).all (fun kv => keyLt k kv.1) = true := by
          rw [List.all_cons, hlt, Bool.true_and, List.all_eq_true]
          intro kv hkv
          exact keyLt_trans _ _ _ hlt (List.all_eq_true.mp hall kv hkv)
        rw [sortedKeys, hk, sortedKeys, hall, hmembers]
        rfl
      · rename_i hnlt
        have hk := keyLt_or k k' (Bool.eq_false_iff.mpr hne) (Bool.eq_false_iff.mpr hnlt)
        rw [sortedKeys, all_setMember (p := keyLt k') hk hall, ih hmembers]
        rfl

theorem keptMembers_setMember {k : Bytes} {v : Json} {members : List (Bytes × Json)}
    (hv : v.kept = true) (h : keptMembers members = true) :
    keptMembers (setMember k v members) = true := by
  induction members with
  | nil =>
    rw [setMember, keptMembers, keptMember, hv]
    rfl
  | cons kv members ih =>
    obtain ⟨k', v'⟩ := kv
    rw [keptMembers, Bool.and_eq_true] at h
    obtain ⟨hv', hmembers⟩ := h
    simp only [setMember]
    split
    · rw [keptMembers, keptMember, hv, hmembers]
      rfl
    · split
      · rw [keptMembers, keptMembers, keptMember, hv, hv', hmembers]
        rfl
      · rw [keptMembers, hv', ih hmembers]
        rfl

/-- A braced list of values that the library holds makes one. -/
theorem kept_ofMembers {kvs : List (String × Json)} (h : ∀ kv ∈ kvs, kv.2.kept = true) :
    (ofMembers kvs).kept = true := by
  have hset : ∀ members : List (Bytes × Json), sortedKeys members = true →
      keptMembers members = true →
      sortedKeys (setMembers kvs members) = true ∧ keptMembers (setMembers kvs members) = true := by
    induction kvs with
    | nil => exact fun _ hsorted hk => ⟨hsorted, hk⟩
    | cons kv kvs ih =>
      obtain ⟨hv, hkvs⟩ := List.forall_mem_cons.mp h
      exact fun members hsorted hk =>
        ih hkvs _ (sortedKeys_setMember hsorted) (keptMembers_setMember hv hk)
  obtain ⟨hsorted, hk⟩ := hset [] rfl rfl
  rw [ofMembers, kept, hsorted, hk]
  rfl

theorem kept_arr {xs : List Json} (h : ∀ x ∈ xs, x.kept = true) : (arr xs).kept = true := by
  rw [kept]
  induction xs with
  | nil => rfl
  | cons x xs ih =>
    obtain ⟨hx, hxs⟩ := List.forall_mem_cons.mp h
    rw [keptItems, hx, ih hxs]
    rfl

theorem kept_int {i : Int} (hlow : -2 ^ 63 ≤ i) (hhigh : i < 2 ^ 64) : (int i).kept = true :=
  decide_eq_true ⟨hlow, hhigh⟩

theorem rereadItems_eq (xs : List Json) : rereadItems xs = xs.map reread := by
  induction xs with
  | nil => rfl
  | cons x xs ih => rw [rereadItems, ih, List.map_cons]

end Json
