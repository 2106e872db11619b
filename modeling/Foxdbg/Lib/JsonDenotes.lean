import Foxdbg.Lib.JsonGrammar
import Foxdbg.Lib.JsonReader
import Mathlib.Algebra.Group.Int.Defs

/-!
# Texts and the values they denote

`Denotes F t j`: the text `t`, with no white space between its tokens, is one of the value `j`.
`parse` reads it back (`Denotes.parse`). The strings are of ASCII characters that need no escape.
-/

namespace Json

/-- An ASCII character that needs no escape. -/
def isPlain (b : UInt8) : Bool := 0x20 ≤ b && b < 0x80 && b != 34 && b != 92

/-- A string that is its own text. -/
def Plain (t : Bytes) : Prop := t.all isPlain = true

instance (t : Bytes) : Decidable (Plain t) := inferInstanceAs (Decidable (_ = _))

inductive Denotes (F : FloatLib) : Bytes → Json → Prop
  | null : Denotes F (ascii "null") .null
  | bool (b : Bool) : Denotes F (ascii (if b then "true" else "false")) (.bool b)
  | number {t : Bytes} {j : Json} : scanNumber F t = some (.scalar j, []) → Denotes F t j
  | string {t : Bytes} : Plain t → Denotes F (quoted t) (.str t)
  | array (items : List (Bytes × Json)) : (∀ p ∈ items, Denotes F p.1 p.2) →
      Denotes F (arrayText (items.map (·.1))) (.arr (items.map (·.2)))
  | object (members : List (Bytes × Bytes × Json)) : (∀ m ∈ members, Plain m.1) →
      (∀ m ∈ members, Denotes F m.2.1 m.2.2) →
      Denotes F (objectText (members.map fun m => (quoted m.1, m.2.1)))
        (.obj (members.foldl (fun acc m => setMember m.1 m.2.2 acc) []))

variable {F : FloatLib} {t u : Bytes} {j : Json}

/-- A test of the keys of a list of members. -/
theorem plain_keys {members : List (Bytes × Bytes × Json)}
    (h : (members.all fun m => m.1.all isPlain) = true) : ∀ m ∈ members, Plain m.1 :=
  List.all_eq_true.mp h

/-! ## Tokens -/

theorem scanString_plain (h : Plain t) (u : Bytes) :
    ∀ fuel, t.length < fuel → scanString fuel (t ++ 34 :: u) = some (t, u) := by
  induction t with
  | nil =>
    intro fuel hfuel
    obtain ⟨fuel, rfl⟩ := Nat.exists_eq_add_of_le' hfuel
    rfl
  | cons b t ih =>
    intro fuel hfuel
    obtain ⟨fuel, rfl⟩ := Nat.exists_eq_add_of_le' (Nat.one_le_of_lt hfuel)
    rw [Plain, List.all_cons, Bool.and_eq_true] at h
    obtain ⟨hb, ht⟩ := h
    simp only [isPlain, Bool.and_eq_true, decide_eq_true_eq, bne_iff_ne, ne_eq] at hb
    obtain ⟨⟨⟨hlow, hhigh⟩, hquote⟩, hslash⟩ := hb
    have hrest := ih ht fuel (by rw [List.length_cons] at hfuel; omega)
    have hchar : scanChar b (t ++ 34 :: u) = some ([b], t ++ 34 :: u) := by
      rw [scanChar, if_neg hslash, if_neg (UInt8.not_lt.mpr hlow), tailRanges, if_pos hhigh]
      rfl
    rw [List.cons_append, scanString, if_neg hquote, hchar]
    simp [hrest]

theorem nextToken_quoted (h : Plain t) (u : Bytes) :
    nextToken F (quoted t ++ u) = (.string t, u) := by
  have hscan := scanString_plain h u ((t ++ 34 :: u).length + 1)
    (by rw [List.length_append]; omega)
  have htext : quoted t ++ u = 34 :: (t ++ 34 :: u) := by simp [quoted]
  have hskip : skipWhitespace (34 :: (t ++ 34 :: u)) = 34 :: (t ++ 34 :: u) := rfl
  rw [htext]
  simp [nextToken, hskip, hscan, -List.length_append]

theorem nextToken_number (h : scanNumber F t = some (.scalar j, [])) (hu : Stops u) :
    nextToken F (t ++ u) = (.scalar j, u) := by
  obtain ⟨c, t, rfl, hc⟩ := scanNumber_head h
  obtain ⟨t', ht, -, hall⟩ := scanNumber_split h
  rw [List.append_nil] at ht
  subst ht
  have hskip : skipWhitespace (c :: t ++ u) = c :: (t ++ u) := by
    rw [List.cons_append, skipWhitespace, if_neg]
    simp only [not_or]
    exact ⟨ne_of_number hc rfl, ne_of_number hc rfl, ne_of_number hc rfl, ne_of_number hc rfl⟩
  rw [nextToken_of_number hskip hc, ← List.cons_append, hall u (.inl hu)]
  rfl

/-! ## Values -/

/-- At the text of a value, the machine reads the value. -/
def ReadsAs (F : FloatLib) (t : Bytes) (j : Json) : Prop :=
  ∀ st u, Stops u → Parser.Reads F (.value, st) (t ++ u) (Parser.complete j st) u

namespace Parser

variable {st : List Frame}

theorem Reads.single {s s' : State} {bs r : Bytes} {tok : Token} (h : nextToken F bs = (tok, r))
    (hs : step s tok = some s') : Reads F s bs s' r := .token h hs .refl

/-- After `[`, a value is read like one in an array. -/
theorem Reads.of_value {bs r : Bytes} {j : Json}
    (h : Reads F (.value, .array [] :: st) bs (complete j st) r) :
    Reads F (.arrayStart, st) bs (complete j st) r := by
  generalize hs : complete j st = s at h
  cases h with
  | refl => exact absurd (congrArg Prod.fst hs) (complete_ne j st)
  | token ht hstep hrest =>
    refine .token ht ?_ hrest
    revert hstep
    rename_i tok
    cases tok <;> first | exact id | nofun

/-- The items of an array up to its end. -/
theorem reads_items {items : List (Bytes × Json)} (hne : items ≠ [])
    (h : ∀ p ∈ items, ReadsAs F p.1 p.2) (acc : List Json) (u : Bytes) :
    Reads F (.value, .array acc :: st) (commaSeparated (items.map (·.1)) ++ 93 :: u)
      (complete (.arr (acc ++ items.map (·.2))) st) u := by
  induction items generalizing acc with
  | nil => exact absurd rfl hne
  | cons p items ih =>
    obtain ⟨hp, hitems⟩ := List.forall_mem_cons.mp h
    rw [List.map_cons, List.map_cons, commaSeparated_cons, List.isEmpty_map, List.append_assoc]
    cases items with
    | nil =>
      have hend : Stops (93 :: u) := by
        intro c hc
        cases hc
        decide
      exact (hp _ _ hend).trans (.single rfl rfl)
    | cons q items =>
      have hmore : Stops (44 :: (commaSeparated ((q :: items).map (·.1)) ++ 93 :: u)) := by
        intro c hc
        cases hc
        decide
      have hrest := ih (List.cons_ne_nil _ _) hitems (acc ++ [p.2])
      rw [List.append_assoc] at hrest
      exact ((hp _ _ hmore).trans (.single rfl rfl)).trans hrest

/-- The members of an object up to its end, from a state in which a key may follow; `text` is how
the keys are written. -/
theorem reads_members {text : Bytes → Bytes} {members : List (Bytes × Bytes × Json)}
    (hne : members ≠ [])
    (hkeys : ∀ m ∈ members, ∀ u, nextToken F (quoted (text m.1) ++ u) = (.string m.1, u))
    (h : ∀ m ∈ members, ReadsAs F m.2.1 m.2.2)
    (acc : List (Bytes × Json)) (u : Bytes) {s : State}
    (hs : ∀ k, step s (.string k) = some (.key acc k, st)) :
    Reads F s
      (commaSeparated (members.map fun m => quoted (text m.1) ++ 58 :: m.2.1) ++ 125 :: u)
      (complete (.obj (members.foldl (fun acc m => setMember m.1 m.2.2 acc) acc)) st) u := by
  induction members generalizing acc s with
  | nil => exact absurd rfl hne
  | cons m members ih =>
    obtain ⟨hkey, hkeys⟩ := List.forall_mem_cons.mp hkeys
    obtain ⟨hm, hmembers⟩ := List.forall_mem_cons.mp h
    rw [List.map_cons, commaSeparated_cons, List.isEmpty_map, List.append_assoc, List.append_assoc,
      List.foldl_cons]
    refine .token (hkey _) (hs m.1) (.token rfl rfl ?_)
    cases members with
    | nil =>
      have hend : Stops (125 :: u) := by
        intro c hc
        cases hc
        decide
      exact (hm _ _ hend).trans (.single rfl rfl)
    | cons m' members =>
      have hmore : Stops (44 :: (commaSeparated
          ((m' :: members).map fun m => quoted (text m.1) ++ 58 :: m.2.1) ++ 125 :: u)) := by
        intro c hc
        cases hc
        decide
      have hrest := ih (List.cons_ne_nil _ _) hkeys hmembers (setMember m.1 m.2.2 acc)
        (s := (.nextKey _, st)) fun _ => rfl
      exact ((hm _ _ hmore).trans (.single rfl rfl)).trans hrest

end Parser

/-- The text of an array is read as the array. -/
theorem ReadsAs.array (items : List (Bytes × Json)) (h : ∀ p ∈ items, ReadsAs F p.1 p.2) :
    ReadsAs F (arrayText (items.map (·.1))) (.arr (items.map (·.2))) := by
  intro st u _
  rw [arrayText, List.append_assoc]
  refine .token rfl rfl ?_
  by_cases hne : items = []
  · subst hne
    exact .single rfl rfl
  · exact (Parser.reads_items hne h [] u).of_value

/-- The text of an object is read as the object; `text` is how the keys are written. -/
theorem ReadsAs.object (text : Bytes → Bytes) (members : List (Bytes × Bytes × Json))
    (hkeys : ∀ m ∈ members, ∀ u, nextToken F (quoted (text m.1) ++ u) = (.string m.1, u))
    (h : ∀ m ∈ members, ReadsAs F m.2.1 m.2.2) :
    ReadsAs F (objectText (members.map fun m => (quoted (text m.1), m.2.1)))
      (.obj (members.foldl (fun acc m => setMember m.1 m.2.2 acc) [])) := by
  intro st u _
  rw [objectText, List.append_assoc, List.map_map]
  refine .token rfl rfl ?_
  by_cases hne : members = []
  · subst hne
    exact .single rfl rfl
  · exact Parser.reads_members hne hkeys h [] u fun _ => rfl

/-- The machine reads a value from each of its texts. -/
theorem Denotes.readsAs (h : Denotes F t j) : ReadsAs F t j := by
  induction h with
  | null => exact fun _ u _ => .single rfl rfl
  | bool b => exact fun _ u _ => by cases b <;> exact .single rfl rfl
  | number h => exact fun _ u hu => .single (nextToken_number h hu) rfl
  | string h => exact fun _ u _ => .single (nextToken_quoted h u) rfl
  | array items _ ih => exact .array items ih
  | object members hkeys _ ih =>
    exact .object id members (fun m hm => nextToken_quoted (hkeys m hm)) ih

/-- The whole text of a value is read as the value. -/
theorem ReadsAs.parse (h : ReadsAs F t j) : parse F t = some j := by
  have hreads := h [] [] nofun
  rw [List.append_nil] at hreads
  have hbom : skipBom t = some t := by
    -- no token starts with the byte order mark
    have hmark : ∀ r, t ≠ 0xEF :: r := by
      rintro r rfl
      cases hreads with
      | token ht hs _ =>
        cases ht
        cases hs
    unfold skipBom
    split
    · exact absurd rfl (hmark _)
    · exact absurd rfl (hmark _)
    · rfl
  exact parse_eq_some_iff.mpr ⟨t, [], [], hbom, hreads, rfl⟩

/-- `parse` reads the text of a value back. -/
theorem Denotes.parse (h : Denotes F t j) : parse F t = some j := h.readsAs.parse

/-! ## Numbers -/

/-- `u` does not go on with digits. -/
def EndsDigits (u : Bytes) : Prop := ∀ c, u.head? = some c → isDigit c = false

theorem scanDigits_of_isDigits (h : IsDigits t) (hu : EndsDigits u) :
    scanDigits (t ++ u) = some (t, u) := scanDigits_eq_some.mpr ⟨h.1, span_append h.2 hu⟩

theorem scanInteger_of_isInteger (h : IsInteger t) (hu : EndsDigits u) :
    scanInteger (t ++ u) = some (t, u) := by
  obtain ⟨⟨hne, hdigits⟩, hzero⟩ := h
  obtain ⟨c, t, rfl⟩ := List.exists_cons_of_ne_nil hne
  rw [List.cons_append, scanInteger]
  split
  · rename_i hc
    rw [hc] at hzero
    obtain ⟨-, rfl⟩ := List.cons.inj (hzero rfl)
    rfl
  · rw [if_pos (hdigits c List.mem_cons_self), ← List.cons_append, span_append hdigits hu]

theorem scanFraction_of_isFraction (h : IsFraction t) (hu : EndsDigits u)
    (hpoint : ∀ c, u.head? = some c → c ≠ 46) : scanFraction (t ++ u) = some (t, u) := by
  obtain rfl | ⟨ds, rfl, hds⟩ := h
  · exact scanFraction_of_head hpoint
  · rw [List.cons_append, scanFraction, scanDigits_of_isDigits hds hu]
    rfl

theorem scanExponent_of_isExponent (h : IsExponent t) : scanExponent t = some (t, []) := by
  obtain rfl | ⟨e, sign, ds, rfl, he, hsign, hds⟩ := h
  · rfl
  have hscan := scanDigits_of_isDigits hds (u := []) nofun
  rw [List.append_nil] at hscan
  obtain rfl | hsign := hsign
  · obtain ⟨hne, hdigits⟩ := hds
    obtain ⟨d, ds, rfl⟩ := List.exists_cons_of_ne_nil hne
    have hd : ¬ (d = 43 ∨ d = 45) := by
      rintro (rfl | rfl) <;> exact absurd (hdigits _ List.mem_cons_self) (by decide)
    rw [List.nil_append, scanExponent, if_pos he]
    dsimp only
    rw [if_neg hd, hscan]
    rfl
  · obtain ⟨c, rfl, hc⟩ : ∃ c, sign = [c] ∧ (c = 43 ∨ c = 45) := by
      rcases hsign with rfl | rfl
      · exact ⟨43, rfl, .inl rfl⟩
      · exact ⟨45, rfl, .inr rfl⟩
    rw [List.singleton_append, scanExponent, if_pos he]
    dsimp only
    rw [if_pos hc, hscan]
    rfl

/-- A number of the grammar is read whole. -/
theorem scanNumber_of_parts {sign integer fraction exponent : Bytes}
    (hsign : sign = [] ∨ sign = [45]) (hinteger : IsInteger integer)
    (hfraction : IsFraction fraction) (hexponent : IsExponent exponent) :
    scanNumber F (sign ++ integer ++ fraction ++ exponent) =
      some (numberToken F sign integer fraction exponent, []) := by
  have hheadExp : ∀ c, exponent.head? = some c → c = 101 ∨ c = 69 := by
    obtain rfl | ⟨e, sign, ds, rfl, he, -⟩ := hexponent
    · nofun
    · rintro c hc
      cases hc
      exact he
  have hendExp : EndsDigits exponent := by
    intro c hc
    rcases hheadExp c hc with rfl | rfl <;> decide
  have hendFrac : EndsDigits (fraction ++ exponent) := by
    obtain rfl | ⟨ds, rfl, -⟩ := hfraction
    · exact hendExp
    · rintro c hc
      cases hc
      decide
  have hsplit : splitSign (sign ++ integer ++ fraction ++ exponent) =
      (sign, integer ++ (fraction ++ exponent)) := by
    rw [List.append_assoc, List.append_assoc]
    obtain rfl | rfl := hsign
    · obtain ⟨⟨hne, hdigits⟩, -⟩ := hinteger
      obtain ⟨d, ds, rfl⟩ := List.exists_cons_of_ne_nil hne
      unfold splitSign
      split
      · rename_i heq
        obtain rfl : d = 45 := (List.cons.inj heq).1
        exact absurd (hdigits 45 List.mem_cons_self) (by decide)
      · rfl
    · rfl
  refine scanNumber_eq_some.mpr
    ⟨integer, fraction ++ exponent, fraction, exponent, exponent, ?_, ?_, ?_, ?_⟩
  · rw [hsplit]
    exact scanInteger_of_isInteger hinteger hendFrac
  · refine scanFraction_of_isFraction hfraction hendExp fun c hc => ?_
    rcases hheadExp c hc with rfl | rfl <;> decide
  · exact scanExponent_of_isExponent hexponent
  · rw [hsplit]

/-- A natural number of 64 bits. -/
theorem denotes_natural (h : IsInteger t) (hlt : digitsValue t < 2 ^ 64) :
    Denotes F t (.int (digitsValue t)) := by
  have hscan := scanNumber_of_parts (F := F) (.inl rfl) h (.inl rfl) (.inl rfl)
  have htoken : numberToken F [] t [] [] = .scalar (.int (digitsValue t)) := if_pos hlt
  rw [htoken] at hscan
  simpa using Denotes.number hscan

/-- A negative number of 64 bits. -/
theorem denotes_negative (h : IsInteger t) (hle : digitsValue t ≤ 2 ^ 63) :
    Denotes F (45 :: t) (.int (-digitsValue t)) := by
  have hscan := scanNumber_of_parts (F := F) (.inr rfl) h (.inl rfl) (.inl rfl)
  have htoken : numberToken F [45] t [] [] = .scalar (.int (-digitsValue t)) := if_pos hle
  rw [htoken] at hscan
  simpa using Denotes.number hscan

theorem digitsValue_decimalFuel {fuel n : Nat} (h : n < fuel) :
    digitsValue (decimalFuel fuel n) = n := by
  have hdigit : ∀ d < 10, digitsValue [(48 + d).toUInt8] = d := by decide
  induction fuel generalizing n with
  | zero => omega
  | succ fuel ih =>
    unfold decimalFuel
    split
    · exact hdigit n ‹_›
    · have hlast := hdigit (n % 10) (Nat.mod_lt _ (by decide))
      have hfront := ih (n := n / 10) (by omega)
      simp only [digitsValue, List.foldl_append, List.foldl_cons, List.foldl_nil] at *
      omega

/-- An integer that fits a 64-bit type. -/
theorem denotes_dumpInteger {i : Int} (hlow : -2 ^ 63 ≤ i) (hhigh : i < 2 ^ 64) :
    Denotes F (dumpInteger i) (.int i) := by
  have hvalue : digitsValue (decimal i.natAbs) = i.natAbs :=
    digitsValue_decimalFuel (Nat.lt_succ_self _)
  unfold dumpInteger
  split
  · have hden := denotes_negative (F := F) (isInteger_decimal i.natAbs) (by omega)
    rwa [hvalue, show -(i.natAbs : Int) = i by omega] at hden
  · have hden := denotes_natural (F := F) (isInteger_decimal i.natAbs) (by omega)
    rwa [hvalue, show (i.natAbs : Int) = i by omega] at hden

theorem denotes_int32 (i : Int32) : Denotes F (dumpInteger i.toInt) (.int i.toInt) := by
  have hlow := i.le_toInt
  have hhigh := i.toInt_lt
  exact denotes_dumpInteger (by omega) (by omega)

/-- A number is read as one, if the double that its text denotes is finite. -/
theorem exists_denotes_number (h : IsNumber t) (hfinite : isFinite (F.strtod t) = true) :
    ∃ j, j.isNumber = true ∧ Denotes F t j := by
  obtain ⟨sign, integer, fraction, exponent, rfl, hsign, hinteger, hfraction, hexponent⟩ := h
  have hscan := scanNumber_of_parts (F := F) hsign hinteger hfraction hexponent
  suffices htoken : ∃ j, j.isNumber = true ∧
      numberToken F sign integer fraction exponent = .scalar j by
    obtain ⟨j, hj, htoken⟩ := htoken
    rw [htoken] at hscan
    exact ⟨j, hj, .number hscan⟩
  have hfloat : floatToken F (sign ++ integer ++ fraction ++ exponent) =
      .scalar (.float (F.strtod (sign ++ integer ++ fraction ++ exponent))) := if_pos hfinite
  unfold numberToken
  split
  · rename_i hempty
    simp only [Bool.and_eq_true, List.isEmpty_iff] at hempty
    obtain ⟨rfl, rfl⟩ := hempty
    rw [List.append_nil, List.append_nil] at hfloat
    split
    · rename_i hnil
      rw [List.isEmpty_iff.mp hnil, List.nil_append] at hfloat
      split
      · exact ⟨_, rfl, rfl⟩
      · exact ⟨_, rfl, hfloat⟩
    · split
      · exact ⟨_, rfl, rfl⟩
      · exact ⟨_, rfl, hfloat⟩
  · exact ⟨_, rfl, hfloat⟩

/-! ## Writing -/

theorem escapeFrom_plain (h : Plain t) (codep : Nat) : escapeFrom 0 codep t = some t := by
  have hplain : ∀ b : UInt8, isPlain b = true →
      (decode 0 0 b).1 = 0 ∧ escape (decode 0 0 b).2 b = [b] :=
    forall_byte (by decide +kernel)
  induction t generalizing codep with
  | nil => rfl
  | cons b t ih =>
    rw [Plain, List.all_cons, Bool.and_eq_true] at h
    obtain ⟨hstate, hescape⟩ := hplain b h.1
    -- the code point so far plays no part in the first state
    have hdecode : decode 0 codep b = decode 0 0 b := rfl
    rw [escapeFrom, hdecode]
    simp only [hstate, if_true, ih h.2, hescape, Option.map_some, List.singleton_append]

/-- A plain string is written as it is. -/
theorem dump_str (h : Plain t) : dump F (.str t) = some (quoted t) := by
  rw [dump, dumpEscaped, escapeFrom_plain h]
  rfl

theorem dumpMembers_eq {members : List (Bytes × Bytes × Json)} (hkeys : ∀ m ∈ members, Plain m.1)
    (h : ∀ m ∈ members, dump F m.2.2 = some m.2.1) :
    dumpMembers F (members.map fun m => (m.1, m.2.2)) =
      some (commaSeparated (members.map fun m => quoted m.1 ++ 58 :: m.2.1)) := by
  induction members with
  | nil => rfl
  | cons m members ih =>
    obtain ⟨hkey, hkeys⟩ := List.forall_mem_cons.mp hkeys
    obtain ⟨hm, hmembers⟩ := List.forall_mem_cons.mp h
    have hmember : dumpMember F (m.1, m.2.2) = some (quoted m.1 ++ 58 :: m.2.1) := by
      rw [dumpMember, dumpEscaped, escapeFrom_plain hkey, hm]
      rfl
    rw [List.map_cons, dumpMembers, hmember, ih hkeys hmembers, List.map_cons, commaSeparated_cons]
    simp

/-- An object with plain keys is written member by member. -/
theorem dump_obj (members : List (Bytes × Bytes × Json)) (hkeys : ∀ m ∈ members, Plain m.1)
    (h : ∀ m ∈ members, dump F m.2.2 = some m.2.1) :
    dump F (.obj (members.map fun m => (m.1, m.2.2))) =
      some (objectText (members.map fun m => (quoted m.1, m.2.1))) := by
  rw [dump, dumpMembers_eq hkeys h, objectText, List.map_map]
  rfl

/-- `t` is what `dump` writes for the value, and denotes it. -/
def Writes (F : FloatLib) (j : Json) (t : Bytes) : Prop := dump F j = some t ∧ Denotes F t j

theorem writes_lit {s : String} (h : Plain (ascii s)) : Writes F (lit s) (quoted (ascii s)) :=
  ⟨dump_str h, .string h⟩

/-- An object with plain keys in their order. -/
theorem writes_obj (members : List (Bytes × Bytes × Json)) (hkeys : ∀ m ∈ members, Plain m.1)
    (hsorted : members.foldl (fun acc m => setMember m.1 m.2.2 acc) [] =
      members.map fun m => (m.1, m.2.2))
    (h : ∀ m ∈ members, Writes F m.2.2 m.2.1) :
    Writes F (.obj (members.map fun m => (m.1, m.2.2)))
      (objectText (members.map fun m => (quoted m.1, m.2.1))) := by
  have hden := Denotes.object members hkeys fun m hm => (h m hm).2
  rw [hsorted] at hden
  exact ⟨dump_obj members hkeys fun m hm => (h m hm).1, hden⟩

end Json
