import Foxdbg.Lib.JsonText
import Mathlib.Data.List.TakeDrop
import Mathlib.Data.List.TakeWhile

/-!
# The scanners of JSON text

What the lexer takes of the bytes. The result of a scanner depends on the bytes that it takes and on
no others: `Takes` for the parts of a string, and one `_split` lemma for each longer scanner up to
`nextToken_split`, which is about a token. A number alone needs a byte after it that does not go on
with it (`Replaces`).
-/

namespace Json

/-! ## Scanners -/

/-- The bytes that a scanner takes: the others do not matter to it. -/
def Takes {α : Type} (f : Bytes → Option (α × Bytes)) (x : α) (bs r : Bytes) : Prop :=
  ∃ t, bs = t ++ r ∧ ∀ u, f (t ++ u) = some (x, u)

variable {bs r u : Bytes}

theorem takes_getCodepoint {n : Nat} (h : getCodepoint bs = some (n, r)) :
    Takes getCodepoint n bs r := by
  unfold getCodepoint at h
  split at h
  · rename_i a b c d r'
    simp only [Option.bind_eq_bind, Option.bind_eq_some_iff, Option.pure_def, Option.some.injEq,
      Prod.mk.injEq] at h
    obtain ⟨x, ha, y, hb, z, hc, w, hd, rfl, rfl⟩ := h
    refine ⟨[a, b, c, d], rfl, fun u => ?_⟩
    simp [getCodepoint, ha, hb, hc, hd]
  · cases h

theorem takes_scanUnicode {s : Bytes} (h : scanUnicode bs = some (s, r)) :
    Takes scanUnicode s bs r := by
  simp only [scanUnicode, Option.bind_eq_bind, Option.bind_eq_some_iff, Prod.exists] at h
  obtain ⟨c, r₁, hc, h⟩ := h
  obtain ⟨t₁, rfl, ht₁⟩ := takes_getCodepoint hc
  split at h
  · rename_i hhigh
    split at h
    · rename_i r₂
      simp only [Option.bind_eq_some_iff, Prod.exists] at h
      obtain ⟨c', r₃, hc', h⟩ := h
      obtain ⟨t₂, rfl, ht₂⟩ := takes_getCodepoint hc'
      split at h
      · rename_i hlow
        simp only [Option.some.injEq, Prod.mk.injEq] at h
        obtain ⟨rfl, rfl⟩ := h
        refine ⟨t₁ ++ 92 :: 117 :: t₂, by simp, fun u => ?_⟩
        simp [scanUnicode, ht₁, ht₂, hhigh, hlow]
      · cases h
    · cases h
  · rename_i hhigh
    split at h
    · cases h
    · rename_i hlow
      cases h
      refine ⟨t₁, rfl, fun u => ?_⟩
      simp [scanUnicode, ht₁, hhigh, hlow]

theorem takes_scanEscape {s : Bytes} (h : scanEscape bs = some (s, r)) :
    Takes scanEscape s bs r := by
  cases bs with
  | nil => cases h
  | cons e bs =>
    -- an escape of one letter takes the letter only
    by_cases hu : e = 117
    · subst hu
      obtain ⟨t, rfl, ht⟩ := takes_scanUnicode (show scanUnicode bs = some (s, r) from h)
      exact ⟨117 :: t, rfl, ht⟩
    · have hrest : bs = r ∧ ∀ u, scanEscape (e :: u) = some (s, u) := by
        unfold scanEscape at h ⊢
        simp only [if_neg hu] at h ⊢
        split_ifs at h ⊢ <;> cases h <;> exact ⟨rfl, fun _ => rfl⟩
      obtain ⟨rfl, hall⟩ := hrest
      exact ⟨[e], rfl, hall⟩

theorem takes_nextByteInRange {ranges : List (UInt8 × UInt8)} {s : Bytes}
    (h : nextByteInRange ranges bs = some (s, r)) :
    Takes (nextByteInRange ranges) s bs r := by
  induction ranges generalizing bs s with
  | nil =>
    cases h
    exact ⟨[], rfl, fun _ => rfl⟩
  | cons range ranges ih =>
    obtain ⟨lo, hi⟩ := range
    cases bs with
    | nil => cases h
    | cons b bs =>
      simp only [nextByteInRange] at h
      split at h
      · rename_i hb
        obtain ⟨⟨s', r'⟩, hrest, heq⟩ := Option.map_eq_some_iff.mp h
        cases heq
        obtain ⟨t, rfl, ht⟩ := ih hrest
        refine ⟨b :: t, rfl, fun u => ?_⟩
        simp [nextByteInRange, hb, ht]
      · cases h

theorem takes_scanChar {c : UInt8} {s : Bytes} (h : scanChar c bs = some (s, r)) :
    Takes (scanChar c) s bs r := by
  unfold scanChar at h
  split at h
  · rename_i hc
    obtain ⟨t, rfl, ht⟩ := takes_scanEscape h
    exact ⟨t, rfl, fun u => by rw [scanChar, if_pos hc, ht]⟩
  · rename_i hc
    split at h
    · cases h
    · rename_i hcontrol
      simp only [Option.bind_eq_bind, Option.bind_eq_some_iff, Option.pure_def, Option.some.injEq,
        Prod.exists, Prod.mk.injEq] at h
      obtain ⟨ranges, hranges, s', r', hrest, rfl, rfl⟩ := h
      obtain ⟨t, rfl, ht⟩ := takes_nextByteInRange hrest
      refine ⟨t, rfl, fun u => ?_⟩
      simp [scanChar, hc, hcontrol, hranges, ht]

/-- A string ends with its quotation mark, whatever comes after it; any fuel above the number of
its bytes does. -/
theorem scanString_split {fuel : Nat} {s : Bytes} (h : scanString fuel bs = some (s, r)) :
    ∃ t, bs = t ++ r ∧ t ≠ [] ∧
      ∀ fuel' u, t.length ≤ fuel' → scanString fuel' (t ++ u) = some (s, u) := by
  induction fuel generalizing bs s with
  | zero => cases h
  | succ fuel ih =>
    cases bs with
    | nil => cases h
    | cons c bs =>
      simp only [scanString] at h
      split at h
      · rename_i hc
        cases h
        refine ⟨[c], rfl, List.cons_ne_nil _ _, fun fuel' u hfuel => ?_⟩
        obtain ⟨fuel', rfl⟩ := Nat.exists_eq_add_of_le' hfuel
        simp [scanString, hc]
      · rename_i hc
        simp only [Option.bind_eq_bind, Option.bind_eq_some_iff, Option.pure_def,
          Option.some.injEq, Prod.exists, Prod.mk.injEq] at h
        obtain ⟨s₁, r₁, hchar, s₂, r₂, hrest, rfl, rfl⟩ := h
        obtain ⟨t₁, rfl, ht₁⟩ := takes_scanChar hchar
        obtain ⟨t₂, rfl, -, ht₂⟩ := ih hrest
        refine ⟨c :: (t₁ ++ t₂), by simp, List.cons_ne_nil _ _, fun fuel' u hfuel => ?_⟩
        rw [List.length_cons, List.length_append] at hfuel
        obtain ⟨fuel', rfl⟩ := Nat.exists_eq_add_of_le' (Nat.le_of_add_left_le hfuel)
        simp [scanString, hc, ht₁, List.append_assoc, ht₂ fuel' u (by omega)]

/-! ## Numbers -/

/-- The bytes do not go on with a number. -/
def Stops (u : Bytes) : Prop :=
  ∀ c, u.head? = some c → isDigit c = false ∧ c ≠ 46 ∧ c ≠ 101 ∧ c ≠ 69

/-- After a number, `u` is as good as `r`. -/
def Replaces (r u : Bytes) : Prop := Stops u ∨ u.head? = r.head?

theorem Replaces.append (h : Replaces r u) (t : Bytes) : Replaces (t ++ r) (t ++ u) := by
  cases t with
  | nil => exact h
  | cons => exact .inr rfl

/-- If `r` does not start with a byte of a kind that numbers have, neither does `u`. -/
theorem Replaces.head {p : UInt8 → Prop} (h : Replaces r u)
    (hp : ∀ c, isDigit c = false ∧ c ≠ 46 ∧ c ≠ 101 ∧ c ≠ 69 → p c)
    (hr : ∀ c, r.head? = some c → p c) : ∀ c, u.head? = some c → p c := by
  intro c hc
  rcases h with h | h
  · exact hp c (h c hc)
  · exact hr c (h ▸ hc)

theorem span_isDigit {ds : Bytes} (h : bs.span isDigit = (ds, r)) :
    bs = ds ++ r ∧ (∀ b ∈ ds, isDigit b = true) ∧
      ∀ c, r.head? = some c → isDigit c = false := by
  rw [List.span_eq_takeWhile_dropWhile, Prod.mk.injEq] at h
  obtain ⟨rfl, rfl⟩ := h
  refine ⟨List.takeWhile_append_dropWhile.symm, fun b hb => ?_, fun c hc => ?_⟩
  · exact List.mem_takeWhile_imp hb
  · have hnot := List.head?_dropWhile_not isDigit bs
    rw [hc] at hnot
    simpa using hnot

/-- Digits up to a byte that is none. -/
theorem span_append {ds : Bytes} (hds : ∀ b ∈ ds, isDigit b = true)
    (hu : ∀ c, u.head? = some c → isDigit c = false) : (ds ++ u).span isDigit = (ds, u) := by
  have hstop : u.takeWhile isDigit = [] ∧ u.dropWhile isDigit = u := by
    cases u with
    | nil => exact ⟨rfl, rfl⟩
    | cons c u => simp [hu c rfl]
  rw [List.span_eq_takeWhile_dropWhile, List.takeWhile_append_of_pos hds,
    List.dropWhile_append_of_pos hds, hstop.1, hstop.2, List.append_nil]

theorem scanDigits_eq_some {ds : Bytes} :
    scanDigits bs = some (ds, r) ↔ ds ≠ [] ∧ bs.span isDigit = (ds, r) := by
  unfold scanDigits
  generalize bs.span isDigit = p
  obtain ⟨ds', r'⟩ := p
  cases ds' with
  | nil => simp +contextual [eq_comm]
  | cons => simp +contextual [eq_comm]

theorem scanDigits_split {ds : Bytes} (h : scanDigits bs = some (ds, r)) :
    bs = ds ++ r ∧ ∀ u, Replaces r u → scanDigits (ds ++ u) = some (ds, u) := by
  obtain ⟨hne, hspan⟩ := scanDigits_eq_some.mp h
  obtain ⟨hbs, hds, hr⟩ := span_isDigit hspan
  exact ⟨hbs, fun u hu =>
    scanDigits_eq_some.mpr ⟨hne, span_append hds (hu.head (fun _ hc => hc.1) hr)⟩⟩

theorem scanInteger_split {ds : Bytes} (h : scanInteger bs = some (ds, r)) :
    bs = ds ++ r ∧ ds ≠ [] ∧ ∀ u, Replaces r u → scanInteger (ds ++ u) = some (ds, u) := by
  cases bs with
  | nil => cases h
  | cons c bs =>
    simp only [scanInteger] at h
    split at h
    · rename_i hc
      cases h
      exact ⟨rfl, List.cons_ne_nil _ _, fun u _ => by simp [scanInteger, hc]⟩
    · rename_i hc
      split at h
      · rename_i hdigit
        obtain ⟨hbs, hds, hr⟩ := span_isDigit (Option.some.inj h)
        cases ds with
        | nil =>
          have hfalse := hr c (by rw [← List.nil_append r, ← hbs]; rfl)
          rw [hdigit] at hfalse
          cases hfalse
        | cons d ds =>
          obtain ⟨rfl, -⟩ := List.cons.inj hbs
          refine ⟨hbs, List.cons_ne_nil _ _, fun u hu => ?_⟩
          have hspan := span_append hds (hu.head (fun _ hc => hc.1) hr)
          rw [List.cons_append] at hspan ⊢
          rw [scanInteger, if_neg hc, if_pos hdigit, hspan]
      · cases h

theorem scanFraction_of_head (h : ∀ c, u.head? = some c → c ≠ 46) :
    scanFraction u = some ([], u) := by
  unfold scanFraction
  split
  · exact absurd rfl (h 46 rfl)
  · rfl

theorem scanFraction_split {frac : Bytes} (h : scanFraction bs = some (frac, r)) :
    bs = frac ++ r ∧ ∀ u, Replaces r u → scanFraction (frac ++ u) = some (frac, u) := by
  unfold scanFraction at h
  split at h
  · rename_i bs'
    obtain ⟨⟨ds, r'⟩, hds, heq⟩ := Option.map_eq_some_iff.mp h
    cases heq
    obtain ⟨rfl, hall⟩ := scanDigits_split hds
    refine ⟨rfl, fun u hu => ?_⟩
    simp [scanFraction, hall u hu]
  · rename_i hhead
    cases h
    refine ⟨rfl, fun u hu => scanFraction_of_head (hu.head (fun _ hc => hc.2.1) fun c hc => ?_)⟩
    rintro rfl
    obtain ⟨bs', rfl⟩ := List.head?_eq_some_iff.mp hc
    exact hhead bs' rfl

theorem scanExponent_of_head (h : ∀ c, u.head? = some c → ¬ (c = 101 ∨ c = 69)) :
    scanExponent u = some ([], u) := by
  cases u with
  | nil => rfl
  | cons c u => exact if_neg (h c rfl)

theorem scanExponent_split {exp : Bytes} (h : scanExponent bs = some (exp, r)) :
    bs = exp ++ r ∧ ∀ u, Replaces r u → scanExponent (exp ++ u) = some (exp, u) := by
  cases bs with
  | nil =>
    cases h
    refine ⟨rfl, fun u hu => scanExponent_of_head (hu.head (fun _ hc => ?_) nofun)⟩
    exact not_or.mpr hc.2.2
  | cons e bs =>
    simp only [scanExponent] at h
    split at h
    · rename_i he
      cases bs with
      | nil => cases h
      | cons s bs =>
        simp only at h
        split at h
        · rename_i hs
          obtain ⟨⟨ds, r'⟩, hds, heq⟩ := Option.map_eq_some_iff.mp h
          cases heq
          obtain ⟨rfl, hall⟩ := scanDigits_split hds
          refine ⟨rfl, fun u hu => ?_⟩
          simp [scanExponent, he, hs, hall u hu]
        · rename_i hs
          obtain ⟨⟨ds, r'⟩, hds, heq⟩ := Option.map_eq_some_iff.mp h
          cases heq
          obtain ⟨hbs, hall⟩ := scanDigits_split hds
          obtain ⟨hne, -⟩ := scanDigits_eq_some.mp hds
          obtain ⟨d, ds, rfl⟩ := List.exists_cons_of_ne_nil hne
          obtain ⟨rfl, rfl⟩ := List.cons.inj hbs
          refine ⟨rfl, fun u hu => ?_⟩
          have hdigits := hall u hu
          rw [List.cons_append] at hdigits
          simp [scanExponent, he, hs, hdigits]
    · rename_i he
      cases h
      refine ⟨rfl, fun u hu => scanExponent_of_head (hu.head (fun _ hc => ?_) fun c hc => ?_)⟩
      · exact not_or.mpr hc.2.2
      · cases hc
        exact he

/-- The sign of a number and the bytes after it. -/
def splitSign : Bytes → Bytes × Bytes
  | 45 :: r => ([45], r)
  | r => ([], r)

/-- The token of a number with these parts. -/
def numberToken (F : FloatLib) (sign digits frac exp : Bytes) : Token :=
  if frac.isEmpty && exp.isEmpty then
    if sign.isEmpty then
      if digitsValue digits < 2 ^ 64 then .scalar (.int (digitsValue digits))
      else floatToken F digits
    else if digitsValue digits ≤ 2 ^ 63 then .scalar (.int (-digitsValue digits))
    else floatToken F (sign ++ digits)
  else floatToken F (sign ++ digits ++ frac ++ exp)

/-- A number of either kind. -/
def isNumber : Json → Bool
  | .int _ => true
  | .float _ => true
  | _ => false

variable {F : FloatLib} {tok : Token}

theorem floatToken_cases (F : FloatLib) (t : Bytes) :
    floatToken F t = .parseError ∨ ∃ j, j.isNumber = true ∧ floatToken F t = .scalar j := by
  unfold floatToken
  split
  · exact .inr ⟨_, rfl, rfl⟩
  · exact .inl rfl

theorem numberToken_cases (F : FloatLib) (sign digits frac exp : Bytes) :
    numberToken F sign digits frac exp = .parseError ∨
      ∃ j, j.isNumber = true ∧ numberToken F sign digits frac exp = .scalar j := by
  unfold numberToken
  split
  · split
    · split
      · exact .inr ⟨_, rfl, rfl⟩
      · exact floatToken_cases F _
    · split
      · exact .inr ⟨_, rfl, rfl⟩
      · exact floatToken_cases F _
  · exact floatToken_cases F _

/-- A number is its four parts, one after the other. -/
theorem scanNumber_eq_some : scanNumber F bs = some (tok, r) ↔
    ∃ digits r₁ frac r₂ exp, scanInteger (splitSign bs).2 = some (digits, r₁) ∧
      scanFraction r₁ = some (frac, r₂) ∧ scanExponent r₂ = some (exp, r) ∧
      tok = numberToken F (splitSign bs).1 digits frac exp := by
  have hparts : scanNumber F bs =
      (scanInteger (splitSign bs).2).bind fun p => (scanFraction p.2).bind fun q =>
        (scanExponent q.2).bind fun e =>
          some (numberToken F (splitSign bs).1 p.1 q.1 e.1, e.2) := by
    unfold scanNumber numberToken
    split
    rename_i sign r₀ hsign
    rw [show splitSign bs = (sign, r₀) from hsign]
    refine Option.bind_congr fun p _ => ?_
    refine Option.bind_congr fun q _ => ?_
    refine Option.bind_congr fun e _ => ?_
    dsimp only
    split_ifs <;> rfl
  rw [hparts]
  simp only [Option.bind_eq_some_iff, Option.some.injEq, Prod.exists, Prod.mk.injEq]
  constructor
  · rintro ⟨digits, r₁, hdigits, frac, r₂, hfrac, exp, r₃, hexp, rfl, rfl⟩
    exact ⟨digits, r₁, frac, r₂, exp, hdigits, hfrac, hexp, rfl⟩
  · rintro ⟨digits, r₁, frac, r₂, exp, hdigits, hfrac, hexp, rfl⟩
    exact ⟨digits, r₁, hdigits, frac, r₂, hfrac, exp, r, hexp, rfl, rfl⟩

/-- The sign of a text that goes on with a digit. -/
theorem splitSign_append {d : UInt8} {ds : Bytes} (h : (splitSign bs).2 = d :: ds) :
    bs = (splitSign bs).1 ++ d :: ds ∧
      ∀ u, splitSign ((splitSign bs).1 ++ d :: u) = ((splitSign bs).1, d :: u) := by
  unfold splitSign at h ⊢
  split at h
  · subst h
    exact ⟨rfl, fun _ => rfl⟩
  · rename_i hminus
    subst h
    refine ⟨rfl, fun u => ?_⟩
    split
    · rename_i heq
      obtain rfl : d = 45 := (List.cons.inj heq).1
      exact (hminus ds rfl).elim
    · rfl

/-- The token of a number. -/
theorem scanNumber_cases (h : scanNumber F bs = some (tok, r)) :
    tok = .parseError ∨ ∃ j, j.isNumber = true ∧ tok = .scalar j := by
  obtain ⟨digits, -, frac, -, exp, -, -, -, rfl⟩ := scanNumber_eq_some.mp h
  exact numberToken_cases F _ digits frac exp

/-- A number starts with a minus sign or a digit. -/
theorem scanNumber_head (h : scanNumber F bs = some (tok, r)) :
    ∃ c bs', bs = c :: bs' ∧ (c = 45 || isDigit c) = true := by
  obtain ⟨digits, r₁, -, -, -, hdigits, -, -, -⟩ := scanNumber_eq_some.mp h
  unfold splitSign at hdigits
  split at hdigits
  · exact ⟨45, _, rfl, rfl⟩
  · cases bs with
    | nil => cases hdigits
    | cons c bs' =>
      refine ⟨c, bs', rfl, ?_⟩
      simp only [scanInteger] at hdigits
      split at hdigits
      · rename_i hc
        subst hc
        rfl
      · split at hdigits
        · simp [*]
        · cases hdigits

/-- A number ends where no byte goes on with it. -/
theorem scanNumber_split (h : scanNumber F bs = some (tok, r)) :
    ∃ t, bs = t ++ r ∧ t ≠ [] ∧
      ∀ u, Replaces r u → scanNumber F (t ++ u) = some (tok, u) := by
  obtain ⟨digits, r₁, frac, r₂, exp, hdigits, hfrac, hexp, rfl⟩ := scanNumber_eq_some.mp h
  obtain ⟨hbs, hne, hall⟩ := scanInteger_split hdigits
  obtain ⟨rfl, hallFrac⟩ := scanFraction_split hfrac
  obtain ⟨rfl, hallExp⟩ := scanExponent_split hexp
  obtain ⟨d, ds, rfl⟩ := List.exists_cons_of_ne_nil hne
  obtain ⟨hsign, hallSign⟩ := splitSign_append hbs
  generalize (splitSign bs).1 = sign at *
  refine ⟨sign ++ (d :: ds ++ (frac ++ exp)), ?_, by simp, fun u hu => ?_⟩
  · rw [hsign]
    simp
  · have hsplit : splitSign (sign ++ (d :: ds ++ (frac ++ exp)) ++ u) =
        (sign, d :: ds ++ (frac ++ (exp ++ u))) := by
      simpa using hallSign (ds ++ (frac ++ (exp ++ u)))
    refine scanNumber_eq_some.mpr ⟨d :: ds, frac ++ (exp ++ u), frac, exp ++ u, exp, ?_, ?_, ?_, ?_⟩
    · rw [hsplit]
      exact hall _ ((hu.append exp).append frac)
    · exact hallFrac _ (hu.append exp)
    · exact hallExp _ hu
    · rw [hsplit]

/-! ## Tokens -/

/-- The white space in front of a byte. -/
theorem skipWhitespace_split {c : UInt8} (h : skipWhitespace bs = c :: r) :
    ∃ w, bs = w ++ c :: r ∧ ∀ u, skipWhitespace (w ++ c :: u) = c :: u := by
  induction bs with
  | nil => cases h
  | cons b bs ih =>
    simp only [skipWhitespace] at h
    split at h
    · rename_i hb
      obtain ⟨w, rfl, hw⟩ := ih h
      exact ⟨b :: w, rfl, fun u => by simp [skipWhitespace, hb, hw]⟩
    · rename_i hb
      obtain ⟨rfl, rfl⟩ := List.cons.inj h
      exact ⟨[], rfl, fun u => by simp [skipWhitespace, hb]⟩

theorem scanLiteral_split {text : String} {j : Json} (h : scanLiteral text j bs = (tok, r))
    (htok : tok ≠ .parseError) :
    tok = .scalar j ∧ ∃ t, bs = t ++ r ∧ ∀ u, scanLiteral text j (t ++ u) = (.scalar j, u) := by
  unfold scanLiteral at h
  split at h
  · rename_i hprefix
    cases h
    obtain ⟨r, rfl⟩ := hprefix
    refine ⟨rfl, ascii text, by rw [List.drop_left], fun u => ?_⟩
    rw [scanLiteral, if_pos (List.prefix_append _ _), List.drop_left]
  · cases h
    exact absurd rfl htok

/-- A token of the text: what comes after it does not matter, if it does not go on with a
number. -/
theorem nextToken_split (h : nextToken F bs = (tok, r)) (hend : tok ≠ .endOfInput)
    (herror : tok ≠ .parseError) :
    ∃ t, bs = t ++ r ∧ t ≠ [] ∧
      ∀ u, ((∃ j, tok = .scalar j) → Replaces r u) → nextToken F (t ++ u) = (tok, u) := by
  unfold nextToken at h
  split at h
  · cases h
    exact absurd rfl hend
  · rename_i c r₀ hskip
    obtain ⟨w, rfl, hw⟩ := skipWhitespace_split hskip
    -- the bytes of the token after its first one
    suffices hbody : ∃ t, r₀ = t ++ r ∧ ∀ u, ((∃ j, tok = .scalar j) → Replaces r u) →
        nextToken F (w ++ c :: (t ++ u)) = (tok, u) by
      obtain ⟨t, rfl, ht⟩ := hbody
      refine ⟨w ++ c :: t, by simp, by simp, fun u hu => ?_⟩
      rw [List.append_assoc, List.cons_append]
      exact ht u hu
    by_cases h91 : c = 91
    · rw [if_pos h91] at h
      cases h
      exact ⟨[], rfl, fun u _ => by rw [nextToken, hw]; simp [*]⟩
    rw [if_neg h91] at h
    by_cases h93 : c = 93
    · rw [if_pos h93] at h
      cases h
      exact ⟨[], rfl, fun u _ => by rw [nextToken, hw]; simp [*]⟩
    rw [if_neg h93] at h
    by_cases h123 : c = 123
    · rw [if_pos h123] at h
      cases h
      exact ⟨[], rfl, fun u _ => by rw [nextToken, hw]; simp [*]⟩
    rw [if_neg h123] at h
    by_cases h125 : c = 125
    · rw [if_pos h125] at h
      cases h
      exact ⟨[], rfl, fun u _ => by rw [nextToken, hw]; simp [*]⟩
    rw [if_neg h125] at h
    by_cases h58 : c = 58
    · rw [if_pos h58] at h
      cases h
      exact ⟨[], rfl, fun u _ => by rw [nextToken, hw]; simp [*]⟩
    rw [if_neg h58] at h
    by_cases h44 : c = 44
    · rw [if_pos h44] at h
      cases h
      exact ⟨[], rfl, fun u _ => by rw [nextToken, hw]; simp [*]⟩
    rw [if_neg h44] at h
    by_cases h116 : c = 116
    · rw [if_pos h116] at h
      obtain ⟨rfl, t, rfl, ht⟩ := scanLiteral_split h herror
      exact ⟨t, rfl, fun u _ => by rw [nextToken, hw]; simp [*]⟩
    rw [if_neg h116] at h
    by_cases h102 : c = 102
    · rw [if_pos h102] at h
      obtain ⟨rfl, t, rfl, ht⟩ := scanLiteral_split h herror
      exact ⟨t, rfl, fun u _ => by rw [nextToken, hw]; simp [*]⟩
    rw [if_neg h102] at h
    by_cases h110 : c = 110
    · rw [if_pos h110] at h
      obtain ⟨rfl, t, rfl, ht⟩ := scanLiteral_split h herror
      exact ⟨t, rfl, fun u _ => by rw [nextToken, hw]; simp [*]⟩
    rw [if_neg h110] at h
    by_cases h34 : c = 34
    · rw [if_pos h34] at h
      split at h
      · rename_i hstring
        cases h
        obtain ⟨t, rfl, -, ht⟩ := scanString_split hstring
        refine ⟨t, rfl, fun u _ => ?_⟩
        rw [nextToken, hw]
        simp [*, ht (t.length + u.length + 1) u (by omega)]
      · cases h
        exact absurd rfl herror
    rw [if_neg h34] at h
    by_cases hnum : (c = 45 || isDigit c) = true
    · rw [if_pos hnum] at h
      cases hnumber : scanNumber F (c :: r₀) with
      | none =>
        rw [hnumber] at h
        cases h
        exact absurd rfl herror
      | some p =>
        rw [hnumber] at h
        obtain ⟨t, hbs, hne, ht⟩ := scanNumber_split (hnumber.trans (congrArg some h))
        obtain ⟨d, t, rfl⟩ := List.exists_cons_of_ne_nil hne
        obtain ⟨rfl, rfl⟩ := List.cons.inj hbs
        refine ⟨t, rfl, fun u hu => ?_⟩
        obtain ⟨j, -, hscalar⟩ :=
          (scanNumber_cases (hnumber.trans (congrArg some h))).resolve_left herror
        have hnext := ht u (hu ⟨j, hscalar⟩)
        rw [List.cons_append] at hnext
        rw [nextToken, hw]
        simp [*]
    rw [if_neg hnum] at h
    by_cases h0 : c = 0
    · rw [if_pos h0] at h
      cases h
      exact absurd rfl hend
    · rw [if_neg h0] at h
      cases h
      exact absurd rfl herror

/-- A branch with another token in both places. -/
theorem ite_fst_ne {p : Prop} [Decidable p] {a b : Token × Bytes} (ha : a.1 ≠ tok)
    (hb : b.1 ≠ tok) : (if p then a else b).1 ≠ tok := by
  split
  · exact ha
  · exact hb

theorem scanLiteral_fst (text : String) (v : Json) (bs : Bytes) :
    (scanLiteral text v bs).1 = .parseError ∨ (scanLiteral text v bs).1 = .scalar v := by
  unfold scanLiteral
  split
  · exact .inr rfl
  · exact .inl rfl

theorem scanNumber_getD_fst (F : FloatLib) (bs : Bytes) :
    ((scanNumber F bs).getD (.parseError, [])).1 = .parseError ∨
      ∃ j, j.isNumber = true ∧ ((scanNumber F bs).getD (.parseError, [])).1 = .scalar j := by
  cases hscan : scanNumber F bs with
  | none => exact .inl rfl
  | some p =>
    obtain ⟨tok, r⟩ := p
    exact scanNumber_cases hscan

/-- The input ends with white space or a byte 0. -/
theorem nextToken_endOfInput (h : (nextToken F bs).1 = .endOfInput) :
    skipWhitespace bs = [] ∨ ∃ r, skipWhitespace bs = 0 :: r := by
  have hliteral : ∀ text j r, (scanLiteral text j r).1 ≠ .endOfInput := by
    intro text j r
    rcases scanLiteral_fst text j r with h | h <;> rw [h] <;> nofun
  have hnumber : ∀ bs, ((scanNumber F bs).getD (.parseError, [])).1 ≠ .endOfInput := by
    intro bs
    rcases scanNumber_getD_fst F bs with h | ⟨j, -, h⟩ <;> rw [h] <;> nofun
  unfold nextToken at h
  cases hskip : skipWhitespace bs with
  | nil => exact .inl rfl
  | cons c r =>
    by_cases hc : c = 0
    · exact .inr ⟨r, by rw [hc]⟩
    · simp only [hskip, if_neg hc] at h
      refine absurd h ?_
      iterate 6 refine ite_fst_ne nofun ?_
      iterate 3 refine ite_fst_ne (hliteral _ _ _) ?_
      refine ite_fst_ne ?_ (ite_fst_ne (hnumber _) nofun)
      split <;> nofun

/-- The first byte of a number or a literal. -/
def StartsScalar (c : UInt8) : Prop :=
  c = 116 ∨ c = 102 ∨ c = 110 ∨ (c = 45 || isDigit c) = true

/-- A byte that starts a number is none of the others. -/
theorem ne_of_number {c b : UInt8} (hc : (c = 45 || isDigit c) = true)
    (hb : (b = 45 || isDigit b) = false) : c ≠ b := by
  rintro rfl
  rw [hc] at hb
  cases hb

theorem nextToken_of_number {c : UInt8} (hskip : skipWhitespace bs = c :: r)
    (hc : (c = 45 || isDigit c) = true) :
    nextToken F bs = (scanNumber F (c :: r)).getD (.parseError, []) := by
  rw [nextToken, hskip]
  dsimp only
  rw [if_neg (ne_of_number hc rfl), if_neg (ne_of_number hc rfl), if_neg (ne_of_number hc rfl),
    if_neg (ne_of_number hc rfl), if_neg (ne_of_number hc rfl), if_neg (ne_of_number hc rfl),
    if_neg (ne_of_number hc rfl), if_neg (ne_of_number hc rfl), if_neg (ne_of_number hc rfl),
    if_neg (ne_of_number hc rfl), if_pos hc]

/-- A number or a literal is known by its first byte. -/
theorem nextToken_of_head {c : UInt8} (hskip : skipWhitespace bs = c :: r) (hc : StartsScalar c) :
    (nextToken F bs).1 = .parseError ∨
      ∃ v, v.isObject = false ∧ (nextToken F bs).1 = .scalar v := by
  rcases hc with rfl | rfl | rfl | hnum
  · rw [nextToken, hskip]
    exact (scanLiteral_fst "rue" (.bool true) r).imp_right fun h => ⟨_, rfl, h⟩
  · rw [nextToken, hskip]
    exact (scanLiteral_fst "alse" (.bool false) r).imp_right fun h => ⟨_, rfl, h⟩
  · rw [nextToken, hskip]
    exact (scanLiteral_fst "ull" .null r).imp_right fun h => ⟨_, rfl, h⟩
  · rw [nextToken_of_number hskip hnum]
    refine (scanNumber_getD_fst F (c :: r)).imp_right fun ⟨v, hv, hp⟩ => ⟨v, ?_, hp⟩
    cases v <;> first | rfl | cases hv

theorem head_of_scalar {v : Json} (h : (nextToken F bs).1 = .scalar v) :
    ∃ c r, skipWhitespace bs = c :: r ∧ StartsScalar c := by
  unfold nextToken at h
  cases hskip : skipWhitespace bs with
  | nil =>
    rw [hskip] at h
    cases h
  | cons c r =>
    refine ⟨c, r, rfl, ?_⟩
    by_contra hc
    simp only [StartsScalar, not_or] at hc
    obtain ⟨h116, h102, h110, hnum⟩ := hc
    simp only [hskip, if_neg h116, if_neg h102, if_neg h110, if_neg hnum] at h
    refine absurd h ?_
    iterate 6 refine ite_fst_ne nofun ?_
    refine ite_fst_ne ?_ (ite_fst_ne nofun nofun)
    split <;> nofun

end Json
