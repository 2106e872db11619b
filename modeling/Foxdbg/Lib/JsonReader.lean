import Foxdbg.Lib.JsonScanner

/-!
# The reader of JSON text as a machine

`parse` makes the tokens of the whole text, with fuel, and then runs the parser over them. `Reads`
is the two as one machine without fuel, which takes a token of the bytes at a time
(`parse_eq_some_iff`). Inside a value the machine does the same on a longer text (`Reads.append`),
so a text that begins with a whole text goes on with white space (`skipWhitespace_of_parse`).
-/

namespace Json

variable {bs r u : Bytes} {F : FloatLib} {tok : Token}

/-! ## The machine -/

namespace Parser

/-- From the state `s` in front of `bs`, tokens lead to `s'` in front of `bs'`. -/
inductive Reads (F : FloatLib) : State → Bytes → State → Bytes → Prop
  | refl {s : State} {bs : Bytes} : Reads F s bs s bs
  | token {s s₁ s' : State} {bs r bs' : Bytes} {tok : Token} : nextToken F bs = (tok, r) →
      step s tok = some s₁ → Reads F s₁ r s' bs' → Reads F s bs s' bs'

variable {s s' s₁ : State} {bs' : Bytes} {j : Json} {st : List Frame}

theorem step_endOfInput (s : State) : step s .endOfInput = none := by
  obtain ⟨mode, st⟩ := s
  cases mode <;> rfl

theorem step_parseError (s : State) : step s .parseError = none := by
  obtain ⟨mode, st⟩ := s
  cases mode <;> rfl

theorem step_done (j : Json) (st : List Frame) (tok : Token) : step (.done j, st) tok = none := by
  cases tok <;> rfl

/-- A token that the parser takes is a token of the text. -/
theorem ne_of_step (h : step s tok = some s₁) : tok ≠ .endOfInput ∧ tok ≠ .parseError := by
  constructor
  · rintro rfl
    rw [step_endOfInput] at h
    cases h
  · rintro rfl
    rw [step_parseError] at h
    cases h

theorem Reads.trans {s₂ : State} {bs₂ : Bytes} (h : Reads F s bs s' bs')
    (h' : Reads F s' bs' s₂ bs₂) : Reads F s bs s₂ bs₂ := by
  induction h with
  | refl => exact h'
  | token ht hs _ ih => exact .token ht hs (ih h')

theorem Reads.suffix (h : Reads F s bs s' bs') : bs' <:+ bs := by
  induction h with
  | refl => exact List.suffix_refl _
  | token ht hs _ ih =>
    obtain ⟨hend, herror⟩ := ne_of_step hs
    obtain ⟨t, rfl, -, -⟩ := nextToken_split ht hend herror
    exact ih.trans (List.suffix_append _ _)

/-- The machine takes its tokens one way only. -/
theorem Reads.unique {j' : Json} {st' : List Frame} (h : Reads F s bs (.done j, st) r)
    (h' : Reads F s bs (.done j', st') bs') : j = j' ∧ r = bs' := by
  generalize hd : ((.done j, st) : State) = d at h
  induction h with
  | refl =>
    subst hd
    cases h' with
    | refl => exact ⟨rfl, rfl⟩
    | token ht hs _ => simp [step_done] at hs
  | token ht hs _ ih =>
    cases h' with
    | refl => simp [step_done] at hs
    | token ht' hs' hr' =>
      cases ht.symm.trans ht'
      cases hs.symm.trans hs'
      exact ih hr' hd

theorem run_nil (s : State) : run s [] = none := by
  rw [run.eq_def]
  split <;> simp_all

theorem run_cons {ts : List Token} (h : tok ≠ .endOfInput) :
    run s (tok :: ts) = (step s tok).bind fun s => run s ts := by
  rw [run.eq_def]
  split
  · rename_i heq
    exact absurd (List.cons.inj heq).1 h
  · rename_i heq
    obtain ⟨rfl, rfl⟩ := List.cons.inj heq
    rfl
  · rename_i heq
    cases heq

theorem run_endOfInput (h : run s [.endOfInput] = some j) : ∃ st, s = (.done j, st) := by
  rw [run.eq_def] at h
  split at h
  · cases h
    exact ⟨_, rfl⟩
  · rename_i heq
    cases heq
    rw [step_endOfInput] at h
    cases h
  · cases h

theorem tokens_succ {fuel : Nat} (h : nextToken F bs = (tok, r)) (hend : tok ≠ .endOfInput)
    (herror : tok ≠ .parseError) : tokens F (fuel + 1) bs = tok :: tokens F fuel r := by
  simp only [tokens, h]

/-- The parser over the tokens of a text does what the machine does. -/
theorem Reads.run (h : Reads F s bs s' bs') {fuel : Nat} (hfuel : bs.length < fuel) :
    ∃ fuel', bs'.length < fuel' ∧ run s (tokens F fuel bs) = run s' (tokens F fuel' bs') := by
  induction h generalizing fuel with
  | refl => exact ⟨fuel, hfuel, rfl⟩
  | token ht hs _ ih =>
    obtain ⟨hend, herror⟩ := ne_of_step hs
    obtain ⟨t, rfl, hne, -⟩ := nextToken_split ht hend herror
    obtain ⟨fuel, rfl⟩ := Nat.exists_eq_add_of_le' (Nat.one_le_of_lt hfuel)
    rw [List.length_append] at hfuel
    have hpos := List.length_pos_of_ne_nil hne
    obtain ⟨fuel', hfuel', hrun⟩ := @ih fuel (by omega)
    exact ⟨fuel', hfuel', by
      rw [tokens_succ ht hend herror, run_cons hend, hs, Option.bind_some, hrun]⟩

/-- What the parser makes of the tokens of a text, the machine reads. -/
theorem exists_reads {fuel : Nat} (h : run s (tokens F fuel bs) = some j) :
    ∃ st r, Reads F s bs (.done j, st) r ∧ (nextToken F r).1 = .endOfInput := by
  induction fuel generalizing s bs with
  | zero =>
    rw [tokens, run_nil] at h
    cases h
  | succ fuel ih =>
    obtain ⟨tok, r, hnext⟩ : ∃ tok r, nextToken F bs = (tok, r) := ⟨_, _, rfl⟩
    by_cases hend : tok = .endOfInput
    · subst hend
      simp only [tokens, hnext] at h
      obtain ⟨st, rfl⟩ := run_endOfInput h
      exact ⟨st, bs, .refl, congrArg Prod.fst hnext⟩
    by_cases herror : tok = .parseError
    · subst herror
      simp only [tokens, hnext] at h
      rw [run_cons hend, step_parseError] at h
      cases h
    rw [tokens_succ hnext hend herror, run_cons hend] at h
    obtain ⟨s₁, hs, hrun⟩ := Option.bind_eq_some_iff.mp h
    obtain ⟨st, r', hreads, hlast⟩ := ih hrun
    exact ⟨st, r', .token hnext hs hreads, hlast⟩

end Parser

/-- The text is that of `j`: the machine reads it up to the end of the input. -/
theorem parse_eq_some_iff {j : Json} : parse F bs = some j ↔
    ∃ bs₀ st r, skipBom bs = some bs₀ ∧ Parser.Reads F (.value, []) bs₀ (.done j, st) r ∧
      (nextToken F r).1 = .endOfInput := by
  simp only [parse, Option.bind_eq_bind, Option.bind_eq_some_iff]
  constructor
  · rintro ⟨bs₀, hbom, hrun⟩
    obtain ⟨st, r, hreads, hlast⟩ := Parser.exists_reads hrun
    exact ⟨bs₀, st, r, hbom, hreads, hlast⟩
  · rintro ⟨bs₀, st, r, hbom, hreads, hlast⟩
    obtain ⟨fuel, hfuel, hrun⟩ := hreads.run (Nat.lt_succ_self bs₀.length)
    obtain ⟨fuel, rfl⟩ := Nat.exists_eq_add_of_le' (Nat.one_le_of_lt hfuel)
    refine ⟨bs₀, hbom, hrun.trans ?_⟩
    obtain ⟨tok, r', hnext⟩ : ∃ tok r', nextToken F r = (tok, r') := ⟨_, _, rfl⟩
    obtain rfl : tok = .endOfInput := by rw [← hlast, hnext]
    simp only [tokens, hnext]
    rfl

/-! ## A text that goes on -/

namespace Parser

variable {s s₁ : State} {j : Json} {st : List Frame}

theorem complete_ne (v : Json) (st : List Frame) : (complete v st).1 ≠ .value := by
  cases st with
  | nil => nofun
  | cons frame st => cases frame <;> nofun

/-- No token leads back to the start. -/
theorem step_ne_start (h : step s tok = some s₁) : s₁ ≠ (.value, []) := by
  have hstart : ∀ st, startValue st tok = some s₁ → s₁.1 ≠ .value := by
    intro st h
    cases tok <;> cases h <;> first | exact complete_ne _ _ | nofun
  rintro rfl
  unfold step at h
  split at h
  · exact hstart _ h rfl
  · exact complete_ne _ _ (congrArg Prod.fst (Option.some.inj h))
  · exact hstart _ h rfl
  all_goals first
    | cases h
    | exact complete_ne _ _ (congrArg Prod.fst (Option.some.inj h))

/-- A number or a literal is a whole text only at the start. -/
theorem step_scalar_done {v : Json} (h : step s (.scalar v) = some (.done j, st)) :
    s = (.value, []) := by
  obtain ⟨mode, st'⟩ := s
  cases mode with
  | value =>
    cases st' with
    | nil => rfl
    | cons frame st' => cases frame <;> cases h
  | arrayStart => cases h
  | _ => cases h

/-- Inside a value, the machine does the same on a longer text. -/
theorem Reads.append (h : Reads F s bs (.done j, st) r) (hs : s ≠ (.value, [])) (u : Bytes) :
    Reads F s (bs ++ u) (.done j, st) (r ++ u) := by
  generalize hd : ((.done j, st) : State) = d at h
  induction h with
  | refl => exact .refl
  | @token s s₁ _ bs r₁ _ tok ht hstep hreads ih =>
    subst hd
    obtain ⟨hend, herror⟩ := ne_of_step hstep
    obtain ⟨t, rfl, -, ht'⟩ := nextToken_split ht hend herror
    rw [List.append_assoc]
    refine .token (ht' _ ?_) hstep (ih (step_ne_start hstep) rfl)
    rintro ⟨v, rfl⟩
    cases r₁ with
    | cons => exact .inr rfl
    | nil =>
      -- a number at the end of the text is not inside a value
      cases hreads with
      | refl => exact absurd (step_scalar_done hstep) hs
      | token hnext hstep' _ =>
        cases hnext
        rw [step_endOfInput] at hstep'
        cases hstep'

end Parser

theorem skipBom_append {bs₀ : Bytes} (h : skipBom bs = some bs₀) (hne : bs ≠ []) (u : Bytes) :
    skipBom (bs ++ u) = some (bs₀ ++ u) := by
  unfold skipBom at h
  split at h
  · cases h
    rfl
  · cases h
  · rename_i hmark
    cases h
    obtain ⟨c, bs, rfl⟩ := List.exists_cons_of_ne_nil hne
    have hc : c ≠ 0xEF := fun heq => hmark bs (by rw [heq])
    unfold skipBom
    split
    · rename_i heq
      exact absurd (List.cons.inj heq).1 hc
    · rename_i heq
      exact absurd (List.cons.inj heq).1 hc
    · rfl

theorem suffix_skipBom {bs₀ : Bytes} (h : skipBom bs = some bs₀) : bs₀ <:+ bs := by
  unfold skipBom at h
  split at h <;> cases h
  · exact ⟨[0xEF, 0xBB, 0xBF], rfl⟩
  · exact List.suffix_refl _

theorem skipWhitespace_eq_nil :
    skipWhitespace bs = [] ↔ ∀ b ∈ bs, b = 32 ∨ b = 9 ∨ b = 10 ∨ b = 13 := by
  induction bs with
  | nil => simp [skipWhitespace]
  | cons b bs ih =>
    rw [List.forall_mem_cons, ← ih, skipWhitespace]
    split <;> simp [*]

/-- White space is no text. -/
theorem parse_of_whitespace (h : skipWhitespace bs = []) : parse F bs = none := by
  have hbom : skipBom bs = some bs := by
    unfold skipBom
    split
    · have hmark := skipWhitespace_eq_nil.mp h _ List.mem_cons_self
      exact absurd hmark (by decide)
    · have hmark := skipWhitespace_eq_nil.mp h _ List.mem_cons_self
      exact absurd hmark (by decide)
    · rfl
  have hnext : nextToken F bs = (.endOfInput, []) := by rw [nextToken, h]
  rw [parse, hbom]
  simp only [Option.bind_eq_bind, Option.bind_some, tokens, hnext]
  rfl

/-- If the beginning of the text of an object is a text, the rest is white space. -/
theorem skipWhitespace_of_parse {j j' : Json} (h : parse F bs = some j')
    (h' : parse F (bs ++ u) = some j) (hj : j.isObject = true) (hzero : 0 ∉ bs ++ u) :
    skipWhitespace u = [] := by
  obtain ⟨bs₀, st, r, hbom, hreads, -⟩ := parse_eq_some_iff.mp h
  obtain ⟨bs₁, st', r', hbom', hreads', hlast'⟩ := parse_eq_some_iff.mp h'
  cases hreads with
  | token hnext hstep hrest =>
    rename_i s₁ r₁ tok
    obtain ⟨hend, herror⟩ := Parser.ne_of_step hstep
    obtain ⟨t, rfl, htne, ht⟩ := nextToken_split hnext hend herror
    have hne : bs ≠ [] := by
      rintro rfl
      have hnil : [] = t ++ r₁ := Option.some.inj hbom
      exact htne (List.append_eq_nil_iff.mp hnil.symm).1
    obtain rfl : t ++ r₁ ++ u = bs₁ :=
      Option.some.inj ((skipBom_append hbom hne u).symm.trans hbom')
    -- the text starts with no number: it would be the whole text
    have hscalar : ¬ ∃ v, tok = .scalar v := by
      rintro ⟨v, rfl⟩
      obtain ⟨c, r₂, hskip, hc⟩ := head_of_scalar (congrArg Prod.fst hnext)
      obtain ⟨w, hw, hall⟩ := skipWhitespace_split hskip
      have hskip' : skipWhitespace (t ++ r₁ ++ u) = c :: (r₂ ++ u) := by
        rw [hw, List.append_assoc]
        exact hall _
      cases hreads' with
      | token hnext' hstep' hrest' =>
        obtain ⟨-, herror'⟩ := Parser.ne_of_step hstep'
        obtain hbad | ⟨v', hv', hfirst⟩ := nextToken_of_head (F := F) hskip' hc
        · rw [hnext'] at hbad
          exact herror' hbad
        · rw [hnext'] at hfirst
          cases hfirst
          cases hstep'
          obtain ⟨rfl, -⟩ := hrest'.unique .refl
          rw [hv'] at hj
          cases hj
    have hwhole : Parser.Reads F (.value, []) (t ++ r₁ ++ u) (.done j', st) (r ++ u) := by
      rw [List.append_assoc]
      exact .token (ht _ fun hv => absurd hv hscalar) hstep
        (hrest.append (Parser.step_ne_start hstep) u)
    obtain ⟨-, rfl⟩ := hwhole.unique hreads'
    have hsuffix : r ++ u <:+ bs ++ u := hreads'.suffix.trans (suffix_skipBom hbom')
    obtain hws | ⟨r₃, hws⟩ := nextToken_endOfInput hlast'
    · rw [skipWhitespace_eq_nil] at hws ⊢
      exact fun b hb => hws b (List.mem_append_right _ hb)
    · obtain ⟨w, hw, -⟩ := skipWhitespace_split hws
      exact absurd (hsuffix.subset (by rw [hw]; simp)) hzero

end Json
