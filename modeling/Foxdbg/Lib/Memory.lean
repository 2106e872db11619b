import Mathlib.Algebra.Group.Nat.Defs
import Mathlib.Data.List.Basic

/-!
# Byte memory

`Mem` is the memory behind one pointer: the byte at each offset. It is a total function, so a read
past the end of an allocation has a value too; what an allocation's size is, and that an access
stays inside it, is stated by the model that uses it. A value read from memory depends only on the
bytes read (`read_congr`, `u32_congr`, `u64_congr`): what the two-run proofs need of every cast of
a byte buffer to a struct.

Numbers are little-endian. `le n k` is `n` in `k` bytes and `ofLe` reads them back. `Has` tells the
bytes of a struct in memory; an array of structs is read struct by struct (`map_range_of_has`).
`Onto` tells that all bytes of a size are those of some struct.
-/

abbrev Bytes := List UInt8

/-- The bytes of an ASCII string literal. -/
def ascii (s : String) : Bytes := s.toList.map fun c => c.toNat.toUInt8

/-- The byte at each offset from a pointer. -/
abbrev Mem := Nat → UInt8

namespace Mem

/-- Memory that a static initialization zeroed. -/
def zero : Mem := fun _ => 0

/-- The `n` bytes from `off` on. -/
def read (m : Mem) (off n : Nat) : Bytes := (List.range n).map fun i => m (off + i)

/-- `memcpy` of `d` to `off`. -/
def copy (m : Mem) (off : Nat) (d : Bytes) : Mem :=
  fun i => if off ≤ i then (d[i - off]?).getD (m i) else m i

/-- A store of one byte. -/
def store (m : Mem) (off : Nat) (b : UInt8) : Mem := fun i => if i = off then b else m i

/-- Two memories with the same bytes in a range. -/
def Agree (m m' : Mem) (off n : Nat) : Prop := ∀ i, off ≤ i → i < off + n → m i = m' i

variable {m m' : Mem} {off n k : Nat} {d : Bytes}

@[simp] theorem length_read (m : Mem) (off n : Nat) : (m.read off n).length = n := by simp [read]

@[simp] theorem read_zero (m : Mem) (off : Nat) : m.read off 0 = [] := rfl

theorem getElem?_read (m : Mem) (off n i : Nat) :
    (m.read off n)[i]? = if i < n then some (m (off + i)) else none := by
  simp only [read, List.getElem?_map]
  split <;> simp_all

theorem Agree.refl (m : Mem) (off n : Nat) : Agree m m off n := fun _ _ _ => rfl

theorem Agree.mono {off' n' : Nat} (h : Agree m m' off n) (h₁ : off ≤ off')
    (h₂ : off' + n' ≤ off + n) : Agree m m' off' n' :=
  fun i hi hn => h i (by omega) (by omega)

theorem read_congr (h : Agree m m' off n) : m.read off n = m'.read off n := by
  simp only [read, List.map_inj_left, List.mem_range]
  exact fun i hi => h _ (by omega) (by omega)

theorem agree_of_read (h : m.read off n = m'.read off n) : Agree m m' off n := by
  intro i hi hn
  have e : (m.read off n)[i - off]? = (m'.read off n)[i - off]? := by rw [h]
  simp only [getElem?_read, show i - off < n by omega, ↓reduceIte, Option.some.injEq] at e
  rwa [show off + (i - off) = i by omega] at e

theorem read_append (m : Mem) (off n k : Nat) :
    m.read off (n + k) = m.read off n ++ m.read (off + n) k := by
  simp [read, List.range_add, Nat.add_assoc]

theorem read_succ (m : Mem) (off n : Nat) : m.read off (n + 1) = m off :: m.read (off + 1) n := by
  rw [Nat.add_comm n 1, read_append]
  rfl

theorem copy_apply_in {i : Nat} (h₁ : off ≤ i) (h₂ : i < off + d.length) :
    m.copy off d i = d.get ⟨i - off, by omega⟩ := by
  simp [copy, h₁, List.getElem?_eq_getElem (show i - off < d.length by omega)]

theorem copy_apply_out {i : Nat} (h : i < off ∨ off + d.length ≤ i) : m.copy off d i = m i := by
  unfold copy
  split
  · rw [List.getElem?_eq_none (by omega)]; rfl
  · rfl

/-- A read of the copied range gives the copied bytes. -/
@[simp] theorem read_copy (m : Mem) (off : Nat) (d : Bytes) :
    (m.copy off d).read off d.length = d := by
  apply List.ext_getElem (by simp)
  intro i h₁ h₂
  simp only [read, List.getElem_map, List.getElem_range]
  rw [copy_apply_in (by omega) (by omega)]
  simp

@[simp] theorem copy_nil (m : Mem) (off : Nat) : m.copy off [] = m := by
  funext i
  exact copy_apply_out (by simp only [List.length_nil]; omega)

/-- A copy stores the first byte, and then copies the others behind it. -/
theorem copy_cons (m : Mem) (off : Nat) (v : UInt8) (d : Bytes) :
    m.copy off (v :: d) = (m.store off v).copy (off + 1) d := by
  funext i
  simp only [copy, store]
  by_cases hi : i = off
  · simp [hi, show ¬ off + 1 ≤ off by omega]
  · by_cases hle : off ≤ i
    · have hsub : i - off = i - (off + 1) + 1 := by omega
      simp [hle, hi, hsub, show off + 1 ≤ i by omega]
    · simp [hle, hi, show ¬ off + 1 ≤ i by omega]

/-- A read of a range that the copy does not reach is unchanged. -/
theorem read_copy_disjoint {off' : Nat} (h : off' + n ≤ off ∨ off + d.length ≤ off') :
    (m.copy off d).read off' n = m.read off' n :=
  read_congr fun _ _ _ => copy_apply_out (by omega)

/-- Copies of the same bytes agree on them, whatever the memory held before. -/
theorem copy_agree (m m' : Mem) (off : Nat) (d : Bytes) :
    Agree (m.copy off d) (m'.copy off d) off d.length :=
  agree_of_read (by rw [read_copy, read_copy])

/-! ## Little-endian numbers -/

/-- `n` in `k` bytes, the least significant first. -/
def le (n : Nat) : Nat → Bytes
  | 0 => []
  | k + 1 => n.toUInt8 :: le (n / 256) k

/-- The number that bytes hold, the least significant first. -/
def ofLe : Bytes → Nat
  | [] => 0
  | b :: r => b.toNat + 256 * ofLe r

@[simp] theorem length_le (n k : Nat) : (le n k).length = k := by
  induction k generalizing n with
  | zero => rfl
  | succ k ih => simp [le, ih]

theorem ofLe_le (n k : Nat) : ofLe (le n k) = n % 256 ^ k := by
  induction k generalizing n with
  | zero => simp [le, ofLe, Nat.mod_one]
  | succ k ih =>
    rw [le, ofLe, ih, Nat.pow_succ', Nat.mod_mul, Nat.toUInt8_eq, UInt8.toNat_ofNat']

/-- The `uint32_t` at `off`. -/
def u32 (m : Mem) (off : Nat) : UInt32 := (ofLe (m.read off 4)).toUInt32

/-- The `uint64_t` at `off`. -/
def u64 (m : Mem) (off : Nat) : UInt64 := (ofLe (m.read off 8)).toUInt64

/-- The `int` at `off`. -/
def i32 (m : Mem) (off : Nat) : Int32 := (m.u32 off).toInt32

theorem u32_congr {off' n' : Nat} (off : Nat) (h : Agree m m' off' n') (h₁ : off' ≤ off)
    (h₂ : off + 4 ≤ off' + n') : m.u32 off = m'.u32 off := by
  unfold u32; rw [read_congr (h.mono h₁ h₂)]

theorem u64_congr {off' n' : Nat} (off : Nat) (h : Agree m m' off' n') (h₁ : off' ≤ off)
    (h₂ : off + 8 ≤ off' + n') : m.u64 off = m'.u64 off := by
  unfold u64; rw [read_congr (h.mono h₁ h₂)]

theorem i32_congr {off' n' : Nat} (off : Nat) (h : Agree m m' off' n') (h₁ : off' ≤ off)
    (h₂ : off + 4 ≤ off' + n') : m.i32 off = m'.i32 off := by
  unfold i32; rw [u32_congr off h h₁ h₂]

/-! ## Structs -/

/-- The bytes `d` are in memory from `off` on. -/
def Has (m : Mem) (off : Nat) (d : Bytes) : Prop := m.read off d.length = d

theorem has_append {e : Bytes} : m.Has off (d ++ e) ↔ m.Has off d ∧ m.Has (off + d.length) e := by
  unfold Has
  rw [List.length_append, read_append]
  constructor
  · intro h
    exact List.append_inj h (length_read ..)
  · rintro ⟨hd, he⟩
    rw [hd, he]

/-- A number is read from its bytes. -/
theorem u32_of_has {x : UInt32} (h : m.Has off (le x.toNat 4)) : m.u32 off = x := by
  have hread : m.read off 4 = le x.toNat 4 := by
    rw [Has, length_le] at h
    exact h
  have hlt : x.toNat < 256 ^ 4 := by
    have h := x.toNat_lt
    omega
  rw [u32, hread, ofLe_le, Nat.mod_eq_of_lt hlt]
  exact UInt32.ofNat_toNat

/-- An array of structs is read struct by struct. -/
theorem map_range_of_has {α β : Type} {size : Nat} {bytes : α → Bytes} {f : Mem → Nat → β}
    {g : α → β} (hlength : ∀ r, (bytes r).length = size)
    (hf : ∀ r off, m.Has off (bytes r) → f m off = g r) {rs : List α}
    (h : m.Has off (rs.flatMap bytes)) :
    ((List.range rs.length).map fun i => f m (off + i * size)) = rs.map g := by
  induction rs generalizing off with
  | nil => rfl
  | cons r rs ih =>
    rw [List.flatMap_cons, has_append, hlength] at h
    obtain ⟨hr, hrs⟩ := h
    have hrest := ih hrs
    rw [List.length_cons, List.range_succ_eq_map, List.map_cons, List.map_cons, List.map_map]
    congr 1
    · rw [Nat.zero_mul, Nat.add_zero]
      exact hf r off hr
    · rw [← hrest]
      refine List.map_congr_left fun i _ => ?_
      show f m (off + (i + 1) * size) = f m (off + size + i * size)
      rw [Nat.add_mul, Nat.one_mul, Nat.add_assoc, Nat.add_comm size]

theorem u64_of_has {x : UInt64} (h : m.Has off (le x.toNat 8)) : m.u64 off = x := by
  have hread : m.read off 8 = le x.toNat 8 := by
    rw [Has, length_le] at h
    exact h
  have hlt : x.toNat < 256 ^ 8 := by
    have h := x.toNat_lt
    omega
  rw [u64, hread, ofLe_le, Nat.mod_eq_of_lt hlt]
  exact UInt64.ofNat_toNat

/-- Any `n` bytes are those of a struct. -/
def Onto {α : Type} (bytes : α → Bytes) (n : Nat) : Prop := ∀ d, d.length = n → ∃ x, bytes x = d

theorem ofLe_lt (d : Bytes) : ofLe d < 256 ^ d.length := by
  induction d with
  | nil => exact Nat.one_pos
  | cons b d ih =>
    have hb := b.toNat_lt
    rw [ofLe, List.length_cons, Nat.pow_succ]
    omega

theorem le_ofLe (d : Bytes) : le (ofLe d) d.length = d := by
  induction d with
  | nil => rfl
  | cons b d ih =>
    have hb := b.toNat_lt
    have hlow : (b.toNat + 256 * ofLe d).toUInt8 = b := by
      apply UInt8.toNat_inj.mp
      rw [Nat.toUInt8_eq, UInt8.toNat_ofNat']
      omega
    have hhigh : (b.toNat + 256 * ofLe d) / 256 = ofLe d := by omega
    rw [ofLe, List.length_cons, le, hlow, hhigh, ih]

theorem onto_u32 : Onto (fun x : UInt32 => le x.toNat 4) 4 := by
  intro d hd
  refine ⟨(ofLe d).toUInt32, ?_⟩
  have hlt := ofLe_lt d
  rw [hd] at hlt
  show le (ofLe d).toUInt32.toNat 4 = d
  rw [Nat.toUInt32_eq, UInt32.toNat_ofNat', Nat.mod_eq_of_lt (by omega), ← hd, le_ofLe]

theorem onto_u64 : Onto (fun x : UInt64 => le x.toNat 8) 8 := by
  intro d hd
  refine ⟨(ofLe d).toUInt64, ?_⟩
  have hlt := ofLe_lt d
  rw [hd] at hlt
  show le (ofLe d).toUInt64.toNat 8 = d
  rw [Nat.toUInt64_eq, UInt64.toNat_ofNat', Nat.mod_eq_of_lt (by omega), ← hd, le_ofLe]

/-- A struct of two parts, one behind the other. -/
theorem Onto.append {α β : Type} {f : α → Bytes} {g : β → Bytes} {k : Nat} (hf : Onto f n)
    (hg : Onto g k) : Onto (fun p : α × β => f p.1 ++ g p.2) (n + k) := by
  intro d hd
  obtain ⟨x, hx⟩ := hf (d.take n) (by rw [List.length_take]; omega)
  obtain ⟨y, hy⟩ := hg (d.drop n) (by rw [List.length_drop]; omega)
  refine ⟨(x, y), ?_⟩
  show f x ++ g y = d
  rw [hx, hy, List.take_append_drop]

theorem Onto.map {α β : Type} {f : α → Bytes} {g : β → Bytes} (hf : Onto f n) (e : α → β)
    (h : ∀ x, g (e x) = f x) : Onto g n := fun d hd =>
  (hf d hd).elim fun x hx => ⟨e x, (h x).trans hx⟩

/-- Bytes whose number is a multiple of the size of a struct are those of an array of structs. -/
theorem Onto.flatMap {α : Type} {f : α → Bytes} (hf : Onto f n) (k : Nat) :
    ∀ d : Bytes, d.length = k * n → ∃ xs : List α, xs.flatMap f = d := by
  induction k with
  | zero =>
    intro d hd
    rw [Nat.zero_mul, List.length_eq_zero_iff] at hd
    exact ⟨[], hd.symm⟩
  | succ k ih =>
    intro d hd
    rw [Nat.succ_mul] at hd
    obtain ⟨x, hx⟩ := hf (d.take n) (by rw [List.length_take]; omega)
    obtain ⟨xs, hxs⟩ := ih (d.drop n) (by rw [List.length_drop]; omega)
    exact ⟨x :: xs, by rw [List.flatMap_cons, hx, hxs, List.take_append_drop]⟩

end Mem
