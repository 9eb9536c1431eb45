import Mathlib.Tactic.Ring
import Transpiler.Proofs.After
import Transpiler.Wire.Item
import Transpiler.Wire.Reader

/-!
# Readers that take exactly what was written

A reader `Takes` some bytes if, wherever they stand on a tape, it reads all of them and nothing else. The
relation is closed under sequencing, so a reader made of parts takes what its parts take, one after the
other. Here it is shown of every kind of number and text that the bytes written for a value are taken and
give the value back.
-/

namespace Transpiler.Wire

namespace Read

variable {ε δ α β : Type}

/-- Wherever `bytes` stand in front, the reader takes exactly them and gives `a`. -/
def Takes (r : Read ε α) (bytes : Text) (a : α) : Prop :=
  ∀ pos rest, r ⟨pos, bytes ++ rest⟩ = .ok a ⟨pos + bytes.length, rest⟩

variable {r : Read ε α} {a : α} {f : α → Read ε β}

lemma position_bind (f : Nat → Read ε α) (t : Tape) : (position >>= f) t = f t.pos t := rfl

namespace Takes

lemma pure (a : α) : Takes (pure a : Read ε α) [] a := fun _ _ => rfl

/-- Once the first reader of a sequence has taken its bytes, the second stands behind them. -/
lemma bind_eq {x rest : Text} (h : Takes r x a) (f : α → Read ε β) (pos : Nat) :
    (r >>= f) ⟨pos, x ++ rest⟩ = f a ⟨pos + x.length, rest⟩ :=
  bind_of_eq_ok (h pos rest)

lemma bind {x y : Text} {b : β} (h : Takes r x a) (hf : Takes (f a) y b) : Takes (r >>= f) (x ++ y) b := by
  intro pos rest
  rw [List.append_assoc, h.bind_eq, hf]
  simp [Nat.add_assoc]

variable {x : Text}

lemma bind_nil {b : β} (h : Takes r x a) (hf : Takes (f a) [] b) : Takes (r >>= f) x b := by
  simpa only [List.append_nil] using h.bind hf

lemma map (h : Takes r x a) (f : α → β) : Takes (r >>= fun a => Pure.pure (f a)) x (f a) :=
  h.bind_nil (Takes.pure (f a))

lemma mapFault (h : Takes r x a) (f : ε → δ) : Takes (Read.mapFault f r) x a := by
  intro pos rest
  simp only [Read.mapFault, h pos rest]

lemma raw {r : RawRead α} (h : Takes r x a) : Takes (DocRead.raw r) x a :=
  h.mapFault _

lemma within {r : DocRead α} (h : Takes r x a) (place : Text) : Takes (DocRead.within place r) x a :=
  h.mapFault _

/-- A position is read without taking anything, and what follows may not depend on it. -/
lemma position {f : Nat → Read ε α} (h : ∀ pos, Takes (f pos) x a) : Takes (Read.position >>= f) x a :=
  fun pos rest => h pos pos rest

end Takes

/-! ## Bytes -/

lemma takes_byte (b : UInt8) : Takes byte [b] b := fun _ _ => rfl

@[simp] lemma split?_length_append (t rest : Text) : split? t.length (t ++ rest) = some (t, rest) := by
  induction t with
  | nil => rfl
  | cons b t ih => simp [split?, ih]

lemma takes_bytes {n : Nat} {t : Text} (h : t.length = n) : Takes (bytes n) t t := by
  intro pos rest
  subst h
  simp only [bytes, split?_length_append]

/-! ## Numerals in groups of seven bits -/

lemma toNat_toUInt8 {n : Nat} (h : n < 256) : n.toUInt8.toNat = n := by
  simp [Nat.toUInt8, Nat.mod_eq_of_lt h]

lemma toUInt8_lt_iff {n : Nat} (h : n < 256) (b : UInt8) : n.toUInt8 < b ↔ n < b.toNat := by
  rw [UInt8.lt_iff_toNat_lt, toNat_toUInt8 h]

/-- The numeral of a number that fits into the groups is taken whole. The first group alone ends it if the
number is below 128; otherwise its top bit is set and the other groups hold the quotient. -/
lemma takes_numeral (groups n : Nat) (h : n < 128 ^ (groups + 1)) :
    Takes (numeral (groups + 1)) (Write.numeral n) n := by
  induction groups generalizing n with
  | zero =>
    have hn : n < 128 := by simpa using h
    have hb : n.toUInt8 < 128 := (toUInt8_lt_iff (by omega) _).2 hn
    rw [Write.numeral, if_pos hn, numeral]
    refine (takes_byte _).bind_nil ?_
    rw [if_pos hb, toNat_toUInt8 (by omega)]
    exact .pure n
  | succ groups ih =>
    rw [Write.numeral, numeral]
    split_ifs with hn
    · have hb : n.toUInt8 < 128 := (toUInt8_lt_iff (by omega) _).2 hn
      refine (takes_byte _).bind_nil ?_
      rw [if_pos hb, toNat_toUInt8 (by omega)]
      exact .pure n
    · have hb : ¬ (n % 128 + 128).toUInt8 < 128 := by
        rw [toUInt8_lt_iff (by omega)]
        simp
      have hq : n / 128 < 128 ^ (groups + 1) := by
        rw [Nat.div_lt_iff_lt_mul (by omega), ← pow_succ]
        exact h
      have hn' : n % 128 + 128 - 128 + 128 * (n / 128) = n := by omega
      refine (takes_byte _).bind (y := Write.numeral (n / 128)) ?_
      rw [if_neg hb, toNat_toUInt8 (by omega)]
      simpa only [hn'] using (ih (n / 128) hq).map fun high => n % 128 + 128 - 128 + 128 * high

/-- The last group of a signed numeral is taken alone: its top bit is the sign. -/
lemma takes_signedNumeral_last (groups : Nat) {i : Int} (h : -64 ≤ i ∧ i < 64) :
    Takes (signedNumeral (groups + 1)) [(i % 128).toNat.toUInt8] i := by
  have hb : (i % 128).toNat < 128 := by omega
  have hi := toNat_toUInt8 (show (i % 128).toNat < 256 by omega)
  rw [signedNumeral]
  refine (takes_byte _).bind_nil ?_
  by_cases hpos : 0 ≤ i
  · have hlt : (i % 128).toNat.toUInt8 < 64 := (toUInt8_lt_iff (by omega) _).2 (by
      show (i % 128).toNat < 64
      omega)
    have hval : (((i % 128).toNat : Nat) : Int) = i := by omega
    rw [if_pos hlt, hi, hval]
    exact .pure i
  · have hge : ¬ (i % 128).toNat.toUInt8 < 64 := by
      rw [toUInt8_lt_iff (by omega)]
      show ¬ (i % 128).toNat < 64
      omega
    have hlt : (i % 128).toNat.toUInt8 < 128 := (toUInt8_lt_iff (by omega) _).2 hb
    have hval : (((i % 128).toNat : Nat) : Int) - 128 = i := by omega
    rw [if_neg hge, if_pos hlt, hi, hval]
    exact .pure i

/-- A number in the range of so many signed groups is taken whole. -/
lemma takes_signedNumeral (groups : Nat) (i : Int) (hl : -64 * 128 ^ groups ≤ i)
    (hu : i < 64 * 128 ^ groups) : Takes (signedNumeral (groups + 1)) (Write.signedNumeral i) i := by
  induction groups generalizing i with
  | zero =>
    have hi : -64 ≤ i ∧ i < 64 := by simpa using And.intro hl hu
    rw [Write.signedNumeral, if_pos hi]
    exact takes_signedNumeral_last 0 hi
  | succ groups ih =>
    rw [Write.signedNumeral]
    split_ifs with hi
    · exact takes_signedNumeral_last (groups + 1) hi
    · -- a group with the continuation mark, and the rest of the number after it
      have hb : (i % 128).toNat + 128 < 256 := by omega
      have h64 : ¬ ((i % 128).toNat + 128).toUInt8 < 64 := by
        rw [toUInt8_lt_iff hb]
        show ¬ (i % 128).toNat + 128 < 64
        omega
      have h128 : ¬ ((i % 128).toNat + 128).toUInt8 < 128 := by
        rw [toUInt8_lt_iff hb]
        show ¬ (i % 128).toNat + 128 < 128
        omega
      rw [pow_succ] at hl hu
      have hq := ih (i / 128) (by omega) (by omega)
      have hval : (((i % 128).toNat + 128 : Nat) : Int) - 128 + 128 * (i / 128) = i := by omega
      rw [signedNumeral]
      refine (takes_byte _).bind (y := Write.signedNumeral (i / 128)) ?_
      rw [if_neg h64, if_neg h128, toNat_toUInt8 hb]
      simpa only [hval] using hq.map fun high => (((i % 128).toNat + 128 : Nat) : Int) - 128 + 128 * high

lemma takes_u32 (n : UInt32) : Takes u32 (Write.u32 n) n := by
  have hn : n.toNat < 128 ^ 5 := lt_of_lt_of_le n.toNat_lt (by decide)
  have h := (takes_numeral 4 _ hn).map UInt32.ofNat
  rwa [UInt32.ofNat_toNat] at h

lemma takes_u64 (n : UInt64) : Takes u64 (Write.numeral n.toNat) n := by
  have hn : n.toNat < 128 ^ 10 := lt_of_lt_of_le n.toNat_lt (by decide)
  have h := (takes_numeral 9 _ hn).map UInt64.ofNat
  rwa [UInt64.ofNat_toNat] at h

lemma takes_s64 (n : Int64) : Takes s64 (Write.signedNumeral n.toInt) n := by
  have hl : -64 * 128 ^ 9 ≤ n.toInt := le_trans (by decide) n.le_toInt
  have hu : n.toInt < 64 * 128 ^ 9 := lt_of_lt_of_le n.toInt_lt (by decide)
  have h := (takes_signedNumeral 9 _ hl hu).map Int64.ofInt
  rwa [Int64.ofInt_toInt] at h

/-! ## Little-endian words -/

@[simp] lemma length_littleEndian (width n : Nat) : (Write.littleEndian width n).length = width := by
  induction width generalizing n with
  | zero => rfl
  | succ width ih => simp [Write.littleEndian, ih]

lemma littleEndian_write (width n : Nat) (h : n < 256 ^ width) : littleEndian (Write.littleEndian width n) = n := by
  induction width generalizing n with
  | zero =>
    have hn : n = 0 := by simpa using h
    rw [hn]
    rfl
  | succ width ih =>
    have hq : n / 256 < 256 ^ width := by
      rw [Nat.div_lt_iff_lt_mul (by omega), ← pow_succ]
      exact h
    simp only [Write.littleEndian, littleEndian]
    rw [toNat_toUInt8 (by omega), ih _ hq]
    omega

lemma takes_u32le (n : UInt32) : Takes u32le (Write.u32le n) n := by
  have h : Takes u32le (Write.u32le n) (UInt32.ofNat (littleEndian (Write.u32le n))) :=
    (takes_bytes (length_littleEndian 4 _)).map _
  have hn : littleEndian (Write.u32le n) = n.toNat :=
    littleEndian_write 4 _ (lt_of_lt_of_le n.toNat_lt (by decide))
  rwa [hn, UInt32.ofNat_toNat] at h

lemma takes_f64le (x : Binary64) : Takes f64le (Write.f64le x) x := by
  have h : Takes f64le (Write.f64le x) ⟨UInt64.ofNat (littleEndian (Write.f64le x))⟩ :=
    (takes_bytes (length_littleEndian 8 _)).map _
  have hx : littleEndian (Write.f64le x) = x.bits.toNat :=
    littleEndian_write 8 _ (lt_of_lt_of_le x.bits.toNat_lt (by decide))
  rwa [hx, UInt64.ofNat_toNat] at h

/-! ## Texts -/

lemma toNat_ofNat_length {n : Nat} (h : n < 2 ^ 32) : (UInt32.ofNat n).toNat = n := by
  rw [UInt32.toNat_ofNat']
  exact Nat.mod_eq_of_lt h

lemma takes_name {t : Text} (hutf : t.isUtf8) (hlen : t.length < 2 ^ 32) : Takes name (Write.name t) t := by
  refine (takes_u32 _).bind ?_
  rw [toNat_ofNat_length hlen]
  refine (takes_bytes rfl).bind_nil ?_
  rw [if_pos hutf]
  exact .pure t

end Read

end Transpiler.Wire
