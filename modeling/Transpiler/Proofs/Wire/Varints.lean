import Mathlib.Data.Nat.Digits.Defs
import Transpiler.Proofs.Wire.Exact

/-!
# Numbers in groups of seven bits

A numeral is a run of bytes with the top bit set and one byte without it; it denotes the number whose digits in base
128 are its groups, lowest first. A reader takes so many groups at most and keeps so many bits: the last group it may
take reaches past the bits it keeps, and what lies there is dropped. The main result is `varint_exact_iff`.
-/

namespace Transpiler.Wire

open List Nat

/-- Bytes that make up one numeral: the last one alone has its top bit clear. -/
inductive IsNumeral : Text → Prop where
  | last {b : UInt8} (h : b < 128) : IsNumeral [b]
  | more {b : UInt8} {rest : Text} (h : ¬b < 128) (hrest : IsNumeral rest) : IsNumeral (b :: rest)

/-- The number that groups of seven bits denote, whatever its size. -/
def denoted (bytes : Text) : Nat := ofDigits 128 (bytes.map fun b => b.toNat % 128)

/-- A text starts with a numeral, or it ends inside one. -/
lemma exists_isNumeral_or_truncated (t : Text) :
    (∃ bytes tail, IsNumeral bytes ∧ t = bytes ++ tail) ∨ ∀ b ∈ t, ¬b < 128 := by
  induction t with
  | nil => exact .inr (by simp)
  | cons b rest ih =>
    by_cases hb : b < 128
    · exact .inl ⟨[b], rest, .last hb, rfl⟩
    · rcases ih with ⟨bytes, tail, hbytes, rfl⟩ | hrest
      · exact .inl ⟨b :: bytes, tail, .more hb hbytes, rfl⟩
      · exact .inr (forall_mem_cons.2 ⟨hb, hrest⟩)

/-! ## What groups denote -/

lemma denoted_singleton {b : UInt8} (h : b < 128) : denoted [b] = b.toNat := by
  have hb : b.toNat < 128 := UInt8.lt_iff_toNat_lt.1 h
  rw [denoted, map_singleton, ofDigits_singleton, mod_eq_of_lt hb]

lemma denoted_cons {b : UInt8} (h : ¬b < 128) (rest : Text) :
    denoted (b :: rest) = b.toNat - 128 + 128 * denoted rest := by
  have hb : ¬b.toNat < 128 := fun hlt => h (UInt8.lt_iff_toNat_lt.2 hlt)
  have hlt := b.toNat_lt
  rw [denoted, map_cons, ofDigits_cons, ← denoted]
  omega

lemma denoted_take_drop (bytes : Text) (n : Nat) (hn : n ≤ bytes.length) :
    denoted bytes = denoted (bytes.take n) + 128 ^ n * denoted (bytes.drop n) := by
  have hsplit := @Nat.ofDigits_append 128 ((bytes.take n).map fun b => b.toNat % 128)
    ((bytes.drop n).map fun b => b.toNat % 128)
  rwa [← map_append, take_append_drop, length_map, length_take_of_le hn] at hsplit

lemma denoted_lt (bytes : Text) : denoted bytes < 128 ^ bytes.length := by
  have hlt := ofDigits_lt_base_pow_length (b := 128) (l := bytes.map fun b => b.toNat % 128) (by decide) ?_
  · rwa [length_map] at hlt
  · intro d hd
    obtain ⟨b, -, rfl⟩ := mem_map.1 hd
    exact mod_lt _ (by decide)

namespace IsNumeral

variable {bytes : Text}

lemma drop (h : IsNumeral bytes) {n : Nat} (hn : n < bytes.length) : IsNumeral (bytes.drop n) := by
  induction h generalizing n with
  | last h =>
    obtain rfl : n = 0 := lt_one_iff.1 hn
    exact .last h
  | more h hrest ih =>
    cases n with
    | zero => exact .more h hrest
    | succ n => exact ih (lt_of_succ_lt_succ hn)

lemma take (h : IsNumeral bytes) {n : Nat} (hn : n < bytes.length) : ∀ b ∈ bytes.take n, ¬b < 128 := by
  induction h generalizing n with
  | last h =>
    obtain rfl : n = 0 := lt_one_iff.1 hn
    exact nofun
  | more h hrest ih =>
    cases n with
    | zero => exact nofun
    | succ n => exact forall_mem_cons.2 ⟨h, ih (lt_of_succ_lt_succ hn)⟩

/-- Up to `k` groups always fit; of one more group, the bits that are left have to hold its value. -/
lemma denoted_lt_iff (h : IsNumeral bytes) {k bits : Nat} (hlength : bytes.length ≤ k + 1) (hbits : 7 * k ≤ bits) :
    denoted bytes < 2 ^ bits ↔ ∀ b ∈ bytes[k]?, b.toNat < 2 ^ (bits - 7 * k) := by
  have hpow : 2 ^ bits = 128 ^ k * 2 ^ (bits - 7 * k) := by
    rw [show 128 = 2 ^ 7 from rfl, ← pow_mul, ← pow_add, Nat.add_sub_cancel' hbits]
  rcases lt_or_ge k bytes.length with hk | hk
  · obtain ⟨b, hb⟩ : ∃ b, bytes.drop k = [b] := length_eq_one_iff.1 (by rw [length_drop]; omega)
    have hlast : b < 128 := by
      have hdrop := h.drop hk
      rw [hb] at hdrop
      cases hdrop with
      | last h => exact h
      | more _ hrest => cases hrest
    have hget : bytes[k]? = some b := by rw [← head?_drop, hb]; rfl
    have hlow := denoted_lt (bytes.take k)
    rw [length_take_of_le hk.le] at hlow
    rw [denoted_take_drop bytes k hk.le, hb, denoted_singleton hlast, hget, hpow]
    -- the groups below the last one count for less than one of its units
    refine ⟨fun hlt c hc => ?_, fun hlt => ?_⟩
    · obtain rfl := Option.some.inj hc
      exact Nat.lt_of_mul_lt_mul_left (Nat.lt_of_le_of_lt (Nat.le_add_left _ _) hlt)
    · calc denoted (bytes.take k) + 128 ^ k * b.toNat
          < 128 ^ k + 128 ^ k * b.toNat := Nat.add_lt_add_right hlow _
        _ = 128 ^ k * (b.toNat + 1) := by ring
        _ ≤ 128 ^ k * 2 ^ (bits - 7 * k) := mul_le_mul_left _ (hlt b rfl)
  · rw [getElem?_eq_none hk]
    refine iff_of_true ?_ nofun
    calc denoted bytes < 128 ^ bytes.length := denoted_lt bytes
      _ ≤ 128 ^ k := Nat.pow_le_pow_right (by decide) hk
      _ ≤ 2 ^ bits := hpow ▸ Nat.le_mul_of_pos_right _ (Nat.two_pow_pos _)

end IsNumeral

/-! ## What is read -/

namespace Read

variable {α : Type}

lemma takes_isNumeral {bytes : Text} (h : IsNumeral bytes) {groups : Nat} (hlength : bytes.length ≤ groups) :
    Takes (numeral groups) bytes (denoted bytes) := by
  induction h generalizing groups with
  | @last b h =>
    obtain ⟨groups, rfl⟩ := exists_eq_add_one_of_ne_zero (ne_zero_of_lt hlength)
    rw [numeral, denoted_singleton h]
    refine (takes_byte b).bind_nil ?_
    rw [if_pos h]
    exact .pure _
  | @more b rest h hrest ih =>
    obtain ⟨groups, rfl⟩ := exists_eq_add_one_of_ne_zero (ne_zero_of_lt hlength)
    rw [numeral, denoted_cons h]
    refine (takes_byte b).bind (y := rest) ?_
    rw [if_neg h]
    exact (ih (le_of_succ_le_succ hlength)).map fun high => b.toNat - 128 + 128 * high

/-- Of groups that go on, one is taken at a time. -/
lemma numeral_cons {b : UInt8} (hb : ¬b < 128) {groups pos : Nat} {rest : Text} {e : ReadFault} {t : Tape}
    (h : numeral groups ⟨pos + 1, rest⟩ = .error e t) : numeral (groups + 1) ⟨pos, b :: rest⟩ = .error e t := by
  have hbyte : byte ⟨pos, b :: rest⟩ = .ok b ⟨pos + 1, rest⟩ := rfl
  rw [numeral, bind_of_eq_ok hbyte, if_neg hb]
  exact bind_of_eq_error h

/-- Groups that go on for too long are given up, whatever comes behind them. -/
lemma numeral_eq_overflow {groups : Nat} {rest : Text} (hlength : groups ≤ rest.length)
    (hrun : ∀ b ∈ rest.take groups, ¬b < 128) (pos : Nat) :
    numeral groups ⟨pos, rest⟩ = .error (.overflow (pos + groups)) ⟨pos + groups, rest.drop groups⟩ := by
  induction groups generalizing rest pos with
  | zero => rfl
  | succ groups ih =>
    cases rest with
    | nil => exact absurd hlength (not_succ_le_zero groups)
    | cons b rest =>
      obtain ⟨hb, hrun⟩ := forall_mem_cons.1 hrun
      have hrest := ih (le_of_succ_le_succ hlength) hrun (pos + 1)
      rw [add_right_comm] at hrest
      exact numeral_cons hb hrest

lemma numeral_eq_overflow_of_isNumeral {bytes : Text} (h : IsNumeral bytes) {groups : Nat}
    (hlength : groups < bytes.length) (pos : Nat) (tail : Text) :
    numeral groups ⟨pos, bytes ++ tail⟩ =
      .error (.overflow (pos + groups)) ⟨pos + groups, (bytes ++ tail).drop groups⟩ := by
  refine numeral_eq_overflow (by rw [length_append]; omega) ?_ pos
  rw [take_append_of_le_length hlength.le]
  exact h.take hlength

/-- Groups that go on up to the end of the data are missed there. -/
lemma numeral_eq_endOfData {run : Text} (hrun : ∀ b ∈ run, ¬b < 128) {groups : Nat} (hlength : run.length < groups)
    (pos : Nat) : numeral groups ⟨pos, run⟩ = .error (.endOfData (pos + run.length)) ⟨pos + run.length, []⟩ := by
  induction run generalizing pos groups with
  | nil =>
    obtain ⟨groups, rfl⟩ := exists_eq_add_one_of_ne_zero (ne_zero_of_lt hlength)
    rfl
  | cons b run ih =>
    obtain ⟨groups, rfl⟩ := exists_eq_add_one_of_ne_zero (ne_zero_of_lt hlength)
    obtain ⟨hb, hrun⟩ := forall_mem_cons.1 hrun
    rw [length_cons, add_comm run.length, ← add_assoc]
    exact numeral_cons hb (ih hrun (lt_of_succ_lt_succ hlength) (pos + 1))

end Read

/-- How a number is read off a tape, when so many groups may be taken and so many bits are kept. -/
structure ReadsGroups {α : Type} (read : RawRead α) (value : α → Nat) (groups bits : Nat) (t : Tape) : Prop where
  /-- What is taken for a value is a numeral, and the value is its lowest bits. It is all that the numeral denotes
  exactly if the last group that may be taken, if there is one, fits into the bits that are left for it. -/
  given : ∀ v t', read t = .ok v t' → ∃ bytes, IsNumeral bytes ∧ bytes.length ≤ groups ∧
    t.rest = bytes ++ t'.rest ∧ t'.pos = t.pos + bytes.length ∧ value v = denoted bytes % 2 ^ bits ∧
    (value v = denoted bytes ↔ ∀ b ∈ bytes[groups - 1]?, b.toNat < 2 ^ (bits - 7 * (groups - 1)))
  /-- A numeral is refused exactly if it has too many groups. -/
  whole : ∀ bytes tail, IsNumeral bytes → t.rest = bytes ++ tail →
    if bytes.length ≤ groups then ∃ v, read t = .ok v ⟨t.pos + bytes.length, tail⟩
    else read t = .error (.overflow (t.pos + groups)) ⟨t.pos + groups, t.rest.drop groups⟩
  /-- Data that end inside a numeral are missed at their end, unless too many groups come first. -/
  truncated : (∀ b ∈ t.rest, ¬b < 128) →
    read t = if t.rest.length < groups then .error (.endOfData (t.pos + t.rest.length)) ⟨t.pos + t.rest.length, []⟩
      else .error (.overflow (t.pos + groups)) ⟨t.pos + groups, t.rest.drop groups⟩

/-- A number is read as its groups say, and bits that are not kept are dropped. -/
lemma readsGroups_numeral {α : Type} {read : RawRead α} {value : α → Nat} {ofNat : Nat → α} {k bits : Nat}
    (hread : read = do pure (ofNat (← .numeral (k + 1)))) (hvalue : ∀ n, value (ofNat n) = n % 2 ^ bits)
    (hbits : 7 * k ≤ bits) (t : Tape) : ReadsGroups read value (k + 1) bits t := by
  obtain ⟨pos, rest⟩ := t
  have htaken : ∀ {bytes tail}, IsNumeral bytes → bytes.length ≤ k + 1 → rest = bytes ++ tail →
      read ⟨pos, rest⟩ = .ok (ofNat (denoted bytes)) ⟨pos + bytes.length, tail⟩ := by
    rintro bytes tail h hlength rfl
    rw [hread]
    exact (Read.takes_isNumeral h hlength).map ofNat pos tail
  have hfault : ∀ {e t'}, Read.numeral (k + 1) ⟨pos, rest⟩ = .error e t' → read ⟨pos, rest⟩ = .error e t' := by
    intro e t' he
    rw [hread]
    exact bind_of_eq_error he
  have hrefused : ∀ {bytes tail}, IsNumeral bytes → ¬bytes.length ≤ k + 1 → rest = bytes ++ tail →
      read ⟨pos, rest⟩ = .error (.overflow (pos + (k + 1))) ⟨pos + (k + 1), rest.drop (k + 1)⟩ := by
    rintro bytes tail h hlength rfl
    exact hfault (Read.numeral_eq_overflow_of_isNumeral h (not_le.1 hlength) pos tail)
  have htruncated : (∀ b ∈ rest, ¬b < 128) → read ⟨pos, rest⟩ =
      if rest.length < k + 1 then .error (.endOfData (pos + rest.length)) ⟨pos + rest.length, []⟩
      else .error (.overflow (pos + (k + 1))) ⟨pos + (k + 1), rest.drop (k + 1)⟩ := by
    intro hrun
    split_ifs with hlength
    · exact hfault (Read.numeral_eq_endOfData hrun hlength pos)
    · refine hfault (Read.numeral_eq_overflow (not_lt.1 hlength) (fun b hb => ?_) pos)
      exact hrun b (mem_of_mem_take hb)
  refine ⟨fun v t' hgiven => ?_, fun bytes tail h hrest => ?_, htruncated⟩
  · rcases exists_isNumeral_or_truncated rest with ⟨bytes, tail, h, hrest⟩ | hrun
    · by_cases hlength : bytes.length ≤ k + 1
      · obtain ⟨rfl, rfl⟩ := EStateM.Result.ok.inj ((htaken h hlength hrest).symm.trans hgiven)
        refine ⟨bytes, h, hlength, hrest, rfl, hvalue _, ?_⟩
        rw [hvalue, Nat.mod_eq_iff_lt (Nat.two_pow_pos bits).ne']
        exact h.denoted_lt_iff hlength hbits
      · cases (hrefused h hlength hrest).symm.trans hgiven
    · have hnone := (htruncated hrun).symm.trans hgiven
      split_ifs at hnone
  · split_ifs with hlength
    · exact ⟨_, htaken h hlength hrest⟩
    · exact hrefused h hlength hrest

/-- Numbers of 32 and of 64 bits are taken off a tape as numerals of at most five and of at most ten groups. What
is given is what the groups denote unless the fifth group is 16 or more, or the tenth is 2 or more. Too many groups
are refused as an overflow, and data that end inside a numeral as an end of data, whichever is seen first. -/
theorem varint_exact_iff (t : Tape) :
    ReadsGroups Read.u32 UInt32.toNat 5 32 t ∧ ReadsGroups Read.u64 UInt64.toNat 10 64 t :=
  ⟨readsGroups_numeral rfl (fun _ => UInt32.toNat_ofNat') (by decide) t,
    readsGroups_numeral rfl (fun _ => UInt64.toNat_ofNat') (by decide) t⟩

/-- Five groups that denote 2 ^ 32 are read as zero. -/
theorem u32_two_pow_thirtyTwo :
    IsNumeral [0x80, 0x80, 0x80, 0x80, 0x10] ∧ denoted [0x80, 0x80, 0x80, 0x80, 0x10] = 2 ^ 32 ∧
      Read.u32 ⟨0, [0x80, 0x80, 0x80, 0x80, 0x10]⟩ = .ok 0 ⟨5, []⟩ :=
  ⟨.more (by decide) (.more (by decide) (.more (by decide) (.more (by decide) (.last (by decide))))),
    by decide, rfl⟩

end Transpiler.Wire
