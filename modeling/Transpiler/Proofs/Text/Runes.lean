import Mathlib.Tactic.SplitIfs
import Transpiler.Text.Rune

/-!
# Reading and writing characters

The bytes of a character are its code point if that is ASCII, and bytes from `0x80` on otherwise. Reading
a text as runes loses nothing: the bytes of the runes are the text (`ofRunes_runes`).
-/

namespace Transpiler

open List UInt8 String

/-! ## Writing a character -/

lemma utf8EncodeChar_ascii {c : Char} (h : c.toNat < 128) : utf8EncodeChar c = [ofNat c.toNat] := by
  have hv : c.val.toNat ≤ 127 := Nat.le_of_lt_succ h
  rw [utf8EncodeChar, if_pos hv]
  rfl

/-- What holds of the code point of an ASCII character and of every byte from `0x80` on holds of the
bytes of a character. -/
lemma forall_utf8EncodeChar {p : UInt8 → Prop} {c : Char}
    (hascii : c.toNat < 128 → p (ofNat c.toNat)) (hhigh : ∀ b, 0x80 ≤ b → p b) :
    ∀ b ∈ utf8EncodeChar c, p b := by
  intro b hb
  by_cases hc : c.toNat < 128
  · rw [utf8EncodeChar_ascii hc, mem_singleton] at hb
    exact hb ▸ hascii hc
  · have hv : ¬c.val.toNat ≤ 127 := fun h => hc (Nat.lt_succ_of_le h)
    have hmark : ∀ k m, 128 ≤ m → k + m < 256 → (0x80 : UInt8) ≤ ofNat (k + m) := by
      intro k m hm hlt
      rw [le_iff_toNat_le, toNat_ofNat_of_lt' hlt]
      exact Nat.le_trans hm (Nat.le_add_left m k)
    apply hhigh
    rw [utf8EncodeChar, if_neg hv] at hb
    split_ifs at hb <;>
      · simp only [mem_cons, not_mem_nil, or_false] at hb
        rcases hb with rfl | rfl | rfl | rfl <;> exact hmark _ _ (by decide) (by omega)

/-! ## Reading a character -/

namespace Text

lemma toNat_of_char? {n : Nat} {c : Char} (h : char? n = some c) : c.val.toNat = n := by
  by_cases hvalid : n.isValidChar
  · rw [char?, dif_pos hvalid] at h
    obtain rfl := Option.some.inj h
    rfl
  · rw [char?, dif_neg hvalid] at h
    cases h

lemma char?_toNat (c : Char) : char? c.toNat = some c := by
  have hvalid : c.toNat.isValidChar := c.valid
  rw [char?, dif_pos hvalid]
  rfl

lemma payload_add {b : UInt8} (h : isContinuation b) : payload b + 128 = b.toNat ∧ payload b < 64 := by
  have : 0x80 ≤ b.toNat ∧ b.toNat < 0xC0 := by
    simpa [isContinuation, le_iff_toNat_le, lt_iff_toNat_lt] using h
  unfold payload
  omega

lemma ofNat_eq_of_eq_toNat {n : Nat} {b : UInt8} (h : n = b.toNat) : UInt8.ofNat n = b := by
  rw [h, UInt8.ofNat_toNat]

/-- The ways to write a character: the first byte says how many follow it, together they carry the code
point, and no shorter way would do. -/
inductive Encodes (c : Char) : UInt8 → Text → Prop
  | one {b : UInt8} (hv : c.val.toNat = b.toNat) (hb : b.toNat < 0x80) : Encodes c b []
  | two {b b1 : UInt8} (hv : c.val.toNat = b.toNat % 32 * 64 + payload b1)
      (hb : 0xC2 ≤ b.toNat ∧ b.toNat < 0xE0) (h1 : isContinuation b1) : Encodes c b [b1]
  | three {b b1 b2 : UInt8} (hv : c.val.toNat = b.toNat % 16 * 4096 + payload b1 * 64 + payload b2)
      (hb : 0xE0 ≤ b.toNat ∧ b.toNat < 0xF0) (hlong : 0x800 ≤ c.val.toNat)
      (h1 : isContinuation b1) (h2 : isContinuation b2) : Encodes c b [b1, b2]
  | four {b b1 b2 b3 : UInt8}
      (hv : c.val.toNat = b.toNat % 8 * 262144 + payload b1 * 4096 + payload b2 * 64 + payload b3)
      (hb : 0xF0 ≤ b.toNat ∧ b.toNat < 0xF5) (hlong : 0x10000 ≤ c.val.toNat)
      (h1 : isContinuation b1) (h2 : isContinuation b2)
      (h3 : isContinuation b3) : Encodes c b [b1, b2, b3]

lemma Encodes.utf8EncodeChar_eq {c : Char} {b : UInt8} {more : Text} (h : Encodes c b more) :
    utf8EncodeChar c = b :: more := by
  rw [utf8EncodeChar]
  cases h with
  | one hv hb => rw [if_pos (by omega), ofNat_eq_of_eq_toNat hv]
  | @two b1 hv hb h1 =>
    have hp1 := payload_add h1
    rw [if_neg (by omega), if_pos (by omega)]
    rw [ofNat_eq_of_eq_toNat (b := b) (by omega), ofNat_eq_of_eq_toNat (b := b1) (by omega)]
  | @three b1 b2 hv hb hlong h1 h2 =>
    have hp1 := payload_add h1
    have hp2 := payload_add h2
    rw [if_neg (by omega), if_neg (by omega), if_pos (by omega)]
    rw [ofNat_eq_of_eq_toNat (b := b) (by omega), ofNat_eq_of_eq_toNat (b := b1) (by omega),
      ofNat_eq_of_eq_toNat (b := b2) (by omega)]
  | @four b1 b2 b3 hv hb hlong h1 h2 h3 =>
    have hp1 := payload_add h1
    have hp2 := payload_add h2
    have hp3 := payload_add h3
    rw [if_neg (by omega), if_neg (by omega), if_neg (by omega)]
    rw [ofNat_eq_of_eq_toNat (b := b) (by omega), ofNat_eq_of_eq_toNat (b := b1) (by omega),
      ofNat_eq_of_eq_toNat (b := b2) (by omega), ofNat_eq_of_eq_toNat (b := b3) (by omega)]

/-- A character that is read has just the bytes it is read from. -/
lemma utf8EncodeChar_of_charAt? {b : UInt8} {rest : Text} {c : Char} {more : Nat}
    (h : charAt? b rest = some (c, more)) : utf8EncodeChar c = b :: rest.take more := by
  refine Encodes.utf8EncodeChar_eq ?_
  have hread : ∀ {n k : Nat}, (char? n).map (·, k) = some (c, more) → c.val.toNat = n ∧ more = k := by
    intro n k hn
    obtain ⟨c', hc, heq⟩ := Option.map_eq_some_iff.mp hn
    obtain ⟨rfl, rfl⟩ := Prod.mk.inj heq
    exact ⟨toNat_of_char? hc, rfl⟩
  unfold charAt? at h
  simp only [lt_iff_toNat_lt, reduceToNat] at h
  -- the first byte says how many follow
  split_ifs at h with h1 h2 h3 h4 h5
  · obtain ⟨hv, rfl⟩ := hread h
    exact .one hv h1
  · split at h
    · split_ifs at h with hb1
      obtain ⟨hv, rfl⟩ := hread h
      exact .two hv (by omega) hb1
    · cases h
  · split at h
    · simp only [Bool.and_eq_true] at h
      split_ifs at h with hb hlong
      obtain ⟨hv, rfl⟩ := hread h
      exact .three hv (by omega) (by omega) hb.1 hb.2
    · cases h
  · split at h
    · simp only [Bool.and_eq_true] at h
      split_ifs at h with hb hlong
      obtain ⟨hv, rfl⟩ := hread h
      exact .four hv (by omega) (by omega) hb.1.1 hb.1.2 hb.2
    · cases h

lemma ofRunes_runes (t : Text) : ofRunes (runes t) = t := by
  fun_induction runes t with
  | case1 => rfl
  | case2 b rest c more h ih =>
    rw [ofRunes, flatMap_cons, Rune.bytes, utf8EncodeChar_of_charAt? h, cons_append]
    change b :: (rest.take more ++ ofRunes _) = _
    rw [ih, take_append_drop]
  | case3 b rest h ih =>
    rw [ofRunes, flatMap_cons]
    exact congrArg (b :: ·) ih

end Text

end Transpiler
