import Transpiler.Guest.Module
import Transpiler.Proofs.Wire.Exact

/-!
# What writing does to memory

Writing changes the cells it covers and no others. Most of the time the cells of interest lie below the place
that is written to, so two memories are compared by the cells below a limit (`Memory.AgreeBelow`): whatever a
stretch below the limit held in the one it holds in the other.
-/

namespace Transpiler.Guest

open List Wire.Write

namespace Memory

/-- The second memory is as large as the first one and holds the same below `limit`. -/
structure AgreeBelow (m m' : Memory) (limit : Nat) : Prop where
  size : m'.size = m.size
  cell : ∀ a, a < limit → m'.cell a = m.cell a

namespace AgreeBelow

variable {m m' m'' : Memory} {limit limit' : Nat}

lemma refl (m : Memory) (limit : Nat) : m.AgreeBelow m limit := ⟨rfl, fun _ _ => rfl⟩

lemma trans (h : m.AgreeBelow m' limit) (h' : m'.AgreeBelow m'' limit) : m.AgreeBelow m'' limit :=
  ⟨h'.size.trans h.size, fun a ha => (h'.cell a ha).trans (h.cell a ha)⟩

lemma mono (h : m.AgreeBelow m' limit) (hle : limit' ≤ limit) : m.AgreeBelow m' limit' :=
  ⟨h.size, fun a ha => h.cell a (by omega)⟩

lemma bytes_eq (h : m.AgreeBelow m' limit) {offset length : Nat} (hle : offset + length ≤ limit) :
    m'.bytes offset length = m.bytes offset length := by
  refine map_congr_left fun i hi => h.cell _ ?_
  rw [mem_range] at hi
  omega

lemma word?_eq (h : m.AgreeBelow m' limit) {offset : Nat} (hle : offset + 4 ≤ limit) :
    m'.word? offset = m.word? offset := by
  rw [word?, word?, read?, read?, fits, fits, h.size, h.bytes_eq hle]

end AgreeBelow

/-! ## Writing bytes -/

lemma agreeBelow_put (m : Memory) (offset : Nat) (data : Text) : m.AgreeBelow (m.put offset data) offset :=
  ⟨rfl, fun a ha => if_neg (by omega)⟩

lemma agreeBelow_clear (m : Memory) (offset length : Nat) : m.AgreeBelow (m.clear offset length) offset :=
  ⟨rfl, fun a ha => if_neg (by omega)⟩

lemma put_cell_inside (m : Memory) (offset : Nat) (data : Text) {i : Nat} (h : i < data.length) :
    (m.put offset data).cell (offset + i) = data[i] := by
  simp [put, h]

/-- What was written last can be read, as far as one likes. -/
lemma bytes_put (m : Memory) (offset : Nat) (data more : Text) :
    (m.put offset (data ++ more)).bytes offset data.length = data := by
  refine ext_getElem (by simp [bytes]) fun i hi hi' => ?_
  have hinside : i < (data ++ more).length := by rw [length_append]; omega
  simp only [bytes, getElem_map, getElem_range, put_cell_inside m offset _ hinside, getElem_append_left hi']

lemma write_eq_ok {m m' : Memory} {offset : UInt32} {data : Text} (h : m.write offset data = .ok m') :
    offset.toNat + data.length ≤ m.size ∧ m' = m.put offset.toNat data := by
  by_cases hfits : m.fits offset.toNat data.length
  · simp only [write, write?, if_pos hfits, Except.ok.injEq] at h
    exact ⟨by simpa [fits] using hfits, h.symm⟩
  · simp [write, write?, if_neg hfits] at h

lemma zero_eq_ok {m m' : Memory} {offset length : UInt32} (h : m.zero offset length = .ok m') :
    m' = m.clear offset.toNat length.toNat := by
  rw [zero] at h
  split at h
  · exact (Except.ok.inj h).symm
  · cases h

lemma read_eq_ok {m : Memory} {offset length : UInt32} {data : Text} (h : m.read offset length = .ok data) :
    data = m.bytes offset.toNat length.toNat := by
  by_cases hfits : m.fits offset.toNat length.toNat
  · simp only [read, read?, if_pos hfits, Except.ok.injEq] at h
    exact h.symm
  · simp [read, read?, if_neg hfits] at h

/-! ## Writing words -/

lemma fits_of_word? {m : Memory} {offset : Nat} {n : UInt32} (h : m.word? offset = some n) : offset + 4 ≤ m.size := by
  by_cases hfits : m.fits offset 4
  · simpa [fits] using hfits
  · simp [word?, read?, if_neg hfits] at h

lemma ofNat_littleEndian_u32le (n : UInt32) : UInt32.ofNat (Wire.Read.littleEndian (u32le n)) = n := by
  rw [u32le, Wire.Read.littleEndian_write 4 _ (lt_of_lt_of_le n.toNat_lt (by decide)), UInt32.ofNat_toNat]

lemma setWord?_eq_some {m m' : Memory} {offset : Nat} {n : UInt32} (h : m.setWord? offset n = some m') :
    m.AgreeBelow m' offset ∧ m'.word? offset = some n := by
  have hlength : (u32le n).length = 4 := Wire.Read.length_littleEndian 4 _
  by_cases hfits : m.fits offset 4
  · simp only [setWord?, write?, hlength, if_pos hfits, Option.some.injEq] at h
    subst h
    refine ⟨agreeBelow_put .., ?_⟩
    have hbytes := m.bytes_put offset (u32le n) []
    rw [append_nil, hlength] at hbytes
    have hfits' : (m.put offset (u32le n)).fits offset 4 := hfits
    rw [word?, read?, if_pos hfits', hbytes, Option.map_some, ofNat_littleEndian_u32le]
  · simp [setWord?, write?, hlength, if_neg hfits] at h

end Memory

namespace Module

/-- Storing words changes nothing below the first one, whether they all fit or not. -/
lemma agreeBelow_storeWords (memory : Memory) (place : Nat) (words : List UInt32) :
    memory.AgreeBelow (storeWords memory place words).2 place := by
  induction words generalizing memory place with
  | nil => exact .refl memory place
  | cons n rest ih =>
    rw [storeWords]
    split
    · rename_i memory' hset
      exact (Memory.setWord?_eq_some hset).1.trans ((ih memory' (place + 4)).mono (by omega))
    · exact .refl memory place

/-- The first of some words that were all stored stays, since the others go behind it. -/
lemma storeWords_cons {memory memory' : Memory} {place : Nat} {n : UInt32} {rest : List UInt32}
    (h : storeWords memory place (n :: rest) = (true, memory')) :
    memory'.word? place = some n ∧ ∃ between, storeWords between (place + 4) rest = (true, memory') := by
  rw [storeWords] at h
  split at h
  · rename_i between hset
    have hlater := agreeBelow_storeWords between (place + 4) rest
    rw [h] at hlater
    exact ⟨(hlater.word?_eq le_rfl).trans (Memory.setWord?_eq_some hset).2, between, h⟩
  · cases h

end Module

end Transpiler.Guest
