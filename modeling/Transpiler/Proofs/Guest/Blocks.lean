import Mathlib.Data.Nat.Bitwise
import Mathlib.Tactic.Common
import Transpiler.Guest.Memory

/-!
# The blocks of an arena

An arena works with addresses of 32 bits in a memory that may grow and shrink between two requests. Its sums are exact
all the same (`Exact`): they are made in 64 bits, and what is cut back has been compared with the size of the memory
before. So the next free byte only moves up, and the blocks handed out lie one above the other below it
(`Usage.Stacked`). The main result is `Usage.sound_after`.
-/

namespace Transpiler.Guest.Arena

open UInt64

/-! ## Rounding up -/

/-- Clearing the last three bits of a word rounds it down to a multiple of eight. -/
lemma toNat_and_not_seven (x : UInt64) : (x &&& ~~~7).toNat = x.toNat / 8 * 8 := by
  have hmask : (~~~(7 : UInt64)).toNat = (2 ^ 61 - 1) * 2 ^ 3 := by decide
  rw [UInt64.toNat_and, hmask]
  refine Nat.eq_of_testBit_eq fun i => ?_
  rw [show 8 = 2 ^ 3 from rfl, Nat.testBit_and, Nat.testBit_mul_two_pow, Nat.testBit_mul_two_pow,
    Nat.testBit_two_pow_sub_one, Nat.testBit_div_two_pow]
  by_cases hlow : 3 ≤ i
  · by_cases hhigh : i < 64
    · simp [hlow, show i - 3 < 61 by omega]
    · -- neither side has bits beyond the word
      have hx : x.toNat.testBit i = false :=
        Nat.testBit_lt_two_pow (x.toNat_lt.trans_le (Nat.pow_le_pow_right (by decide) (by omega)))
      simp [hlow, hx]
  · simp [hlow]

/-- The next free byte, rounded up to a multiple of eight. -/
def cursor (a : Arena) : Nat := (a.next.toNat + 7) / 8 * 8

lemma le_cursor (a : Arena) : a.next.toNat ≤ a.cursor := by
  rw [cursor]
  omega

lemma dvd_cursor (a : Arena) : 8 ∣ a.cursor := Nat.dvd_mul_left 8 _

lemma cursor_lt (a : Arena) : a.cursor < 2 ^ 32 + 8 := by
  have hnext := a.next.toNat_lt
  rw [cursor]
  omega

/-! ## The sums are exact -/

lemma toNat_extent (size : UInt32) : (extent size).toNat = max size.toNat 1 := by
  rw [extent]
  split
  · next hzero => rw [hzero]; rfl
  · next hne =>
    have hpos : size.toNat ≠ 0 := fun h => hne (UInt32.toNat_inj.1 h)
    omega

lemma toNat_rounding (a : Arena) : (a.next.toUInt64 + (alignment - 1)).toNat = a.next.toNat + 7 := by
  have hnext := a.next.toNat_lt
  have halign : (alignment - 1).toNat = 7 := by decide
  rw [UInt64.toNat_add, UInt32.toNat_toUInt64, halign]
  omega

lemma toNat_start (a : Arena) : a.start.toNat = a.cursor := by
  rw [start, show ~~~(alignment - 1) = ~~~7 by decide, toNat_and_not_seven, toNat_rounding, cursor]

lemma toNat_stop (a : Arena) (size : UInt32) : (a.stop size).toNat = a.cursor + max size.toNat 1 := by
  have hcursor := a.cursor_lt
  have hsize := size.toNat_lt
  rw [stop, UInt64.toNat_add, toNat_start, UInt32.toNat_toUInt64, toNat_extent]
  omega

/-- What one request for a block computes in a memory is computed without loss: no sum of 64 bits wraps
around, and no value that is cut back to 32 bits has more. -/
structure Exact (a : Arena) (memory size : UInt32) : Prop where
  rounding : (a.next.toUInt64 + (alignment - 1)).toNat = a.next.toNat + 7
  start : a.start.toNat = a.cursor
  stop : (a.stop size).toNat = a.cursor + max size.toNat 1
  place : a.stop size ≤ memory.toUInt64 → a.start.toUInt32.toNat = a.cursor
  next : a.stop size ≤ memory.toUInt64 → (a.stop size).toUInt32.toNat = a.cursor + max size.toNat 1
  remaining : (a.remaining memory.toUInt64).toNat = memory.toNat - a.cursor

lemma exact (a : Arena) (memory size : UInt32) : Exact a memory size := by
  have hmemory := memory.toNat_lt
  have hstart := a.toNat_start
  have hstop := a.toNat_stop size
  have hfits : a.stop size ≤ memory.toUInt64 → a.cursor + max size.toNat 1 < 2 ^ 32 := by
    intro hle
    rw [le_iff_toNat_le, hstop, UInt32.toNat_toUInt64] at hle
    omega
  refine ⟨a.toNat_rounding, hstart, hstop, fun hle => ?_, fun hle => ?_, ?_⟩
  · rw [toNat_toUInt32, hstart]
    exact Nat.mod_eq_of_lt (by have := hfits hle; omega)
  · rw [toNat_toUInt32, hstop]
    exact Nat.mod_eq_of_lt (hfits hle)
  · rw [Arena.remaining]
    split
    · next hlt =>
      rw [lt_iff_toNat_lt, hstart, UInt32.toNat_toUInt64] at hlt
      have hle : a.start ≤ memory.toUInt64 := by
        rw [le_iff_toNat_le, hstart, UInt32.toNat_toUInt64]
        omega
      rw [UInt64.toNat_toUInt32, UInt64.toNat_sub_of_le _ _ hle, hstart, UInt32.toNat_toUInt64]
      omega
    · next hge =>
      rw [lt_iff_toNat_lt, hstart, UInt32.toNat_toUInt64] at hge
      rw [UInt32.toNat_zero]
      omega

/-! ## One request -/

/-- A request fails exactly if its block would end past the memory. -/
lemma alloc_eq (a : Arena) (memory size : UInt32) : a.alloc memory.toNat size =
    if memory.toNat < a.cursor + max size.toNat 1 then
      .error (.outOfMemory (max size.toNat 1) (memory.toNat - a.cursor))
    else .ok (a.start.toUInt32, { a with next := (a.stop size).toUInt32 }) := by
  have hexact := exact a memory size
  have hlimit : ofNat memory.toNat = memory.toUInt64 := ofNat_uInt32ToNat memory
  have hlt : memory.toUInt64 < a.stop size ↔ memory.toNat < a.cursor + max size.toNat 1 := by
    rw [lt_iff_toNat_lt, hexact.stop, UInt32.toNat_toUInt64]
  rw [alloc, hlimit, toNat_extent, hexact.remaining]
  exact if_congr hlt rfl rfl

/-- What a block has to be: it starts at the cursor, and the next free byte is the one behind it. -/
structure Granted (a : Arena) (memory size ptr : UInt32) (a' : Arena) : Prop where
  base : a'.base = a.base
  ptr : ptr.toNat = a.cursor
  next : a'.next.toNat = a.cursor + max size.toNat 1
  next_le : a'.next.toNat ≤ memory.toNat

lemma granted_of_alloc {a a' : Arena} {memory size ptr : UInt32}
    (h : a.alloc memory.toNat size = .ok (ptr, a')) : Granted a memory size ptr a' := by
  have hexact := exact a memory size
  rw [alloc_eq] at h
  split at h
  · cases h
  · next hfits =>
    have hle : a.stop size ≤ memory.toUInt64 := by
      rw [le_iff_toNat_le, hexact.stop, UInt32.toNat_toUInt64]
      omega
    obtain ⟨rfl, rfl⟩ := Prod.mk.inj (Except.ok.inj h)
    refine ⟨rfl, hexact.place hle, hexact.next hle, ?_⟩
    rw [hexact.next hle]
    omega

lemma Granted.lt {a a' : Arena} {memory size ptr : UInt32} (h : Granted a memory size ptr a') :
    a.next.toNat ≤ ptr.toNat ∧ ptr.toNat + max size.toNat 1 = a'.next.toNat := by
  have hle := a.le_cursor
  rw [h.ptr, h.next]
  omega

/-! ## Any number of requests -/

/-- Something that is asked of an arena, or a change of the memory it works in. -/
inductive Request where
  | alloc (size : UInt32)
  | free (ptr : UInt32)
  | resize (memory : UInt32)
deriving DecidableEq, Repr

/-- A block that was handed out, with the size of the memory at that time. -/
structure Block where
  ptr : UInt32
  size : UInt32
  memory : UInt32
deriving DecidableEq, Repr

/-- The first byte behind a block, which has at least one byte. -/
def Block.stop (b : Block) : Nat := b.ptr.toNat + max b.size.toNat 1

/-- An arena at work. -/
structure Usage where
  arena : Arena
  memory : UInt32
  /-- All blocks handed out so far, the latest first. -/
  blocks : List Block
deriving DecidableEq, Repr

namespace Usage

/-- Before the first request. -/
def new (base memory : UInt32) : Usage := ⟨.new base, memory, []⟩

/-- Serves a request. -/
def step (u : Usage) : Request → Usage
  | .alloc size =>
    match u.arena.alloc u.memory.toNat size with
    | .ok (ptr, arena) => ⟨arena, u.memory, ⟨ptr, size, u.memory⟩ :: u.blocks⟩
    | .error _ => u
  | .free ptr =>
    match u.arena.free ptr with
    | .ok () | .error _ => u
  | .resize memory => { u with memory := memory }

/-- What requests leave. -/
def after (base memory : UInt32) (requests : List Request) : Usage :=
  requests.foldl step (new base memory)

/-- The blocks lie one above the other between the base and the next free byte. -/
structure Stacked (base : UInt32) (u : Usage) : Prop where
  base_eq : u.arena.base = base
  base_le : u.arena.base.toNat ≤ u.arena.next.toNat
  below : ∀ b ∈ u.blocks, b.stop ≤ u.arena.next.toNat
  ordered : u.blocks.Pairwise fun later earlier => earlier.stop ≤ later.ptr.toNat
  placed : ∀ b ∈ u.blocks, 8 ∣ b.ptr.toNat ∧ u.arena.base.toNat ≤ b.ptr.toNat ∧ b.stop ≤ b.memory.toNat

lemma stacked_new (base memory : UInt32) : Stacked (if base = 0 then defaultBase else base) (new base memory) where
  base_eq := rfl
  base_le := Nat.le_refl _
  below := by simp [new]
  ordered := .nil
  placed := by simp [new]

lemma Stacked.alloc {base : UInt32} {u : Usage} (h : Stacked base u) {size ptr : UInt32} {a : Arena}
    (hgranted : Granted u.arena u.memory size ptr a) :
    Stacked base ⟨a, u.memory, ⟨ptr, size, u.memory⟩ :: u.blocks⟩ := by
  obtain ⟨hptr, hnext⟩ := hgranted.lt
  have hbase := h.base_le
  refine ⟨hgranted.base.trans h.base_eq, ?_, ?_, ?_, ?_⟩
  · simp only [hgranted.base]
    omega
  · rw [List.forall_mem_cons]
    refine ⟨hnext.le, fun b hb => ?_⟩
    have hb := h.below b hb
    simp only
    omega
  · exact .cons (fun b hb => (h.below b hb).trans hptr) h.ordered
  · rw [List.forall_mem_cons]
    simp only [hgranted.base]
    refine ⟨⟨hgranted.ptr ▸ u.arena.dvd_cursor, hbase.trans hptr, ?_⟩, h.placed⟩
    exact hnext.le.trans hgranted.next_le

lemma step_free (u : Usage) (ptr : UInt32) : u.step (.free ptr) = u := by
  rw [step]
  split <;> rfl

lemma Stacked.step {base : UInt32} {u : Usage} (h : Stacked base u) (request : Request) :
    Stacked base (u.step request) := by
  cases request with
  | alloc size =>
    rw [Usage.step]
    split
    · next hgranted => exact h.alloc (granted_of_alloc hgranted)
    · exact h
  | free ptr => rwa [step_free]
  | resize memory => exact ⟨h.base_eq, h.base_le, h.below, h.ordered, h.placed⟩

lemma stacked_after (base memory : UInt32) (requests : List Request) :
    Stacked (if base = 0 then defaultBase else base) (after base memory requests) := by
  suffices hrun : ∀ u, Stacked (if base = 0 then defaultBase else base) u →
      Stacked (if base = 0 then defaultBase else base) (requests.foldl .step u) from
    hrun _ (stacked_new base memory)
  induction requests with
  | nil => exact fun u hu => hu
  | cons request rest ih => exact fun u hu => ih _ (hu.step request)

/-- What can be relied on while an arena that starts at `base` is in use. -/
structure Sound (base : UInt32) (u : Usage) : Prop where
  /-- No two blocks share a byte. -/
  disjoint : u.blocks.Pairwise fun b c => b.stop ≤ c.ptr.toNat ∨ c.stop ≤ b.ptr.toNat
  /-- Each block is aligned, and lay between the base and the end of the memory when it was handed out. -/
  placed : ∀ b ∈ u.blocks, 8 ∣ b.ptr.toNat ∧ base.toNat ≤ b.ptr.toNat ∧ b.stop ≤ b.memory.toNat
  /-- A request fails if there is no room for it, and only then, and says how much room there is. -/
  fails_iff : ∀ size fault, u.arena.alloc u.memory.toNat size = .error fault ↔
    u.memory.toNat < u.arena.cursor + max size.toNat 1 ∧
      fault = .outOfMemory (max size.toNat 1) (u.memory.toNat - u.arena.cursor)
  /-- A request that fails changes nothing. -/
  failed : ∀ size, u.memory.toNat < u.arena.cursor + max size.toNat 1 → u.step (.alloc size) = u
  /-- Every block can be given back, now or later. -/
  freed : ∀ b ∈ u.blocks, u.arena.free b.ptr = .ok ()
  /-- Giving back whatever pointer changes nothing. -/
  free_step : ∀ ptr, u.step (.free ptr) = u
  /-- Nothing is lost in the computation of the next block, whatever its size. -/
  exact : ∀ size, Exact u.arena u.memory size

lemma Stacked.free {base : UInt32} {u : Usage} (h : Stacked base u) {b : Block} (hb : b ∈ u.blocks) :
    u.arena.free b.ptr = .ok () := by
  have hstop := h.below b hb
  have hbase := (h.placed b hb).2.1
  rw [Block.stop] at hstop
  have hlow : ¬ b.ptr < u.arena.base := by
    rw [UInt32.lt_iff_toNat_lt]
    omega
  have hhigh : ¬ u.arena.next ≤ b.ptr := by
    rw [UInt32.le_iff_toNat_le]
    omega
  simp [Arena.free, hlow, hhigh]

/-- An arena is sound in whatever memory and after whatever requests. -/
theorem sound_after (base memory : UInt32) (requests : List Request) :
    Sound (if base = 0 then defaultBase else base) (after base memory requests) := by
  have hstacked := stacked_after base memory requests
  generalize after base memory requests = u at hstacked
  refine ⟨hstacked.ordered.imp .inr, ?_, fun size fault => ?_, fun size hfull => ?_,
    fun b hb => hstacked.free hb, u.step_free, exact u.arena u.memory⟩
  · rw [← hstacked.base_eq]
    exact hstacked.placed
  · rw [alloc_eq]
    split
    · next hfull => simp [hfull, eq_comm]
    · next hfits => simp [hfits]
  · rw [Usage.step, alloc_eq, if_pos hfull]

/-- A memory that shrinks below what is handed out and grows again: the request in between fails, and the next
block lies above the first. -/
example : (after 65537 131072 [.alloc 0, .resize 65540, .alloc 1, .resize 131072, .alloc 3]).blocks
    = [⟨65552, 3, 131072⟩, ⟨65544, 0, 131072⟩] := by
  decide

end Usage

end Transpiler.Guest.Arena
