import Transpiler.Proofs.Guest.Observing

/-!
# Giving back what was taken

A parse that comes back has given back each block that it took, once and in reverse, and a descriptor that the guest had
made ready was emptied by it before. What a parse enters in the journal is `Settled` in all cases but one: if the host
breaks down over a descriptor, that block stays. The main result is `Instance.serialize_settled`.
-/

namespace Transpiler.Guest

open List

variable {γ : Type}

namespace Deed

/-- The block that was obtained. -/
def reserved? : Deed → Option UInt32
  | .reserved p => some p
  | _ => none

/-- The block that is given back. -/
def freed? : Deed → Option UInt32
  | .freed p => some p
  | _ => none

end Deed

/-- The blocks that were obtained, in order. -/
def reservedBlocks (deeds : List Deed) : List UInt32 := deeds.filterMap Deed.reserved?

/-- The blocks that were given back, in order. -/
def freedBlocks (deeds : List Deed) : List UInt32 := deeds.filterMap Deed.freed?

lemma length_reservedBlocks (deeds : List Deed) : (reservedBlocks deeds).length = deeds.countP Deed.isReserved := by
  rw [reservedBlocks, length_filterMap_eq_countP]
  congr 1
  funext d
  cases d <;> rfl

lemma length_freedBlocks (deeds : List Deed) : (freedBlocks deeds).length = deeds.countP Deed.isFreed := by
  rw [freedBlocks, length_filterMap_eq_countP]
  congr 1
  funext d
  cases d <;> rfl

/-- Every entry about a block matters. -/
lemma blocks_keysOf (deeds : List Deed) :
    reservedBlocks (keysOf deeds) = reservedBlocks deeds ∧ freedBlocks (keysOf deeds) = freedBlocks deeds := by
  simp only [reservedBlocks, freedBlocks, keysOf, filterMap_filter]
  constructor
  all_goals
    congr 1
    funext d
    cases d with
    | reserved p => rfl
    | freed p => rfl
    | called c => exact ite_self _

/-- Each block is given back once, the later one first, and no other is. -/
lemma Settled.freedBlocks_eq {g : Code γ} {a : Answer} {deeds : List Deed} (h : Settled g a deeds) :
    freedBlocks deeds = (reservedBlocks deeds).reverse := by
  cases h with
  | nothing | source => rfl
  | refused p desc _ htried => rcases htried with rfl | ⟨finish, -, rfl⟩ <;> rfl
  | plain p desc _ hparsed => rcases hparsed with ⟨-, rfl⟩ | ⟨args, finish, rfl, -⟩ <;> rfl
  | buffer p desc _ _ hparsed hemptied =>
    rcases hparsed with ⟨-, rfl⟩ | ⟨args, finish, rfl, -⟩
    · cases hemptied <;> rfl
    · cases hemptied <;> rfl

namespace Instance

/-- **Allocations are balanced.** Whatever the guest does, as long as its functions give the words they are asked for,
and whatever the instance was before, a parse comes back. It gives each block it took back once, the later one
first, and no other; a descriptor that the guest has made ready is emptied by the guest right before. So both
counters grow by the same amount. The calls that are entered are those that the guest receives. -/
theorem serialize_settled (source : Text) (i : Instance γ) (h : i.guest.GivesWords) :
    (i.serialize source).1.broken = false ∧ ∃ deeds, (i.serialize source).2.journal = i.journal ++ deeds ∧
      ((i.observed []).serialize source).2.machine.globals.2 = callsOf deeds ∧
      Settled i.guest (i.serialize source).1 (keysOf deeds) ∧
      freedBlocks deeds = (reservedBlocks deeds).reverse ∧
      ∃ n, (i.serialize source).2.stats.allocations = i.stats.allocations + n ∧
        (i.serialize source).2.stats.frees = i.stats.frees + n := by
  obtain ⟨deeds, hobserved, hgrows, hleft, hbroken⟩ := serialize_leaves source i []
  have hsound : (i.serialize source).1.broken = false := by simpa using fun hbreak => hbroken hbreak h
  have hsettled : Settled i.guest (i.serialize source).1 (keysOf deeds) := by
    rcases hleft with hsettled | ⟨hbreak, -⟩
    · exact hsettled
    · rw [hbreak] at hsound
      cases hsound
  have hblocks : freedBlocks deeds = (reservedBlocks deeds).reverse := by
    rw [← (blocks_keysOf deeds).1, ← (blocks_keysOf deeds).2, hsettled.freedBlocks_eq]
  refine ⟨hsound, deeds, hgrows.journal, by rw [hobserved]; rfl, hsettled, hblocks,
    (reservedBlocks deeds).length, ?_, ?_⟩
  · simp only [stats, hgrows.journal, countP_append, length_reservedBlocks]
  · simp only [stats, hgrows.journal, countP_append, ← length_freedBlocks, hblocks, length_reverse]

/-- A guest with an allocator and functions for buffers. It exits from a parse, traps when it is to empty a descriptor,
and returns these words when it has made one ready. -/
def buffered (words : List UInt64) : Instance UInt64 :=
  .new ⟨[("malloc", ⟨1, fun _ m => (.returned [m.globals], { m with globals := m.globals + 16 })⟩),
    ("pm_buffer_sizeof", ⟨0, fun _ m => (.returned [12], m)⟩),
    ("pm_buffer_init", ⟨1, fun _ m => (.returned words, m)⟩),
    ("pm_buffer_value", ⟨1, fun _ m => (.returned [16], m)⟩),
    ("pm_buffer_length", ⟨1, fun _ m => (.returned [1], m)⟩),
    ("pm_buffer_free", ⟨1, fun _ m => (.trapped "full", m)⟩), (parseName, ⟨4, fun _ m => (.exited 3, m)⟩)]⟩
    ⟨⟨.blank 64, .new [] [] []⟩, 16⟩ 32

lemma givesWords_buffered : (buffered [1]).guest.GivesWords := by
  intro buffer hbuffer
  obtain rfl := Option.some.inj hbuffer
  refine ⟨?_, ?_, ?_, ?_⟩
  all_goals rintro _ _ ⟨⟩

/-- The guest is called to empty the descriptor before that is freed, and its trap changes nothing about the blocks. -/
theorem serialize_settled_buffered :
    keysOf ((buffered [1]).serialize "a").2.journal =
      [.reserved 16, .reserved 32, Act.initCall 32 (.returned [1]), .called ⟨parseName, [32, 16, 1, 0], .exited 3⟩,
        Act.emptyCall 32 (.trapped "full"), .freed 32, .freed 16] ∧
      ∃ deeds, ((buffered [1]).serialize "a").2.journal = deeds ∧
        (((buffered [1]).observed []).serialize "a").2.machine.globals.2 = callsOf deeds ∧
        freedBlocks deeds = (reservedBlocks deeds).reverse := by
  obtain ⟨-, deeds, hjournal, hcalls, -, hblocks, -⟩ := serialize_settled "a" (buffered [1]) givesWords_buffered
  exact ⟨by decide +kernel, deeds, hjournal, hcalls, hblocks⟩

/-- Without a word from the guest the host breaks down, and the descriptor is not freed. -/
example : ((buffered []).serialize "a").1.broken = true ∧ ((buffered []).serialize "a").2.stats = ⟨2, 1, 0⟩ := by
  decide +kernel

end Instance

end Transpiler.Guest
