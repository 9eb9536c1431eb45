import Mathlib.Data.List.Forall2
import Transpiler.Guest.Loading
import Transpiler.Proofs.Guest.Blocks
import Transpiler.Proofs.Guest.Calls
import Transpiler.Proofs.Guest.Cells

/-!
# A source goes through the guest unharmed

A module that answers with the source shows what the host does to memory: the source is written to one block, the
descriptor to another, and the answer is read from the first. It is the source if the blocks do not overlap, and no
block starts below the end of an earlier one that fits into memory (`Instance.floor`). That holds of both allocators
in every state, also when the guest's heap has run past the end of memory. The main result is
`Instance.serialize_echo`.
-/

namespace Transpiler.Guest

open List Guest.Module UInt32 Loading Cleanups After Memory Instance

/-! ## The functions of a module -/

namespace Module

variable (m : Module)

lemma lookup_forwarded {t : Text} (h : t.take 5 ≠ "call_") (names : List Text) :
    (names.map fun name => (("call_" : Text) ++ name, forwarded name)).lookup t = none := by
  rw [lookup_eq_none_iff]
  rintro p hp
  obtain ⟨name, -, rfl⟩ := mem_map.1 hp
  rw [bne_iff_ne]
  rintro rfl
  exact h (take_left' rfl)

/-- The bytes of a module declare the functions by which it behaves: as many, in the same order and under the same
names, each with as many parameters. -/
theorem functions_guest : m.guest.exports.map Prod.fst = m.exportNames ∧
    Forall₂ (fun e f => ∃ type, m.types[f.1]? = some type ∧ type.1.length = e.2.arity) m.guest.exports m.functions := by
  have hforward : Forall₂ (fun e f => ∃ type, m.types[f.1]? = some type ∧ type.1.length = e.2.arity)
      (m.forward.map fun name => (("call_" : Text) ++ name, forwarded name))
      (m.forward.mapIdx fun i name => (fixedTypes.length + i, (List.range (forwardParams name).length).flatMap localGet
        ++ callFunction (2 + (if m.extraImport.isEmpty then 0 else 1) + i))) := by
    refine forall₂_iff_get.2 ⟨by simp, fun i hi hi' => ?_⟩
    have hlt : i < m.forward.length := by simpa using hi
    refine ⟨(forwardParams m.forward[i], [i32]), ?_, ?_⟩
    · rw [types, getElem?_append_right (by simp)]
      simp [hlt]
    · simp [forwarded, forwardParams]
  constructor
  · simp only [guest, ownExports, exportNames, map_append, map_map]
    cases m.noAllocator <;> cases m.bufferFunctions <;> rfl
  · refine rel_append (rel_append (rel_append (rel_append ?_ ?_) ?_) ?_) hforward
    · exact .cons ⟨_, rfl, rfl⟩ .nil
    · cases m.noAllocator with
      | true => exact .nil
      | false => exact .cons ⟨_, rfl, rfl⟩ (.cons ⟨_, rfl, rfl⟩ .nil)
    · cases m.bufferFunctions with
      | false => exact .nil
      | true =>
        exact .cons ⟨_, rfl, rfl⟩ (.cons ⟨_, rfl, rfl⟩ (.cons ⟨_, rfl, rfl⟩ (.cons ⟨_, rfl, rfl⟩
          (.cons ⟨_, rfl, rfl⟩ .nil))))
    · exact .cons ⟨_, rfl, rfl⟩ .nil

lemma export?_guest {t : Text} (h : t.take 5 ≠ "call_") : m.guest.export? t = m.ownExports.lookup t := by
  have hexports : m.guest.exports
      = m.ownExports ++ m.forward.map fun name => (("call_" : Text) ++ name, forwarded name) := rfl
  rw [Code.export?, hexports, lookup_append, lookup_forwarded h, Option.or_none]

lemma export?_malloc : m.guest.export? "malloc" = if m.noAllocator then none else some malloc := by
  rw [export?_guest m (by decide), ownExports]
  cases m.noAllocator <;> cases m.bufferFunctions <;> rfl

lemma export?_calloc : m.guest.export? "calloc" = none := by
  rw [export?_guest m (by decide), ownExports]
  cases m.noAllocator <;> cases m.bufferFunctions <;> rfl

lemma export?_free : m.guest.export? "free" = if m.noAllocator then none else some ignore := by
  rw [export?_guest m (by decide), ownExports]
  cases m.noAllocator <;> cases m.bufferFunctions <;> rfl

lemma export?_parse : m.guest.export? parseName = some m.parse := by
  rw [export?_guest m (by decide), ownExports]
  cases m.noAllocator <;> cases m.bufferFunctions <;> rfl

/-- The functions for buffers of a module that has them. -/
def buffer : BufferFunctions UInt32 where
  sizeof := bufferSizeof
  init := m.bufferInit
  value := m.bufferWord "pm_buffer_value" 0
  length := m.bufferWord "pm_buffer_length" 4
  free := ignore

lemma bufferFunctions?_guest : m.guest.bufferFunctions? = if m.bufferFunctions then some m.buffer else none := by
  rw [Code.bufferFunctions?, export?_guest m (by decide), export?_guest m (by decide),
    export?_guest m (by decide), export?_guest m (by decide), export?_guest m (by decide), ownExports]
  cases m.noAllocator <;> cases m.bufferFunctions <;> rfl

lemma allocates_guest : m.guest.allocates = !m.noAllocator := by
  rw [Code.allocates, export?_malloc, export?_calloc]
  cases m.noAllocator <;> rfl

end Module

/-! ## Instances of a module -/

/-- An open instance of a module: its memory can be addressed, and its heap grows by multiples of eight. -/
structure Instance.Hosts (i : Instance UInt32) (m : Module) : Prop where
  guest : i.guest = m.guest
  opened : i.closed = false
  size_le : i.machine.memory.size ≤ 2 ^ 32
  aligned : i.machine.globals.toNat % 8 = 0

/-- No block that is handed out from now on starts below this. A heap that has come around to zero hands out
nothing any more. -/
def Instance.floor (i : Instance UInt32) : Nat :=
  if i.guest.allocates then
    if i.machine.globals = 0 then 2 ^ 32 else i.machine.globals.toNat
  else i.arena.next.toNat

/-- The second instance has the memory and the allocator of the first one. -/
structure Instance.Still (i i' : Instance UInt32) : Prop where
  guest : i'.guest = i.guest
  closed : i'.closed = i.closed
  memory : i'.machine.memory = i.machine.memory
  globals : i'.machine.globals = i.machine.globals
  arena : i'.arena = i.arena

variable {memory : Memory}

namespace Instance

variable {m : Module} {i i' i'' : Instance UInt32}

lemma Still.refl (i : Instance UInt32) : i.Still i := ⟨rfl, rfl, rfl, rfl, rfl⟩

lemma Still.trans (h : i.Still i') (h' : i'.Still i'') : i.Still i'' :=
  ⟨h'.guest.trans h.guest, h'.closed.trans h.closed, h'.memory.trans h.memory, h'.globals.trans h.globals,
    h'.arena.trans h.arena⟩

lemma Still.hosts (h : i.Still i') (hi : i.Hosts m) : i'.Hosts m where
  guest := h.guest.trans hi.guest
  opened := h.closed.trans hi.opened
  size_le := h.memory ▸ hi.size_le
  aligned := h.globals ▸ hi.aligned

/-- Memory of the same size does not matter to the instance's allocator. -/
lemma Hosts.withMemory (h : i.Hosts m) (hsize : memory.size = i.machine.memory.size) :
    { i with machine := { i.machine with memory := memory } }.Hosts m :=
  ⟨h.guest, h.opened, hsize ▸ h.size_le, h.aligned⟩

/-- Nor does it matter which call left it. -/
lemma Hosts.received (h : i.Hosts m) (c : Received) (hsize : memory.size = i.machine.memory.size) :
    (i.received c { i.machine with memory := memory }).Hosts m :=
  ⟨h.guest, h.opened, hsize ▸ h.size_le, h.aligned⟩

lemma Still.received (i : Instance UInt32) (c : Received) : i.Still (i.received c i.machine) := ⟨rfl, rfl, rfl, rfl, rfl⟩

end Instance

/-! ## Blocks -/

/-- Where the heap goes for a block that fits into memory: past the block, or around to zero if the block ends
with the last byte that has an address. -/
lemma Module.heap_past {heap size : UInt32} (haligned : heap.toNat % 8 = 0) (hne : heap ≠ 0)
    (hfits : heap.toNat + size.toNat ≤ 2 ^ 32) :
    heap + (size + 7) / 8 * 8 = 0 ∨ heap.toNat + size.toNat ≤ (heap + (size + 7) / 8 * 8).toNat := by
  have hpos : heap.toNat ≠ 0 := fun h => hne (UInt32.toNat_inj.1 h)
  have hnext : (heap + (size + 7) / 8 * 8).toNat
      = (heap.toNat + (size.toNat + 7) % 2 ^ 32 / 8 * 8 % 2 ^ 32) % 2 ^ 32 := by
    simp [UInt32.toNat_add, UInt32.toNat_mul, UInt32.toNat_div]
  by_cases hzero : (heap + (size + 7) / 8 * 8).toNat = 0
  · exact .inl (UInt32.toNat_inj.1 hzero)
  · right
    omega

lemma Module.heap_aligned {heap : UInt32} (haligned : heap.toNat % 8 = 0) (size : UInt32) :
    (heap + (size + 7) / 8 * 8).toNat % 8 = 0 := by
  have hnext : (heap + (size + 7) / 8 * 8).toNat
      = (heap.toNat + (size.toNat + 7) % 2 ^ 32 / 8 * 8 % 2 ^ 32) % 2 ^ 32 := by
    simp [UInt32.toNat_add, UInt32.toNat_mul, UInt32.toNat_div]
  omega

lemma Memory.writeAll_size (memory : Memory) (segments : List (Nat × Text)) :
    (memory.writeAll segments).2.size = memory.size := by
  induction segments generalizing memory with
  | nil => rfl
  | cons segment rest ih =>
    obtain ⟨offset, data⟩ := segment
    rw [writeAll]
    split
    · rename_i written hwrite
      rw [ih]
      rw [write?] at hwrite
      split at hwrite
      · cases hwrite
        rfl
      · cases hwrite
    · rfl

namespace Act

variable {m : Module} {i : Instance UInt32}

/-- A block was handed out: memory is as before, and if the block fits into it, later ones lie above. -/
structure Took (m : Module) (size : UInt32) (i : Instance UInt32) (ptr : UInt32) (i' : Instance UInt32) :
    Prop where
  hosts : i'.Hosts m
  memory : i'.machine.memory = i.machine.memory
  floor_le : i.floor ≤ ptr.toNat
  below : ptr.toNat + size.toNat ≤ i.machine.memory.size → ptr.toNat + size.toNat ≤ i'.floor

lemma after_allocFromGuest (h : i.Hosts m) (hm : m.noAllocator = false) (size : UInt32) :
    (allocFromGuest size).After i (Took m size i) (·.Hosts m) := by
  have hallocates : m.guest.allocates := by rw [m.allocates_guest, hm]; rfl
  have hask : (askForBlock size).After i (fun outcome i' =>
      outcome = .ok (result i.machine.globals) ∧ ∃ c, i' = i.received c { i.machine with
        globals := i.machine.globals + (size + 7) / 8 * 8 }) (·.Hosts m) := by
    refine .get_bind ?_
    rw [h.guest, m.export?_malloc, hm]
    exact After.callOnStack_finished h.opened (Nat.le_refl 1) rfl
      ⟨rfl, ⟨"malloc", [size.toUInt64], .returned (result i.machine.globals)⟩, by
        simp [arg, malloc]⟩
  refine hask.bind ?_
  rintro _ i' ⟨rfl, c, rfl⟩
  have hword : ((result i.machine.globals).headD 0).toUInt32 = i.machine.globals := by simp [result]
  refine .dite (fun _ => ?_) fun hne => .pure ?_
  · exact After.refuse ⟨h.guest, h.opened, h.size_le, heap_aligned h.aligned size⟩
  · rw [hword] at hne ⊢
    refine ⟨⟨h.guest, h.opened, h.size_le, heap_aligned h.aligned size⟩, rfl, ?_, fun hfits => ?_⟩
    · rw [floor, h.guest, hallocates, if_pos rfl, if_neg hne]
    · simp only [floor, received, h.guest, hallocates, if_true]
      have hsize := h.size_le
      rcases heap_past h.aligned hne (hfits.trans hsize) with hzero | hle
      · rw [if_pos hzero]
        omega
      · split
        · omega
        · exact hle

lemma after_allocFromArena (h : i.Hosts m) (hm : m.noAllocator) (size : UInt32) :
    (allocFromArena size).After i (Took m size i) (·.Hosts m) := by
  have hallocates : m.guest.allocates = false := by rw [m.allocates_guest, hm]; rfl
  rw [After, Transpiler.After, allocFromArena]
  cases hrun : i.arena.alloc i.machine.memory.reportedSize.toNat size with
  | error fault => exact h
  | ok place =>
    obtain ⟨ptr, arena⟩ := place
    obtain ⟨hfloor, hbelow⟩ := (Arena.granted_of_alloc hrun).lt
    refine ⟨⟨h.guest, h.opened, h.size_le, h.aligned⟩, rfl, ?_, fun _ => ?_⟩
    · rw [floor, h.guest, hallocates]
      exact hfloor
    · simp only [floor, h.guest, hallocates]
      exact (Nat.add_le_add_left (Nat.le_max_left _ _) _).trans hbelow.le

lemma after_allocate (h : i.Hosts m) (size : UInt32) : (allocate size).After i (Took m size i) (·.Hosts m) := by
  have hobtain : (obtainBlock size).After i (Took m size i) (·.Hosts m) := by
    refine .get_bind ?_
    rw [h.guest, m.allocates_guest]
    cases hm : m.noAllocator with
    | false => exact after_allocFromGuest h hm size
    | true => exact after_allocFromArena h hm size
  refine .get_bind (After.ite (After.refuse h) (hobtain.bind ?_))
  intro ptr i' htook
  exact After.note_bind (After.pure
    ⟨⟨htook.hosts.guest, htook.hosts.opened, htook.hosts.size_le, htook.hosts.aligned⟩, htook.memory,
      htook.floor_le, htook.below⟩)

lemma after_freeToGuest (h : i.Hosts m) (ptr : UInt32) :
    (freeToGuest ptr).After i (fun _ i' => i.Still i') (i.Still ·) := by
  refine .get_bind ?_
  rw [h.guest, m.export?_free]
  cases m.noAllocator with
  | true => exact pure (.refl i)
  | false =>
    have hcall : (callOnStack "free" ignore [ptr.toUInt64]).After i (fun _ i' => i.Still i') (i.Still ·) :=
      .callOnStack_finished h.opened (Nat.le_refl 1) rfl (.received i _)
    refine ite (pure (.refl i)) (hcall.bind ?_)
    rintro (fault | results) i' hstill
    · exact After.refuse hstill
    · exact .pure hstill

lemma after_free (h : i.Hosts m) (ptr : UInt32) : (free ptr).After i (fun _ i' => i.Still i') (i.Still ·) := by
  have hnoted : { i with journal := i.journal ++ [Deed.freed ptr] }.Hosts m :=
    ⟨h.guest, h.opened, h.size_le, h.aligned⟩
  have hstill : i.Still { i with journal := i.journal ++ [Deed.freed ptr] } := ⟨rfl, rfl, rfl, rfl, rfl⟩
  refine .note_bind (.get_bind (.ite (.pure hstill) ?_))
  refine ite ((after_freeToGuest hnoted ptr).mono (fun _ _ => hstill.trans) fun _ _ => hstill.trans) ?_
  cases i.arena.free ptr with
  | ok a => exact .pure hstill
  | error fault => exact After.refuse hstill

lemma hosts_free (h : i.Hosts m) (ptr : UInt32) : (free ptr).After i (fun _ i' => i'.Hosts m) (·.Hosts m) :=
  (after_free h ptr).mono (fun _ _ hstill => hstill.hosts h) fun _ _ hstill => hstill.hosts h

/-- A block is taken and something is done with it, after which things go on; if that fails the block is
given back. -/
lemma after_taking {α β : Type} {size : UInt32} {act : UInt32 → Act UInt32 β} {next : UInt32 → β → Act UInt32 α}
    {done : UInt32 → β → Instance UInt32 → Prop} {ok : α → Instance UInt32 → Prop} (h : i.Hosts m)
    (hact : ∀ ptr i', Took m size i ptr i' → (act ptr).After i' (done ptr) (·.Hosts m))
    (hnext : ∀ ptr b i', done ptr b i' → (next ptr b).After i' ok (·.Hosts m)) :
    (do let ptr ← allocate size; let b ← undoing (act ptr) (free ptr); next ptr b).After i ok (·.Hosts m) := by
  refine (after_allocate h size).bind fun ptr i' htook => ?_
  have hundone : (undoing (act ptr) (free ptr)).After i' (done ptr) (·.Hosts m) :=
    (hact ptr i' htook).undoing fun i'' hi'' => hosts_free hi'' ptr
  exact hundone.bind fun b i'' hdone => hnext ptr b i'' hdone

/-! ## A parse -/

/-- The source stands in memory where it is said to, below everything that is handed out later. -/
structure Placed (m : Module) (source : Text) (place : UInt32 × UInt32) (i : Instance UInt32) : Prop where
  hosts : i.Hosts m
  length : place.2 = ofNat source.length
  bytes : i.machine.memory.bytes place.1.toNat source.length = source
  below : source.length + 1 < 2 ^ 32 → place.1.toNat + source.length ≤ i.floor

lemma after_writeString (h : i.Hosts m) (source : Text) :
    (writeString source).After i (Placed m source) (·.Hosts m) := by
  refine after_taking h ?_ fun ptr _ i' (hplaced : Placed m source (ptr, ofNat source.length) i') =>
    .pure hplaced
  intro ptr i' htook
  refine .changeMemory (fun memory hwrite => ?_) htook.hosts
  obtain ⟨hfits, rfl⟩ := write_eq_ok hwrite
  refine ⟨htook.hosts.withMemory rfl, rfl, bytes_put .., fun hlength => ?_⟩
  have hsize : (ofNat (source.length + 1)).toNat = source.length + 1 :=
    toNat_ofNat_of_lt' hlength
  have hbelow := htook.below
  rw [hsize, ← htook.memory] at hbelow
  rw [length_append, length_singleton] at hfits
  exact Nat.le_of_succ_le (hbelow hfits)

/-- There is an empty descriptor above the floor, and below it memory is as before. -/
structure Described (m : Module) (i : Instance UInt32) (desc : UInt32) (i' : Instance UInt32) : Prop where
  hosts : i'.Hosts m
  floor_le : i.floor ≤ desc.toNat
  agree : i.machine.memory.AgreeBelow i'.machine.memory desc.toNat

lemma Described.of_took {size desc : UInt32} {i' i'' : Instance UInt32} (htook : Took m size i desc i')
    (hosts : i''.Hosts m) (h : i'.machine.memory.AgreeBelow i''.machine.memory desc.toNat) : Described m i desc i'' :=
  ⟨hosts, htook.floor_le, htook.memory ▸ h⟩

lemma after_initBuffer {size desc : UInt32} {i' : Instance UInt32} (htook : Took m size i desc i') :
    (initBuffer m.bufferInit desc).After i' (fun ready i'' => ready = some 1 ∧ Described m i desc i'') (·.Hosts m) := by
  have harg : arg [desc.toUInt64] 0 = desc := by simp [arg]
  have hagree := agreeBelow_storeWords i'.machine.memory desc.toNat [0, 0, 0]
  have hcall : (callWord "pm_buffer_init" m.bufferInit [desc.toUInt64]).After i'
      (fun ready i'' => ready = some 1 ∧ Described m i desc i'') (·.Hosts m) := by
    rcases hstored : storeWords i'.machine.memory desc.toNat [0, 0, 0] with ⟨_ | _, memory⟩
    · rw [hstored] at hagree
      have hrun : m.bufferInit.run [desc.toUInt64] i'.machine
          = (m.outside "pm_buffer_init" 1, { i'.machine with memory := memory }) := by
        simp only [bufferInit, harg, hstored]
      exact .callWord_trapped htook.hosts.opened rfl hrun (htook.hosts.received _ hagree.size)
    · rw [hstored] at hagree
      have hrun : m.bufferInit.run [desc.toUInt64] i'.machine
          = (.returned (result 1), { i'.machine with memory := memory }) := by
        simp only [bufferInit, harg, hstored]
      exact .callWord_returned htook.hosts.opened rfl hrun
        ⟨rfl, .of_took htook (htook.hosts.received _ hagree.size) hagree⟩
  refine hcall.bind ?_
  rintro _ i'' ⟨rfl, hdescribed⟩
  exact .ite (After.refuse hdescribed.hosts) (After.pure ⟨rfl, hdescribed⟩)

lemma after_newDescriptor (h : i.Hosts m) :
    newDescriptor.After i (fun found i' => ∃ desc, found = some desc ∧ Described m i desc i') (·.Hosts m) := by
  refine .get_bind ?_
  rw [h.guest, m.bufferFunctions?_guest]
  cases m.bufferFunctions with
  | false =>
    refine after_taking h ?_ fun desc _ i' (hdesc : Described m i desc i') => .pure ⟨desc, rfl, hdesc⟩
    intro desc i' htook
    refine .changeMemory (fun memory hzero => ?_) htook.hosts
    rw [zero_eq_ok hzero]
    exact .of_took htook (htook.hosts.withMemory rfl) (agreeBelow_clear ..)
  | true =>
    have hsizeof : (callWord "pm_buffer_sizeof" bufferSizeof []).After i
        (fun found i' => found = some 12 ∧ ∃ c, i' = i.received c i.machine) (·.Hosts m) :=
      After.callWord_returned h.opened rfl rfl ⟨rfl, _, rfl⟩
    refine hsizeof.bind ?_
    rintro _ _ ⟨rfl, c, rfl⟩
    have hstill := Instance.Still.received i c
    refine after_taking (hstill.hosts h) (fun _ _ => after_initBuffer) ?_
    rintro desc _ i' ⟨rfl, hdesc⟩
    exact .pure ⟨desc, rfl, hdesc.hosts, hdesc.floor_le, hdesc.agree⟩

end Act

/-- A module that answers a parse with the source: it writes nothing to its streams and does not trap. -/
structure Module.Echoes (m : Module) : Prop where
  echo : m.echo
  trap : m.trap = false
  stdout : m.stdout = []
  stderr : m.stderr = []

lemma Module.Echoes.textPlaces {m : Module} (h : m.Echoes) : m.textPlaces = [] := by
  rw [Module.textPlaces, h.stdout, h.stderr]
  rfl

/-- A parse stores the place and length of the source and ends, if that fits into memory. -/
lemma Module.Echoes.parse_run {m : Module} (h : m.Echoes) {args : List UInt64} {s : Machine UInt32}
    (hstored : storeWords s.memory (arg args 0).toNat [arg args 1, arg args 2, arg args 2] = (true, memory)) :
    m.parse.run args s = (.returned [], { s with memory := memory })
      ∨ ∃ code, m.parse.run args s = (.exited code, { s with memory := memory }) := by
  simp only [parse, h.trap, h.echo, h.textPlaces, writeTexts, Bool.false_eq_true, if_false, if_true, hstored]
  cases m.exit with
  | none => exact .inl rfl
  | some code => exact .inr ⟨code, rfl⟩

lemma Module.Echoes.parse_run_outside {m : Module} (h : m.Echoes) {args : List UInt64} {s : Machine UInt32}
    (hstored : storeWords s.memory (arg args 0).toNat [arg args 1, arg args 2, arg args 2] = (false, memory)) :
    ∃ message, m.parse.run args s = (.trapped message, { s with memory := memory }) := by
  simp only [parse, h.trap, h.echo, h.textPlaces, writeTexts, Bool.false_eq_true, if_false, if_true, hstored]
  exact ⟨_, rfl⟩

variable {place : UInt32 × UInt32}

namespace Act

variable {m : Module} {i : Instance UInt32}

/-- The descriptor says that the answer is at `place`, and below the descriptor memory is as before. -/
structure Answered (m : Module) (i : Instance UInt32) (desc : UInt32) (place : UInt32 × UInt32)
    (i' : Instance UInt32) : Prop where
  hosts : i'.Hosts m
  agree : i.machine.memory.AgreeBelow i'.machine.memory desc.toNat
  value : i'.machine.memory.word? desc.toNat = some place.1
  length : i'.machine.memory.word? (desc.toNat + 4) = some place.2

/-- The guest stores what it was given, and then returns or exits. -/
lemma after_callParse (h : i.Hosts m) (hm : m.Echoes) (desc ptr length : UInt32) :
    (callFunction parseName m.parse [desc.toUInt64, ptr.toUInt64, length.toUInt64, (0 : UInt32).toUInt64]).After i
      (fun outcome i' => (∀ message, outcome = .error (.trapped message) → i'.Hosts m)
        ∧ ((∀ message, outcome ≠ .error (.trapped message)) → Answered m i desc (ptr, length) i'))
      (·.Hosts m) := by
  let args : List UInt64 := [desc.toUInt64, ptr.toUInt64, length.toUInt64, (0 : UInt32).toUInt64]
  have hargs : arg args 0 = desc ∧ arg args 1 = ptr ∧ arg args 2 = length := by
    simp [arg, args]
  have hagree := agreeBelow_storeWords i.machine.memory desc.toNat [ptr, length, length]
  rcases hstored : storeWords i.machine.memory desc.toNat [ptr, length, length] with ⟨_ | _, memory⟩
  · rw [hstored] at hagree
    rw [← hargs.1, ← hargs.2.1, ← hargs.2.2] at hstored
    obtain ⟨message, hrun⟩ := hm.parse_run_outside hstored
    exact .callFunction_finished h.opened rfl hrun ⟨fun _ _ => h.received _ hagree.size, fun hne => absurd rfl (hne _)⟩
  · rw [hstored] at hagree
    obtain ⟨hvalue, between, hrest⟩ := storeWords_cons hstored
    have hlength := (storeWords_cons hrest).1
    rw [← hargs.1, ← hargs.2.1, ← hargs.2.2] at hstored
    have hanswered : ∀ c, Answered m i desc (ptr, length) (i.received c { i.machine with memory := memory }) :=
      fun c => ⟨h.received c hagree.size, hagree, hvalue, hlength⟩
    rcases hm.parse_run hstored with hrun | ⟨code, hrun⟩
    · exact .callFunction_finished h.opened rfl hrun ⟨fun _ hne => (by cases hne), fun _ => hanswered _⟩
    · exact .callFunction_finished h.opened rfl hrun ⟨fun _ hne => (by cases hne), fun _ => hanswered _⟩

lemma after_invoke (h : i.Hosts m) (hm : m.Echoes) (desc ptr length : UInt32) :
    (invoke desc ptr length 0).After i (fun _ => Answered m i desc (ptr, length)) (·.Hosts m) := by
  let begun : Instance UInt32 :=
    { i with exit := none, machine := { i.machine with wasi := i.machine.wasi.reset } }
  have hbegun : begun.Hosts m := ⟨h.guest, h.opened, h.size_le, h.aligned⟩
  refine .modify_bind (.get_bind ?_)
  simp only [h.guest, m.export?_parse]
  rw [← h.guest]
  refine (after_callParse hbegun hm desc ptr length).bind ?_
  rintro ((message | code) | results) i' ⟨htrapped, hanswered⟩
  · exact After.refuse (htrapped message rfl)
  · obtain ⟨hhosts, hagree, hvalue, hlength⟩ := hanswered fun _ hne => by cases hne
    exact .pure ⟨hhosts, hagree, hvalue, hlength⟩
  · obtain ⟨hhosts, hagree, hvalue, hlength⟩ := hanswered fun _ hne => by cases hne
    exact .pure ⟨hhosts, hagree, hvalue, hlength⟩

/-- The words of the descriptor are read whichever way the instance goes. -/
lemma after_answerPlace {before : Instance UInt32} {desc : UInt32} (h : Answered m before desc place i) :
    (answerPlace desc).After i (fun found i' => found = some place ∧ i.Still i') (i.Still ·) := by
  have hword : ∀ (name : Text) (offset : Nat) (n : UInt32) (i' : Instance UInt32), i.Still i' →
      i.machine.memory.word? (desc.toNat + offset) = some n →
      (callWord name (m.bufferWord name offset) [desc.toUInt64]).After i'
        (fun found i'' => found = some n ∧ i.Still i'') (i.Still ·) := by
    intro name offset n i' hstill hn
    have hrun : (m.bufferWord name offset).run [desc.toUInt64] i'.machine = (.returned (result n), i'.machine) := by
      simp [bufferWord, arg, hstill.memory, hn]
    exact After.callWord_returned (hstill.hosts h.hosts).opened rfl hrun
      ⟨by simp [result], hstill.trans (.received i' _)⟩
  refine .get_bind ?_
  rw [h.hosts.guest, m.bufferFunctions?_guest]
  cases m.bufferFunctions with
  | true =>
    refine (hword "pm_buffer_value" 0 place.1 i (.refl i) h.value).bind ?_
    rintro _ i' ⟨rfl, hstill⟩
    refine (hword "pm_buffer_length" 4 place.2 i' hstill h.length).bind ?_
    rintro _ i'' ⟨rfl, hstill'⟩
    exact .pure ⟨rfl, hstill'⟩
  | false =>
    have hread : ∀ (offset : UInt32) (n : UInt32), i.machine.memory.word? offset.toNat = some n →
        (readMemory fun memory => memory.readWord offset : Act UInt32 UInt32).After i
          (fun found i' => found = n ∧ i' = i) (i.Still ·) := by
      intro offset n hn
      refine After.readMemory (fun found hfound => ?_) (.refl i)
      simp only [readWord, hn, Except.ok.injEq] at hfound
      exact ⟨hfound.symm, rfl⟩
    have hnext : (desc + 4).toNat = desc.toNat + 4 := by
      have hfits := fits_of_word? h.length
      have hsize := h.hosts.size_le
      rw [UInt32.toNat_add]
      exact Nat.mod_eq_of_lt (by simp only [reduceToNat]; omega)
    refine (hread desc place.1 h.value).bind ?_
    rintro _ _ ⟨rfl, rfl⟩
    refine (hread (desc + 4) place.2 (hnext ▸ h.length)).bind ?_
    rintro _ _ ⟨rfl, rfl⟩
    exact pure ⟨rfl, .refl _⟩

/-- An answer is copied from where the descriptor says, and an empty one is refused. -/
lemma after_readBuffer {before : Instance UInt32} {desc : UInt32} (h : Answered m before desc place i) :
    (readBuffer desc).After i
      (fun found i' => found = some (i.machine.memory.bytes place.1.toNat place.2.toNat) ∧ place.2 ≠ 0 ∧ i.Still i')
      (i.Still ·) := by
  refine (after_answerPlace h).bind ?_
  rintro _ i' ⟨rfl, hstill⟩
  refine After.dite (fun _ => After.refuse hstill) fun hne => After.readMemory (fun found hfound => ?_) hstill
  cases hread : i'.machine.memory.read place.1 place.2 with
  | ok bytes =>
    rw [hread] at hfound
    obtain rfl := Except.ok.inj hfound
    exact ⟨congrArg some (hstill.memory ▸ read_eq_ok hread), hne, hstill⟩
  | error fault =>
    rw [hread] at hfound
    cases hfound

lemma after_releaseDescriptor (h : i.Hosts m) (desc : UInt32) :
    (releaseDescriptor desc).After i (fun _ i' => i'.Hosts m) (·.Hosts m) := by
  have hempty : (emptyDescriptor desc).After i (fun _ i' => i'.Hosts m) (·.Hosts m) := by
    refine .get_bind ?_
    rw [h.guest, m.bufferFunctions?_guest]
    cases m.bufferFunctions with
    | false => exact .pure h
    | true =>
      refine .ite (After.pure h) (After.faultsOf ?_)
      have hcall : (callResults "pm_buffer_free" ignore [desc.toUInt64]).After i (fun _ i' => i'.Hosts m)
          (·.Hosts m) := After.callResults_returned h.opened rfl rfl ((Instance.Still.received i _).hosts h)
      exact hcall.bind fun _ _ hhosts => .pure hhosts
  refine hempty.bind fun first i' hi' => ?_
  have hfree : (faultsOf (free desc)).After i' (fun _ i'' => i''.Hosts m) (·.Hosts m) :=
    .faultsOf (hosts_free hi' desc)
  refine hfree.bind fun second i'' hi'' => ?_
  exact .ite (After.pure hi'') (After.refuse hi'')

end Act

/-- A scope whose duties leave instances of the module as such does so itself. -/
lemma Cleanups.hosts_release {m : Module} {i : Instance UInt32} (s : Cleanups UInt32) (h : i.Hosts m)
    (hundo : ∀ c ∈ s.pending, ∀ i, Instance.Hosts i m → (undo c).After i (fun _ i' => i'.Hosts m) (·.Hosts m)) :
    (s.release i).2.2.Hosts m := by
  have hall : ∀ (pending : List (Cleanup UInt32)) (i : Instance UInt32), i.Hosts m →
      (∀ c ∈ pending, ∀ i, Instance.Hosts i m → (undo c).After i (fun _ i' => i'.Hosts m) (·.Hosts m)) →
      (undoAll pending).After i (fun _ i' => i'.Hosts m) (·.Hosts m) := by
    intro pending
    induction pending with
    | nil => exact fun i hi _ => .pure hi
    | cons c rest ih =>
      intro i hi hpending
      rw [forall_mem_cons] at hpending
      refine (Act.After.faultsOf (hpending.1 i hi)).bind fun faults i' hi' => ?_
      exact (ih i' hi' hpending.2).bind fun more i'' hi'' => .pure hi''
  have hrun := hall s.pending i h hundo
  rw [Act.After, After] at hrun
  rw [release]
  split
  · exact h
  · split at hrun
    · rename_i faults i' heq
      rw [heq]
      cases faults <;> exact hrun
    · rename_i fault i' heq
      rw [heq]
      exact hrun

namespace Instance

variable {m : Module} {i : Instance UInt32}

/-- The answer to a parse of a source is a fault, or the source and nothing else. -/
def Returned (source : Text) (answer : Answer) : Prop :=
  answer.fault.isSome ∨ source ≠ [] ∧ ∃ exit, answer = ⟨some ⟨source, exit⟩, none⟩

lemma answer_returned {source : Text} {desc : UInt32} {placed : Instance UInt32}
    (hm : m.Echoes) (hplaced : Act.Placed m source place placed) (hdesc : Act.Described m placed desc i) :
    (i.answer desc place.1 place.2).2.Hosts m
      ∧ (source.length + 1 < 2 ^ 32 → Returned source (i.answer desc place.1 place.2).1) := by
  have hinvoke := Act.after_invoke hdesc.hosts hm desc place.1 place.2
  rw [Act.After, After] at hinvoke
  rw [answer]
  split
  · rename_i fault i' heq
    rw [heq] at hinvoke
    exact ⟨hinvoke, fun _ => .inl rfl⟩
  · rename_i i₁ heq
    rw [heq] at hinvoke
    have hread := Act.after_readBuffer hinvoke
    rw [Act.After, After] at hread
    split
    · rename_i bytes i₂ heq'
      rw [heq'] at hread
      obtain ⟨hfound, hne, hstill⟩ := hread
      have hbytes := Option.some.inj hfound
      refine ⟨hstill.hosts hinvoke.hosts, fun hlength => .inr ?_⟩
      have htoNat : place.2.toNat = source.length := by
        rw [hplaced.length, toNat_ofNat_of_lt' (show source.length < 2 ^ 32 by omega)]
      have hagree : placed.machine.memory.AgreeBelow i₁.machine.memory desc.toNat :=
        hdesc.agree.trans hinvoke.agree
      have hbelow : place.1.toNat + source.length ≤ desc.toNat :=
        (hplaced.below hlength).trans hdesc.floor_le
      have hsource : bytes = source := by
        rw [hbytes, htoNat, hagree.bytes_eq hbelow, hplaced.bytes]
      refine ⟨?_, i₁.exit, by rw [hsource]⟩
      rintro rfl
      exact hne (UInt32.toNat_inj.1 htoNat)
    · rename_i i₂ heq'
      rw [heq'] at hread
      cases hread.1
    · rename_i fault i₂ heq'
      rw [heq'] at hread
      exact ⟨hread.hosts hinvoke.hosts, fun _ => .inl rfl⟩

/-- A parse by a module that answers with the source leaves it such a module, and answers with the source or
a fault. -/
lemma serialize_returned (hm : m.Echoes) (h : i.Hosts m) (source : Text) :
    (i.serialize source).2.Hosts m ∧ (source.length + 1 < 2 ^ 32 → Returned source (i.serialize source).1) := by
  have hwrite := Act.after_writeString h source
  rw [Act.After, After] at hwrite
  cases hw : Act.writeString source i with
  | error fault i₁ =>
    rw [hw] at hwrite
    rw [serialize_of_write_error h.opened hw]
    exact ⟨hosts_release _ hwrite (by simp [empty]), fun _ => .inl rfl⟩
  | ok place i₁ =>
    rw [hw] at hwrite
    have hdesc := Act.after_newDescriptor hwrite.hosts
    rw [Act.After, After] at hdesc
    cases hd : Act.newDescriptor i₁ with
    | error fault i₂ =>
      rw [hd] at hdesc
      rw [serialize_of_descriptor_error h.opened hw hd]
      refine ⟨hosts_release _ hdesc ?_, fun _ => .inl rfl⟩
      simpa [add, empty, undo] using fun i hi => Act.hosts_free hi place.1
    | ok found i₂ =>
      rw [hd] at hdesc
      obtain ⟨desc, rfl, hdesc⟩ := hdesc
      obtain ⟨hhosts, hreturned⟩ := answer_returned hm hwrite hdesc
      rw [serialize_of_descriptor h.opened hw hd]
      refine ⟨hosts_release _ hhosts ?_, hreturned⟩
      simp only [add, empty, forall_mem_cons]
      exact ⟨fun i hi => Act.after_releaseDescriptor hi desc, fun i hi => Act.hosts_free hi place.1, by simp⟩

/-! ## From loading on -/

lemma hosts_new {config : Config} (hlimit : m.pageCount ≤ allPages) (wasi : Wasi) :
    (new m.guest ⟨⟨m.memory, wasi⟩, ofNat m.heapBase⟩ config.arenaBase).Hosts m where
  guest := rfl
  opened := rfl
  size_le := by
    have hsize : m.memory.size = m.pageCount * pageSize := writeAll_size ..
    rw [new, hsize]
    exact Nat.mul_le_mul_right pageSize hlimit
  aligned := by
    simp only [new, toNat_ofNat', heapBase, align]
    omega

lemma hosts_of_instantiate {config : Config} (hlimit : config.memoryLimitPages ≤ allPages)
    (h : instantiate (.built m) config = .ok i) : i.Hosts m := by
  have hbound : (if config.memoryLimitPages = 0 then allPages else config.memoryLimitPages) ≤ allPages := by
    split <;> omega
  simp only [instantiate, instantiateModule] at h
  generalize (if config.memoryLimitPages = 0 then allPages else config.memoryLimitPages) = limit at h hbound
  split at h
  · cases h
  · rename_i hpages
    split at h
    · cases h
    · split at h
      · cases h
      · split at h
        · cases h
        · cases h
          exact hosts_new (by omega) _

/-- The instance after some parses. -/
def afterParses {γ : Type} (i : Instance γ) (sources : List Text) : Instance γ :=
  sources.foldl (fun i source => (i.serialize source).2) i

lemma hosts_afterParses (hm : m.Echoes) (h : i.Hosts m) (sources : List Text) : (i.afterParses sources).Hosts m := by
  induction sources generalizing i with
  | nil => exact h
  | cons source rest ih => exact ih (serialize_returned hm h source).1

/-- **A source comes back as it was.** A module that answers a parse with the source, with an allocator of its own or
with the arena, returns it byte for byte or there is a fault, whatever it parsed before; an empty source is always a
fault. -/
theorem serialize_echo (hm : m.Echoes) (config : Config)
    (hlimit : config.memoryLimitPages ≤ allPages)
    (hload : instantiate (.built m) config = .ok i) (earlier : List Text) (source : Text)
    (hlength : source.length < 2 ^ 32 - 1) :
    (((i.afterParses earlier).serialize source).1.fault.isSome
        ∨ ∃ exit, ((i.afterParses earlier).serialize source).1 = ⟨some ⟨source, exit⟩, none⟩)
      ∧ (source = [] → ((i.afterParses earlier).serialize source).1.fault.isSome) := by
  have hhosts := hosts_afterParses hm (hosts_of_instantiate hlimit hload) earlier
  rcases (serialize_returned hm hhosts source).2 (by omega) with hfault | ⟨hne, hanswer⟩
  · exact ⟨.inl hfault, fun _ => hfault⟩
  · exact ⟨.inr hanswer, fun hempty => absurd hempty hne⟩

/-- A module with functions for buffers but no allocator, which exits after each parse. -/
def exiting : Module where
  exit := some 3
  extraImport := []
  stdout := []
  stderr := []
  tree := []
  pages := 0
  echo := true
  noAllocator := true
  bufferFunctions := true
  trap := false
  forward := []

/-- The instance that it is loaded as, with an arena that starts at an odd place. -/
def exitingLoaded : Instance UInt32 :=
  .new exiting.guest ⟨⟨exiting.memory, .new [] (environ []) []⟩, 4096⟩ 65537

/-- An empty source is refused, and the next one comes back. -/
theorem serialize_echo_exiting :
    let config : Config := { Config.empty with arenaBase := 65537 }
    let source : Text := "a\n"
    let answer := ((exitingLoaded.afterParses [[]]).serialize source).1
    exiting.Echoes ∧ config.memoryLimitPages ≤ allPages
      ∧ instantiate (.built exiting) config = .ok exitingLoaded ∧ source.length < 2 ^ 32 - 1
      ∧ (answer.fault.isSome ∨ ∃ exit, answer = ⟨some ⟨source, exit⟩, none⟩)
      ∧ (source = [] → answer.fault.isSome)
      ∧ answer.status = some ⟨source, some 3⟩ ∧ answer.fault.isNone := by
  have hm : exiting.Echoes := ⟨rfl, rfl, rfl, rfl⟩
  have hload : instantiate (.built exiting) { Config.empty with arenaBase := 65537 } = .ok exitingLoaded := by rfl
  have hlength : ("a\n" : Text).length < 2 ^ 32 - 1 := by decide
  obtain ⟨hanswer, hempty⟩ := serialize_echo hm _ (by decide) hload [[]] _ hlength
  exact ⟨hm, by decide, hload, hlength, hanswer, hempty, by decide +kernel⟩

end Instance

end Transpiler.Guest
