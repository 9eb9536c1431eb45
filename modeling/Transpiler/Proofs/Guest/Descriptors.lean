import Mathlib.Data.List.Induction
import Mathlib.Data.List.Infix
import Transpiler.Proofs.Guest.Cells

/-!
# The table of descriptors

Streams, directories and opened files share one space of numbers. What holds of a descriptor is said by the events of
the table alone: which were handed out since the last reset (`Wasi.issued`), and whether one of them is open
(`Wasi.IsOpen`). As long as the numbers do not run out they are handed out in order behind the directories
(`Wasi.Counted`), so none is handed out twice. The main result is `Wasi.table_of_reaches`.
-/

namespace Transpiler.Guest

open List Host UInt32 Memory Nat Wire.Read

/-! ## Storing several things -/

namespace Memory

variable {m : Memory}

lemma put_cell_outside {offset a : Nat} {data : Text} (h : a < offset ∨ offset + data.length ≤ a) :
    (m.put offset data).cell a = m.cell a := by
  simp only [put, getElem?_toArray]
  split_ifs with hle
  · rw [getElem?_eq_none (by omega)]
  · rfl

lemma writeAll_of_fits {writes : List (Nat × Text)} (h : ∀ w ∈ writes, w.1 + w.2.length ≤ m.size) :
    m.writeAll writes = (true, writes.foldl (fun m w => m.put w.1 w.2) m) := by
  induction writes generalizing m with
  | nil => rfl
  | cons w rest ih =>
    obtain ⟨hw, hrest⟩ := forall_mem_cons.1 h
    have hput : m.write? w.1 w.2 = some (m.put w.1 w.2) := if_pos (by simpa [fits] using hw)
    simp only [writeAll, hput, foldl_cons]
    exact ih hrest

end Memory

namespace Host

variable {h : Host}

lemma addressPlus_le (ptr : UInt32) (n : Nat) : addressPlus ptr n ≤ ptr.toNat + n := by
  rw [addressPlus, UInt32.toNat_add, UInt32.toNat_ofNat']
  refine (Nat.mod_le _ _).trans (Nat.add_le_add_left (Nat.mod_le _ _) _)

/-- What stands so far behind an address does not cover it, even if the sum wraps around. -/
lemma addressPlus_apart (ptr : UInt32) (n : Nat) (hn : 0 < n) (hsmall : n < 2 ^ 16) :
    ptr.toNat < addressPlus ptr n ∨ addressPlus ptr n + 8 ≤ ptr.toNat := by
  have hptr := ptr.toNat_lt
  rw [addressPlus, UInt32.toNat_add, UInt32.toNat_ofNat']
  omega

lemma length_wide (n : Nat) : (wide n).length = 8 := length_littleEndian 8 n

lemma store_of_fits {writes : List (Nat × Text)} (hfits : ∀ w ∈ writes, w.1 + w.2.length ≤ h.memory.size) :
    h.store writes = (.success, { h with memory := writes.foldl (fun m w => m.put w.1 w.2) h.memory }) := by
  simp only [store, writeAll_of_fits hfits]

lemma store_single (h : Host) (offset : Nat) (data : Text) :
    h.store [(offset, data)] = if offset + data.length ≤ h.memory.size
      then (.success, { h with memory := h.memory.put offset data }) else (.fault, h) := by
  split_ifs with hfits
  · exact store_of_fits (forall_mem_singleton.2 hfits)
  · have hwrite : h.memory.write? offset data = none := if_neg (by simpa [fits] using hfits)
    simp only [store, writeAll, hwrite]

end Host

/-! ## Events -/

namespace Wasi

/-- What happens to the table of descriptors. -/
inductive Event where
  | opened (fd : UInt32)
  | closed (fd : UInt32)
  | reset
deriving DecidableEq

/-- The table that events lead to. What memory the guest has at the time does not matter, and neither does whether the
descriptor can be stored at the place that was asked for. -/
inductive Reaches (start : Wasi) : List Event → Wasi → Prop
  | start : Reaches start [] start
  | opened {events : List Event} {w : Wasi} (m : Memory) (result : UInt32) (h : Reaches start events w) :
      Reaches start (events ++ [.opened w.nextDescriptor]) (pathOpen ⟨m, w⟩ result).2.wasi
  | closed {events : List Event} {w : Wasi} (m : Memory) (fd : UInt32) (h : Reaches start events w) :
      Reaches start (events ++ [.closed fd]) (fdClose ⟨m, w⟩ fd).2.wasi
  | reset {events : List Event} {w : Wasi} (h : Reaches start events w) : Reaches start (events ++ [.reset]) w.reset

/-- The descriptors handed out since the last reset, whether they were closed again or not. -/
def issued (events : List Event) : List UInt32 :=
  events.foldl (fun fds e => match e with
    | .opened fd => fds ++ [fd]
    | .closed _ => fds
    | .reset => []) []

/-- Whether `fd` is concerned. -/
def Event.decides (fd : UInt32) : Event → Bool
  | .opened fd' => fd' == fd
  | .closed fd' => fd' == fd
  | .reset => true

/-- A descriptor was handed out since the last reset and not closed since: of all that decides on it, the last is
that it was opened. -/
def IsOpen (events : List Event) (fd : UInt32) : Prop :=
  events.reverse.find? (Event.decides fd) = some (.opened fd)

section

variable (events : List Event)

lemma issued_opened (fd : UInt32) : issued (events ++ [.opened fd]) = issued events ++ [fd] := by
  rw [issued, foldl_append]
  rfl

lemma issued_closed (fd : UInt32) : issued (events ++ [.closed fd]) = issued events := by
  rw [issued, foldl_append]
  rfl

lemma issued_reset : issued (events ++ [.reset]) = [] := by
  rw [issued, foldl_append]
  rfl

lemma isOpen_concat (e : Event) (fd : UInt32) :
    IsOpen (events ++ [e]) fd ↔ if e.decides fd then e = .opened fd else IsOpen events fd := by
  rw [IsOpen, reverse_append, reverse_singleton, singleton_append, find?_cons]
  cases e.decides fd with
  | true => simp
  | false => simp [IsOpen]

lemma mem_issued_of_isOpen {fd : UInt32} (h : IsOpen events fd) : fd ∈ issued events := by
  induction events using List.reverseRecOn with
  | nil => cases h
  | append_singleton events e ih =>
    rw [isOpen_concat] at h
    cases e with
    | opened fd' =>
      rw [issued_opened]
      split_ifs at h
      · exact mem_append_right _ (mem_singleton.2 (Event.opened.inj h).symm)
      · exact mem_append_left _ (ih h)
    | closed fd' =>
      rw [issued_closed]
      split_ifs at h
      exact ih h
    | reset => cases h

end

/-! ## What the events keep -/

/-- The descriptors since the last reset are numbered from the first one behind the directories on, the next one is
the next number, and the table knows which of them are open. -/
structure Counted (preopens : List Text) (events : List Event) (w : Wasi) : Prop where
  directories : w.preopens = preopens
  numbered : (issued events).map toNat = List.range' (firstPreopen + preopens.length) (issued events).length
  next : w.nextDescriptor.toNat = firstPreopen + preopens.length + (issued events).length
  opened : ∀ fd, fd ∈ w.opened ↔ IsOpen events fd

/-- Fewer descriptors are handed out between two resets than there are numbers left for them. -/
def Spaced (preopens : List Text) (events : List Event) : Prop :=
  ∀ before, before <+: events → (issued before).length + firstPreopen + preopens.length < 2 ^ 32

section

variable {preopens : List Text} {events : List Event} {w : Wasi}

lemma nextDescriptor_of_zero (hnext : w.next = 0) (hroom : firstPreopen + w.preopens.length < 2 ^ 32) :
    w.nextDescriptor.toNat = firstPreopen + w.preopens.length := by
  rw [nextDescriptor, if_pos hnext, toNat_ofNat', mod_eq_of_lt hroom]

lemma pathOpen_wasi (h : Host) (result : UInt32) : (h.pathOpen result).2.wasi =
    { h.wasi with opened := h.wasi.opened ++ [h.wasi.nextDescriptor], next := h.wasi.nextDescriptor + 1 } := by
  rw [pathOpen, store_single]
  split_ifs <;> rfl

namespace Counted

lemma pathOpen (h : Counted preopens events w) (m : Memory) (result : UInt32)
    (hroom : (issued events).length + 1 + firstPreopen + preopens.length < 2 ^ 32) :
    Counted preopens (events ++ [.opened w.nextDescriptor]) (pathOpen ⟨m, w⟩ result).2.wasi := by
  have hnext := h.next
  have hsucc : (w.nextDescriptor + 1).toNat = w.nextDescriptor.toNat + 1 := by
    rw [UInt32.toNat_add]
    exact mod_eq_of_lt (by change w.nextDescriptor.toNat + 1 < 2 ^ 32; omega)
  rw [pathOpen_wasi]
  refine ⟨h.directories, ?_, ?_, fun fd => ?_⟩
  · rw [issued_opened, map_append, h.numbered, length_append, length_singleton, range'_concat,
      Nat.one_mul, map_singleton, hnext]
  · -- the counter is not back at zero, which would mean that no descriptor was handed out
    have hne : ¬w.nextDescriptor + 1 = 0 := fun hzero => by simp [hzero] at hsucc
    rw [nextDescriptor, if_neg hne, hsucc, hnext, issued_opened, length_append, length_singleton]
    rfl
  · rw [isOpen_concat, mem_append, mem_singleton, h.opened]
    by_cases heq : w.nextDescriptor = fd
    · simp [Event.decides, heq]
    · simp [Event.decides, heq, Ne.symm heq]

lemma fdClose (h : Counted preopens events w) (m : Memory) (fd : UInt32) :
    Counted preopens (events ++ [.closed fd]) (fdClose ⟨m, w⟩ fd).2.wasi := by
  refine ⟨h.directories, ?_, ?_, fun fd' => ?_⟩
  · rw [issued_closed]
    exact h.numbered
  · rw [issued_closed]
    exact h.next
  · rw [isOpen_concat]
    by_cases heq : fd = fd'
    · simp [Host.fdClose, Event.decides, heq]
    · simp [Host.fdClose, Event.decides, heq, h.opened, Ne.symm heq]

lemma reset (h : Counted preopens events w) (hroom : firstPreopen + preopens.length < 2 ^ 32) :
    Counted preopens (events ++ [.reset]) w.reset := by
  refine ⟨h.directories, by rw [issued_reset]; rfl, ?_, fun fd => ?_⟩
  · have hpreopens : w.reset.preopens = preopens := h.directories
    rw [issued_reset, nextDescriptor_of_zero rfl (by rwa [hpreopens]), hpreopens]
    rfl
  · rw [isOpen_concat]
    simp [Wasi.reset, Event.decides]

lemma le_of_mem_issued (h : Counted preopens events w) {fd : UInt32} (hfd : fd ∈ issued events) :
    firstPreopen + preopens.length ≤ fd.toNat := by
  have hmem := mem_map_of_mem (f := toNat) hfd
  rw [h.numbered, mem_range'_1] at hmem
  exact hmem.1

lemma next_not_mem (h : Counted preopens events w) : w.nextDescriptor ∉ issued events := by
  intro hfd
  have hmem := mem_map_of_mem (f := toNat) hfd
  rw [h.numbered, mem_range'_1, h.next] at hmem
  omega

end Counted

lemma Spaced.of_append {more : List Event} (h : Spaced preopens (events ++ more)) : Spaced preopens events :=
  fun _ hbefore => h _ (hbefore.trans (prefix_append _ _))

lemma Reaches.counted {args environ : List Text} (h : Reaches (.new args environ preopens) events w)
    (hspaced : Spaced preopens events) : Counted preopens events w := by
  induction h with
  | start =>
    have hroom : firstPreopen + preopens.length < 2 ^ 32 := by simpa [issued] using hspaced [] prefix_rfl
    refine ⟨rfl, rfl, ?_, fun fd => ?_⟩
    · exact nextDescriptor_of_zero (w := .new args environ preopens) rfl hroom
    · simp [IsOpen, Wasi.new]
  | @opened events w m result _ ih =>
    have hroom := hspaced _ prefix_rfl
    rw [issued_opened, length_append, length_singleton] at hroom
    exact (ih hspaced.of_append).pathOpen m result hroom
  | closed m fd _ ih => exact (ih hspaced.of_append).fdClose m fd
  | reset _ ih =>
    have hroom := hspaced _ prefix_rfl
    rw [issued_reset] at hroom
    exact (ih hspaced.of_append).reset (by simpa using hroom)

/-! ## What the guest is told -/

/-- Both functions that describe a descriptor store its type, if there is room for all they store. -/
structure Shows (w : Wasi) (fd : UInt32) (type : FileType) : Prop where
  fdstat : ∀ m ptr, ptr.toNat + 24 ≤ m.size → ∃ m', fdFdstatGet ⟨m, w⟩ fd ptr = (.success, ⟨m', w⟩) ∧
    m'.cell ptr.toNat = type.byte
  filestat : ∀ m ptr, ptr.toNat + 64 ≤ m.size → ∃ m', fdFilestatGet ⟨m, w⟩ fd ptr = (.success, ⟨m', w⟩) ∧
    m'.cell (addressPlus ptr 16) = type.byte

lemma shows_fileType (w : Wasi) (fd : UInt32) : w.Shows fd (w.fileType fd) where
  fdstat m ptr hroom := by
    have h8 := addressPlus_le ptr 8
    have h16 := addressPlus_le ptr 16
    refine ⟨_, store_of_fits ?_, ?_⟩
    · simp only [forall_mem_cons, length_replicate, length_singleton, length_wide]
      exact ⟨hroom, by omega, by omega, by omega, forall_mem_nil _⟩
    · -- the words behind the type do not cover it, even if their addresses wrap around
      have h8' := addressPlus_apart ptr 8
      have h16' := addressPlus_apart ptr 16
      simp only [foldl_cons, foldl_nil]
      rw [put_cell_outside (by rw [length_wide]; omega), put_cell_outside (by rw [length_wide]; omega)]
      exact put_cell_inside _ _ [(w.fileType fd).byte] Nat.zero_lt_one
  filestat m ptr hroom := by
    have h16 := addressPlus_le ptr 16
    have h24 := addressPlus_le ptr 24
    refine ⟨_, store_of_fits ?_, ?_⟩
    · simp only [forall_mem_cons, length_replicate, length_singleton, length_wide]
      exact ⟨hroom, by omega, by omega, forall_mem_nil _⟩
    · have h24' : addressPlus ptr 24 = addressPlus (ptr + 16) 8 := by
        rw [addressPlus, addressPlus, UInt32.add_assoc]
        rfl
      have happart := addressPlus_apart (ptr + 16) 8
      simp only [foldl_cons, foldl_nil]
      rw [put_cell_outside (by rw [length_wide, h24']; exact happart (by decide) (by decide))]
      exact put_cell_inside _ _ [(w.fileType fd).byte] Nat.zero_lt_one

/-- Whether `fd` was opened in advance. -/
def IsDirectory (preopens : List Text) (fd : UInt32) : Prop :=
  firstPreopen ≤ fd.toNat ∧ fd.toNat < firstPreopen + preopens.length

lemma preopen?_of_eq {fd : UInt32} {k : Nat} (hfd : fd.toNat = firstPreopen + k) : w.preopen? fd = w.preopens[k]? := by
  rw [preopen?, hfd, if_neg (by omega), Nat.add_sub_cancel_left]

namespace Counted

lemma isSome_preopen? (h : Counted preopens events w) (fd : UInt32) :
    (w.preopen? fd).isSome ↔ IsDirectory preopens fd := by
  rw [preopen?, h.directories, IsDirectory]
  split_ifs with hlow
  · simp [hlow]
  · rw [isSome_getElem?]
    omega

lemma fileType_iff (h : Counted preopens events w) (fd : UInt32) :
    (w.fileType fd = .characterDevice ↔ fd.toNat ≤ 2) ∧
    (w.fileType fd = .directory ↔ IsDirectory preopens fd) ∧
    (w.fileType fd = .regularFile ↔ IsOpen events fd) := by
  have hlow : fd ≤ 2 ↔ fd.toNat ≤ 2 := le_iff_toNat_le
  have hopen : w.opened.contains fd ↔ IsOpen events fd := by rw [contains_iff_mem, h.opened]
  have hclosed : fd.toNat < firstPreopen + preopens.length → ¬IsOpen events fd := fun hlt hfd =>
    absurd (h.le_of_mem_issued (mem_issued_of_isOpen events hfd)) (not_le.2 hlt)
  simp only [fileType, hlow, h.isSome_preopen? fd, IsDirectory, firstPreopen] at hclosed ⊢
  split_ifs with hstream hdirectory hfile
  · exact ⟨iff_of_true rfl hstream, iff_of_false (by simp) (by omega), iff_of_false (by simp) (hclosed (by omega))⟩
  · exact ⟨iff_of_false (by simp) hstream, iff_of_true rfl hdirectory, iff_of_false (by simp) (hclosed hdirectory.2)⟩
  · exact ⟨iff_of_false (by simp) hstream, iff_of_false (by simp) hdirectory, iff_of_true rfl (hopen.1 hfile)⟩
  · exact ⟨iff_of_false (by simp) hstream, iff_of_false (by simp) hdirectory, iff_of_false (by simp) (mt hopen.2 hfile)⟩

end Counted

/-! ## Looking for the directories -/

lemma fdPrestatGet_of_none {fd : UInt32} (h : w.preopen? fd = none) (m : Memory) (ptr : UInt32) :
    fdPrestatGet ⟨m, w⟩ fd ptr = (.badDescriptor, ⟨m, w⟩) := by
  simp only [fdPrestatGet, h]

section

variable {fd ptr : UInt32} {name : Text} {m : Memory}

lemma fdPrestatGet_of_some (h : w.preopen? fd = some name) (hlength : name.length < 2 ^ 32)
    (hroom : ptr.toNat + 8 ≤ m.size) :
    ∃ m', fdPrestatGet ⟨m, w⟩ fd ptr = (.success, ⟨m', w⟩) ∧ m'.size = m.size ∧
      m'.word? (addressPlus ptr 4) = some (ofNat name.length) := by
  have hword : word name.length = Wire.Write.u32le (ofNat name.length) := by
    rw [Wire.Write.u32le, toNat_ofNat_length hlength, word]
  have hfour : (word name.length).length = 4 := length_littleEndian 4 _
  have h4 := addressPlus_le ptr 4
  refine ⟨(m.put ptr.toNat [0]).put (addressPlus ptr 4) (word name.length), ?_, rfl, ?_⟩
  · simp only [fdPrestatGet, h]
    refine store_of_fits ?_
    simp only [forall_mem_cons, length_singleton, hfour]
    exact ⟨by omega, by omega, forall_mem_nil _⟩
  · rw [hword]
    refine (setWord?_eq_some (if_pos ?_)).2
    rw [← hword, hfour]
    exact decide_eq_true (by change _ ≤ m.size; omega)

lemma fdPrestatDirName_of_some (h : w.preopen? fd = some name) (hlength : name.length < 2 ^ 32)
    (hroom : ptr.toNat + name.length ≤ m.size) :
    ∃ m', fdPrestatDirName ⟨m, w⟩ fd ptr (ofNat name.length) = (.success, ⟨m', w⟩) ∧ m'.size = m.size ∧
      m'.read? ptr.toNat (ofNat name.length).toNat = some name := by
  have hbytes := m.bytes_put ptr.toNat name []
  have hfits : (m.put ptr.toNat name).fits ptr.toNat name.length := decide_eq_true hroom
  rw [append_nil] at hbytes
  refine ⟨m.put ptr.toNat name, ?_, rfl, ?_⟩
  · simp only [fdPrestatDirName, h, toNat_ofNat_length hlength, take_length, store_single, if_pos hroom]
  · rw [toNat_ofNat_length hlength, read?, if_pos hfits, hbytes]

end

/-- A guest looks for the directories by counting up: for each descriptor it has a place for the length of the name and,
once it knows the length, one for the name. It goes on until a descriptor is refused. -/
inductive Scan (place : UInt32 → UInt32) (buffer : (fd length : UInt32) → UInt32) :
    Host → (fd : UInt32) → (names : List Text) → (last : UInt32) → Prop
  | stop {h h' : Host} {fd : UInt32} (hget : h.fdPrestatGet fd (place fd) = (.badDescriptor, h')) :
      Scan place buffer h fd [] fd
  | next {h h₁ h₂ : Host} {fd length last : UInt32} {name : Text} {names : List Text}
      (hget : h.fdPrestatGet fd (place fd) = (.success, h₁))
      (hlength : h₁.memory.word? (addressPlus (place fd) 4) = some length)
      (hname : h₁.fdPrestatDirName fd (buffer fd length) length = (.success, h₂))
      (hread : h₂.memory.read? (buffer fd length).toNat length.toNat = some name)
      (hrest : Scan place buffer h₂ (fd + 1) names last) : Scan place buffer h fd (name :: names) last

/-- From each directory on, a scan finds the rest of them. -/
lemma scan_iff {place : UInt32 → UInt32} {buffer : UInt32 → UInt32 → UInt32} {size : Nat}
    (hroom : firstPreopen + w.preopens.length < 2 ^ 32) (hplace : ∀ fd, (place fd).toNat + 8 ≤ size)
    (hnames : ∀ name ∈ w.preopens, name.length < 2 ^ 32 ∧
      ∀ fd, (buffer fd (ofNat name.length)).toNat + name.length ≤ size)
    {k : Nat} {rest : List Text} (hrest : w.preopens.drop k = rest) {fd : UInt32}
    (hfd : fd.toNat = firstPreopen + k) (hk : k ≤ w.preopens.length) {m : Memory} (hm : m.size = size)
    (names : List Text) (last : UInt32) :
    Scan place buffer ⟨m, w⟩ fd names last ↔ names = rest ∧ last.toNat = firstPreopen + w.preopens.length := by
  induction rest generalizing k fd m names with
  | nil =>
    have hend : k = w.preopens.length := le_antisymm hk (drop_eq_nil_iff.1 hrest)
    have hnone : w.preopen? fd = none := by rw [preopen?_of_eq hfd, getElem?_eq_none hend.ge]
    have hbad := fdPrestatGet_of_none hnone m (place fd)
    constructor
    · rintro (_ | ⟨hget', -, -, -, -⟩)
      · exact ⟨rfl, by rw [hfd, hend]⟩
      · cases hbad.symm.trans hget'
    · rintro ⟨rfl, hlast⟩
      obtain rfl : last = fd := UInt32.toNat_inj.1 (by rw [hlast, hfd, hend])
      exact .stop hbad
  | cons name rest ih =>
    have hsome : w.preopens[k]? = some name := by rw [← head?_drop, hrest]; rfl
    have hget := (preopen?_of_eq hfd).trans hsome
    obtain ⟨hlength, hbuffer⟩ := hnames name (mem_of_getElem? hsome)
    obtain ⟨m₁, hget₁, hsize₁, hword⟩ := fdPrestatGet_of_some hget hlength (hm ▸ hplace fd)
    have hroom₁ : _ ≤ m₁.size := (hbuffer fd).trans (hsize₁.trans hm).ge
    obtain ⟨m₂, hname₂, hsize₂, hread⟩ := fdPrestatDirName_of_some hget hlength hroom₁
    have hlt : k < w.preopens.length := (List.getElem?_eq_some_iff.1 hsome).1
    have hfd' : (fd + 1).toNat = firstPreopen + (k + 1) := by
      rw [UInt32.toNat_add, hfd]
      exact mod_eq_of_lt (by change _ + 1 < 2 ^ 32; omega)
    have hrest' : w.preopens.drop (k + 1) = rest := by rw [← tail_drop, hrest, tail_cons]
    have hmore := fun names => ih hrest' hfd' hlt (hsize₂.trans (hsize₁.trans hm)) names
    constructor
    · rintro (hstop | ⟨hget₁', hword', hname', hread', hscan⟩)
      · cases hget₁.symm.trans hstop
      · cases hget₁.symm.trans hget₁'
        cases hword.symm.trans hword'
        cases hname₂.symm.trans hname'
        cases hread.symm.trans hread'
        obtain ⟨rfl, hlast⟩ := (hmore _).1 hscan
        exact ⟨rfl, hlast⟩
    · rintro ⟨rfl, hlast⟩
      exact .next hget₁ hword hname₂ hread ((hmore rest).2 ⟨rfl, hlast⟩)

/-! ## The table -/

/-- All that a guest can learn of its descriptors, told by what has happened to the table. -/
structure Table (preopens : List Text) (events : List Event) (w : Wasi) : Prop where
  /-- The next descriptor lies behind the directories and was not handed out since the last reset. -/
  fresh : firstPreopen + preopens.length ≤ w.nextDescriptor.toNat ∧ w.nextDescriptor ∉ issued events
  /-- The guest finds it at the place it asked for, if that lies inside. -/
  handed : ∀ m result, if result.toNat + 4 ≤ m.size
    then (pathOpen ⟨m, w⟩ result).1 = .success ∧
      (pathOpen ⟨m, w⟩ result).2.memory.word? result.toNat = some w.nextDescriptor
    else (pathOpen ⟨m, w⟩ result).1 = .fault
  /-- Of each descriptor one type is shown; what is neither a stream nor a directory nor open is unknown. -/
  types : ∀ fd, ∃ type, w.Shows fd type ∧ (type = .characterDevice ↔ fd.toNat ≤ 2) ∧
    (type = .directory ↔ IsDirectory preopens fd) ∧ (type = .regularFile ↔ IsOpen events fd)
  /-- All but the directories are refused. -/
  refused : ∀ m fd ptr, (fdPrestatGet ⟨m, w⟩ fd ptr).1 = .badDescriptor ↔ ¬IsDirectory preopens fd
  /-- Where all places that are used lie inside, the directories are found in order, and nothing else. -/
  scanned : ∀ m place buffer, (∀ fd, (place fd).toNat + 8 ≤ m.size) →
    (∀ name ∈ preopens, name.length < 2 ^ 32 ∧ ∀ fd, (buffer fd (ofNat name.length)).toNat + name.length ≤ m.size) →
    ∀ names last, Scan place buffer ⟨m, w⟩ 3 names last ↔ names = preopens ∧ last.toNat = firstPreopen + preopens.length

lemma pathOpen_stores (w : Wasi) (m : Memory) (result : UInt32) : if result.toNat + 4 ≤ m.size
    then (pathOpen ⟨m, w⟩ result).1 = .success ∧
      (pathOpen ⟨m, w⟩ result).2.memory.word? result.toNat = some w.nextDescriptor
    else (pathOpen ⟨m, w⟩ result).1 = .fault := by
  have hword : (word w.nextDescriptor.toNat).length = 4 := length_littleEndian 4 _
  simp only [pathOpen, store_single, hword]
  split_ifs with hfits
  · refine ⟨rfl, (setWord?_eq_some (m := m) (if_pos ?_)).2⟩
    exact decide_eq_true (hword ▸ hfits)
  · rfl

lemma Counted.fdPrestatGet_iff (h : Counted preopens events w) (m : Memory) (fd ptr : UInt32) :
    (fdPrestatGet ⟨m, w⟩ fd ptr).1 = .badDescriptor ↔ ¬IsDirectory preopens fd := by
  rw [← h.isSome_preopen? fd]
  cases hname : w.preopen? fd with
  | none => simp [fdPrestatGet_of_none hname]
  | some name =>
    simp only [fdPrestatGet, hname, store]
    split <;> simp [Errno.success, Errno.fault, Errno.badDescriptor]

/-- **The table of descriptors.** Whatever is opened, closed and reset, with any memory and any places for results, as
long as there are numbers left: a descriptor is never handed out twice between two resets, and the guest is told the
type of each descriptor, and the names of the directories, as the events have it. -/
theorem table_of_reaches {args environ : List Text} (h : Reaches (.new args environ preopens) events w)
    (hspaced : Spaced preopens events) : Table preopens events w := by
  have hcounted := h.counted hspaced
  refine ⟨⟨?_, hcounted.next_not_mem⟩, pathOpen_stores w, fun fd => ?_, hcounted.fdPrestatGet_iff,
    fun m place buffer hplace hnames => ?_⟩
  · rw [hcounted.next]
    exact le_add_right _ _
  · exact ⟨_, w.shows_fileType fd, hcounted.fileType_iff fd⟩
  · have hroom := hspaced events prefix_rfl
    obtain rfl := hcounted.directories
    exact scan_iff (by omega) hplace hnames drop_zero rfl (zero_le _) rfl

end

/-- A descriptor is handed out, closed and not handed out again, though the second one cannot be stored. -/
theorem table_of_reaches_closed : ∃ w, Reaches (.new [] [] ["/", "/tmp"]) [.opened 5, .closed 5, .opened 6] w ∧
    Table ["/", "/tmp"] [.opened 5, .closed 5, .opened 6] w := by
  have hspaced : Spaced ["/", "/tmp"] [.opened 5, .closed 5, .opened 6] := by
    intro before hbefore
    rw [← mem_inits] at hbefore
    revert before
    decide
  have hreaches : Reaches (.new [] [] ["/", "/tmp"]) [.opened 5, .closed 5, .opened 6] _ :=
    ((Reaches.start.opened (.blank 8) 0).closed (.blank 8) 5).opened (.blank 8) 6
  exact ⟨_, hreaches, table_of_reaches hreaches hspaced⟩

end Wasi

end Transpiler.Guest
