import Transpiler.Proofs.Guest.Balance

/-!
# Releasing a scope

A scope takes on a duty for each block that it obtains and for each cleanup that it is given, and none for a call that
fails. When it is released, all its duties are done, the latest first. `Undone` follows the instance from one duty to
the next, so each is done once, whatever became of those before it. The main result is `Cleanups.release_undone`.
-/

namespace Transpiler.Guest

open Act

variable {γ : Type}

namespace Cleanups

/-- Something that happens before a scope is released. -/
inductive Call (γ : Type) where
  | allocate (size : UInt32)
  | writeString (t : Text)
  | defer (act : Act γ Unit)
  /-- The instance is used without the scope. -/
  | aside (change : Instance γ → Instance γ)

namespace Call

/-- The scope and its instance after a call. -/
def run : Call γ → Cleanups γ × Instance γ → Cleanups γ × Instance γ
  | .allocate size, (s, i) => (s.allocate size i).2
  | .writeString t, (s, i) => (s.writeString t i).2
  | .defer act, (s, i) => (s.add (.run act), i)
  | .aside change, (s, i) => (s, change i)

/-- What the scope owes after a call: to free the block that the caller was given, or to run the cleanup. A call
that fails leaves nothing to be done. -/
def duties : Call γ → Cleanups γ × Instance γ → List (Cleanup γ)
  | .allocate size, (s, i) => (s.allocate size i).1.toOption.toList.map .free
  | .writeString t, (s, i) => (s.writeString t i).1.toOption.toList.map fun place => .free place.1
  | .defer act, _ => [.run act]
  | .aside _, _ => []

/-- Whether a call fails. -/
def fails : Call γ → Cleanups γ × Instance γ → Bool
  | .allocate size, (s, i) => !(s.allocate size i).1.isOk
  | .writeString t, (s, i) => !(s.writeString t i).1.isOk
  | .defer _, _ => false
  | .aside _, _ => false

/-- A call adds its duty to the scope and changes nothing else about it. -/
lemma run_fst (c : Call γ) (p : Cleanups γ × Instance γ) :
    (c.run p).1 = { p.1 with pending := (c.duties p).reverse ++ p.1.pending } := by
  obtain ⟨s, i⟩ := p
  cases c with
  | allocate size =>
    simp only [run, duties, Cleanups.allocate]
    cases Act.allocate size i with
    | ok ptr i' => rfl
    | error fault i' => rfl
  | writeString t =>
    simp only [run, duties, Cleanups.writeString]
    cases Act.writeString t i with
    | ok place i' => rfl
    | error fault i' => rfl
  | defer act => rfl
  | aside change => rfl

/-- A call that fails has given back the block it took, if it took one. -/
lemma returned_of_fails {c : Call γ} {p : Cleanups γ × Instance γ} (h : c.fails p) :
    c.duties p = [] ∧ ∃ deeds, p.2.Grows deeds (c.run p).2 ∧
      (keysOf deeds = [] ∨ ∃ ptr, keysOf deeds = [.reserved ptr, .freed ptr]) := by
  obtain ⟨s, i⟩ := p
  cases c with
  | allocate size =>
    simp only [fails, duties, run, Cleanups.allocate] at h ⊢
    rcases ends_allocate size i [] with ⟨ptr, i', deeds, hrun, -⟩ | ⟨fault, i', deeds, hrun, -, hgrows, hkeys⟩
    · rw [hrun] at h
      cases h
    · rw [hrun]
      exact ⟨rfl, deeds, hgrows, .inl hkeys⟩
  | writeString t =>
    simp only [fails, duties, run, Cleanups.writeString] at h ⊢
    rcases ends_writeString t i [] with ⟨place, i', deeds, hrun, -⟩ |
      ⟨fault, i', deeds, hrun, -, hgrows, hkeys | ⟨ptr, _, rfl, hkeys⟩⟩
    · rw [hrun] at h
      cases h
    · rw [hrun]
      exact ⟨rfl, deeds, hgrows, .inl hkeys⟩
    · rw [hrun]
      exact ⟨rfl, deeds, hgrows, .inr ⟨ptr, hkeys⟩⟩
  | defer act => cases h
  | aside change => cases h

/-- The scope and its instance after several calls. -/
def runAll (calls : List (Call γ)) (p : Cleanups γ × Instance γ) : Cleanups γ × Instance γ :=
  calls.foldl (fun p c => c.run p) p

/-- What the scope owes after several calls, the earliest duty first. -/
def allDuties : List (Call γ) → Cleanups γ × Instance γ → List (Cleanup γ)
  | [], _ => []
  | c :: rest, p => c.duties p ++ allDuties rest (c.run p)

lemma runAll_fst (calls : List (Call γ)) (p : Cleanups γ × Instance γ) :
    (runAll calls p).1 = { p.1 with pending := (allDuties calls p).reverse ++ p.1.pending } := by
  induction calls generalizing p with
  | nil => rfl
  | cons c rest ih =>
    rw [runAll, List.foldl_cons, ← runAll, ih, allDuties, List.reverse_append, List.append_assoc, run_fst]

end Call

/-- The duties are done in this order, each on the instance that the one before it has left: a block is freed, a
cleanup runs. The faults are those of the duties that failed, in the same order. -/
inductive Undone : List (Cleanup γ) → Instance γ → List Fault → Instance γ → Prop
  | nil (i : Instance γ) : Undone [] i [] i
  | freed {ptr : UInt32} {rest : List (Cleanup γ)} {i i' i'' : Instance γ} {faults : List Fault}
      (h : free ptr i = .ok () i') (hrest : Undone rest i' faults i'') : Undone (.free ptr :: rest) i faults i''
  | unfreed {ptr : UInt32} {rest : List (Cleanup γ)} {i i' i'' : Instance γ} {fault : Fault} {faults : List Fault}
      (h : free ptr i = .error fault i') (hrest : Undone rest i' faults i'') :
      Undone (.free ptr :: rest) i (fault :: faults) i''
  | ran {act : Act γ Unit} {rest : List (Cleanup γ)} {i i' i'' : Instance γ} {faults : List Fault}
      (h : act i = .ok () i') (hrest : Undone rest i' faults i'') : Undone (.run act :: rest) i faults i''
  | failed {act : Act γ Unit} {rest : List (Cleanup γ)} {i i' i'' : Instance γ} {fault : Fault} {faults : List Fault}
      (h : act i = .error fault i') (hrest : Undone rest i' faults i'') :
      Undone (.run act :: rest) i (fault :: faults) i''

section

variable {c : Cleanup γ} {rest : List (Cleanup γ)} {i i' i'' : Instance γ} {faults : List Fault}

lemma undoAll_cons_of_ok (hc : undo c i = .ok () i') (hrest : undoAll rest i' = .ok faults i'') :
    undoAll (c :: rest) i = .ok faults i'' := by
  have hfaults : faultsOf (undo c) i = .ok [] i' := by simp only [faultsOf, hc]
  rw [undoAll, bind_of_eq_ok hfaults, bind_of_eq_ok hrest]
  rfl

lemma undoAll_cons_of_error {fault : Fault} (hc : undo c i = .error fault i')
    (hrest : undoAll rest i' = .ok faults i'') : undoAll (c :: rest) i = .ok (fault :: faults) i'' := by
  have hfaults : faultsOf (undo c) i = .ok [fault] i' := by simp only [faultsOf, hc]
  rw [undoAll, bind_of_eq_ok hfaults, bind_of_eq_ok hrest]
  rfl

end

/-- No duty is left out because of an earlier one. -/
lemma undone_undoAll (duties : List (Cleanup γ)) (i : Instance γ) :
    ∃ faults i', undoAll duties i = .ok faults i' ∧ Undone duties i faults i' := by
  induction duties generalizing i with
  | nil => exact ⟨[], i, rfl, .nil i⟩
  | cons c rest ih =>
    cases c with
    | free ptr =>
      cases hfree : free ptr i with
      | ok _ i' =>
        obtain ⟨faults, i'', hrun, hrest⟩ := ih i'
        exact ⟨faults, i'', undoAll_cons_of_ok hfree hrun, .freed hfree hrest⟩
      | error fault i' =>
        obtain ⟨faults, i'', hrun, hrest⟩ := ih i'
        exact ⟨fault :: faults, i'', undoAll_cons_of_error hfree hrun, .unfreed hfree hrest⟩
    | run act =>
      cases hact : act i with
      | ok _ i' =>
        obtain ⟨faults, i'', hrun, hrest⟩ := ih i'
        exact ⟨faults, i'', undoAll_cons_of_ok hact hrun, .ran hact hrest⟩
      | error fault i' =>
        obtain ⟨faults, i'', hrun, hrest⟩ := ih i'
        exact ⟨fault :: faults, i'', undoAll_cons_of_error hact hrun, .failed hact hrest⟩

/-- What the caller is told of several faults: all at once, if there are any. -/
def joined (faults : List Fault) : Except Fault Unit :=
  if faults.isEmpty then .ok () else .error (.joined faults)

lemma release_of_undoAll {s : Cleanups γ} {i i' : Instance γ} {faults : List Fault} (hs : s.released = false)
    (hrun : undoAll s.pending i = .ok faults i') : s.release i = (joined faults, ⟨[], true⟩, i') := by
  simp only [release, hs, Bool.false_eq_true, if_false, hrun]
  cases faults with
  | nil => rfl
  | cons fault faults => rfl

/-- **A scope is released once, in reverse.** Whatever calls were made on a scope and on its instance before, the first
release does all duties that the successful ones have left, the latest first, tells all their faults in that order,
and leaves a scope that owes nothing. Every later release does nothing. A call that fails leaves no duty, and the
block that it may have taken is given back. -/
theorem release_undone (calls : List (Call γ)) (i : Instance γ) :
    let p := Call.runAll calls (empty, i)
    (∃ faults i' done, Undone (Call.allDuties calls (empty, i)).reverse p.2 faults i' ∧
      p.1.release p.2 = (joined faults, done, i') ∧ done.size = 0 ∧
      ∀ j : Instance γ, done.release j = (.ok (), done, j)) ∧
    ∀ c : Call γ, c.fails p = true → c.duties p = [] ∧ (c.run p).1 = p.1 ∧
      ∃ n, (c.run p).2.stats.allocations = p.2.stats.allocations + n ∧
        (c.run p).2.stats.frees = p.2.stats.frees + n := by
  intro p
  have hscope : p.1 = _ := Call.runAll_fst calls (empty, i)
  refine ⟨?_, fun c hfails => ?_⟩
  · obtain ⟨faults, i', hrun, hundone⟩ := undone_undoAll (Call.allDuties calls (empty, i)).reverse p.2
    refine ⟨faults, i', ⟨[], true⟩, hundone, release_of_undoAll ?_ ?_, rfl, fun _ => rfl⟩
    · rw [hscope]
      rfl
    · rw [hscope]
      simpa only [empty, List.append_nil] using hrun
  · obtain ⟨hnone, deeds, hgrows, hreturned⟩ := Call.returned_of_fails hfails
    refine ⟨hnone, ?_, ?_⟩
    · rw [Call.run_fst, hnone]
      rfl
    · simp only [Instance.stats, hgrows.journal, List.countP_append, ← length_reservedBlocks, ← length_freedBlocks,
        ← (blocks_keysOf deeds).1, ← (blocks_keysOf deeds).2]
      rcases hreturned with hkeys | ⟨ptr, hkeys⟩
      · rw [hkeys]
        exact ⟨0, rfl, rfl⟩
      · rw [hkeys]
        exact ⟨1, rfl, rfl⟩

/-- A guest that hands out memory and traps when it is to take it back. -/
def hoarding : Instance UInt64 :=
  .new ⟨[("malloc", ⟨1, fun _ m => (.returned [m.globals], { m with globals := m.globals + 16 })⟩),
    ("free", ⟨1, fun _ m => (.trapped "mine", m)⟩)]⟩ ⟨⟨.blank 64, .new [] [] []⟩, 16⟩ 32

/-- Both blocks are freed and the cleanup between them runs, although each of the three fails. -/
theorem release_undone_hoarding :
    let kept : Fault := .wrap .memory .allocation "free" (.plain "mine")
    let p := Call.runAll [.allocate 8, .defer (refuse (.plain "late")), .writeString "a"] (empty, hoarding)
    freedBlocks (p.1.release p.2).2.2.journal = [32, 16] ∧
      (p.1.release p.2).1 = .error (.joined [kept, .plain "late", kept]) ∧
      ∃ faults i' done, Undone [.free 32, .run (refuse (.plain "late")), .free 16] p.2 faults i' ∧
        p.1.release p.2 = (joined faults, done, i') ∧ done.size = 0 := by
  intro kept p
  obtain ⟨⟨faults, i', done, hundone, hrelease, hsize, -⟩, -⟩ := release_undone
    [.allocate 8, .defer (refuse (.plain "late")), .writeString "a"] hoarding
  exact ⟨by decide +kernel, by rfl, faults, i', done, hundone, hrelease, hsize⟩

end Cleanups

end Transpiler.Guest
