import Transpiler.Proofs.Guest.Observing

/-!
# An exit status belongs to its parse

An instance remembers the last exit of its guest, whatever function it happened in, and a parse reports what is
remembered when the guest's parser has come back. Which exits those are is told by the calls that an observed guest
receives during the parse. The main result is `Instance.exit_of_own_parse`.
-/

namespace Transpiler.Guest

open List

variable {γ : Type}

/-- Every call of the parser matters. -/
lemma filter_callsOf_keysOf (deeds : List Deed) :
    (callsOf (keysOf deeds)).filter (·.name == parseName) = (callsOf deeds).filter (·.name == parseName) := by
  induction deeds with
  | nil => rfl
  | cons d rest ih =>
    cases d with
    | reserved p => exact ih
    | freed p => exact ih
    | called c =>
      change _ = List.filter _ (c :: callsOf rest)
      rw [filter_cons, ← ih, keysOf, filter_cons, Deed.isKey]
      by_cases hname : (c.name == parseName)
      · have hkey : Deed.keyNames.contains c.name := by
          rw [beq_iff_eq.1 hname]
          decide
        rw [if_pos hkey, if_pos hname]
        exact filter_cons_of_pos hname
      · rw [if_neg hname]
        split
        · exact filter_cons_of_neg hname
        · rfl

/-- A parse with a status has called the parser once, and has the exit of that call. -/
lemma Settled.parses {g : Code γ} {a : Answer} {deeds : List Deed} (h : Settled g a deeds) {status : Serialized}
    (hstatus : a.status = some status) :
    ∃ args finish, (callsOf deeds).filter (·.name == parseName) = [⟨parseName, args, finish⟩] ∧
      status.exit = finish.exit? := by
  cases h with
  | nothing h | source p h | refused p desc h => cases h.symm.trans hstatus
  | plain p desc h hparsed =>
    rcases hparsed with ⟨hnone, -⟩ | ⟨args, finish, rfl, hexit⟩
    · cases hnone.symm.trans hstatus
    · exact ⟨args, finish, rfl, hexit status hstatus⟩
  | buffer p desc h hagrees hparsed hemptied =>
    rcases hparsed with ⟨hnone, -⟩ | ⟨args, finish, rfl, hexit⟩
    · cases hnone.symm.trans hstatus
    · refine ⟨args, finish, ?_, hexit status hstatus⟩
      cases hemptied <;> rfl

namespace Instance

/-- The answers to some sources, parsed one after the other. -/
def answers (i : Instance γ) : List Text → List Answer
  | [] => []
  | source :: rest => (i.serialize source).1 :: (i.serialize source).2.answers rest

/-- The answers to some sources, parsed one after the other, each with the calls that an observed guest receives
during that parse. -/
def history (i : Instance γ) : List Text → List (Answer × List Received)
  | [] => []
  | source :: rest =>
    let seen := (i.observed []).serialize source
    (seen.1, seen.2.machine.globals.2) :: (i.serialize source).2.history rest

lemma map_fst_history (i : Instance γ) (sources : List Text) :
    (i.history sources).map Prod.fst = i.answers sources := by
  induction sources generalizing i with
  | nil => rfl
  | cons source rest ih =>
    obtain ⟨deeds, hrun, -⟩ := serialize_leaves source i []
    simp only [history, answers, map_cons, ih, hrun]

lemma parses_of_mem_history {i : Instance γ} {sources : List Text} {seen : Answer × List Received}
    (h : seen ∈ i.history sources) {status : Serialized} (hstatus : seen.1.status = some status) :
    ∃ args finish, seen.2.filter (·.name == parseName) = [⟨parseName, args, finish⟩] ∧ status.exit = finish.exit? := by
  induction sources generalizing i with
  | nil => cases h
  | cons source rest ih =>
    rcases mem_cons.1 h with rfl | h
    · obtain ⟨deeds, hrun, -, hleft, -⟩ := serialize_leaves source i []
      simp only [hrun] at hstatus ⊢
      rcases hleft with hsettled | ⟨hbreak, -⟩
      · change ∃ args finish, (callsOf deeds).filter (·.name == parseName) = _ ∧ _
        rw [← filter_callsOf_keysOf]
        exact hsettled.parses hstatus
      · rw [hbreak] at hstatus
        cases hstatus
    · exact ih h

/-- **An exit status belongs to the parse that reports it.** For every guest, every instance of it with whatever exit it
remembers, and all sources parsed one after the other: an answer with a status comes of one call of the parser, and
an exit code is in it exactly if that call exited with that code. The answers are those that the guest gives
unobserved. -/
theorem exit_of_own_parse (i : Instance γ) (sources : List Text) :
    (i.history sources).map Prod.fst = i.answers sources ∧
      ∀ seen ∈ i.history sources, ∀ status, seen.1.status = some status →
        (∃ call, seen.2.filter (·.name == parseName) = [call]) ∧
        ∀ code, status.exit = some code ↔ ∃ args, ⟨parseName, args, .exited code⟩ ∈ seen.2 := by
  refine ⟨map_fst_history i sources, fun seen hseen status hstatus => ?_⟩
  obtain ⟨args, finish, hparses, hexit⟩ := parses_of_mem_history hseen hstatus
  have hown : (⟨parseName, args, finish⟩ : Received) ∈ seen.2 :=
    (mem_filter.1 (hparses ▸ mem_singleton_self _)).1
  refine ⟨⟨_, hparses⟩, fun code => ?_⟩
  constructor
  · intro hcode
    cases finish with
    | exited own =>
      obtain rfl : own = code := Option.some.inj (hexit.symm.trans hcode)
      exact ⟨args, hown⟩
    | returned results => cases hexit.symm.trans hcode
    | trapped message => cases hexit.symm.trans hcode
  · rintro ⟨args', hmem⟩
    have hsame : (⟨parseName, args', .exited code⟩ : Received) ∈ seen.2.filter (·.name == parseName) :=
      mem_filter.2 ⟨hmem, by simp⟩
    rw [hparses, mem_singleton] at hsame
    cases hsame
    exact hexit

/-- A guest that exits from its first parse, returns from every later one, and exits from every `free`. -/
def fickle : Instance Nat where
  guest := ⟨[("malloc", ⟨1, fun _ m => (.returned [16], m)⟩), ("free", ⟨1, fun _ m => (.exited 9, m)⟩),
    ("pm_serialize_parse", ⟨4, fun _ m =>
      (if m.globals = 0 then .exited 7 else .returned [], { m with globals := m.globals + 1 })⟩)]⟩
  machine := ⟨⟨.blank 64, .new [] [] []⟩, 0⟩
  exit := some 5
  arena := .new 32
  journal := []
  closed := false
  serial := 0

/-- Neither the exit from before nor those of `free` are reported: the first answer has the code of its own parse, the
second one none, and in the second parse the guest did exit, twice. -/
theorem exit_of_own_parse_fickle :
    ((fickle.answers ["a", "b"]).map (fun a => a.status.map (·.exit)) = [some (some 7), some none] ∧
        (fickle.history ["a", "b"]).map (fun seen => seen.2.filterMap (·.finish.exit?)) = [[7, 9, 9], [9, 9]]) ∧
      ∀ seen ∈ fickle.history ["a", "b"], ∀ status, seen.1.status = some status →
        ∀ code, status.exit = some code ↔ ∃ args, ⟨parseName, args, .exited code⟩ ∈ seen.2 :=
  ⟨by decide +kernel, fun seen hseen status hstatus =>
    ((exit_of_own_parse fickle ["a", "b"]).2 seen hseen status hstatus).2⟩

end Instance

end Transpiler.Guest
