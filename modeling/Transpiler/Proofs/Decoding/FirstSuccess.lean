import Mathlib.Tactic.Common
import Transpiler.Decoding.Chain

/-!
# The first strategy that succeeds

A chain is worth what its first success is worth: nothing after it is called, and of what came before it only the
failures are told, as warnings. Without a success the fault carries just these warnings. To say which strategies are
called, the chain is run once more with a call that takes notes; the two runs agree because the chain treats every
call alike. The main result is `Chain.decode_firstSuccess`.
-/

namespace Transpiler

open List

/-! ## What an outcome is worth -/

namespace Outcome

/-- The outcome is a successful result with a root. -/
def Succeeds (o : Outcome) : Prop :=
  ∃ p root, o = .result p ∧ p.success ∧ p.root = some root

/-- What is wrong with an outcome; nothing is wrong with a successful result that has a root. -/
def failure? : Outcome → Option Fault
  | .failed fault => some fault
  | .crashed message => some (.plain ("panic: " ++ message))
  | .nothing => some (.plain "no result")
  | .result ⟨_, _, _, _, false⟩ => some (.plain "unsuccessful result")
  | .result ⟨none, _, _, _, true⟩ => some (.plain "result has no root node")
  | .result ⟨some _, _, _, _, true⟩ => none

lemma not_succeeds_iff (o : Outcome) : ¬ o.Succeeds ↔ ∃ fault, o.failure? = some fault := by
  constructor
  · intro h
    match o with
    | .failed _ | .crashed _ | .nothing => exact ⟨_, rfl⟩
    | .result ⟨_, _, _, _, false⟩ | .result ⟨none, _, _, _, true⟩ => exact ⟨_, rfl⟩
    | .result ⟨some root, _, _, _, true⟩ => exact absurd ⟨_, root, rfl, rfl, rfl⟩ h
  · rintro ⟨fault, hfault⟩ ⟨⟨root?, text, tier, diagnostics, success⟩, root, rfl, hsuccess, hroot⟩
    obtain rfl : success = true := hsuccess
    obtain rfl : root? = some root := hroot
    cases hfault

lemma accepted_of_failure? {o : Outcome} {fault : Fault} (h : o.failure? = some fault) : o.accepted = .error fault := by
  match o with
  | .failed _ | .crashed _ | .nothing =>
    obtain rfl := Option.some.inj h
    rfl
  | .result ⟨_, _, _, _, false⟩ | .result ⟨none, _, _, _, true⟩ =>
    obtain rfl := Option.some.inj h
    rfl
  | .result ⟨some _, _, _, _, true⟩ => cases h

lemma accepted_of_root {p : Parsed} {root : Root} (hsuccess : p.success) (hroot : p.root = some root) :
    (Outcome.result p).accepted = .ok { p with root := some { root with body := some (root.body.getD []) } } := by
  simp only [accepted, hsuccess, hroot, Bool.not_true, if_neg Bool.false_ne_true]

end Outcome

namespace Chain

section Failures

variable (data source : Text)

/-- The failure a strategy leaves behind. A strategy that says, itself or through what is behind its fault,
that it does not apply leaves none. -/
def tierFailure? (s : Strategy) : Option (Strategy × Fault) :=
  match (s.run data source).failure? with
  | none => none
  | some fault => if fault.meansSkip then none else some (s, fault)

/-- The failures that strategies leave behind, in order. -/
def tierFailures (ss : List Strategy) : List (Strategy × Fault) := ss.filterMap (tierFailure? data source)

/-- A warning for each failure. -/
def tierWarnings (ss : List Strategy) : List Diagnostic :=
  (tierFailures data source ss).map fun (s, fault) =>
    ⟨s.name ++ " decoder failed: " ++ fault.message, .warning, .none⟩

/-- Calls a strategy and notes that it was called. -/
def noted (s : Strategy) : StateM (List Strategy) Outcome := fun log => (s.run data source, log ++ [s])

/-- The strategies that a chain calls. -/
def called (c : Chain) : List Strategy := (runWith (noted data source) source .empty [] c.strategies []).2

end Failures

variable {data source : Text}

/-! ## One strategy after the other -/

/-- Whether notes are taken makes no difference to the result. -/
lemma runWith_noted_fst (warnings : Diagnostics) (attempts : List Fault) (ss log : List Strategy) :
    (runWith (noted data source) source warnings attempts ss log).1 =
      Id.run (runWith (fun s => pure (s.run data source)) source warnings attempts ss) := by
  induction ss generalizing warnings attempts log with
  | nil => rfl
  | cons s rest ih =>
    cases ha : (s.run data source).accepted with
    | ok p =>
      simp only [runWith, bind, StateT.bind, noted, pure, ha]
      rfl
    | error fault =>
      by_cases hskip : fault.meansSkip
      · simp only [runWith, bind, StateT.bind, noted, pure, ha, if_pos hskip]
        exact ih warnings attempts _
      · simp only [runWith, bind, StateT.bind, noted, pure, ha, if_neg hskip]
        exact ih _ _ _

/-- A strategy that fails is called, leaves its failure behind if it has one, and the rest goes on. -/
lemma runWith_cons_of_failure? {s : Strategy} {fault : Fault}
    (h : (s.run data source).failure? = some fault) (warnings : Diagnostics) (attempts : List Fault)
    (rest log : List Strategy) :
    runWith (noted data source) source warnings attempts (s :: rest) log =
      runWith (noted data source) source
        ⟨warnings.errors, warnings.warnings ++ tierWarnings data source [s]⟩
        (attempts ++ (tierFailures data source [s]).map Prod.snd) rest (log ++ [s]) := by
  have ha := Outcome.accepted_of_failure? h
  by_cases hskip : fault.meansSkip
  · have hnone : tierFailures data source [s] = [] := by
      simp [tierFailures, tierFailure?, h, hskip]
    rw [tierWarnings, hnone, map_nil, map_nil, append_nil, append_nil]
    simp only [runWith, bind, StateT.bind, noted, ha, if_pos hskip]
  · have hone : tierFailures data source [s] = [(s, fault)] := by
      simp [tierFailures, tierFailure?, h, hskip]
    rw [tierWarnings, hone]
    simp only [runWith, bind, StateT.bind, noted, ha, if_neg hskip]
    rfl

lemma runWith_append_of_failures {before : List Strategy}
    (h : ∀ t ∈ before, ¬ (t.run data source).Succeeds) (warnings : Diagnostics) (attempts : List Fault)
    (rest log : List Strategy) :
    runWith (noted data source) source warnings attempts (before ++ rest) log =
      runWith (noted data source) source
        ⟨warnings.errors, warnings.warnings ++ tierWarnings data source before⟩
        (attempts ++ (tierFailures data source before).map Prod.snd) rest (log ++ before) := by
  induction before generalizing warnings attempts log with
  | nil => simp [tierWarnings, tierFailures]
  | cons s before ih =>
    obtain ⟨fault, hfault⟩ := (Outcome.not_succeeds_iff _).1 (h s mem_cons_self)
    have hsplit : tierFailures data source (s :: before) =
        tierFailures data source [s] ++ tierFailures data source before := by
      rw [tierFailures, tierFailures, tierFailures, ← filterMap_append, singleton_append]
    rw [cons_append, runWith_cons_of_failure? hfault, ih fun t ht => h t (mem_cons_of_mem s ht)]
    simp only [tierWarnings, hsplit, map_append, append_assoc, singleton_append]

/-! ## Whole chains -/

/-- Without a warning the result's own messages are kept, which is the same as putting none in front. -/
lemma completed_eq (source : Text) (ws : List Diagnostic) (p : Parsed) :
    completed source ⟨[], ws⟩ p = { p with
      source := if p.source = [] then source else p.source
      diagnostics := ⟨p.diagnostics.errors, ws ++ p.diagnostics.warnings⟩ } := by
  rw [completed]
  simp only [List.isEmpty_iff]
  cases ws with
  | nil => rfl
  | cons w ws => rfl

/-- The first success ends the run. -/
lemma run_of_success {before after : List Strategy} {s : Strategy} {p : Parsed} {root : Root}
    (hbefore : ∀ t ∈ before, ¬ (t.run data source).Succeeds) (hrun : s.run data source = .result p)
    (hsuccess : p.success) (hroot : p.root = some root) :
    runWith (noted data source) source .empty [] (before ++ s :: after) [] =
      (.ok { p with
        root := some { root with body := some (root.body.getD []) }
        source := if p.source = [] then source else p.source
        diagnostics :=
          ⟨p.diagnostics.errors, tierWarnings data source before ++ p.diagnostics.warnings⟩ },
      before ++ [s]) := by
  have ha := Outcome.accepted_of_root hsuccess hroot
  rw [runWith_append_of_failures hbefore]
  simp only [runWith, bind, StateT.bind, noted, hrun, ha, Diagnostics.empty, nil_append, completed_eq]
  rfl

/-- Without a success every strategy is called. -/
lemma run_of_failures {ss : List Strategy} (h : ∀ s ∈ ss, ¬ (s.run data source).Succeeds) :
    runWith (noted data source) source .empty [] ss [] =
      (.error (exhausted ⟨[], tierWarnings data source ss⟩ ((tierFailures data source ss).map Prod.snd)), ss) := by
  have hrun := runWith_append_of_failures h .empty [] [] []
  rw [append_nil] at hrun
  rw [hrun]
  rfl

lemma report?_exhausted (warnings : Diagnostics) (attempts : List Fault) :
    (exhausted warnings attempts).report? = some ⟨.decode, .invalidData, [],
      "all " ++ Text.ofNat attempts.length ++ " decoder tiers failed", .diagnostics warnings⟩ := by
  rw [exhausted]
  split_ifs <;> rfl

lemma exists_first_or_all_fail (data source : Text) (ss : List Strategy) :
    (∃ before s after, ss = before ++ s :: after ∧ (∀ t ∈ before, ¬ (t.run data source).Succeeds) ∧
      (s.run data source).Succeeds) ∨ ∀ s ∈ ss, ¬ (s.run data source).Succeeds := by
  induction ss with
  | nil => exact .inr (by simp)
  | cons s rest ih =>
    by_cases hs : (s.run data source).Succeeds
    · exact .inl ⟨[], s, rest, rfl, by simp, hs⟩
    · rcases ih with ⟨before, t, after, rfl, hbefore, ht⟩ | hall
      · refine .inl ⟨s :: before, t, after, rfl, ?_, ht⟩
        exact forall_mem_cons.2 ⟨hs, hbefore⟩
      · exact .inr (forall_mem_cons.2 ⟨hs, hall⟩)

lemma decode_eq_fst (c : Chain) (data source : Text) :
    c.decode data source = (runWith (noted data source) source .empty [] c.strategies []).1 :=
  (runWith_noted_fst _ _ _ _).symm

lemma exists_ok_of_succeeds (c : Chain) {s : Strategy} (hs : s ∈ c.strategies)
    (h : (s.run data source).Succeeds) : ∃ p, c.decode data source = .ok p := by
  rcases exists_first_or_all_fail data source c.strategies with
    ⟨before, t, after, hsplit, hbefore, p, root, hrun, hsuccess, hroot⟩ | hall
  · rw [decode_eq_fst, hsplit, run_of_success hbefore hrun hsuccess hroot]
    exact ⟨_, rfl⟩
  · exact absurd h (hall s hs)

lemma heuristic_succeeds (data source : Text) : (Strategy.heuristic.run data source).Succeeds :=
  ⟨_, _, rfl, rfl, rfl⟩

/-- **The first success decides.** The result of the first strategy that succeeds is that of the chain, with an empty
body for a missing one, the source where it names none, and the warnings about the failures before it in front of
its own; no later strategy is called. A chain fails exactly if no strategy succeeds; its fault carries just the
warnings and says how many there were. So a chain that ends with the reading of lines never fails. -/
theorem decode_firstSuccess (c : Chain) (data source : Text) :
    (∀ before s after p root, c.strategies = before ++ s :: after →
      (∀ t ∈ before, ¬ (t.run data source).Succeeds) →
      s.run data source = .result p → p.success = true → p.root = some root →
      c.decode data source = .ok { p with
        root := some { root with body := some (root.body.getD []) }
        source := if p.source = [] then source else p.source
        diagnostics :=
          ⟨p.diagnostics.errors, tierWarnings data source before ++ p.diagnostics.warnings⟩ } ∧
      c.called data source = before ++ [s]) ∧
    ((∃ fault, c.decode data source = .error fault) ↔ ∀ s ∈ c.strategies, ¬ (s.run data source).Succeeds) ∧
    (∀ fault, c.decode data source = .error fault → ∃ report, fault.report? = some report ∧
      report.payload = .diagnostics ⟨[], tierWarnings data source c.strategies⟩ ∧
      report.detail = "all " ++ Text.ofNat (tierFailures data source c.strategies).length ++ " decoder tiers failed") ∧
    (∀ before, c.strategies = before ++ [.heuristic] → ∃ p, c.decode data source = .ok p) := by
  have hfailed : (∀ s ∈ c.strategies, ¬ (s.run data source).Succeeds) →
      c.decode data source = .error (exhausted ⟨[], tierWarnings data source c.strategies⟩
        ((tierFailures data source c.strategies).map Prod.snd)) := by
    intro hall
    rw [decode_eq_fst, run_of_failures hall]
  have hall_of_error : ∀ fault, c.decode data source = .error fault →
      ∀ s ∈ c.strategies, ¬ (s.run data source).Succeeds := by
    intro fault hfault s hs hsucceeds
    obtain ⟨p, hp⟩ := exists_ok_of_succeeds c hs hsucceeds
    rw [hp] at hfault
    cases hfault
  refine ⟨?_, ⟨?_, fun hall => ⟨_, hfailed hall⟩⟩, ?_, ?_⟩
  · intro before s after p root hsplit hbefore hrun hsuccess hroot
    rw [decode_eq_fst, called, hsplit, run_of_success hbefore hrun hsuccess hroot]
    exact ⟨rfl, rfl⟩
  · rintro ⟨fault, hfault⟩
    exact hall_of_error fault hfault
  · intro fault hfault
    rw [hfailed (hall_of_error fault hfault)] at hfault
    obtain rfl := Except.error.inj hfault
    refine ⟨_, report?_exhausted _ _, rfl, ?_⟩
    rw [length_map]
  · intro before hsplit
    refine exists_ok_of_succeeds c (s := .heuristic) ?_ (heuristic_succeeds data source)
    rw [hsplit]
    exact mem_append_right before mem_cons_self

/-- Strategies that skip, break down, succeed without success and skip behind another fault; the reading of
lines; and one that would succeed. -/
def patchwork : Chain where
  strategies := [.registered none, .ofFunction "first" fun _ _ => .crashed "index out of range",
    .ofFunction [] fun _ source => .result { Parsed.ofLines source with success := false },
    .ofFunction "third" fun _ _ => .failed (.context "not mine" .skipped), .heuristic,
    .ofFunction "never" fun _ _ => .result (.ofLines [])]

theorem decode_firstSuccess_patchwork :
    patchwork.decode [255] "x = 1" = .ok { Parsed.ofLines "x = 1" with
      diagnostics := ⟨[], [.warning "first decoder failed: panic: index out of range",
        .warning "func decoder failed: unsuccessful result"]⟩ } ∧
    patchwork.called [255] "x = 1" = patchwork.strategies.take 5 := by
  have hbefore : ∀ t ∈ patchwork.strategies.take 4, ¬ (t.run [255] "x = 1").Succeeds := by
    intro t ht
    rw [Outcome.not_succeeds_iff]
    simp only [patchwork, List.take, mem_cons, not_mem_nil, or_false] at ht
    rcases ht with rfl | rfl | rfl | rfl <;> exact ⟨_, rfl⟩
  have hwarnings : tierWarnings [255] "x = 1" (patchwork.strategies.take 4) =
      [.warning "first decoder failed: panic: index out of range",
        .warning "func decoder failed: unsuccessful result"] := by
    decide
  obtain ⟨hdecode, hcalled⟩ := (decode_firstSuccess patchwork [255] "x = 1").1 _ .heuristic _ _ _ rfl
    hbefore rfl rfl rfl
  refine ⟨?_, hcalled⟩
  rw [hdecode, hwarnings]
  rfl

end Chain

end Transpiler
