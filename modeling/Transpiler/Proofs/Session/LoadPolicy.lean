import Transpiler.Proofs.Session.Lifecycle

/-!
# When a manager loads

Calls that do not overlap. A call that wants the parser makes the loader work exactly if the manager is not ready and
does not know already that loading is in vain. What it knows is a state and the last fault, so the rule is carried
through any sequence of calls: a parser once loaded is used until the next close, a fault that only another module can
mend is repeated until the next reset or close, and after any other fault the next call tries again. The main result
is `Manager.load_policy`.
-/

namespace Transpiler

open Guest (Instance)

variable {γ : Type}

namespace Manager

/-! ## Calls one after the other -/

/-- What a manager can be called for. -/
inductive Request where
  | ensure
  | parse (source : Text)
  | reset
  | close
deriving DecidableEq, Repr

/-- Whether a parser is needed. -/
def Request.needsParser : Request → Bool
  | .ensure | .parse _ => true
  | .reset | .close => false

/-- Answers a call: with a fault, or else with a tree if a source is to be parsed. -/
def serve (m : Manager γ) : Request → Except Fault (Option Parsed) × Manager γ
  | .ensure => (m.ensure.1.map fun _ => none, m.ensure.2)
  | .parse source => ((m.parse source).1.map some, (m.parse source).2)
  | .reset => (.ok none, m.reset)
  | .close => (.ok none, m.close)

/-- A call, its answer, and the manager before and after it. -/
structure Visit (γ : Type) where
  before : Manager γ
  request : Request
  answer : Except Fault (Option Parsed)
  after : Manager γ

/-- Serves a request, on record. -/
def visit (m : Manager γ) (r : Request) : Visit γ := ⟨m, r, (m.serve r).1, (m.serve r).2⟩

@[simp] lemma before_visit (m : Manager γ) (r : Request) : (m.visit r).before = m := rfl

@[simp] lemma request_visit (m : Manager γ) (r : Request) : (m.visit r).request = r := rfl

@[simp] lemma after_visit (m : Manager γ) (r : Request) : (m.visit r).after = (m.serve r).2 := rfl

/-- Serves requests, on record. -/
def visits (m : Manager γ) : List Request → List (Visit γ)
  | [] => []
  | r :: rest => m.visit r :: (m.visit r).after.visits rest

/-- Whether the loader was called. -/
def Visit.invokes (v : Visit γ) : Bool := v.after.loader.calls != v.before.loader.calls

/-- The last load failed for want of an import, which no other load of the same module can mend. -/
def Stuck (m : Manager γ) (fault : Fault) : Prop :=
  m.state = .failed ∧ m.lastFault = some fault ∧ fault.isKind .missingImport

/-- The manager is not ready, and nothing speaks against a load. -/
def Open (m : Manager γ) : Prop := m.state ≠ .ready ∧ ∀ fault, ¬ m.Stuck fault

/-- What a single call does, given the outcomes of the loader's calls. -/
structure Visit.Lawful (script : Nat → Except Fault (Instance γ)) (v : Visit γ) : Prop where
  /-- The loader is invoked exactly if the parser is needed and the manager is open, and then once. -/
  calls_eq : (v.request.needsParser ∧ v.before.Open ∧
      v.after.loader.calls = v.before.loader.calls + 1) ∨
    (¬ (v.request.needsParser ∧ v.before.Open) ∧ v.after.loader.calls = v.before.loader.calls)
  /-- The loads that are reported are the invocations of the loader. -/
  loads_eq : v.before.loads = v.before.loader.calls ∧ v.after.loads = v.after.loader.calls
  /-- A load that fails is a call that fails with the same fault, which is kept. -/
  failed : v.invokes → ∀ fault, script v.before.loader.calls = .error fault →
    v.answer = .error fault ∧ v.after.state = .failed ∧ v.after.lastFault = some fault
  /-- A load that succeeds is a call that succeeds. -/
  loaded : v.invokes → ∀ i, script v.before.loader.calls = .ok i →
    (∃ tree, v.answer = .ok tree) ∧ v.after.state = .ready
  /-- A call to a manager that is ready succeeds. -/
  ready : v.before.state = .ready → ∃ tree, v.answer = .ok tree
  /-- A call that cannot be helped repeats the fault that is kept, and changes nothing. -/
  stuck : v.request.needsParser → ∀ fault, v.before.Stuck fault → v.answer = .error fault ∧ v.after = v.before

/-! ## One call -/

/-- Between calls no load is under way, and the loads are the invocations of the loader. -/
structure Idle (script : Nat → Except Fault (Instance γ)) (m : Manager γ) : Prop where
  outcomes : m.loader.outcomes = some script
  flight : m.flight = none
  loads : m.loads = m.loader.calls
  ready_iff : m.state = .ready ↔ m.parser.isSome

variable {script : Nat → Except Fault (Instance γ)} {m : Manager γ}

lemma idle_new (o : ParserOptions) : (new o ⟨some script, 0⟩).Idle script :=
  ⟨rfl, rfl, rfl, by simp [new]⟩

variable {fault : Fault}

lemma settled_of_stuck (h : m.Stuck fault) : m.settled = some (.error fault) := by
  obtain ⟨hstate, hlast, hkind⟩ := h
  simp [settled, hstate, hlast, hkind]

lemma settled_of_open (h : m.Open) : m.settled = none := by
  obtain ⟨hready, hstuck⟩ := h
  rw [settled]
  split
  · next hstate => exact absurd hstate hready
  · next fault hstate hlast => exact if_neg fun hkind => hstuck fault ⟨hstate, hlast, hkind⟩
  · rfl

lemma ensure_of_ready (h : m.state = .ready) : m.ensure = (.ok (), m) := by
  simp [ensure, settled, h]

lemma ensure_of_stuck (h : m.Stuck fault) : m.ensure = (.error fault, m) := by
  simp [ensure, settled_of_stuck h]

/-- With one more load. -/
def invoked (m : Manager γ) : Manager γ :=
  { m with loads := m.loads + 1, loader := { m.loader with calls := m.loader.calls + 1 } }

/-- A load that nothing speaks against invokes the loader once and publishes what it brings. -/
lemma ensure_of_open (hidle : m.Idle script) (h : m.Open) :
    (∃ fault, script m.loader.calls = .error fault ∧
      m.ensure = (.error fault, { m.invoked with state := .failed, lastFault := some fault })) ∨
    ∃ i p, script m.loader.calls = .ok i ∧
      m.ensure = (.ok (), { m.invoked with state := .ready, lastFault := none, parser := some p }) := by
  rw [ensure, settled_of_open h, beginLoad, takeOff_of_not_ready hidle.flight h.1]
  cases hout : script m.loader.calls with
  | error fault =>
    left
    refine ⟨fault, rfl, ?_⟩
    simp [arrive, Parser.start, Parser.new, Loader.load, hidle.outcomes, hout, Except.map, endLoad, invoked,
      hidle.flight]
  | ok i =>
    right
    refine ⟨i, ⟨some (Parser.warmUp m.options { i with serial := m.loader.calls }),
      { Snapshot.zero with initialized := true, ready := true }⟩, rfl, ?_⟩
    simp [arrive, Parser.start, Parser.new, Loader.load, hidle.outcomes, hout, Except.map, endLoad, invoked,
      hidle.flight]

variable {r : Request}

lemma serve_of_error (hneeds : r.needsParser) {m' : Manager γ}
    (h : m.ensure = (.error fault, m')) : m.serve r = (.error fault, m') := by
  cases r with
  | ensure => simp [serve, h, Except.map]
  | parse source => simp [serve, parse, h, Except.map]
  | reset | close => cases hneeds

lemma serve_of_ok (hneeds : r.needsParser) {m' : Manager γ} (h : m.ensure = (.ok (), m'))
    {p : Parser γ} (hp : m'.parser = some p) :
    ∃ tree p', m.serve r = (.ok tree, { m' with parser := some p' }) := by
  cases r with
  | ensure => exact ⟨none, p, by simp [serve, h, Except.map, ← hp]⟩
  | parse source =>
    exact ⟨some (p.parse m'.options m'.registered source).1, (p.parse m'.options m'.registered source).2,
      by simp [serve, parse, h, parseReady, hp, Except.map]⟩
  | reset | close => cases hneeds

/-- All that a call which needs the parser can do. -/
inductive Served (script : Nat → Except Fault (Instance γ)) (m : Manager γ) :
    Except Fault (Option Parsed) × Manager γ → Prop
  /-- There is a parser. -/
  | ready (tree : Option Parsed) (p : Parser γ) (hstate : m.state = .ready) :
      Served script m (.ok tree, { m with parser := some p })
  /-- No load can succeed. -/
  | stuck {fault : Fault} (hstuck : m.Stuck fault) : Served script m (.error fault, m)
  /-- A load fails. -/
  | failed {fault : Fault} (hopen : m.Open) (hout : script m.loader.calls = .error fault) :
      Served script m (.error fault, { m.invoked with state := .failed, lastFault := some fault })
  /-- A load brings a parser. -/
  | loaded {i : Instance γ} (tree : Option Parsed) (p : Parser γ) (hopen : m.Open)
      (hout : script m.loader.calls = .ok i) :
      Served script m (.ok tree, { m.invoked with state := .ready, lastFault := none, parser := some p })

lemma served (hidle : m.Idle script) (hneeds : r.needsParser) : Served script m (m.serve r) := by
  by_cases hready : m.state = .ready
  · obtain ⟨p, hp⟩ := Option.isSome_iff_exists.1 (hidle.ready_iff.1 hready)
    obtain ⟨tree, p', hserve⟩ := serve_of_ok hneeds (ensure_of_ready hready) hp
    exact hserve ▸ .ready tree p' hready
  · by_cases hstuck : ∃ fault, m.Stuck fault
    · obtain ⟨fault, hstuck⟩ := hstuck
      exact serve_of_error hneeds (ensure_of_stuck hstuck) ▸ .stuck hstuck
    · have hopen : m.Open := ⟨hready, not_exists.1 hstuck⟩
      obtain ⟨fault, hout, hensure⟩ | ⟨i, p, hout, hensure⟩ := ensure_of_open hidle hopen
      · exact serve_of_error hneeds hensure ▸ .failed hopen hout
      · obtain ⟨tree, p', hserve⟩ := serve_of_ok hneeds hensure (p := p) rfl
        exact hserve ▸ .loaded tree p' hopen hout

lemma not_open_of_ready (h : m.state = .ready) : ¬ m.Open := fun hopen => hopen.1 h

lemma Stuck.not_open (h : m.Stuck fault) : ¬ m.Open := fun hopen => hopen.2 fault h

lemma Stuck.not_ready (h : m.Stuck fault) : m.state ≠ .ready := by
  simp [h.1]

lemma Stuck.eq {fault fault' : Fault} (h : m.Stuck fault) (h' : m.Stuck fault') : fault = fault' :=
  Option.some.inj (h.2.1.symm.trans h'.2.1)

/-- A call that does not need the parser leaves the loader alone. -/
lemma serve_of_not_needsParser (hidle : m.Idle script) (hneeds : r.needsParser = false) :
    (m.serve r).2.Idle script ∧ (m.serve r).2.loader = m.loader ∧ (m.serve r).1 = .ok none := by
  cases r with
  | ensure | parse => cases hneeds
  | reset =>
    refine ⟨?_, ?_, rfl⟩ <;> simp only [serve, reset] <;> split
    · next hfailed =>
      have hparser := hidle.ready_iff
      exact ⟨hidle.outcomes, hidle.flight, hidle.loads, by simpa [hfailed] using hparser⟩
    · exact hidle
    · rfl
    · rfl
  | close => exact ⟨⟨hidle.outcomes, hidle.flight, hidle.loads, by simp [serve, close, detach]⟩, rfl, rfl⟩

lemma Served.idle {result : Except Fault (Option Parsed) × Manager γ} (h : Served script m result)
    (hidle : m.Idle script) : result.2.Idle script := by
  have hloads : m.loads + 1 = m.loader.calls + 1 := congrArg (· + 1) hidle.loads
  cases h with
  | ready tree p hstate => exact ⟨hidle.outcomes, hidle.flight, hidle.loads, by simp [hstate]⟩
  | stuck => exact hidle
  | failed hopen =>
    have hparser : m.parser.isSome = false := by simpa using mt hidle.ready_iff.2 hopen.1
    exact ⟨hidle.outcomes, hidle.flight, hloads, by simp [invoked, hparser]⟩
  | loaded tree p => exact ⟨hidle.outcomes, hidle.flight, hloads, by simp⟩

lemma Idle.serve (hidle : m.Idle script) (r : Request) : (m.serve r).2.Idle script := by
  cases hneeds : r.needsParser with
  | true => exact (served hidle hneeds).idle hidle
  | false => exact (serve_of_not_needsParser hidle hneeds).1

lemma lawful_visit (hidle : m.Idle script) (r : Request) : (m.visit r).Lawful script := by
  have hloads := hidle.loads
  have hafter := (hidle.serve r).loads
  cases hneeds : r.needsParser with
  | false =>
    obtain ⟨_, hloader, hanswer⟩ := serve_of_not_needsParser hidle hneeds
    have hquiet : (m.visit r).invokes = false := by simp [Visit.invokes, visit, hloader]
    refine ⟨.inr ⟨by simp [visit, hneeds], congrArg Loader.calls hloader⟩, ⟨hloads, hafter⟩, ?_, ?_,
      fun _ => ⟨none, hanswer⟩, ?_⟩
    · simp [hquiet]
    · simp [hquiet]
    · simp [visit, hneeds]
  | true =>
    -- one case for each way in which the parser can be had or not
    have hserved := served hidle hneeds
    rw [visit] at *
    generalize m.serve r = result at hserved hafter
    cases hserved with
    | ready tree p hstate =>
      refine ⟨.inr ⟨fun h => not_open_of_ready hstate h.2, rfl⟩, ⟨hloads, hafter⟩, ?_, ?_, fun _ => ⟨tree, rfl⟩,
        fun _ fault hstuck => absurd hstate hstuck.not_ready⟩
      · simp [Visit.invokes]
      · simp [Visit.invokes]
    | stuck hstuck =>
      refine ⟨.inr ⟨fun h => hstuck.not_open h.2, rfl⟩, ⟨hloads, hafter⟩, ?_, ?_,
        fun hstate => absurd hstate hstuck.not_ready, fun _ fault hstuck' => ⟨?_, rfl⟩⟩
      · simp [Visit.invokes]
      · simp [Visit.invokes]
      · rw [hstuck.eq hstuck']
    | failed hopen hout =>
      refine ⟨.inl ⟨hneeds, hopen, rfl⟩, ⟨hloads, hafter⟩, fun _ fault hout' => ?_, fun _ i hout' => ?_,
        fun hstate => absurd hstate hopen.1, fun _ fault hstuck => absurd hopen hstuck.not_open⟩
      · obtain rfl := Except.error.inj (hout.symm.trans hout')
        exact ⟨rfl, rfl, rfl⟩
      · exact absurd (hout.symm.trans hout') (by simp)
    | loaded tree p hopen hout =>
      refine ⟨.inl ⟨hneeds, hopen, rfl⟩, ⟨hloads, hafter⟩, fun _ fault hout' => ?_,
        fun _ i hout' => ⟨⟨tree, rfl⟩, rfl⟩, fun _ => ⟨tree, rfl⟩,
        fun _ fault hstuck => absurd hopen hstuck.not_open⟩
      exact absurd (hout.symm.trans hout') (by simp)

/-! ## What a visit tells -/

variable {v : Visit γ}

lemma Visit.Lawful.invokes_iff (h : v.Lawful script) : v.invokes ↔ v.request.needsParser ∧ v.before.Open := by
  obtain ⟨hneeds, hopen, hcalls⟩ | ⟨hnot, hcalls⟩ := h.calls_eq
  · simp [Visit.invokes, hcalls, hneeds, hopen]
  · simp [Visit.invokes, hcalls, hnot]

lemma Visit.Lawful.calls_after (h : v.Lawful script) :
    v.after.loader.calls = v.before.loader.calls + if v.invokes then 1 else 0 := by
  obtain ⟨_, _, hcalls⟩ | ⟨_, hcalls⟩ := h.calls_eq <;> simp [Visit.invokes, hcalls]

/-- What a load that failed leaves behind. -/
lemma Visit.Lawful.of_error (h : v.Lawful script) (hinvokes : v.invokes)
    (hanswer : v.answer = .error fault) : v.after.state = .failed ∧ v.after.lastFault = some fault := by
  cases hout : script v.before.loader.calls with
  | ok i =>
    obtain ⟨⟨tree, htree⟩, _⟩ := h.loaded hinvokes i hout
    rw [hanswer] at htree
    cases htree
  | error fault' =>
    obtain ⟨hanswer', hstate, hlast⟩ := h.failed hinvokes fault' hout
    rw [hanswer] at hanswer'
    obtain rfl := Except.error.inj hanswer'
    exact ⟨hstate, hlast⟩

lemma Visit.Lawful.of_ok (h : v.Lawful script) (hinvokes : v.invokes)
    {tree : Option Parsed} (hanswer : v.answer = .ok tree) : v.after.state = .ready := by
  cases hout : script v.before.loader.calls with
  | ok i => exact (h.loaded hinvokes i hout).2
  | error fault =>
    have hfailed := (h.failed hinvokes fault hout).1
    rw [hanswer] at hfailed
    cases hfailed

/-! ## What calls keep -/

/-- A parser is kept until the next close. -/
lemma ready_serve (hidle : m.Idle script) (h : m.state = .ready) (hr : r ≠ .close) : (m.serve r).2.state = .ready := by
  cases hneeds : r.needsParser with
  | true =>
    have hserved := served hidle hneeds
    generalize m.serve r = result at hserved
    cases hserved with
    | ready => exact h
    | stuck hstuck => exact absurd h hstuck.not_ready
    | failed hopen | loaded _ _ hopen => exact absurd h hopen.1
  | false =>
    cases r with
    | ensure | parse => cases hneeds
    | reset => simp [serve, reset, h]
    | close => exact absurd rfl hr

/-- A missing import is remembered until the next reset or close. -/
lemma stuck_serve (hidle : m.Idle script) (h : m.Stuck fault)
    (hreset : r ≠ .reset) (hclose : r ≠ .close) : (m.serve r).2.Stuck fault := by
  cases hneeds : r.needsParser with
  | true =>
    have hserved := served hidle hneeds
    generalize m.serve r = result at hserved
    cases hserved with
    | ready _ _ hstate => exact absurd hstate h.not_ready
    | stuck => exact h
    | failed hopen | loaded _ _ hopen => exact absurd hopen h.not_open
  | false =>
    cases r with
    | ensure | parse => cases hneeds
    | reset => exact absurd rfl hreset
    | close => exact absurd rfl hclose

lemma open_of_uninitialized (h : m.state = .uninitialized) : m.Open :=
  ⟨by simp [h], fun fault hstuck => by simp [hstuck.1] at h⟩

/-- Neither a reset nor a close makes a load unnecessary or vain. -/
lemma open_serve (h : m.Open) (hneeds : r.needsParser = false) : (m.serve r).2.Open := by
  cases r with
  | ensure | parse => cases hneeds
  | reset =>
    simp only [serve, reset]
    split
    · exact open_of_uninitialized rfl
    · exact h
  | close => exact open_of_uninitialized rfl

/-! ## Any sequence of calls -/

variable {earlier later : List (Visit γ)} {rs : List Request}

/-- Every visit of a sequence is to an idle manager, and those after it are to the manager it leaves. -/
lemma exists_of_visits_eq (hidle : m.Idle script) (h : m.visits rs = earlier ++ v :: later) :
    v.before.Idle script ∧ v.before.visit v.request = v ∧ ∃ rs', v.after.visits rs' = later := by
  induction earlier generalizing m rs with
  | nil =>
    cases rs with
    | nil => cases h
    | cons r rest =>
      obtain ⟨rfl, rfl⟩ := List.cons.inj h
      exact ⟨hidle, rfl, rest, rfl⟩
  | cons first earlier ih =>
    cases rs with
    | nil => cases h
    | cons r rest => exact ih (hidle.serve r) (List.cons.inj h).2

lemma lawful_of_visits_eq (hidle : m.Idle script) (h : m.visits rs = earlier ++ v :: later) : v.Lawful script := by
  obtain ⟨hbefore, hv, _⟩ := exists_of_visits_eq hidle h
  exact hv ▸ lawful_visit hbefore v.request

/-- What the calls in between keep is there at the next call. -/
lemma kept_of_visits_eq {P : Manager γ → Prop} {between later : List (Visit γ)} {w : Visit γ}
    (hidle : m.Idle script) (h : m.visits rs = between ++ w :: later)
    (hkeep : ∀ x ∈ between, ∀ m', Idle script m' → P m' → P (m'.serve x.request).2) (hm : P m) :
    P w.before := by
  induction between generalizing m rs with
  | nil =>
    cases rs with
    | nil => cases h
    | cons r rest =>
      obtain ⟨rfl, _⟩ := List.cons.inj h
      exact hm
  | cons first between ih =>
    cases rs with
    | nil => cases h
    | cons r rest =>
      obtain ⟨rfl, hrest⟩ := List.cons.inj h
      exact ih (hidle.serve r) hrest (fun x hx => hkeep x (.tail _ hx)) (hkeep _ (.head _) m hidle hm)

/-- A visit after others finds what one of them left and those in between kept. -/
lemma lawful_later {P : Manager γ → Prop} {earlier between later : List (Visit γ)}
    {v w : Visit γ} (hidle : m.Idle script) (h : m.visits rs = earlier ++ v :: (between ++ w :: later))
    (hkeep : ∀ x ∈ between, ∀ m', Idle script m' → P m' → P (m'.serve x.request).2) (hafter : P v.after) :
    w.Lawful script ∧ P w.before := by
  obtain ⟨hbefore, hv, rs', hrest⟩ := exists_of_visits_eq hidle h
  have hidle' : v.after.Idle script := hv ▸ hbefore.serve v.request
  exact ⟨lawful_of_visits_eq hidle' hrest, kept_of_visits_eq hidle' hrest hkeep hafter⟩

/-- The invocations of the loader are those of the visits so far. -/
lemma calls_of_visits_eq (hidle : m.Idle script) (h : m.visits rs = earlier ++ v :: later) :
    v.after.loader.calls = m.loader.calls + (earlier ++ [v]).countP Visit.invokes := by
  induction earlier generalizing m rs with
  | nil =>
    cases rs with
    | nil => cases h
    | cons r rest =>
      obtain ⟨rfl, _⟩ := List.cons.inj h
      simpa [List.countP_cons] using (lawful_visit hidle r).calls_after
  | cons first earlier ih =>
    cases rs with
    | nil => cases h
    | cons r rest =>
      obtain ⟨rfl, hrest⟩ := List.cons.inj h
      have hfirst : (m.serve r).2.loader.calls = m.loader.calls + if (m.visit r).invokes then 1 else 0 :=
        (lawful_visit hidle r).calls_after
      rw [ih (hidle.serve r) hrest, hfirst, List.cons_append, List.countP_cons]
      omega

/-- How the visits to a manager follow on each other. -/
structure Policy (script : Nat → Except Fault (Instance γ)) (vs : List (Visit γ)) : Prop where
  lawful : ∀ v ∈ vs, v.Lawful script
  /-- The loads reported after a call are the invocations of the loader up to then. -/
  loads_eq : ∀ earlier v later, vs = earlier ++ v :: later → v.after.loads = (earlier ++ [v]).countP Visit.invokes
  /-- After a success nothing is loaded until the next close. -/
  after_success : ∀ earlier v between w later, vs = earlier ++ v :: (between ++ w :: later) →
    v.invokes → (∃ tree, v.answer = .ok tree) → (∀ x ∈ between, x.request ≠ .close) →
    w.invokes = false
  /-- After a failure for want of an import nothing is loaded until the next reset or close. -/
  after_missingImport : ∀ earlier v between w later, vs = earlier ++ v :: (between ++ w :: later) →
    v.invokes → ∀ fault, v.answer = .error fault → fault.isKind .missingImport →
    (∀ x ∈ between, x.request ≠ .reset ∧ x.request ≠ .close) →
    w.invokes = false ∧ (w.request.needsParser → w.answer = .error fault)
  /-- After any other failure the next call that needs the parser loads again. -/
  after_failure : ∀ earlier v between w later, vs = earlier ++ v :: (between ++ w :: later) →
    v.invokes → ∀ fault, v.answer = .error fault → fault.isKind .missingImport = false →
    (∀ x ∈ between, x.request.needsParser = false) → w.request.needsParser →
    w.invokes

/-- A manager that is called by one caller at a time loads when it has to and not otherwise, whatever the calls
and whatever comes of the loads. -/
theorem load_policy (o : ParserOptions) (script : Nat → Except Fault (Instance γ)) (requests : List Request) :
    Policy script ((new o ⟨some script, 0⟩).visits requests) := by
  have hnew : (new o ⟨some script, 0⟩).Idle script := idle_new o
  refine ⟨fun v hv => ?_, fun earlier v later hvs => ?_, ?_, ?_, ?_⟩
  · obtain ⟨earlier, later, hvs⟩ := List.append_of_mem hv
    exact lawful_of_visits_eq hnew hvs
  · rw [(lawful_of_visits_eq hnew hvs).loads_eq.2, calls_of_visits_eq hnew hvs]
    exact Nat.zero_add _
  · rintro earlier v between w later hvs hinvokes ⟨tree, hanswer⟩ hbetween
    have hready := (lawful_of_visits_eq hnew hvs).of_ok hinvokes hanswer
    obtain ⟨hw, hready⟩ := lawful_later hnew hvs (fun x hx m' hidle hm' => ready_serve hidle hm' (hbetween x hx)) hready
    rw [← Bool.not_eq_true, hw.invokes_iff]
    exact fun h => not_open_of_ready hready h.2
  · intro earlier v between w later hvs hinvokes fault hanswer hkind hbetween
    obtain ⟨hstate, hlast⟩ := (lawful_of_visits_eq hnew hvs).of_error hinvokes hanswer
    obtain ⟨hw, hstuck⟩ := lawful_later hnew hvs
      (fun x hx m' hidle hm' => stuck_serve hidle hm' (hbetween x hx).1 (hbetween x hx).2) ⟨hstate, hlast, hkind⟩
    rw [← Bool.not_eq_true, hw.invokes_iff]
    exact ⟨fun h => hstuck.not_open h.2, fun hneeds => (hw.stuck hneeds fault hstuck).1⟩
  · intro earlier v between w later hvs hinvokes fault hanswer hkind hbetween hneeds
    obtain ⟨hstate, hlast⟩ := (lawful_of_visits_eq hnew hvs).of_error hinvokes hanswer
    have hopen : v.after.Open := by
      refine ⟨by simp [hstate], fun fault' hstuck => ?_⟩
      obtain rfl := Option.some.inj (hlast.symm.trans hstuck.2.1)
      exact absurd (hkind.symm.trans hstuck.2.2) (by decide)
    obtain ⟨hw, hopen⟩ := lawful_later (P := Open) hnew hvs (fun x hx m' _ hm' => open_serve hm' (hbetween x hx)) hopen
    exact hw.invokes_iff.2 ⟨hneeds, hopen⟩

/-- The second load fails for want of an import, so the third call does without; the next two load, once the
manager is closed and after a fault that may pass. -/
example : (visits (γ := Unit) (new .default ⟨some fun n =>
      .error (if n = 1 then .missingImports [] else .canceled), 0⟩)
    [.ensure, .reset, .parse [], .ensure, .close, .ensure, .ensure]).map Visit.invokes
      = [true, false, true, false, false, true, true] := by
  decide

end Manager

end Transpiler
