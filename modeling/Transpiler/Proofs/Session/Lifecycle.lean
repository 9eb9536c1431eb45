import Mathlib.Data.Multiset.Filter
import Mathlib.Data.Multiset.Range
import Mathlib.Tactic.Abel
import Transpiler.Proofs.Guest.Observing
import Transpiler.Proofs.Session.Interleaving

/-!
# The life of a parser under overlapping calls

Whatever calls overlap, the manager is ready exactly when it holds a parser, a load that was overtaken by a close is
never published, and every instance that was ever loaded is in exactly one place. What a manager does is described
operation by operation, by what it keeps (`Coherent`) and by where it puts instances. A scene is `Sound` if its
manager is coherent and no instance is lost or doubled; each step keeps it so.
-/

namespace Transpiler

open Manager Multiset

variable {γ : Type} {generation : Nat}

open Guest (Instance)

/-! ## Where instances are -/

namespace Loader

/-- Whether a call of the loader brings an instance. -/
def brings (l : Loader γ) (n : Nat) : Bool := l.outcomes.any fun outcome => (outcome n).isOk

/-- The calls so far that have brought an instance. -/
def delivered (l : Loader γ) : Multiset Nat := (range l.calls).filter fun n => l.brings n

lemma nodup_delivered (l : Loader γ) : l.delivered.Nodup :=
  (nodup_range l.calls).filter _

lemma outcomes_load (l : Loader γ) : l.load.2.outcomes = l.outcomes := by
  rcases l with ⟨_ | outcome, calls⟩ <;> rfl

lemma delivered_load_error {l : Loader γ} {fault : Fault} (h : l.load.1 = .error fault) :
    l.load.2.delivered = l.delivered := by
  rcases l with ⟨_ | outcome, calls⟩
  · rfl
  · cases hout : outcome calls with
    | ok i => simp [load, hout, Except.map] at h
    | error fault =>
      have hnone : ¬ (brings ⟨some outcome, calls + 1⟩ calls) := by
        simp [brings, hout, Except.isOk, Except.toBool]
      simp only [delivered, load, range_succ]
      exact filter_cons_of_neg _ hnone

lemma delivered_load_ok {l : Loader γ} {i : Instance γ} (h : l.load.1 = .ok i) :
    l.load.2.delivered = {i.serial} + l.delivered := by
  rcases l with ⟨_ | outcome, calls⟩
  · simp [load] at h
  · cases hout : outcome calls with
    | error fault => simp [load, hout, Except.map] at h
    | ok j =>
      have hi : { j with serial := calls } = i := by simpa [load, hout, Except.map] using h
      have hsome : brings ⟨some outcome, calls + 1⟩ calls := by
        simp [brings, hout, Except.isOk, Except.toBool]
      simp only [delivered, load, range_succ, ← hi]
      exact filter_cons_of_pos _ hsome

end Loader

namespace Parser

lemma serial_warmUp (o : ParserOptions) (i : Instance γ) : (warmUp o i).serial = i.serial := by
  unfold warmUp
  split
  · rfl
  · exact (i.serialize_later (warmupSource o)).serial

lemma serials_parse (o : ParserOptions) (decoder : Option Strategy) (source : Text) (p : Parser γ) :
    (p.parse o decoder source).2.serials = p.serials := by
  rcases p with ⟨_ | i, snapshot⟩
  · rfl
  · have hserial := (i.serialize_later source).serial
    simp only [parse]
    split <;> exact congrArg (fun n : Nat => ({n} : Multiset Nat)) hserial

end Parser

namespace Manager

/-- The manager is ready exactly when it holds a parser, and its state shows whether the load under way
has been overtaken by a close. -/
structure Coherent (m : Manager γ) : Prop where
  ready_iff : m.state = .ready ↔ m.parser.isSome
  of_timely : ∀ f ∈ m.flight, f.generation = m.closes → m.state = .initializing
  of_overtaken : ∀ f ∈ m.flight, f.generation ≠ m.closes → f.generation < m.closes ∧ m.state = .uninitialized

variable {m : Manager γ}

lemma Coherent.parser_eq_none (h : m.Coherent) (hstate : m.state ≠ .ready) : m.parser = none := by
  rw [Ne, h.ready_iff] at hstate
  simpa using hstate

lemma coherent_new (options : ParserOptions) (loader : Loader γ) : (new options loader).Coherent where
  ready_iff := by simp [new]
  of_timely := by simp [new]
  of_overtaken := by simp [new]

/-! ## Beginning a load -/

lemma takeOff_of_not_ready (hflight : m.flight = none) (hready : m.state ≠ .ready) :
    m.takeOff = { m with state := .initializing, loads := m.loads + 1, flight := some ⟨m.closes, none⟩ } := by
  simp only [takeOff, hflight, if_neg hready]

lemma takeOff_eq_self (h : m.flight ≠ none ∨ m.state = .ready) : m.takeOff = m := by
  unfold takeOff
  split
  · rfl
  · next hnone => rw [if_pos (h.resolve_left (not_not_intro hnone))]

/-- Either there is nothing to begin, or a load is under way from now on. -/
lemma takeOff_cases (m : Manager γ) :
    m.takeOff = m ∨
      m.flight = none ∧ m.state ≠ .ready ∧
        m.takeOff = { m with state := .initializing, loads := m.loads + 1, flight := some ⟨m.closes, none⟩ } := by
  by_cases h : m.flight ≠ none ∨ m.state = .ready
  · exact .inl (takeOff_eq_self h)
  · obtain ⟨hflight, hready⟩ := not_or.mp h
    exact .inr ⟨not_not.mp hflight, hready, takeOff_of_not_ready (not_not.mp hflight) hready⟩

lemma Coherent.takeOff (h : m.Coherent) : m.takeOff.Coherent := by
  obtain heq | ⟨_, hready, heq⟩ := m.takeOff_cases
  · rwa [heq]
  · rw [heq]
    exact ⟨by simp [h.parser_eq_none hready], by simp, by simp⟩

/-! ## Having its outcome -/

/-- What comes of a load is added both to what the loader has delivered and to what is in flight. -/
lemma arrive_of_pending (hflight : m.flight = some ⟨generation, none⟩) :
    ∃ loader outcome, m.arrive = { m with loader := loader, flight := some ⟨generation, some outcome⟩ } ∧
      loader.outcomes = m.loader.outcomes ∧
      loader.delivered = m.arrive.inFlight + m.loader.delivered := by
  cases hload : m.loader.load.1 with
  | error fault =>
    have harrive : m.arrive =
        { m with loader := m.loader.load.2, flight := some ⟨generation, some (.error fault)⟩ } := by
      simp only [arrive, hflight, Parser.start, Parser.new]
      rw [← Prod.mk.eta (p := m.loader.load), hload]
      rfl
    refine ⟨_, _, harrive, m.loader.outcomes_load, ?_⟩
    rw [harrive, Loader.delivered_load_error hload]
    exact (zero_add _).symm
  | ok i =>
    have harrive : ∃ snapshot, m.arrive =
        { m with
          loader := m.loader.load.2
          flight := some ⟨generation, some (.ok ⟨some (Parser.warmUp m.options i), snapshot⟩)⟩ } := by
      simp only [arrive, hflight, Parser.start, Parser.new]
      rw [← Prod.mk.eta (p := m.loader.load), hload]
      exact ⟨_, rfl⟩
    obtain ⟨snapshot, harrive⟩ := harrive
    refine ⟨_, _, harrive, m.loader.outcomes_load, ?_⟩
    rw [harrive, Loader.delivered_load_ok hload, ← Parser.serial_warmUp m.options i]
    rfl

lemma Coherent.arrive (h : m.Coherent) (hflight : m.flight = some ⟨generation, none⟩) : m.arrive.Coherent := by
  obtain ⟨_, _, harrive, _, _⟩ := arrive_of_pending hflight
  rw [harrive]
  refine ⟨h.ready_iff, ?_, ?_⟩
  · rintro f ⟨⟩ htimely
    exact h.of_timely ⟨generation, none⟩ hflight htimely
  · rintro f ⟨⟩ hovertaken
    exact h.of_overtaken ⟨generation, none⟩ hflight hovertaken

/-! ## Publishing or discarding it -/

variable {outcome : Except Fault (Parser γ)}

/-- The end of a load that a close has overtaken: the state and the parser stay as the close left them, and
what the load brought is left to be closed. -/
lemma endLoad_of_overtaken
    (hflight : m.flight = some ⟨generation, some outcome⟩) (hovertaken : generation ≠ m.closes) :
    m.endLoad.2 = { m with flight := none } ∧ m.endLoad.1.discarded.elim 0 Parser.serials = m.inFlight := by
  cases outcome with
  | error fault => simp [endLoad, inFlight, hflight, hovertaken.symm]
  | ok p => simp [endLoad, inFlight, hflight, hovertaken.symm]

/-- The end of a load in time: what it brought is published. -/
lemma endLoad_of_timely (hflight : m.flight = some ⟨m.closes, some outcome⟩) :
    m.endLoad.1.discarded = none ∧
      ((∃ fault, outcome = .error fault ∧
          m.endLoad.2 = { m with flight := none, state := .failed, lastFault := some fault }) ∨
        ∃ p, outcome = .ok p ∧
          m.endLoad.2 = { m with flight := none, parser := some p, state := .ready, lastFault := none }) := by
  cases outcome with
  | error fault => simp [endLoad, hflight]
  | ok p => simp [endLoad, hflight]

lemma flight_endLoad (hflight : m.flight = some ⟨generation, some outcome⟩) : m.endLoad.2.flight = none := by
  by_cases htimely : generation = m.closes
  · subst htimely
    obtain ⟨_, ⟨_, _, hend⟩ | ⟨_, _, hend⟩⟩ := endLoad_of_timely hflight <;> rw [hend]
  · rw [(endLoad_of_overtaken hflight htimely).1]

lemma Coherent.endLoad (h : m.Coherent) (hflight : m.flight = some ⟨generation, some outcome⟩) :
    m.endLoad.2.Coherent ∧ m.endLoad.2.loader = m.loader ∧
      m.endLoad.2.current + m.endLoad.1.discarded.elim 0 Parser.serials = m.inFlight + m.current := by
  by_cases htimely : generation = m.closes
  · subst htimely
    -- the manager is still initializing, so publishing puts no parser out of sight
    have hstate := h.of_timely _ hflight rfl
    have hparser : m.parser = none := h.parser_eq_none (by simp [hstate])
    obtain ⟨hdiscarded, ⟨fault, rfl, hend⟩ | ⟨p, rfl, hend⟩⟩ := endLoad_of_timely hflight
    · rw [hend, hdiscarded]
      refine ⟨⟨by simp [hparser], by simp, by simp⟩, rfl, ?_⟩
      simp [current, inFlight, hflight]
    · rw [hend, hdiscarded]
      refine ⟨⟨by simp, by simp, by simp⟩, rfl, ?_⟩
      simp [current, inFlight, hflight, hparser]
  · obtain ⟨hend, hdiscarded⟩ := endLoad_of_overtaken hflight htimely
    rw [hend, hdiscarded]
    exact ⟨⟨h.ready_iff, by simp, by simp⟩, rfl, add_comm _ _⟩

/-! ## The other operations -/

lemma flight_reset (m : Manager γ) : m.reset.flight = m.flight := by
  unfold reset
  split <;> rfl

lemma Coherent.reset (h : m.Coherent) : m.reset.Coherent := by
  unfold Manager.reset
  split
  · next hfailed =>
    -- a manager that has failed has no load under way
    have hnone : ∀ f ∈ m.flight, False := by
      intro f hf
      have hstate : m.state = .initializing ∨ m.state = .uninitialized :=
        (em (f.generation = m.closes)).imp (h.of_timely f hf) fun hne => (h.of_overtaken f hf hne).2
      simp [hfailed] at hstate
    refine ⟨?_, fun f hf => (hnone f hf).elim, fun f hf => (hnone f hf).elim⟩
    simp [h.parser_eq_none (by simp [hfailed])]
  · exact h

lemma Coherent.detach (h : m.Coherent) : m.detach.2.Coherent := by
  -- every load under way began before this close
  have hlt : ∀ f ∈ m.flight, f.generation < m.closes + 1 := by
    intro f hf
    by_cases htimely : f.generation = m.closes
    · omega
    · have := (h.of_overtaken f hf htimely).1
      omega
  refine ⟨by simp [Manager.detach], ?_, ?_⟩
  · intro f hf htimely
    exact absurd htimely (hlt f hf).ne
  · intro f hf _
    exact ⟨hlt f hf, rfl⟩

lemma parseReady_eq (m : Manager γ) (source : Text) :
    ∃ parser, (m.parseReady source).2 = { m with parser := parser } ∧ parser.isSome = m.parser.isSome ∧
      (m.parseReady source).2.current = m.current := by
  cases hparser : m.parser with
  | none =>
    have heq : (m.parseReady source).2 = m := by simp only [parseReady, hparser]
    exact ⟨m.parser, heq, by rw [hparser], by rw [heq]⟩
  | some p =>
    refine ⟨some (p.parse m.options m.registered source).2, by simp [parseReady, hparser], rfl, ?_⟩
    simp [parseReady, hparser, current, Parser.serials_parse]

lemma Coherent.parseReady (h : m.Coherent) (source : Text) : (m.parseReady source).2.Coherent := by
  obtain ⟨parser, heq, hsome, _⟩ := m.parseReady_eq source
  rw [heq]
  exact ⟨by simpa [hsome] using h.ready_iff, h.of_timely, h.of_overtaken⟩

end Manager

namespace Session

/-! ## What a step does to the manager -/

/-- How a step changes the manager, and which instances leave it. Most steps are about a call only. -/
inductive Change (m : Manager γ) : Move → Manager γ → Multiset Nat → Prop
  | idle {move : Move} (hmove : move ∉ [.land, .close]) : Change m move m 0
  | takeOff : Change m .start m.takeOff 0
  | arrive {generation : Nat} (hflight : m.flight = some ⟨generation, none⟩) : Change m .load m.arrive 0
  | endLoad {generation : Nat} {outcome : Except Fault (Parser γ)}
      (hflight : m.flight = some ⟨generation, some outcome⟩) :
      Change m .land m.endLoad.2 (m.endLoad.1.discarded.elim 0 Parser.serials)
  | parseReady (source : Text) : Change m .parse (m.parseReady source).2 0
  | detach : Change m .close m.detach.2 m.current
  | reset : Change m .reset m.reset 0

namespace Change

variable {m m' : Manager γ} {move : Move} {left : Multiset Nat}

/-- A change leaves a coherent manager, and no instance is lost: what leaves the manager was there before or
has just been loaded. -/
lemma coherent (hchange : Change m move m' left) (h : m.Coherent) :
    m'.Coherent ∧ m'.loader.outcomes = m.loader.outcomes ∧
      ∃ fresh, m'.loader.delivered = fresh + m.loader.delivered ∧
        m'.inFlight + m'.current + left = fresh + (m.inFlight + m.current) := by
  cases hchange with
  | idle => exact ⟨h, rfl, 0, by simp, by simp⟩
  | takeOff =>
    refine ⟨h.takeOff, ?_⟩
    obtain heq | ⟨hflight, _, heq⟩ := m.takeOff_cases
    · rw [heq]
      exact ⟨rfl, 0, by simp, by simp⟩
    · rw [heq]
      exact ⟨rfl, 0, by simp, by simp [inFlight, current, hflight]⟩
  | arrive hflight =>
    refine ⟨h.arrive hflight, ?_⟩
    obtain ⟨loader, outcome, heq, houtcomes, hdelivered⟩ := arrive_of_pending hflight
    have hcurrent : m.arrive.current = m.current := by rw [heq]; rfl
    have hbefore : m.inFlight = 0 := by simp [inFlight, hflight]
    have hloader : m.arrive.loader = loader := by rw [heq]
    rw [hloader]
    exact ⟨houtcomes, _, hdelivered, by rw [hcurrent, hbefore, add_zero, zero_add]⟩
  | endLoad hflight =>
    obtain ⟨hcoherent, hloader, hmoved⟩ := h.endLoad hflight
    have hafter : m.endLoad.2.inFlight = 0 := by
      simp [inFlight, flight_endLoad hflight]
    rw [hloader]
    exact ⟨hcoherent, rfl, 0, by simp, by rw [hafter, zero_add, zero_add, hmoved]⟩
  | parseReady source =>
    refine ⟨h.parseReady source, ?_⟩
    obtain ⟨parser, heq, _, hcurrent⟩ := m.parseReady_eq source
    have hinFlight : (m.parseReady source).2.inFlight = m.inFlight := by rw [heq]; rfl
    have hloader : (m.parseReady source).2.loader = m.loader := by rw [heq]
    rw [hloader, hinFlight, hcurrent]
    exact ⟨rfl, 0, by simp, by simp⟩
  | detach =>
    refine ⟨h.detach, rfl, 0, by simp [Manager.detach], ?_⟩
    have hnone : m.detach.2.current = 0 := rfl
    have hinFlight : m.detach.2.inFlight = m.inFlight := rfl
    rw [hnone, hinFlight, add_zero, zero_add]
  | reset =>
    refine ⟨h.reset, ?_⟩
    unfold Manager.reset
    split
    · exact ⟨rfl, 0, by simp, by simp [inFlight, current]⟩
    · exact ⟨rfl, 0, by simp, by simp⟩

lemma closes_eq (hchange : Change m move m' left) : m'.closes = m.closes + if move = .close then 1 else 0 := by
  cases hchange with
  | idle hmove => simp_all
  | takeOff => obtain heq | ⟨_, _, heq⟩ := m.takeOff_cases <;> simp [heq]
  | arrive hflight =>
    obtain ⟨_, _, heq, _⟩ := arrive_of_pending hflight
    simp [heq]
  | @endLoad generation outcome hflight =>
    by_cases htimely : generation = m.closes
    · subst htimely
      obtain ⟨_, ⟨_, _, heq⟩ | ⟨_, _, heq⟩⟩ := endLoad_of_timely hflight <;> simp [heq]
    · simp [(endLoad_of_overtaken hflight htimely).1]
  | parseReady source =>
    obtain ⟨_, heq, _⟩ := m.parseReady_eq source
    simp [heq]
  | detach => simp [Manager.detach]
  | reset => unfold Manager.reset; split <;> simp

/-- A load under way stays so until it lands. -/
lemma flight_kept (hchange : Change m move m' left) (hmove : move ≠ .land)
    (hflight : m.flight.map Flight.generation = some generation) :
    m'.flight.map Flight.generation = some generation := by
  cases hchange with
  | idle => exact hflight
  | takeOff =>
    rwa [takeOff_eq_self]
    left
    rintro hnone
    simp [hnone] at hflight
  | arrive hpending =>
    obtain ⟨_, _, heq, _⟩ := arrive_of_pending hpending
    rw [heq]
    simpa [hpending] using hflight
  | endLoad => exact absurd rfl hmove
  | parseReady source =>
    obtain ⟨_, heq, _⟩ := m.parseReady_eq source
    rwa [heq]
  | detach => exact hflight
  | reset => unfold Manager.reset; split <;> exact hflight

/-- A load that a close has overtaken changes nothing when it lands, and what it brought leaves. -/
lemma of_overtaken (hchange : Change m .land m' left) {f : Flight γ} (hf : m.flight = some f)
    (hovertaken : f.generation ≠ m.closes) : m' = { m with flight := none } ∧ left = m.inFlight := by
  cases hchange with
  | idle hmove => simp at hmove
  | endLoad hflight =>
    obtain rfl : f = _ := Option.some.inj (hf.symm.trans hflight)
    exact endLoad_of_overtaken hflight hovertaken

end Change

/-! ## What a step does to the scene -/

/-- The instances that have left the manager: somebody has yet to close them, or they are closed. -/
def Scene.retired (s : Scene γ) : Multiset Nat := s.discarding + s.closing + s.closed

lemma Scene.retired_eq (s : Scene γ) : s.retired = s.run.elim 0 Run.held + s.calls.bind Call.held + s.closed := rfl

/-- Whatever a step does to calls and to the initialization, it moves instances only out of the manager and
from there only on to being closed. -/
lemma Step.change {s t : Scene γ} {move : Move} (h : Step s move t) :
    ∃ left, Change s.manager move t.manager left ∧ t.retired = s.retired + left := by
  cases h with
  | call w => exact ⟨0, .idle (by decide), by simp [Scene.retired_eq]⟩
  | check hcall => exact ⟨0, .idle (by decide), by simp [Scene.retired_eq, hcall]⟩
  | join hcall =>
    refine ⟨0, .idle (by decide), ?_⟩
    cases hrun : s.run <;> simp [Scene.retired_eq, hcall, hrun]
  | start hrun =>
    refine ⟨0, .takeOff, ?_⟩
    simp [Scene.retired_eq, hrun, apply_ite Run.held]
  | load hrun hflight => exact ⟨0, .arrive hflight, by simp [Scene.retired_eq]⟩
  | land hrun hflight =>
    refine ⟨_, .endLoad hflight, ?_⟩
    simp only [Scene.retired_eq, hrun, Option.elim_some, Run.held_ofLanding, Run.held_loading]
    abel
  | discard hrun =>
    refine ⟨0, .idle (by decide), ?_⟩
    simp only [Scene.retired_eq, hrun, Option.elim_some, Run.held_done, Run.held_discarding]
    abel
  | deliver hrun => exact ⟨0, .idle (by decide), by simp [Scene.retired_eq, hrun, bind_map]⟩
  | giveUp hcall => exact ⟨0, .idle (by decide), by simp [Scene.retired_eq, hcall]⟩
  | leave hcall => exact ⟨0, .idle (by decide), by simp [Scene.retired_eq, hcall]⟩
  | pick hcall =>
    refine ⟨0, .idle (by decide), ?_⟩
    cases s.manager.parser <;> simp [Scene.retired_eq, hcall]
  | @parse source serials rest hcall =>
    refine ⟨0, ?_, by simp [Scene.retired_eq, hcall]⟩
    dsimp only
    split
    · exact .parseReady source
    · exact .idle (by decide)
  | close =>
    refine ⟨_, .detach, ?_⟩
    cases hparser : s.manager.parser with
    | none => simp [Scene.retired_eq, detach, current, hparser]
    | some p =>
      simp only [Scene.retired_eq, detach, current, hparser, Option.elim_some, cons_bind, Call.held]
      abel
  | finish hcall =>
    refine ⟨0, .idle (by decide), ?_⟩
    simp only [Scene.retired_eq, hcall, cons_bind, Call.held_closing]
    abel
  | reset => exact ⟨0, .reset, by simp [Scene.retired_eq]⟩

/-- A load is under way only while the initialization says so. -/
lemma Step.flying {s t : Scene γ} {move : Move} (h : Step s move t)
    (hs : s.manager.flight ≠ none → s.run = some .loading) :
    t.manager.flight ≠ none → t.run = some .loading := by
  cases h with
  | call | check | giveUp | leave | pick | close | finish => exact hs
  | join hcall =>
    intro hflight
    simp [hs hflight]
  | start hrun =>
    intro hflight
    obtain heq | ⟨_, hready, _⟩ := s.manager.takeOff_cases
    · -- nothing has begun, so a load would have been under way already
      have hloading := hs (by rwa [← heq])
      simp [hrun] at hloading
    · simp [hready]
  | load hrun => exact fun _ => hrun
  | land hrun hflight =>
    intro hflying
    exact absurd (flight_endLoad hflight) hflying
  | discard hrun | deliver hrun =>
    intro hflight
    have hloading := hs hflight
    simp [hrun] at hloading
  | @parse source serials rest hcall =>
    intro hflight
    obtain ⟨_, heq, _⟩ := s.manager.parseReady_eq source
    refine hs (ne_of_eq_of_ne ?_ hflight)
    dsimp only
    split
    · rw [heq]
    · rfl
  | reset => exact fun hflight => hs (by rwa [← s.manager.flight_reset])

/-- Between two steps: the manager is coherent, a load is under way only while the initialization says so,
and every instance that the loader has delivered is in one place. -/
structure Scene.Sound (outcomes : Option (Nat → Except Fault (Instance γ))) (s : Scene γ) : Prop where
  coherent : s.manager.Coherent
  flying : s.manager.flight ≠ none → s.run = some .loading
  outcomes_eq : s.manager.loader.outcomes = outcomes
  accounted : s.manager.inFlight + s.manager.current + s.retired = s.manager.loader.delivered

variable {outcomes : Option (Nat → Except Fault (Instance γ))} {s t u : Scene γ} {move : Move}
  {moves : List Move}

lemma Scene.sound_initial (options : ParserOptions) : (initial options outcomes).Sound outcomes where
  coherent := coherent_new options _
  flying := by simp [initial, new]
  outcomes_eq := rfl
  accounted := rfl

lemma Step.sound (h : Step s move t) (hs : s.Sound outcomes) : t.Sound outcomes := by
  obtain ⟨left, hchange, hretired⟩ := h.change
  obtain ⟨hcoherent, houtcomes, fresh, hfresh, hmoved⟩ := hchange.coherent hs.coherent
  refine ⟨hcoherent, h.flying hs.flying, houtcomes.trans hs.outcomes_eq, ?_⟩
  calc t.manager.inFlight + t.manager.current + t.retired
      = t.manager.inFlight + t.manager.current + left + s.retired := by rw [hretired]; abel
    _ = fresh + (s.manager.inFlight + s.manager.current + s.retired) := by rw [hmoved]; abel
    _ = t.manager.loader.delivered := by rw [hs.accounted, hfresh]

lemma Path.sound (h : Path s moves t) (hs : s.Sound outcomes) : t.Sound outcomes :=
  h.keeps (fun hstep => hstep.sound) hs

/-! ## Loads overtaken by a close -/

/-- Nothing that has left the manager comes back. -/
lemma Path.retired_le (h : Path s moves t) : s.retired ≤ t.retired := by
  induction h with
  | nil => exact le_rfl
  | cons hstep _ ih =>
    obtain ⟨left, _, hretired⟩ := hstep.change
    rw [hretired] at ih
    exact (le_add_right _ _).trans ih

lemma Path.closes_eq (h : Path s moves t) : t.manager.closes = s.manager.closes + moves.count .close := by
  induction h with
  | nil => rfl
  | cons hstep _ ih =>
    obtain ⟨_, hchange, _⟩ := hstep.change
    rw [ih, hchange.closes_eq, List.count_cons, add_assoc, add_comm (List.count _ _)]
    simp

lemma Path.flight_kept (h : Path s moves t) (hmoves : .land ∉ moves)
    (hflight : s.manager.flight.map Flight.generation = some generation) :
    t.manager.flight.map Flight.generation = some generation := by
  induction h with
  | nil => exact hflight
  | cons hstep _ ih =>
    obtain ⟨hmove, hrest⟩ := not_or.mp (mt List.mem_cons.mpr hmoves)
    obtain ⟨_, hchange, _⟩ := hstep.change
    exact ih hrest (hchange.flight_kept (Ne.symm hmove) hflight)

/-- The load that an initialization begins is stamped with the closes so far. -/
lemma Step.begins (h : Step s .start t) (hs : s.Sound outcomes) (hloading : t.run = some .loading) :
    t.manager.flight = some ⟨t.manager.closes, none⟩ := by
  cases h with
  | start hrun =>
    have hflight : s.manager.flight = none := by
      by_contra hflying
      have := hs.flying hflying
      simp [hrun] at this
    have hready : s.manager.state ≠ .ready := by
      intro hready
      simp [hready] at hloading
    simp only [takeOff_of_not_ready hflight hready]

/-- From a close during a load to the end of the load there is no parser. -/
lemma Path.overtaken (h : Path s moves t) (hs : s.Sound outcomes)
    (hflight : s.manager.flight = some ⟨s.manager.closes, none⟩) (hclose : .close ∈ moves)
    (hland : .land ∉ moves) :
    ∃ f, t.manager.flight = some f ∧ f.generation ≠ t.manager.closes ∧
      t.manager.state = .uninitialized ∧ t.manager.parser = none := by
  have hcoherent := (h.sound hs).coherent
  have hkept : t.manager.flight.map Flight.generation = some s.manager.closes :=
    h.flight_kept hland (by rw [hflight]; rfl)
  obtain ⟨f, hf, hgeneration⟩ := Option.map_eq_some_iff.mp hkept
  have hne : f.generation ≠ t.manager.closes := by
    have hcount := List.count_pos_iff.mpr hclose
    rw [hgeneration, h.closes_eq]
    omega
  have hstate := (hcoherent.of_overtaken f hf hne).2
  exact ⟨f, hf, hne, hstate, hcoherent.parser_eq_none (by simp [hstate])⟩

/-- What has left the manager is not the instance of its parser. -/
lemma Scene.Sound.not_mem_current (hs : s.Sound outcomes) {n : Nat} (hn : n ∈ s.retired) : n ∉ s.manager.current := by
  intro hcurrent
  have hnodup := s.manager.loader.nodup_delivered
  rw [← hs.accounted, nodup_add] at hnodup
  exact disjoint_left.mp hnodup.2.2 (mem_add.mpr (.inr hcurrent)) hn

/-- **The life of a parser.** However calls overlap, the manager is ready exactly when it holds a parser, and the
instances that the loader has delivered are, each once: the one of the load under way, the one of the manager's
parser, those that an initialization or a close has yet to close, and those that are closed. If the manager is
closed during a load, it has no parser from the close to the end of the load, is uninitialized after it, and never
gets what the load brought. -/
theorem parser_lifecycle {options : ParserOptions} (h : Path (.initial options outcomes) moves s) :
    (s.manager.state = .ready ↔ s.manager.parser.isSome = true) ∧
      (s.manager.inFlight + s.manager.current + s.discarding + s.closing + s.closed =
          Loader.delivered ⟨outcomes, s.manager.loader.calls⟩ ∧
        (Loader.delivered ⟨outcomes, s.manager.loader.calls⟩).Nodup ∧ s.closed.Nodup) ∧
      ∀ {t u : Scene γ} {during : List Move}, Step s .start t → t.run = some .loading →
        Path t during u → .close ∈ during → .land ∉ during →
          u.manager.parser = none ∧ u.manager.state = .uninitialized ∧
          ∀ {v : Scene γ}, Step u .land v →
            v.manager.parser = none ∧ v.manager.state = .uninitialized ∧
            ∀ {w : Scene γ} {after : List Move}, Path v after w → ∀ n ∈ u.manager.inFlight, n ∉ w.manager.current := by
  have hs := h.sound (Scene.sound_initial options)
  have hloader : s.manager.loader = ⟨outcomes, s.manager.loader.calls⟩ := by rw [← hs.outcomes_eq]
  have haccounted := hs.accounted
  rw [hloader, Scene.retired, ← add_assoc, ← add_assoc] at haccounted
  have hnodup := Loader.nodup_delivered ⟨outcomes, s.manager.loader.calls⟩
  refine ⟨hs.coherent.ready_iff, ⟨haccounted, hnodup, ?_⟩, ?_⟩
  · rw [← haccounted, nodup_add] at hnodup
    exact hnodup.2.1
  · intro t u during hstart hloading hduring hclose hland
    have ht := hstart.sound hs
    have hu := hduring.sound ht
    obtain ⟨f, hf, hovertaken, hstate, hparser⟩ :=
      hduring.overtaken ht (hstart.begins hs hloading) hclose hland
    refine ⟨hparser, hstate, fun {v} hv => ?_⟩
    obtain ⟨left, hchange, hretired⟩ := hv.change
    obtain ⟨hmanager, rfl⟩ := hchange.of_overtaken hf hovertaken
    refine ⟨by rw [hmanager]; exact hparser, by rw [hmanager]; exact hstate, fun hafter n hn => ?_⟩
    -- what the load brought is among what has left, and stays there
    have hleft : n ∈ v.retired := by
      rw [hretired]
      exact mem_add.mpr (.inr hn)
    exact (hafter.sound (hv.sound hu)).not_mem_current (mem_of_le hafter.retired_le hleft)

/-- Somebody waits for the parser, which is an instance of a guest that can do nothing. -/
def awaited : Scene Unit :=
  { manager := .new ⟨[], true, false⟩
      ⟨some fun _ => .ok (.new ⟨[]⟩ ⟨⟨.blank 0, .new [] [] []⟩, ()⟩ 0), 0⟩
    run := some .launched
    calls := {.waiting .load}
    closed := 0 }

/-- The manager is closed while the awaited parser is loaded. -/
theorem parser_lifecycle_awaited :
    Path (.initial awaited.manager.options awaited.manager.loader.outcomes) [.call, .check, .join] awaited ∧
      ∃ t u v : Scene Unit, Step awaited .start t ∧ Path t [.close, .load] u ∧
        u.manager.inFlight = {0} ∧ Step u .land v ∧ v.discarding = {0} ∧
        v.manager.parser = none ∧ v.manager.state = .uninitialized := by
  have hpath : Path (.initial awaited.manager.options awaited.manager.loader.outcomes) [.call, .check, .join] awaited :=
    .cons (.call _ .load)
      (.cons (.check (show _ = Call.asking .load ::ₘ 0 from rfl))
        (.cons (.join (show _ = Call.joining .load ::ₘ 0 from rfl)) (.nil _)))
  have hstart := Step.start (s := awaited) rfl
  have hclose := Step.close { awaited with manager := awaited.manager.takeOff, run := some .loading }
  have hload := Step.load
    (s := { awaited with manager := awaited.manager.takeOff.detach.2, run := some .loading }) rfl rfl
  have hland := Step.land
    (s := { awaited with manager := awaited.manager.takeOff.detach.2.arrive, run := some .loading }) rfl rfl
  have hduring := Path.cons hclose (.cons hload (.nil _))
  have hlanded := ((parser_lifecycle hpath).2.2 hstart rfl hduring (by decide) (by decide)).2.2 hland
  exact ⟨hpath, _, _, _, hstart, hduring, rfl, hland, rfl, hlanded.1, hlanded.2.1⟩

end Session

end Transpiler
