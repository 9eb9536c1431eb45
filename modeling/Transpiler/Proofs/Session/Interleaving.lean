import Mathlib.Data.Multiset.Bind
import Transpiler.Session.Manager

/-!
# Calls that overlap

Each call on a manager is a sequence of steps that are done in one go, and between two of them any number of steps of
other calls can fall. A `Scene` is what there is between two steps: the manager, the initialization under way, the
calls that have begun and not ended, and the instances closed so far. Of the sharing of initializations only this is
used: there is at most one at a time, and all who wait for it get its answer. Instances are told apart by the number
of the load that brought them.
-/

namespace Transpiler

variable {γ : Type}

/-- The number of the instance a parser owns, if any. -/
def Parser.serials (p : Parser γ) : Multiset Nat := p.owned.elim 0 fun i => {i.serial}

namespace Manager

/-- The instance of the parser the manager holds. -/
def current (m : Manager γ) : Multiset Nat := m.parser.elim 0 Parser.serials

/-- The instance that the load under way has brought. -/
def inFlight (m : Manager γ) : Multiset Nat :=
  match m.flight with
  | some ⟨_, some (.ok p)⟩ => p.serials
  | _ => 0

end Manager

namespace Session

/-- What a call is for. -/
inductive Wish where
  | load
  | parse (source : Text)
deriving DecidableEq, Repr

/-- A call between two of its steps. -/
inductive Call (γ : Type) where
  /-- It has yet to look whether there is anything to do. -/
  | asking (wish : Wish)
  /-- It has seen that something has to be loaded. -/
  | joining (wish : Wish)
  /-- It waits for the initialization under way. -/
  | waiting (wish : Wish)
  /-- It knows how the initialization went. -/
  | answered (wish : Wish) (answer : Except Fault Unit)
  /-- It has picked up the parser of these instances. -/
  | parsing (source : Text) (serials : Multiset Nat)
  /-- It has detached a parser that it has yet to close. -/
  | closing (p : Parser γ)

namespace Call

/-- The instances that the call has yet to close. -/
def held : Call γ → Multiset Nat
  | .closing p => p.serials
  | _ => 0

@[simp] lemma held_asking (w : Wish) : (asking w : Call γ).held = 0 := rfl

@[simp] lemma held_joining (w : Wish) : (joining w : Call γ).held = 0 := rfl

@[simp] lemma held_waiting (w : Wish) : (waiting w : Call γ).held = 0 := rfl

@[simp] lemma held_answered (w : Wish) (answer : Except Fault Unit) : (answered w answer : Call γ).held = 0 := rfl

@[simp] lemma held_parsing (source : Text) (serials : Multiset Nat) : (parsing source serials : Call γ).held = 0 := rfl

@[simp] lemma held_closing (p : Parser γ) : (closing p).held = p.serials := rfl

/-- What a call learns from the manager at its first step. -/
def checked (m : Manager γ) (w : Wish) : Call γ :=
  match m.settled with
  | some answer => .answered w answer
  | none => .joining w

@[simp] lemma held_checked (m : Manager γ) (w : Wish) : (checked m w).held = 0 := by
  unfold checked
  split <;> rfl

/-- The call after the initialization it may have waited for has ended. -/
def told (answer : Except Fault Unit) : Call γ → Call γ
  | .waiting w => .answered w answer
  | c => c

@[simp] lemma held_told (answer : Except Fault Unit) (c : Call γ) : (c.told answer).held = c.held := by
  cases c <;> rfl

end Call

/-- How far an initialization is. -/
inductive Run (γ : Type) where
  /-- Somebody has asked for it. -/
  | launched
  /-- It loads, or has loaded and has yet to say so. -/
  | loading
  /-- Its parser came too late and has yet to be closed. -/
  | discarding (p : Parser γ) (answer : Except Fault Unit)
  /-- Its answer has yet to reach those who wait. -/
  | done (answer : Except Fault Unit)

namespace Run

/-- The instances that the initialization has yet to close. -/
def held : Run γ → Multiset Nat
  | .discarding p _ => p.serials
  | _ => 0

@[simp] lemma held_launched : (launched : Run γ).held = 0 := rfl

@[simp] lemma held_loading : (loading : Run γ).held = 0 := rfl

@[simp] lemma held_discarding (p : Parser γ) (answer : Except Fault Unit) :
    (discarding p answer).held = p.serials := rfl

@[simp] lemma held_done (answer : Except Fault Unit) : (done answer : Run γ).held = 0 := rfl

/-- What is left to do after the end of a load. -/
def ofLanding (l : Landing γ) : Run γ :=
  match l.discarded with
  | some p => .discarding p l.answer
  | none => .done l.answer

@[simp] lemma held_ofLanding (l : Landing γ) : (ofLanding l).held = l.discarded.elim 0 Parser.serials := by
  rcases l with ⟨answer, _ | p⟩ <;> rfl

end Run

/-- The manager and its callers. -/
structure Scene (γ : Type) where
  manager : Manager γ
  /-- The initialization under way. -/
  run : Option (Run γ)
  calls : Multiset (Call γ)
  /-- The instances closed so far, once for each time. -/
  closed : Multiset Nat

namespace Scene

/-- A new manager that nobody has called. -/
def initial (options : ParserOptions) (outcomes : Option (Nat → Except Fault (Guest.Instance γ))) : Scene γ :=
  ⟨.new options ⟨outcomes, 0⟩, none, 0, 0⟩

/-- The instance that the initialization has yet to close. -/
def discarding (s : Scene γ) : Multiset Nat := s.run.elim 0 Run.held

/-- The instances that calls have yet to close. -/
def closing (s : Scene γ) : Multiset Nat := s.calls.bind Call.held

end Scene

/-- The kinds of steps. -/
inductive Move where
  | call
  | check
  | join
  | start
  | load
  | land
  | discard
  | deliver
  | giveUp
  | leave
  | pick
  | parse
  | close
  | finish
  | reset
deriving DecidableEq, Repr

/-- One step of one call, or of the initialization under way. -/
inductive Step : Scene γ → Move → Scene γ → Prop
  /-- Somebody wants the parser loaded or a source parsed. -/
  | call (s : Scene γ) (w : Wish) : Step s .call { s with calls := .asking w ::ₘ s.calls }
  /-- A caller looks whether there is anything to do. -/
  | check {s : Scene γ} {w : Wish} {rest : Multiset (Call γ)} (hcall : s.calls = .asking w ::ₘ rest) :
      Step s .check { s with calls := .checked s.manager w ::ₘ rest }
  /-- A caller joins the initialization, which is launched unless there is one. -/
  | join {s : Scene γ} {w : Wish} {rest : Multiset (Call γ)} (hcall : s.calls = .joining w ::ₘ rest) :
      Step s .join { s with run := some (s.run.getD .launched), calls := .waiting w ::ₘ rest }
  /-- The initialization starts: it begins a load, unless the parser has become ready. -/
  | start {s : Scene γ} (hrun : s.run = some .launched) :
      Step s .start
        { s with
          manager := s.manager.takeOff
          run := some (if s.manager.state = .ready then .done (.ok ()) else .loading) }
  /-- The load brings an instance or a fault. -/
  | load {s : Scene γ} {generation : Nat} (hrun : s.run = some .loading)
      (hflight : s.manager.flight = some ⟨generation, none⟩) :
      Step s .load { s with manager := s.manager.arrive }
  /-- The initialization publishes what the load has brought, or finds that it came too late. -/
  | land {s : Scene γ} {generation : Nat} {outcome : Except Fault (Parser γ)}
      (hrun : s.run = some .loading)
      (hflight : s.manager.flight = some ⟨generation, some outcome⟩) :
      Step s .land
        { s with
          manager := s.manager.endLoad.2
          run := some (.ofLanding s.manager.endLoad.1) }
  /-- The initialization closes the parser that came too late. -/
  | discard {s : Scene γ} {p : Parser γ} {answer : Except Fault Unit}
      (hrun : s.run = some (.discarding p answer)) :
      Step s .discard { s with run := some (.done answer), closed := s.closed + p.serials }
  /-- All who wait get the answer. -/
  | deliver {s : Scene γ} {answer : Except Fault Unit} (hrun : s.run = some (.done answer)) :
      Step s .deliver { s with run := none, calls := s.calls.map (.told answer) }
  /-- A caller no longer wants to wait. -/
  | giveUp {s : Scene γ} {w : Wish} {rest : Multiset (Call γ)} (hcall : s.calls = .waiting w ::ₘ rest) :
      Step s .giveUp { s with calls := rest }
  /-- A caller goes away with the answer. -/
  | leave {s : Scene γ} {w : Wish} {answer : Except Fault Unit} {rest : Multiset (Call γ)}
      (hcall : s.calls = .answered w answer ::ₘ rest) :
      Step s .leave { s with calls := rest }
  /-- A caller who wants a source parsed picks up the parser, or goes away because there is none. -/
  | pick {s : Scene γ} {source : Text} {rest : Multiset (Call γ)}
      (hcall : s.calls = .answered (.parse source) (.ok ()) ::ₘ rest) :
      Step s .pick { s with calls := s.manager.parser.elim rest fun p => .parsing source p.serials ::ₘ rest }
  /-- The source is parsed. The manager sees this only if it still holds the parser. -/
  | parse {s : Scene γ} {source : Text} {serials : Multiset Nat} {rest : Multiset (Call γ)}
      (hcall : s.calls = .parsing source serials ::ₘ rest) :
      Step s .parse
        { s with
          manager := if s.manager.current = serials then (s.manager.parseReady source).2 else s.manager
          calls := rest }
  /-- Somebody closes the manager and is left with its parser. -/
  | close (s : Scene γ) :
      Step s .close
        { s with
          manager := s.manager.detach.2
          calls := s.manager.detach.1.elim s.calls fun p => .closing p ::ₘ s.calls }
  /-- The parser of a closed manager is closed. -/
  | finish {s : Scene γ} {p : Parser γ} {rest : Multiset (Call γ)}
      (hcall : s.calls = .closing p ::ₘ rest) :
      Step s .finish { s with calls := rest, closed := s.closed + p.serials }
  /-- Somebody resets the manager. -/
  | reset (s : Scene γ) : Step s .reset { s with manager := s.manager.reset }

/-- The steps of a run. -/
inductive Path : Scene γ → List Move → Scene γ → Prop
  | nil (s : Scene γ) : Path s [] s
  | cons {s t u : Scene γ} {move : Move} {moves : List Move} (hstep : Step s move t)
      (hpath : Path t moves u) : Path s (move :: moves) u

/-- What every step keeps is kept along a path. -/
lemma Path.keeps {P : Scene γ → Prop} (hP : ∀ {s t : Scene γ} {move : Move}, Step s move t → P s → P t)
    {s t : Scene γ} {moves : List Move} (h : Path s moves t) (hs : P s) : P t := by
  induction h with
  | nil => exact hs
  | cons hstep _ ih => exact ih (hP hstep hs)

end Session

end Transpiler
