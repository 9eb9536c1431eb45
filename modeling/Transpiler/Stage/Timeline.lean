import Transpiler.Number.Binary64

/-!
# Timers on a virtual clock

The clock stands until it is moved. Pending timers stand in the order in which they fire: by due time, and
those due together in the order in which they were scheduled. Times are nanoseconds in 64 bits; a delay that
would lead past the last of them leads to the last one.
-/

namespace Transpiler.Stage

/-- A callback and its time. -/
structure Timer (κ : Type) where
  due : Int64
  id : Nat
  callback : κ

/-- Whether `a` fires before `b`. -/
def Timer.before {κ : Type} (a b : Timer κ) : Bool :=
  a.due < b.due || (a.due == b.due && a.id < b.id)

/-- The clock and what is scheduled on it. -/
structure Timeline (κ : Type) where
  now : Int64
  /-- How many timers were scheduled so far; they are numbered from one. -/
  issued : Nat
  pending : List (Timer κ)

namespace Timeline

variable {κ : Type}

/-- No timers, at zero. -/
def start : Timeline κ := ⟨0, 0, []⟩

/-- The last time there is. -/
def forever : Int64 := Int64.maxValue

/-- Nanoseconds in a millisecond. -/
def nanosPerMilli : Nat := 1000000

/-- Whether a delay in milliseconds is at least so many. -/
def isAtLeast (ms : Binary64) (bound : Nat) : Bool :=
  match ms.value with
  | .nan => false
  | .infinite negative => !negative
  | .finite _ _ _ => (ms.truncate?.getD 0) ≥ (bound : Int)

/-- A delay that is negative or no number counts as none. -/
def effective (ms : Binary64) : Binary64 :=
  if ms.isNaN || ms.isNegative then .ofInt 0 else ms

/-- The time a delay in milliseconds leads to. -/
def after (now : Int64) (ms : Binary64) : Int64 :=
  if isAtLeast ms (Nat.pow 2 63 / nanosPerMilli) then forever
  else
    let delay := Int64.ofInt ((ms.scale nanosPerMilli).truncate?.getD 0)
    if delay > forever - now then forever else now + delay

/-- Puts a timer in its place. -/
def insert (t : Timer κ) : List (Timer κ) → List (Timer κ)
  | [] => [t]
  | u :: rest => if u.before t then u :: insert t rest else t :: u :: rest

/-- Schedules a callback and gives the timer's number. -/
def schedule (ms : Binary64) (callback : κ) (l : Timeline κ) : Nat × Timeline κ :=
  let id := l.issued + 1
  let t : Timer κ := ⟨after l.now (effective ms), id, callback⟩
  (id, { l with issued := id, pending := insert t l.pending })

/-- Removes the timer with a number, if it is pending. -/
def cancel (id : Int) (l : Timeline κ) : Timeline κ :=
  { l with pending := l.pending.filter fun t => (t.id : Int) != id }

/-- Takes the next timer if it is due at `limit`, and sets the clock to its due time. -/
def next? (limit : Int64) (l : Timeline κ) : Option (Timer κ × Timeline κ) :=
  match l.pending with
  | [] => none
  | t :: rest => if t.due ≤ limit then some (t, { l with now := t.due, pending := rest }) else none

end Timeline

end Transpiler.Stage
