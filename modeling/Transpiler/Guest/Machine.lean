import Transpiler.Guest.Wasi

/-!
# Guests

A guest is known by its exports: functions that take words, change the machine, and return words, trap, or
exit. The machine is linear memory, the host's state, and whatever globals the guest has of its own, so a
guest may behave in any way at all.
-/

namespace Transpiler.Guest

/-- All that a running guest can change. -/
structure Machine (γ : Type) extends Host where
  globals : γ

/-- How a call of an exported function ends. -/
inductive Finish where
  | returned (results : List UInt64)
  | trapped (message : Text)
  | exited (code : UInt32)
deriving DecidableEq, Repr

/-- A function that a guest exports: how many words it takes, and what it does. -/
structure Func (γ : Type) where
  arity : Nat
  run : List UInt64 → Machine γ → Finish × Machine γ

/-- The code of a guest, by its exported functions. -/
structure Code (γ : Type) where
  exports : List (Text × Func γ)

/-- The function that is exported under a name. -/
def Code.export? {γ : Type} (g : Code γ) (name : Text) : Option (Func γ) := g.exports.lookup name

/-- A call that a guest has received: the function by its name, the arguments, and how the call ended. -/
structure Received where
  name : Text
  args : List UInt64
  finish : Finish
deriving DecidableEq, Repr

/-- Why a call has no results. -/
inductive CallFault where
  | trapped (message : Text)
  | exited (code : UInt32)
deriving DecidableEq, Repr

/-- The wording of a failed call. -/
def CallFault.message : CallFault → Text
  | .trapped message => message
  | .exited code => "module closed with exit_code(" ++ Text.ofNat code.toNat ++ ")"

/-- The fault that a failed call is reported as. -/
def CallFault.fault (f : CallFault) : Fault := .plain f.message

/-- What a call that ended so gives its caller. -/
def Finish.result : Finish → Except CallFault (List UInt64)
  | .returned results => .ok results
  | .trapped message => .error (.trapped message)
  | .exited code => .error (.exited code)

/-- The code with which a call exited. -/
def Finish.exit? : Finish → Option UInt32
  | .exited code => some code
  | _ => none

/-- The mark at which the frames of a trapped guest are listed. -/
def framesMark : Text := "\nwasm stack trace:"

/-- The message of a trap in a function, which the message names by its number and parameters. -/
def trapMessage (reason : Text) (function arity : Nat) : Text :=
  "wasm error: " ++ reason ++ framesMark ++ "\n\t.$" ++ Text.ofNat function ++ "("
    ++ Text.join "," (List.replicate arity "i32") ++ ")"

end Transpiler.Guest
