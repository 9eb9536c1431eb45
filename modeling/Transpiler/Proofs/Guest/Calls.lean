import Transpiler.Guest.Instance
import Transpiler.Proofs.After

/-!
# Actions on an instance

What holds after the actions that all others on an instance are made of: undoing, reading and changing memory,
and calling functions of the guest.
-/

namespace Transpiler.Guest

open Cleanups

variable {γ α : Type}

/-- How the action ends on `i`, whatever the fault is if it fails. -/
abbrev Act.After (act : Act γ α) (i : Instance γ) (ok : α → Instance γ → Prop) (failed : Instance γ → Prop) : Prop :=
  Transpiler.After act i ok fun _ => failed

namespace Act.After

variable {i : Instance γ} {ok : α → Instance γ → Prop} {failed failed₁ : Instance γ → Prop}

lemma refuse {fault : Fault} (h : failed i) : (refuse fault : Act γ α).After i ok failed := h

lemma note_bind {d : Deed} {f : Unit → Act γ α}
    (h : (f ()).After { i with journal := i.journal ++ [d] } ok failed) : (note d >>= f).After i ok failed := h

lemma faultsOf {act : Act γ Unit} (h : act.After i (fun _ i' => failed i') failed) :
    (Act.faultsOf act).After i (fun _ i' => failed i') failed := by
  rw [Act.After, Transpiler.After] at h ⊢
  rw [Act.faultsOf]
  cases hact : act i with
  | ok a i' =>
    rw [hact] at h
    exact h
  | error fault i' =>
    rw [hact] at h
    exact h

/-- What is undone when it fails has failed with what undoing it leaves. -/
lemma undoing {act : Act γ α} {undo : Act γ Unit} (h : act.After i ok failed₁)
    (hundo : ∀ i', failed₁ i' → undo.After i' (fun _ i'' => failed i'') failed) :
    (Act.undoing act undo).After i ok failed := by
  rw [Act.After, Transpiler.After] at h ⊢
  rw [Act.undoing]
  cases hact : act i with
  | ok a i' =>
    rw [hact] at h
    exact h
  | error fault i' =>
    rw [hact] at h
    have hundo := hundo i' h
    rw [Act.After, Transpiler.After] at hundo
    cases hrun : undo i' with
    | ok a i'' =>
      simp only [ignoring, hrun]
      rwa [hrun] at hundo
    | error fault' i'' =>
      simp only [ignoring, hrun]
      rwa [hrun] at hundo

lemma changeMemory {f : Memory → Except Fault Memory} {ok : Unit → Instance γ → Prop}
    (hok : ∀ memory, f i.machine.memory = .ok memory → ok () { i with machine := { i.machine with memory := memory } })
    (hfailed : failed i) : (changeMemory f).After i ok failed := by
  rw [Act.After, Transpiler.After, Act.changeMemory]
  cases hf : f i.machine.memory with
  | ok memory => exact hok memory hf
  | error fault => exact hfailed

lemma readMemory {f : Memory → Except Fault α} (hok : ∀ a, f i.machine.memory = .ok a → ok a i)
    (hfailed : failed i) : (readMemory f).After i ok failed := by
  rw [Act.After, Transpiler.After, Act.readMemory]
  cases hf : f i.machine.memory with
  | ok a => exact hok a hf
  | error fault => exact hfailed

section Calls

variable {f : Func γ} {args stack : List UInt64} {machine : Machine γ} {name : Text} (hopen : i.closed = false)

include hopen

lemma callFunction_run {finish : Finish} (harity : args.length = f.arity)
    (hrun : f.run args i.machine = (finish, machine)) :
    callFunction name f args i = .ok finish.result (i.received ⟨name, args, finish⟩ machine) := by
  have hmany : (args.length != f.arity) = false := by simpa using harity
  rw [callFunction, hopen, hmany, hrun]
  rfl

lemma callFunction_finished {ok : Except CallFault (List UInt64) → Instance γ → Prop} {finish : Finish}
    (harity : args.length = f.arity) (hrun : f.run args i.machine = (finish, machine))
    (h : ok finish.result (i.received ⟨name, args, finish⟩ machine)) : (callFunction name f args).After i ok failed := by
  rw [Act.After, Transpiler.After, callFunction_run hopen harity hrun]
  exact h

lemma callOnStack_finished {ok : Except CallFault (List UInt64) → Instance γ → Prop} {finish : Finish}
    (hfits : f.arity ≤ stack.length) (hrun : f.run (stack.take f.arity) i.machine = (finish, machine))
    (h : ok (finish.result.map fun results => results ++ stack.drop results.length)
      (i.received ⟨name, stack.take f.arity, finish⟩ machine)) : (callOnStack name f stack).After i ok failed := by
  refine .dite (fun hshort => absurd hfits (by omega)) fun _ => ?_
  have harity : (stack.take f.arity).length = f.arity := List.length_take_of_le hfits
  rw [Transpiler.After, bind_of_eq_ok (callFunction_run hopen harity hrun)]
  exact h

section Words

variable {results : List UInt64} {message : Text} (harity : args.length = f.arity)

include harity

lemma callResults_returned {ok : List UInt64 → Instance γ → Prop}
    (hrun : f.run args i.machine = (.returned results, machine))
    (h : ok results (i.received ⟨name, args, .returned results⟩ machine)) :
    (callResults name f args).After i ok failed := by
  rw [Act.After, Transpiler.After, callResults, bind_of_eq_ok (callFunction_run hopen harity hrun)]
  exact h

lemma callResults_trapped {ok : List UInt64 → Instance γ → Prop}
    (hrun : f.run args i.machine = (.trapped message, machine))
    (h : failed (i.received ⟨name, args, .trapped message⟩ machine)) :
    (callResults name f args).After i ok failed := by
  rw [Act.After, Transpiler.After, callResults, bind_of_eq_ok (callFunction_run hopen harity hrun)]
  exact h

lemma callWord_returned {ok : Option UInt32 → Instance γ → Prop}
    (hrun : f.run args i.machine = (.returned results, machine))
    (h : ok (results.head?.map (·.toUInt32)) (i.received ⟨name, args, .returned results⟩ machine)) :
    (callWord name f args).After i ok failed :=
  .bind (callResults_returned hopen harity hrun h) fun _ _ hok => hok

lemma callWord_trapped {ok : Option UInt32 → Instance γ → Prop}
    (hrun : f.run args i.machine = (.trapped message, machine))
    (h : failed (i.received ⟨name, args, .trapped message⟩ machine)) : (callWord name f args).After i ok failed :=
  .bind (callResults_trapped hopen harity hrun h) fun _ _ hok => hok

end Words

end Calls

end Act.After

/-! ## The ways of a parse -/

namespace Instance

variable {source : Text} {i i₁ i₂ : Instance γ} {p length : UInt32} {fault : Fault} (hopen : i.closed = false)

include hopen

lemma serialize_of_write_error (hwrite : Act.writeString source i = .error fault i₁) :
    i.serialize source = (⟨none, some fault⟩, (empty.release i₁).2.2) := by
  simp only [serialize, hopen, Bool.false_eq_true, if_false, writeString, hwrite]

variable (hwrite : Act.writeString source i = .ok (p, length) i₁)

include hwrite

lemma serialize_of_descriptor_error (hdesc : Act.newDescriptor i₁ = .error fault i₂) :
    i.serialize source = (⟨none, some fault⟩, ((empty.add (.free p)).release i₂).2.2) := by
  simp only [serialize, hopen, Bool.false_eq_true, if_false, writeString, hwrite, hdesc]

lemma serialize_of_breakdown (hdesc : Act.newDescriptor i₁ = .ok none i₂) :
    i.serialize source = (.breakdown, ((empty.add (.free p)).release i₂).2.2) := by
  simp only [serialize, hopen, Bool.false_eq_true, if_false, writeString, hwrite, hdesc]

lemma serialize_of_descriptor {desc : UInt32} (hdesc : Act.newDescriptor i₁ = .ok (some desc) i₂) :
    i.serialize source = ((i₂.answer desc p length).1,
      (((empty.add (.free p)).add (.run (.releaseDescriptor desc))).release (i₂.answer desc p length).2).2.2) := by
  simp only [serialize, hopen, Bool.false_eq_true, if_false, writeString, hwrite, hdesc]

end Instance

end Transpiler.Guest
