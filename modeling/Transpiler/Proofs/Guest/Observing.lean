import Transpiler.Proofs.Guest.Calls

/-!
# What actions on an instance leave

A parse takes two blocks of the guest's memory and can fail between any two of its steps: the guest may trap or exit
in every call, answer with any words, or lack functions. Every action is described by what it enters in the journal
(`Act.Ends`), most by entering nothing that matters (`Act.Quiet`). What matters are the blocks, and the calls by which
a descriptor is made ready, filled and emptied (`Deed.isKey`).

That an entry tells of a call which the guest has received is checked with a guest that keeps a list of its calls in
globals of its own. Every action does the same as before, and the list grows by the calls that are entered. What comes
of it for a parse is `Instance.serialize_leaves`.
-/

namespace Transpiler.Guest

open List Act Answer

variable {γ α β δ : Type}

/-! ## Guests that keep a list of their calls -/

/-- The function of a name, with every call of it added to a list in the globals. -/
def Func.observed (name : Text) (f : Func γ) : Func (γ × List Received) where
  arity := f.arity
  run args m :=
    let (finish, after) := f.run args ⟨m.toHost, m.globals.1⟩
    (finish, ⟨after.toHost, (after.globals, m.globals.2 ++ [⟨name, args, finish⟩])⟩)

/-- The functions for buffers, observed under the names they are exported by. -/
def BufferFunctions.observed (b : BufferFunctions γ) : BufferFunctions (γ × List Received) where
  sizeof := b.sizeof.observed "pm_buffer_sizeof"
  init := b.init.observed "pm_buffer_init"
  value := b.value.observed "pm_buffer_value"
  length := b.length.observed "pm_buffer_length"
  free := b.free.observed "pm_buffer_free"

/-- The instance with all functions of its guest observed, which has received some calls so far. -/
def Instance.observed (i : Instance γ) (calls : List Received) : Instance (γ × List Received) where
  guest := ⟨i.guest.exports.map fun p => (p.1, p.2.observed p.1)⟩
  machine := ⟨i.machine.toHost, (i.machine.globals, calls)⟩
  exit := i.exit
  arena := i.arena
  journal := i.journal
  closed := i.closed
  serial := i.serial

namespace Instance

variable (i : Instance γ) (calls : List Received)

lemma export?_observed (name : Text) :
    (i.observed calls).guest.export? name = (i.guest.export? name).map (Func.observed name) := by
  simp only [observed, Code.export?]
  induction i.guest.exports with
  | nil => rfl
  | cons p rest ih =>
    rw [map_cons, lookup_cons, lookup_cons]
    cases hname : name == p.1 with
    | true => simp [beq_iff_eq.1 hname]
    | false => simpa using ih

lemma exit_observed : (i.observed calls).exit = i.exit := rfl

lemma allocates_observed : (i.observed calls).guest.allocates = i.guest.allocates := by
  simp only [Code.allocates, export?_observed, Option.isSome_map]

lemma bufferFunctions?_observed :
    (i.observed calls).guest.bufferFunctions? = i.guest.bufferFunctions?.map BufferFunctions.observed := by
  simp only [Code.bufferFunctions?, export?_observed]
  cases i.guest.export? "pm_buffer_sizeof" <;> cases i.guest.export? "pm_buffer_init" <;>
    cases i.guest.export? "pm_buffer_value" <;> cases i.guest.export? "pm_buffer_length" <;>
    cases i.guest.export? "pm_buffer_free" <;> rfl

end Instance

/-! ## Guests that give the words they owe -/

/-- The function never returns without a word. -/
def Func.GivesWord (f : Func γ) : Prop := ∀ args m, (f.run args m).1 ≠ .returned []

/-- The functions for buffers that are asked for a word give one whenever they return. -/
def Code.GivesWords (g : Code γ) : Prop :=
  ∀ buffer, g.bufferFunctions? = some buffer →
    buffer.sizeof.GivesWord ∧ buffer.init.GivesWord ∧ buffer.value.GivesWord ∧ buffer.length.GivesWord

/-- Whether a call has returned with a first word other than zero. -/
def Finish.agrees : Finish → Bool
  | .returned (word :: _) => word.toUInt32 != 0
  | _ => false

/-! ## Entries of the journal -/

namespace Deed

/-- The call that an entry tells of. -/
def call? : Deed → Option Received
  | .called c => some c
  | _ => none

/-- The functions by which a descriptor is made ready, filled and emptied. -/
def keyNames : List Text := ["pm_buffer_init", parseName, "pm_buffer_free"]

/-- Whether an entry tells of a block or of what was done with a descriptor. The other calls obtain and free memory, or
read the answer. -/
def isKey : Deed → Bool
  | .called c => keyNames.contains c.name
  | _ => true

end Deed

/-- The calls among some entries. -/
def callsOf (deeds : List Deed) : List Received := deeds.filterMap Deed.call?

/-- The entries that matter. -/
def keysOf (deeds : List Deed) : List Deed := deeds.filter Deed.isKey

@[simp] lemma callsOf_nil : callsOf [] = [] := rfl

@[simp] lemma callsOf_append (deeds more : List Deed) : callsOf (deeds ++ more) = callsOf deeds ++ callsOf more :=
  filterMap_append

@[simp] lemma keysOf_nil : keysOf [] = [] := rfl

@[simp] lemma keysOf_append (deeds more : List Deed) : keysOf (deeds ++ more) = keysOf deeds ++ keysOf more :=
  filter_append ..

/-! ## How actions end -/

/-- The instance at the start of a parse. -/
abbrev Instance.begun (i : Instance γ) : Instance γ :=
  { i with exit := none, machine := { i.machine with wasi := i.machine.wasi.reset } }

/-- The second instance is the first one later on: guest and number are the same, and it is as open or closed as it
was. -/
structure Instance.Later (i i' : Instance γ) : Prop where
  guest : i'.guest = i.guest
  closed : i'.closed = i.closed
  serial : i'.serial = i.serial

/-- The second instance is the first one later on, and the journal has grown by `deeds`. -/
structure Instance.Grows (i : Instance γ) (deeds : List Deed) (i' : Instance γ) : Prop extends i.Later i' where
  journal : i'.journal = i.journal ++ deeds

namespace Instance

lemma Grows.refl (i : Instance γ) : i.Grows [] i := ⟨⟨rfl, rfl, rfl⟩, (append_nil _).symm⟩

lemma Later.trans {i i' i'' : Instance γ} (h : i.Later i') (h' : i'.Later i'') : i.Later i'' :=
  ⟨h'.guest.trans h.guest, h'.closed.trans h.closed, h'.serial.trans h.serial⟩

lemma Grows.trans {i i' i'' : Instance γ} {deeds more : List Deed} (h : i.Grows deeds i')
    (h' : i'.Grows more i'') : i.Grows (deeds ++ more) i'' where
  toLater := h.toLater.trans h'.toLater
  journal := by rw [h'.journal, h.journal, append_assoc]

end Instance

/-- How the action ends on `i`: what it has entered in the journal is as `ok` says of its result if it
succeeds, and as `failed` says if it fails, as far as it matters. The other action does the same on the observed
instance, which receives the calls that are entered. -/
def Act.Ends (act : Act γ α) (act' : Act (γ × List Received) α) (i : Instance γ) (ok : α → List Deed → Prop)
    (failed : List Deed → Prop) : Prop :=
  ∀ calls,
    (∃ a i' deeds, act i = .ok a i' ∧ act' (i.observed calls) = .ok a (i'.observed (calls ++ callsOf deeds)) ∧
      i.Grows deeds i' ∧ ok a (keysOf deeds)) ∨
    ∃ fault i' deeds, act i = .error fault i' ∧
      act' (i.observed calls) = .error fault (i'.observed (calls ++ callsOf deeds)) ∧ i.Grows deeds i' ∧
      failed (keysOf deeds)

/-- An action that enters nothing that matters, however it ends. -/
def Act.Quiet (act : Act γ α) (act' : Act (γ × List Received) α) : Prop :=
  ∀ i, act.Ends act' i (fun _ deeds => deeds = []) (· = [])

variable {deeds : List Deed}

namespace Act

section

variable {act : Act γ α} {f : α → Act γ β} {i i' : Instance γ}

lemma modify_bind_apply (change : Instance γ → Instance γ) (f : Unit → Act γ α) (i : Instance γ) :
    (modify change >>= f) i = f () (change i) :=
  rfl

lemma get_bind_apply (f : Instance γ → Act γ α) (i : Instance γ) : (get >>= f) i = f i i := rfl

end

namespace Ends

variable {i : Instance γ} {ok ok₁ : α → List Deed → Prop} {ok' : β → List Deed → Prop}
  {failed failed₁ : List Deed → Prop}

section

variable {act act₁ : Act γ α} {act' act₁' : Act (γ × List Received) α}

lemma of_ok (a : α) {i' : Instance γ} (hrun : act i = .ok a i')
    (hrun' : ∀ calls, act' (i.observed calls) = .ok a (i'.observed calls)) (hgrows : i.Grows deeds i')
    (hcalls : callsOf deeds = []) (h : ok a (keysOf deeds)) : act.Ends act' i ok failed :=
  fun calls => .inl ⟨a, i', deeds, hrun, by rw [hcalls, append_nil, hrun'], hgrows, h⟩

lemma of_error (fault : Fault) (hrun : act i = .error fault i)
    (hrun' : ∀ calls, act' (i.observed calls) = .error fault (i.observed calls)) (h : failed []) :
    act.Ends act' i ok failed :=
  fun calls => .inr ⟨fault, i, [], hrun, by rw [callsOf_nil, append_nil, hrun'], .refl i, h⟩

lemma pure {a : α} (h : ok a []) : (pure a : Act γ α).Ends (pure a) i ok failed :=
  of_ok a rfl (fun _ => rfl) (.refl i) rfl h

lemma refuse {fault : Fault} (h : failed []) : (refuse fault : Act γ α).Ends (refuse fault) i ok failed :=
  of_error fault rfl (fun _ => rfl) h

lemma mono (h : act.Ends act' i ok₁ failed₁) (hok : ∀ a deeds, ok₁ a deeds → ok a deeds)
    (hfailed : ∀ deeds, failed₁ deeds → failed deeds) : act.Ends act' i ok failed := by
  intro calls
  rcases h calls with ⟨a, i', deeds, hrun, hrun', hgrows, h⟩ | ⟨fault, i', deeds, hrun, hrun', hgrows, h⟩
  · exact .inl ⟨a, i', deeds, hrun, hrun', hgrows, hok a _ h⟩
  · exact .inr ⟨fault, i', deeds, hrun, hrun', hgrows, hfailed _ h⟩

lemma ite {c : Prop} [Decidable c] (h : c → act.Ends act' i ok failed) (h₁ : ¬c → act₁.Ends act₁' i ok failed) :
    (if c then act else act₁).Ends (if c then act' else act₁') i ok failed := by
  by_cases hc : c
  · rw [if_pos hc, if_pos hc]
    exact h hc
  · rw [if_neg hc, if_neg hc]
    exact h₁ hc

/-- An action that is undone when it fails has then left what it did itself and what undoing it does. -/
lemma undoing {undo : Act γ Unit} {undo' : Act (γ × List Received) Unit} (h : act.Ends act' i ok failed₁)
    (hundo : ∀ deeds i', failed₁ deeds → i.Later i' →
      undo.Ends undo' i' (fun _ more => failed (deeds ++ more)) fun more => failed (deeds ++ more)) :
    (undoing act undo).Ends (undoing act' undo') i ok failed := by
  intro calls
  rcases h calls with ⟨a, i₁, deeds, hrun, hrun', hgrows, h⟩ | ⟨fault, i₁, deeds, hrun, hrun', hgrows, h⟩
  · exact .inl ⟨a, i₁, deeds, by simp only [Act.undoing, hrun], by simp only [Act.undoing, hrun'], hgrows, h⟩
  · -- However undoing ends, the fault is that of the action.
    obtain ⟨i₂, more, hback, hback', hgrows', h'⟩ : ∃ i₂ more, ignoring undo i₁ = .ok () i₂ ∧
        ignoring undo' (i₁.observed (calls ++ callsOf deeds)) =
          .ok () (i₂.observed (calls ++ callsOf deeds ++ callsOf more)) ∧
        i₁.Grows more i₂ ∧ failed (keysOf deeds ++ keysOf more) := by
      rcases hundo _ i₁ h hgrows.toLater (calls ++ callsOf deeds) with ⟨_, i₂, more, hback, hback', hrest⟩ |
        ⟨_, i₂, more, hback, hback', hrest⟩
      · exact ⟨i₂, more, by simp only [ignoring, hback], by simp only [ignoring, hback'], hrest⟩
      · exact ⟨i₂, more, by simp only [ignoring, hback], by simp only [ignoring, hback'], hrest⟩
    refine .inr ⟨fault, i₂, deeds ++ more, ?_, ?_, hgrows.trans hgrows', by rwa [keysOf_append]⟩
    · simp only [Act.undoing, hrun, hback]
    · simp only [Act.undoing, hrun', hback', callsOf_append, append_assoc]

end

/-- An action whose faults are collected does not fail any more. -/
lemma faultsOf {act : Act γ Unit} {act' : Act (γ × List Received) Unit}
    (h : act.Ends act' i (fun _ deeds => failed deeds) failed) :
    (faultsOf act).Ends (faultsOf act') i (fun _ deeds => failed deeds) fun _ => False := by
  intro calls
  rcases h calls with ⟨_, i', deeds, hrun, hrun', hrest⟩ | ⟨fault, i', deeds, hrun, hrun', hrest⟩
  · exact .inl ⟨[], i', deeds, by simp only [Act.faultsOf, hrun], by simp only [Act.faultsOf, hrun'], hrest⟩
  · exact .inl ⟨[fault], i', deeds, by simp only [Act.faultsOf, hrun], by simp only [Act.faultsOf, hrun'], hrest⟩

section

variable {f : α → Act γ β} {f' : α → Act (γ × List Received) β}

variable {act' : Act (γ × List Received) α}

/-- Of a sequence, either the first action fails, or the second one goes on with the journal. -/
lemma bind {act : Act γ α} (h : act.Ends act' i ok₁ failed₁) (hfailed : ∀ deeds, failed₁ deeds → failed deeds)
    (hf : ∀ a deeds i', ok₁ a deeds → i.Later i' →
      (f a).Ends (f' a) i' (fun b more => ok' b (deeds ++ more)) fun more => failed (deeds ++ more)) :
    (act >>= f).Ends (act' >>= f') i ok' failed := by
  intro calls
  rcases h calls with ⟨a, i₁, deeds, hrun, hrun', hgrows, h⟩ | ⟨fault, i₁, deeds, hrun, hrun', hgrows, h⟩
  · rw [bind_of_eq_ok hrun, bind_of_eq_ok hrun']
    rcases hf a _ i₁ h hgrows.toLater (calls ++ callsOf deeds) with
      ⟨b, i₂, more, hgoes, hgoes', hgrows', h'⟩ | ⟨fault, i₂, more, hgoes, hgoes', hgrows', h'⟩
    · rw [append_assoc, ← callsOf_append] at hgoes'
      exact .inl ⟨b, i₂, _, hgoes, hgoes', hgrows.trans hgrows', by rwa [keysOf_append]⟩
    · rw [append_assoc, ← callsOf_append] at hgoes'
      exact .inr ⟨fault, i₂, _, hgoes, hgoes', hgrows.trans hgrows', by rwa [keysOf_append]⟩
  · exact .inr ⟨fault, i₁, deeds, bind_of_eq_error hrun, bind_of_eq_error hrun', hgrows, hfailed _ h⟩

lemma quiet_bind {act : Act γ α} (h : act.Quiet act') (hfailed : failed [])
    (hf : ∀ a i', i.Later i' → (f a).Ends (f' a) i' ok' failed) : (act >>= f).Ends (act' >>= f') i ok' failed := by
  refine (h i).bind ?_ ?_
  · rintro _ rfl
    exact hfailed
  · rintro a _ i' rfl hlater
    exact hf a i' hlater

end

/-- A block that is obtained or given back is entered. -/
lemma note_bind {d : Deed} (hd : d.call? = none) {f : Unit → Act γ α} {f' : Unit → Act (γ × List Received) α}
    (h : ∀ i', i.Later i' → (f ()).Ends (f' ()) i' (fun a more => ok a (d :: more)) fun more => failed (d :: more)) :
    (note d >>= f).Ends (note d >>= f') i ok failed := by
  have hkey : keysOf [d] = [d] := by
    cases d with
    | reserved p => rfl
    | freed p => rfl
    | called c => cases hd
  have hnote : (note d : Act γ Unit).Ends (note d) i (fun _ deeds => deeds = [d]) fun _ => False :=
    of_ok () rfl (fun _ => rfl) ⟨⟨rfl, rfl, rfl⟩, rfl⟩ (by simp [callsOf, hd]) hkey
  refine hnote.bind (fun _ hfalse => hfalse.elim) ?_
  rintro _ _ i' rfl hlater
  exact h i' hlater

lemma get_bind {f : Instance γ → Act γ α} {f' : Instance (γ × List Received) → Act (γ × List Received) α}
    (h : ∀ calls, (f i).Ends (f' (i.observed calls)) i ok failed) : (get >>= f).Ends (get >>= f') i ok failed :=
  fun calls => h calls calls

end Ends

/-! ## Actions that enter nothing that matters -/

namespace Quiet

variable {act act₁ : Act γ α} {act' act₁' : Act (γ × List Received) α}

lemma pure (a : α) : (pure a : Act γ α).Quiet (pure a) := fun _ => .pure rfl

lemma refuse (fault : Fault) : (refuse fault : Act γ α).Quiet (refuse fault) := fun _ => .refuse rfl

lemma bind {f : α → Act γ β} {f' : α → Act (γ × List Received) β} (h : act.Quiet act')
    (hf : ∀ a, (f a).Quiet (f' a)) : (act >>= f).Quiet (act' >>= f') :=
  fun _ => .quiet_bind h rfl fun a i' _ => hf a i'

lemma get_bind {f : Instance γ → Act γ α} {f' : Instance (γ × List Received) → Act (γ × List Received) α}
    (h : ∀ i calls, (f i).Quiet (f' (i.observed calls))) : (get >>= f).Quiet (get >>= f') :=
  fun i => Ends.get_bind fun calls => h i calls i

lemma ite {c : Prop} [Decidable c] (h : act.Quiet act') (h₁ : act₁.Quiet act₁') :
    (if c then act else act₁).Quiet (if c then act' else act₁') :=
  fun i => .ite (fun _ => h i) fun _ => h₁ i

lemma after (h : act.Quiet act') (deeds : List Deed) (i : Instance γ) :
    act.Ends act' i (fun _ more => deeds ++ more = deeds) fun more => deeds ++ more = deeds := by
  refine (h i).mono ?_ ?_
  · rintro _ _ rfl
    exact append_nil deeds
  · rintro _ rfl
    exact append_nil deeds

end Quiet

lemma quiet_changeMemory (f : Memory → Except Fault Memory) : (changeMemory f : Act γ Unit).Quiet (changeMemory f) := by
  intro i
  have hsame : ∀ calls, (i.observed calls).machine.memory = i.machine.memory := fun _ => rfl
  cases hf : f i.machine.memory with
  | ok memory =>
    have hrun : changeMemory f i = .ok () { i with machine := { i.machine with memory := memory } } := by
      simp only [changeMemory, hf]
    refine .of_ok () hrun (fun calls => ?_) ⟨⟨rfl, rfl, rfl⟩, (append_nil _).symm⟩ rfl rfl
    simp only [changeMemory, hsame, hf]
    rfl
  | error fault =>
    exact .of_error fault (by simp only [changeMemory, hf]) (fun calls => by simp only [changeMemory, hsame, hf]) rfl

lemma quiet_readMemory (f : Memory → Except Fault α) : (readMemory f : Act γ α).Quiet (readMemory f) := by
  intro i
  have hsame : ∀ calls, (i.observed calls).machine.memory = i.machine.memory := fun _ => rfl
  cases hf : f i.machine.memory with
  | ok a =>
    exact .of_ok a (by simp only [readMemory, hf]) (fun calls => by simp only [readMemory, hsame, hf]) (.refl i) rfl rfl
  | error fault =>
    exact .of_error fault (by simp only [readMemory, hf]) (fun calls => by simp only [readMemory, hsame, hf]) rfl

lemma quiet_lift (r : Except Fault α) : (lift r : Act γ α).Quiet (lift r) := by
  cases r with
  | ok a => exact .pure a
  | error fault => exact .refuse fault

lemma quiet_allocFromArena (size : UInt32) : (allocFromArena size : Act γ UInt32).Quiet (allocFromArena size) := by
  intro i
  have hsame : ∀ calls, (i.observed calls).arena.alloc (i.observed calls).machine.memory.reportedSize.toNat size =
      i.arena.alloc i.machine.memory.reportedSize.toNat size := fun _ => rfl
  cases hplace : i.arena.alloc i.machine.memory.reportedSize.toNat size with
  | ok place =>
    obtain ⟨ptr, arena⟩ := place
    have hrun : allocFromArena size i = .ok ptr { i with arena := arena } := by simp only [allocFromArena, hplace]
    refine .of_ok ptr hrun (fun calls => ?_) ⟨⟨rfl, rfl, rfl⟩, (append_nil _).symm⟩ rfl rfl
    simp only [allocFromArena, hsame, hplace]
    rfl
  | error fault =>
    exact .of_error fault (by simp only [allocFromArena, hplace])
      (fun calls => by simp only [allocFromArena, hsame, hplace]) rfl

end Act

/-! ## Calls of the guest -/

namespace Act

/-- A call that reaches the guest is entered and is one more on its list, and it gives what the guest's function ends
with. A call can end before that: on a closed instance, and with the wrong number of arguments. -/
lemma callFunction_observed (name : Text) (f : Func γ) (args : List UInt64) (i : Instance γ) (calls : List Received) :
    ∃ finish i' deeds, callFunction name f args i = .ok finish.result i' ∧
      callFunction name (f.observed name) args (i.observed calls) =
        .ok finish.result (i'.observed (calls ++ callsOf deeds)) ∧ i.Grows deeds i' ∧
      (deeds = [] ∧ (i.closed ∨ args.length ≠ f.arity ∧ ∃ message, finish = .trapped message) ∨
        deeds = [.called ⟨name, args, finish⟩] ∧ args.length = f.arity ∧ finish = (f.run args i.machine).1 ∧
          i'.exit = finish.exit?.or i.exit) := by
  cases hopen : i.closed with
  | true =>
    have hopen' : (i.observed calls).closed := hopen
    refine ⟨.exited 0, i, [], ?_, ?_, .refl i, .inl ⟨rfl, .inl rfl⟩⟩
    · rw [callFunction, hopen]
      rfl
    · rw [callFunction, hopen', callsOf_nil, append_nil]
      rfl
  | false =>
    have hopen' : (i.observed calls).closed = false := hopen
    by_cases harity : args.length = f.arity
    · cases hrun : f.run args i.machine with
      | mk finish machine =>
        have hrun' : (f.observed name).run args (i.observed calls).machine =
            (finish, ⟨machine.toHost, (machine.globals, calls ++ [⟨name, args, finish⟩])⟩) := by
          have hplain : f.run args ⟨(i.observed calls).machine.toHost, (i.observed calls).machine.globals.1⟩ =
              (finish, machine) := hrun
          simp only [Func.observed, hplain]
          rfl
        exact ⟨finish, _, [.called ⟨name, args, finish⟩], After.callFunction_run hopen harity hrun,
          After.callFunction_run hopen' harity hrun', ⟨⟨rfl, rfl, rfl⟩, rfl⟩, .inr ⟨rfl, harity, rfl, rfl⟩⟩
    · have hmany : (args.length != f.arity) := by simpa using harity
      have hmany' : (args.length != (f.observed name).arity) := hmany
      refine ⟨.trapped ("expected " ++ Text.ofNat f.arity ++ " params, but passed " ++ Text.ofNat args.length),
        i, [], ?_, ?_, .refl i, .inl ⟨rfl, .inr ⟨harity, _, rfl⟩⟩⟩
      · rw [callFunction, hopen, hmany]
        rfl
      · rw [callFunction, hopen', hmany', callsOf_nil, append_nil]
        rfl

lemma quiet_callFunction {name : Text} (hname : Deed.keyNames.contains name = false) (f : Func γ)
    (args : List UInt64) : (callFunction name f args).Quiet (callFunction name (f.observed name) args) := by
  intro i calls
  obtain ⟨finish, i', deeds, hrun, hrun', hgrows, hdeeds⟩ := callFunction_observed name f args i calls
  refine .inl ⟨_, i', deeds, hrun, hrun', hgrows, ?_⟩
  rcases hdeeds with ⟨rfl, -⟩ | ⟨rfl, -⟩
  · rfl
  · simp only [keysOf, filter_cons, Deed.isKey, hname]
    rfl

lemma quiet_callOnStack {name : Text} (hname : Deed.keyNames.contains name = false) (f : Func γ)
    (stack : List UInt64) : (callOnStack name f stack).Quiet (callOnStack name (f.observed name) stack) :=
  .ite (.pure _) ((quiet_callFunction hname f _).bind fun _ => .pure _)

variable {i : Instance γ}

/-- A call for results succeeds with what the guest has returned. If it fails, the guest has not returned, or has not
received the call. -/
lemma ends_callResults (name : Text) (f : Func γ) (args : List UInt64) (hopen : i.closed = false) :
    (callResults name f args).Ends (callResults name (f.observed name) args) i
      (fun results deeds => deeds = keysOf [.called ⟨name, args, .returned results⟩] ∧ args.length = f.arity ∧
        (results = [] → ¬ f.GivesWord))
      fun deeds => deeds = [] ∧ args.length ≠ f.arity ∨ args.length = f.arity ∧
        ∃ finish, (∀ results, finish ≠ .returned results) ∧ deeds = keysOf [.called ⟨name, args, finish⟩] := by
  intro calls
  obtain ⟨finish, i', deeds, hrun, hrun', hgrows, hdeeds⟩ := callFunction_observed name f args i calls
  simp only [callResults, bind_of_eq_ok hrun, bind_of_eq_ok hrun']
  cases finish with
  | returned results =>
    refine .inl ⟨results, i', deeds, rfl, rfl, hgrows, ?_⟩
    rcases hdeeds with ⟨-, hclosed | ⟨-, message, hne⟩⟩ | ⟨rfl, harity, hfinish, -⟩
    · cases hopen.symm.trans hclosed
    · cases hne
    · exact ⟨rfl, harity, fun hnone hgives => hgives args i.machine (hnone ▸ hfinish.symm)⟩
  | trapped message =>
    refine .inr ⟨_, i', deeds, rfl, rfl, hgrows, ?_⟩
    rcases hdeeds with ⟨rfl, hclosed | ⟨harity, -⟩⟩ | ⟨rfl, harity, -⟩
    · cases hopen.symm.trans hclosed
    · exact .inl ⟨rfl, harity⟩
    · exact .inr ⟨harity, _, by simp, rfl⟩
  | exited code =>
    refine .inr ⟨_, i', deeds, rfl, rfl, hgrows, ?_⟩
    rcases hdeeds with ⟨-, hclosed | ⟨-, message, hne⟩⟩ | ⟨rfl, harity, -⟩
    · cases hopen.symm.trans hclosed
    · cases hne
    · exact .inr ⟨harity, _, by simp, rfl⟩

/-- There is a word to be had from a function that gives one. -/
lemma ends_callWord {name : Text} (hname : Deed.keyNames.contains name = false) (f : Func γ) (args : List UInt64)
    (hopen : i.closed = false) :
    (callWord name f args).Ends (callWord name (f.observed name) args) i
      (fun word deeds => deeds = [] ∧ (word = none → ¬ f.GivesWord)) (· = []) := by
  have hquiet : ∀ finish, keysOf [.called ⟨name, args, finish⟩] = [] := by
    intro finish
    simp only [keysOf, filter_cons, Deed.isKey, hname]
    rfl
  refine (ends_callResults name f args hopen).bind ?_ ?_
  · rintro _ (⟨rfl, -⟩ | ⟨-, finish, -, rfl⟩)
    · rfl
    · exact hquiet finish
  · rintro results _ i' ⟨rfl, -, hnone⟩ -
    refine .pure ⟨by rw [hquiet, nil_append], fun hword => hnone ?_⟩
    simpa using hword

lemma quiet_askForBlock (size : UInt32) : (askForBlock size : Act γ _).Quiet (askForBlock size) := by
  refine Quiet.get_bind fun i calls => ?_
  rw [i.export?_observed, i.export?_observed]
  cases i.guest.export? "malloc" with
  | some malloc => exact quiet_callOnStack (by decide) malloc _
  | none =>
    cases i.guest.export? "calloc" with
    | some calloc => exact quiet_callOnStack (by decide) calloc _
    | none => exact .pure _

lemma quiet_allocFromGuest (size : UInt32) : (allocFromGuest size : Act γ _).Quiet (allocFromGuest size) := by
  refine (quiet_askForBlock size).bind fun outcome => ?_
  cases outcome with
  | error fault => exact .refuse _
  | ok stack => exact .ite (.refuse _) (.pure _)

lemma quiet_freeToGuest (ptr : UInt32) : (freeToGuest ptr : Act γ _).Quiet (freeToGuest ptr) := by
  refine Quiet.get_bind fun i calls => ?_
  rw [i.export?_observed]
  cases i.guest.export? "free" with
  | none => exact .pure _
  | some free =>
    refine .ite (.pure _) ((quiet_callOnStack (by decide) free _).bind fun outcome => ?_)
    cases outcome with
    | ok results => exact .pure _
    | error fault => exact .refuse _

/-- The host finds the place of the answer, or fails, unless the guest owes it a word. -/
lemma ends_answerPlace (desc : UInt32) (hopen : i.closed = false) :
    (answerPlace desc).Ends (answerPlace desc) i
      (fun place deeds => deeds = [] ∧ (place = none → ¬ i.guest.GivesWords)) (· = []) := by
  refine Ends.get_bind fun calls => ?_
  rw [i.bufferFunctions?_observed]
  cases hbuffer : i.guest.bufferFunctions? with
  | some buffer =>
    refine (ends_callWord (by decide) buffer.value _ hopen).bind (fun _ => id) ?_
    rintro value _ i' ⟨rfl, hvalue⟩ hlater
    refine (ends_callWord (by decide) buffer.length _ (hlater.closed.trans hopen)).bind (fun _ => id) ?_
    rintro length _ i'' ⟨rfl, hlength⟩ -
    refine .pure ⟨rfl, fun hplace hgives => ?_⟩
    obtain ⟨-, -, hgivesValue, hgivesLength⟩ := hgives buffer hbuffer
    cases value with
    | none => exact hvalue rfl hgivesValue
    | some value =>
      cases length with
      | none => exact hlength rfl hgivesLength
      | some length => cases hplace
  | none =>
    refine .quiet_bind (quiet_readMemory _) rfl fun value i' _ => ?_
    exact .quiet_bind (quiet_readMemory _) rfl fun length i'' _ => .pure ⟨rfl, fun h => by cases h⟩

lemma ends_readBuffer (desc : UInt32) (hopen : i.closed = false) :
    (readBuffer desc).Ends (readBuffer desc) i
      (fun bytes deeds => deeds = [] ∧ (bytes = none → ¬ i.guest.GivesWords)) (· = []) := by
  refine (ends_answerPlace desc hopen).bind (fun _ => id) ?_
  rintro (_ | ⟨value, length⟩) _ i' ⟨rfl, hplace⟩ -
  · exact .pure ⟨rfl, fun _ => hplace rfl⟩
  · refine .ite (fun _ => .refuse rfl) fun _ => ?_
    -- what is read from memory is there
    intro calls
    rcases quiet_readMemory (fun m => (m.read value length).map some) i' calls with
      ⟨bytes, i'', deeds, hrun, hrun', hgrows, hdeeds⟩ | hfailed
    · refine .inl ⟨bytes, i'', deeds, hrun, hrun', hgrows, hdeeds, fun hnone => ?_⟩
      subst hnone
      revert hrun
      rw [readMemory]
      cases i'.machine.memory.read value length with
      | ok bytes => simp [Except.map]
      | error fault => simp [Except.map]
    · exact .inr hfailed

section

variable {desc source length options : UInt32} {i i' : Instance γ}

lemma invoke_of_none (h : i.guest.export? parseName = none) :
    invoke desc source length options i = .error (.missingExport parseName) i.begun := by
  rw [invoke, modify_bind_apply, get_bind_apply]
  simp only [h]
  rfl

/-- Running the parser comes down to one call of it, on an instance that remembers no exit. -/
lemma invoke_of_call {parse : Func γ} {finish : Finish} (h : i.guest.export? parseName = some parse)
    (hcall : callFunction parseName parse [desc.toUInt64, source.toUInt64, length.toUInt64, options.toUInt64] i.begun =
      .ok finish.result i') :
    (∀ message, finish ≠ .trapped message) ∧ invoke desc source length options i = .ok () i' ∨
      ∃ message, finish = .trapped message ∧
        invoke desc source length options i = .error (.trap parseName (some (.plain message))) i' := by
  rw [invoke, modify_bind_apply, get_bind_apply]
  simp only [h]
  rw [bind_of_eq_ok hcall]
  cases finish with
  | returned results => exact .inl ⟨by simp, rfl⟩
  | trapped message => exact .inr ⟨message, rfl, rfl⟩
  | exited code => exact .inl ⟨by simp, rfl⟩

end

/-- Running the guest's parser enters at most that call, whether it returns, exits or traps. The parser is called once
if that succeeds, and what the instance then remembers is the exit of that call: an earlier one was forgotten at the
start. -/
lemma invoke_observed (desc source length options : UInt32) (hopen : i.closed = false)
    (calls : List Received) :
    (∃ i' args finish, invoke desc source length options i = .ok () i' ∧
      invoke desc source length options (i.observed calls) =
        .ok () (i'.observed (calls ++ [⟨parseName, args, finish⟩])) ∧
      i.Grows [.called ⟨parseName, args, finish⟩] i' ∧ i'.exit = finish.exit?) ∨
    ∃ fault i' deeds, invoke desc source length options i = .error fault i' ∧
      invoke desc source length options (i.observed calls) = .error fault (i'.observed (calls ++ callsOf deeds)) ∧
      i.Grows deeds i' ∧ (deeds = [] ∨ ∃ args finish, deeds = [.called ⟨parseName, args, finish⟩]) := by
  have hexport := i.export?_observed calls parseName
  have hgrows : i.Grows [] i.begun := ⟨⟨rfl, rfl, rfl⟩, (append_nil _).symm⟩
  cases hparse : i.guest.export? parseName with
  | none =>
    rw [hparse] at hexport
    refine .inr ⟨_, i.begun, [], invoke_of_none hparse, ?_, hgrows, .inl rfl⟩
    rw [callsOf_nil, append_nil, invoke_of_none hexport]
    rfl
  | some parse =>
    rw [hparse] at hexport
    obtain ⟨finish, i', deeds, hcall, hcall', hgrows', hdeeds⟩ := callFunction_observed parseName parse
      [desc.toUInt64, source.toUInt64, length.toUInt64, options.toUInt64] i.begun calls
    rcases invoke_of_call hparse hcall with ⟨hdone, hrun⟩ | ⟨message, rfl, hrun⟩
    · rcases hdeeds with ⟨-, hclosed | ⟨-, message, rfl⟩⟩ | ⟨rfl, -, -, hexit⟩
      · cases hopen.symm.trans hclosed
      · exact absurd rfl (hdone message)
      · rcases invoke_of_call hexport hcall' with ⟨-, hrun'⟩ | ⟨message, rfl, -⟩
        · exact .inl ⟨i', _, finish, hrun, hrun', hgrows.trans hgrows', hexit.trans Option.or_none⟩
        · exact absurd rfl (hdone message)
    · rcases invoke_of_call hexport hcall' with ⟨hdone, -⟩ | ⟨message', hsame, hrun'⟩
      · exact absurd rfl (hdone message)
      · cases hsame
        refine .inr ⟨_, i', deeds, hrun, hrun', hgrows.trans hgrows', ?_⟩
        rcases hdeeds with ⟨rfl, -⟩ | ⟨rfl, -⟩
        · exact .inl rfl
        · exact .inr ⟨_, _, rfl⟩

/-! ## Taking blocks and giving them back -/

/-- The entries of an action that has given back the block it took, if it took one. What it did with the block in
between is as `tried` says. -/
def Returned (tried : UInt32 → List Deed → Prop) (deeds : List Deed) : Prop :=
  deeds = [] ∨ ∃ p ds, tried p ds ∧ deeds = .reserved p :: (ds ++ [.freed p])

lemma quiet_obtainBlock (size : UInt32) : (obtainBlock size : Act γ _).Quiet (obtainBlock size) := by
  refine Quiet.get_bind fun i calls => ?_
  rw [i.allocates_observed]
  exact .ite (quiet_allocFromGuest size) (quiet_allocFromArena size)

lemma ends_allocate (size : UInt32) (i : Instance γ) :
    (allocate size).Ends (allocate size) i (fun p deeds => deeds = [.reserved p]) (· = []) := by
  refine Ends.get_bind fun _ => Ends.ite (fun _ => Ends.refuse rfl) fun _ => ?_
  refine Ends.quiet_bind (quiet_obtainBlock size) rfl fun p i' _ => ?_
  exact .note_bind rfl fun _ _ => .pure rfl

/-- Giving a block back is entered first, so it counts whether it succeeds or not. -/
lemma ends_free (p : UInt32) (i : Instance γ) :
    (free p).Ends (free p) i (fun _ deeds => deeds = [.freed p]) (· = [.freed p]) := by
  refine Ends.note_bind rfl fun i' _ => Ends.get_bind fun calls => ?_
  rw [i'.allocates_observed]
  refine .ite (fun _ => ?_) fun _ => .ite (fun _ => ?_) fun _ => ?_
  · exact (Quiet.pure ()).after [.freed p] i'
  · exact (quiet_freeToGuest p).after [.freed p] i'
  · exact (quiet_lift _).after [.freed p] i'

/-- A block is taken and something is done with it. If that fails the block is given back, and otherwise things go
on. -/
lemma ends_taking {size : UInt32} {act : UInt32 → Act γ δ} {act' : UInt32 → Act (γ × List Received) δ}
    {next : UInt32 → δ → Act γ α} {next' : UInt32 → δ → Act (γ × List Received) α}
    {done : UInt32 → δ → List Deed → Prop} {tried : UInt32 → List Deed → Prop} {ok : α → List Deed → Prop}
    (hact : ∀ p i', i.Later i' → (act p).Ends (act' p) i' (done p) (tried p))
    (hnext : ∀ p b deeds i', done p b deeds → (next p b).Ends (next' p b) i'
      (fun a more => ok a (.reserved p :: (deeds ++ more))) fun _ => False) :
    (do let p ← allocate size; let b ← undoing (act p) (free p); next p b).Ends
      (do let p ← allocate size; let b ← undoing (act' p) (free p); next' p b) i ok (Returned tried) := by
  refine (ends_allocate size i).bind (fun _ hdeeds => .inl hdeeds) ?_
  rintro p _ i' rfl hlater
  have hundone : (undoing (act p) (free p)).Ends (undoing (act' p) (free p)) i' (done p)
      fun deeds => ∃ ds, tried p ds ∧ deeds = ds ++ [.freed p] := by
    refine (hact p i' hlater).undoing fun ds i'' htried _ => ?_
    refine (ends_free p i'').mono ?_ ?_
    · rintro _ _ rfl
      exact ⟨ds, htried, rfl⟩
    · rintro _ rfl
      exact ⟨ds, htried, rfl⟩
  refine hundone.bind ?_ ?_
  · rintro _ ⟨ds, htried, rfl⟩
    exact .inr ⟨p, ds, htried, rfl⟩
  · rintro b deeds i'' hdone _
    exact (hnext p b deeds i'' hdone).mono (fun _ _ => id) fun _ hfalse => hfalse.elim

lemma ends_writeString (t : Text) (i : Instance γ) :
    (writeString t).Ends (writeString t) i (fun place deeds => deeds = [.reserved place.1])
      (Returned fun _ ds => ds = []) := by
  refine ends_taking (fun _ i' _ => quiet_changeMemory _ i') ?_
  rintro p _ _ i' rfl
  exact .pure rfl

/-- The call by which the guest makes a descriptor ready. -/
def initCall (desc : UInt32) (finish : Finish) : Deed := .called ⟨"pm_buffer_init", [desc.toUInt64], finish⟩

/-- The call by which the guest takes out of a descriptor what it has put in. -/
def emptyCall (desc : UInt32) (finish : Finish) : Deed := .called ⟨"pm_buffer_free", [desc.toUInt64], finish⟩

/-- What becomes of a descriptor that could not be made ready: the guest was not asked, or it did not agree. -/
def Tried (desc : UInt32) (deeds : List Deed) : Prop :=
  deeds = [] ∨ ∃ finish, finish.agrees = false ∧ deeds = [initCall desc finish]

/-- A new descriptor: a block, which the guest has made ready if it has functions for that, unless the host broke down
before. -/
inductive Made (g : Code γ) : Option UInt32 → List Deed → Prop
  | plain (desc : UInt32) (h : g.bufferFunctions? = none) : Made g (some desc) [.reserved desc]
  | ready (desc : UInt32) {finish : Finish} (h : g.bufferFunctions?.isSome) (hagrees : finish.agrees) :
      Made g (some desc) [.reserved desc, initCall desc finish]
  | unsized (h : ¬ g.GivesWords) : Made g none []
  | unready (desc : UInt32) (h : ¬ g.GivesWords) : Made g none [.reserved desc, initCall desc (.returned [])]

lemma ends_initBuffer (init : Func γ) (desc : UInt32) (hopen : i.closed = false) :
    (initBuffer init desc).Ends (initBuffer (init.observed "pm_buffer_init") desc) i
      (fun word deeds => ∃ results, word = results.head?.map (·.toUInt32) ∧ word ≠ some 0 ∧
        deeds = [initCall desc (.returned results)] ∧ (results = [] → ¬ init.GivesWord))
      (Tried desc) := by
  have hword : (callWord "pm_buffer_init" init [desc.toUInt64]).Ends
      (callWord "pm_buffer_init" (init.observed "pm_buffer_init") [desc.toUInt64]) i
      (fun word deeds => ∃ results, word = results.head?.map (·.toUInt32) ∧
        deeds = [initCall desc (.returned results)] ∧ (results = [] → ¬ init.GivesWord)) (Tried desc) := by
    refine (ends_callResults "pm_buffer_init" init _ hopen).bind ?_ ?_
    · rintro _ (⟨rfl, -⟩ | ⟨-, finish, hne, rfl⟩)
      · exact .inl rfl
      · refine .inr ⟨finish, ?_, rfl⟩
        cases finish with
        | returned results => exact absurd rfl (hne results)
        | trapped message => rfl
        | exited code => rfl
    · rintro results _ i' ⟨rfl, -, hnone⟩ -
      exact Ends.pure ⟨results, rfl, rfl, hnone⟩
  refine hword.bind (fun _ => id) ?_
  rintro word _ i' ⟨results, rfl, rfl, hnone⟩ -
  refine .ite (fun hzero => .refuse (.inr ⟨_, ?_, rfl⟩)) fun hne => .pure ⟨results, rfl, hne, rfl, hnone⟩
  cases results with
  | nil => cases hzero
  | cons word rest => simpa [Finish.agrees] using hzero

lemma ends_newDescriptor (hopen : i.closed = false) :
    newDescriptor.Ends newDescriptor i (Made i.guest) (Returned Tried) := by
  refine .get_bind fun calls => ?_
  rw [i.bufferFunctions?_observed]
  cases hbuffer : i.guest.bufferFunctions? with
  | none =>
    refine (ends_taking (fun _ i' _ => quiet_changeMemory _ i') ?_).mono (fun _ _ => id) ?_
    · rintro desc _ _ i' rfl
      exact .pure (.plain desc hbuffer)
    · rintro _ (rfl | ⟨p, _, rfl, rfl⟩)
      · exact .inl rfl
      · exact .inr ⟨p, [], .inl rfl, rfl⟩
  | some buffer =>
    refine (ends_callWord (by decide) buffer.sizeof _ hopen).bind (fun _ => .inl) ?_
    rintro (_ | size) _ i' ⟨rfl, hsizeof⟩ hlater
    · exact .pure (.unsized fun hgives => hsizeof rfl (hgives buffer hbuffer).1)
    · refine ends_taking
        (fun desc i'' hlater' => ends_initBuffer buffer.init desc (hlater'.closed.trans (hlater.closed.trans hopen))) ?_
      rintro desc word _ i'' ⟨results, rfl, hne, rfl, hnone⟩
      cases results with
      | nil => exact .pure (.unready desc fun hgives => hnone rfl (hgives buffer hbuffer).2.1)
      | cons word rest =>
        exact .pure (.ready desc (by rw [hbuffer]; rfl) (by simpa [Finish.agrees] using hne))

/-- What emptying a descriptor comes to: a call of the guest's function, if it has one that takes the descriptor. -/
inductive Emptied (g : Code γ) (desc : UInt32) : List Deed → Prop
  | plain (h : g.bufferFunctions? = none) : Emptied g desc []
  | unfit {buffer : BufferFunctions γ} (h : g.bufferFunctions? = some buffer) (harity : buffer.free.arity ≠ 1) :
      Emptied g desc []
  | called (finish : Finish) (h : g.bufferFunctions?.isSome) : Emptied g desc [emptyCall desc finish]

lemma ends_emptyDescriptor (hopen : i.closed = false) (desc : UInt32) :
    (emptyDescriptor desc).Ends (emptyDescriptor desc) i (fun _ => Emptied i.guest desc) fun _ => False := by
  refine .get_bind fun calls => ?_
  rw [i.bufferFunctions?_observed]
  cases hbuffer : i.guest.bufferFunctions? with
  | none => exact .pure (.plain hbuffer)
  | some buffer =>
    have hbound : i.guest.bufferFunctions?.isSome := by rw [hbuffer]; rfl
    refine .ite (fun hclosed => ?_) fun _ => .faultsOf ?_
    · rw [hopen] at hclosed
      cases hclosed
    · refine (ends_callResults "pm_buffer_free" buffer.free _ hopen).bind ?_ ?_
      · rintro _ (⟨rfl, harity⟩ | ⟨-, finish, -, rfl⟩)
        · exact .unfit hbuffer (Ne.symm harity)
        · exact .called finish hbound
      · rintro results _ i' ⟨rfl, -⟩ -
        exact .pure (.called _ hbound)

/-- An open instance enters all of it, whatever fails on the way. -/
lemma ends_releaseDescriptor (hopen : i.closed = false) (desc : UInt32) :
    (releaseDescriptor desc).Ends (releaseDescriptor desc) i
      (fun _ deeds => ∃ ds, Emptied i.guest desc ds ∧ deeds = ds ++ [.freed desc])
      fun deeds => ∃ ds, Emptied i.guest desc ds ∧ deeds = ds ++ [.freed desc] := by
  -- neither half can fail: the faults of both are collected and told at the end
  refine (ends_emptyDescriptor hopen desc).bind (fun _ hfalse => hfalse.elim) ?_
  rintro first ds i' hds _
  refine (Ends.faultsOf (ends_free desc i')).bind (fun _ hfalse => hfalse.elim) ?_
  rintro second _ i'' rfl _
  have hjoined : (failJoined (first ++ second) : Act γ Unit).Quiet (failJoined (first ++ second)) :=
    .ite (.pure ()) (.refuse _)
  refine (hjoined i'').mono ?_ ?_
  · rintro _ _ rfl
    exact ⟨ds, hds, by rw [append_nil]⟩
  · rintro _ rfl
    exact ⟨ds, hds, by rw [append_nil]⟩

end Act

/-! ## Scopes -/

namespace Cleanups

/-- Undoing several things enters what each of them enters. -/
lemma ends_undoAll_cons {c : Cleanup γ} {c' : Cleanup (γ × List Received)} {rest : List (Cleanup γ)}
    {rest' : List (Cleanup (γ × List Received))} {i : Instance γ} {P Q : List Deed → Prop}
    (hc : (undo c).Ends (undo c') i (fun _ deeds => Q deeds) Q)
    (hrest : ∀ deeds i', Q deeds → i.Later i' →
      (undoAll rest).Ends (undoAll rest') i' (fun _ more => P (deeds ++ more)) fun _ => False) :
    (undoAll (c :: rest)).Ends (undoAll (c' :: rest')) i (fun _ deeds => P deeds) fun _ => False := by
  refine (Act.Ends.faultsOf hc).bind (fun _ hfalse => hfalse.elim) fun faults deeds i' hdeeds hlater => ?_
  refine (hrest deeds i' hdeeds hlater).bind (fun _ hfalse => hfalse.elim) fun more ds' i'' hds' _ => ?_
  exact .pure (by rwa [append_nil])

/-- A scope that was not released yet leaves what undoing its duties leaves. -/
def Leaves (s : Cleanups γ) (s' : Cleanups (γ × List Received)) (i : Instance γ) (calls : List Received)
    (P : List Deed → Prop) : Prop :=
  ∃ deeds, (s'.release (i.observed calls)).2.2 = (s.release i).2.2.observed (calls ++ callsOf deeds) ∧
    i.Grows deeds (s.release i).2.2 ∧ P (keysOf deeds)

lemma leaves_of_undoAll {s : Cleanups γ} {s' : Cleanups (γ × List Received)} {i : Instance γ} {P : List Deed → Prop}
    (hs : s.released = false) (hs' : s'.released = false)
    (h : (undoAll s.pending).Ends (undoAll s'.pending) i (fun _ deeds => P deeds) fun _ => False)
    (calls : List Received) : s.Leaves s' i calls P := by
  rcases h calls with ⟨faults, i', deeds, hrun, hrun', hgrows, h⟩ | ⟨_, _, _, _, _, _, hfalse⟩
  · refine ⟨deeds, ?_⟩
    simp only [release, hs, hs', Bool.false_eq_true, if_false, hrun, hrun']
    cases faults with
    | nil => exact ⟨rfl, hgrows, h⟩
    | cons fault faults => exact ⟨rfl, hgrows, h⟩
  · exact hfalse.elim

/-- The scope of a parse that has written the source but has no descriptor. -/
lemma leaves_source (p : UInt32) (i : Instance γ) (calls : List Received) :
    (empty.add (.free p)).Leaves (empty.add (.free p)) i calls (· = [.freed p]) := by
  refine leaves_of_undoAll rfl rfl ?_ calls
  refine ends_undoAll_cons (ends_free p i) ?_
  rintro _ _ rfl _
  exact .pure rfl

/-- The scope of a parse that has a descriptor: the descriptor goes first. -/
lemma leaves_descriptor {i : Instance γ} (hopen : i.closed = false) (p desc : UInt32) (calls : List Received) :
    ((empty.add (.free p)).add (.run (.releaseDescriptor desc))).Leaves
      ((empty.add (.free p)).add (.run (.releaseDescriptor desc))) i calls
      fun deeds => ∃ ds, Act.Emptied i.guest desc ds ∧ deeds = ds ++ [.freed desc, .freed p] := by
  refine leaves_of_undoAll rfl rfl ?_ calls
  refine ends_undoAll_cons (ends_releaseDescriptor hopen desc) ?_
  rintro _ i' ⟨ds, hds, rfl⟩ _
  refine ends_undoAll_cons (ends_free p i') ?_
  rintro _ _ rfl _
  exact .pure ⟨ds, hds, by simp⟩

end Cleanups

/-! ## A parse -/

/-- The calls of the parser in a parse with this answer. If there is a status, the parser was called once, and the
status is the exit of that call. -/
def Answer.Tells (a : Answer) (deeds : List Deed) : Prop :=
  (a.status = none ∧ deeds = []) ∨ ∃ args finish, deeds = [.called ⟨parseName, args, finish⟩] ∧
    ∀ status, a.status = some status → status.exit = finish.exit?

/-- What matters of a parse that gives back what it took. -/
inductive Settled (g : Code γ) (a : Answer) : List Deed → Prop
  /-- There was no block for the source. -/
  | nothing (h : a.status = none) : Settled g a []
  /-- The source could not be written, or there was no block for a descriptor. -/
  | source (p : UInt32) (h : a.status = none) : Settled g a [.reserved p, .freed p]
  /-- The descriptor could not be made ready. -/
  | refused (p desc : UInt32) {tried : List Deed} (h : a.status = none) (htried : Act.Tried desc tried) :
      Settled g a ([.reserved p, .reserved desc] ++ tried ++ [.freed desc, .freed p])
  /-- The parser was to be called with a descriptor of plain memory. -/
  | plain (p desc : UInt32) {parsed : List Deed} (h : g.bufferFunctions? = none) (hparsed : a.Tells parsed) :
      Settled g a ([.reserved p, .reserved desc] ++ parsed ++ [.freed desc, .freed p])
  /-- The parser was to be called with a descriptor that the guest had made ready. The guest empties it before it is
  freed. -/
  | buffer (p desc : UInt32) {finish : Finish} {parsed emptied : List Deed} (h : g.bufferFunctions?.isSome)
      (hagrees : finish.agrees) (hparsed : a.Tells parsed) (hemptied : Act.Emptied g desc emptied) :
      Settled g a ([.reserved p, .reserved desc, initCall desc finish] ++ parsed ++ emptied ++ [.freed desc, .freed p])

/-- What matters of a parse in which the host broke down over the guest's making a descriptor ready. The descriptor is
not given back. -/
def Leaked (a : Answer) (deeds : List Deed) : Prop :=
  a = .breakdown ∧ ∃ p desc, deeds = [.reserved p, .reserved desc, initCall desc (.returned []), .freed p]

namespace Instance

lemma answer_leaves (desc source length : UInt32) {i : Instance γ} (hopen : i.closed = false)
    (calls : List Received) :
    ∃ deeds, (i.observed calls).answer desc source length =
        ((i.answer desc source length).1, (i.answer desc source length).2.observed (calls ++ callsOf deeds)) ∧
      i.Grows deeds (i.answer desc source length).2 ∧ (i.answer desc source length).1.Tells (keysOf deeds) ∧
      ((i.answer desc source length).1.broken → ¬ i.guest.GivesWords) := by
  rcases invoke_observed desc source length 0 hopen calls with
    ⟨i₁, args, finish, hrun, hrun', hgrows, hexit⟩ | ⟨fault, i₁, deeds, hrun, hrun', hgrows, hdeeds⟩
  · -- The status is taken here, before any other function of the guest is called.
    suffices h : ∃ a i₂ deeds, i.answer desc source length = (a, i₂) ∧ (i.observed calls).answer desc source length =
        (a, i₂.observed (calls ++ [⟨parseName, args, finish⟩] ++ callsOf deeds)) ∧ i₁.Grows deeds i₂ ∧
        keysOf deeds = [] ∧ (∀ status, a.status = some status → status.exit = finish.exit?) ∧
        (a.broken → ¬ i.guest.GivesWords) by
      obtain ⟨a, i₂, deeds, hanswer, hanswer', hgrows', hquiet, hstatus, hbroken⟩ := h
      rw [hanswer, hanswer', append_assoc]
      refine ⟨[.called ⟨parseName, args, finish⟩] ++ deeds, rfl, hgrows.trans hgrows', .inr ⟨args, finish, ?_, hstatus⟩,
        hbroken⟩
      rw [keysOf_append, hquiet]
      rfl
    rcases ends_readBuffer desc (hgrows.closed.trans hopen) (calls ++ [⟨parseName, args, finish⟩]) with
      ⟨_ | bytes, i₂, deeds, hread, hread', hgrows', hquiet, hnone⟩ |
      ⟨fault, i₂, deeds, hread, hread', hgrows', hquiet⟩
    all_goals
      refine ⟨_, i₂, deeds, by simp only [answer, hrun, hread]; rfl, ?_, hgrows', hquiet, ?_⟩
      · simp only [answer, hrun', hread', exit_observed]
    · exact ⟨by simp [breakdown], fun _ => hgrows.guest ▸ hnone rfl⟩
    · exact ⟨by simp [hexit], by simp [broken]⟩
    · exact ⟨by simp [hexit], by simp [broken]⟩
  · refine ⟨deeds, ?_⟩
    simp only [answer, hrun, hrun', true_and]
    refine ⟨hgrows, ?_, by simp [broken]⟩
    rcases hdeeds with rfl | ⟨args, finish, rfl⟩
    · exact .inl ⟨rfl, rfl⟩
    · exact .inr ⟨args, finish, rfl, by simp⟩

/-- A parse leaves the instance as it was but for its machine, and has settled what it owed, unless the host broke
down over a descriptor. It goes the same way with an observed guest, which receives the calls that are entered. The
host does not break down with a guest that gives the words it owes. -/
lemma serialize_leaves (source : Text) (i : Instance γ) (calls : List Received) :
    ∃ deeds, (i.observed calls).serialize source =
        ((i.serialize source).1, (i.serialize source).2.observed (calls ++ callsOf deeds)) ∧
      i.Grows deeds (i.serialize source).2 ∧
      (Settled i.guest (i.serialize source).1 (keysOf deeds) ∨ Leaked (i.serialize source).1 (keysOf deeds)) ∧
      ((i.serialize source).1.broken → ¬ i.guest.GivesWords) := by
  by_cases hclosed : i.closed
  · have hclosed' : (i.observed calls).closed := hclosed
    simp only [serialize, if_pos hclosed, if_pos hclosed']
    exact ⟨[], by rw [callsOf_nil, append_nil], .refl i, .inl (.nothing rfl), by simp [broken]⟩
  have hopen : i.closed = false := by simpa using hclosed
  have hopen' : (i.observed calls).closed = false := hopen
  rcases ends_writeString source i calls with ⟨⟨p, length⟩, i₁, deeds₁, hwrite, hwrite', hgrows₁, hkeys₁⟩ |
    ⟨fault, i₁, deeds₁, hwrite, hwrite', hgrows₁, hkeys₁⟩
  · rcases ends_newDescriptor (hgrows₁.closed.trans hopen) (calls ++ callsOf deeds₁) with
      ⟨_ | desc, i₂, deeds₂, hdesc, hdesc', hgrows₂, hkeys₂⟩ | ⟨fault, i₂, deeds₂, hdesc, hdesc', hgrows₂, hkeys₂⟩
    · obtain ⟨deeds₃, hrelease, hgrows₃, hkeys₃⟩ :=
        Cleanups.leaves_source p i₂ (calls ++ callsOf deeds₁ ++ callsOf deeds₂)
      rw [serialize_of_breakdown hopen hwrite hdesc, serialize_of_breakdown hopen' hwrite' hdesc', hrelease]
      refine ⟨deeds₁ ++ deeds₂ ++ deeds₃, by simp, (hgrows₁.trans hgrows₂).trans hgrows₃, ?_⟩
      rw [keysOf_append, keysOf_append, hkeys₁, hkeys₃]
      rw [hgrows₁.guest] at hkeys₂
      generalize keysOf deeds₂ = keys at hkeys₂
      cases hkeys₂ with
      | unsized h => exact ⟨.inl (.source p rfl), fun _ => h⟩
      | unready desc h => exact ⟨.inr ⟨rfl, p, desc, rfl⟩, fun _ => h⟩
    · -- both blocks are there, so the scope frees them whatever the guest has answered
      have hopen₂ : i₂.closed = false := hgrows₂.closed.trans (hgrows₁.closed.trans hopen)
      obtain ⟨deeds₃, hanswer, hgrows₃, htells, hbroken⟩ :=
        answer_leaves desc p length hopen₂ (calls ++ callsOf deeds₁ ++ callsOf deeds₂)
      obtain ⟨deeds₄, hrelease, hgrows₄, emptied, hemptied, hkeys₄⟩ := Cleanups.leaves_descriptor
        (hgrows₃.closed.trans hopen₂) p desc (calls ++ callsOf deeds₁ ++ callsOf deeds₂ ++ callsOf deeds₃)
      rw [serialize_of_descriptor hopen hwrite hdesc, serialize_of_descriptor hopen' hwrite' hdesc', hanswer, hrelease]
      have hguest₂ : i₂.guest = i.guest := hgrows₂.guest.trans hgrows₁.guest
      refine ⟨deeds₁ ++ deeds₂ ++ deeds₃ ++ deeds₄, by simp, ((hgrows₁.trans hgrows₂).trans hgrows₃).trans hgrows₄,
        .inl ?_, hguest₂ ▸ hbroken⟩
      rw [keysOf_append, keysOf_append, keysOf_append, hkeys₁, hkeys₄]
      rw [hgrows₁.guest] at hkeys₂
      rw [hgrows₃.guest.trans hguest₂] at hemptied
      generalize keysOf deeds₂ = keys at hkeys₂
      cases hkeys₂ with
      | plain _ h =>
        cases hemptied with
        | plain => exact .plain p desc h htells
        | unfit h' => exact absurd (h.symm.trans h') (by simp)
        | called finish h' => simp [h] at h'
      | ready _ h hagrees => simpa using Settled.buffer p desc h hagrees htells hemptied
    · obtain ⟨deeds₃, hrelease, hgrows₃, hkeys₃⟩ :=
        Cleanups.leaves_source p i₂ (calls ++ callsOf deeds₁ ++ callsOf deeds₂)
      rw [serialize_of_descriptor_error hopen hwrite hdesc, serialize_of_descriptor_error hopen' hwrite' hdesc',
        hrelease]
      refine ⟨deeds₁ ++ deeds₂ ++ deeds₃, by simp, (hgrows₁.trans hgrows₂).trans hgrows₃, .inl ?_,
        by simp [broken]⟩
      rw [keysOf_append, keysOf_append, hkeys₁, hkeys₃]
      rcases hkeys₂ with hkeys | ⟨desc, tried, htried, hkeys⟩
      · rw [hkeys]
        exact .source p rfl
      · rw [hkeys]
        simpa using Settled.refused p desc rfl htried
  · have hnothing : (.empty : Cleanups γ).Leaves .empty i₁ (calls ++ callsOf deeds₁) (· = []) := by
      refine Cleanups.leaves_of_undoAll rfl rfl ?_ _
      exact Act.Ends.pure rfl
    obtain ⟨deeds₂, hrelease, hgrows₂, hkeys₂⟩ := hnothing
    rw [serialize_of_write_error hopen hwrite, serialize_of_write_error hopen' hwrite', hrelease]
    refine ⟨deeds₁ ++ deeds₂, by simp, hgrows₁.trans hgrows₂, .inl ?_, by simp [broken]⟩
    rw [keysOf_append, hkeys₂, append_nil]
    rcases hkeys₁ with hkeys | ⟨p, _, rfl, hkeys⟩
    · rw [hkeys]
      exact .nothing rfl
    · rw [hkeys]
      exact .source p rfl

/-- A parse keeps the guest, the number of the instance, and whether it is closed. -/
lemma serialize_later (source : Text) (i : Instance γ) : i.Later (i.serialize source).2 := by
  obtain ⟨_, _, hgrows, _⟩ := serialize_leaves source i []
  exact hgrows.toLater

end Instance

end Transpiler.Guest
