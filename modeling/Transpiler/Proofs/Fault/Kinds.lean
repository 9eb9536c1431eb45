import Mathlib.Data.List.Basic
import Transpiler.Fault.Reports

/-!
# Kinds of faults

A fault bears the kinds of all reports that are reached from it through causes and parts, and missing imports bear
a kind of their own. Asked for a kind, a fault is searched up to the first report only, so a report hides the kinds
of all that come after it. What is found is always borne, and the answer is right for every kind exactly if there is
one kind at most to be found (`isKind_eq_bears_iff`).
-/

namespace Transpiler.Fault

open List

/-- The faults right behind a fault: its cause, or the faults it is made of. -/
def behind : Fault → List Fault
  | .context _ cause => [cause]
  | .joined faults => faults
  | .attempts faults => faults
  | .caused _ cause => [cause]
  | .plain _ | .skipped | .canceled | .missingImports _ | .report _ => []

/-- One fault is reached from another by going back to what is behind it. -/
inductive Reaches : Fault → Fault → Prop
  | refl (f : Fault) : Reaches f f
  | behind {f g h : Fault} (hg : g ∈ f.behind) (hreach : Reaches g h) : Reaches f h

/-- No report is reached from a fault. -/
def Unreported (f : Fault) : Prop := ∀ g, f.Reaches g → g.report? = none

/-- The report that comes first: a fault before what is behind it, and of several faults an earlier one, with all
that is behind it, before a later one. -/
inductive Foremost (r : Report) : Fault → Prop
  | own {f : Fault} (h : f.report? = some r) : Foremost r f
  | behind {f g : Fault} {earlier later : List Fault} (hown : f.report? = none)
      (hbehind : f.behind = earlier ++ g :: later) (hearlier : ∀ e ∈ earlier, e.Unreported) (hg : Foremost r g) :
      Foremost r f

/-- A kind that can be found somewhere in a fault: that of a report, or the kind of missing imports. -/
def Bears (f : Fault) (kind : Kind) : Prop :=
  (∃ g r, f.Reaches g ∧ g.report? = some r ∧ r.kind = kind) ∨
    kind = .missingImport ∧ ∃ g, f.Reaches g ∧ g.isMissingImports

/-! ## Going back -/

mutual

/-- What holds of a fault if it holds of those behind it holds of all faults. -/
@[elab_as_elim]
lemma induction_behind {P : Fault → Prop} (step : ∀ f : Fault, (∀ g ∈ f.behind, P g) → P f) (f : Fault) : P f := by
  refine step f ?_
  match f with
  | .plain _ | .skipped | .canceled | .missingImports _ | .report _ => exact forall_mem_nil P
  | .context _ cause | .caused _ cause => exact forall_mem_singleton.2 (induction_behind step cause)
  | .joined faults | .attempts faults => exact forall_mem_of_behind step faults

lemma forall_mem_of_behind {P : Fault → Prop} (step : ∀ f : Fault, (∀ g ∈ f.behind, P g) → P f) (fs : List Fault) :
    ∀ f ∈ fs, P f := by
  match fs with
  | [] => exact forall_mem_nil P
  | f :: rest => exact forall_mem_cons.2 ⟨induction_behind step f, forall_mem_of_behind step rest⟩

end

lemma chains_eq (fs : List Fault) : chains fs = fs.flatMap chain := by
  induction fs with
  | nil => rfl
  | cons f rest ih => rw [chains, ih, flatMap_cons]

/-- The chain of a fault goes on with the chains of those behind it. -/
lemma chain_eq (f : Fault) : f.chain = f :: f.behind.flatMap chain := by
  cases f with
  | context m cause | caused r cause => rw [chain, behind, flatMap_singleton]
  | joined faults | attempts faults => rw [chain, chains_eq, behind]
  | plain | skipped | canceled | missingImports | report => rfl

lemma mem_chain_iff {f g : Fault} : g ∈ f.chain ↔ f.Reaches g := by
  induction f using induction_behind with
  | step f ih =>
    rw [chain_eq, mem_cons, mem_flatMap]
    constructor
    · rintro (rfl | ⟨h, hmem, hg⟩)
      · exact .refl g
      · exact .behind hmem ((ih h hmem).1 hg)
    · intro hreach
      cases hreach with
      | refl => exact .inl rfl
      | behind hmem hreach => exact .inr ⟨_, hmem, (ih _ hmem).2 hreach⟩

/-! ## The first report -/

variable {f : Fault}

lemma firstReport?_eq_none_iff : f.firstReport? = none ↔ f.Unreported := by
  rw [firstReport?, findSome?_eq_none_iff]
  exact forall_congr' fun g => imp_congr_left mem_chain_iff

lemma findSome?_flatMap_chain (fs : List Fault) : (fs.flatMap chain).findSome? report? = fs.findSome? firstReport? := by
  induction fs with
  | nil => rfl
  | cons f rest ih =>
    rw [flatMap_cons, findSome?_append, ih, findSome?_cons, ← firstReport?]
    cases f.firstReport? with
    | none => rfl
    | some r => rfl

lemma firstReport?_eq (f : Fault) : f.firstReport? = f.report?.or (f.behind.findSome? firstReport?) := by
  rw [firstReport?, chain_eq, findSome?_cons, findSome?_flatMap_chain]
  cases f.report? with
  | none => rfl
  | some r => rfl

lemma firstReport?_eq_some_iff {r : Report} : f.firstReport? = some r ↔ Foremost r f := by
  induction f using induction_behind with
  | step f ih =>
    rw [firstReport?_eq]
    cases hown : f.report? with
    | some own =>
      constructor
      · intro h
        exact .own (hown.trans h)
      · intro h
        cases h with
        | own h => exact hown.symm.trans h
        | behind hnone => exact absurd (hown.symm.trans hnone) (Option.some_ne_none own)
    | none =>
      rw [Option.none_or, findSome?_eq_some_iff]
      constructor
      · rintro ⟨earlier, g, later, hbehind, hg, hearlier⟩
        have hmem : g ∈ f.behind := by rw [hbehind]; simp
        exact .behind hown hbehind (fun e he => firstReport?_eq_none_iff.1 (hearlier e he)) ((ih g hmem).1 hg)
      · intro h
        cases h with
        | own h => exact absurd (hown.symm.trans h).symm (Option.some_ne_none r)
        | @behind _ g earlier later _ hbehind hearlier hg =>
          have hmem : g ∈ f.behind := by rw [hbehind]; simp
          refine ⟨earlier, g, later, hbehind, (ih g hmem).2 hg, fun e he => ?_⟩
          exact firstReport?_eq_none_iff.2 (hearlier e he)

lemma Foremost.exists_reaches {r : Report} (h : Foremost r f) : ∃ g, f.Reaches g ∧ g.report? = some r := by
  induction h with
  | @own f h => exact ⟨f, .refl f, h⟩
  | behind hown hbehind hearlier hg ih =>
    obtain ⟨g, hreach, hr⟩ := ih
    exact ⟨g, .behind (by rw [hbehind]; simp) hreach, hr⟩

/-! ## Kinds -/

/-- The first report decides; without any report, all that can be found is a kind of missing imports. -/
lemma isKind_iff (f : Fault) (kind : Kind) :
    f.isKind kind ↔ (∃ r, Foremost r f ∧ r.kind = kind) ∨ f.Unreported ∧ f.Bears kind := by
  rw [isKind]
  cases hfirst : f.firstReport? with
  | some r =>
    have hr := firstReport?_eq_some_iff.1 hfirst
    have hreported : ¬f.Unreported := fun h => by
      rw [firstReport?_eq_none_iff.2 h] at hfirst
      cases hfirst
    rw [beq_iff_eq]
    constructor
    · intro h
      exact .inl ⟨r, hr, h⟩
    · rintro (⟨r', hr', h⟩ | ⟨h, -⟩)
      · have hsame := hfirst.symm.trans (firstReport?_eq_some_iff.2 hr')
        rwa [Option.some.inj hsame]
      · exact absurd h hreported
  | none =>
    have hnone := firstReport?_eq_none_iff.1 hfirst
    rw [Bool.and_eq_true, beq_iff_eq, any_eq_true]
    constructor
    · rintro ⟨rfl, g, hg, himports⟩
      exact .inr ⟨hnone, .inr ⟨rfl, g, mem_chain_iff.1 hg, himports⟩⟩
    · rintro (⟨r, hr, -⟩ | ⟨-, ⟨g, r, hg, hr, -⟩ | ⟨rfl, g, hg, himports⟩⟩)
      · rw [firstReport?_eq_some_iff.2 hr] at hfirst
        cases hfirst
      · rw [hnone g hg] at hr
        cases hr
      · exact ⟨rfl, g, mem_chain_iff.2 hg, himports⟩

lemma bears_of_isKind {kind : Kind} (h : f.isKind kind) : f.Bears kind := by
  rcases (isKind_iff f kind).1 h with ⟨r, hr, rfl⟩ | ⟨-, hbears⟩
  · obtain ⟨g, hreach, hg⟩ := hr.exists_reaches
    exact .inl ⟨g, r, hreach, hg, rfl⟩
  · exact hbears

lemma eq_of_isKind {a b : Kind} (ha : f.isKind a) (hb : f.isKind b) : a = b := by
  rw [isKind] at ha hb
  cases hfirst : f.firstReport? with
  | some r =>
    rw [hfirst] at ha hb
    exact (beq_iff_eq.1 ha).symm.trans (beq_iff_eq.1 hb)
  | none =>
    rw [hfirst] at ha hb
    exact (beq_iff_eq.1 (Bool.and_eq_true_iff.1 ha).1).trans (beq_iff_eq.1 (Bool.and_eq_true_iff.1 hb).1).symm

lemma exists_isKind_of_bears {kind : Kind} (h : f.Bears kind) : ∃ k, f.isKind k := by
  cases hfirst : f.firstReport? with
  | some r => exact ⟨r.kind, (isKind_iff f _).2 (.inl ⟨r, firstReport?_eq_some_iff.1 hfirst, rfl⟩)⟩
  | none => exact ⟨kind, (isKind_iff f _).2 (.inr ⟨firstReport?_eq_none_iff.1 hfirst, h⟩)⟩

/-- A fault is of the kind of the report that comes first in it, and of the kind of missing imports if there are
such and no reports. That is always a kind it bears; it is every kind it bears exactly if it does not bear two. -/
theorem isKind_eq_bears_iff (f : Fault) :
    (∀ kind, f.isKind kind = true ↔ (∃ r, Foremost r f ∧ r.kind = kind) ∨ f.Unreported ∧ f.Bears kind) ∧
      (∀ kind, f.isKind kind = true → f.Bears kind) ∧
      ((∀ kind, f.isKind kind = true ↔ f.Bears kind) ↔ ∀ a b, f.Bears a → f.Bears b → a = b) := by
  refine ⟨isKind_iff f, fun kind => bears_of_isKind, fun h a b ha hb => ?_, fun hone kind => ?_⟩
  · exact eq_of_isKind ((h a).2 ha) ((h b).2 hb)
  · refine ⟨bears_of_isKind, fun hbears => ?_⟩
    obtain ⟨k, hk⟩ := exists_isKind_of_bears hbears
    rwa [hone kind k hbears (bears_of_isKind hk)]

/-- A module that does not start because memory is exhausted: the first report hides the second. -/
theorem isKind_instantiation_outOfMemory :
    (instantiation (some (outOfMemory 64 8))).isKind .outOfMemory = false ∧
      (instantiation (some (outOfMemory 64 8))).Bears .outOfMemory :=
  ⟨by decide, .inl ⟨outOfMemory 64 8, _, .behind (mem_singleton.2 rfl) (.refl _), rfl, rfl⟩⟩

end Transpiler.Fault
