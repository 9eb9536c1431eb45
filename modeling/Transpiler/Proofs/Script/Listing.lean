import Mathlib.Data.List.Induction
import Mathlib.Data.List.TakeWhile
import Mathlib.Tactic.Common
import Transpiler.Proofs.Syntax.Everywhere
import Transpiler.Script.Bindings

/-!
# What a body plans to declare

The plan of a name rests on the assignments from its first one outside blocks on (`ownAssigned`): the name is planned
if there are any, declared at the start unless the first is a plain statement of the body, and constant if there are
no more. A constant is not assigned again (`settled_ofBody`), and what is not declared by a plain statement is
declared at the start (`ready_ofBody`).
-/

namespace Transpiler.Script

open List

/-! ## Listed assignments -/

/-- The names assigned. -/
def assignedNames (listed : List Assigned) : List Text := listed.map (·.name)

@[simp] lemma assignedNames_nil : assignedNames [] = [] := rfl

@[simp] lemma assignedNames_cons (a : Assigned) (as : List Assigned) :
    assignedNames (a :: as) = a.name :: assignedNames as := rfl

@[simp] lemma assignedNames_append (as as' : List Assigned) :
    assignedNames (as ++ as') = assignedNames as ++ assignedNames as' := map_append

/-- What is listed are no statements of a body, each in a block if the whole is or if it is by itself. -/
def Marked (listed : Bool → List Assigned) : Prop :=
  ∃ marks : List (Text × Bool), ∀ inBlock, listed inBlock = marks.map fun m => ⟨m.1, false, inBlock || m.2⟩

lemma Marked.append {listed listed' : Bool → List Assigned} (h : Marked listed) (h' : Marked listed') :
    Marked fun inBlock => listed inBlock ++ listed' inBlock := by
  obtain ⟨marks, h⟩ := h
  obtain ⟨marks', h'⟩ := h'
  exact ⟨marks ++ marks', fun inBlock => by simp only [h, h', map_append]⟩

/-- The assignment at a node. -/
def assignedAt (inBlock : Bool) : Node → List Assigned
  | .assignment _ name scope _ _ => if isBound scope then [⟨name, false, inBlock⟩] else []
  | _ => []

lemma assignedInAll_eq_flatMap (inBlock : Bool) (ns : List Node) :
    assignedInAll inBlock ns = ns.flatMap (assignedBelow inBlock) := by
  induction ns with
  | nil => rfl
  | cons n rest ih => rw [assignedInAll, ih, flatMap_cons]

lemma assignedInPairs_eq_flatMap (inBlock : Bool) (ps : List (Node × Node)) :
    assignedInPairs inBlock ps = (ps.flatMap fun p => [p.1, p.2]).flatMap (assignedBelow inBlock) := by
  induction ps with
  | nil => rfl
  | cons p rest ih => simp [assignedInPairs, ih]

/-- Below a node there are its own assignment and those below its children, unless it is a method. -/
lemma assignedBelow_eq (inBlock : Bool) {n : Node} (h : ∀ span name params body, n ≠ .method span name params body) :
    assignedBelow inBlock n = assignedAt inBlock n ++ n.children.flatMap (assignedBelow (inBlock || n.isBlock)) := by
  cases n with
  | method => exact absurd rfl (h _ _ _ _)
  | _ =>
    simp [assignedBelow, assignedAt, Node.children, Node.isBlock, assignedInAll_eq_flatMap, assignedInPairs_eq_flatMap]

lemma Marked.flatMap {ns : List Node} (h : ∀ n ∈ ns, Marked (assignedBelow · n)) :
    Marked fun inBlock => ns.flatMap (assignedBelow inBlock) := by
  induction ns with
  | nil => exact ⟨[], fun _ => rfl⟩
  | cons n rest ih =>
    obtain ⟨hn, hrest⟩ := forall_mem_cons.1 h
    exact hn.append (ih hrest)

lemma marked_assignedBelow (n : Node) : Marked (assignedBelow · n) := by
  refine Node.childwise (P := fun n => Marked (assignedBelow · n)) (fun n ih => ?_) n
  have hchildren := Marked.flatMap ih
  cases n with
  | method => exact ⟨[], fun _ => rfl⟩
  | assignment _ name scope =>
    refine .append ⟨if isBound scope then [(name, false)] else [], fun inBlock => ?_⟩ (ih _ mem_cons_self)
    split_ifs <;> simp
  | block =>
    obtain ⟨marks, h⟩ := hchildren
    exact ⟨marks.map fun m => (m.1, true), fun inBlock => by simp [assignedBelow_eq, assignedAt, Node.isBlock, h]⟩
  | _ => simpa [assignedBelow_eq, assignedAt, Node.isBlock] using hchildren

/-- Whether a node stands in a block does not matter to the names assigned below it. -/
lemma names_assignedBelow (inBlock inBlock' : Bool) (n : Node) :
    assignedNames (assignedBelow inBlock n) = assignedNames (assignedBelow inBlock' n) := by
  obtain ⟨marks, h : ∀ inBlock, assignedBelow inBlock n = _⟩ := marked_assignedBelow n
  simp only [h, assignedNames, map_map, Function.comp_def]

/-- Only statements of a body are listed as such. -/
lemma direct_assignedBelow (inBlock : Bool) (n : Node) : ∀ a ∈ assignedBelow inBlock n, a.direct = false := by
  obtain ⟨marks, h : ∀ inBlock, assignedBelow inBlock n = _⟩ := marked_assignedBelow n
  rw [h, forall_mem_map]
  exact fun _ _ => rfl

/-- What is listed for a node, as a statement of the body or of braces in it. -/
def listed (direct : Bool) (n : Node) : List Assigned :=
  if direct then assignedInStatement n else assignedBelow false n

/-- What is listed for the nodes of a body, or of braces in it. -/
def allListed (direct : Bool) (ns : List Node) : List Assigned := ns.flatMap (listed direct)

lemma listed_assignment (direct : Bool) (span : Span) (name : Text) (scope : Scope) (operator : Text)
    (value : Node) : listed direct (.assignment span name scope operator value)
      = (if isBound scope then [⟨name, direct && operator.isEmpty, false⟩] else []) ++ assignedBelow false value := by
  cases direct <;> rfl

lemma allListed_false (ns : List Node) : allListed false ns = assignedInAll false ns := by
  induction ns with
  | nil => rfl
  | cons n rest ih => exact congrArg (assignedBelow false n ++ ·) ih

lemma listed_cond (direct : Bool) (span : Span) (condition : Node) (negated : Bool)
    (consequence alternative : List Node) : listed direct (.cond span condition negated consequence alternative)
      = assignedBelow false condition ++ (allListed false consequence ++ allListed false alternative) := by
  rw [allListed_false, allListed_false, ← append_assoc]
  cases direct <;> rfl

lemma listed_loop (direct : Bool) (span : Span) (condition : Node) (negated : Bool) (body : List Node) :
    listed direct (.loop span condition negated body) = assignedBelow false condition ++ allListed false body := by
  rw [allListed_false]
  cases direct <;> rfl

lemma names_listed (direct : Bool) (n : Node) :
    assignedNames (listed direct n) = assignedNames (assignedBelow false n) := by
  cases n with
  | assignment span name scope operator value =>
    rw [listed_assignment, assignedNames_append, assignedBelow, assignedNames_append]
    split_ifs <;> rfl
  | _ => cases direct <;> rfl

lemma names_assignedInBody (inBlock : Bool) (body : List Node) :
    assignedNames (assignedInBody body) = assignedNames (assignedInAll inBlock body) := by
  induction body with
  | nil => rfl
  | cons n rest ih =>
    rw [assignedInBody, flatMap_cons, assignedNames_append, assignedInAll, assignedNames_append,
      ← ih, names_assignedBelow inBlock false, ← names_listed true]
    rfl

/-! ## Plans of names -/

/-- The assignments to a name from the first one outside blocks on. -/
def ownAssigned (x : Text) (listed : List Assigned) : List Assigned :=
  (listed.filter (·.name == x)).dropWhile (·.inBlock)

variable {a : Assigned}

lemma ownAssigned_concat_of_ne {x : Text} (h : a.name ≠ x) (listed : List Assigned) :
    ownAssigned x (listed ++ [a]) = ownAssigned x listed := by
  simp [ownAssigned, filter_append, h]

variable {listed : List Assigned}

lemma ownAssigned_concat_of_nil (h : ownAssigned a.name listed = []) :
    ownAssigned a.name (listed ++ [a]) = if a.inBlock then [] else [a] := by
  rw [ownAssigned] at h ⊢
  rw [filter_append, dropWhile_append, h]
  cases hb : a.inBlock <;> simp [hb]

lemma ownAssigned_concat_of_cons {listed rest : List Assigned} {a first : Assigned}
    (h : ownAssigned a.name listed = first :: rest) :
    ownAssigned a.name (listed ++ [a]) = first :: (rest ++ [a]) := by
  rw [ownAssigned] at h ⊢
  rw [filter_append, dropWhile_append, h]
  simp

/-- A usage says what the name's own assignments are. -/
def Usage.Matches (u : Usage) (listed : List Assigned) : Prop :=
  ∃ first rest, ownAssigned u.name listed = first :: rest ∧ u.direct = first.direct ∧ u.count = rest.length + 1

lemma Usage.matches_concat_of_ne {u : Usage} (h : a.name ≠ u.name) (listed : List Assigned) :
    u.Matches (listed ++ [a]) ↔ u.Matches listed := by
  rw [Usage.Matches, ownAssigned_concat_of_ne h, Usage.Matches]

lemma mem_record_of_any {us : List Usage}
    (hus : ∀ u, u ∈ us ↔ u.Matches listed) (hany : ∃ u ∈ us, u.name = a.name) (u : Usage) :
    (u ∈ us.map fun u => if u.name == a.name then { u with count := u.count + 1 } else u)
      ↔ u.Matches (listed ++ [a]) := by
  obtain ⟨u₀, hu₀, hname⟩ := hany
  obtain ⟨first, rest, hown, -, -⟩ := (hus u₀).1 hu₀
  rw [hname] at hown
  rw [mem_map]
  -- only the usage of the assigned name changes, and only in its count
  by_cases hu : a.name = u.name
  · rw [Usage.Matches, ← hu, ownAssigned_concat_of_cons hown]
    constructor
    · rintro ⟨v, hv, rfl⟩
      obtain ⟨first', rest', hown', hdirect, hcount⟩ := (hus v).1 hv
      have hvname : v.name = a.name := by
        split_ifs at hu with hbeq
        · exact hu.symm
        · exact absurd (beq_iff_eq.2 hu.symm) hbeq
      rw [hvname, hown] at hown'
      obtain ⟨rfl, rfl⟩ := List.cons.inj hown'
      refine ⟨first, rest ++ [a], rfl, ?_⟩
      simp [hvname, hdirect, hcount]
    · rintro ⟨first', rest', heq, hdirect, hcount⟩
      obtain ⟨rfl, rfl⟩ := List.cons.inj heq
      refine ⟨⟨u.name, u.direct, rest.length + 1⟩, (hus _).2 ⟨first, rest, hu ▸ hown, hdirect, rfl⟩, ?_⟩
      obtain ⟨name, direct, count⟩ := u
      simp_all
  · rw [Usage.matches_concat_of_ne hu, ← hus]
    constructor
    · rintro ⟨v, hv, rfl⟩
      split_ifs at hu ⊢ with hbeq
      · exact absurd (beq_iff_eq.1 hbeq).symm hu
      · exact hv
    · intro hmem
      exact ⟨u, hmem, by simp [Ne.symm hu]⟩

lemma mem_record_of_not_any {us : List Usage}
    (hus : ∀ u, u ∈ us ↔ u.Matches listed) (hany : ¬ ∃ u ∈ us, u.name = a.name) (u : Usage) :
    (u ∈ if a.inBlock then us else us ++ [⟨a.name, a.direct, 1⟩]) ↔ u.Matches (listed ++ [a]) := by
  -- without a usage the name has been assigned in nested blocks at most
  have hown : ownAssigned a.name listed = [] := by
    cases hown : ownAssigned a.name listed with
    | nil => rfl
    | cons first rest =>
      exact absurd ⟨_, (hus ⟨a.name, first.direct, rest.length + 1⟩).2 ⟨first, rest, hown, rfl, rfl⟩, rfl⟩ hany
  by_cases hu : a.name = u.name
  · have hnot : u ∉ us := fun hmem => hany ⟨u, hmem, hu.symm⟩
    rw [Usage.Matches, ← hu, ownAssigned_concat_of_nil hown]
    split_ifs
    · simpa using hnot
    · rw [mem_append, or_iff_right hnot, mem_singleton]
      constructor
      · rintro rfl
        exact ⟨a, [], rfl, rfl, rfl⟩
      · rintro ⟨first, rest, heq, hdirect, hcount⟩
        obtain ⟨rfl, rfl⟩ := List.cons.inj heq
        obtain ⟨name, direct, count⟩ := u
        cases hu
        cases hdirect
        cases hcount
        rfl
  · rw [Usage.matches_concat_of_ne hu, ← hus]
    split_ifs
    · rfl
    · have hne : u ≠ ⟨a.name, a.direct, 1⟩ := fun h => hu (h ▸ rfl)
      simp [hne]

/-- The usages of a body are those that match what is listed, one for each name. -/
lemma foldl_record (listed : List Assigned) :
    (∀ u, u ∈ listed.foldl Usage.record [] ↔ u.Matches listed)
      ∧ ((listed.foldl Usage.record []).map (·.name)).Nodup := by
  induction listed using List.reverseRecOn with
  | nil => simp [Usage.Matches, ownAssigned]
  | append_singleton listed a ih =>
    obtain ⟨hus, hnodup⟩ := ih
    rw [foldl_append, foldl_cons, foldl_nil, Usage.record]
    by_cases hany : ∃ u ∈ listed.foldl Usage.record [], u.name = a.name
    · rw [if_pos (by simpa using hany)]
      refine ⟨mem_record_of_any hus hany, ?_⟩
      have hnames : ∀ us : List Usage, (us.map fun u =>
          if u.name == a.name then { u with count := u.count + 1 } else u).map (·.name)
          = us.map (·.name) := by
        intro us
        rw [map_map]
        refine map_congr_left fun u _ => ?_
        simp only [Function.comp]
        split_ifs <;> rfl
      rwa [hnames]
    · rw [if_neg (by simpa using hany)]
      refine ⟨mem_record_of_not_any hus hany, ?_⟩
      split_ifs
      · exact hnodup
      · rw [map_append, nodup_append]
        simpa [hnodup] using fun u hu heq => hany ⟨u, hu, heq⟩

/-! ## Frames -/

/-- Whether the innermost frame wants a name declared as one that is assigned again. -/
def isMutable (frames : List Frame) (name : Text) : Bool :=
  (frames.head?.map (·.mutable.contains name)).getD false

/-- The frames after a name was declared in the innermost. -/
def declaring (name : Text) : List Frame → List Frame
  | [] => []
  | f :: rest => { f with declared := name :: f.declared } :: rest

@[simp] lemma resolves_cons (f : Frame) (frames : List Frame) (x : Text) :
    resolves (f :: frames) x = (f.declared.contains x || resolves frames x) := rfl

variable {frames : List Frame}

lemma resolves_declaring (h : frames ≠ []) (y x : Text) :
    resolves (declaring y frames) x = (x == y || resolves frames x) := by
  cases frames with
  | nil => exact absurd rfl h
  | cons f rest => rw [declaring, resolves_cons, resolves_cons, contains_cons, Bool.or_assoc]

lemma resolves_of_resolves_declaring {y x : Text} (h : resolves frames x) : resolves (declaring y frames) x := by
  cases frames with
  | nil => exact h
  | cons f rest => rw [resolves_declaring (by simp), h, Bool.or_true]

lemma declaring_ne_nil (h : frames ≠ []) (y : Text) : declaring y frames ≠ [] := by
  cases frames with
  | nil => exact h
  | cons f rest => simp [declaring]

@[simp] lemma isMutable_declaring (frames : List Frame) (y x : Text) :
    isMutable (declaring y frames) x = isMutable frames x := by
  cases frames <;> rfl

/-- Names that are free to be made constant are not assigned after they are, outside blocks, assigned. -/
def Settled (free : Text → Prop) : List Assigned → Prop
  | [] => True
  | a :: ahead => (a.inBlock = false → free a.name → a.name ∉ assignedNames ahead) ∧ Settled free ahead

/-- Names that are assigned outside blocks, other than by plain statements of the body, are known by then. -/
def Ready (known : Text → Prop) : List Assigned → Prop
  | [] => True
  | a :: ahead => (a.inBlock = false → a.direct = false → known a.name)
      ∧ Ready (fun x => known x ∨ a.inBlock = false ∧ x = a.name) ahead

lemma Settled.mono {free free' : Text → Prop} (hsub : ∀ x, free' x → free x) :
    ∀ {ahead : List Assigned}, Settled free ahead → Settled free' ahead
  | [], _ => trivial
  | _ :: _, h => ⟨fun hown hfree => h.1 hown (hsub _ hfree), h.2.mono hsub⟩

lemma Settled.skip {free : Text → Prop} {left ahead : List Assigned} (h : Settled free (left ++ ahead)) :
    Settled free ahead := by
  induction left with
  | nil => exact h
  | cons a rest ih => exact ih h.2

lemma Ready.mono {known known' : Text → Prop} {ahead : List Assigned} (h : Ready known ahead)
    (hsub : ∀ x, known x → known' x) : Ready known' ahead := by
  induction ahead generalizing known known' with
  | nil => trivial
  | cons a rest ih =>
    exact ⟨fun hown hdirect => hsub _ (h.1 hown hdirect), ih h.2 fun x hx => hx.imp_left (hsub x)⟩

/-- Assignments can be left out if those that are plain statements of the body are of known names. -/
lemma Ready.skip {known : Text → Prop} {left ahead : List Assigned} (h : Ready known (left ++ ahead))
    (hleft : ∀ a ∈ left, a.direct → known a.name) : Ready known ahead := by
  induction left with
  | nil => exact h
  | cons a rest ih =>
    rw [forall_mem_cons] at hleft
    refine ih (h.2.mono ?_) hleft.2
    rintro x (hx | ⟨hown, rfl⟩)
    · exact hx
    · cases hdirect : a.direct with
      | true => exact hleft.1 hdirect
      | false => exact h.1 hown hdirect

/-! ## The frame of a body -/

section OfBody

variable {outer : List Frame} {params : List Text} {body : List Node} {x : Text}

lemma mem_ownUsages {u : Usage} : u ∈ ownUsages outer params body
    ↔ u.Matches (assignedInBody body) ∧ u.name ∉ params ∧ resolves outer u.name = false := by
  simp [ownUsages, usages, (foldl_record _).1]

lemma mem_hoisted : x ∈ hoisted outer params body ↔ ∃ u : Usage, u.Matches (assignedInBody body)
    ∧ u.name = x ∧ u.direct = false ∧ x ∉ params ∧ resolves outer x = false := by
  simp only [hoisted, mem_map, mem_filter, mem_ownUsages]
  constructor
  · rintro ⟨u, ⟨⟨hu, hparams, houter⟩, hdirect⟩, rfl⟩
    exact ⟨u, hu, rfl, by simpa using hdirect, hparams, houter⟩
  · rintro ⟨u, hu, rfl, hdirect, hparams, houter⟩
    exact ⟨u, ⟨⟨hu, hparams, houter⟩, by simpa using hdirect⟩, rfl⟩

lemma nodup_hoisted (outer : List Frame) (params : List Text) (body : List Node) :
    (hoisted outer params body).Nodup := by
  have hsub : (hoisted outer params body).Sublist ((usages body).map (·.name)) := by
    rw [hoisted, ownUsages]
    exact (filter_sublist.trans filter_sublist).map _
  exact hsub.nodup (foldl_record _).2

lemma resolves_ofBody : resolves (.ofBody outer params body :: outer) x
    ↔ x ∈ params ∨ x ∈ hoisted outer params body ∨ resolves outer x := by
  simp [Frame.ofBody, or_assoc]

/-- A name that is not to be assigned again has one assignment of its own. -/
lemma rest_eq_nil_of_not_mutable {first : Assigned} {rest : List Assigned}
    (hmutable : isMutable (.ofBody outer params body :: outer) x = false)
    (hnew : resolves (.ofBody outer params body :: outer) x = false)
    (hown : ownAssigned x (assignedInBody body) = first :: rest) : rest = [] := by
  have hresolves : ¬ (x ∈ params ∨ x ∈ hoisted outer params body ∨ resolves outer x) := by
    rw [← resolves_ofBody, hnew]
    simp
  simp only [not_or, Bool.not_eq_true] at hresolves
  have hu : (⟨x, first.direct, rest.length + 1⟩ : Usage) ∈ ownUsages outer params body :=
    mem_ownUsages.2 ⟨⟨first, rest, hown, rfl, rfl⟩, hresolves.1, hresolves.2.2⟩
  by_contra hrest
  have hcount : 1 < rest.length + 1 := by
    have := length_pos_iff.2 hrest
    omega
  have hmem : x ∈ (Frame.ofBody outer params body).mutable :=
    mem_map.2 ⟨_, mem_filter.2 ⟨hu, by simp [hcount]⟩, rfl⟩
  simp [isMutable, hmem] at hmutable

/-- The own assignments of a name around one of them. -/
lemma ownAssigned_append_cons (front : List Assigned) (hown : a.inBlock = false)
    (back : List Assigned) : ownAssigned a.name (front ++ a :: back)
      = ownAssigned a.name front ++ a :: back.filter (·.name == a.name) := by
  have hfilter : (front ++ a :: back).filter (·.name == a.name)
      = front.filter (·.name == a.name) ++ a :: back.filter (·.name == a.name) := by
    simp [filter_append]
  rw [ownAssigned, hfilter, dropWhile_append, dropWhile_cons_of_neg (by simp [hown])]
  split_ifs with hempty
  · rw [ownAssigned, List.isEmpty_iff.1 hempty, nil_append]
  · rfl

/-- The plan of a body makes no name constant that is assigned again. -/
lemma settled_ofBody (outer : List Frame) (params : List Text) (body : List Node) :
    Settled (fun x => isMutable (.ofBody outer params body :: outer) x = false
      ∧ resolves (.ofBody outer params body :: outer) x = false) (assignedInBody body) := by
  -- the induction is on what is ahead, with what was passed before it
  have hsuffix : ∀ front ahead, assignedInBody body = front ++ ahead →
      Settled (fun x => isMutable (.ofBody outer params body :: outer) x = false
        ∧ resolves (.ofBody outer params body :: outer) x = false) ahead := by
    intro front ahead
    induction ahead generalizing front with
    | nil => exact fun _ => trivial
    | cons a ahead ih =>
      intro h
      refine ⟨?_, ih (front ++ [a]) (by simpa using h)⟩
      rintro hown ⟨hmutable, hnew⟩ hmem
      have hsplit := ownAssigned_append_cons front hown ahead
      rw [← h] at hsplit
      obtain ⟨b, hb, hname⟩ := mem_map.1 hmem
      have hfilter : b ∈ ahead.filter (·.name == a.name) := mem_filter.2 ⟨hb, by simpa using hname⟩
      cases hfront : ownAssigned a.name front with
      | nil =>
        rw [hfront, nil_append] at hsplit
        have := rest_eq_nil_of_not_mutable hmutable hnew hsplit
        simp [this] at hfilter
      | cons first rest =>
        rw [hfront, cons_append] at hsplit
        have := rest_eq_nil_of_not_mutable hmutable hnew hsplit
        simp at this
  exact hsuffix [] _ rfl

/-- The plan of a body declares at the start what no plain statement of it declares. -/
lemma ready_ofBody (outer : List Frame) (params : List Text) (body : List Node) :
    Ready (fun x => resolves (.ofBody outer params body :: outer) x) (assignedInBody body) := by
  have hsuffix : ∀ front ahead, assignedInBody body = front ++ ahead →
      Ready (fun x => resolves (.ofBody outer params body :: outer) x
        ∨ ∃ b ∈ front, b.inBlock = false ∧ b.name = x) ahead := by
    intro front ahead
    induction ahead generalizing front with
    | nil => exact fun _ => trivial
    | cons a ahead ih =>
      intro h
      refine ⟨?_, (ih (front ++ [a]) (by simpa using h)).mono ?_⟩
      · intro hown hdirect
        by_cases hfront : ∃ b ∈ front, b.inBlock = false ∧ b.name = a.name
        · exact .inr hfront
        · -- the first assignment outside blocks is not direct, so the plan declares the name
          left
          have hsplit := ownAssigned_append_cons front hown ahead
          have hnil : ownAssigned a.name front = [] := by
            rw [ownAssigned, dropWhile_eq_nil_iff]
            intro b hb
            simp only [mem_filter, beq_iff_eq] at hb
            by_contra hb'
            exact hfront ⟨b, hb.1, by simpa using hb', hb.2⟩
          rw [← h, hnil, nil_append] at hsplit
          by_cases hparams : a.name ∈ params
          · exact resolves_ofBody.2 (.inl hparams)
          cases houter : resolves outer a.name with
          | true => exact resolves_ofBody.2 (.inr (.inr houter))
          | false =>
            exact resolves_ofBody.2 (.inr (.inl (mem_hoisted.2
              ⟨⟨a.name, a.direct, _⟩, ⟨a, _, hsplit, rfl, rfl⟩, rfl, hdirect, hparams, houter⟩)))
      · rintro x (hx | ⟨b, hb, hown, rfl⟩)
        · exact .inl (.inl hx)
        · rcases mem_append.1 hb with hb | hb
          · exact .inl (.inr ⟨b, hb, hown, rfl⟩)
          · rw [mem_singleton.1 hb] at hown ⊢
            exact .inr ⟨hown, rfl⟩
  exact (hsuffix [] _ rfl).mono (by simp)

end OfBody

end Transpiler.Script
