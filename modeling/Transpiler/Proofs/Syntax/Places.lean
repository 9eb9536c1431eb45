import Mathlib.Data.List.Flatten
import Mathlib.Data.List.Perm.Basic
import Mathlib.Data.List.Lex
import Mathlib.Tactic.Choose
import Transpiler.Proofs.Syntax.Everywhere
import Transpiler.Syntax.Outline

/-!
# Walks and outlines see the same tree

A place of a tree is a path of child numbers, ordered with what is above first and siblings from left to right. A walk
visits the places at which something stands, in this order and each once, and misses just those below a node at which
it was told to stop (`Node.Visits`). The outline of the tree holds a map for each node that an unrestricted walk
visits, perhaps in another order.
-/

namespace Transpiler

open List

namespace Node

/-- What stands at a place of the tree. -/
def at? (n : Node) : List Nat → Option Node
  | [] => if n.isAbsent then none else some n
  | i :: place => n.children[i]?.bind (·.at? place)

/-- A place of the tree at which something stands, with no refused node above it. -/
def Open (descend : Node → Bool) (n : Node) (place : List Nat) : Prop :=
  (n.at? place).isSome ∧ ∀ above m, above <+: place → above ≠ place → n.at? above = some m → descend m

section Open

variable {descend : Node → Bool} {n : Node} {i : Nat} {place : List Nat}

lemma open_nil : n.Open descend [] ↔ n.isAbsent = false := by
  constructor
  · rintro ⟨hsome, -⟩
    cases h : n.isAbsent with
    | true => simp [at?, h] at hsome
    | false => rfl
  · exact fun h => ⟨by simp [at?, h], fun above m hle hne => absurd (prefix_nil.1 hle) hne⟩

lemma open_cons (h : n.isAbsent = false) :
    n.Open descend (i :: place) ↔ descend n ∧ ∃ c, n.children[i]? = some c ∧ c.Open descend place := by
  constructor
  · rintro ⟨hsome, habove⟩
    refine ⟨habove [] n nil_prefix (by simp) (by simp [at?, h]), ?_⟩
    cases hc : n.children[i]? with
    | none => simp [at?, hc] at hsome
    | some c =>
      refine ⟨c, rfl, by simpa [at?, hc] using hsome, fun above m hle hne hm => ?_⟩
      exact habove (i :: above) m (prefix_cons_inj _ |>.2 hle) (by simpa using hne) (by simpa [at?, hc] using hm)
  · rintro ⟨hdescend, c, hc, hsome, habove⟩
    refine ⟨by simpa [at?, hc] using hsome, fun above m hle hne hm => ?_⟩
    cases above with
    | nil =>
      obtain rfl : n = m := by simpa [at?, h] using hm
      exact hdescend
    | cons j above =>
      obtain ⟨rfl, hbelow⟩ := cons_prefix_cons.1 hle
      exact habove above m hbelow (by simpa using hne) (by simpa [at?, hc] using hm)

end Open

/-- The open places of a tree in order are those that a walk visits. -/
structure Visits (descend : Node → Bool) (n : Node) (places : List (List Nat)) : Prop where
  ordered : places.Pairwise (· < ·)
  complete : ∀ place, place ∈ places ↔ n.Open descend place
  visited : places.map n.at? = (n.walk descend).map some

lemma exists_visits (descend : Node → Bool) (n : Node) : ∃ places, n.Visits descend places := by
  induction n using childwise with
  | step n ih =>
  cases h : n.isAbsent with
  | true =>
    have hn := eq_absent_of_isAbsent h
    refine ⟨[], .nil, fun place => ⟨fun hplace => absurd hplace not_mem_nil, fun hopen => ?_⟩, by rw [hn]; rfl⟩
    cases place with
    | nil => simp [open_nil, h] at hopen
    | cons i place => simp [hn, Open, at?, children] at hopen
  | false =>
    choose! below hbelow using ih
    cases hdescend : descend n with
    | false =>
      refine ⟨[[]], pairwise_singleton _ _, fun place => ?_, ?_⟩
      · cases place with
        | nil => simp [open_nil, h]
        | cons i place => simp [open_cons h, hdescend]
      · simp [walk_eq_cons descend n h, hdescend, at?, h]
    | true =>
      have hchild : ∀ c ∈ n.children.zipIdx, n.children[c.2]? = some c.1 ∧ c.1.Visits descend (below c.1) := by
        intro c hc
        have hget := mk_mem_zipIdx_iff_getElem?.1 hc
        exact ⟨hget, hbelow c.1 (mem_of_getElem? hget)⟩
      -- the node itself, and then the places below each child behind the number of the child
      refine ⟨[] :: n.children.zipIdx.flatMap fun c => (below c.1).map (c.2 :: ·), ?_, fun place => ?_, ?_⟩
      · refine pairwise_cons.2 ⟨?_, pairwise_flatMap.2 ⟨fun c hc => ?_, ?_⟩⟩
        · simp only [mem_flatMap, mem_map]
          rintro _ ⟨c, -, place, -, rfl⟩
          exact nil_lt_cons _ _
        · exact (hchild c hc).2.ordered.map _ fun place place' hlt => cons_lt_cons_self.2 hlt
        · have hindex : n.children.zipIdx.Pairwise fun c c' => c.2 < c'.2 := by
            rw [← pairwise_map, zipIdx_map_snd]
            exact pairwise_lt_range'
          refine hindex.imp fun hlt => ?_
          simp only [mem_map]
          rintro _ ⟨place, -, rfl⟩ _ ⟨place', -, rfl⟩
          exact .rel hlt
      · cases place with
        | nil => simp [open_nil, h]
        | cons i place =>
          simp only [open_cons h, hdescend, true_and, mem_cons, reduceCtorEq, false_or, mem_flatMap,
            mem_map, List.cons.injEq]
          constructor
          · rintro ⟨c, hc, _, hplace, rfl, rfl⟩
            exact ⟨c.1, (hchild c hc).1, ((hchild c hc).2.complete _).1 hplace⟩
          · rintro ⟨c, hc, hopen⟩
            have hmem := mk_mem_zipIdx_iff_getElem?.2 hc
            exact ⟨(c, i), hmem, place, ((hchild _ hmem).2.complete place).2 hopen, rfl, rfl⟩
      · have hchildren : n.children.flatMap (walk descend) = n.children.zipIdx.flatMap fun c => c.1.walk descend := by
          rw [← flatMap_map Prod.fst, zipIdx_map_fst]
        rw [walk_eq_cons descend n h, if_pos hdescend, hchildren]
        simp only [map_cons, map_flatMap, map_map]
        refine congrArg₂ List.cons (by simp [at?, h]) (flatMap_congr fun c hc => ?_)
        rw [← (hchild c hc).2.visited]
        exact map_congr_left fun place _ => by simp [at?, (hchild c hc).1]

end Node

namespace Data

/-- The entry under a key. -/
def field? (key : Text) : Data → Option Data
  | .map entries => entries.lookup key
  | _ => none

/-- The kind and the start of the node whose map this is. -/
def head? (d : Data) : Option (Text × Int) :=
  match d.field? "type", (d.field? "location").bind (·.field? "start_offset") with
  | some (.text tag), some (.int start) => some (tag, start)
  | _, _ => none

mutual

/-- The heads of all node maps in some data. -/
def heads (d : Data) : List (Text × Int) :=
  match d with
  | .list items => headsAll items
  | .map entries => d.head?.toList ++ headsIn entries
  | .nothing | .noList | .bool _ | .int _ | .float _ | .text _ => []

/-- The heads in a list. -/
def headsAll (ds : List Data) : List (Text × Int) :=
  match ds with
  | [] => []
  | d :: rest => heads d ++ headsAll rest

/-- The heads in entries. -/
def headsIn (entries : List (Text × Data)) : List (Text × Int) :=
  match entries with
  | [] => []
  | (_, d) :: rest => heads d ++ headsIn rest

end

end Data

namespace Node

open Data

lemma head?_outline (n : Node) (h : n.isAbsent = false) : n.outline.head? = some (n.tag, (n.span.start : Int)) := by
  cases n with
  | absent => cases h
  | assignment span name scope operator value =>
    rw [outline, optional]
    split <;> rfl
  | call span receiver name arguments blk =>
    rw [outline, optional, optional, optional]
    split <;> split <;> split <;> rfl
  | cond span condition negated consequence alternative =>
    rw [outline, optional]
    split <;> rfl
  | ret span value =>
    rw [outline, optional]
    split <;> rfl
  | _ => rfl

section Fields

@[simp] lemma headsIn_append (es es' : List (Text × Data)) : headsIn (es ++ es') = headsIn es ++ headsIn es' := by
  induction es with
  | nil => rfl
  | cons e rest ih => simp [headsIn, ih]

@[simp] lemma headsIn_entry (key : Text) (d : Data) : headsIn (entry key d) = d.heads := by simp [entry, headsIn]

@[simp] lemma headsAll_outlineAll (ns : List Node) :
    headsAll (outlineAll ns) = ns.flatMap fun n => n.outline.heads := by
  induction ns with
  | nil => rfl
  | cons n rest ih => rw [outlineAll, headsAll, ih, flatMap_cons]

@[simp] lemma headsAll_outlinePairs (ps : List (Node × Node)) :
    headsAll (outlinePairs ps) = (ps.flatMap fun p => [p.1, p.2]).flatMap fun n => n.outline.heads := by
  induction ps with
  | nil => rfl
  | cons p rest ih =>
    have hpair : (Data.map [("key", p.1.outline), ("value", p.2.outline)]).head? = none := rfl
    simp [outlinePairs, headsAll, heads, headsIn, hpair, ih]

@[simp] lemma heads_outline_span (s : Span) : s.outline.heads = [] := rfl

@[simp] lemma heads_outlineParams (params : List Text) : (outlineParams params).heads = [] := by
  have htexts : ∀ ts : List Text, headsAll (ts.map .text) = [] := fun ts => by
    induction ts with
    | nil => rfl
    | cons t rest ih => simp [headsAll, heads, ih]
  rw [outlineParams]
  split
  · rfl
  · simp [heads, htexts]

/-- What is left out holds no node. -/
@[simp] lemma headsIn_optional_outline (key : Text) (n : Node) :
    headsIn (optional (!n.isAbsent) key n.outline) = n.outline.heads := by
  cases n with
  | absent => rfl
  | _ => exact headsIn_entry key _

@[simp] lemma headsIn_optional_list (key : Text) (ns : List Node) :
    headsIn (optional (!ns.isEmpty) key (.list (outlineAll ns))) = ns.flatMap fun n => n.outline.heads := by
  cases ns with
  | nil => rfl
  | cons n rest => simp [optional, heads]

@[simp] lemma headsIn_optional_text (present : Bool) (key t : Text) :
    headsIn (optional present key (.text t)) = [] := by
  cases present <;> simp [optional, heads, headsIn]

end Fields

lemma heads_outline (n : Node) (h : n.isAbsent = false) :
    n.outline.heads.Perm ((n.tag, (n.span.start : Int)) :: n.children.flatMap fun c => c.outline.heads) := by
  have hfields : ∀ entries, n.outline = .map entries →
      (headsIn entries).Perm (n.children.flatMap fun c => c.outline.heads) →
      n.outline.heads.Perm ((n.tag, (n.span.start : Int)) :: n.children.flatMap fun c => c.outline.heads) := by
    intro entries hentries hperm
    have hhead := head?_outline n h
    rw [hentries] at hhead ⊢
    rw [heads, hhead]
    exact hperm.cons _
  cases n with
  | absent => cases h
  | call span receiver name arguments blk =>
    refine hfields _ rfl ?_
    rw [children, cons_append, flatMap_cons, flatMap_append]
    refine .trans ?_ perm_append_comm
    simp [heads]
  | cond span condition negated consequence alternative =>
    refine hfields _ rfl ?_
    rw [children, cons_append, flatMap_cons, flatMap_append]
    refine .trans ?_ (.append_left _ perm_append_comm)
    simp [heads]
  | loop span condition negated body =>
    refine hfields _ rfl ?_
    simpa [headsIn, heads, children] using perm_append_comm
  | _ =>
    refine hfields _ rfl ?_
    simp [headsIn, heads, children]

/-- A walk and an outline see the same tree. The walk visits the open places of the tree in order, each once, whichever
nodes it is told not to descend from. The kinds and starts of the nodes that an unrestricted walk visits are those of
the maps in the outline. -/
theorem walk_places (n : Node) (descend : Node → Bool) :
    (∃ places, n.Visits descend places) ∧
      ((n.walk fun _ => true).map fun m => (m.tag, (m.span.start : Int))).Perm n.outline.heads := by
  refine ⟨exists_visits descend n, ?_⟩
  induction n using childwise with
  | step n ih =>
    cases h : n.isAbsent with
    | true =>
      rw [eq_absent_of_isAbsent h]
      rfl
    | false =>
      rw [walk_eq_cons _ n h, if_pos rfl, map_cons, map_flatMap]
      exact ((List.Perm.flatMap_left _ ih).cons _).trans (heads_outline n h).symm

end Node

end Transpiler
