import Mathlib.Tactic.Common
import Transpiler.Syntax.Node

/-!
# Properties of all nodes of a tree

A walk visits a node and then walks its children. So a property holds everywhere in a tree if it holds of the
root and everywhere in the children. What passes from the children of each node to the node holds of all trees
(`childwise`).
-/

namespace Transpiler.Node

open List

/-- The children of a node in the order of its fields; an empty place among them is `absent`. -/
def children : Node → List Node
  | .program _ body | .block _ _ body | .method _ _ _ body => body
  | .assignment _ _ _ _ value | .ret _ value => [value]
  | .call _ receiver _ arguments blk => receiver :: arguments ++ [blk]
  | .array _ elements => elements
  | .hash _ pairs => pairs.flatMap fun p => [p.1, p.2]
  | .cond _ condition _ consequence alternative => condition :: consequence ++ alternative
  | .loop _ condition _ body => condition :: body
  | .absent | .var .. | .self .. | .string .. | .integer .. | .float .. | .boolean .. | .nil ..
  | .symbol .. | .comment .. | .unknown .. => []

mutual

/-- What passes from the children of a node to the node holds of every tree. -/
lemma childwise {P : Node → Prop} (step : ∀ n, (∀ c ∈ n.children, P c) → P n) (n : Node) : P n :=
  match n with
  | .program _ body | .block _ _ body | .method _ _ _ body | .array _ body => step _ (childwiseAll step body)
  | .assignment _ _ _ _ value | .ret _ value => step _ (forall_mem_singleton.2 (childwise step value))
  | .call _ receiver _ arguments blk => step _ (forall_mem_append.2
      ⟨forall_mem_cons.2 ⟨childwise step receiver, childwiseAll step arguments⟩,
        forall_mem_singleton.2 (childwise step blk)⟩)
  | .hash _ pairs => step _ (childwisePairs step pairs)
  | .cond _ condition _ consequence alternative => step _ (forall_mem_cons.2
      ⟨childwise step condition, forall_mem_append.2 ⟨childwiseAll step consequence, childwiseAll step alternative⟩⟩)
  | .loop _ condition _ body => step _ (forall_mem_cons.2 ⟨childwise step condition, childwiseAll step body⟩)
  | .absent | .var .. | .self .. | .string .. | .integer .. | .float .. | .boolean .. | .nil .. | .symbol ..
  | .comment .. | .unknown .. => step _ (forall_mem_nil _)

lemma childwiseAll {P : Node → Prop} (step : ∀ n, (∀ c ∈ n.children, P c) → P n) (ns : List Node) : ∀ c ∈ ns, P c :=
  match ns with
  | [] => forall_mem_nil _
  | n :: rest => forall_mem_cons.2 ⟨childwise step n, childwiseAll step rest⟩

lemma childwisePairs {P : Node → Prop} (step : ∀ n, (∀ c ∈ n.children, P c) → P n) (ps : List (Node × Node)) :
    ∀ c ∈ ps.flatMap fun p => [p.1, p.2], P c :=
  match ps with
  | [] => forall_mem_nil _
  | (key, value) :: rest => forall_mem_cons.2
      ⟨childwise step key, forall_mem_cons.2 ⟨childwise step value, childwisePairs step rest⟩⟩

end

lemma walkAll_eq_flatMap (descend : Node → Bool) (ns : List Node) : walkAll descend ns = ns.flatMap (walk descend) := by
  induction ns with
  | nil => rfl
  | cons n rest ih => rw [walkAll, ih, flatMap_cons]

lemma walkPairs_eq_flatMap (descend : Node → Bool) (ps : List (Node × Node)) :
    walkPairs descend ps = (ps.flatMap fun p => [p.1, p.2]).flatMap (walk descend) := by
  induction ps with
  | nil => rfl
  | cons p rest ih => simp [walkPairs, ih]

/-- A walk goes from a node to its children, unless it does not descend. -/
lemma walk_eq_cons (descend : Node → Bool) (n : Node) (h : n.isAbsent = false) :
    n.walk descend = n :: if descend n then n.children.flatMap (walk descend) else [] := by
  cases n with
  | absent => cases h
  | _ => simp [walk, children, walkAll_eq_flatMap, walkPairs_eq_flatMap]

/-- The property holds of all nodes of a tree. -/
def Everywhere (P : Node → Prop) (n : Node) : Prop := ∀ m ∈ n.walk (fun _ => true), P m

variable {P : Node → Prop} {n : Node}

@[simp] lemma everywhere_absent : Everywhere P .absent := fun _ hm => nomatch hm

lemma everywhere_iff (h : n.isAbsent = false) : n.Everywhere P ↔ P n ∧ ∀ c ∈ n.children, c.Everywhere P := by
  simp only [Everywhere, walk_eq_cons _ n h, if_true, forall_mem_cons, forall_mem_flatMap]

end Transpiler.Node
