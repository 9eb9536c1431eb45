import Transpiler.Proofs.Syntax.Unparsed

/-!
# Local variables are remembered

A name that a line assigns, or that it makes the parameter of a block or a method, is a local variable from then on.
That changes how later lines are read: a known name with a blank and an operand behind it is no call with an argument.
What one line teaches (`read_parseLine`) is handed on to the lines behind it. The main result is `parseLine_remembers`.
-/

namespace Transpiler

/-- Reading a line forgets no name, and if it succeeds, the tree binds known names only and calls none of some names
known before without parentheses. -/
lemma fine_parseLine {locals names : List Text} (hnames : names ⊆ locals) (offset : Nat) (line : Text) :
    locals ⊆ (parseLine locals offset line).2 ∧ ∀ n, (parseLine locals offset line).1 = .ok n →
      n.Fine ⟨offset, line, names⟩ (parseLine locals offset line).2 := by
  obtain ⟨hsub, hread⟩ := read_parseLine hnames offset line
  exact ⟨hsub, fun n hn => (hread n hn).2.2.2⟩

namespace Lines

variable {names locals : List Text} {offset : Nat} {m : Node}

lemma fine_node (hnames : names ⊆ locals) (offset : Nat) (text : Text) :
    locals ⊆ (node locals offset text).2 ∧
      (node locals offset text).1.Fine ⟨offset, text, names⟩ (node locals offset text).2 := by
  obtain ⟨hsub, hfine⟩ := fine_parseLine hnames offset text
  rw [node]
  split
  · next n locals' hparse =>
    rw [hparse] at hsub hfine
    exact ⟨hsub, hfine n rfl⟩
  · next fault locals' hparse =>
    rw [hparse] at hsub
    exact ⟨hsub, .leaf rfl rfl rfl trivial⟩

/-- The node is that of a line which is read with the names known, and none of them is called in it without
parentheses. -/
def Recalls (offset : Nat) (ls : List Text) (names : List Text) (m : Node) : Prop :=
  ∃ k line locals, ls[k]? = some line ∧ names ⊆ locals ∧
    m = (node locals (offset + start ls k + indentation line) line.trimmed).1 ∧
    m.Everywhere (Node.Heeds ⟨offset + start ls k + indentation line, line.trimmed, names⟩)

lemma Recalls.cons {line : Text} {rest : List Text} (h : Recalls (offset + line.length + 1) rest names m) :
    Recalls offset (line :: rest) names m := by
  obtain ⟨k, line', locals, hline, hnames, hm⟩ := h
  have hplace : offset + line.length + 1 + start rest k = offset + start (line :: rest) (k + 1) := by
    rw [start_cons]
    omega
  rw [hplace] at hm
  exact ⟨k + 1, line', locals, hline, hnames, hm⟩

/-- On all lines from here on, the names known here are known. -/
lemma recalls_of_mem_nodes {inDoc : Bool} {ls : List Text} (hnames : names ⊆ locals)
    (h : m ∈ nodes offset inDoc locals ls) : Recalls offset ls names m := by
  induction ls generalizing offset inDoc locals with
  | nil => cases h
  | cons line rest ih =>
    rw [nodes_cons] at h
    split_ifs at h with hdoc hbegin hcode
    · exact (ih hnames h).cons
    · exact (ih hnames h).cons
    · obtain ⟨hsub, hfine⟩ := fine_node hnames (offset + indentation line) line.trimmed
      rcases List.mem_cons.1 h with rfl | h
      · exact ⟨0, line, locals, rfl, hnames, rfl, fun m hm => (hfine m hm).2⟩
      · exact (ih (List.Subset.trans hnames hsub) h).cons
    · exact (ih hnames h).cons

lemma pairwise_nodes (offset : Nat) (inDoc : Bool) (locals : List Text) (ls : List Text) :
    (nodes offset inDoc locals ls).Pairwise fun n m => Recalls offset ls n.allBindings m := by
  induction ls generalizing offset inDoc locals with
  | nil => exact .nil
  | cons line rest ih =>
    have hlater : ∀ inDoc locals, (nodes (offset + line.length + 1) inDoc locals rest).Pairwise fun n m =>
        Recalls offset (line :: rest) n.allBindings m := fun inDoc locals =>
      (ih _ inDoc locals).imp fun h => h.cons
    rw [nodes_cons]
    split_ifs with hdoc hbegin hcode
    · exact hlater _ _
    · exact hlater _ _
    · refine List.pairwise_cons.2 ⟨fun m hm => ?_, hlater _ _⟩
      obtain ⟨-, hfine⟩ := fine_node (.refl locals) (offset + indentation line) line.trimmed
      exact (recalls_of_mem_nodes hfine.allBindings_subset hm).cons
    · exact hlater _ _

end Lines

open Lines in
/-- **Local variables are remembered.** After a line all names known before it are known, also if it cannot be read; if
it can, so is every name that is assigned or made a parameter in its tree, and a name known before is called in the
tree with arguments only where a parenthesis follows it right away. So a name that one line of a source binds is
known on every later line, and none of these reads it as a call because a blank and an operand stand behind it. -/
theorem parseLine_remembers :
    (∀ (locals : List Text) (offset : Nat) (line : Text),
      locals ⊆ (parseLine locals offset line).2 ∧
      ∀ n, (parseLine locals offset line).1 = .ok n →
        n.allBindings ⊆ (parseLine locals offset line).2 ∧ n.Everywhere (Node.Heeds ⟨offset, line, locals⟩)) ∧
    ∀ (source : Text) (i j : Nat) (n m : Node), i < j → (reconstruct source)[i]? = some n →
      (reconstruct source)[j]? = some m → ∃ k line locals, source.lines[k]? = some line ∧ n.allBindings ⊆ locals ∧
        m = (node locals (start source.lines k + indentation line) line.trimmed).1 ∧
        m.Everywhere (Node.Heeds ⟨start source.lines k + indentation line, line.trimmed, n.allBindings⟩) := by
  refine ⟨fun locals offset line => ?_, fun source i j n m hij hi hj => ?_⟩
  · obtain ⟨hsub, hfine⟩ := fine_parseLine (List.Subset.refl locals) offset line
    exact ⟨hsub, fun n hn => ⟨(hfine n hn).allBindings_subset, fun m hm => (hfine n hn m hm).2⟩⟩
  · rw [reconstruct] at hi hj
    obtain ⟨hi', rfl⟩ := List.getElem?_eq_some_iff.1 hi
    obtain ⟨hj', rfl⟩ := List.getElem?_eq_some_iff.1 hj
    have hrecalls := List.pairwise_iff_getElem.1 (pairwise_nodes 0 false [] source.lines) i j hi' hj' hij
    simpa only [Recalls, Nat.zero_add] using hrecalls

open Lines in
/-- Without the first line, the second one would be a call of `x` with an argument. -/
theorem parseLine_remembers_operand_behind :
    ∃ n m, (reconstruct "x = 1\nx -1")[0]? = some n ∧ (reconstruct "x = 1\nx -1")[1]? = some m ∧
      n.allBindings = [("x" : Text)] ∧ ∃ k line locals, (Text.lines "x = 1\nx -1")[k]? = some line ∧
        n.allBindings ⊆ locals ∧
        m = (node locals (start (Text.lines "x = 1\nx -1") k + indentation line) line.trimmed).1 ∧
        m.Everywhere (Node.Heeds
          ⟨start (Text.lines "x = 1\nx -1") k + indentation line, line.trimmed, n.allBindings⟩) := by
  have h : (reconstruct "x = 1\nx -1")[0]?.map Node.allBindings = some [("x" : Text)] ∧
      (reconstruct "x = 1\nx -1")[1]?.isSome = true := by decide +kernel
  obtain ⟨n, hn, hbindings⟩ := Option.map_eq_some_iff.1 h.1
  obtain ⟨m, hm⟩ := Option.isSome_iff_exists.1 h.2
  exact ⟨n, m, hn, hm, hbindings, parseLine_remembers.2 _ 0 1 n m (by decide) hn hm⟩

end Transpiler
