import Mathlib.Data.List.Pairwise
import Transpiler.Wire.Lowering

/-!
# Comments are merged into the statements

A list of entries, each a statement or a comment, keeps apart where the nodes of the result come from. Placing the
comments is merging the two lists of entries (`Lowering.interleave_eq_map_entries`) by start offset, a comment before
a statement that starts where it does. So nothing is lost, doubled or moved past another of its kind, and the result
is in order if both lists were (`Lowering.interleave_merges`).
-/

namespace Transpiler.Wire.Lowering

open List

/-- A statement of a body, or a comment that was placed in it. -/
inductive Entry where
  | statement (n : Node)
  | comment (c : Comment)

variable {c : Comment} {n : Node}

namespace Entry

/-- The statement, if one. -/
def statement? : Entry → Option Node
  | .statement n => some n
  | .comment _ => none

/-- The comment, if one. -/
def comment? : Entry → Option Comment
  | .statement _ => none
  | .comment c => some c

/-- Where the entry starts. -/
def start : Entry → Nat
  | .statement n => n.span.start
  | .comment c => c.loc.start.toNat

/-- The entry's node. -/
def node (source : Text) : Entry → Node
  | .statement n => n
  | .comment c => Lowering.comment source c

lemma start_node (source : Text) (e : Entry) : (e.node source).span.start = e.start := by
  cases e with
  | statement n => rfl
  | comment c => rfl

/-- The second entry does not have to come before the first: it starts later, or at the same offset and is not a
comment behind a statement. -/
def Before (a b : Entry) : Prop :=
  a.start < b.start ∨ a.start = b.start ∧ ¬(a.statement?.isSome ∧ b.comment?.isSome)

instance (a b : Entry) : Decidable (a.Before b) := inferInstanceAs (Decidable (_ ∨ _))

lemma before_statements {m n : Node} : (statement m).Before (.statement n) ↔ m.span.start ≤ n.span.start := by
  simp [Before, start, comment?, Nat.le_iff_lt_or_eq]

lemma before_comments {c d : Comment} : (comment c).Before (.comment d) ↔ c.loc.start ≤ d.loc.start := by
  simp [Before, start, statement?, UInt32.le_iff_toNat_le, Nat.le_iff_lt_or_eq]

lemma comment_before_statement : (comment c).Before (.statement n) ↔ ¬n.span.start < c.loc.start.toNat := by
  simp [Before, start, statement?, Nat.le_iff_lt_or_eq]

lemma Before.start_le {a b : Entry} (h : a.Before b) : a.start ≤ b.start := by
  rcases h with hlt | ⟨heq, -⟩
  · exact Nat.le_of_lt hlt
  · exact Nat.le_of_eq heq

lemma Before.trans {a b c : Entry} (h : a.Before b) (h' : b.Before c) : a.Before c := by
  rcases h with hlt | ⟨heq, htie⟩
  · exact .inl (Nat.lt_of_lt_of_le hlt h'.start_le)
  rcases h' with hlt' | ⟨heq', htie'⟩
  · exact .inl (heq ▸ hlt')
  refine .inr ⟨heq.trans heq', fun ⟨hstatement, hcomment⟩ => ?_⟩
  -- whatever the entry between them is, one of the two ties is the wrong way round
  cases b with
  | statement n => exact htie' ⟨rfl, hcomment⟩
  | comment d => exact htie ⟨hstatement, rfl⟩

lemma before_total (a b : Entry) : a.Before b ∨ b.Before a := by
  rcases Nat.lt_trichotomy a.start b.start with hlt | heq | hlt
  · exact .inl (.inl hlt)
  · cases a with
    | statement m =>
      refine .inr (.inr ⟨heq.symm, fun ⟨_, hcomment⟩ => ?_⟩)
      cases hcomment
    | comment c =>
      refine .inl (.inr ⟨heq, fun ⟨hstatement, _⟩ => ?_⟩)
      cases hstatement
  · exact .inr (.inl hlt)

end Entry

/-- The comments and the statements of a body, merged. -/
def entries (comments : List Comment) (body : List Node) : List Entry :=
  (comments.map .comment).merge (body.map .statement) fun a b => decide (a.Before b)

lemma entries_nil (body : List Node) : entries [] body = body.map .statement := nil_merge _

lemma entries_nil_right (comments : List Comment) : entries comments [] = comments.map .comment := merge_right _

lemma entries_cons_of_ahead (h : n.span.start < c.loc.start.toNat) (rest : List Comment)
    (body : List Node) : entries (c :: rest) (n :: body) = .statement n :: entries (c :: rest) body := by
  have hnot : ¬(Entry.comment c).Before (.statement n) := fun hbefore => Entry.comment_before_statement.1 hbefore h
  rw [entries, map_cons, map_cons, cons_merge_cons, if_neg (by simpa using hnot), entries, map_cons]

lemma entries_cons_of_not_ahead (h : ¬n.span.start < c.loc.start.toNat)
    (rest : List Comment) (body : List Node) :
    entries (c :: rest) (n :: body) = .comment c :: entries rest (n :: body) := by
  have hbefore : (Entry.comment c).Before (.statement n) := Entry.comment_before_statement.2 h
  rw [entries, map_cons, map_cons, cons_merge_cons, if_pos (by simpa using hbefore), entries, map_cons]

/-! ## Placing comments is merging -/

lemma interleave_cons_of_ahead (source : Text) (h : n.span.start < c.loc.start.toNat)
    (rest : List Comment) (body : List Node) :
    interleave source (c :: rest) (n :: body) = n :: interleave source (c :: rest) body := by
  simp [interleave, h]

lemma interleave_cons_of_not_ahead (source : Text)
    (h : ¬n.span.start < c.loc.start.toNat) (rest : List Comment) (body : List Node) :
    interleave source (c :: rest) (n :: body) = comment source c :: interleave source rest (n :: body) := by
  simp [interleave, h]

/-- Going through the statements once for each comment comes to one pass over both lists. -/
lemma interleave_eq_map_entries (source : Text) (comments : List Comment) (body : List Node) :
    interleave source comments body = (entries comments body).map (Entry.node source) := by
  induction comments generalizing body with
  | nil =>
    rw [interleave, entries_nil, map_map]
    exact (map_id body).symm
  | cons c rest ih =>
    induction body with
    | nil =>
      have hrest := ih []
      rw [entries_nil_right] at hrest ⊢
      simp [interleave, hrest, Entry.node]
    | cons n body ihBody =>
      by_cases h : n.span.start < c.loc.start.toNat
      · rw [interleave_cons_of_ahead source h, entries_cons_of_ahead h, map_cons, ihBody, Entry.node]
      · rw [interleave_cons_of_not_ahead source h, entries_cons_of_not_ahead h, map_cons, ih, Entry.node]

/-! ## What a merge keeps -/

/-- The statements and the comments of a merged body are the lists that were merged. -/
lemma filterMap_entries (comments : List Comment) (body : List Node) :
    (entries comments body).filterMap Entry.statement? = body ∧
      (entries comments body).filterMap Entry.comment? = comments := by
  induction comments generalizing body with
  | nil => simp [entries_nil, Entry.statement?, Entry.comment?, Function.comp_def]
  | cons c rest ih =>
    induction body with
    | nil => simp [entries_nil_right, Entry.statement?, Entry.comment?, Function.comp_def]
    | cons n body ihBody =>
      by_cases h : n.span.start < c.loc.start.toNat
      · obtain ⟨hstatements, hcomments⟩ := ihBody
        rw [entries_cons_of_ahead h]
        exact ⟨congrArg (n :: ·) hstatements, hcomments⟩
      · obtain ⟨hstatements, hcomments⟩ := ih (n :: body)
        rw [entries_cons_of_not_ahead h]
        exact ⟨hstatements, congrArg (c :: ·) hcomments⟩

lemma pairwise_entries {comments : List Comment} {body : List Node}
    (hbody : body.Pairwise fun m n => m.span.start ≤ n.span.start)
    (hcomments : comments.Pairwise fun c d => c.loc.start ≤ d.loc.start) :
    (entries comments body).Pairwise Entry.Before := by
  have hmerged : (entries comments body).Pairwise fun a b => decide (a.Before b) := by
    refine pairwise_merge ?_ ?_ _ _ ?_ ?_
    · intro a b c hab hbc
      exact decide_eq_true ((of_decide_eq_true hab).trans (of_decide_eq_true hbc))
    · intro a b
      simpa using Entry.before_total a b
    · rw [pairwise_map]
      exact hcomments.imp fun h => decide_eq_true (Entry.before_comments.2 h)
    · rw [pairwise_map]
      exact hbody.imp fun h => decide_eq_true (Entry.before_statements.2 h)
  exact hmerged.imp of_decide_eq_true

/-- Placing comments merges them into the statements. The body that comes out is made of entries: the statements are
those of the body that went in, each once and in their order, and the comments are those of the document. If both
were in the order of their start offsets, so is the result, and of a comment and a statement that start at the same
offset the comment comes first. -/
theorem interleave_merges (source : Text) (comments : List Comment) (body : List Node) :
    ∃ es : List Entry, interleave source comments body = es.map (Entry.node source) ∧
      es.filterMap Entry.statement? = body ∧ es.filterMap Entry.comment? = comments ∧
      ((body.Pairwise fun m n => m.span.start ≤ n.span.start) →
        (comments.Pairwise fun c d => c.loc.start ≤ d.loc.start) →
        ((interleave source comments body).Pairwise fun m n => m.span.start ≤ n.span.start) ∧
          es.Pairwise fun a b => a.start = b.start → ¬(a.statement?.isSome = true ∧ b.comment?.isSome = true)) := by
  obtain ⟨hstatements, hplaced⟩ := filterMap_entries comments body
  refine ⟨entries comments body, interleave_eq_map_entries source comments body, hstatements, hplaced, ?_⟩
  intro hbody hcomments
  have hsorted := pairwise_entries hbody hcomments
  constructor
  · rw [interleave_eq_map_entries, pairwise_map]
    refine hsorted.imp fun hbefore => ?_
    rw [Entry.start_node, Entry.start_node]
    exact hbefore.start_le
  · refine hsorted.imp fun hbefore heq => ?_
    exact (hbefore.resolve_left (Nat.lt_irrefl _ <| heq ▸ ·)).2

/-- A comment in front of everything, and one that starts where a statement does. -/
theorem interleave_merges_tied :
    (interleave [] [⟨0, ⟨1, 2⟩⟩, ⟨0, ⟨5, 2⟩⟩] [.nil ⟨3, 4⟩, .nil ⟨5, 6⟩, .nil ⟨9, 10⟩]).map
        (fun n => (n.span.start, n.isComment)) = [(1, true), (3, false), (5, true), (5, false), (9, false)] ∧
      (interleave [] [⟨0, ⟨1, 2⟩⟩, ⟨0, ⟨5, 2⟩⟩] [.nil ⟨3, 4⟩, .nil ⟨5, 6⟩, .nil ⟨9, 10⟩]).Pairwise
        fun m n => m.span.start ≤ n.span.start := by
  obtain ⟨es, -, -, -, hsorted⟩ :=
    interleave_merges [] [⟨0, ⟨1, 2⟩⟩, ⟨0, ⟨5, 2⟩⟩] [.nil ⟨3, 4⟩, .nil ⟨5, 6⟩, .nil ⟨9, 10⟩]
  exact ⟨by decide, (hsorted (by decide) (by decide)).1⟩

end Transpiler.Wire.Lowering
