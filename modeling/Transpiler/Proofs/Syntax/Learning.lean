import Transpiler.Proofs.Syntax.Everywhere
import Transpiler.Proofs.Syntax.Lossless

/-!
# Names in a tree and in a text

Reading a line learns names of local variables on the way. The tree of a line is fine if all names that it binds are
known, and no name that was known before the line is called in it with arguments, unless a parenthesis follows the name
(`Node.Fine`). The last is about the bytes of the line, so a reading is told what text its tokens are written in
(`Token.Written`).
-/

namespace Transpiler

open List

/-- What a line is read from: its text, where that begins, and the names known before it. -/
structure Passage where
  base : Nat
  text : Text
  names : List Text

/-! ## Trees -/

namespace Node

/-- The names that a node makes local variables. -/
def bindings : Node → List Text
  | .assignment _ name .local _ _ => [name]
  | .block _ params _ | .method _ _ params _ => params
  | _ => []

/-- The names bound in a tree. -/
def allBindings (n : Node) : List Text := (n.walk fun _ => true).flatMap bindings

/-- The node is no call with arguments of a name known before, unless the name is followed by a parenthesis right
away. -/
def Heeds (x : Passage) : Node → Prop
  | .call span .absent name args _ =>
    name ∈ x.names → args = [] ∨ x.base ≤ span.start ∧ name ++ ("(" : Text) <+: x.text.drop (span.start - x.base)
  | _ => True

/-- All names that the tree binds are known, and no name known before is called in it without parentheses. -/
def Fine (x : Passage) (known : List Text) (n : Node) : Prop :=
  n.Everywhere fun m => m.bindings ⊆ known ∧ m.Heeds x

variable {x : Passage} {known known' : List Text} {n : Node}

lemma fine_absent : Fine x known .absent := everywhere_absent

lemma Fine.mono (h : n.Fine x known) (hsub : known ⊆ known') : n.Fine x known' := fun m hm =>
  ⟨List.Subset.trans (h m hm).1 hsub, (h m hm).2⟩

lemma fine_iff (hn : n.isAbsent = false) :
    n.Fine x known ↔ (n.bindings ⊆ known ∧ n.Heeds x) ∧ ∀ c ∈ n.children, c.Fine x known :=
  everywhere_iff hn

lemma Fine.children (h : n.Fine x known) : ∀ c ∈ n.children, c.Fine x known := by
  cases hn : n.isAbsent with
  | true =>
    rw [eq_absent_of_isAbsent hn]
    exact forall_mem_nil _
  | false => exact ((fine_iff hn).1 h).2

lemma Fine.node (hn : n.isAbsent = false) (hbindings : n.bindings ⊆ known) (hheeds : n.Heeds x)
    (hchildren : ∀ c ∈ n.children, c.Fine x known) : n.Fine x known :=
  (fine_iff hn).2 ⟨⟨hbindings, hheeds⟩, hchildren⟩

lemma Fine.leaf (hn : n.isAbsent = false) (hbindings : n.bindings = []) (hchildren : n.children = [])
    (hheeds : n.Heeds x) : n.Fine x known :=
  .node hn (hbindings ▸ nil_subset _) hheeds (hchildren ▸ forall_mem_nil _)

lemma Fine.allBindings_subset (h : n.Fine x known) : n.allBindings ⊆ known := by
  intro name hname
  obtain ⟨m, hm, hname⟩ := mem_flatMap.1 hname
  exact (h m hm).1 hname

end Node

/-! ## Tokens in a text -/

/-- The kinds of tokens that are made out by their bytes here: names, and operators such as a parenthesis. -/
def TokenKind.isLegible : TokenKind → Bool
  | .ident | .op => true
  | .eof | .const | .ivar | .gvar | .label | .int | .float | .string | .symbol | .keyword => false

/-- The token is written in the text, behind one that ends at `last`, and so is the code inside it. -/
structure Token.Written (x : Passage) (last : Nat) (t : Token) : Prop where
  base_le : x.base ≤ t.pos
  joined : t.spaced = false → t.pos = last
  legible : t.kind.isLegible → t.text <+: x.text.drop (t.pos - x.base) ∧ t.stop = t.pos + t.text.length
  code : ∀ p ∈ t.parts, p.isCode → x.base ≤ p.pos ∧ p.text <+: x.text.drop (p.pos - x.base)

/-- Tokens written one behind the other, up to one that ends the line. -/
def Token.WrittenFrom (x : Passage) : Nat → List Token → Prop
  | _, [] => False
  | last, t :: rest => t.Written x last ∧ (t.isEof ∨ WrittenFrom x t.stop rest)

namespace Lexer

lemma prefix_drop_add {a b text : Text} {k : Nat} (h : a ++ b <+: text.drop k) : b <+: text.drop (k + a.length) := by
  obtain ⟨rest, hrest⟩ := h
  refine ⟨rest, ?_⟩
  rw [← drop_drop, ← hrest, append_assoc, drop_left]

/-- The tokens of a piece of the text are written in the text. -/
lemma Cut.written {x : Passage} {offset : Nat} {s : Text} {tokens : List Token} (h : Cut offset s tokens)
    (hbase : x.base ≤ offset) (hs : s <+: x.text.drop (offset - x.base)) : Token.WrittenFrom x offset tokens := by
  have hjoined : ∀ {offset : Nat} {gap : Text}, (gap.length != 0) = false → offset + gap.length = offset := by
    intro offset gap hgap
    simp only [bne_eq_false_iff_eq] at hgap
    omega
  induction h with
  | @stop offset gap rest hgap hrest =>
    refine ⟨⟨Nat.le_add_right_of_le hbase, hjoined, fun h => ?_, forall_mem_nil _⟩, .inl rfl⟩
    cases h
  | @token offset gap rest c l more hgap hlexeme hmore ih =>
    have hfaithful := faithful_lexeme hlexeme
    have hextra := (inside_lexeme hlexeme).extra_le
    have hplace : offset - x.base + gap.length = offset + gap.length - x.base := by omega
    have hhere : c :: rest <+: x.text.drop (offset + gap.length - x.base) := by
      rw [← hplace]
      exact prefix_drop_add hs
    refine ⟨⟨Nat.le_add_right_of_le hbase, hjoined, fun hkind => ?_, fun p hp hcode => ?_⟩, .inr (ih ?_ ?_)⟩
    · have hspells : (c :: rest).take (l.extra + 1) = l.text := by
        have hspells := hfaithful.spells
        cases hk : l.kind with
        | ident => simpa [TokenKind.Spells, hk] using hspells
        | op => simpa [TokenKind.Spells, hk] using hspells
        | _ =>
          rw [hk] at hkind
          cases hkind
      have hlength : l.text.length = l.extra + 1 := by
        rw [← hspells, length_take, length_cons]
        omega
      have hstop : offset + gap.length + 1 + l.extra = offset + gap.length + l.text.length := by omega
      refine ⟨?_, hstop⟩
      rw [← hspells]
      exact (List.take_prefix _ _).trans hhere
    · obtain ⟨before, after, hsplit, hpos⟩ := hfaithful.code p hp hcode
      refine ⟨by omega, ?_⟩
      rw [hsplit] at hhere
      have hplace' : p.pos - x.base = offset + gap.length - x.base + before.length := by omega
      rw [hplace']
      exact (prefix_append _ after).trans (prefix_drop_add hhere)
    · omega
    · have hsplit : c :: rest = (c :: rest).take (l.extra + 1) ++ rest.drop l.extra := by
        rw [take_succ_cons, cons_append, take_append_drop]
      rw [hsplit] at hhere
      have hlater := prefix_drop_add hhere
      rw [length_take, length_cons, Nat.min_eq_left (by omega)] at hlater
      have hplace' : offset + gap.length + 1 + l.extra - x.base = offset + gap.length - x.base + (l.extra + 1) := by
        omega
      rwa [hplace']

end Lexer

end Transpiler
