import Mathlib.Algebra.Order.Group.Nat
import Transpiler.Syntax.Grammar

/-!
# Formulas and how tightly their operators bind

A formula is made of operands, parentheses and infix operators. Of the formulas written with the same words one is
ordered: every operator that is not in parentheses binds as its place in the tree demands (`Formula.Ordered`). It is
made by adding one operand after the other at the right end (`Formula.arranged`), and there is no other: reading by
binding power (`Formula.Reads`) finds every ordered tree, and it finds only one.
-/

namespace Transpiler

namespace Formula

/-- An infix operator and how tightly it binds. -/
structure Operator where
  text : Text
  power : Nat
  power_eq : Grammar.bindingPower? text = some power

/-- An operand of one word: an integer, or a name that is not reserved. -/
inductive Atom where
  | integer (n : Nat) (h : n < 2 ^ 63)
  | name (word : Text) (h : Lexer.isName word ∧ Lexer.keywords.contains word = false)

/-- The words of a formula. -/
inductive Word where
  | atom (a : Atom)
  | opening
  | closing
  | operator (op : Operator)

end Formula

/-- Formulas, with their groups. -/
inductive Formula where
  | atom (a : Formula.Atom)
  | group (inner : Formula)
  | joined (left : Formula) (op : Formula.Operator) (right : Formula)

namespace Formula

/-- The formula as words. -/
def words : Formula → List Word
  | .atom a => [.atom a]
  | .group inner => .opening :: (inner.words ++ [.closing])
  | .joined left op right => left.words ++ .operator op :: right.words

lemma words_ne_nil (e : Formula) : e.words ≠ [] := by
  cases e <;> simp [words]

/-! ## Operators -/

namespace Operator

/-- Whether an operator associates to the right. -/
def OfRight (op : Operator) : Prop := op.text = "**"

instance (op : Operator) : Decidable op.OfRight := inferInstanceAs (Decidable (op.text = _))

/-- Whether `op` may be the operator of the left operand of `parent`, without parentheses. -/
def LeftOf (op parent : Operator) : Prop :=
  if parent.OfRight then parent.power < op.power else parent.power ≤ op.power

/-- Whether `op` may be the operator of the right operand of `parent`, without parentheses. -/
def RightOf (op parent : Operator) : Prop :=
  if parent.OfRight then parent.power ≤ op.power else parent.power < op.power

/-- The power that operators of the right operand must exceed. -/
def rightPower (op : Operator) : Nat := Grammar.rightPower op.text op.power

lemma power_cases (op : Operator) : (op.OfRight ∧ op.power = 80) ∨ (¬ op.OfRight ∧ 0 < op.power ∧ op.power < 80) := by
  obtain ⟨text, power, h⟩ := op
  by_cases htext : text = "**"
  · left
    subst htext
    exact ⟨rfl, (Option.some.inj h).symm⟩
  · have hentry : ∀ (c : Bool) (n : Nat) (others : Option Nat), 0 < n ∧ n < 80 → (∀ p ∈ others, 0 < p ∧ p < 80) →
        ∀ p ∈ if c then some n else others, 0 < p ∧ p < 80 := by
      intro c n others hn hothers
      cases c with
      | true => simpa using hn
      | false => exact hothers
    have htable : ∀ p ∈ Grammar.bindingPower? text, 0 < p ∧ p < 80 := by
      rw [Grammar.bindingPower?]
      iterate 10 refine hentry _ _ _ (by decide) ?_
      rw [if_neg (by simpa using htext)]
      nofun
    exact .inr ⟨htext, htable power h⟩

lemma power_pos (op : Operator) : 0 < op.power := by
  obtain h | h := op.power_cases <;> omega

lemma rightPower_cases (op : Operator) :
    (op.OfRight ∧ op.power = 80 ∧ op.rightPower = 79) ∨
      (¬ op.OfRight ∧ 0 < op.power ∧ op.power < 80 ∧ op.rightPower = op.power) := by
  rw [rightPower, Grammar.rightPower]
  obtain ⟨hright, hpower⟩ | ⟨hright, hpos, hlt⟩ := op.power_cases
  · exact .inl ⟨hright, hpower, by rw [if_pos (beq_iff_eq.2 hright), hpower]⟩
  · exact .inr ⟨hright, hpos, hlt, if_neg (mt beq_iff_eq.1 hright)⟩

lemma leftOf_iff {op parent : Operator} : op.LeftOf parent ↔ parent.power ≤ op.rightPower := by
  rw [LeftOf]
  obtain ⟨hright, _⟩ | ⟨hright, _⟩ := parent.rightPower_cases
  · -- no operator binds more tightly than this one, so neither side can hold
    rw [if_pos hright]
    obtain h | h := op.rightPower_cases <;> omega
  · rw [if_neg hright]
    obtain h | h := op.rightPower_cases <;> omega

lemma rightOf_iff {op parent : Operator} : op.RightOf parent ↔ parent.rightPower < op.power := by
  rw [RightOf]
  obtain ⟨hright, _⟩ | ⟨hright, _⟩ := parent.rightPower_cases
  · rw [if_pos hright]
    omega
  · rw [if_neg hright]
    omega

lemma rightPower_le {op parent : Operator} (h : parent.rightPower < op.power) : parent.rightPower ≤ op.rightPower := by
  obtain h' | h' := op.rightPower_cases <;> omega

lemma rightPower_le_power (op : Operator) : op.rightPower ≤ op.power := by
  obtain h | h := op.rightPower_cases <;> omega

end Operator

/-! ## Ordered trees -/

/-- The operator at the top of a tree. -/
def outermost : Formula → Option Operator
  | .joined _ op _ => some op
  | .atom _ | .group _ => none

/-- Every operator that is not in parentheses binds as tightly as its place demands. -/
def Ordered : Formula → Prop
  | .atom _ => True
  | .group inner => inner.Ordered
  | .joined left op right => left.Ordered ∧ right.Ordered ∧
    (∀ o ∈ left.outermost, o.LeftOf op) ∧ ∀ o ∈ right.outermost, o.RightOf op

/-- The tree with an operator and an operand added at its right end. -/
def extend : Formula → Operator → Formula → Formula
  | .joined left o right, op, operand =>
    if op.power ≤ o.rightPower then .joined (.joined left o right) op operand
    else .joined left o (right.extend op operand)
  | t, op, operand => .joined t op operand

/-- The operand behind what stands before it. -/
def behind : Option (Formula × Operator) → Formula → Formula
  | none, operand => operand
  | some (t, op), operand => t.extend op operand

/-- The tree for the words of a formula behind what stands before them: the operands are added one by one. -/
def arranged : Option (Formula × Operator) → Formula → Formula
  | before, .atom a => behind before (.atom a)
  | before, .group inner => behind before (.group (arranged none inner))
  | before, .joined left op right => arranged (some (arranged before left, op)) right

lemma words_extend (t : Formula) (op : Operator) (operand : Formula) :
    (t.extend op operand).words = t.words ++ .operator op :: operand.words := by
  induction t with
  | atom | group => rfl
  | joined left o right _ ih =>
    rw [extend]
    split
    · rfl
    · simp [words, ih]

lemma outermost_extend (t : Formula) (op : Operator) (operand : Formula) :
    (t.extend op operand).outermost = some op ∨ (t.extend op operand).outermost = t.outermost := by
  cases t with
  | atom | group => exact .inl rfl
  | joined left o right =>
    rw [extend]
    split
    · exact .inl rfl
    · exact .inr rfl

lemma ordered_extend {op : Operator} {operand t : Formula} (ht : t.Ordered) (hoperand : operand.Ordered)
    (hnone : operand.outermost = none) : (t.extend op operand).Ordered := by
  induction t with
  | atom | group => exact ⟨ht, hoperand, by simp [outermost], by simp [hnone]⟩
  | joined left o right _ ih =>
    obtain ⟨hleft, hright, hl, hr⟩ := ht
    rw [extend]
    split
    · next hle =>
      refine ⟨⟨hleft, hright, hl, hr⟩, hoperand, ?_, by simp [hnone]⟩
      simpa [outermost] using Operator.leftOf_iff.2 hle
    · next hlt =>
      -- the operator goes into the right operand, and may come out at the top of it
      refine ⟨hleft, ih hright, hl, fun o' ho' => ?_⟩
      obtain htop | htop := outermost_extend right op operand
      · obtain rfl : op = o' := by simpa [htop] using ho'
        exact Operator.rightOf_iff.2 (by omega)
      · exact hr o' (htop ▸ ho')

/-- What precedes an operand. -/
def leading : Option (Formula × Operator) → List Word
  | none => []
  | some (t, op) => t.words ++ [.operator op]

lemma words_behind (before : Option (Formula × Operator)) (operand : Formula) :
    (behind before operand).words = leading before ++ operand.words := by
  obtain _ | ⟨t, op⟩ := before
  · rfl
  · simp [behind, leading, words_extend]

lemma ordered_behind {before : Option (Formula × Operator)} {operand : Formula}
    (hbefore : ∀ x ∈ before, x.1.Ordered) (hoperand : operand.Ordered) (hnone : operand.outermost = none) :
    (behind before operand).Ordered := by
  obtain _ | ⟨t, op⟩ := before
  · exact hoperand
  · exact ordered_extend (hbefore _ rfl) hoperand hnone

lemma words_arranged (before : Option (Formula × Operator)) (e : Formula) :
    (arranged before e).words = leading before ++ e.words := by
  induction e generalizing before with
  | atom a => exact words_behind before _
  | group inner ih =>
    rw [arranged, words_behind, words, ih]
    rfl
  | joined left op right ihl ihr =>
    rw [arranged, ihr, leading, ihl, words]
    simp

lemma ordered_arranged {before : Option (Formula × Operator)} (hbefore : ∀ x ∈ before, x.1.Ordered)
    (e : Formula) : (arranged before e).Ordered := by
  induction e generalizing before with
  | atom a => exact ordered_behind hbefore trivial rfl
  | group inner ih => exact ordered_behind hbefore (ih (by simp)) rfl
  | joined left op right ihl ihr =>
    refine ihr fun x hx => ?_
    obtain rfl := Option.some.inj hx
    exact ihl hbefore

/-! ## Reading by binding power -/

/-- Whether words can follow a complete operand that is read with operators above `least`: none of them can be
taken in. -/
def Stops (least : Nat) : List Word → Prop
  | [] | .closing :: _ => True
  | .operator op :: _ => op.power ≤ least
  | .atom _ :: _ | .opening :: _ => False

lemma Stops.mono {least least' : Nat} (hle : least ≤ least') {ws : List Word} (h : Stops least ws) :
    Stops least' ws := by
  match ws, h with
  | [], _ | .closing :: _, _ => trivial
  | .operator op :: _, h => exact Nat.le_trans h hle

/-- Reading by binding power. `Reads least none ws t k` says that from the words `ws` the tree `t` is read, with
operators that bind more tightly than `least`, and that the words `k` are left. `Reads least (some left) ws t k`
says the same when the tree `left` has been read already. -/
inductive Reads : Nat → Option Formula → List Word → Formula → List Word → Prop
  | atom {least : Nat} {a : Atom} {ws k : List Word} {t : Formula} :
      Reads least (some (.atom a)) ws t k → Reads least none (.atom a :: ws) t k
  | group {least : Nat} {inner t : Formula} {ws ws' k : List Word} :
      Reads Grammar.loosest none ws inner (.closing :: ws') → Reads least (some (.group inner)) ws' t k →
        Reads least none (.opening :: ws) t k
  | stop {least : Nat} {left : Formula} {ws : List Word} : Stops least ws → Reads least (some left) ws left ws
  | step {least : Nat} {op : Operator} {left right t : Formula} {ws ws' k : List Word} : least < op.power →
      Reads op.rightPower none ws right ws' → Reads least (some (.joined left op right)) ws' t k →
        Reads least (some left) (.operator op :: ws) t k

namespace Reads

variable {least : Nat} {left : Option Formula} {ws k : List Word} {t : Formula}

lemma length_le (h : Reads least left ws t k) : k.length ≤ ws.length := by
  induction h with
  | atom _ ih => exact Nat.le_succ_of_le ih
  | group _ _ ihinner ih =>
    simp only [List.length_cons] at ihinner ⊢
    omega
  | stop => exact Nat.le_refl _
  | step _ _ _ ihright ih =>
    simp only [List.length_cons]
    omega

lemma head_cases (h : Reads least none ws t k) : (∃ a rest, ws = .atom a :: rest) ∨ ∃ rest, ws = .opening :: rest := by
  cases h with
  | atom => exact .inl ⟨_, _, rfl⟩
  | group => exact .inr ⟨_, rfl⟩

lemma stops {l : Formula} (h : Reads least (some l) ws t k) : ∃ power, Stops power ws := by
  cases h with
  | stop hstops => exact ⟨least, hstops⟩
  | @step _ op => exact ⟨op.power, Nat.le_refl op.power⟩

lemma functional (h : Reads least left ws t k) {t' : Formula} {k' : List Word} (h' : Reads least left ws t' k') :
    t' = t ∧ k' = k := by
  induction h generalizing t' k' with
  | atom _ ih =>
    cases h' with
    | atom h' => exact ih h'
  | group _ _ ihinner ih =>
    cases h' with
    | group hinner h' =>
      obtain ⟨rfl, hws⟩ := ihinner hinner
      obtain rfl := (List.cons.inj hws).2
      exact ih h'
  | stop hstops =>
    cases h' with
    | stop => exact ⟨rfl, rfl⟩
    | step hlt => exact absurd hstops (Nat.not_le.2 hlt)
  | step hlt _ _ ihright ih =>
    cases h' with
    | stop hstops => exact absurd hstops (Nat.not_le.2 hlt)
    | step _ hright h' =>
      obtain ⟨rfl, rfl⟩ := ihright hright
      exact ih h'

/-- An ordered tree is read from its words, up to the point where it stands as a left operand, if its operators
bind tightly enough and what follows cannot be taken into it. -/
lemma of_ordered {t u : Formula} {k k' : List Word} (ht : t.Ordered)
    (habove : ∀ op ∈ t.outermost, least < op.power) (hstops : ∀ op ∈ t.outermost, Stops op.rightPower k)
    (h : Reads least (some t) k u k') : Reads least none (t.words ++ k) u k' := by
  induction t generalizing least k u k' with
  | atom a => exact .atom h
  | group inner ih =>
    have hinner : Reads Grammar.loosest none (inner.words ++ .closing :: k) inner (.closing :: k) :=
      ih ht (fun op _ => op.power_pos) (fun _ _ => trivial) (.stop trivial)
    simpa [words] using .group hinner h
  | joined left op right ihl ihr =>
    obtain ⟨hleft, hright, hl, hr⟩ := ht
    have hlt : least < op.power := habove op rfl
    have hk : Stops op.rightPower k := hstops op rfl
    have hread : Reads op.rightPower none (right.words ++ k) right k := by
      refine ihr hright (fun o ho => ?_) (fun o ho => ?_) (.stop hk)
      · exact Operator.rightOf_iff.1 (hr o ho)
      · exact hk.mono (Operator.rightPower_le (Operator.rightOf_iff.1 (hr o ho)))
    -- the left operand is read first; behind it the operator is taken in with all of the right operand
    rw [words, List.append_assoc, List.cons_append]
    refine ihl hleft (fun o ho => ?_) (fun o ho => ?_) (.step hlt hread h)
    · have hle := Operator.leftOf_iff.1 (hl o ho)
      have := o.rightPower_le_power
      omega
    · exact Operator.leftOf_iff.1 (hl o ho)

end Reads

lemma Ordered.reads {t : Formula} (ht : t.Ordered) : Reads Grammar.loosest none t.words t [] := by
  have h : Reads Grammar.loosest none (t.words ++ []) t [] :=
    .of_ordered ht (fun op _ => op.power_pos) (fun _ _ => trivial) (.stop trivial)
  rwa [List.append_nil] at h

/-- The words of a formula have an ordered tree and no other. -/
lemma existsUnique_ordered (e : Formula) : ∃! t : Formula, t.words = e.words ∧ t.Ordered := by
  have hwords : (arranged none e).words = e.words := words_arranged none e
  have hordered : (arranged none e).Ordered := ordered_arranged (by simp) e
  refine ⟨arranged none e, ⟨hwords, hordered⟩, fun t ⟨hwords', ht⟩ => ?_⟩
  have hread := hordered.reads
  rw [hwords, ← hwords'] at hread
  exact (hread.functional ht.reads).1

end Formula

end Transpiler
