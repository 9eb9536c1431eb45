import Transpiler.Proofs.Script.Edges

/-!
# Which operands are delimited

An operand is delimited if it has no assignment and no conditional outside its brackets: then what stands beside it
takes in all of it. Some nodes get parentheses for this, but an assignment to a property or an element gets none, nor
does a conditional that is the condition of another, nor anything that a sequence of one expression stands for. What
is rendered at a place is delimited exactly if the edges of its node say so (`isDelimited_placed`).
-/

namespace Transpiler.Script

open List

/-! ## Places -/

/-- Whether a text has no assignment and no conditional outside its brackets. -/
def isDelimited (t : Text) : Bool := (Js.pieces t).any fun ls => !(Js.exposed 0 ls).any Js.Lexeme.isLoose

example : isDelimited "a.b === (c ? d : e)" = true := by decide
example : isDelimited "a.b = 1" = false := by decide

/-- The places where an expression has to be delimited. -/
inductive Place where
  /-- Beside an operator. -/
  | operand
  /-- In front of a property or an element. -/
  | receiver
  /-- The delay of a timer. -/
  | delay
  /-- In front of the question mark of a conditional, which may be negated. -/
  | condition (negated : Bool)
deriving DecidableEq, Repr

namespace Place

/-- What is rendered at a place, from the expression of the node. -/
def text (o : Options) (depth : Nat) (n : Node) (e : Expr) : Place → Text
  | .operand => (grouped n e).text o.indent depth
  | .receiver => receiverText ((grouped n e).text o.indent depth)
  | .delay => (delayOf n e).text o.indent depth
  | .condition negated => (conditionOf n negated e).text o.indent depth

/-- Whether what is rendered at a place has an assignment or a conditional outside its brackets. -/
def leaks (o : Options) (n : Node) : Place → Bool
  | .operand | .delay => ((edges o n).grouped (isEnclosed o n)).loose
  | .receiver => ((edges o n).grouped (isEnclosed o n)).received.loose
  | .condition negated => (if negated then (edges o n).grouped (isEnclosed o n) else edges o n).loose

end Place

/-- The nodes that a call of this form renders at such places. -/
def Form.placements (receiver : Node) (name : Text) (arguments : List Node) : Form → List (Place × Node)
  | .plain => if name == "wait" && arguments.length == 1 then arguments.map (.delay, ·) else []
  | .operator => (receiver :: arguments).map (.operand, ·)
  | .construct => []
  | .index | .method _ | .setter _ | .indexSetter => [(.receiver, receiver)]

/-- The nodes that a node renders at such places. -/
def placements (o : Options) : Node → List (Place × Node)
  | .cond _ condition negated consequence alternative =>
    (.condition negated, condition) :: (consequence ++ alternative).map (.operand, ·)
  | .call _ receiver name arguments blk => (form o receiver name arguments blk).placements receiver name arguments
  | _ => []

/-- Whether what a node has verbatim in the code is cut like code: the comment for the tag of a construct without a
representation is on one line, and the operator of an assignment is one of those that go with it. -/
def isLexical : Node → Bool
  | .unknown _ tag _ => Js.isOneLine (commentText tag)
  | .assignment _ _ _ operator _ => operator.isEmpty || Grammar.compound? (operator ++ "=") == some operator
  | _ => true

lemma alike_lexical {n : Node} (h : ∀ m ∈ n.walk fun _ => true, isLexical m) : n.Alike lexical n := by
  refine Node.alike_self n fun m hm => ?_
  have hlexical := h m hm
  cases m with
  | unknown => exact hlexical
  | assignment => simpa [isLexical, lexical, spelled, Likeness.Admits] using hlexical
  | _ => trivial

/-! ## What is rendered at a place -/

lemma Js.Reads.isDelimited {t : Text} {loose : Bool} {last : Js.Lexeme} (h : Js.Reads t loose last) :
    Script.isDelimited t = !loose := by
  obtain ⟨ls, hcuts, -, hloose⟩ := h.cuts
  rw [Js.Cuts] at hcuts
  rw [Script.isDelimited, Js.pieces, hcuts, Option.map_some, Option.any_some, Js.piece_of_isEnd h.isEnd, hloose]

lemma Edged.isDelimited {t : Text} {x : Edges} (h : Edged t x) : Script.isDelimited t = !x.loose := by
  obtain ⟨last, hreads, -⟩ := h.reads
  exact hreads.isDelimited

section Places

variable {o : Options} {depth : Nat} {n m : Node} {e r : Expr}

lemma isDelimited_delayOf (h : Edged (r.text o.indent depth) (edges o m)) :
    isDelimited ((delayOf m r).text o.indent depth) = !((edges o m).grouped (isEnclosed o m)).loose := by
  have htimes : isDelimited ((Expr.binary (grouped m r) "*" (.integer 1000)).text o.indent depth)
      = !((edges o m).grouped (isEnclosed o m)).loose := by
    have hproduct := (h.grouped o m).binary (p := "*") (by decide) (by decide) (edged_integer 1000)
    rw [← Bool.or_false (Edges.loose _)]
    exact hproduct.isDelimited
  -- the delay of a literal is a literal again, and that of anything else is a product
  have hliteral : ∀ needed {whole minus}, (Edges.grouped needed ⟨false, whole, minus⟩).loose = false := by
    intro needed whole minus
    cases needed <;> rfl
  cases m with
  | integer _ v =>
    rw [edges, hliteral]
    exact (edged_integer (v * 1000)).isDelimited
  | float _ x =>
    obtain ⟨last, hreads⟩ := exists_reads_of_isSigned (isSigned_floatInFull (x.scale 1000))
    rw [edges, hliteral]
    exact hreads.isDelimited
  | _ => exact htimes

/-- Whatever is rendered at a place is delimited unless its edges leak. -/
lemma isDelimited_text (h : Edged (r.text o.indent depth) (edges o m)) (p : Place) :
    isDelimited (p.text o depth m r) = !p.leaks o m := by
  cases p with
  | operand => exact (h.grouped o m).isDelimited
  | receiver => exact (h.grouped o m).receiverText.isDelimited
  | delay => exact isDelimited_delayOf h
  | condition negated =>
    have hcondition := (edged_conditionOf o h m negated).isDelimited
    cases negated with
    | false => exact hcondition
    | true => exact hcondition

/-- A node stands in a text as it is rendered at a place. -/
def Stands (o : Options) (p : Place) (m : Node) (e : Expr) : Prop :=
  ∃ r, Yields o m r ∧ ∀ depth, p.text o depth m r <:+: e.text o.indent depth

/-- The delay of a timer is the last argument of its call. -/
lemma stands_delay (o : Options) (span : Span) (seconds blk : Node) :
    Gives (expr o (.call span .absent "wait" [seconds] blk)) (Stands o .delay seconds) := by
  rw [expr_call_absent, if_neg (by decide), if_neg (by decide), if_pos (by decide)]
  refine (gives_yields o seconds).bind fun d hd => (Gives.any _).bind fun fs _ => .pure ⟨d, hd, fun depth => ?_⟩
  have hjoin : ∀ t u : Text, Text.join ", " [t, u] = t ++ ", " ++ u := by
    intro t u
    simp [Text.join, List.intercalate]
  rw [Expr.text, Expr.texts, Expr.texts, Expr.texts, hjoin]
  exact ((suffix_append _ _).isInfix.trans (suffix_append _ _).isInfix).trans (prefix_append _ _).isInfix

variable {p : Place}

/-- The condition and the branches of a conditional stand in what it becomes. -/
lemma Chosen.stands {span : Span} {condition : Node} {negated : Bool} {consequence alternative : List Node}
    (h : Chosen o condition negated consequence alternative e)
    (hp : (p, m) ∈ placements o (.cond span condition negated consequence alternative)) : Stands o p m e := by
  have hcondition : ∀ {c t u}, Yields o condition c →
      Stands o (.condition negated) condition (.conditional (conditionOf condition negated c) t u) := by
    intro c t u hc
    refine ⟨c, hc, fun depth => ?_⟩
    simp only [Expr.text, append_assoc]
    exact (prefix_append _ _).isInfix
  have hconsequence : ∀ {c t n u}, Yields o n t → Stands o .operand n (.conditional c (grouped n t) u) := by
    intro c t n u ht
    refine ⟨t, ht, fun depth => ⟨c.text o.indent depth ++ " ? ", " : " ++ u.text o.indent depth, ?_⟩⟩
    simp only [Expr.text, Place.text, append_assoc]
  cases h with
  | @single t _ _ hc ht =>
    obtain ⟨rfl, rfl⟩ | ⟨rfl, rfl⟩ : p = .condition negated ∧ m = condition ∨ p = .operand ∧ m = t := by
      simpa [placements] using hp
    · exact hcondition hc
    · exact hconsequence ht
  | @both t u _ _ _ hc ht hu =>
    obtain ⟨rfl, rfl⟩ | ⟨rfl, rfl⟩ | ⟨rfl, rfl⟩ :
        p = .condition negated ∧ m = condition ∨ p = .operand ∧ m = t ∨ p = .operand ∧ m = u := by
      simpa [placements] using hp
    · exact hcondition hc
    · exact hconsequence ht
    · exact ⟨_, hu, fun depth => (suffix_append _ _).isInfix⟩

variable {arguments : List Node} {receiver : Node}

/-- The operands and the receiver of a call stand in what it becomes. -/
lemma Called.stands {name : Text} {f : Form} (h : Called o receiver name arguments f e) (hf : f ≠ .plain)
    (hp : (p, m) ∈ f.placements receiver name arguments) : Stands o p m e := by
  cases h with
  | plain => exact absurd rfl hf
  | unary hnil _ hr =>
    subst hnil
    obtain ⟨rfl, rfl⟩ : p = .operand ∧ m = receiver := by simpa [Form.placements] using hp
    exact ⟨_, hr, fun depth => (suffix_append _ _).isInfix⟩
  | @binary op a r x hsingle _ hr ha =>
    subst hsingle
    obtain ⟨rfl, rfl⟩ | ⟨rfl, rfl⟩ : p = .operand ∧ m = receiver ∨ p = .operand ∧ m = a := by
      simpa [Form.placements] using hp
    · refine ⟨_, hr, fun depth => ?_⟩
      simp only [Expr.text, append_assoc]
      exact (prefix_append _ _).isInfix
    · exact ⟨_, ha, fun depth => (suffix_append _ _).isInfix⟩
  | construct => cases hp
  | index _ hr _ | method hr _ | setter _ hr _ | indexSetter _ hr _ _ =>
    obtain ⟨rfl, rfl⟩ : p = .receiver ∧ m = receiver := by simpa [Form.placements] using hp
    refine ⟨_, hr, fun depth => ?_⟩
    simp only [Expr.text, append_assoc]
    exact (prefix_append _ _).isInfix

lemma eq_absent_of_form_eq_plain {name : Text} {blk : Node}
    (h : form o receiver name arguments blk = .plain) : receiver = .absent := by
  have hmethod : methodForm name arguments ≠ .plain := by
    unfold methodForm
    grind
  cases habsent : receiver.isAbsent with
  | true => cases receiver <;> first | rfl | cases habsent
  | false =>
    rw [form, if_neg (by simp [habsent])] at h
    split_ifs at h
    exact absurd h hmethod

/-- A node stands in the text of its parent as it is rendered at its place. -/
lemma stands_of_mem_placements (ho : o.Regular) (hn : n.Alike lexical n) (hp : (p, m) ∈ placements o n) :
    Gives (expr o n) (Stands o p m) := by
  cases n with
  | cond span condition negated consequence alternative =>
    intro s e s' hrun
    exact (chosen_cond o span condition negated consequence alternative s e s' hrun).stands hp
  | call span receiver name arguments blk =>
    cases hn with
    | call _ _ hreceiver harguments hblk =>
      -- of the calls without receiver only a timer has a place, which its form does not tell
      by_cases hf : form o receiver name arguments blk = .plain
      · rw [placements, hf, Form.placements] at hp
        obtain rfl := eq_absent_of_form_eq_plain hf
        split_ifs at hp with hwait
        · obtain ⟨hname, hlength⟩ : name = "wait" ∧ arguments.length = 1 := by simpa using hwait
          obtain ⟨seconds, rfl⟩ := length_eq_one_iff.1 hlength
          obtain ⟨rfl, rfl⟩ : p = .delay ∧ m = seconds := by simpa using hp
          rw [hname]
          exact stands_delay o span m blk
        · cases hp
      · intro s e s' hrun
        exact (called_call ho span receiver name harguments hblk s e s' hrun).stands hf hp
  | _ => cases hp

lemma Form.mem_of_mem_placements {name : Text} {f : Form}
    (h : (p, m) ∈ f.placements receiver name arguments) : m ∈ receiver :: arguments := by
  cases f with
  | plain =>
    rw [Form.placements] at h
    split_ifs at h
    · obtain ⟨a, ha, heq⟩ := mem_map.1 h
      cases heq
      exact mem_cons_of_mem _ ha
    · cases h
  | operator =>
    obtain ⟨a, ha, heq⟩ := mem_map.1 h
    cases heq
    exact ha
  | construct => cases h
  | index | method | setter | indexSetter =>
    obtain ⟨-, rfl⟩ : p = .receiver ∧ m = receiver := by simpa [Form.placements] using h
    exact mem_cons_self

lemma alike_of_mem_placements (hn : n.Alike lexical n) (hp : (p, m) ∈ placements o n) : m.Alike lexical m := by
  cases hn with
  | cond _ _ hcondition hconsequence halternative =>
    have hbranches := rel_append hconsequence halternative
    rcases mem_cons.1 hp with heq | hbranch
    · cases heq
      exact hcondition
    · obtain ⟨a, ha, heq⟩ := mem_map.1 hbranch
      cases heq
      exact forall₂_same.1 hbranches m ha
  | call _ _ hreceiver harguments _ =>
    exact forall₂_same.1 (.cons hreceiver harguments) m (Form.mem_of_mem_placements hp)
  | _ => cases hp

/-- What is rendered at a place is delimited exactly if it does not leak. -/
theorem isDelimited_placed (ho : o.Regular) (hn : ∀ m ∈ n.walk fun _ => true, isLexical m = true)
    {s s' : Progress} (h : expr o n s = .ok e s') {p : Place} (hp : (p, m) ∈ placements o n) (depth : Nat) :
    ∃ r, Yields o m r ∧ p.text o depth m r <:+: e.text o.indent depth
      ∧ isDelimited (p.text o depth m r) = !p.leaks o m := by
  have halike := alike_lexical hn
  obtain ⟨r, hr, htext⟩ := stands_of_mem_placements ho halike hp s e s' h
  obtain ⟨s₁, s₂, hrun⟩ := hr
  have hedged := edged_expr ho m (alike_of_mem_placements halike hp) s₁ r s₂ hrun depth
  exact ⟨r, ⟨s₁, s₂, hrun⟩, htext depth, isDelimited_text hedged p⟩

/-- The property `d` of a choice between `b` and `c`. -/
def chosenProperty : Node :=
  .call .none
    (.cond .none (.var .none "a" .local) false [.var Span.none "b" .local] [.var Span.none "c" .local])
    "d" [] .absent

theorem isDelimited_placed_chosenProperty :
    ∃ e m r, (∀ s, expr .default chosenProperty s = .ok e s) ∧ (.receiver, m) ∈ placements .default chosenProperty
      ∧ Yields .default m r ∧ Place.receiver.text .default 0 m r <:+: e.text Options.default.indent 0
      ∧ isDelimited (Place.receiver.text .default 0 m r) = true := by
  have hlexical : ∀ m ∈ chosenProperty.walk fun _ => true, isLexical m = true := all_eq_true.1 (by decide)
  have hrun : ∀ s, expr .default chosenProperty s
      = .ok (.call (.member (.group (.conditional (.name "a") (.name "b") (.name "c"))) "d") []) s := fun _ => rfl
  obtain ⟨r, hr, htext, hdelimited⟩ :=
    isDelimited_placed Options.regular_default hlexical (hrun ⟨[], 0⟩) (mem_singleton.2 rfl) 0
  exact ⟨_, _, r, hrun, mem_singleton.2 rfl, hr, htext, hdelimited⟩

/-- The assignment of a node to the element `b` of `a`. -/
def elementAssignment (value : Node) : Node :=
  .call .none (.var .none "a" .local) "[]=" [.var Span.none "b" .local, value] .absent

/-- The sum of `n` and a local. -/
def sumWith (n : Node) : Node := .call .none n "+" [.var Span.none "d" .local] .absent

/-- An assignment to an element is not delimited as an operand: a sum with it has the code of the assignment of
a sum. -/
theorem not_isDelimited_elementAssignment :
    (∃ m r, (.operand, m) ∈ placements .default (sumWith (elementAssignment (.var Span.none "c" .local)))
      ∧ Yields .default m r ∧ isDelimited (Place.operand.text .default 0 m r) = false)
    ∧ (compile .default [sumWith (elementAssignment (.var Span.none "c" .local))]).lines
        = [Text.ofString "a[b] = c + d;"]
    ∧ (compile .default [elementAssignment (sumWith (.var Span.none "c" .local))]).lines
        = [Text.ofString "a[b] = c + d;"] := by
  have hrun : ∀ s, expr .default (elementAssignment (.var Span.none "c" .local)) s
      = .ok (.assign (.index (.name "a") (.name "b")) (.name "c")) s := fun _ => rfl
  refine ⟨⟨_, _, mem_cons_self, ⟨⟨[], 0⟩, _, hrun _⟩, ?_⟩, ?_⟩ <;> decide +kernel

end Places

end Transpiler.Script
