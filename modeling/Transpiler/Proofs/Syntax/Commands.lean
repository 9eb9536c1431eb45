import Transpiler.Proofs.Syntax.Climbing

/-!
# Commands

A name that is no local variable, with a formula behind it and no parentheses around that, is a command: a call
whose one argument is the formula. The main result is `exists_parseLine_command`.
-/

namespace Transpiler

open Lexer

open Formula (Word Stops Reads)

/-- A call of `word` without receiver and block, whose one argument is as `shown` says. -/
def Node.Commands (word : Text) (shown : Node → Prop) (n : Node) : Prop :=
  ∃ span a, n = .call span .absent word [a] .absent ∧ shown a

lemma Lexer.nameKind_eq_ident {word : Text} (h : keywords.contains word = false)
    (hcapital : startsWith isCapital word = false) : nameKind word = .ident := by
  rw [nameKind, h, hcapital]
  rfl

lemma Cursor.Faces.spaced_next {c : Cursor} {w v : Word} {ws : List Word} (h : c.Faces (w :: v :: ws)) :
    c.next.current.spaced := by
  have hend := h.isEof_eq
  obtain ⟨current, ahead, lastEnd⟩ := c
  simp only at hend
  cases ahead with
  | nil => exact h.2.elim
  | cons t rest =>
    simp only [Cursor.next, hend]
    exact h.2.2.1

lemma Formula.Reads.kind_cases {least : Nat} {ws k : List Word} {t : Formula} (h : Reads least none ws t k)
    {locals : List Text} {s : Parsing} (hs : s.Faces locals ws) :
    s.cursor.current.kind = .int ∨ s.cursor.current.kind = .const ∨ s.cursor.current.kind = .ident ∨
      s.cursor.current.kind = .op ∧ s.cursor.current.text = "(" := by
  obtain ⟨a, rest, rfl⟩ | ⟨rest, rfl⟩ := h.head_cases
  · have hkind : s.cursor.current.kind = a.kind := hs.words.1.1
    rw [hkind]
    obtain ha | ha | ha := a.kind_cases
    · exact .inl ha
    · exact .inr (.inl ha)
    · exact .inr (.inr (.inl ha))
  · exact .inr (.inr (.inr hs.words.1))

/-- Takes a word and goes on at the next, behind a blank. -/
lemma Parse.take_bind_spaced {α : Type} {ok : α → Parsing → Prop} {f : Token → Parse α} {locals : List Text}
    {w v : Word} {ws : List Word} {s : Parsing} (h : s.Faces locals (w :: v :: ws))
    (hf : ∀ s', s'.Faces locals (v :: ws) → s'.cursor.current.spaced →
      (f s.cursor.current).Succeeds s' ok) : (advance >>= f).Succeeds s ok :=
  hf { s with cursor := s.cursor.next } ⟨h.words.next, h.locals_eq, h.loopHead_eq⟩ h.words.spaced_next

namespace Grammar

open Parse

variable {locals : List Text} {ws k : List Word} {s : Parsing} {least : Nat} {r : Rules} {t : Formula}

lemma stays_startsCommandArg_of_reads (h : Reads least none ws t k) (hs : s.Faces locals ws)
    (hspaced : s.cursor.current.spaced) : startsCommandArg.Stays s true := by
  refine peek_bind ?_
  rw [hspaced]
  obtain hkind | hkind | hkind | ⟨hkind, htext⟩ := h.kind_cases hs
  · rw [hkind]
    exact ⟨rfl, rfl⟩
  · rw [hkind]
    exact ⟨rfl, rfl⟩
  · rw [hkind]
    exact ⟨rfl, rfl⟩
  · rw [hkind, htext]
    exact ⟨rfl, rfl⟩

lemma stays_block (h : s.Faces locals ws) (hws : Stops least ws) : (block r).Stays s .absent := by
  refine peek_bind (.get_bind ?_)
  rw [h.isKeyword_eq_false hws "do" rfl, h.isOp_eq_false hws "\x7b" rfl (by decide)]
  exact ⟨rfl, rfl⟩

lemma succeeds_commandArgs {shown : Node → Prop} (hexpr : (r.expr loosest).Makes locals ws shown k)
    (hk : Stops least k) (hs : s.Faces locals ws) (hlabel : s.cursor.current.kind ≠ .label) (n : Nat) :
    (commandArgs r (n + 1) .empty).Succeeds s fun args s' =>
      (∃ a, args = [a] ∧ shown a) ∧ s'.Faces locals k := by
  have hargument : (argument r .empty).Succeeds s fun args s' =>
      (∃ a, args = ⟨[a], none⟩ ∧ shown a) ∧ s'.Faces locals k := by
    refine peek_bind ?_
    rw [if_neg (by simpa using hlabel)]
    refine (hexpr s hs).bind fun a s₁ ⟨ha, h₁⟩ => ?_
    exact (stays_takeOp (h₁.isOp_eq_false hk "=>" rfl (by decide))).bind ⟨⟨a, rfl, ha⟩, h₁⟩
  refine hargument.bind ?_
  rintro _ s₁ ⟨⟨a, rfl, ha⟩, h₁⟩
  exact (stays_takeOp (h₁.isOp_eq_false hk "," rfl (by decide))).bind ⟨⟨a, rfl, ha⟩, h₁⟩

/-- A name with a formula behind it takes the formula as its argument, unless it is known as a variable. -/
lemma succeeds_identifier (name : Token) (hlocals : locals.contains name.text = false)
    (hs : s.Faces locals ws) (hspaced : s.cursor.current.spaced) (hreads : Reads loosest none ws t k)
    (hk : Stops least k) (hexpr : (r.expr loosest).Yields locals ws t k) :
    (identifier r name).Succeeds s fun n s' => n.Commands name.text t.Shows ∧ s'.Faces locals k := by
  have hlabel : s.cursor.current.kind ≠ .label := by
    obtain hkind | hkind | hkind | ⟨hkind, -⟩ := hreads.kind_cases hs <;> simp [hkind]
  unfold identifier
  refine peek_bind (knows_bind ?_)
  extract_lets finish
  rw [hspaced, Bool.not_true, Bool.and_false, hs.locals_eq, hlocals]
  refine (stays_startsCommandArg_of_reads hreads hs hspaced).bind (budget_bind ?_)
  refine (succeeds_commandArgs hexpr hk hs hlabel _).bind ?_
  rintro _ s₁ ⟨⟨a, rfl, ha⟩, h₁⟩
  exact (stays_block h₁ hk).bind (spanFrom_bind ⟨⟨_, a, rfl, ha⟩, h₁⟩)

lemma makes_operand_command {word : Text}
    (hword : isName word ∧ keywords.contains word = false)
    (hcapital : startsWith isCapital word = false) (hlocals : locals.contains word = false)
    (hreads : Reads loosest none ws t k) (hk : Stops least k) (hexpr : (r.expr loosest).Yields locals ws t k) :
    (operand r).Makes locals (.atom (.name word hword) :: ws) (Node.Commands word t.Shows) k := by
  intro s hs
  have hkind : s.cursor.current.kind = .ident := hs.words.1.1.trans (nameKind_eq_ident hword.2 hcapital)
  have htext : s.cursor.current.text = word := hs.words.1.2
  obtain ⟨v, rest, rfl⟩ : ∃ v rest, ws = v :: rest := by
    obtain ⟨a, rest, rfl⟩ | ⟨rest, rfl⟩ := hreads.head_cases
    · exact ⟨_, _, rfl⟩
    · exact ⟨_, _, rfl⟩
  refine take_bind_spaced hs fun s₁ h₁ hspaced => ?_
  rw [hkind]
  have hcall := succeeds_identifier s.cursor.current (htext ▸ hlocals) h₁ hspaced hreads hk hexpr
  rwa [htext] at hcall

end Grammar

open Grammar in
/-- **A command is a call.** A line of a name that is no local variable and a formula calls the name with the
ordered tree of the formula. -/
lemma exists_parseLine_command {word : Text}
    (hword : isName word ∧ keywords.contains word = false)
    (hcapital : startsWith isCapital word = false) {locals : List Text}
    (hlocals : locals.contains word = false) {ws : List Word} {t : Formula} (hreads : Reads loosest none ws t [])
    (offset : Nat) : ∃ n, parseLine locals offset (word ++ Formula.spacedText ws) = (.ok n, locals) ∧
      n.Commands word t.Shows := by
  obtain ⟨tokens, hlex, hfaces⟩ := Formula.lex_words (.atom (.name word hword)) ws offset
  have hdepth := hfaces.le_depth
  rw [List.length_cons] at hdepth
  refine exists_parseLine_of_makes hlex hfaces ?_
  -- one level for the line's own expression, one for the argument
  obtain ⟨depth, hdepth'⟩ := Nat.exists_eq_add_of_le' (show 2 ≤ (Cursor.ofTokens tokens).depth by omega)
  rw [hdepth'] at hdepth ⊢
  have hexpr : ((Rules.upTo (depth + 1)).expr loosest).Yields locals ws t [] := hreads.followed depth (by omega)
  have hend : Stops loosest [] := trivial
  have hcommand := makes_operand_command hword hcapital hlocals hreads hend hexpr
  refine makes_line (makes_expr hcommand hend fun start n node hn hnode => ?_) fun s hs => ?_
  · obtain ⟨n, rfl⟩ := Nat.exists_eq_add_one_of_ne_zero (Nat.ne_zero_of_lt hn)
    exact makes_infixes_stop hend hnode start n
  · have hkind : s.cursor.current.kind = .ident := hs.words.1.1.trans (nameKind_eq_ident hword.2 hcapital)
    simp [hkind]

end Transpiler
