import Transpiler.Proofs.Syntax.Readings
import Transpiler.Syntax.Grammar

/-!
# What the rules of the grammar read

What is read inside a construct is read between its first token and the token last taken, so its place lies within
that of the construct. Names are learned in four places of the grammar and handed through all of it, also into
interpolations and out again. Both are carried through the rules together (`Parse.Reads`), first for rules that rest
on rules with this property, then for the rules tied to any depth.

`read_parseLine` says what comes out for a line. That places nest (`everywhere_parseLine`) is one part of it.
-/

namespace Transpiler

open List Node Nat Bool After

/-- The readings of the constructs that nest give nodes in their place, and remember all names. -/
structure Rules.Sound (x : Passage) (r : Rules) : Prop where
  expr : ∀ least ⦃hi s⦄, s.Ready x hi → (r.expr least).Reads x hi s.cursor.current.pos s
  statement : ∀ ⦃hi s⦄, s.Ready x hi → r.statement.Reads x hi s.cursor.current.pos s

namespace Grammar

open Parse

variable {x : Passage} {r : Rules} {hi start : Nat} {s s' : Parsing} {n : Node}

/-! ## Arguments -/

variable {args : Arguments}

lemma Arguments.sound_concat (h : AllSound x start args.nodes s) (hn : n.Sound x start s) :
    AllSound x start (Arguments.nodes { args with plain := args.plain ++ [n] }) s := by
  obtain ⟨plain, keywords⟩ := args
  cases keywords with
  | none => exact h.concat hn
  | some collected =>
    obtain ⟨hplain, hhash⟩ := forall_mem_append.1 h
    exact forall_mem_append.2 ⟨AllSound.concat hplain hn, hhash⟩

/-- A pair that is read after the other arguments makes the hash of the pairs longer. -/
lemma Arguments.sound_addPair {key value : Node} {first : Nat} (h : AllSound x start args.nodes s)
    (hs : s.Later x hi s') (hstart : start ≤ first) (hfirst : s.cursor.lastEnd ≤ first)
    (hle : first ≤ s'.cursor.lastEnd) (hkey : key.Sound x first s') (hvalue : value.Sound x first s') :
    AllSound x start (args.addPair key value first s'.cursor.lastEnd).nodes s' := by
  obtain ⟨plain, keywords⟩ := args
  cases keywords with
  | none =>
    refine .concat (AllSound.later h hs) (Node.Read.toSound (.weaken (.hash hle ?_) hstart))
    exact forall_mem_singleton.2 ⟨hkey, hvalue⟩
  | some collected =>
    obtain ⟨span, pairs⟩ := collected
    obtain ⟨hplain, hhash⟩ := forall_mem_append.1 h
    obtain ⟨hspan, hend, hpairs⟩ := (forall_mem_singleton.1 hhash).inside rfl
    simp only [Node.span] at hspan hend hpairs
    have hbefore : span.start ≤ first := hend.trans hfirst
    refine .concat (AllSound.later hplain hs) (Node.Read.toSound (.weaken (.hash (hbefore.trans hle) ?_) hspan))
    refine forall_mem_append.2 ⟨allSound_children_hash.1 (AllSound.later hpairs hs), ?_⟩
    exact forall_mem_singleton.2 ⟨hkey.weaken hbefore, hvalue.weaken hbefore⟩

lemma goes_argument (hr : r.Sound x) (hs : s.Ready x hi) (hstart : start ≤ s.cursor.current.pos)
    (hargs : AllSound x start args.nodes s) :
    (argument r args).Goes x hi s fun args' s' => AllSound x start args'.nodes s' := by
  have hbounds := hs.bounds
  refine peek_bind (.dite (fun hlabel => ?_) fun _ => ?_)
  · refine advance_bind hs fun s₁ h₁ hpasses => ?_
    have hstop := hpasses.lastEnd (Token.isEof_of_kind hlabel (by decide))
    refine (hr.expr loosest h₁.ready).bind fun value s₂ h₂ hvalue => .get_bind (ends h₂.ready ?_)
    have hle := h₂.lastEnd_le
    have hkey : (symbol ⟨s.cursor.current.pos, s.cursor.current.stop⟩ s.cursor.current.text).Read x
        s.cursor.current.pos s₂ := by
      refine .leaf ⟨rfl, rfl, nil_subset _, trivial⟩ rfl (le_refl _) hbounds.2.1 ?_
      simp only [Node.span]
      omega
    exact Arguments.sound_addPair hargs (h₁.trans h₂) hstart hbounds.1 hkey.le hkey.toSound
      (hvalue.toSound.weaken h₁.pos_le)
  · refine (hr.expr loosest hs).bind fun key s₁ h₁ hkey => ?_
    refine (steps_takeOp _ h₁.ready).bind fun arrow s₂ h₂ _ => .ite ?_ ?_
    · refine (hr.expr loosest h₂.ready).bind fun value s₃ h₃ hvalue => .get_bind (ends h₃.ready ?_)
      have hkey₃ := hkey.later (h₂.trans h₃)
      exact Arguments.sound_addPair hargs ((h₁.trans h₂).trans h₃) hstart hbounds.1 hkey₃.le hkey₃.toSound
        (hvalue.toSound.weaken (h₁.trans h₂).pos_le)
    · exact ends h₂.ready (Arguments.sound_concat (hargs.later (h₁.trans h₂)) (hkey.mono hstart h₂))

lemma goes_commandArgs (hr : r.Sound x) (n : Nat) (hs : s.Ready x hi)
    (hstart : start ≤ s.cursor.current.pos) (hargs : AllSound x start args.nodes s) :
    (commandArgs r n args).Goes x hi s (AllSound x start) := by
  induction n generalizing s args with
  | zero => exact .throw _
  | succ n ih =>
    refine (goes_argument hr hs hstart hargs).bind fun args₁ s₁ h₁ hargs₁ => ?_
    refine (steps_takeOp _ h₁.ready).bind fun comma s₂ h₂ _ => .ite ?_ ?_
    · exact ih h₂.ready (hstart.trans (h₁.trans h₂).pos_le) (hargs₁.later h₂)
    · exact ends h₂.ready (hargs₁.later h₂)

lemma goes_listItems (hr : r.Sound x) (closer : Text) (n : Nat) (hs : s.Ready x hi)
    (hstart : start ≤ s.cursor.current.pos) (hargs : AllSound x start args.nodes s) :
    (listItems r closer n args).Goes x hi s (AllSound x start) := by
  induction n generalizing s args with
  | zero => exact .throw _
  | succ n ih =>
    refine atOp_bind (.ite (ends hs hargs) ?_)
    refine (goes_argument hr hs hstart hargs).bind fun args₁ s₁ h₁ hargs₁ => ?_
    refine (steps_takeOp _ h₁.ready).bind fun comma s₂ h₂ _ => .ite ?_ ?_
    · exact ih h₂.ready (hstart.trans (h₁.trans h₂).pos_le) (hargs₁.later h₂)
    · exact ends h₂.ready (hargs₁.later h₂)

lemma goes_list (hr : r.Sound x) (closer : Text) (hs : s.Ready x hi) (hstart : start ≤ s.cursor.current.pos) :
    (list r closer).Goes x hi s (AllSound x start) :=
  budget_bind ((goes_listItems hr closer _ hs hstart allSound_nil).bind fun _ _ h₁ hitems =>
    (steps_expectOp closer h₁.ready).bind fun _ _ h₂ _ => ends h₂.ready (hitems.later h₂))

lemma steps_startsCommandArg : startsCommandArg.Steps x := by
  refine steps_peek.bind fun t => .ite (.pure false) ?_
  cases t.kind with
  | op =>
    exact .ite (.pure true) (.ite (.bind (fun _ _ hs => ⟨hs.refl, trivial⟩) fun _ => .pure _) (.pure false))
  | _ => exact .pure _

/-! ## Bodies and blocks -/

lemma steps_skipSemicolons (n : Nat) : (skipSemicolons n).Steps x := by
  induction n with
  | zero => exact .pure ()
  | succ n ih => exact (steps_takeOp _).bind fun _ => .ite ih (.pure ())

lemma goes_inlineBody (hr : r.Sound x) (stops : List Text) (n : Nat) {body : List Node} (hs : s.Ready x hi)
    (hstart : start ≤ s.cursor.current.pos) (hbody : AllSound x start body s) :
    (inlineBody r stops n body).Goes x hi s (AllSound x start) := by
  induction n generalizing s body with
  | zero => exact .throw _
  | succ n ih =>
    refine budget_bind ((steps_skipSemicolons _ hs).bind fun _ s₁ h₁ _ => peek_bind (.ite ?_ ?_))
    · exact ends h₁.ready (hbody.later h₁)
    · refine (hr.statement h₁.ready).bind fun m s₂ h₂ hm => atOp_bind ?_
      have hbody₂ : AllSound x start (body ++ [m]) s₂ :=
        (hbody.later (h₁.trans h₂)).concat (hm.toSound.weaken (hstart.trans h₁.pos_le))
      exact .ite (ih h₂.ready (hstart.trans (h₁.trans h₂).pos_le) hbody₂) (ends h₂.ready hbody₂)

/-- Each parameter is learned as it is read. -/
lemma goes_blockParams (n : Nat) {params : List Text} (hs : s.Ready x hi) (hparams : params ⊆ s.locals) :
    (blockParams n params).Goes x hi s fun params' s' => params' ⊆ s'.locals := by
  induction n generalizing s params with
  | zero => exact .throw _
  | succ n ih =>
    refine atOp_bind (.ite (ends hs hparams) ?_)
    refine advance_bind hs fun s₁ h₁ _ => .ite (Goes.fail _) ?_
    refine (goes_learn h₁.ready _).bind fun _ s₂ h₂ hname => ?_
    refine (steps_takeOp _ h₂.ready).bind fun comma s₃ h₃ _ => ?_
    have hparams₃ : params ++ [s.cursor.current.text] ⊆ s₃.locals := by
      refine append_subset.2 ⟨List.Subset.trans hparams ((h₁.trans h₂).trans h₃).subset, ?_⟩
      exact cons_subset.2 ⟨h₃.subset hname.2, nil_subset _⟩
    exact .ite (ih h₃.ready hparams₃) (ends h₃.ready hparams₃)

lemma goes_blockHead (hs : s.Ready x hi) : blockHead.Goes x hi s fun params s' => params ⊆ s'.locals := by
  refine (steps_takeOp _ hs).bind fun bar s₁ h₁ _ => .ite (budget_bind ?_) ?_
  · refine (goes_blockParams _ h₁.ready (nil_subset _)).bind fun params s₂ h₂ hparams => ?_
    refine (steps_expectOp _ h₂.ready).bind fun _ s₃ h₃ _ => ?_
    exact ends h₃.ready (List.Subset.trans hparams h₃.subset)
  · exact ends h₁.ready (nil_subset _)

lemma goes_block (hr : r.Sound x) (hs : s.Ready x hi) (hstart : start ≤ s.cursor.current.pos) :
    (block r).Goes x hi s (Node.Sound x start) := by
  have hbounds := hs.bounds
  have hblock : ∀ params body s', s'.Ready x hi → s.cursor.current.stop ≤ s'.cursor.lastEnd → params ⊆ s'.locals →
      AllSound x s.cursor.current.pos body s' →
      (do return Node.block (← spanFrom s.cursor.current.pos) params body).Goes x hi s' (Node.Sound x start) := by
    intro params body s' hs' hstop hparams hbody
    have hread : (Node.block ⟨s.cursor.current.pos, s'.cursor.lastEnd⟩ params body).Read x s.cursor.current.pos s' :=
      .node ⟨rfl, rfl, hparams, trivial⟩ rfl (by omega) hbody
    exact spanFrom_bind (ends hs' (hread.toSound.weaken hstart))
  refine peek_bind (.get_bind (.dite (fun hdo => ?_) fun _ => .dite (fun hbrace => ?_) fun _ => ?_))
  · refine advance_bind hs fun s₁ h₁ hpasses => ?_
    have hstop := hpasses.lastEnd (Token.isEof_of_isKeyword (and_eq_true_iff.1 hdo).1)
    refine (goes_blockHead h₁.ready).bind fun params s₂ h₂ hparams => ?_
    exact hblock params [] s₂ h₂.ready (hstop ▸ h₂.lastEnd_le) hparams allSound_nil
  · refine advance_bind hs fun s₁ h₁ hpasses => ?_
    have hstop := hpasses.lastEnd (Token.isEof_of_isOp hbrace)
    refine (goes_blockHead h₁.ready).bind fun params s₂ h₂ hparams => budget_bind ?_
    refine (goes_inlineBody hr [] _ h₂.ready (h₁.trans h₂).pos_le allSound_nil).bind fun body s₃ h₃ hbody => ?_
    refine (steps_expectOp _ h₃.ready).bind fun _ s₄ h₄ _ => ?_
    have hlater := h₂.trans (h₃.trans h₄)
    exact hblock params body s₄ h₄.ready (hstop ▸ hlater.lastEnd_le)
      (List.Subset.trans hparams (h₃.trans h₄).subset) (hbody.later h₄)
  · exact ends hs sound_absent

/-! ## Operands -/

/-- The code of an interpolation is read with the names known so far and between its own ends. The line around it stands
where it stood and knows what the code has taught. -/
lemma goes_interpolation (hr : r.Sound x) {part : StringPart} (hs : s.Ready x hi) (hle : start ≤ s.cursor.lastEnd)
    (hplace : start ≤ part.pos ∧ part.pos + part.text.length ≤ s.cursor.lastEnd)
    (hpart : x.base ≤ part.pos ∧ part.text <+: x.text.drop (part.pos - x.base)) :
    (interpolation r ⟨start, s.cursor.lastEnd⟩ part).Goes x hi s fun n s' =>
      s'.cursor = s.cursor ∧ n.Read x start s' := by
  rw [interpolation]
  cases hlex : lex part.pos part.text with
  | error fault => exact .throw fault
  | ok tokens =>
    obtain ⟨hinner, hpos⟩ := Parsing.ready_of_lex hlex hpart.1 hpart.2 hs.subset
    refine .get_bind (.set_bind (atEnd_bind (.ite ?_ ?_)))
    · refine ⟨hs.of_cursor rfl (.refl _), rfl, ?_⟩
      exact .node ⟨rfl, rfl, nil_subset _, trivial⟩ rfl hle allSound_nil
    · refine .bind (hr.statement hinner) ?_
      rintro n s₁ ⟨h₁, hn⟩
      have hend := mono (steps_expectEnd h₁.ready) (fun _ _ h => h.1) fun _ s' hsub =>
        List.Subset.trans h₁.subset hsub
      refine .bind hend fun _ s₂ h₂ => ⟨hs.of_cursor rfl (h₁.trans h₂).subset, rfl, ?_⟩
      have hn₂ := hn.later h₂
      have hbounds := h₂.ready.bounds
      exact ⟨⟨hn₂.fits.mono (hplace.1.trans hpos) (by simp only; omega), hn₂.fine⟩, hn₂.present, hn₂.known⟩

lemma ite_bind {α β : Type} {c : Prop} [Decidable c] (p p' : Parse α) (f : α → Parse β) :
    (if c then p >>= f else p' >>= f) = (if c then p else p') >>= f := by
  split <;> rfl

lemma reads_joinParts (hr : r.Sound x) {acc : Option Node} {parts : List StringPart} (hs : s.Ready x hi)
    (hle : start ≤ s.cursor.lastEnd) (hacc : ∀ n ∈ acc, n.Read x start s)
    (hplaces : ∀ p ∈ parts, p.isCode → start ≤ p.pos ∧ p.pos + p.text.length ≤ s.cursor.lastEnd)
    (hparts : ∀ p ∈ parts, p.isCode → x.base ≤ p.pos ∧ p.text <+: x.text.drop (p.pos - x.base)) :
    (joinParts r ⟨start, s.cursor.lastEnd⟩ acc parts).Reads x hi start s := by
  have hstring : ∀ {s : Parsing} value, start ≤ s.cursor.lastEnd →
      (string ⟨start, s.cursor.lastEnd⟩ value).Read x start s := fun value hle =>
    .node ⟨rfl, rfl, nil_subset _, trivial⟩ rfl hle allSound_nil
  induction parts generalizing acc s with
  | nil =>
    cases acc with
    | none => exact ends hs (hstring [] hle)
    | some n => exact ends hs (hacc n rfl)
  | cons part rest ih =>
    have hpart : (if part.isCode then interpolation r ⟨start, s.cursor.lastEnd⟩ part
        else pure (.string ⟨start, s.cursor.lastEnd⟩ part.text)).Goes x hi s fun n s' =>
          s'.cursor = s.cursor ∧ n.Read x start s' :=
      .dite (fun hcode => goes_interpolation hr hs hle (hplaces part mem_cons_self hcode)
        (hparts part mem_cons_self hcode)) fun _ => ends hs ⟨rfl, hstring part.text hle⟩
    rw [joinParts, ite_bind]
    refine hpart.bind ?_
    rintro n s₁ h₁ ⟨hcursor, hn⟩
    simp only [← hcursor] at hle hplaces ⊢
    have hgoes : ∀ acc : Node, acc.Read x start s₁ →
        (joinParts r ⟨start, s₁.cursor.lastEnd⟩ (some acc) rest).Reads x hi start s₁ := fun acc hacc =>
      ih h₁.ready hle (by simpa using hacc) (fun p hp => hplaces p (mem_cons_of_mem part hp)) fun p hp =>
        hparts p (mem_cons_of_mem part hp)
    have hplus : ∀ left : Node, left.Read x start s₁ →
        (call ⟨start, s₁.cursor.lastEnd⟩ left "+" [n] .absent).Read x start s₁ := fun left hleft =>
      hleft.call "+" (allSound_singleton.2 hn.toSound) sound_absent
    cases acc with
    | some left => exact hgoes _ (hplus left ((hacc left rfl).later h₁))
    | none => exact .ite (hgoes _ (hplus _ (hstring [] hle))) (hgoes n hn)

lemma goes_hashPairs (hr : r.Sound x) (n : Nat) {pairs : List (Node × Node)} (hs : s.Ready x hi)
    (hstart : start ≤ s.cursor.current.pos) (hpairs : ∀ p ∈ pairs, p.1.Sound x start s ∧ p.2.Sound x start s) :
    (hashPairs r n pairs).Goes x hi s fun pairs' s' =>
      ∀ p ∈ pairs', p.1.Sound x start s' ∧ p.2.Sound x start s' := by
  induction n generalizing s pairs with
  | zero => exact .throw _
  | succ n ih =>
    have hbounds := hs.bounds
    unfold hashPairs
    refine atOp_bind (.ite (ends hs hpairs) (peek_bind ?_))
    extract_lets next
    -- a key, then its value, then the other pairs
    have hnext : ∀ key s₁, s.Later x hi s₁ → key.Sound x start s₁ → (next key).Goes x hi s₁ fun pairs' s' =>
        ∀ p ∈ pairs', p.1.Sound x start s' ∧ p.2.Sound x start s' := by
      intro key s₁ h₁ hkey
      refine (hr.expr loosest h₁.ready).bind fun value s₂ h₂ hvalue => ?_
      refine (steps_takeOp _ h₂.ready).bind fun comma s₃ h₃ _ => ?_
      have hlater := (h₁.trans h₂).trans h₃
      have hpairs₃ : ∀ p ∈ pairs ++ [(key, value)], p.1.Sound x start s₃ ∧ p.2.Sound x start s₃ := by
        refine forall_mem_append.2 ⟨fun p hp => ?_, forall_mem_singleton.2 ?_⟩
        · exact ⟨(hpairs p hp).1.mono (le_refl _) hlater, (hpairs p hp).2.mono (le_refl _) hlater⟩
        · exact ⟨hkey.mono (le_refl _) (h₂.trans h₃), hvalue.mono (hstart.trans h₁.pos_le) h₃⟩
      exact .ite (ih h₃.ready (hstart.trans hlater.pos_le) hpairs₃) (ends h₃.ready hpairs₃)
    refine .dite (fun hlabel => ?_) fun _ => ?_
    · refine advance_bind hs fun s₁ h₁ hpasses => hnext _ s₁ h₁ (Node.Read.toSound ?_)
      have hstop := hpasses.lastEnd (Token.isEof_of_kind hlabel (by decide))
      exact .leaf ⟨rfl, rfl, nil_subset _, trivial⟩ rfl hstart hbounds.2.1 hstop.ge
    · refine (hr.expr loosest hs).bind fun key s₁ h₁ hkey => ?_
      exact (steps_expectOp _ h₁.ready).bind fun _ s₂ h₂ _ => hnext key s₂ (h₁.trans h₂) (hkey.mono hstart h₂)

lemma reads_hash (hr : r.Sound x) (hs : s.Ready x hi) (hstart : start ≤ s.cursor.lastEnd) :
    (hash r start).Reads x hi start s := by
  refine budget_bind ((goes_hashPairs hr _ hs (hstart.trans hs.bounds.1) (forall_mem_nil _)).bind ?_)
  intro pairs s₁ h₁ hpairs
  refine (steps_expectOp _ h₁.ready).bind fun _ s₂ h₂ _ => spanFrom_bind (ends h₂.ready ?_)
  refine .hash (hstart.trans (h₁.trans h₂).lastEnd_le) fun p hp => ?_
  exact ⟨(hpairs p hp).1.mono (le_refl _) h₂, (hpairs p hp).2.mono (le_refl _) h₂⟩

/-- A literal behind a minus sign takes the sign in; anything else becomes the receiver of a call. -/
lemma reads_negated {operand : Node} (hs : s.Ready x hi) (h : operand.Read x start s) :
    (negated start operand).Reads x hi start s := by
  obtain ⟨hstart, hle, hstop⟩ := h.fits.bounds h.present
  have hmiddle := hstart.trans hle
  have hcall := h.call "-@" allSound_nil sound_absent
  cases operand with
  | integer span v =>
    exact ends hs (.leaf ⟨rfl, rfl, nil_subset _, trivial⟩ rfl (le_refl _) hmiddle hstop)
  | float span v =>
    exact ends hs (.leaf ⟨rfl, rfl, nil_subset _, trivial⟩ rfl (le_refl _) hmiddle hstop)
  | _ => exact spanFrom_bind (ends hs hcall)

section Token

variable {t : Token} (hs : s.Ready x hi) (ht : t.pos ≤ t.stop) (hpassed : t.stop ≤ s.cursor.lastEnd)

include hs ht hpassed

lemma reads_token (hown : n.Own x s.locals) (hchildren : n.children = []) (hspan : n.span = ⟨t.pos, t.stop⟩) :
    (pure n : Parse Node).Reads x hi t.pos s :=
  ends hs (.leaf hown hchildren (by rw [hspan]) (by rw [hspan]; exact ht) (by rw [hspan]; exact hpassed))

/-- A name that is known takes no arguments but those in parentheses. -/
lemma reads_identifier (hr : r.Sound x) (hopens : s.cursor.current.isOp "(" = true → s.cursor.current.spaced = false →
      x.base ≤ t.pos ∧ t.text ++ ("(" : Text) <+: x.text.drop (t.pos - x.base)) :
    (identifier r t).Reads x hi t.pos s := by
  have hbounds := hs.bounds
  have hstart : t.pos ≤ s.cursor.current.pos := by omega
  unfold identifier
  refine peek_bind (knows_bind ?_)
  extract_lets finish
  -- arguments read after the name, and a block after them
  have hfinish : ∀ args s₁, s.Later x hi s₁ → AllSound x t.pos args s₁ →
      (t.text ∈ x.names → args = [] ∨ x.base ≤ t.pos ∧ t.text ++ ("(" : Text) <+: x.text.drop (t.pos - x.base)) →
      (finish args).Reads x hi t.pos s₁ := by
    intro args s₁ h₁ hargs hheeds
    refine (goes_block hr h₁.ready (hstart.trans h₁.pos_le)).bind fun b s₂ h₂ hb => spanFrom_bind (ends h₂.ready ?_)
    have hle := (h₁.trans h₂).lastEnd_le
    exact .node ⟨rfl, rfl, nil_subset _, hheeds⟩ rfl (by omega)
      (allSound_children_call.2 ⟨sound_absent, hargs.later h₂, hb⟩)
  refine .dite (fun hparen => ?_) fun _ => ?_
  · obtain ⟨hop, hjoined⟩ := and_eq_true_iff.1 hparen
    refine advance_bind hs fun s₁ h₁ _ => (goes_list hr _ h₁.ready (hstart.trans h₁.pos_le)).bind ?_
    exact fun args s₂ h₂ hargs => hfinish args s₂ (h₁.trans h₂) hargs fun _ =>
      .inr (hopens hop (by simpa using hjoined))
  refine (steps_startsCommandArg hs).bind fun starts s₁ h₁ _ => .dite (fun hcommand => budget_bind ?_) fun _ => ?_
  · refine (goes_commandArgs hr _ h₁.ready (hstart.trans h₁.pos_le) allSound_nil).bind fun args s₂ h₂ hargs =>
      hfinish args s₂ (h₁.trans h₂) hargs fun hname => ?_
    have hunknown : s.locals.contains t.text = false := by simpa using (and_eq_true_iff.1 hcommand).1
    have hknown : s.locals.contains t.text := contains_iff_mem.2 (hs.subset hname)
    exact absurd (hunknown.symm.trans hknown) false_ne_true
  refine .get_bind (.ite ?_ ?_)
  · exact hfinish [] s₁ h₁ allSound_nil fun _ => .inl rfl
  · exact reads_token h₁.ready ht (hpassed.trans h₁.lastEnd_le) ⟨rfl, rfl, nil_subset _, trivial⟩ rfl rfl

lemma reads_prefixed (hr : r.Sound x) (least : Nat) (sign : Text) :
    (do
      let operand ← r.expr least
      return .call (← spanFrom t.pos) operand sign [] .absent : Parse Node).Reads x hi t.pos s := by
  have hbounds := hs.bounds
  refine (hr.expr least hs).bind fun operand s₁ h₁ hoperand => spanFrom_bind (ends h₁.ready ?_)
  exact (hoperand.weaken (by omega)).call sign allSound_nil sound_absent

lemma reads_keywordOperand (hr : r.Sound x) : (keywordOperand r t).Reads x hi t.pos s := by
  have htoken := fun n => reads_token (n := n) hs ht hpassed
  refine .ite (htoken _ ⟨rfl, rfl, nil_subset _, trivial⟩ rfl rfl) ?_
  refine .ite (htoken _ ⟨rfl, rfl, nil_subset _, trivial⟩ rfl rfl) ?_
  refine .ite (htoken _ ⟨rfl, rfl, nil_subset _, trivial⟩ rfl rfl) ?_
  exact .ite (reads_prefixed hs ht hpassed hr notPower "!") (Goes.throw _)

lemma reads_bracketed (hr : r.Sound x) : (bracketed r t).Reads x hi t.pos s := by
  have hbounds := hs.bounds
  have hstart : t.pos ≤ s.cursor.current.pos := by omega
  refine .ite ?_ (ite ?_ (ite ?_ (ite ?_ (ite ?_ (Goes.throw _)))))
  · exact reads_prefixed hs ht hpassed hr unaryPower "!"
  · exact (hr.expr _ hs).bind fun operand s₁ h₁ hoperand => reads_negated h₁.ready (hoperand.weaken hstart)
  · refine (steps_takeOp _ hs).bind fun closed s₁ h₁ _ => .ite ?_ ?_
    · have hle := h₁.lastEnd_le
      exact spanFrom_bind (ends h₁.ready (.node ⟨rfl, rfl, nil_subset _, trivial⟩ rfl (by omega) allSound_nil))
    · refine (hr.statement h₁.ready).bind fun inner s₂ h₂ hinner => ?_
      refine (steps_expectOp _ h₂.ready).bind fun _ s₃ h₃ _ => ends h₃.ready ?_
      exact (hinner.later h₃).weaken (hstart.trans h₁.pos_le)
  · refine (goes_list hr _ hs hstart).bind fun items s₁ h₁ hitems => spanFrom_bind (ends h₁.ready ?_)
    have hle := h₁.lastEnd_le
    exact .node ⟨rfl, rfl, nil_subset _, trivial⟩ rfl (by omega) hitems
  · exact reads_hash hr hs (ht.trans hpassed)

end Token

lemma reads_operand (hr : r.Sound x) (hs : s.Ready x hi) : (operand r).Reads x hi s.cursor.current.pos s := by
  have ht := hs.bounds.2.1
  refine advance_bind hs fun s₁ h₁ hpasses => ?_
  by_cases hend : s.cursor.current.isEof
  · have hkind : s.cursor.current.kind = .eof := beq_iff_eq.1 hend
    rw [hkind]
    exact .fail _
  have hstop := hpasses.lastEnd (eq_false_iff.2 hend)
  have htoken := fun n => reads_token (n := n) h₁.ready ht hstop.ge
  cases hkind : s.cursor.current.kind with
  | int =>
    cases Numeral.readInteger (plainNumeral s.cursor.current.text) with
    | ok v => exact htoken _ ⟨rfl, rfl, nil_subset _, trivial⟩ rfl rfl
    | error fault => exact .throw _
  | float =>
    cases Numeral.readDecimal (plainNumeral s.cursor.current.text) with
    | ok v => exact htoken _ ⟨rfl, rfl, nil_subset _, trivial⟩ rfl rfl
    | error fault => exact .throw _
  | string =>
    rw [← hstop] at ht
    have hplaces := hs.ordered.1.code
    simp only [← hstop] at hplaces ⊢
    exact reads_joinParts hr h₁.ready ht (by simp) hplaces hs.written.1.code
  | ident =>
    refine reads_identifier h₁.ready ht hstop.ge hr fun hop hjoined => ?_
    rw [hpasses.cursor] at hop hjoined
    exact hs.opens hkind hop hjoined
  | keyword => exact reads_keywordOperand h₁.ready ht hstop.ge hr
  | op => exact reads_bracketed h₁.ready ht hstop.ge hr
  | symbol | ivar | gvar | const => exact htoken _ ⟨rfl, rfl, nil_subset _, trivial⟩ rfl rfl
  | label => exact .throw _
  | eof => exact .fail _

/-! ## Calls and infix operators -/

lemma goes_callTail (hr : r.Sound x) (hs : s.Ready x hi) (hstart : start ≤ s.cursor.current.pos) :
    (callTail r).Goes x hi s fun tail s' => AllSound x start tail.1 s' ∧ tail.2.Sound x start s' := by
  unfold callTail
  refine peek_bind ((steps_startsCommandArg hs).bind fun starts s₁ h₁ _ => ?_)
  extract_lets finish
  have hfinish : ∀ args s₂, s.Later x hi s₂ → AllSound x start args s₂ →
      (finish args).Goes x hi s₂ fun tail s' => AllSound x start tail.1 s' ∧ tail.2.Sound x start s' :=
    fun args s₂ h₂ hargs => (goes_block hr h₂.ready (hstart.trans h₂.pos_le)).bind fun _ _ h₃ hb =>
      ends h₃.ready ⟨hargs.later h₃, hb⟩
  refine .ite ?_ (.ite (budget_bind ?_) ?_)
  · refine advance_bind h₁.ready fun s₂ h₂ _ => ?_
    exact (goes_list hr _ h₂.ready (hstart.trans (h₁.trans h₂).pos_le)).bind fun args s₃ h₃ =>
      hfinish args s₃ ((h₁.trans h₂).trans h₃)
  · exact (goes_commandArgs hr _ h₁.ready (hstart.trans h₁.pos_le) allSound_nil).bind fun args s₂ h₂ =>
      hfinish args s₂ (h₁.trans h₂)
  · exact hfinish [] s₁ h₁ allSound_nil

section Left

variable {left : Node}

lemma reads_postfixes (hr : r.Sound x) (n : Nat) (hs : s.Ready x hi) (hleft : left.Read x start s) :
    (postfixes r start n left).Reads x hi start s := by
  induction n generalizing s left with
  | zero => exact .throw _
  | succ n ih =>
    -- a call of what was read so far, and then more of them
    have hcall : ∀ name args b s₁, s.Later x hi s₁ → AllSound x start args s₁ → b.Sound x start s₁ →
        (do postfixes r start n (.call (← spanFrom start) left name args b)).Reads x hi start s₁ :=
      fun name args b s₁ h₁ hargs hb => spanFrom_bind (ih h₁.ready ((hleft.later h₁).call name hargs hb))
    have htail : ∀ name s₁, s.Later x hi s₁ → (do
        let tail ← callTail r
        postfixes r start n (.call (← spanFrom start) left name tail.1 tail.2)).Reads x hi start s₁ := fun name s₁ h₁ =>
      (goes_callTail hr h₁.ready ((hleft.later h₁).le_pos h₁.ready)).bind fun tail s₂ h₂ htail =>
        hcall name tail.1 tail.2 s₂ (h₁.trans h₂) htail.1 htail.2
    unfold postfixes
    refine peek_bind (.ite ?_ (.ite ?_ (.ite ?_ (ends hs hleft))))
    · refine advance_bind hs fun s₁ h₁ _ => advance_bind h₁.ready fun s₂ h₂ _ => ?_
      exact .ite (htail _ s₂ (h₁.trans h₂)) (Goes.fail _)
    · refine advance_bind hs fun s₁ h₁ _ => advance_bind h₁.ready fun s₂ h₂ _ => ?_
      refine .ite ?_ (ite ?_ (Goes.fail _))
      · exact hcall _ [] .absent s₂ (h₁.trans h₂) allSound_nil sound_absent
      · exact htail _ s₂ (h₁.trans h₂)
    · refine advance_bind hs fun s₁ h₁ _ => ?_
      refine (goes_list hr _ h₁.ready ((hleft.later h₁).le_pos h₁.ready)).bind fun args s₂ h₂ hargs => ?_
      exact hcall "[]" args .absent s₂ (h₁.trans h₂) hargs sound_absent

lemma reads_infixes (hr : r.Sound x) (least n : Nat) (hs : s.Ready x hi) (hleft : left.Read x start s) :
    (infixes r start least n left).Reads x hi start s := by
  induction n generalizing s left with
  | zero => exact .throw _
  | succ n ih =>
    unfold infixes
    refine peek_bind ?_
    cases infixPower? s.cursor.current with
    | none => exact ends hs hleft
    | some power =>
      refine .ite (ends hs hleft) (advance_bind hs fun s₁ h₁ _ => ?_)
      refine (hr.expr _ h₁.ready).bind fun right s₂ h₂ hright => spanFrom_bind (ih h₂.ready ?_)
      have hright₂ := hright.toSound.weaken ((hleft.later h₁).le_pos h₁.ready)
      exact (hleft.later (h₁.trans h₂)).call _ (allSound_singleton.2 hright₂) sound_absent

end Left

lemma reads_expr (hr : r.Sound x) (least : Nat) (hs : s.Ready x hi) :
    (expr r least).Reads x hi s.cursor.current.pos s := by
  refine peek_bind ((reads_operand hr hs).bind fun first s₁ h₁ hfirst => budget_bind ?_)
  refine (reads_postfixes hr _ h₁.ready hfirst).bind fun left s₂ h₂ hleft => budget_bind ?_
  exact reads_infixes hr least _ h₂.ready hleft

/-! ## Statements -/

/-- An assignment keeps the parts of its target, and a variable that is assigned is learned. -/
lemma reads_assignmentTo {target value : Node} (op : Text) (hs : s.Ready x hi) (htarget : target.Read x start s)
    (hvalue : value.Sound x start s) : (assignmentTo target value op start).Reads x hi start s := by
  refine spanFrom_bind ?_
  cases target with
  | var span name scope =>
    have hassignment : ∀ s', s.Later x hi s' → s'.cursor = s.cursor → (scope = .local → name ∈ s'.locals) →
        (assignment ⟨start, s.cursor.lastEnd⟩ name scope op value).Read x start s' := by
      intro s' hs' hcursor hname
      rw [← hcursor]
      refine .node ⟨rfl, rfl, ?_, trivial⟩ rfl (htarget.later hs').le
        (allSound_singleton.2 (hvalue.mono (le_refl _) hs'))
      cases scope with
      | «local» => exact cons_subset.2 ⟨hname rfl, nil_subset _⟩
      | _ => exact nil_subset _
    refine .dite (fun _ => ?_) fun hscope => ?_
    · exact (goes_learn hs name).bind fun _ s₁ h₁ hlearned => ends h₁.ready
        (hassignment s₁ h₁ hlearned.1 fun _ => hlearned.2)
    · exact ends hs (hassignment s hs.refl rfl fun hlocal => absurd (by rw [hlocal]; rfl) hscope)
  | call span receiver name args b =>
    obtain ⟨hstart, -, hparts⟩ := htarget.inside rfl
    obtain ⟨hreceiver, hargs, -⟩ := allSound_children_call.1 hparts
    have hstored : (if op.isEmpty then value
        else .call ⟨start, s.cursor.lastEnd⟩ (.call span receiver name args b) op [value] .absent).Sound x start s := by
      split
      · exact hvalue
      · exact (htarget.call op (allSound_singleton.2 hvalue) sound_absent).toSound
    have hsetter : ∀ setter values, receiver.isAbsent = false → AllSound x start values s →
        (call ⟨start, s.cursor.lastEnd⟩ receiver setter values .absent).Read x start s := by
      intro setter values hpresent hvalues
      refine .node ⟨rfl, rfl, nil_subset _, ?_⟩ rfl htarget.le
        (allSound_children_call.2 ⟨hreceiver.weaken hstart, hvalues, sound_absent⟩)
      cases receiver with
      | absent => cases hpresent
      | _ => trivial
    refine dite (fun hindex => ?_) fun _ => dite (fun hattribute => ?_) fun _ => Goes.fail _
    · simp only [and_eq_true, not_eq_true'] at hindex
      exact ends hs (hsetter _ _ hindex.1.2 (.concat (fun a ha => (hargs a ha).weaken hstart) hstored))
    · simp only [and_eq_true, not_eq_true'] at hattribute
      exact ends hs (hsetter _ _ hattribute.1.1.1 (allSound_singleton.2 hstored))
  | _ => exact Goes.fail _

lemma reads_simpleStatement (hr : r.Sound x) (hs : s.Ready x hi) :
    (simpleStatement r).Reads x hi s.cursor.current.pos s := by
  have hbounds := hs.bounds
  refine peek_bind ((goes_takeKeyword _ hs).bind fun taken s₁ h₁ hpassed => .dite (fun htaken => ?_) fun _ => ?_)
  · have hstop := hpassed htaken
    refine peek_bind (.ite (spanFrom_bind (ends h₁.ready ?_)) ?_)
    · exact .node ⟨rfl, rfl, nil_subset _, trivial⟩ rfl (by omega) (allSound_singleton.2 sound_absent)
    · refine (hr.expr loosest h₁.ready).bind fun value s₂ h₂ hvalue => spanFrom_bind (ends h₂.ready ?_)
      have hvalue' := hvalue.weaken h₁.pos_le
      exact .node ⟨rfl, rfl, nil_subset _, trivial⟩ rfl hvalue'.le (allSound_singleton.2 hvalue'.toSound)
  · exact (hr.expr loosest h₁.ready).mono fun _ _ _ hn => hn.weaken h₁.pos_le

lemma reads_modifiers (hr : r.Sound x) (n : Nat) {node : Node} (hs : s.Ready x hi) (hnode : node.Read x start s) :
    (modifiers r start n node).Reads x hi start s := by
  induction n generalizing s node with
  | zero => exact .throw _
  | succ n ih =>
    unfold modifiers
    refine peek_bind (.ite (advance_bind hs fun s₁ h₁ _ => ?_) (ends hs hnode))
    refine (hr.expr loosest h₁.ready).bind fun condition s₂ h₂ hcondition => spanFrom_bind ?_
    have hnode₂ := hnode.later (h₁.trans h₂)
    have hparts : AllSound x start [condition, node] s₂ := forall_mem_cons.2
      ⟨hcondition.toSound.weaken ((hnode.later h₁).le_pos h₁.ready), allSound_singleton.2 hnode₂.toSound⟩
    refine .ite (ih h₂.ready ?_) (ih h₂.ready ?_)
    · exact .node ⟨rfl, rfl, nil_subset _, trivial⟩ rfl hnode₂.le hparts
    · exact .node ⟨rfl, rfl, nil_subset _, trivial⟩ rfl hnode₂.le hparts

lemma reads_statement (hr : r.Sound x) (hs : s.Ready x hi) : (statement r).Reads x hi s.cursor.current.pos s := by
  unfold statement
  refine peek_bind ?_
  extract_lets start finish
  refine (reads_simpleStatement hr hs).bind fun target s₁ h₁ htarget => peek_bind ?_
  have hfinish : ∀ n s₂, s₂.Ready x hi → n.Read x start s₂ → (finish n).Reads x hi start s₂ := fun n s₂ hs₂ hn =>
    budget_bind (reads_modifiers hr _ hs₂ hn)
  have hassigned : ∀ op, (do
      let _ ← advance
      let value ← r.expr loosest
      let assigned ← assignmentTo target value op start
      finish assigned).Reads x hi start s₁ := by
    intro op
    refine advance_bind h₁.ready fun s₂ h₂ _ => ?_
    refine (hr.expr loosest h₂.ready).bind fun value s₃ h₃ hvalue => ?_
    have hvalue' := hvalue.toSound.weaken (h₁.trans h₂).pos_le
    exact (reads_assignmentTo op h₃.ready (htarget.later (h₂.trans h₃)) hvalue').bind fun n s₄ h₄ hn =>
      hfinish n s₄ h₄.ready hn
  refine .ite (hassigned []) ?_
  cases (if s₁.cursor.current.kind == .op then compound? s₁.cursor.current.text else none) with
  | some op => exact hassigned op
  | none => exact hfinish target s₁ h₁.ready htarget

end Grammar

/-- However deep they are tied, the rules give nodes in their place and remember all names. -/
lemma Rules.sound_upTo (x : Passage) (n : Nat) : (Rules.upTo n).Sound x := by
  induction n with
  | zero => exact ⟨fun _ _ _ _ => .throw _, fun _ _ _ => .throw _⟩
  | succ n ih => exact ⟨fun least _ _ => Grammar.reads_expr ih least, fun _ _ => Grammar.reads_statement ih⟩

namespace Grammar

open Parse

variable {x : Passage} {r : Rules} {hi : Nat} {s : Parsing}

/-! ## Lines -/

lemma reads_conditional (hr : r.Sound x) (hs : s.Ready x hi) : (conditional r).Reads x hi s.cursor.current.pos s := by
  unfold conditional
  refine advance_bind hs fun s₁ h₁ _ => ?_
  refine (hr.expr loosest h₁.ready).bind fun condition s₂ h₂ hcondition => ?_
  extract_lets negated
  -- the bodies stand behind the condition
  have hcond : ∀ consequence alternative s₃, s₂.Later x hi s₃ → AllSound x s.cursor.current.pos consequence s₃ →
      AllSound x s.cursor.current.pos alternative s₃ → (do
        let span ← spanFrom s.cursor.current.pos
        expectEnd
        pure (cond span condition negated consequence alternative)).Reads x hi s.cursor.current.pos s₃ := by
    intro consequence alternative s₃ h₃ hconsequence halternative
    have hcondition₃ := (hcondition.later h₃).weaken h₁.pos_le
    have hnode : (cond ⟨s.cursor.current.pos, s₃.cursor.lastEnd⟩ condition negated consequence alternative).Read x
        s.cursor.current.pos s₃ :=
      .node ⟨rfl, rfl, nil_subset _, trivial⟩ rfl hcondition₃.le (forall_mem_cons.2
        ⟨hcondition₃.toSound, forall_mem_append.2 ⟨hconsequence, halternative⟩⟩)
    exact spanFrom_bind ((steps_expectEnd h₃.ready).bind fun _ s₄ h₄ _ => ends h₄.ready (hnode.later h₄))
  refine (steps_takeKeyword _ h₂.ready).bind fun taken s₃ h₃ _ => ?_
  have hpos := (h₁.trans (h₂.trans h₃)).pos_le
  refine .ite (budget_bind ?_) (hcond [] [] s₃ h₃ allSound_nil allSound_nil)
  refine (goes_inlineBody hr _ _ h₃.ready hpos allSound_nil).bind fun consequence s₄ h₄ hconsequence => ?_
  refine (steps_takeKeyword _ h₄.ready).bind fun taken s₅ h₅ _ => ?_
  extract_lets finish
  have hfinish : ∀ alternative s₆, s₅.Later x hi s₆ → AllSound x s.cursor.current.pos alternative s₆ →
      (finish alternative).Reads x hi s.cursor.current.pos s₆ := by
    intro alternative s₆ h₆ halternative
    refine (steps_takeKeyword _ h₆.ready).bind fun _ s₇ h₇ _ => ?_
    have hlater := h₅.trans (h₆.trans h₇)
    exact hcond _ _ s₇ ((h₃.trans h₄).trans hlater) (hconsequence.later hlater) (halternative.later h₇)
  refine .ite (budget_bind ?_) (hfinish [] s₅ h₅.ready.refl allSound_nil)
  exact (goes_inlineBody hr _ _ h₅.ready (hpos.trans (h₄.trans h₅).pos_le) allSound_nil).bind fun alternative s₆ =>
    hfinish alternative s₆

lemma reads_loop (hr : r.Sound x) (hs : s.Ready x hi) : (loop r).Reads x hi s.cursor.current.pos s := by
  have hhead : ∀ (b : Bool) ⦃s : Parsing⦄, s.Ready x hi →
      (modify fun s => { s with loopHead := b } : Parse Unit).Goes x hi s fun _ _ => True := fun b _ hs =>
    ⟨hs.of_cursor rfl (.refl _), trivial⟩
  refine advance_bind hs fun s₁ h₁ _ => (hhead true h₁.ready).bind fun _ s₂ h₂ _ => ?_
  refine (hr.expr loosest h₂.ready).bind fun condition s₃ h₃ hcondition => ?_
  refine (hhead false h₃.ready).bind fun _ s₄ h₄ _ => (steps_takeKeyword _ h₄.ready).bind fun _ s₅ h₅ _ => ?_
  refine spanFrom_bind ((steps_expectEnd h₅.ready).bind fun _ s₆ h₆ _ => ends h₆.ready (.later ?_ h₆))
  have hcondition₅ := (hcondition.later (h₄.trans h₅)).weaken (h₁.trans h₂).pos_le
  exact .node ⟨rfl, rfl, nil_subset _, trivial⟩ rfl hcondition₅.le (allSound_singleton.2 hcondition₅.toSound)

lemma steps_skipStars (n : Nat) : (skipStars n).Steps x := by
  induction n with
  | zero => exact .pure ()
  | succ n ih => exact steps_peek.bind fun _ => .ite (steps_advance.bind fun _ => ih) (.pure ())

/-- Each parameter is learned as it is read, before its default value is. -/
lemma goes_methodParams (hr : r.Sound x) (paren : Bool) (n : Nat) {params : List Text} (hs : s.Ready x hi)
    (hparams : params ⊆ s.locals) :
    (methodParams r paren n params).Goes x hi s fun params' s' => params' ⊆ s'.locals := by
  induction n generalizing s params with
  | zero => exact .throw _
  | succ n ih =>
    unfold methodParams
    refine peek_bind (.ite (ends hs hparams) (budget_bind ?_))
    refine (steps_skipStars _ hs).bind fun _ s₁ h₁ _ => advance_bind h₁.ready fun s₂ h₂ _ => ?_
    refine .ite (Goes.fail _) ?_
    refine (goes_learn h₂.ready _).bind fun _ s₃ h₃ hname => peek_bind ?_
    extract_lets params' more dflt
    have hparams' : ∀ s₄, s₃.Later x hi s₄ → params' ⊆ s₄.locals := by
      intro s₄ h₄
      refine append_subset.2 ⟨List.Subset.trans hparams ((h₁.trans h₂).trans (h₃.trans h₄)).subset, ?_⟩
      exact cons_subset.2 ⟨h₄.subset hname.2, nil_subset _⟩
    have hmore : ∀ s₄, s₃.Later x hi s₄ → (more ()).Goes x hi s₄ fun params' s' => params' ⊆ s'.locals := by
      intro s₄ h₄
      refine (steps_takeOp _ h₄.ready).bind fun _ s₅ h₅ _ => ?_
      have hall := hparams' s₅ (h₄.trans h₅)
      exact .ite (ih h₅.ready hall) (ends h₅.ready hall)
    have hdefault : ∀ s₄, s₃.Later x hi s₄ → (dflt ()).Goes x hi s₄ fun params' s' => params' ⊆ s'.locals := by
      intro s₄ h₄
      refine atOp_bind (.ite ?_ (hmore s₄ h₄))
      refine advance_bind h₄.ready fun s₅ h₅ _ => ?_
      exact (hr.expr loosest h₅.ready).bind fun _ s₆ h₆ _ => hmore s₆ (h₄.trans (h₅.trans h₆))
    refine .ite ?_ (hdefault s₃ h₃.ready.refl)
    exact (hr.expr loosest h₃.ready).bind fun _ s₄ h₄ _ => hdefault s₄ h₄

lemma reads_method (hr : r.Sound x) (hs : s.Ready x hi) (hkeyword : s.cursor.current.isEof = false) :
    (method r).Reads x hi s.cursor.current.pos s := by
  have hbounds := hs.bounds
  unfold method
  refine advance_bind hs fun s₁ h₁ hpasses => advance_bind h₁.ready fun s₂ h₂ _ => ?_
  have hstop := hpasses.lastEnd hkeyword
  refine .ite (Goes.fail _) (peek_bind ?_)
  extract_lets head
  have hhead : ∀ name s₃, s₁.Later x hi s₃ → (head name).Reads x hi s.cursor.current.pos s₃ := by
    intro name s₃ h₃
    refine (steps_takeOp _ h₃.ready).bind fun paren s₄ h₄ _ => budget_bind ?_
    refine (goes_methodParams hr _ _ h₄.ready (nil_subset _)).bind fun params s₅ h₅ hparams => ?_
    extract_lets finish rest
    have h₅' := (h₃.trans h₄).trans h₅
    have hfinish : ∀ body s₆, s₅.Later x hi s₆ → AllSound x s.cursor.current.pos body s₆ →
        (finish body).Reads x hi s.cursor.current.pos s₆ := by
      intro body s₆ h₆ hbody
      refine spanFrom_bind ((steps_expectEnd h₆.ready).bind fun _ s₇ h₇ _ => ends h₇.ready (.later ?_ h₇))
      have hle := (h₅'.trans h₆).lastEnd_le
      exact .node ⟨rfl, rfl, List.Subset.trans hparams h₆.subset, trivial⟩ rfl (by omega) hbody
    have hrest : ∀ s₆, s₅.Later x hi s₆ → (rest ()).Reads x hi s.cursor.current.pos s₆ := by
      intro s₆ h₆
      refine (steps_takeOp _ h₆.ready).bind fun taken s₇ h₇ _ => ?_
      refine .ite ?_ (hfinish [] s₇ (h₆.trans h₇) allSound_nil)
      refine (hr.expr loosest h₇.ready).bind fun value s₈ h₈ hvalue => ?_
      have hpos := (h₁.trans (h₅'.trans (h₆.trans h₇))).pos_le
      exact hfinish [value] s₈ (h₆.trans (h₇.trans h₈)) (allSound_singleton.2 (hvalue.toSound.weaken hpos))
    refine .ite ?_ (hrest s₅ h₅.ready.refl)
    exact (steps_expectOp _ h₅.ready).bind fun _ s₆ h₆ _ => hrest s₆ h₆
  refine .ite ?_ (hhead _ s₂ h₂)
  exact advance_bind h₂.ready fun s₃ h₃ _ => hhead _ s₃ (h₂.trans h₃)

/-- The node of a line lies between the first and the last of its tokens. It is understood, or it begins with a keyword
of structure over several lines. -/
lemma goes_line (hr : r.Sound x) (hs : s.Ready x hi) : (line r).Goes x hi s fun n s' =>
    n.isAbsent = false ∧ (n.isUnknown → n.tag ∈ structuralKeywords) ∧ n.Fits s.cursor.current.pos hi ∧
      n.Fine x s'.locals := by
  have hbounds := hs.bounds
  have hread : ∀ {p : Parse Node}, p.Reads x hi s.cursor.current.pos s → p.Goes x hi s fun n s' =>
      n.isAbsent = false ∧ (n.isUnknown → n.tag ∈ structuralKeywords) ∧ n.Fits s.cursor.current.pos hi ∧
        n.Fine x s'.locals := by
    intro p hp
    refine hp.mono fun n s' h' hn => ⟨hn.present, fun hunknown => ?_, ?_, hn.fine⟩
    · exact absurd (hn.known.symm.trans hunknown) false_ne_true
    · have hbounds' := h'.ready.bounds
      exact hn.fits.mono (le_refl _) (by omega)
  unfold line
  refine peek_bind ?_
  extract_lets whole
  have hwhole : whole.Reads x hi s.cursor.current.pos s :=
    (reads_statement hr hs).bind fun n s₁ h₁ hn =>
      (steps_expectEnd h₁.ready).bind fun _ s₂ h₂ _ => ends h₂.ready (hn.later h₂)
  refine .dite (fun hkeyword => ?_) fun _ => hread hwhole
  have hpassed := Token.isEof_of_kind hkeyword (by decide)
  refine .ite (hread (reads_conditional hr hs)) ?_
  refine .ite (hread (reads_loop hr hs)) (.ite ?_ ?_)
  · exact hread (reads_method hr hs hpassed)
  · refine .dite (fun hword => ends hs ⟨rfl, fun _ => ?_, ?_, ?_⟩) fun _ => hread hwhole
    · exact contains_iff_mem.1 hword
    · exact .leaf rfl (le_refl _) hbounds.2.1 hbounds.2.2
    · exact .node rfl (nil_subset _) trivial (forall_mem_nil _)

end Grammar

/-- Reading a line forgets no name. If it succeeds, there is a node that lies within the line, and so do the nodes
inside it, each within its parent; the tree binds known names only and calls none of some names known before without
parentheses. -/
lemma read_parseLine {locals names : List Text} (hnames : names ⊆ locals) (offset : Nat) (line : Text) :
    locals ⊆ (parseLine locals offset line).2 ∧ ∀ n, (parseLine locals offset line).1 = .ok n →
      n.isAbsent = false ∧ (n.isUnknown → n.tag ∈ Grammar.structuralKeywords) ∧
        n.Fits offset (offset + line.length) ∧ n.Fine ⟨offset, line, names⟩ (parseLine locals offset line).2 := by
  rw [parseLine]
  cases hlex : lex offset line with
  | error fault => exact ⟨.refl _, fun n hn => by cases hn⟩
  | ok tokens =>
    let x : Passage := ⟨offset, line, names⟩
    have htext : line <+: line.drop (offset - offset) := by simp
    obtain ⟨hs, hpos⟩ := Parsing.ready_of_lex (x := x) hlex (le_refl offset) htext hnames
    have hline := Grammar.goes_line (Rules.sound_upTo x (Cursor.ofTokens tokens).depth) hs
    simp only [parseTokens]
    unfold Parse.Goes After at hline
    cases hrun : Grammar.line (Rules.upTo (Cursor.ofTokens tokens).depth) ⟨Cursor.ofTokens tokens, locals, false⟩ with
    | ok n s =>
      rw [hrun] at hline
      obtain ⟨hlater, hpresent, htag, hfits, hfine⟩ := hline
      refine ⟨hlater.subset, fun m hm => ?_⟩
      obtain rfl := Except.ok.inj hm
      exact ⟨hpresent, htag, hfits.mono hpos (le_refl _), hfine⟩
    | error fault s =>
      rw [hrun] at hline
      exact ⟨hline, fun n hn => by cases hn⟩

lemma fits_parseLine {locals locals' : List Text} {offset : Nat} {line : Text} {n : Node}
    (h : parseLine locals offset line = (.ok n, locals')) :
    n.isAbsent = false ∧ n.Fits offset (offset + line.length) := by
  obtain ⟨-, hread⟩ := read_parseLine (List.Subset.refl locals) offset line
  obtain ⟨hpresent, -, hfits, -⟩ := hread n (by rw [h])
  exact ⟨hpresent, hfits⟩

/-- Places nest. Whatever is known of local variables, a line that can be read gives a node, each node of its tree
lies within the line, and each child lies within its parent. -/
theorem everywhere_parseLine {locals locals' : List Text} {offset : Nat} {line : Text} {n : Node}
    (h : parseLine locals offset line = (.ok n, locals')) :
    n.isAbsent = false ∧ n.Everywhere (Node.Placed offset (offset + line.length)) := by
  obtain ⟨hpresent, hfits⟩ := fits_parseLine h
  exact ⟨hpresent, hfits.everywhere⟩

/-- On this line a setter is called under a condition, a sign is taken into a number, and there are a pair of
arguments, code in a string and a block. -/
theorem everywhere_parseLine_setter :
    ∃ n locals, parseLine [] 5 "a.b += f -1, k: \"x#\x7by\x7d\" \x7b |z| z \x7d if c[0]" = (.ok n, locals) ∧
      (n.walk fun _ => true).map (fun m => (m.span.start, m.span.stop)) =
        [(5, 46), (42, 46), (42, 43), (44, 45), (5, 38), (5, 6), (5, 38), (5, 8), (5, 6), (12, 38), (14, 16),
          (18, 28), (18, 20), (21, 28), (21, 28), (25, 26), (29, 38), (35, 36)] ∧
      n.Everywhere (Node.Placed 5 46) := by
  generalize hrun : parseLine [] 5 _ = answer
  have hspans : answer.1.toOption.map (fun n => (n.walk fun _ => true).map fun m => (m.span.start, m.span.stop)) =
      some [(5, 46), (42, 46), (42, 43), (44, 45), (5, 38), (5, 6), (5, 38), (5, 8), (5, 6), (12, 38), (14, 16),
        (18, 28), (18, 20), (21, 28), (21, 28), (25, 26), (29, 38), (35, 36)] := by
    rw [← hrun]
    decide +kernel
  obtain ⟨fault | n, locals⟩ := answer
  · cases hspans
  · exact ⟨n, locals, rfl, Option.some.inj hspans, (everywhere_parseLine hrun).2⟩

end Transpiler
