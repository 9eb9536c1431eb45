import Mathlib.Algebra.Order.Group.Nat
import Transpiler.Proofs.After
import Transpiler.Proofs.Syntax.Learning
import Transpiler.Syntax.Parsing

/-!
# Readings from left to right

A reading takes tokens in order. It never goes back, and it forgets no name, also when it fails (`Parse.Goes`). A node
that it gives ends where the token last taken ends. `Node.Fits` says of a whole tree that each node lies between the
ends of its parent, and `Node.Read` puts together what holds of the tree of a reading: its place, its names, and that
it was understood.
-/

namespace Transpiler

open List

/-! ## Trees between two offsets -/

/-- A tree between two offsets in which each node lies between the ends of its parent. -/
inductive Node.Fits : Nat → Nat → Node → Prop
  | absent {lo hi : Nat} : Fits lo hi .absent
  | node {lo hi : Nat} {n : Node} : lo ≤ n.span.start → n.span.start ≤ n.span.stop → n.span.stop ≤ hi →
      (∀ c ∈ n.children, Fits n.span.start n.span.stop c) → Fits lo hi n

/-- A node between two offsets that has its children between its own ends. -/
structure Node.Placed (lo hi : Nat) (n : Node) : Prop where
  le_start : lo ≤ n.span.start
  start_le : n.span.start ≤ n.span.stop
  stop_le : n.span.stop ≤ hi
  nested : ∀ c ∈ n.children, c.isAbsent = false → n.span.start ≤ c.span.start ∧ c.span.stop ≤ n.span.stop

/-- Whether a node stands for something that was not understood. -/
def Node.isUnknown : Node → Bool
  | .unknown .. => true
  | _ => false

namespace Node.Fits

variable {lo hi : Nat} {n : Node}

lemma mono {lo' hi' : Nat} (h : n.Fits lo hi) (hlo : lo' ≤ lo) (hhi : hi ≤ hi') : n.Fits lo' hi' := by
  cases h with
  | absent => exact .absent
  | node hstart hle hstop hchildren => exact .node (hlo.trans hstart) hle (hstop.trans hhi) hchildren

lemma bounds (h : n.Fits lo hi) (hn : n.isAbsent = false) :
    lo ≤ n.span.start ∧ n.span.start ≤ n.span.stop ∧ n.span.stop ≤ hi := by
  cases h with
  | absent => cases hn
  | node hstart hle hstop hchildren => exact ⟨hstart, hle, hstop⟩

lemma inside (h : n.Fits lo hi) : ∀ c ∈ n.children, c.Fits n.span.start n.span.stop := by
  cases h with
  | absent => nofun
  | node _ _ _ hchildren => exact hchildren

lemma leaf (hchildren : n.children = []) (hstart : lo ≤ n.span.start) (hle : n.span.start ≤ n.span.stop)
    (hstop : n.span.stop ≤ hi) : n.Fits lo hi :=
  .node hstart hle hstop (by simp [hchildren])

lemma everywhere (h : n.Fits lo hi) : n.Everywhere (Node.Placed lo hi) := by
  induction h with
  | absent => exact everywhere_absent
  | @node lo hi n hstart hle hstop hchildren ih =>
    cases hn : n.isAbsent with
    | true =>
      rw [eq_absent_of_isAbsent hn]
      exact everywhere_absent
    | false =>
      refine (everywhere_iff hn).2 ⟨⟨hstart, hle, hstop, fun c hc hpresent => ?_⟩, fun c hc m hm => ?_⟩
      · obtain ⟨hlo, -, hhi⟩ := (hchildren c hc).bounds hpresent
        exact ⟨hlo, hhi⟩
      · obtain ⟨hlo, hm', hhi, hnested⟩ := ih c hc m hm
        exact ⟨hstart.trans hlo, hm', hhi.trans hstop, hnested⟩

end Node.Fits

/-! ## States of a reading -/

lemma Token.isEof_of_kind {t : Token} {kind : TokenKind} (h : (t.kind == kind)) (hkind : kind ≠ .eof) :
    t.isEof = false := by
  rw [beq_iff_eq] at h
  simp [Token.isEof, h, hkind]

lemma Token.isEof_of_isOp {t : Token} {op : Text} (h : t.isOp op) : t.isEof = false :=
  Token.isEof_of_kind (Bool.and_eq_true_iff.1 h).1 (by decide)

lemma Token.isEof_of_isKeyword {t : Token} {word : Text} (h : t.isKeyword word) : t.isEof = false :=
  Token.isEof_of_kind (Bool.and_eq_true_iff.1 h).1 (by decide)

/-- The tokens that are left stand in order after the one last taken and are written in the text, and the names known
before the line are known. -/
structure Parsing.Ready (x : Passage) (hi : Nat) (s : Parsing) : Prop where
  ordered : Token.Ordered hi s.cursor.lastEnd (s.cursor.current :: s.cursor.ahead)
  written : Token.WrittenFrom x s.cursor.lastEnd (s.cursor.current :: s.cursor.ahead)
  subset : x.names ⊆ s.locals

/-- A state that a reading comes to from `s`: it has not gone back, and no name is forgotten. -/
structure Parsing.Later (x : Passage) (hi : Nat) (s s' : Parsing) : Prop where
  ready : s'.Ready x hi
  lastEnd_le : s.cursor.lastEnd ≤ s'.cursor.lastEnd
  pos_le : s.cursor.current.pos ≤ s'.cursor.current.pos
  subset : s.locals ⊆ s'.locals

/-- The state behind the current token. The end of the line is never passed, and any other token is. -/
structure Parsing.Passes (s s' : Parsing) : Prop where
  cursor : s'.cursor = s.cursor.next
  lastEnd : s.cursor.current.isEof = false → s'.cursor.lastEnd = s.cursor.current.stop

namespace Parsing

variable {x : Passage} {hi : Nat} {s s' s'' : Parsing}

lemma Ready.bounds (h : s.Ready x hi) : s.cursor.lastEnd ≤ s.cursor.current.pos ∧
    s.cursor.current.pos ≤ s.cursor.current.stop ∧ s.cursor.current.stop ≤ hi :=
  ⟨h.ordered.1.le_pos, h.ordered.1.pos_le, h.ordered.1.stop_le⟩

lemma Ready.refl (h : s.Ready x hi) : s.Later x hi s := ⟨h, Nat.le_refl _, Nat.le_refl _, List.Subset.refl _⟩

lemma Later.trans (h : s.Later x hi s') (h' : s'.Later x hi s'') : s.Later x hi s'' :=
  ⟨h'.ready, h.lastEnd_le.trans h'.lastEnd_le, h.pos_le.trans h'.pos_le, List.Subset.trans h.subset h'.subset⟩

lemma Ready.of_cursor (h : s.Ready x hi) (hcursor : s'.cursor = s.cursor) (hsub : s.locals ⊆ s'.locals) :
    s.Later x hi s' where
  ready := ⟨by rw [hcursor]; exact h.ordered, by rw [hcursor]; exact h.written, List.Subset.trans h.subset hsub⟩
  lastEnd_le := by rw [hcursor]
  pos_le := by rw [hcursor]
  subset := hsub

lemma Ready.next_eq (h : s.Ready x hi) (hgoes : s.cursor.current.isEof = false) : ∃ t rest,
    s.cursor.next = ⟨t, rest, s.cursor.current.stop⟩ ∧ Token.Ordered hi s.cursor.current.stop (t :: rest) ∧
      Token.WrittenFrom x s.cursor.current.stop (t :: rest) := by
  have hordered := h.ordered.2.resolve_left (by simp [hgoes])
  have hwritten := h.written.2.resolve_left (by simp [hgoes])
  cases hahead : s.cursor.ahead with
  | nil =>
    rw [hahead] at hordered
    exact hordered.elim
  | cons t rest =>
    rw [hahead] at hordered hwritten
    exact ⟨t, rest, by simp [Cursor.next, hgoes, hahead], hordered, hwritten⟩

lemma Ready.next (h : s.Ready x hi) :
    s.Later x hi { s with cursor := s.cursor.next } ∧ s.Passes { s with cursor := s.cursor.next } := by
  cases hgoes : s.cursor.current.isEof with
  | true =>
    have hstays : s.cursor.next = s.cursor := by simp [Cursor.next, hgoes]
    exact ⟨h.of_cursor hstays (.refl _), rfl, by simp [hgoes]⟩
  | false =>
    obtain ⟨t, rest, hnext, hordered, hwritten⟩ := h.next_eq hgoes
    have hbounds := h.bounds
    have hpos := hordered.1.le_pos
    rw [hnext]
    refine ⟨⟨⟨hordered, hwritten, h.subset⟩, ?_, ?_, .refl _⟩, hnext.symm, fun _ => rfl⟩
    · exact hbounds.1.trans hbounds.2.1
    · exact hbounds.2.1.trans hpos

/-- A parenthesis that follows a name right away is written behind it. -/
lemma Ready.opens (h : s.Ready x hi) (hname : s.cursor.current.kind = .ident)
    (hop : s.cursor.next.current.isOp "(" = true) (hjoined : s.cursor.next.current.spaced = false) :
    x.base ≤ s.cursor.current.pos ∧
      s.cursor.current.text ++ ("(" : Text) <+: x.text.drop (s.cursor.current.pos - x.base) := by
  have hlegible := h.written.1.legible (by rw [hname]; rfl)
  have hgoes : s.cursor.current.isEof = false := by simp [Token.isEof, hname]
  obtain ⟨t, rest, hnext, -, hwritten⟩ := h.next_eq hgoes
  rw [hnext] at hop hjoined
  obtain ⟨hop, hparen⟩ := Bool.and_eq_true_iff.1 hop
  have hplace : t.pos = s.cursor.current.stop := hwritten.1.joined hjoined
  obtain ⟨hbehind, -⟩ := hwritten.1.legible (by rw [beq_iff_eq.1 hop]; rfl)
  have hbase := h.written.1.base_le
  refine ⟨hbase, ?_⟩
  obtain ⟨rest, hrest⟩ := hlegible.1
  have hdrop : x.text.drop (t.pos - x.base) = rest := by
    have hpos : t.pos - x.base = s.cursor.current.pos - x.base + s.cursor.current.text.length := by omega
    rw [hpos, ← drop_drop, ← hrest, drop_left]
  rw [beq_iff_eq.1 hparen, hdrop] at hbehind
  rw [← hrest, prefix_append_right_inj]
  exact hbehind

/-- A line, or the code of an interpolation, is read from the first of its tokens. -/
lemma ready_of_lex {pos : Nat} {text : Text} {tokens : List Token} (hlex : lex pos text = .ok tokens)
    (hbase : x.base ≤ pos) (htext : text <+: x.text.drop (pos - x.base)) {locals : List Text}
    (hsub : x.names ⊆ locals) : Ready x (pos + text.length) ⟨.ofTokens tokens, locals, false⟩ ∧
      pos ≤ (Cursor.ofTokens tokens).current.pos := by
  have hordered := ordered_lex hlex
  have hwritten := (Lexer.cut_of_lex hlex).written hbase htext
  cases tokens with
  | nil => exact hordered.elim
  | cons t rest =>
    refine ⟨⟨⟨⟨Nat.le_refl _, hordered.1.pos_le, hordered.1.stop_le, hordered.1.code⟩, hordered.2⟩, ?_, hsub⟩,
      hordered.1.le_pos⟩
    exact ⟨⟨hwritten.1.base_le, fun _ => rfl, hwritten.1.legible, hwritten.1.code⟩, hwritten.2⟩

end Parsing

/-! ## Trees of a reading -/

/-- A tree that was read from `start` on up to `s`: it lies in its place, and its names are as they should be. -/
structure Node.Sound (x : Passage) (start : Nat) (n : Node) (s : Parsing) : Prop where
  fits : n.Fits start s.cursor.lastEnd
  fine : n.Fine x s.locals

/-- The same of a node that is there and was understood. -/
structure Node.Read (x : Passage) (start : Nat) (n : Node) (s : Parsing) : Prop extends Node.Sound x start n s where
  present : n.isAbsent = false
  known : n.isUnknown = false

/-- The node itself was understood, binds known names only, and calls none known before without parentheses. -/
structure Node.Own (x : Passage) (names : List Text) (n : Node) : Prop where
  present : n.isAbsent = false
  known : n.isUnknown = false
  bindings : n.bindings ⊆ names
  heeds : n.Heeds x

/-- All the nodes are sound. -/
def AllSound (x : Passage) (start : Nat) (ns : List Node) (s : Parsing) : Prop := ∀ n ∈ ns, n.Sound x start s

section Sound

variable {x : Passage} {hi start start' : Nat} {n : Node} {ns : List Node} {s s' : Parsing}

lemma Node.Sound.mono (h : n.Sound x start s) (hle : start' ≤ start) (hs : s.Later x hi s') : n.Sound x start' s' :=
  ⟨h.fits.mono hle hs.lastEnd_le, h.fine.mono hs.subset⟩

lemma Node.Sound.weaken (h : n.Sound x start s) (hle : start' ≤ start) : n.Sound x start' s :=
  ⟨h.fits.mono hle (Nat.le_refl _), h.fine⟩

lemma Node.sound_absent : Sound x start .absent s := ⟨.absent, fine_absent⟩

lemma Node.Sound.inside (h : n.Sound x start s) (hn : n.isAbsent = false) :
    start ≤ n.span.start ∧ n.span.start ≤ s.cursor.lastEnd ∧ AllSound x n.span.start n.children s := by
  obtain ⟨hstart, hle, hstop⟩ := h.fits.bounds hn
  exact ⟨hstart, hle.trans hstop, fun c hc =>
    ⟨(h.fits.inside c hc).mono (Nat.le_refl _) hstop, h.fine.children c hc⟩⟩

lemma allSound_nil : AllSound x start [] s := forall_mem_nil _

lemma allSound_singleton : AllSound x start [n] s ↔ n.Sound x start s := forall_mem_singleton

lemma AllSound.later (h : AllSound x start ns s) (hs : s.Later x hi s') : AllSound x start ns s' := fun m hm =>
  (h m hm).mono (Nat.le_refl _) hs

lemma AllSound.concat (h : AllSound x start ns s) (hn : n.Sound x start s) : AllSound x start (ns ++ [n]) s :=
  forall_mem_append.2 ⟨h, allSound_singleton.2 hn⟩

lemma allSound_children_call {span : Span} {receiver b : Node} {name : Text} :
    AllSound x start (Node.call span receiver name ns b).children s ↔
      receiver.Sound x start s ∧ AllSound x start ns s ∧ b.Sound x start s := by
  simp only [AllSound, Node.children, cons_append, forall_mem_cons, forall_mem_append,
    not_mem_nil, false_imp_iff, implies_true, and_true]

lemma allSound_children_hash {span : Span} {pairs : List (Node × Node)} :
    AllSound x start (Node.hash span pairs).children s ↔ ∀ p ∈ pairs, p.1.Sound x start s ∧ p.2.Sound x start s := by
  simp only [AllSound, Node.children, forall_mem_flatMap, forall_mem_cons, not_mem_nil, false_imp_iff,
    implies_true, and_true]

namespace Node.Read

lemma later (h : n.Read x start s) (hs : s.Later x hi s') : n.Read x start s' :=
  ⟨h.mono (Nat.le_refl _) hs, h.present, h.known⟩

lemma weaken (h : n.Read x start s) (hle : start' ≤ start) : n.Read x start' s :=
  ⟨h.toSound.weaken hle, h.present, h.known⟩

lemma le (h : n.Read x start s) : start ≤ s.cursor.lastEnd := by
  obtain ⟨hstart, hle, hstop⟩ := h.fits.bounds h.present
  omega

lemma le_pos (h : n.Read x start s) (hs : s.Ready x hi) : start ≤ s.cursor.current.pos := h.le.trans hs.bounds.1

lemma node (hown : n.Own x s.locals) (hspan : n.span = ⟨start, s.cursor.lastEnd⟩) (hle : start ≤ s.cursor.lastEnd)
    (hchildren : AllSound x start n.children s) : n.Read x start s where
  fits := by
    refine .node ?_ ?_ ?_ fun c hc => ?_ <;> rw [hspan]
    · exact hle
    · exact (hchildren c hc).fits
  fine := .node hown.present hown.bindings hown.heeds fun c hc => (hchildren c hc).fine
  present := hown.present
  known := hown.known

lemma leaf (hown : n.Own x s.locals) (hchildren : n.children = []) (hstart : start ≤ n.span.start)
    (hle : n.span.start ≤ n.span.stop) (hstop : n.span.stop ≤ s.cursor.lastEnd) : n.Read x start s where
  fits := .leaf hchildren hstart hle hstop
  fine := .node hown.present hown.bindings hown.heeds (hchildren ▸ forall_mem_nil _)
  present := hown.present
  known := hown.known

lemma call {b : Node} (h : n.Read x start s) (name : Text) (hargs : AllSound x start ns s) (hb : b.Sound x start s) :
    (Node.call ⟨start, s.cursor.lastEnd⟩ n name ns b).Read x start s := by
  refine .node ⟨rfl, rfl, nil_subset _, ?_⟩ rfl h.le (allSound_children_call.2 ⟨h.toSound, hargs, hb⟩)
  have hpresent := h.present
  cases n with
  | absent => cases hpresent
  | _ => trivial

lemma hash {pairs : List (Node × Node)} (hle : start ≤ s.cursor.lastEnd)
    (h : ∀ p ∈ pairs, p.1.Sound x start s ∧ p.2.Sound x start s) :
    (Node.hash ⟨start, s.cursor.lastEnd⟩ pairs).Read x start s :=
  .node ⟨rfl, rfl, nil_subset _, trivial⟩ rfl hle (allSound_children_hash.2 h)

end Node.Read

end Sound

/-! ## Readings -/

namespace Parse

variable {α β : Type} {s : Parsing}

/-- What holds if a reading succeeds. -/
abbrev Gives (p : Parse α) (s : Parsing) (ok : α → Parsing → Prop) : Prop := After p s ok fun _ _ => True

section Bind

variable {ok : α → Parsing → Prop} {failed : SyntaxFault → Parsing → Prop}

lemma peek_bind {f : Token → Parse α} (h : After (f s.cursor.current) s ok failed) : After (peek >>= f) s ok failed := h

variable {f : Bool → Parse α}

lemma atOp_bind {op : Text} (h : After (f (s.cursor.current.isOp op)) s ok failed) :
    After (atOp op >>= f) s ok failed := h

lemma atKeyword_bind {word : Text}
    (h : After (f (s.cursor.current.isKeyword word)) s ok failed) : After (atKeyword word >>= f) s ok failed := h

lemma atEnd_bind (h : After (f s.cursor.current.isEof) s ok failed) : After (atEnd >>= f) s ok failed := h

lemma knows_bind {name : Text} (h : After (f (s.locals.contains name)) s ok failed) :
    After (knows name >>= f) s ok failed := h

lemma budget_bind {f : Nat → Parse α} (h : After (f (s.cursor.ahead.length + 1)) s ok failed) :
    After (budget >>= f) s ok failed := h

lemma spanFrom_bind {start : Nat} {f : Span → Parse α} (h : After (f ⟨start, s.cursor.lastEnd⟩) s ok failed) :
    After (spanFrom start >>= f) s ok failed := h

end Bind

variable {x : Passage} {hi : Nat} {ok ok₁ : α → Parsing → Prop} {ok' : β → Parsing → Prop}

/-- A reading that does not go back, forgets no name, also when it fails, and gives what `ok` says. -/
abbrev Goes (x : Passage) (hi : Nat) (p : Parse α) (s : Parsing) (ok : α → Parsing → Prop) : Prop :=
  After p s (fun a s' => s.Later x hi s' ∧ ok a s') fun _ s' => s.locals ⊆ s'.locals

/-- A reading of a node from `start` on. -/
abbrev Reads (x : Passage) (hi start : Nat) (p : Parse Node) (s : Parsing) : Prop := p.Goes x hi s (Node.Read x start)

lemma ends {a : α} (hs : s.Ready x hi) (h : ok a s) : (pure a : Parse α).Goes x hi s ok := ⟨hs.refl, h⟩

namespace Goes

lemma throw (fault : SyntaxFault) : (throw fault : Parse α).Goes x hi s ok := .refl s.locals

lemma fail (fault : Nat → SyntaxFault) : (fail fault : Parse α).Goes x hi s ok := .refl s.locals

lemma mono {p : Parse α} (h : p.Goes x hi s ok₁) (hok : ∀ a s', s.Later x hi s' → ok₁ a s' → ok a s') :
    p.Goes x hi s ok :=
  After.mono h (fun a s' ha => ⟨ha.1, hok a s' ha.1 ha.2⟩) fun _ _ hsub => hsub

lemma bind {p : Parse α} {f : α → Parse β} (h : p.Goes x hi s ok₁)
    (hf : ∀ a s', s.Later x hi s' → ok₁ a s' → (f a).Goes x hi s' ok') : (p >>= f).Goes x hi s ok' := by
  refine After.bind h fun a s' ha => ?_
  refine After.mono (hf a s' ha.1 ha.2) (fun b s'' hb => ⟨ha.1.trans hb.1, hb.2⟩) fun _ s'' hsub => ?_
  exact List.Subset.trans ha.1.subset hsub

end Goes

lemma advance_bind {f : Token → Parse β} (hs : s.Ready x hi)
    (hf : ∀ s', s.Later x hi s' → s.Passes s' → (f s.cursor.current).Goes x hi s' ok') :
    (advance >>= f).Goes x hi s ok' := by
  obtain ⟨hlater, hpasses⟩ := hs.next
  have hadvance : advance.Goes x hi s fun t s' => t = s.cursor.current ∧ s.Passes s' := ⟨hlater, rfl, hpasses⟩
  refine hadvance.bind ?_
  rintro _ s' hs' ⟨rfl, hpasses⟩
  exact hf s' hs' hpasses

lemma goes_learn (hs : s.Ready x hi) (name : Text) :
    (learn name).Goes x hi s fun _ s' => s'.cursor = s.cursor ∧ name ∈ s'.locals := by
  have hgrows : ∀ known : List Text, known ⊆ (if known.contains name then known else name :: known) ∧
      name ∈ (if known.contains name then known else name :: known) := by
    intro known
    split
    · next hmem => exact ⟨.refl _, contains_iff_mem.1 hmem⟩
    · exact ⟨subset_cons_self _ _, mem_cons_self⟩
  exact ⟨hs.of_cursor rfl (hgrows s.locals).1, rfl, (hgrows s.locals).2⟩

/-- A reading that gives nothing that matters here. -/
def Steps (x : Passage) (p : Parse α) : Prop := ∀ ⦃hi s⦄, s.Ready x hi → p.Goes x hi s fun _ _ => True

namespace Steps

lemma pure (a : α) : (pure a : Parse α).Steps x := fun _ _ hs => ends hs trivial

lemma throw (fault : SyntaxFault) : (throw fault : Parse α).Steps x := fun _ _ _ => .throw fault

lemma bind {p : Parse α} {f : α → Parse β} (hp : p.Steps x) (hf : ∀ a, (f a).Steps x) : (p >>= f).Steps x :=
  fun _ _ hs => (hp hs).bind fun a _ hs' _ => hf a hs'.ready

lemma ite {c : Prop} [Decidable c] {p p' : Parse α} (h : p.Steps x) (h' : p'.Steps x) :
    (if c then p else p').Steps x := by
  split
  · exact h
  · exact h'

end Steps

lemma steps_peek : peek.Steps x := fun _ _ hs => ⟨hs.refl, trivial⟩

lemma steps_atOp (op : Text) : (atOp op).Steps x := fun _ _ hs => ⟨hs.refl, trivial⟩

lemma steps_advance : advance.Steps x := fun _ _ hs => ⟨hs.next.1, trivial⟩

lemma steps_takeOp (op : Text) : (takeOp op).Steps x :=
  (steps_atOp op).bind fun _ => .ite (steps_advance.bind fun _ => .pure true) (.pure false)

lemma goes_takeKeyword (word : Text) (hs : s.Ready x hi) : (takeKeyword word).Goes x hi s fun taken s' =>
    taken → s.cursor.current.stop ≤ s'.cursor.lastEnd := by
  refine atKeyword_bind (.dite (fun hword => ?_) fun _ => ends hs nofun)
  refine advance_bind hs fun s' hs' hpasses => ends hs'.ready fun _ => ?_
  exact (hpasses.lastEnd (Token.isEof_of_isKeyword hword)).ge

lemma steps_takeKeyword (word : Text) : (takeKeyword word).Steps x := fun _ _ hs =>
  (goes_takeKeyword word hs).mono fun _ _ _ _ => trivial

lemma steps_expectOp (op : Text) : (expectOp op).Steps x :=
  (steps_takeOp op).bind fun _ => .ite (.pure ()) (steps_peek.bind fun _ => .throw _)

lemma steps_expectEnd : expectEnd.Steps x :=
  .bind (fun _ _ hs => ⟨hs.refl, trivial⟩) fun _ => .ite (.pure ()) (steps_peek.bind fun _ => .throw _)

end Parse

end Transpiler
