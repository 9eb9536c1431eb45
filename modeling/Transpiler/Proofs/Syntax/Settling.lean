import Transpiler.Proofs.Syntax.Readings

/-!
# Readings that come to an end

A reading is given bounds: how deep constructs nest, and how many rounds a loop has. `Parse.Agrees` says of the
readings for all choices of the bounds that they come to the same end and that none runs out. A reading that succeeds
stays on its line (`Parse.Settles`). A loop is settled round by round (`Parse.Rounds`): a round ends the loop, or it
takes a token and another one follows, so the loop ends after at most as many rounds as there are tokens left
(`Parse.Rounds.settles`).
-/

namespace Transpiler

open List

/-! ## Places on a line -/

/-- Tokens of which only the last one ends the line. -/
def Token.Ended (tokens : List Token) : Prop :=
  ∃ front last, tokens = front ++ [last] ∧ last.kind = .eof ∧ ∀ t ∈ front, t.kind ≠ .eof

lemma Token.Ended.suffix {tokens line : List Token} (h : Ended line) (hsuffix : tokens <:+ line)
    (hne : tokens ≠ []) : Ended tokens := by
  obtain ⟨front, last, rfl, hlast, hfront⟩ := h
  obtain ⟨front', rfl, hfront'⟩ := (suffix_concat_iff.1 hsuffix).resolve_left hne
  exact ⟨front', last, rfl, hlast, fun t ht => hfront t (hfront'.subset ht)⟩

namespace Cursor

variable {c : Cursor}

/-- The tokens that have not been passed. -/
def rest (c : Cursor) : List Token := c.current :: c.ahead

lemma next_of_isEof (h : c.current.isEof) : c.next = c := by simp [next, h]

/-- On a line that is ended, the cursor moves on by one token. -/
lemma rest_next (hended : Token.Ended c.rest) (h : c.current.isEof = false) : c.next.rest = c.ahead := by
  obtain ⟨current, ahead, lastEnd⟩ := c
  cases ahead with
  | nil =>
    obtain ⟨front, last, hrest, hlast, -⟩ := hended
    obtain rfl : current = last := by simpa [rest] using congrArg List.getLast? hrest
    simp [Token.isEof, hlast] at h
  | cons t rest =>
    simp only at h
    simp [next, h, Cursor.rest]

lemma rest_ofTokens {tokens : List Token} (h : Token.Ended tokens) : (ofTokens tokens).rest = tokens := by
  obtain ⟨front, last, rfl, -⟩ := h
  cases front <;> rfl

end Cursor

namespace Parsing

variable {line : List Token} {s s' s'' : Parsing}

/-- A state at some token of a line that is ended. -/
structure On (line : List Token) (s : Parsing) : Prop where
  ended : Token.Ended s.cursor.rest
  suffix : s.cursor.rest <:+ line

/-- The state `s'` is at the same token or at a later one. -/
abbrev Onward (s s' : Parsing) : Prop := s'.cursor.rest <:+ s.cursor.rest

/-- The state `s'` is behind the token at which `s` is. -/
abbrev Past (s s' : Parsing) : Prop := s'.cursor.rest <:+ s.cursor.ahead

lemma On.self (h : Token.Ended s.cursor.rest) : s.On s.cursor.rest := ⟨h, suffix_rfl⟩

lemma Past.onward (h : s.Past s') : s.Onward s' := h.trans (suffix_cons ..)

lemma On.later (h : s.On line) (hs : s.Onward s') : s'.On line :=
  ⟨h.ended.suffix hs (cons_ne_nil _ _), hs.trans h.suffix⟩

lemma Onward.past (h : s.Onward s') (h' : s'.Past s'') : s.Past s'' := by
  rcases suffix_cons_iff.1 h with heq | hlater
  · exact h'.trans ⟨[], (List.cons.inj heq).2⟩
  · exact (h'.trans (suffix_cons ..)).trans hlater

lemma On.onward_next (h : s.On line) : s.cursor.next.rest <:+ s.cursor.rest := by
  cases hend : s.cursor.current.isEof with
  | true => exact ⟨[], congrArg Cursor.rest (Cursor.next_of_isEof hend)⟩
  | false => exact Cursor.rest_next h.ended hend ▸ suffix_cons ..

end Parsing

namespace Parse

variable {ι κ α β γ : Type} {line : List Token} {s s₀ s' : Parsing}

/-! ## Families of readings -/

/-- All readings of a family come to the same end on `s`: they give what `ok` says, or they fail, but not because a
bound was too small, and then they are on some line. -/
def Agrees (p : ι → Parse α) (s : Parsing) (ok : α → Parsing → Prop) : Prop :=
  ∃ out, (∀ i, p i s = out) ∧ After (fun _ => out) s ok fun fault s' =>
    fault ≠ .exhausted ∧ Token.Ended s'.cursor.rest

/-- They do, and if they succeed they have not gone back. -/
abbrev Settles (p : ι → Parse α) (s : Parsing) (ok : α → Parsing → Prop) : Prop :=
  Agrees p s fun a s' => s.Onward s' ∧ ok a s'

/-- Settles in some way. -/
abbrev Halts (p : ι → Parse α) (s : Parsing) : Prop := Settles p s fun _ _ => True

/-- They have taken a token if they succeed. -/
abbrev Takes (p : ι → Parse α) (s : Parsing) : Prop := Settles p s fun _ s' => s.Past s'

/-- The readings come to an end everywhere on a line. -/
def Steady (line : List Token) (p : ι → Parse α) : Prop := ∀ s, s.On line → Halts p s

/-- What is left of a round that began at `s₀`: it ends the loop, or the loop goes on behind the token there, and that
whatever the bounds are. -/
def Turns (loop : ι → Nat → β → Parse α) (s₀ : Parsing) (p : ι × Nat → Parse α) (s : Parsing) : Prop :=
  Halts p s ∨ ∃ b s', s₀.Past s' ∧ ∀ i n, p (i, n) s = loop i n b s'

/-- Each round ends the loop or takes a token. -/
def Rounds (line : List Token) (loop : ι → Nat → β → Parse α) : Prop :=
  ∀ b s, s.On line → Turns loop s (fun i => loop i.1 (i.2 + 1) b) s

section Agrees

variable {p : ι → Parse α} {ok ok₁ : α → Parsing → Prop} {ok' : β → Parsing → Prop}

namespace Agrees

lemma reindex (h : Agrees p s ok) (g : κ → ι) : Agrees (fun k => p (g k)) s ok := by
  obtain ⟨out, hp, hout⟩ := h
  exact ⟨out, fun k => hp (g k), hout⟩

lemma throw {fault : SyntaxFault} (hs : Token.Ended s.cursor.rest) (h : fault ≠ .exhausted) :
    Agrees (fun _ : ι => throw fault) s ok :=
  ⟨.error fault s, fun _ => rfl, h, hs⟩

lemma mono (h : Agrees p s ok₁) (hok : ∀ a s', ok₁ a s' → ok a s') : Agrees p s ok := by
  obtain ⟨out, hp, hout⟩ := h
  exact ⟨out, hp, hout.mono hok fun _ _ h => h⟩

/-- The end they come to. -/
lemma cases (h : Agrees p s ok) : (∃ a s', (∀ i, p i s = .ok a s') ∧ ok a s') ∨
    ∃ fault s', (∀ i, p i s = .error fault s') ∧ fault ≠ .exhausted ∧ Token.Ended s'.cursor.rest := by
  obtain ⟨out, hp, hout⟩ := h
  cases out with
  | ok a s' => exact .inl ⟨a, s', hp, hout⟩
  | error fault s' => exact .inr ⟨fault, s', hp, hout⟩

lemma of_eq (h : Agrees p s' ok) {q : ι → Parse α} (hq : ∀ i, q i s = p i s') : Agrees q s ok := by
  obtain ⟨out, hp, hout⟩ := h
  exact ⟨out, fun i => (hq i).trans (hp i), hout⟩

lemma bind {f : ι → α → Parse β} (h : Agrees p s ok₁) (hf : ∀ a s', ok₁ a s' → Agrees (fun i => f i a) s' ok') :
    Agrees (fun i => p i >>= f i) s ok' := by
  rcases h.cases with ⟨a, s', hp, ha⟩ | ⟨fault, s', hp, hfault⟩
  · exact (hf a s' ha).of_eq fun i => bind_of_eq_ok (hp i)
  · exact ⟨.error fault s', fun i => bind_of_eq_error (hp i), hfault⟩

lemma peek_bind {f : ι → Token → Parse α} (h : Agrees (fun i => f i s.cursor.current) s ok) :
    Agrees (fun i => peek >>= f i) s ok := h

lemma ite {c : Prop} [Decidable c] {q : ι → Parse α} (h : c → Agrees p s ok) (h' : ¬c → Agrees q s ok) :
    Agrees (fun i => if c then p i else q i) s ok := by
  split
  · next hc => exact h hc
  · next hc => exact h' hc

end Agrees

namespace Settles

/-- What is settled from a later state on is settled. -/
lemma earlier (h : Settles p s' ok) (hs : s.Onward s') : Agrees p s' fun a s' => s.Onward s' ∧ ok a s' :=
  h.mono fun _ _ h => ⟨h.1.trans hs, h.2⟩

lemma pure {a : α} (h : ok a s) : Settles (fun _ : ι => pure a) s ok :=
  ⟨.ok a s, fun _ => rfl, suffix_rfl, h⟩

lemma bind {f : ι → α → Parse β} (h : Settles p s ok₁)
    (hf : ∀ a s', s.Onward s' → ok₁ a s' → Settles (fun i => f i a) s' ok') : Settles (fun i => p i >>= f i) s ok' :=
  Agrees.bind h fun a s' ha => (hf a s' ha.1 ha.2).earlier ha.1

lemma halts (h : Settles p s ok) : Halts p s := h.mono fun _ _ h => ⟨h.1, trivial⟩

end Settles

end Agrees

namespace Steady

variable {p : ι → Parse α}

lemma pure (a : α) : Steady line fun _ : ι => pure a := fun _ _ => .pure trivial

lemma throw {fault : SyntaxFault} (h : fault ≠ .exhausted) : Steady line fun _ : ι => (throw fault : Parse α) :=
  fun _ hs => .throw hs.ended h

lemma fail {fault : Nat → SyntaxFault} (h : ∀ n, fault n ≠ .exhausted) :
    Steady line fun _ : ι => (fail fault : Parse α) := fun s hs =>
  ⟨.error (fault s.cursor.current.pos) s, fun _ => rfl, h _, hs.ended⟩

lemma bind {f : ι → α → Parse β} (h : Steady line p) (hf : ∀ a, Steady line fun i => f i a) :
    Steady line fun i => p i >>= f i := fun s hs =>
  Settles.bind (h s hs) fun a s' hs' _ => hf a s' (hs.later hs')

lemma ite {c : Prop} [Decidable c] {q : ι → Parse α} (h : Steady line p) (h' : Steady line q) :
    Steady line fun i => if c then p i else q i := fun s hs => .ite (fun _ => h s hs) fun _ => h' s hs

/-- An action that only looks at the state. -/
lemma looks {act : Parse α} (h : ∀ s, ∃ a, act s = .ok a s) : Steady line fun _ : ι => act := fun s _ =>
  have ⟨a, ha⟩ := h s
  ⟨.ok a s, fun _ => ha, suffix_rfl, trivial⟩

/-- What comes behind the token at `s₀`. -/
lemma past (h : Steady s₀.cursor.ahead p) (hs₀ : Token.Ended s₀.cursor.rest) (hs : s₀.Past s) :
    Settles p s fun _ s' => s₀.Past s' :=
  (h s ⟨((Parsing.On.self hs₀).later hs.onward).ended, hs⟩).mono fun _ _ h => ⟨h.1, h.1.trans hs⟩

end Steady

/-! ## Steps of a reading -/

lemma settles_advance (hs : s.On line) : Settles (fun _ : ι => advance) s fun t s' =>
    t = s.cursor.current ∧ (t.isEof = false → s.Past s') :=
  ⟨_, fun _ => rfl, hs.onward_next, rfl, fun h => ⟨[], Cursor.rest_next hs.ended h⟩⟩

lemma settles_takeOp (op : Text) (hs : s.On line) : Settles (fun _ : ι => takeOp op) s fun taken s' =>
    taken → s.Past s' :=
  .ite (fun h => Settles.bind (settles_advance hs) fun _ _ _ ht => .pure fun _ => ht.2 (ht.1 ▸ Token.isEof_of_isOp h))
    fun _ => Settles.pure fun h => absurd h Bool.false_ne_true

lemma settles_takeKeyword (word : Text) (hs : s.On line) : Settles (fun _ : ι => takeKeyword word) s fun taken s' =>
    if taken then s.Past s' else s' = s :=
  .ite (fun h => Settles.bind (settles_advance hs) fun _ _ _ ht => .pure (ht.2 (ht.1 ▸ Token.isEof_of_isKeyword h)))
    fun _ => Settles.pure rfl

lemma steady_get : Steady line fun _ : ι => (get : Parse Parsing) := .looks fun _ => ⟨_, rfl⟩

lemma steady_peek : Steady line fun _ : ι => peek := .looks fun _ => ⟨_, rfl⟩

lemma steady_atOp (op : Text) : Steady line fun _ : ι => atOp op := .looks fun _ => ⟨_, rfl⟩

lemma steady_spanFrom (start : Nat) : Steady line fun _ : ι => spanFrom start := .looks fun _ => ⟨_, rfl⟩

lemma steady_spanned (start : Nat) (node : Span → α) :
    Steady line fun _ : ι => spanFrom start >>= fun span => pure (node span) :=
  .looks fun _ => ⟨_, rfl⟩

lemma steady_advance : Steady line fun _ : ι => advance := fun _ hs => (settles_advance hs).halts

lemma steady_takeOp (op : Text) : Steady line fun _ : ι => takeOp op := fun _ hs => (settles_takeOp op hs).halts

lemma steady_takeKeyword (word : Text) : Steady line fun _ : ι => takeKeyword word := fun _ hs =>
  (settles_takeKeyword word hs).halts

lemma steady_expectOp (op : Text) : Steady line fun _ : ι => expectOp op :=
  .bind (steady_takeOp op) fun _ => .ite (.pure _) (.bind steady_peek fun _ => .throw (by simp))

lemma steady_expectEnd : Steady line fun _ : ι => expectEnd :=
  .bind (.looks fun _ => ⟨_, rfl⟩) fun _ => .ite (.pure _) (.bind steady_peek fun _ => .throw (by simp))

lemma steady_modify {change : Parsing → Parsing} (h : ∀ s, (change s).cursor = s.cursor) :
    Steady line fun _ : ι => (modify change : Parse Unit) := fun s _ =>
  ⟨_, fun _ => rfl, ⟨[], congrArg Cursor.rest (h s)⟩, trivial⟩

lemma steady_learn (name : Text) : Steady line fun _ : ι => learn name := steady_modify fun _ => rfl

/-! ## Loops -/

namespace Turns

variable {loop : ι → Nat → β → Parse α} {p : ι × Nat → Parse α} {q : ι → Parse γ} {f : ι × Nat → γ → Parse α}

lemma again {b : β} (h : s₀.Past s) : Turns loop s₀ (fun i => loop i.1 i.2 b) s := .inr ⟨b, s, h, fun _ _ => rfl⟩

lemma stop {a : α} : Turns loop s₀ (fun _ => pure a) s := .inl (.pure trivial)

lemma bind {ok : γ → Parsing → Prop} (h : Settles q s ok)
    (hf : ∀ c s', s.Onward s' → ok c s' → Turns loop s₀ (fun i => f i c) s') :
    Turns loop s₀ (fun i => q i.1 >>= f i) s := by
  rcases h.cases with ⟨c, s', hq, hs, hc⟩ | ⟨fault, s', hq, hfault⟩
  · rcases hf c s' hs hc with hhalts | ⟨b, s'', hs'', hf⟩
    · exact .inl ((hhalts.earlier hs).of_eq fun i => bind_of_eq_ok (hq i.1))
    · exact .inr ⟨b, s'', hs'', fun i n => (bind_of_eq_ok (hq i)).trans (hf i n)⟩
  · exact .inl ⟨.error fault s', fun i => bind_of_eq_error (hq i.1), hfault⟩

lemma peek_bind {f : ι × Nat → Token → Parse α} (h : Turns loop s₀ (fun i => f i s.cursor.current) s) :
    Turns loop s₀ (fun i => peek >>= f i) s := h

lemma ite {c : Prop} [Decidable c] {p' : ι × Nat → Parse α} (h : c → Turns loop s₀ p s)
    (h' : ¬c → Turns loop s₀ p' s) : Turns loop s₀ (fun i => if c then p i else p' i) s := by
  split
  · next hc => exact h hc
  · next hc => exact h' hc

section Step

variable (hs : s₀.On line)

include hs

lemma step (h : s₀.Onward s) (hq : Steady line q) (hf : ∀ c s', s₀.Onward s' → Turns loop s₀ (fun i => f i c) s') :
    Turns loop s₀ (fun i => q i.1 >>= f i) s :=
  .bind (hq s (hs.later h)) fun c s' h' _ => hf c s' (h'.trans h)

/-- A step behind the token at which the round began. -/
lemma past (h : s₀.Past s) (hq : Steady line q) (hf : ∀ c s', s₀.Past s' → Turns loop s₀ (fun i => f i c) s') :
    Turns loop s₀ (fun i => q i.1 >>= f i) s :=
  .bind (hq s (hs.later h.onward)) fun c s' h' _ => hf c s' (h'.trans h)

lemma advance_bind {f : ι × Nat → Token → Parse α} (h : s₀.cursor.current.isEof = false)
    (hf : ∀ s, s₀.Past s → Turns loop s₀ (fun i => f i s₀.cursor.current) s) :
    Turns loop s₀ (fun i => advance >>= f i) s₀ := by
  refine .bind (settles_advance hs) ?_
  rintro _ s - ⟨rfl, hpast⟩
  exact hf s (hpast h)

lemma takes (h : s₀.Onward s) (hq : ∀ s, s.On line → Takes q s)
    (hf : ∀ c s', s₀.Past s' → Turns loop s₀ (fun i => f i c) s') : Turns loop s₀ (fun i => q i.1 >>= f i) s :=
  .bind (hq s (hs.later h)) fun c s' _ h' => hf c s' (h.past h')

lemma fail {fault : Nat → SyntaxFault} (h : s₀.Onward s) (hfault : ∀ n, fault n ≠ .exhausted) :
    Turns loop s₀ (fun _ => fail fault) s :=
  .inl (Steady.fail hfault s (hs.later h))

end Step

end Turns

namespace Rounds

variable {loop : ι → Nat → β → Parse α}

/-- A loop ends by itself: every bound that is at least the number of tokens left comes to the same end. -/
lemma settles (h : Rounds line loop) (b : β) (hs : s.On line) :
    Halts (fun i : ι × Nat => loop i.1 (i.2 + s.cursor.rest.length) b) s := by
  induction hn : s.cursor.rest.length using Nat.strongRecOn generalizing s b with
  | ind n ih =>
  have hlength : s.cursor.ahead.length + 1 = n := hn
  rcases h b s hs with hhalts | ⟨b', s', hpast, hround⟩
  · subst hlength
    exact hhalts.reindex fun i : ι × Nat => (i.1, i.2 + s.cursor.ahead.length)
  · have hle := hpast.length_le
    have hrest := ih _ (by omega) b' (hs.later hpast.onward) rfl
    let spare := s.cursor.ahead.length - s'.cursor.rest.length
    refine ((hrest.earlier hpast.onward).reindex fun i : ι × Nat => (i.1, i.2 + spare)).of_eq fun i => ?_
    have hbound : i.2 + n = i.2 + spare + s'.cursor.rest.length + 1 := by omega
    rw [hbound]
    exact hround i.1 (i.2 + spare + s'.cursor.rest.length)

/-- The room that a loop is given is enough. -/
lemma steady (h : Rounds line loop) (b : β) : Steady line fun i => budget >>= fun n => loop i n b := by
  intro s hs
  have hsettles := (h.settles b hs).reindex fun i : ι => (i, 0)
  simp only [Nat.zero_add] at hsettles
  exact hsettles

lemma bind {k : ι → α → Parse γ} (h : Rounds line loop) (b : β) (hk : ∀ a, Steady line fun i => k i a) :
    Steady line fun i => budget >>= fun n => loop i n b >>= k i :=
  (h.steady b).bind hk

/-- A loop inside the round of another one. -/
lemma turns {outer : ι → Nat → κ → Parse γ} {f : ι × Nat → α → Parse γ} (h : Rounds line loop) (b : β)
    (hs : s₀.On line) (hf : ∀ a s', s₀.Onward s' → Turns outer s₀ (fun i => f i a) s') :
    Turns outer s₀ (fun i => budget >>= fun n => loop i.1 n b >>= f i) s₀ :=
  .step hs suffix_rfl (h.steady b) hf

end Rounds

end Parse

end Transpiler
