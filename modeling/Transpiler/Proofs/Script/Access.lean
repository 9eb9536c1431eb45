import Transpiler.Proofs.Script.Delimiting

/-!
# Properties behind receivers

A method call or an assignment to a property puts the access right behind the text of the receiver. The two are cut
apart again unless the receiver ends with a whole number and the access starts with a dot: then the dot becomes the
point of the number, and the name is no longer the name of a property (`pieces_access`).
-/

namespace Transpiler.Script

open List

/-! ## Cutting an access off -/

namespace Js

/-- The lexemes of an access. -/
def access (property : Text) : List Lexeme :=
  if isProperty property then [.punct ".", .word property] else [.punct "[", .closed property.shown, .punct "]"]

/-- What follows an access: it is cut on its own, and no lexeme of an access goes on in it. -/
structure Follows (t : Text) (ts : List Lexeme) : Prop where
  breaks : Breaks t
  cuts : ∃ ls last, Cuts .blank t ls last ∧ ls ++ last.piece = ts

section Access

variable {t u v property : Text} {last : Lexeme} {ls ts : List Lexeme} {s : Stage}

lemma Cuts.pieces (h : Cuts .blank t ls last) : pieces t = some (ls ++ last.piece) := by
  rw [Cuts] at h
  rw [Js.pieces, h, Option.map_some]

lemma Follows.pieces (h : Follows t ts) : pieces t = some ts := by
  obtain ⟨ls, last, hcuts, rfl⟩ := h.cuts
  exact hcuts.pieces

lemma Follows.pieces_append (h : Follows u ts) (hcuts : Cuts .blank t ls last) (hlast : last.isEnd) :
    Js.pieces (t ++ u) = some (ls ++ [last] ++ ts) := by
  obtain ⟨us, l, hu, rfl⟩ := h.cuts
  rw [(hcuts.follow hlast (h.breaks.endsBefore hlast) hu).pieces, append_assoc]

/-- The first piece that a number completes is that number, possibly with more digits. -/
lemma Cuts.number (h : Cuts (.number s v) t ls last) : ∃ s' w rest, ls ++ last.piece = .number s' (v ++ w) :: rest := by
  induction t generalizing s v ls with
  | nil =>
    obtain ⟨rfl, rfl⟩ : [] = ls ∧ .number s v = last := by simpa [Cuts, cut] using h
    exact ⟨s, [], [], by simp [Lexeme.piece]⟩
  | cons b t ih =>
    -- the byte goes into the number, or it completes the number as it is
    obtain ⟨next, hb, ht⟩ | ⟨next, rest, -, -, -, rfl⟩ := h.cons_cases
    · obtain ⟨s₁, -, rfl⟩ : ∃ s₁, s.next b = some s₁ ∧ .number s₁ (v ++ [b]) = next := by
        simpa [Lexeme.prolong, Lexeme.extend] using hb
      obtain ⟨s', w, rest, heq⟩ := ih ht
      exact ⟨s', b :: w, rest, by simpa using heq⟩
    · exact ⟨s, [], rest ++ last.piece, by simp [Lexeme.piece]⟩

lemma cuts_member (property : Text) :
    ∃ ls last, Cuts .blank (member property) ls last ∧ last.isEnd ∧ ls ++ [last] = access property := by
  rw [member, access]
  split_ifs with hproperty
  · exact ⟨_, _, cuts_dot (isWord_of_isProperty hproperty), rfl, rfl⟩
  · have hquote := (reaches_quote property).cuts (by simp)
    exact ⟨_, _, cuts_bracketed (o := '[') (c := ']') (by decide) hquote (.inl rfl), by decide, rfl⟩

lemma pieces_apart (h : Cuts .blank t ls last) (hlast : last.isEnd)
    (hwhole : ¬(last.isWhole ∧ isProperty property)) (hu : Follows u ts) :
    pieces (t ++ member property ++ u) = some (ls ++ [last] ++ access property ++ ts) := by
  obtain ⟨ms, m, hmember, hm, heq⟩ := cuts_member property
  have hends : last.EndsBefore (member property) := by
    rw [member]
    split_ifs with hproperty
    · refine ⟨by simp [(isWord_of_isProperty hproperty).ne_nil], fun b hb => ?_⟩
      obtain rfl : '.' = b := Option.some.inj hb
      exact prolong_dot hlast (by simpa [hproperty] using hwhole)
    · exact Breaks.endsBefore ((Breaks.append (t := "[") (by decide) _).append _) hlast
  rw [hu.pieces_append (h.follow hlast hends hmember) hm, ← heq]
  simp

/-- A name behind a dot that a whole number takes in. -/
lemma pieces_taken (h : Cuts .blank t ls (.number .whole v)) (hproperty : isProperty property)
    (hu : Follows u ts) :
    ∃ s w rest, pieces (t ++ member property ++ u) = some (ls ++ .number s (v ++ "." ++ w) :: rest) := by
  -- behind its point a number may go on into the name: an `e` can start an exponent
  have hw := (isWord_of_isProperty hproperty).bytes
  obtain ⟨ms, m, hcuts, -, hm⟩ := cuts_wordBytes hw (l := .number .point (v ++ ".")) rfl
  have hdot : Cuts (.number .whole v) (member property) ms m := by
    rw [member, if_pos hproperty]
    exact cuts_prolong rfl hcuts
  have hend := (tight_spec hm).1
  obtain ⟨s, w, rest, heq⟩ := hcuts.number
  rw [piece_of_isEnd hend] at heq
  refine ⟨s, w, rest ++ ts, ?_⟩
  rw [hu.pieces_append (h.append hdot) hend, append_assoc ls ms, heq, append_assoc, cons_append]

/-- An access is cut off unless it puts a dot behind a whole number. -/
lemma pieces_access_iff (h : Cuts .blank t ls last) (hlast : last.isEnd) (hu : Follows u ts) :
    pieces (t ++ member property ++ u) = some (ls ++ [last] ++ access property ++ ts)
      ↔ ¬(last.isWhole ∧ isProperty property) := by
  refine ⟨?_, fun hwhole => pieces_apart h hlast hwhole hu⟩
  rintro hpieces ⟨hwhole, hproperty⟩
  obtain ⟨v, rfl⟩ := exists_of_isWhole hwhole
  obtain ⟨s, w, rest, htaken⟩ := pieces_taken h hproperty hu
  -- the number is longer than the one with which the receiver ends
  have hnumber : v ++ "." ++ w = v := by
    rw [htaken, Option.some_inj, append_assoc _ _ ts, append_assoc ls] at hpieces
    exact (Lexeme.number.inj (List.cons.inj (append_cancel_left hpieces)).1).2
  rw [append_assoc, append_right_eq_self] at hnumber
  exact cons_ne_nil _ _ hnumber

lemma follows_arguments (h : Inside 1 t) : ∃ ts, Follows ("(" ++ t ++ ")") ts := by
  obtain ⟨ls, last, hcuts, hlast, -⟩ := h
  have hcall := cuts_bracketed (o := '(') (c := ')') (by decide) hcuts hlast
  exact ⟨_, (Breaks.append (t := "(") (by decide) t).append ")", _, _, hcall, rfl⟩

lemma follows_value {a : Bool} (h : Reads t a last) : ∃ ts, Follows (" = " ++ t) ts := by
  obtain ⟨ls, hcuts, -⟩ := h.cuts
  have hequals : Cuts .blank " = " [.punct "="] .blank := by decide
  exact ⟨_, .append (t := " = ") (by decide) t, _, _, hequals.append hcuts, rfl⟩

end Access

end Js

/-! ## Calls with an access -/

/-- The property named. -/
def Form.property? : Form → Option Text
  | .method property | .setter property => some property
  | _ => none

section Calls

variable {o : Options} {span : Span} {receiver blk : Node} {name property : Text} {arguments : List Node} {e : Expr}

lemma Called.exists_follows (ho : o.Regular) {f : Form} (h : Called o receiver name arguments f e)
    (hf : f.property? = some property) (harguments : ∀ m ∈ arguments, m.Alike lexical m) (depth : Nat) :
    ∃ r rest ts, Yields o receiver r ∧ Js.Follows rest ts
      ∧ e.text o.indent depth = Place.receiver.text o depth receiver r ++ member property ++ rest := by
  cases h with
  | method hr hes =>
    obtain rfl := Option.some.inj hf
    obtain ⟨ts, hfollows⟩ := Js.follows_arguments (inside_arguments hes depth)
    refine ⟨_, _, ts, hr, hfollows, ?_⟩
    simp only [Expr.text, Place.text, append_assoc]
  | @setter _ a _ _ hsingle hr ha =>
    obtain rfl := Option.some.inj hf
    obtain ⟨s₁, s₂, hrun⟩ := ha
    obtain ⟨last, hreads, -⟩ := (edged_expr ho a (harguments a (by simp [hsingle])) s₁ _ s₂ hrun depth).reads
    obtain ⟨ts, hfollows⟩ := Js.follows_value hreads
    refine ⟨_, _, ts, hr, hfollows, ?_⟩
    simp only [Expr.text, Place.text, append_assoc]
  | _ => cases hf

/-- An access is cut into the pieces of the receiver, of the access and of what follows it, unless a dot follows
a whole number. -/
theorem pieces_access (ho : o.Regular)
    (hn : ∀ m ∈ (Node.call span receiver name arguments blk).walk fun _ => true, isLexical m = true)
    (hp : (form o receiver name arguments blk).property? = some property) {s s' : Progress}
    (h : expr o (.call span receiver name arguments blk) s = .ok e s') (depth : Nat) :
    ∃ r rest rs ts, Yields o receiver r
      ∧ e.text o.indent depth = Place.receiver.text o depth receiver r ++ member property ++ rest
      ∧ Js.pieces (Place.receiver.text o depth receiver r) = some rs ∧ Js.pieces rest = some ts
      ∧ (Js.pieces (e.text o.indent depth) = some (rs ++ Js.access property ++ ts)
        ↔ ¬(((edges o receiver).grouped (isEnclosed o receiver)).received.whole = true
            ∧ isProperty property = true)) := by
  cases alike_lexical hn with
  | call _ _ hreceiver harguments hblk =>
    have hcalled := called_call ho span receiver name harguments hblk s e s' h
    obtain ⟨r, rest, ts, ⟨s₁, s₂, hr⟩, hfollows, htext⟩ :=
      hcalled.exists_follows ho hp (forall₂_same.1 harguments) depth
    have hedged := ((edged_expr ho receiver hreceiver s₁ r s₂ hr depth).grouped o receiver).receiverText
    obtain ⟨last, hreads, hwhole⟩ := hedged.reads
    obtain ⟨ls, hcuts, -⟩ := hreads.cuts
    refine ⟨r, rest, ls ++ [last], ts, ⟨s₁, s₂, hr⟩, htext, ?_, hfollows.pieces, ?_⟩
    · rw [← Js.piece_of_isEnd hreads.isEnd]
      exact hcuts.pieces
    · rw [htext, ← hwhole]
      exact Js.pieces_access_iff hcuts hreads.isEnd hfollows

/-- A method of the number five. -/
def fiveMethod (name : Text) : Node := .call .none (.integer .none 5) name [] .absent

theorem pieces_access_fiveMethod :
    ∃ e rs ts, (∀ s, expr .default (fiveMethod "even?") s = .ok e s)
      ∧ Js.pieces (e.text Options.default.indent 0) = some (rs ++ Js.access "even?" ++ ts) := by
  have hlexical : ∀ m ∈ (fiveMethod "even?").walk fun _ => true, isLexical m = true := all_eq_true.1 (by decide)
  have hrun : ∀ s, expr .default (fiveMethod "even?") s = .ok (.call (.member (.integer 5) "even?") []) s :=
    fun _ => rfl
  obtain ⟨r, rest, rs, ts, -, -, -, -, hpieces⟩ :=
    pieces_access Options.regular_default hlexical rfl (hrun ⟨[], 0⟩) 0
  exact ⟨_, rs, ts, hrun, hpieces.2 (by decide +kernel)⟩

/-- The dot in front of a method of a whole number is part of the number. -/
theorem pieces_fiveMethod_times :
    (compile .default [fiveMethod "times"]).lines = [Text.ofString "5.times();"]
    ∧ Js.pieces "5.times();" = some [.number .point "5.", .word "times", .punct "(", .punct ")", .punct ";"] := by
  decide +kernel

end Calls

end Transpiler.Script
