import Transpiler.Proofs.Script.Grouping
import Transpiler.Proofs.Script.Spelling

/-!
# Cutting generated code by longest match

The lexer gives up on what is no token. Here a text is only cut into pieces: a lexeme goes on as long as the next byte
continues it, and a comment up to the end of its line, and no piece is checked. So a text is cut also if JavaScript
would stop in it, and what is cut depends on what stands before it through one lexeme only (`Cuts`). The pieces of an
expression close the brackets they open, so those outside all brackets are found on the expression itself whatever
stands around it (`Reads`).
-/

namespace Transpiler.Script.Js

open List Lexeme

/-! ## Cutting -/

/-- Whether a text ends with a line terminator. -/
def endsLine (t : Text) : Bool :=
  (List.map Text.ofString ["\n", "\r", "\u2028", "\u2029"]).any (·.isSuffixOf t)

/-- Whether no line ends in a text. -/
def isOneLine (t : Text) : Bool := t.inits.all fun u => !endsLine u

lemma endsLine_newline (t : Text) : endsLine (t ++ [Text.newline]) := by
  rw [endsLine, map_cons, any_cons, Bool.or_eq_true]
  exact .inl (isSuffixOf_iff_suffix.2 (suffix_append _ _))

namespace Lexeme

/-- Opens a comment. -/
def slashes : Text := "//"

/-- The lexeme with one more byte, if that byte continues it. A comment goes on to the end of its line. -/
def prolong (l : Lexeme) (b : UInt8) : Option Lexeme :=
  match l with
  | .punct p =>
    if slashes.isPrefixOf p then some (if endsLine (p ++ [b]) then .blank else .punct (p ++ [b]))
    else l.extend b
  | _ => l.extend b

/-- A lexeme among the pieces of a text, where blanks and comments are none. -/
def piece : Lexeme → List Lexeme
  | .blank => []
  | .punct p => if slashes.isPrefixOf p then [] else [.punct p]
  | l => [l]

end Lexeme

/-- The pieces that a text completes after a lexeme, and the lexeme at its end. There are none if a byte starts no
lexeme. -/
def cut (l : Lexeme) : Text → Option (List Lexeme × Lexeme)
  | [] => some ([], l)
  | b :: rest =>
    match l.prolong b with
    | some next => cut next rest
    | none => do
      let next ← blank.prolong b
      let (ls, last) ← cut next rest
      return (l.piece ++ ls, last)

/-- The lexemes of a text. -/
def pieces (t : Text) : Option (List Lexeme) := (cut .blank t).map fun c => c.1 ++ c.2.piece

example : pieces "5.times // a = b" = some [.number .point "5.", .word "times"] := by decide

/-- Behind one lexeme, a text completes some pieces and ends with another lexeme. -/
def Cuts (l : Lexeme) (t : Text) (ls : List Lexeme) (last : Lexeme) : Prop := cut l t = some (ls, last)

instance (l : Lexeme) (t : Text) (ls : List Lexeme) (last : Lexeme) : Decidable (Cuts l t ls last) :=
  inferInstanceAs (Decidable (_ = _))

section Cuts

variable {l l' last : Lexeme} {t u : Text} {ls ls' : List Lexeme} {b : UInt8}

lemma Cuts.nil (l : Lexeme) : Cuts l [] [] l := rfl

lemma cuts_prolong (hb : l.prolong b = some l') (h : Cuts l' t ls last) : Cuts l (b :: t) ls last := by
  rw [Cuts, cut, hb]
  exact h

lemma cuts_start (hb : l.prolong b = none) (hstart : blank.prolong b = some l')
    (h : Cuts l' t ls last) : Cuts l (b :: t) (l.piece ++ ls) last := by
  rw [Cuts] at h
  rw [Cuts, cut, hb, hstart]
  simp [h]

/-- A byte continues the lexeme before it or completes it. -/
lemma Cuts.cons_cases (h : Cuts l (b :: t) ls last) :
    (∃ next, l.prolong b = some next ∧ Cuts next t ls last)
    ∨ ∃ next rest, l.prolong b = none ∧ blank.prolong b = some next ∧ Cuts next t rest last ∧ ls = l.piece ++ rest := by
  cases hb : l.prolong b with
  | some next =>
    rw [Cuts, cut, hb] at h
    exact .inl ⟨next, rfl, h⟩
  | none =>
    rw [Cuts, cut, hb] at h
    obtain ⟨next, hstart, ⟨rest, l₀⟩, hrest, heq⟩ : ∃ next, blank.prolong b = some next
        ∧ ∃ c, cut next t = some c ∧ (l.piece ++ c.1, c.2) = (ls, last) := by
      simpa [Option.bind_eq_some_iff] using h
    obtain ⟨rfl, rfl⟩ := Prod.mk.inj heq
    exact .inr ⟨next, rest, rfl, hstart, hrest, rfl⟩

lemma Cuts.append (h : Cuts l t ls l') (hu : Cuts l' u ls' last) : Cuts l (t ++ u) (ls ++ ls') last := by
  induction t generalizing l ls with
  | nil =>
    obtain ⟨rfl, rfl⟩ : [] = ls ∧ l = l' := by simpa [Cuts, cut] using h
    exact hu
  | cons b t ih =>
    obtain ⟨next, hb, ht⟩ | ⟨next, rest, hb, hstart, ht, rfl⟩ := h.cons_cases
    · exact cuts_prolong hb (ih ht)
    · rw [append_assoc]
      exact cuts_start hb hstart (ih ht)

lemma prolong_eq_extend (h : ∀ p, l ≠ .punct p) (b : UInt8) : l.prolong b = l.extend b := by
  cases l with
  | punct p => exact absurd rfl (h p)
  | _ => rfl

/-- A lexeme that is no punctuator came from none. -/
lemma Reaches.cuts (h : Reaches l t l') (hl : ∀ p, l' ≠ .punct p) : Cuts l t [] l' := by
  have hfrom : ∀ {l t}, Reaches l t l' → ∀ p, l ≠ .punct p := by
    intro l t hreaches
    induction t generalizing l with
    | nil =>
      obtain rfl : l = l' := by simpa [Reaches] using hreaches
      exact hl
    | cons b t ih =>
      rintro p rfl
      obtain ⟨next, hb, ht⟩ : ∃ next, (punct p).extend b = some next ∧ Reaches next t l' := by
        simpa [Reaches, Option.bind_eq_some_iff] using hreaches
      obtain ⟨-, rfl⟩ : _ ∧ .punct (p ++ [b]) = next := by simpa [extend] using hb
      exact ih ht _ rfl
  induction t generalizing l with
  | nil =>
    obtain rfl : l = l' := by simpa [Reaches] using h
    exact .nil l
  | cons b t ih =>
    obtain ⟨next, hb, ht⟩ : ∃ next, l.extend b = some next ∧ Reaches next t l' := by
      simpa [Reaches, Option.bind_eq_some_iff] using h
    exact cuts_prolong ((prolong_eq_extend (hfrom h) b).trans hb) (ih ht)

end Cuts

/-! ### Where lexemes end -/

/-- Whether a byte is a punctuator that no other continues: a bracket or a separator. -/
def isAlone (b : UInt8) : Bool := (Text.ofString "()[]\x7b\x7d,;:").contains b

/-- Whether a byte ends every lexeme with which an expression or a separator can end. -/
def breaks (b : UInt8) : Bool := (Text.ofString " \n()[]\x7b\x7d,;:").contains b

/-- A lexeme with which an expression or a separator can end. -/
def Lexeme.isEnd : Lexeme → Bool
  | .word _ | .number .. | .closed _ => true
  | .punct p => p.length == 1 && p.all isAlone
  | _ => false

section Ends

variable {l last : Lexeme} {b : UInt8} {t u : Text} {ls ls' : List Lexeme}

lemma slashes_isPrefixOf_single (b : UInt8) : slashes.isPrefixOf [b] = false := by
  have hslashes : slashes = ['/'.toUInt8, '/'.toUInt8] := by decide
  rw [hslashes, isPrefixOf_cons_cons, isPrefixOf_cons_nil, Bool.and_false]

lemma prolong_alone (h : isAlone b) (c : UInt8) : (punct [b]).prolong c = none := by
  have htable : (punctuators.all fun q => q.length == 1 || !q.head?.any isAlone) := by decide
  have hnot : punctuators.contains ([b] ++ [c]) = false := by
    refine Bool.eq_false_iff.2 fun hmem => ?_
    have hq := all_eq_true.1 htable _ (contains_iff_mem.1 hmem)
    simp [h] at hq
  simp only [prolong, slashes_isPrefixOf_single, Bool.false_eq_true, if_false, extend, hnot]

lemma prolong_punct {p : Text} (hp : p ∈ punctuators) (hslashes : slashes.isPrefixOf p = false)
    (h : ∀ b ∈ t.head?, prolongs b = false) : ∀ b ∈ t.head?, (punct p).prolong b = none := by
  intro b hb
  rw [prolong, hslashes]
  exact (endsAt_punct hp h b hb).1

lemma punct_of_isEnd {p : Text} (h : (punct p).isEnd) : ∃ b, p = [b] ∧ isAlone b := by
  simp only [isEnd, Bool.and_eq_true, beq_iff_eq] at h
  obtain ⟨b, rfl⟩ := length_eq_one_iff.1 h.1
  exact ⟨b, rfl, by simpa using h.2⟩

lemma piece_of_isEnd (h : l.isEnd) : l.piece = [l] := by
  cases l with
  | punct p =>
    obtain ⟨b, rfl, -⟩ := punct_of_isEnd h
    rw [piece, slashes_isPrefixOf_single]
    rfl
  | blank | string | escape | codePoint => cases h
  | _ => rfl

lemma prolong_of_breaks (h : l.isEnd) (hb : breaks b) : l.prolong b = none := by
  have hbytes : ((Text.ofString " \n()[]\x7b\x7d,;:").all fun b => !isWordByte b
      && [Stage.whole, .point, .fraction, .mark, .sign, .exponent].all fun s => (s.next b).isNone) := by
    decide
  have hbyte := all_eq_true.1 hbytes b (contains_iff_mem.1 hb)
  simp only [all_cons, all_nil, Bool.and_true, Bool.and_eq_true, Bool.not_eq_true', Option.isNone_iff_eq_none] at hbyte
  cases l with
  | word w => simp [prolong, extend, hbyte.1]
  | number s t => cases s <;> simp [prolong, extend, hbyte]
  | closed v => rfl
  | punct p =>
    obtain ⟨a, rfl, ha⟩ := punct_of_isEnd h
    exact prolong_alone ha b
  | blank | string | escape | codePoint => cases h

/-- A lexeme is complete before a text. -/
structure Lexeme.EndsBefore (l : Lexeme) (t : Text) : Prop where
  ne_nil : t ≠ []
  prolong : ∀ b ∈ t.head?, l.prolong b = none

/-- A text whose first byte ends what stands before it. -/
def Breaks (t : Text) : Prop := t.head?.any breaks

instance (t : Text) : Decidable (Breaks t) := inferInstanceAs (Decidable (_ = _))

lemma Breaks.append (h : Breaks t) (u : Text) : Breaks (t ++ u) := by
  cases t with
  | nil => cases h
  | cons b t => exact h

lemma Breaks.endsBefore (h : Breaks t) (hl : l.isEnd) : l.EndsBefore t := by
  refine ⟨?_, fun b hb => ?_⟩
  · rintro rfl
    cases h
  · rw [Breaks, Option.mem_def.1 hb] at h
    exact prolong_of_breaks hl h

/-- Where a lexeme ends, the text goes on as from the start. -/
lemma Cuts.after (h : Cuts .blank t ls last) (hl : l.EndsBefore t) : Cuts l t (l.piece ++ ls) last := by
  obtain ⟨hne, hends⟩ := hl
  cases t with
  | nil => exact absurd rfl hne
  | cons b t =>
    rw [Cuts, cut] at h
    cases hstart : blank.prolong b with
    | none => simp [hstart] at h
    | some next =>
      rw [hstart] at h
      exact cuts_start (hends b rfl) hstart h

/-- A text goes on behind the last lexeme of what stands before it. -/
lemma Cuts.follow {l' : Lexeme} (h : Cuts l t ls last) (hlast : last.isEnd) (hb : last.EndsBefore u)
    (hu : Cuts .blank u ls' l') : Cuts l (t ++ u) (ls ++ [last] ++ ls') l' := by
  have hafter := hu.after hb
  rw [piece_of_isEnd hlast] at hafter
  rw [append_assoc]
  exact h.append hafter

lemma Cuts.opened (ha : isAlone b) (hne : t ≠ []) (h : Cuts .blank t ls last) :
    Cuts (.punct [b]) t (.punct [b] :: ls) last := by
  have hafter := h.after ⟨hne, fun c _ => prolong_alone ha c⟩
  rwa [piece_of_isEnd (by simp [isEnd, ha])] at hafter

end Ends

/-! ## Levels -/

namespace Lexeme

/-- Whether it opens a bracket. -/
def isOpening (l : Lexeme) : Bool := l == .punct "(" || l == .punct "[" || l == .punct "\x7b"

/-- Whether it closes a bracket. -/
def isClosing (l : Lexeme) : Bool := l == .punct ")" || l == .punct "]" || l == .punct "\x7d"

/-- The operators of assignments and conditionals, which bind looser than all others. -/
def isLoose (l : Lexeme) : Bool := l == .punct "=" || l == .punct "?"

end Lexeme

/-- The number of open brackets after a piece. -/
def Lexeme.shift (level : Nat) (l : Lexeme) : Nat :=
  if l.isOpening then level + 1 else if l.isClosing then level - 1 else level

/-- The number of open brackets after some pieces. -/
def levelAfter : Nat → List Lexeme → Nat := List.foldl shift

/-- The pieces outside all brackets, where some brackets are open before them. -/
def exposed : Nat → List Lexeme → List Lexeme
  | _, [] => []
  | level, l :: ls =>
    (if level = 0 && !l.isOpening && !l.isClosing then [l] else []) ++ exposed (l.shift level) ls

/-- Inside some brackets, the pieces close what they open, or open again what they close. -/
def Keeps (brackets : Nat) (ls : List Lexeme) : Prop :=
  ∀ level, levelAfter (level + brackets) ls = level + brackets ∧ exposed (level + brackets) ls = []

/-- The pieces close what they open. -/
def Balanced (ls : List Lexeme) : Prop := levelAfter 0 ls = 0 ∧ Keeps 1 ls

section Levels

variable {l o c : Lexeme} {ls ls' : List Lexeme} {brackets : Nat}

lemma shift_opening (h : o.isOpening) (level : Nat) : o.shift level = level + 1 := if_pos h

lemma shift_closing (h : c.isClosing) (level : Nat) : c.shift (level + 1) = level := by
  have hopening : c.isOpening = false := by
    simp only [isClosing, Bool.or_eq_true, beq_iff_eq] at h
    rcases h with (rfl | rfl) | rfl <;> decide
  rw [shift, hopening, h]
  rfl

lemma levelAfter_append (level : Nat) (ls ls' : List Lexeme) :
    levelAfter level (ls ++ ls') = levelAfter (levelAfter level ls) ls' :=
  foldl_append

lemma exposed_append (level : Nat) (ls ls' : List Lexeme) :
    exposed level (ls ++ ls') = exposed level ls ++ exposed (levelAfter level ls) ls' := by
  induction ls generalizing level with
  | nil => rfl
  | cons l ls ih =>
    rw [cons_append, exposed, exposed, ih, append_assoc]
    rfl

lemma exposed_bracket (h : l.isOpening ∨ l.isClosing) (level : Nat) : exposed level [l] = [] := by
  rcases h with h | h <;> simp [exposed, h]

namespace Keeps

lemma nil : Keeps brackets [] := fun _ => ⟨rfl, rfl⟩

lemma append (h : Keeps brackets ls) (h' : Keeps brackets ls') : Keeps brackets (ls ++ ls') := by
  intro level
  rw [levelAfter_append, exposed_append, (h level).1, (h level).2]
  exact h' level

lemma succ (h : Keeps brackets ls) : Keeps (brackets + 1) ls := by
  intro level
  have hone := h (level + 1)
  rwa [show level + 1 + brackets = level + (brackets + 1) by omega] at hone

lemma enclosed (h : Keeps (brackets + 1) ls) (ho : o.isOpening) (hc : c.isClosing) :
    Keeps brackets ([o] ++ ls ++ [c]) := by
  intro level
  have hopened : levelAfter (level + brackets) [o] = level + (brackets + 1) := shift_opening ho _
  have hclosed : levelAfter (level + (brackets + 1)) [c] = level + brackets := shift_closing hc _
  rw [levelAfter_append, levelAfter_append, exposed_append, exposed_append, levelAfter_append, hopened,
    (h level).1, (h level).2, hclosed, exposed_bracket (.inl ho), exposed_bracket (.inr hc)]
  exact ⟨rfl, rfl⟩

lemma reopened (h : Keeps brackets ls) (hc : c.isClosing) (ho : o.isOpening) :
    Keeps (brackets + 1) ([c] ++ ls ++ [o]) := by
  intro level
  have hclosed : levelAfter (level + (brackets + 1)) [c] = level + brackets := shift_closing hc _
  have hopened : levelAfter (level + brackets) [o] = level + (brackets + 1) := shift_opening ho _
  rw [levelAfter_append, levelAfter_append, exposed_append, exposed_append, levelAfter_append, hclosed,
    (h level).1, (h level).2, hopened, exposed_bracket (.inr hc), exposed_bracket (.inl ho)]
  exact ⟨rfl, rfl⟩

end Keeps

namespace Balanced

lemma keeps (h : Balanced ls) (brackets : Nat) : Keeps (brackets + 1) ls := by
  induction brackets with
  | zero => exact h.2
  | succ brackets ih => exact ih.succ

lemma exposed_append (h : Balanced ls) (ls' : List Lexeme) : exposed 0 (ls ++ ls') = exposed 0 ls ++ exposed 0 ls' := by
  rw [Js.exposed_append, h.1]

lemma append (h : Balanced ls) (h' : Balanced ls') : Balanced (ls ++ ls') := by
  refine ⟨?_, h.2.append h'.2⟩
  rw [levelAfter_append, h.1, h'.1]

/-- Brackets show nothing of what is in them. -/
lemma enclosed (h : Keeps 1 ls) (ho : o.isOpening) (hc : c.isClosing) :
    Balanced ([o] ++ ls ++ [c]) ∧ exposed 0 ([o] ++ ls ++ [c]) = [] := by
  have hkeeps : Keeps 0 ([o] ++ ls ++ [c]) := h.enclosed ho hc
  obtain ⟨hlevel, hexposed⟩ := hkeeps 0
  exact ⟨⟨hlevel, h.succ.enclosed ho hc⟩, hexposed⟩

end Balanced

lemma balanced_plain (h : ∀ l ∈ ls, l.isOpening = false ∧ l.isClosing = false) : Balanced ls ∧ exposed 0 ls = ls := by
  have hplain : ∀ level, levelAfter level ls = level ∧ exposed level ls = if level = 0 then ls else [] := by
    intro level
    induction ls with
    | nil => exact ⟨rfl, by simp [exposed]⟩
    | cons l ls ih =>
      obtain ⟨hlevel, hexposed⟩ := ih fun l' hl' => h l' (by simp [hl'])
      have hl := h l (by simp)
      have hshift : l.shift level = level := by simp [shift, hl]
      refine ⟨(congrArg (levelAfter · ls) hshift).trans hlevel, ?_⟩
      rw [exposed, hshift, hexposed]
      by_cases hzero : level = 0 <;> simp [hl, hzero]
  exact ⟨⟨(hplain 0).1, fun level => ⟨(hplain _).1, by simp [hplain]⟩⟩, by simp [hplain]⟩

lemma Balanced.of_append_plain (h : Balanced (ls ++ ls'))
    (hplain : ∀ l ∈ ls', l.isOpening = false ∧ l.isClosing = false) : Balanced ls := by
  have hlevel : ∀ level, levelAfter level ls' = level := by
    intro level
    cases level with
    | zero => exact (balanced_plain hplain).1.1
    | succ level => exact ((balanced_plain hplain).1.2 level).1
  refine ⟨?_, fun level => ?_⟩
  · rw [← hlevel (levelAfter 0 ls), ← levelAfter_append]
    exact h.1
  · have hkeeps := h.2 level
    rw [levelAfter_append, Js.exposed_append, hlevel] at hkeeps
    exact ⟨hkeeps.1, (append_eq_nil_iff.1 hkeeps.2).1⟩

end Levels

/-! ## Texts inside brackets -/

/-- A text that is cut from blanks to blanks, inside some brackets. -/
def Gap (brackets : Nat) (t : Text) : Prop := ∃ ls, Cuts .blank t ls .blank ∧ Keeps brackets ls

/-- A text inside some brackets that ends with blanks or a complete lexeme. -/
def Inside (brackets : Nat) (t : Text) : Prop :=
  ∃ ls last, Cuts .blank t ls last ∧ (last.isEnd ∨ last = .blank) ∧ Keeps brackets (ls ++ last.piece)

section Inside

variable {brackets : Nat} {t u : Text} {ls : List Lexeme} {last l : Lexeme}

lemma Gap.inside (h : Gap brackets t) : Inside brackets t := by
  obtain ⟨ls, hcuts, hkeeps⟩ := h
  exact ⟨ls, .blank, hcuts, .inr rfl, by simpa [piece] using hkeeps⟩

lemma Gap.append (h : Gap brackets t) (hu : Gap brackets u) : Gap brackets (t ++ u) := by
  obtain ⟨ls, hcuts, hkeeps⟩ := h
  obtain ⟨ls', hcuts', hkeeps'⟩ := hu
  exact ⟨ls ++ ls', hcuts.append hcuts', hkeeps.append hkeeps'⟩

lemma Gap.append_inside (h : Gap brackets t) (hu : Inside brackets u) : Inside brackets (t ++ u) := by
  obtain ⟨ls, hcuts, hkeeps⟩ := h
  obtain ⟨ls', last, hcuts', hlast, hkeeps'⟩ := hu
  refine ⟨ls ++ ls', last, hcuts.append hcuts', hlast, ?_⟩
  rw [append_assoc]
  exact hkeeps.append hkeeps'

lemma Gap.succ (h : Gap brackets t) : Gap (brackets + 1) t := by
  obtain ⟨ls, hcuts, hkeeps⟩ := h
  exact ⟨ls, hcuts, hkeeps.succ⟩

lemma cuts_blanks (h : ∀ b ∈ t, isBlank b) : Cuts .blank t [] .blank := by
  induction t with
  | nil => exact .nil _
  | cons b t ih =>
    refine cuts_prolong ?_ (ih fun c hc => h c (by simp [hc]))
    simp [prolong, extend, h b (by simp)]

lemma gap_blanks (h : ∀ b ∈ t, isBlank b) : Gap brackets t := ⟨[], cuts_blanks h, .nil⟩

lemma Cuts.resume {ls' : List Lexeme} (h : Cuts .blank t ls last) (hlast : last.isEnd ∨ last = .blank)
    (hb : Breaks u) (hu : Cuts .blank u ls' l) : Cuts .blank (t ++ u) (ls ++ last.piece ++ ls') l := by
  rcases hlast with hlast | rfl
  · rw [piece_of_isEnd hlast]
    exact h.follow hlast (hb.endsBefore hlast) hu
  · simpa [piece] using h.append hu

lemma Inside.append (h : Inside brackets t) (hu : Inside brackets u) (hb : Breaks u) : Inside brackets (t ++ u) := by
  obtain ⟨ls, last, hcuts, hlast, hkeeps⟩ := h
  obtain ⟨ls', last', hcuts', hlast', hkeeps'⟩ := hu
  refine ⟨_, last', hcuts.resume hlast hb hcuts', hlast', ?_⟩
  rw [append_assoc]
  exact hkeeps.append hkeeps'

lemma Inside.append_gap (h : Inside brackets t) (hu : Gap brackets u) (hb : Breaks u) : Gap brackets (t ++ u) := by
  obtain ⟨ls, last, hcuts, hlast, hkeeps⟩ := h
  obtain ⟨ls', hcuts', hkeeps'⟩ := hu
  exact ⟨_, hcuts.resume hlast hb hcuts', hkeeps.append hkeeps'⟩

/-- The brackets, in pairs. -/
def bracketPairs : List (UInt8 × UInt8) :=
  [('(', ')'), ('[', ']'), ('\x7b', '\x7d')]

/-- A bracket is a lexeme of its own and ends what stands before it. -/
structure IsBracket (b : UInt8) : Prop where
  alone : isAlone b
  breaks : Breaks [b]
  cuts : Cuts .blank [b] [] (.punct [b])

instance (b : UInt8) : Decidable (IsBracket b) :=
  decidable_of_iff (isAlone b ∧ Breaks [b] ∧ Cuts .blank [b] [] (.punct [b]))
    ⟨fun ⟨halone, hbreaks, hcuts⟩ => ⟨halone, hbreaks, hcuts⟩, fun h => ⟨h.alone, h.breaks, h.cuts⟩⟩

lemma of_mem_bracketPairs {o c : UInt8} (h : (o, c) ∈ bracketPairs) :
    IsBracket o ∧ IsBracket c ∧ (punct [o]).isOpening ∧ (punct [c]).isClosing := by
  have htable : (bracketPairs.all fun p => decide (IsBracket p.1) && (decide (IsBracket p.2)
      && ((punct [p.1]).isOpening && (punct [p.2]).isClosing))) := by decide
  simpa only [Bool.and_eq_true, decide_eq_true_eq] using all_eq_true.1 htable (o, c) h

lemma isEnd_of_isAlone {b : UInt8} (h : isAlone b) : (punct [b]).isEnd := by
  simp [isEnd, h]

lemma cuts_bracketed {o c : UInt8} (hpair : (o, c) ∈ bracketPairs) (h : Cuts .blank t ls last)
    (hlast : last.isEnd ∨ last = .blank) :
    Cuts .blank ([o] ++ t ++ [c]) ([.punct [o]] ++ (ls ++ last.piece)) (.punct [c]) := by
  obtain ⟨hopens, hcloses, -⟩ := of_mem_bracketPairs hpair
  have hcontent := h.resume hlast hcloses.breaks hcloses.cuts
  have hopened := hcontent.opened hopens.alone (by simp)
  simpa using hopens.cuts.append hopened

lemma Inside.enclosed {o c : UInt8} (hpair : (o, c) ∈ bracketPairs) (h : Inside (brackets + 1) t) :
    Inside brackets ([o] ++ t ++ [c]) := by
  obtain ⟨-, hcloses, hopening, hclosing⟩ := of_mem_bracketPairs hpair
  obtain ⟨ls, last, hcuts, hlast, hkeeps⟩ := h
  refine ⟨_, _, cuts_bracketed hpair hcuts hlast, .inl (isEnd_of_isAlone hcloses.alone), ?_⟩
  rw [piece_of_isEnd (isEnd_of_isAlone hcloses.alone)]
  exact hkeeps.enclosed hopening hclosing

end Inside

/-! ## Texts of expressions -/

/-- What a sign can be when a further one follows: two signs of one kind are one lexeme. -/
def signs : List Lexeme := List.map (fun s => .punct (Text.ofString s)) ["-", "--", "+", "++", "!", "~"]

/-- What can stand before an expression, which then does not end at its first byte. -/
def starts : List Lexeme := .blank :: signs

/-- A text is cut like an expression. Behind blanks or signs it completes the same pieces but for the signs, it
closes the brackets it opens, and it ends with a lexeme that ends before every separator. It is loose if it has an
assignment or a conditional outside its brackets. -/
structure Reads (t : Text) (loose : Bool) (last : Lexeme) : Prop where
  isEnd : last.isEnd
  exists_core : ∃ core, (∀ l ∈ starts, ∃ front, (∀ s ∈ front, s ∈ signs) ∧ Cuts l t (front ++ core) last)
    ∧ Balanced (core ++ [last]) ∧ (exposed 0 (core ++ [last])).any isLoose = loose

section Reads

variable {t u : Text} {a b : Bool} {last l r : Lexeme} {ls : List Lexeme}

/-- Signs are no brackets, and they are not loose. -/
lemma balanced_signs (h : ∀ s ∈ ls, s ∈ signs) : Balanced ls ∧ (exposed 0 ls).any isLoose = false := by
  have htable : ∀ s ∈ signs, (s.isOpening = false ∧ s.isClosing = false) ∧ s.isLoose = false := by decide
  obtain ⟨hbalanced, hexposed⟩ := balanced_plain fun s hs => (htable s (h s hs)).1
  refine ⟨hbalanced, ?_⟩
  rw [hexposed, any_eq_false]
  intro s hs
  simp [(htable s (h s hs)).2]

lemma Reads.cuts (h : Reads t a last) : ∃ ls, Cuts .blank t ls last ∧ Balanced (ls ++ [last])
    ∧ (exposed 0 (ls ++ [last])).any isLoose = a := by
  obtain ⟨-, core, hcore, hbalanced, hloose⟩ := h
  obtain ⟨front, hfront, hcuts⟩ := hcore .blank (by simp [starts])
  obtain ⟨hsigns, hnone⟩ := balanced_signs hfront
  refine ⟨front ++ core, hcuts, ?_, ?_⟩
  · rw [append_assoc]
    exact hsigns.append hbalanced
  · rw [append_assoc, hsigns.exposed_append, any_append, hnone, hloose, Bool.false_or]

lemma Reads.ne_nil (h : Reads t a last) : t ≠ [] := by
  rintro rfl
  obtain ⟨ls, hcuts, -⟩ := h.cuts
  obtain ⟨-, rfl⟩ : [] = ls ∧ .blank = last := by simpa [Cuts, cut] using hcuts
  cases h.isEnd

lemma Reads.inside (h : Reads t a last) (brackets : Nat) : Inside (brackets + 1) t := by
  obtain ⟨ls, hcuts, hbalanced, -⟩ := h.cuts
  refine ⟨ls, last, hcuts, .inl h.isEnd, ?_⟩
  rw [piece_of_isEnd h.isEnd]
  exact hbalanced.keeps brackets

lemma reads_single (h : Cuts .blank t [] last) (hend : last.isEnd)
    (hplain : last.isOpening = false ∧ last.isClosing = false) (hloose : last.isLoose = false)
    (hne : t ≠ []) (hfirst : ∀ b ∈ t.head?, prolongs b = false) : Reads t false last := by
  obtain ⟨hbalanced, hexposed⟩ := balanced_plain (forall_mem_singleton.2 hplain)
  refine ⟨hend, [], fun l hl => ?_, by simpa using hbalanced, ?_⟩
  · rcases mem_cons.1 hl with rfl | hl
    · exact ⟨[], by simp, h⟩
    · have hsigns : ∀ s ∈ signs, s.piece = [s] ∧ ∃ p ∈ punctuators, s = .punct p ∧ slashes.isPrefixOf p = false := by
        decide
      obtain ⟨hpiece, p, hp, rfl, hslashes⟩ := hsigns l hl
      refine ⟨[.punct p], by simpa using hl, ?_⟩
      rw [← hpiece]
      exact h.after ⟨hne, prolong_punct hp hslashes hfirst⟩
  · rw [nil_append, hexposed]
    simp [hloose]

lemma Reads.sign {op : Text} (hop : op ∈ unaryOperators) (h : Reads t a last) : Reads (op ++ t) a last := by
  have htable : ∀ l ∈ starts, ∀ op ∈ unaryOperators,
      ((cut l op).any fun c => c.1.all signs.contains && signs.contains c.2) := by decide
  obtain ⟨hend, core, hcore, hbalanced, hloose⟩ := h
  refine ⟨hend, core, fun l hl => ?_, hbalanced, hloose⟩
  have hentry := htable l hl op hop
  cases hcut : cut l op with
  | none =>
    rw [hcut] at hentry
    cases hentry
  | some c =>
    rw [hcut, Option.any_some, Bool.and_eq_true, contains_iff_mem, all_eq_true] at hentry
    obtain ⟨front, hfront, hcuts⟩ := hcore c.2 (mem_cons_of_mem _ hentry.2)
    refine ⟨c.1 ++ front, fun s hs => ?_, ?_⟩
    · rcases mem_append.1 hs with hs | hs
      · exact contains_iff_mem.1 (hentry.1 s hs)
      · exact hfront s hs
    · rw [append_assoc]
      exact .append hcut hcuts

lemma Reads.follow (h : Reads t a last) (hb : last.EndsBefore u) (hu : Cuts .blank u ls l) (hl : l.isEnd)
    (hbalanced : Balanced (ls ++ [l])) :
    Reads (t ++ u) (a || (exposed 0 (ls ++ [l])).any isLoose) l := by
  obtain ⟨hend, core, hcore, hcoreBalanced, hloose⟩ := h
  have hassoc : core ++ [last] ++ ls ++ [l] = (core ++ [last]) ++ (ls ++ [l]) := by simp
  refine ⟨hl, core ++ [last] ++ ls, fun l₀ hl₀ => ?_, ?_, ?_⟩
  · obtain ⟨front, hfront, hcuts⟩ := hcore l₀ hl₀
    exact ⟨front, hfront, by simpa using hcuts.follow hend hb hu⟩
  · rw [hassoc]
    exact hcoreBalanced.append hbalanced
  · rw [hassoc, hcoreBalanced.exposed_append, any_append, hloose]

/-- Whether a text between blanks is one piece, and no bracket. -/
def isInfix (p : Text) : Bool :=
  decide (Cuts .blank (" " ++ p ++ " ") [.punct p] .blank) && !(punct p).isOpening && !(punct p).isClosing

lemma Reads.between {p : Text} (h : Reads t a l) (hp : isInfix p) (hu : Reads u b r) :
    Reads (t ++ " " ++ p ++ " " ++ u) (a || ((punct p).isLoose || b)) r := by
  simp only [isInfix, Bool.and_eq_true, decide_eq_true_eq, Bool.not_eq_true'] at hp
  obtain ⟨ls, hcuts, hbalanced, hloose⟩ := hu.cuts
  obtain ⟨hplain, hexposed⟩ := balanced_plain (forall_mem_singleton.2 ⟨hp.1.2, hp.2⟩)
  have hright := hp.1.1.append hcuts
  have hb : Breaks (" " ++ p ++ " " ++ u) := ((Breaks.append (t := " ") (by decide) p).append " ").append u
  have hreads := h.follow (hb.endsBefore h.isEnd) hright hu.isEnd (by simpa using hplain.append hbalanced)
  rw [append_assoc [punct p], hplain.exposed_append, hexposed, any_append, hloose] at hreads
  simpa using hreads

lemma Reads.spaced (h : Reads t a l) (hu : Reads u b r) : Reads (t ++ " " ++ u) (a || b) r := by
  obtain ⟨ls, hcuts, hbalanced, hloose⟩ := hu.cuts
  have hspace : Cuts .blank " " [] .blank := by decide
  have hb : Breaks (" " ++ u) := .append (t := " ") (by decide) u
  have hreads := h.follow (hb.endsBefore h.isEnd) (hspace.append hcuts) hu.isEnd hbalanced
  rw [nil_append, hloose] at hreads
  simpa using hreads

lemma Reads.enclosed {o c : UInt8} (hpair : (o, c) ∈ bracketPairs) (h : Reads t a last) (hu : Inside 1 u) :
    Reads (t ++ ([o] ++ u ++ [c])) a (.punct [c]) := by
  obtain ⟨hopens, hcloses, hopening, hclosing⟩ := of_mem_bracketPairs hpair
  obtain ⟨ls, l, hcuts, hl, hkeeps⟩ := hu
  obtain ⟨hbalanced, hnone⟩ := Balanced.enclosed hkeeps hopening hclosing
  have hb : Breaks ([o] ++ u ++ [c]) := (hopens.breaks.append u).append [c]
  have hreads := h.follow (hb.endsBefore h.isEnd) (cuts_bracketed hpair hcuts hl) (isEnd_of_isAlone hcloses.alone)
    (by simpa using hbalanced)
  rwa [hnone, any_nil, Bool.or_false] at hreads

lemma reads_enclosed {o c : UInt8} (hpair : (o, c) ∈ bracketPairs) (h : Inside 1 t) :
    Reads ([o] ++ t ++ [c]) false (.punct [c]) := by
  obtain ⟨-, hcloses, hopening, hclosing⟩ := of_mem_bracketPairs hpair
  obtain ⟨ls, l, hcuts, hl, hkeeps⟩ := h
  obtain ⟨hbalanced, hnone⟩ := Balanced.enclosed hkeeps hopening hclosing
  have hwhole := cuts_bracketed hpair hcuts hl
  refine ⟨isEnd_of_isAlone hcloses.alone, [.punct [o]] ++ (ls ++ l.piece), fun l₀ hl₀ => ?_, hbalanced, ?_⟩
  · rcases mem_cons.1 hl₀ with rfl | hsign
    · exact ⟨[], by simp, hwhole⟩
    · have hsigns : (signs.all fun s => bracketPairs.all fun p => s.piece == [s] && (s.prolong p.1).isNone) := by
        decide
      obtain ⟨hpiece, hends⟩ : l₀.piece = [l₀] ∧ l₀.prolong o = none := by
        simpa using all_eq_true.1 (all_eq_true.1 hsigns l₀ hsign) (o, c) hpair
      refine ⟨[l₀], by simpa using hsign, ?_⟩
      rw [← hpiece]
      exact hwhole.after ⟨by simp, by simpa using hends⟩
  · exact congrArg (List.any · isLoose) hnone

/-! ### Words, numbers and strings -/

lemma reads_word {w : Text} (h : IsWord w) : Reads w false (.word w) := by
  obtain ⟨hne, hfirst⟩ := (spells_word h).first (by simp)
  exact reads_single (h.reaches.cuts (by simp)) rfl ⟨rfl, rfl⟩ rfl hne hfirst

lemma reads_number {s : Stage} (hs : s.isComplete) (h : Reaches .blank t (.number s t)) :
    Reads t false (.number s t) := by
  obtain ⟨hne, hfirst⟩ := (spells_number ⟨s, hs, h⟩).first (by simp)
  exact reads_single (h.cuts (by simp)) rfl ⟨rfl, rfl⟩ rfl hne hfirst

lemma reads_quote (v : Text) : Reads (quote v) false (.closed v.shown) := by
  obtain ⟨hne, hfirst⟩ := (spells_quote v).first (by simp)
  exact reads_single ((reaches_quote v).cuts (by simp)) rfl ⟨rfl, rfl⟩ rfl hne hfirst

lemma Reads.signed {sign : Text} (hsign : sign ∈ [[], ("-" : Text), "+"]) (h : Reads t a last) :
    Reads (sign ++ t) a last := by
  simp only [mem_cons, not_mem_nil, or_false] at hsign
  rcases hsign with rfl | rfl | rfl
  · exact h
  · exact h.sign (by decide)
  · exact h.sign (by decide)

/-! ### Properties -/

/-- Whether a lexeme is a number in which nothing but digits has been read. -/
def Lexeme.isWhole : Lexeme → Bool
  | .number .whole _ => true
  | _ => false

lemma exists_of_isWhole (h : l.isWhole) : ∃ v, l = .number .whole v := by
  cases l with
  | number s v =>
    cases s with
    | whole => exact ⟨v, rfl⟩
    | _ => cases h
  | _ => cases h

lemma prolong_dot (h : l.isEnd) (hwhole : l.isWhole = false) : l.prolong '.' = none := by
  cases l with
  | word | closed => rfl
  | number s t =>
    cases s with
    | whole => cases hwhole
    | _ => rfl
  | punct p =>
    obtain ⟨a, rfl, ha⟩ := punct_of_isEnd h
    exact prolong_alone ha _
  | blank | string | escape | codePoint => cases h

lemma cuts_dot {w : Text} (hw : IsWord w) : Cuts .blank ("." ++ w) [.punct "."] (.word w) := by
  have hdot : Cuts .blank "." [] (.punct ".") := by decide
  have hends : (punct ".").EndsBefore w := by
    obtain ⟨hne, hfirst⟩ := (spells_word hw).first (by simp)
    exact ⟨hne, prolong_punct (by decide) (by decide) hfirst⟩
  exact hdot.append ((hw.reaches.cuts (by simp)).after hends)

/-- A dot and a name end an expression, unless its last lexeme is a whole number. -/
lemma Reads.dot {w : Text} (h : Reads t a last) (hlast : last.isWhole = false) (hw : IsWord w) :
    Reads (t ++ ("." ++ w)) a (.word w) := by
  have hends : last.EndsBefore ("." ++ w) := by
    refine ⟨by simp [hw.ne_nil], fun b hb => ?_⟩
    obtain rfl : '.' = b := Option.some.inj hb
    exact prolong_dot h.isEnd hlast
  have hbrackets : ∀ l ∈ [punct ".", .word w], l.isOpening = false ∧ l.isClosing = false :=
    forall_mem_cons.2 ⟨by decide, forall_mem_singleton.2 ⟨rfl, rfl⟩⟩
  obtain ⟨hplain, hexposed⟩ := balanced_plain hbrackets
  have hreads := h.follow hends (cuts_dot hw) rfl hplain
  have hloose : (exposed 0 ([.punct "."] ++ [.word w])).any isLoose = false := by
    rw [singleton_append, hexposed]
    rfl
  rwa [hloose, Bool.or_false] at hreads

/-- Whether a lexeme is a word or a number. -/
def Lexeme.isTight : Lexeme → Bool
  | .word _ | .number .. => true
  | _ => false

lemma tight_spec (h : l.isTight) : l.isEnd ∧ (l.isOpening = false ∧ l.isClosing = false) ∧ l.isLoose = false := by
  cases l with
  | word | number => exact ⟨rfl, ⟨rfl, rfl⟩, rfl⟩
  | _ => cases h

/-- Bytes of words lead from words and numbers to words and numbers. -/
lemma cuts_wordBytes {w : Text} (hw : ∀ b ∈ w, isWordByte b) (hl : l.isTight) :
    ∃ ls last, Cuts l w ls last ∧ (∀ l' ∈ ls, l'.isTight) ∧ last.isTight := by
  induction w generalizing l with
  | nil => exact ⟨[], l, .nil l, by simp, hl⟩
  | cons b w ih =>
    have hb := hw b (by simp)
    have hrest : ∀ c ∈ w, isWordByte c := fun c hc => hw c (by simp [hc])
    cases hnext : l.prolong b with
    | some next =>
      have htight : next.isTight := by
        cases l with
        | word v =>
          obtain rfl : .word (v ++ [b]) = next := by simpa [prolong, extend, hb] using hnext
          rfl
        | number s v =>
          obtain ⟨s', -, rfl⟩ : ∃ s', s.next b = some s' ∧ number s' (v ++ [b]) = next := by
            simpa [prolong, extend] using hnext
          rfl
        | _ => cases hl
      obtain ⟨ls, last, hcuts, hls, hlast⟩ := ih hrest htight
      exact ⟨ls, last, cuts_prolong hnext hcuts, hls, hlast⟩
    | none =>
      -- a byte of a word that does not continue a number starts a word or, as a digit, the next number
      have hstart : ∃ next, blank.prolong b = some next ∧ next.isTight := by
        cases hdigit : isDigit b with
        | true =>
          refine ⟨.number .whole [b], ?_, rfl⟩
          simp [prolong, extend, not_blank_of_isWordByte hb, hdigit]
        | false => exact ⟨.word [b], extend_blank_word hb hdigit, rfl⟩
      obtain ⟨next, hnextStart, htight⟩ := hstart
      obtain ⟨ls, last, hcuts, hls, hlast⟩ := ih hrest htight
      refine ⟨l.piece ++ ls, last, cuts_start hnext hnextStart hcuts, fun l' hl' => ?_, hlast⟩
      rw [piece_of_isEnd (tight_spec hl).1] at hl'
      rcases mem_append.1 hl' with hl' | hl'
      · rwa [mem_singleton.1 hl']
      · exact hls l' hl'

/-- A whole number takes in a dot, and then as much of a name as goes with it. -/
lemma Reads.dot_whole {v w : Text} (h : Reads t a (.number .whole v)) (hw : ∀ b ∈ w, isWordByte b) :
    ∃ last, Reads (t ++ ("." ++ w)) a last := by
  obtain ⟨-, core, hcore, hbalanced, hloose⟩ := h
  obtain ⟨ls, last, hcuts, hls, hlast⟩ := cuts_wordBytes hw (l := .number .point (v ++ ".")) rfl
  have hdot : Cuts (.number .whole v) ("." ++ w) ls last := cuts_prolong rfl hcuts
  have hnumber : ∀ l ∈ [number .whole v], l.isOpening = false ∧ l.isClosing = false :=
    forall_mem_singleton.2 ⟨rfl, rfl⟩
  have htight : ∀ l ∈ ls ++ [last], l.isTight := by
    intro l hl
    rcases mem_append.1 hl with hl | hl
    · exact hls l hl
    · rwa [mem_singleton.1 hl]
  -- the number leaves the pieces and comes back longer, and neither is a bracket
  have hcoreBalanced := hbalanced.of_append_plain hnumber
  obtain ⟨hplain, hexposed⟩ := balanced_plain fun l hl => (tight_spec (htight l hl)).2.1
  refine ⟨last, (tight_spec hlast).1, core ++ ls, fun l hl => ?_, ?_, ?_⟩
  · obtain ⟨front, hfront, hfrom⟩ := hcore l hl
    exact ⟨front, hfront, by simpa using hfrom.append hdot⟩
  · rw [append_assoc]
    exact hcoreBalanced.append hplain
  · have hnone : (ls ++ [last]).any isLoose = false := by
      rw [any_eq_false]
      intro l hl
      simp [(tight_spec (htight l hl)).2.2]
    rw [hcoreBalanced.exposed_append, any_append, (balanced_plain hnumber).2] at hloose
    rw [append_assoc, hcoreBalanced.exposed_append, any_append, hexposed, hnone, ← hloose]
    rfl

lemma Reads.member (h : Reads t a last) (property : Text) : ∃ last', Reads (t ++ Script.member property) a last' := by
  rw [Script.member]
  split_ifs with hproperty
  · have hw := isWord_of_isProperty hproperty
    cases hwhole : last.isWhole with
    | false => exact ⟨_, h.dot hwhole hw⟩
    | true =>
      obtain ⟨v, rfl⟩ := exists_of_isWhole hwhole
      exact h.dot_whole hw.bytes
  · exact ⟨_, h.enclosed (o := '[') (c := ']') (by decide) ((reads_quote property).inside 0)⟩

end Reads

end Transpiler.Script.Js
