import Transpiler.Proofs.Syntax.Tokens

/-!
# Nothing is lost between a line and its tokens

The bytes in the range of a token spell its text, and between two ranges there are only blanks. So a line can be put
together again from its tokens, up to a comment at its end. Each kind of token has its own way of being spelled
(`TokenKind.Spells`); of a lexeme that is shown along the lexer (`Lexer.faithful_lexeme`), of all tokens of a line in
`lex_lossless`.
-/

namespace Transpiler

open List

namespace Text

/-- The bytes between two offsets of a text that begins at `base`. -/
def between (s : Text) (base start stop : Nat) : Text := (s.drop (start - base)).take (stop - start)

lemma between_append {base start stop : Nat} {before piece : Text} (hstart : start = base + before.length)
    (hstop : stop = start + piece.length) (after : Text) :
    between (before ++ (piece ++ after)) base start stop = piece := by
  rw [between, hstop, hstart, Nat.add_sub_cancel_left, Nat.add_sub_cancel_left, drop_left, take_left]

end Text

/-- Whether the bytes of a token of some kind spell a text. A symbol in quotes is not spelled out like this. -/
def TokenKind.Spells (kind : TokenKind) (text bytes : Text) : Prop :=
  match kind with
  | .eof => bytes = []
  | .label => bytes = text ++ [':'.toUInt8]
  | .symbol => [':'.toUInt8, '"'.toUInt8] <+: bytes ∨ bytes = ':'.toUInt8 :: text
  | .ident | .const | .ivar | .gvar | .int | .float | .string | .keyword | .op => bytes = text

open Lexer in
/-- A token of a text that begins at `base`, where the token before it ends at `last`. -/
structure Token.Stands (base : Nat) (s : Text) (last : Nat) (t : Token) : Prop where
  last_le : last ≤ t.pos
  gap : ∀ b ∈ s.between base last t.pos, b = ' ' ∨ b = '\t' ∨ b = '\r'
  spaced_iff : t.spaced ↔ s.between base last t.pos ≠ []
  stop_le : t.stop ≤ base + s.length
  spells : t.kind.Spells t.text (s.between base t.pos t.stop)
  pos_lt : t.kind ≠ .eof → t.pos < t.stop
  /-- The line ends with the text, or at a `#` in the place of a token. -/
  ends : t.kind = .eof → t.pos = t.stop ∧ (t.pos = base + s.length ∨ (s.drop (t.pos - base)).head? = some '#')
  longest : t.kind = .op → t.text ∈ operators ∧
    ∀ op ∈ operators, op <+: s.drop (t.pos - base) → op.length ≤ t.text.length
  code : ∀ p ∈ t.parts, p.isCode → t.pos ≤ p.pos ∧ p.pos + p.text.length ≤ t.stop ∧
    s.between base p.pos (p.pos + p.text.length) = p.text

namespace Lexer

/-! ## Lexemes -/

/-- The lexeme says what stands at the start of `s`, which begins at `offset`. -/
structure Lexeme.Faithful (offset : Nat) (s : Text) (l : Lexeme) : Prop where
  kind_ne : l.kind ≠ .eof
  spells : l.kind.Spells l.text (s.take (l.extra + 1))
  longest : l.kind = .op → l.text ∈ operators ∧ ∀ op ∈ operators, op <+: s → op.length ≤ l.text.length
  code : ∀ p ∈ l.parts, p.isCode → ∃ before after, s = before ++ (p.text ++ after) ∧ p.pos = offset + before.length

/-- The kinds of tokens whose text is just what they were read from, operators apart. -/
def isVerbatim : TokenKind → Bool
  | .ident | .const | .ivar | .gvar | .int | .float | .string | .keyword => true
  | .eof | .label | .symbol | .op => false

lemma faithful_verbatim {offset extra : Nat} {s text : Text} {kind : TokenKind} {parts : List StringPart}
    (hkind : isVerbatim kind) (htext : s.take (extra + 1) = text)
    (hcode : ∀ p ∈ parts, p.isCode → ∃ before after, s = before ++ (p.text ++ after) ∧ p.pos = offset + before.length) :
    Lexeme.Faithful offset s ⟨kind, text, parts, extra⟩ := by
  cases kind with
  | eof | label | symbol | op => cases hkind
  | _ => exact ⟨nofun, htext, nofun, hcode⟩

lemma faithful_string {offset stop : Nat} {c : UInt8} {rest : Text} {parts : List StringPart}
    (h : quotedParts c (offset + 1) [] (offset + 1) [] rest = .ok (parts, stop)) :
    Lexeme.Faithful offset (c :: rest) ⟨.string, (c :: rest).take (stop - offset), parts, stop - offset - 1⟩ := by
  obtain ⟨hlt, -, hparts⟩ := (quoted_of_quotedParts h).bounds
  refine faithful_verbatim rfl (by rw [Nat.sub_add_cancel (by omega)]) fun p hp hcode => ?_
  obtain ⟨before, after, hrest, hpos, -⟩ := (hparts p hp hcode).resolve_left not_mem_nil
  refine ⟨c :: before, after, by rw [hrest, cons_append], ?_⟩
  rw [hpos, length_cons, Nat.add_assoc, Nat.add_comm 1]

lemma faithful_symbol {offset : Nat} {rest : Text} {l : Lexeme} (h : symbol offset rest = .ok l) :
    l.Faithful offset (':' :: rest) := by
  rcases symbol_cases h with ⟨after, part, stop, rfl, hparts, -, rfl⟩ | ⟨name, mark, -, -, hname, rfl⟩
  · obtain ⟨hlt, -, -⟩ := (quoted_of_quotedParts hparts).bounds
    refine ⟨nofun, .inl ?_, nofun, by simp⟩
    rw [show stop - offset - 1 + 1 = stop - offset - 2 + 2 by omega]
    exact prefix_append _ (after.take _)
  · refine ⟨nofun, .inr ?_, nofun, by simp⟩
    rw [take_succ_cons, ← prefix_iff_eq_take.1 hname]

lemma isPrefix_nameMark (s : Text) : nameMark s <+: s := by
  cases s with
  | nil => exact nil_prefix
  | cons m more =>
    rw [nameMark]
    split_ifs
    · exact prefix_append [m] more
    · exact nil_prefix

lemma isVerbatim_nameKind (name : Text) : isVerbatim (nameKind name) := by
  rw [nameKind]
  split_ifs <;> rfl

lemma faithful_name {c : UInt8} (hc : isNameStart c) (offset : Nat) (rest : Text) :
    (name (c :: rest)).Faithful offset (c :: rest) := by
  have hstem : 0 < ((c :: rest).takeWhile isNameByte).length := by
    have hfirst : isNameByte c := by rw [isNameByte, hc, Bool.true_or]
    rw [takeWhile_cons_of_pos hfirst]
    exact Nat.succ_pos _
  have htext : (c :: rest).takeWhile isNameByte ++
      nameMark ((c :: rest).drop ((c :: rest).takeWhile isNameByte).length) <+: c :: rest := by
    have hsplit := take_append_drop ((c :: rest).takeWhile isNameByte).length (c :: rest)
    rw [← prefix_iff_eq_take.1 (List.takeWhile_prefix isNameByte)] at hsplit
    nth_rewrite 4 [← hsplit]
    exact (prefix_append_right_inj _).2 (isPrefix_nameMark _)
  unfold name
  dsimp only
  generalize hname : (c :: rest).takeWhile isNameByte ++ nameMark _ = text at htext
  have hlength := congrArg List.length hname
  rw [length_append] at hlength
  have htake := (prefix_iff_eq_take.1 htext).symm
  split_ifs with hlabel
  · -- the colon is the byte behind the name
    refine ⟨nofun, ?_, nofun, by simp⟩
    have hcolon := (Bool.and_eq_true_iff.1 hlabel).1
    have hsplit := take_append_drop text.length (c :: rest)
    cases hafter : (c :: rest).drop text.length with
    | nil =>
      rw [hafter] at hcolon
      cases hcolon
    | cons b more =>
      rw [hafter] at hcolon hsplit
      rw [htake] at hsplit
      obtain rfl := beq_iff_eq.1 hcolon
      rw [← hsplit]
      exact take_length_add_append 1
  · exact faithful_verbatim (isVerbatim_nameKind text) (by rw [Nat.sub_add_cancel (by omega), htake]) (by simp)

/-- Longer operators come first, so the first that stands at the start of a text is the longest that does. -/
lemma longest_operator? {s op : Text} (h : operator? s = some op) :
    op ∈ operators ∧ op <+: s ∧ ∀ op' ∈ operators, op' <+: s → op'.length ≤ op.length := by
  have hsorted : operators.Pairwise fun a b => b.length ≤ a.length := by decide
  rw [operator?, find?_eq_some_iff_append] at h
  obtain ⟨hop, shorter, longer, hsplit, hlonger⟩ := h
  rw [hsplit, pairwise_append, pairwise_cons] at hsorted
  rw [hsplit]
  refine ⟨by simp, isPrefixOf_iff_prefix.1 hop, fun op' hop' hprefix => ?_⟩
  rw [mem_append, mem_cons] at hop'
  rcases hop' with hop' | rfl | hop'
  · have hnot := hlonger op' hop'
    rw [List.isPrefixOf_iff_prefix.2 hprefix] at hnot
    cases hnot
  · exact Nat.le_refl _
  · exact hsorted.2.1.1 op' hop'

lemma faithful_operator {offset : Nat} {s op : Text} (h : operator? s = some op) :
    Lexeme.Faithful offset s ⟨.op, op, [], op.length - 1⟩ := by
  have hne : operators.all (fun op => 0 < op.length) := by decide
  obtain ⟨hmem, hprefix, hlongest⟩ := longest_operator? h
  have hpos := of_decide_eq_true (all_eq_true.1 hne op hmem)
  refine ⟨nofun, ?_, fun _ => ⟨hmem, hlongest⟩, by simp⟩
  simp only [TokenKind.Spells]
  rw [Nat.sub_add_cancel hpos]
  exact (prefix_iff_eq_take.1 hprefix).symm

lemma faithful_lexeme {offset : Nat} {c : UInt8} {rest : Text} {l : Lexeme} (h : lexeme offset c rest = .ok l) :
    l.Faithful offset (c :: rest) := by
  cases scans_lexeme h with
  | number hkind hn => exact faithful_verbatim (by rcases hkind with rfl | rfl <;> rfl) rfl (by simp)
  | string hc hparts => exact faithful_string hparts
  | sigil hkind =>
    have hname := prefix_iff_eq_take.1 (List.takeWhile_prefix isNameByte (l := rest))
    exact faithful_verbatim (by rcases hkind with rfl | rfl <;> rfl) (congrArg (c :: ·) hname.symm) (by simp)
  | symbol hc hsymbol =>
    rw [hc]
    exact faithful_symbol hsymbol
  | name hc => exact faithful_name hc offset rest
  | operator hop => exact faithful_operator hop

/-! ## Lines -/

section Cut

variable {offset : Nat} {s : Text} {tokens : List Token}

lemma Cut.exists_last (h : Cut offset s tokens) :
    ∃ front last, tokens = front ++ [last] ∧ last.kind = .eof ∧ ∀ t ∈ front, t.kind ≠ .eof := by
  induction h with
  | stop => exact ⟨[], _, rfl, rfl, by simp⟩
  | token hgap hlexeme hmore ih =>
    obtain ⟨front, last, rfl, hlast, hfront⟩ := ih
    refine ⟨_ :: front, last, rfl, hlast, ?_⟩
    exact forall_mem_cons.2 ⟨(faithful_lexeme hlexeme).kind_ne, hfront⟩

lemma Cut.pairwise (h : Cut offset s tokens) :
    (∀ t ∈ tokens, offset ≤ t.pos) ∧ tokens.Pairwise fun t u => t.stop ≤ u.pos := by
  induction h with
  | stop => exact ⟨by simp, pairwise_singleton _ _⟩
  | token hgap hlexeme hmore ih =>
    obtain ⟨hpos, hpairwise⟩ := ih
    refine ⟨forall_mem_cons.2 ⟨Nat.le_add_right _ _, fun t ht => ?_⟩, ?_⟩
    · have := hpos t ht
      omega
    · exact pairwise_cons.2 ⟨hpos, hpairwise⟩

lemma isGap_iff {b : UInt8} : isGap b ↔ b = ' ' ∨ b = '\t' ∨ b = '\r' := by
  simp only [isGap, Bool.or_eq_true, beq_iff_eq, or_assoc]

section Place

variable {base : Nat} {before gap : Text} (hgap : ∀ b ∈ gap, isGap b)
  (hoffset : offset = base + before.length)

include hgap hoffset

lemma between_gap (rest : Text) :
    let blanks := Text.between (before ++ (gap ++ rest)) base offset (offset + gap.length)
    (∀ b ∈ blanks, b = ' ' ∨ b = '\t' ∨ b = '\r') ∧ ((gap.length != 0) ↔ blanks ≠ []) := by
  intro blanks
  have hblanks : blanks = gap := Text.between_append hoffset rfl rest
  rw [hblanks]
  exact ⟨fun b hb => isGap_iff.1 (hgap b hb), by simp⟩

omit hgap in
lemma drop_gap (rest : Text) : (before ++ (gap ++ rest)).drop (offset + gap.length - base) = rest := by
  rw [hoffset, Nat.add_assoc, Nat.add_sub_cancel_left, ← append_assoc, ← length_append, drop_left]

lemma stands_eof {rest : Text} (hrest : rest = [] ∨ rest.head? = some '#') :
    Token.Stands base (before ++ (gap ++ rest)) offset
      ⟨.eof, [], [], offset + gap.length, offset + gap.length, gap.length != 0⟩ := by
  obtain ⟨hblank, hspaced⟩ := between_gap hgap hoffset rest
  have hlength : (before ++ (gap ++ rest)).length = before.length + (gap.length + rest.length) := by
    rw [length_append, length_append]
  exact {
    last_le := Nat.le_add_right _ _
    gap := hblank
    spaced_iff := hspaced
    stop_le := by simp only [hlength]; omega
    spells := by simp [TokenKind.Spells, Text.between]
    pos_lt := fun hkind => absurd rfl hkind
    ends := by
      refine fun _ => ⟨rfl, hrest.imp (fun hnil => ?_) fun hhash => ?_⟩
      · rw [hlength, hnil, length_nil]
        simp only
        omega
      · rw [drop_gap hoffset, hhash]
    longest := nofun
    code := by simp }

lemma stands_lexeme {c : UInt8} {rest : Text} {l : Lexeme} (hlexeme : lexeme (offset + gap.length) c rest = .ok l) :
    Token.Stands base (before ++ (gap ++ c :: rest)) offset ⟨l.kind, l.text, l.parts, offset + gap.length,
      offset + gap.length + 1 + l.extra, gap.length != 0⟩ := by
  obtain ⟨hblank, hspaced⟩ := between_gap hgap hoffset (c :: rest)
  obtain ⟨hextra, hinside⟩ := inside_lexeme hlexeme
  obtain ⟨hkind, hspells, hlongest, hcode⟩ := faithful_lexeme hlexeme
  have hfront : offset + gap.length = base + (before ++ gap).length := by
    rw [length_append, hoffset, Nat.add_assoc]
  -- a piece of what follows the blanks, at its place in the whole text
  have hbetween : ∀ (front : Text) {piece after : Text}, c :: rest = front ++ (piece ++ after) →
      Text.between (before ++ (gap ++ c :: rest)) base (offset + gap.length + front.length)
        (offset + gap.length + front.length + piece.length) = piece := by
    intro front piece after hsplit
    rw [hsplit, ← append_assoc, ← append_assoc]
    refine Text.between_append ?_ rfl after
    rw [hfront, Nat.add_assoc, ← length_append]
  exact {
    last_le := Nat.le_add_right _ _
    gap := hblank
    spaced_iff := hspaced
    stop_le := by
      simp only [length_append, length_cons]
      omega
    spells := by
      have htaken : ((c :: rest).take (l.extra + 1)).length = 1 + l.extra := by
        rw [length_take, length_cons]
        omega
      have hsplit : c :: rest = [] ++ ((c :: rest).take (l.extra + 1) ++ (c :: rest).drop (l.extra + 1)) :=
        (take_append_drop (l.extra + 1) (c :: rest)).symm
      have hbytes := hbetween [] hsplit
      rw [htaken, length_nil, Nat.add_zero, ← Nat.add_assoc] at hbytes
      rw [hbytes]
      exact hspells
    pos_lt := fun _ => by simp only; omega
    ends := fun heof => absurd heof hkind
    longest := by
      rw [drop_gap hoffset]
      exact hlongest
    code := by
      intro p hp hp'
      obtain ⟨hpos, hstop⟩ := hinside p hp hp'
      obtain ⟨front, after, hsplit, hplace⟩ := hcode p hp hp'
      refine ⟨hpos, hstop, ?_⟩
      rw [hplace]
      exact hbetween front hsplit }

end Place

lemma Cut.stands {base : Nat} (before : Text) (h : Cut offset s tokens) (hoffset : offset = base + before.length) :
    ∀ p ∈ (offset :: tokens.map Token.stop).zip tokens, p.2.Stands base (before ++ s) p.1 := by
  induction h generalizing before with
  | @stop offset gap rest hgap hrest =>
    rw [map_singleton, zip_cons_cons, zip_nil_right]
    exact forall_mem_singleton.2 (stands_eof hgap hoffset hrest)
  | @token offset gap rest c l more hgap hlexeme hmore ih =>
    rw [map_cons, zip_cons_cons]
    refine forall_mem_cons.2 ⟨stands_lexeme hgap hoffset hlexeme, ?_⟩
    -- the rest stands behind the token that has been read
    have hextra := (inside_lexeme hlexeme).extra_le
    have hsource : before ++ (gap ++ c :: rest) = before ++ (gap ++ c :: rest.take l.extra) ++ rest.drop l.extra := by
      rw [append_assoc, append_assoc, cons_append, take_append_drop]
    rw [hsource]
    refine ih _ ?_
    simp only [length_append, length_cons, length_take]
    omega

end Cut

end Lexer

open Lexer in
/-- Nothing is lost in reading tokens. Of the tokens of a text that begins at `base`, just the last ends the line; they
stand in order and do not overlap; and each one stands in the text behind the end of the one before it. -/
theorem lex_lossless {base : Nat} {s : Text} {tokens : List Token} (h : lex base s = .ok tokens) :
    (∃ front last, tokens = front ++ [last] ∧ last.kind = .eof ∧ ∀ t ∈ front, t.kind ≠ .eof) ∧
      tokens.Pairwise (fun t u => t.stop ≤ u.pos) ∧
      ∀ p ∈ (base :: tokens.map Token.stop).zip tokens, p.2.Stands base s p.1 :=
  have hcut := cut_of_lex h
  ⟨hcut.exists_last, hcut.pairwise.2, hcut.stands [] rfl⟩

/-- The outcome of reading a given line can be evaluated. -/
lemma lex_eq_ok {base : Nat} {s : Text} {tokens : List Token} (h : (lex base s).toOption = some tokens) :
    lex base s = .ok tokens := by
  cases hlex : lex base s with
  | error fault =>
    rw [hlex] at h
    cases h
  | ok tokens' =>
    rw [hlex] at h
    rw [Option.some.inj h]

/-- A line with a label, a symbol, a string with code in it, a number with an exponent and a comment. -/
theorem lex_lossless_commented : ∃ tokens, lex 3 "a?: :b= \"c#\x7bd\x7d\"**=\t5.0e3 # f" = .ok tokens ∧
    tokens.map (fun t => (t.kind, t.pos, t.stop)) = [(.label, 3, 6), (.symbol, 7, 10), (.string, 11, 18),
      (.op, 18, 21), (.float, 22, 27), (.eof, 28, 28)] ∧
    ∀ p ∈ (3 :: tokens.map Token.stop).zip tokens, p.2.Stands 3 "a?: :b= \"c#\x7bd\x7d\"**=\t5.0e3 # f" p.1 := by
  have hread : (lex 3 "a?: :b= \"c#\x7bd\x7d\"**=\t5.0e3 # f").toOption = some [⟨.label, "a?", [], 3, 6, false⟩,
      ⟨.symbol, "b=", [], 7, 10, true⟩,
      ⟨.string, "\"c#\x7bd\x7d\"", [⟨"c", 12, false⟩, ⟨"d", 15, true⟩], 11, 18, true⟩,
      ⟨.op, "**=", [], 18, 21, false⟩, ⟨.float, "5.0e3", [], 22, 27, true⟩, ⟨.eof, [], [], 28, 28, true⟩] := by
    decide +kernel
  have hlex := lex_eq_ok hread
  exact ⟨_, hlex, rfl, (lex_lossless hlex).2.2⟩

end Transpiler
