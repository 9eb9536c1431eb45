import Mathlib.Tactic.Common
import Mathlib.Tactic.SplitIfs
import Transpiler.Syntax.Lexer

/-!
# The places of tokens

A token takes its first byte and some of the bytes after it, and it can be read in a few ways only (`Lexer.Scans`).
`Lexer.Cut` says how a text is cut into tokens that way; so the tokens of a text stand in order within it, up to the
one that ends the line (`ordered_lex`). The code of an interpolation lies inside its token.
-/

namespace Transpiler

open List Nat

/-- A token lies between two offsets, and the code inside it lies between its ends. -/
structure Token.Within (lo hi : Nat) (t : Token) : Prop where
  le_pos : lo ≤ t.pos
  pos_le : t.pos ≤ t.stop
  stop_le : t.stop ≤ hi
  code : ∀ p ∈ t.parts, p.isCode → t.pos ≤ p.pos ∧ p.pos + p.text.length ≤ t.stop

/-- Tokens that stand in order between two offsets, up to one that ends the line. -/
def Token.Ordered (hi : Nat) : Nat → List Token → Prop
  | _, [] => False
  | lo, t :: rest => t.Within lo hi ∧ (t.isEof ∨ Ordered hi t.stop rest)

variable {s rest : Text} {offset : Nat} {tokens : List Token}

namespace Lexer

/-! ## Lengths -/

lemma length_takeWhile_le (p : UInt8 → Bool) (s : Text) : (s.takeWhile p).length ≤ s.length :=
  (takeWhile_sublist p).length_le

lemma length_pos_of_startsWith {p : UInt8 → Bool} (h : startsWith p s) : 0 < s.length := by
  cases s with
  | nil => cases h
  | cons b rest => exact succ_pos _

lemma fractionLength_le (s : Text) : fractionLength s ≤ s.length := by
  unfold fractionLength
  split
  · next point d rest =>
    have hrest := length_takeWhile_le isNumeralByte rest
    split_ifs
    · simp only [length_cons]
      omega
    · exact zero_le _
  · exact zero_le _

lemma exponentLength_le (s : Text) : exponentLength s ≤ s.length := by
  unfold exponentLength
  split
  · next mark rest =>
    dsimp only
    split_ifs with hmark hdigit
    · have hdigits := length_takeWhile_le isNumeralByte (rest.drop (signLength rest))
      have hpos := length_pos_of_startsWith hdigit
      rw [length_drop] at hdigits hpos
      simp only [length_cons]
      omega
    · exact zero_le _
    · exact zero_le _
  · exact zero_le _

lemma codeLength?_split {depth n : Nat} (h : codeLength? depth s = some n) :
    n < s.length ∧ s = s.take n ++ 0x7d :: s.drop (n + 1) := by
  induction s generalizing depth n with
  | nil => cases h
  | cons b rest ih =>
    have hmore : ∀ {d}, (codeLength? d rest).map (· + 1) = some n →
        n < (b :: rest).length ∧ b :: rest = (b :: rest).take n ++ 0x7d :: (b :: rest).drop (n + 1) := by
      intro d hd
      obtain ⟨k, hk, rfl⟩ := Option.map_eq_some_iff.1 hd
      refine ⟨succ_lt_succ (ih hk).1, ?_⟩
      rw [take_succ_cons, drop_succ_cons, cons_append, ← (ih hk).2]
    rw [codeLength?] at h
    split_ifs at h with hopen hclose
    · exact hmore h
    · obtain rfl := Option.some.inj h
      rw [beq_iff_eq.1 hclose]
      exact ⟨succ_pos _, rfl⟩
    · exact hmore h
    · exact hmore h

/-! ## Ways of reading -/

variable {l : Lexeme}

lemma number_cases {c : UInt8} (hc : isDigit c)
    (h : number offset (c :: rest) = .ok l) : ∃ kind n, (kind = .int ∨ kind = .float) ∧ n ≤ rest.length ∧
      l = ⟨kind, (c :: rest).take (n + 1), [], n⟩ := by
  rw [number] at h
  by_cases hbase : (startsWith (· == '0') (c :: rest) && startsWith isBaseMark ((c :: rest).drop 1))
  · rw [if_pos hbase] at h
    obtain rfl := Except.ok.inj h
    have hmark := length_pos_of_startsWith (Bool.and_eq_true_iff.1 hbase).2
    have hdigits := length_takeWhile_le isNameByte ((c :: rest).drop 2)
    simp only [length_drop, length_cons] at hmark hdigits
    refine ⟨.int, 2 + (((c :: rest).drop 2).takeWhile isNameByte).length - 1, .inl rfl, by omega, ?_⟩
    rw [Nat.sub_add_cancel (by omega)]
  · rw [if_neg hbase] at h
    dsimp only at h
    have hfirst : 0 < ((c :: rest).takeWhile isNumeralByte).length := by
      rw [takeWhile_cons_of_pos (by rw [isNumeralByte, hc, Bool.true_or])]
      exact succ_pos _
    have hwhole := length_takeWhile_le isNumeralByte (c :: rest)
    generalize ((c :: rest).takeWhile isNumeralByte).length = whole at h hwhole hfirst
    have hfraction := fractionLength_le ((c :: rest).drop whole)
    generalize fractionLength ((c :: rest).drop whole) = fraction at h hfraction
    have hexponent := exponentLength_le ((c :: rest).drop (whole + fraction))
    generalize exponentLength ((c :: rest).drop (whole + fraction)) = exponent at h hexponent
    simp only [length_drop, length_cons] at hwhole hfraction hexponent
    by_cases hbad : startsWith isNameStart ((c :: rest).drop (whole + fraction + exponent))
    · rw [if_pos hbad] at h
      cases h
    · rw [if_neg hbad] at h
      obtain rfl := Except.ok.inj h
      refine ⟨_, whole + fraction + exponent - 1, ?_, by omega, by rw [Nat.sub_add_cancel (by omega)]⟩
      split_ifs
      exacts [.inl rfl, .inr rfl]

/-- A symbol is one literal in double quotes, or a name with the mark that stands behind it. -/
lemma symbol_cases (h : symbol offset rest = .ok l) :
    (∃ after part stop, rest = '"'.toUInt8 :: after ∧
      quotedParts '"'.toUInt8 (offset + 2) [] (offset + 2) [] after = .ok ([part], stop) ∧ part.isCode = false ∧
      l = ⟨.symbol, part.text, [], stop - offset - 1⟩) ∨
    ∃ name mark, name = rest.takeWhile isNameByte ∧ mark ∈ [[], "?", "!", ("=" : Text)] ∧ name ++ mark <+: rest ∧
      l = ⟨.symbol, name ++ mark, [], (name ++ mark).length⟩ := by
  cases rest with
  | nil => cases h
  | cons q after =>
    rw [symbol] at h
    split_ifs at h with hquoted
    · obtain rfl := beq_iff_eq.1 hquoted
      cases hparts : quotedParts '"' (offset + 2) [] (offset + 2) [] after with
      | error fault =>
        rw [hparts] at h
        cases h
      | ok answer =>
        obtain ⟨parts, stop⟩ := answer
        rw [hparts] at h
        simp only [bind, Except.bind] at h
        split at h
        · next part =>
          split_ifs at h with hcode
          obtain rfl := Except.ok.inj h
          exact .inl ⟨after, part, stop, rfl, hparts, by simpa using hcode, rfl⟩
        · cases h
    · have hsplit := takeWhile_append_dropWhile (p := isNameByte) (l := q :: after)
      refine .inr ⟨_, _, rfl, ?_, ?_, (Except.ok.inj h).symm⟩
      · split
        · simp
        · next m more hrest =>
          split_ifs with hm
          · simp only [Bool.or_eq_true, Bool.and_eq_true, beq_iff_eq] at hm
            rcases hm with (rfl | rfl) | ⟨rfl, -⟩ <;> decide
          · simp
      · -- the mark is the first byte behind the name, if it is there
        nth_rewrite 3 [← hsplit]
        rw [prefix_append_right_inj]
        split
        · exact nil_prefix
        · next m more hrest =>
          rw [hrest]
          split_ifs
          · exact prefix_append [m] more
          · exact nil_prefix

/-- The ways in which a lexeme is read that starts with the byte `c` at `offset`. -/
inductive Scans (offset : Nat) (c : UInt8) (rest : Text) : Lexeme → Prop
  | number {kind : TokenKind} {n : Nat} (hkind : kind = .int ∨ kind = .float) (hn : n ≤ rest.length) :
      Scans offset c rest ⟨kind, (c :: rest).take (n + 1), [], n⟩
  | string {parts : List StringPart} {stop : Nat} (hc : c = '"' ∨ c = '\'')
      (h : quotedParts c (offset + 1) [] (offset + 1) [] rest = .ok (parts, stop)) :
      Scans offset c rest ⟨.string, (c :: rest).take (stop - offset), parts, stop - offset - 1⟩
  | sigil {kind : TokenKind} (hkind : kind = .ivar ∨ kind = .gvar) : Scans offset c rest (sigil kind c rest)
  | symbol {l : Lexeme} (hc : c = ':') (h : symbol offset rest = .ok l) : Scans offset c rest l
  | name (hc : isNameStart c) : Scans offset c rest (name (c :: rest))
  | operator {op : Text} (h : operator? (c :: rest) = some op) : Scans offset c rest ⟨.op, op, [], op.length - 1⟩

lemma scans_lexeme {c : UInt8} (h : lexeme offset c rest = .ok l) : Scans offset c rest l := by
  rw [lexeme] at h
  split_ifs at h with hdigit hquote hivar hgvar hsymbol hstart
  · obtain ⟨kind, n, hkind, hn, rfl⟩ := number_cases hdigit h
    exact .number hkind hn
  · cases hparts : quotedParts c (offset + 1) [] (offset + 1) [] rest with
    | error fault =>
      rw [hparts] at h
      cases h
    | ok answer =>
      rw [hparts] at h
      obtain rfl := Except.ok.inj h
      exact .string (by simpa using hquote) hparts
  · obtain rfl := Except.ok.inj h
    exact .sigil (.inl rfl)
  · obtain rfl := Except.ok.inj h
    exact .sigil (.inr rfl)
  · exact .symbol (beq_iff_eq.1 (Bool.and_eq_true_iff.1 hsymbol).1) h
  · obtain rfl := Except.ok.inj h
    exact .name hstart
  · cases hop : operator? (c :: rest) with
    | none =>
      rw [hop] at h
      cases h
    | some op =>
      rw [hop] at h
      obtain rfl := Except.ok.inj h
      exact .operator hop

/-! ## Lexemes -/

/-- The lexeme that starts at `offset` takes no more bytes than there are, and its code lies inside it. -/
structure Lexeme.Inside (offset available : Nat) (l : Lexeme) : Prop where
  extra_le : l.extra ≤ available
  code : ∀ p ∈ l.parts, p.isCode → offset ≤ p.pos ∧ p.pos + p.text.length ≤ offset + 1 + l.extra

lemma Lexeme.Inside.plain {offset available extra : Nat} (kind : TokenKind) (text : Text)
    (h : extra ≤ available) : Lexeme.Inside offset available ⟨kind, text, [], extra⟩ :=
  ⟨h, by simp⟩

/-- How a string is read up to its closing quote, which ends at `stop`, where `all` are its parts in the end. -/
inductive Quoted (quote : UInt8) (all : List StringPart) (stop : Nat) : (pos : Nat) → (literal : Text) → (start : Nat) →
    (parts : List StringPart) → Text → Prop
  | closed {pos literal start parts rest} (hstop : stop = pos + 1) (hne : all ≠ []) (hsub : parts ⊆ all)
      (hall : ∀ p ∈ all, p ∈ parts ∨ p = ⟨literal, start, false⟩) :
      Quoted quote all stop pos literal start parts (quote :: rest)
  | escaped {pos literal start parts rest} (d : UInt8)
      (h : Quoted quote all stop (pos + 2) (literal ++ escape quote d) start parts rest) :
      Quoted quote all stop pos literal start parts ('\\' :: d :: rest)
  /-- Code between double quotes ends the run before it and begins a new one. -/
  | code {pos literal start parts rest} (code : Text) (hdouble : quote = '"')
      (h : Quoted quote all stop (pos + 2 + code.length + 1) [] (pos + 2 + code.length + 1)
        (parts ++ literalPart literal start ++ [⟨code, pos + 2, true⟩]) rest) :
      Quoted quote all stop pos literal start parts ('#' :: 0x7b :: (code ++ 0x7d :: rest))
  | plain {pos literal start parts rest c} (hc : c ≠ '\\'.toUInt8)
      (h : Quoted quote all stop (pos + 1) (literal ++ [c]) start parts rest) :
      Quoted quote all stop pos literal start parts (c :: rest)

section Quoted

variable {quote : UInt8} {pos start stop : Nat} {literal : Text} {parts all : List StringPart} {p : StringPart}

lemma eq_of_mem_literalPart (h : p ∈ literalPart literal pos) : p = ⟨literal, pos, false⟩ := by
  rw [literalPart] at h
  split_ifs at h
  · cases h
  · exact mem_singleton.1 h

lemma mem_of_mem_code {code : Text} (h : p ∈ parts ++ literalPart literal start ++ [⟨code, pos, true⟩]) :
    p ∈ parts ∨ p = ⟨literal, start, false⟩ ∨ p = ⟨code, pos, true⟩ := by
  rw [mem_append, mem_append, mem_singleton, or_assoc] at h
  exact h.imp_right (Or.imp_left eq_of_mem_literalPart)

lemma quoted_of_quotedParts (h : quotedParts quote pos literal start parts s = .ok (all, stop)) :
    Quoted quote all stop pos literal start parts s := by
  fun_induction quotedParts quote pos literal start parts s with
  | case1 => cases h
  | case2 pos literal start parts c rest hquote all' =>
    obtain ⟨rfl, rfl⟩ := Prod.mk.inj (Except.ok.inj h)
    obtain rfl := beq_iff_eq.1 hquote
    split_ifs with hempty
    · obtain ⟨rfl, hliteral⟩ := append_eq_nil_iff.1 (List.isEmpty_iff.1 hempty)
      obtain rfl : literal = [] := by simpa [literalPart] using hliteral
      exact .closed rfl (cons_ne_nil _ _) (nil_subset _) fun p hp => .inr (mem_singleton.1 hp)
    · exact .closed rfl (by simpa using hempty) (subset_append_left _ _) fun p hp =>
        (mem_append.1 hp).imp_right eq_of_mem_literalPart
  | case3 pos literal start parts c hquote ih =>
    rw [quotedParts] at h
    cases h
  | case4 pos literal start parts c hquote d rest hescape ih =>
    obtain rfl := beq_iff_eq.1 hescape
    exact .escaped d (ih h)
  | case5 => cases h
  | case6 pos literal start parts c hquote d rest hescape hopen n hn ih =>
    obtain ⟨hlt, hsplit⟩ := codeLength?_split hn
    rw [Bool.and_eq_true, Bool.and_eq_true, beq_iff_eq, beq_iff_eq, beq_iff_eq] at hopen
    obtain ⟨⟨hdouble, rfl⟩, rfl⟩ := hopen
    have hlength : (rest.take n).length = n := length_take_of_le (Nat.le_of_lt hlt)
    rw [hsplit]
    exact .code (rest.take n) hdouble (by rw [hlength]; exact ih h)
  | case7 pos literal start parts c hquote d rest hescape hopen ih =>
    exact .plain (by simpa using hescape) (ih h)

/-- A string ends with its quote, and the code that is read on the way is the text at its place and lies before that. -/
lemma Quoted.bounds (h : Quoted quote all stop pos literal start parts s) : pos < stop ∧ stop ≤ pos + s.length ∧
    ∀ p ∈ all, p.isCode → p ∈ parts ∨
      ∃ before after, s = before ++ (p.text ++ after) ∧ p.pos = pos + before.length ∧ p.pos + p.text.length ≤ stop := by
  -- what is found in the rest is found behind the bytes that were read before it
  have hbehind : ∀ {p : StringPart} {pos : Nat} (front : Text) {rest : Text}, (∃ before after,
      rest = before ++ (p.text ++ after) ∧ p.pos = pos + front.length + before.length ∧ p.pos + p.text.length ≤ stop) →
      ∃ before after, front ++ rest = before ++ (p.text ++ after) ∧ p.pos = pos + before.length ∧
        p.pos + p.text.length ≤ stop := by
    rintro p pos front _ ⟨before, after, rfl, hpos, hstop⟩
    refine ⟨front ++ before, after, (append_assoc ..).symm, ?_, hstop⟩
    rw [hpos, length_append, Nat.add_assoc]
  induction h with
  | @closed pos _ _ _ rest hstop _ _ hall =>
    refine ⟨by omega, by simp only [length_cons]; omega, fun p hp hcode => (hall p hp).imp_right ?_⟩
    rintro rfl
    cases hcode
  | escaped d h ih =>
    obtain ⟨hlt, hle, hcode⟩ := ih
    simp only [length_cons]
    exact ⟨by omega, by omega, fun p hp hp' => (hcode p hp hp').imp_right (hbehind [_, d])⟩
  | @code pos literal start parts rest code hdouble h ih =>
    obtain ⟨hlt, hle, hcode⟩ := ih
    simp only [length_cons, length_append]
    refine ⟨by omega, by omega, fun p hp hp' => ?_⟩
    rcases hcode p hp hp' with hold | hlater
    · rcases mem_of_mem_code hold with hold | rfl | rfl
      · exact .inl hold
      · cases hp'
      · exact .inr ⟨['#'.toUInt8, 0x7b], 0x7d :: rest, rfl, rfl, by simp only; omega⟩
    · have hfront : pos + 2 + code.length + 1 = pos + ('#'.toUInt8 :: 0x7b :: (code ++ [0x7d])).length := by
        simp only [length_cons, length_append, length_nil]
        omega
      rw [hfront] at hlater
      simpa using Or.inr (hbehind _ hlater)
  | @plain _ _ _ _ _ c hc h ih =>
    obtain ⟨hlt, hle, hcode⟩ := ih
    simp only [length_cons]
    exact ⟨by omega, by omega, fun p hp hp' => (hcode p hp hp').imp_right (hbehind [c])⟩

end Quoted

lemma length_nameMark_le (s : Text) : (nameMark s).length ≤ s.length := by
  cases s with
  | nil => exact Nat.le_refl _
  | cons m more =>
    rw [nameMark]
    split_ifs
    · simp only [length_cons, length_nil]
      omega
    · exact zero_le _

lemma inside_name (offset : Nat) (c : UInt8) (rest : Text) : (name (c :: rest)).Inside offset rest.length := by
  have hstem := length_takeWhile_le isNameByte (c :: rest)
  have hmark := length_nameMark_le ((c :: rest).drop ((c :: rest).takeWhile isNameByte).length)
  unfold name
  dsimp only
  generalize hname : (c :: rest).takeWhile isNameByte ++ nameMark _ = text
  have hlength := congrArg List.length hname
  rw [length_append] at hlength
  rw [length_drop] at hmark
  simp only [length_cons] at hstem hmark
  split_ifs with hlabel
  · have hcolon := length_pos_of_startsWith (Bool.and_eq_true_iff.1 hlabel).1
    rw [length_drop, length_cons] at hcolon
    exact .plain _ _ (by omega)
  · exact .plain _ _ (by omega)

lemma inside_lexeme {c : UInt8} (h : lexeme offset c rest = .ok l) : l.Inside offset rest.length := by
  cases scans_lexeme h with
  | number hkind hn => exact .plain _ _ hn
  | string hc hparts =>
    obtain ⟨hlt, hle, hcode⟩ := (quoted_of_quotedParts hparts).bounds
    refine ⟨by simp only; omega, fun p hp hp' => ?_⟩
    obtain ⟨before, after, -, hpos, hstop⟩ := (hcode p hp hp').resolve_left not_mem_nil
    exact ⟨by omega, by simp only; omega⟩
  | sigil hkind => exact .plain _ _ (length_takeWhile_le isNameByte rest)
  | symbol hc hsymbol =>
    rcases symbol_cases hsymbol with ⟨after, part, stop, rfl, hparts, -, rfl⟩ | ⟨name, mark, -, -, hname, rfl⟩
    · obtain ⟨hlt, hle, -⟩ := (quoted_of_quotedParts hparts).bounds
      exact .plain _ _ (by simp only [length_cons]; omega)
    · exact .plain _ _ hname.length_le
  | name hc => exact inside_name offset c rest
  | operator hop =>
    rw [operator?] at hop
    have hmatch := find?_some hop
    have hle := (List.isPrefixOf_iff_prefix.1 hmatch).length_le
    rw [length_cons] at hle
    exact .plain _ _ (by omega)

/-! ## Cutting a text -/

/-- How a text is cut into tokens: blanks are passed over, every other token is a lexeme, and the last one stands at
the end of the text or where a `#` is in the place of a lexeme. -/
inductive Cut : Nat → Text → List Token → Prop
  | stop {offset : Nat} {gap rest : Text} (hgap : ∀ b ∈ gap, isGap b)
      (hrest : rest = [] ∨ rest.head? = some '#') :
      Cut offset (gap ++ rest) [⟨.eof, [], [], offset + gap.length, offset + gap.length, gap.length != 0⟩]
  | token {offset : Nat} {gap rest : Text} {c : UInt8} {l : Lexeme} {more : List Token}
      (hgap : ∀ b ∈ gap, isGap b) (hlexeme : lexeme (offset + gap.length) c rest = .ok l)
      (hmore : Cut (offset + gap.length + 1 + l.extra) (rest.drop l.extra) more) :
      Cut offset (gap ++ c :: rest) (⟨l.kind, l.text, l.parts, offset + gap.length,
        offset + gap.length + 1 + l.extra, gap.length != 0⟩ :: more)

lemma cut_of_lex (h : lex offset s = .ok tokens) : Cut offset s tokens := by
  induction hn : s.length using Nat.strongRecOn generalizing offset s tokens with
  | ind n ih =>
  have hgap : ∀ b ∈ s.takeWhile isGap, isGap b := all_eq_true.1 all_takeWhile
  have hsplit := takeWhile_append_dropWhile (p := isGap) (l := s)
  have hlength := congrArg List.length hsplit
  rw [length_append] at hlength
  rw [lex] at h
  split at h
  · next hrest =>
    obtain rfl := Except.ok.inj h
    rw [hrest] at hsplit
    have hstop : Cut offset (s.takeWhile isGap ++ []) _ := .stop hgap (.inl rfl)
    rwa [hsplit] at hstop
  · next c rest hrest =>
    rw [hrest] at hsplit hlength
    split_ifs at h with hcomment
    · obtain rfl := Except.ok.inj h
      have hstop : Cut offset (s.takeWhile isGap ++ c :: rest) _ :=
        .stop hgap (.inr (congrArg some (beq_iff_eq.1 hcomment)))
      rwa [hsplit] at hstop
    · cases hlexeme : lexeme (offset + (s.takeWhile isGap).length) c rest with
      | error fault =>
        rw [hlexeme] at h
        cases h
      | ok l =>
        rw [hlexeme] at h
        simp only [bind, Except.bind] at h
        split at h
        · cases h
        · next more hmore =>
          obtain rfl := Except.ok.inj h
          rw [length_cons] at hlength
          have hless : (rest.drop l.extra).length < n := by
            rw [length_drop]
            omega
          have htoken := Cut.token hgap hlexeme (ih _ hless hmore rfl)
          rwa [hsplit] at htoken

/-- A token that does not end the line is a lexeme of the text. -/
lemma Cut.exists_lexeme {t : Token} (h : Cut offset s tokens)
    (ht : t ∈ tokens) : t.kind = .eof ∨ ∃ before c rest l, s = before ++ c :: rest ∧
      lexeme (offset + before.length) c rest = .ok l ∧ t.kind = l.kind ∧ t.text = l.text ∧ t.parts = l.parts ∧
      t.pos = offset + before.length ∧ t.stop = offset + before.length + 1 + l.extra := by
  induction h with
  | stop hgap hrest =>
    rw [mem_singleton.1 ht]
    exact .inl rfl
  | @token offset gap rest c l more hgap hlexeme hmore ih =>
    rcases mem_cons.1 ht with rfl | ht
    · exact .inr ⟨gap, c, rest, l, rfl, hlexeme, rfl, rfl, rfl, rfl, rfl⟩
    · refine (ih ht).imp_right ?_
      rintro ⟨before, c', rest', l', hrest, hlexeme', hfields⟩
      have hextra := (inside_lexeme hlexeme).extra_le
      have hlength : (gap ++ c :: (rest.take l.extra ++ before)).length = gap.length + 1 + l.extra + before.length := by
        simp only [length_append, length_cons, length_take]
        omega
      refine ⟨gap ++ c :: (rest.take l.extra ++ before), c', rest', l', ?_, ?_⟩
      · rw [append_assoc, cons_append, append_assoc, ← hrest, take_append_drop]
      · rw [hlength, ← Nat.add_assoc, ← Nat.add_assoc, ← Nat.add_assoc]
        exact ⟨hlexeme', hfields⟩

end Lexer

open Lexer in
lemma ordered_lex (h : lex offset s = .ok tokens) : Token.Ordered (offset + s.length) offset tokens := by
  have hcut := cut_of_lex h
  clear h
  induction hcut with
  | @stop offset gap rest hgap hrest =>
    rw [length_append]
    exact ⟨⟨by simp only; omega, Nat.le_refl _, by simp only; omega, by simp⟩, .inl rfl⟩
  | @token offset gap rest c l more hgap hlexeme hmore ih =>
    obtain ⟨hextra, hcode⟩ := inside_lexeme hlexeme
    rw [length_append, length_cons]
    rw [length_drop] at ih
    have hhi : offset + gap.length + 1 + l.extra + (rest.length - l.extra) =
        offset + (gap.length + (rest.length + 1)) := by omega
    rw [hhi] at ih
    exact ⟨⟨by simp only; omega, by simp only; omega, by simp only; omega, hcode⟩, .inr ih⟩

end Transpiler
