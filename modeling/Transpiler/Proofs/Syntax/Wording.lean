import Transpiler.Proofs.Syntax.Precedence

/-!
# Formulas as text

A formula is written with one blank between words. A blank ends every token, so each word is read back as one
token of its own kind (`Formula.lex_text`), and the numeral of an integer is read back as that integer
(`Numeral.readInteger_ofNat`).
-/

namespace Transpiler

open List Text Nat

/-! ## Numerals -/

namespace Text

lemma ofNat_of_ten_le {n : Nat} (h : 10 ≤ n) : ofNat n = ofNat (n / 10) ++ [(n % 10).digitChar.toUInt8] := by
  rw [ofNat, toDigits_of_base_le (by decide) h, map_append]
  rfl

lemma ofNat_of_lt_ten {n : Nat} (h : n < 10) : ofNat n = [n.digitChar.toUInt8] := by
  rw [ofNat, toDigits_of_lt_base h]
  rfl

lemma isDigit_of_mem_ofNat {n : Nat} {b : UInt8} (h : b ∈ ofNat n) : Lexer.isDigit b := by
  have hdigit : ∀ d < 10, Lexer.isDigit d.digitChar.toUInt8 := by decide
  induction n using Nat.strongRecOn generalizing b with
  | ind n ih =>
  by_cases hn : n < 10
  · rw [ofNat_of_lt_ten hn, mem_singleton] at h
    exact h ▸ hdigit n hn
  · rw [ofNat_of_ten_le (by omega), mem_append, mem_singleton] at h
    obtain h | rfl := h
    · exact ih (n / 10) (by omega) h
    · exact hdigit _ (mod_lt n (by decide))

lemma ofNat_eq_cons (n : Nat) : ∃ b rest, ofNat n = b :: rest ∧ (b = '0' → n = 0 ∧ rest = []) := by
  induction n using Nat.strongRecOn with
  | ind n ih =>
  by_cases hn : n < 10
  · have hzero : ∀ d < 10, d.digitChar.toUInt8 = '0'.toUInt8 → d = 0 := by decide
    exact ⟨_, _, ofNat_of_lt_ten hn, fun h => ⟨hzero n hn h, rfl⟩⟩
  · obtain ⟨b, rest, heq, hzero⟩ := ih (n / 10) (by omega)
    refine ⟨b, _, by rw [ofNat_of_ten_le (by omega), heq]; rfl, fun h => ?_⟩
    have := (hzero h).1
    omega

end Text

namespace Numeral

lemma readDigits_append {base acc n : Nat} {s : Text} (h : readDigits base acc s = .ok n) (t : Text) :
    readDigits base acc (s ++ t) = readDigits base n t := by
  induction s generalizing acc with
  | nil =>
    obtain rfl := Except.ok.inj h
    rfl
  | cons b rest ih =>
    rw [cons_append]
    simp only [readDigits] at h ⊢
    split at h
    · cases h
    · split_ifs at h ⊢ with hbase hrange
      exact ih h

/-- The digits of a number are read as the number, if it fits into 64 bits. -/
lemma readDigits_ofNat {n : Nat} (h : n < 2 ^ 64) : readDigits 10 0 (ofNat n) = .ok n := by
  have hdigit : ∀ d < 10, digit? d.digitChar.toUInt8 = some d := by decide
  have hlast : ∀ acc d, d < 10 → acc * 10 + d < 2 ^ 64 →
      readDigits 10 acc [d.digitChar.toUInt8] = .ok (acc * 10 + d) := by
    intro acc d hd hrange
    simp only [readDigits, hdigit d hd, if_neg (not_le.2 hd)]
    exact if_neg (not_le.2 hrange)
  induction n using Nat.strongRecOn with
  | ind n ih =>
  by_cases hn : n < 10
  · simpa [ofNat_of_lt_ten hn] using hlast 0 n hn (by omega)
  · rw [ofNat_of_ten_le (by omega), readDigits_append (ih (n / 10) (by omega) (by omega)),
      hlast _ _ (mod_lt n (by decide)) (by omega), div_add_mod']

lemma readInteger_ofNat {n : Nat} (h : n < 2 ^ 63) : readInteger (ofNat n) = .ok (Int64.ofNat n) := by
  obtain ⟨b, rest, heq, hzero⟩ := ofNat_eq_cons n
  by_cases hb : b = '0'
  · -- a single zero announces base eight and has no digits behind it
    obtain ⟨rfl, -⟩ := hzero hb
    rfl
  · have hsplit : splitBase (ofNat n) = (10, ofNat n) := by
      rw [heq]
      match rest with
      | [] | [_] | _ :: _ :: _ => simp [splitBase, hb]
    have hempty : (ofNat n).isEmpty = false := by rw [heq]; rfl
    simp only [readInteger, hempty, hsplit, readDigits_ofNat (show n < 2 ^ 64 by omega)]
    exact if_neg (not_le.2 h)

end Numeral

/-! ## Tokens with a blank behind them -/

namespace Lexer

/-- A text that is empty or starts with a blank. -/
def Apart (rest : Text) : Prop := ∀ b ∈ rest.head?, b = ' '

namespace Apart

variable {rest : Text}

lemma startsWith_eq (h : Apart rest) (p : UInt8 → Bool) (hp : p ' ' = false) : startsWith p rest = false := by
  cases rest with
  | nil => rfl
  | cons b rest => rwa [startsWith, h b rfl]

lemma takeWhile_append (h : Apart rest) (p : UInt8 → Bool) (hp : p ' ' = false) {s : Text}
    (hs : ∀ b ∈ s, p b) : (s ++ rest).takeWhile p = s := by
  rw [takeWhile_append_of_pos hs]
  cases rest with
  | nil => simp
  | cons b rest => simp [h b rfl, hp]

lemma prefix_iff (h : Apart rest) {q s : Text} (hq : ' '.toUInt8 ∉ q) : q <+: s ++ rest ↔ q <+: s := by
  refine ⟨fun ⟨more, hmore⟩ => ?_, fun hprefix => hprefix.trans (prefix_append s rest)⟩
  obtain ⟨a, rfl, -⟩ | ⟨c, rfl, hrest⟩ := append_eq_append_iff.1 hmore
  · exact prefix_append q a
  · cases c with
    | nil => simp
    | cons b c =>
      obtain rfl : b = ' '.toUInt8 := h b (by simp [hrest])
      exact absurd (by simp) hq

end Apart

/-- A text that is one token of a certain kind when a blank stands behind it. -/
def Lexes (kind : TokenKind) (s : Text) : Prop :=
  ∃ c tail, s = c :: tail ∧ isGap c = false ∧ c ≠ '#' ∧
    ∀ offset rest, Apart rest → lexeme offset c (tail ++ rest) = .ok ⟨kind, s, [], tail.length⟩

/-- A byte that starts no token but a sign. -/
def isSign (b : UInt8) : Bool :=
  !(isDigit b || isNameStart b || isGap b || b == '"' || b == '\'' || b == '@' || b == '$' || b == ':' || b == '#')

/-- Of the operators at the start of a text, one with a blank behind it is the longest. -/
lemma operator?_append {s rest : Text} (hs : s ∈ operators) (h : Apart rest) : operator? (s ++ rest) = some s := by
  have hlongest : operators.all (fun s => operators.find? (·.isPrefixOf s) == some s) := by decide
  have hblank : operators.all (fun q => !q.contains ' ') := by decide
  -- no operator contains a blank, so none of them reaches past the end of `s`
  have hsame : ∀ q ∈ operators, q.isPrefixOf (s ++ rest) = q.isPrefixOf s := fun q hq => by
    have hq' := all_eq_true.1 hblank q hq
    rw [Bool.eq_iff_iff, isPrefixOf_iff_prefix, isPrefixOf_iff_prefix, h.prefix_iff (by simpa using hq')]
  rw [operator?, ← head?_filter, filter_congr hsame, head?_filter]
  exact beq_iff_eq.1 (all_eq_true.1 hlongest s hs)

lemma lexes_sign {s : Text} (hs : s ∈ operators) (hsign : startsWith isSign s) : Lexes .op s := by
  cases s with
  | nil => cases hsign
  | cons c tail =>
    simp only [startsWith, isSign, Bool.not_eq_true', Bool.or_eq_false_iff] at hsign
    refine ⟨c, tail, rfl, by simp [hsign], by simpa using hsign.2, fun offset rest h => ?_⟩
    have hfind : operator? (c :: (tail ++ rest)) = some (c :: tail) := operator?_append hs h
    simp [lexeme, hsign, hfind]

lemma lexes_name {s : Text} (hname : isName s) : Lexes (nameKind s) s := by
  cases s with
  | nil => cases hname
  | cons c tail =>
    obtain ⟨hc, htail⟩ := Bool.and_eq_true_iff.1 hname
    have hother : isDigit c = false ∧ isGap c = false ∧ c ≠ '#' ∧ c ≠ '"' ∧ c ≠ '\'' ∧ c ≠ '@' ∧ c ≠ '$' ∧ c ≠ ':' := by
      simp [isNameStart, isDigit, isGap, isCapital, Char.toUInt8, UInt8.le_iff_toNat_le, ← UInt8.toNat_inj] at hc ⊢
      omega
    refine ⟨c, tail, rfl, hother.2.1, hother.2.2.1, fun offset rest h => ?_⟩
    have hstem : (c :: (tail ++ rest)).takeWhile isNameByte = c :: tail := by
      refine h.takeWhile_append isNameByte (by decide) (s := c :: tail) fun b hb => ?_
      obtain rfl | hb := mem_cons.1 hb
      · rw [isNameByte, hc, Bool.true_or]
      · exact all_eq_true.1 htail b hb
    have hmark : nameMark rest = [] := by
      cases rest with
      | nil => rfl
      | cons b rest =>
        obtain rfl := h b rfl
        rfl
    have hcolon : startsWith (· == ':') rest = false := h.startsWith_eq _ (by decide)
    simp [lexeme, hother, hc, name, hstem, hmark, hcolon]

lemma lexes_ofNat (n : Nat) : Lexes .int (ofNat n) := by
  have hdigits : ∀ b ∈ ofNat n, isDigit b := fun b hb => isDigit_of_mem_ofNat hb
  obtain ⟨c, tail, heq, hzero⟩ := ofNat_eq_cons n
  rw [heq] at hdigits ⊢
  have hc := hdigits c (by simp)
  have hother : isGap c = false ∧ c ≠ '#' := by
    simp [isDigit, isGap, Char.toUInt8, UInt8.le_iff_toNat_le, ← UInt8.toNat_inj] at hc ⊢
    omega
  refine ⟨c, tail, rfl, hother.1, hother.2, fun offset rest h => ?_⟩
  have hbase : (startsWith (· == '0') (c :: (tail ++ rest)) &&
      startsWith isBaseMark ((c :: (tail ++ rest)).drop 1)) = false := by
    -- behind a zero stands a blank or nothing, which announces no base
    by_cases hc0 : c = '0'
    · simp [(hzero hc0).2, h.startsWith_eq isBaseMark (by decide)]
    · simp [startsWith, hc0]
  have hwhole : (c :: (tail ++ rest)).takeWhile isNumeralByte = c :: tail :=
    h.takeWhile_append isNumeralByte (by decide) fun b hb => by rw [isNumeralByte, hdigits b hb, Bool.true_or]
  have hfraction : fractionLength rest = 0 := by
    obtain _ | ⟨b, _ | ⟨d, rest⟩⟩ := rest
    · rfl
    · rfl
    · obtain rfl := h b rfl
      rfl
  have hexponent : exponentLength rest = 0 := by
    cases rest with
    | nil => rfl
    | cons b rest =>
      obtain rfl := h b rfl
      rfl
  have hend : startsWith isNameStart rest = false := h.startsWith_eq _ (by decide)
  rw [lexeme, if_pos hc, number, hbase]
  simp [hwhole, hfraction, hexponent, hend]

lemma Lexes.lex_append {kind : TokenKind} {s rest : Text} {offset : Nat} {more : List Token} (hs : Lexes kind s)
    (hrest : Apart rest) (gap : Text) (hgap : ∀ b ∈ gap, isGap b)
    (hmore : lex (offset + gap.length + s.length) rest = .ok more) :
    lex offset (gap ++ (s ++ rest)) = .ok (⟨kind, s, [], offset + gap.length,
      offset + gap.length + s.length, gap.length != 0⟩ :: more) := by
  obtain ⟨c, tail, rfl, hc, hcomment, hlexeme⟩ := hs
  have htake : (gap ++ (c :: (tail ++ rest))).takeWhile isGap = gap := by
    rw [takeWhile_append_of_pos hgap]
    simp [hc]
  have hdrop : (gap ++ (c :: (tail ++ rest))).dropWhile isGap = c :: (tail ++ rest) := by
    rw [dropWhile_append_of_pos hgap]
    simp [hc]
  rw [length_cons, add_comm tail.length, ← add_assoc] at hmore ⊢
  rw [cons_append, lex]
  simp only [htake]
  split
  · next h => simp [hdrop] at h
  · next c' rest' h =>
    obtain ⟨rfl, rfl⟩ := List.cons.inj (hdrop.symm.trans h)
    rw [if_neg (by simpa using hcomment), hlexeme _ rest hrest]
    simp only [bind, Except.bind, drop_left, hmore]

end Lexer

/-! ## Words -/

namespace Formula

open Lexer

/-- The atom as written. -/
def Atom.text : Atom → Text
  | .integer n _ => ofNat n
  | .name word _ => word

/-- The word as written. -/
def Word.text : Word → Text
  | .atom a => a.text
  | .opening => "("
  | .closing => ")"
  | .operator op => op.text

/-- The formula as written. -/
def text (e : Formula) : Text := join " " (e.words.map Word.text)

/-- The atom's token kind. -/
def Atom.kind : Atom → TokenKind
  | .integer .. => .int
  | .name word _ => nameKind word

/-- The operator's token kind. -/
def Operator.kind (op : Operator) : TokenKind := if op.text = "and" ∨ op.text = "or" then .keyword else .op

/-- The word's token kind. -/
def Word.kind : Word → TokenKind
  | .atom a => a.kind
  | .opening | .closing => .op
  | .operator op => op.kind

lemma Operator.lexes (op : Operator) : Lexes op.kind op.text := by
  have hsigns : operators.all (fun s => (Grammar.bindingPower? s).isNone || startsWith isSign s) := by
    decide
  have h := op.power_eq
  rw [kind]
  split_ifs with hword
  · obtain hword | hword := hword
    · rw [hword]
      exact lexes_name (by decide)
    · rw [hword]
      exact lexes_name (by decide)
  · have hmem : op.text ∈ operators := by
      simp only [Grammar.bindingPower?, beq_iff_eq, Bool.or_eq_true] at h
      simp only [operators, map_cons, map_nil, mem_cons]
      grind
    exact lexes_sign hmem (by simpa [h] using all_eq_true.1 hsigns op.text hmem)

lemma Word.lexes (w : Word) : Lexes w.kind w.text := by
  match w with
  | .atom (.integer n _) => exact lexes_ofNat n
  | .atom (.name word h) => exact lexes_name h.1
  | .opening | .closing => exact lexes_sign (by decide) (by decide)
  | .operator op => exact op.lexes

/-- A token that spells a word. -/
def Word.Fits (w : Word) (t : Token) : Prop := t.kind = w.kind ∧ t.text = w.text

/-- Tokens that spell words, each behind a blank, up to the end of the line. -/
def Spelled : List Word → List Token → Prop
  | [], t :: _ => t.kind = .eof
  | w :: ws, t :: ts => w.Fits t ∧ t.spaced ∧ Spelled ws ts
  | _, [] => False

/-- Words, each after a blank. -/
def spacedText (ws : List Word) : Text := ws.flatMap fun w => ' ' :: w.text

lemma apart_spacedText (ws : List Word) : Apart (spacedText ws) := by
  cases ws with
  | nil => nofun
  | cons w ws => exact fun b hb => (Option.some.inj hb).symm

lemma join_text (w : Word) (ws : List Word) : join " " ((w :: ws).map Word.text) = w.text ++ spacedText ws := by
  induction ws generalizing w with
  | nil => simp [join, spacedText]
  | cons v ws ih =>
    rw [map_cons, map_cons, join, intercalate_cons_cons, ← map_cons, ← join, ih, append_assoc]
    rfl

/-- Words behind blanks are read as tokens that spell them. -/
lemma lex_spacedText (offset : Nat) (ws : List Word) :
    ∃ tokens, lex offset (spacedText ws) = .ok tokens ∧ Spelled ws tokens := by
  induction ws generalizing offset with
  | nil => exact ⟨[⟨.eof, [], [], offset, offset, false⟩], by rw [spacedText, flatMap_nil, lex]; rfl, rfl⟩
  | cons w ws ih =>
    obtain ⟨more, hmore, hspelled⟩ := ih (offset + 1 + w.text.length)
    have hlex := w.lexes.lex_append (apart_spacedText ws) [' '] (forall_mem_singleton.2 rfl) hmore
    exact ⟨_, hlex, ⟨rfl, rfl⟩, rfl, hspelled⟩

end Formula

/-- The words that a cursor has before it. -/
def Cursor.Faces (c : Cursor) : List Formula.Word → Prop
  | [] => c.current.kind = .eof
  | w :: ws => w.Fits c.current ∧ Formula.Spelled ws c.ahead

lemma Formula.lex_words (w : Word) (ws : List Word) (offset : Nat) :
    ∃ tokens, lex offset (w.text ++ spacedText ws) = .ok tokens ∧ (Cursor.ofTokens tokens).Faces (w :: ws) := by
  obtain ⟨more, hmore, hspelled⟩ := lex_spacedText (offset + w.text.length) ws
  have hlex := w.lexes.lex_append (apart_spacedText ws) [] (by simp) hmore
  exact ⟨_, hlex, ⟨rfl, rfl⟩, hspelled⟩

/-- The text of a formula is read as tokens that spell its words. -/
lemma Formula.lex_text (e : Formula) (offset : Nat) :
    ∃ tokens, lex offset e.text = .ok tokens ∧ (Cursor.ofTokens tokens).Faces e.words := by
  rw [text]
  obtain ⟨w, ws, hwords⟩ := exists_cons_of_ne_nil e.words_ne_nil
  rw [hwords, join_text]
  exact lex_words w ws offset

end Transpiler
