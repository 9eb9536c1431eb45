import Mathlib.Data.List.Basic
import Transpiler.Script.Printer

/-!
# Reading generated code: tokens

What the generator writes is read back by a reader that knows nothing of the generator. This module cuts JavaScript
text into tokens by maximal munch: a lexeme goes on as long as the next byte continues it. A text is read as tokens
wherever something delimits it (`Spells`); the lemmas say this of words, numerals and punctuators and of the ways in
which texts are put together.
-/

namespace Transpiler.Script.Js

open List

/-! ## Tokens -/

/-- A token of JavaScript. -/
inductive Token where
  | word (text : Text)
  /-- A number, as it is written. -/
  | number (text : Text)
  /-- A string, by its value. -/
  | string (value : Text)
  | punct (text : Text)
deriving DecidableEq, Repr

/-- A decimal digit. -/
def isDigit (b : UInt8) : Bool := '0' ≤ b && b ≤ '9'

/-- Whether a byte can stand in a word: a letter, a digit, one of the two marks or any byte beyond
ASCII. -/
def isWordByte (b : UInt8) : Bool :=
  isDigit b || ('a' ≤ b && b ≤ 'z') || ('A' ≤ b && b ≤ 'Z')
    || b == '_' || b == '$' || 0x80 ≤ b

/-- A blank byte. -/
def isBlank (b : UInt8) : Bool :=
  b == ' ' || b == '\t' || b == '\n' || b == '\r'

/-- The punctuators. Every beginning of one is one, so the longest is found byte by byte. The marks of
comments are among them: no expression has them. -/
def punctuators : List Text :=
  List.map Text.ofString ["\x7b", "\x7d", "(", ")", "[", "]", ".", ";", ",", "<", ">", "<=", ">=",
    "==", "!=", "===", "!==", "+", "-", "*", "/", "%", "**", "++", "--", "<<", ">>", ">>>", "&", "|",
    "^", "!", "~", "&&", "||", "??", "?", "?.", ":", "=", "+=", "-=", "*=", "/=", "%=", "**=", "<<=",
    ">>=", ">>>=", "&=", "|=", "^=", "&&=", "||=", "??=", "=>", "//", "/*"]

/-- How far a numeral has come. -/
inductive Stage where
  | whole
  /-- After the point. -/
  | point
  | fraction
  /-- After the `e` of the exponent. -/
  | mark
  /-- After the sign of the exponent. -/
  | sign
  | exponent
deriving DecidableEq, Repr

/-- Where a byte takes a numeral. -/
def Stage.next (s : Stage) (b : UInt8) : Option Stage :=
  if isDigit b then
    match s with
    | .whole => some .whole
    | .point | .fraction => some .fraction
    | .mark | .sign | .exponent => some .exponent
  else if b == '.' then if s = .whole then some .point else none
  else if b == 'e' || b == 'E' then
    if s = .whole ∨ s = .point ∨ s = .fraction then some .mark else none
  else if b == '+' || b == '-' then if s = .mark then some .sign else none
  else none

/-- Whether a numeral can end here. -/
def Stage.isComplete : Stage → Bool
  | .whole | .point | .fraction | .exponent => true
  | .mark | .sign => false

/-- The byte for which an escape of one letter stands. -/
def escaped? (b : UInt8) : Option UInt8 :=
  if b == '"' || b == '\\' || b == '/' then some b
  else if b == 'b' then some 8
  else if b == 'f' then some 12
  else if b == 'n' then some 10
  else if b == 'r' then some 13
  else if b == 't' then some 9
  else none

/-- The value of a hexadecimal digit. -/
def hexValue? (b : UInt8) : Option Nat :=
  if isDigit b then some (b.toNat - 48)
  else if 'a' ≤ b && b ≤ 'f' then some (b.toNat - 87)
  else if 'A' ≤ b && b ≤ 'F' then some (b.toNat - 55)
  else none

/-- What has been read of a token. -/
inductive Lexeme where
  /-- Nothing yet. -/
  | blank
  | word (text : Text)
  | number (stage : Stage) (text : Text)
  /-- Inside a string, with its value so far. -/
  | string (value : Text)
  /-- After the backslash in a string. -/
  | escape (value : Text)
  /-- In an escape by code point, with the number of digits to come and the number read so far. -/
  | codePoint (value : Text) (left code : Nat)
  /-- After the closing quote of a string. -/
  | closed (value : Text)
  | punct (text : Text)
deriving DecidableEq, Repr

namespace Lexeme

/-- The lexeme with one more byte, if that byte continues it. -/
def extend : Lexeme → UInt8 → Option Lexeme
  | .blank, b =>
    if isBlank b then some .blank
    else if b == '"' then some (.string [])
    else if isDigit b then some (.number .whole [b])
    else if isWordByte b then some (.word [b])
    else if punctuators.contains [b] then some (.punct [b])
    else none
  | .word w, b => if isWordByte b then some (.word (w ++ [b])) else none
  | .number s t, b => (s.next b).map (.number · (t ++ [b]))
  | .string v, b =>
    if b == '"' then some (.closed v)
    else if b == '\\' then some (.escape v)
    else if b == '\n' || b == '\r' then none
    else some (.string (v ++ [b]))
  | .escape v, b =>
    if b == 'u' then some (.codePoint v 4 0)
    else (escaped? b).map fun c => .string (v ++ [c])
  | .codePoint v left code, b => do
    let d ← hexValue? b
    if left = 1 then
      let c ← Text.char? (code * 16 + d)
      return .string (v ++ String.utf8EncodeChar c)
    else return .codePoint v (left - 1) (code * 16 + d)
  | .closed _, _ => none
  | .punct p, b => if punctuators.contains (p ++ [b]) then some (.punct (p ++ [b])) else none

/-- The token of a lexeme that can end here; between tokens there is none. -/
def tokens? : Lexeme → Option (List Token)
  | .blank => some []
  | .word w => some [.word w]
  | .number s t => if s.isComplete then some [.number t] else none
  | .closed v => some [.string v]
  | .punct p => some [.punct p]
  | .string _ | .escape _ | .codePoint .. => none

/-- Whether a byte that does not continue a lexeme may follow it: a numeral and a word do not touch. -/
def admits : Lexeme → UInt8 → Bool
  | .number .., b => !isWordByte b
  | _, _ => true

end Lexeme

/-- Reads on from a lexeme. -/
def lexFrom : Lexeme → Text → Option (List Token)
  | l, [] => l.tokens?
  | l, b :: rest =>
    match l.extend b with
    | some next => lexFrom next rest
    | none =>
      if l.admits b then do
        let done ← l.tokens?
        let next ← Lexeme.blank.extend b
        let more ← lexFrom next rest
        return done ++ more
      else none

/-- The tokens of a text. -/
def lex (t : Text) : Option (List Token) := lexFrom .blank t

example : lex "a===-5" = some [.word "a", .punct "===", .punct "-", .number "5"] := by decide
example : lex "5.foo" = none := by decide

/-! ## Kinds of bytes -/

variable {b : UInt8}

lemma isDigit_iff : isDigit b ↔ 48 ≤ b.toNat ∧ b.toNat ≤ 57 := by
  simp only [isDigit, Bool.and_eq_true, decide_eq_true_eq, UInt8.le_iff_toNat_le]
  exact Iff.rfl

lemma isWordByte_iff : isWordByte b ↔
    (48 ≤ b.toNat ∧ b.toNat ≤ 57) ∨ (97 ≤ b.toNat ∧ b.toNat ≤ 122) ∨ (65 ≤ b.toNat ∧ b.toNat ≤ 90)
      ∨ b.toNat = 95 ∨ b.toNat = 36 ∨ 128 ≤ b.toNat := by
  simp only [isWordByte, isDigit_iff, Bool.or_eq_true, Bool.and_eq_true, decide_eq_true_eq,
    beq_iff_eq, UInt8.le_iff_toNat_le, ← UInt8.toNat_inj, or_assoc]
  exact Iff.rfl

lemma not_blank_of_isWordByte (h : isWordByte b = true) : isBlank b = false ∧ (b == '"') = false := by
  rw [isWordByte_iff] at h
  simp only [isBlank, Bool.or_eq_false_iff, beq_eq_false_iff_ne, ne_eq, ← UInt8.toNat_inj]
  change (((b.toNat ≠ 32 ∧ b.toNat ≠ 9) ∧ b.toNat ≠ 10) ∧ b.toNat ≠ 13) ∧ b.toNat ≠ 34
  omega

/-! ## From one lexeme to the next -/

/-- The text `t` takes the lexer from one lexeme to another without completing a token. -/
def Reaches (l : Lexeme) (t : Text) (l' : Lexeme) : Prop := t.foldlM Lexeme.extend l = some l'

instance (l : Lexeme) (t : Text) (l' : Lexeme) : Decidable (Reaches l t l') :=
  inferInstanceAs (Decidable (_ = _))

lemma Reaches.trans {l l' l'' : Lexeme} {t t' : Text} (h : Reaches l t l') (h' : Reaches l' t' l'') :
    Reaches l (t ++ t') l'' := by
  unfold Reaches at *
  rw [foldlM_append, h]
  exact h'

lemma reaches_byte {l l' : Lexeme} (h : l.extend b = some l') : Reaches l [b] l' := by
  simp [Reaches, h]

variable {t : Text}

/-- A run of bytes that each prolong what the lexeme holds. -/
lemma reaches_run {f : Text → Lexeme} (h : ∀ b ∈ t, ∀ v, (f v).extend b = some (f (v ++ [b]))) (v : Text) :
    Reaches (f v) t (f (v ++ t)) := by
  induction t generalizing v with
  | nil => simp [Reaches]
  | cons b t ih =>
    have hb : Reaches (f v) [b] (f (v ++ [b])) := reaches_byte (h b (by simp) v)
    have ht := ih (fun c hc => h c (by simp [hc])) (v ++ [b])
    simpa using hb.trans ht

/-- The bytes on the way leave no token behind. -/
lemma Reaches.lexFrom_append {l l' : Lexeme} (h : Reaches l t l') (rest : Text) :
    lexFrom l (t ++ rest) = lexFrom l' rest := by
  induction t generalizing l with
  | nil =>
    obtain rfl : l = l' := by simpa [Reaches] using h
    rfl
  | cons b t ih =>
    obtain ⟨next, hb, ht⟩ : ∃ next, l.extend b = some next ∧ Reaches next t l' := by
      simpa [Reaches, Option.bind_eq_some_iff] using h
    simp only [cons_append, lexFrom, hb]
    exact ih ht

/-- The lexeme is complete at this point of the text. -/
def Lexeme.EndsAt (l : Lexeme) (rest : Text) : Prop :=
  ∀ b ∈ rest.head?, l.extend b = none ∧ l.admits b

variable {ts : List Token}

/-- Where a lexeme ends, its token is read and the lexer starts afresh. -/
lemma lexFrom_of_endsAt {l : Lexeme} {rest : Text} (hts : l.tokens? = some ts)
    (h : l.EndsAt rest) : lexFrom l rest = (lexFrom .blank rest).map (ts ++ ·) := by
  cases rest with
  | nil =>
    have hb : Lexeme.blank.tokens? = some [] := rfl
    simp only [lexFrom, hts, hb, Option.map_some, append_nil]
  | cons b rest =>
    obtain ⟨hb, ha⟩ := h b rfl
    -- both sides go on from the lexeme that `b` starts
    cases hs : Lexeme.blank.extend b with
    | none => simp [lexFrom, hb, ha, hts, hs]
    | some next =>
      cases hr : lexFrom next rest <;> simp [lexFrom, hb, ha, hts, hs, hr]

/-! ## Texts that are read as tokens -/

/-- The bytes that follow an operand in generated code, unless it ends there. -/
def Delimits (rest : Text) : Prop :=
  ∀ b ∈ rest.head?, b = ' ' ∨ b = ')' ∨ b = ']'

/-- The text is read as these tokens in front of anything that delimits it. -/
def Spells (t : Text) (ts : List Token) : Prop :=
  ∀ rest, Delimits rest → lexFrom .blank (t ++ rest) = (lexFrom .blank rest).map (ts ++ ·)

lemma Spells.lex_eq (h : Spells t ts) : lex t = some ts := by
  have := h [] (by simp [Delimits])
  simpa [lex, lexFrom, Lexeme.tokens?] using this

/-- A text that is one complete lexeme is read as its token. -/
lemma spells_of_reaches {l : Lexeme} (h : Reaches .blank t l)
    (hts : l.tokens? = some ts) (hends : ∀ rest, Delimits rest → l.EndsAt rest) : Spells t ts := by
  intro rest hrest
  rw [h.lexFrom_append, lexFrom_of_endsAt hts (hends rest hrest)]

lemma spells_append {t t' : Text} {l : Lexeme} {ts ts' : List Token} (h : Reaches .blank t l)
    (hts : l.tokens? = some ts) (h' : Spells t' ts') (hends : ∀ rest, l.EndsAt (t' ++ rest)) :
    Spells (t ++ t') (ts ++ ts') := by
  intro rest hrest
  rw [append_assoc, h.lexFrom_append, lexFrom_of_endsAt hts (hends rest), h' rest hrest]
  simp [Function.comp_def]

/-! ### Words -/

/-- A word of the script. -/
structure IsWord (w : Text) : Prop where
  ne_nil : w ≠ []
  bytes : ∀ b ∈ w, isWordByte b
  first : ∀ b ∈ w.head?, isDigit b = false

/-- Decides `IsWord`. -/
def isWord (w : Text) : Bool := !w.isEmpty && w.all isWordByte && !w.head?.any isDigit

lemma isWord_iff (w : Text) : isWord w ↔ IsWord w := by
  cases w with
  | nil =>
    have hne : ¬IsWord [] := fun h => h.ne_nil rfl
    simpa [isWord] using hne
  | cons b w =>
    simp only [isWord, isEmpty_cons, all_eq_true, head?_cons, Option.any_some,
      Bool.and_eq_true, Bool.not_eq_true', Bool.not_false, true_and]
    exact ⟨fun h => ⟨by simp, h.1, by simpa using h.2⟩, fun h => ⟨h.bytes, h.first b rfl⟩⟩

instance (w : Text) : Decidable (IsWord w) := decidable_of_iff _ (isWord_iff w)

lemma IsWord.append {w t : Text} (h : IsWord w) (ht : ∀ b ∈ t, isWordByte b) : IsWord (w ++ t) := by
  refine ⟨by simp [h.ne_nil], fun b hb => ?_, fun b hb => ?_⟩
  · exact (mem_append.mp hb).elim (h.bytes b) (ht b)
  · rw [head?_append_of_ne_nil _ h.ne_nil] at hb
    exact h.first b hb

lemma extend_blank_word (hb : isWordByte b) (hd : isDigit b = false) : Lexeme.blank.extend b = some (.word [b]) := by
  simp [Lexeme.extend, not_blank_of_isWordByte hb, hb, hd]

lemma IsWord.reaches {w : Text} (h : IsWord w) : Reaches .blank w (.word w) := by
  obtain ⟨hne, hb, hf⟩ := h
  cases w with
  | nil => exact absurd rfl hne
  | cons b t =>
    have hstart : Reaches .blank [b] (.word [b]) :=
      reaches_byte (extend_blank_word (hb b (by simp)) (hf b rfl))
    refine hstart.trans (reaches_run (f := .word) (fun c hc v => ?_) [b])
    simp [Lexeme.extend, hb c (by simp [hc])]

lemma endsAt_word {w rest : Text} (h : ∀ b ∈ rest.head?, isWordByte b = false) : (Lexeme.word w).EndsAt rest := by
  intro b hb
  simp [Lexeme.extend, h b hb, Lexeme.admits]

lemma spells_word {w : Text} (h : IsWord w) : Spells w [.word w] := by
  refine spells_of_reaches h.reaches rfl fun rest hrest => endsAt_word fun b hb => ?_
  rcases hrest b hb with rfl | rfl | rfl <;> decide

/-! ### Punctuators -/

lemma reaches_punct {p : Text} (hp : p ∈ punctuators) : p ≠ [] ∧ Reaches .blank p (.punct p) := by
  have h : (punctuators.all fun p => !p.isEmpty && decide (Reaches .blank p (.punct p))) := by
    decide
  simpa using all_eq_true.mp h p hp

/-- Whether a byte prolongs some punctuator. -/
def prolongs (b : UInt8) : Bool := (Text.ofString "=+-*<>&|?./").contains b

/-- Whether a byte is a punctuator that none prolongs. -/
def standsAlone (b : UInt8) : Bool := (Text.ofString "()[].").contains b

lemma prolonged_of_mem {p : Text} (hp : p ≠ []) (h : p ++ [b] ∈ punctuators) :
    prolongs b ∧ ∀ a ∈ p.head?, standsAlone a = false := by
  have hall : (punctuators.all fun q =>
      q.dropLast.isEmpty || (q.getLast?.all prolongs && q.head?.all (!standsAlone ·))) := by
    decide
  have hq := all_eq_true.mp hall _ h
  obtain ⟨hb, hhead⟩ : prolongs b ∧ p.head?.all (!standsAlone ·) := by
    simpa [hp, head?_append_of_ne_nil _ hp] using hq
  refine ⟨hb, fun a ha => ?_⟩
  simpa [Option.mem_def.mp ha] using hhead

lemma endsAt_punct {p rest : Text} (hp : p ∈ punctuators) (h : ∀ b ∈ rest.head?, prolongs b = false) :
    (Lexeme.punct p).EndsAt rest := by
  intro b hb
  have hne : p ++ [b] ∉ punctuators := fun hmem => by
    have := (prolonged_of_mem (reaches_punct hp).1 hmem).1
    rw [h b hb] at this
    cases this
  simp [Lexeme.extend, hne, Lexeme.admits]

lemma spells_punct_append {p t : Text} (hp : p ∈ punctuators) (h : Spells t ts)
    (hne : t ≠ []) (hfirst : ∀ b ∈ t.head?, prolongs b = false) : Spells (p ++ t) (.punct p :: ts) := by
  refine spells_append (reaches_punct hp).2 rfl h fun rest => endsAt_punct hp ?_
  rwa [head?_append_of_ne_nil _ hne]

/-- What starts with a punctuator has it as its first token. -/
lemma lexFrom_punct {p t : Text} (h : lexFrom (.punct p) t = some ts) : ∃ q rest, ts = .punct q :: rest := by
  induction t generalizing p with
  | nil => exact ⟨p, [], (Option.some.inj h).symm⟩
  | cons b t ih =>
    cases hb : (Lexeme.punct p).extend b with
    | some next =>
      obtain ⟨-, rfl⟩ : _ ∧ .punct (p ++ [b]) = next := by simpa [Lexeme.extend] using hb
      simp only [lexFrom, hb] at h
      exact ih h
    | none =>
      have hends : (Lexeme.punct p).EndsAt (b :: t) := by simpa [Lexeme.EndsAt, Lexeme.admits] using hb
      rw [lexFrom_of_endsAt rfl hends] at h
      obtain ⟨rest, -, rfl⟩ := Option.map_eq_some_iff.mp h
      exact ⟨p, rest, rfl⟩

/-- A text whose first token is no punctuator prolongs none before it. -/
lemma Spells.first {tok : Token} (h : Spells t (tok :: ts))
    (htok : ∀ p, tok ≠ .punct p) : t ≠ [] ∧ ∀ b ∈ t.head?, prolongs b = false := by
  have hlex := h.lex_eq
  cases t with
  | nil => cases hlex
  | cons b t =>
    refine ⟨by simp, fun c hc => Bool.eq_false_iff.2 fun hprolongs => ?_⟩
    obtain rfl : b = c := by simpa using hc
    have hall : ((Text.ofString "=+-*<>&|?./").all fun b =>
        Lexeme.blank.extend b == some (.punct [b])) := by decide
    have hstart : Lexeme.blank.extend b = some (.punct [b]) := by
      simpa using all_eq_true.mp hall b (by simpa [prolongs] using hprolongs)
    simp only [lex, lexFrom, hstart] at hlex
    obtain ⟨q, rest, heq⟩ := lexFrom_punct hlex
    exact htok q (List.cons.inj heq).1

lemma endsAt_single (hb : standsAlone b) (rest : Text) : (Lexeme.punct [b]).EndsAt rest := by
  intro c _
  have hne : [b] ++ [c] ∉ punctuators := fun hmem => by
    have := (prolonged_of_mem (by simp) hmem).2 b rfl
    rw [hb] at this
    cases this
  simp only [Lexeme.extend, contains_eq_mem, hne, Lexeme.admits, decide_false, Bool.false_eq_true, if_false, and_self]

lemma spells_bracketed (h : Spells t ts) {a b : UInt8}
    (ha : a = '(' ∨ a = '[') (hb : b = ')' ∨ b = ']') :
    Spells ([a] ++ t ++ [b]) (.punct [a] :: ts ++ [.punct [b]]) := by
  obtain ⟨hap, has⟩ : [a] ∈ punctuators ∧ standsAlone a := by
    rcases ha with rfl | rfl <;> decide
  obtain ⟨hbp, hbs⟩ : [b] ∈ punctuators ∧ standsAlone b := by
    rcases hb with rfl | rfl <;> decide
  intro rest _
  have hdelim : Delimits ([b] ++ rest) := by
    intro c hc
    obtain rfl : b = c := by simpa using hc
    exact .inr hb
  have hend : lexFrom .blank ([b] ++ rest) = (lexFrom .blank rest).map ([.punct [b]] ++ ·) := by
    rw [(reaches_punct hbp).2.lexFrom_append, lexFrom_of_endsAt rfl (endsAt_single hbs rest)]
  rw [append_assoc, append_assoc, (reaches_punct hap).2.lexFrom_append,
    lexFrom_of_endsAt rfl (endsAt_single has _), h _ hdelim, hend]
  simp [Function.comp_def]

lemma Spells.between {l r p : Text} {ls rs : List Token} (hl : Spells l ls) (hp : p ∈ punctuators)
    (hr : Spells r rs) : Spells (l ++ " " ++ p ++ " " ++ r) (ls ++ .punct p :: rs) := by
  intro rest hrest
  have hspace : Text.ofString " " = [' '.toUInt8] := rfl
  have hblank : ∀ t, lexFrom .blank ([' '.toUInt8] ++ t) = lexFrom .blank t := fun _ => rfl
  have hdelim : ∀ t, Delimits ([' '.toUInt8] ++ t) := fun t b hb => .inl (by simpa using hb.symm)
  have hends : (Lexeme.punct p).EndsAt ([' '.toUInt8] ++ (r ++ rest)) :=
    endsAt_punct hp fun b hb => by
      obtain rfl : ' ' = b := by simpa using hb
      decide
  simp only [append_assoc, hspace]
  rw [hl _ (hdelim _), hblank, (reaches_punct hp).2.lexFrom_append, lexFrom_of_endsAt rfl hends, hblank, hr rest hrest]
  simp [Function.comp_def]

/-! ### Numerals -/

/-- Decimal digits. -/
structure IsDigits (t : Text) : Prop where
  ne_nil : t ≠ []
  bytes : ∀ b ∈ t, isDigit b

lemma reaches_stage {s s' : Stage} (h : s.next b = some s') (v : Text) :
    Reaches (.number s v) [b] (.number s' (v ++ [b])) :=
  reaches_byte (by simp [Lexeme.extend, h])

lemma reaches_digits {s : Stage} (hs : s = .whole ∨ s = .fraction ∨ s = .exponent)
    (h : ∀ b ∈ t, isDigit b) (v : Text) : Reaches (.number s v) t (.number s (v ++ t)) := by
  refine reaches_run (f := .number s) (fun b hb w => ?_) v
  rcases hs with rfl | rfl | rfl <;> simp [Lexeme.extend, Stage.next, h b hb]

lemma IsDigits.reaches (h : IsDigits t) : Reaches .blank t (.number .whole t) := by
  obtain ⟨hne, hb⟩ := h
  cases t with
  | nil => exact absurd rfl hne
  | cons b t =>
    have hd : isDigit b := hb b (by simp)
    have hw : isWordByte b := by simp [isWordByte, hd]
    have hstart : Reaches .blank [b] (.number .whole [b]) :=
      reaches_byte (by simp [Lexeme.extend, not_blank_of_isWordByte hw, hd])
    exact hstart.trans (reaches_digits (.inl rfl) (fun c hc => hb c (by simp [hc])) [b])

lemma IsDigits.reaches_of_mark (h : IsDigits t) {s s' : Stage}
    (hs : ∀ b, isDigit b → s.next b = some s') (hs' : s' = .fraction ∨ s' = .exponent)
    (v : Text) : Reaches (.number s v) t (.number s' (v ++ t)) := by
  obtain ⟨hne, hb⟩ := h
  cases t with
  | nil => exact absurd rfl hne
  | cons b t =>
    have hstart := reaches_stage (hs b (hb b (by simp))) v
    have ht : ∀ c ∈ t, isDigit c := fun c hc => hb c (by simp [hc])
    have hrun := reaches_digits (.inr hs') ht (v ++ [b])
    simpa using hstart.trans hrun

lemma reaches_fraction {v t : Text} (h : IsDigits t) :
    Reaches (.number .whole v) ("." ++ t) (.number .fraction (v ++ "." ++ t)) := by
  have hpoint : Reaches (.number .whole v) "." (.number .point (v ++ ".")) := reaches_stage rfl v
  refine hpoint.trans (h.reaches_of_mark (fun b hb => ?_) (.inl rfl) _)
  simp [Stage.next, hb]

lemma reaches_exponent {s : Stage} (hs : s = .whole ∨ s = .fraction) {v t : Text} (h : IsDigits t)
    {sign : UInt8} (hsign : sign = '+'.toUInt8 ∨ sign = '-'.toUInt8) :
    Reaches (.number s v) (['e'.toUInt8] ++ [sign] ++ t) (.number .exponent (v ++ ['e'.toUInt8] ++ [sign] ++ t)) := by
  have hmark : s.next 'e'.toUInt8 = some .mark := by rcases hs with rfl | rfl <;> rfl
  have hsigned : Stage.next .mark sign = some .sign := by rcases hsign with rfl | rfl <;> rfl
  have hdigits : ∀ b, isDigit b → Stage.next .sign b = some .exponent := by
    intro b hb
    simp [Stage.next, hb]
  exact ((reaches_stage hmark v).trans (reaches_stage hsigned _)).trans (h.reaches_of_mark hdigits (.inr rfl) _)

/-- A text that is one complete numeral. -/
def IsNumeral (t : Text) : Prop := ∃ s, s.isComplete ∧ Reaches .blank t (.number s t)

lemma spells_number (h : IsNumeral t) : Spells t [.number t] := by
  obtain ⟨s, hs, ht⟩ := h
  refine spells_of_reaches ht (by simp [Lexeme.tokens?, hs]) fun rest hrest b hb => ?_
  rcases hrest b hb with rfl | rfl | rfl <;> cases s <;> exact ⟨rfl, rfl⟩

/-- A number comes from its first digit or from a shorter number. -/
lemma extend_number {l : Lexeme} {b : UInt8} {s : Stage} {w : Text} (h : l.extend b = some (.number s w)) :
    (isDigit b ∧ s = .whole ∧ w = [b]) ∨ ∃ r u, l = .number r u ∧ r.next b = some s ∧ w = u ++ [b] := by
  cases l with
  | blank =>
    simp only [Lexeme.extend] at h
    split_ifs at h with hblank hquote hdigit <;> simp at h
    exact .inl ⟨hdigit, h.1.symm, h.2.symm⟩
  | number r u =>
    obtain ⟨hr, rfl⟩ : r.next b = some s ∧ u ++ [b] = w := by simpa [Lexeme.extend] using h
    exact .inr ⟨r, u, rfl, hr, rfl⟩
  | codePoint u left code =>
    simp only [Lexeme.extend, Option.bind_eq_bind, Option.bind_eq_some_iff] at h
    obtain ⟨d, -, h⟩ := h
    split_ifs at h
    · obtain ⟨c, -, h⟩ := Option.bind_eq_some_iff.1 h
      cases h
    · cases h
  | string u | escape u =>
    simp only [Lexeme.extend] at h
    split_ifs at h <;> simp at h
  | word | closed | punct => simp [Lexeme.extend] at h

/-- What a first digit has and each byte of a number keeps, the number has that a text is read as. -/
lemma Reaches.number_induction {I : Stage → Text → Prop} (first : ∀ b, isDigit b → I .whole [b])
    (next : ∀ r s u b, I r u → r.next b = some s → I s (u ++ [b])) {l : Lexeme} {s : Stage} {v : Text}
    (h : Reaches l t (.number s v)) (hl : ∀ r u, l = .number r u → I r u) : I s v := by
  induction t generalizing l with
  | nil => exact hl s v (by simpa [Reaches] using h)
  | cons b t ih =>
    obtain ⟨l', hb, ht⟩ : ∃ l', l.extend b = some l' ∧ Reaches l' t (.number s v) := by
      simpa [Reaches, Option.bind_eq_some_iff] using h
    refine ih ht ?_
    rintro r w rfl
    obtain ⟨hdigit, rfl, rfl⟩ | ⟨r', u, rfl, hr, rfl⟩ := extend_number hb
    · exact first b hdigit
    · exact next r' r u b (hl r' u rfl) hr

end Transpiler.Script.Js
