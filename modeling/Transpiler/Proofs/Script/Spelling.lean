import Transpiler.Proofs.Script.Lexing
import Transpiler.Proofs.Text.Runes
import Transpiler.Script.Generator

/-!
# Names, strings and numbers of generated code

What the generator writes for a single name, string or number is one token, whatever the source says:
a binding is a word that is not reserved, a property follows a dot only if it is a word, a string
literal has the value of the source text, and a number without its sign is one numeral.
-/

namespace Transpiler.Script

open Js List Text Decimal

/-! ## Names -/

lemma isWordByte_high {b : UInt8} (h : 0x80 ≤ b) : isWordByte b ∧ isDigit b = false := by
  have hb : 128 ≤ b.toNat := h
  rw [isWordByte_iff, Bool.eq_false_iff, ne_eq, isDigit_iff]
  omega

variable {c : Char}

/-- The only letters of ASCII are the Latin ones. -/
lemma ascii_of_isLetter (h : isLetter c) (hc : c.toNat < 128) :
    (65 ≤ c.toNat ∧ c.toNat ≤ 90) ∨ (97 ≤ c.toNat ∧ c.toNat ≤ 122) := by
  -- the third run of the table is beyond ASCII
  have htable : inRuns (65 :: 26 :: 6 :: 26 :: 47 :: 1 :: letters.drop 6) c.toNat := h
  simp only [inRuns] at htable
  grind

lemma ascii_of_isDecimalDigit (h : isDecimalDigit c) (hc : c.toNat < 128) : 48 ≤ c.toNat ∧ c.toNat ≤ 57 := by
  have htable : inRuns (48 :: 10 :: 1574 :: 10 :: decimalDigits.drop 4) c.toNat := h
  simp only [inRuns] at htable
  grind

lemma toNat_ofNat_ascii (hc : c.toNat < 128) : (UInt8.ofNat c.toNat).toNat = c.toNat :=
  UInt8.toNat_ofNat_of_lt' (Nat.lt_trans hc (by decide))

lemma word_of_isNameStart (h : isNameStart c) : ∀ b ∈ String.utf8EncodeChar c, isWordByte b ∧ isDigit b = false := by
  refine forall_utf8EncodeChar (fun hc => ?_) fun _ => isWordByte_high
  simp only [isNameStart, Bool.or_eq_true, beq_iff_eq] at h
  rcases h with (rfl | rfl) | hletter
  · decide
  · decide
  · have := ascii_of_isLetter hletter hc
    rw [isWordByte_iff, Bool.eq_false_iff, ne_eq, isDigit_iff, toNat_ofNat_ascii hc]
    omega

lemma word_of_isDecimalDigit (h : isDecimalDigit c) : ∀ b ∈ String.utf8EncodeChar c, isWordByte b := by
  refine forall_utf8EncodeChar (fun hc => ?_) fun _ hb => (isWordByte_high hb).1
  rw [isWordByte_iff, toNat_ofNat_ascii hc]
  exact .inl (ascii_of_isDecimalDigit h hc)

/-- Every character of a name is spelled with bytes of a word, the first one without digits. -/
lemma word_bindingChar (first : Bool) (c : Char) :
    ∀ b ∈ bindingChar first c, isWordByte b ∧ (first && isDigit b) = false := by
  suffices h : ((bindingChar first c).all fun b => isWordByte b && !(first && isDigit b)) by
    simpa only [all_eq_true, Bool.and_eq_true, Bool.not_eq_true'] using h
  unfold bindingChar
  split_ifs with _ _ _ hstart hdigit
  · cases first <;> decide
  · cases first <;> decide
  · cases first <;> decide
  · refine all_eq_true.mpr fun b hb => ?_
    obtain ⟨hword, hno⟩ := word_of_isNameStart hstart b hb
    simp [hword, hno]
  · obtain ⟨rfl, hdigit⟩ : first = false ∧ isDecimalDigit c := by simpa using hdigit
    refine all_eq_true.mpr fun b hb => ?_
    simp [word_of_isDecimalDigit hdigit b hb]
  · cases first <;> decide

lemma bindingChar_ne_nil (first : Bool) (c : Char) : bindingChar first c ≠ [] := by
  unfold bindingChar
  split_ifs <;> first | exact String.utf8EncodeChar_ne_nil | decide

lemma isWord_bindingChars {cs : List Char} (h : cs ≠ []) : IsWord (bindingChars cs) := by
  cases cs with
  | nil => exact absurd rfl h
  | cons c cs =>
    have hne := bindingChar_ne_nil true c
    refine ⟨by simp [bindingChars, hne], fun b hb => ?_, fun b hb => ?_⟩
    · rcases mem_append.mp hb with hb | hb
      · exact (word_bindingChar true c b hb).1
      · obtain ⟨d, _, hb⟩ := mem_flatMap.mp hb
        exact (word_bindingChar false d b hb).1
    · rw [bindingChars, head?_append_of_ne_nil _ hne] at hb
      exact (word_bindingChar true c b (mem_of_mem_head? hb)).2

lemma isWord_binding (name : Text) : IsWord (binding name) := by
  have hmark : IsWord "_" := by decide
  unfold binding
  cases hcs : name.runes.map Rune.shown with
  | nil => simpa [bindingChars] using hmark
  | cons c cs =>
    have hw : IsWord (bindingChars (c :: cs)) := isWord_bindingChars (by simp)
    dsimp only
    split_ifs
    · exact hw.append hmark.bytes
    · exact hw

lemma binding_not_mem_reservedWords (name : Text) : binding name ∉ reservedWords := by
  have hnext : (reservedWords.all fun w => !reservedWords.contains (w ++ "_")) = true := by decide
  unfold binding
  dsimp only
  split_ifs with h
  · rcases Bool.or_eq_true_iff.mp h with hnil | hres
    · have hmark : reservedWords.contains "_" = false := by decide
      rw [List.isEmpty_iff.mp hnil]
      simpa using hmark
    · simpa using all_eq_true.mp hnext _ (contains_iff_mem.mp hres)
  · simp only [Bool.or_eq_true, not_or, contains_eq_mem, decide_eq_true_eq] at h
    exact h.2

/-- A rune that can stand in a name is no stray byte. -/
lemma bytes_of_name {r : Rune} (h : isNameStart r.shown ∨ isDecimalDigit r.shown) :
    r.bytes = String.utf8EncodeChar r.shown := by
  cases r with
  | char c => rfl
  | stray b =>
    have hno : ¬(isNameStart '\ufffd' ∨ isDecimalDigit '\ufffd') := by
      decide +kernel
    exact absurd h hno

lemma isWord_of_isProperty {name : Text} (h : isProperty name) : IsWord name := by
  rw [← ofRunes_runes name]
  unfold isProperty at h
  cases hrs : name.runes with
  | nil => simp [hrs] at h
  | cons r rs =>
    simp only [hrs, map_cons, Bool.and_eq_true, all_eq_true, mem_map,
      forall_exists_index, and_imp, forall_apply_eq_imp_iff₂, Bool.or_eq_true] at h
    obtain ⟨hr, hrs⟩ := h
    -- each rune of the name is written as the bytes it was read from
    have hfirst := word_of_isNameStart hr
    have hbytes := bytes_of_name (.inl hr)
    have hne : r.bytes ≠ [] := by simp [hbytes]
    refine ⟨by simp [ofRunes, hne], fun b hb => ?_, fun b hb => ?_⟩
    · rcases mem_append.mp hb with hb | hb
      · exact (hfirst b (hbytes ▸ hb)).1
      · obtain ⟨r', hr', hb⟩ := mem_flatMap.mp hb
        rw [bytes_of_name (hrs r' hr')] at hb
        rcases hrs r' hr' with hstart | hdigit
        · exact (word_of_isNameStart hstart b hb).1
        · exact word_of_isDecimalDigit hdigit b hb
    · rw [ofRunes, flatMap_cons, head?_append_of_ne_nil _ hne] at hb
      exact (hfirst b (hbytes ▸ mem_of_mem_head? hb)).2

/-! ## Strings -/

lemma hexValue?_hexDigit {d : Nat} (h : d < 16) : hexValue? (hexDigit d) = some d := by
  have : ∀ d < 16, hexValue? (hexDigit d) = some d := by decide
  exact this d h

lemma reaches_hexDigit {v : Text} {left code d : Nat} (hd : d < 16) (hleft : left ≠ 1) :
    Reaches (.codePoint v left code) [hexDigit d] (.codePoint v (left - 1) (code * 16 + d)) :=
  reaches_byte (by simp [Lexeme.extend, hexValue?_hexDigit hd, hleft])

lemma reaches_lastHexDigit {v : Text} {code d : Nat} (hd : d < 16) (hc : code * 16 + d = c.toNat) :
    Reaches (.codePoint v 1 code) [hexDigit d] (.string (v ++ String.utf8EncodeChar c)) :=
  reaches_byte (by simp [Lexeme.extend, hexValue?_hexDigit hd, hc, char?_toNat])

lemma reaches_codePoint (h : c.toNat < 0x10000) (v : Text) :
    Reaches (.string v) ("\\u" ++ hexDigits 4 c.toNat) (.string (v ++ String.utf8EncodeChar c)) := by
  have hmark : Reaches (.string v) "\\u" (.codePoint v 4 0) := rfl
  have hlt : ∀ n, n % 16 < 16 := fun n => Nat.mod_lt n (by decide)
  have h1 : Reaches (.codePoint v 4 0) [hexDigit (c.toNat / 16 / 16 / 16 % 16)]
      (.codePoint v 3 (0 * 16 + c.toNat / 16 / 16 / 16 % 16)) := reaches_hexDigit (hlt _) (by decide)
  have h2 := h1.trans (reaches_hexDigit (hlt (c.toNat / 16 / 16)) (by decide))
  have h3 := h2.trans (reaches_hexDigit (hlt (c.toNat / 16)) (by decide))
  have h4 := h3.trans (reaches_lastHexDigit (c := c) (hlt c.toNat) (by omega))
  exact hmark.trans h4

lemma extend_string {b : UInt8} (h : b.toNat ≠ 34 ∧ b.toNat ≠ 92 ∧ b.toNat ≠ 10 ∧ b.toNat ≠ 13)
    (v : Text) : (Lexeme.string v).extend b = some (.string (v ++ [b])) := by
  have hne : ∀ c : UInt8, b.toNat ≠ c.toNat → b ≠ c := fun c hc heq => hc (congrArg UInt8.toNat heq)
  simp [Lexeme.extend, hne '"' h.1, hne '\\' h.2.1, hne '\n' h.2.2.1, hne '\r' h.2.2.2]

lemma reaches_quotedChar (c : Char) (v : Text) :
    Reaches (.string v) (quotedChar c) (.string (v ++ String.utf8EncodeChar c)) := by
  unfold quotedChar
  split_ifs with h1 h2 h3 h4 h5 h6 h7 h8
  · subst h1; rfl
  · subst h2; rfl
  · subst h3; rfl
  · subst h4; rfl
  · subst h5; rfl
  · subst h6; rfl
  · subst h7; rfl
  · refine reaches_codePoint ?_ v
    rcases h8 with h | rfl | rfl | rfl | rfl | rfl
    · omega
    all_goals decide
  · -- an unescaped character has no byte that ends or interrupts the string
    refine reaches_run (f := .string) (forall_utf8EncodeChar (fun hc => extend_string ?_)
      fun b hb => extend_string ?_) v
    · rw [toNat_ofNat_ascii hc]
      simp only [← Char.toNat_inj] at h1 h2 h5 h6
      exact ⟨h1, h2, h5, h6⟩
    · have hb' : 128 ≤ b.toNat := hb
      omega

/-- A string literal is read as one string, with each stray byte replaced. -/
lemma reaches_quote (t : Text) : Reaches .blank (quote t) (.closed t.shown) := by
  have hopen : Reaches .blank "\"" (.string []) := rfl
  have hclose : ∀ v, Reaches (.string v) "\"" (.closed v) := fun _ => rfl
  have hchars : ∀ (cs : List Char) (v : Text),
      Reaches (.string v) (cs.flatMap quotedChar) (.string (v ++ ofChars cs)) := by
    intro cs
    induction cs with
    | nil => exact fun v => by simp [Reaches, ofChars]
    | cons c cs ih =>
      intro v
      have := (reaches_quotedChar c v).trans (ih _)
      simpa [ofChars] using this
  exact (hopen.trans (hchars _ [])).trans (hclose _)

lemma spells_quote (t : Text) : Spells (quote t) [.string t.shown] :=
  spells_of_reaches (reaches_quote t) rfl fun _ _ _ _ => ⟨rfl, rfl⟩

lemma newline_not_mem_hexDigits (width n : Nat) : newline ∉ hexDigits width n := by
  induction width generalizing n with
  | zero => exact not_mem_nil
  | succ w ih =>
    have hdigit : ∀ d < 16, newline ≠ hexDigit d := by decide
    rw [hexDigits, mem_append, mem_singleton, not_or]
    exact ⟨ih _, hdigit _ (Nat.mod_lt n (by decide))⟩

lemma newline_not_mem_quotedChar (c : Char) : newline ∉ quotedChar c := by
  unfold quotedChar
  split_ifs with h1 h2 h3 h4 h5 h6 h7 h8
  iterate 7 decide
  · have hmark : newline ∉ ofString "\\u" := by decide
    rw [mem_append, not_or]
    exact ⟨hmark, newline_not_mem_hexDigits 4 c.toNat⟩
  · -- the one character with this byte is escaped
    intro hmem
    refine forall_utf8EncodeChar (p := (· ≠ newline)) (fun hc heq => h5 ?_) (fun b hb heq => ?_) _ hmem rfl
    · rw [← Char.toNat_inj, ← toNat_ofNat_ascii hc, heq]
      rfl
    · rw [heq] at hb
      exact absurd hb (by decide)

lemma newline_not_mem_quote (t : Text) : newline ∉ quote t := by
  have hmark : newline ∉ ofString "\"" := by decide
  rw [quote, mem_append, mem_append, mem_flatMap]
  rintro ((h | ⟨c, -, h⟩) | h)
  · exact hmark h
  · exact newline_not_mem_quotedChar c h
  · exact hmark h

/-! ## Numbers -/

lemma toNat_of_mem_toDigits {n : Nat} (h : c ∈ Nat.toDigits 10 n) : 48 ≤ c.toNat ∧ c.toNat ≤ 57 := by
  have hd := Nat.isDigit_of_mem_toDigits (by decide) (by decide) h
  simp only [Char.isDigit, Bool.and_eq_true, decide_eq_true_eq, UInt32.le_iff_toNat_le] at hd
  exact hd

lemma isDigits_ofNat (n : Nat) : IsDigits (ofNat n) := by
  refine ⟨by simp [ofNat, Nat.toDigits_ne_nil], fun b hb => ?_⟩
  obtain ⟨c, hc, rfl⟩ := mem_map.mp hb
  have hd := toNat_of_mem_toDigits hc
  have hbyte : c.toUInt8.toNat = c.toNat := toNat_ofNat_ascii (by omega)
  rwa [isDigit_iff, hbyte]

lemma isDigits_digitText {ds : List Nat} (hne : ds ≠ []) (h : ∀ d ∈ ds, d < 10) : IsDigits (digitText ds) := by
  have hbyte : ∀ d < 10, Js.isDigit (d + 48).toUInt8 := by decide
  refine ⟨by simpa [digitText] using hne, fun b hb => ?_⟩
  obtain ⟨d, hd, rfl⟩ := mem_map.mp hb
  exact hbyte d (h d hd)

lemma isNumeral_ofNat (n : Nat) : IsNumeral (ofNat n) :=
  ⟨.whole, rfl, (isDigits_ofNat n).reaches⟩

lemma reaches_decimal {w f : Text} (hw : IsDigits w) (hf : IsDigits f) :
    Reaches .blank (w ++ "." ++ f) (.number .fraction (w ++ "." ++ f)) := by
  rw [append_assoc]
  simpa using hw.reaches.trans (reaches_fraction hf)

lemma isDigits_zero : IsDigits (ofString "0") := ⟨by decide, all_eq_true.mp (by decide)⟩

variable {d : Decimal}

/-- A decimal written out has digits on both sides of its point, if it has one. -/
lemma positional_cases (h : ∀ x ∈ d.digits, x < 10) :
    IsDigits (positional d) ∨ ∃ w f, IsDigits w ∧ IsDigits f ∧ positional d = w ++ "." ++ f := by
  -- the part before the point, filled up with zeros
  obtain ⟨w, hw, hw'⟩ : ∃ w, IsDigits w ∧ w = if d.point ≤ 0 then ofString "0"
      else digitText (d.digits.take d.point.toNat ++ List.replicate (d.point.toNat - d.digits.length) 0) := by
    refine ⟨_, ?_, rfl⟩
    split_ifs with hpoint
    · exact isDigits_zero
    · refine isDigits_digitText (fun hnil => ?_) fun x hx => ?_
      · have hlen := congrArg List.length hnil
        simp only [length_append, length_take, length_replicate, length_nil] at hlen
        omega
      · rcases mem_append.mp hx with hx | hx
        · exact h x (mem_of_mem_take hx)
        · rw [eq_of_mem_replicate hx]
          decide
  unfold positional
  dsimp only
  rw [← hw']
  split_ifs with hlen
  · exact .inl hw
  · refine .inr ⟨w, _, hw, isDigits_digitText (fun hnil => ?_) fun x hx => ?_, rfl⟩
    · have hlen' := congrArg List.length hnil
      simp only [length_append, length_drop, length_replicate, length_nil] at hlen'
      omega
    · rcases mem_append.mp hx with hx | hx
      · rw [eq_of_mem_replicate hx]
        decide
      · exact h x (mem_of_mem_drop hx)

lemma exponentText_eq (e : Int) : ∃ sign ds, (sign = '+'.toUInt8 ∨ sign = '-'.toUInt8) ∧ IsDigits ds ∧
    exponentText e = ['e'.toUInt8] ++ [sign] ++ ds := by
  have hds : IsDigits (if (ofNat e.natAbs).length < 2 then "0" ++ ofNat e.natAbs
      else ofNat e.natAbs) := by
    have hn := isDigits_ofNat e.natAbs
    split_ifs
    · refine ⟨by simp [hn.ne_nil], fun b hb => ?_⟩
      exact (mem_append.mp hb).elim (isDigits_zero.bytes b) (hn.bytes b)
    · exact hn
  by_cases he : e < 0
  · exact ⟨'-'.toUInt8, _, .inr rfl, hds, by rw [exponentText, if_pos he]; rfl⟩
  · exact ⟨'+'.toUInt8, _, .inl rfl, hds, by rw [exponentText, if_neg he]; rfl⟩

lemma isNumeral_exponent {s : Stage} (hs : s = .whole ∨ s = .fraction) {t : Text}
    (ht : Reaches .blank t (.number s t)) (e : Int) : IsNumeral (t ++ exponentText e) := by
  obtain ⟨sign, ds, hsign, hds, he⟩ := exponentText_eq e
  refine ⟨.exponent, rfl, ?_⟩
  rw [he]
  simpa using ht.trans (reaches_exponent hs hds hsign)

lemma isNumeral_scientific (h : ∀ x ∈ d.digits, x < 10) : IsNumeral (scientific d) := by
  unfold scientific
  split
  · exact ⟨.whole, rfl, isDigits_zero.reaches⟩
  · rename_i first hd
    have hf : IsDigits (digitText [first]) := isDigits_digitText (by simp) (by simpa [hd] using h)
    exact isNumeral_exponent (.inl rfl) hf.reaches _
  · rename_i first rest hne hd
    rw [hd] at h
    have hf : IsDigits (digitText [first]) := isDigits_digitText (by simp) (by simpa using h first)
    have hr : IsDigits (digitText rest) :=
      isDigits_digitText (fun hnil => hne (by rw [hnil])) fun x hx => h x (by simp [hx])
    exact isNumeral_exponent (.inr rfl) (reaches_decimal hf hr) _

lemma isNumeral_literalDecimal (h : ∀ x ∈ d.digits, x < 10) : IsNumeral (literalDecimal d) := by
  unfold literalDecimal
  dsimp only
  split_ifs with hexp hpoint
  · exact isNumeral_scientific h
  · rcases positional_cases h with hd | ⟨w, f, hw, hf, heq⟩
    · exact ⟨.whole, rfl, hd.reaches⟩
    · exact heq ▸ ⟨.fraction, rfl, reaches_decimal hw hf⟩
  · rcases positional_cases h with hd | ⟨w, f, hw, hf, heq⟩
    · have hzero := reaches_decimal hd isDigits_zero
      rw [append_assoc] at hzero
      exact ⟨.fraction, rfl, hzero⟩
    · have hmem : '.'.toUInt8 ∈ ofString "." := by decide
      exact absurd (by simp [heq, hmem]) hpoint

lemma digits_digitsOf (n : Nat) : ∀ x ∈ digitsOf n, x < 10 := by
  intro x hx
  unfold digitsOf at hx
  split_ifs at hx
  · cases hx
  · obtain ⟨c, hc, rfl⟩ := mem_map.mp hx
    have hd := toNat_of_mem_toDigits hc
    omega

lemma digits_firstWith (m : Nat) (q point : Int) (ns : List Nat) : ∀ x ∈ (firstWith m q point ns).digits, x < 10 := by
  induction ns with
  | nil => simp [firstWith]
  | cons n ns ih =>
    rw [firstWith]
    split
    · rename_i d hd
      obtain ⟨c, -, rfl⟩ := Option.map_eq_some_iff.mp hd
      intro x hx
      have hx' := mem_reverse.mp hx
      exact digits_digitsOf c x (mem_reverse.mp (dropWhile_sublist _ |>.subset hx'))
    · exact ih

lemma digits_shortest (m : Nat) (q : Int) : ∀ x ∈ (shortest m q).digits, x < 10 := by
  unfold shortest
  split_ifs
  · simp
  · exact digits_firstWith m q _ _

lemma isNumeral_positional (h : ∀ x ∈ d.digits, x < 10) : IsNumeral (positional d) := by
  rcases positional_cases h with hd | ⟨w, f, hw, hf, heq⟩
  · exact ⟨.whole, rfl, hd.reaches⟩
  · exact heq ▸ ⟨.fraction, rfl, reaches_decimal hw hf⟩

lemma signText_mem (negative : Bool) : signText negative ∈ [[], ("-" : Text), "+"] := by
  cases negative <;> simp [signText]

lemma ofInt_eq (i : Int) : ofInt i = signText (i < 0) ++ ofNat i.natAbs := by
  cases i with
  | ofNat n => rfl
  | negSucc n =>
    have hneg : decide (Int.negSucc n < 0) := decide_eq_true (Int.negSucc_lt_zero n)
    rw [hneg]
    rfl

/-- A word or a numeral, perhaps behind a sign. -/
def IsSigned (t : Text) : Prop :=
  ∃ sign body, sign ∈ [[], ("-" : Text), "+"] ∧ (IsWord body ∨ IsNumeral body) ∧ t = sign ++ body

lemma isSigned_of_isWord (h : IsWord t) : IsSigned t := ⟨[], t, by simp, .inl h, rfl⟩

lemma isSigned_ofInt (i : Int) : IsSigned (ofInt i) :=
  ⟨_, _, signText_mem _, .inr (isNumeral_ofNat _), ofInt_eq i⟩

lemma isSigned_floatLiteral (x : Binary64) : IsSigned (floatLiteral x) := by
  rw [floatLiteral.eq_def]
  split
  · exact isSigned_of_isWord (by decide)
  · exact ⟨_, "Infinity", signText_mem _, .inl (by decide), rfl⟩
  · exact ⟨_, _, signText_mem _, .inr (isNumeral_literalDecimal (digits_shortest _ _)), rfl⟩

lemma isSigned_floatInFull (x : Binary64) : IsSigned (floatInFull x) := by
  rw [floatInFull.eq_def]
  split
  · exact isSigned_of_isWord (by decide)
  · rename_i negative _
    cases negative
    · exact ⟨"+", "Inf", by simp, .inl (by decide), rfl⟩
    · exact ⟨"-", "Inf", by simp, .inl (by decide), rfl⟩
  · exact ⟨_, _, signText_mem _, .inr (isNumeral_positional (digits_shortest _ _)), rfl⟩

/-! ### Operators -/

/-- The names of the operators on two operands, each with its text. -/
def binaryOperators : List (Text × Text) :=
  ("==", "===") :: ("!=", "!==") :: (List.map ofString ["+", "-", "*", "/", "%", "**", "<", ">", "<=", ">=", "&",
    "|", "^", ">>", "&&", "||"]).map fun t => (t, t)

lemma mem_binaryOperators {name op : Text} (h : binaryOperator? name = some op) : (name, op) ∈ binaryOperators := by
  rw [binaryOperator?] at h
  split_ifs at h with heq hne hmem
  · rw [← Option.some.inj h, beq_iff_eq.1 heq]
    exact mem_cons_self
  · rw [← Option.some.inj h, beq_iff_eq.1 hne]
    exact mem_cons_of_mem _ mem_cons_self
  · rw [← Option.some.inj h]
    exact mem_cons_of_mem _ (mem_cons_of_mem _ (mem_map_of_mem (contains_iff_mem.1 hmem)))

end Transpiler.Script
