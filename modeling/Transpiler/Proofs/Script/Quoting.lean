import Transpiler.Proofs.Script.Spelling
import Transpiler.Proofs.Text.Utf8

/-!
# What string literals mean

A string literal is read by two steps that know nothing of the writer: `signs` takes what stands between the quotes
apart into bytes and code units, and `Sign.text?` puts the text together. The literal of a text is sealed, so that
nothing ends it early, and it is read as the text again, with a replacement character for each byte that begins no
character (`quote_faithful`).
-/

namespace Transpiler.Script

open List Text

namespace Js.Literal

/-- What a literal is made of: bytes of text, and code units that are given by number. -/
inductive Sign where
  | byte (b : UInt8)
  | unit (n : Nat)
deriving DecidableEq, Repr

/-- The number of four hexadecimal digits. -/
def codeUnit? (a b c d : UInt8) : Option Nat := do
  let w ← hexValue? a
  let x ← hexValue? b
  let y ← hexValue? c
  let z ← hexValue? d
  return ((w * 16 + x) * 16 + y) * 16 + z

/-- The signs between the quotes of a literal. A quote or a control character has to be escaped. -/
def signs : Text → Option (List Sign)
  | [] => some []
  | b :: rest =>
    if b == '\\' then
      match rest with
      | [] => none
      | e :: rest =>
        if e == 'u' then
          match rest with
          | a :: b :: c :: d :: rest => (codeUnit? a b c d).bind fun n => (signs rest).map (.unit n :: ·)
          | _ => none
        else (escaped? e).bind fun c => (signs rest).map (.byte c :: ·)
    else if b == '"' || b < 0x20 then none
    else (signs rest).map (.byte b :: ·)

/-- The character of two code units: the high half and the low half. -/
def pairedChar? (high low : Nat) : Option Char :=
  if 0xD800 ≤ high ∧ high < 0xDC00 ∧ 0xDC00 ≤ low ∧ low < 0xE000 then
    char? (0x10000 + (high - 0xD800) * 0x400 + (low - 0xDC00))
  else none

/-- The text that signs stand for: a code unit is a character, or two are. -/
def Sign.text? : List Sign → Option Text
  | [] => some []
  | .byte b :: rest => (Sign.text? rest).map ([b] ++ ·)
  | .unit n :: rest =>
    match char? n with
    | some c => (Sign.text? rest).map (String.utf8EncodeChar c ++ ·)
    | none =>
      match rest with
      | .unit m :: rest =>
        (pairedChar? n m).bind fun c => (Sign.text? rest).map (String.utf8EncodeChar c ++ ·)
      | _ => none

/-- The value of a literal, from what stands between its quotes. -/
def unescape (t : Text) : Option Text := (signs t).bind Sign.text?

example : unescape "a\\u00e9\\n\\ud83d\\ude00" = some (ofString "aé\n😀") := by decide
example : unescape "\\ud83d" = none := by decide

/-! ### Reading what stands in front -/

/-- A sign in front of a literal is read first, and what it stands for comes first in the text. -/
lemma unescape_of_sign {s : Sign} {t t' v : Text} (hsigns : signs t' = (signs t).map (s :: ·))
    (htext : ∀ ss, Sign.text? (s :: ss) = (Sign.text? ss).map (v ++ ·)) :
    unescape t' = (unescape t).map (v ++ ·) := by
  rw [unescape, unescape, hsigns]
  cases signs t with
  | none => rfl
  | some ss => exact htext ss

lemma text?_unit (c : Char) (ss : List Sign) :
    Sign.text? (.unit c.toNat :: ss) = (Sign.text? ss).map (String.utf8EncodeChar c ++ ·) := by
  rw [Sign.text?.eq_def]
  simp only [char?_toNat]

/-- A byte that may stand in a literal as itself. -/
def IsPlain (b : UInt8) : Prop := b ≠ '\\' ∧ b ≠ '"' ∧ 0x20 ≤ b

lemma unescape_plain_append {x : Text} (h : ∀ b ∈ x, IsPlain b) (t : Text) :
    unescape (x ++ t) = (unescape t).map (x ++ ·) := by
  induction x with
  | nil => simp
  | cons b x ih =>
    obtain ⟨hslash, hquote, hlow⟩ := h b mem_cons_self
    have hsigns : signs (b :: (x ++ t)) = (signs (x ++ t)).map (.byte b :: ·) := by
      rw [signs.eq_def]
      simp [hslash, hquote, UInt8.not_lt.2 hlow]
    rw [cons_append, unescape_of_sign hsigns fun _ => rfl, ih fun c hc => h c (mem_cons_of_mem b hc), Option.map_map]
    rfl

lemma unescape_escape {e c : UInt8} (hu : e ≠ 'u') (h : escaped? e = some c) (t : Text) :
    unescape ('\\' :: e :: t) = (unescape t).map ([c] ++ ·) := by
  refine unescape_of_sign (s := .byte c) ?_ fun _ => rfl
  rw [signs.eq_def]
  simp [hu, h]

lemma unescape_unit {a b c d : UInt8} {x : Char} (h : codeUnit? a b c d = some x.toNat) (t : Text) :
    unescape ('\\' :: 'u' :: a :: b :: c :: d :: t) = (unescape t).map (String.utf8EncodeChar x ++ ·) := by
  refine unescape_of_sign (s := .unit x.toNat) ?_ (text?_unit x)
  rw [signs.eq_def]
  simp [h]

end Js.Literal

/-! ## The literal of a text -/

open Js Js.Literal

/-- The four digits of a code point below 65536 are read as it. -/
lemma codeUnit?_hexDigits {n : Nat} (h : n < 0x10000) :
    ∃ a b c d, hexDigits 4 n = [a, b, c, d] ∧ codeUnit? a b c d = some n := by
  have hlt : ∀ n, n % 16 < 16 := fun n => Nat.mod_lt n (by decide)
  refine ⟨_, _, _, _, rfl, ?_⟩
  simp only [codeUnit?, hexValue?_hexDigit (hlt _), Option.bind_eq_bind, Option.bind_some, Option.pure_def,
    Option.some.injEq]
  omega

lemma isPlain_of_toNat {b : UInt8} (h : b.toNat ≠ 92 ∧ b.toNat ≠ 34 ∧ 0x20 ≤ b.toNat) : IsPlain b := by
  refine ⟨?_, ?_, h.2.2⟩
  · rintro rfl
    exact h.1 rfl
  · rintro rfl
    exact h.2.1 rfl

/-- A character that needs no escape has bytes that need none. -/
lemma isPlain_utf8EncodeChar {c : Char} (hquote : c ≠ '"') (hslash : c ≠ '\\') (hlow : 0x20 ≤ c.toNat) :
    ∀ b ∈ String.utf8EncodeChar c, IsPlain b := by
  refine forall_utf8EncodeChar (fun hc => ?_) fun b hb => ?_
  · rw [ne_eq, ← Char.toNat_inj] at hquote hslash
    rw [← toNat_ofNat_ascii hc] at hquote hslash hlow
    exact isPlain_of_toNat ⟨hslash, hquote, hlow⟩
  · have hb' : 128 ≤ b.toNat := hb
    exact isPlain_of_toNat ⟨by omega, by omega, by omega⟩

/-- The characters that matter to the markup around a script, and the two line separators. -/
def markupChars : List Char := ['<', '>', '&', '\u2028', '\u2029']

/-- The character may stand in what `c` is written as: it is no control character, does not matter to the
markup, and is a quote only if `c` is one. -/
def standsFor (c d : Char) : Bool :=
  decide (0x20 ≤ d.toNat) && !markupChars.contains d && (d != '"' || c == '"')

lemma standsFor_iff {c d : Char} : standsFor c d = true ↔ 0x20 ≤ d.toNat ∧ d ∉ markupChars ∧ (d = '"' → c = '"') := by
  simp [standsFor, imp_iff_not_or, and_assoc]

/-- The ways to write a character in a literal: by a letter that stands for it, by its number, or as itself. -/
inductive QuotedAs (c : Char) : Text → Prop
  | letter {e : Char} {b : UInt8} (hu : e.toUInt8 ≠ 'u') (hread : escaped? e.toUInt8 = some b)
      (hc : String.utf8EncodeChar c = [b]) (he : String.utf8EncodeChar e = [e.toUInt8])
      (hstands : standsFor c e) : QuotedAs c ['\\', e.toUInt8]
  | number (h : c.toNat < 0x10000) : QuotedAs c ("\\u" ++ hexDigits 4 c.toNat)
  | itself (hslash : c ≠ '\\') (hquote : c ≠ '"') (hstands : standsFor c c = true) :
      QuotedAs c (String.utf8EncodeChar c)

lemma quotedAs_quotedChar (c : Char) : QuotedAs c (quotedChar c) := by
  unfold quotedChar
  split_ifs with h1 h2 h3 h4 h5 h6 h7 h8
  · subst h1; exact .letter (e := '"') (by decide) rfl rfl rfl rfl
  · subst h2; exact .letter (e := '\\') (by decide) rfl rfl rfl rfl
  · subst h3; exact .letter (e := 'b') (by decide) rfl rfl rfl rfl
  · subst h4; exact .letter (e := 'f') (by decide) rfl rfl rfl rfl
  · subst h5; exact .letter (e := 'n') (by decide) rfl rfl rfl rfl
  · subst h6; exact .letter (e := 'r') (by decide) rfl rfl rfl rfl
  · subst h7; exact .letter (e := 't') (by decide) rfl rfl rfl rfl
  · refine .number ?_
    rcases h8 with h | rfl | rfl | rfl | rfl | rfl
    · omega
    all_goals decide
  · simp only [not_or] at h8
    exact .itself h2 h1 (standsFor_iff.2 ⟨by omega, by simpa [markupChars] using h8.2, id⟩)

/-! ### What is read -/

/-- Each character is read from the literal as itself, whatever follows it. -/
lemma QuotedAs.unescape_append {c : Char} {x : Text} (h : QuotedAs c x) (t : Text) :
    unescape (x ++ t) = (unescape t).map (String.utf8EncodeChar c ++ ·) := by
  cases h with
  | letter hu hread hc =>
    rw [hc]
    exact unescape_escape hu hread t
  | number hsmall =>
    obtain ⟨a, b, d, e, hdigits, hunit⟩ := codeUnit?_hexDigits hsmall
    rw [hdigits]
    exact unescape_unit hunit t
  | itself hslash hquote hstands =>
    exact unescape_plain_append (isPlain_utf8EncodeChar hquote hslash (standsFor_iff.1 hstands).1) t

/-- What stands between the quotes of the literal of a text. -/
def quotedText (t : Text) : Text := (t.runes.map Rune.shown).flatMap quotedChar

lemma quote_eq (t : Text) : quote t = '"'.toUInt8 :: (quotedText t ++ ['"'.toUInt8]) := rfl

lemma unescape_quotedText (t : Text) : unescape (quotedText t) = some t.shown := by
  have hchars : ∀ cs : List Char, unescape (cs.flatMap quotedChar) = some (ofChars cs) := by
    intro cs
    induction cs with
    | nil => rfl
    | cons c cs ih =>
      rw [flatMap_cons, (quotedAs_quotedChar c).unescape_append, ih]
      rfl
  exact hchars _

/-! ### Quotes -/

/-- The number of backslashes at the end of a text. -/
def backslashes (t : Text) : Nat := (t.reverse.takeWhile (· == '\\'.toUInt8)).length

/-- An even number of backslashes before a text does not count. -/
lemma backslashes_append {x : Text} (h : backslashes x % 2 = 0) (y : Text) :
    backslashes (x ++ y) % 2 = backslashes y % 2 := by
  unfold backslashes at h ⊢
  rw [reverse_append, List.takeWhile_append]
  split_ifs with hall
  · rw [length_append, hall]
    omega
  · rfl

/-- A text that ends with another byte ends with no backslash. -/
lemma backslashes_concat (x : Text) {b : UInt8} (h : b ≠ '\\'.toUInt8) : backslashes (x ++ [b]) = 0 := by
  simp [backslashes, h]

/-- What a character is written as ends with no backslash or with two. -/
lemma QuotedAs.backslashes_even {c : Char} {x : Text} (h : QuotedAs c x) : backslashes x % 2 = 0 := by
  cases h with
  | @letter e =>
    by_cases he : e.toUInt8 = '\\'
    · rw [he]
      decide
    · rw [← singleton_append, backslashes_concat _ he]
  | number =>
    have hdigit : ∀ d < 16, hexDigit d ≠ '\\' := by decide
    rw [hexDigits, ← append_assoc, backslashes_concat _ (hdigit _ (Nat.mod_lt _ (by decide)))]
  | itself hslash hquote hstands =>
    have hplain := isPlain_utf8EncodeChar hquote hslash (standsFor_iff.1 hstands).1
    rcases eq_nil_or_concat (String.utf8EncodeChar c) with hnil | ⟨x, b, heq⟩
    · exact absurd hnil String.utf8EncodeChar_ne_nil
    · rw [concat_eq_append] at heq
      rw [heq, backslashes_concat x (hplain b (by simp [heq])).1]

/-! ### Characters -/

lemma madeOf_hexDigits (width n : Nat) : Text.MadeOf (fun d => ∃ k < 16, d = Nat.digitChar k) (hexDigits width n) := by
  induction width generalizing n with
  | zero => exact ⟨[], rfl, by simp⟩
  | succ w ih =>
    have hdigit : ∀ k < 16, [hexDigit k] = String.utf8EncodeChar k.digitChar := by decide
    have hlt : n % 16 < 16 := Nat.mod_lt n (by decide)
    rw [hexDigits, hdigit _ hlt]
    exact (ih (n / 16)).append (.singleton ⟨n % 16, hlt, rfl⟩)

lemma QuotedAs.madeOf {c : Char} {x : Text} (h : QuotedAs c x) : Text.MadeOf (fun d => standsFor c d) x := by
  have hslash : Text.MadeOf (fun d => standsFor c d) ['\\'] := .singleton (c := '\\') rfl
  cases h with
  | letter hu hread hc he hstands =>
    rw [← singleton_append, ← he]
    exact hslash.append (.singleton hstands)
  | number =>
    have hdigit : (List.range 16).all (fun k => standsFor c k.digitChar) := rfl
    have hu : Text.MadeOf (fun d => standsFor c d) ['u'] := .singleton (c := 'u') rfl
    refine (hslash.append hu).append ((madeOf_hexDigits 4 c.toNat).mono ?_)
    rintro d ⟨k, hk, rfl⟩
    exact all_eq_true.1 hdigit k (mem_range.2 hk)
  | itself hslash hquote hstands => exact .singleton hstands

/-- What may stand between the quotes of a literal. Each quote has an odd number of backslashes before it,
and the closing one an even number; no byte is a control character, and no character that matters to the
markup stands there as itself. -/
structure Sealed (t : Text) : Prop where
  quotes : ∀ x y, t = x ++ '"'.toUInt8 :: y → backslashes x % 2 = 1
  closing : backslashes t % 2 = 0
  controls : ∀ b ∈ t, 0x20 ≤ b
  markup : ∀ c ∈ markupChars, ¬ String.utf8EncodeChar c <:+: t

/-- A quote within what a character is written as has one backslash before it. -/
lemma quote_in_quotedChar {c : Char} {x y : Text} (h : quotedChar c = x ++ '"'.toUInt8 :: y) :
    backslashes x % 2 = 1 := by
  obtain ⟨ds, heq, hds⟩ := (quotedAs_quotedChar c).madeOf
  have hmem : '"' ∈ ds := by
    apply mem_of_infix_ofChars
    rw [← heq, h]
    exact ⟨x, y, by rw [append_assoc]; rfl⟩
  obtain rfl := (standsFor_iff.1 (hds _ hmem)).2.2 rfl
  have hbytes : quotedChar '"' = ['\\', '"'] := rfl
  rw [hbytes] at h
  -- the literal has two bytes, and the first is no quote
  obtain _ | ⟨a, _ | ⟨b, x⟩⟩ := x
  · cases (List.cons.inj h).1
  · obtain ⟨rfl, -⟩ := List.cons.inj h
    rfl
  · simp at h

lemma quotes_escaped (cs : List Char) (x y : Text) (h : cs.flatMap quotedChar = x ++ '"'.toUInt8 :: y) :
    backslashes x % 2 = 1 := by
  induction cs generalizing x with
  | nil => simp at h
  | cons c cs ih =>
    rw [flatMap_cons] at h
    rcases append_eq_append_iff.1 h with ⟨z, rfl, hrest⟩ | ⟨z, hquoted, hrest⟩
    · -- behind the character, which leaves the parity as it is
      rw [backslashes_append (quotedAs_quotedChar c).backslashes_even]
      exact ih z hrest
    · cases z with
      | nil =>
        -- right behind the character
        rw [append_nil] at hquoted
        rw [← hquoted, ← append_nil (quotedChar c), backslashes_append (quotedAs_quotedChar c).backslashes_even]
        exact ih [] hrest.symm
      | cons b z =>
        obtain ⟨rfl, -⟩ := List.cons.inj hrest
        exact quote_in_quotedChar hquoted

lemma backslashes_flatMap_quotedChar (cs : List Char) : backslashes (cs.flatMap quotedChar) % 2 = 0 := by
  induction cs with
  | nil => rfl
  | cons c cs ih => rw [flatMap_cons, backslashes_append (quotedAs_quotedChar c).backslashes_even, ih]

lemma sealed_quotedText (t : Text) : Sealed (quotedText t) := by
  have hchar : ∀ c, Text.MadeOf (fun d => 0x20 ≤ d.toNat ∧ d ∉ markupChars) (quotedChar c) := by
    intro c
    refine (quotedAs_quotedChar c).madeOf.mono fun d hd => ?_
    obtain ⟨hcontrol, hmarkup, -⟩ := standsFor_iff.1 hd
    exact ⟨hcontrol, hmarkup⟩
  obtain ⟨ds, heq, hds⟩ := Text.MadeOf.flatMap hchar (t.runes.map Rune.shown)
  refine ⟨quotes_escaped _, backslashes_flatMap_quotedChar _, ?_, ?_⟩
  · intro b hb
    rw [quotedText, heq] at hb
    obtain ⟨d, hd, hb⟩ := mem_flatMap.1 hb
    refine forall_utf8EncodeChar (p := (0x20 ≤ ·)) (fun hc => ?_) (fun b hb => ?_) b hb
    · rw [UInt8.le_iff_toNat_le, toNat_ofNat_ascii hc]
      exact (hds d hd).1
    · exact UInt8.le_trans (by decide) hb
  · intro c hc hstands
    rw [quotedText, heq] at hstands
    exact (hds c (mem_of_infix_ofChars hstands)).2 hc

lemma quote_injOn {s t : Text} (hs : s.isUtf8) (ht : t.isUtf8) (h : quote s = quote t) : s = t := by
  have hinside : quotedText s = quotedText t := by
    rw [quote_eq, quote_eq] at h
    exact append_cancel_right (List.cons.inj h).2
  have hread : some s.shown = some t.shown := by
    rw [← unescape_quotedText, ← unescape_quotedText, hinside]
  rw [← shown_of_isUtf8 hs, ← shown_of_isUtf8 ht]
  exact Option.some.inj hread

/-- **String literals are faithful.** The literal of a text is a sealed text between two quotes. It is read as the text
with each byte that begins no character replaced, so as the text itself if that is well-formed; two well-formed
texts have the same literal only if they are the same. -/
theorem quote_faithful (s : Text) :
    (∃ inside value, quote s = '"'.toUInt8 :: (inside ++ ['"'.toUInt8]) ∧ Sealed inside ∧
      Js.Literal.unescape inside = some value ∧ Text.Mended s value ∧ (s.isUtf8 = true → value = s)) ∧
    ∀ t : Text, s.isUtf8 = true → t.isUtf8 = true → quote s = quote t → s = t := by
  refine ⟨⟨quotedText s, s.shown, quote_eq s, sealed_quotedText s, unescape_quotedText s, ?_, ?_⟩, ?_⟩
  · exact mended_iff.2 rfl
  · exact shown_of_isUtf8
  · intro t hs ht
    exact quote_injOn hs ht

/-- A backslash before a quote, a line separator, markup and a character of two bytes. -/
theorem quote_faithful_adjacent :
    let s : Text := "\\\"\u2028</é"
    let t : Text := "\\\"\u2029</é"
    s.isUtf8 = true ∧ t.isUtf8 = true ∧ quote s ≠ quote t ∧
      ∃ inside, quote s = '"'.toUInt8 :: (inside ++ ['"'.toUInt8]) ∧ Sealed inside ∧
        Js.Literal.unescape inside = some s := by
  intro s t
  have hs : s.isUtf8 = true := (isUtf8_iff s).2 ⟨['\\', '"', '\u2028', '<', '/', 'é'], by decide⟩
  have ht : t.isUtf8 = true := (isUtf8_iff t).2 ⟨['\\', '"', '\u2029', '<', '/', 'é'], by decide⟩
  obtain ⟨⟨inside, value, hquote, hsealed, hread, -, hvalue⟩, hinj⟩ := quote_faithful s
  obtain rfl := hvalue hs
  exact ⟨hs, ht, fun h => absurd (hinj t hs ht h) (by decide), inside, hquote, hsealed, hread⟩

end Transpiler.Script
