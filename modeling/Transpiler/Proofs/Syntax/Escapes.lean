import Transpiler.Proofs.Script.Quoting
import Transpiler.Proofs.Syntax.Lossless

/-!
# Escapes in strings and symbols

Between double quotes a backslash and the byte behind it stand for one character. If that byte is the first of a
character beyond ASCII, the other bytes of the character are left behind and begin none. So what is read from a
well-formed line is well-formed, and can be written as a literal that says the same, exactly where no backslash stands
before such a character (`lex_literals_isUtf8_iff`). Between single quotes nothing is torn apart.
-/

namespace Transpiler

open List Text

namespace Lexer

/-! ## What a run says -/

/-- What a run of bytes inside a string is read as. -/
def resolve (quote : UInt8) : Text → Text
  | c :: d :: rest =>
    if c == '\\'.toUInt8 then escape quote d ++ resolve quote rest else c :: resolve quote (d :: rest)
  | s => s

/-- Whether a backslash in a run takes with it a byte beyond ASCII. -/
def escapesWide : Text → Bool
  | c :: d :: rest => if c == '\\'.toUInt8 then 0x80 ≤ d || escapesWide rest else escapesWide (d :: rest)
  | _ => false

variable {quote : UInt8}

lemma resolve_cons_of_ne {c : UInt8} (hc : c ≠ '\\'.toUInt8) (rest : Text) :
    resolve quote (c :: rest) = c :: resolve quote rest := by
  cases rest with
  | nil => rfl
  | cons d rest => rw [resolve, if_neg (by simpa using hc)]

lemma escapesWide_cons_of_ne {c : UInt8} (hc : c ≠ '\\'.toUInt8) (rest : Text) :
    escapesWide (c :: rest) = escapesWide rest := by
  cases rest with
  | nil => rfl
  | cons d rest => rw [escapesWide, if_neg (by simpa using hc)]

lemma resolve_append {x : Text} (hx : ∀ b ∈ x, b ≠ '\\'.toUInt8) (rest : Text) :
    resolve quote (x ++ rest) = x ++ resolve quote rest := by
  induction x with
  | nil => rfl
  | cons b x ih =>
    obtain ⟨hb, hx⟩ := forall_mem_cons.1 hx
    rw [cons_append, resolve_cons_of_ne hb, ih hx, cons_append]

lemma escapesWide_append {x : Text} (hx : ∀ b ∈ x, b ≠ '\\'.toUInt8) (rest : Text) :
    escapesWide (x ++ rest) = escapesWide rest := by
  induction x with
  | nil => rfl
  | cons b x ih =>
    obtain ⟨hb, hx⟩ := forall_mem_cons.1 hx
    rw [cons_append, escapesWide_cons_of_ne hb, ih hx]

lemma resolve_escape (d : UInt8) (rest : Text) :
    resolve quote ('\\'.toUInt8 :: d :: rest) = escape quote d ++ resolve quote rest := by
  rw [resolve, if_pos (beq_self_eq_true _)]

lemma escapesWide_escape (d : UInt8) (rest : Text) :
    escapesWide ('\\'.toUInt8 :: d :: rest) = (decide (0x80 ≤ d) || escapesWide rest) := by
  rw [escapesWide, if_pos (beq_self_eq_true _)]

/-- A character other than the backslash has no byte that looks like one. -/
lemma ne_slash_of_mem_utf8EncodeChar {c : Char} (hc : c ≠ '\\') : ∀ b ∈ String.utf8EncodeChar c, b ≠ '\\'.toUInt8 := by
  refine forall_utf8EncodeChar (fun hascii heq => hc ?_) ?_
  · have hn := congrArg UInt8.toNat heq
    rw [toNat_ofNat_byte (by omega)] at hn
    exact Char.toNat_inj.1 hn
  · rintro b hb rfl
    exact absurd hb (by decide)

lemma ne_slash_of_continuation {b : UInt8} (hb : isContinuation b) : b ≠ '\\'.toUInt8 := by
  rintro rfl
  exact absurd hb (by decide)

/-- The shapes of a well-formed run. -/
inductive Spelled : Text → Prop
  | nil : Spelled []
  | plain {c : Char} {rest : Text} (hc : c ≠ '\\') (h : Spelled rest) : Spelled (String.utf8EncodeChar c ++ rest)
  | escaped (c : Char) {rest : Text} (h : Spelled rest) : Spelled ('\\'.toUInt8 :: (String.utf8EncodeChar c ++ rest))
  | slash : Spelled ['\\'.toUInt8]

lemma spelled_of_isUtf8 {raw : Text} (h : raw.isUtf8) : Spelled raw := by
  obtain ⟨cs, rfl⟩ := (isUtf8_iff raw).1 h
  clear h
  -- a backslash may stand before the characters
  suffices hboth : Spelled (ofChars cs) ∧ Spelled ('\\'.toUInt8 :: ofChars cs) from hboth.1
  induction cs with
  | nil => exact ⟨.nil, .slash⟩
  | cons c cs ih =>
    rw [ofChars, flatMap_cons]
    refine ⟨?_, .escaped c ih.1⟩
    by_cases hc : c = '\\'
    · rw [hc]
      exact ih.2
    · exact .plain hc ih.1

lemma exists_unescaped (e : UInt8) : ∃ c, unescaped e = String.utf8EncodeChar c := by
  unfold unescaped
  split_ifs
  exacts [⟨'\n', rfl⟩, ⟨'\t', rfl⟩, ⟨'\r', rfl⟩, ⟨'\x00', rfl⟩, ⟨' ', rfl⟩, ⟨'\x1b', rfl⟩, ⟨'\x07', rfl⟩,
    ⟨'\x08', rfl⟩, ⟨_, rfl⟩]

lemma isUtf8_resolve_single {raw : Text} (h : Spelled raw) : (resolve '\''.toUInt8 raw).isUtf8 := by
  induction h with
  | nil => exact (isUtf8_iff _).2 ⟨[], rfl⟩
  | slash => exact (isUtf8_iff _).2 ⟨['\\'], rfl⟩
  | plain hc h ih => rwa [resolve_append (ne_slash_of_mem_utf8EncodeChar hc), isUtf8_utf8EncodeChar_append]
  | @escaped c rest h ih =>
    obtain ⟨b, more, henc, hways⟩ := exists_encodes c
    have hmore : ∀ d ∈ more, d ≠ '\\'.toUInt8 := fun d hd => ne_slash_of_continuation (hways.continuation.2 d hd)
    rw [henc, cons_append, resolve_escape, resolve_append hmore, escape, if_pos (by rfl)]
    -- the backslash is dropped or kept, and the character after it is kept
    have hkept : isUtf8 ([b] ++ (more ++ resolve '\''.toUInt8 rest)) := by
      rwa [← append_assoc, singleton_append, ← henc, isUtf8_utf8EncodeChar_append]
    split_ifs
    · exact hkept
    · exact (isUtf8_utf8EncodeChar_append '\\' _).trans hkept

lemma isUtf8_resolve_double {raw : Text} (h : Spelled raw) : (resolve '"'.toUInt8 raw).isUtf8 = !escapesWide raw := by
  induction h with
  | nil => exact (isUtf8_iff _).2 ⟨[], rfl⟩
  | slash => exact (isUtf8_iff _).2 ⟨['\\'], rfl⟩
  | plain hc h ih =>
    have hplain := ne_slash_of_mem_utf8EncodeChar hc
    rw [resolve_append hplain, escapesWide_append hplain, isUtf8_utf8EncodeChar_append, ih]
  | @escaped c rest h ih =>
    obtain ⟨b, more, henc, hways⟩ := exists_encodes c
    obtain ⟨e, he⟩ := exists_unescaped b
    have hmore : ∀ d ∈ more, d ≠ '\\'.toUInt8 := fun d hd => ne_slash_of_continuation (hways.continuation.2 d hd)
    rw [henc, cons_append, resolve_escape, escapesWide_escape, resolve_append hmore, escapesWide_append hmore,
      escape, if_neg (by decide), he, isUtf8_utf8EncodeChar_append]
    cases more with
    | nil =>
      have hb : ¬(0x80 : UInt8) ≤ b := UInt8.not_le.2 (UInt8.lt_iff_toNat_lt.2 (hways.eq_nil_iff.1 rfl))
      rw [nil_append, ih, decide_eq_false hb, Bool.false_or]
    | cons d more =>
      have hb : (0x80 : UInt8) ≤ b := by
        rw [UInt8.le_iff_toNat_le]
        exact Nat.not_lt.1 fun hlt => absurd (hways.eq_nil_iff.2 hlt) (by simp)
      rw [cons_append, isUtf8_cons_of_continuation (hways.continuation.2 d (by simp)), decide_eq_true hb,
        Bool.true_or, Bool.not_true]

end Lexer

/-- The literal of a text says the text: nothing is replaced when it is written. -/
def Script.Kept (text : Text) : Prop :=
  ∃ inside, Script.quote text = '"'.toUInt8 :: (inside ++ ['"'.toUInt8]) ∧ Script.Js.Literal.unescape inside = some text

lemma Script.kept_iff {text : Text} : Script.Kept text ↔ text.isUtf8 := by
  constructor
  · rintro ⟨inside, hquote, hread⟩
    rw [quote_eq] at hquote
    obtain rfl := append_cancel_right (List.cons.inj hquote).2
    rw [unescape_quotedText] at hread
    exact (isUtf8_iff text).2 ⟨_, (Option.some.inj hread).symm⟩
  · intro h
    exact ⟨quotedText text, quote_eq text, by rw [unescape_quotedText, shown_of_isUtf8 h]⟩

namespace Lexer

/-- A run between quotes is read as a text. The text is well-formed, and its literal says it, unless a backslash
between double quotes stands before a character beyond ASCII. -/
structure ReadAs (quote : UInt8) (raw text : Text) : Prop where
  eq_resolve : text = resolve quote raw
  isUtf8_iff : text.isUtf8 = true ↔ ¬(quote = '"'.toUInt8 ∧ escapesWide raw = true)
  kept_iff : Script.Kept text ↔ ¬(quote = '"'.toUInt8 ∧ escapesWide raw = true)

lemma readAs_resolve {quote : UInt8} (hquote : quote = '"'.toUInt8 ∨ quote = '\''.toUInt8) {raw : Text}
    (hraw : raw.isUtf8) : ReadAs quote raw (resolve quote raw) := by
  have hvalid : (resolve quote raw).isUtf8 = true ↔ ¬(quote = '"'.toUInt8 ∧ escapesWide raw = true) := by
    rcases hquote with rfl | rfl
    · simp [isUtf8_resolve_double (spelled_of_isUtf8 hraw)]
    · exact iff_of_true (isUtf8_resolve_single (spelled_of_isUtf8 hraw)) fun h => absurd h.1 (by decide)
  exact ⟨rfl, hvalid, Script.kept_iff.trans hvalid⟩

/-! ## Runs of a string -/

/-- Where a run ends: at the closing quote, or between double quotes at code. -/
def Closes (quote : UInt8) (after : Text) : Prop :=
  after.head? = some quote ∨ quote = '"'.toUInt8 ∧ ['#'.toUInt8, 0x7b] <+: after

/-- A text is read from the run that begins at `pos`, in a source that begins at `base`. -/
def RunAt (base pos : Nat) (s : Text) (quote : UInt8) (text : Text) : Prop :=
  ∃ front raw after, s = front ++ (raw ++ after) ∧ pos = base + front.length ∧ Closes quote after ∧
    ReadAs quote raw text

lemma RunAt.behind {base pos : Nat} {s : Text} {quote : UInt8} {text : Text} (before : Text)
    (h : RunAt (base + before.length) pos s quote text) : RunAt base pos (before ++ s) quote text := by
  obtain ⟨front, raw, after, rfl, hpos, hcloses, hread⟩ := h
  exact ⟨before ++ front, raw, after, (append_assoc ..).symm,
    by rw [hpos, length_append, Nat.add_assoc], hcloses, hread⟩

/-- Where a literal part that is read in `s` comes from: it goes on with the run `literal`, which began at `start`, or
it is a run of its own behind some code. -/
inductive Runs (quote : UInt8) (pos : Nat) (literal : Text) (start : Nat) (all : List StringPart) (p : StringPart) :
    Text → Prop
  | first {raw after : Text} (hcloses : Closes quote after) (htext : p.text = literal ++ resolve quote raw)
      (hpos : p.pos = start) : Runs quote pos literal start all p (raw ++ after)
  | later (front : Text) {code : StringPart} (hcode : code ∈ all ∧ code.isCode) {raw after : Text}
      (hcloses : Closes quote after) (htext : p.text = resolve quote raw)
      (hpos : p.pos = pos + front.length + 1) :
      Runs quote pos literal start all p (front ++ 0x7d :: (raw ++ after))

lemma Quoted.subset {pos start stop : Nat} {literal s : Text} {parts all : List StringPart}
    (h : Quoted quote all stop pos literal start parts s) : parts ⊆ all := by
  induction h with
  | closed _ _ hsub _ => exact hsub
  | escaped _ _ ih => exact ih
  | code _ _ _ ih => exact fun p hp => ih (mem_append_left _ (mem_append_left _ hp))
  | plain _ _ ih => exact ih

lemma Quoted.runs {pos start stop : Nat} {literal s : Text} {parts all : List StringPart}
    (h : Quoted quote all stop pos literal start parts s) :
    ∀ p ∈ all, p.isCode = false → p ∈ parts ∨ Runs quote pos literal start all p s := by
  -- bytes that are read come in front of what is read later, and what they say is added to the run
  have hbehind : ∀ {p : StringPart} {pos start : Nat} {literal : Text} (bytes said : Text) {rest : Text},
      (∀ raw, resolve quote (bytes ++ raw) = said ++ resolve quote raw) →
      Runs quote (pos + bytes.length) (literal ++ said) start all p rest →
      Runs quote pos literal start all p (bytes ++ rest) := by
    intro p pos start literal bytes said rest hsaid hruns
    cases hruns with
    | first hcloses htext hpos =>
      rw [← append_assoc]
      exact .first hcloses (by rw [htext, hsaid, append_assoc]) hpos
    | later front hcode hcloses htext hpos =>
      rw [← append_assoc]
      exact .later _ hcode hcloses htext (by rw [hpos, length_append, Nat.add_assoc pos])
  -- the run that has been read so far ends where nothing more is taken into it
  have hends : ∀ {pos start : Nat} {literal rest : Text}, Closes quote rest →
      Runs quote pos literal start all ⟨literal, start, false⟩ rest := by
    intro pos start literal rest hcloses
    have hrun : Runs quote pos literal start all ⟨literal, start, false⟩ ([] ++ rest) :=
      .first hcloses (append_nil literal).symm rfl
    exact hrun
  induction h with
  | closed _ _ _ hall =>
    intro p hp _
    rcases hall p hp with hold | rfl
    · exact .inl hold
    · exact .inr (hends (.inl rfl))
  | escaped d h ih =>
    exact fun p hp hcode => (ih p hp hcode).imp_right (hbehind [_, d] _ (resolve_escape d))
  | @code pos literal start parts rest code hdouble h ih =>
    intro p hp hcode
    have hfound := h.subset (mem_append_right _ mem_cons_self)
    rcases ih p hp hcode with hold | hlater
    · rcases mem_of_mem_code hold with hold | rfl | rfl
      · exact .inl hold
      · exact .inr (hends (.inr ⟨hdouble, prefix_append _ (code ++ 0x7d :: rest)⟩))
      · cases hcode
    · -- a run behind the code, or behind more code
      have hfront : ('#'.toUInt8 :: 0x7b :: code).length = 2 + code.length := by
        simp only [length_cons]
        omega
      cases hlater with
      | first hcloses htext hpos =>
        exact .inr (.later ('#'.toUInt8 :: 0x7b :: code) ⟨hfound, rfl⟩ hcloses htext (by rw [hpos, hfront]; omega))
      | @later front code' hcode' raw after hcloses htext hpos =>
        have hrun : Runs quote pos literal start all p
            ('#'.toUInt8 :: 0x7b :: code ++ 0x7d :: front ++ 0x7d :: (raw ++ after)) := by
          refine .later _ hcode' hcloses htext ?_
          rw [hpos, length_append, hfront, length_cons]
          omega
        rw [append_assoc] at hrun
        exact .inr hrun
  | @plain _ _ _ _ _ c hc h ih =>
    exact fun p hp hcode => (ih p hp hcode).imp_right (hbehind [c] [c] (resolve_cons_of_ne hc))

section WellFormed

variable {quote : UInt8} (hquote : quote = '"'.toUInt8 ∨ quote = '\''.toUInt8)

include hquote

/-- A run ends at an ASCII byte, so it is not cut inside a character. -/
lemma Closes.isUtf8 {raw after : Text} (h : Closes quote after) (hs : isUtf8 (raw ++ after)) : raw.isUtf8 := by
  have hascii : quote.toNat < 0x80 := by rcases hquote with rfl | rfl <;> decide
  rcases h with hhead | ⟨-, more, rfl⟩
  · obtain ⟨more, rfl⟩ := head?_eq_some_iff.1 hhead
    exact (isUtf8_of_append_cons hascii hs).1
  · exact (isUtf8_of_append_cons (by decide) hs).1

/-- Each literal part is read from a run of its own. It is the one at the start unless there is code before it. -/
lemma runAt_of_quotedParts {pos stop : Nat} {s : Text} {all : List StringPart} (hs : s.isUtf8)
    (h : quotedParts quote pos [] pos [] s = .ok (all, stop)) {p : StringPart} (hp : p ∈ all)
    (hcode : p.isCode = false) :
    RunAt pos p.pos s quote p.text ∧ (p.pos = pos ∨ ∃ code ∈ all, code.isCode) := by
  cases ((quoted_of_quotedParts h).runs p hp hcode).resolve_left not_mem_nil with
  | @first raw after hcloses htext hpos =>
    refine ⟨⟨[], raw, after, rfl, hpos, hcloses, ?_⟩, .inl hpos⟩
    rw [htext]
    exact readAs_resolve hquote (hcloses.isUtf8 hquote hs)
  | @later front code hfound raw after hcloses htext hpos =>
    refine ⟨⟨front ++ [0x7d], raw, after, by simp, ?_, hcloses, ?_⟩, .inr ⟨code, hfound⟩⟩
    · rw [hpos, length_append, length_singleton, Nat.add_assoc]
    · rw [htext]
      exact readAs_resolve hquote (hcloses.isUtf8 hquote (isUtf8_of_append_cons (by decide) hs).2)

end WellFormed

/-! ## Symbols -/

/-- Every byte beyond ASCII can stand in a name, so a name in a well-formed text is well-formed. -/
lemma isUtf8_takeWhile_isNameByte {s : Text} (hs : s.isUtf8) : isUtf8 (s.takeWhile isNameByte) := by
  have hsplit := takeWhile_append_dropWhile (p := isNameByte) (l := s)
  have hfirst := head?_dropWhile_not isNameByte s
  cases hrest : s.dropWhile isNameByte with
  | nil =>
    rw [hrest, append_nil] at hsplit
    rwa [hsplit]
  | cons m more =>
    rw [hrest] at hsplit hfirst
    have hascii : m.toNat < 0x80 := by
      by_contra hwide
      have hm : isNameByte m := by
        simp [isNameByte, isNameStart, UInt8.le_iff_toNat_le, Nat.not_lt.1 hwide]
      simp [hm] at hfirst
    rw [← hsplit] at hs
    exact (isUtf8_of_append_cons hascii hs).1

lemma runAt_of_symbol {offset : Nat} {rest : Text} {l : Lexeme} (hrest : rest.isUtf8)
    (h : symbol offset rest = .ok l) : l.kind = .symbol ∧
      ([':'.toUInt8, '"'.toUInt8] <+: ':'.toUInt8 :: rest ∧
          RunAt offset (offset + 2) (':'.toUInt8 :: rest) '"'.toUInt8 l.text ∨
        ':'.toUInt8 :: l.text <+: ':'.toUInt8 :: rest ∧ l.text.isUtf8 ∧ Script.Kept l.text) := by
  rcases symbol_cases h with ⟨after, part, stop, rfl, hparts, hliteral, rfl⟩ | ⟨name, mark, rfl, hmark, hname, rfl⟩
  · have hafter := (@Text.isUtf8_of_append_cons [] after _ (by decide) hrest).2
    obtain ⟨hrun, hplace⟩ := runAt_of_quotedParts (.inl rfl) hafter hparts mem_cons_self hliteral
    have hpos : part.pos = offset + 2 := by
      refine hplace.resolve_right ?_
      rintro ⟨code, hmem, hcode⟩
      rw [mem_singleton.1 hmem, hliteral] at hcode
      cases hcode
    rw [hpos] at hrun
    exact ⟨rfl, .inl ⟨prefix_append _ after, hrun.behind [_, _]⟩⟩
  · have hmarks : ∀ mark ∈ [[], "?", "!", ("=" : Text)], isUtf8 mark = true := by decide +kernel
    have hvalid := isUtf8_append (isUtf8_takeWhile_isNameByte hrest) (hmarks mark hmark)
    exact ⟨rfl, .inr ⟨(prefix_cons_inj _).2 hname, hvalid, Script.kept_iff.2 hvalid⟩⟩

/-! ## Tokens -/

/-- The kinds of tokens that may stand in quotes. -/
def isQuoted : TokenKind → Bool
  | .string | .symbol => true
  | .eof | .ident | .const | .ivar | .gvar | .int | .float | .label | .keyword | .op => false

lemma lexeme_quoted_cases {offset : Nat} {c : UInt8} {rest : Text} {l : Lexeme} (h : lexeme offset c rest = .ok l) :
    isQuoted l.kind = false ∨
      (l.kind = .string ∧ (c = '"'.toUInt8 ∨ c = '\''.toUInt8) ∧
        ∃ stop, quotedParts c (offset + 1) [] (offset + 1) [] rest = .ok (l.parts, stop)) ∨
      (c = ':'.toUInt8 ∧ symbol offset rest = .ok l) := by
  cases scans_lexeme h with
  | number hkind hn => exact .inl (by rcases hkind with rfl | rfl <;> rfl)
  | string hc hparts => exact .inr (.inl ⟨rfl, hc, _, hparts⟩)
  | sigil hkind => exact .inl (by rcases hkind with rfl | rfl <;> rfl)
  | symbol hc hsymbol => exact .inr (.inr ⟨hc, hsymbol⟩)
  | name hc =>
    refine .inl ?_
    rw [name, nameKind]
    split_ifs <;> rfl
  | operator hop => exact .inl rfl

end Lexer

open Lexer in
/-- What strings and symbols of a text that begins at `base` are read from. -/
structure Token.Quotes (base : Nat) (s : Text) (t : Token) : Prop where
  string : t.kind = .string → ∃ quote, (quote = '"'.toUInt8 ∨ quote = '\''.toUInt8) ∧
    [quote] <+: s.drop (t.pos - base) ∧ ∀ p ∈ t.parts, p.isCode = false → RunAt base p.pos s quote p.text
  symbol : t.kind = .symbol →
    [':'.toUInt8, '"'.toUInt8] <+: s.drop (t.pos - base) ∧ RunAt base (t.pos + 2) s '"'.toUInt8 t.text ∨
    ':'.toUInt8 :: t.text <+: s.drop (t.pos - base) ∧ t.text.isUtf8 ∧ Script.Kept t.text

lemma Token.Quotes.of_other {base : Nat} {s : Text} {t : Token} (h : Lexer.isQuoted t.kind = false) :
    t.Quotes base s := by
  refine ⟨fun hkind => ?_, fun hkind => ?_⟩
  · rw [hkind] at h
    cases h
  · rw [hkind] at h
    cases h

open Lexer in
/-- In a well-formed line each literal part of a string is read from a run of its own, and so is a symbol in quotes.
What is read is well-formed, and can be written as a literal without replacing anything, exactly if no backslash
between double quotes stands before a character beyond ASCII. Symbols without quotes are always well-formed. -/
theorem lex_literals_isUtf8_iff {base : Nat} {s : Text} {tokens : List Token} (hs : s.isUtf8 = true)
    (h : lex base s = .ok tokens) : ∀ t ∈ tokens, t.Quotes base s := by
  intro t ht
  rcases (cut_of_lex h).exists_lexeme ht with heof | ⟨before, c, rest, l, rfl, hlexeme, hkind, htext, hparts, hpos, -⟩
  · exact .of_other (by rw [heof]; rfl)
  have hdrop : (before ++ c :: rest).drop (t.pos - base) = c :: rest := by
    rw [hpos, Nat.add_sub_cancel_left, drop_left]
  have hrest : c.toNat < 0x80 → isUtf8 rest = true := fun hascii => (isUtf8_of_append_cons hascii hs).2
  rcases lexeme_quoted_cases hlexeme with hother | ⟨hstring, hquote, stop, hquoted⟩ | ⟨rfl, hsymbol⟩
  · exact .of_other (by rw [hkind, hother])
  · refine ⟨fun _ => ⟨c, hquote, by rw [hdrop]; exact prefix_append [c] rest, fun p hp hcode => ?_⟩, fun h => ?_⟩
    · have hascii : c.toNat < 0x80 := by rcases hquote with rfl | rfl <;> decide
      rw [hparts] at hp
      obtain ⟨hrun, -⟩ := runAt_of_quotedParts hquote (hrest hascii) hquoted hp hcode
      exact (hrun.behind [c]).behind before
    · rw [hkind, hstring] at h
      cases h
  · obtain ⟨hl, hread⟩ := runAt_of_symbol (hrest (by decide)) hsymbol
    refine ⟨fun h => ?_, fun _ => ?_⟩
    · rw [hkind, hl] at h
      cases h
    · rw [hdrop, htext, hpos]
      exact hread.imp_left fun ⟨hopen, hrun⟩ => ⟨hopen, hrun.behind before⟩

/-- A string with code between its runs, one in single quotes and symbols of both forms. -/
theorem lex_literals_isUtf8_mixed : isUtf8 "\"é#\x7ba\x7d\\nè\" '\\é' :\"\\\"ç\" :ü?" = true ∧
    ∃ tokens, lex 2 "\"é#\x7ba\x7d\\nè\" '\\é' :\"\\\"ç\" :ü?" = .ok tokens ∧
      tokens.map (·.kind) = [.string, .string, .symbol, .symbol, .eof] ∧
      ∀ t ∈ tokens, t.Quotes 2 "\"é#\x7ba\x7d\\nè\" '\\é' :\"\\\"ç\" :ü?" := by
  have hread : isUtf8 "\"é#\x7ba\x7d\\nè\" '\\é' :\"\\\"ç\" :ü?" = true ∧
      (lex 2 "\"é#\x7ba\x7d\\nè\" '\\é' :\"\\\"ç\" :ü?").toOption = some [
        ⟨.string, "\"é#\x7ba\x7d\\nè\"", [⟨"é", 3, false⟩, ⟨"a", 7, true⟩, ⟨"\nè", 9, false⟩], 2, 14, false⟩,
        ⟨.string, "'\\é'", [⟨"\\é", 16, false⟩], 15, 20, true⟩, ⟨.symbol, "\"ç", [], 21, 28, true⟩,
        ⟨.symbol, "ü?", [], 29, 33, true⟩, ⟨.eof, [], [], 33, 33, false⟩] := by
    decide +kernel
  have hlex := lex_eq_ok hread.2
  exact ⟨hread.1, _, hlex, rfl, lex_literals_isUtf8_iff hread.1 hlex⟩

/-- A backslash before `é` takes its first byte away, and the other byte is left alone. -/
theorem lex_literals_isUtf8_torn : isUtf8 "\"\\é\"" = true ∧
    lex 0 "\"\\é\"" = .ok [⟨.string, "\"\\é\"", [⟨[0xC3, 0x83, 0xA9], 1, false⟩], 0, 5, false⟩,
      ⟨.eof, [], [], 5, 5, false⟩] ∧
    isUtf8 [0xC3, 0x83, 0xA9] = false := by
  have hread : isUtf8 "\"\\é\"" = true ∧
      (lex 0 "\"\\é\"").toOption = some [⟨.string, "\"\\é\"", [⟨[0xC3, 0x83, 0xA9], 1, false⟩], 0, 5, false⟩,
        ⟨.eof, [], [], 5, 5, false⟩] ∧
      isUtf8 [0xC3, 0x83, 0xA9] = false := by
    decide +kernel
  exact ⟨hread.1, lex_eq_ok hread.2.1, hread.2.2⟩

end Transpiler
