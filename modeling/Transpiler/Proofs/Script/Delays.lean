import Transpiler.Proofs.Script.Layout
import Transpiler.Proofs.Script.Rendering
import Transpiler.Proofs.Syntax.Commands
import Transpiler.Proofs.Text.Trimming
import Transpiler.Proofs.Wire.Rebuilding

/-!
# The delay of a wait

A wait is given in seconds and its timer in milliseconds. An integer is multiplied in 64-bit arithmetic, so the
delay is the exact product just when that fits, whether the wait was read from a line, came as a record, or stands
anywhere in a tree. The main result is `delay_exact_iff`.
-/

namespace Transpiler

open List Text Nat

/-! ## Numerals -/

namespace Text

lemma ofNat_eq_ofChars (n : Nat) : ofNat n = ofChars (toDigits 10 n) := by
  rw [ofNat, ofChars, map_eq_flatMap]
  refine flatMap_congr fun c hc => ?_
  have hdigit := Script.toNat_of_mem_toDigits hc
  rw [utf8EncodeChar_ascii (by omega)]
  rfl

lemma ofNat_injective : Function.Injective ofNat := by
  intro n m h
  rw [ofNat_eq_ofChars, ofNat_eq_ofChars] at h
  have hrunes := congrArg runes h
  rw [runes_ofChars, runes_ofChars] at hrunes
  have hdigits : toDigits 10 n = toDigits 10 m :=
    map_injective_iff.2 (fun _ _ => Rune.char.inj) hrunes
  rw [← ofDigitChars_ten_toDigits (n := n), hdigits, ofDigitChars_ten_toDigits]

lemma ofInt_injective : Function.Injective ofInt := by
  have hsign : ∀ n m, ofNat n ≠ '-'.toUInt8 :: ofNat m := by
    intro n m h
    have hdigit : Lexer.isDigit '-' := isDigit_of_mem_ofNat (n := n) (by simp [h])
    cases hdigit
  rintro (n | n) (m | m) h
  · exact congrArg _ (ofNat_injective h)
  · exact absurd h (hsign n (m + 1))
  · exact absurd h.symm (hsign m (n + 1))
  · have heq := ofNat_injective (List.cons.inj h).2
    rw [succ.inj heq]

end Text

namespace Script

/-- The numeral of the delay for a number of seconds: the product in 64-bit arithmetic, which is exact just when
it fits. -/
structure Scales (seconds : Int) (delay : Text) : Prop where
  wrapped : delay = ofInt ((1000 * seconds).bmod (2 ^ 64))
  exact_iff : delay = ofInt (1000 * seconds) ↔ -2 ^ 63 ≤ 1000 * seconds ∧ 1000 * seconds < 2 ^ 63

lemma scales (v : Int64) : Scales v.toInt (ofInt (v * 1000).toInt) := by
  have hproduct : (v * 1000).toInt = (1000 * v.toInt).bmod (2 ^ 64) := by
    rw [Int64.toInt_mul, Int.mul_comm]
    rfl
  refine ⟨by rw [hproduct], ?_⟩
  rw [hproduct, ofInt_injective.eq_iff]
  have hle := Int.le_bmod (x := 1000 * v.toInt) (show 0 < 2 ^ 64 by decide)
  have hlt := Int.bmod_lt (x := 1000 * v.toInt) (show 0 < 2 ^ 64 by decide)
  refine ⟨fun h => ?_, fun h => ?_⟩
  · omega
  · exact Int.bmod_eq_of_le (by omega) (by omega)

/-! ## Waits that are read -/

/-- The line of a wait, with the seconds as they are written. -/
def waitLine (n : Nat) : Text := "wait " ++ ofNat n

/-- A program of one wait and nothing to do after it. -/
def Waits (v : Int64) (body : List Node) : Prop :=
  ∃ span inner, body = [.call span .absent "wait" [.integer inner v] .absent]

lemma trimmed_waitLine (n : Nat) : (waitLine n).trimmed = waitLine n := by
  have hchars : waitLine n = ofChars ("wait ".toList ++ toDigits 10 n) := by
    rw [waitLine, ofNat_eq_ofChars, ofChars_append]
    rfl
  rw [hchars]
  refine trimmed_ofChars (fun c hc => ?_) fun c hc => ?_
  · obtain rfl := Option.some.inj hc
    rfl
  · rw [getLast?_append_of_ne_nil _ toDigits_ne_nil] at hc
    have hdigit := toNat_of_mem_toDigits (mem_of_getLast? hc)
    simp [Rune.isBlank, blanks, inRuns]
    omega

open Formula in
lemma waits_reconstruct {n : Nat} (hn : n < 2 ^ 63) : Waits (Int64.ofNat n) (reconstruct (waitLine n)) := by
  have hflat : newline ∉ waitLine n := by
    rw [waitLine, mem_append, not_or]
    exact ⟨by decide, (plain_of_isSigned (isSigned_ofInt n)).flat⟩
  have hreads : Reads Grammar.loosest none [.atom (.integer n hn)] (.atom (.integer n hn)) [] := .atom (.stop trivial)
  have hword : Lexer.isName "wait" = true ∧ Lexer.keywords.contains "wait" = false := by decide
  have hline : waitLine n = "wait" ++ spacedText [.atom (.integer n hn)] := by
    simp [waitLine, spacedText, Word.text, Atom.text]
    rfl
  obtain ⟨node, hparse, span, a, rfl, inner, rfl⟩ := exists_parseLine_command hword (by decide)
    (contains_nil : [].contains (ofString "wait") = false) hreads (0 + Lines.indentation (waitLine n))
  refine ⟨span, inner, ?_⟩
  have hcode : Lines.holdsCode (waitLine n) := rfl
  have hdoc : ("=begin" : Text).isPrefixOf (waitLine n) = false := rfl
  rw [← hline] at hparse
  rw [reconstruct, lines_of_not_mem hflat]
  simp only [Lines.nodes, trimmed_waitLine, hcode, hdoc, Lines.node, hparse]
  rfl

/-! ## Waits that are written -/

lemma text_timer (timer : Text) (f delay : Expr) (unit : Text) (depth : Nat) :
    (Expr.call (.host timer) [f, delay]).text unit depth =
      timer ++ "(" ++ f.text unit depth ++ ", " ++ delay.text unit depth ++ ")" := by
  simp only [Expr.text, Expr.texts, join, intercalate_cons_cons, intercalate_singleton, append_assoc]

/-- A timer of this delay. -/
def timerCode (delay : Text) : Text := "setTimeout(() => \x7b\x7d, " ++ delay ++ ");"

/-- The code of a wait is a timer for the seconds times a thousand. -/
lemma code_compile_of_waits {v : Int64} {body : List Node} (h : Waits v body) :
    (compile .default body).code = timerCode (ofInt (v * 1000).toInt) := by
  obtain ⟨span, inner, rfl⟩ := h
  have hscript : script .default [.call span .absent "wait" [.integer inner v] .absent] =
      ([.expr (.call (.host "setTimeout") [.arrow [] [], .integer (v * 1000)])], 1, 0) := rfl
  generalize v * 1000 = delay at hscript ⊢
  have hflat : newline ∉ timerCode (ofInt delay.toInt) := by
    simp only [timerCode, mem_append, not_or]
    exact ⟨⟨by decide, (plain_of_isSigned (isSigned_ofInt _)).flat⟩, by decide⟩
  have hcall : (Expr.call (.host "setTimeout") [.arrow [] [], .integer delay]).text Options.default.indent 0 =
      "setTimeout(() => \x7b\x7d, " ++ ofInt delay.toInt ++ ")" := by
    rw [text_timer]
    rfl
  have htext : statementText ("setTimeout(() => \x7b\x7d, " ++ ofInt delay.toInt ++ ")") ++ ";" =
      timerCode (ofInt delay.toInt) := by
    rw [statementText, if_neg (by exact Bool.false_ne_true), timerCode, append_assoc]
    rfl
  have hlines : emitted Options.default.indent 0 (timerCode (ofInt delay.toInt)) = [timerCode (ofInt delay.toInt)] := by
    rw [emitted_default 0 fun hlast => hflat (mem_of_getLast? hlast)]
    exact lines_of_not_mem hflat
  simp only [compile, hscript, Output.code, Stmt.allLines, Stmt.lines, hcall, htext, hlines, join,
    append_nil, intercalate_singleton]

lemma exists_blockArgument (o : Options) (blk : Node) (yields : Bool) (s : Progress) :
    ∃ fs s', blockArgument o blk yields s = .ok fs s' := by
  have hfails : (surveyBlock o blk).fails = false := by
    cases blk with
    | block _ params body => exact (lays_statements o (.inFrames s.frames) body true yields (covers_true _)).1
    | _ => rfl
  obtain ⟨r, hr, hrun⟩ := renders_blockArgument o (.inFrames s.frames) blk
    (.of_covers (covers_true [blk]) (mem_singleton_self blk)) yields
  rw [Draft.frames_inFrames] at hrun
  cases r with
  | ok fs => exact ⟨fs, _, (hrun s.unsupported).1⟩
  | error tag => exact absurd (hr.symm.trans hfails) (by simp)

/-- A wait becomes a timer wherever it stands and whatever it runs. -/
lemma exists_expr_wait (o : Options) (span inner : Span) (v : Int64) (blk : Node) (s : Progress) :
    ∃ f s', expr o (.call span .absent "wait" [.integer inner v] blk) s =
      .ok (.call (.host o.timer) [f, .integer (v * 1000)]) s' := by
  obtain ⟨fs, s', hblk⟩ := exists_blockArgument o blk false s
  rw [expr_call_absent, if_neg (by decide), if_neg (by decide), if_pos (by decide)]
  exact ⟨fs.headD (.arrow [] []), s', (bind_of_eq_ok rfl).trans (bind_of_eq_ok hblk)⟩

end Script

/-! ## Waits in records -/

namespace Wire

open Build

/-- A program that waits. -/
def Build.wait (v : Int64) : Record := program [call .absent "wait" [integer v] .absent]

lemma exists_encode_wait (v : Int64) : ∃ bytes, (document (wait v)).encode = .ok bytes ∧ bytes.length < 2 ^ 32 := by
  refine ⟨_, rfl, lt_of_le_of_lt (length_assemble_document_le _ _ _) ?_⟩
  have hvalue : (Write.numeral (UInt64.ofNat v.toInt.natAbs).toNat).length ≤ 10 :=
    length_numeral_le (lt_trans (UInt64.toNat_lt _) (by decide))
  have hpool : (Write.name "wait").length ≤ 9 := length_name_le _
  have hword := length_u32_le 0
  have hnone := length_u32_le (UInt32.ofNat 0)
  have hone := length_u32_le (UInt32.ofNat (0 + 1))
  simp only [length_append, length_cons, length_nil, TreeWrite.location, Location.zero,
    nil_append, flatMap_cons, flatMap_nil]
  omega

/-- The record of a wait is read back as the wait. -/
lemma exists_parse_encode_wait (v : Int64) (source : Text) :
    ∃ bytes parsed, (document (wait v)).encode = .ok bytes ∧ Wire.parse false bytes source = .ok parsed ∧
      Script.Waits v parsed.body := by
  obtain ⟨bytes, hencode, hlength⟩ := exists_encode_wait v
  have hspan : Span.Fits ⟨0, 0⟩ := ⟨by decide, by decide, by decide⟩
  have hname : isUtf8 "wait" = true := (isUtf8_iff _).2 ⟨"wait".toList, rfl⟩
  have hwritable : Node.AllWritable [.call ⟨0, 0⟩ .absent "wait" [.integer ⟨0, 0⟩ v] .absent] :=
    ⟨⟨hspan, hname, .inl rfl, ⟨hspan, trivial⟩, trivial⟩, trivial⟩
  have hroot : wait v = ofProgram (fun _ => true) ⟨0, 0⟩
      [.call ⟨0, 0⟩ .absent "wait" [.integer ⟨0, 0⟩ v] .absent] := rfl
  have hdepth : (wait v).depth ≤ maxDepth := le_trans (le_of_eq (show (wait v).depth = 5 from rfl)) (by decide)
  have hparse := parse_of_encode_ofProgram hspan hwritable hdepth (hroot ▸ hencode) hlength source
  exact ⟨bytes, _, hencode, hparse, ⟨0, 0⟩, ⟨0, 0⟩, rfl⟩

end Wire

namespace Script

/-- Code that is a timer for so many seconds. -/
def Delays (code : Text) (seconds : Int) : Prop := ∃ d, code = timerCode d ∧ Scales seconds d

lemma delays_of_waits {v : Int64} {body : List Node} (h : Waits v body) : Delays (compile .default body).code v.toInt :=
  ⟨_, code_compile_of_waits h, scales v⟩

/-- **The delay of a wait is exact as long as it fits.** A wait becomes a timer, and its delay is the numeral of the
seconds times a thousand in 64-bit arithmetic, which is that of the exact product just when the product fits. It is
so for the line `wait n` of every numeral, for the record of a wait for every integer, and for a wait anywhere in a
tree, whatever the settings. -/
theorem delay_exact_iff (v : Int64) :
    (∀ n < 2 ^ 63, v = Int64.ofNat n → Delays (compile .default (reconstruct (waitLine n))).code v.toInt) ∧
    (∀ source, ∃ bytes parsed, (Wire.Build.document (Wire.Build.wait v)).encode = .ok bytes ∧
      Wire.parse false bytes source = .ok parsed ∧ Delays (compile .default parsed.body).code v.toInt) ∧
    ∀ o span inner blk s, ∃ (f e : Expr) (s' : Progress) (d : Text),
      expr o (.call span .absent "wait" [.integer inner v] blk) s = .ok e s' ∧
      (∀ depth, e.text o.indent depth = o.timer ++ "(" ++ f.text o.indent depth ++ ", " ++ d ++ ")") ∧
      Scales v.toInt d := by
  refine ⟨fun n hn hv => ?_, fun source => ?_, fun o span inner blk s => ?_⟩
  · rw [hv]
    exact delays_of_waits (waits_reconstruct hn)
  · obtain ⟨bytes, parsed, hencode, hparse, hwaits⟩ := Wire.exists_parse_encode_wait v source
    exact ⟨bytes, parsed, hencode, hparse, delays_of_waits hwaits⟩
  · obtain ⟨f, s', hrun⟩ := exists_expr_wait o span inner v blk s
    exact ⟨f, _, s', _, hrun, fun depth => text_timer o.timer f _ o.indent depth, scales v⟩

/-- The longest wait whose delay fits. -/
theorem delay_exact_longest :
    (compile .default (reconstruct (waitLine 9223372036854775))).code = timerCode "9223372036854775000" := by
  obtain ⟨d, hcode, hscales⟩ := (delay_exact_iff (Int64.ofNat 9223372036854775)).1 9223372036854775 (by decide) rfl
  have hd : d = ofInt 9223372036854775000 := hscales.exact_iff.2 ⟨by decide, by decide⟩
  rw [hcode, hd]
  decide

/-- A second more, and the delay is negative. -/
theorem delay_wraps : 1000 * 9223372036854776 = 9223372036854776000 ∧
    (compile .default (reconstruct "wait 9223372036854776")).code =
      "setTimeout(() => \x7b\x7d, -9223372036854775616);" := by
  have hline : ofString "wait 9223372036854776" = waitLine 9223372036854776 := by decide
  have hwaits : Waits (Int64.ofNat 9223372036854776) (reconstruct (waitLine 9223372036854776)) :=
    waits_reconstruct (by decide)
  rw [hline, code_compile_of_waits hwaits]
  decide

end Script

end Transpiler
