import Mathlib.Data.List.Infix
import Transpiler.Proofs.Text.Runes

/-!
# Well-formed text

A character that was written is read back whatever follows it (`runes_utf8EncodeChar_append`), so a text is
well-formed exactly if it is written from some characters (`isUtf8_iff`). The first byte of a character never looks
like a later one, so a character stands in a well-formed text only where it was written (`mem_of_infix_ofChars`).
`Mended` says what becomes of a text when each byte that begins no character is replaced.
-/

namespace Transpiler.Text

open List UInt8

/-! ## How characters are written -/

lemma toNat_ofNat_byte {n : Nat} (h : n < 256) : (UInt8.ofNat n).toNat = n := UInt8.toNat_ofNat_of_lt' h

lemma continuation_ofNat (n : Nat) :
    isContinuation (UInt8.ofNat (n % 64 + 128)) ∧ payload (UInt8.ofNat (n % 64 + 128)) = n % 64 := by
  have hbyte : (UInt8.ofNat (n % 64 + 128)).toNat = n % 64 + 128 := toNat_ofNat_byte (by omega)
  constructor
  · simp only [isContinuation, le_iff_toNat_le, lt_iff_toNat_lt, hbyte, reduceToNat,
      Bool.and_eq_true, decide_eq_true_eq]
    omega
  · rw [payload, hbyte]
    omega

lemma exists_encodes (c : Char) : ∃ b more, String.utf8EncodeChar c = b :: more ∧ Encodes c b more := by
  suffices h : ∃ b more, Encodes c b more by
    obtain ⟨b, more, hways⟩ := h
    exact ⟨b, more, hways.utf8EncodeChar_eq, hways⟩
  have hlast : c.val.toNat < 0x110000 := by
    rcases c.valid with h | h
    · exact Nat.lt_trans h (by decide)
    · exact h.2
  generalize hv : c.val.toNat = v at hlast
  have c1 := continuation_ofNat v
  have c2 := continuation_ofNat (v / 64)
  have c3 := continuation_ofNat (v / 4096)
  -- how many bytes there are is decided by the size of the code point
  by_cases h1 : v ≤ 0x7f
  · have hb : (UInt8.ofNat v).toNat = v := toNat_ofNat_byte (by omega)
    exact ⟨_, _, .one (hv.trans hb.symm) (by omega)⟩
  by_cases h2 : v ≤ 0x7ff
  · have hb : (UInt8.ofNat (v / 64 % 32 + 192)).toNat = v / 64 % 32 + 192 := toNat_ofNat_byte (by omega)
    exact ⟨_, _, .two (by rw [hv, hb, c1.2]; omega) (by omega) c1.1⟩
  by_cases h3 : v ≤ 0xffff
  · have hb : (UInt8.ofNat (v / 4096 % 16 + 224)).toNat = v / 4096 % 16 + 224 := toNat_ofNat_byte (by omega)
    exact ⟨_, _, .three (by rw [hv, hb, c2.2, c1.2]; omega) (by omega) (by omega) c2.1 c1.1⟩
  · have hb : (UInt8.ofNat (v / 262144 % 8 + 240)).toNat = v / 262144 % 8 + 240 := toNat_ofNat_byte (by omega)
    exact ⟨_, _, .four (by rw [hv, hb, c3.2, c2.2, c1.2]; omega) (by omega) (by omega) c3.1 c2.1 c1.1⟩

namespace Encodes

variable {c : Char} {b : UInt8} {more : Text}

lemma charAt?_eq (h : Encodes c b more) (rest : Text) : charAt? b (more ++ rest) = some (c, more.length) := by
  have hchar : ∀ {n}, c.val.toNat = n → char? n = some c := fun hn => hn ▸ char?_toNat c
  simp only [charAt?, lt_iff_toNat_lt, reduceToNat]
  cases h with
  | one hv hb =>
    rw [if_pos hb, hchar hv]
    rfl
  | two hv hb h1 =>
    rw [if_neg (by omega), if_neg (by omega), if_pos hb.2]
    simp only [cons_append, h1, if_true, hchar hv]
    rfl
  | three hv hb hlong h1 h2 =>
    rw [if_neg (by omega), if_neg (by omega), if_neg (by omega), if_pos hb.2]
    simp only [cons_append, h1, h2, Bool.and_self, if_true]
    rw [if_neg (by omega), hchar hv]
    rfl
  | four hv hb hlong h1 h2 h3 =>
    rw [if_neg (by omega), if_neg (by omega), if_neg (by omega), if_neg (by omega), if_pos hb.2]
    simp only [cons_append, h1, h2, h3, Bool.and_self, if_true]
    rw [if_neg (by omega), hchar hv]
    rfl

/-- The first byte of a character continues none, and the others do. -/
lemma continuation (h : Encodes c b more) : isContinuation b = false ∧ ∀ d ∈ more, isContinuation d := by
  have hfirst : b.toNat < 0x80 ∨ 0xC2 ≤ b.toNat → isContinuation b = false := by
    intro hb
    rw [Bool.eq_false_iff]
    intro hcont
    have := payload_add hcont
    omega
  cases h with
  | one hv hb => exact ⟨hfirst (.inl hb), by simp⟩
  | two hv hb h1 => exact ⟨hfirst (.inr hb.1), by simpa using h1⟩
  | three hv hb hlong h1 h2 => exact ⟨hfirst (.inr (by omega)), by simpa using ⟨h1, h2⟩⟩
  | four hv hb hlong h1 h2 h3 => exact ⟨hfirst (.inr (by omega)), by simpa using ⟨h1, h2, h3⟩⟩

lemma eq_nil_iff (h : Encodes c b more) : more = [] ↔ b.toNat < 0x80 := by
  cases h with
  | one hv hb => exact iff_of_true rfl hb
  | two hv hb => exact iff_of_false (by simp) (by omega)
  | three hv hb => exact iff_of_false (by simp) (by omega)
  | four hv hb => exact iff_of_false (by simp) (by omega)

end Encodes

/-! ## Well-formed texts -/

/-- A text that starts with the bytes of a character is read as that character and the rest. -/
lemma runes_utf8EncodeChar_append (c : Char) (rest : Text) :
    runes (String.utf8EncodeChar c ++ rest) = .char c :: runes rest := by
  obtain ⟨b, more, henc, hways⟩ := exists_encodes c
  rw [henc, cons_append, runes, hways.charAt?_eq rest]
  dsimp only
  rw [drop_left]

lemma runes_ofChars (cs : List Char) : runes (ofChars cs) = cs.map .char := by
  induction cs with
  | nil => rw [ofChars, flatMap_nil, runes, map_nil]
  | cons c cs ih => rw [ofChars, flatMap_cons, runes_utf8EncodeChar_append, map_cons, ← ih, ofChars]

lemma ofRunes_eq_ofChars {rs : List Rune} (h : ∀ r ∈ rs, r.bytes = String.utf8EncodeChar r.shown) :
    ofRunes rs = ofChars (rs.map Rune.shown) := by
  rw [ofRunes, ofChars, flatMap_map]
  exact flatMap_congr h

/-- A text is well-formed exactly if it is the text of some characters. -/
lemma isUtf8_iff (t : Text) : t.isUtf8 ↔ ∃ cs, t = ofChars cs := by
  constructor
  · intro h
    have hchars : ∀ r ∈ t.runes, r.bytes = String.utf8EncodeChar r.shown := by
      intro r hr
      have hstray := all_eq_true.1 h r hr
      cases r with
      | char c => rfl
      | stray b => cases hstray
    exact ⟨_, (ofRunes_runes t).symm.trans (ofRunes_eq_ofChars hchars)⟩
  · rintro ⟨cs, rfl⟩
    rw [isUtf8, runes_ofChars, all_map]
    exact all_eq_true.2 fun _ _ => rfl

lemma isUtf8_utf8EncodeChar_append (c : Char) (t : Text) : isUtf8 (String.utf8EncodeChar c ++ t) = t.isUtf8 := by
  rw [isUtf8, runes_utf8EncodeChar_append, all_cons]
  rfl

/-- A byte that continues a character begins none. -/
lemma isUtf8_cons_of_continuation {b : UInt8} (hb : isContinuation b) (t : Text) : isUtf8 (b :: t) = false := by
  rw [Bool.eq_false_iff, Ne, isUtf8_iff]
  rintro ⟨cs, hcs⟩
  cases cs with
  | nil => cases hcs
  | cons c cs =>
    obtain ⟨e, more, henc, hways⟩ := exists_encodes c
    rw [ofChars, flatMap_cons, henc, cons_append] at hcs
    obtain ⟨rfl, -⟩ := List.cons.inj hcs
    rw [hways.continuation.1] at hb
    cases hb

/-- A well-formed text is well-formed on both sides of an ASCII byte. -/
lemma isUtf8_of_append_cons {before after : Text} {b : UInt8} (hb : b.toNat < 0x80)
    (h : isUtf8 (before ++ b :: after)) : before.isUtf8 ∧ after.isUtf8 := by
  obtain ⟨cs, hcs⟩ := (isUtf8_iff _).1 h
  clear h
  induction cs generalizing before with
  | nil => simp [ofChars] at hcs
  | cons c cs ih =>
    rw [ofChars, flatMap_cons] at hcs
    rcases append_eq_append_iff.1 hcs with ⟨gap, hgap, hrest⟩ | ⟨gap, rfl, hrest⟩
    · cases gap with
      | nil =>
        rw [append_nil] at hgap
        obtain ⟨-, hafter⟩ := @ih [] hrest
        exact ⟨(isUtf8_iff before).2 ⟨[c], by simp [ofChars, hgap]⟩, hafter⟩
      | cons d gap =>
        -- the byte belongs to the character, so it is all of it
        obtain ⟨e, more, henc, hways⟩ := exists_encodes c
        obtain ⟨rfl, hafter⟩ := List.cons.inj hrest
        rw [henc] at hgap
        cases before with
        | nil =>
          obtain ⟨rfl, rfl⟩ := List.cons.inj hgap
          rw [hways.eq_nil_iff.2 hb] at hafter
          exact ⟨(isUtf8_iff _).2 ⟨[], rfl⟩, (isUtf8_iff _).2 ⟨cs, hafter⟩⟩
        | cons x before =>
          obtain ⟨-, rfl⟩ := List.cons.inj hgap
          have := payload_add (hways.continuation.2 b (by simp))
          omega
    · rw [isUtf8_utf8EncodeChar_append]
      exact ih hrest.symm

lemma shown_of_isUtf8 {t : Text} (h : t.isUtf8) : t.shown = t := by
  obtain ⟨cs, rfl⟩ := (isUtf8_iff t).1 h
  rw [shown, runes_ofChars, map_map]
  exact congrArg ofChars (map_id cs)

/-- The bytes of a character stand in a well-formed text only where the character does: they cannot begin
inside another one. -/
lemma mem_of_infix_ofChars {c : Char} {cs : List Char} (h : String.utf8EncodeChar c <:+: ofChars cs) : c ∈ cs := by
  obtain ⟨b, more, henc, hways⟩ := exists_encodes c
  induction cs with
  | nil =>
    rw [ofChars, flatMap_nil, infix_nil] at h
    exact absurd h String.utf8EncodeChar_ne_nil
  | cons d cs ih =>
    obtain ⟨before, after, heq⟩ := h
    rw [ofChars, flatMap_cons, append_assoc] at heq
    rcases append_eq_append_iff.1 heq with ⟨gap, hgap, hrest⟩ | ⟨gap, rfl, hrest⟩
    · cases before with
      | nil =>
        -- at the start of the text, where `d` is read
        have hread := congrArg runes heq
        rw [nil_append, runes_utf8EncodeChar_append, runes_utf8EncodeChar_append] at hread
        obtain rfl := Rune.char.inj (List.cons.inj hread).1
        exact mem_cons_self
      | cons a before =>
        -- inside `d`, or right behind it
        obtain ⟨e, tail, henc', hways'⟩ := exists_encodes d
        rw [henc', cons_append] at hgap
        obtain rfl := (List.cons.inj hgap).2
        cases gap with
        | nil => exact mem_cons_of_mem _ (ih ⟨[], after, hrest⟩)
        | cons f gap =>
          rw [henc, cons_append, cons_append] at hrest
          obtain rfl := (List.cons.inj hrest).1
          have hcont := hways'.continuation.2 b (by simp)
          rw [hways.continuation.1] at hcont
          cases hcont
    · exact mem_cons_of_mem _ (ih ⟨gap, after, by rw [append_assoc]; exact hrest.symm⟩)

/-! ## Characters of one kind -/

lemma ofChars_append (cs ds : List Char) : ofChars (cs ++ ds) = ofChars cs ++ ofChars ds := by
  rw [ofChars, flatMap_append]
  rfl

lemma isUtf8_append {t u : Text} (ht : t.isUtf8) (hu : u.isUtf8) : isUtf8 (t ++ u) := by
  obtain ⟨cs, rfl⟩ := (isUtf8_iff t).1 ht
  obtain ⟨ds, rfl⟩ := (isUtf8_iff u).1 hu
  exact (isUtf8_iff _).2 ⟨cs ++ ds, (ofChars_append cs ds).symm⟩

/-- The text of characters that all satisfy `p`. -/
def MadeOf (p : Char → Prop) (t : Text) : Prop := ∃ cs, t = ofChars cs ∧ ∀ c ∈ cs, p c

namespace MadeOf

variable {p q : Char → Prop} {t u : Text}

lemma singleton {c : Char} (h : p c) : MadeOf p (String.utf8EncodeChar c) := by
  refine ⟨[c], by simp [ofChars], ?_⟩
  intro d hd
  rwa [mem_singleton.1 hd]

lemma append (ht : MadeOf p t) (hu : MadeOf p u) : MadeOf p (t ++ u) := by
  obtain ⟨cs, rfl, hcs⟩ := ht
  obtain ⟨ds, rfl, hds⟩ := hu
  exact ⟨cs ++ ds, (ofChars_append cs ds).symm, forall_mem_append.2 ⟨hcs, hds⟩⟩

lemma flatMap {α : Type} {f : α → Text} (h : ∀ a, MadeOf p (f a)) (as : List α) : MadeOf p (as.flatMap f) := by
  induction as with
  | nil => exact ⟨[], rfl, by simp⟩
  | cons a as ih =>
    rw [flatMap_cons]
    exact (h a).append ih

lemma mono (h : MadeOf p t) (hpq : ∀ c, p c → q c) : MadeOf q t := by
  obtain ⟨cs, ht, hcs⟩ := h
  exact ⟨cs, ht, fun c hc => hpq c (hcs c hc)⟩

end MadeOf

/-! ## Stray bytes -/

/-- The second text is the first with each byte that begins no character replaced by the replacement
character. -/
inductive Mended : Text → Text → Prop
  | nil : Mended [] []
  | char (c : Char) {t u : Text} (h : Mended t u) : Mended (String.utf8EncodeChar c ++ t) (String.utf8EncodeChar c ++ u)
  | stray {b : UInt8} {t u : Text} (hb : ∀ c, ¬ String.utf8EncodeChar c <+: b :: t) (h : Mended t u) :
      Mended (b :: t) (String.utf8EncodeChar '\ufffd' ++ u)

lemma append_drop_of_charAt? {b : UInt8} {rest : Text} {c : Char} {more : Nat}
    (h : charAt? b rest = some (c, more)) : String.utf8EncodeChar c ++ rest.drop more = b :: rest := by
  rw [utf8EncodeChar_of_charAt? h, cons_append, take_append_drop]

lemma not_prefix_of_charAt?_eq_none {b : UInt8} {rest : Text} (h : charAt? b rest = none) (c : Char) :
    ¬ String.utf8EncodeChar c <+: b :: rest := by
  rintro ⟨after, heq⟩
  obtain ⟨d, more, henc, hways⟩ := exists_encodes c
  rw [henc, cons_append] at heq
  obtain ⟨rfl, rfl⟩ := List.cons.inj heq
  rw [hways.charAt?_eq after] at h
  cases h

lemma shown_utf8EncodeChar_append (c : Char) (t : Text) :
    shown (String.utf8EncodeChar c ++ t) = String.utf8EncodeChar c ++ shown t := by
  rw [shown, runes_utf8EncodeChar_append, map_cons, ofChars, flatMap_cons]
  rfl

lemma shown_cons_of_charAt?_eq_none {b : UInt8} {t : Text} (h : charAt? b t = none) :
    shown (b :: t) = String.utf8EncodeChar '\ufffd' ++ shown t := by
  rw [shown, runes, h]
  rfl

/-- A text is shown as its mended form, and there is no other. -/
lemma mended_iff {t u : Text} : Mended t u ↔ u = t.shown := by
  constructor
  · intro h
    induction h with
    | nil => rw [shown, runes, map_nil, ofChars, flatMap_nil]
    | char c _ ih => rw [ih, shown_utf8EncodeChar_append]
    | @stray b t u hb _ ih =>
      have hnone : charAt? b t = none := by
        by_contra hsome
        obtain ⟨⟨c, more⟩, hread⟩ := Option.ne_none_iff_exists'.1 hsome
        exact hb c ⟨t.drop more, append_drop_of_charAt? hread⟩
      rw [ih, shown_cons_of_charAt?_eq_none hnone]
  · rintro rfl
    fun_induction runes t with
    | case1 =>
      rw [shown, runes]
      exact .nil
    | case2 b rest c more h ih =>
      rw [← append_drop_of_charAt? h, shown_utf8EncodeChar_append]
      exact .char c ih
    | case3 b rest h ih =>
      rw [shown_cons_of_charAt?_eq_none h]
      exact .stray (not_prefix_of_charAt?_eq_none h) ih

end Transpiler.Text
