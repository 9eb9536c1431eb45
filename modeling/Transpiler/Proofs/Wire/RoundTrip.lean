import Mathlib.Algebra.Order.BigOperators.Group.List
import Transpiler.Proofs.Wire.Conforming
import Transpiler.Proofs.Wire.Exact
import Transpiler.Wire.Build
import Transpiler.Wire.Writer

/-!
# Reading undoes writing

A record names its constants by their numbers in a pool that is still growing while the record is written. What
carries the induction over the tree is therefore a statement about every later pool: the bytes of a part are read back
against any pool that extends the one which writing the part has left (`TreeWrite.Inverted`). The main result is
`Document.decode_encode`.
-/

namespace Transpiler.Wire

open List Write Build DocRead Document UInt32 Nat Record
open Read (Takes)

variable {α β γ : Type} {a : α} {w : TreeWrite}

/-! ## Parts of a tree -/

/-- What writing a part of a tree comes to: from `pool` on, the writer gives `bytes` and leaves `pool'`,
which goes on from `pool` and is UTF-8 if `pool` was; at least `least` bytes are written, and against every
pool that goes on from `pool'` the reader takes them and gives `a`. -/
structure Rereadable (least : Nat) (read : Array Text → DocRead α) (a : α) (pool : List Text)
    (bytes : Text) (pool' : List Text) : Prop where
  grows : pool <+: pool'
  least_le : least ≤ bytes.length
  utf8 : (∀ t ∈ pool, t.isUtf8) → ∀ t ∈ pool', t.isUtf8
  takes : ∀ consts : Array Text, pool' <+: consts.toList → consts.size < 2 ^ 32 →
    bytes.length < 2 ^ 32 → Takes (read consts) bytes a

/-- From every pool on, the writer succeeds with bytes that are read back. -/
def TreeWrite.Inverted (least : Nat) (w : TreeWrite) (read : Array Text → DocRead α) (a : α) : Prop :=
  ∀ pool, ∃ bytes pool', w pool = .ok bytes pool' ∧ Rereadable least read a pool bytes pool'

namespace TreeWrite

namespace Inverted

variable {read : Array Text → DocRead α}

lemma of_takes {bytes : Text} {least : Nat}
    (hl : least ≤ bytes.length) (h : ∀ consts, bytes.length < 2 ^ 32 → Takes (read consts) bytes a) :
    Inverted least (pure bytes) read a :=
  fun pool => ⟨bytes, pool, rfl, prefix_refl pool, hl, id, fun consts _ _ hb => h consts hb⟩

lemma within {least : Nat} (h : Inverted least w read a) (place place' : Text) :
    Inverted least (w.within place) (fun consts => .within place' (read consts)) a := by
  intro pool
  obtain ⟨bytes, pool', hw, hr⟩ := h pool
  refine ⟨bytes, pool', by simp only [TreeWrite.within, hw], hr.grows, hr.least_le, hr.utf8, ?_⟩
  exact fun consts hp hs hb => (hr.takes consts hp hs hb).within place'

lemma mono {least least' : Nat} (h : Inverted least w read a) (hl : least' ≤ least) : Inverted least' w read a := by
  intro pool
  obtain ⟨bytes, pool', hw, hr⟩ := h pool
  exact ⟨bytes, pool', hw, hr.grows, hl.trans hr.least_le, hr.utf8, hr.takes⟩

lemma map {least : Nat} (h : Inverted least w read a) (f : α → β) :
    Inverted 0 w (fun consts => do let a ← read consts; pure (f a)) (f a) := by
  intro pool
  obtain ⟨bytes, pool', hw, hr⟩ := h pool
  exact ⟨bytes, pool', hw, hr.grows, zero_le _, hr.utf8, fun consts hp hs hb => (hr.takes consts hp hs hb).map f⟩

/-- Two parts in a row. The first is read against the pool that the second has left. -/
lemma seq {w₁ w₂ : TreeWrite} {r₁ : Array Text → DocRead α} {r₂ : Array Text → DocRead β} {b : β}
    {l₁ l₂ : Nat} (h₁ : Inverted l₁ w₁ r₁ a) (h₂ : Inverted l₂ w₂ r₂ b) (f : α → β → γ) :
    Inverted (l₁ + l₂) (do let x ← w₁; let y ← w₂; pure (x ++ y))
      (fun consts => do let a ← r₁ consts; let b ← r₂ consts; pure (f a b)) (f a b) := by
  intro pool
  obtain ⟨x, pool₁, hw₁, hr₁⟩ := h₁ pool
  obtain ⟨y, pool₂, hw₂, hr₂⟩ := h₂ pool₁
  have hrun : (do let x ← w₁; let y ← w₂; pure (x ++ y) : TreeWrite) pool = .ok (x ++ y) pool₂ := by
    simp only [bind, EStateM.bind, pure, EStateM.pure, hw₁, hw₂]
  have hl₁ := hr₁.least_le
  have hl₂ := hr₂.least_le
  refine ⟨x ++ y, pool₂, hrun, hr₁.grows.trans hr₂.grows, ?_, hr₂.utf8 ∘ hr₁.utf8, ?_⟩
  · rw [length_append]
    omega
  · intro consts hp hs hb
    rw [length_append] at hb
    have t₁ := hr₁.takes consts (hr₂.grows.trans hp) hs (by omega)
    have t₂ := hr₂.takes consts hp hs (by omega)
    exact t₁.bind (t₂.map (f a))

end Inverted

end TreeWrite

/-! ## Lists -/

@[simp] lemma one_le_length_numeral (n : Nat) : 1 ≤ (numeral n).length := by
  rw [numeral]
  split_ifs <;> simp

/-- The number of entries is accepted if every entry takes a byte. -/
lemma takes_count_bind {what : Text} {n : Nat} {f : Nat → DocRead α} {y : Text}
    (hn : n < 2 ^ 32) (hle : n ≤ y.length) (h : Takes (f n) y a) :
    Takes (count what >>= f) (u32 (ofNat n) ++ y) a := by
  intro pos rest
  have hu := (Read.takes_u32 (ofNat n)).raw.within (what ++ " count")
  have hcount : count what ⟨pos, u32 (ofNat n) ++ (y ++ rest)⟩ = .ok n ⟨pos + (u32 (ofNat n)).length, y ++ rest⟩ := by
    have hleft : ¬ n > (y ++ rest).length := by
      rw [length_append]
      omega
    rw [DocRead.count, hu.bind_eq, Read.toNat_ofNat_length hn]
    change (if n > (y ++ rest).length then _ else _ : DocRead Nat) _ = _
    rw [if_neg hleft]
    rfl
  rw [append_assoc, bind_of_eq_ok hcount, h]
  simp [add_assoc]

/-- A list of parts after their number. -/
lemma TreeWrite.Inverted.counted {read : Array Text → Nat → DocRead α} {n : Nat}
    (h : Inverted n w (fun consts => read consts n) a) (what : Text) (f : α → β) :
    Inverted 0 (do let entries ← w; pure (u32 (ofNat n) ++ entries))
      (fun consts => do let n ← .count what; let a ← read consts n; pure (f a)) (f a) := by
  intro pool
  obtain ⟨entries, pool', hw, hr⟩ := h pool
  refine ⟨u32 (ofNat n) ++ entries, pool', ?_, hr.grows, zero_le _, hr.utf8, ?_⟩
  · simp only [bind, EStateM.bind, pure, EStateM.pure, hw]
  · intro consts hp hs hb
    have hl := hr.least_le
    rw [length_append] at hb
    exact takes_count_bind (by omega) hl ((hr.takes consts hp hs (by omega)).map f)

/-! ## Constants -/

/-- A constant is found again in every pool that goes on from the one it has joined. -/
lemma inverted_constant {name : Text} (hu : name.isUtf8) : TreeWrite.Inverted 1 (.constant name) .constant name := by
  -- a constant with a place in the pool is read back from any longer pool
  have htakes : ∀ (i : Nat) (pool' : List Text), pool'[i]? = some name →
      ∀ consts : Array Text, pool' <+: consts.toList → consts.size < 2 ^ 32 →
        Takes (constant consts) (u32 (ofNat (i + 1))) name := by
    intro i pool' hi consts hp hs
    obtain ⟨more, hmore⟩ := hp
    have hlt : i < pool'.length := (List.getElem?_eq_some_iff.1 hi).1
    have hconst : consts[i]? = some name := by
      rw [← Array.getElem?_toList, ← hmore, getElem?_append_left hlt, hi]
    have hsize : i < consts.size := (Array.getElem?_eq_some_iff.1 hconst).1
    refine (Read.takes_u32 _).raw.bind_nil ?_
    rw [Read.toNat_ofNat_length (by omega)]
    simp only [hconst]
    exact .pure name
  intro pool
  cases hidx : pool.idxOf? name with
  | some i =>
    obtain ⟨hi, hname, -⟩ := idxOf?_eq_some_iff.1 hidx
    refine ⟨_, pool, by simp only [TreeWrite.constant, hidx]; rfl, prefix_refl _, ?_, id, ?_⟩
    · exact one_le_length_numeral _
    · exact fun consts hp hs _ => htakes i pool (by rw [getElem?_eq_getElem hi, hname]) consts hp hs
  | none =>
    refine ⟨_, pool ++ [name], by simp only [TreeWrite.constant, hidx]; rfl, prefix_append _ _, ?_, ?_, ?_⟩
    · exact one_le_length_numeral _
    · intro hpool t ht
      rcases mem_append.1 ht with ht | ht
      · exact hpool t ht
      · rw [mem_singleton.1 ht]
        exact hu
    · exact fun consts hp hs _ => htakes pool.length (pool ++ [name]) (by simp) consts hp hs

lemma inverted_constants {names : List Text} (hu : ∀ t ∈ names, t.isUtf8) (index : Nat) :
    TreeWrite.Inverted names.length (.constants names)
      (fun consts => .many (fun _ => .constant consts) names.length index) names := by
  induction names generalizing index with
  | nil => exact .of_takes (zero_le _) fun _ _ => .pure []
  | cons name names ih =>
    have hname := inverted_constant (hu name (by simp))
    have hnames := ih (fun t ht => hu t (by simp [ht])) (index + 1)
    exact (hname.seq hnames List.cons).mono (by simp [add_comm])

/-! ## Records -/

lemma takes_location (l : Location) : Takes location (TreeWrite.location l) l :=
  (Read.takes_u32 l.start).raw.bind ((Read.takes_u32 l.length).raw.map (Location.mk l.start))

lemma takes_absent (consts : Array Text) (depth : Nat) : Takes (record consts depth true) [0] .absent := by
  cases depth <;> exact fun _ _ => rfl

/-- A record is read by what follows its type, one level down. -/
lemma takes_record {consts : Array Text} {depth : Nat} {optional : Bool} {type : RecordType}
    {schema : Schema} {y : Text} {r : Record} (hschema : type.schema? = some schema)
    (h : Takes (body consts (record consts depth) type schema) y r) :
    Takes (record consts (depth + 1) optional) (type.byte :: y) r := by
  obtain ⟨htype, hzero⟩ := RecordType.ofByte_byte hschema
  refine .position fun pos => ?_
  refine (Read.takes_byte type.byte).raw.bind (x := [type.byte]) ?_
  have hb : ¬ (type.byte == 0) := by simpa using hzero
  simpa only [if_neg hb, htype, hschema] using h

lemma takes_body {consts : Array Text} {child : Bool → DocRead Record} {type : RecordType}
    {schema : Schema} {id flags : UInt32} {loc : Location} {y : Text} {fields : List Value}
    (h : Takes (values consts child schema.name schema.fields) y fields) :
    Takes (body consts child type schema)
      (u32 id ++ TreeWrite.location loc ++ u32 flags ++ y)
      (.mk type id loc flags fields) := by
  simp only [append_assoc]
  refine ((Read.takes_u32 id).raw.within _).bind ?_
  refine ((takes_location loc).within _).bind ?_
  refine ((Read.takes_u32 flags).raw.within _).bind ?_
  exact h.map (mk type id loc flags)

mutual

/-- A record that conforms is written, and read back with as much depth as it has. -/
lemma Record.inverted (r : Record) (hc : r.Conforms) (hu : r.Utf8) (depth : Nat)
    (hd : r.depth ≤ depth) (optional : Bool) :
    TreeWrite.Inverted 1 (r.write optional) (fun consts => .record consts depth optional) r := by
  match r with
  | .absent => simp only [Record.Conforms] at hc
  | .mk type id loc flags fields =>
    simp only [Record.Conforms] at hc
    obtain ⟨⟨schema, hschema, hfits⟩, hfields⟩ := hc
    simp only [Record.depth] at hd
    obtain ⟨depth, rfl⟩ : ∃ d, depth = d + 1 := ⟨depth - 1, by omega⟩
    have hvalues := Value.inverted_all fields schema.name schema.fields hfits hfields hu depth (by omega)
    intro pool
    obtain ⟨rest, pool', hw, hr⟩ := hvalues pool
    refine ⟨type.byte :: (u32 id ++ TreeWrite.location loc ++ u32 flags ++ rest), pool', ?_,
      hr.grows, by simp, hr.utf8, ?_⟩
    · have hlen : ¬ (fields.length != schema.fields.length) := by
        simpa using hfits.length_eq
      simp only [Record.write, hschema, if_neg hlen, bind, EStateM.bind, pure, EStateM.pure, hw]
    · intro consts hp hs hb
      simp only [length_cons, length_append] at hb
      exact takes_record hschema (takes_body (hr.takes consts hp hs (by omega)))

/-- The entries of a list of records are written and read back one after the other. -/
lemma Record.inverted_all (rs : List Record) (hc : Record.AllConform rs) (hu : Record.AllUtf8 rs)
    (depth : Nat) (hd : Record.maxDepth rs ≤ depth) (index : Nat) :
    TreeWrite.Inverted rs.length (writeAll rs index) (fun consts => .many (fun index =>
        within ("[" ++ Text.ofNat index ++ "]") (record consts depth false)) rs.length index) rs := by
  match rs with
  | [] => exact .of_takes (zero_le _) fun _ _ => .pure []
  | r :: rest =>
    simp only [Record.maxDepth] at hd
    have hr := (Record.inverted r hc.1 hu.1 depth (by omega) false).within
      ("[" ++ Text.ofNat index ++ "]") ("[" ++ Text.ofNat index ++ "]")
    have hrest := Record.inverted_all rest hc.2 hu.2 depth (by omega) (index + 1)
    exact (hr.seq hrest List.cons).mono (by simp [add_comm])

/-- A value is written and read back as its encoding says. -/
lemma Value.inverted (v : Value) {kind : FieldKind} (hk : v.kind? = some kind) (hc : v.Conforms)
    (hu : v.Utf8) (depth : Nat) (hd : v.depth ≤ depth) :
    TreeWrite.Inverted 0 v.write (fun consts => .value consts (.record consts depth) kind) v := by
  match v with
  | .node r =>
    obtain rfl : .node = kind := by simpa [Value.kind?] using hk
    exact (Record.inverted r hc hu depth hd false).map Value.node
  | .optNode r =>
    obtain rfl : .optNode = kind := by simpa [Value.kind?] using hk
    -- an absent record is a single zero byte, which starts no other record
    rcases hc with hc | hc
    · cases r with
      | absent =>
        exact .of_takes (zero_le _) fun _ _ => (takes_absent _ depth).map Value.optNode
      | mk => simp [isAbsent] at hc
    · exact (Record.inverted r hc hu depth hd true).map Value.optNode
  | .nodes rs =>
    obtain rfl : .nodes = kind := by simpa [Value.kind?] using hk
    exact (Record.inverted_all rs hc hu depth hd 0).counted "nodes" Value.nodes
  | .const name =>
    obtain rfl : .const = kind := by simpa [Value.kind?] using hk
    exact (inverted_constant hu).map Value.const
  | .consts names =>
    obtain rfl : .consts = kind := by simpa [Value.kind?] using hk
    exact (inverted_constants hu 0).counted "constants" Value.consts
  | .loc (some l) =>
    obtain rfl : .loc = kind := by simpa [Value.kind?] using hk
    exact .of_takes (zero_le _) fun _ _ => (takes_location l).map fun l => Value.loc (some l)
  | .loc none => simp [Value.Conforms] at hc
  | .optLoc (some l) =>
    obtain rfl : .optLoc = kind := by simpa [Value.kind?] using hk
    exact .of_takes (zero_le _) fun _ _ => (Read.takes_byte 1).raw.bind
      ((takes_location l).map fun l => Value.optLoc (some l))
  | .optLoc none =>
    obtain rfl : .optLoc = kind := by simpa [Value.kind?] using hk
    exact .of_takes (zero_le _) fun _ _ => (Read.takes_byte 0).raw.bind_nil (Takes.pure _)
  | .string t =>
    obtain rfl : .string = kind := by simpa [Value.kind?] using hk
    refine .of_takes (zero_le _) fun _ hb => (Read.takes_name hu ?_).raw.map Value.string
    simp only [name, length_append] at hb
    omega
  | .integer negative magnitude =>
    obtain rfl : .integer = kind := by simpa [Value.kind?] using hk
    refine .of_takes (zero_le _) fun _ _ => (Read.takes_byte _).raw.bind ?_
    cases negative <;> exact (Read.takes_u64 magnitude).raw.map (Value.integer _)
  | .double x =>
    obtain rfl : .double = kind := by simpa [Value.kind?] using hk
    exact .of_takes (zero_le _) fun _ _ => (Read.takes_f64le x).raw.map Value.double
  | .uint n =>
    obtain rfl : .uint = kind := by simpa [Value.kind?] using hk
    exact .of_takes (zero_le _) fun _ _ => (Read.takes_u32 n).raw.map Value.uint
  | .other _ => simp [Value.kind?] at hk

/-- The fields of a record are written and read back in the order of the schema. -/
lemma Value.inverted_all (vs : List Value) (name : Text) (specs : List FieldSpec)
    (hk : vs.map Value.kind? = specs.map fun spec => some spec.kind) (hc : Value.AllConform vs)
    (hu : Value.AllUtf8 vs) (depth : Nat) (hd : Value.maxDepth vs ≤ depth) :
    TreeWrite.Inverted 0 (Value.writeAll name specs vs)
      (fun consts => .values consts (.record consts depth) name specs) vs := by
  match vs, specs with
  | [], [] => exact .of_takes (zero_le _) fun _ _ => .pure []
  | v :: rest, spec :: more =>
    obtain ⟨hkind, hkinds⟩ := List.cons.inj hk
    simp only [Value.maxDepth] at hd
    have hv := (Value.inverted v hkind hc.1 hu.1 depth (by omega)).within
      (name ++ "." ++ spec.name) (name ++ "." ++ spec.name)
    have hrest := Value.inverted_all rest name more hkinds hc.2 hu.2 depth (by omega)
    have hsame : ¬ (v.kind? != some spec.kind) := by simpa using hkind
    have hwrite : Value.writeAll name (spec :: more) (v :: rest) =
        (do let x ← TreeWrite.within (name ++ "." ++ spec.name) v.write
            let y ← Value.writeAll name more rest
            pure (x ++ y)) := by
      rw [Value.writeAll, if_neg hsame]
    rw [hwrite]
    exact hv.seq hrest List.cons
  | [], _ :: _ => simp at hk
  | _ :: _, [] => simp at hk

end

/-! ## Documents -/

variable {entry : α → Text} {xs : List α}

lemma takes_many {read : Nat → DocRead α}
    (h : ∀ x ∈ xs, ∀ index, Takes (read index) (entry x) x) (index : Nat) :
    Takes (many read xs.length index) (xs.flatMap entry) xs := by
  induction xs generalizing index with
  | nil => exact .pure []
  | cons x xs ih =>
    have hx := h x (by simp) index
    have hxs := ih (fun y hy => h y (by simp [hy])) (index + 1)
    exact hx.bind (hxs.map (x :: ·))

lemma length_le_length_flatMap (h : ∀ x ∈ xs, 1 ≤ (entry x).length) : xs.length ≤ (xs.flatMap entry).length := by
  rw [length_flatMap]
  simpa using length_le_sum_of_one_le (xs.map fun x => (entry x).length) (by simpa using h)

lemma length_entry_le (entry : α → Text) {x : α} (hx : x ∈ xs) : (entry x).length ≤ (xs.flatMap entry).length := by
  rw [length_flatMap]
  exact le_sum_of_mem (mem_map_of_mem (f := fun x => (entry x).length) hx)

lemma takes_listText {what : Text} {read : Nat → DocRead α}
    (h : ∀ x ∈ xs, (entry x).length < 2 ^ 32 → ∀ index, Takes (read index) (entry x) x)
    (hpos : ∀ x ∈ xs, 1 ≤ (entry x).length) (hlen : (listText entry xs).length < 2 ^ 32) :
    Takes (count what >>= fun n => many read n 0) (listText entry xs) xs := by
  simp only [listText, length_append] at hlen
  have hle := length_le_length_flatMap hpos
  refine takes_count_bind (by omega) hle (takes_many (fun x hx => h x hx ?_) 0)
  have := length_entry_le entry hx
  omega

lemma takes_comment (c : Comment) (index : Nat) : Takes (comment index) (commentText c) c :=
  ((Read.takes_byte c.kind).raw.bind ((takes_location c.loc).map (Comment.mk c.kind))).within _

lemma takes_comments {cs : List Comment}
    (hlen : (listText commentText cs).length < 2 ^ 32) :
    Takes comments (listText commentText cs) cs :=
  takes_listText (fun c _ _ => takes_comment c) (fun c _ => by simp [commentText]) hlen

lemma takes_notice {n : Notice} (hu : n.message.isUtf8)
    (hlen : (noticeText n).length < 2 ^ 32) (what : Text) (index : Nat) :
    Takes (notice what index) (noticeText n) n := by
  simp only [noticeText, name, length_append] at hlen
  rw [noticeText, append_assoc]
  refine .within ?_ _
  refine (Read.takes_name hu (by omega)).raw.bind ?_
  exact (takes_location n.loc).bind ((Read.takes_byte n.level).raw.map (Notice.mk n.message n.loc))

lemma takes_notices {ns : List Notice} (hu : ∀ n ∈ ns, n.message.isUtf8)
    (hlen : (listText noticeText ns).length < 2 ^ 32) (what : Text) :
    Takes (notices what) (listText noticeText ns) ns :=
  takes_listText (fun n hn hl => takes_notice (hu n hn) hl what)
    (fun n _ => by simp only [noticeText, length_append, length_cons]; omega) hlen

lemma seek_eq {x y : Text} {n : Nat} (h : x.length = n) (t : Tape) : Read.seek (x ++ y) n t = .ok () ⟨n, y⟩ := by
  subst h
  simp [Read.seek]

lemma length_le_length_flatMap_name (pool : List Text) : pool.length ≤ (pool.flatMap name).length := by
  refine length_le_length_flatMap fun t _ => ?_
  have h : 1 ≤ (u32 (ofNat t.length)).length := one_le_length_numeral _
  rw [name, length_append]
  omega

/-- The pool is read from where it stands, whatever was read before. -/
lemma pool_eq {x : Text} {pool : List Text} {place : Nat} (hplace : x.length = place)
    (hu : ∀ t ∈ pool, t.isUtf8) (hlen : (pool.flatMap name).length < 2 ^ 32) (t : Tape) :
    ∃ t', DocRead.pool (x ++ pool.flatMap name) place pool.length t = .ok pool t' := by
  have hle := length_le_length_flatMap_name pool
  have hnames : Takes (many (fun index =>
      .within ("constant " ++ Text.ofNat (index + 1)) (.raw .name)) pool.length 0)
      (pool.flatMap name) pool := by
    refine takes_many (fun t ht index => (Read.takes_name (hu t ht) ?_).raw.within _) 0
    have := length_entry_le name ht
    simp only [name, length_append] at this
    omega
  have hseek : within "constant pool"
      (raw (Read.seek (x ++ pool.flatMap name) place)) t
      = .ok () ⟨place, pool.flatMap name⟩ := by
    simp only [within, raw, Read.mapFault, seek_eq hplace]
  have hread := hnames place []
  rw [append_nil] at hread
  refine ⟨⟨place + (pool.flatMap name).length, []⟩, ?_⟩
  rw [DocRead.pool, bind_of_eq_ok hseek]
  change (if pool.length > (pool.flatMap name).length then _ else _ : DocRead (List Text)) _ = _
  rw [if_neg (by omega)]
  exact hread

/-- A document as it comes back: version and encoding are filled in where they were left out. -/
def Document.completed (doc : Document) : Document where
  __ := doc
  version := if doc.version = ⟨0, 0, 0⟩ then ⟨1, 4, 0⟩ else doc.version
  encoding := if doc.encoding = [] then "UTF-8" else doc.encoding

variable {doc : Document}

lemma Document.completed_eq :
    doc.completed = { doc with version := doc.givenVersion, encoding := doc.givenEncoding } := by
  simp only [completed, givenVersion, givenEncoding, List.isEmpty_iff]
  rfl

lemma Document.givenEncoding_isUtf8 (h : doc.encoding.isUtf8) : doc.givenEncoding.isUtf8 := by
  rw [givenEncoding]
  split_ifs
  · decide +kernel
  · exact h

lemma Document.givenVersion_major (h : doc.version = .zero ∨ doc.version.major = Version.current.major) :
    doc.givenVersion.major = Version.current.major := by
  rw [givenVersion]
  split_ifs with hzero
  · rfl
  · exact h.resolve_left hzero

lemma takes_opening : Takes opening magic () := by
  refine ((Read.takes_bytes rfl).raw.within _).bind_nil ?_
  rw [if_pos (beq_self_eq_true magic)]
  exact .pure ()

lemma takes_version {v : Version} (h : v.major = Version.current.major) :
    Takes version [v.major, v.minor, v.patch] v := by
  refine ((Read.takes_bytes (n := 3) rfl).raw.within _).bind_nil ?_
  simp only [h, beq_self_eq_true, if_true]
  rw [← h]
  exact .pure v

namespace Document

/-- Where the pool stands in the bytes of a document. -/
def poolPlace (doc : Document) (records : Text) (pool : List Text) : Nat :=
  doc.header.length + 4 + (u32 (ofNat pool.length) ++ records).length

/-- What precedes the records. -/
def front (doc : Document) (records : Text) (pool : List Text) : Text :=
  doc.header ++ u32le (ofNat (doc.poolPlace records pool)) ++ u32 (ofNat pool.length)

lemma assemble_eq_front (doc : Document) (records : Text) (pool : List Text) :
    doc.assemble records pool = doc.front records pool ++ (records ++ pool.flatMap name) := by
  simp only [assemble, front, poolPlace, append_assoc]

lemma length_front_append (doc : Document) (records : Text) (pool : List Text) :
    (doc.front records pool ++ records).length = doc.poolPlace records pool := by
  simp only [front, poolPlace, u32le, length_append, Read.length_littleEndian]
  omega

/-- The front is read as a header. Every part of it is shorter than the whole. -/
lemma takes_front (h : doc.Sound) (records : Text) (pool : List Text)
    (hlen : (doc.front records pool).length < 2 ^ 32) :
    Takes DocRead.header (doc.front records pool)
      ⟨doc.givenVersion, doc.givenEncoding, doc.startLine, doc.comments, doc.errors, doc.warnings,
        ofNat (doc.poolPlace records pool), ofNat pool.length⟩ := by
  have hcut : doc.front records pool = magic ++ ([doc.givenVersion.major, doc.givenVersion.minor,
      doc.givenVersion.patch] ++ ([0] ++ (name doc.givenEncoding
      ++ (signedNumeral doc.startLine.toInt ++ (listText commentText doc.comments
      ++ (listText noticeText doc.errors ++ (listText noticeText doc.warnings
      ++ (u32le (ofNat (doc.poolPlace records pool))
      ++ u32 (ofNat pool.length))))))))) := by
    simp only [front, header, append_assoc, cons_append, nil_append]
  rw [hcut] at hlen ⊢
  simp only [length_append] at hlen
  have hencoding : doc.givenEncoding.length < 2 ^ 32 := by
    simp only [name, length_append] at hlen
    omega
  refine takes_opening.bind ?_
  refine (takes_version (givenVersion_major h.version)).bind ?_
  refine ((Read.takes_byte 0).raw.within _).bind ?_
  refine ((Read.takes_name (givenEncoding_isUtf8 h.utf8.encoding) hencoding).raw.within _).bind ?_
  refine ((Read.takes_s64 doc.startLine).raw.within _).bind ?_
  refine (takes_comments (by omega)).bind ?_
  refine (takes_notices h.utf8.errors (by omega) _).bind ?_
  refine (takes_notices h.utf8.warnings (by omega) _).bind ?_
  refine ((Read.takes_u32le _).raw.within _).bind ?_
  exact ((Read.takes_u32 _).raw.within _).map _

/-- The bytes that were written are read, if they can be numbered in 32 bits. The reader goes from the
front to the pool and back to the records. -/
lemma read_assemble (h : doc.Sound) {records : Text} {pool : List Text}
    (hr : Rereadable 1 (fun consts => .record consts maxDepth false) doc.root [] records pool)
    (hlen : (doc.assemble records pool).length < 2 ^ 32) :
    read (doc.assemble records pool) = .ok doc.completed := by
  have hplace := doc.length_front_append records pool
  have hplace' := hplace
  rw [assemble_eq_front] at hlen ⊢
  simp only [length_append] at hlen hplace'
  have hutf : ∀ t ∈ pool, t.isUtf8 := hr.utf8 (by simp)
  have hcount : pool.length ≤ (pool.flatMap name).length := length_le_length_flatMap_name pool
  have hfront := takes_front h records pool (by omega)
  obtain ⟨t, hpool⟩ := pool_eq hplace hutf (by omega)
    ⟨0 + (doc.front records pool).length, records ++ pool.flatMap name⟩
  rw [append_assoc] at hpool
  have hback : raw (Read.seek (doc.front records pool ++ (records ++ pool.flatMap name))
      (0 + (doc.front records pool).length : Nat)) t
      = .ok () ⟨0 + (doc.front records pool).length, records ++ pool.flatMap name⟩ := by
    simp only [raw, Read.mapFault, seek_eq (zero_add _).symm]
  have hroot := hr.takes pool.toArray (by simp) (by simp; omega) (by omega)
  rw [read, Tape.ofText, document, hfront.bind_eq, Read.position_bind,
    Read.toNat_ofNat_length (by omega), Read.toNat_ofNat_length (by omega), bind_of_eq_ok hpool,
    bind_of_eq_ok hback, hroot.bind_eq, completed_eq]
  rfl

lemma encode_eq_assemble (h : doc.Sound) :
    ∃ records pool, doc.encode = .ok (doc.assemble records pool) ∧
      Rereadable 1 (fun consts => .record consts maxDepth false) doc.root [] records pool := by
  obtain ⟨records, pool, hw, hr⟩ := doc.root.inverted h.conforms h.utf8.root _ h.depth false []
  refine ⟨records, pool, ?_, hr⟩
  have hroot : ¬ doc.root.isAbsent := by
    have hc := h.conforms
    cases hd : doc.root with
    | absent => simp [hd, Record.Conforms] at hc
    | mk => simp [isAbsent]
  simp only [encode, if_neg hroot, write, hw]

/-- **Reading undoes writing.** A sound document is written, and what is written is read as the same
document, its version and encoding filled in where they were left out, as long as the bytes can be numbered
in 32 bits. -/
theorem decode_encode (doc : Document) (h : doc.Sound) :
    ∃ bytes, doc.encode = .ok bytes ∧ (bytes.length < 2 ^ 32 → decode bytes = .ok doc.completed) := by
  obtain ⟨records, pool, hencode, hr⟩ := encode_eq_assemble h
  refine ⟨doc.assemble records pool, hencode, fun hlen => ?_⟩
  rw [decode, read_assemble h hr hlen]

/-- A program that sets `x` to the least integer inside a block whose parameter `x` is, too, and prints a
string, with a comment, an error, a negative line and nothing said of version or encoding. -/
def sample : Document where
  version := .zero
  encoding := []
  startLine := -3
  comments := [⟨1, ⟨300, 70000⟩⟩]
  errors := [⟨"é", ⟨0, 4294967295⟩, 200⟩]
  warnings := []
  root := program
    [place (call .absent "each" [string "ü", float .nan]
      (block ["x"] [localWrite "x" (integer (-9223372036854775808))])) 5 200]

theorem decode_encode_sample : sample.Sound ∧ ∃ bytes, sample.encode = .ok bytes ∧
    bytes.length < 2 ^ 32 ∧ decode bytes = .ok sample.completed := by
  have hsound : sample.Sound := by
    refine ⟨.inl rfl, ?_, ⟨by decide +kernel, by decide +kernel, by decide +kernel, ?_⟩, by decide +kernel⟩
    · simp [sample, program, statements, ofFields, place, call,
        arguments, string, float, block, blockParameters, parameters,
        optStatements, localWrite, integer, optLoc, noLoc, Value.ofInt64,
        Record.Conforms, Record.AllConform, Value.Conforms, Value.AllConform, isAbsent,
        RecordType.schema?, RecordType.field, Schema.Fits, Value.kind?]
    · simp [sample, program, statements, ofFields, place, call,
        arguments, string, float, block, blockParameters, parameters,
        optStatements, localWrite, integer, optLoc, noLoc, Value.ofInt64,
        Record.Utf8, Record.AllUtf8, Value.Utf8, Value.AllUtf8]
      decide +kernel
  obtain ⟨bytes, hencode, hdecode⟩ := decode_encode sample hsound
  have hlen : bytes.length < 2 ^ 32 := by
    have hall : (sample.encode.toOption.all fun bytes => bytes.length < 2 ^ 32) = true := by
      decide +kernel
    simpa [hencode, Except.toOption] using hall
  exact ⟨hsound, bytes, hencode, hlen, hdecode hlen⟩

end Document

end Transpiler.Wire
