import Transpiler.Proofs.Wire.Conforming
import Transpiler.Wire.Writer

/-!
# Which documents are written

The writer checks a tree while it writes and gives up at the first thing that is wrong. Still it finds everything: a
document is refused exactly if it is missing, has no root, or some record reached from the root has a flaw of its own
(`encodeOption_refuses_iff`). One pass over the writer shows that it accepts (`TreeWrite.Accepts`) what conforms; the
other half says that a tree conforms exactly if no record in it is flawed.
-/

namespace Transpiler.Wire

open List Record

/-! ## Flaws -/

/-- The records in a value. -/
def Value.records : Value → List Record
  | .node r | .optNode r => [r]
  | .nodes rs => rs
  | .const _ | .consts _ | .loc _ | .optLoc _ | .string _ | .integer .. | .double _ | .uint _ | .other _ => []

/-- One record is reached from another through fields. -/
inductive Record.Reaches : Record → Record → Prop
  | refl (r : Record) : Reaches r r
  | field {type : RecordType} {id : UInt32} {loc : Location} {flags : UInt32} {fields : List Value} {v : Value}
      {s t : Record} (hv : v ∈ fields) (hs : s ∈ v.records) (h : Reaches s t) :
      Reaches (.mk type id loc flags fields) t

/-- Something required is missing from a value: a node, an entry of a list of nodes, or a location. -/
inductive Value.Lacks : Value → Prop
  | node : Lacks (.node .absent)
  | entry {rs : List Record} (h : .absent ∈ rs) : Lacks (.nodes rs)
  | location : Lacks (.loc none)

/-- What can be wrong with the fields of a record of some type, whatever lies below them. -/
inductive Flaw (type : RecordType) (fields : List Value) : Prop
  | unknownType (h : type.schema? = none)
  | fieldCount {schema : Schema} (hschema : type.schema? = some schema) (h : fields.length ≠ schema.fields.length)
  | fieldKind {schema : Schema} (hschema : type.schema? = some schema) {i : Nat} {v : Value} {spec : FieldSpec}
      (hv : fields[i]? = some v) (hspec : schema.fields[i]? = some spec) (h : v.kind? ≠ some spec.kind)
  | missing {v : Value} (hv : v ∈ fields) (h : v.Lacks)

/-- The record is there and has a flaw of its own. -/
def Record.Flawed : Record → Prop
  | .absent => False
  | .mk type _ _ _ fields => Flaw type fields

lemma fits_of_not_flaw {type : RecordType} {fields : List Value} (h : ¬ Flaw type fields) :
    ∃ schema, type.schema? = some schema ∧ schema.Fits fields := by
  cases hschema : type.schema? with
  | none => exact absurd (.unknownType hschema) h
  | some schema =>
    have hlen : fields.length = schema.fields.length := by
      by_contra hne
      exact h (.fieldCount hschema hne)
    refine ⟨schema, rfl, ext_getElem (by simpa using hlen) ?_⟩
    intro i hi hi'
    rw [getElem_map, getElem_map]
    by_contra hkind
    exact h (.fieldKind hschema (getElem?_eq_getElem _) (getElem?_eq_getElem _) hkind)

lemma Value.Conforms.not_lacks {v : Value} (h : v.Conforms) : ¬ v.Lacks := by
  intro hlacks
  cases hlacks with
  | node => exact h
  | entry hmem => exact (allConform_iff _).1 h _ hmem
  | location => cases h

lemma Record.Conforms.not_flawed {r : Record} (h : r.Conforms) : ¬ r.Flawed := by
  cases r with
  | absent => exact fun _ => h
  | mk type id loc flags fields =>
    obtain ⟨⟨schema, hschema, hfits⟩, hfields⟩ := h
    have hsame : ∀ {other}, type.schema? = some other → other = schema := by
      intro other hother
      rw [hschema] at hother
      exact (Option.some.inj hother).symm
    intro hflaw
    cases hflaw with
    | unknownType hnone =>
      rw [hschema] at hnone
      cases hnone
    | fieldCount hother hne =>
      obtain rfl := hsame hother
      exact hne hfits.length_eq
    | @fieldKind other hother i v spec hv hspec hne =>
      obtain rfl := hsame hother
      have hkinds := congrArg (·[i]?) hfits
      simp only [getElem?_map, hv, hspec, Option.map_some] at hkinds
      exact hne (Option.some.inj hkinds)
    | missing hv hlacks => exact ((valuesConform_iff fields).1 hfields _ hv).not_lacks hlacks

lemma Value.Conforms.records {v : Value} (h : v.Conforms) {s : Record} (hs : s ∈ v.records) :
    s = .absent ∨ s.Conforms := by
  cases v with
  | node r =>
    rw [mem_singleton.1 hs]
    exact .inr h
  | optNode r =>
    rw [mem_singleton.1 hs]
    refine Or.imp_left (fun habsent => ?_) h
    cases r with
    | absent => rfl
    | mk => cases habsent
  | nodes rs => exact .inr ((allConform_iff rs).1 h s hs)
  | _ => cases hs

lemma Record.Reaches.not_flawed {r s : Record} (h : r.Reaches s) (hr : r = .absent ∨ r.Conforms) : ¬ s.Flawed := by
  induction h with
  | refl r =>
    rcases hr with rfl | hr
    · exact id
    · exact hr.not_flawed
  | field hv hs _ ih =>
    rcases hr with hr | hr
    · cases hr
    · exact ih (((valuesConform_iff _).1 hr.2 _ hv).records hs)

/-- No flaw is reached from any record of the list. -/
def Unflawed (rs : List Record) : Prop := ∀ s ∈ rs, ∀ t, s.Reaches t → ¬ t.Flawed

mutual

/-- A record from which no flaw is reached conforms. -/
lemma Record.conforms_of_unflawed (r : Record) (hr : r ≠ .absent) (h : ∀ t, r.Reaches t → ¬ t.Flawed) : r.Conforms := by
  match r with
  | .absent => exact absurd rfl hr
  | .mk type id loc flags fields =>
    have hown : ¬ Flaw type fields := h _ (.refl _)
    obtain ⟨schema, hschema, hfits⟩ := fits_of_not_flaw hown
    have hfields : ∀ v ∈ fields, v.kind? ≠ none ∧ ¬ v.Lacks ∧ Unflawed v.records := by
      intro v hv
      refine ⟨?_, fun hlacks => hown (.missing hv hlacks), fun s hs t ht => h t (.field hv hs ht)⟩
      -- a value that no schema can ask for would be of another encoding than its field
      have hmem : v.kind? ∈ schema.fields.map fun spec => some spec.kind := hfits ▸ mem_map_of_mem hv
      obtain ⟨spec, -, hkind⟩ := mem_map.1 hmem
      rw [← hkind]
      exact Option.some_ne_none _
    exact ⟨⟨schema, hschema, hfits⟩, Value.allConform_of_unflawed fields hfields⟩

lemma Record.allConform_of_unflawed (rs : List Record) (habsent : .absent ∉ rs) (h : Unflawed rs) :
    Record.AllConform rs := by
  match rs with
  | [] => trivial
  | r :: rest =>
    have hr : r ≠ .absent := by
      rintro rfl
      exact habsent mem_cons_self
    exact ⟨Record.conforms_of_unflawed r hr (h r mem_cons_self),
      Record.allConform_of_unflawed rest (fun hmem => habsent (mem_cons_of_mem r hmem))
        fun s hs => h s (mem_cons_of_mem r hs)⟩

lemma Value.conforms_of_unflawed (v : Value) (hkind : v.kind? ≠ none) (hlacks : ¬ v.Lacks)
    (h : Unflawed v.records) : v.Conforms := by
  match v with
  | .node r =>
    refine Record.conforms_of_unflawed r ?_ (h r mem_cons_self)
    rintro rfl
    exact hlacks .node
  | .optNode r =>
    by_cases hr : r = .absent
    · rw [hr]
      exact .inl rfl
    · exact .inr (Record.conforms_of_unflawed r hr (h r mem_cons_self))
  | .nodes rs => exact Record.allConform_of_unflawed rs (fun hmem => hlacks (.entry hmem)) h
  | .loc (some l) => rfl
  | .loc none => exact absurd .location hlacks
  | .other _ => exact absurd rfl hkind
  | .const _ | .consts _ | .optLoc _ | .string _ | .integer .. | .double _ | .uint _ => trivial

lemma Value.allConform_of_unflawed (vs : List Value)
    (h : ∀ v ∈ vs, v.kind? ≠ none ∧ ¬ v.Lacks ∧ Unflawed v.records) : Value.AllConform vs := by
  match vs with
  | [] => trivial
  | v :: rest =>
    obtain ⟨hkind, hlacks, hbelow⟩ := h v mem_cons_self
    exact ⟨Value.conforms_of_unflawed v hkind hlacks hbelow,
      Value.allConform_of_unflawed rest fun w hw => h w (mem_cons_of_mem v hw)⟩

end

/-- A tree conforms exactly if it is there and no record in it is flawed. -/
lemma Record.conforms_iff (r : Record) : r.Conforms ↔ r ≠ .absent ∧ ¬ ∃ s, r.Reaches s ∧ s.Flawed := by
  constructor
  · intro h
    refine ⟨?_, ?_⟩
    · rintro rfl
      exact h
    · rintro ⟨s, hs, hflawed⟩
      exact hs.not_flawed (.inr h) hflawed
  · rintro ⟨hr, hnone⟩
    exact r.conforms_of_unflawed hr fun s hs hflawed => hnone ⟨s, hs, hflawed⟩

/-! ## What the writer accepts -/

namespace TreeWrite

/-- The writer succeeds exactly if `p` holds, whatever constants are in the pool. -/
def Accepts (w : TreeWrite) (p : Prop) : Prop := ∀ pool, (∃ bytes pool', w pool = .ok bytes pool') ↔ p

namespace Accepts

variable {w w₁ w₂ : TreeWrite} {p q : Prop}

lemma pure (bytes : Text) : Accepts (pure bytes) True := by
  intro pool
  exact ⟨fun _ => trivial, fun _ => ⟨bytes, pool, rfl⟩⟩

lemma refuse (fault : TreeFault) : Accepts (.refuse fault) False := by
  intro pool
  refine ⟨?_, False.elim⟩
  rintro ⟨bytes, pool', h⟩
  cases h

lemma congr (h : Accepts w p) (hpq : p ↔ q) : Accepts w q := fun pool => (h pool).trans hpq

lemma within (h : Accepts w p) (place : Text) : Accepts (w.within place) p := by
  intro pool
  rw [← h pool]
  constructor
  · rintro ⟨bytes, pool', hw⟩
    unfold TreeWrite.within at hw
    split at hw
    · next t pool'' hrun => exact ⟨t, pool'', hrun⟩
    · cases hw
  · rintro ⟨bytes, pool', hw⟩
    exact ⟨bytes, pool', by rw [TreeWrite.within, hw]⟩

lemma bind {f : Text → TreeWrite} (h : Accepts w p) (hf : ∀ bytes, Accepts (f bytes) q) :
    Accepts (w >>= f) (p ∧ q) := by
  intro pool
  have hrun : (w >>= f) pool = EStateM.bind w f pool := rfl
  rw [hrun, EStateM.bind]
  cases hw : w pool with
  | ok bytes pool' =>
    have hp : p := (h pool).1 ⟨bytes, pool', hw⟩
    rw [and_iff_right hp]
    exact hf bytes pool'
  | error fault pool' =>
    have hp : ¬ p := by
      intro hp
      obtain ⟨bytes, pool'', hok⟩ := (h pool).2 hp
      rw [hw] at hok
      cases hok
    refine ⟨?_, fun hpq => absurd hpq.1 hp⟩
    rintro ⟨bytes, pool'', hok⟩
    cases hok

lemma map (h : Accepts w p) (f : Text → Text) : Accepts (do let bytes ← w; Pure.pure (f bytes)) p :=
  (h.bind fun bytes => pure (f bytes)).congr (iff_of_eq (and_true p))

lemma seq (h₁ : Accepts w₁ p) (h₂ : Accepts w₂ q) : Accepts (do let x ← w₁; let y ← w₂; Pure.pure (x ++ y)) (p ∧ q) :=
  h₁.bind fun x => h₂.map (x ++ ·)

end Accepts

lemma accepts_constant (name : Text) : Accepts (constant name) True := by
  intro pool
  refine ⟨fun _ => trivial, fun _ => ?_⟩
  cases hfound : pool.idxOf? name with
  | some i => exact ⟨_, _, by rw [constant, hfound]⟩
  | none => exact ⟨_, _, by rw [constant, hfound]⟩

lemma accepts_constants (names : List Text) : Accepts (constants names) True := by
  induction names with
  | nil => exact .pure []
  | cons name rest ih => exact ((accepts_constant name).seq ih).congr (iff_of_eq (and_true True))

end TreeWrite

open TreeWrite

/-- The fields are written exactly if they are of the encodings that the schema asks for and conform. -/
def FieldsAccepted (fields : List Value) : Prop :=
  ∀ name specs, fields.length = specs.length → (Value.writeAll name specs fields).Accepts
    ((fields.map Value.kind? = specs.map fun spec => some spec.kind) ∧ Value.AllConform fields)

/-- The type and the number of fields are checked before any field is written. -/
lemma accepts_mk {type : RecordType} {id : UInt32} {loc : Location} {flags : UInt32} {fields : List Value}
    (hfields : FieldsAccepted fields) (optional : Bool) :
    ((mk type id loc flags fields).write optional).Accepts (mk type id loc flags fields).Conforms := by
  rw [write]
  cases hschema : type.schema? with
  | none =>
    refine (Accepts.refuse _).congr (iff_of_false not_false ?_)
    rintro ⟨⟨schema, h, -⟩, -⟩
    rw [hschema] at h
    cases h
  | some schema =>
    have hconforms : (mk type id loc flags fields).Conforms ↔ schema.Fits fields ∧ Value.AllConform fields := by
      simp [Record.Conforms, hschema]
    by_cases hlen : fields.length = schema.fields.length
    · have hcheck : (fields.length != schema.fields.length) = false := bne_eq_false_iff_eq.2 hlen
      simp only [hcheck, Bool.false_eq_true, if_false]
      exact ((hfields schema.name schema.fields hlen).map _).congr hconforms.symm
    · have hcheck : (fields.length != schema.fields.length) := bne_iff_ne.2 hlen
      simp only [hcheck, if_true]
      refine (Accepts.refuse _).congr (iff_of_false not_false ?_)
      rw [hconforms]
      exact fun h => hlen h.1.length_eq

mutual

/-- A record is written exactly if it conforms, or is absent where that is allowed. -/
lemma Record.accepts (r : Record) (optional : Bool) :
    (r.write optional).Accepts ((optional ∧ r.isAbsent) ∨ r.Conforms) := by
  match r with
  | .absent =>
    cases optional with
    | true => exact (Accepts.pure [0]).congr (iff_of_true trivial (.inl ⟨rfl, rfl⟩))
    | false =>
      refine (Accepts.refuse .missingNode).congr (iff_of_false not_false ?_)
      rintro (⟨h, -⟩ | h)
      · cases h
      · exact h
  | .mk type id loc flags fields =>
    refine (accepts_mk (Value.accepts_all fields) optional).congr (or_iff_right ?_).symm
    rintro ⟨-, h⟩
    cases h

lemma Record.accepts_all (rs : List Record) (index : Nat) : (writeAll rs index).Accepts (Record.AllConform rs) := by
  match rs with
  | [] => exact .pure []
  | r :: rest =>
    have hr : (r.write false).Accepts r.Conforms := (Record.accepts r false).congr (by simp)
    exact (hr.within _).seq (Record.accepts_all rest (index + 1))

lemma Value.accepts (v : Value) : v.write.Accepts v.Conforms := by
  match v with
  | .node r => exact (Record.accepts r false).congr (by simp [Value.Conforms])
  | .optNode r => exact (Record.accepts r true).congr (by simp [Value.Conforms])
  | .nodes rs => exact (Record.accepts_all rs 0).map _
  | .const name => exact accepts_constant name
  | .consts names => exact (accepts_constants names).map _
  | .loc none => exact (Accepts.refuse .missingLocation).congr (by simp [Value.Conforms])
  | .loc (some l) => exact (Accepts.pure _).congr (by simp [Value.Conforms])
  | .optLoc none | .optLoc (some _) => exact .pure _
  | .string _ | .integer .. | .double _ | .uint _ => exact .pure _
  | .other _ => exact .refuse .missingNode

lemma Value.accepts_all (vs : List Value) : FieldsAccepted vs := by
  match vs with
  | [] =>
    intro name specs hlen
    rw [length_eq_zero_iff.1 hlen.symm]
    exact (Accepts.pure []).congr (iff_of_true trivial ⟨rfl, trivial⟩)
  | v :: rest =>
    intro name specs hlen
    obtain _ | ⟨spec, more⟩ := specs
    · cases hlen
    -- the first field that is of another encoding ends the writing, and no field hides it from the others
    have hrest := Value.accepts_all rest name more (Nat.succ.inj hlen)
    have hkinds : ((v :: rest).map Value.kind? = (spec :: more).map fun spec => some spec.kind) ↔
        v.kind? = some spec.kind ∧ rest.map Value.kind? = more.map fun spec => some spec.kind := by
      rw [map_cons, map_cons, List.cons.injEq]
    rw [Value.writeAll]
    by_cases hkind : v.kind? = some spec.kind
    · rw [if_neg (by simp [hkind])]
      refine (((Value.accepts v).within _).seq hrest).congr ?_
      rw [hkinds, Value.AllConform, and_iff_right hkind]
      exact and_left_comm
    · rw [if_pos (by simp [hkind])]
      exact (Accepts.refuse _).congr (iff_of_false not_false fun h => hkind (hkinds.1 h.1).1)

end

namespace Document

/-- The document is not there, has no root, or a flaw is reached from the root. -/
def Unwritable : Option Document → Prop
  | none => True
  | some doc => doc.root = .absent ∨ ∃ r, doc.root.Reaches r ∧ r.Flawed

lemma exists_encode_iff (doc : Document) : (∃ bytes, doc.encode = .ok bytes) ↔ doc.root.Conforms := by
  have hroot : (∃ records pool, doc.root.write false [] = .ok records pool) ↔ doc.root.Conforms :=
    (accepts doc.root false).congr (by simp) []
  rw [encode]
  split_ifs with habsent
  · -- without a root the writer is not even run
    refine iff_of_false (fun ⟨bytes, h⟩ => by cases h) fun h => ?_
    cases hdoc : doc.root with
    | absent =>
      rw [hdoc] at h
      exact h
    | mk =>
      rw [hdoc] at habsent
      cases habsent
  · rw [← hroot, write]
    cases hrun : doc.root.write false [] with
    | ok records pool => exact iff_of_true ⟨_, rfl⟩ ⟨records, pool, rfl⟩
    | error fault pool => exact iff_of_false (fun ⟨bytes, h⟩ => by cases h) fun ⟨_, _, h⟩ => by cases h

lemma exists_encodeOption_iff (doc : Option Document) : (∃ bytes, encodeOption doc = .ok bytes) ↔ ¬ Unwritable doc := by
  cases doc with
  | none => exact iff_of_false (fun ⟨bytes, h⟩ => by cases h) (not_not_intro trivial)
  | some doc =>
    rw [encodeOption, exists_encode_iff, conforms_iff, Unwritable, not_or]

/-- A document is refused exactly if it or its root is not there or a record that is reached from the root is
flawed, and in every other case there are bytes for it. -/
theorem encodeOption_refuses_iff (doc : Option Document) :
    ((∃ fault, encodeOption doc = .error fault) ↔ Unwritable doc) ∧
      ((∃ bytes, encodeOption doc = .ok bytes) ↔ ¬ Unwritable doc) := by
  have hbytes := exists_encodeOption_iff doc
  refine ⟨?_, hbytes⟩
  rw [← not_iff_not, ← hbytes]
  cases encodeOption doc with
  | ok bytes => exact iff_of_true (fun ⟨fault, h⟩ => by cases h) ⟨bytes, rfl⟩
  | error fault => exact iff_of_false (not_not_intro ⟨fault, rfl⟩) fun ⟨bytes, h⟩ => by cases h

end Document

end Transpiler.Wire
