import Transpiler.Settings.Basic
import Transpiler.Settings.Duration
import Transpiler.Yaml.Reader

/-!
# Reading settings

Settings are read over the usual ones: what a document does not mention stays, and what it leaves empty
stays too, except that an empty list or map is cleared. Keys nobody knows, keys given twice and values of
the wrong type are collected; one of them is enough to refuse the document.
-/

namespace Transpiler.Settings

open Yaml (Tree)

/-- What came of reading a value over an old one, and what was wrong. -/
structure Taken (α : Type) where
  value : α
  wrong : List Text

/-- How a value is read over an old one. -/
abbrev Taker (α : Type) := α → Tree → Taken α

/-! ## Values -/

/-- The start of a long spelling, or all of a short one. -/
def excerpt (t : Text) : Text := if t.length > 10 then t.take 7 ++ "..." else t

/-- The scalar, as messages quote it. -/
def spelled (t : Tree) : Text :=
  match t with
  | .scalar _ _ text => " \x60" ++ excerpt text ++ "\x60"
  | _ => []

/-- The value does not fit the type. -/
def mismatch (t : Tree) (type : Text) : Text :=
  "line " ++ Text.ofNat t.line ++ ": cannot unmarshal " ++ t.typeName ++ spelled t ++ " into " ++ type

/-- The old value, and a message that the new one has the wrong type. -/
def refuse {α : Type} (old : α) (t : Tree) (type : Text) : Taken α := ⟨old, [mismatch t type]⟩

/-- A value of a type, unless it is left empty. -/
def takeBy {α : Type} (type : Text) (value? : Tree → Option α) : Taker α := fun old t =>
  if t.isNull then ⟨old, []⟩
  else match value? t with
    | some v => ⟨v, []⟩
    | none => refuse old t type

/-- The text of a scalar. -/
def text? : Tree → Option Text
  | .scalar _ _ t => some t
  | _ => none

/-- A number within bounds; a fraction is cut off. -/
def number? (low high : Int) (t : Tree) : Option Int :=
  match t with
  | .scalar _ _ _ =>
    let within (n : Int) : Option Int := if low ≤ n ∧ n ≤ high then some n else none
    match t.meaning with
    | .int n => within n
    | .float x => x.truncate?.bind within
    | _ => none
  | _ => none

/-- The truth value of a scalar. Some words that are texts elsewhere are truth values here. -/
def bool? (t : Tree) : Option Bool :=
  match t with
  | .scalar _ _ text =>
    match t.meaning with
    | .bool b => some b
    | .text =>
      if [("y" : Text), "Y", "yes", "on"].contains text then some true
      else if [("n" : Text), "N", "no", "off"].contains text then some false
      else none
    | _ => none
  | _ => none

/-- The duration of a scalar. A number without a unit is none. -/
def duration? (t : Tree) : Option Int64 :=
  match t with
  | .scalar _ _ text => if t.meaning = .text then Duration.parse? text else none
  | _ => none

/-- Takes a text. -/
def takeText : Taker Text := takeBy "string" text?

/-- A number of 32 bits without sign. -/
def takeWord : Taker UInt32 :=
  takeBy "uint32" fun t => (number? 0 4294967295 t).map fun n => .ofNat n.toNat

/-- Takes an integer. -/
def takeInt : Taker Int64 :=
  takeBy "int" fun t => (number? (-9223372036854775808) 9223372036854775807 t).map Int64.ofInt

/-- Takes a Boolean. -/
def takeBool : Taker Bool := takeBy "bool" bool?

/-- Takes a duration. -/
def takeDuration : Taker Int64 := takeBy "time.Duration" duration?

/-- A list of texts, or none. Items left empty are left out. -/
def takeTexts? : Taker (Option (List Text)) := fun old t =>
  if t.isNull then ⟨none, []⟩
  else match t with
    | .list _ items =>
      let taken := (items.filter (!·.isNull)).map (takeText [])
      ⟨some ((items.filter (!·.isNull)).filterMap text?), taken.flatMap (·.wrong)⟩
    | _ => refuse old t "[]string"

/-- A list of texts; none is the empty one. -/
def takeTexts : Taker (List Text) := fun old t =>
  let taken := takeTexts? (some old) t
  ⟨taken.value.getD [], taken.wrong⟩

/-! ## Maps -/

/-- The messages for keys given more than once. -/
def repeated : List (Tree × Tree) → List Text
  | [] => []
  | (key, _) :: rest =>
    let again := rest.filter fun e => (text? e.1).isSome && text? e.1 == text? key
    again.map (fun e => "line " ++ Text.ofNat e.1.line ++ ": mapping key " ++ e.1.spelling.quoted
      ++ " already defined at line " ++ Text.ofNat key.line) ++ repeated rest

/-- An entry of texts. -/
def textEntry? (e : Tree × Tree) : Option (Text × Text) := do
  let key ← text? e.1
  let value ← if e.2.isNull then some [] else text? e.2
  return (key, value)

/-- A map of texts. A key left empty is left out; a value left empty is the empty text. -/
def takeTextMap : Taker (List (Text × Text)) := fun old t =>
  if t.isNull then ⟨[], []⟩
  else match t with
    | .map _ entries =>
      if !(repeated entries).isEmpty then ⟨old, repeated entries⟩
      else
        let kept := entries.filter fun e => !e.1.isNull
        let wrong := kept.flatMap fun e => (takeText [] e.1).wrong ++ (takeText [] e.2).wrong
        ⟨kept.filterMap textEntry?, wrong⟩
    | _ => refuse old t "map[string]string"

/-- A key of a section, and how its value is read over the section. -/
structure Key (σ : Type) where
  name : Text
  take : Taker σ

/-- A key for one part of a section. -/
def Key.on {σ α : Type} (name : Text) (take : Taker α) (get : σ → α) (set : σ → α → σ) : Key σ :=
  ⟨name, fun old t =>
    let taken := take (get old) t
    ⟨set old taken.value, taken.wrong⟩⟩

/-- Takes the entry of a section. -/
def takeEntry {σ : Type} (type : Text) (keys : List (Key σ)) (old : Taken σ) (e : Tree × Tree) : Taken σ :=
  if e.1.isNull then old
  else match text? e.1 with
    | none => ⟨old.value, old.wrong ++ [mismatch e.1 "string"]⟩
    | some name =>
      match keys.find? fun k => k.name == name with
      | some k =>
        let taken := k.take old.value e.2
        ⟨taken.value, old.wrong ++ taken.wrong⟩
      | none =>
        ⟨old.value, old.wrong ++ ["line " ++ Text.ofNat e.1.line ++ ": field " ++ name
          ++ " not found in type " ++ type]⟩

/-- Takes the entries of a section. -/
def takeSection {σ : Type} (type : Text) (keys : List (Key σ)) : Taker σ := fun old t =>
  if t.isNull then ⟨old, []⟩
  else match t with
    | .map _ entries =>
      if !(repeated entries).isEmpty then ⟨old, repeated entries⟩
      else entries.foldl (takeEntry type keys) ⟨old, []⟩
    | _ => refuse old t type

/-! ## Sections -/

/-- Takes the section on modules. -/
def takeModule : Taker ModuleSection := takeSection "config.Module"
  [.on "sources" takeTexts (·.sources) fun s v => { s with sources := v },
    .on "memory_limit_pages" takeWord (·.memoryLimitPages) fun s v => { s with memoryLimitPages := v },
    .on "arena_base" takeWord (·.arenaBase) fun s v => { s with arenaBase := v }]

/-- Takes the section on the host. -/
def takeHost : Taker HostSection := takeSection "config.WASI"
  [.on "env" takeTextMap (·.env) fun s v => { s with env := v },
    .on "args" takeTexts (·.args) fun s v => { s with args := v },
    .on "preopens" takeTexts (·.preopens) fun s v => { s with preopens := v }]

/-- Takes the section on parsing. -/
def takeParser : Taker ParserOptions := takeSection "config.Parser"
  [.on "warmup_source" takeText (·.warmupSource) fun s v => { s with warmupSource := v },
    .on "skip_warmup" takeBool (·.skipWarmup) fun s v => { s with skipWarmup := v },
    .on "keep_comments" takeBool (·.keepComments) fun s v => { s with keepComments := v }]

/-- The part of the section on code that names the functions of the host. -/
def takeIntrinsics : Taker CodeSection := takeSection "config.Intrinsics"
  [.on "print" takeText (·.print) fun s v => { s with print := v },
    .on "timer" takeText (·.timer) fun s v => { s with timer := v },
    .on "lookup" takeText (·.lookup) fun s v => { s with lookup := v }]

/-- Takes the section on code. -/
def takeCode : Taker CodeSection := takeSection "config.Codegen"
  [.on "base_types" takeTexts? (·.baseTypes) fun s v => { s with baseTypes := v },
    .on "indent" takeText (·.indent) fun s v => { s with indent := v },
    ⟨"intrinsics", takeIntrinsics⟩]

/-- Takes the section on running. -/
def takeRuntime : Taker RuntimeSection := takeSection "config.Runtime"
  [.on "timeout" takeDuration (·.timeout) fun s v => { s with timeout := v },
    .on "max_timer_runs" takeInt (·.maxTimerRuns) fun s v => { s with maxTimerRuns := v },
    .on "isolate" takeBool (·.isolate) fun s v => { s with isolate := v }]

/-- Takes the section on the log. -/
def takeLog : Taker LogSection := takeSection "config.Log"
  [.on "level" takeText (·.level) fun s v => { s with level := v },
    .on "encoding" takeText (·.encoding) fun s v => { s with encoding := v },
    .on "development" takeBool (·.development) fun s v => { s with development := v }]

/-- Takes all the sections. -/
def takeSettings : Taker Settings := takeSection "config.Config"
  [.on "module" takeModule (·.module) fun s v => { s with module := v },
    .on "wasi" takeHost (·.host) fun s v => { s with host := v },
    .on "parser" takeParser (·.parser) fun s v => { s with parser := v },
    .on "codegen" takeCode (·.code) fun s v => { s with code := v },
    .on "runtime" takeRuntime (·.runtime) fun s v => { s with runtime := v },
    .on "log" takeLog (·.log) fun s v => { s with log := v }]

/-! ## Documents -/

/-- Why settings are refused. -/
inductive Refusal where
  /-- The text is no document, or its values do not fit. -/
  | unreadable (message : Text)
  /-- The settings are not valid. -/
  | invalid (fault : Fault)

/-- The refusal as a fault. -/
def Refusal.fault : Refusal → Fault
  | .unreadable message => .plain message
  | .invalid fault => fault

/-- The mismatches in words. -/
def wrongText (wrong : List Text) : Text :=
  "yaml: unmarshal errors:\n  " ++ Text.join "\n  " wrong

/-- The settings of a document, over the usual ones. -/
def read (get : Text → Reply) (document : Text) : Except Refusal Settings :=
  match Yaml.read document with
  | .error fault => .error (.unreadable fault.message)
  | .ok tree =>
    let taken := match tree with
      | some t => takeSettings default t
      | none => ⟨default, []⟩
    if !taken.wrong.isEmpty then .error (.unreadable (wrongText taken.wrong))
    else match taken.value.problem? get with
      | some fault => .error (.invalid fault)
      | none => .ok taken.value

end Transpiler.Settings
