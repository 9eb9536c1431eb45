import Mathlib.Tactic.Common
import Transpiler.Proofs.Decoding.FirstSuccess
import Transpiler.Proofs.Guest.Balance
import Transpiler.Proofs.Wire.Safety
import Transpiler.Session.Parser

/-!
# A parser never loses the program

Between a source and its tree stand an instance that may not be there, a guest that may fail in the middle, and three
decoders of which one is not ours. Whatever they do, a parse gives a tree with a body and says, in its tier and its
warnings, how it came by it. Only with a guest that owes a word nothing comes back. The two ways down to the reading
of lines, inside the chain of decoders and past it, give the same body. What a parser counts is checked against its
results over whole histories. The main result is `History.parse_degrades`.
-/

namespace Transpiler

open List Chain Transpiler.Parser
open Guest (Instance Answer Serialized)

variable {γ : Type}

/-! ## Histories -/

/-- Something that is asked of a parser. A parse comes with the decoder that is registered at the time. -/
inductive History.Request where
  | start
  | parse (decoder : Option Strategy) (source : Text)
  | close

/-- Whether a parse is asked for. -/
def History.Request.isParse : History.Request → Bool
  | .parse .. => true
  | .start | .close => false

/-- A parser at work. -/
structure History (γ : Type) where
  loader : Loader γ
  parser : Parser γ
  /-- The results of all parses, the latest last. -/
  results : List Parsed

namespace History

/-- A parser that nothing was asked of. -/
def new (l : Loader γ) : History γ := ⟨l, .new, []⟩

/-- Does what is asked for. -/
def step (o : ParserOptions) (h : History γ) : Request → History γ
  | .start => ⟨(h.parser.start o h.loader).2.1, (h.parser.start o h.loader).2.2, h.results⟩
  | .parse decoder source =>
    ⟨h.loader, (h.parser.parse o decoder source).2, h.results ++ [(h.parser.parse o decoder source).1]⟩
  | .close => ⟨h.loader, h.parser.close, h.results⟩

/-- Does several things one after the other. -/
def after (o : ParserOptions) (l : Loader γ) (requests : List Request) : History γ :=
  requests.foldl (step o) (new l)

end History

/-- All instances that a loader brings have guests that give the words they owe. -/
def Loader.GivesWords (l : Loader γ) : Prop :=
  ∀ outcome n i, l.outcomes = some outcome → outcome n = .ok i → i.guest.GivesWords

/-! ## What a parse says of itself -/

namespace Parser

/-- The guest of the parser's instance, if there is one, gives the words it owes. -/
def GivesWords (p : Parser γ) : Prop := ∀ i, p.owned = some i → i.guest.GivesWords

/-- What the parser hears from its instance about a source. Without one it is told so. -/
def heard (p : Parser γ) (source : Text) : Answer :=
  match p.owned with
  | none => ⟨none, some (.notInitialized .parse "parser")⟩
  | some i => (i.serialize source).1

/-- The warning about the guest's exit, if it exited with a code other than zero. -/
def exitWarnings (a : Answer) : List Diagnostic :=
  match a.status with
  | some ⟨_, some code⟩ =>
    if code = 0 then [] else [.warning ("parser exited with code " ++ Text.ofNat code.toNat)]
  | _ => []

/-- The tree that a parser gives for a source, by what the parser hears and the decoders make of it. -/
structure Gives (o : ParserOptions) (decoder : Option Strategy) (source : Text) (p : Parser γ)
    (tree : Parsed) : Prop where
  /-- There is always a body. -/
  rooted : ∃ root body, tree.root = some root ∧ root.body = some body
  /-- The tier tells whether an instance has answered. -/
  fallback_iff : tree.tier = .fallback ↔
    p.owned = none ∨ ∃ i fault, p.owned = some i ∧ (i.serialize source).1.fault = some fault
  /-- Both ways down end at the same body. -/
  body_eq : tree.tier = .fallback ∨ tree.tier = .heuristic → tree.body = reconstruct source
  /-- Without an answer the only other warning is why there is none. -/
  warnings_of_fault : ∀ fault, (p.heard source).fault = some fault →
    tree.diagnostics.warnings = exitWarnings (p.heard source) ++ [.warning ("parse failed: " ++ fault.message)]
  /-- With an answer, the decoders that failed come before the one that did not. -/
  warnings_of_answer : (p.heard source).fault = none →
    ∃ status before s after own, (p.heard source).status = some status ∧
      (usual decoder o.keepComments).strategies = before ++ s :: after ∧
      (∀ t ∈ before, ¬ (t.run status.bytes source).Succeeds) ∧
      s.run status.bytes source = .result own ∧ own.success ∧ tree.tier = own.tier ∧
      tree.diagnostics.warnings = exitWarnings (p.heard source) ++
        (tierWarnings status.bytes source before ++ own.diagnostics.warnings)

end Parser

/-! ## One parse -/

variable {source : Text}

lemma Guest.Answer.exists_status {a : Answer} (h : a.broken = false) (hfault : a.fault = none) :
    ∃ status, a.status = some status := by
  obtain ⟨_ | status, fault⟩ := a
  · obtain rfl : fault = none := hfault
    cases h
  · exact ⟨status, rfl⟩

/-- What the first strategy to succeed makes of an answer. -/
lemma Chain.exists_decode_usual (decoder : Option Strategy) (keepComments : Bool) (data source : Text) :
    ∃ before s after own root, (usual decoder keepComments).strategies = before ++ s :: after ∧
      (∀ t ∈ before, ¬ (t.run data source).Succeeds) ∧ s.run data source = .result own ∧
      own.success ∧ own.root = some root ∧
      (usual decoder keepComments).decode data source = .ok { own with
        root := some { root with body := some (root.body.getD []) }
        source := if own.source = [] then source else own.source
        diagnostics :=
          ⟨own.diagnostics.errors, tierWarnings data source before ++ own.diagnostics.warnings⟩ } := by
  rcases exists_first_or_all_fail data source (usual decoder keepComments).strategies with
    ⟨before, s, after, hsplit, hbefore, own, root, hrun, hsuccess, hroot⟩ | hall
  · refine ⟨before, s, after, own, root, hsplit, hbefore, hrun, hsuccess, hroot, ?_⟩
    rw [decode_eq_fst, hsplit, run_of_success hbefore hrun hsuccess hroot]
  · -- the reading of lines is among the usual strategies
    exact absurd (heuristic_succeeds data source) (hall .heuristic (by simp [usual]))

variable {decoder : Option Strategy}

/-- A usual strategy marks its results with its own tier. -/
lemma Chain.tier_of_usual {keepComments : Bool} {s : Strategy}
    (hs : s ∈ (usual decoder keepComments).strategies) {data source : Text} {own : Parsed}
    (h : s.run data source = .result own) :
    own.tier = .external ∨ own.tier = .binary ∨ own = .ofLines source := by
  simp only [usual, mem_cons, not_mem_nil, or_false] at hs
  rcases hs with rfl | rfl | rfl
  · left
    simp only [Strategy.registered] at h
    split at h
    · cases h
    · split at h
      · cases h
        rfl
      · rename_i hother
        exact absurd h (hother own)
  · right; left
    simp only [Strategy.binary] at h
    cases hdoc : Wire.Document.decode data with
    | error fault =>
      rw [hdoc] at h
      cases h
    | ok doc =>
      simp only [hdoc, Wire.Document.lowered_of_decode hdoc] at h
      cases h
      rfl
  · right; right
    cases h
    rfl

namespace Parser

/-- A warning in front changes nothing but the warnings. -/
lemma exitMessage?_eq (tree : Parsed) (a : Answer) :
    (match exitMessage? a with
      | some message => tree.warnFirst message
      | none => tree) =
      { tree with diagnostics :=
        ⟨tree.diagnostics.errors, exitWarnings a ++ tree.diagnostics.warnings⟩ } := by
  obtain ⟨status, fault⟩ := a
  rcases status with _ | ⟨bytes, _ | code⟩
  · rfl
  · rfl
  · by_cases hcode : code = 0
    · simp [exitMessage?, exitWarnings, hcode]
    · simp [exitMessage?, exitWarnings, hcode, Parsed.warnFirst, exitWarning]

lemma broken_heard {p : Parser γ} (h : p.GivesWords) (source : Text) : (p.heard source).broken = false := by
  obtain ⟨owned, snapshot⟩ := p
  cases owned with
  | none => rfl
  | some i =>
    obtain ⟨_, _, _, _, hbroken⟩ := i.serialize_leaves source []
    exact Bool.eq_false_iff.mpr fun hbreak => hbroken hbreak (h i rfl)

/-- A parse of which something comes back. -/
lemma parse_some (o : ParserOptions) (decoder : Option Strategy) {source : Text} {i : Instance γ} {snapshot : Snapshot}
    (h : (i.serialize source).1.broken = false) :
    (⟨some i, snapshot⟩ : Parser γ).parse o decoder source =
      let tree := match exitMessage? (i.serialize source).1 with
        | some message => (treeOf o decoder source (answerBytes (i.serialize source).1)).warnFirst message
        | none => treeOf o decoder source (answerBytes (i.serialize source).1)
      (tree, ⟨some (i.serialize source).2, record snapshot tree (some (i.serialize source).2.stats)⟩) := by
  have hnot : ¬ (i.serialize source).1.broken := by simp [h]
  exact if_neg hnot

/-- The tree of a parse is that of what is heard, with the exit told first. -/
lemma parse_fst (o : ParserOptions) (decoder : Option Strategy) {source : Text} {p : Parser γ}
    (h : (p.heard source).broken = false) :
    (p.parse o decoder source).1 = { treeOf o decoder source (answerBytes (p.heard source)) with diagnostics :=
        ⟨(treeOf o decoder source (answerBytes (p.heard source))).diagnostics.errors,
          exitWarnings (p.heard source) ++
            (treeOf o decoder source (answerBytes (p.heard source))).diagnostics.warnings⟩ } := by
  obtain ⟨owned, snapshot⟩ := p
  cases owned with
  | none => rfl
  | some i =>
    rw [parse_some o decoder h]
    exact exitMessage?_eq _ _

/-- Something is wrong with what is heard exactly if no instance is there or its answer is a failure. -/
lemma heard_fault_iff (p : Parser γ) (source : Text) :
    (∃ fault, (p.heard source).fault = some fault) ↔
      p.owned = none ∨ ∃ i fault, p.owned = some i ∧ (i.serialize source).1.fault = some fault := by
  obtain ⟨owned, snapshot⟩ := p
  cases owned with
  | none => simp [heard]
  | some i => simp [heard]

/-- A failure leads past the chain, straight to the reading of lines. -/
lemma gives_of_fault {o : ParserOptions} {p : Parser γ}
    {fault : Fault} (h : (p.heard source).fault = some fault) :
    p.Gives o decoder source (p.parse o decoder source).1 := by
  have hbytes : answerBytes (p.heard source) = .error fault := by simp [answerBytes, h]
  have hsound : (p.heard source).broken = false := by simp [Guest.Answer.broken, h]
  have htree : (p.parse o decoder source).1 = { Parsed.fallback source with diagnostics :=
      ⟨[], exitWarnings (p.heard source) ++ [.warning ("parse failed: " ++ fault.message)]⟩ } := by
    rw [parse_fst o decoder hsound, hbytes]
    rfl
  rw [htree]
  exact {
    rooted := ⟨_, _, rfl, rfl⟩
    fallback_iff := iff_of_true rfl ((heard_fault_iff p source).1 ⟨fault, h⟩)
    body_eq := fun _ => rfl
    warnings_of_fault := fun fault' h' => by
      obtain rfl := Option.some.inj (h.symm.trans h')
      rfl
    warnings_of_answer := fun h' => by
      rw [h] at h'
      cases h' }

/-- An answer goes through the chain, which always has a result. -/
lemma gives_of_answer {o : ParserOptions} {p : Parser γ} (hsound : (p.heard source).broken = false)
    (h : (p.heard source).fault = none) : p.Gives o decoder source (p.parse o decoder source).1 := by
  obtain ⟨status, hstatus⟩ := Guest.Answer.exists_status hsound h
  obtain ⟨before, s, after, own, root, hsplit, hbefore, hrun, hsuccess, hroot, hdecode⟩ :=
    exists_decode_usual decoder o.keepComments status.bytes source
  have hbytes : answerBytes (p.heard source) = .ok status.bytes := by simp [answerBytes, h, hstatus]
  have hmem : s ∈ (usual decoder o.keepComments).strategies := by
    rw [hsplit]
    exact mem_append_right before mem_cons_self
  have htier := tier_of_usual hmem hrun
  have hheard : ¬ (p.owned = none ∨ ∃ i fault, p.owned = some i ∧ (i.serialize source).1.fault = some fault) := by
    rw [← heard_fault_iff, h]
    simp
  rw [parse_fst o decoder hsound, hbytes]
  simp only [treeOf, hdecode]
  exact {
    rooted := ⟨_, _, rfl, rfl⟩
    fallback_iff := by
      refine iff_of_false ?_ hheard
      intro hfallback
      rcases htier with htier | htier | rfl
      · exact absurd (htier.symm.trans hfallback) (by decide)
      · exact absurd (htier.symm.trans hfallback) (by decide)
      · have hsame : Tier.heuristic = Tier.fallback := hfallback
        exact absurd hsame (by decide)
    body_eq := by
      intro hlow
      rcases htier with htier | htier | rfl
      · exact absurd (htier ▸ hlow) (by decide)
      · exact absurd (htier ▸ hlow) (by decide)
      · cases hroot
        rfl
    warnings_of_fault := fun fault hfault => by
      rw [h] at hfault
      cases hfault
    warnings_of_answer := fun _ =>
      ⟨status, before, s, after, own, hstatus, hsplit, hbefore, hrun, hsuccess, rfl, rfl⟩ }

lemma gives_parse {p : Parser γ} (h : p.GivesWords) (o : ParserOptions) (decoder : Option Strategy) (source : Text) :
    p.Gives o decoder source (p.parse o decoder source).1 := by
  cases hfault : (p.heard source).fault with
  | none => exact gives_of_answer (broken_heard h source) hfault
  | some fault => exact gives_of_fault hfault

/-- A parse is counted, and so are its warnings. -/
lemma snapshot_parse {p : Parser γ} (h : p.GivesWords) (o : ParserOptions) (decoder : Option Strategy)
    (source : Text) :
    (p.parse o decoder source).2.snapshot.parses = p.snapshot.parses + 1 ∧
      (p.parse o decoder source).2.snapshot.warnings =
        p.snapshot.warnings + (p.parse o decoder source).1.diagnostics.warnings.length := by
  have hsound := broken_heard h source
  obtain ⟨owned, snapshot⟩ := p
  cases owned with
  | none => exact ⟨rfl, rfl⟩
  | some i =>
    rw [parse_some o decoder hsound]
    exact ⟨rfl, rfl⟩

/-- A parse keeps the guest. -/
lemma GivesWords.parse {p : Parser γ} (h : p.GivesWords) (o : ParserOptions) (decoder : Option Strategy)
    (source : Text) : (p.parse o decoder source).2.GivesWords := by
  have hsound := broken_heard h source
  obtain ⟨owned, snapshot⟩ := p
  cases owned with
  | none => exact h
  | some i =>
    rw [parse_some o decoder hsound]
    rintro _ ⟨⟩
    rw [(i.serialize_later source).guest]
    exact h i rfl

/-- Loading counts no parse, not even the one that warms the instance up. -/
lemma snapshot_start (o : ParserOptions) (l : Loader γ) (p : Parser γ) :
    (p.start o l).2.2.snapshot.parses = p.snapshot.parses ∧
      (p.start o l).2.2.snapshot.warnings = p.snapshot.warnings := by
  rw [start]
  split
  · exact ⟨rfl, rfl⟩
  · split <;> exact ⟨rfl, rfl⟩

/-- What is loaded comes from the loader, and warming it up keeps the guest. -/
lemma GivesWords.start {p : Parser γ} (h : p.GivesWords) {l : Loader γ} (hl : l.GivesWords) (o : ParserOptions) :
    (p.start o l).2.2.GivesWords ∧ (p.start o l).2.1.GivesWords := by
  obtain ⟨owned, snapshot⟩ := p
  obtain ⟨_ | outcome, calls⟩ := l
  · cases owned <;> exact ⟨h, hl⟩
  cases owned with
  | some i => exact ⟨h, hl⟩
  | none =>
    cases hout : outcome calls with
    | error fault =>
      simp only [Parser.start, Loader.load, hout, Except.map]
      exact ⟨h, hl⟩
    | ok i =>
      simp only [Parser.start, Loader.load, hout, Except.map]
      refine ⟨?_, hl⟩
      rintro _ ⟨⟩
      rw [warmUp]
      split
      · exact hl outcome calls i rfl hout
      · rw [(Instance.serialize_later _ _).guest]
        exact hl outcome calls i rfl hout

lemma snapshot_close (p : Parser γ) : p.close.snapshot.parses = p.snapshot.parses ∧
    p.close.snapshot.warnings = p.snapshot.warnings := by
  rw [close]
  split <;> exact ⟨rfl, rfl⟩

end Parser

/-! ## Whole histories -/

namespace History

/-- The parser's counters agree with the results it has given, and no guest owes a word. -/
structure Counted (h : History γ) : Prop where
  parses : h.parser.snapshot.parses = h.results.length
  warnings : h.parser.snapshot.warnings = (h.results.flatMap (·.diagnostics.warnings)).length
  loader : h.loader.GivesWords
  parser : h.parser.GivesWords

lemma Counted.step {h : History γ} (hc : h.Counted) (o : ParserOptions) (r : Request) : (h.step o r).Counted := by
  cases r with
  | start =>
    obtain ⟨hparses, hwarnings⟩ := snapshot_start o h.loader h.parser
    obtain ⟨hparser, hloader⟩ := hc.parser.start hc.loader o
    exact ⟨hparses.trans hc.parses, hwarnings.trans hc.warnings, hloader, hparser⟩
  | parse decoder source =>
    obtain ⟨hparses, hwarnings⟩ := snapshot_parse hc.parser o decoder source
    refine ⟨?_, ?_, hc.loader, hc.parser.parse o decoder source⟩
    · rw [History.step, hparses, hc.parses, length_append, length_singleton]
    · rw [History.step, hwarnings, hc.warnings, flatMap_append, length_append, flatMap_singleton]
  | close =>
    obtain ⟨hparses, hwarnings⟩ := snapshot_close h.parser
    refine ⟨hparses.trans hc.parses, hwarnings.trans hc.warnings, hc.loader, fun i hi => ?_⟩
    rw [History.step, close] at hi
    split at hi
    · exact hc.parser i hi
    · cases hi

/-- Requests keep the counters right, and add one result for each parse. -/
lemma Counted.foldl {h : History γ} (hc : h.Counted) (o : ParserOptions) (requests : List Request) :
    (requests.foldl (.step o) h).Counted ∧
      (requests.foldl (History.step o) h).results.length = h.results.length + requests.countP Request.isParse := by
  induction requests generalizing h with
  | nil => exact ⟨hc, rfl⟩
  | cons r rest ih =>
    obtain ⟨hcounted, hlength⟩ := ih (hc.step o r)
    refine ⟨hcounted, ?_⟩
    rw [foldl_cons, hlength]
    cases r with
    | start => rfl
    | parse decoder source =>
      rw [countP_cons_of_pos (by rfl), History.step, length_append, length_singleton]
      omega
    | close => rfl

/-- **A parse never loses the program.** Whatever was asked of a parser before, and whatever its loader, its instances
and the registered decoder do, as long as no guest owes a word, a parse gives a tree with a body, says by its tier
whether an instance has answered, falls back to the same reading of lines on both ways, and has the warnings that
its way down calls for. The counters are the number of parses so far and of all their warnings. -/
theorem parse_degrades (o : ParserOptions) (l : Loader γ) (hl : l.GivesWords) (requests : List Request) :
    (∀ decoder source, (after o l requests).parser.Gives o decoder source
      ((after o l requests).parser.parse o decoder source).1) ∧
    (after o l requests).results.length = requests.countP Request.isParse ∧
    (after o l requests).parser.snapshot.parses = requests.countP Request.isParse ∧
    (after o l requests).parser.snapshot.warnings =
      ((after o l requests).results.flatMap (·.diagnostics.warnings)).length := by
  have hnew : (new l).Counted := ⟨rfl, rfl, hl, fun i hi => by cases hi⟩
  obtain ⟨hcounted, hlength⟩ := hnew.foldl o requests
  have hresults : (after o l requests).results.length = requests.countP Request.isParse :=
    hlength.trans (Nat.zero_add _)
  exact ⟨fun decoder source => gives_parse hcounted.parser o decoder source, hresults,
    hcounted.parses.trans hresults, hcounted.warnings⟩

/-- A loader that always brings the same guest, which exits from every parse. -/
def exitingLoader : Loader UInt64 := ⟨some fun _ => .ok (.buffered [1]), 0⟩

/-- The guest is there and its exit is told, and still there is a tree. -/
theorem parse_degrades_exiting :
    exitingLoader.GivesWords ∧
      (after .default exitingLoader [.start]).parser.owned.isSome ∧
      (exitWarnings ((after .default exitingLoader [.start]).parser.heard "a")).length = 1 ∧
      ∃ root body, ((after .default exitingLoader [.start]).parser.parse .default none "a").1.root = some root ∧
        root.body = some body := by
  have hl : exitingLoader.GivesWords := by
    rintro _ n _ ⟨⟩ ⟨⟩
    exact Instance.givesWords_buffered
  exact ⟨hl, rfl, by decide +kernel, ((parse_degrades .default exitingLoader hl [.start]).1 none "a").rooted⟩

end History

end Transpiler
