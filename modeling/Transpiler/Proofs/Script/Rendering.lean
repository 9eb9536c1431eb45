import Transpiler.Proofs.Script.SideBySide

/-!
# What the generator does with a program

One walk over the nodes, with the generator and the writer side by side, gives all that is known of the code of a
program: the survey counts right (`unsupported_script`), the script is emitted by the rules (`script_emits`), and the
code written in one pass is the code printed from the tree (`compile_write`). Rendering an expression leaves the draft
as it was, apart from the count of comments (`rendering_changes_nothing`).
-/

namespace Transpiler.Script

open Survey List Stmt

section Generator

variable (o : Options) {clean : Prop} {lost : Text → Prop}

/-! ## All nodes -/

mutual

/-- The expression of a node: its text, its comments, and what it does with names in blocks. -/
lemma renders_expr {names : List Text} (d : Draft) (n : Node) (hn : Within o clean lost names [n]) :
    RendersNode o clean lost names d n := by
  match n with
  | .absent | .string .. | .symbol .. | .integer .. | .float .. | .boolean .. | .nil _ | .self _ =>
    exact .pure rfl (.silent .nil)
  | .var _ name scope =>
    exact .pure (text_variableExpr o.indent d.depth name scope) (by simpa [survey] using Told.silent .nil)
  | .array _ elements =>
    have helements := renders_elementEntries { d with depth := d.depth + 1 } elements (hn.children (by simp))
    exact helements.literal (fails_surveyElements o elements) (fun es hes => hes) fun es => rfl
  | .hash _ pairs =>
    have hpairs := renders_pairEntries { d with depth := d.depth + 1 } pairs (hn.children (by simp))
    exact hpairs.literal (fails_surveyPairs o pairs) (fun es hes => hes) fun es => rfl
  | .block _ params body =>
    exact rendersExpr_arrow o params (fun d => lays_statements d body true true (hn.covers.body rfl))
      (names_assignedInBody true body ▸ hn.names _ (mem_singleton_self _))
  | .cond _ condition negated [consequence] [] =>
    have hin := hn.children (by simp)
    refine (renders_expr d condition (hin.sub (by simp [Node.children]))).bind fun c hc =>
      (renders_expr d consequence (hin.sub (by simp [Node.children]))).map
        (fun t ht => hc.next ht (by simp [Expr.remarks]) fun hc ht => ?_) fun t => ?_
    · simpa [Expr.events] using hc.append ht
    · rw [← text_grouped, ← text_conditionOf]
      rfl
  | .cond _ condition negated [consequence] [alternative] =>
    have hin := hn.children (by simp)
    refine (renders_expr d condition (hin.sub (by simp [Node.children]))).bind fun c hc =>
      (renders_expr d consequence (hin.sub (by simp [Node.children]))).bind fun t ht =>
      (renders_expr d alternative (hin.sub (by simp [Node.children]))).map (fun e he => ?_) fun e => ?_
    · refine hc.next (ht.next he (length_append ..) Values.append) (by simp [Expr.remarks]) fun hc hte => ?_
      simpa [Expr.events] using hc.append hte
    · rw [← text_grouped, ← text_grouped, ← text_conditionOf]
      rfl
  | .cond _ _ _ [] _ | .cond _ _ _ (_ :: _ :: _) _ | .cond _ _ _ [_] (_ :: _ :: _) => exact .refuse _
  | .program _ [only] => exact renders_expr d only (hn.children (by simp))
  | .program _ [] | .program _ (_ :: _ :: _) => exact .refuse _
  | .call span receiver name arguments blk =>
    have hin := hn.children (by simp)
    have harguments := renders_exprs d arguments (hin.sub (by simp [Node.children]))
    have hargument := renders_argument d arguments (hin.sub (by simp [Node.children]))
    have hblk := renders_blockArgument d blk (hin.sub (by simp [Node.children]))
    have hreceiver := renders_expr d receiver (hin.sub (by simp [Node.children]))
    -- the two kinds of call have equations of their own
    cases habsent : receiver.isAbsent with
    | true =>
      rw [Node.eq_absent_of_isAbsent habsent]
      exact renders_call_absent o span name harguments (fun a h => hargument a [] h) hblk
    | false => exact renders_call o span habsent name hreceiver harguments hargument (hblk true)
  | .assignment .. | .loop .. | .method .. | .ret .. | .comment .. | .unknown .. => exact .refuse _

lemma renders_blockArgument {names : List Text} (d : Draft) (n : Node) (hn : Within o clean lost names [n])
    (yields : Bool) : RendersBlock o clean lost names d n yields := by
  match n with
  | .block _ params body =>
    have harrow := rendersExpr_arrow (d := d) o params
      (fun d => lays_statements d body true yields (hn.covers.body rfl))
      (names_assignedInBody true body ▸ hn.names _ (mem_singleton_self _))
    refine harrow.map (fun f hf => ⟨Nat.le_refl 1, ?_⟩) fun f => rfl
    simpa [surveyBlock, Expr.allRemarks, Expr.allEvents] using hf
  | .absent | .program .. | .assignment .. | .call .. | .var .. | .self .. | .string .. | .integer ..
  | .float .. | .boolean .. | .nil .. | .symbol .. | .array .. | .hash .. | .cond .. | .loop ..
  | .method .. | .ret .. | .comment .. | .unknown .. => exact .pure rfl ⟨Nat.zero_le 1, .silent .nil⟩

lemma renders_argument {names : List Text} (d : Draft) (ns : List Node) (hns : Within o clean lost names ns)
    (a : Node) (rest : List Node) (h : ns = a :: rest) : RendersNode o clean lost names d a := by
  match ns with
  | [] => cases h
  | n :: rest' =>
    have hn := renders_expr d n (hns.sub (by simp))
    obtain ⟨rfl, rfl⟩ := List.cons.inj h
    exact hn

lemma renders_exprs {names : List Text} (d : Draft) (ns : List Node) (hns : Within o clean lost names ns) :
    RendersAll o clean lost names d ns := by
  match ns with
  | [] => exact .pure rfl (.silent .nil)
  | n :: rest =>
    exact (renders_expr d n (hns.sub (by simp))).bind fun e he => (renders_exprs d rest (hns.sub (by simp))).map
      (fun es hes => he.next hes (length_append ..) .append) fun es => rfl

lemma renders_elementEntries {names : List Text} (d : Draft) (ns : List Node) (hns : Within o clean lost names ns) :
    RendersEntries o clean lost names d (surveyElements o ns) (elementEntries o ns) (.elementTexts o ns) := by
  match ns with
  | [] => exact .pure rfl (.silent .nil)
  | n :: rest =>
    have hvalue : RendersEntry o clean lost names d (survey o n) (do return .value (← expr o n))
        (do return .code (← .expr o n)) :=
      (renders_expr d n (hns.sub (by simp))).map (fun e he => he) fun e => rfl
    exact (hvalue.entryOr).bind fun e he => (renders_elementEntries d rest (hns.sub (by simp))).map
      (fun es hes => he.next hes (length_append ..) .append) fun es => rfl

lemma renders_pairEntries {names : List Text} (d : Draft) (ps : List (Node × Node))
    (hps : Within o clean lost names (ps.flatMap fun p => [p.1, p.2])) :
    RendersEntries o clean lost names d (surveyPairs o ps) (pairEntries o ps) (.pairTexts o ps) := by
  match ps with
  | [] => exact .pure rfl (.silent .nil)
  | (key, value) :: rest =>
    have hpair := rendersEntry_pair o (renders_expr d key (hps.sub (by simp)))
      (renders_expr d value (hps.sub (by simp)))
    exact hpair.entryOr.bind fun e he => (renders_pairEntries d rest (hps.sub (by simp))).map
      (fun es hes => he.next hes (length_append ..) .append) fun es => rfl

/-- The statements of a node do with names what is listed for the node. -/
lemma lays_statement (d : Draft) (n : Node) (direct : Bool) {asExpr : Emit Expr} {w : Write Text}
    (h : RendersExpr o clean lost (assignedNames (assignedBelow false n)) d (survey o n) asExpr w) (yields : Bool)
    (hn : Covers o clean lost (bodiesOf direct [n])) :
    LaysNode o clean lost direct d (surveyStatement o n (survey o n)) (listed direct n) (statement o n asExpr yields)
      (.statement o n w yields) := by
  have hin : Covers o clean lost (bodiesOf false n.children) := hn.children
  match n with
  | .absent | .comment .. =>
    refine .pure ⟨rfl, rfl, .silent ?_⟩
    cases direct <;> exact .nil
  | .unknown _ tag _ =>
    refine .commented o tag ⟨rfl, (append_nil _).symm, .comment tag fun _ => ?_⟩
    cases direct <;> exact .nil
  | .program _ body =>
    -- the statements of a nested program are listed as in braces, wherever it stands
    refine .ends (lays_statements d body false yields hin) fun ss _ regions written hss => ⟨rfl, hss.1, hss.2.imp ?_⟩
    intro hproduces ahead
    rw [allListed_false] at hproduces
    cases direct <;> exact (hproduces ahead).directly
  | .assignment _ name scope operator value =>
    rw [surveyStatement, ← next_silent (survey o value)]
    refine .orRemark o (renders_expr d value (.of_covers hin (by simp [Node.children]))) (fun v hv => ?_)
      fun hc hfails => produces_comment_assignment hc hn hfails d.frames
    rw [next_silent, listed_assignment]
    exact .assign o name scope operator yields (direct_assignedBelow false value) hv
  | .cond span condition negated consequence alternative =>
    have hcondition := renders_condition o negated (renders_expr d condition (.of_covers hin (by simp [Node.children])))
    have hbody := fun d => lays_statements d consequence false yields (hin.sub (by simp [Node.children]))
    have hcovers : Covers o clean lost (bodiesOf false alternative) := hin.sub (by simp [Node.children])
    have hrest := fun d => lays_alternatives d alternative direct
      (fun d => lays_statements d alternative false yields hcovers) yields hcovers
    refine .orRemark o hcondition (fun c hc => .emit o ((Lays.deeper (hbody _)).bind fun ss _ regions written hss =>
      .closes o (hrest _) fun a _ regions' more ha => ⟨?_, ?_⟩))
      fun _ _ => .leave ?_
    · rw [allLines, allLines, lines, hss.1, ha.1]
      simp only [append_assoc, append_nil]
    · rw [listed_cond]
      refine hc.next (hss.2.next ha.2 (length_append ..) fun hss ha => hss.braces.seq ha) ?_ fun hc hrest => ?_
      · simp [allRemarks, remarks]
      · simpa [allEvents, events] using (Produces.value (direct_assignedBelow false condition) hc).seq hrest
    · cases direct <;> exact direct_assignedBelow false (.cond span condition negated consequence alternative)
  | .loop span condition negated body =>
    have hcondition := renders_condition o negated (renders_expr d condition (.of_covers hin (by simp [Node.children])))
    have hbody := fun d => lays_statements d body false false (hin.sub (by simp [Node.children]))
    refine .orRemark o hcondition (fun c hc => .emit o
      (.closes o (.deeper (hbody _)) fun ss _ regions written hss => ⟨?_, ?_⟩)) fun _ _ => .leave ?_
    · rw [allLines, allLines, lines, hss.1]
      simp only [append_assoc, append_nil]
    · rw [listed_loop]
      refine hc.next hss.2 (by simp [allRemarks, remarks]) fun hc hss => ?_
      simpa [allEvents, events] using (Produces.value (direct_assignedBelow false condition) hc).seq hss.braces
    · cases direct <;> exact direct_assignedBelow false (.loop span condition negated body)
  | .method _ name params body =>
    have hmethod := laysNode_function (d := d) o direct name params fun d =>
      lays_statements d body true true (hn.body rfl)
    cases direct <;> exact hmethod
  | .ret span value =>
    have hvalue := renders_expr d value (.of_covers hin (by simp [Node.children]))
    cases habsent : value.isAbsent with
    | true =>
      rw [Node.eq_absent_of_isAbsent habsent]
      refine ⟨rfl, ([.leave], .emitted), .emitted, d.regions, emitted o.indent d.depth "return;",
        ⟨rfl, (append_nil _).symm, .silent ?_⟩, rfl, fun _ => ⟨rfl, rfl⟩⟩
      cases direct <;> exact .nil
    | false =>
      rw [statement_ret o habsent, Write.statement_ret o habsent]
      have hreturn := laysNode_expression o direct (direct_assignedBelow false value) hvalue true
      cases direct <;> exact hreturn
  | .call .. | .block .. | .var .. | .self .. | .string .. | .integer .. | .float .. | .boolean ..
  | .nil .. | .symbol .. | .array .. | .hash .. =>
    have hstatement := laysNode_expression o direct (direct_assignedBelow false _) h yields
    cases direct <;> exact hstatement

lemma lays_statements (d : Draft) (ns : List Node) (direct yields : Bool)
    (hns : Covers o clean lost (bodiesOf direct ns)) :
    LaysBody o clean lost direct d (surveyBody o ns) (allListed direct ns) (statements o ns yields)
      (.statements o ns yields) := by
  match ns with
  | [] => exact .pure ⟨rfl, .silent .nil⟩
  | n :: rest =>
    have hn : Covers o clean lost (bodiesOf direct [n]) := hns.sub (by simp)
    have hfirst := lays_statement d n direct (renders_expr d n (.of_covers hn (by simp)))
      (yields && rest.all Node.isComment) hn
    refine hfirst.bind fun first _ regions written hfirst => (lays_statements _ rest direct yields
      (hns.sub (by simp))).map (first.1 ++ ·) fun ss _ regions' more hss => ⟨?_, ?_⟩
    · rw [hfirst.2.1, hss.1, allLines_append]
    · rw [allRemarks_append, allEvents_append, allListed, flatMap_cons]
      exact hfirst.2.2.next hss.2 (length_append ..) .seq

lemma lays_alternatives (d : Draft) (ns : List Node) (direct : Bool) {u : Survey} {ordinary : Emit (List Stmt)}
    {w : Write Unit} (h : ∀ d, LaysBody o clean lost false d u (allListed false ns) ordinary w) (yields : Bool)
    (hns : Covers o clean lost (bodiesOf false ns)) :
    LaysRest o clean lost direct d (surveyAlternatives o ns u) (allListed false ns) (alternatives o ns ordinary yields)
      (.alternatives o ns w yields) := by
  have hotherwise := laysRest_otherwise (d := d) o direct h
  match ns with
  | [] => exact .pure ⟨rfl, .silent .nil⟩
  | [.cond span condition negated consequence alternative] =>
    have hin := hns.children
    have hcondition := renders_condition o negated (renders_expr d condition (.of_covers hin (by simp [Node.children])))
    have hbody := fun d => lays_statements d consequence false yields (hin.sub (by simp [Node.children]))
    have hcovers : Covers o clean lost (bodiesOf false alternative) := hin.sub (by simp [Node.children])
    have hrest := fun d => lays_alternatives d alternative direct
      (fun d => lays_statements d alternative false yields hcovers) yields hcovers
    refine .attempt hcondition (fun c hc => .emit o ((Lays.deeper (hbody _)).bind fun ss _ regions written hss =>
      (hrest _).map (Alternative.elif c ss) fun a _ regions' more ha => ⟨?_, ?_⟩))
      fun _ hv _ => hotherwise.imp fun a _ regions written ha => ⟨ha.1, ?_⟩
    · rw [hss.1, ha.1, ← append_assoc]
      rfl
    · rw [allListed, flatMap_singleton, listed_cond, surveyAlternatives, orElse_of_not_fails hc.fails]
      refine hc.next (hss.2.next ha.2 (length_append ..) fun hss ha => hss.braces.seq ha) ?_ fun hc hrest => ?_
      · simp [Alternative.remarks]
      · simpa [Alternative.events] using (Produces.value (direct_assignedBelow false condition) hc).seq hrest
    · -- what the condition counted stays counted
      rw [surveyAlternatives, orElse_of_fails hv]
      exact (Told.dropped _).next ha.2 (Nat.zero_add _).symm fun _ h => h
  | n :: n' :: rest =>
    have hmany : alternatives o (n :: n' :: rest) ordinary yields = (do return .otherwise (← ordinary)) := by
      cases n <;> rfl
    have hmany' : .alternatives o (n :: n' :: rest) w yields
        = (Write.emit o "\x7d else \x7b" >>= fun _ => .deeper w) := by
      cases n <;> rfl
    have hsurvey : surveyAlternatives o (n :: n' :: rest) u = u := by
      cases n <;> rfl
    rw [hmany, hmany', hsurvey]
    exact hotherwise
  | [.absent] | [.program ..] | [.assignment ..] | [.call ..] | [.block ..] | [.var ..]
  | [.self ..] | [.string ..] | [.integer ..] | [.float ..] | [.boolean ..] | [.nil ..] | [.symbol ..]
  | [.array ..] | [.hash ..] | [.loop ..] | [.method ..] | [.ret ..] | [.comment ..] | [.unknown ..] =>
    exact hotherwise

end

/-! ## Programs -/

/-- The top-level nodes: the same lines and the same counts, and what is told of their statements. -/
lemma topLevel_eq (ns : List Node) (d : Draft) (hd : d.depth = 0) (hns : Covers o clean lost (bodiesOf true ns)) :
    ∃ ss n regions, ToldBody o clean lost true d (surveyBody o ns) (assignedInBody ns) ss regions
        (allLines o.indent 0 ss) ∧ ∀ count,
      topLevel o ns ⟨d.frames, count⟩ = .ok (ss, n) ⟨regions.map (·.frame), count + (surveyBody o ns).counted⟩
        ∧ Write.topLevel o ns (d.counted count) = .ok () { d with
            regions := regions
            lines := d.lines ++ allLines o.indent 0 ss
            statements := d.statements + n
            unsupported := count + (surveyBody o ns).counted } := by
  induction ns generalizing d with
  | nil =>
    refine ⟨[], 0, d.regions, ⟨hd ▸ rfl, .silent .nil⟩, fun count => ⟨rfl, ?_⟩⟩
    rw [allLines, append_nil]
    rfl
  | cons n rest ih =>
    have hn : Covers o clean lost (bodiesOf true [n]) := hns.sub (by simp)
    obtain ⟨hv, ⟨first, _⟩, outcome, regions, _, ⟨rfl, rfl, hfirst⟩, -, hrun⟩ :=
      lays_statement o d n true (renders_expr o d n (.of_covers hn (by simp))) false hn
    let one := if outcome == .emitted then 1 else 0
    obtain ⟨ss, k, regions', ⟨-, hss⟩, hrun'⟩ := ih { d with
      regions := regions
      lines := d.lines ++ allLines o.indent d.depth first
      statements := d.statements + one } hd (hns.sub (by simp))
    have hcounted : (surveyBody o (n :: rest)).counted
        = (surveyStatement o n (survey o n)).counted + (surveyBody o rest).counted := by
      rw [surveyBody, next_of_not_fails hv, counted_both]
    refine ⟨first ++ ss, k + one, regions', ⟨hd ▸ rfl, ?_⟩, fun count => ?_⟩
    · rw [allRemarks_append, allEvents_append, assignedInBody, flatMap_cons]
      exact hfirst.next hss (length_append ..) .seq
    · rw [hcounted, ← Nat.add_assoc]
      constructor
      · exact (bind_of_eq_ok (hrun count).1).trans (bind_of_eq_ok (hrun' _).1)
      · refine (bind_of_eq_ok (hrun count).2).trans ((hrun' _).2.trans ?_)
        rw [allLines_append, ← append_assoc, Nat.add_assoc, Nat.add_comm k, hd]

/-- The script of a program, and the code written for it. -/
lemma script_eq (clean : Prop) (lost : Text → Prop) (nodes : List Node)
    (hnodes : Covers o clean lost (bodiesOf true nodes)) : ∃ ss n frames,
    script o nodes = (hoistStatement (hoisted [] [] nodes) ++ ss, n, (surveyBody o nodes).counted)
      ∧ Told clean (surveyBody o nodes) (allRemarks ss)
        (Produces lost true (assignedInBody nodes) [.ofBody [] [] nodes] (allEvents ss) frames)
      ∧ Write.compile o nodes = compile o nodes := by
  obtain ⟨ss, n, regions, ⟨-, htold⟩, hrun⟩ := topLevel_eq o nodes
    ⟨[.ofBody [] [] nodes], allLines o.indent 0 (hoistStatement (hoisted [] [] nodes)), 0, 0, 0⟩ rfl hnodes
  have htree : topLevel o nodes ⟨[.ofBody [] [] nodes], 0⟩
      = .ok (ss, n) ⟨regions.map (·.frame), 0 + (surveyBody o nodes).counted⟩ := (hrun 0).1
  have hscript : script o nodes = (hoistStatement (hoisted [] [] nodes) ++ ss, n, (surveyBody o nodes).counted) := by
    rw [script, htree, Nat.zero_add]
  have hstart := Write.declareHoisted_eq o (d := ⟨[.ofBody [] [] nodes], [], 0, 0, 0⟩) rfl
  have hlines : Write.program o nodes ⟨[.ofBody [] [] nodes], [], 0, 0, 0⟩ = .ok () ⟨regions,
      allLines o.indent 0 (hoistStatement (hoisted [] [] nodes)) ++ allLines o.indent 0 ss, 0, 0 + n,
      0 + (surveyBody o nodes).counted⟩ := (bind_of_eq_ok hstart).trans (hrun 0).2
  refine ⟨ss, n, _, hscript, htold, ?_⟩
  rw [Write.compile, hlines, compile, hscript, Nat.zero_add, Nat.zero_add]
  exact congrArg (Output.mk · n (surveyBody o nodes).counted) (allLines_append o.indent 0 _ _).symm

/-- The code written in one pass is the code printed from the tree. -/
theorem compile_write (nodes : List Node) : Write.compile o nodes = compile o nodes := by
  obtain ⟨-, -, -, -, -, h⟩ := script_eq o True (fun _ => True) nodes (covers_true _)
  exact h

/-- The script of a program is emitted by the rules. What is listed directly is left out only if a comment
was made, and only where a body loses the name's declaration. -/
lemma script_emits (nodes : List Node) : ∃ es frames,
    allEvents (script o nodes).1 = hoistEvents (hoisted [] [] nodes) ++ es ∧
      Emits (fun x => (script o nodes).2.2 ≠ 0 ∧ LosesAnywhere o nodes x) true [.ofBody [] [] nodes]
        (assignedInBody nodes) es frames [] := by
  have hcovers : Covers o ((script o nodes).2.2 = 0)
      (fun x => (script o nodes).2.2 ≠ 0 ∧ LosesAnywhere o nodes x) (bodiesOf true nodes) :=
    fun hc body hbody x hx => ⟨hc, body, hbody, hx⟩
  obtain ⟨ss, n, frames, hscript, htold, -⟩ := script_eq o _ _ nodes hcovers
  refine ⟨allEvents ss, frames, ?_, ?_⟩
  · rw [hscript, allEvents_append, allEvents_hoistStatement]
  · have h := htold.names (fun hclean => by rwa [hscript] at hclean) []
    rwa [append_nil] at h

/-- The generator counts the comments of the script and those that are lost. -/
lemma unsupported_script (nodes : List Node) :
    (script o nodes).2.2 = (allRemarks (script o nodes).1).length + lostRemarks o nodes := by
  obtain ⟨ss, n, frames, hscript, htold, -⟩ := script_eq o True (fun _ => True) nodes (covers_true _)
  rw [hscript, allRemarks_append, allRemarks_hoistStatement, nil_append, htold.shown]
  rfl

/-! ## What rendering changes -/

/-- What can be rendered as text inside an expression or a statement. -/
inductive Rendering where
  | expr (n : Node)
  /-- An expression for use inside a larger one. -/
  | operand (n : Node)
  /-- A condition, negated if it has to be. -/
  | condition (n : Node) (negated : Bool)
  | call (span : Span) (receiver : Node) (name : Text) (arguments : List Node) (blk : Node)
  /-- A block as a function. -/
  | block (params : List Text) (body : List Node) (yields : Bool)

namespace Rendering

/-- Writes the text at once. -/
def write : Rendering → Write Text
  | .expr n => .expr o n
  | .operand n => do return Write.operandText n (← Write.expr o n)
  | .condition n negated => do return Write.conditionText n negated (← Write.expr o n)
  | .call span receiver name arguments blk => .expr o (.call span receiver name arguments blk)
  | .block params body yields => .arrow o params body (.statements o body yields)

/-- Builds the tree first. -/
def tree : Rendering → Emit Expr
  | .expr n => Script.expr o n
  | .operand n => do return grouped n (← Script.expr o n)
  | .condition n negated => do return conditionOf n negated (← Script.expr o n)
  | .call span receiver name arguments blk => Script.expr o (.call span receiver name arguments blk)
  | .block params body yields => arrowOf params body (Script.statements o body yields)

lemma renders (p : Rendering) (d : Draft) :
    ∃ v result, Concurs d v (Expr.text o.indent d.depth) result (p.tree o) (p.write o) := by
  have hexpr := fun n => renders_expr o d n (.of_covers (covers_true _) (mem_singleton_self n))
  cases p with
  | expr n => exact ⟨_, _, hexpr n⟩
  | operand n =>
    exact ⟨_, fun _ => True, (hexpr n).map (fun _ _ => trivial) (text_grouped o.indent d.depth n)⟩
  | condition n negated => exact ⟨_, _, renders_condition o negated (hexpr n)⟩
  | call span receiver name arguments blk => exact ⟨_, _, hexpr _⟩
  | block params body yields =>
    exact ⟨_, _, rendersExpr_arrow o params (fun d => lays_statements o d body true yields (covers_true _)) (.refl _)⟩

end Rendering

/-- Rendering has no effect outside its result. Whether it succeeds or fails, the bodies around the current place, the
lines, the level and the count of statements are as before, and only the count of comments may have grown; rendering
again gives the same text or the same tag. The text is that of the generator's tree, and code written this way is
the code that the generator gives. -/
theorem rendering_changes_nothing :
    (∀ nodes, Write.compile o nodes = compile o nodes)
      ∧ ∀ (p : Rendering) (d : Draft), ∃ r d', p.write o d = concluded r d'
        ∧ d'.regions = d.regions ∧ d'.lines = d.lines ∧ d'.depth = d.depth ∧ d'.statements = d.statements
        ∧ d.unsupported ≤ d'.unsupported
        ∧ (∃ d'', p.write o d' = concluded r d'')
        ∧ ∃ e, p.tree o ⟨d.frames, d.unsupported⟩ = concluded e ⟨d.frames, d'.unsupported⟩
          ∧ r = e.map (Expr.text o.indent d.depth) := by
  refine ⟨compile_write o, fun p d => ?_⟩
  obtain ⟨v, -, e, -, hrun⟩ := p.renders o d
  refine ⟨e.map (Expr.text o.indent d.depth), d.counted (d.unsupported + v.counted), (hrun d.unsupported).2, rfl, rfl,
    rfl, rfl, Nat.le_add_right _ _, ⟨_, (hrun _).2⟩, e, (hrun _).1, rfl⟩

end Generator

end Transpiler.Script
