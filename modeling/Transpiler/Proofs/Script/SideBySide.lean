import Transpiler.Proofs.Script.Writing

/-!
# The generator and the writer side by side

The generator and the writer of the same code run side by side, from the same draft and against the survey of the
step: both have the outcome that the survey foresees and count what it counts, the text is that of the tree, the tree
has the comments that the survey shows, and it does with names what the rules allow. There is one lemma for each way
in which the steps are made of others, and one for each kind of node.
-/

namespace Transpiler.Script

open Survey List Script.Expr Write

variable {α β γ δ : Type} {clean : Prop} {lost : Text → Prop} {v v' : Survey}

/-! ## What is told of results -/

/-- A result has the comments that the survey of its step shows, and does with names what is described. The
description counts on nothing being counted if `clean` holds. -/
structure Told (clean : Prop) (v : Survey) (remarks : List Text) (names : Prop) : Prop where
  fails : v.fails = false
  shown : remarks.length = v.shown
  names : (clean → v.counted = 0) → names

namespace Told

variable {rs rs' : List Text} {P Q R : Prop}

lemma silent (h : P) : Told clean silent [] P := ⟨rfl, rfl, fun _ => h⟩

lemma dropped (v : Survey) : Told clean v.dropped [] True := ⟨rfl, rfl, fun _ => trivial⟩

lemma imp (h : Told clean v rs P) (himp : P → Q) : Told clean v rs Q :=
  ⟨h.fails, h.shown, fun hclean => himp (h.names hclean)⟩

lemma next (h : Told clean v rs P) (h' : Told clean v' rs' Q) {both : List Text}
    (hlength : both.length = rs.length + rs'.length) (himp : P → Q → R) : Told clean (v.next v') both R := by
  rw [next_of_not_fails h.fails]
  refine ⟨h'.fails, by rw [hlength, h.shown, h'.shown], fun hclean => ?_⟩
  have hboth : clean → v.counted = 0 ∧ v'.counted = 0 := fun hc => Nat.add_eq_zero_iff.1 (counted_both v v' ▸ hclean hc)
  exact himp (h.names fun hc => (hboth hc).1) (h'.names fun hc => (hboth hc).2)

/-- What a comment in place of the result counts was not to be counted. -/
lemma comment (tag : Text) (h : ¬ clean → P) : Told clean ⟨false, 1, v.counted⟩ [tag] P :=
  ⟨rfl, rfl, fun hclean => h fun hc => by simpa [counted] using hclean hc⟩

end Told

/-! ## Steps against steps -/

/-- The outcome that a survey foresees, with a result as described. -/
def Foreseen (fails : Bool) (result : α → Prop) : Except Text α → Prop
  | .ok a => fails = false ∧ result a
  | .error _ => fails

/-- From this draft, the step for a tree and the step for its text have the outcome that the survey foresees, `view`
giving the text of a tree. Neither changes anything, except that comments are counted, and the outcome does not
depend on the count before. -/
def Concurs (d : Draft) (v : Survey) (view : α → β) (result : α → Prop) (x : Emit α) (w : Write β) : Prop :=
  ∃ r, Foreseen v.fails result r ∧ ∀ count, x ⟨d.frames, count⟩ = concluded r ⟨d.frames, count + v.counted⟩
    ∧ w (d.counted count) = concluded (r.map view) (d.counted (count + v.counted))

/-- From this draft, the step for statements and the step that writes their lines do not fail. They declare the same
names, in the innermost body only, and `result` describes what they give and the lines written. -/
def Lays (d : Draft) (v : Survey) (result : α → β → List Region → List Text → Prop) (x : Emit α) (w : Write β) : Prop :=
  v.fails = false ∧ ∃ a b regions written, result a b regions written ∧ regions.tail = d.regions.tail ∧ ∀ count,
    x ⟨d.frames, count⟩ = .ok a ⟨regions.map (·.frame), count + v.counted⟩
      ∧ w (d.counted count)
        = .ok b { d with regions := regions, lines := d.lines ++ written, unsupported := count + v.counted }

variable {d : Draft} {x : Emit α} {w : Write β} {f : α → Emit γ} {g : β → Write δ} {a : α} {b : β}

namespace Concurs

variable {view : α → β} {view' : γ → δ} {result : α → Prop} {result' : γ → Prop}

lemma pure (hview : view a = b) (h : result a) : Concurs d silent view result (Pure.pure a) (Pure.pure b) :=
  ⟨.ok a, ⟨rfl, h⟩, fun _ => ⟨rfl, hview ▸ rfl⟩⟩

lemma refuse (tag : Text) : Concurs d failing view result (.refuse tag) (.refuse tag) :=
  ⟨.error tag, rfl, fun _ => ⟨rfl, rfl⟩⟩

lemma bind (hx : Concurs d v view result x w) (hf : ∀ a, result a → Concurs d v' view' result' (f a) (g (view a))) :
    Concurs d (v.next v') view' result' (x >>= f) (w >>= g) := by
  obtain ⟨r, hr, hrun⟩ := hx
  cases r with
  | error tag =>
    rw [next_of_fails hr]
    exact ⟨.error tag, hr, fun count => ⟨bind_of_eq_error (hrun count).1, bind_of_eq_error (hrun count).2⟩⟩
  | ok a =>
    obtain ⟨hv, ha⟩ := hr
    obtain ⟨r', hr', hrun'⟩ := hf a ha
    rw [next_of_not_fails hv]
    refine ⟨r', hr', fun count => ⟨?_, ?_⟩⟩
    · rw [bind_of_eq_ok (hrun count).1, (hrun' _).1, counted_both, Nat.add_assoc]
    · rw [bind_of_eq_ok (hrun count).2, (hrun' _).2, counted_both, Nat.add_assoc]

/-- The result is put into something, and its text into the text of that. -/
lemma map (hx : Concurs d v view result x w) {f : α → γ} {g : β → δ} (h : ∀ a, result a → result' (f a))
    (hview : ∀ a, view' (f a) = g (view a)) : Concurs d v view' result' (do return f (← x)) (do return g (← w)) :=
  next_silent v ▸ hx.bind fun a ha => .pure (hview a) (h a ha)

/-- A literal: its entries are rendered one level deeper. As their step does not fail, the level is put back. -/
lemma literal (h : Concurs { d with depth := d.depth + 1 } v view result x w) (hv : v.fails = false) {f : α → γ}
    {g : Nat → β → δ} (hresult : ∀ a, result a → result' (f a)) (hview : ∀ a, view' (f a) = g d.depth (view a)) :
    Concurs d v view' result' (do return f (← x)) (do
      let b ← .deeper w
      return g (← .depth) b) := by
  obtain ⟨r, hr, hrun⟩ := h
  cases r with
  | error tag => exact absurd (hr.symm.trans hv) (by simp)
  | ok a =>
    refine ⟨.ok (f a), ⟨hv, hresult a hr.2⟩, fun count => ⟨bind_of_eq_ok (hrun count).1, ?_⟩⟩
    refine (bind_of_eq_ok (deeper_of_eq_ok (d := d.counted count) (hrun count).2)).trans ?_
    exact congrArg (EStateM.Result.ok · _) (hview a).symm

end Concurs

namespace Lays

variable {result : α → β → List Region → List Text → Prop} {result' : γ → δ → List Region → List Text → Prop}

lemma pure (h : result a b d.regions []) : Lays d silent result (Pure.pure a) (Pure.pure b) := by
  refine ⟨rfl, a, b, d.regions, [], h, rfl, fun count => ⟨rfl, ?_⟩⟩
  rw [append_nil]
  rfl

lemma bind (hx : Lays d v result x w)
    (hf : ∀ a b regions written, result a b regions written →
      Lays { d with regions := regions, lines := d.lines ++ written } v'
        (fun a' b' regions' more => result' a' b' regions' (written ++ more)) (f a) (g b)) :
    Lays d (v.next v') result' (x >>= f) (w >>= g) := by
  obtain ⟨hv, a, b, regions, written, hab, htail, hrun⟩ := hx
  obtain ⟨hv', a', b', regions', more, hab', htail', hrun'⟩ := hf a b regions written hab
  rw [next_of_not_fails hv]
  refine ⟨hv', a', b', regions', written ++ more, hab', htail'.trans htail, fun count => ⟨?_, ?_⟩⟩
  · rw [bind_of_eq_ok (hrun count).1, counted_both, ← Nat.add_assoc]
    exact (hrun' _).1
  · rw [bind_of_eq_ok (hrun count).2, counted_both, ← Nat.add_assoc, ← append_assoc]
    exact (hrun' _).2

lemma imp {result' : α → β → List Region → List Text → Prop} (hx : Lays d v result x w)
    (h : ∀ a b regions written, result a b regions written → result' a b regions written) : Lays d v result' x w := by
  obtain ⟨hv, a, b, regions, written, hab, htail, hrun⟩ := hx
  exact ⟨hv, a, b, regions, written, h a b regions written hab, htail, hrun⟩

/-- The statements are put into something that is written as they are. -/
lemma map {result' : γ → β → List Region → List Text → Prop} (hx : Lays d v result x w) (f : α → γ)
    (h : ∀ a b regions written, result a b regions written → result' (f a) b regions written) :
    Lays d v result' (do return f (← x)) w := by
  obtain ⟨hv, a, b, regions, written, hab, htail, hrun⟩ := hx
  exact ⟨hv, f a, b, regions, written, h a b regions written hab, htail,
    fun count => ⟨bind_of_eq_ok (hrun count).1, (hrun count).2⟩⟩

lemma ends (hx : Lays d v result x w) {f : α → γ} {g : β → δ}
    (h : ∀ a b regions written, result a b regions written → result' (f a) (g b) regions written) :
    Lays d v result' (do return f (← x)) (do return g (← w)) :=
  next_silent v ▸ hx.bind fun a b regions written hab =>
    .pure ((append_nil written).symm ▸ h a b regions written hab)

/-- A step for a text whose failure is a value. What is counted on a failure stays counted. -/
lemma attempt {view : α → β} {result : α → Prop} {f : Except Text α → Emit γ} {g : Except Text β → Write δ}
    {v'' : Survey} (hx : Concurs d v view result x w)
    (hok : ∀ a, result a → Lays d v' result' (f (.ok a)) (g (.ok (view a))))
    (herror : ∀ tag, v.fails → x.Fails → Lays d v'' result' (f (.error tag)) (g (.error tag))) :
    Lays d (v.orElse v'' v') result' (.attempt x >>= f) (.attempt w >>= g) := by
  obtain ⟨r, hr, hrun⟩ := hx
  obtain ⟨u, hfails, hcounted, hcases⟩ : ∃ u, (v.orElse v'' v').fails = u.fails
      ∧ (v.orElse v'' v').counted = v.counted + u.counted ∧ Lays d u result' (f r) (g (r.map view)) := by
    cases r with
    | ok a =>
      rw [orElse_of_not_fails hr.1, next_of_not_fails hr.1]
      exact ⟨v', rfl, counted_both v v', hok a hr.2⟩
    | error tag =>
      have hv : v.fails := hr
      rw [orElse_of_fails hv, next_of_not_fails rfl]
      exact ⟨v'', rfl, (counted_both _ _).trans (by rw [counted_dropped]), herror tag hv ⟨_, tag, _, (hrun 0).1⟩⟩
  obtain ⟨hu, a, b, regions, written, hab, htail, hrun'⟩ := hcases
  refine ⟨hfails.trans hu, a, b, regions, written, hab, htail, fun count => ⟨?_, ?_⟩⟩
  · rw [bind_of_eq_ok (Emit.attempt_of_eq_concluded (hrun count).1), (hrun' _).1, hcounted, Nat.add_assoc]
  · rw [bind_of_eq_ok (attempt_of_eq_concluded (hrun count).2), (hrun' _).2, hcounted, Nat.add_assoc]

lemma emit (o : Options) {text : Text} {f : Unit → Write β}
    (h : Lays { d with lines := d.lines ++ emitted o.indent d.depth text } v
      (fun a b regions more => result a b regions (emitted o.indent d.depth text ++ more)) x (f ())) :
    Lays d v result x (.emit o text >>= f) := by
  obtain ⟨hv, a, b, regions, more, hab, htail, hrun⟩ := h
  refine ⟨hv, a, b, regions, emitted o.indent d.depth text ++ more, hab, htail, fun count => ⟨(hrun count).1, ?_⟩⟩
  refine (hrun count).2.trans ?_
  rw [append_assoc]

lemma emit_last (o : Options) {result : α → Unit → List Region → List Text → Prop} {text : Text}
    (h : result a () d.regions (emitted o.indent d.depth text)) :
    Lays d silent result (Pure.pure a) (.emit o text) :=
  ⟨rfl, a, (), d.regions, emitted o.indent d.depth text, h, rfl, fun _ => ⟨rfl, rfl⟩⟩

lemma closes (o : Options) {result' : γ → Unit → List Region → List Text → Prop} {text : Text}
    (hx : Lays d v result x w) {f : α → γ} (h : ∀ a b regions written, result a b regions written →
      result' (f a) () regions (written ++ emitted o.indent d.depth text)) :
    Lays d v result' (do return f (← x)) (w >>= fun _ => .emit o text) :=
  next_silent v ▸ hx.bind fun a b regions written hab => .emit_last o (h a b regions written hab)

lemma deeper (h : Lays { d with depth := d.depth + 1 } v result x w) : Lays d v result x (.deeper w) := by
  obtain ⟨hv, a, b, regions, written, hab, htail, hrun⟩ := h
  refine ⟨hv, a, b, regions, written, hab, htail, fun count => ⟨(hrun count).1, ?_⟩⟩
  exact deeper_of_eq_ok (d := d.counted count) (hrun count).2

end Lays

/-! ## Expressions -/

section Generator

variable (o : Options) {names : List Text}

section Judgements

variable (clean : Prop) (lost : Text → Prop) (names : List Text) (d : Draft)

/-- A step for an expression: its text, and what is told of it. -/
def RendersExpr (v : Survey) (x : Emit Expr) (w : Write Text) : Prop :=
  Concurs d v (text o.indent d.depth) (fun e => Told clean v e.remarks (Values lost names d.frames e.events)) x w

/-- Both give the same entry. -/
def RendersEntry (v : Survey) (x : Emit Entry) (w : Write EntryText) : Prop :=
  Concurs d v (Entry.text o.indent d.depth) (fun e => Told clean v e.remarks (Values lost names d.frames e.events)) x w

/-- Both give the same entries. -/
def RendersEntries (v : Survey) (x : Emit (List Entry)) (w : Write (List EntryText)) : Prop :=
  Concurs d v (Entry.texts o.indent d.depth)
    (fun es => Told clean v (Entry.allRemarks es) (Values lost names d.frames (Entry.allEvents es))) x w

/-- Both render the node alike. -/
def RendersNode (n : Node) : Prop := RendersExpr o clean lost names d (survey o n) (expr o n) (Write.expr o n)

/-- Both render the nodes alike. -/
def RendersAll (ns : List Node) : Prop :=
  Concurs d (surveyAll o ns) (texts o.indent d.depth) (fun es => Told clean (surveyAll o ns) (allRemarks es)
    (Values lost names d.frames (allEvents es))) (exprs o ns) (Write.exprs o ns)

/-- Both render the block alike. -/
def RendersBlock (blk : Node) (yields : Bool) : Prop :=
  Concurs d (surveyBlock o blk) (texts o.indent d.depth) (fun f => f.length ≤ 1
      ∧ Told clean (surveyBlock o blk) (allRemarks f) (Values lost names d.frames (allEvents f)))
    (blockArgument o blk yields) (.blockArgument o blk yields)

end Judgements

lemma RendersEntry.entryOr {x : Emit Entry} {w : Write EntryText} (h : RendersEntry o clean lost names d v x w) :
    RendersEntry o clean lost names d v.orComment (Script.entryOr x) (Write.entryOr w) := by
  obtain ⟨r, hr, hrun⟩ := h
  have hx := fun count => Emit.attempt_of_eq_concluded (hrun count).1
  have hw := fun count => attempt_of_eq_concluded (hrun count).2
  cases r with
  | ok e =>
    rw [orComment_of_not_fails hr.1]
    refine ⟨.ok e, hr, fun count => ⟨?_, ?_⟩⟩
    · rw [Script.entryOr, bind_of_eq_ok (hx count)]
      rfl
    · rw [Write.entryOr, bind_of_eq_ok (hw count)]
      rfl
  | error tag =>
    rw [orComment_of_fails hr]
    refine ⟨.ok (.comment tag), ⟨rfl, .comment tag fun _ => .nil⟩, fun count => ⟨?_, ?_⟩⟩
    · rw [Script.entryOr, bind_of_eq_ok (hx count), counted_comment]
      rfl
    · rw [Write.entryOr, bind_of_eq_ok (hw count), counted_comment]
      rfl

/-- A fixed key is a part of the entry and no step of its own. -/
lemma rendersEntry_pair {key value : Node} (hk : RendersNode o clean lost names d key)
    (hv : RendersNode o clean lost names d value) :
    RendersEntry o clean lost names d ((survey o key).next (survey o value)) (pairEntry key (expr o key) (expr o value))
      (.pair key (.expr o key) (.expr o value)) := by
  cases key with
  | symbol => exact (silent_next _).symm ▸ hv.map (fun e he => he) fun e => rfl
  | string => exact (silent_next _).symm ▸ hv.map (fun e he => he) fun e => rfl
  | _ => exact hk.bind fun k hk => hv.map (fun e he => hk.next he (by simp [Entry.remarks]) .append) fun e => rfl

variable {arguments : List Node} {blk : Node}

lemma renders_plainCall (name : Text)
    (harguments : RendersAll o clean lost names d arguments)
    (hblk : RendersBlock o clean lost names d blk true) :
    RendersExpr o clean lost names d ((surveyAll o arguments).next (surveyBlock o blk)) (plainCall o name arguments blk)
      (.plainCall o name arguments blk) := by
  refine harguments.bind fun args ha => .map hblk
    (fun b hb => ha.next hb.2 (by simp [remarks]) fun ha hb => ?_) fun b => ?_
  · simpa [events, allEvents_append] using ha.append hb
  · rw [← texts_append]
    rfl

/-- The delay of a timer. A number is not shown as it is, but it has no comments and no events either. -/
lemma told_delayOf {seconds : Node} {e : Expr} {frames : List Frame}
    (h : Told clean (survey o seconds) e.remarks (Values lost names frames e.events)) :
    Told clean (survey o seconds) (delayOf seconds e).remarks
      (Values lost names frames (delayOf seconds e).events) := by
  cases seconds with
  | integer => exact .silent .nil
  | float => exact .silent .nil
  | _ => simpa [delayOf, remarks, events] using h

/-- A timer: its function, which may be empty, and the delay. -/
lemma told_timer (timer : Text) (delay : Expr) {f : List Expr} {frames : List Frame} (hlength : f.length ≤ 1)
    (hf : Told clean v (allRemarks f) (Values lost names frames (allEvents f)))
    (hdelay : Told clean v' delay.remarks (Values lost names frames delay.events)) :
    Told clean (v'.next v) (call (.host timer) [f.headD (.arrow [] []), delay]).remarks
      (Values lost names frames (call (.host timer) [f.headD (.arrow [] []), delay]).events) := by
  obtain _ | ⟨e, _ | ⟨e', rest⟩⟩ := f
  · have hempty : Values lost names frames (arrow [] []).events := fun direct ahead _ =>
      .arrow [] (by simp [assignedInBody]) .nil
    refine hdelay.next hf (by simp [remarks, allRemarks, Stmt.allRemarks]) fun hdelay _ => ?_
    simpa [events, allEvents] using hempty.append hdelay
  · refine hdelay.next hf (by simp [remarks, allRemarks, Nat.add_comm]) fun hdelay hf => ?_
    simpa [events, allEvents] using hf.append hdelay
  · simp at hlength

lemma renders_call_absent (span : Span) (name : Text)
    (harguments : RendersAll o clean lost names d arguments)
    (hargument : ∀ a, arguments = [a] → RendersNode o clean lost names d a)
    (hblk : ∀ yields, RendersBlock o clean lost names d blk yields) :
    RendersNode o clean lost names d (.call span .absent name arguments blk) := by
  have hplain := renders_plainCall o name harguments (hblk true)
  rw [RendersNode, expr_call_absent, Write.expr_call_absent, survey_call_absent]
  by_cases hputs : (name == "puts") = true
  · rw [if_pos hputs, if_pos hputs, if_pos hputs]
    exact harguments.map (fun args ha => ha) fun args => rfl
  rw [if_neg hputs, if_neg hputs, if_neg hputs]
  by_cases hgrab : (name == "grab") = true
  · rw [if_pos hgrab, if_pos hgrab]
    obtain _ | ⟨a, _ | ⟨b, rest⟩⟩ := arguments
    · exact hplain
    · by_cases hblock : blk.isBlock
      · simp only [hblock, if_true]
        exact hplain
      · simp only [if_neg hblock, surveyBlock_of_not_isBlock o hblock, surveyAll, next_silent]
        refine (hargument a rfl).map (fun id hid => ?_) fun id => rfl
        simpa [remarks, allRemarks, events, allEvents] using hid
    · exact hplain
  rw [if_neg hgrab, if_neg hgrab]
  by_cases hwait : (name == "wait") = true
  · rw [if_pos hwait, if_pos hwait]
    obtain _ | ⟨a, _ | ⟨b, rest⟩⟩ := arguments
    · simp only [surveyAll, silent_next]
      refine .map (hblk false) (fun f hf => ?_) fun f => ?_
      · exact silent_next (surveyBlock o blk) ▸ told_timer o.timer (.integer 0) hf.1 hf.2 (.silent .nil)
      · rw [← texts_headD]
        rfl
    · simp only [surveyAll, next_silent]
      refine (hargument a rfl).bind fun e he => .map (hblk false)
        (fun f hf => told_timer o.timer _ hf.1 hf.2 (told_delayOf o he)) fun f => ?_
      rw [← texts_headD, ← text_delayOf]
      rfl
    · exact hplain
  rw [if_neg hwait, if_neg hwait]
  exact hplain

lemma renders_call (span : Span) {receiver : Node} (h : receiver.isAbsent = false) (name : Text)
    (hreceiver : RendersNode o clean lost names d receiver)
    (harguments : RendersAll o clean lost names d arguments)
    (hargument : ∀ a rest, arguments = a :: rest → RendersNode o clean lost names d a)
    (hblk : RendersBlock o clean lost names d blk true) :
    RendersNode o clean lost names d (.call span receiver name arguments blk) := by
  rw [RendersNode, expr_call o span h, Write.expr_call o span h, survey_call o span h]
  by_cases hoperator : isOperator receiver name arguments blk
  · rw [if_pos hoperator, if_pos hoperator, if_pos hoperator]
    obtain _ | ⟨a, _ | ⟨b, rest⟩⟩ := arguments
    · rw [surveyAll, next_silent]
      refine hreceiver.map (fun r hr => ?_) fun r => ?_
      · simpa [remarks, events] using hr
      · rw [← text_grouped]
        rfl
    · rw [surveyAll, surveyAll, next_silent]
      refine hreceiver.bind fun r hr => (hargument a [] rfl).map (fun e he => hr.next he (by simp [remarks]) ?_)
        fun e => ?_
      · simpa [events] using Values.append
      · rw [← text_grouped, ← text_grouped]
        rfl
    · simp [isOperator] at hoperator
  rw [if_neg hoperator, if_neg hoperator, if_neg hoperator]
  cases constructed? o receiver name with
  | some type =>
    refine harguments.bind fun args ha => .map hblk
      (fun b hb => ha.next hb.2 (by simp [remarks]) fun ha hb => ?_) fun b => ?_
    · simpa [events, allEvents_append] using ha.append hb
    · rw [← texts_append]
      rfl
  | none =>
    -- the arguments are rendered before the receiver
    refine harguments.bind fun args ha => ?_
    by_cases hblock : blk.isBlock
    · simp only [hblock, if_true]
      refine hreceiver.bind fun r hr => .map hblk (fun b hb => ?_) fun b => ?_
      · have hboth := hr.next hb.2 (length_append ..) And.intro
        refine ha.next hboth (by simp [remarks]; omega) fun ha hrb => ?_
        simpa [events, allEvents_append] using hrb.1.append (ha.append hrb.2)
      · rw [← texts_append, ← text_grouped]
        rfl
    · simp only [if_neg hblock, surveyBlock_of_not_isBlock o hblock, next_silent]
      refine hreceiver.map (fun r hr => ha.next hr (by simp [Nat.add_comm]) fun ha hr => ?_) fun r => ?_
      · simpa [events_methodCall] using hr.append ha
      · rw [text_methodCall, text_grouped]

lemma renders_condition {n : Node} (negated : Bool) (h : RendersNode o clean lost names d n) :
    RendersExpr o clean lost names d (survey o n) (do return conditionOf n negated (← expr o n))
      (do return Write.conditionText n negated (← Write.expr o n)) :=
  h.map (fun e he => by simpa using he) (text_conditionOf o.indent d.depth n negated)

/-! ## Bodies and statements -/

section Judgements

variable (clean : Prop) (lost : Text → Prop) (direct : Bool) (d : Draft) (v : Survey) (listed : List Assigned)

/-- What is told of statements, and of the frames after them. -/
def ToldBody (ss : List Stmt) (regions : List Region) (written : List Text) : Prop :=
  written = Stmt.allLines o.indent d.depth ss ∧ Told clean v (Stmt.allRemarks ss)
    (Produces lost direct listed d.frames (Stmt.allEvents ss) (regions.map (·.frame)))

/-- A step for statements. -/
def LaysBody (x : Emit (List Stmt)) (w : Write Unit) : Prop :=
  Lays d v (fun ss _ => ToldBody o clean lost direct d v listed ss) x w

/-- A step for the statements of one node, with what became of it. -/
def LaysNode (x : Emit (List Stmt × Outcome)) (w : Write Outcome) : Prop :=
  Lays d v (fun r outcome regions written =>
    outcome = r.2 ∧ ToldBody o clean lost direct d v listed r.1 regions written) x w

/-- A step for what follows a first branch. -/
def LaysRest (x : Emit Alternative) (w : Write Unit) : Prop :=
  Lays d v (fun a _ regions written => written = Alternative.lines o.indent d.depth a ∧ Told clean v a.remarks
    (Produces lost direct listed d.frames a.events (regions.map (·.frame)))) x w

end Judgements

section Statements

variable {region : Region} {direct : Bool} {listed : List Assigned} {w : Write Unit}

lemma Lays.body {x : Emit (List Stmt)} {outer : List Region} {body : List Node}
    (h : ∀ d, LaysBody o clean lost true d v (assignedInBody body) x w) (hregions : d.regions = region :: outer) :
    Lays d v (fun ss _ regions written =>
        written = Stmt.allLines o.indent d.depth (hoistStatement region.hoisted ++ ss)
          ∧ Told clean v (Stmt.allRemarks ss) (Emits lost true (region.frame :: outer.map (·.frame))
            (assignedInBody body) (Stmt.allEvents ss) (regions.map (·.frame)) []))
      x (.declareHoisted o >>= fun _ => w) := by
  obtain ⟨hv, ss, ⟨⟩, regions, written, ⟨rfl, htold⟩, htail, hrun⟩ :=
    h { d with lines := d.lines ++ Stmt.allLines o.indent d.depth (hoistStatement region.hoisted) }
  refine ⟨hv, ss, (), regions, _, ⟨rfl, htold.imp fun hproduces => ?_⟩, htail, fun count => ⟨(hrun count).1, ?_⟩⟩
  · have hemits := hproduces []
    rw [append_nil] at hemits
    simpa [Draft.frames, hregions] using hemits
  · rw [bind_of_eq_ok (declareHoisted_eq o (d := d.counted count) hregions)]
    refine (hrun count).2.trans ?_
    rw [allLines_append, append_assoc]

/-- A block: its lines are taken out of the draft again, and become a part of the text. -/
lemma rendersExpr_arrow (params : List Text) {body : List Node} {statements : Emit (List Stmt)}
    (h : ∀ d, LaysBody o clean lost true d v (assignedInBody body) statements w)
    (hnames : assignedNames (assignedInBody body) ⊆ names) :
    RendersExpr o clean lost names d v (arrowOf params body statements) (arrow o params body w) := by
  obtain ⟨hv, ss, ⟨⟩, regions, written, ⟨hwritten, htold⟩, htail, hrun⟩ := Lays.body o (d := { d with
    regions := .ofBody d.regions params body :: d.regions
    lines := []
    depth := d.depth + 1 }) h rfl
  refine ⟨.ok (.arrow params (hoistStatement (hoisted d.frames params body) ++ ss)), ⟨hv, ?_⟩, fun count => ⟨?_, ?_⟩⟩
  · simp only [remarks, Stmt.allRemarks_append, allRemarks_hoistStatement, nil_append, events,
      Stmt.allEvents_append, allEvents_hoistStatement]
    exact htold.imp fun hemits direct ahead hsub => .arrow body (List.Subset.trans hnames hsub) hemits
  · have hinner : Emit.inFrame (.ofBody d.frames params body) d.frames statements ⟨d.frames, count⟩
        = .ok ss ⟨d.frames, count + v.counted⟩ := Emit.inFrame_of_eq_ok (hrun count).1
    exact bind_of_eq_ok hinner
  · have hcapture := capture_of_eq_ok (d := { d.counted count with
      regions := .ofBody d.regions params body :: d.regions }) (hrun count).2
    have hblock := inBlock_of_eq_ok (d := d.counted count) hcapture
    refine (bind_of_eq_ok hblock).trans ?_
    rw [htail, hwritten]
    rfl

/-- The definition of a function: its body is written inside no other. -/
lemma laysNode_function (direct : Bool) (name : Text) (params : List Text) {body : List Node}
    {statements : Emit (List Stmt)} (h : ∀ d, LaysBody o clean lost true d v (assignedInBody body) statements w) :
    LaysNode o clean lost direct d v []
      (do
        let stmts ← .inFrame (.ofBody [] params body) [] statements
        return ([.function name params (hoistStatement (hoisted [] params body) ++ stmts)], .emitted))
      (do
        .inMethod (.ofBody [] params body) do
          .emit o (functionHead name params)
          .deeper do
            .declareHoisted o
            w
          .emit o "\x7d"
        return .emitted) := by
  let opened : Draft := { d with
    regions := [.ofBody [] params body]
    lines := d.lines ++ emitted o.indent d.depth (functionHead name params) }
  obtain ⟨hv, ss, ⟨⟩, regions, written, ⟨hwritten, htold⟩, -, hrun⟩ :=
    Lays.body o (d := { opened with depth := d.depth + 1 }) h rfl
  refine ⟨hv, ([.function name params (hoistStatement (hoisted [] params body) ++ ss)], .emitted), .emitted,
    d.regions, _, ⟨rfl, rfl, ?_⟩, rfl, fun count => ⟨?_, ?_⟩⟩
  · simp only [Stmt.allRemarks, Stmt.remarks, Stmt.allRemarks_append, allRemarks_hoistStatement, nil_append,
      append_nil, Stmt.allEvents, Stmt.events, Stmt.allEvents_append, allEvents_hoistStatement]
    exact htold.imp fun hemits ahead => .method body hemits
  · exact bind_of_eq_ok (Emit.inFrame_of_eq_ok (hrun count).1)
  · have hdeeper := deeper_of_eq_ok (d := opened.counted count) (hrun count).2
    have hmethod := inMethod_of_eq_ok (d := d.counted count) (x := emit o (functionHead name params)
      >>= fun _ => .deeper _ >>= fun _ => .emit o "\x7d") (bind_of_eq_ok hdeeper)
    have hlines : opened.lines ++ written ++ emitted o.indent d.depth "\x7d" = d.lines ++ Stmt.allLines o.indent d.depth
          [.function name params (hoistStatement (hoisted [] params body) ++ ss)] := by
      rw [hwritten]
      simp only [opened, Region.ofBody, functionHead, Stmt.allLines, Stmt.lines, append_assoc, append_nil, map_nil]
    refine (bind_of_eq_ok hmethod).trans ?_
    rw [← hlines]
    rfl

lemma Lays.commented (tag : Text) {result : List Stmt × Outcome → Outcome → List Region → List Text → Prop}
    (h : result ([.comment tag], .unsupported) .unsupported d.regions (emitted o.indent d.depth (commentText tag))) :
    Lays d ⟨false, 1, 0⟩ result (Script.commented tag) (do
      .emit o (← .remark tag)
      return .unsupported) :=
  ⟨rfl, ([.comment tag], .unsupported), .unsupported, d.regions, emitted o.indent d.depth (commentText tag), h, rfl,
    fun _ => ⟨rfl, rfl⟩⟩

lemma Lays.orRemark {view : Expr → Text} {result : Expr → Prop} {e : Emit Expr} {w : Write Text}
    {build : Expr → Emit (List Stmt)} {write : Text → Write Unit} (he : Concurs d v view result e w)
    (hbuild : ∀ a, result a → Lays d v' (fun ss _ => ToldBody o clean lost direct d (v.next v') listed ss) (build a)
      (write (view a)))
    (hcomment : ¬ clean → e.Fails → Produces lost direct listed d.frames [] d.frames) :
    LaysNode o clean lost direct d (v.next v').orComment listed (orComment e build) (.orRemark o w write) := by
  have hv' : v.fails = false → v'.fails = false := by
    intro hv
    obtain ⟨r, hr, -⟩ := he
    cases r with
    | ok a => exact (hbuild a hr.2).1
    | error tag => exact absurd (hr.symm.trans hv) (by simp)
  rw [LaysNode, orComment_next hv']
  refine .attempt he (fun a ha => .ends (hbuild a ha) fun ss _ regions written hss => ?_) fun tag hv hfails => ?_
  · rw [← orComment_next hv', orComment_of_not_fails hss.2.fails]
    exact ⟨rfl, hss⟩
  · refine .commented o tag ⟨rfl, (append_nil _).symm, ?_⟩
    rw [← orComment_next hv', next_of_fails hv, orComment_of_fails hv]
    exact .comment tag fun hc => hcomment hc hfails

/-- The bodies after a name was declared in the innermost. -/
def declaringIn (name : Text) : List Region → List Region
  | [] => []
  | r :: rest => { r with frame := { r.frame with declared := name :: r.frame.declared } } :: rest

lemma frames_declaringIn (name : Text) (regions : List Region) :
    (declaringIn name regions).map (·.frame) = declaring name (regions.map (·.frame)) := by
  cases regions <;> rfl

lemma tail_declaringIn (name : Text) (regions : List Region) : (declaringIn name regions).tail = regions.tail := by
  cases regions <;> rfl

lemma declare_eq (name : Text) (d : Draft) :
    declare name d = .ok () { d with regions := declaringIn name d.regions } := by
  obtain ⟨regions, lines, depth, n, unsupported⟩ := d
  cases regions <;> rfl

/-- The lines of an assignment are those of its statements. -/
lemma assignment_eq (declaration : Option Declaration) (name : Text) (scope : Scope) (operator : Text)
    (value : Expr) (yields : Bool) (d : Draft) :
    assignment o declaration (variableText name scope) operator (value.text o.indent d.depth) yields d
      = .ok () { d with
          lines := d.lines ++ Stmt.allLines o.indent d.depth
            (assignmentOf name scope operator declaration value yields) } := by
  cases yields with
  | false =>
    rw [assignmentOf, Stmt.allLines, Stmt.lines, text_variableExpr]
    rw [if_neg Bool.false_ne_true, Stmt.allLines, append_nil]
    rfl
  | true =>
    rw [assignmentOf, if_pos rfl, Stmt.allLines, Stmt.allLines, Stmt.allLines, Stmt.lines, Stmt.lines,
      text_variableExpr, append_nil, ← append_assoc]
    rfl

lemma exists_assign (name : Text) (scope : Scope) (operator : Text) (value : Expr) (yields : Bool) (d : Draft) :
    ∃ regions, regions.map (·.frame) = assigning d.frames name scope operator ∧ regions.tail = d.regions.tail ∧ ∀ count,
      assign o name scope operator (value.text o.indent d.depth) yields (d.counted count)
        = .ok () { d.counted count with
            regions := regions
            lines := d.lines ++ Stmt.allLines o.indent d.depth
              (assignmentOf name scope operator (declarationIn d.frames name scope operator) value yields) } := by
  rw [assigning, declarationIn]
  by_cases h : declares d.frames name scope operator
  · rw [if_pos h, if_pos h]
    refine ⟨declaringIn name d.regions, frames_declaringIn name d.regions, tail_declaringIn name d.regions,
      fun count => ?_⟩
    have hdeclare : declare name (d.counted count)
        = .ok () { d.counted count with regions := declaringIn name d.regions } := declare_eq name _
    rw [declares] at h
    rw [Write.assign, bind_of_eq_ok (x := get) rfl, Draft.frames_counted, if_pos h, bind_of_eq_ok hdeclare]
    exact assignment_eq o _ name scope operator value yields
      { d.counted count with regions := declaringIn name d.regions }
  · rw [if_neg h, if_neg h]
    refine ⟨d.regions, rfl, rfl, fun count => ?_⟩
    rw [declares] at h
    rw [Write.assign, bind_of_eq_ok (x := get) rfl, Draft.frames_counted, if_neg h]
    exact assignment_eq o none name scope operator value yields (d.counted count)

/-- An assignment statement makes or declares what is listed for it. -/
lemma Lays.assign (name : Text) (scope : Scope) (operator : Text) {value : Expr} (yields : Bool)
    (hdirect : ∀ a ∈ listed, a.direct = false)
    (h : Told clean v value.remarks (Values lost (assignedNames listed) d.frames value.events)) :
    Lays d silent (fun ss _ => ToldBody o clean lost direct d v
        ((if isBound scope then [⟨name, direct && operator.isEmpty, false⟩] else []) ++ listed) ss)
      (assignmentStatement name scope operator value yields)
      (assign o name scope operator (value.text o.indent d.depth) yields) := by
  obtain ⟨regions, hframes, htail, hrun⟩ := exists_assign o name scope operator value yields d
  refine ⟨rfl, _, (), regions, _, ⟨rfl, ?_⟩, htail, fun count => ⟨?_, hrun count⟩⟩
  · rw [remarks_assignmentOf, events_assignmentOf, hframes]
    exact h.imp (produces_assign name scope operator direct hdirect)
  · rw [hframes]
    exact assignmentStatement_eq d.frames name scope operator value yields count

lemma laysNode_expression (direct : Bool) {e : Emit Expr} {w : Write Text} (hdirect : ∀ a ∈ listed, a.direct = false)
    (h : RendersExpr o clean lost (assignedNames listed) d v e w) (yields : Bool) :
    LaysNode o clean lost direct d v.orComment listed (expressionStatement e yields) (orRemark o w fun text =>
      .emit o ((if yields then "return " ++ text else statementText text) ++ ";")) := by
  rw [← next_silent v]
  refine .orRemark o h (fun a ha => .emit_last o ⟨?_, ?_⟩) fun _ _ => .leave hdirect
  · cases yields <;> exact (append_nil _).symm
  · have hvalue : Told clean v a.remarks (Produces lost direct listed d.frames a.events (d.regions.map (·.frame))) :=
      ha.imp (.value hdirect)
    cases yields <;> simpa [Stmt.allRemarks, Stmt.remarks, Stmt.allEvents, Stmt.events] using hvalue

lemma laysRest_otherwise (direct : Bool) {ordinary : Emit (List Stmt)}
    (h : ∀ d, LaysBody o clean lost false d v listed ordinary w) :
    LaysRest o clean lost direct d v listed (do return .otherwise (← ordinary))
      (.emit o "\x7d else \x7b" >>= fun _ => .deeper w) := by
  refine .emit o (.map (.deeper (h _)) Alternative.otherwise fun ss _ regions written hss => ⟨?_, hss.2.imp .braces⟩)
  rw [hss.1]
  rfl

end Statements

end Generator

end Transpiler.Script
