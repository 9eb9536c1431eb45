import Transpiler.Proofs.Script.Rendering

/-!
# The declarations of generated code

Generated code declares a name only where it is not bound, and an assignment refers to a constant only from afar: from
before the constant is declared, or out of a method inside its scope. Without comments every assignment refers to a
declaration or parameter before it. This is `script_declarations`, by an invariant (`Coupled`) between the generator's
frames and what is bound around the place where code is emitted. Comments harm only names whose declaration they
replace, which is `script_bound_unless_lost`.
-/

namespace Transpiler.Script

open List Event Option

/-! ## Names in reach -/

namespace Context

/-- Everything bound so far in the braces of a place. -/
def bound (c : Context) : List Local := c.near.flatMap (·.before)

@[simp] lemma bound_awaiting (c : Context) (later : List Local) : (c.awaiting later).bound = c.bound := by
  obtain ⟨taken, near, far⟩ := c
  cases near <;> rfl

@[simp] lemma bound_inside (c : Context) : c.inside.bound = c.bound := rfl

@[simp] lemma bound_enter (c : Context) (params : List Text) :
    (c.enter params).bound = params.map (⟨·, .parameter⟩) ++ c.bound := rfl

lemma bound_adding {c : Context} (h : c.near ≠ []) (own : List Local) (names : List Text) :
    (c.adding own names).bound = own ++ c.bound := by
  obtain ⟨taken, near, far⟩ := c
  cases near with
  | nil => exact absurd rfl h
  | cons l rest => simp [bound, adding]

@[simp] lemma near_adding_tail (c : Context) (own : List Local) (names : List Text) :
    (c.adding own names).near.tail = c.near.tail := by
  obtain ⟨taken, near, far⟩ := c
  cases near <;> rfl

lemma near_adding_ne_nil {c : Context} (h : c.near ≠ []) (own : List Local) (names : List Text) :
    (c.adding own names).near ≠ [] := by
  obtain ⟨taken, near, far⟩ := c
  cases near with
  | nil => exact absurd rfl h
  | cons l rest => simp [adding]

end Context

/-- No braces bind a name further on that they, or braces around them, bind already. -/
def Orderly : List Level → Prop
  | [] => True
  | l :: rest => (∀ b ∈ l.later, ∀ b' ∈ (l :: rest).flatMap (·.before), b'.name ≠ b.name) ∧ Orderly rest

variable {b : Local}

/-- In orderly braces a name that is bound refers to what is bound so far. -/
lemma findSome?_near {levels : List Level} (h : Orderly levels) (hb : b ∈ levels.flatMap (·.before)) :
    ∃ r, levels.findSome? (·.find? b.name) = some r ∧ r.near := by
  induction levels with
  | nil => simp at hb
  | cons l rest ih =>
    rw [findSome?_cons]
    cases hfind : l.before.find? (·.name == b.name) with
    | some b' => exact ⟨⟨b'.binding, true⟩, by simp [Level.find?, hfind], rfl⟩
    | none =>
      have hlater : l.later.find? (·.name == b.name) = none := by
        rw [find?_eq_none]
        intro b' hb' hname
        exact h.1 b' hb' b hb (beq_iff_eq.1 hname).symm
      have hrest : b ∈ rest.flatMap (·.before) := by
        rw [flatMap_cons, mem_append] at hb
        refine hb.resolve_left fun hmem => ?_
        exact find?_eq_none.1 hfind b hmem (beq_self_eq_true _)
      simpa [Level.find?, hfind, hlater] using ih h.2 hrest

variable {c : Context}

lemma Context.exists_resolve_near (h : Orderly c.near) (hb : b ∈ c.bound) :
    ∃ r, c.resolve b.name = some r ∧ r.near := by
  obtain ⟨r, hr, hnear⟩ := findSome?_near h hb
  exact ⟨r, by simp [Context.resolve, hr], hnear⟩

variable {x : Text}

lemma Context.mem_bound_of_resolve {r : Resolution} (h : c.resolve x = some r)
    (hnear : r.near) : (⟨x, r.binding⟩ : Local) ∈ c.bound := by
  rw [Context.resolve] at h
  split at h
  · rename_i r' hfind
    obtain rfl := some.inj h
    obtain ⟨l, hl, hlr⟩ := exists_of_findSome?_eq_some hfind
    rw [Level.find?] at hlr
    split at hlr
    · rename_i b hb
      obtain rfl := some.inj hlr
      have hname : b.name = x := by simpa using find?_some hb
      exact mem_flatMap.2 ⟨l, hl, hname ▸ mem_of_find?_eq_some hb⟩
    · simp only [map_eq_some_iff] at hlr
      obtain ⟨b, -, rfl⟩ := hlr
      cases hnear
  · simp only [map_eq_some_iff] at h
    obtain ⟨r', -, rfl⟩ := h
    cases hnear

/-! ## What the rules do to frames -/

namespace Emits

variable {lost : Text → Prop} {direct : Bool} {frames frames' : List Frame} {ahead ahead' : List Assigned}
  {es : List Event}

variable (h : Emits lost direct frames ahead es frames' ahead')

include h

lemma frames_ne_nil (hne : frames ≠ []) : frames' ≠ [] := by
  induction h with
  | skip | assign | arrow | method => exact hne
  | seq _ _ ih ih' => exact ih' (ih hne)
  | declare a => exact declaring_ne_nil hne _
  | braces _ ih => exact ih hne

lemma resolves_of_resolves (hx : resolves frames x) : resolves frames' x := by
  induction h with
  | skip | assign | arrow | method => exact hx
  | seq _ _ ih ih' => exact ih' (ih hx)
  | declare a => exact resolves_of_resolves_declaring hx
  | braces _ ih => exact ih hx

lemma not_resolves (hx : resolves frames' x = false) : resolves frames x = false :=
  Bool.eq_false_iff.2 fun hres => Bool.eq_false_iff.1 hx (h.resolves_of_resolves hres)

/-- What is bound in the innermost braces was not bound before, and is afterwards. -/
lemma resolves_allLocals (hne : frames ≠ []) :
    ∀ b ∈ allLocals es, resolves frames b.name = false ∧ resolves frames' b.name := by
  induction h with
  | skip | assign | arrow | method | braces => simp [locals]
  | declare a _ _ hnew => simpa [locals, resolves_declaring hne] using hnew
  | seq h h' ih ih' =>
    intro b hb
    rw [allLocals_append, mem_append] at hb
    rcases hb with hb | hb
    · obtain ⟨hfalse, htrue⟩ := ih' (h.frames_ne_nil hne) b hb
      exact ⟨h.not_resolves hfalse, htrue⟩
    · exact ⟨(ih hne b hb).1, h'.resolves_of_resolves (ih hne b hb).2⟩

omit h

/-- Readiness lasts, and in braces nothing is declared that is ready, names that are lost aside. -/
lemma ready (h : Emits lost direct frames ahead es frames' ahead') (hne : frames ≠ [])
    (hready : Ready (fun x => ¬ lost x → resolves frames x) ahead) :
    Ready (fun x => ¬ lost x → resolves frames' x) ahead'
      ∧ (direct = false → ∀ x, ¬ lost x → resolves frames' x → resolves frames x) := by
  induction h with
  | skip left h => exact ⟨hready.skip fun a ha hdirect hnot => absurd (h a ha hdirect) hnot, fun _ _ _ => id⟩
  | arrow | method => exact ⟨hready, fun _ _ _ => id⟩
  | seq h h' ih ih' =>
    obtain ⟨hready₁, hclosed₁⟩ := ih hne hready
    obtain ⟨hready₂, hclosed₂⟩ := ih' (h.frames_ne_nil hne) hready₁
    exact ⟨hready₂, fun hd x hnot hx => hclosed₁ hd x hnot (hclosed₂ hd x hnot hx)⟩
  | assign a hown hdirect hbound =>
    refine ⟨hready.2.mono ?_, fun _ _ _ => id⟩
    rintro x (hx | ⟨-, rfl⟩)
    · exact hx
    · cases had : a.direct with
      | true => exact fun _ => hbound had
      | false => exact hready.1 hown had
  | declare a hown hdirect hnew =>
    refine ⟨hready.2.mono ?_, fun hd x hnot hx => ?_⟩
    · rintro x (hx | ⟨-, rfl⟩)
      · exact fun hnot => resolves_of_resolves_declaring (hx hnot)
      · simp [resolves_declaring hne]
    · -- in braces no assignment is direct, so a ready one was bound before
      have had : a.direct = false := by
        cases had : a.direct with
        | true => exact absurd (hd.symm.trans (hdirect had)) (by simp)
        | false => rfl
      rw [resolves_declaring hne, Bool.or_eq_true, beq_iff_eq] at hx
      rcases hx with rfl | hx
      · exact hready.1 hown had hnot
      · exact hx
  | braces h ih => exact ⟨(ih hne hready).1, fun _ => (ih hne hready).2 rfl⟩

end Emits

/-! ## The invariant -/

/-- What the frames and the names ahead say of what is bound around a place. -/
structure Around (lost : Text → Prop) (frames : List Frame) (names : List Text) (c : Context) : Prop where
  taken : ∀ x ∈ c.taken, resolves frames x
  bound : ∀ b ∈ c.bound, resolves frames b.name
  /-- A constant is not assigned again. -/
  const : ∀ b ∈ c.bound, b.binding = .declared .const → b.name ∉ names
  /-- Whatever is bound is in reach, unless its name is lost. -/
  visible : ∀ x, ¬ lost x → resolves frames x → ∃ b ∈ c.bound, b.name = x

/-- The invariant between the generator's state and the surroundings of the place where it emits. -/
structure Coupled (lost : Text → Prop) (frames : List Frame) (ahead : List Assigned) (c : Context) : Prop
    extends Around lost frames (assignedNames ahead) c where
  frames_ne : frames ≠ []
  near_ne : c.near ≠ []
  orderly : Orderly c.near.tail
  settled : Settled (fun x => isMutable frames x = false ∧ resolves frames x = false) ahead
  ready : Ready (fun x => ¬ lost x → resolves frames x) ahead

variable {later : List Local}

namespace Around

variable {lost : Text → Prop} {frames : List Frame} {names names' : List Text} {c : Context}

lemma mono (h : Around lost frames names c) (hsub : names' ⊆ names) : Around lost frames names' c :=
  { h with const := fun b hb hconst hmem => h.const b hb hconst (hsub hmem) }

lemma awaiting (h : Around lost frames names c) (later : List Local) : Around lost frames names (c.awaiting later) where
  taken := h.taken
  bound := by simpa using h.bound
  const := by simpa using h.const
  visible := by simpa using h.visible

/-- The braces stay orderly if what they bind further on is not bound yet. -/
lemma orderly_awaiting (h : Around lost frames names c) (horderly : Orderly c.near.tail)
    (hlater : ∀ b ∈ later, resolves frames b.name = false) : Orderly (c.awaiting later).near := by
  obtain ⟨taken, near, far⟩ := c
  cases near with
  | nil => trivial
  | cons l rest =>
    refine ⟨fun b hb b' hb' hname => ?_, horderly⟩
    have hfalse := hlater b hb
    rw [← hname, h.bound b' hb'] at hfalse
    cases hfalse

end Around

/-- What is to be shown of an assignment or declaration. -/
structure Site.Kept (lost : Text → Prop) (s : Site) : Prop where
  fresh : s.declares.isSome → s.name ∉ s.context.taken
  const : s.declares = none → ∀ r, s.context.resolve s.name = some r → r.near → r.binding ≠ .declared .const
  bound : ¬ lost s.name → s.declares = none → ∃ r, s.context.resolve s.name = some r ∧ r.near

variable {lost : Text → Prop}

/-- A declaration of a name that is not bound is as it should be. -/
lemma Site.Kept.of_not_mem {how : Declaration} (h : x ∉ c.taken) : Site.Kept lost ⟨x, some how, c⟩ where
  fresh _ := h
  const hnone := by cases hnone
  bound _ hnone := by cases hnone

namespace Coupled

variable {lost : Text → Prop} {frames : List Frame} {ahead : List Assigned} {c : Context}

lemma skip {left : List Assigned} (h : Coupled lost frames (left ++ ahead) c)
    (hleft : ∀ a ∈ left, a.direct → lost a.name) : Coupled lost frames ahead c where
  toAround := h.toAround.mono (by simp)
  frames_ne := h.frames_ne
  near_ne := h.near_ne
  orderly := h.orderly
  settled := h.settled.skip
  ready := h.ready.skip fun a ha hdirect hnot => absurd (hleft a ha hdirect) hnot

/-- An assignment that declares nothing keeps what is to be shown. -/
lemma kept_assign {a : Assigned} (h : Coupled lost frames (a :: ahead) c) (hown : a.inBlock = false)
    (hbound : a.direct → resolves frames a.name)
    (hlater : ∀ b ∈ later, resolves frames b.name = false) :
    Site.Kept lost ⟨a.name, none, c.awaiting later⟩ where
  fresh hsome := by cases hsome
  const _ r hr hnear hconst := by
    have hmem : (⟨a.name, r.binding⟩ : Local) ∈ c.bound := by
      simpa using Context.mem_bound_of_resolve hr hnear
    exact h.const _ hmem hconst (by simp)
  bound hnot _ := by
    have hres : resolves frames a.name := by
      cases had : a.direct with
      | true => exact hbound had
      | false => exact h.ready.1 hown had hnot
    obtain ⟨b, hb, hname⟩ := h.visible a.name hnot hres
    rw [← hname]
    exact Context.exists_resolve_near (h.orderly_awaiting h.orderly hlater) (by simpa using hb)

lemma assign {direct : Bool} {a : Assigned} (h : Coupled lost frames (a :: ahead) c)
    (hown : a.inBlock = false) (hdirect : a.direct → direct)
    (hbound : a.direct → resolves frames a.name) : Coupled lost frames ahead c where
  toAround := h.toAround.mono (by simp)
  frames_ne := h.frames_ne
  near_ne := h.near_ne
  orderly := h.orderly
  settled := h.settled.2
  ready := ((Emits.assign a hown hdirect hbound).ready h.frames_ne h.ready).1

lemma declare {direct : Bool} {a : Assigned} (h : Coupled lost frames (a :: ahead) c)
    (hown : a.inBlock = false) (hdirect : a.direct → direct)
    (hnew : resolves frames a.name = false) :
    Coupled lost (declaring a.name frames) ahead
      (c.adding [⟨a.name, .declared (declarationOf frames a.name)⟩] [a.name]) where
  taken x hx := by
    rcases mem_cons.1 hx with rfl | hx
    · simp [resolves_declaring h.frames_ne]
    · exact resolves_of_resolves_declaring (h.taken x hx)
  bound b hb := by
    rw [Context.bound_adding h.near_ne] at hb
    rcases mem_cons.1 hb with rfl | hb
    · simp [resolves_declaring h.frames_ne]
    · exact resolves_of_resolves_declaring (h.bound b hb)
  const b hb hconst := by
    rw [Context.bound_adding h.near_ne] at hb
    rcases mem_cons.1 hb with rfl | hb
    · -- the plan makes a name constant only if nothing ahead assigns it
      refine h.settled.1 hown ⟨?_, hnew⟩
      by_contra hmutable
      simp [declarationOf, hmutable] at hconst
    · exact fun hmem => h.const b hb hconst (mem_cons_of_mem _ hmem)
  visible x hnot hx := by
    rw [Context.bound_adding h.near_ne]
    rw [resolves_declaring h.frames_ne, Bool.or_eq_true, beq_iff_eq] at hx
    rcases hx with rfl | hx
    · exact ⟨_, mem_cons_self, rfl⟩
    · obtain ⟨b, hb, hname⟩ := h.visible x hnot hx
      exact ⟨b, mem_cons_of_mem _ hb, hname⟩
  frames_ne := declaring_ne_nil h.frames_ne _
  near_ne := Context.near_adding_ne_nil h.near_ne _ _
  orderly := by simpa using h.orderly
  settled := by
    refine h.settled.2.mono fun x hx => ⟨by simpa using hx.1, ?_⟩
    have hfalse := hx.2
    rw [resolves_declaring h.frames_ne, Bool.or_eq_false_iff] at hfalse
    exact hfalse.2
  ready := ((Emits.declare a hown hdirect hnew).ready h.frames_ne h.ready).1

lemma inside (h : Coupled lost frames ahead c) (hlater : ∀ b ∈ later, resolves frames b.name = false) :
    Coupled lost frames ahead (c.awaiting later).inside where
  taken := h.taken
  bound := by simpa using h.bound
  const := by simpa using h.const
  visible := by simpa using h.visible
  frames_ne := h.frames_ne
  near_ne := by simp [Context.inside]
  orderly := h.orderly_awaiting h.orderly hlater
  settled := h.settled
  ready := h.ready

/-- Out of braces, where nothing has been declared if all is to be in reach. -/
lemma outside {frames' : List Frame} {ahead' : List Assigned} {later own : List Local} {names : List Text}
    (h : Coupled lost frames ahead c)
    (h' : Coupled lost frames' ahead' ((c.awaiting later).inside.adding own names))
    (hclosed : ∀ x, ¬ lost x → resolves frames' x → resolves frames x) :
    Coupled lost frames' ahead' (c.adding [] names) where
  taken := h'.taken
  bound b hb := by
    rw [Context.bound_adding h.near_ne] at hb
    refine h'.bound b ?_
    rw [Context.bound_adding (by simp [Context.inside])]
    exact mem_append_right _ (by simpa using hb)
  const b hb := by
    rw [Context.bound_adding h.near_ne] at hb
    refine h'.const b ?_
    rw [Context.bound_adding (by simp [Context.inside])]
    exact mem_append_right _ (by simpa using hb)
  visible x hnot hx := by
    rw [Context.bound_adding h.near_ne]
    exact h.visible x hnot (hclosed x hnot hx)
  frames_ne := h'.frames_ne
  near_ne := Context.near_adding_ne_nil h.near_ne _ _
  orderly := by simpa using h.orderly
  settled := h'.settled
  ready := h'.ready

end Coupled

/-! ## Bodies of functions -/

variable {names : List Text}

lemma mem_allLocals_hoistEvents : b ∈ allLocals (hoistEvents names) ↔ b.name ∈ names ∧ b.binding = .declared .let := by
  induction names with
  | nil => simp [hoistEvents]
  | cons x rest ih =>
    obtain ⟨name, binding⟩ := b
    simp only [hoistEvents, map_cons, allLocals_cons, locals, mem_append,
      Local.mk.injEq, mem_cons, not_mem_nil, or_false] at ih ⊢
    rw [ih]
    tauto

lemma mem_allNames_hoistEvents : x ∈ allNames (hoistEvents names) ↔ x ∈ names := by
  induction names with
  | nil => simp [hoistEvents, Event.allNames]
  | cons y rest ih =>
    simp only [hoistEvents, map_cons, Event.allNames, Event.names, mem_append, mem_cons, not_mem_nil, or_false] at ih ⊢
    rw [ih, or_comm]

/-- Declarations at the start of a body keep what is to be shown. -/
lemma kept_hoistEvents (hnodup : names.Nodup)
    (hnew : ∀ x ∈ names, x ∉ c.taken) (later : List Local) :
    ∀ s ∈ allSites c later (hoistEvents names), s.Kept lost := by
  induction names generalizing c with
  | nil => simp [hoistEvents, allSites]
  | cons x rest ih =>
    rw [nodup_cons] at hnodup
    rw [forall_mem_cons] at hnew
    intro s hs
    rw [hoistEvents, map_cons, allSites, mem_append] at hs
    rcases hs with hs | hs
    · obtain rfl := mem_singleton.1 hs
      exact .of_not_mem hnew.1
    · refine ih hnodup.2 ?_ s hs
      intro y hy hmem
      rcases mem_cons.1 hmem with rfl | hmem
      · exact hnodup.1 hy
      · exact hnew.2 y hy hmem

lemma mem_bound_enter {params names : List Text} :
    b ∈ ((c.enter params).adding (allLocals (hoistEvents names))
        (allNames (hoistEvents names))).bound
      ↔ (b.name ∈ names ∧ b.binding = .declared .let) ∨ (∃ p ∈ params, ⟨p, .parameter⟩ = b) ∨ b ∈ c.bound := by
  rw [Context.bound_adding (by simp [Context.enter]), mem_append, mem_allLocals_hoistEvents,
    Context.bound_enter, mem_append, List.mem_map]

lemma Around.enter {frames : List Frame}
    (h : Around lost frames names c) (horderly : Orderly c.near) (params : List Text) {body : List Node}
    (hsub : assignedNames (assignedInBody body) ⊆ names) :
    Coupled lost (.ofBody frames params body :: frames) (assignedInBody body)
      ((c.enter params).adding (allLocals (hoistEvents (hoisted frames params body)))
        (allNames (hoistEvents (hoisted frames params body)))) where
  taken x hx := by
    rw [resolves_ofBody]
    simp only [Context.adding, Context.enter, mem_append, mem_allNames_hoistEvents] at hx
    rcases hx with hx | hx | hx
    · exact .inr (.inl hx)
    · exact .inl hx
    · exact .inr (.inr (h.taken x hx))
  bound b hb := by
    rw [resolves_ofBody]
    rcases mem_bound_enter.1 hb with hb | ⟨p, hp, rfl⟩ | hb
    · exact .inr (.inl hb.1)
    · exact .inl hp
    · exact .inr (.inr (h.bound b hb))
  const b hb hconst := by
    -- neither parameters nor what is declared at the start is constant
    rcases mem_bound_enter.1 hb with hb | ⟨p, hp, rfl⟩ | hb
    · rw [hb.2] at hconst
      cases hconst
    · cases hconst
    · exact fun hmem => h.const b hb hconst (hsub hmem)
  visible x hnot hx := by
    rcases resolves_ofBody.1 hx with hx | hx | hx
    · exact ⟨⟨x, .parameter⟩, mem_bound_enter.2 (.inr (.inl ⟨x, hx, rfl⟩)), rfl⟩
    · exact ⟨⟨x, .declared .let⟩, mem_bound_enter.2 (.inl ⟨hx, rfl⟩), rfl⟩
    · obtain ⟨b, hb, hname⟩ := h.visible x hnot hx
      exact ⟨b, mem_bound_enter.2 (.inr (.inr hb)), hname⟩
  frames_ne := by simp
  near_ne := Context.near_adding_ne_nil (by simp [Context.enter]) _ _
  orderly := by simpa [Context.enter] using horderly
  settled := settled_ofBody frames params body
  ready := (ready_ofBody frames params body).mono fun _ hx _ => hx

/-- The body of a function keeps what is to be shown, if its statements do. -/
lemma Around.kept_body {frames : List Frame}
    (h : Around lost frames names c) (horderly : Orderly c.near) (params : List Text) {body : List Node}
    (hsub : assignedNames (assignedInBody body) ⊆ names) {es : List Event}
    (hes : ∀ c, Coupled lost (.ofBody frames params body :: frames) (assignedInBody body) c →
      ∀ s ∈ allSites c [] es, s.Kept lost) :
    ∀ s ∈ allSites (c.enter params) [] (hoistEvents (hoisted frames params body) ++ es), s.Kept lost := by
  rw [allSites_append, forall_mem_append]
  refine ⟨kept_hoistEvents (nodup_hoisted frames params body) ?_ _, hes _ (h.enter horderly params hsub)⟩
  -- what is declared at the start is neither a parameter nor bound around the body
  intro x hx hmem
  obtain ⟨u, -, -, -, hparams, houter⟩ := mem_hoisted.1 hx
  rcases mem_append.1 hmem with hmem | hmem
  · exact hparams hmem
  · rw [h.taken x hmem] at houter
    cases houter

/-! ## Whole runs -/

/-- Nothing is around the body of a program or method. -/
lemma Around.apart (lost : Text → Prop) (names : List Text) (c : Context) : Around lost [] names c.apart where
  taken := by simp [Context.apart]
  bound := by simp [Context.apart, Context.bound]
  const := by simp [Context.apart, Context.bound]
  visible := by simp [resolves]

/-- Code emitted by the rules keeps what is to be shown, and the invariant. -/
lemma Emits.kept {direct : Bool} {frames frames' : List Frame}
    {ahead ahead' : List Assigned} {es : List Event} (h : Emits lost direct frames ahead es frames' ahead') :
    ∀ (c : Context) (later : List Local), Coupled lost frames ahead c →
      (∀ b ∈ later, resolves frames' b.name = false) →
      (∀ s ∈ allSites c later es, s.Kept lost)
        ∧ Coupled lost frames' ahead' (c.adding (allLocals es) (allNames es)) := by
  -- `later` holds what the code after this piece declares in the same braces
  induction h with
  | skip left hleft =>
    intro c later hc _
    exact ⟨by simp [Event.allSites], by simpa [Event.allNames] using hc.skip hleft⟩
  | seq h h' ih ih' =>
    intro c later hc hlater
    have hlater₁ := fun b hb => h'.not_resolves (hlater b hb)
    obtain ⟨hsites, hc₁⟩ := ih c (later ++ allLocals _) hc (forall_mem_append.2
      ⟨hlater₁, fun b hb => (h'.resolves_allLocals (h.frames_ne_nil hc.frames_ne) b hb).1⟩)
    obtain ⟨hsites', hc₂⟩ := ih' _ later hc₁ hlater
    rw [allSites_append, forall_mem_append]
    refine ⟨⟨hsites, hsites'⟩, ?_⟩
    simpa using hc₂
  | assign a hown hdirect hbound =>
    intro c later hc hlater
    refine ⟨?_, by simpa [Event.locals, Event.allNames, Event.names] using hc.assign hown hdirect hbound⟩
    simpa [Event.allSites, Event.sites] using hc.kept_assign hown hbound hlater
  | declare a hown hdirect hnew =>
    intro c later hc hlater
    refine ⟨?_, by simpa [Event.locals, Event.allNames, Event.names] using hc.declare hown hdirect hnew⟩
    have hfree : a.name ∉ (c.awaiting later).taken := fun hmem => by
      rw [hc.taken a.name hmem] at hnew
      cases hnew
    simpa [Event.allSites, Event.sites] using Site.Kept.of_not_mem hfree
  | arrow body hnames h ih =>
    intro c later hc hlater
    refine ⟨?_, by simpa [Event.locals, Event.allNames, Event.names] using hc⟩
    have horderly := hc.orderly_awaiting hc.orderly hlater
    simpa [Event.allSites, Event.sites] using
      (hc.toAround.awaiting later).kept_body horderly _ hnames fun c' hc' => (ih c' [] hc' (by simp)).1
  | method body h ih =>
    intro c later hc hlater
    refine ⟨?_, by simpa [Event.locals, Event.allNames, Event.names] using hc⟩
    simpa [Event.allSites, Event.sites] using
      (Around.apart lost _ (c.awaiting later)).kept_body trivial _ (List.Subset.refl _) fun c' hc' =>
        (ih c' [] hc' (by simp)).1
  | braces h ih =>
    intro c later hc hlater
    have hlater₁ := fun b hb => h.not_resolves (hlater b hb)
    obtain ⟨hsites, hc'⟩ := ih _ [] (hc.inside hlater₁) (by simp)
    refine ⟨by simpa [Event.allSites, Event.sites] using hsites, ?_⟩
    -- what the braces declare is gone after them
    have hout := hc.outside hc' ((h.ready hc.frames_ne hc.ready).2 rfl)
    simpa [Event.locals, Event.allNames, Event.names] using hout

/-- Every assignment and declaration of a script is as it should be. -/
lemma kept_script (o : Options) (nodes : List Node) :
    ∀ s ∈ sites (script o nodes).1, s.Kept fun x => (script o nodes).2.2 ≠ 0 ∧ LosesAnywhere o nodes x := by
  obtain ⟨es, frames, hevents, hemits⟩ := script_emits o nodes
  rw [sites, hevents]
  have hempty := Around.apart (fun x => (script o nodes).2.2 ≠ 0 ∧ LosesAnywhere o nodes x)
    (assignedNames (assignedInBody nodes)) ⟨[], [], []⟩
  exact hempty.kept_body trivial [] (List.Subset.refl _) fun c hc => (hemits.kept c [] hc (by simp)).1

/-- **The declarations of generated code.** Every body declares a name at most once, and never a parameter
or a name that is bound around it. A constant is assigned again by loose assignments only; and without comments
no assignment is loose: each refers to a declaration or parameter that comes before it. -/
theorem script_declarations (o : Options) (nodes : List Node) :
    (∀ b ∈ bodies (script o nodes).1, Event.DeclaresOnce b)
      ∧ (∀ s ∈ sites (script o nodes).1, s.declares.isSome = true → s.name ∉ s.context.taken)
      ∧ (∀ s ∈ sites (script o nodes).1, s.Reassigns → s.Loose)
      ∧ ((compile o nodes).unsupported = 0 → ∀ s ∈ sites (script o nodes).1, ¬ s.Loose) := by
  have hkept := kept_script o nodes
  have hfresh := fun s hs => (hkept s hs).fresh
  have hloose : ∀ s ∈ sites (script o nodes).1, s.Reassigns → s.Loose := by
    rintro s hs ⟨hnone, hconst⟩
    refine ⟨hnone, fun hnear => ?_⟩
    obtain ⟨r, hr, hbinding⟩ := map_eq_some_iff.1 hconst
    rw [hr] at hnear
    exact (hkept s hs).const hnone r hr (some.inj hnear) hbinding
  obtain ⟨⟨hnodup, -⟩, hbodies⟩ := allDeclareOnce_of_fresh _ _ _ hfresh
  refine ⟨forall_mem_cons.2 ⟨⟨hnodup, by simp⟩, hbodies⟩, hfresh, hloose, ?_⟩
  rintro hclean s hs ⟨hnone, hfar⟩
  obtain ⟨r, hr, hnear⟩ := (hkept s hs).bound (fun hlost => hlost.1 hclean) hnone
  exact hfar (by rw [hr, map_some, hnear])

/-- A constant, and a method whose local of the same name loses its declaration to a comment. -/
def lostDeclaration : List Node :=
  [.assignment .none "x" .local [] (.integer .none 1),
    .method .none "f" [] [
      .assignment .none "x" .local [] (.unknown .none "LambdaNode" []),
      .assignment .none "x" .local "+" (.integer .none 2)]]

/-- Loose assignments do meet constants: the method's assignment refers to the constant outside it. -/
theorem reassigns_lostDeclaration : ∃ s ∈ sites (script .default lostDeclaration).1, s.name = "x" ∧ s.Reassigns := by
  decide +kernel

/-! ## Comments in place of declarations -/

/-- **A comment unbinds only what it would have declared.** Whatever is replaced by comments, an assignment is in the
scope of a declaration or parameter before it, unless some body has lost the declaration of its name: a plain
assignment to the name, among the body's own statements, whose value cannot be expressed. -/
theorem script_bound_unless_lost (o : Options) (nodes : List Node) {s : Site}
    (hs : s ∈ sites (script o nodes).1) (hnone : s.declares = none)
    (hkept : ¬ LosesAnywhere o nodes s.name) :
    ∃ r, s.context.resolve s.name = some r ∧ r.near = true :=
  (kept_script o nodes s hs).bound (fun hlost => hkept hlost.2) hnone

/-- Comments in place of a loop, of an entry and of the declaration of another name. -/
def foreignComments : List Node :=
  [.assignment .none "y" .local [] (.unknown .none "LambdaNode" []),
    .loop .none (.unknown .none "LambdaNode" []) false [.assignment .none "x" .local [] (.nil .none)],
    .assignment .none "x" .local "+" (.array .none [.unknown .none "LambdaNode" []])]

lemma not_losesAnywhere_foreignComments : ¬ LosesAnywhere .default foreignComments "x" := by
  rintro ⟨body, hbody, span, scope, value, hmem, -, -⟩
  simp only [foreignComments, allSourceBodies, sourceBodies, append_nil, mem_singleton] at hbody
  subst hbody
  -- the one plain assignment among the statements is to the other name
  simp only [mem_cons, Node.assignment.injEq, reduceCtorEq, not_mem_nil, or_false, false_or] at hmem
  rcases hmem with ⟨-, hname, -⟩ | ⟨-, -, -, hoperator, -⟩
  · exact absurd hname (by decide)
  · exact absurd hoperator (by decide)

theorem script_bound_unless_lost_foreignComments :
    ∃ s ∈ sites (script .default foreignComments).1, s.name = "x" ∧ s.declares = none ∧
      ∃ r, s.context.resolve s.name = some r ∧ r.near = true := by
  have hsite : ∃ s ∈ sites (script .default foreignComments).1, s.name = "x" ∧ s.declares = none := by
    decide +kernel
  obtain ⟨s, hs, hname, hnone⟩ := hsite
  have hkept : ¬ LosesAnywhere .default foreignComments s.name := by
    rw [hname]
    exact not_losesAnywhere_foreignComments
  exact ⟨s, hs, hname, hnone, script_bound_unless_lost .default foreignComments hs hnone hkept⟩

/-- A name whose declaration is lost to a comment, and assigned again. -/
def unboundAssignment : List Node :=
  [.assignment .none "x" .local [] (.unknown .none "LambdaNode" []),
    .assignment .none "x" .local "+" (.integer .none 2)]

/-- Nothing in the generated code binds the name that is assigned. -/
theorem unbound_unboundAssignment :
    ∃ s ∈ sites (script .default unboundAssignment).1,
      s.name = "x" ∧ s.declares = none ∧ s.context.resolve s.name = none := by
  decide +kernel

end Transpiler.Script
