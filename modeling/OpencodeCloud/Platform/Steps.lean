/-
# OpencodeCloud.Platform.Steps -- what one step of the platform does

`Stepped` takes a step apart once; the lemmas after it say what a step does to each part of the state.
The operations service and the catalog inside the platform take their own steps and no others
(`operations_step`, `catalog_step`), so every run of the platform is a run of each of them
(`runs_operations`, `runs_catalog`), and what holds of all their runs holds here.
-/
import OpencodeCloud.Catalog.Writes
import OpencodeCloud.Operations.Tasks
import OpencodeCloud.Platform.System

namespace OpencodeCloud.Platform

open OpencodeCloud.Library OpencodeCloud.Catalog OpencodeCloud.Operations

namespace State

variable {env : Service.Environment} {p q : State}

/-! ## §A Inversion -/

/-- What a step is. -/
inductive Stepped (env : Service.Environment) (p : State) : Event → State → Prop
  | operated (e : Operations.Event) (sys : Operations.System) (independent : independent e = true)
      (step : p.operations.step e = some sys) :
    Stepped env p (.operate e) { p.withdrawn e with operations := sys }
  | executed (c : Caller) (luck : Luck) (l : Letter) (awaited : p.letter c = some l)
      (open' : p.answers.lookup c = none) (new : p.newId luck l.call = true) :
    Stepped env p (.execute c luck)
      { (p.carryOut env luck true l).1 with
        answers := p.answers.insert c (p.carryOut env luck true l).2 }
  | answered (c : Caller) (reply : Reply) (sys : Operations.System)
      (found : p.answers.lookup c = some reply) (step : p.operations.step (c.takes reply) = some sys) :
    Stepped env p (.answer c) { p with operations := sys, answers := p.answers.erase c }
  | lost (c : Caller) (raised : Bool) (l : Letter) (sys : Operations.System)
      (awaited : p.letter c = some l)
      (step : p.operations.step (c.takes (failure raised l.call)) = some sys) :
    Stepped env p (.lose c raised) { p.withdraw c with operations := sys }
  | executedLate (i : Nat) (luck : Luck) (l : Letter) (found : p.abandoned[i]? = some l)
      (new : p.newId luck l.call = true) :
    Stepped env p (.late i luck)
      { (p.carryOut env luck false l).1 with abandoned := p.abandoned.eraseIdx i }
  | edited (c : Command) (s : Service) (administrative : administrative c = true)
      (step : (Catalog.catalog env).step p.catalog c = some s) :
    Stepped env p (.edit c) { p with catalog := s }
  | loaded (aid : String) (fault : Option Fault) : Stepped env p (.load aid fault) (p.load aid fault)

/-- **Inversion of a step of the platform.** -/
theorem step_stepped {e : Event} (h : p.step env e = some q) : Stepped env p e q := by
  cases e with
  | operate e =>
    simp only [step, operate] at h
    split at h
    · next hi =>
      obtain ⟨sys, hstep, rfl⟩ := Option.map_eq_some_iff.mp h
      exact .operated e sys hi hstep
    · exact absurd h (by simp)
  | execute c luck =>
    simp only [step, execute, Option.bind_eq_bind, Option.bind_eq_some_iff] at h
    obtain ⟨l, hl, h⟩ := h
    split at h
    · exact absurd h (by simp)
    · next hopen =>
      obtain rfl := Option.some.inj h
      simp only [Bool.or_eq_true, not_or, Bool.not_eq_true, Option.isSome_eq_false_iff,
        Option.isNone_iff_eq_none, Bool.not_eq_true'] at hopen
      exact .executed c luck l hl hopen.1 (by simpa using hopen.2)
  | answer c =>
    simp only [step, answer, Option.bind_eq_bind, Option.bind_eq_some_iff,
      Option.map_eq_some_iff] at h
    obtain ⟨reply, hreply, sys, hstep, rfl⟩ := h
    exact .answered c reply sys hreply hstep
  | lose c raised =>
    simp only [step, lose, Option.bind_eq_bind, Option.bind_eq_some_iff, Option.map_eq_some_iff] at h
    obtain ⟨l, hl, sys, hstep, rfl⟩ := h
    exact .lost c raised l sys hl hstep
  | late i luck =>
    simp only [step, late, Option.bind_eq_bind, Option.bind_eq_some_iff] at h
    obtain ⟨l, hl, h⟩ := h
    split at h
    · next hnew =>
      obtain rfl := Option.some.inj h
      exact .executedLate i luck l hl hnew
    · exact absurd h (by simp)
  | edit c =>
    simp only [step, edit] at h
    split at h
    · next ha =>
      obtain ⟨s, hstep, rfl⟩ := Option.map_eq_some_iff.mp h
      exact .edited c s ha hstep
    · exact absurd h (by simp)
  | load aid fault =>
    obtain rfl := Option.some.inj h
    exact .loaded aid fault

/-! ## §B What a request does -/

section CarryOut

variable (env : Service.Environment) (p : State) (luck : Luck) (awaited : Bool) (l : Letter)

@[simp] theorem perform_operations (c : Call) :
    (p.perform env luck c).1.operations = p.operations := by
  unfold perform
  split <;> rfl

@[simp] theorem perform_answers (c : Call) : (p.perform env luck c).1.answers = p.answers := by
  unfold perform
  split <;> rfl

@[simp] theorem perform_abandoned (c : Call) :
    (p.perform env luck c).1.abandoned = p.abandoned := by
  unfold perform
  split <;> rfl

/-- Only its own calls reach the catalog. -/
@[simp] theorem perform_catalog (c : Call) :
    (p.perform env luck c).1.catalog = askCatalog env p.catalog luck.fresh c := by
  cases c <;> rfl

@[simp] theorem perform_manager (c : Call) :
    (p.perform env luck c).1.manager = (askManager p.data p.manager luck.fault c).1 := by
  cases c <;> rfl

@[simp] theorem perform_gateway (c : Call) :
    (p.perform env luck c).1.gateway = (askGateway p.gateway luck.fault c).1 := by
  cases c <;> rfl

@[simp] theorem carryOut_operations :
    (p.carryOut env luck awaited l).1.operations = p.operations := by
  simp [carryOut]

@[simp] theorem carryOut_answers : (p.carryOut env luck awaited l).1.answers = p.answers := by
  simp [carryOut]

@[simp] theorem carryOut_abandoned : (p.carryOut env luck awaited l).1.abandoned = p.abandoned := by
  simp [carryOut]

@[simp] theorem carryOut_catalog :
    (p.carryOut env luck awaited l).1.catalog = askCatalog env p.catalog luck.fresh l.call := by
  simp [carryOut]

@[simp] theorem carryOut_manager : (p.carryOut env luck awaited l).1.manager =
    (askManager p.data p.manager luck.fault l.call).1 := by
  simp [carryOut]

@[simp] theorem carryOut_gateway : (p.carryOut env luck awaited l).1.gateway =
    (askGateway p.gateway luck.fault l.call).1 := by
  simp [carryOut]

@[simp] theorem carryOut_relies : (p.carryOut env luck awaited l).1.relies =
    p.reliesAfter awaited l (p.perform env luck l.call).2 := rfl

@[simp] theorem carryOut_undone : (p.carryOut env luck awaited l).1.undone = p.undoneAfter l := rfl

theorem carryOut_reply :
    (p.carryOut env luck awaited l).2 = (p.perform env luck l.call).2 := rfl

end CarryOut

@[simp] theorem withdrawn_frame (p : State) (e : Operations.Event) :
    (p.withdrawn e).catalog = p.catalog ∧ (p.withdrawn e).manager = p.manager ∧
      (p.withdrawn e).gateway = p.gateway ∧ (p.withdrawn e).relies = p.relies ∧
      (p.withdrawn e).undone = p.undone := by
  unfold withdrawn
  split <;> exact ⟨rfl, rfl, rfl, rfl, rfl⟩

/-! ## §C The services inside the platform -/

/-- The step of operations inside a step of the platform, if there is one: a step of its own, or an
answer that a caller takes. -/
theorem operations_step {e : Event} (h : p.step env e = some q) :
    q.operations = p.operations ∨ ∃ e', p.operations.step e' = some q.operations ∧
      (e = .operate e' ∨ ∃ (c : Caller) (reply : Reply), e' = c.takes reply) := by
  cases step_stepped h with
  | operated e sys _ hstep => exact Or.inr ⟨e, hstep, Or.inl rfl⟩
  | executed c luck l _ _ _ => exact Or.inl (by simp)
  | answered c reply sys _ hstep => exact Or.inr ⟨_, hstep, Or.inr ⟨c, reply, rfl⟩⟩
  | lost c raised l sys _ hstep => exact Or.inr ⟨_, hstep, Or.inr ⟨c, _, rfl⟩⟩
  | executedLate i luck l _ _ => exact Or.inl (by simp)
  | edited c s _ _ => exact Or.inl rfl
  | loaded aid fault => exact Or.inl rfl

/-- A call that the catalog carries out is a step of the catalog, or leaves it alone. -/
theorem askCatalog_step {s : Service} {fresh : String} {c : Call}
    (hnew : ∀ kind target request, c = .prepare kind target request →
      s.store.data.releases.lookup fresh = none) :
    askCatalog env s fresh c = s ∨ ∃ command, catalogCommand fresh c = some command ∧
      (Catalog.catalog env).step s command = some (askCatalog env s fresh c) := by
  unfold askCatalog
  cases hc : catalogCommand fresh c with
  | none => exact Or.inl rfl
  | some command =>
    refine Or.inr ⟨command, rfl, ?_⟩
    have hfresh : command.fresh s.store.data = true := by
      cases c <;> simp only [catalogCommand, Option.some.injEq, reduceCtorEq] at hc
      case prepare kind target request =>
        subst hc
        simp [Command.fresh, hnew kind target request rfl]
      all_goals (subst hc; rfl)
    simp only [Catalog.catalog, Service.step, hfresh, if_true]
    cases s.handle env command <;> rfl

theorem newId_prepare {luck : Luck} {c : Call} (h : p.newId luck c = true) :
    ∀ kind target request, c = .prepare kind target request →
      p.data.releases.lookup luck.fresh = none := by
  rintro kind target request rfl
  simpa [newId] using h

/-- The command of the catalog inside a step of the platform, if there is one. -/
theorem catalog_step {e : Event} (h : p.step env e = some q) :
    q.catalog = p.catalog ∨
    ∃ command, (Catalog.catalog env).step p.catalog command = some q.catalog := by
  cases step_stepped h with
  | operated e sys _ _ => exact Or.inl (p.withdrawn_frame e).1
  | executed c luck l _ _ hnew =>
    rcases @askCatalog_step env _ _ _ (newId_prepare hnew) with hsame | ⟨command, _, hstep⟩
    · exact Or.inl (by simpa using hsame)
    · exact Or.inr ⟨command, by simpa using hstep⟩
  | answered c reply sys _ _ => exact Or.inl rfl
  | lost c raised l sys _ _ => exact Or.inl rfl
  | executedLate i luck l _ hnew =>
    rcases @askCatalog_step env _ _ _ (newId_prepare hnew) with hsame | ⟨command, _, hstep⟩
    · exact Or.inl (by simpa using hsame)
    · exact Or.inr ⟨command, by simpa using hstep⟩
  | edited c s _ hstep => exact Or.inr ⟨c, hstep⟩
  | loaded aid fault => exact Or.inl rfl

end State

/-- The operations service inside the platform behaves as `OpencodeCloud.Operations` says. -/
theorem runs_operations {env : Service.Environment} {code data : String} {es : List Event} {q : State}
    (hrun : (platform env).run (State.initial code data) es = some q) :
    ∃ es', operations.run System.initial es' = some q.operations :=
  (platform env).run_project (n := operations) (f := State.operations)
    (fun _ _ _ h => (State.operations_step h).imp_right fun ⟨e, hstep, _⟩ => ⟨e, hstep⟩) hrun

/-- The catalog inside the platform behaves as `OpencodeCloud.Catalog` says. -/
theorem runs_catalog {env : Service.Environment} {code data : String} {es : List Event} {q : State}
    (hrun : (platform env).run (State.initial code data) es = some q) :
    ∃ cs, (Catalog.catalog env).run (Service.initial code data) cs = some q.catalog :=
  (platform env).run_project (n := Catalog.catalog env) (f := State.catalog)
    (fun _ _ _ h => State.catalog_step h) hrun

end OpencodeCloud.Platform
