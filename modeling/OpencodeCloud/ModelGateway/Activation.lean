/-
# OpencodeCloud.ModelGateway.Activation -- memory and file agree over every sequence of calls

One service process over one disk: calls with any payload, a router that may not build, file operations
that may fail, crashes at any point and restarts. The documents that `active.json` has held form a
`Ledger`: each was made from the one before it by an activation, which keeps the release it replaces as
`previous`, or by a rollback, which returns to that release and forgets it. The state in memory is what
the newest of them reads back as, so the file is a complete account of it.
-/
import OpencodeCloud.Library.Machine
import OpencodeCloud.ModelGateway.State

namespace OpencodeCloud.ModelGateway

open OpencodeCloud.Library OpencodeCloud.Library.Checked

/-! ## Valid releases -/

/-- A release that `validate_release` lets through. -/
def Valid (release : Json) : Prop := validateRelease release = .ok release

theorem Router.ofConfiguration_eq_ok {config modelList : Json} {fields : List (String × Json)}
    (hlist : config.get? "model_list" = some modelList)
    (hset : (config.get? "router_settings").getD (.object []) = .object fields) :
    Router.ofConfiguration config
      = .ok ⟨modelList, fields.filter fun f => routerSettings.contains f.1⟩ := by
  simp only [Router.ofConfiguration, subscript, hlist, hset]
  rfl

theorem makeRouter_eq_ok {fails : Bool} {config : Json} {r : Router}
    (h : makeRouter fails config = .ok r) :
    fails = false ∧ Router.ofConfiguration config = .ok r := by
  cases fails with
  | false => exact ⟨rfl, h⟩
  | true => simp [makeRouter] at h

/-- What follows from a payload that is let through. -/
theorem validateRelease_ok {payload release : Json} (h : validateRelease payload = .ok release) :
    release = payload ∧ (∃ s, payload.get? "release_id" = some (.string s) ∧ s ≠ "") ∧
      ∃ config r, payload.get? "configuration" = some config ∧
        Router.ofConfiguration config = .ok r := by
  simp only [validateRelease, bind_eq_ok, refuse_eq_ok] at h
  obtain ⟨_, hid, h⟩ := h
  have hreleaseId : ∃ s, payload.get? "release_id" = some (.string s) ∧ s ≠ "" := by
    cases hget : payload.get? "release_id" with
    | none => simp [hget] at hid
    | some v =>
      cases v with
      | string s => exact ⟨s, rfl, by simpa [hget, Json.isString, Json.truthy] using hid⟩
      | _ => simp [hget, Json.isString] at hid
  split at h
  · next modelList hlist =>
    obtain ⟨config, hconfig, hmodels⟩ := Option.bind_eq_some_iff.mp hlist
    simp only [bind_eq_ok, refuse_eq_ok, pure_eq_ok, hconfig, Option.getD_some,
      Bool.not_eq_false'] at h
    obtain ⟨_, _, _, hsettings, _, _, rfl⟩ := h
    refine ⟨rfl, hreleaseId, config, ?_⟩
    cases hset : (config.get? "router_settings").getD (.object []) with
    | object fields =>
      exact ⟨_, hconfig, Router.ofConfiguration_eq_ok hmodels hset⟩
    | _ => simp [hset, Json.isObject] at hsettings
  · simp at h

theorem Valid.truthy {release : Json} (h : Valid release) : release.truthy = true := by
  obtain ⟨-, ⟨s, hs, -⟩, -⟩ := validateRelease_ok h
  exact Json.truthy_of_get? hs

/-- The router of a valid release is built, unless building it fails. -/
theorem Valid.configuration {release : Json} (h : Valid release) :
    ∃ config r, release.get? "configuration" = some config ∧ Router.ofConfiguration config = .ok r :=
  (validateRelease_ok h).2.2

/-! ## The service over its disk -/

/-- The process, when it runs, and the disk. -/
structure Service where
  process : Option GatewayState
  disk : Disk

/-- No process yet, and no file. -/
def Service.initial : Service := ⟨none, none, []⟩

inductive Event
  | call (request : Request) (fails : Bool) (interrupt : Interrupt)
  | crash
  | start (fails : Bool)

namespace Service

/-- After a call the process lives on, unless it died in it. -/
def settle (o : GatewayState.Outcome) : Service :=
  match o.ending with
  | .died => ⟨none, o.disk⟩
  | _ => ⟨some o.memory, o.disk⟩

def step (s : Service) : Event → Option Service
  | .call request fails interrupt =>
    s.process.map fun g => settle (request.call fails interrupt g s.disk)
  | .crash => some { s with process := none }
  | .start fails =>
    match s.process, GatewayState.init fails s.disk with
    | none, .ok g => some { s with process := some g }
    | none, .error _ => some s
    | some _, _ => none

end Service

def service : Machine Service Event := ⟨Service.step⟩

/-! ## The ledger -/

/-- The documents that the file has held, newest first. -/
inductive Ledger : List Text → Prop
  | empty : Ledger []
  | first {release : Json} : Valid release → Ledger [.document release .null]
  | activated {release a p : Json} {vs : List Text} :
      Ledger (.document a p :: vs) → Valid release →
        Ledger (.document release a :: .document a p :: vs)
  | reverted {a p : Json} {vs : List Text} :
      Ledger (.document a p :: vs) → p.truthy = true →
        Ledger (.document p .null :: .document a p :: vs)

/-- The `previous` of a document is `None` or the active release of the document before it. -/
theorem Ledger.newest {a p : Json} {vs : List Text} (h : Ledger (.document a p :: vs)) :
    Valid a ∧ (p = .null ∨ Valid p ∧ ∃ q ws, vs = .document p q :: ws) := by
  generalize hl : Text.document a p :: vs = l at h
  induction h generalizing a p vs with
  | empty => cases hl
  | first hvalid =>
    cases hl
    exact ⟨hvalid, .inl rfl⟩
  | activated _ hvalid ih =>
    cases hl
    exact ⟨hvalid, .inr ⟨(ih rfl).1, _, _, rfl⟩⟩
  | reverted _ hp ih =>
    cases hl
    rcases (ih rfl).2 with rfl | ⟨hvalid, -⟩
    · simp [Json.truthy] at hp
    · exact ⟨hvalid, .inl rfl⟩

/-! ## What the file reads back as -/

/-- The router was built from the active release's configuration. -/
def GatewayState.BuiltFromActive (g : GatewayState) : Prop :=
  ∃ config r, g.active.get? "configuration" = some config ∧ Router.ofConfiguration config = .ok r ∧
    g.router = some r

/-- A state in memory that fits a file with these documents. -/
inductive Mirrors : GatewayState → List Text → Prop
  | blank : Mirrors ⟨.null, .null, none⟩ []
  | loaded {g : GatewayState} {vs : List Text} :
      g.BuiltFromActive → Mirrors g (.document g.active g.previous :: vs)

/-- A state that fits the file is what the file reads back as. -/
theorem Mirrors.init {g : GatewayState} {d : Disk} (hledger : Ledger d.versions)
    (h : Mirrors g d.versions) : GatewayState.init false d = .ok g := by
  generalize hvs : d.versions = vs at hledger h
  cases h with
  | blank => simp [GatewayState.init, Disk.active, hvs]
  | loaded hbuilt =>
    obtain ⟨config, r, hconfig, hr, hrouter⟩ := hbuilt
    have hvalid : validateRelease g.active = .ok g.active := hledger.newest.1
    obtain ⟨active, previous, router⟩ := g
    simp only at hconfig hrouter hvalid hvs
    subst hrouter
    simp only [GatewayState.init, Disk.active, hvs, List.head?_cons, hvalid, subscript, makeRouter,
       bind_eq_ok, orRaise_eq_ok, pure_eq_ok]
    exact ⟨active, rfl, config, hconfig, r, by simpa using hr, rfl⟩

/-- Every file of a ledger reads back as some state. -/
theorem Ledger.readable {d : Disk} (h : Ledger d.versions) :
    ∃ g, Mirrors g d.versions ∧ GatewayState.init false d = .ok g := by
  have hmirror : ∃ g, Mirrors g d.versions := by
    generalize d.versions = vs at h
    have hloaded : ∀ {a p ws}, Ledger (.document a p :: ws) →
        ∃ g, Mirrors g (.document a p :: ws) := by
      intro a p ws hvs
      obtain ⟨config, r, hconfig, hr⟩ := hvs.newest.1.configuration
      exact ⟨⟨a, p, some r⟩, .loaded ⟨config, r, hconfig, hr, rfl⟩⟩
    cases h with
    | empty => exact ⟨_, .blank⟩
    | first hvalid => exact hloaded (.first hvalid)
    | activated hvs hvalid => exact hloaded (.activated hvs hvalid)
    | reverted hvs hp => exact hloaded (.reverted hvs hp)
  exact hmirror.imp fun g hg => ⟨hg, hg.init h⟩

/-- What a process finds in the file when it starts fits the file. -/
theorem Mirrors.of_init {g : GatewayState} {d : Disk} {fails : Bool} (hledger : Ledger d.versions)
    (h : GatewayState.init fails d = .ok g) : Mirrors g d.versions := by
  have hworks : GatewayState.init false d = .ok g := by
    unfold GatewayState.init at h ⊢
    split at h
    · exact h
    · exact h
    · simp only [bind_eq_ok] at h ⊢
      obtain ⟨a, ha, c, hc, r, hr, hg⟩ := h
      exact ⟨a, ha, c, hc, r, by simpa [makeRouter] using (makeRouter_eq_ok hr).2, hg⟩
  obtain ⟨g', hg', hinit⟩ := hledger.readable
  obtain rfl : g = g' := Except.ok.inj (hworks.symm.trans hinit)
  exact hg'

/-! ## What a call writes -/

theorem Disk.after_versions {d : Disk} {a p : Json} {n : Nat} :
    (n < 7 ∧ (d.after a p n).versions = d.versions) ∨
      (7 ≤ n ∧ (d.after a p n).versions = .document a p :: d.versions) := by
  by_cases hn : n < 7
  · refine .inl ⟨hn, ?_⟩
    rcases n with _ | _ | _ | _ | _ | _ | _ | n
    all_goals first | rfl | omega
  · refine .inr ⟨by omega, ?_⟩
    rw [Disk.after, List.take_of_length_le (by simpa [persistOps] using hn)]
    rfl

namespace GatewayState

/-- **What keeping a new state can do**: all of it, or nothing that a reader of the file or of the
memory sees, or the process dies before or after the file is replaced. -/
theorem keep_cases (interrupt : Interrupt) (g new : GatewayState) (d : Disk) :
    let o := g.keep interrupt new d
    (o.ending = .returned new.status ∧ o.memory = new ∧
        o.disk.versions = .document new.active new.previous :: d.versions) ∨
      ((∃ e, o.ending = .raised e) ∧ o.memory = g ∧ o.disk.versions = d.versions) ∨
      (o.ending = .died ∧ (o.disk.versions = d.versions ∨
        o.disk.versions = .document new.active new.previous :: d.versions)) := by
  have hall : (d.after new.active new.previous 7).versions
      = .document new.active new.previous :: d.versions := rfl
  cases interrupt with
  | none => exact .inl ⟨rfl, rfl, hall⟩
  | fails n =>
    by_cases hn : n < 7
    · refine .inr (.inl ?_)
      simp only [keep, persist, hn, if_true]
      rcases Disk.after_versions with ⟨-, h⟩ | ⟨h, -⟩
      · exact ⟨⟨_, rfl⟩, trivial, h⟩
      · omega
    · refine .inl ?_
      simp only [keep, persist, hn, if_false]
      exact ⟨trivial, trivial, hall⟩
  | crashes n =>
    refine .inr (.inr ⟨rfl, ?_⟩)
    rcases Disk.after_versions with ⟨-, h⟩ | ⟨-, h⟩
    · exact .inl h
    · exact .inr h

/-- What an activation is about to keep. -/
theorem activation_eq_some {fails : Bool} {payload : Json} {g new : GatewayState}
    (h : g.activation fails payload = .ok (some new)) :
    Valid payload ∧ new.active = payload ∧ new.previous = g.active ∧ new.BuiltFromActive := by
  simp only [activation, bind_eq_ok] at h
  obtain ⟨release, hvalid, releaseId, -, h⟩ := h
  obtain ⟨rfl, -⟩ := validateRelease_ok hvalid
  split at h
  · simp only [bind_eq_ok, pure_eq_ok] at h
    obtain ⟨_, -, hnone⟩ := h
    cases hnone
  · simp only [bind_eq_ok, subscript, orRaise_eq_ok, pure_eq_ok, Option.some.injEq] at h
    obtain ⟨config, hconfig, r, hr, rfl⟩ := h
    exact ⟨hvalid, rfl, rfl, config, r, hconfig, (makeRouter_eq_ok hr).2, rfl⟩

/-- An activation of the active release has nothing to keep. -/
theorem activation_of_holds {fails : Bool} {payload releaseId : Json} {g : GatewayState}
    {new : Option GatewayState} (hid : payload.get? "release_id" = some releaseId)
    (hholds : g.holds releaseId = true) (h : g.activation fails payload = .ok new) : new = none := by
  simp only [activation, bind_eq_ok, subscript, orRaise_eq_ok] at h
  obtain ⟨release, hvalid, releaseId', hid', h⟩ := h
  obtain ⟨rfl, -⟩ := validateRelease_ok hvalid
  obtain rfl : releaseId = releaseId' := Option.some.inj (hid.symm.trans hid')
  rw [if_pos hholds] at h
  simp only [bind_eq_ok, refuse_eq_ok, pure_eq_ok] at h
  exact h.choose_spec.2.symm

/-- What a rollback is about to keep. -/
theorem reversal_eq_ok {fails : Bool} {releaseId : Json} {g new : GatewayState}
    (h : g.reversal fails releaseId = .ok new) :
    g.holds releaseId = true ∧ g.previous.truthy = true ∧ new.active = g.previous ∧
      new.previous = .null ∧ new.BuiltFromActive := by
  simp only [reversal, bind_eq_ok, refuse_eq_ok, Bool.not_eq_false', subscript, orRaise_eq_ok,
    pure_eq_ok] at h
  obtain ⟨_, hholds, _, hprevious, config, hconfig, r, hr, rfl⟩ := h
  exact ⟨hholds, hprevious, rfl, rfl, config, r, hconfig, (makeRouter_eq_ok hr).2, rfl⟩

end GatewayState

/-- A state that a call is about to keep. -/
def Request.Proposes (fails : Bool) (g new : GatewayState) : Request → Prop
  | .activate payload => g.activation fails payload = .ok (some new)
  | .rollback releaseId => g.reversal fails releaseId = .ok new

/-- A call either keeps a new state, or it touches nothing. -/
theorem Request.call_cases (request : Request) (fails : Bool) (interrupt : Interrupt)
    (g : GatewayState) (d : Disk) :
    (∃ new, request.Proposes fails g new ∧
        request.call fails interrupt g d = g.keep interrupt new d) ∨
      (∃ ending, request.call fails interrupt g d = ⟨ending, g, d⟩ ∧ ending ≠ .died ∧
        ((∃ releaseId, request = .rollback releaseId) → ∃ e, ending = .raised e)) := by
  cases request with
  | activate payload =>
    simp only [Request.call, GatewayState.activate]
    split
    · exact .inr ⟨_, rfl, nofun, fun ⟨_, h⟩ => nomatch h⟩
    · exact .inr ⟨_, rfl, nofun, fun ⟨_, h⟩ => nomatch h⟩
    · next new h => exact .inl ⟨new, h, rfl⟩
  | rollback releaseId =>
    simp only [Request.call, GatewayState.rollback]
    split
    · exact .inr ⟨_, rfl, nofun, fun _ => ⟨_, rfl⟩⟩
    · next new h => exact .inl ⟨new, h, rfl⟩

/-- A state about to be kept continues the ledger, and fits it once the file is replaced. -/
theorem Request.Proposes.ledger {request : Request} {fails : Bool} {g new : GatewayState}
    {vs : List Text} (h : request.Proposes fails g new) (hledger : Ledger vs) (hg : Mirrors g vs) :
    Ledger (.document new.active new.previous :: vs) ∧
      Mirrors new (.document new.active new.previous :: vs) := by
  cases request with
  | activate payload =>
    obtain ⟨hvalid, rfl, hprevious, hbuilt⟩ := GatewayState.activation_eq_some h
    refine ⟨?_, .loaded hbuilt⟩
    rw [hprevious]
    cases hg with
    | blank => exact .first hvalid
    | loaded => exact .activated hledger hvalid
  | rollback releaseId =>
    obtain ⟨-, htruthy, hactive, hprevious, hbuilt⟩ := GatewayState.reversal_eq_ok h
    refine ⟨?_, .loaded hbuilt⟩
    rw [hactive, hprevious]
    cases hg with
    | blank => simp [Json.truthy] at htruthy
    | loaded => exact .reverted hledger htruthy

/-! ## Every reachable state -/

/-- The documents form a ledger, and a running process fits the newest of them. -/
structure Service.Kept (s : Service) : Prop where
  ledger : Ledger s.disk.versions
  mirrors : ∀ g, s.process = some g → Mirrors g s.disk.versions

theorem Service.Kept.initial : Service.initial.Kept := ⟨.empty, nofun⟩

theorem Service.Kept.step {s t : Service} {e : Event} (h : s.Kept) (hstep : s.step e = some t) :
    t.Kept := by
  cases e with
  | call request fails interrupt =>
    obtain ⟨g, hg, rfl⟩ := Option.map_eq_some_iff.mp hstep
    have hmirrors := h.mirrors g hg
    rcases request.call_cases fails interrupt g s.disk with
      ⟨new, hnew, hcall⟩ | ⟨ending, hcall, hending, -⟩
    · have hkept := hnew.ledger h.ledger hmirrors
      rcases GatewayState.keep_cases interrupt g new s.disk with
        ⟨hend, hmem, hdisk⟩ | ⟨⟨e, hend⟩, hmem, hdisk⟩ | ⟨hend, hdisk⟩
      · simp only [hcall, Service.settle, hend]
        refine ⟨hdisk ▸ hkept.1, fun g' hg' => ?_⟩
        obtain rfl : new = g' := hmem ▸ Option.some.inj hg'
        exact hdisk ▸ hkept.2
      · simp only [hcall, Service.settle, hend]
        refine ⟨hdisk ▸ h.ledger, fun g' hg' => ?_⟩
        obtain rfl : g = g' := hmem ▸ Option.some.inj hg'
        exact hdisk ▸ hmirrors
      · simp only [hcall, Service.settle, hend]
        rcases hdisk with hdisk | hdisk
        · exact ⟨hdisk ▸ h.ledger, nofun⟩
        · exact ⟨hdisk ▸ hkept.1, nofun⟩
    · have hsettle : Service.settle ⟨ending, g, s.disk⟩ = ⟨some g, s.disk⟩ := by
        cases ending with
        | died => exact absurd rfl hending
        | _ => rfl
      rw [hcall, hsettle]
      exact ⟨h.ledger, fun g' hg' => Option.some.inj hg' ▸ hmirrors⟩
  | crash =>
    obtain rfl := Option.some.inj hstep
    exact ⟨h.ledger, nofun⟩
  | start fails =>
    simp only [Service.step] at hstep
    split at hstep
    · next g _ hinit =>
      obtain rfl := Option.some.inj hstep
      exact ⟨h.ledger, fun g' hg' => Option.some.inj hg' ▸ .of_init h.ledger hinit⟩
    · obtain rfl := Option.some.inj hstep
      exact h
    · cases hstep

/-- What the service promises of a reachable state and of every call made in it. -/
structure Service.Coherent (s : Service) : Prop where
  /-- The state in memory, router included, is what the file reads back as. -/
  reload : ∀ g, s.process = some g → GatewayState.init false s.disk = .ok g
  /-- A process that died finds a state to go on from. -/
  restart : ∃ g, GatewayState.init false s.disk = .ok g
  router : ∀ g, s.process = some g → g.active.truthy = true → g.BuiltFromActive
  failed : ∀ g (request : Request) fails interrupt e, s.process = some g →
    (request.call fails interrupt g s.disk).ending = .raised e →
      (request.call fails interrupt g s.disk).memory = g ∧
        (request.call fails interrupt g s.disk).disk.versions = s.disk.versions
  repeated : ∀ g payload releaseId fails interrupt, s.process = some g →
    payload.get? "release_id" = some releaseId → g.holds releaseId = true →
      (g.activate fails interrupt payload s.disk).memory = g ∧
        (g.activate fails interrupt payload s.disk).disk = s.disk ∧
        (g.active.same payload = true → Valid payload →
          (g.activate fails interrupt payload s.disk).ending = .returned g.status)
  /-- A rollback that succeeds is one of the active release, and puts back the release of the
  document that the file held before the active one's. -/
  rollback : ∀ g releaseId fails interrupt st, s.process = some g →
    (g.rollback fails interrupt releaseId s.disk).ending = .returned st →
      g.holds releaseId = true ∧ ∃ before previous older,
        s.disk.versions = .document g.active before :: .document before previous :: older ∧
        (g.rollback fails interrupt releaseId s.disk).memory.active = before ∧
        (g.rollback fails interrupt releaseId s.disk).disk.active = some (.document before .null)

theorem Service.Kept.failed {s : Service} {g : GatewayState} (request : Request) {fails : Bool}
    {interrupt : Interrupt} {e : Exception}
    (hend : (request.call fails interrupt g s.disk).ending = .raised e) :
    (request.call fails interrupt g s.disk).memory = g ∧
      (request.call fails interrupt g s.disk).disk.versions = s.disk.versions := by
  rcases request.call_cases fails interrupt g s.disk with
    ⟨new, -, hcall⟩ | ⟨ending, hcall, -, -⟩
  · rw [hcall] at hend ⊢
    rcases GatewayState.keep_cases interrupt g new s.disk with
      ⟨hret, -, -⟩ | ⟨-, hmem, hdisk⟩ | ⟨hdied, -⟩
    · cases hret.symm.trans hend
    · exact ⟨hmem, hdisk⟩
    · cases hdied.symm.trans hend
  · rw [hcall]
    exact ⟨rfl, rfl⟩

/-- An activation of the active release, whatever its payload says, changes nothing. -/
theorem GatewayState.activate_of_holds {g : GatewayState} {payload releaseId : Json} (fails : Bool)
    (interrupt : Interrupt) (d : Disk) (hid : payload.get? "release_id" = some releaseId)
    (hholds : g.holds releaseId = true) :
    (g.activate fails interrupt payload d).memory = g ∧
      (g.activate fails interrupt payload d).disk = d := by
  unfold GatewayState.activate
  split
  · exact ⟨rfl, rfl⟩
  · exact ⟨rfl, rfl⟩
  · next new h => cases GatewayState.activation_of_holds hid hholds h

/-- And it is accepted when the payload is the active release. -/
theorem GatewayState.activate_again {g : GatewayState} {payload releaseId : Json} (fails : Bool)
    (interrupt : Interrupt) (d : Disk) (hid : payload.get? "release_id" = some releaseId)
    (hholds : g.holds releaseId = true) (hsame : g.active.same payload = true)
    (hvalid : Valid payload) :
    (g.activate fails interrupt payload d).ending = .returned g.status := by
  have hnothing : g.activation fails payload = .ok none := by
    simp only [activation, bind_eq_ok, subscript, orRaise_eq_ok]
    refine ⟨payload, hvalid, releaseId, hid, ?_⟩
    rw [if_pos hholds, hsame]
    rfl
  unfold GatewayState.activate
  rw [hnothing]

theorem Service.Kept.rollback {s : Service} {g : GatewayState} (h : s.Kept)
    (hg : s.process = some g) {releaseId : Json} {fails : Bool} {interrupt : Interrupt}
    {st : Status} (hend : (g.rollback fails interrupt releaseId s.disk).ending = .returned st) :
    g.holds releaseId = true ∧ ∃ before previous older,
      s.disk.versions = .document g.active before :: .document before previous :: older ∧
      (g.rollback fails interrupt releaseId s.disk).memory.active = before ∧
      (g.rollback fails interrupt releaseId s.disk).disk.active = some (.document before .null) := by
  rcases (Request.rollback releaseId).call_cases fails interrupt g s.disk with
    ⟨new, hnew, hcall⟩ | ⟨ending, hcall, -, hraised⟩
  · obtain ⟨hholds, htruthy, hactive, hprevious, -⟩ := GatewayState.reversal_eq_ok hnew
    rw [Request.call] at hcall
    rw [hcall] at hend ⊢
    rcases GatewayState.keep_cases interrupt g new s.disk with
      ⟨-, hmem, hdisk⟩ | ⟨⟨e, hraised⟩, -⟩ | ⟨hdied, -⟩
    · have hmirrors := h.mirrors g hg
      have hledger := h.ledger
      generalize s.disk.versions = vs at hmirrors hledger hdisk ⊢
      cases hmirrors with
      | blank => simp [Json.truthy] at htruthy
      | loaded =>
        -- the active release has a previous one, so an activation wrote the newest document
        rcases hledger.newest.2 with hnull | ⟨-, q, older, rfl⟩
        · simp [hnull, Json.truthy] at htruthy
        · refine ⟨hholds, g.previous, q, older, rfl, by rw [hmem, hactive], ?_⟩
          rw [Disk.active, hdisk, List.head?_cons, hactive, hprevious]
    · cases hraised.symm.trans hend
    · cases hdied.symm.trans hend
  · obtain ⟨e, rfl⟩ := hraised ⟨releaseId, rfl⟩
    rw [Request.call] at hcall
    simp [hcall] at hend

theorem Service.Kept.coherent {s : Service} (h : s.Kept) : s.Coherent where
  reload g hg := (h.mirrors g hg).init h.ledger
  restart := h.ledger.readable.imp fun _ hg => hg.2
  router g hg htruthy := by
    have hmirrors := h.mirrors g hg
    generalize s.disk.versions = vs at hmirrors
    cases hmirrors with
    | blank => simp [Json.truthy] at htruthy
    | loaded hbuilt => exact hbuilt
  failed g request fails interrupt e _ hend := Service.Kept.failed request hend
  repeated g payload releaseId fails interrupt _ hid hholds :=
    have hquiet := GatewayState.activate_of_holds fails interrupt s.disk hid hholds
    ⟨hquiet.1, hquiet.2, GatewayState.activate_again fails interrupt s.disk hid hholds⟩
  rollback g releaseId fails interrupt st hg hend := h.rollback hg hend

/-- **Memory and file agree.** Over every sequence of calls, failures, crashes and restarts, the state
in memory is what `active.json` reads back as, with the router of the active configuration; a failed
call leaves both as they were, an activation of the active release changes nothing, and a rollback
succeeds for the active release only and restores the one that was active before it. -/
theorem gateway_coherent (es : List Event) :
    service.Throughout Service.Coherent Service.initial es :=
  (service.throughout_always (fun _ _ _ h hstep => Service.Kept.step h hstep) es
    Service.Kept.initial).imp service fun _ h => h.coherent

end OpencodeCloud.ModelGateway
