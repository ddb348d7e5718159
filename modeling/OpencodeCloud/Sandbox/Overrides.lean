/-
# OpencodeCloud.Sandbox.Overrides -- the staged versions, in memory and in `applied.json`

`RemoteCatalog` run by any number of threads: `stage`, `commit` and `load` in the steps between which
another thread, another installation or a crash can come. `_persist` replaces the file, the assignment
of `overrides` follows, and both happen under the lock of the object. The catalog answers as it likes,
and whatever touches the disk or the network can raise.

`overrides_follow_file`: outside that one moment the dictionary is what the file holds, a restart reads
it back, a staged version is what `load` uses, only a commit that has the catalog's bundle installed at
the staged path forgets it, and a call that fails has changed neither.
-/
import OpencodeCloud.Sandbox.Installation

namespace OpencodeCloud.Sandbox.Overrides

open OpencodeCloud.Library OpencodeCloud.Library.Checked

/-! ## §A Calls -/

/-- `applied.json`, and the dictionary in memory: the directory of the staged version of an Agent. -/
abbrev Applied := Dict String Path

/-- What the code runs over. -/
structure World (δ : Type) where
  /-- `self.root.resolve()` -/
  root : Path
  /-- `Path(path).resolve()` -/
  resolve : String → Path
  /-- the paths that the file system can hold -/
  storable : Path → Bool
  /-- `AgentCatalog.load` of what lies in the directory -/
  load : String → FileTree → Checked δ
  /-- `opencode["provider"]["cloud-model-gateway"]["options"].get("apiKey")`, if it is a text -/
  apiKey : δ → Option String

inductive Request where
  | stage (agentId path : String)
  | commit (agentId : String)
  | load (agentId : String)
  deriving DecidableEq

def Request.agentId : Request → String
  | .stage agentId _ | .commit agentId | .load agentId => agentId

/-- How far a call has come, and the values of its variables. -/
inductive Phase (δ : Type) where
  | called
  /-- the lock is to be taken; `stage` has its definition -/
  | waiting (found : Option (Path × δ))
  /-- the catalog is asked; the version that `commit` found staged -/
  | asking (staged : Option Path)
  /-- the definition is to be read from the directory -/
  | reading (staged : Option Path) (path : Path)
  /-- in `_persist` -/
  | persisting (updated : Applied) (found : Path × δ)
  /-- the file is replaced, `self.overrides` is not -/
  | persisted (updated : Applied) (found : Path × δ)
  | over (result : Checked (Path × δ))
  /-- the process ended first -/
  | killed

/-- One call; `answered` is history: the bundle that the catalog answered with. -/
structure Call (δ : Type) where
  request : Request
  phase : Phase δ
  answered : Option Bundle

namespace Call

variable {δ : Type}

def goto (c : Call δ) (phase : Phase δ) : Call δ := { c with phase := phase }

/-- The call has the lock. -/
def inside (c : Call δ) : Bool :=
  match c.phase with
  | .asking _ | .reading _ _ | .persisting _ _ | .persisted _ _ => true
  | _ => false

/-- What a call does first when it has the lock. -/
def enter (c : Call δ) (overrides : Applied) (found : Option (Path × δ)) : Option (Phase δ) :=
  match c.request with
  | .stage agentId _ => found.map fun f => .persisting (overrides.insert agentId f.1) f
  | .commit agentId => some (.asking (overrides.lookup agentId))
  | .load agentId =>
    match overrides.lookup agentId with
    | some path => some (.reading none path)
    | none => some (.asking none)

end Call

/-! ## §B The process and its disk -/

structure State (δ : Type) where
  /-- the bundles below the root -/
  trees : Dict Path FileTree
  /-- `applied.json`, when it exists -/
  applied : Option Applied
  overrides : Applied
  calls : List (Call δ)
  /-- the call that has the lock -/
  holder : Option Nat

/-- `RemoteCatalog.__init__` -/
def State.initial {δ : Type} (trees : Dict Path FileTree) (applied : Option Applied) : State δ :=
  ⟨trees, applied, applied.getD ∅, [], none⟩

/-- What the catalog answers. -/
inductive Reply where
  | bundle (b : Bundle)
  | error (status : Nat)

/-- What the world has to say about a step of a call. -/
inductive Input where
  | go
  /-- the catalog's answer; is the version installed by another while its files are staged? -/
  | answer (reply : Reply) (late : Bool)
  /-- the disk, or the connection, fails -/
  | raises

inductive Event where
  | call (request : Request)
  | proceed (i : Nat) (input : Input)
  /-- another call of `install_bundle` installs a version -/
  | install (path : Path) (tree : FileTree)
  /-- the process ends and is started again -/
  | restart

/-- The call that takes a step. -/
def Event.actor : Event → Option Nat
  | .proceed i _ => some i
  | _ => none

section Steps

variable {δ : Type} (w : World δ)

/-- `install_bundle`: where the version is, and what is written there. -/
def install (trees : Dict Path FileTree) (agentId : String) (b : Bundle) (late : Bool) :
    Checked (Path × Option FileTree) := do
  let files ← checkBundle agentId b
  let target := w.root ++ ["versions", b.version, agentId]
  match trees.lookup target with
  | none =>
    let tree ← staged w.storable files none
    return (target, some tree)
  | some current =>
    if late then
      let _ ← staged w.storable files (some current)
      return (target, none)
    else
      confirm files current
      return (target, none)

def installAt (trees : Dict Path FileTree) (path : Path) : Option FileTree → Dict Path FileTree
  | some tree => trees.insert path tree
  | none => trees

/-- `RemoteCatalog._definition`. -/
def definition (trees : Dict Path FileTree) (agentId : String) (path : Path) :
    Checked (Path × δ) := do
  refuse (!w.root.isPrefixOf path || path.getLast? != some agentId) 422
    "Applied Agent bundle is outside its cache"
  let tree ← orRaise (trees.lookup path)
  let d ← w.load agentId tree
  refuse (w.apiKey d != some "\x7benv:MODEL_GATEWAY_TOKEN\x7d") 422
    "Agent model credential must reference MODEL_GATEWAY_TOKEN"
  return (path, d)

namespace State

def put (s : State δ) (i : Nat) (c : Call δ) : State δ := { s with calls := s.calls.set i c }

/-- The call gives the lock back and is over. -/
def leave (s : State δ) (i : Nat) (c : Call δ) (result : Checked (Path × δ)) : State δ :=
  { s.put i (c.goto (.over result)) with holder := none }

/-- The stretch of a call before the lock. -/
def prepare (s : State δ) (i : Nat) (c : Call δ) : State δ :=
  match validateIdentifier c.request.agentId with
  | .error e => s.put i (c.goto (.over (.error e)))
  | .ok _ =>
    match c.request with
    | .stage agentId path =>
      match definition w s.trees agentId (w.resolve path) with
      | .error e => s.put i (c.goto (.over (.error e)))
      | .ok found => s.put i (c.goto (.waiting (some found)))
    | _ => s.put i (c.goto (.waiting none))

/-- The catalog answers, and its bundle is installed. -/
def receive (s : State δ) (i : Nat) (c : Call δ) (staged : Option Path) (late : Bool) :
    Reply → State δ
  | .error status => s.leave i c (raise status "Catalog bundle unavailable")
  | .bundle b =>
    match install w s.trees c.request.agentId b late with
    | .error e => s.leave i c (.error e)
    | .ok (path, tree) =>
      let s := { s with trees := installAt s.trees path tree }
      let c := { c with answered := some b }
      if staged.any (· != path) then
        s.leave i c (raise 409 "Catalog has not committed the staged Agent version")
      else s.put i (c.goto (.reading staged path))

/-- One step of a call. -/
def proceed (s : State δ) (i : Nat) (c : Call δ) : Input → Option (State δ)
  | .go =>
    match c.phase with
    | .called => some (s.prepare w i c)
    | .waiting found =>
      if s.holder = none then do
        let phase ← c.enter s.overrides found
        return { s.put i (c.goto phase) with holder := some i }
      else none
    | .reading staged path =>
      match definition w s.trees c.request.agentId path with
      | .error e => some (s.leave i c (.error e))
      | .ok found =>
        match staged with
        | none => some (s.leave i c (.ok found))
        | some _ => some (s.put i (c.goto (.persisting (s.overrides.erase c.request.agentId) found)))
    | .persisting updated found =>
      some { s.put i (c.goto (.persisted updated found)) with applied := some updated }
    | .persisted updated found => some { s.leave i c (.ok found) with overrides := updated }
    | _ => none
  | .answer reply late =>
    match c.phase with
    | .asking staged => some (s.receive w i c staged late reply)
    | _ => none
  | .raises =>
    match c.phase with
    | .called => some (s.put i (c.goto (.over (.error .other))))
    | .asking _ | .reading _ _ | .persisting _ _ => some (s.leave i c (.error .other))
    | _ => none

/-- A call that the end of the process finds unfinished. -/
def kill (c : Call δ) : Call δ :=
  match c.phase with
  | .over _ => c
  | _ => c.goto .killed

def step (s : State δ) : Event → Option (State δ)
  | .call request => some { s with calls := s.calls ++ [⟨request, .called, none⟩] }
  | .proceed i input => do
    let c ← s.calls[i]?
    s.proceed w i c input
  | .install path tree =>
    if (s.trees.lookup path).isSome then none
    else some { s with trees := s.trees.insert path tree }
  | .restart =>
    some { s with overrides := s.applied.getD ∅, calls := s.calls.map kill, holder := none }

end State

/-- All threads over one disk. -/
def remote : Machine (State δ) Event := ⟨State.step w⟩

end Steps

/-! ## §C What a step does -/

section Moves

variable {δ : Type} {w : World δ} {s t : State δ} {i : Nat} {c : Call δ} {input : Input}

/-- The bundle that the catalog answered with is installed at the path. -/
def Confirmed (w : World δ) (trees : Dict Path FileTree) (c : Call δ) (path : Path) : Prop :=
  ∃ b files tree, c.answered = some b ∧ checkBundle c.request.agentId b = .ok files ∧
    path = w.root ++ ["versions", b.version, c.request.agentId] ∧
    trees.lookup path = some tree ∧ confirm files tree = .ok ()

/-- A table of directories that has what another one has, and perhaps more. -/
def Kept (trees trees' : Dict Path FileTree) : Prop :=
  ∀ path tree, trees.lookup path = some tree → trees'.lookup path = some tree

theorem Kept.refl (trees : Dict Path FileTree) : Kept trees trees := fun _ _ h => h

theorem Kept.insert {trees : Dict Path FileTree} {path : Path} {tree : FileTree}
    (h : trees.lookup path = none) : Kept trees (trees.insert path tree) := by
  intro path' tree' hpath'
  by_cases hp : path' = path
  · rw [hp, h] at hpath'
    cases hpath'
  · rwa [AList.lookup_insert_ne hp]

theorem Confirmed.mono {trees trees' : Dict Path FileTree} {path : Path}
    (h : Confirmed w trees c path) (hkept : Kept trees trees') : Confirmed w trees' c path := by
  obtain ⟨b, files, tree, hanswered, hfiles, hpath, htree, hconfirm⟩ := h
  exact ⟨b, files, tree, hanswered, hfiles, hpath, hkept _ _ htree, hconfirm⟩

theorem confirm_self {files : List (String × Json)} {tree : FileTree}
    (h : staged w.storable files none = .ok tree) : confirm files tree = .ok () := by
  simp only [staged, bind_eq_ok, pure_eq_ok] at h
  obtain ⟨t, hstage, ⟨⟩, hconfig, rfl⟩ := h
  rw [← compare_staged hstage hconfig, compare, refuse_eq_ok, Bool.not_eq_false', Dict.same_iff]
  exact fun _ => rfl

theorem confirm_of_staged {files : List (String × Json)} {tree u : FileTree}
    (h : staged w.storable files (some tree) = .ok u) : confirm files tree = .ok () := by
  simp only [staged, bind_eq_ok, pure_eq_ok] at h
  obtain ⟨t, hstage, ⟨⟩, hconfig, ⟨⟩, hcompare, rfl⟩ := h
  rw [← compare_staged hstage hconfig]
  exact hcompare

/-- **What an installation says**: the bundle is at its path, and nothing else changed. -/
theorem install_ok {trees : Dict Path FileTree} {agentId : String} {b : Bundle} {late : Bool}
    {path : Path} {tree : Option FileTree} (h : install w trees agentId b late = .ok (path, tree)) :
    Kept trees (installAt trees path tree) ∧
    ∃ files tree', checkBundle agentId b = .ok files ∧
      path = w.root ++ ["versions", b.version, agentId] ∧
      (installAt trees path tree).lookup path = some tree' ∧ confirm files tree' = .ok () := by
  simp only [install, bind_eq_ok] at h
  obtain ⟨files, hfiles, h⟩ := h
  split at h
  · next hnone =>
    simp only [bind_eq_ok, pure_eq_ok, Prod.mk.injEq] at h
    obtain ⟨tree', hstaged, rfl, rfl⟩ := h
    exact ⟨Kept.insert hnone, files, tree', hfiles, rfl, by simp [installAt], confirm_self hstaged⟩
  · next current hsome =>
    split at h
    · simp only [bind_eq_ok, pure_eq_ok, Prod.mk.injEq] at h
      obtain ⟨_, hstaged, rfl, rfl⟩ := h
      exact ⟨Kept.refl _, files, current, hfiles, rfl, hsome, confirm_of_staged hstaged⟩
    · simp only [bind_eq_ok, pure_eq_ok, Prod.mk.injEq] at h
      obtain ⟨_, hconfirm, rfl, rfl⟩ := h
      exact ⟨Kept.refl _, files, current, hfiles, rfl, hsome, hconfirm⟩

theorem definition_path {trees : Dict Path FileTree} {agentId : String} {path : Path}
    {found : Path × δ} (h : definition w trees agentId path = .ok found) : found.1 = path := by
  simp only [definition, bind_eq_ok, pure_eq_ok] at h
  obtain ⟨_, _, _, _, _, _, _, _, rfl⟩ := h
  rfl

/-- What a step of a call does. -/
inductive Moves (w : World δ) (s : State δ) (i : Nat) (c : Call δ) : State δ → Prop
  /-- without the lock -/
  | opens {phase : Phase δ} (hphase : c.phase = .called)
      (houtside : (∃ e, phase = .over (.error e)) ∨ ∃ found, phase = .waiting found ∧
        ∀ agentId path, c.request = .stage agentId path → ∃ f, found = some f ∧ f.1 = w.resolve path) :
      Moves w s i c (s.put i (c.goto phase))
  | enters {found : Option (Path × δ)} {phase : Phase δ} (hphase : c.phase = .waiting found)
      (hfree : s.holder = none) (henter : c.enter s.overrides found = some phase) :
      Moves w s i c { s.put i (c.goto phase) with holder := some i }
  | asked {staged : Option Path} {path : Path} {b : Bundle} {tree : Option FileTree}
      (hphase : c.phase = .asking staged) (hkept : Kept s.trees (installAt s.trees path tree))
      (hconfirmed : Confirmed w (installAt s.trees path tree) { c with answered := some b } path)
      (hstaged : ∀ p, staged = some p → path = p) :
      Moves w s i c ({ s with trees := installAt s.trees path tree }.put i
        { c with answered := some b, phase := .reading staged path })
  | reads {p path : Path} {found : Path × δ} (hphase : c.phase = .reading (some p) path)
      (hpath : found.1 = path) :
      Moves w s i c (s.put i (c.goto (.persisting (s.overrides.erase c.request.agentId) found)))
  | replaces {updated : Applied} {found : Path × δ} (hphase : c.phase = .persisting updated found) :
      Moves w s i c { s.put i (c.goto (.persisted updated found)) with applied := some updated }
  | updates {updated : Applied} {found : Path × δ} (hphase : c.phase = .persisted updated found) :
      Moves w s i c { s.leave i c (.ok found) with overrides := updated }
  | leaves {trees : Dict Path FileTree} {answered : Option Bundle} {result : Checked (Path × δ)}
      (hinside : c.inside = true) (hphase : ∀ updated found, c.phase ≠ .persisted updated found)
      (hkept : Kept s.trees trees)
      (hresult : ∀ found, result = .ok found → ∃ path, c.phase = .reading none path ∧
        definition w s.trees c.request.agentId path = .ok found) :
      Moves w s i c ({ s with trees := trees }.leave i { c with answered := answered } result)

theorem moves_of_leave {result : Checked (Path × δ)} (hinside : c.inside = true)
    (hphase : ∀ updated found, c.phase ≠ .persisted updated found)
    (hresult : ∀ found, result = .ok found → ∃ path, c.phase = .reading none path ∧
      definition w s.trees c.request.agentId path = .ok found) :
    Moves w s i c (s.leave i c result) :=
  @Moves.leaves δ w s i c s.trees c.answered result hinside hphase (Kept.refl _) hresult

theorem moves_of_prepare (hphase : c.phase = .called) : Moves w s i c (s.prepare w i c) := by
  unfold State.prepare
  split
  · exact .opens hphase (.inl ⟨_, rfl⟩)
  · split
    · next agentId path hrequest =>
      split
      · exact .opens hphase (.inl ⟨_, rfl⟩)
      · next found hfound =>
        refine .opens hphase (.inr ⟨_, rfl, fun agentId' path' hrequest' => ⟨found, rfl, ?_⟩⟩)
        rw [hrequest] at hrequest'
        cases hrequest'
        exact definition_path hfound
    · next hrequest =>
      exact .opens hphase (.inr ⟨_, rfl, fun agentId path h => absurd h (hrequest agentId path)⟩)

theorem moves_of_receive {staged : Option Path} {late : Bool} {reply : Reply}
    (hphase : c.phase = .asking staged) : Moves w s i c (s.receive w i c staged late reply) := by
  have hinside : c.inside = true := by simp [Call.inside, hphase]
  have hnot : ∀ updated found, c.phase ≠ .persisted updated found := by simp [hphase]
  cases reply with
  | error status => exact moves_of_leave hinside hnot nofun
  | bundle b =>
    simp only [State.receive]
    split
    · exact moves_of_leave hinside hnot nofun
    · next path tree hinstall =>
      obtain ⟨hkept, files, tree', hfiles, hpath, htree, hconfirm⟩ := install_ok hinstall
      split
      · exact .leaves hinside hnot hkept nofun
      · next hsame =>
        refine .asked hphase hkept ⟨b, files, tree', rfl, hfiles, hpath, htree, hconfirm⟩ ?_
        rintro p rfl
        simp only [Option.any_some, bne_iff_ne, ne_eq, not_not] at hsame
        exact hsame.symm

theorem moves_of_proceed (h : s.proceed w i c input = some t) : Moves w s i c t := by
  cases input with
  | go =>
    simp only [State.proceed] at h
    split at h
    · next hphase =>
      obtain rfl := Option.some.inj h
      exact moves_of_prepare hphase
    · next found hphase =>
      split at h
      · next hfree =>
        simp only [Option.bind_eq_bind, Option.bind_eq_some_iff] at h
        obtain ⟨phase, henter, h⟩ := h
        obtain rfl := Option.some.inj h
        exact .enters hphase hfree henter
      · cases h
    · next staged path hphase =>
      have hinside : c.inside = true := by simp [Call.inside, hphase]
      have hnot : ∀ updated found, c.phase ≠ .persisted updated found := by simp [hphase]
      split at h
      · obtain rfl := Option.some.inj h
        exact moves_of_leave hinside hnot nofun
      · next found hfound =>
        split at h
        · obtain rfl := Option.some.inj h
          refine moves_of_leave hinside hnot fun found' hfound' => ⟨path, hphase, ?_⟩
          rw [← Except.ok.inj hfound']
          exact hfound
        · obtain rfl := Option.some.inj h
          exact .reads hphase (definition_path hfound)
    · next hphase =>
      obtain rfl := Option.some.inj h
      exact .replaces hphase
    · next hphase =>
      obtain rfl := Option.some.inj h
      exact .updates hphase
    · cases h
  | answer reply late =>
    simp only [State.proceed] at h
    split at h
    · next hphase =>
      obtain rfl := Option.some.inj h
      exact moves_of_receive hphase
    · cases h
  | raises =>
    simp only [State.proceed] at h
    split at h
    · next hphase =>
      obtain rfl := Option.some.inj h
      exact .opens hphase (.inl ⟨_, rfl⟩)
    · next hphase =>
      obtain rfl := Option.some.inj h
      exact moves_of_leave (by simp [Call.inside, hphase]) (by simp [hphase]) nofun
    · next hphase =>
      obtain rfl := Option.some.inj h
      exact moves_of_leave (by simp [Call.inside, hphase]) (by simp [hphase]) nofun
    · next hphase =>
      obtain rfl := Option.some.inj h
      exact moves_of_leave (by simp [Call.inside, hphase]) (by simp [hphase]) nofun
    · cases h

theorem step_proceed (h : s.step w (.proceed i input) = some t) :
    ∃ c, s.calls[i]? = some c ∧ Moves w s i c t := by
  simp only [State.step, Option.bind_eq_bind, Option.bind_eq_some_iff] at h
  obtain ⟨c, hc, h⟩ := h
  exact ⟨c, hc, moves_of_proceed h⟩

end Moves


/-! ## §D What holds in every state -/

section Invariant

variable {δ : Type} {w : World δ} {s t : State δ} {i : Nat} {c : Call δ} {e : Event}

/-- What a commit may rely on before it forgets the staged version. -/
def Commits (w : World δ) (s : State δ) (c : Call δ) (path : Path) : Prop :=
  c.request = .commit c.request.agentId ∧
    s.overrides.lookup c.request.agentId = some path ∧ Confirmed w s.trees c path

/-- What `updated` is, and why. -/
def Updates (w : World δ) (s : State δ) (c : Call δ) (updated : Applied) (found : Path × δ) : Prop :=
  (∃ path, c.request = .stage c.request.agentId path ∧ found.1 = w.resolve path ∧
    updated = s.overrides.insert c.request.agentId found.1) ∨
  Commits w s c found.1 ∧ updated = s.overrides.erase c.request.agentId

/-- What a call knows, where it is. -/
def Knows (w : World δ) (s : State δ) (c : Call δ) : Prop :=
  match c.phase with
  | .called | .over _ | .killed => True
  | .waiting found =>
    ∀ agentId path, c.request = .stage agentId path → ∃ f, found = some f ∧ f.1 = w.resolve path
  | .asking staged =>
    staged = s.overrides.lookup c.request.agentId ∧
      (staged ≠ none → c.request = .commit c.request.agentId)
  | .reading staged path =>
    (∀ p, s.overrides.lookup c.request.agentId = some p → path = p) ∧
      (staged ≠ none → Commits w s c path)
  | .persisting updated found => Updates w s c updated found
  | .persisted updated found => s.applied = some updated ∧ Updates w s c updated found

/-- **The invariant**: one call has the lock, each knows what it should, and the dictionary is what the
file holds, unless the call with the lock is between the two. -/
structure Orderly (w : World δ) (s : State δ) : Prop where
  there : ∀ i, s.holder = some i → i < s.calls.length
  one : ∀ (i : Nat) (c : Call δ), s.calls[i]? = some c → (c.inside = true ↔ s.holder = some i)
  knows : ∀ (i : Nat) (c : Call δ), s.calls[i]? = some c → Knows w s c
  agrees : (∀ (i : Nat) (c : Call δ) (updated : Applied) (found : Path × δ),
    s.calls[i]? = some c → c.phase ≠ .persisted updated found) → s.overrides = s.applied.getD ∅

/-- What a call knows stays right while the dictionary and the file stay and the disk only gains. -/
theorem Knows.mono (h : Knows w s c) (hkept : Kept s.trees t.trees)
    (hoverrides : t.overrides = s.overrides) (happlied : t.applied = s.applied) : Knows w t c := by
  have hcommits : ∀ path, Commits w s c path → Commits w t c path :=
    fun path hc => ⟨hc.1, hoverrides ▸ hc.2.1, hc.2.2.mono hkept⟩
  have hupdates : ∀ updated found, Updates w s c updated found → Updates w t c updated found := by
    rintro updated found (⟨path, hrequest, hpath, hupdated⟩ | ⟨hc, hupdated⟩)
    · exact .inl ⟨path, hrequest, hpath, hoverrides ▸ hupdated⟩
    · exact .inr ⟨hcommits _ hc, hoverrides ▸ hupdated⟩
  unfold Knows at h ⊢
  split
  case h_5 staged hphase =>
    rw [hphase] at h
    exact ⟨hoverrides ▸ h.1, h.2⟩
  case h_6 staged path hphase =>
    rw [hphase] at h
    exact ⟨hoverrides ▸ h.1, fun hstaged => hcommits _ (h.2 hstaged)⟩
  case h_7 hphase =>
    rw [hphase] at h
    exact hupdates _ _ h
  case h_8 hphase =>
    rw [hphase] at h
    exact ⟨happlied ▸ h.1, hupdates _ _ h.2⟩
  case h_4 hphase =>
    rw [hphase] at h
    exact h
  all_goals trivial

/-- A call without the lock knows nothing of the dictionary or the file. -/
theorem Knows.outside (h : Knows w s c) (houtside : c.inside = false) (t : State δ) :
    Knows w t c := by
  unfold Call.inside at houtside
  unfold Knows at h ⊢
  split
  case h_4 hphase =>
    rw [hphase] at h
    exact h
  case h_5 hphase => simp [hphase] at houtside
  case h_6 hphase => simp [hphase] at houtside
  case h_7 hphase => simp [hphase] at houtside
  case h_8 hphase => simp [hphase] at houtside
  all_goals trivial

/-- Which call is which after a step. -/
theorem getElem?_put {c' c₀ : Call δ} {j : Nat} (hi : s.calls[i]? = some c₀)
    (h : (s.put i c').calls[j]? = some c) : (j = i ∧ c = c') ∨ (j ≠ i ∧ s.calls[j]? = some c) := by
  have hlen : i < s.calls.length := (List.getElem?_eq_some_iff.mp hi).1
  by_cases hj : i = j
  · subst hj
    rw [State.put, List.getElem?_set_self hlen] at h
    exact .inl ⟨rfl, (Option.some.inj h).symm⟩
  · rw [State.put, List.getElem?_set_ne hj] at h
    exact .inr ⟨fun h => hj h.symm, h⟩

theorem Orderly.initial (trees : Dict Path FileTree) (applied : Option Applied) :
    Orderly w (State.initial trees applied) :=
  ⟨nofun, nofun, nofun, fun _ => rfl⟩

/-- Another call is outside when one has the lock. -/
theorem Orderly.outside (hs : Orderly w s) (hi : s.calls[i]? = some c) (hinside : c.inside = true)
    {j : Nat} {d : Call δ} (hj : s.calls[j]? = some d) (hne : j ≠ i) : d.inside = false := by
  by_contra hd
  have hholder := (hs.one j d hj).mp (by simpa using hd)
  exact hne (Option.some.inj (hholder.symm.trans ((hs.one i c hi).mp hinside)))

/-- No call is between the file and the dictionary while another one has the lock. -/
theorem Orderly.agrees_of_inside (hs : Orderly w s) (hi : s.calls[i]? = some c)
    (hinside : c.inside = true) (hphase : ∀ updated found, c.phase ≠ .persisted updated found) :
    s.overrides = s.applied.getD ∅ := by
  refine hs.agrees fun j d updated found hj hd => ?_
  by_cases hne : j = i
  · subst hne
    obtain rfl := Option.some.inj (hi.symm.trans hj)
    exact hphase updated found hd
  · have := hs.outside hi hinside hj hne
    simp [Call.inside, hd] at this

end Invariant


section Kept

variable {δ : Type} {w : World δ} {s t : State δ} {i : Nat} {c c' : Call δ} {e : Event}

/-- The invariant after a step of one call, when the rest of it is known. -/
theorem Orderly.set (hi : s.calls[i]? = some c) (hcalls : t.calls = s.calls.set i c')
    (hthere : ∀ j, t.holder = some j → j = i ∨ j < s.calls.length)
    (hone : c'.inside = true ↔ t.holder = some i) (hknows : Knows w t c')
    (hothers : ∀ (j : Nat) (d : Call δ), s.calls[j]? = some d → j ≠ i →
      (d.inside = true ↔ t.holder = some j) ∧ Knows w t d)
    (hagrees : (∀ updated found, c'.phase ≠ .persisted updated found) →
      (∀ (j : Nat) (d : Call δ) (updated : Applied) (found : Path × δ), s.calls[j]? = some d →
        j ≠ i → d.phase ≠ .persisted updated found) → t.overrides = t.applied.getD ∅) :
    Orderly w t := by
  have hcases : ∀ (j : Nat) (d : Call δ), t.calls[j]? = some d →
      (j = i ∧ d = c') ∨ (j ≠ i ∧ s.calls[j]? = some d) := by
    intro j d hj
    rw [hcalls] at hj
    exact getElem?_put hi hj
  have hlen : i < s.calls.length := (List.getElem?_eq_some_iff.mp hi).1
  have hnow : t.calls[i]? = some c' := by rw [hcalls, List.getElem?_set_self hlen]
  refine ⟨fun j hj => ?_, fun j d hj => ?_, fun j d hj => ?_, fun hnone => hagrees ?_ ?_⟩
  · rw [hcalls, List.length_set]
    rcases hthere j hj with rfl | hlt
    · exact hlen
    · exact hlt
  · rcases hcases j d hj with ⟨rfl, rfl⟩ | ⟨hne, hj⟩
    · exact hone
    · exact (hothers j d hj hne).1
  · rcases hcases j d hj with ⟨rfl, rfl⟩ | ⟨hne, hj⟩
    · exact hknows
    · exact (hothers j d hj hne).2
  · exact fun updated found => hnone i c' updated found hnow
  · intro j d updated found hj hne
    refine hnone j d updated found ?_
    rw [hcalls, List.getElem?_set_ne (Ne.symm hne)]
    exact hj

/-- The other calls, when the call with the lock takes a step. -/
theorem Orderly.others (hs : Orderly w s) (hi : s.calls[i]? = some c) (hinside : c.inside = true)
    (hholder : t.holder = some i ∨ t.holder = none) (j : Nat) (d : Call δ)
    (hj : s.calls[j]? = some d) (hne : j ≠ i) :
    (d.inside = true ↔ t.holder = some j) ∧ Knows w t d := by
  have houtside := hs.outside hi hinside hj hne
  refine ⟨?_, (hs.knows j d hj).outside houtside t⟩
  rw [houtside]
  rcases hholder with hholder | hholder
  · simpa [hholder] using Ne.symm hne
  · simp [hholder]

theorem enter_knows {found : Option (Path × δ)} {phase : Phase δ} (hknows : Knows w s c)
    (hphase : c.phase = .waiting found) (henter : c.enter s.overrides found = some phase)
    (hholder : Option Nat) :
    (c.goto phase).inside = true ∧ (∀ updated found, phase ≠ .persisted updated found) ∧
      Knows w { s.put i (c.goto phase) with holder := hholder } (c.goto phase) := by
  unfold Knows at hknows
  rw [hphase] at hknows
  unfold Call.enter at henter
  split at henter
  · next agentId path hrequest =>
    obtain ⟨f, rfl, hf⟩ := hknows agentId path hrequest
    obtain rfl := Option.some.inj henter
    refine ⟨rfl, nofun, .inl ⟨path, ?_, hf, ?_⟩⟩
    · simp [Call.goto, hrequest, Request.agentId]
    · simp [Call.goto, hrequest, Request.agentId, State.put]
  · next agentId hrequest =>
    obtain rfl := Option.some.inj henter
    have hid : c.request.agentId = agentId := by rw [hrequest]; rfl
    refine ⟨rfl, nofun, ?_, fun _ => ?_⟩
    · show s.overrides.lookup agentId = s.overrides.lookup c.request.agentId
      rw [hid]
    · show c.request = .commit c.request.agentId
      rw [hid, hrequest]
  · next agentId hrequest =>
    have hid : c.request.agentId = agentId := by rw [hrequest]; rfl
    split at henter
    · next path hpath =>
      obtain rfl := Option.some.inj henter
      refine ⟨rfl, nofun, fun p hp => ?_, fun h => absurd rfl h⟩
      change s.overrides.lookup c.request.agentId = some p at hp
      rw [hid, hpath] at hp
      exact Option.some.inj hp
    · next hnone =>
      obtain rfl := Option.some.inj henter
      refine ⟨rfl, nofun, ?_, fun h => absurd rfl h⟩
      show none = s.overrides.lookup c.request.agentId
      rw [hid, hnone]

/-- **One step of a call** keeps the invariant. -/
theorem Orderly.moves (hs : Orderly w s) (hi : s.calls[i]? = some c) (h : Moves w s i c t) :
    Orderly w t := by
  have hknows := hs.knows i c hi
  cases h with
  | @opens phase hphase houtside =>
    have hfree : ¬s.holder = some i := by
      rw [← hs.one i c hi]
      simp [Call.inside, hphase]
    have hnow : (c.goto phase).inside = false := by
      rcases houtside with ⟨e, rfl⟩ | ⟨found, rfl, -⟩ <;> rfl
    refine Orderly.set hi rfl (fun j hj => .inr (hs.there j hj)) ?_ ?_ ?_ ?_
    · rw [hnow]
      simpa [State.put] using hfree
    · rcases houtside with ⟨e, rfl⟩ | ⟨found, rfl, hfound⟩
      · trivial
      · exact hfound
    · exact fun j d hj _ => ⟨hs.one j d hj, (hs.knows j d hj).mono (Kept.refl _) rfl rfl⟩
    · intro _ hothers
      refine hs.agrees fun j d updated found hj => ?_
      by_cases hne : j = i
      · subst hne
        obtain rfl := Option.some.inj (hi.symm.trans hj)
        simp [hphase]
      · exact hothers j d updated found hj hne
  | @enters found phase hphase hfree henter =>
    obtain ⟨hinside, hnot, hnow⟩ := enter_knows hknows hphase henter (some i)
    have houtside : ∀ (j : Nat) (d : Call δ), s.calls[j]? = some d → d.inside = false := by
      intro j d hj
      have := hs.one j d hj
      rw [hfree] at this
      simpa using this
    refine Orderly.set hi rfl (fun j hj => .inl (Option.some.inj hj).symm) (by simp [hinside]) hnow ?_ ?_
    · intro j d hj hne
      refine ⟨?_, (hs.knows j d hj).outside (houtside j d hj) _⟩
      rw [houtside j d hj]
      simpa using Ne.symm hne
    · intro _ _
      refine hs.agrees fun j d updated found hj hd => ?_
      have := houtside j d hj
      simp [Call.inside, hd] at this
  | @asked staged path b tree hphase hkept hconfirmed hstaged =>
    have hinside : c.inside = true := by simp [Call.inside, hphase]
    have hholder := (hs.one i c hi).mp hinside
    unfold Knows at hknows
    rw [hphase] at hknows
    obtain ⟨hlookup, hcommit⟩ := hknows
    refine Orderly.set hi rfl (fun j hj => .inr (hs.there j hj)) (iff_of_true rfl hholder) ⟨?_, ?_⟩
      (hs.others hi hinside (.inl hholder)) ?_
    · intro p hp
      exact hstaged p (hlookup.trans hp)
    · intro hne
      obtain ⟨p, rfl⟩ := Option.ne_none_iff_exists'.mp hne
      refine ⟨hcommit nofun, ?_, hconfirmed⟩
      rw [hstaged p rfl]
      exact hlookup.symm
    · exact fun _ _ => hs.agrees_of_inside hi hinside (by simp [hphase])
  | @reads p path found hphase hpath =>
    have hinside : c.inside = true := by simp [Call.inside, hphase]
    have hholder := (hs.one i c hi).mp hinside
    unfold Knows at hknows
    rw [hphase] at hknows
    refine Orderly.set hi rfl (fun j hj => .inr (hs.there j hj)) (iff_of_true rfl hholder) (.inr ⟨?_, rfl⟩)
      (hs.others hi hinside (.inl hholder)) ?_
    · rw [hpath]
      exact hknows.2 nofun
    · exact fun _ _ => hs.agrees_of_inside hi hinside (by simp [hphase])
  | @replaces updated found hphase =>
    have hinside : c.inside = true := by simp [Call.inside, hphase]
    have hholder := (hs.one i c hi).mp hinside
    unfold Knows at hknows
    rw [hphase] at hknows
    refine Orderly.set hi rfl (fun j hj => .inr (hs.there j hj)) (iff_of_true rfl hholder) ⟨rfl, hknows⟩
      (hs.others hi hinside (.inl hholder)) ?_
    exact fun hnot _ => absurd rfl (hnot updated found)
  | @updates updated found hphase =>
    have hinside : c.inside = true := by simp [Call.inside, hphase]
    unfold Knows at hknows
    rw [hphase] at hknows
    refine Orderly.set hi rfl nofun (by simp [Call.inside, Call.goto, State.leave]) trivial
      (hs.others hi hinside (.inr rfl)) fun _ _ => ?_
    simp [State.leave, State.put, hknows.1]
  | @leaves trees answered result hinside hphase hkept hresult =>
    refine Orderly.set hi rfl nofun (by simp [Call.inside, Call.goto, State.leave]) trivial
      (hs.others hi hinside (.inr rfl)) ?_
    exact fun _ _ => hs.agrees_of_inside hi hinside hphase

/-- A call that the end of the process finds is over, or killed. -/
theorem kill_phase (c : Call δ) :
    (State.kill c).phase = .killed ∨ ∃ result, c.phase = .over result ∧ State.kill c = c := by
  unfold State.kill
  split
  · next result hphase => exact .inr ⟨result, hphase, rfl⟩
  · exact .inl rfl

/-- **The step lemma.** -/
theorem Orderly.step (hs : Orderly w s) (hstep : s.step w e = some t) : Orderly w t := by
  cases e with
  | call request =>
    obtain rfl := Option.some.inj hstep
    have hnew : ∀ (j : Nat) (d : Call δ), (s.calls ++ [⟨request, .called, none⟩])[j]? = some d →
        s.calls[j]? = some d ∨ s.calls.length ≤ j ∧ d = ⟨request, .called, none⟩ := by
      intro j d hj
      rcases Nat.lt_or_ge j s.calls.length with hlt | hge
      · rw [List.getElem?_append_left hlt] at hj
        exact .inl hj
      · rw [List.getElem?_append_right hge] at hj
        exact .inr ⟨hge, List.mem_singleton.mp (List.mem_of_getElem? hj)⟩
    refine ⟨fun j hj => ?_, fun j d hj => ?_, fun j d hj => ?_, fun hnone => hs.agrees ?_⟩
    · simpa using Nat.lt_succ_of_lt (hs.there j hj)
    · rcases hnew j d hj with hj | ⟨hge, rfl⟩
      · exact hs.one j d hj
      · refine ⟨nofun, fun hj => absurd (hs.there j hj) (Nat.not_lt.mpr hge)⟩
    · rcases hnew j d hj with hj | ⟨hge, rfl⟩
      · exact hs.knows j d hj
      · trivial
    · intro j d updated found hj
      refine hnone j d updated found ?_
      rw [List.getElem?_append_left (List.getElem?_eq_some_iff.mp hj).1]
      exact hj
  | proceed i input =>
    obtain ⟨c, hi, hmoves⟩ := step_proceed hstep
    exact hs.moves hi hmoves
  | install path tree =>
    simp only [State.step] at hstep
    split at hstep
    · cases hstep
    · next hnone =>
      obtain rfl := Option.some.inj hstep
      have hkept : Kept s.trees (s.trees.insert path tree) :=
        Kept.insert (by simpa using hnone)
      exact ⟨hs.there, hs.one, fun j d hj => (hs.knows j d hj).mono hkept rfl rfl, hs.agrees⟩
  | restart =>
    obtain rfl := Option.some.inj hstep
    refine ⟨nofun, fun j d hj => ?_, fun j d hj => ?_, fun _ => rfl⟩ <;>
      rw [List.getElem?_map, Option.map_eq_some_iff] at hj <;> obtain ⟨c, hc, rfl⟩ := hj
    · rcases kill_phase c with hkilled | ⟨result, hover, hsame⟩
      · simp [Call.inside, hkilled]
      · simp [hsame, Call.inside, hover]
    · rcases kill_phase c with hkilled | ⟨result, hover, hsame⟩
      · simp [Knows, hkilled]
      · simp [hsame, Knows, hover]

end Kept


/-! ## §E What is staged -/

section Staged

variable {δ : Type} {w : World δ} {s t : State δ} {i : Nat} {c : Call δ} {e : Event}
  {agentId : String} {path : Path}

/-- The one call between the file and the dictionary. -/
def Between (s : State δ) (c : Call δ) : Prop :=
  ∃ updated found, c.phase = .persisted updated found ∧ s.applied = some updated

/-- The dictionary is what the file holds, or a call is between the two. -/
theorem Orderly.follows (hs : Orderly w s) : s.overrides = s.applied.getD ∅ ∨
    ∃ (i : Nat) (c : Call δ), s.holder = some i ∧ s.calls[i]? = some c ∧ Between s c := by
  by_cases hnone : ∀ (i : Nat) (c : Call δ) (updated : Applied) (found : Path × δ),
      s.calls[i]? = some c → c.phase ≠ .persisted updated found
  · exact .inl (hs.agrees hnone)
  · push Not at hnone
    obtain ⟨i, c, updated, found, hi, hphase⟩ := hnone
    have hknows := hs.knows i c hi
    unfold Knows at hknows
    rw [hphase] at hknows
    exact .inr ⟨i, c, (hs.one i c hi).mp (by simp [Call.inside, hphase]), hi, updated, found, hphase,
      hknows.1⟩

/-- **While a version is staged** a `load` of the Agent does not ask the catalog, and reads it. -/
theorem Orderly.load_staged (hs : Orderly w s) (hi : s.calls[i]? = some c)
    (hrequest : c.request = .load agentId) (hstaged : s.overrides.lookup agentId = some path) :
    (∀ p, c.phase ≠ .asking p) ∧ ∀ p q, c.phase = .reading p q → q = path := by
  have hknows := hs.knows i c hi
  unfold Knows at hknows
  rw [hrequest] at hknows
  refine ⟨fun p hphase => ?_, fun p q hphase => ?_⟩
  · rw [hphase] at hknows
    have hsome : p = some path := hknows.1.trans hstaged
    exact absurd (hknows.2 (by simp [hsome])) nofun
  · rw [hphase] at hknows
    exact hknows.1 path hstaged

/-- What a `load` returns. -/
theorem Orderly.load_result (hs : Orderly w s) (hi : s.calls[i]? = some c)
    (hrequest : c.request = .load agentId) (hstaged : s.overrides.lookup agentId = some path)
    (hmoves : Moves w s i c t) {c' : Call δ} {found : Path × δ} (hc' : t.calls[i]? = some c')
    (hover : c'.phase = .over (.ok found)) : definition w s.trees agentId path = .ok found := by
  have hlen : i < s.calls.length := (List.getElem?_eq_some_iff.mp hi).1
  have hknows := hs.knows i c hi
  cases hmoves with
  | opens hphase houtside =>
    simp only [State.put, List.getElem?_set_self hlen, Option.some.injEq] at hc'
    subst hc'
    rcases houtside with ⟨e, rfl⟩ | ⟨f, rfl, -⟩ <;> cases hover
  | enters hphase hfree henter =>
    simp only [State.put, List.getElem?_set_self hlen, Option.some.injEq] at hc'
    subst hc'
    have hinside := (@enter_knows δ w s i c _ _ hknows hphase henter none).1
    simp [Call.inside, hover] at hinside
  | asked =>
    simp only [State.put, List.getElem?_set_self hlen, Option.some.injEq] at hc'
    subst hc'
    cases hover
  | reads =>
    simp only [State.put, List.getElem?_set_self hlen, Option.some.injEq] at hc'
    subst hc'
    cases hover
  | replaces =>
    simp only [State.put, List.getElem?_set_self hlen, Option.some.injEq] at hc'
    subst hc'
    cases hover
  | updates hphase =>
    unfold Knows at hknows
    rw [hphase] at hknows
    rcases hknows.2 with ⟨p, hstage, -⟩ | ⟨⟨hcommit, -⟩, -⟩
    · exact absurd (hrequest.symm.trans hstage) nofun
    · exact absurd (hrequest.symm.trans hcommit) nofun
  | leaves hinside hphase hkept hresult =>
    simp only [State.leave, State.put, List.getElem?_set_self hlen, Option.some.injEq] at hc'
    subst hc'
    obtain rfl := Phase.over.inj hover
    obtain ⟨q, hreading, hdefinition⟩ := hresult found rfl
    rw [← (hs.load_staged hi hrequest hstaged).2 none q hreading]
    rw [hrequest] at hdefinition
    exact hdefinition

/-- An update forgets a staged version for a commit that has found the catalog's bundle there. -/
theorem Updates.forgets {updated : Applied} {found : Path × δ} (h : Updates w s c updated found)
    (hstaged : s.overrides.lookup agentId = some path) (hnone : updated.lookup agentId = none) :
    c.request = .commit agentId ∧ Confirmed w s.trees c path := by
  rcases h with ⟨p, -, -, rfl⟩ | ⟨⟨hcommit, hlookup, hconfirmed⟩, rfl⟩
  · by_cases hid : agentId = c.request.agentId
    · subst hid
      simp at hnone
    · rw [AList.lookup_insert_ne hid, hstaged] at hnone
      cases hnone
  · by_cases hid : agentId = c.request.agentId
    · subst hid
      obtain rfl := Option.some.inj (hstaged.symm.trans hlookup)
      exact ⟨hcommit, hconfirmed⟩
    · rw [AList.lookup_erase_ne hid, hstaged] at hnone
      cases hnone

/-- A commit of the Agent that has found the catalog's bundle at the path. -/
def Committing (w : World δ) (s : State δ) (agentId : String) (path : Path) (i : Nat) : Prop :=
  ∃ c, s.calls[i]? = some c ∧ c.request = .commit agentId ∧ Confirmed w s.trees c path

/-- **A staged version leaves the file** in a commit only. -/
theorem Orderly.file_forgets (hs : Orderly w s) (hstep : s.step w e = some t)
    (hstaged : (s.applied.getD ∅).lookup agentId = some path)
    (hnone : (t.applied.getD ∅).lookup agentId = none) :
    ∃ i input, e = .proceed i input ∧ Committing w s agentId path i := by
  have hsame : t.applied = s.applied → False := by
    intro happlied
    rw [happlied, hstaged] at hnone
    cases hnone
  cases e with
  | call request => exact (hsame (by obtain rfl := Option.some.inj hstep; rfl)).elim
  | install p tree =>
    simp only [State.step] at hstep
    split at hstep
    · cases hstep
    · exact (hsame (by obtain rfl := Option.some.inj hstep; rfl)).elim
  | restart => exact (hsame (by obtain rfl := Option.some.inj hstep; rfl)).elim
  | proceed i input =>
    obtain ⟨c, hi, hmoves⟩ := step_proceed hstep
    cases hmoves with
    | @replaces updated found hphase =>
      have hagrees := hs.agrees_of_inside hi (by simp [Call.inside, hphase]) (by simp [hphase])
      have hknows := hs.knows i c hi
      unfold Knows at hknows
      rw [hphase] at hknows
      exact ⟨i, input, rfl, c, hi, Updates.forgets hknows (hagrees ▸ hstaged) hnone⟩
    | _ => exact (hsame rfl).elim

/-- **A staged version leaves the dictionary** in a commit only, or in a restart that cut one off. -/
theorem Orderly.memory_forgets (hs : Orderly w s) (hstep : s.step w e = some t)
    (hstaged : s.overrides.lookup agentId = some path)
    (hnone : t.overrides.lookup agentId = none) :
    ∃ i, Committing w s agentId path i ∧ ((∃ input, e = .proceed i input) ∨
      e = .restart ∧ ∃ c, s.calls[i]? = some c ∧ Between s c) := by
  have hsame : t.overrides = s.overrides → False := by
    intro hoverrides
    rw [hoverrides, hstaged] at hnone
    cases hnone
  cases e with
  | call request => exact (hsame (by obtain rfl := Option.some.inj hstep; rfl)).elim
  | install p tree =>
    simp only [State.step] at hstep
    split at hstep
    · cases hstep
    · exact (hsame (by obtain rfl := Option.some.inj hstep; rfl)).elim
  | restart =>
    rcases hs.follows with hagrees | ⟨i, c, -, hi, updated, found, hphase, happlied⟩
    · refine (hsame ?_).elim
      obtain rfl := Option.some.inj hstep
      exact hagrees.symm
    · have hknows := hs.knows i c hi
      unfold Knows at hknows
      rw [hphase] at hknows
      have hgone : updated.lookup agentId = none := by
        obtain rfl := Option.some.inj hstep
        simpa [happlied] using hnone
      exact ⟨i, ⟨c, hi, Updates.forgets hknows.2 hstaged hgone⟩, .inr ⟨rfl, c, hi, updated, found,
        hphase, happlied⟩⟩
  | proceed i input =>
    obtain ⟨c, hi, hmoves⟩ := step_proceed hstep
    cases hmoves with
    | @updates updated found hphase =>
      have hknows := hs.knows i c hi
      unfold Knows at hknows
      rw [hphase] at hknows
      exact ⟨i, ⟨c, hi, Updates.forgets hknows.2 hstaged hnone⟩, .inl ⟨input, rfl⟩⟩
    | _ => exact (hsame rfl).elim

end Staged

/-! ## §F Calls that fail -/

section Failing

variable {δ : Type} {w : World δ} {s t : State δ} {i : Nat} {c : Call δ} {e : Event}

/-- The call has replaced the file, or needs not to, and cannot fail any more. -/
def Call.wrote (c : Call δ) : Bool :=
  match c.phase with
  | .persisted _ _ | .over (.ok _) | .killed => true
  | _ => false

/-- Some call with this number has written. -/
def Wrote (i : Nat) (s : State δ) : Prop := ∃ c, s.calls[i]? = some c ∧ c.wrote = true

theorem wrote_put {c' : Call δ} (hi : s.calls[i]? = some c) (hwrote : c'.wrote = true) :
    Wrote i (s.put i c') :=
  ⟨c', by rw [State.put, List.getElem?_set_self (List.getElem?_eq_some_iff.mp hi).1], hwrote⟩

/-- **A step of a call** changes neither the dictionary nor the file, or the call has written then. -/
theorem moves_quiet (hi : s.calls[i]? = some c) (h : Moves w s i c t) :
    (t.overrides = s.overrides ∧ t.applied = s.applied) ∨ Wrote i t := by
  cases h with
  | replaces => exact .inr (wrote_put hi rfl)
  | updates => exact .inr (wrote_put hi rfl)
  | _ => exact .inl ⟨rfl, rfl⟩

/-- The call that has written takes no step but the last one. -/
theorem moves_wrote (hi : s.calls[i]? = some c) (hwrote : c.wrote = true) (h : Moves w s i c t) :
    Wrote i t := by
  cases h with
  | updates => exact wrote_put hi rfl
  | leaves hinside hphase =>
    unfold Call.inside at hinside
    unfold Call.wrote at hwrote
    cases hc : c.phase <;> simp_all
  | opens hphase => simp [Call.wrote, hphase] at hwrote
  | enters hphase => simp [Call.wrote, hphase] at hwrote
  | asked hphase => simp [Call.wrote, hphase] at hwrote
  | reads hphase => simp [Call.wrote, hphase] at hwrote
  | replaces hphase => simp [Call.wrote, hphase] at hwrote

/-- The other calls are as they were. -/
theorem moves_others {j : Nat} (hne : j ≠ i) (h : Moves w s i c t) : t.calls[j]? = s.calls[j]? := by
  cases h <;> exact List.getElem?_set_ne (Ne.symm hne)

theorem wrote_step (hstep : s.step w e = some t) (h : Wrote i s) : Wrote i t := by
  obtain ⟨c, hi, hwrote⟩ := h
  cases e with
  | call request =>
    obtain rfl := Option.some.inj hstep
    refine ⟨c, ?_, hwrote⟩
    rw [List.getElem?_append_left (List.getElem?_eq_some_iff.mp hi).1]
    exact hi
  | install path tree =>
    simp only [State.step] at hstep
    split at hstep
    · cases hstep
    · obtain rfl := Option.some.inj hstep
      exact ⟨c, hi, hwrote⟩
  | restart =>
    obtain rfl := Option.some.inj hstep
    refine ⟨State.kill c, by simp [hi], ?_⟩
    rcases kill_phase c with hkilled | ⟨result, -, hsame⟩
    · simp [Call.wrote, hkilled]
    · rw [hsame]
      exact hwrote
  | proceed j input =>
    obtain ⟨d, hj, hmoves⟩ := step_proceed hstep
    by_cases hne : i = j
    · subst hne
      obtain rfl := Option.some.inj (hi.symm.trans hj)
      exact moves_wrote hi hwrote hmoves
    · exact ⟨c, (moves_others hne hmoves).trans hi, hwrote⟩

/-- **A call that fails changed nothing**: neither the dictionary nor the file, in any of its steps. -/
theorem failing_quiet {es : List Event} (hrun : (remote w).run s es = some t)
    (hi : t.calls[i]? = some c) {x : Exception} (hover : c.phase = .over (.error x)) :
    (remote w).Along (fun u e => e.actor = some i → ∀ v, u.step w e = some v →
      v.overrides = u.overrides ∧ v.applied = u.applied) s es := by
  induction es generalizing s with
  | nil => trivial
  | cons e es ih =>
    obtain ⟨u, hstep, hrest⟩ := (remote w).run_cons_inv hrun
    refine ⟨fun hactor v hv => ?_, fun v hv => ?_⟩
    · obtain rfl : u = v := Option.some.inj (hstep.symm.trans hv)
      cases e with
      | proceed j input =>
        obtain rfl := Option.some.inj hactor
        obtain ⟨d, hj, hmoves⟩ := step_proceed hstep
        rcases moves_quiet hj hmoves with hquiet | hwrote
        · exact hquiet
        · -- what has written does not fail
          obtain ⟨d, hd, hdone⟩ := (remote w).run_stays (I := fun _ => True) (P := Wrote j)
            (fun _ _ _ _ _ => trivial) (fun _ _ _ _ h hstep => wrote_step hstep h) trivial hwrote hrest
          obtain rfl := Option.some.inj (hi.symm.trans hd)
          simp [Call.wrote, hover] at hdone
      | _ => cases hactor
    · obtain rfl : u = v := Option.some.inj (hstep.symm.trans hv)
      exact ih hrest

end Failing

/-! ## §G All runs -/

/-- **The staged versions follow `applied.json`.** In every state of every run, with any answers of the
catalog, failures, other installations and restarts: the dictionary is what the file holds, unless the
call with the lock is between its two updates, and after a restart it is; while a version of an Agent is
staged, a `load` of the Agent asks no catalog, reads that version and returns nothing else; a staged
version leaves the file, and the dictionary, only in a commit that has found the catalog's bundle
installed at the staged path (for the dictionary also in the restart that cut such a commit off); and no
step of a call that fails changes either of them. -/
theorem overrides_follow_file {δ : Type} {w : World δ} {trees : Dict Path FileTree}
    {applied : Option Applied} {es : List Event} {s : State δ}
    (hrun : (remote w).run (State.initial trees applied) es = some s) :
    (s.overrides = s.applied.getD ∅ ∨
      ∃ (i : Nat) (c : Call δ), s.holder = some i ∧ s.calls[i]? = some c ∧ Between s c) ∧
    (∀ t, s.step w .restart = some t →
      t.applied = s.applied ∧ t.overrides = t.applied.getD ∅) ∧
    (∀ agentId path, s.overrides.lookup agentId = some path →
      ∀ (i : Nat) (c : Call δ), s.calls[i]? = some c → c.request = .load agentId →
        (∀ p, c.phase ≠ .asking p) ∧ (∀ p q, c.phase = .reading p q → q = path) ∧
        ∀ input t c' found, s.step w (.proceed i input) = some t → t.calls[i]? = some c' →
          c'.phase = .over (.ok found) →
          found.1 = path ∧ definition w s.trees agentId path = .ok found) ∧
    (∀ e t agentId path, s.step w e = some t →
      ((s.applied.getD ∅).lookup agentId = some path → (t.applied.getD ∅).lookup agentId = none →
        ∃ i input, e = .proceed i input ∧ Committing w s agentId path i) ∧
      (s.overrides.lookup agentId = some path → t.overrides.lookup agentId = none →
        ∃ i, Committing w s agentId path i ∧ ((∃ input, e = .proceed i input) ∨
          e = .restart ∧ ∃ c, s.calls[i]? = some c ∧ Between s c))) ∧
    ∀ (fs : List Event) (t : State δ), (remote w).run s fs = some t →
      ∀ (i : Nat) (c : Call δ) (x : Exception), t.calls[i]? = some c → c.phase = .over (.error x) →
        (remote w).Along (fun u e => e.actor = some i → ∀ v, u.step w e = some v →
          v.overrides = u.overrides ∧ v.applied = u.applied) s fs := by
  have hs : Orderly w s := (remote w).run_always (fun _ _ _ h hstep => h.step hstep)
    (Orderly.initial trees applied) hrun
  refine ⟨hs.follows, fun t hstep => ?_, fun agentId path hstaged i c hi hrequest => ?_,
    fun e t agentId path hstep => ⟨hs.file_forgets hstep, hs.memory_forgets hstep⟩,
    fun fs t hfs i c x hi hover => failing_quiet hfs hi hover⟩
  · obtain rfl := Option.some.inj hstep
    exact ⟨rfl, rfl⟩
  · obtain ⟨hasks, hreads⟩ := hs.load_staged hi hrequest hstaged
    refine ⟨hasks, hreads, fun input t c' found hstep hc' hover => ?_⟩
    obtain ⟨d, hd, hmoves⟩ := step_proceed hstep
    obtain rfl := Option.some.inj (hi.symm.trans hd)
    have hdefinition := hs.load_result hi hrequest hstaged hmoves hc' hover
    exact ⟨definition_path hdefinition, hdefinition⟩


/-- A world whose bundles are right when they have an `agent.cfg`. -/
def sampleWorld : World String where
  root := ["agents"]
  resolve := Catalog.pathParts
  storable := fun _ => true
  load := fun _ tree =>
    if agentConfig ∈ tree.files then .ok "\x7benv:MODEL_GATEWAY_TOKEN\x7d" else .error .other
  apiKey := some

def sampleTree : FileTree := (FileTree.empty.write agentConfig [91]).getD .empty

/-- A version is staged, and a `load` takes the lock. -/
def sampleRun : List Event :=
  [.install ["agents", "versions", "2", "a"] sampleTree, .call (.stage "a" "/agents/versions/2/a"),
    .proceed 0 .go, .proceed 0 .go, .proceed 0 .go, .proceed 0 .go, .call (.load "a"),
    .proceed 1 .go, .proceed 1 .go]

theorem sampleRun_follows_file : ∃ s, (remote sampleWorld).run (State.initial ∅ none) sampleRun = some s ∧
    s.overrides.lookup "a" = some ["agents", "versions", "2", "a"] ∧
    (∀ t, s.step sampleWorld .restart = some t → t.overrides = t.applied.getD ∅) ∧
    ∀ input t c' found, s.step sampleWorld (.proceed 1 input) = some t → t.calls[1]? = some c' →
      c'.phase = .over (.ok found) → found.1 = ["agents", "versions", "2", "a"] := by
  have hend : ((remote sampleWorld).run (State.initial ∅ none) sampleRun).map (fun s =>
      (s.overrides.lookup "a", (s.calls[1]?).map Call.request)) =
      some (some ["agents", "versions", "2", "a"], some (.load "a")) := by decide +kernel
  cases hrun : (remote sampleWorld).run (State.initial ∅ none) sampleRun with
  | none => simp [hrun] at hend
  | some s =>
    rw [hrun] at hend
    obtain ⟨hstaged, hload⟩ := Prod.mk.inj (Option.some.inj hend)
    obtain ⟨c, hc, hrequest⟩ := Option.map_eq_some_iff.mp hload
    obtain ⟨-, hrestart, huses, -⟩ := overrides_follow_file hrun
    refine ⟨s, rfl, hstaged, fun t ht => (hrestart t ht).2, fun input t c' found hstep hc' hover => ?_⟩
    exact ((huses "a" _ hstaged 1 c hc hrequest).2.2 input t c' found hstep hc' hover).1


end OpencodeCloud.Sandbox.Overrides
