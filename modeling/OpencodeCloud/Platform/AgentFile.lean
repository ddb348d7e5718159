/-
# OpencodeCloud.Platform.AgentFile -- `agent.cfg` between the catalog and the sandbox manager

The catalog writes the identity, the image and the limits of an agent to `agent.cfg` when it compiles the
agent, and loads the file once to check it; the sandbox manager loads it again for every request. The two
loaders are the same code but for the check of the identifier. What they load is what was compiled
(`agent_file_round_trip`), except for white space and comment lines in the display name, as long as the
display name has no carriage return: behind one, the name goes on as lines of the file, and can name
another image.
-/
import OpencodeCloud.Catalog.References
import OpencodeCloud.Library.Ini
import OpencodeCloud.Platform.Manager

namespace OpencodeCloud.Platform

open OpencodeCloud.Library OpencodeCloud.Catalog

/-! ## §A The file -/

/-- `str(value)` of a count. -/
def decimal (n : Nat) : Text := (Nat.repr n).toList

/-- `",".join(ids)` -/
def commaJoined (ids : List String) : Text := List.intercalate [','] (ids.map String.toList)

/-- The sections that `compile_agent` fills in. -/
def agentSections (c : AgentCfg) : Ini.Document :=
  [("agent".toList,
    [("id".toList, c.id.toList),
      ("display_name".toList, c.displayName.toList),
      ("image".toList, c.image.toList),
      ("idle_timeout_seconds".toList, decimal c.idleTimeoutSeconds)]),
    ("resources".toList,
      [("cpu_limit".toList, decimal c.resources.cpuLimit),
        ("memory_mb".toList, decimal c.resources.memoryMb),
        ("pids_limit".toList, decimal c.resources.pidsLimit)]),
    ("models".toList,
      [("default".toList, c.default.toList), ("allowed".toList, commaJoined c.allowed)])]

/-- The contents of `agent.cfg`. -/
def agentFile (c : AgentCfg) : Text := Ini.write (agentSections c)

/-! ## §B The loader -/

/-- What the loader uses of Python's text and number types. A name of lower case letters is its own lower
case, and the decimal digits of a count are read as the count. -/
structure Python (φ : Type) where
  lower : Text → Text
  int : Text → Option Int
  float : Text → Option φ
  ofNat : Nat → φ
  /-- `value <= 0` -/
  nonpositive : φ → Bool
  lower_name : ∀ name : Text, (∀ c ∈ name, c.isLower = true ∨ c = '_') → lower name = name
  int_decimal : ∀ n, int (decimal n) = some n
  float_decimal : ∀ n, float (decimal n) = some (ofNat n)
  nonpositive_ofNat : ∀ n, nonpositive (ofNat n) = decide (n = 0)

/-- `AgentDefinition`, as far as it comes from `agent.cfg`. -/
structure AgentDefinition (φ : Type) where
  agentId : Text
  displayName : Text
  image : Text
  idleTimeoutSeconds : Int
  cpuLimit : φ
  memoryMb : Int
  pidsLimit : Int
  defaultModel : Text
  allowedModels : List Text
  deriving DecidableEq

/-- `tuple(item.strip() for item in value.split(",") if item.strip())` -/
def commaSplit (value : Text) : List Text :=
  ((value.splitOn ',').map strip).filter fun item => !item.isEmpty

/-- `AgentCatalog.load`, the part about `agent.cfg`; `validIdentifier` is the check of identifiers, and
any failure is an `AgentDefinitionError`. -/
def loadAgent {φ : Type} (py : Python φ) (validIdentifier : String → Bool) (agentId : String)
    (file : Text) : Option (AgentDefinition φ) := do
  guard (validIdentifier agentId)
  let parser ← (Ini.read py.lower file).toOption
  let get := fun (parent name : String) => parser.get py.lower parent.toList name.toList
  let configured ← get "agent" "id"
  guard (validIdentifier (String.ofList configured) && configured == agentId.toList)
  let image ← get "agent" "image"
  let idle ← (get "agent" "idle_timeout_seconds").bind py.int
  let cpu ← (get "resources" "cpu_limit").bind py.float
  let memory ← (get "resources" "memory_mb").bind py.int
  let pids ← (get "resources" "pids_limit").bind py.int
  let default ← get "models" "default"
  let allowed := commaSplit (← get "models" "allowed")
  guard !(idle ≤ 0 || py.nonpositive cpu || memory ≤ 0 || pids ≤ 0)
  guard (!allowed.isEmpty && allowed.contains default && decide allowed.Nodup)
  let name ← get "agent" "display_name"
  return ⟨configured, name, image, idle, cpu, memory, pids, default, allowed⟩

/-! ## §C What is written is plain -/

/-- A text without white space. -/
def Solid (text : Text) : Prop := ∀ c ∈ text, isSpace c = false

theorem valueLines_solid {text : Text} (h : Solid text) : Ini.valueLines text = (text, []) := by
  induction text with
  | nil => rfl
  | cons c cs ih =>
    have hc : c ≠ '\n' := by
      rintro rfl
      exact absurd (h _ List.mem_cons_self) (by decide)
    rw [Ini.valueLines, ih fun d hd => h d (List.mem_cons_of_mem _ hd)]
    simp [hc]

theorem Solid.strip {text : Text} (h : Solid text) : strip text = text := strip_of_forall h

theorem Solid.settled {text : Text} (h : Solid text) : Ini.settled text = text := by
  refine Ini.settled_of_plain ⟨?_, ?_, ?_⟩
  · rw [valueLines_solid h]
    exact h.strip
  · rw [valueLines_solid h]
    intro line hline
    cases hline
  · have hstrip := h.strip
    rw [← hstrip, Library.strip, Ini.rstrip_rstrip]

theorem Solid.returnless {text : Text} (h : Solid text) : '\r' ∉ text := by
  intro hmem
  exact absurd (h _ hmem) (by decide)

/-- The characters of identifiers are no white space, and no comma. -/
theorem identifierTail_solid {c : Char} (h : identifierTail c = true) : isSpace c = false ∧ c ≠ ',' := by
  have hrange : c.toNat = 45 ∨ (48 ≤ c.toNat ∧ c.toNat ≤ 57) ∨ (65 ≤ c.toNat ∧ c.toNat ≤ 90) ∨
      c.toNat = 95 ∨ (97 ≤ c.toNat ∧ c.toNat ≤ 122) := by
    simp only [identifierTail, identifierHead, Char.isAlpha, Char.isUpper, Char.isLower, Char.isDigit,
      Bool.or_eq_true, Bool.and_eq_true, decide_eq_true_eq, ge_iff_le, UInt32.le_iff_toNat_le,
      beq_iff_eq] at h
    rcases h with (((⟨h, h'⟩ | ⟨h, h'⟩) | ⟨h, h'⟩) | rfl) | rfl
    · exact Or.inr (Or.inr (Or.inl ⟨h, h'⟩))
    · exact Or.inr (Or.inr (Or.inr (Or.inr ⟨h, h'⟩)))
    · exact Or.inr (Or.inl ⟨h, h'⟩)
    · decide
    · decide
  refine ⟨?_, ?_⟩
  · simp only [isSpace, Bool.or_eq_false_iff, Bool.and_eq_false_iff, decide_eq_false_iff_not,
      beq_eq_false_iff_ne]
    omega
  · rintro rfl
    revert hrange
    decide

theorem isIdentifier_chars {id : String} (h : isIdentifier id = true) :
    ∀ c ∈ id.toList, identifierTail c = true := by
  unfold isIdentifier at h
  split at h
  · cases h
  · next head tail htext =>
    simp only [Bool.and_eq_true, List.all_eq_true] at h
    rw [htext]
    intro c hc
    rcases List.mem_cons.1 hc with rfl | hc
    · simp [identifierTail, h.1.1]
    · exact h.2 c hc

theorem isIdentifier_ne {id : String} (h : isIdentifier id = true) : id.toList ≠ [] := by
  intro hnil
  simp [isIdentifier, hnil] at h

theorem isIdentifier_solid {id : String} (h : isIdentifier id = true) : Solid id.toList :=
  fun c hc => (identifierTail_solid (isIdentifier_chars h c hc)).1

theorem decimal_solid (n : Nat) : Solid (decimal n) := by
  intro c hc
  have hdigit : c.isDigit = true := Nat.isDigit_of_mem_toDigits (b := 10) (n := n) (by decide) (by decide)
    (by simpa [decimal, Nat.repr] using hc)
  exact (identifierTail_solid (by simp [identifierTail, identifierHead, hdigit])).1

/-- The manager takes every identifier of the catalog. -/
theorem runtimeIdentifier_of_isIdentifier {id : String} (h : isIdentifier id = true) :
    runtimeIdentifier id = true := by
  cases htext : id.toList with
  | nil => exact absurd htext (isIdentifier_ne h)
  | cons c cs =>
    simp only [isIdentifier, htext, Bool.and_eq_true, List.all_eq_true, decide_eq_true_eq] at h
    simp only [runtimeIdentifier, htext, Bool.and_eq_true, List.all_eq_true, decide_eq_true_eq]
    exact ⟨⟨h.1.1, by omega⟩, fun d hd => by simp [runtimeTail, h.2 d hd]⟩

/-! ## §D The models -/

theorem commaSplit_joined {ids : List String} (hne : ids ≠ [])
    (h : ∀ id ∈ ids, isIdentifier id = true) : commaSplit (commaJoined ids) = ids.map String.toList := by
  have hcomma : ∀ text ∈ ids.map String.toList, ',' ∉ text := by
    intro text htext hmem
    obtain ⟨id, hid, rfl⟩ := List.mem_map.1 htext
    exact (identifierTail_solid (isIdentifier_chars (h id hid) ',' hmem)).2 rfl
  have hsplit : (commaJoined ids).splitOn ',' = ids.map String.toList := by
    refine List.splitOn_intercalate ',' ?_ ?_
    · exact hcomma
    · simpa using hne
  have hstrip : (ids.map String.toList).map strip = ids.map String.toList := by
    refine (List.map_congr_left (g := id) fun text htext => ?_).trans (List.map_id _)
    obtain ⟨id, hid, rfl⟩ := List.mem_map.1 htext
    exact (isIdentifier_solid (h id hid)).strip
  rw [commaSplit, hsplit, hstrip, List.filter_eq_self]
  intro text htext
  obtain ⟨id, hid, rfl⟩ := List.mem_map.1 htext
  simpa using isIdentifier_ne (h id hid)

theorem commaJoined_solid {ids : List String} (h : ∀ id ∈ ids, isIdentifier id = true) :
    Solid (commaJoined ids) := by
  induction ids with
  | nil =>
    intro c hc
    cases hc
  | cons id ids ih =>
    rw [List.forall_mem_cons] at h
    have hid := isIdentifier_solid h.1
    cases ids with
    | nil => simpa [commaJoined] using hid
    | cons next ids =>
      have hrest := ih h.2
      unfold commaJoined at hrest ⊢
      rw [List.map_cons, List.map_cons, List.intercalate_cons_cons]
      intro c hc
      rcases List.mem_append.1 hc with hc | hc
      · rcases List.mem_append.1 hc with hc | hc
        · exact hid c hc
        · rw [List.mem_singleton.1 hc]
          decide
      · exact hrest c hc

/-! ## §E What is written is loaded -/

section RoundTrip

variable {φ : Type} {py : Python φ} {c : AgentCfg}

/-- A word of lower case letters, as all names in the file are. -/
def isWord (name : Text) : Bool := !name.isEmpty && name.all fun c => c.isLower || c == '_'

theorem isWord_chars {name : Text} (h : isWord name = true) :
    ∀ c ∈ name, identifierTail c = true ∧ (c.isLower = true ∨ c = '_') := by
  simp only [isWord, Bool.and_eq_true, List.all_eq_true, Bool.or_eq_true, beq_iff_eq] at h
  intro c hc
  rcases h.2 c hc with hlower | rfl
  · exact ⟨by simp [identifierTail, identifierHead, Char.isAlpha, hlower], Or.inl hlower⟩
  · exact ⟨rfl, Or.inr rfl⟩

theorem isWord_solid {name : Text} (h : isWord name = true) : Solid name :=
  fun c hc => (identifierTail_solid (isWord_chars h c hc).1).1

theorem isWord_ne {name : Text} (h : isWord name = true) : name ≠ [] := by
  rintro rfl
  cases h

/-- A word can be the name of an option. -/
theorem optionName (py : Python φ) {name : Text} (h : isWord name = true) :
    Ini.OptionName py.lower name := by
  have hother : ∀ d, identifierTail d = false → d ∉ name := by
    intro d hd hmem
    rw [(isWord_chars h d hmem).1] at hd
    cases hd
  obtain ⟨c, cs, hname⟩ := List.exists_cons_of_ne_nil (isWord_ne h)
  have hmem : c ∈ name := by rw [hname]; exact List.mem_cons_self
  have hne : ∀ d, identifierTail d = false → c ≠ d := fun d hd heq => hother d hd (heq ▸ hmem)
  exact {
    head := ⟨c, cs, hname, isWord_solid h c hmem, hne '[' (by decide), hne '#' (by decide),
      hne ';' (by decide)⟩
    closed := by
      have hstrip := (isWord_solid h).strip
      rw [← hstrip, Library.strip, Ini.rstrip_rstrip]
    undelimited := by
      intro d hd
      cases hdelimiter : Ini.isDelimiter d with
      | false => rfl
      | true =>
        simp only [Ini.isDelimiter, Bool.or_eq_true, beq_iff_eq] at hdelimiter
        rcases hdelimiter with rfl | rfl
        · exact absurd hd (hother '=' (by decide))
        · exact absurd hd (hother ':' (by decide))
    unbroken := ⟨hother '\n' (by decide), hother '\r' (by decide)⟩
    folded := py.lower_name name fun d hd => (isWord_chars h d hd).2 }

/-- A section of words. -/
theorem writable (py : Python φ) {name : Text} {os : List (Text × Text)} (names : List Text)
    (hos : os.map Prod.fst = names) (hname : isWord name = true) (hnames : names.all isWord = true)
    (hunique : names.Nodup) (hvalues : ∀ o ∈ os, '\r' ∉ o.2) :
    Ini.Writable py.lower (name, os) where
  named := isWord_ne hname
  ordinary := by
    rintro rfl
    exact absurd hname (by decide)
  unbroken := ⟨(optionName py hname).unbroken.1, (optionName py hname).unbroken.2⟩
  options o ho := optionName py (List.all_eq_true.1 hnames _ (hos ▸ List.mem_map_of_mem ho))
  unique := hos ▸ hunique
  values := hvalues

/-- What the compiler guarantees of the values in the file. -/
structure Regular (c : AgentCfg) : Prop where
  id : isIdentifier c.id = true
  default : isIdentifier c.default = true
  allowed : ∀ id ∈ c.allowed, isIdentifier id = true
  name : '\r' ∉ c.displayName.toList
  image : '\r' ∉ c.image.toList

theorem agentSections_writable (py : Python φ) (h : Regular c) :
    ∀ s ∈ agentSections c, Ini.Writable py.lower s := by
  have hid := (isIdentifier_solid h.id).returnless
  have hdefault := (isIdentifier_solid h.default).returnless
  have hallowed := (commaJoined_solid h.allowed).returnless
  have hdecimal := fun n => (decimal_solid n).returnless
  unfold agentSections
  simp only [List.forall_mem_cons]
  refine ⟨?_, ?_, ?_, fun s hs => absurd hs List.not_mem_nil⟩
  · refine writable py ["id".toList, "display_name".toList, "image".toList,
      "idle_timeout_seconds".toList] rfl (by decide) (by decide) (by decide) ?_
    simp [hid, h.name, h.image, hdecimal]
  · refine writable py ["cpu_limit".toList, "memory_mb".toList, "pids_limit".toList] rfl (by decide)
      (by decide) (by decide) ?_
    simp [hdecimal]
  · refine writable py ["default".toList, "allowed".toList] rfl (by decide) (by decide) (by decide) ?_
    simp [hdefault, hallowed]

/-- Every option that is written is found. -/
theorem get_agentFile (py : Python φ) (h : Regular c) :
    ∃ parsed, Ini.read py.lower (agentFile c) = .ok parsed ∧
      ∀ s ∈ agentSections c, ∀ o ∈ s.2,
        parsed.get py.lower s.1 o.1 = some (Ini.settled o.2) := by
  have hwritable := agentSections_writable py h
  have hunique : ((agentSections c).map Prod.fst).Nodup := by
    show (["agent".toList, "resources".toList, "models".toList] : List Text).Nodup
    decide
  refine ⟨_, Ini.read_write hwritable hunique, fun s hs o ho => ?_⟩
  exact Ini.get_written hunique hs (hwritable s hs).unique ho ((hwritable s hs).options o ho).folded

/-- **What is written is loaded**, but for what `configparser` takes from the name and the image. -/
theorem loadAgent_agentFile (py : Python φ) {validIdentifier : String → Bool} (h : Regular c)
    (hvalid : validIdentifier c.id = true)
    (hpositive : 0 < c.idleTimeoutSeconds ∧ 0 < c.resources.cpuLimit ∧ 0 < c.resources.memoryMb ∧
      0 < c.resources.pidsLimit)
    (hmodels : c.default ∈ c.allowed ∧ c.allowed.Nodup) :
    loadAgent py validIdentifier c.id (agentFile c) = some
      { agentId := c.id.toList
        displayName := Ini.settled c.displayName.toList
        image := Ini.settled c.image.toList
        idleTimeoutSeconds := c.idleTimeoutSeconds
        cpuLimit := py.ofNat c.resources.cpuLimit
        memoryMb := c.resources.memoryMb
        pidsLimit := c.resources.pidsLimit
        defaultModel := c.default.toList
        allowedModels := c.allowed.map String.toList } := by
  obtain ⟨parsed, hread, hget⟩ := get_agentFile py h
  have hne : c.allowed ≠ [] := List.ne_nil_of_mem hmodels.1
  simp only [agentSections, List.forall_mem_cons] at hget
  obtain ⟨⟨hid, hname, himage, hidle, _⟩, ⟨hcpu, hmemory, hpids, _⟩, ⟨hdefault, hallowed, _⟩, _⟩ := hget
  rw [(isIdentifier_solid h.id).settled] at hid
  rw [(decimal_solid _).settled] at hidle hcpu hmemory hpids
  rw [(isIdentifier_solid h.default).settled] at hdefault
  rw [(commaJoined_solid h.allowed).settled] at hallowed
  have hnodup : (c.allowed.map String.toList).Nodup := hmodels.2.map fun _ _ heq => String.toList_injective heq
  have hmem : (c.allowed.map String.toList).contains c.default.toList = true := by
    simpa using ⟨c.default, hmodels.1, rfl⟩
  simp only [loadAgent, hread, Except.toOption, hid, hname, himage, hidle, hcpu, hmemory, hpids,
    hdefault, hallowed, Option.bind_eq_bind, Option.bind_some, py.int_decimal, py.float_decimal,
    py.nonpositive_ofNat, commaSplit_joined hne h.allowed]
  have hlimits : (!(decide ((c.idleTimeoutSeconds : Int) ≤ 0) || decide (c.resources.cpuLimit = 0) ||
      decide ((c.resources.memoryMb : Int) ≤ 0) || decide ((c.resources.pidsLimit : Int) ≤ 0))) =
      true := by
    simp only [Bool.not_eq_true', Bool.or_eq_false_iff, decide_eq_false_iff_not]
    omega
  have hempty : (c.allowed.map String.toList).isEmpty = false := by simpa using hne
  simp only [hvalid, String.ofList_toList, beq_self_eq_true, Bool.and_self, guard_true,
    Option.pure_def, Option.bind_some, hlimits, hempty, hmem, hnodup, Bool.not_false, decide_true]

/-- What both loaders make of the file that is compiled for an agent. -/
def compiledDefinition (py : Python φ) (host : Host) (aid : String) (cfg : AgentConfig) :
    AgentDefinition φ where
  agentId := aid.toList
  displayName := Ini.settled cfg.name.toList
  image := Ini.settled host.image.toList
  idleTimeoutSeconds := host.idleTimeoutSeconds
  cpuLimit := py.ofNat (limitOr cfg.cpuLimit host.defaultCpu)
  memoryMb := limitOr cfg.memoryMb host.defaultMemoryMb
  pidsLimit := host.defaultPids
  defaultModel := cfg.defaultModelId.toList
  allowedModels := cfg.allowedModelIds.map String.toList

/-- A compiled directory has the file of the agent, with limits and models that pass the checks. -/
theorem compileAgent_file {host : Host} {data : Document} {aid : String} {cfg : AgentConfig}
    {version : Nat} {files : Files} (h : compileAgent host data aid cfg version = .ok files) :
    files.lookup "agent.cfg" = some (.agentCfg (agentCfg host aid cfg)) ∧
      isIdentifier aid = true ∧
      (0 < host.idleTimeoutSeconds ∧ 0 < limitOr cfg.cpuLimit host.defaultCpu ∧
        0 < limitOr cfg.memoryMb host.defaultMemoryMb ∧ 0 < host.defaultPids) ∧
      cfg.defaultModelId ∈ cfg.allowedModelIds ∧ cfg.allowedModelIds.Nodup := by
  simp only [compileAgent, bind_eq_ok] at h
  obtain ⟨_, hvalidate, l, _, models, _, _, hloadable, h⟩ := h
  obtain rfl := Except.ok.inj h
  simp only [validateAgent, bind_eq_ok, refuse_eq_ok, Bool.or_eq_false_iff, Bool.not_eq_false',
    decide_eq_true_eq] at hvalidate
  obtain ⟨_, _, _, _, _, ⟨_, hnodup⟩, _, _, _, ⟨hdefault, _⟩, _⟩ := hvalidate
  simp only [refuse_eq_ok, Bool.not_eq_false', loadable, Bool.and_eq_true, agentCfg] at hloadable
  obtain ⟨⟨⟨⟨⟨hidle, hcpu⟩, hmemory⟩, hpids⟩, hid⟩, _⟩ := hloadable
  refine ⟨?_, hid, ⟨of_decide_eq_true hidle, of_decide_eq_true hcpu,
    of_decide_eq_true hmemory, of_decide_eq_true hpids⟩, by simpa using hdefault, hnodup⟩
  rw [AList.lookup_insert_ne (by decide), AList.lookup_insert]

/-- **The file of an agent is loaded as it was compiled.** For an agent that the catalog compiles, with a
display name and an image without carriage returns, the loader of the catalog and the loader of the
sandbox manager both read the identity, the limits and the models that were compiled; the display name
comes back unchanged exactly when no line of it has white space around it, no further line looks like a
comment and no line is empty at the end. -/
theorem agent_file_round_trip (py : Python φ) {host : Host} {data : Document} {aid : String}
    {cfg : AgentConfig} {version : Nat} {files : Files}
    (hcompile : compileAgent host data aid cfg version = .ok files)
    (hschema : Catalog.agentDefinition cfg = true) (hname : '\r' ∉ cfg.name.toList)
    (himage : '\r' ∉ host.image.toList) :
    ∃ c, files.lookup "agent.cfg" = some (.agentCfg c) ∧
      loadAgent py isIdentifier aid (agentFile c) = some (compiledDefinition py host aid cfg) ∧
      loadAgent py runtimeIdentifier aid (agentFile c) = some (compiledDefinition py host aid cfg) ∧
      ((compiledDefinition py host aid cfg).displayName = cfg.name.toList ↔
        Ini.Plain cfg.name.toList) := by
  obtain ⟨hfile, hid, hpositive, hmodels⟩ := compileAgent_file hcompile
  have hregular : Regular (agentCfg host aid cfg) := by
    simp only [Catalog.agentDefinition, Bool.and_eq_true, List.all_eq_true] at hschema
    exact ⟨hid, hschema.1.1.1.1.2, hschema.1.1.1.1.1.2, hname, himage⟩
  exact ⟨_, hfile, loadAgent_agentFile py hregular hid hpositive hmodels,
    loadAgent_agentFile py hregular (runtimeIdentifier_of_isIdentifier hid) hpositive hmodels,
    Ini.settled_eq_self_iff⟩

end RoundTrip

/-! ## §F An agent -/

theorem toLower_of_lower {c : Char} (h : c.isLower = true ∨ c = '_') : c.toLower = c := by
  rcases h with hlower | rfl
  · have hupper : ¬(c.val ≥ 'A'.val ∧ c.val ≤ 'Z'.val) := by
      simp only [Char.isLower, Bool.and_eq_true, decide_eq_true_eq, ge_iff_le,
        UInt32.le_iff_toNat_le] at hlower
      rintro ⟨_, hle⟩
      have hz : c.val.toNat ≤ 90 := UInt32.le_iff_toNat_le.mp hle
      have ha : 97 ≤ c.val.toNat := hlower.1
      omega
    rw [Char.toLower, dif_neg hupper]
  · rfl

/-- `int` of a text of digits. -/
def asciiNumber (text : Text) : Option Nat :=
  if !text.isEmpty && text.all Char.isDigit then some (Nat.ofDigitChars 10 text 0) else none

theorem asciiNumber_decimal (n : Nat) : asciiNumber (decimal n) = some n := by
  have hdigits : decimal n = Nat.toDigits 10 n := by simp [decimal]
  have hall : (Nat.toDigits 10 n).all Char.isDigit = true :=
    List.all_eq_true.2 fun c hc => Nat.isDigit_of_mem_toDigits (by decide) (by decide) hc
  have hne : (Nat.toDigits 10 n).isEmpty = false := by simp
  rw [asciiNumber, hdigits, hall, hne]
  simp

/-- Python's text and numbers, for texts of ASCII characters and whole numbers. -/
def asciiPython : Python Nat where
  lower := List.map Char.toLower
  int text := (asciiNumber text).map Int.ofNat
  float := asciiNumber
  ofNat := id
  nonpositive n := n == 0
  lower_name name h := (List.map_congr_left (g := id) fun c hc => toLower_of_lower (h c hc)).trans
    (List.map_id name)
  int_decimal n := by rw [asciiNumber_decimal]; rfl
  float_decimal n := asciiNumber_decimal n
  nonpositive_ofNat n := beq_eq_decide n 0

/-- A catalog with one model. -/
def oneModel : Document :=
  { (Service.initial "" "").store.data with
    models := (∅ : Dict String ModelDefinition).insert "m1" (managedModel "m1") }

/-- The display name loses the white space in front of it. -/
theorem agent_file_round_trip_when_indented : ∃ files c,
    compileAgent plainHost oneModel "a" { plainAgent "m1" "" with name := " Agent" } 1 = .ok files ∧
    files.lookup "agent.cfg" = some (.agentCfg c) ∧
    (loadAgent asciiPython runtimeIdentifier "a" (agentFile c)).map (·.displayName) =
      some "Agent".toList := by
  have hcompiles : (compileAgent plainHost oneModel "a" { plainAgent "m1" "" with name := " Agent" }
      1).isOk = true := by decide +kernel
  cases hfiles : compileAgent plainHost oneModel "a" { plainAgent "m1" "" with name := " Agent" } 1 with
  | error e =>
    rw [hfiles] at hcompiles
    cases hcompiles
  | ok files =>
    obtain ⟨c, hfile, _, hload, _⟩ := agent_file_round_trip asciiPython hfiles (by decide +kernel)
      (by decide) (by decide)
    refine ⟨files, c, rfl, hfile, ?_⟩
    rw [hload]
    decide +kernel

-- behind a carriage return the name goes on as lines of the file: the image is another one
example : (loadAgent asciiPython runtimeIdentifier "a" (agentFile (agentCfg plainHost "a"
    { plainAgent "m1" "" with
      name := "Agent\rimage = other\ridle_timeout_seconds = 9\r[rest]\rnote = 1" }))).map (·.image) =
    some "other".toList := by decide +kernel

end OpencodeCloud.Platform
