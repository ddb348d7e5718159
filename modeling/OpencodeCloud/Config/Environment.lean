/-
# OpencodeCloud.Config.Environment -- the environment file of a deployment

`serialize` writes an environment file, a variable a line with its value in single quotes, and refuses values with
a quote, a line feed, a carriage return or a null. `read_env_file` reads what people write. `initialize` reads the
file of a deployment, fills in what is missing and writes it.

The reader splits the file with `str.splitlines`, which ends a line at seven more characters that the writer lets
through. A value that has one of them cannot be read back (`readText_serialize`), and a deployment in a directory
with such a name destroys its own file (`initializeEnv_kept`).
-/
import Mathlib
import OpencodeCloud.Library.Checks
import OpencodeCloud.Library.Entries
import OpencodeCloud.Library.Text

namespace OpencodeCloud.Config

open OpencodeCloud.Library

/-! ## §A Names and mappings -/

/-- `re.fullmatch('[A-Za-z_][A-Za-z0-9_]*', name)` -/
def isEnvName : Text → Bool
  | [] => false
  | c :: cs => (c.isAlpha || c == '_') && cs.all fun d => d.isAlpha || d.isDigit || d == '_'

/-- The name of a variable. -/
structure Name where
  text : Text
  valid : isEnvName text = true
  deriving DecidableEq

abbrev Env := Entries Name Text

/-- The ways in which reading and writing fail. -/
inductive EnvError
  | syntaxAt (number : ℕ)
  | nameAt (number : ℕ)
  | quotedAt (number : ℕ)
  | charactersIn (key : Name)
  /-- The file is no UTF-8. -/
  | undecodable
  /-- `Path.resolve` raises. -/
  | unresolved
  deriving DecidableEq

/-- The text of the `ValueError`. -/
def EnvError.message : EnvError → Option String
  | .syntaxAt number => some s!"Invalid env file syntax at line {number}"
  | .nameAt number => some s!"Invalid env variable name at line {number}"
  | .quotedAt number => some s!"Invalid quoted env value at line {number}"
  | .charactersIn key => some ("Unsupported dotenv characters in " ++ String.ofList key.text)
  | .undecodable => none
  | .unresolved => none

/-! ## §B The reader -/

/-- `re.split(r'\s+#', value, maxsplit=1)[0]` -/
def beforeComment : Text → Text
  | [] => []
  | c :: cs => if isSpace c && (cs.dropWhile isSpace).head? == some '#' then [] else c :: beforeComment cs

/-- The value of a variable, from what stands behind the equals sign. -/
def readValue (number : ℕ) (value : Text) : Except EnvError Text :=
  match value with
  | [] => .ok []
  | quote :: rest =>
    if quote = '"' ∨ quote = '\'' then
      if rest.getLast? = some quote then .ok rest.dropLast else .error (.quotedAt number)
    else .ok (rstrip (beforeComment value))

/-- One line of the file. -/
def readLine (number : ℕ) (values : Env) (raw : Text) : Except EnvError Env :=
  let line := strip raw
  if line = [] ∨ line.head? = some '#' then .ok values
  else
    let line := if "export ".toList.isPrefixOf line then lstrip (line.drop 7) else line
    if '=' ∉ line then .error (.syntaxAt number)
    else
      let key := strip (line.takeWhile (· != '='))
      let value := strip (line.dropWhile (· != '=')).tail
      if h : isEnvName key = true then do
        let value ← readValue number value
        pure (values.set ⟨key, h⟩ value)
      else .error (.nameAt number)

/-- The loop over the lines. -/
def readLines : ℕ → Env → List Text → Except EnvError Env
  | _, values, [] => .ok values
  | number, values, raw :: lines => do
    let values ← readLine number values raw
    readLines (number + 1) values lines

/-- `read_env_file`, once the file is decoded. -/
def readText (text : Text) : Except EnvError Env := readLines 1 .empty (splitlines (universalNewlines text))

/-- `read_env_file(path)` -/
def readEnvFile (content : ByteArray) : Except EnvError Env :=
  match String.fromUTF8? content with
  | none => .error .undecodable
  | some text => readText text.toList

/-! ## §C The writer -/

/-- `any(char in value for char in "'\r\n\x00")` -/
def unsupported (value : Text) : Bool := value.any fun c => c == '\'' || c == '\r' || c == '\n' || c.toNat == 0

/-- `f"{key}='{value}'" if value else f'{key}='` -/
def lineOf (entry : Name × Text) : Text :=
  if entry.2 = [] then entry.1.text ++ ['='] else entry.1.text ++ '=' :: '\'' :: (entry.2 ++ ['\''])

/-- A line of the file, when it can be written. -/
def writeLine (entry : Name × Text) : Except EnvError Text :=
  if unsupported entry.2 then .error (.charactersIn entry.1) else .ok (lineOf entry)

/-- `serialize(values)` -/
def serialize (values : Env) : Except EnvError Text := do
  let lines ← values.list.mapM writeLine
  pure (['\n'].intercalate lines ++ ['\n'])

/-- The bytes that are written for a text. -/
def encode (text : Text) : ByteArray := (String.ofList text).toUTF8

/-! ## §D Initialization -/

def serviceToken : Name := ⟨"SERVICE_TOKEN".toList, by decide⟩
def adminToken : Name := ⟨"ADMIN_TOKEN".toList, by decide⟩
def modelGatewayToken : Name := ⟨"MODEL_GATEWAY_TOKEN".toList, by decide⟩
def deployRoot : Name := ⟨"DEPLOY_ROOT".toList, by decide⟩
def composeProjectName : Name := ⟨"COMPOSE_PROJECT_NAME".toList, by decide⟩

/-- `TOKENS` -/
def tokenNames : List Name := [serviceToken, adminToken, modelGatewayToken]

/-- `DEFAULTS['COMPOSE_PROJECT_NAME']` -/
def defaultProject : Text := "opencode_cloud".toList

/-- What `secrets.token_hex(32)` returns. -/
structure Token where
  text : Text
  length : text.length = 64
  hex : (text.all fun c => c.isDigit || ('a' ≤ c && c ≤ 'f')) = true

/-- What stands outside the module. -/
structure Host where
  /-- The token that is drawn for a variable. -/
  draw : Name → Token
  /-- `str(Path(deploy_root).resolve())` -/
  resolve : Text → Option Text
  absolute : ∀ path resolved, resolve path = some resolved → resolved ≠ []

/-- `if not values.get(key): values[key] = value` -/
def fill (values : Env) (key : Name) (value : Text) : Env :=
  match values.get? key with
  | some (_ :: _) => values
  | _ => values.set key value

section Initialize

variable (host : Host)

/-- The loop over the tokens. -/
def fillTokens (values : Env) : Env := tokenNames.foldl (fun values key => fill values key (host.draw key).text) values

/-- `if not values.get('DEPLOY_ROOT'): …` -/
def fillRoot (values : Env) (path : Text) : Except EnvError Env :=
  match values.get? deployRoot with
  | some (_ :: _) => .ok values
  | _ =>
    match host.resolve path with
    | none => .error .unresolved
    | some resolved => .ok (values.set deployRoot resolved)

/-- `initialize(path, deploy_root)`: the file afterwards. It is not opened when an exception is raised before. -/
def initializeEnv (file : Option ByteArray) (path : Text) : Except EnvError ByteArray := do
  let values ← match file with
    | none => Except.ok Entries.empty
    | some content => readEnvFile content
  let values ← fillRoot host (fillTokens host values) path
  let payload ← serialize (fill values composeProjectName defaultProject)
  pure (encode payload)

end Initialize

/-! ## §E A line that is read back -/

/-- A character of a name is an ASCII letter, a digit or an underscore, and so none that the reader looks for. -/
structure IsNameChar (c : Char) : Prop where
  space : isSpace c = false
  boundary : isBoundary c = false
  equals : c ≠ '='
  hash : c ≠ '#'
  quote : c ≠ '\'' ∧ c ≠ '"'

theorem isNameChar_of {c : Char} (h : (c.isAlpha || c.isDigit || c == '_') = true) : IsNameChar c := by
  have hrange : (48 ≤ c.toNat ∧ c.toNat ≤ 57) ∨ (65 ≤ c.toNat ∧ c.toNat ≤ 90) ∨ c.toNat = 95
      ∨ (97 ≤ c.toNat ∧ c.toNat ≤ 122) := by
    simp only [Char.isAlpha, Char.isUpper, Char.isLower, Char.isDigit, Bool.or_eq_true, Bool.and_eq_true,
      decide_eq_true_eq, ge_iff_le, UInt32.le_iff_toNat_le, beq_iff_eq] at h
    rcases h with ((⟨h, h'⟩ | ⟨h, h'⟩) | ⟨h, h'⟩) | rfl
    · exact Or.inr (Or.inl ⟨h, h'⟩)
    · exact Or.inr (Or.inr (Or.inr ⟨h, h'⟩))
    · exact Or.inl ⟨h, h'⟩
    · decide
  have hne : ∀ d : Char, d.toNat < 48 → c ≠ d := by
    rintro d hd rfl
    omega
  refine ⟨?_, ?_, ?_, hne _ (by decide), hne _ (by decide), hne _ (by decide)⟩
  · simp only [isSpace, Bool.or_eq_false_iff, Bool.and_eq_false_iff, decide_eq_false_iff_not, beq_eq_false_iff_ne]
    omega
  · simp only [isBoundary, Bool.or_eq_false_iff, Bool.and_eq_false_iff, decide_eq_false_iff_not,
      beq_eq_false_iff_ne]
    omega
  · rintro rfl
    revert hrange
    decide

theorem Name.exists_cons (name : Name) : ∃ c cs, name.text = c :: cs := by
  obtain ⟨text, hvalid⟩ := name
  cases text with
  | nil => cases hvalid
  | cons c cs => exact ⟨c, cs, rfl⟩

theorem Name.chars (name : Name) : ∀ c ∈ name.text, IsNameChar c := by
  obtain ⟨text, hvalid⟩ := name
  cases text with
  | nil => cases hvalid
  | cons c cs =>
    rw [isEnvName, Bool.and_eq_true, List.all_eq_true] at hvalid
    intro d hd
    rcases List.mem_cons.1 hd with rfl | hd
    · refine isNameChar_of ?_
      rcases Bool.or_eq_true_iff.1 hvalid.1 with h | h
      · rw [h, Bool.true_or, Bool.true_or]
      · rw [h, Bool.or_true]
    · exact isNameChar_of (hvalid.2 d hd)

section Lines

variable {name : Name} {number : ℕ} {values : Env}

/-- No line begins as an export does. -/
theorem not_export (name : Name) (rest : Text) : "export ".toList.isPrefixOf (name.text ++ '=' :: rest) = false := by
  refine Bool.eq_false_iff.2 fun h => ?_
  have hprefix := List.isPrefixOf_iff_prefix.1 h
  have hname : name.text ++ ['='] <+: name.text ++ '=' :: rest := ⟨rest, by simp⟩
  rcases Nat.lt_or_ge name.text.length "export ".toList.length with hlt | hle
  · have hin := List.prefix_of_prefix_length_le hname hprefix (by rw [List.length_append]; exact hlt)
    have hmem : '=' ∈ "export ".toList := hin.subset (by simp)
    exact absurd hmem (by decide)
  · have hin := List.prefix_of_prefix_length_le hprefix ⟨'=' :: rest, rfl⟩ hle
    have hmem : ' ' ∈ name.text := hin.subset (by decide)
    exact absurd (name.chars ' ' hmem).space (by decide)

/-- **A line with a name** is taken apart at the first equals sign. -/
theorem readLine_eq (name : Name) (rest : Text) {raw : Text} (hstrip : strip raw = name.text ++ '=' :: rest) :
    readLine number values raw
      = (readValue number (strip rest)).map fun value => values.set name value := by
  obtain ⟨c, cs, hcs⟩ := name.exists_cons
  have hchars := name.chars
  have hne : ∀ d ∈ name.text, (d != '=') = true := fun d hd => by simpa using (hchars d hd).equals
  have hhead : ¬ (name.text ++ '=' :: rest = [] ∨ (name.text ++ '=' :: rest).head? = some '#') := by
    rintro (h | h)
    · simp at h
    · rw [hcs] at h
      exact (hchars c (by simp [hcs])).hash (Option.some.inj h)
  have htake : (name.text ++ '=' :: rest).takeWhile (· != '=') = name.text := by
    rw [List.takeWhile_append_of_pos hne]
    simp
  have hdrop : (name.text ++ '=' :: rest).dropWhile (· != '=') = '=' :: rest := by
    rw [List.dropWhile_append_of_pos hne]
    simp
  have hkey : strip name.text = name.text := strip_of_forall fun d hd => (hchars d hd).space
  unfold readLine
  simp only [hstrip, if_neg hhead, not_export, Bool.false_eq_true, if_false, htake, hdrop, hkey, List.tail_cons,
    dif_pos name.valid]
  rw [if_neg (by simp)]
  cases readValue number (strip rest) with
  | error e => rfl
  | ok value => rfl

/-- A text in quotes is read as what is in them. -/
theorem readValue_quoted (value : Text) : readValue number (strip ('\'' :: (value ++ ['\'']))) = .ok value := by
  rw [strip_between (by decide) (by decide)]
  simp [readValue]

/-- A quote that is not closed is refused. -/
theorem readValue_open {value : Text} (h : '\'' ∉ value) :
    readValue number (strip ('\'' :: value)) = .error (.quotedAt number) := by
  have hstrip : strip ('\'' :: value) = '\'' :: rstrip value := by
    rw [strip, lstrip_cons (by decide)]
    exact rstrip_append_cons (by decide) [] value
  rw [hstrip, readValue, if_pos (Or.inr rfl), if_neg]
  intro hlast
  exact h ((rstrip_isPrefix value).subset (List.mem_of_getLast? hlast))

/-- **A line that was written is read back.** -/
theorem readLine_lineOf (entry : Name × Text) (number : ℕ) (values : Env) :
    readLine number values (lineOf entry) = .ok (values.set entry.1 entry.2) := by
  obtain ⟨c, cs, hcs⟩ := entry.1.exists_cons
  have hspace : isSpace c = false := (entry.1.chars c (by simp [hcs])).space
  unfold lineOf
  by_cases hempty : entry.2 = []
  · rw [if_pos hempty, readLine_eq entry.1 []]
    · rw [hempty]
      rfl
    · rw [hcs]
      exact strip_between hspace (by decide) cs
  · rw [if_neg hempty, readLine_eq entry.1 ('\'' :: (entry.2 ++ ['\'']))]
    · rw [readValue_quoted]
      rfl
    · have happend : entry.1.text ++ '=' :: '\'' :: (entry.2 ++ ['\''])
          = c :: ((cs ++ '=' :: '\'' :: entry.2) ++ ['\'']) := by
        rw [hcs]
        simp
      rw [happend]
      exact strip_between hspace (by decide) _

/-- The beginning of such a line, up to somewhere in its value, is refused. -/
theorem readLine_cut {value : Text} (h : '\'' ∉ value) :
    readLine number values (name.text ++ '=' :: '\'' :: value) = .error (.quotedAt number) := by
  obtain ⟨c, cs, hcs⟩ := name.exists_cons
  have hspace : isSpace c = false := (name.chars c (by simp [hcs])).space
  have hquote : '\'' ∉ rstrip value := fun hmem => h ((rstrip_isPrefix value).subset hmem)
  rw [readLine_eq name ('\'' :: rstrip value), readValue_open hquote]
  · rfl
  · have happend : name.text ++ '=' :: '\'' :: value = (name.text ++ ['=']) ++ '\'' :: value := by simp
    have hfront : lstrip (name.text ++ '=' :: '\'' :: value) = name.text ++ '=' :: '\'' :: value := by
      rw [hcs]
      exact lstrip_cons hspace _
    rw [strip, hfront, happend, rstrip_append_cons (by decide)]
    simp

end Lines

/-! ## §F Files that are read back -/

/-- No value has a character that ends a line. -/
def Plain (values : Env) : Prop := ∀ entry ∈ values.list, ∀ c ∈ entry.2, isBoundary c = false

/-- The text of a file with the entries, if it can be written. -/
def linesText (entries : List (Name × Text)) : Text := (entries.map lineOf).flatMap (· ++ ['\n'])

section Files

variable {values : Env} {text : Text}

theorem intercalate_lines (lines : List Text) (h : lines ≠ []) :
    ['\n'].intercalate lines ++ ['\n'] = lines.flatMap (· ++ ['\n']) := by
  induction lines with
  | nil => exact absurd rfl h
  | cons line lines ih =>
    cases lines with
    | nil => simp [List.intercalate]
    | cons next lines =>
      have hstep : ['\n'].intercalate (line :: next :: lines) = line ++ ['\n'] ++ ['\n'].intercalate (next :: lines) := by
        simp [List.intercalate]
      rw [hstep, List.append_assoc, ih (by simp)]
      rfl

/-- What is written, and when. -/
theorem serialize_eq_ok :
    serialize values = .ok text ↔ (∀ entry ∈ values.list, unsupported entry.2 = false)
      ∧ text = if values.list = [] then ['\n'] else linesText values.list := by
  have hmapM : ∀ entries : List (Name × Text), (∀ entry ∈ entries, unsupported entry.2 = false) →
      entries.mapM writeLine = .ok (entries.map lineOf) := by
    intro entries h
    rw [mapM_eq_ok, List.forall₂_map_right_iff, List.forall₂_same]
    intro entry he
    rw [writeLine, h entry he]
    rfl
  have htext : ['\n'].intercalate (values.list.map lineOf) ++ ['\n']
      = if values.list = [] then ['\n'] else linesText values.list := by
    split
    · rename_i hempty
      rw [hempty]
      rfl
    · rename_i hne
      exact intercalate_lines _ (by simpa using hne)
  unfold serialize
  rw [← htext]
  constructor
  · intro h
    obtain ⟨lines, hlines, hpure⟩ := except_bind_eq_ok.1 h
    have hall : ∀ entry ∈ values.list, unsupported entry.2 = false := by
      intro entry he
      obtain ⟨line, hline⟩ := exists_mapM_eq_ok.1 ⟨lines, hlines⟩ entry he
      unfold writeLine at hline
      split at hline
      · cases hline
      · rename_i hun
        exact Bool.eq_false_iff.2 hun
    rw [hmapM _ hall] at hlines
    cases hlines
    exact ⟨hall, (Except.ok.inj hpure).symm⟩
  · rintro ⟨hall, rfl⟩
    rw [hmapM _ hall]
    rfl

theorem unsupported_iff {value : Text} :
    unsupported value = false ↔ ∀ c ∈ value, c ≠ '\'' ∧ c ≠ '\r' ∧ c ≠ '\n' ∧ c.toNat ≠ 0 := by
  rw [unsupported, List.any_eq_false]
  refine forall_congr' fun c => forall_congr' fun _ => ?_
  simp only [Bool.or_eq_true, beq_iff_eq, not_or, and_assoc, ne_eq]

theorem mem_lineOf {entry : Name × Text} {c : Char} (h : c ∈ lineOf entry) :
    c ∈ entry.1.text ∨ c = '=' ∨ c = '\'' ∨ c ∈ entry.2 := by
  unfold lineOf at h
  split at h
  · rcases List.mem_append.1 h with h | h
    · exact Or.inl h
    · exact Or.inr (Or.inl (List.mem_singleton.1 h))
  · simp only [List.mem_append, List.mem_cons, List.not_mem_nil, or_false] at h
    rcases h with h | rfl | rfl | h | rfl
    · exact Or.inl h
    · exact Or.inr (Or.inl rfl)
    · exact Or.inr (Or.inr (Or.inl rfl))
    · exact Or.inr (Or.inr (Or.inr h))
    · exact Or.inr (Or.inr (Or.inl rfl))

/-- A written line has no end of a line in it, if its value has none. -/
theorem lineOf_clean {entry : Name × Text} (h : ∀ c ∈ entry.2, isBoundary c = false) :
    ∀ c ∈ lineOf entry, isBoundary c = false := by
  intro c hc
  rcases mem_lineOf hc with hc | rfl | rfl | hc
  · exact (entry.1.chars c hc).boundary
  · decide
  · decide
  · exact h c hc

/-- No carriage return is written. -/
theorem return_notMem (hun : ∀ entry ∈ values.list, unsupported entry.2 = false) :
    '\r' ∉ linesText values.list := by
  intro h
  obtain ⟨line, hline, hc⟩ := List.mem_flatMap.1 h
  obtain ⟨entry, he, rfl⟩ := List.mem_map.1 hline
  rcases List.mem_append.1 hc with hc | hc
  · rcases mem_lineOf hc with hc | hc | hc | hc
    · exact absurd (entry.1.chars _ hc).boundary (by decide)
    · cases hc
    · cases hc
    · exact (unsupported_iff.1 (hun entry he) _ hc).2.1 rfl
  · exact absurd (List.mem_singleton.1 hc) (by decide)

/-- Lines that were written are read one after the other. -/
theorem readLines_lineOf (entries : List (Name × Text)) (number : ℕ) (values : Env)
    (hnodup : ((values.list ++ entries).map Prod.fst).Nodup) (lines : List Text) :
    readLines number values (entries.map lineOf ++ lines)
      = readLines (number + entries.length) ⟨values.list ++ entries, hnodup⟩ lines := by
  induction entries generalizing number values with
  | nil =>
    have hsame : (⟨values.list ++ [], hnodup⟩ : Env) = values := Entries.ext (List.append_nil _)
    rw [hsame]
    rfl
  | cons entry entries ih =>
    have hnew : entry.1 ∉ values.list.map Prod.fst := by
      rw [List.map_append, List.nodup_append] at hnodup
      exact fun hmem => hnodup.2.2 _ hmem _ List.mem_cons_self rfl
    have hset : (values.set entry.1 entry.2).list = values.list ++ [entry] := Entries.list_set_of_notMem hnew
    have hnodup' : (((values.set entry.1 entry.2).list ++ entries).map Prod.fst).Nodup := by
      rw [hset, List.append_assoc]
      exact hnodup
    have hsame : (⟨(values.set entry.1 entry.2).list ++ entries, hnodup'⟩ : Env)
        = ⟨values.list ++ entry :: entries, hnodup⟩ := Entries.ext (by simp [hset])
    rw [List.map_cons, List.cons_append, readLines, readLine_lineOf]
    show readLines (number + 1) (values.set entry.1 entry.2) _ = _
    rw [ih (number + 1) (values.set entry.1 entry.2) hnodup', hsame, List.length_cons, Nat.add_assoc,
      Nat.add_comm 1]

/-- The first of the elements that do not have a property. -/
theorem exists_first {α : Type} {p : α → Prop} {l : List α} (h : ¬ ∀ a ∈ l, p a) :
    ∃ front a back, l = front ++ a :: back ∧ (∀ b ∈ front, p b) ∧ ¬ p a := by
  induction l with
  | nil => exact absurd nofun h
  | cons a l ih =>
    by_cases ha : p a
    · obtain ⟨front, b, back, rfl, hfront, hb⟩ := ih fun hall => h (List.forall_mem_cons.2 ⟨ha, hall⟩)
      exact ⟨a :: front, b, back, rfl, List.forall_mem_cons.2 ⟨ha, hfront⟩, hb⟩
    · exact ⟨[], a, l, rfl, nofun, ha⟩

/-- A file of values without ends of lines is read back. -/
theorem readText_of_plain (h : serialize values = .ok text) (hplain : Plain values) : readText text = .ok values := by
  obtain ⟨hun, rfl⟩ := serialize_eq_ok.1 h
  by_cases hempty : values.list = []
  · have hvalues : values = Entries.empty := Entries.ext hempty
    subst hvalues
    rfl
  have hclean : ∀ line ∈ values.list.map lineOf, ∀ c ∈ line, isBoundary c = false := by
    intro line hline
    obtain ⟨e, he, rfl⟩ := List.mem_map.1 hline
    exact lineOf_clean (hplain e he)
  have hlines := splitlines_joined (values.list.map lineOf) hclean []
  rw [List.append_nil] at hlines
  rw [if_neg hempty, readText, universalNewlines_of_notMem (return_notMem hun), linesText, hlines,
    readLines_lineOf values.list 1 .empty values.nodup]
  rfl

/-- The line of a value that has one is cut there, and refused. -/
theorem readText_of_not_plain (h : serialize values = .ok text) (hplain : ¬ Plain values) :
    ∃ number, readText text = .error (.quotedAt number) := by
  obtain ⟨hun, rfl⟩ := serialize_eq_ok.1 h
  obtain ⟨front, entry, back, hlist, hfront, hentry⟩ := exists_first hplain
  obtain ⟨seen, b, rest, hvalue, hseen, hb⟩ := exists_first hentry
  have hb : isBoundary b = true := by simpa using hb
  have hmem : entry ∈ values.list := by simp [hlist]
  have hchars := unsupported_iff.1 (hun entry hmem)
  have hreturn : b ≠ '\r' := (hchars b (by simp [hvalue])).2.1
  have hquote : '\'' ∉ seen := fun hq => (hchars '\'' (by simp [hvalue, hq])).1 rfl
  have hnodup : ((Entries.empty.list ++ front : List (Name × Text)).map Prod.fst).Nodup := by
    have hall := values.nodup
    rw [hlist, List.map_append, List.nodup_append] at hall
    exact hall.1
  -- the file up to the character that ends the line, and what stands behind it
  have hfile : ∃ tail, linesText values.list
      = (front.map lineOf).flatMap (· ++ ['\n'])
        ++ ((entry.1.text ++ '=' :: '\'' :: seen) ++ b :: tail) := by
    have hne : entry.2 ≠ [] := by simp [hvalue]
    refine ⟨rest ++ '\'' :: '\n' :: (back.map lineOf).flatMap (· ++ ['\n']), ?_⟩
    rw [linesText, hlist, List.map_append, List.map_cons, List.flatMap_append, List.flatMap_cons, lineOf,
      if_neg hne, hvalue]
    simp
  obtain ⟨tail, hfile⟩ := hfile
  have hclean : ∀ line ∈ front.map lineOf, ∀ c ∈ line, isBoundary c = false := by
    intro line hline
    obtain ⟨e, he, rfl⟩ := List.mem_map.1 hline
    exact lineOf_clean (hfront e he)
  have hcut : ∀ c ∈ entry.1.text ++ '=' :: '\'' :: seen, isBoundary c = false := by
    intro c hc
    simp only [List.mem_append, List.mem_cons] at hc
    rcases hc with hc | rfl | rfl | hc
    · exact (entry.1.chars c hc).boundary
    · decide
    · decide
    · exact hseen c hc
  refine ⟨1 + front.length, ?_⟩
  rw [if_neg (List.ne_nil_of_mem hmem), readText, universalNewlines_of_notMem (return_notMem hun), hfile,
    splitlines_joined _ hclean, splitlines_cut hcut hb hreturn, readLines_lineOf front 1 .empty hnodup,
    readLines, readLine_cut hquote]
  rfl

/-- **What was written is read back** exactly when no value has a character that ends a line. -/
theorem readText_serialize (h : serialize values = .ok text) : readText text = .ok values ↔ Plain values := by
  constructor
  · intro hread
    by_contra hplain
    obtain ⟨number, herror⟩ := readText_of_not_plain h hplain
    rw [hread] at herror
    cases herror
  · exact readText_of_plain h

/-- The bytes of a file are its text. -/
theorem readEnvFile_encode (text : Text) : readEnvFile (encode text) = readText text := by
  have hdecode : String.fromUTF8? (encode text) = some (String.ofList text) := by
    unfold String.fromUTF8? encode
    exact dif_pos (String.ofList text).isValidUTF8
  rw [readEnvFile, hdecode]
  simp

end Files

/-! ## §G What is read -/

section Read

variable {values values' : Env} {number : ℕ}

theorem beforeComment_isPrefix (value : Text) : beforeComment value <+: value := by
  induction value with
  | nil => exact List.prefix_refl _
  | cons c cs ih =>
    rw [beforeComment]
    split
    · exact List.nil_prefix
    · exact List.cons_prefix_cons.2 ⟨rfl, ih⟩

theorem readValue_subset {value read : Text} (h : readValue number value = .ok read) : read ⊆ value := by
  cases value with
  | nil =>
    cases h
    exact List.Subset.refl _
  | cons quote rest =>
    rw [readValue] at h
    split at h
    · split at h
      · cases h
        exact fun c hc => List.mem_cons_of_mem _ (List.mem_of_mem_dropLast hc)
      · cases h
    · cases h
      exact fun c hc => (beforeComment_isPrefix _).subset ((rstrip_isPrefix _).subset hc)

/-- A line sets one variable, to a part of the line, or none. -/
theorem readLine_eq_ok {raw : Text} (h : readLine number values raw = .ok values') :
    values' = values ∨ ∃ name value, values' = values.set name value ∧ value ⊆ raw := by
  have hsubset : (if "export ".toList.isPrefixOf (strip raw) then lstrip ((strip raw).drop 7) else strip raw) ⊆ raw := by
    split
    · exact fun c hc => (strip_isInfix raw).subset ((List.drop_suffix 7 _).subset ((List.dropWhile_suffix _).subset hc))
    · exact (strip_isInfix raw).subset
  unfold readLine at h
  simp only at h
  split at h
  · cases h
    exact Or.inl rfl
  · generalize (if "export ".toList.isPrefixOf (strip raw) then lstrip ((strip raw).drop 7) else strip raw)
      = line at h hsubset
    split at h
    · cases h
    · split at h
      · obtain ⟨value, hvalue, hpure⟩ := except_bind_eq_ok.1 h
        cases hpure
        refine Or.inr ⟨_, value, rfl, fun c hc => hsubset ?_⟩
        exact (List.dropWhile_suffix _).subset
          ((List.tail_suffix _).subset ((strip_isInfix _).subset (readValue_subset hvalue hc)))
      · cases h

/-- **No value that is read has an end of a line in it.** -/
theorem readText_plain {text : Text} (h : readText text = .ok values) : Plain values := by
  have hrun : ∀ (lines : List Text) (number : ℕ) (values values' : Env),
      (∀ line ∈ lines, ∀ c ∈ line, isBoundary c = false) → Plain values →
      readLines number values lines = .ok values' → Plain values' := by
    intro lines
    induction lines with
    | nil =>
      intro number values values' _ hplain h
      cases h
      exact hplain
    | cons raw lines ih =>
      intro number values values' hclean hplain h
      obtain ⟨next, hnext, hrest⟩ := except_bind_eq_ok.1 h
      refine ih (number + 1) next values' (fun line hl => hclean line (List.mem_cons_of_mem _ hl)) ?_ hrest
      rcases readLine_eq_ok hnext with rfl | ⟨name, value, rfl, hsubset⟩
      · exact hplain
      · intro entry he
        rcases Entries.mem_set he with rfl | he
        · exact fun c hc => hclean raw List.mem_cons_self c (hsubset hc)
        · exact hplain entry he
  exact hrun _ 1 .empty values (fun line hline => splitlines_clean hline) (fun _ he => nomatch he) h

theorem readEnvFile_plain {content : ByteArray} (h : readEnvFile content = .ok values) : Plain values := by
  unfold readEnvFile at h
  split at h
  · cases h
  · exact readText_plain h

end Read

/-! ## §H Initialization keeps what is there -/

/-- A variable has a value. -/
def HasValue (values : Env) (key : Name) : Prop := ∃ c cs, values.get? key = some (c :: cs)

/-- Nothing that is not empty is lost. -/
def Keeps (values values' : Env) : Prop := ∀ key value, values.get? key = some value → value ≠ [] →
  values'.get? key = some value

section Fill

variable {values values' : Env} {key : Name} {value : Text} {host : Host} {path : Text}

theorem Keeps.refl (values : Env) : Keeps values values := fun _ _ h _ => h

theorem Keeps.trans {values'' : Env} (h : Keeps values values') (h' : Keeps values' values'') :
    Keeps values values'' := fun key value hget hne => h' key value (h key value hget hne) hne

theorem HasValue.keep (h : HasValue values key) (hkeeps : Keeps values values') : HasValue values' key := by
  obtain ⟨c, cs, hget⟩ := h
  exact ⟨c, cs, hkeeps key _ hget nofun⟩

/-- What has a value is left as it is. -/
theorem fill_of_hasValue (h : HasValue values key) : fill values key value = values := by
  obtain ⟨c, cs, hget⟩ := h
  rw [fill, hget]

theorem fill_of_not (h : ¬ HasValue values key) : fill values key value = values.set key value := by
  unfold fill
  split
  · rename_i c cs hget
    exact absurd ⟨c, cs, hget⟩ h
  · rfl

theorem keeps_set (h : ¬ HasValue values key) (value : Text) : Keeps values (values.set key value) := by
  intro k v hget hne
  rw [Entries.get?_set, if_neg]
  · exact hget
  · rintro rfl
    obtain ⟨c, cs, rfl⟩ := List.exists_cons_of_ne_nil hne
    exact h ⟨c, cs, hget⟩

theorem keeps_fill (values : Env) (key : Name) (value : Text) : Keeps values (fill values key value) := by
  by_cases h : HasValue values key
  · rw [fill_of_hasValue h]
    exact Keeps.refl values
  · rw [fill_of_not h]
    exact keeps_set h value

theorem hasValue_fill (values : Env) (key : Name) (h : value ≠ []) : HasValue (fill values key value) key := by
  by_cases hv : HasValue values key
  · rwa [fill_of_hasValue hv]
  · obtain ⟨c, cs, rfl⟩ := List.exists_cons_of_ne_nil h
    rw [fill_of_not hv]
    exact ⟨c, cs, Entries.get?_set_self _ _ _⟩

theorem Plain.set (h : Plain values) (hvalue : ∀ c ∈ value, isBoundary c = false) : Plain (values.set key value) := by
  intro entry he
  rcases Entries.mem_set he with rfl | he
  · exact hvalue
  · exact h entry he

theorem Plain.fill (h : Plain values) (hvalue : ∀ c ∈ value, isBoundary c = false) :
    Plain (fill values key value) := by
  by_cases hv : HasValue values key
  · rwa [fill_of_hasValue hv]
  · rw [fill_of_not hv]
    exact h.set hvalue

theorem Token.ne_nil (token : Token) : token.text ≠ [] := by
  intro h
  have hlength := token.length
  rw [h] at hlength
  cases hlength

theorem Token.plain (token : Token) : ∀ c ∈ token.text, isBoundary c = false := by
  intro c hc
  have hhex := List.all_eq_true.1 token.hex c hc
  refine (isNameChar_of ?_).boundary
  rcases Bool.or_eq_true_iff.1 hhex with hdigit | hletter
  · rw [hdigit, Bool.or_true, Bool.true_or]
  · rw [Bool.and_eq_true, decide_eq_true_eq, decide_eq_true_eq] at hletter
    have hlower : c.isLower = true := by
      rw [Char.isLower, Bool.and_eq_true, decide_eq_true_eq, decide_eq_true_eq]
      exact ⟨hletter.1, UInt32.le_trans hletter.2 (show 'f'.val ≤ 'z'.val by decide)⟩
    rw [Char.isAlpha, hlower, Bool.or_true, Bool.true_or, Bool.true_or]

/-! ### The three steps -/

theorem keeps_fillTokens (host : Host) (values : Env) : Keeps values (fillTokens host values) :=
  ((keeps_fill _ _ _).trans (keeps_fill _ _ _)).trans (keeps_fill _ _ _)

theorem hasValue_fillTokens (host : Host) (values : Env) {key : Name} (h : key ∈ tokenNames) :
    HasValue (fillTokens host values) key := by
  simp only [tokenNames, List.mem_cons, List.not_mem_nil, or_false] at h
  rcases h with rfl | rfl | rfl
  · exact ((hasValue_fill values _ (Token.ne_nil _)).keep (keeps_fill _ _ _)).keep (keeps_fill _ _ _)
  · exact (hasValue_fill _ _ (Token.ne_nil _)).keep (keeps_fill _ _ _)
  · exact hasValue_fill _ _ (Token.ne_nil _)

theorem Plain.fillTokens (h : Plain values) (host : Host) : Plain (fillTokens host values) :=
  ((h.fill (Token.plain _)).fill (Token.plain _)).fill (Token.plain _)

/-- The root of a deployment has a value then. -/
theorem fillRoot_eq_ok (h : fillRoot host values path = .ok values') :
    (HasValue values deployRoot ∧ values' = values)
      ∨ ¬ HasValue values deployRoot ∧ ∃ resolved, host.resolve path = some resolved
        ∧ values' = values.set deployRoot resolved := by
  unfold fillRoot at h
  split at h
  · rename_i c cs hget
    cases h
    exact Or.inl ⟨⟨c, cs, hget⟩, rfl⟩
  · rename_i hnot
    refine Or.inr ⟨fun ⟨c, cs, hget⟩ => hnot c cs hget, ?_⟩
    split at h
    · cases h
    · rename_i resolved hresolved
      cases h
      exact ⟨resolved, hresolved, rfl⟩

theorem fillRoot_of_hasValue (h : HasValue values deployRoot) : fillRoot host values path = .ok values := by
  obtain ⟨c, cs, hget⟩ := h
  rw [fillRoot, hget]

theorem keeps_fillRoot (h : fillRoot host values path = .ok values') :
    Keeps values values' ∧ HasValue values' deployRoot := by
  rcases fillRoot_eq_ok h with ⟨hvalue, rfl⟩ | ⟨hnot, resolved, hresolved, rfl⟩
  · exact ⟨Keeps.refl _, hvalue⟩
  · obtain ⟨c, cs, rfl⟩ := List.exists_cons_of_ne_nil (host.absolute path resolved hresolved)
    exact ⟨keeps_set hnot _, c, cs, Entries.get?_set_self _ _ _⟩

end Fill

/-- The root that would be filled in has no end of a line in it, or is not needed. -/
def RootPlain (host : Host) (values : Env) (path : Text) : Prop :=
  HasValue values deployRoot ∨ ∀ resolved, host.resolve path = some resolved → ∀ c ∈ resolved, isBoundary c = false

section Initialize

variable {host : Host} {values : Env} {content content' : ByteArray} {path : Text}

/-- The tokens have nothing to do with the root. -/
theorem hasValue_deployRoot (host : Host) (values : Env) :
    HasValue (fillTokens host values) deployRoot ↔ HasValue values deployRoot := by
  refine ⟨fun ⟨c, cs, hget⟩ => ?_, fun h => h.keep (keeps_fillTokens host values)⟩
  have hother : ∀ (values : Env) (key : Name) (value : Text), key ≠ deployRoot →
      (fill values key value).get? deployRoot = values.get? deployRoot := by
    intro values key value hne
    by_cases hv : HasValue values key
    · rw [fill_of_hasValue hv]
    · rw [fill_of_not hv, Entries.get?_set, if_neg (Ne.symm hne)]
  refine ⟨c, cs, ?_⟩
  rw [← hget]
  show _ = (fill (fill (fill values _ _) _ _) _ _).get? deployRoot
  rw [hother _ _ _ (by decide), hother _ _ _ (by decide), hother _ _ _ (by decide)]

/-- What a successful initialization writes. -/
theorem initializeEnv_eq_ok (hread : readEnvFile content = .ok values)
    (h : initializeEnv host (some content) path = .ok content') :
    ∃ rooted payload, fillRoot host (fillTokens host values) path = .ok rooted
      ∧ serialize (fill rooted composeProjectName defaultProject) = .ok payload ∧ content' = encode payload := by
  unfold initializeEnv at h
  obtain ⟨read, hread', h⟩ := except_bind_eq_ok.1 h
  obtain rfl : read = values := Except.ok.inj (hread'.symm.trans hread)
  obtain ⟨rooted, hrooted, h⟩ := except_bind_eq_ok.1 h
  obtain ⟨payload, hpayload, hpure⟩ := except_bind_eq_ok.1 h
  exact ⟨rooted, payload, hrooted, hpayload, (Except.ok.inj hpure).symm⟩

/-- A file that has all values is written as it was. -/
theorem initializeEnv_again {payload : Text} (hpayload : serialize values = .ok payload) (hplain : Plain values)
    (htokens : ∀ key ∈ tokenNames, HasValue values key) (hroot : HasValue values deployRoot)
    (hproject : HasValue values composeProjectName) (host : Host) (path : Text) :
    initializeEnv host (some (encode payload)) path = .ok (encode payload) := by
  have hread : readEnvFile (encode payload) = .ok values := by
    rw [readEnvFile_encode]
    exact readText_of_plain hpayload hplain
  have hfill : fillTokens host values = values := by
    simp only [fillTokens, tokenNames, List.foldl_cons, List.foldl_nil]
    rw [fill_of_hasValue (htokens serviceToken (by decide)), fill_of_hasValue (htokens adminToken (by decide)),
      fill_of_hasValue (htokens modelGatewayToken (by decide))]
  unfold initializeEnv
  simp only [bind, Except.bind, hread, hfill, fillRoot_of_hasValue hroot, fill_of_hasValue hproject, hpayload]
  rfl

/-- **Initialization keeps what is there, and changes nothing the second time**, exactly when the root that it fills
in has no end of a line in it. -/
theorem initializeEnv_kept (hread : readEnvFile content = .ok values)
    (h : initializeEnv host (some content) path = .ok content') :
    ((∃ values', readEnvFile content' = .ok values' ∧ Keeps values values')
        ∧ ∀ host' path', initializeEnv host' (some content') path' = .ok content')
      ↔ RootPlain host values path := by
  obtain ⟨rooted, payload, hrooted, hpayload, rfl⟩ := initializeEnv_eq_ok hread h
  have hplain := (readEnvFile_plain hread).fillTokens host
  obtain ⟨hkeeps, hroot⟩ := keeps_fillRoot hrooted
  have hproject : ∀ c ∈ defaultProject, isBoundary c = false := by
    intro c hc
    have hclean : (defaultProject.all fun c => !isBoundary c) = true := by decide
    simpa using List.all_eq_true.1 hclean c hc
  constructor
  · rintro ⟨⟨values', hread', -⟩, -⟩
    rcases fillRoot_eq_ok hrooted with ⟨hvalue, -⟩ | ⟨hnot, resolved, hresolved, rfl⟩
    · exact Or.inl ((hasValue_deployRoot host values).1 hvalue)
    · refine Or.inr fun resolved' hresolved' => ?_
      obtain rfl : resolved' = resolved := Option.some.inj (hresolved'.symm.trans hresolved)
      have hall : Plain (fill ((fillTokens host values).set deployRoot resolved') composeProjectName defaultProject) := by
        by_contra hbad
        obtain ⟨number, herror⟩ := readText_of_not_plain hpayload hbad
        rw [readEnvFile_encode, herror] at hread'
        cases hread'
      have hget := keeps_fill ((fillTokens host values).set deployRoot resolved') composeProjectName defaultProject
        deployRoot resolved' (Entries.get?_set_self _ _ _) (host.absolute path resolved' hresolved)
      exact hall (deployRoot, resolved') (Entries.mem_iff_get?.2 hget)
  · intro hrootPlain
    have hrootedPlain : Plain rooted := by
      rcases fillRoot_eq_ok hrooted with ⟨-, rfl⟩ | ⟨hnot, resolved, hresolved, rfl⟩
      · exact hplain
      · rcases hrootPlain with hvalue | hresolve
        · exact absurd ((hasValue_deployRoot host values).2 hvalue) hnot
        · exact hplain.set (hresolve resolved hresolved)
    have hall : Plain (fill rooted composeProjectName defaultProject) := hrootedPlain.fill hproject
    have hlast := keeps_fill rooted composeProjectName defaultProject
    refine ⟨⟨_, (readEnvFile_encode payload).trans (readText_of_plain hpayload hall),
      ((keeps_fillTokens host values).trans hkeeps).trans hlast⟩, ?_⟩
    exact initializeEnv_again hpayload hall
      (fun key hkey => ((hasValue_fillTokens host values hkey).keep hkeeps).keep hlast) (hroot.keep hlast)
      (hasValue_fill rooted composeProjectName (by decide))

end Initialize

/-! ## §I The round trip -/

/-- **A file that was written is read back** exactly when no value has a character that ends a line; and an
initialization that succeeds keeps all values, and changes nothing the second time, exactly when the root that it
fills in has none. -/
theorem environment_round_trip (values : Env) (text : Text) (host : Host) (content content' : ByteArray)
    (path : Text) (stored : Env) :
    (serialize values = .ok text → (readEnvFile (encode text) = .ok values ↔ Plain values))
      ∧ (readEnvFile content = .ok stored → initializeEnv host (some content) path = .ok content' →
        (((∃ values', readEnvFile content' = .ok values' ∧ Keeps stored values')
            ∧ ∀ host' path', initializeEnv host' (some content') path' = .ok content')
          ↔ RootPlain host stored path)) := by
  refine ⟨fun h => ?_, fun hread h => initializeEnv_kept hread h⟩
  rw [readEnvFile_encode]
  exact readText_serialize h

section Example

/-- A file with the value of one variable. -/
def oneValue (value : String) : Env := ⟨[(⟨"MINIMAX_API_KEY".toList, by decide⟩, value.toList)], by simp⟩

/-- A host that draws zeros, where every path is absolute already. -/
def zeroHost : Host where
  draw _ := ⟨List.replicate 64 '0', by simp, by decide⟩
  resolve path := some ('/' :: path)
  absolute path resolved h := by
    obtain rfl := Option.some.inj h
    simp

/-- A hash and a dollar sign in quotes mean themselves. -/
theorem literal_read_back :
    readEnvFile (encode "MINIMAX_API_KEY='literal$KEY #value'\n".toList) = .ok (oneValue "literal$KEY #value") := by
  refine ((environment_round_trip (oneValue "literal$KEY #value") "MINIMAX_API_KEY='literal$KEY #value'\n".toList
    zeroHost ByteArray.empty ByteArray.empty [] Entries.empty).1 (by decide +kernel)).2 fun entry he c hc => ?_
  have hclean : ("literal$KEY #value".toList.all fun c => !isBoundary c) = true := by decide +kernel
  obtain rfl := List.mem_singleton.1 he
  simpa using List.all_eq_true.1 hclean c hc

/-- **A vertical tab is written, and cannot be read back.** -/
theorem vertical_tab_lost :
    ¬ ∀ (values : Env) (text : Text), serialize values = .ok text → readEnvFile (encode text) = .ok values := by
  intro h
  have hwritten : serialize (oneValue "a\x0bb") = .ok "MINIMAX_API_KEY='a\x0bb'\n".toList := by decide +kernel
  have hread := h _ _ hwritten
  have hplain : ¬ Plain (oneValue "a\x0bb") := by
    intro hp
    have hc := hp _ List.mem_cons_self '\x0b' (by decide +kernel)
    exact absurd hc (by decide)
  obtain ⟨number, herror⟩ := readText_of_not_plain hwritten hplain
  rw [readEnvFile_encode, herror] at hread
  cases hread

end Example

end OpencodeCloud.Config
