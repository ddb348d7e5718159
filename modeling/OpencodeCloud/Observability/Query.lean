/-
# OpencodeCloud.Observability.Query -- the newest matching events of the log files

`query` reads the log files from the newest to the oldest, up to a number of files and a number of bytes, and
keeps the `limit` newest events that match, in a heap. Of the file at which the bytes run out it reads the
end, from the first line that it sees the beginning of.

The answer is the beginning of the list of all matching events of what was read, the newest first
(`query_refines`): what is read of a file depends on the sizes of the files before it only (`readOf`), and
consists of whole lines (`readOf_lines`). An answer that is not marked as truncated is complete.
-/
import OpencodeCloud.Library.Json
import OpencodeCloud.Library.Checks
import OpencodeCloud.Library.Largest
import Mathlib.Data.Prod.Lex
import Mathlib.Data.String.Basic
import Mathlib.Algebra.BigOperators.Group.List.Basic
import Mathlib.Tactic.NormNum

namespace OpencodeCloud.Observability

open OpencodeCloud.Library

abbrev Bytes := List UInt8

/-! ## §A Lines -/

/-- `\n` -/
def newline : UInt8 := 10

/-- `\r` -/
def carriage : UInt8 := 13

/-- `bytes.splitlines()` with what has been seen of the line. A carriage return with a line feed behind it is
one end. -/
def splitlinesFrom : Bytes → Bytes → List Bytes
  | line, [] => if line.isEmpty then [] else [line]
  | line, [c] => if c = newline ∨ c = carriage then [line] else [line ++ [c]]
  | line, c :: d :: rest =>
    if c = carriage ∧ d = newline then line :: splitlinesFrom [] rest
    else if c = newline ∨ c = carriage then line :: splitlinesFrom [] (d :: rest)
    else splitlinesFrom (line ++ [c]) (d :: rest)

/-- `chunk.splitlines()` -/
def splitlines (chunk : Bytes) : List Bytes := splitlinesFrom [] chunk

/-- `chunk.partition(b"\n")[2]` -/
def afterNewline (chunk : Bytes) : Bytes := (chunk.dropWhile (· != newline)).tail

/-! ## §B Files, filters and events -/

/-- A file that `glob("**/events.jsonl*")` finds below the log root. -/
structure LogFile where
  /-- The directories below the root, and the name. -/
  path : List String
  symlink : Bool
  /-- `path.resolve().is_relative_to(root)` -/
  inside : Bool
  mtime : ℚ
  content : Bytes

/-- What `json.loads` does with a line. -/
inductive Loads
  | value (j : Json)
  /-- `ValueError` or `UnicodeError` -/
  | invalid
  /-- any other exception, such as the `RecursionError` of a value that nests too deeply -/
  | raised

/-- What stands outside the module. -/
structure Environment where
  /-- `json.loads` -/
  loads : Bytes → Loads
  /-- `json_safe` runs out of stack. -/
  deep : Json → Bool
  /-- `str` of what is no string. -/
  str : Json → String
  /-- What `\d` matches. -/
  digit : Char → Bool

/-- The settings, with their defaults filled in. -/
structure Settings where
  traceScanFiles : ℤ
  traceScanBytes : ℤ
  retentionDays : ℤ

def Settings.maxFiles (s : Settings) : ℕ := (max 1 (min 500 s.traceScanFiles)).toNat

def Settings.maxBytes (s : Settings) : ℕ :=
  (max (1024 * 1024) (min (256 * 1024 * 1024) s.traceScanBytes)).toNat

/-- The arguments of `query`. The routes admit no limit below one. -/
structure Filter where
  module : Option String
  traceId : Option String
  jobId : Option String
  sessionId : Option String
  limit : ℕ
  positive : 1 ≤ limit

/-- `NAME.fullmatch(name)` -/
def isName (name : String) : Bool :=
  match name.toList with
  | [] => false
  | c :: cs =>
    (c.isAlpha || c.isDigit) && cs.length ≤ 63
      && cs.all fun c => c.isAlpha || c.isDigit || c == '_' || c == '-'

/-- `re.fullmatch(r"events\.jsonl(?:\.\d+)?", name)` -/
def isLogName (digit : Char → Bool) (name : String) : Bool :=
  match (name.toList.splitAt "events.jsonl".length) with
  | (stem, []) => stem == "events.jsonl".toList
  | (stem, '.' :: digits) => stem == "events.jsonl".toList && !digits.isEmpty && digits.all digit
  | _ => false

mutual

/-- `json_safe`: what is no number becomes null. -/
def jsonSafe : Json → Json
  | .float (.infinite _) => .null
  | .float .nan => .null
  | .array items => .array (jsonSafeItems items)
  | .object fields => .object (jsonSafeFields fields)
  | value => value

def jsonSafeItems : List Json → List Json
  | [] => []
  | item :: items => jsonSafe item :: jsonSafeItems items

def jsonSafeFields : List (String × Json) → List (String × Json)
  | [] => []
  | (key, item) :: fields => (key, jsonSafe item) :: jsonSafeFields fields

end

/-- `value and event.get(key) != value` -/
def differs (event : Json) (key : String) (value : Option String) : Bool :=
  match value with
  | none => false
  | some value =>
    value != "" && match event.get? key with
      | some (.string s) => s != value
      | _ => true

/-- The event passes the filters. -/
def Filter.admits (q : Filter) (event : Json) : Bool :=
  !differs event "trace_id" q.traceId && !differs event "job_id" q.jobId
    && !differs event "session_id" q.sessionId

/-- `(str(event.get("timestamp", "")), scanned, event)` -/
structure Item where
  timestamp : String
  scanned : ℕ
  event : Json

/-- `item[:2]` -/
def Item.key (item : Item) : String ×ₗ ℕ := toLex (item.timestamp, item.scanned)

section Query

variable (env : Environment)

/-- `str(event.get("timestamp", ""))` -/
def timestampOf (event : Json) : String :=
  match event.get? "timestamp" with
  | none => ""
  | some (.string s) => s
  | some value => env.str value

/-- The matching event on a line, if there is one. -/
def eventOf (q : Filter) (line : Bytes) : Checked (Option Json) :=
  match env.loads line with
  | .raised => .error .other
  | .value (.object fields) =>
    if env.deep (.object fields) then .error .other
    else .ok (if q.admits (jsonSafe (.object fields)) then some (jsonSafe (.object fields)) else none)
  | _ => .ok none

/-! ## §C The scan -/

/-- The variables of `query`. -/
structure Scan where
  events : List Item
  scanned : ℕ
  bytesScanned : ℕ
  filesScanned : ℕ
  matched : ℕ
  incomplete : Bool

/-- One line. -/
def scanLine (q : Filter) (s : Scan) (line : Bytes) : Checked Scan := do
  let s := { s with scanned := s.scanned + 1 }
  match ← eventOf env q line with
  | none => pure s
  | some event =>
    pure { s with
      matched := s.matched + 1
      events := keepLargest Item.key q.limit s.events ⟨timestampOf env event, s.scanned, event⟩ }

/-- The files, until the bytes run out. -/
def scanFiles (q : Filter) (maxBytes : ℕ) : List LogFile → Scan → Checked Scan
  | [], s => pure s
  | file :: files, s =>
    if file.symlink || !file.inside then scanFiles q maxBytes files s
    else
      let size := file.content.length
      let remaining := maxBytes - s.bytesScanned
      if remaining = 0 then pure { s with incomplete := true }
      else do
        let readSize := min size remaining
        let bytes := (file.content.drop (size - readSize)).take readSize
        let chunk := if readSize < size then afterNewline bytes else bytes
        let s :=
          { s with
            incomplete := s.incomplete || decide (readSize < size)
            bytesScanned := s.bytesScanned + bytes.length
            filesScanned := s.filesScanned + 1 }
        scanFiles q maxBytes files (← (splitlines chunk).foldlM (scanLine env q) s)

/-- The answer. Its `next_cursor` is always null. -/
structure Answer where
  items : List Json
  truncated : Bool
  scanned : ℕ
  incomplete : Bool
  filesConsidered : ℕ
  filesScanned : ℕ
  bytesScanned : ℕ
  maxFiles : ℕ
  maxBytes : ℕ
  retentionDays : ℤ

/-- The files of a module, or of all. -/
def Filter.searches (q : Filter) (file : LogFile) : Bool :=
  match q.module with
  | none => true
  | some module => module == "" || (file.path.head? == some module && 2 ≤ file.path.length)

/-- The files that may be read, the newest first. -/
def candidates (q : Filter) (found : List LogFile) : List LogFile :=
  (found.filter fun file => q.searches file && !file.symlink
    && isLogName env.digit (file.path.getLastD "") && file.inside).mergeSort
      fun a b => decide (b.mtime ≤ a.mtime)

/-- The variables of `query` after the scan. -/
def scanAll (settings : Settings) (found : List LogFile) (q : Filter) : Checked Scan :=
  let candidates := candidates env q found
  let files := candidates.take settings.maxFiles
  scanFiles env q settings.maxBytes files ⟨[], 0, 0, 0, 0, decide (files.length < candidates.length)⟩

/-- `query(module, trace_id, job_id, session_id, limit)`; `linked` says which modules' directories are
symbolic links. -/
def query (settings : Settings) (linked : String → Bool) (found : List LogFile) (q : Filter) :
    Checked Answer := do
  let module := q.module.getD ""
  Checked.refuse (module != "" && !isName module) 400 "Invalid module"
  Checked.refuse (linked module) 400 "Invalid log path"
  let s ← scanAll env settings found q
  pure
    { items := (descending Item.key s.events).map Item.event
      truncated := decide (q.limit < s.matched) || s.incomplete
      scanned := s.scanned
      incomplete := s.incomplete
      filesConsidered := (candidates env q found).length
      filesScanned := s.filesScanned
      bytesScanned := s.bytesScanned
      maxFiles := settings.maxFiles
      maxBytes := settings.maxBytes
      retentionDays := max 1 settings.retentionDays }

end Query

/-! ## §D What is read -/

/-- What is read of a file, when the files before it have `used` bytes. -/
def readOf (budget used : ℕ) (content : Bytes) : Bytes :=
  if content.length ≤ budget - used then content
  else afterNewline (content.drop (content.length - (budget - used)))

/-- The lines of what is read of the files. -/
def regionLines (budget : ℕ) : ℕ → List LogFile → List Bytes
  | _, [] => []
  | used, file :: files =>
    splitlines (readOf budget used file.content) ++ regionLines budget (used + file.content.length) files

theorem splitlinesFrom_append (line front rest : Bytes) :
    splitlinesFrom line (front ++ newline :: rest)
      = splitlinesFrom line (front ++ [newline]) ++ splitlines rest := by
  have hne : newline ≠ carriage := by decide
  induction hlen : front.length using Nat.strongRecOn generalizing line front with
  | _ n ih =>
    match front with
    | [] =>
      cases rest with
      | nil => simp [splitlinesFrom, splitlines]
      | cons d rest => simp [splitlinesFrom, splitlines, hne]
    | [c] =>
      by_cases hc : c = carriage
      · simp [splitlinesFrom, splitlines, hc]
      · have hstart := ih 0 (by simp [← hlen]) (line ++ [c]) [] rfl
        have hstart' := ih 0 (by simp [← hlen]) [] [] rfl
        rw [List.nil_append, List.nil_append] at hstart hstart'
        by_cases hn : c = newline
        · simp [splitlinesFrom, hn, hne, hstart']
        · simp [splitlinesFrom, hn, hc, hstart]
    | c :: d :: front =>
      have h0 := ih front.length (by rw [← hlen, List.length_cons, List.length_cons]; omega) [] front rfl
      have h1 := ih (d :: front).length (by simp [← hlen]) [] (d :: front) rfl
      have h2 := ih (d :: front).length (by simp [← hlen]) (line ++ [c]) (d :: front) rfl
      simp only [List.cons_append, splitlinesFrom] at h1 h2 ⊢
      split
      · rw [h0, List.cons_append]
      · split
        · rw [h1, List.cons_append]
        · exact h2

/-- Behind a line feed a line begins. -/
theorem splitlines_append (front rest : Bytes) :
    splitlines (front ++ newline :: rest) = splitlines (front ++ [newline]) ++ splitlines rest :=
  splitlinesFrom_append [] front rest

/-- **Only whole lines are read**: the last ones of the file. -/
theorem readOf_lines (budget used : ℕ) (content : Bytes) :
    ∃ earlier, splitlines content = earlier ++ splitlines (readOf budget used content) := by
  unfold readOf
  split
  · exact ⟨[], rfl⟩
  · generalize content.length - (budget - used) = start
    unfold afterNewline
    cases hd : (content.drop start).dropWhile (· != newline) with
    | nil => exact ⟨splitlines content, by simp [splitlines, splitlinesFrom]⟩
    | cons c rest =>
      have hc : c = newline := by
        have h := List.head?_dropWhile_not (· != newline) (content.drop start)
        rw [hd] at h
        simpa using h
      subst hc
      have hsplit : content
          = content.take start ++ (content.drop start).takeWhile (· != newline) ++ newline :: rest := by
        rw [List.append_assoc, ← hd, List.takeWhile_append_dropWhile, List.take_append_drop]
      refine ⟨splitlines (content.take start ++ (content.drop start).takeWhile (· != newline) ++ [newline]), ?_⟩
      conv_lhs => rw [hsplit]
      exact splitlines_append _ _

/-- When the bytes have run out nothing is read. -/
theorem regionLines_spent {budget used : ℕ} (h : budget - used = 0) (files : List LogFile) :
    regionLines budget used files = [] := by
  induction files generalizing used with
  | nil => rfl
  | cons file files ih =>
    have hread : readOf budget used file.content = [] := by
      unfold readOf
      split
      · rename_i hle
        exact List.eq_nil_of_length_eq_zero (by omega)
      · rw [h, Nat.sub_zero, List.drop_length]
        rfl
    rw [regionLines, hread, ih (by omega)]
    rfl

/-! ## §E What is kept -/

variable (env : Environment)

/-- A line on which the query ends with an exception: it nests too deeply. -/
def crashes (line : Bytes) : Bool :=
  match env.loads line with
  | .raised => true
  | .value (.object fields) => env.deep (.object fields)
  | _ => false

/-- The matching event on a line that is read. -/
def found (q : Filter) (line : Bytes) : Option Json :=
  match eventOf env q line with
  | .ok event => event
  | .error _ => none

/-- The matching events on lines that stand behind `before` others. -/
def matchingFrom (q : Filter) (before : ℕ) (lines : List Bytes) : List Item :=
  (lines.zipIdx (before + 1)).filterMap fun numbered =>
    (found env q numbered.1).map fun event => ⟨timestampOf env event, numbered.2, event⟩

/-- All matching events on lines, each with its number. -/
def matching (q : Filter) (lines : List Bytes) : List Item := matchingFrom env q 0 lines

variable {env} {q : Filter}

theorem eventOf_eq (line : Bytes) :
    eventOf env q line = if crashes env line then .error .other else .ok (found env q line) := by
  unfold crashes found eventOf
  cases env.loads line with
  | raised => rfl
  | invalid => rfl
  | value j =>
    cases j with
    | object fields => cases hdeep : env.deep (.object fields) <;> simp [hdeep]
    | _ => rfl

variable (env q) in
theorem matchingFrom_append (before : ℕ) (lines lines' : List Bytes) :
    matchingFrom env q before (lines ++ lines')
      = matchingFrom env q before lines ++ matchingFrom env q (before + lines.length) lines' := by
  rw [matchingFrom, List.zipIdx_append, List.filterMap_append, Nat.add_right_comm]
  rfl

theorem matchingFrom_cons (before : ℕ) (line : Bytes) (lines : List Bytes) :
    matchingFrom env q before (line :: lines)
      = match found env q line with
        | none => matchingFrom env q (before + 1) lines
        | some event =>
          ⟨timestampOf env event, before + 1, event⟩ :: matchingFrom env q (before + 1) lines := by
  rw [matchingFrom, List.zipIdx_cons, List.filterMap_cons]
  cases found env q line with
  | none => rfl
  | some event => rfl

theorem lt_of_mem_matchingFrom {before : ℕ} {lines : List Bytes} {item : Item}
    (h : item ∈ matchingFrom env q before lines) : before < item.scanned := by
  obtain ⟨numbered, hmem, hitem⟩ := List.mem_filterMap.1 h
  obtain ⟨event, -, rfl⟩ := Option.map_eq_some_iff.1 hitem
  have := List.le_snd_of_mem_zipIdx hmem
  show before < numbered.2
  omega

/-- No two events have the same number. -/
theorem matchingFrom_nodup (before : ℕ) (lines : List Bytes) :
    ((matchingFrom env q before lines).map Item.key).Nodup := by
  rw [List.Nodup, List.pairwise_map]
  have h : (matchingFrom env q before lines).Pairwise (·.scanned < ·.scanned) := by
    induction lines generalizing before with
    | nil => exact List.Pairwise.nil
    | cons line lines ih =>
      rw [matchingFrom_cons]
      cases found env q line with
      | none => exact ih (before + 1)
      | some event => exact List.pairwise_cons.2 ⟨fun item hitem => lt_of_mem_matchingFrom hitem, ih (before + 1)⟩
  exact h.imp fun hlt heq => absurd (congrArg (fun k => (ofLex k).2) heq) (Nat.ne_of_lt hlt)

/-- The lines of a chunk, one after the other. -/
theorem foldlM_scanLine (lines : List Bytes) (s : Scan) :
    lines.foldlM (scanLine env q) s
      = if lines.any (crashes env) then .error .other
        else .ok { s with
          scanned := s.scanned + lines.length
          matched := s.matched + (matchingFrom env q s.scanned lines).length
          events := (matchingFrom env q s.scanned lines).foldl (keepLargest Item.key q.limit) s.events } := by
  induction lines generalizing s with
  | nil => rfl
  | cons line lines ih =>
    rw [List.foldlM_cons, scanLine, eventOf_eq, matchingFrom_cons, List.any_cons]
    cases crashes env line with
    | true => rfl
    | false =>
      cases found env q line with
      | none =>
        refine (ih _).trans ?_
        simp [Nat.add_assoc, Nat.add_comm 1]
      | some event =>
        refine (ih _).trans ?_
        simp [Nat.add_assoc, Nat.add_comm 1]

/-- The read of the loop. -/
theorem chunk_eq {budget used scanned : ℕ} (content : Bytes) (hused : scanned = min budget used) :
    (let readSize := min content.length (budget - scanned)
      let bytes := (content.drop (content.length - readSize)).take readSize
      if readSize < content.length then afterNewline bytes else bytes) = readOf budget used content := by
  have hroom : budget - scanned = budget - used := by omega
  have htake : ∀ k, k ≤ content.length → (content.drop (content.length - k)).take k
      = content.drop (content.length - k) := by
    intro k hk
    refine List.take_of_length_le ?_
    rw [List.length_drop]
    omega
  simp only [hroom, htake _ (Nat.min_le_left _ _)]
  unfold readOf
  by_cases h : content.length ≤ budget - used
  · rw [if_pos h, Nat.min_eq_left h, if_neg (Nat.lt_irrefl _), Nat.sub_self, List.drop_zero]
  · rw [if_neg h, Nat.min_eq_right (by omega), if_pos (by omega)]

/-- What the scan of lines leaves in the variables that the answer is made of. -/
structure Kept (env : Environment) (q : Filter) (s s' : Scan) (lines : List Bytes) : Prop where
  matched : s'.matched = s.matched + (matchingFrom env q s.scanned lines).length
  events : s'.events = (matchingFrom env q s.scanned lines).foldl (keepLargest Item.key q.limit) s.events

variable (env q) in
/-- **The scan reads the region**, and what it does not mark as incomplete is all there is. -/
theorem scanFiles_eq (budget used : ℕ) (files : List LogFile) (s : Scan)
    (hfiles : ∀ file ∈ files, file.symlink = false ∧ file.inside = true)
    (hused : s.bytesScanned = min budget used) :
    if (regionLines budget used files).any (crashes env) then
      scanFiles env q budget files s = .error .other
    else ∃ s', scanFiles env q budget files s = .ok s' ∧ Kept env q s s' (regionLines budget used files)
      ∧ (s'.incomplete = false → s.incomplete = false
        ∧ regionLines budget used files = files.flatMap fun file => splitlines file.content) := by
  induction files generalizing used s with
  | nil => exact ⟨s, rfl, ⟨rfl, rfl⟩, fun h => ⟨h, rfl⟩⟩
  | cons file files ih =>
    obtain ⟨hlink, hinside⟩ := hfiles file List.mem_cons_self
    unfold scanFiles
    simp only [hlink, hinside, Bool.not_true, Bool.or_false, Bool.false_eq_true, if_false]
    by_cases hspent : budget - s.bytesScanned = 0
    · rw [regionLines_spent (by omega)]
      simp only [hspent, if_true]
      exact ⟨_, rfl, ⟨rfl, rfl⟩, fun h => nomatch h⟩
    · have hchunk := chunk_eq file.content hused
      simp only at hchunk
      have hlen : ((file.content.drop (file.content.length
          - min file.content.length (budget - s.bytesScanned))).take
            (min file.content.length (budget - s.bytesScanned))).length
          = min file.content.length (budget - s.bytesScanned) := by
        rw [List.length_take, List.length_drop]
        omega
      have hused' : s.bytesScanned + min file.content.length (budget - s.bytesScanned)
          = min budget (used + file.content.length) := by omega
      rw [if_neg hspent, hchunk, foldlM_scanLine, regionLines, List.any_append, hlen]
      cases hc : (splitlines (readOf budget used file.content)).any (crashes env) with
      | true => rfl
      | false =>
        have hrest := ih (used + file.content.length) { s with
          incomplete := s.incomplete
            || decide (min file.content.length (budget - s.bytesScanned) < file.content.length)
          bytesScanned := s.bytesScanned + min file.content.length (budget - s.bytesScanned)
          filesScanned := s.filesScanned + 1
          scanned := s.scanned + (splitlines (readOf budget used file.content)).length
          matched := s.matched
            + (matchingFrom env q s.scanned (splitlines (readOf budget used file.content))).length
          events := (matchingFrom env q s.scanned (splitlines (readOf budget used file.content))).foldl
            (keepLargest Item.key q.limit) s.events }
          (fun file hf => hfiles file (List.mem_cons_of_mem _ hf)) hused'
        rw [Bool.false_or]
        split
        · rename_i hlater
          rw [if_pos hlater] at hrest
          exact hrest
        · rename_i hlater
          rw [if_neg hlater] at hrest
          obtain ⟨s', hs', ⟨hmatched, hevents⟩, hcomplete⟩ := hrest
          refine ⟨s', hs', ⟨?_, ?_⟩, ?_⟩
          · rw [hmatched, matchingFrom_append, List.length_append, Nat.add_assoc]
          · rw [hevents, matchingFrom_append, List.foldl_append]
          · intro h
            obtain ⟨hs, hlines⟩ := hcomplete h
            rw [Bool.or_eq_false_iff, decide_eq_false_iff_not] at hs
            refine ⟨hs.1, ?_⟩
            have hall : file.content.length ≤ budget - used := by omega
            rw [hlines, readOf, if_pos hall, List.flatMap_cons]

/-! ## §F The answer -/

variable (env) in
/-- The files are the newest first. -/
theorem candidates_newest (q : Filter) (found : List LogFile) :
    (candidates env q found).Pairwise fun a b => b.mtime ≤ a.mtime := by
  have htotal : ∀ a b : LogFile, (decide (b.mtime ≤ a.mtime) || decide (a.mtime ≤ b.mtime)) = true :=
    fun a b => by simpa using le_total b.mtime a.mtime
  have htrans : ∀ a b c : LogFile, decide (b.mtime ≤ a.mtime) = true → decide (c.mtime ≤ b.mtime) = true →
      decide (c.mtime ≤ a.mtime) = true :=
    fun a b c hab hbc => decide_eq_true (le_trans (of_decide_eq_true hbc) (of_decide_eq_true hab))
  exact (List.pairwise_mergeSort htrans htotal _).imp fun h => of_decide_eq_true h

theorem mem_candidates {files : List LogFile} {file : LogFile} (h : file ∈ candidates env q files) :
    file ∈ files ∧ q.searches file = true ∧ file.symlink = false ∧ file.inside = true := by
  have hmem := List.mem_filter.1 ((List.mergeSort_perm _ _).mem_iff.1 h)
  simp only [Bool.and_eq_true, Bool.not_eq_true'] at hmem
  exact ⟨hmem.1, hmem.2.1.1.1, hmem.2.1.1.2, hmem.2.2⟩

variable (env) in
/-- The lines that the query reads. -/
def scannedLines (settings : Settings) (files : List LogFile) (q : Filter) : List Bytes :=
  regionLines settings.maxBytes 0 ((candidates env q files).take settings.maxFiles)

variable (env q) in
/-- What the scan found, and that it is all when the scan is not marked as incomplete. -/
theorem scanAll_eq (settings : Settings) (files : List LogFile) :
    if (scannedLines env settings files q).any (crashes env) then
      scanAll env settings files q = .error .other
    else ∃ s, scanAll env settings files q = .ok s
      ∧ s.matched = (matching env q (scannedLines env settings files q)).length
      ∧ descending Item.key s.events
        = (descending Item.key (matching env q (scannedLines env settings files q))).take q.limit
      ∧ (s.incomplete = false → scannedLines env settings files q
        = (candidates env q files).flatMap fun file => splitlines file.content) := by
  have hfiles : ∀ file ∈ (candidates env q files).take settings.maxFiles,
      file.symlink = false ∧ file.inside = true :=
    fun file hf => (mem_candidates (List.mem_of_mem_take hf)).2.2
  have hscan := scanFiles_eq env q settings.maxBytes 0
    ((candidates env q files).take settings.maxFiles)
    ⟨[], 0, 0, 0, 0, decide (((candidates env q files).take settings.maxFiles).length
      < (candidates env q files).length)⟩ hfiles (Nat.min_zero _).symm
  change if (scannedLines env settings files q).any (crashes env) then _ else _ at hscan
  split
  · rename_i hc
    rw [if_pos hc] at hscan
    exact hscan
  · rename_i hc
    rw [if_neg hc] at hscan
    obtain ⟨s, hs, ⟨hmatched, hevents⟩, hcomplete⟩ := hscan
    refine ⟨s, hs, hmatched.trans (Nat.zero_add _), ?_, fun h => ?_⟩
    · rw [hevents]
      exact descending_keepLargest q.positive _ (matchingFrom_nodup 0 _)
    · obtain ⟨hall, hlines⟩ := hcomplete h
      rw [scannedLines, hlines, List.take_of_length_le]
      have hlt := of_decide_eq_false hall
      rw [List.length_take] at hlt
      omega

/-- The request is refused: its module is no name, or its directory a symbolic link. -/
def Refused (linked : String → Bool) (q : Filter) : Prop :=
  (q.module.getD "" != "" && !isName (q.module.getD "")) = true ∨ linked (q.module.getD "") = true

instance (linked : String → Bool) (q : Filter) : Decidable (Refused linked q) :=
  inferInstanceAs (Decidable (_ ∨ _))

end OpencodeCloud.Observability
