/-
# OpencodeCloud.AgentRuntime.Supervisor -- the lines of the child's output

The supervisor reads what its child prints in pieces of up to 4096 bytes. Of every piece it logs the stream
and the size. The standard output is kept in a buffer, cut to its last 8192 bytes at every read, and every
line that is complete is given to `plugin_event`. An exception there leaves the loop, and the supervisor
kills the child.

A line that is longer than a plugin event may be is not looked at, and the buffer holds enough of it to see
that, with one exception: a read of 4096 bytes that begins with the end of an over-long line leaves exactly
its last 4096 bytes in the buffer, which then pass for a line (`handled`). So the events are those of the
lines of the stream exactly when no such rest is an event (`events_of_lines`), and the supervisor survives
exactly when the lines and these rests are harmless (`supervisor_survives`).
-/
import OpencodeCloud.AgentRuntime.PluginEvent
import OpencodeCloud.Library.Lines

namespace OpencodeCloud.AgentRuntime

open OpencodeCloud.Library

/-! ## §A The loop -/

/-- The streams of the child. -/
inductive Stream
  | stdout | stderr
  deriving DecidableEq

/-- What one `os.read(..., 4096)` gives before the end of a stream. -/
structure Read where
  stream : Stream
  content : Bytes
  nonempty : content ≠ []
  bounded : content.length ≤ 4096

/-- `b'\n'` -/
def newline : UInt8 := 10

/-- What is emitted for the output of the child: the size of a read, or the fields of a plugin event. -/
inductive Emitted
  | redacted (stream : Stream) (bytes : ℕ)
  | plugin (fields : Record)

/-- The variables of the loop over the reads; `alive` until an exception leaves it. -/
structure Loop where
  buffer : Bytes
  log : List Emitted
  alive : Bool

/-- Before the first read. -/
def Loop.start : Loop := ⟨[], [], true⟩

section Loop

variable (loads : Bytes → Loads) (isoformat : ℤ → String)

/-- The loop over the complete lines: the fields of the events, and whether it came to its end. -/
def handleLines : List Bytes → List Record × Bool
  | [] => ([], true)
  | line :: lines =>
    match pluginEvent loads isoformat line with
    | .error _ => ([], false)
    | .ok none => handleLines lines
    | .ok (some fields) => (fields :: (handleLines lines).1, (handleLines lines).2)

/-- What one read does. -/
def Loop.read (l : Loop) (r : Read) : Loop :=
  if !l.alive then l
  else
    let log := l.log ++ [.redacted r.stream r.content.length]
    match r.stream with
    | .stderr => { l with log := log }
    | .stdout =>
      let buffered := lastN 8192 (l.buffer ++ r.content)
      let handled := handleLines loads isoformat (completed newline buffered)
      ⟨pending newline buffered, log ++ handled.1.map .plugin, handled.2⟩

/-- All reads. -/
def supervise (reads : List Read) : Loop := reads.foldl (Loop.read loads isoformat) .start

end Loop

/-- The fields of a plugin event. -/
def Emitted.fields? : Emitted → Option Record
  | .redacted _ _ => none
  | .plugin fields => some fields

/-- The plugin events that were emitted. -/
def Loop.events (l : Loop) : List Record := l.log.filterMap Emitted.fields?

/-- What the reads give of the standard output. -/
def stdoutOf (reads : List Read) : Bytes :=
  reads.flatMap fun r => if r.stream = .stdout then r.content else []

/-! ## §B What is written for an event -/

/-- One step of `{**event, **fields}`: the value of a key that is there is replaced. -/
def setField (event : Record) (f : String × Json) : Record :=
  if event.any (·.1 == f.1) then event.map fun e => if e.1 = f.1 then f else e else event ++ [f]

/-- The dictionary `event` of `emit`, without the fields of the caller. -/
def baseEvent (now sandboxId : String) : Record :=
  [("timestamp", .string now), ("level", .string "INFO"), ("module", .string "agent_runtime"),
    ("instance_id", .string sandboxId), ("sandbox_id", .string sandboxId)]

/-- `emit(fields.pop('action'), **fields)` -/
def written (now sandboxId : String) (fields : Record) : Record :=
  fields.foldl setField (baseEvent now sandboxId)

theorem mem_setField {event : Record} {f g : String × Json} :
    g ∈ setField event f ↔ g = f ∨ (g ∈ event ∧ g.1 ≠ f.1) := by
  unfold setField
  split
  · next hany =>
    obtain ⟨e, he, hkey⟩ := List.any_eq_true.mp hany
    rw [List.mem_map]
    constructor
    · rintro ⟨d, hd, rfl⟩
      split
      · exact .inl rfl
      · next hne => exact .inr ⟨hd, hne⟩
    · rintro (rfl | ⟨hg, hne⟩)
      · exact ⟨e, he, if_pos (by simpa using hkey)⟩
      · exact ⟨g, hg, if_neg hne⟩
  · next hany =>
    have hfresh : ∀ e ∈ event, e.1 ≠ f.1 := fun e he hkey =>
      hany (List.any_eq_true.mpr ⟨e, he, by simpa using hkey⟩)
    rw [List.mem_append, List.mem_singleton]
    constructor
    · rintro (hg | rfl)
      · exact .inr ⟨hg, hfresh g hg⟩
      · exact .inl rfl
    · rintro (rfl | ⟨hg, -⟩)
      · exact .inr rfl
      · exact .inl hg

/-- **What is written are the fields of the event**, and of the base the keys that they leave. -/
theorem mem_written {now sandboxId : String} {fields : Record} (h : (fields.map (·.1)).Nodup)
    {g : String × Json} :
    g ∈ written now sandboxId fields ↔
      g ∈ fields ∨ (g ∈ baseEvent now sandboxId ∧ g.1 ∉ fields.map (·.1)) := by
  unfold written
  generalize baseEvent now sandboxId = event
  induction fields generalizing event with
  | nil => simp
  | cons f fields ih =>
    rw [List.map_cons, List.nodup_cons] at h
    rw [List.foldl_cons, ih h.2 (setField event f), mem_setField, List.map_cons, List.mem_cons, List.mem_cons,
      not_or]
    constructor
    · rintro (hg | ⟨rfl | ⟨hg, hne⟩, hnot⟩)
      · exact .inl (.inr hg)
      · exact .inl (.inl rfl)
      · exact .inr ⟨hg, hne, hnot⟩
    · rintro ((rfl | hg) | ⟨hg, hne, hnot⟩)
      · exact .inr ⟨.inl rfl, h.1⟩
      · exact .inl hg
      · exact .inr ⟨.inr ⟨hg, hne⟩, hnot⟩

/-! ## §C The lines that are handled -/

/-- A read of 4096 bytes that begins with the end of an over-long line leaves the last 4096 bytes of the line
in the buffer. -/
def boundaryTail (line content : Bytes) : List Bytes :=
  if content.length = 4096 ∧ content.head? = some newline ∧ 4096 < line.length then [lastN 4096 line] else []

/-- These rests, for all reads; `line` is the pending line before them. -/
def boundaryTails (line : Bytes) : List Read → List Bytes
  | [] => []
  | r :: reads =>
    match r.stream with
    | .stderr => boundaryTails line reads
    | .stdout =>
      boundaryTail line r.content ++ boundaryTails (pending newline (line ++ r.content)) reads

/-- The lines of the stream with these rests between them. -/
def handled (line : Bytes) : List Read → List Bytes
  | [] => []
  | r :: reads =>
    match r.stream with
    | .stderr => handled line reads
    | .stdout =>
      boundaryTail line r.content ++ completed newline (line ++ r.content) ++
        handled (pending newline (line ++ r.content)) reads

/-- The rests and the lines of the stream are what is handled. -/
theorem handled_perm (line : Bytes) (hline : newline ∉ line) (reads : List Read) :
    (handled line reads).Perm
      (boundaryTails line reads ++ completed newline (line ++ stdoutOf reads)) := by
  induction reads generalizing line with
  | nil => simp [handled, boundaryTails, stdoutOf, completed_of_not_mem hline]
  | cons r reads ih =>
    cases hstream : r.stream with
    | stderr => simpa [handled, boundaryTails, stdoutOf, hstream] using ih line hline
    | stdout =>
      have hstdout : stdoutOf (r :: reads) = r.content ++ stdoutOf reads := by simp [stdoutOf, hstream]
      rw [hstdout, ← List.append_assoc, completed_append]
      simp only [handled, boundaryTails, hstream]
      rw [List.append_assoc, List.append_assoc]
      refine List.Perm.append_left _ ?_
      refine (List.Perm.append_left _ (ih _ (not_mem_pending _))).trans ?_
      rw [← List.append_assoc, ← List.append_assoc]
      exact List.Perm.append_right _ List.perm_append_comm

/-! ## §D The buffer -/

/-- The buffer holds the pending line, or of an over-long one more than a plugin event may be long. -/
structure Buffered (buffer line : Bytes) : Prop where
  suffix : buffer <:+ line
  whole : line.length ≤ 4096 → buffer = line
  long : 4096 < line.length → 4096 < buffer.length

theorem Buffered.refl (line : Bytes) : Buffered line line := ⟨List.suffix_refl _, fun _ => rfl, id⟩

section Handling

variable {loads : Bytes → Loads} {isoformat : ℤ → String}

/-- An over-long line is passed over. -/
theorem pluginEvent_of_long {line : Bytes} (h : 4096 < line.length) :
    pluginEvent loads isoformat line = .ok none := by
  have hnot : isPluginLine line = false := by
    rw [isPluginLine, Bool.and_eq_false_iff]
    exact .inr (decide_eq_false (Nat.not_le.mpr h))
  simp [pluginEvent, hnot]

theorem handleLines_of_long {line : Bytes} (h : 4096 < line.length) (lines : List Bytes) :
    handleLines loads isoformat (line :: lines) = handleLines loads isoformat lines := by
  simp only [handleLines, pluginEvent_of_long h]

theorem handleLines_cons_congr {line : Bytes} {lines lines' : List Bytes}
    (h : handleLines loads isoformat lines = handleLines loads isoformat lines') :
    handleLines loads isoformat (line :: lines) = handleLines loads isoformat (line :: lines') := by
  simp only [handleLines, h]

/-- The loop over two lists of lines, one after the other. -/
theorem handleLines_append (lines more : List Bytes) :
    handleLines loads isoformat (lines ++ more) =
      if (handleLines loads isoformat lines).2 then
        ((handleLines loads isoformat lines).1 ++ (handleLines loads isoformat more).1,
          (handleLines loads isoformat more).2)
      else handleLines loads isoformat lines := by
  induction lines with
  | nil => simp [handleLines]
  | cons line lines ih =>
    rcases h : pluginEvent loads isoformat line with e | result
    · simp [handleLines, h]
    · cases result with
      | none => simpa only [List.cons_append, handleLines, h] using ih
      | some fields =>
        simp only [List.cons_append, handleLines, h, ih]
        split <;> rfl

/-- **What one read does to the buffer.** The lines that it completes are handled like those of the pending
line and the read, with a rest before them where one is left; and the buffer stands for the new pending
line. -/
theorem read_lines (loads : Bytes → Loads) (isoformat : ℤ → String) {buffer line content : Bytes}
    (hbuffer : Buffered buffer line) (hline : newline ∉ line) (hcontent : content.length ≤ 4096) :
    Buffered (pending newline (lastN 8192 (buffer ++ content))) (pending newline (line ++ content)) ∧
      handleLines loads isoformat (completed newline (lastN 8192 (buffer ++ content))) =
        handleLines loads isoformat
          (boundaryTail line content ++ completed newline (line ++ content)) := by
  have hsuffix : ∀ n, newline ∉ lastN n buffer := fun n hmem =>
    hline (hbuffer.suffix.subset ((lastN_suffix n buffer).subset hmem))
  rw [lastN_append (by omega)]
  by_cases hmem : newline ∈ content
  · obtain ⟨front, rest, rfl, hfront⟩ := List.eq_append_cons_of_mem hmem
    have hcut : newline ∉ lastN (8192 - (front ++ newline :: rest).length) buffer ++ front := by
      simp [hsuffix, hfront]
    have hfull : newline ∉ line ++ front := by simp [hline, hfront]
    rw [← List.append_assoc, ← List.append_assoc, pending_append_cons hcut, pending_append_cons hfull,
      completed_append_cons hcut, completed_append_cons hfull]
    refine ⟨Buffered.refl _, ?_⟩
    rw [List.length_append, List.length_cons] at hcontent
    by_cases hshort : line.length ≤ 4096
    · have hsame := hbuffer.whole hshort
      have hnone : boundaryTail line (front ++ newline :: rest) = [] :=
        if_neg fun h => Nat.not_lt.mpr hshort h.2.2
      have hroom : buffer.length ≤ 8192 - (front ++ newline :: rest).length := by
        rw [hsame, List.length_append, List.length_cons]
        omega
      rw [hnone, lastN_of_length_le hroom, hsame, List.nil_append]
    · have hlong := hbuffer.long (Nat.not_le.mp hshort)
      have hlongLine : 4096 < (line ++ front).length := by
        rw [List.length_append]
        omega
      by_cases hboundary : (front ++ newline :: rest).length = 4096 ∧ front = []
      · -- the buffer keeps exactly 4096 bytes of the line
        obtain ⟨hlength, rfl⟩ := hboundary
        have htail : boundaryTail line ([] ++ newline :: rest) = [lastN 4096 line] :=
          if_pos ⟨hlength, rfl, Nat.not_le.mp hshort⟩
        rw [htail, hlength, show 8192 - 4096 = 4096 by omega, List.append_nil,
          lastN_of_suffix hbuffer.suffix hlong.le]
        rw [List.append_nil] at hlongLine ⊢
        exact handleLines_cons_congr (handleLines_of_long hlongLine _).symm
      · have hnone : boundaryTail line (front ++ newline :: rest) = [] := by
          refine if_neg fun h => hboundary ⟨h.1, ?_⟩
          cases front with
          | nil => rfl
          | cons c front => exact absurd (by simpa using h.2.1) (List.ne_of_not_mem_cons hfront).symm
        have hlongCut : 4096 < (lastN (8192 - (front ++ newline :: rest).length) buffer ++ front).length := by
          rw [List.length_append, length_lastN, List.length_append, List.length_cons]
          by_cases hnil : front = []
          · have hless : (front ++ newline :: rest).length ≠ 4096 := fun h => hboundary ⟨h, hnil⟩
            rw [List.length_append, List.length_cons] at hless
            omega
          · have hpos := List.length_pos_of_ne_nil hnil
            omega
        rw [hnone, List.nil_append, handleLines_of_long hlongCut, handleLines_of_long hlongLine]
  · have hnone : boundaryTail line content = [] :=
      if_neg fun h => hmem (List.mem_of_mem_head? h.2.1)
    have hcut : newline ∉ lastN (8192 - content.length) buffer ++ content := by simp [hsuffix, hmem]
    have hfull : newline ∉ line ++ content := by simp [hline, hmem]
    rw [pending_of_not_mem hcut, pending_of_not_mem hfull, completed_of_not_mem hcut,
      completed_of_not_mem hfull, hnone]
    refine ⟨⟨?_, fun h => ?_, fun h => ?_⟩, rfl⟩
    · exact List.suffix_append_self_iff.mpr ((lastN_suffix _ buffer).trans hbuffer.suffix)
    · rw [List.length_append] at h
      have hsame := hbuffer.whole (by omega)
      rw [lastN_of_length_le (by rw [hsame]; omega), hsame]
    · rw [List.length_append] at h ⊢
      rw [length_lastN]
      by_cases hshort : line.length ≤ 4096
      · rw [hbuffer.whole hshort]
        omega
      · have hlong := hbuffer.long (Nat.not_le.mp hshort)
        omega

end Handling

/-! ## §E All reads -/

section Supervise

variable {loads : Bytes → Loads} {isoformat : ℤ → String}

/-- The event of a line, if it is one. -/
def kept (loads : Bytes → Loads) (isoformat : ℤ → String) (line : Bytes) : Option Record :=
  match pluginEvent loads isoformat line with
  | .ok result => result
  | .error _ => none

/-- The loop over the lines comes to its end exactly when all of them are harmless. -/
theorem handleLines_alive_iff {lines : List Bytes} :
    (handleLines loads isoformat lines).2 = true ↔ ∀ line ∈ lines, Harmless loads line := by
  induction lines with
  | nil => simp [handleLines]
  | cons line lines ih =>
    rw [List.forall_mem_cons, ← pluginEvent_ne_error_iff isoformat]
    rcases h : pluginEvent loads isoformat line with e | result
    · simp [handleLines, h]
    · cases result with
      | none => simpa [handleLines, h] using ih
      | some fields => simpa [handleLines, h] using ih

/-- It then gives the events of the lines. -/
theorem handleLines_eq_filterMap {lines : List Bytes}
    (halive : (handleLines loads isoformat lines).2 = true) :
    (handleLines loads isoformat lines).1 = lines.filterMap (kept loads isoformat) := by
  induction lines with
  | nil => rfl
  | cons line lines ih =>
    rcases h : pluginEvent loads isoformat line with e | result
    · simp [handleLines, h] at halive
    · cases result with
      | none =>
        simp only [handleLines, h] at halive ⊢
        rw [List.filterMap_cons_none (by simp only [kept, h]), ih halive]
      | some fields =>
        simp only [handleLines, h] at halive ⊢
        rw [List.filterMap_cons_some (show kept loads isoformat line = some fields by simp only [kept, h]),
          ih halive]

/-- Every event that is emitted was kept of some line. -/
theorem pluginEvent_of_mem_handleLines {lines : List Bytes} {r : Record}
    (h : r ∈ (handleLines loads isoformat lines).1) :
    ∃ line, pluginEvent loads isoformat line = .ok (some r) := by
  induction lines with
  | nil => cases h
  | cons line lines ih =>
    rcases hline : pluginEvent loads isoformat line with e | result
    · simp [handleLines, hline] at h
    · cases result with
      | none => exact ih (by simpa [handleLines, hline] using h)
      | some fields =>
        simp only [handleLines, hline, List.mem_cons] at h
        rcases h with rfl | h
        · exact ⟨line, hline⟩
        · exact ih h

/-- After an exception nothing is read. -/
theorem foldl_read_of_dead {l : Loop} (h : l.alive = false) (reads : List Read) :
    reads.foldl (Loop.read loads isoformat) l = l := by
  induction reads with
  | nil => rfl
  | cons r reads ih =>
    have hread : l.read loads isoformat r = l := by simp [Loop.read, h]
    rw [List.foldl_cons, hread, ih]

@[simp] theorem filterMap_fields (records : List Record) :
    (records.map Emitted.plugin).filterMap Emitted.fields? = records := by
  induction records with
  | nil => rfl
  | cons r records ih =>
    rw [List.map_cons, List.filterMap_cons_some (show Emitted.fields? (.plugin r) = some r from rfl), ih]

/-- **The reads together** handle the lines of the stream, with the rests between them. -/
theorem foldl_read (loads : Bytes → Loads) (isoformat : ℤ → String) {l : Loop} {line : Bytes} (hbuffer : Buffered l.buffer line) (hline : newline ∉ line)
    (halive : l.alive = true) (reads : List Read) :
    (reads.foldl (Loop.read loads isoformat) l).events
        = l.events ++ (handleLines loads isoformat (handled line reads)).1 ∧
      (reads.foldl (Loop.read loads isoformat) l).alive
        = (handleLines loads isoformat (handled line reads)).2 := by
  induction reads generalizing l line with
  | nil => simp [handled, handleLines, halive]
  | cons r reads ih =>
    rw [List.foldl_cons]
    cases hstream : r.stream with
    | stderr =>
      have hread : l.read loads isoformat r = { l with log := l.log ++ [.redacted .stderr r.content.length] } := by
        simp [Loop.read, halive, hstream]
      obtain ⟨hevents, hlive⟩ := ih (l := l.read loads isoformat r) (by rw [hread]; exact hbuffer) hline
        (by rw [hread]; exact halive)
      have hsame : (l.read loads isoformat r).events = l.events := by
        rw [hread]
        simp [Loop.events, Emitted.fields?]
      simp only [handled, hstream]
      exact ⟨by rw [hevents, hsame], hlive⟩
    | stdout =>
      obtain ⟨hbuffer', hlines⟩ :=
        read_lines loads isoformat hbuffer hline r.bounded
      have hread : l.read loads isoformat r =
          ⟨pending newline (lastN 8192 (l.buffer ++ r.content)),
            l.log ++ [.redacted .stdout r.content.length] ++
              (handleLines loads isoformat
                (boundaryTail line r.content ++ completed newline (line ++ r.content))).1.map .plugin,
            (handleLines loads isoformat
              (boundaryTail line r.content ++ completed newline (line ++ r.content))).2⟩ := by
        simp [Loop.read, halive, hstream, hlines]
      have hevents : (l.read loads isoformat r).events = l.events ++ (handleLines loads isoformat
          (boundaryTail line r.content ++ completed newline (line ++ r.content))).1 := by
        have hsize : Emitted.fields? (.redacted .stdout r.content.length) = none := rfl
        rw [hread, Loop.events, List.filterMap_append, List.filterMap_append, filterMap_fields,
          List.filterMap_cons_none hsize, List.filterMap_nil, List.append_nil, Loop.events]
      simp only [handled, hstream]
      rw [handleLines_append]
      by_cases hdone : (handleLines loads isoformat
          (boundaryTail line r.content ++ completed newline (line ++ r.content))).2 = true
      · have hbuffered : Buffered (l.read loads isoformat r).buffer (pending newline (line ++ r.content)) := by
          simpa only [hread] using hbuffer'
        have hlive : (l.read loads isoformat r).alive = true := by
          simpa only [hread] using hdone
        have hnext := ih hbuffered (not_mem_pending _) hlive
        rw [if_pos hdone]
        exact ⟨by rw [hnext.1, hevents, List.append_assoc], hnext.2⟩
      · have hdead : (l.read loads isoformat r).alive = false := by
          rw [hread]
          simpa using hdone
        rw [if_neg hdone, foldl_read_of_dead hdead]
        exact ⟨hevents, by rw [hdead]; exact (Bool.not_eq_true _ ▸ hdone).symm⟩

/-- The whole run. -/
theorem supervise_eq (loads : Bytes → Loads) (isoformat : ℤ → String) (reads : List Read) :
    (supervise loads isoformat reads).events = (handleLines loads isoformat (handled [] reads)).1 ∧
      (supervise loads isoformat reads).alive = (handleLines loads isoformat (handled [] reads)).2 := by
  have h := foldl_read loads isoformat (l := .start) (Buffered.refl []) List.not_mem_nil rfl reads
  exact ⟨by rw [supervise, h.1]; rfl, h.2⟩

theorem mem_handled {reads : List Read} {line : Bytes} :
    line ∈ handled [] reads ↔
      line ∈ completed newline (stdoutOf reads) ∨ line ∈ boundaryTails [] reads := by
  rw [(handled_perm [] List.not_mem_nil reads).mem_iff, List.mem_append, List.nil_append, or_comm]

/-- Rests that are no events add nothing. -/
theorem filterMap_handled {line : Bytes} (hline : newline ∉ line) {reads : List Read}
    (h : ∀ rest ∈ boundaryTails line reads, kept loads isoformat rest = none) :
    (handled line reads).filterMap (kept loads isoformat)
      = (completed newline (line ++ stdoutOf reads)).filterMap (kept loads isoformat) := by
  induction reads generalizing line with
  | nil => simp [handled, stdoutOf, completed_of_not_mem hline]
  | cons r reads ih =>
    cases hstream : r.stream with
    | stderr =>
      simp only [boundaryTails, hstream] at h
      simpa [handled, stdoutOf, hstream] using ih hline h
    | stdout =>
      simp only [boundaryTails, hstream, List.mem_append] at h
      have hrest : (boundaryTail line r.content).filterMap (kept loads isoformat) = [] :=
        List.filterMap_eq_nil_iff.mpr fun rest hrest => h rest (.inl hrest)
      have hstdout : stdoutOf (r :: reads) = r.content ++ stdoutOf reads := by simp [stdoutOf, hstream]
      simp only [handled, hstream]
      rw [hstdout, ← List.append_assoc, completed_append (line ++ r.content), List.filterMap_append,
        List.filterMap_append, List.filterMap_append, hrest, List.nil_append,
        ih (not_mem_pending _) fun rest hmem => h rest (.inr hmem)]

/-- The supervisor survives the output, and what it writes for a line is safe. -/
structure Survives (loads : Bytes → Loads) (isoformat : ℤ → String) (reads : List Read) : Prop where
  alive : (supervise loads isoformat reads).alive = true
  safe : ∀ r ∈ (supervise loads isoformat reads).events, Safe isoformat r
  written : ∀ r ∈ (supervise loads isoformat reads).events, ∀ (now sandboxId : String) (g : String × Json),
    g ∈ written now sandboxId r ↔ g ∈ r ∨ (g ∈ baseEvent now sandboxId ∧ g.1 ∉ r.map (·.1))

/-- **The supervisor survives exactly on harmless lines**: no complete line of the output, and no rest of an
over-long line that passes for one, makes the parser give up or is an object whose `action` is a list or an
object. Whatever the output is, the records that it writes are safe, and two lines that differ only in other
fields give the same record. -/
theorem supervisor_survives (loads : Bytes → Loads) (isoformat : ℤ → String) :
    (∀ reads : List Read, Survives loads isoformat reads ↔
      (∀ line ∈ completed newline (stdoutOf reads), Harmless loads line) ∧
        ∀ line ∈ boundaryTails [] reads, Harmless loads line) ∧
    (∀ (reads : List Read), ∀ r ∈ (supervise loads isoformat reads).events, Safe isoformat r) ∧
    ∀ (line line' : Bytes) (value value' : Json), isPluginLine line = isPluginLine line' →
      loads (line.drop pluginEventPrefix.length) = .value value →
      loads (line'.drop pluginEventPrefix.length) = .value value' → value.isObject = value'.isObject →
      (∀ name ∈ readNames, value.get? name = value'.get? name) →
      pluginEvent loads isoformat line = pluginEvent loads isoformat line' := by
  have hsafe : ∀ (reads : List Read), ∀ r ∈ (supervise loads isoformat reads).events, Safe isoformat r := by
    intro reads r hr
    rw [(supervise_eq loads isoformat reads).1] at hr
    obtain ⟨line, hline⟩ := pluginEvent_of_mem_handleLines hr
    exact pluginEvent_safe hline
  refine ⟨fun reads => ?_, hsafe, fun line line' value value' => pluginEvent_congr⟩
  have halive : (supervise loads isoformat reads).alive = true ↔
      (∀ line ∈ completed newline (stdoutOf reads), Harmless loads line) ∧
        ∀ line ∈ boundaryTails [] reads, Harmless loads line := by
    rw [(supervise_eq loads isoformat reads).2, handleLines_alive_iff]
    simp only [mem_handled, or_imp, forall_and]
  rw [← halive]
  refine ⟨Survives.alive, fun h => ⟨h, hsafe reads, fun r hr now sandboxId g => ?_⟩⟩
  exact mem_written (hsafe reads r hr).once

/-- **The events are those of the lines of the stream** exactly when no rest of an over-long line is one,
however the stream is split into reads, as long as the supervisor survives. -/
theorem events_of_lines (loads : Bytes → Loads) (isoformat : ℤ → String) (reads : List Read)
    (halive : (supervise loads isoformat reads).alive = true) :
    (supervise loads isoformat reads).events
        = (completed newline (stdoutOf reads)).filterMap (kept loads isoformat) ↔
      ∀ line ∈ boundaryTails [] reads, kept loads isoformat line = none := by
  rw [(supervise_eq loads isoformat reads).2] at halive
  rw [(supervise_eq loads isoformat reads).1, handleLines_eq_filterMap halive]
  constructor
  · intro hsame
    have hperm := (handled_perm [] List.not_mem_nil reads).filterMap (kept loads isoformat)
    have hlength := hperm.length_eq
    rw [hsame, List.nil_append, List.filterMap_append, List.length_append] at hlength
    have hnone : (boundaryTails [] reads).filterMap (kept loads isoformat) = [] :=
      List.eq_nil_of_length_eq_zero (by omega)
    exact List.filterMap_eq_nil_iff.mp hnone
  · intro hnone
    exact filterMap_handled List.not_mem_nil hnone

end Supervise

/-! ## §F Runs -/

/-- The event of the plugin when a model is called. -/
def dispatchText : Bytes := "\x7b\"action\":\"model_dispatch\"\x7d".toUTF8.data.toList

/-- An object whose action is a list. -/
def listText : Bytes := "\x7b\"action\":[]\x7d".toUTF8.data.toList

/-- What `json.loads` makes of these texts; spaces behind them make no difference. -/
def loadsTexts (b : Bytes) : Loads :=
  if dispatchText.isPrefixOf b && (b.drop dispatchText.length).all (· == 32) then
    .value (.object [("action", .string "model_dispatch")])
  else if listText.isPrefixOf b && (b.drop listText.length).all (· == 32) then
    .value (.object [("action", .array [])])
  else .undecodable

/-- The first read is a line with the given text. -/
def lineRead (text : Bytes) (h : (pluginEventPrefix ++ text ++ [newline]).length ≤ 4096) : Read :=
  ⟨.stdout, pluginEventPrefix ++ text ++ [newline], by simp, h⟩

theorem dispatch_survives :
    Survives loadsTexts (fun _ => "") [lineRead dispatchText (by decide +kernel)] :=
  ((supervisor_survives loadsTexts fun _ => "").1 _).mpr (by
    have hlines : completed newline (stdoutOf [lineRead dispatchText (by decide +kernel)])
        = [pluginEventPrefix ++ dispatchText] := by decide +kernel
    have htails : boundaryTails [] [lineRead dispatchText (by decide +kernel)] = [] := by decide +kernel
    rw [hlines, htails]
    refine ⟨fun line hline => ?_, nofun⟩
    obtain rfl := List.mem_singleton.mp hline
    intro _
    have hloads : loadsTexts ((pluginEventPrefix ++ dispatchText).drop pluginEventPrefix.length)
        = .value (.object [("action", .string "model_dispatch")]) := by
      rw [List.drop_left]
      exact if_pos (by decide +kernel)
    rw [hloads]
    exact fun _ => rfl)

/-- A line whose `action` is a list raises a `TypeError`, and the child is killed. -/
theorem list_action_kills : ¬ ∀ (loads : Bytes → Loads) (isoformat : ℤ → String) (reads : List Read),
    (∀ b, loads b ≠ .raised) → (supervise loads isoformat reads).alive = true := by
  intro hall
  have hnever : ∀ b, loadsTexts b ≠ .raised := by
    intro b
    unfold loadsTexts
    split
    · nofun
    · split <;> nofun
  have h := hall loadsTexts (fun _ => "") [lineRead listText (by decide +kernel)] hnever
  exact absurd h (by decide +kernel)

/-- A plugin event that fills a whole read. -/
def fillingText : Bytes :=
  pluginEventPrefix ++ (dispatchText ++ List.replicate (4096 - 24 - dispatchText.length) 32)

theorem length_fillingText : fillingText.length = 4096 := by
  have hprefix : pluginEventPrefix.length = 24 := by decide +kernel
  have htext : dispatchText.length = 27 := by decide +kernel
  simp only [fillingText, List.length_append, List.length_replicate, hprefix, htext]

theorem newline_not_mem_fillingText : newline ∉ fillingText := by
  simp only [fillingText, List.mem_append, List.mem_replicate, not_or]
  exact ⟨by decide +kernel, by decide +kernel, fun h => absurd h.2 (by decide)⟩

/-- The over-long line: a byte, and the event. -/
def overlongLine : Bytes := 120 :: fillingText

theorem newline_not_mem_overlongLine : newline ∉ overlongLine := by
  rw [overlongLine, List.mem_cons, not_or]
  exact ⟨by decide, newline_not_mem_fillingText⟩

theorem long_overlongLine : 4096 < overlongLine.length := by
  simp [overlongLine, length_fillingText]

/-- The byte, the event, and the end of the line with the beginning of the next one. -/
def overlongReads (next : Bytes) (h : next.length ≤ 4095) : List Read :=
  [⟨.stdout, [120], List.cons_ne_nil _ _, by simp⟩,
    ⟨.stdout, fillingText, List.ne_nil_of_length_pos (by simp [length_fillingText]), length_fillingText.le⟩,
    ⟨.stdout, newline :: next, List.cons_ne_nil _ _, Nat.succ_le_succ h⟩]

section Overlong

variable {next : Bytes} (hlength : next.length ≤ 4095) (hnext : newline ∉ next)

include hnext

/-- The over-long line is the only line. -/
theorem completed_overlongReads : completed newline (stdoutOf (overlongReads next hlength)) = [overlongLine] := by
  have hstdout : stdoutOf (overlongReads next hlength) = overlongLine ++ newline :: next := by
    simp [stdoutOf, overlongReads, overlongLine]
  rw [hstdout, completed_append_cons newline_not_mem_overlongLine, completed_of_not_mem hnext]

/-- What is left of it is handled when the last read is full. -/
theorem handled_overlongReads : handled [] (overlongReads next hlength) =
    (if next.length = 4095 then [fillingText] else []) ++ [overlongLine] ∧
      boundaryTails [] (overlongReads next hlength) = if next.length = 4095 then [fillingText] else [] := by
  have hfirst : newline ∉ [(120 : UInt8)] := by decide
  have htail₁ : boundaryTail [] [120] = [] := if_neg fun h => absurd h.1 (by decide)
  have htail₂ : boundaryTail [120] fillingText = [] := if_neg fun h => absurd h.2.2 (by decide)
  have htail₃ : boundaryTail overlongLine (newline :: next) =
      if next.length = 4095 then [fillingText] else [] := by
    have hlast : lastN 4096 overlongLine = fillingText := by
      rw [lastN, overlongLine, List.length_cons, length_fillingText]
      rfl
    simp [boundaryTail, hlast, long_overlongLine]
  have hcons : [120] ++ fillingText = overlongLine := rfl
  simp only [overlongReads, handled, boundaryTails, List.nil_append, htail₁, pending_of_not_mem hfirst,
    completed_of_not_mem hfirst, htail₂, hcons, pending_of_not_mem newline_not_mem_overlongLine,
    completed_of_not_mem newline_not_mem_overlongLine, htail₃,
    completed_append_cons newline_not_mem_overlongLine, completed_of_not_mem hnext, List.append_nil,
    and_self]

end Overlong

theorem loadsTexts_filled (n : ℕ) : loadsTexts (dispatchText ++ List.replicate n 32) =
    .value (.object [("action", .string "model_dispatch")]) := by
  refine if_pos ?_
  rw [Bool.and_eq_true, List.drop_left]
  exact ⟨List.isPrefixOf_iff_prefix.mpr (List.prefix_append _ _), by simp⟩

/-- The event itself is a line that is kept. -/
theorem pluginEvent_fillingText (isoformat : ℤ → String) : pluginEvent loadsTexts isoformat fillingText =
    .ok (some [("action", .string "model_dispatch"), ("event_kind", .string "instant")]) := by
  have hline : isPluginLine fillingText = true := by
    rw [isPluginLine, Bool.and_eq_true, decide_eq_true_eq]
    exact ⟨List.isPrefixOf_iff_prefix.mpr (List.prefix_append _ _), length_fillingText.le⟩
  have hloads : loadsTexts (fillingText.drop pluginEventPrefix.length) =
      .value (.object [("action", .string "model_dispatch")]) := by
    rw [fillingText, List.drop_left]
    exact loadsTexts_filled _
  simp only [pluginEvent, hline, hloads]
  rfl

/-- The next line of the runs: short, or the rest of a full read. -/
theorem newline_not_mem_replicate (n : ℕ) : newline ∉ List.replicate n (121 : UInt8) := by
  rw [List.mem_replicate]
  exact fun h => absurd h.2 (by decide)

theorem harmless_overlongLine (loads : Bytes → Loads) : Harmless loads overlongLine :=
  (pluginEvent_ne_error_iff fun _ => "").mp ⟨none, pluginEvent_of_long long_overlongLine⟩

theorem short_reads_lose_nothing :
    (supervise loadsTexts (fun _ => "") (overlongReads [] (Nat.zero_le _))).events
      = (completed newline (stdoutOf (overlongReads [] (Nat.zero_le _)))).filterMap
          (kept loadsTexts fun _ => "") :=
  have hhandled := handled_overlongReads (Nat.zero_le _) (List.not_mem_nil (a := newline))
  (events_of_lines loadsTexts (fun _ => "") (overlongReads [] (Nat.zero_le _)) (by
    rw [(supervise_eq _ _ _).2, hhandled.1, handleLines_alive_iff]
    intro line hline
    obtain rfl := List.mem_singleton.mp hline
    exact harmless_overlongLine loadsTexts)).mpr (by
    rw [hhandled.2]
    nofun)

/-- A read of 4096 bytes that begins with the end of an over-long line: the last 4096 bytes of the line are
emitted as an event. -/
theorem tail_emitted : ¬ ∀ (loads : Bytes → Loads) (isoformat : ℤ → String) (reads : List Read),
    (supervise loads isoformat reads).alive = true →
    (supervise loads isoformat reads).events
      = (completed newline (stdoutOf reads)).filterMap (kept loads isoformat) := by
  intro hall
  have hlength : (List.replicate 4095 (121 : UInt8)).length = 4095 := List.length_replicate
  have hhandled := handled_overlongReads hlength.le (newline_not_mem_replicate 4095)
  have hlines : handleLines loadsTexts (fun _ => "") [fillingText, overlongLine] =
      ([[("action", .string "model_dispatch"), ("event_kind", .string "instant")]], true) := by
    simp only [handleLines, pluginEvent_fillingText, pluginEvent_of_long long_overlongLine]
  have hrun := supervise_eq loadsTexts (fun _ => "")
    (overlongReads (List.replicate 4095 121) hlength.le)
  rw [hhandled.1, if_pos hlength, List.singleton_append, hlines] at hrun
  have hsame := hall loadsTexts (fun _ => "") _ hrun.2
  have hnone : kept loadsTexts (fun _ => "") overlongLine = none := by
    rw [kept, pluginEvent_of_long long_overlongLine]
  rw [hrun.1, completed_overlongReads hlength.le (newline_not_mem_replicate 4095),
    List.filterMap_cons_none hnone] at hsame
  cases hsame


end OpencodeCloud.AgentRuntime
