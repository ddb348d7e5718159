/-
# OpencodeCloud.Observability.Calls -- model calls are counted once

A model call that the HTTP layer and callbacks have recorded is one call when all its records are in one turn and
one of them is from the HTTP layer. Otherwise it is counted for each turn and each callback (`two_identities`). Which turn a record is in may depend on the order of the events, when a
message is linked to two traces or a trace is named as unlinked events are.

`calls_settled` says exactly for which events neither happens, in any order.
-/
import OpencodeCloud.Observability.Timeline
import OpencodeCloud.Library.Linking
import OpencodeCloud.Library.Naming
import Mathlib.Data.List.GetD

namespace OpencodeCloud.Observability

open OpencodeCloud.Library

variable (clock : Clock)

/-! ## §A Events with string identifiers -/

/-- The identifiers of an event are texts, or are not there. -/
def Named (event : Json) : Prop :=
  ∀ key ∈ ["message_id", "trace_id", "span_id"], field event key = .null ∨ ∃ s, field event key = .string s

/-- A field that is a text with something in it. -/
def textOf (event : Json) (key : String) : Option String :=
  match field event key with
  | .string s => if s = "" then none else some s
  | _ => none

/-- No exception is raised for an event: its path and its action have the types that they are compared as, and the
time at which it began exists. -/
def readable (event : Json) : Bool :=
  match kindOf event with
  | .error _ => false
  | .ok none => true
  | .ok (some _) =>
    match startedAt (clock.moment (clock.strOf (field event "timestamp"))) (phaseDuration event) with
    | .ok _ => true
    | .error _ => false

/-- The kind of an event that is read. -/
def kind? (event : Json) : Option PhaseKind :=
  match kindOf event with
  | .ok kind => kind
  | .error _ => none

/-- How the events of a list are named: by their positions in it. -/
def linking (events : List Json) : Linking ℕ String String where
  message i := textOf (events.getD i .null) "message_id"
  link i := if linksMessage (events.getD i .null) then textOf (events.getD i .null) "trace_id" else none
  base i := (textOf (events.getD i .null) "trace_id").or (textOf (events.getD i .null) "message_id")
  place k := "unlinked-" ++ toString k
  place_injective := by
    intro j k h
    have hlist := congrArg String.toList h
    rw [String.toList_append, String.toList_append, List.append_cancel_left_eq] at hlist
    exact toString_injective hlist

variable {clock} {event : Json}

theorem kindOf_ok (h : readable clock event = true) : kindOf event = .ok (kind? event) := by
  unfold readable at h
  unfold kind?
  cases hk : kindOf event with
  | error e =>
    rw [hk] at h
    cases h
  | ok kind => rfl

theorem isRequest_ok (h : readable clock event = true) : ∃ is, isRequest event = .ok is := by
  have hk := kindOf_ok h
  unfold kindOf at hk
  obtain ⟨is, his, -⟩ := Checked.bind_eq_ok.1 hk
  exact ⟨is, his⟩

theorem links_ok (h : readable clock event = true) : links event = .ok (linksMessage event) := by
  have hex : ∃ linked, links event = .ok linked := by
    unfold links
    split
    · obtain ⟨is, his⟩ := isRequest_ok h
      rw [his]
      cases is with
      | true => exact ⟨_, rfl⟩
      | false => exact ⟨_, rfl⟩
    · exact ⟨_, rfl⟩
  obtain ⟨linked, hl⟩ := hex
  rw [linksMessage, hl]

theorem Named.field_eq (h : Named event) (key : String) (hkey : key ∈ ["message_id", "trace_id", "span_id"]) :
    ((field event key).truthy = false ∧ textOf event key = none)
      ∨ ∃ s, s ≠ "" ∧ field event key = .string s ∧ textOf event key = some s := by
  rcases h key hkey with hnull | ⟨s, hs⟩
  · exact Or.inl ⟨by rw [hnull]; rfl, by rw [textOf, hnull]⟩
  · by_cases hempty : s = ""
    · subst hempty
      exact Or.inl ⟨by rw [hs]; rfl, by rw [textOf, hs]; rfl⟩
    · exact Or.inr ⟨s, hempty, hs, by rw [textOf, hs]; exact if_neg hempty⟩

theorem Named.hashable (h : Named event) {key : String} (hkey : key ∈ ["message_id", "trace_id", "span_id"]) :
    (field event key).hashable = true := by
  rcases h key hkey with hnull | ⟨s, hs⟩
  · rw [hnull]
    rfl
  · rw [hs]
    rfl

theorem linkable_of_readable (hread : readable clock event = true) (hnamed : Named event) :
    linkable event = true :=
  linkable_iff.2 ⟨links_ok hread, fun _ => hnamed.hashable List.mem_cons_self⟩

/-! ## §B The names of the turns -/

/-- A list of events in another order. -/
def arrange (events : List Json) (order : List ℕ) : List Json := order.map fun i => events.getD i .null

section Names

variable {events : List Json} {order : List ℕ}

theorem textOf_ne {key s : String} (h : textOf event key = some s) : s ≠ "" ∧ field event key = .string s := by
  unfold textOf at h
  split at h
  · rename_i t ht
    split at h
    · cases h
    · rename_i hne
      cases h
      exact ⟨hne, ht⟩
  · cases h

theorem orElse_string {s : String} (h : s ≠ "") (b : Json) : orElse (.string s) b = .string s := by
  simp [orElse, Json.truthy, h]

theorem orElse_falsy {a : Json} (h : a.truthy = false) (b : Json) : orElse a b = b := by
  rw [orElse, h]
  rfl

/-- The links of a message, as the model and as the code has them. -/
theorem linkedTo_text {i : ℕ} (hnamed : Named (events.getD i .null)) (m : String) :
    linkedTo (.text m) (events.getD i .null) = ((linking events).linkOf m i).map Json.string := by
  unfold linkedTo Linking.linkOf linking
  simp only
  cases hl : linksMessage (events.getD i .null) with
  | false => simp
  | true =>
    obtain ⟨hmid, htid⟩ := linksMessage_truthy hl
    rcases hnamed.field_eq "message_id" (by simp) with ⟨hf, -⟩ | ⟨m', hm', hfield, htext⟩
    · rw [hmid] at hf
      cases hf
    · rcases hnamed.field_eq "trace_id" (by simp) with ⟨hf, -⟩ | ⟨t, ht, htfield, httext⟩
      · rw [htid] at hf
        cases hf
      · rw [hfield, htext, htfield, httext]
        by_cases hmm : m' = m
        · simp [hmm, Json.key?]
        · simp [hmm, Json.key?]

/-- What is no text with something in it is linked by no event. -/
theorem linkedTo_falsy {mid : Key} (hmid : mid = .null ∨ mid = .text "") (event : Json) : linkedTo mid event = none := by
  unfold linkedTo
  refine if_neg ?_
  rintro ⟨hl, hkey⟩
  have htruthy := (linksMessage_truthy hl).1
  cases hf : field event "message_id" with
  | null =>
    rw [hf] at htruthy
    cases htruthy
  | string s =>
    rw [hf] at hkey htruthy
    rcases hmid with rfl | rfl
    · cases hkey
    · cases hkey
      cases htruthy
  | array items =>
    rw [hf] at hkey
    cases hkey
  | object fields =>
    rw [hf] at hkey
    cases hkey
  | bool b =>
    rw [hf] at hkey
    rcases hmid with rfl | rfl <;> cases hkey
  | int n =>
    rw [hf] at hkey
    rcases hmid with rfl | rfl <;> cases hkey
  | float x =>
    rw [hf] at hkey
    cases x <;> rcases hmid with rfl | rfl <;> cases hkey

/-- **The turn of an event** is the name that the links give it. -/
theorem identityOf_name (hnamed : ∀ i, Named (events.getD i .null)) {aliases : List (Key × Json)}
    (haliases : ∀ mid, aliases.lookup mid = (arrange events order).findSome? (linkedTo mid)) (i : ℕ) :
    identityOf aliases (order.idxOf i) (events.getD i .null)
      = .ok (.string ((linking events).name order i)) := by
  have hlookup : ∀ m, aliases.lookup (.text m) = ((linking events).first order m).map Json.string := by
    intro m
    rw [haliases, arrange, List.findSome?_map, Linking.first, List.map_findSome?]
    exact congrArg (fun f => List.findSome? f order) (funext fun j => linkedTo_text (hnamed j) m)
  have hnone : ∀ mid, mid = .null ∨ mid = .text "" → aliases.lookup mid = none := by
    intro mid hmid
    rw [haliases, List.findSome?_eq_none_iff]
    exact fun event _ => linkedTo_falsy hmid event
  have hbase : ∀ own : String, orElse (field (events.getD i .null) "trace_id")
      (orElse (field (events.getD i .null) "message_id") (.string own))
        = .string (((linking events).base i).getD own) := by
    intro own
    show _ = Json.string (((textOf _ "trace_id").or (textOf _ "message_id")).getD own)
    rcases (hnamed i).field_eq "trace_id" (by simp) with ⟨hf, ht⟩ | ⟨s, hs, hf, ht⟩
    · rw [orElse_falsy hf, ht]
      rcases (hnamed i).field_eq "message_id" (by simp) with ⟨hf, ht⟩ | ⟨s, hs, hf, ht⟩
      · rw [orElse_falsy hf, ht]
        rfl
      · rw [hf, orElse_string hs, ht]
        rfl
    · rw [hf, orElse_string hs, ht]
      rfl
  unfold identityOf Linking.name
  have hplace : (linking events).place (order.idxOf i) = "unlinked-" ++ toString (order.idxOf i) := rfl
  have hmessage : (linking events).message i = textOf (events.getD i .null) "message_id" := rfl
  rw [hmessage, hplace]
  rcases (hnamed i).field_eq "message_id" (by simp) with ⟨hf, ht⟩ | ⟨m, hm, hf, ht⟩
  · have hkey : ∃ key, (field (events.getD i .null) "message_id").key? = some key ∧ (key = .null ∨ key = .text "") := by
      rcases hnamed i "message_id" (by simp) with hnull | ⟨s, hs⟩
      · exact ⟨.null, by rw [hnull]; rfl, Or.inl rfl⟩
      · rw [hs] at hf ⊢
        have hempty : s = "" := by simpa [Json.truthy] using hf
        exact ⟨.text s, rfl, Or.inr (by rw [hempty])⟩
    obtain ⟨key, hkey, hfalsy⟩ := hkey
    rw [hkey, ht]
    simp only [hnone key hfalsy, Option.getD_none, Option.bind_none]
    rw [orElse_falsy rfl, hbase]
  · rw [ht, hf]
    simp only [Json.key?, hlookup m, Option.bind_some]
    cases hfirst : (linking events).first order m with
    | none =>
      simp only [Option.map_none, Option.getD_none]
      rw [orElse_falsy rfl, ← hf, hbase]
    | some n =>
      simp only [Option.map_some, Option.getD_some]
      obtain ⟨j, -, hlink⟩ := List.exists_of_findSome?_eq_some hfirst
      have hn : n ≠ "" := by
        unfold Linking.linkOf linking at hlink
        simp only at hlink
        split at hlink
        · split at hlink
          · exact (textOf_ne hlink).1
          · cases hlink
        · cases hlink
      rw [orElse_string hn]

end Names

/-! ## §C The phases of an order -/

variable (clock) in
/-- The phase of the event at a position, with its turn, when the events come in an order. -/
def phaseIn (events : List Json) (order : List ℕ) (i : ℕ) : Option (Json × Phase) :=
  match aliasesOf (arrange events order) with
  | .error _ => none
  | .ok aliases =>
    match phaseOf clock aliases (events.getD i .null) (order.idxOf i) with
    | .error _ => none
    | .ok phase => phase

theorem exists_phaseOf (hread : readable clock event = true) {aliases : List (Key × Json)} {index : ℕ}
    {identity : Json} (hid : identityOf aliases index event = .ok identity) (hh : identity.hashable = true) :
    ∃ phase, phaseOf clock aliases event index = .ok phase := by
  have hk := kindOf_ok hread
  unfold readable at hread
  unfold phaseOf
  rw [hk] at hread ⊢
  cases hkind : kind? event with
  | none => exact ⟨none, rfl⟩
  | some kind =>
    rw [hkind] at hread
    cases hs : startedAt (clock.moment (clock.strOf (field event "timestamp"))) (phaseDuration event) with
    | error e =>
      rw [hs] at hread
      cases hread
    | ok started =>
      simp only [bind, Except.bind, hid, hh, Bool.not_true, Bool.false_eq_true, if_false, hs]
      exact ⟨_, rfl⟩

/-- An event whose phase is made is readable. -/
theorem readable_of_phaseOf {aliases : List (Key × Json)} {index : ℕ} {phase : Option (Json × Phase)}
    (h : phaseOf clock aliases event index = .ok phase) : readable clock event = true := by
  unfold phaseOf at h
  obtain ⟨kind, hk, h⟩ := Checked.bind_eq_ok.1 h
  unfold readable
  rw [hk]
  cases kind with
  | none => rfl
  | some kind =>
    obtain ⟨identity, hid, h⟩ := Checked.bind_eq_ok.1 h
    split at h
    · cases h
    · obtain ⟨started, hstart, h⟩ := Checked.bind_eq_ok.1 h
      simp only [hstart]


variable (clock) in
/-- Events that are read, in some order. -/
structure Arranged (events : List Json) (order : List ℕ) : Prop where
  perm : order.Perm (List.range events.length)
  named : ∀ event ∈ events, Named event
  readable : ∀ event ∈ events, readable clock event = true

section Orders

variable {events : List Json} {order : List ℕ}

theorem getD_eq_or (events : List Json) (i : ℕ) : events.getD i .null = .null ∨ events.getD i .null ∈ events := by
  rcases Nat.lt_or_ge i events.length with hi | hi
  · refine Or.inr ?_
    rw [List.getD_eq_getElem _ _ hi]
    exact List.getElem_mem hi
  · exact Or.inl (List.getD_eq_default _ _ hi)

theorem named_getD (hnamed : ∀ event ∈ events, Named event) (i : ℕ) : Named (events.getD i .null) := by
  rcases getD_eq_or events i with h | h
  · rw [h]
    exact fun key _ => Or.inl rfl
  · exact hnamed _ h

theorem readable_getD (hread : ∀ event ∈ events, readable clock event = true) (i : ℕ) :
    readable clock (events.getD i .null) = true := by
  rcases getD_eq_or events i with h | h
  · rw [h]
    rfl
  · exact hread _ h

theorem mem_arrange (hperm : order.Perm (List.range events.length)) (event : Json) :
    event ∈ arrange events order ↔ event ∈ events := by
  rw [arrange, List.mem_map, List.mem_iff_getElem]
  constructor
  · rintro ⟨i, hi, rfl⟩
    have hlt := List.mem_range.1 (hperm.mem_iff.1 hi)
    exact ⟨i, hlt, (List.getD_eq_getElem _ _ hlt).symm⟩
  · rintro ⟨i, hlt, rfl⟩
    exact ⟨i, hperm.mem_iff.2 (List.mem_range.2 hlt), List.getD_eq_getElem _ _ hlt⟩

theorem Arranged.aliases (h : Arranged clock events order) :
    ∃ aliases, aliasesOf (arrange events order) = .ok aliases
      ∧ ∀ mid, aliases.lookup mid = (arrange events order).findSome? (linkedTo mid) :=
  aliasesOf_ok fun event he => linkable_of_readable (h.readable event ((mem_arrange h.perm event).1 he))
    (h.named event ((mem_arrange h.perm event).1 he))

/-- The phase of an event, and the turn that it is in. -/
theorem Arranged.phaseIn_eq (h : Arranged clock events order) (i : ℕ) :
    (kind? (events.getD i .null) = none ∧ phaseIn clock events order i = none)
      ∨ ∃ kind p, kind? (events.getD i .null) = some kind ∧ IsPhase (events.getD i .null) kind p
        ∧ phaseIn clock events order i = some (.string ((linking events).name order i), p) := by
  obtain ⟨aliases, haliases, hlookup⟩ := h.aliases
  have hid := identityOf_name (named_getD h.named) hlookup i
  obtain ⟨phase, hphase⟩ := exists_phaseOf (readable_getD h.readable i) hid rfl
  have heq : phaseIn clock events order i = phase := by
    simp only [phaseIn, haliases, hphase]
  have hk := kindOf_ok (readable_getD h.readable i)
  rw [heq]
  rcases phaseOf_eq_ok hphase with ⟨hnone, rfl⟩ | ⟨kind, identity, p, hsome, hid', rfl, hp⟩
  · exact Or.inl ⟨Except.ok.inj (hk.symm.trans hnone), rfl⟩
  · rw [hid] at hid'
    cases hid'
    exact Or.inr ⟨kind, p, Except.ok.inj (hk.symm.trans hsome), hp, rfl⟩

theorem zipIdx_eq (hnodup : order.Nodup) : order.zipIdx = order.map fun i => (i, order.idxOf i) := by
  refine List.ext_getElem (by simp) fun k h _ => ?_
  rw [List.length_zipIdx] at h
  rw [List.getElem_zipIdx, List.getElem_map, hnodup.idxOf_getElem, Nat.zero_add]

theorem mapM_ok {α β : Type} {f : α → Checked β} {g : α → β} {l : List α} (h : ∀ a ∈ l, f a = .ok (g a)) :
    l.mapM f = .ok (l.map g) := by
  rw [mapM_eq_ok, List.forall₂_map_right_iff, List.forall₂_same]
  exact h

/-- **The phases of an order are those of the events**, one after the other. -/
theorem Arranged.phasesOf_eq (h : Arranged clock events order) :
    phasesOf clock (arrange events order) = .ok (order.filterMap (phaseIn clock events order)) := by
  obtain ⟨aliases, haliases, hlookup⟩ := h.aliases
  have hnodup : order.Nodup := h.perm.nodup_iff.2 List.nodup_range
  have hzip : (arrange events order).zipIdx = order.map fun i => (events.getD i .null, order.idxOf i) := by
    rw [arrange, List.zipIdx_map, zipIdx_eq hnodup, List.map_map]
    rfl
  have hone : ∀ i ∈ order, phaseOf clock aliases (events.getD i .null) (order.idxOf i)
      = .ok (phaseIn clock events order i) := by
    intro i _
    obtain ⟨phase, hphase⟩ := exists_phaseOf (readable_getD h.readable i)
      (identityOf_name (named_getD h.named) hlookup i) rfl
    simp only [phaseIn, haliases, hphase]
  unfold phasesOf
  rw [haliases, hzip]
  have hmap : (order.map fun i => (events.getD i .null, order.idxOf i)).mapM
      (fun event => phaseOf clock aliases event.1 event.2) = .ok (order.map (phaseIn clock events order)) := by
    rw [List.mapM_map]
    exact mapM_ok hone
  simp only [bind, Except.bind, hmap]
  rw [List.reduceOption, List.filterMap_map]
  rfl

/-- When the phases of a list are made each event is readable. -/
theorem readable_of_phasesOf {events : List Json} {phases : List (Json × Phase)}
    (h : phasesOf clock events = .ok phases) : ∀ event ∈ events, readable clock event = true := by
  intro event he
  obtain ⟨aliases, -, h⟩ := Checked.bind_eq_ok.1 h
  obtain ⟨made, hmade, -⟩ := Checked.bind_eq_ok.1 h
  obtain ⟨k, hk, rfl⟩ := List.mem_iff_getElem.1 he
  have hmem : (events[k], k) ∈ events.zipIdx := by
    rw [List.mem_zipIdx_iff_getElem?, List.getElem?_eq_getElem hk]
  obtain ⟨phase, hphase⟩ := exists_mapM_eq_ok.1 ⟨made, hmade⟩ _ hmem
  exact readable_of_phaseOf hphase

end Orders

/-! ## §D The calls of a span -/

/-- `p['span_id'] == s` -/
def Phase.onSpan (s : String) (p : Phase) : Bool :=
  match p.spanId with
  | .string t => t == s
  | _ => false

/-- The model phases of a span in a turn. -/
def Turn.callsOn (s : String) (turn : Turn) : ℕ := turn.phases.countP fun p => p.1.isModel && p.1.onSpan s

/-- The model phases of a span in all turns. -/
def callsOn (turns : List Turn) (s : String) : ℕ := (turns.map (Turn.callsOn s)).sum

/-- A phase with its turn that is a model phase of a span in the answer: it is no callback with a record of the
HTTP layer in its turn. -/
def counts (phases : List (Json × Phase)) (s : String) (p : Json × Phase) : Bool :=
  p.2.isModel && p.2.onSpan s
    && !(p.2.isCallback && phases.any fun q => q.1.key? == p.1.key? && (q.2.isHttp && q.2.onSpan s))

theorem onSpan_iff {p : Phase} {s : String} : p.onSpan s = true ↔ p.spanId = .string s := by
  unfold Phase.onSpan
  split
  · rename_i t ht
    rw [ht, beq_iff_eq, Json.string.injEq]
  · rename_i hne
    exact ⟨nofun, fun h => absurd h (hne s)⟩

theorem key?_text {j : Json} {s : String} : j.key? = some (.text s) ↔ j = .string s := by
  cases j with
  | float x => cases x <;> simp [Json.key?, Json.number?]
  | _ => simp [Json.key?, Json.number?]

/-- A span that the HTTP layer has recorded. -/
theorem contains_httpSpans {phases : List Phase} {s : String} (hs : s ≠ "") :
    (httpSpans phases).contains (some (.text s)) = phases.any fun q => q.isHttp && q.onSpan s := by
  rw [Bool.eq_iff_iff, List.contains_iff_mem, httpSpans, List.mem_map, List.any_eq_true]
  constructor
  · rintro ⟨q, hq, hkey⟩
    obtain ⟨hmem, hhttp⟩ := List.mem_filter.1 hq
    rw [Bool.and_eq_true] at hhttp
    exact ⟨q, hmem, Bool.and_eq_true_iff.2 ⟨hhttp.1, onSpan_iff.2 (key?_text.1 hkey)⟩⟩
  · rintro ⟨q, hmem, hq⟩
    obtain ⟨hhttp, hspan⟩ := Bool.and_eq_true_iff.1 hq
    have hspan := onSpan_iff.1 hspan
    refine ⟨q, List.mem_filter.2 ⟨hmem, ?_⟩, key?_text.2 hspan⟩
    rw [hhttp, hspan]
    simpa [Json.truthy] using hs

theorem sortedPhases_perm (phases : List Phase) : (sortedPhases clock phases).Perm phases :=
  List.mergeSort_perm _ _

/-- The model phases of a span in the turn of a group. -/
theorem turnOf_callsOn {group : Key × List (Json × Phase)} {turn : Turn} (h : turnOf clock group = .ok turn)
    {s : String} (hs : s ≠ "") :
    turn.callsOn s = group.2.countP fun p => p.2.isModel && p.2.onSpan s
      && !(p.2.isCallback && group.2.any fun q => q.2.isHttp && q.2.onSpan s) := by
  obtain ⟨kept, hkept, h⟩ := Checked.bind_eq_ok.1 h
  unfold dedupe at hkept
  split at hkept
  · cases hkept
    cases h
    rw [Turn.callsOn, List.countP_map, List.countP_filter, (sortedPhases_perm _).countP_eq,
      List.countP_filter, List.countP_map]
    refine List.countP_congr fun p _ => ?_
    simp only [Function.comp_apply]
    cases hspan : p.2.onSpan s with
    | false => simp
    | true =>
      have hkey : p.2.spanId.key? = some (.text s) := key?_text.2 (onSpan_iff.1 hspan)
      rw [hkey, contains_httpSpans hs, List.any_map]
      cases hmodel : p.2.isModel with
      | false => simp
      | true => simp [Function.comp_def]
  · cases hkept

/-- A turn counts its model phases. -/
theorem turnOf_modelCalls {group : Key × List (Json × Phase)} {turn : Turn} (h : turnOf clock group = .ok turn) :
    turn.modelCalls = turn.phases.countP (·.1.isModel) := by
  obtain ⟨kept, -, h⟩ := Checked.bind_eq_ok.1 h
  cases h
  show (sortedPhases clock kept).countP _ = _
  rw [List.countP_map, List.countP_filter]
  refine List.countP_congr fun p _ => ?_
  simp only [Function.comp_apply]
  cases p.isModel with
  | false => simp
  | true => simp

/-- **The model phases of a span in all turns.** -/
theorem turnsOf_callsOn {events : List Json} {phases : List (Json × Phase)} {turns : List Turn}
    (hphases : phasesOf clock events = .ok phases) (hkeys : ∀ p ∈ phases, (p.1.key?).isSome = true)
    (hturns : turnsOf clock events = .ok turns) {s : String} (hs : s ≠ "") :
    callsOn turns s = phases.countP (counts phases s) := by
  obtain ⟨phases', hphases', hturns⟩ := Checked.bind_eq_ok.1 hturns
  obtain rfl : phases' = phases := Except.ok.inj (hphases'.symm.trans hphases)
  obtain ⟨made, hmade, hturns⟩ := Checked.bind_eq_ok.1 hturns
  cases hturns
  have hsum : ∀ (groups : List (Key × List (Json × Phase))) (made : List Turn),
      (∀ group ∈ groups, group ∈ groupsBy (fun p : Json × Phase => p.1.key?) phases') →
      List.Forall₂ (fun group turn => turnOf clock group = .ok turn) groups made →
      callsOn made s = (groups.map fun group => group.2.countP (counts phases' s)).sum := by
    intro groups made hsub hall
    induction hall with
    | nil => rfl
    | @cons group turn groups made hone _ ih =>
      have hmem := hsub group List.mem_cons_self
      obtain ⟨hgroup, -⟩ := mem_groupsBy.1 hmem
      have htail := ih fun g hg => hsub g (List.mem_cons_of_mem _ hg)
      unfold callsOn at htail ⊢
      rw [List.map_cons, List.sum_cons, List.map_cons, List.sum_cons, htail, turnOf_callsOn hone hs]
      congr 1
      refine List.countP_congr fun p hp => ?_
      have hkey : p.1.key? = some group.1 := by
        rw [hgroup] at hp
        exact beq_iff_eq.1 (List.mem_filter.1 hp).2
      have hany : (group.2.any fun q => q.2.isHttp && q.2.onSpan s)
          = phases'.any fun q => q.1.key? == p.1.key? && (q.2.isHttp && q.2.onSpan s) := by
        rw [hgroup, List.any_filter, hkey]
      rw [counts, hany]
  have hperm : callsOn (made.mergeSort fun a b =>
      !decide ((b.startedAt.map clock.iso).getD "" < (a.startedAt.map clock.iso).getD "")) s = callsOn made s :=
    ((List.mergeSort_perm _ _).map _).sum_eq
  rw [hperm, hsum _ made (fun _ h => h) (mapM_eq_ok.1 hmade), sum_groupsBy _ hkeys]

/-- Every turn counts its model phases. -/
theorem turnsOf_modelCalls {events : List Json} {turns : List Turn} (h : turnsOf clock events = .ok turns) :
    ∀ turn ∈ turns, turn.modelCalls = turn.phases.countP (·.1.isModel) := by
  obtain ⟨phases, -, h⟩ := Checked.bind_eq_ok.1 h
  obtain ⟨made, hmade, h⟩ := Checked.bind_eq_ok.1 h
  cases h
  intro turn hturn
  obtain ⟨group, -, hgroup⟩ := exists_of_mem_mapM hmade ((List.mergeSort_perm _ _).mem_iff.1 hturn)
  exact turnOf_modelCalls hgroup

/-! ## §E Records of a call -/

/-- The event at a position is a record of the model call with a span. -/
def IsRecord (events : List Json) (s : String) (i : ℕ) : Prop :=
  kind? (events.getD i .null) = some .model ∧ textOf (events.getD i .null) "span_id" = some s

/-- The event at a position is from the HTTP layer. -/
def FromHttp (events : List Json) (i : ℕ) : Prop := has (events.getD i .null) "action" "http_request" = true

/-- The event at a position takes part. -/
def Kinded (events : List Json) (i : ℕ) : Prop := (kind? (events.getD i .null)).isSome = true

/-- A record that is counted: it is from the HTTP layer, or no record of the HTTP layer is in its turn. -/
def Survives (events : List Json) (order : List ℕ) (s : String) (i : ℕ) : Prop :=
  IsRecord events s i ∧ (FromHttp events i ∨ ∀ j, IsRecord events s j → FromHttp events j →
    (linking events).name order j ≠ (linking events).name order i)

section Records

variable {events : List Json} {order order' : List ℕ} {s : String} {i j : ℕ}

theorem Kinded.lt (h : Kinded events i) : i < events.length := by
  refine Nat.lt_of_not_le fun hle => ?_
  rw [Kinded, List.getD_eq_default _ _ hle] at h
  cases h

theorem IsRecord.kinded (h : IsRecord events s i) : Kinded events i := by
  rw [Kinded, h.1]
  rfl

/-- A phase on a span is a record of it, and the other way. -/
theorem IsPhase.onSpan {event : Json} {kind : PhaseKind} {p : Phase} (h : IsPhase event kind p) (hs : s ≠ "") :
    p.onSpan s = true ↔ textOf event "span_id" = some s := by
  rw [onSpan_iff, h.spanId]
  constructor
  · intro hfield
    rw [textOf, hfield]
    exact if_neg hs
  · exact fun htext => (textOf_ne htext).2

open Classical in
/-- **What is counted for a span** are the records that survive. -/
theorem Arranged.callsOn_eq (h : Arranged clock events order) {turns : List Turn}
    (hturns : turnsOf clock (arrange events order) = .ok turns) (hs : s ≠ "") :
    callsOn turns s = order.countP fun i => decide (Survives events order s i) := by
  have hkeys : ∀ p ∈ order.filterMap (phaseIn clock events order), (p.1.key?).isSome = true := by
    intro p hp
    obtain ⟨i, -, hi⟩ := List.mem_filterMap.1 hp
    rcases h.phaseIn_eq i with ⟨-, hnone⟩ | ⟨kind, q, -, -, hsome⟩
    · rw [hnone] at hi
      cases hi
    · rw [hsome] at hi
      cases hi
      rfl
  rw [turnsOf_callsOn h.phasesOf_eq hkeys hturns hs, List.countP_filterMap]
  refine List.countP_congr fun i _ => ?_
  rcases h.phaseIn_eq i with ⟨hk, hnone⟩ | ⟨kind, p, hk, hp, hsome⟩
  · rw [hnone, Option.map_none, Option.getD_none, decide_eq_true_eq]
    refine ⟨nofun, fun hsurvives => ?_⟩
    have hmodel := hsurvives.1.1
    rw [hk] at hmodel
    cases hmodel
  · have hany : ((order.filterMap (phaseIn clock events order)).any fun q =>
        q.1.key? == (Json.string ((linking events).name order i)).key? && (q.2.isHttp && q.2.onSpan s)) = true ↔
        ∃ j, IsRecord events s j ∧ FromHttp events j
          ∧ (linking events).name order j = (linking events).name order i := by
      rw [List.any_eq_true]
      constructor
      · rintro ⟨q, hq, hand⟩
        obtain ⟨j, -, hj⟩ := List.mem_filterMap.1 hq
        rcases h.phaseIn_eq j with ⟨-, hnone⟩ | ⟨kind', q', hk', hq', hsome'⟩
        · rw [hnone] at hj
          cases hj
        · rw [hsome'] at hj
          cases hj
          rw [Bool.and_eq_true, Bool.and_eq_true, beq_iff_eq, hq'.isHttp, hq'.onSpan hs] at hand
          obtain ⟨hkey, ⟨rfl, hhttp⟩, hspan⟩ := hand
          exact ⟨j, ⟨hk', hspan⟩, hhttp, by simpa [Json.key?] using hkey⟩
      · rintro ⟨j, hrecord, hhttp, hname⟩
        have hj : j ∈ order := h.perm.mem_iff.2 (List.mem_range.2 hrecord.kinded.lt)
        rcases h.phaseIn_eq j with ⟨hk', -⟩ | ⟨kind', q', hk', hq', hsome'⟩
        · have hmodel := hrecord.1
          rw [hk'] at hmodel
          cases hmodel
        · refine ⟨_, List.mem_filterMap.2 ⟨j, hj, hsome'⟩, ?_⟩
          have hmodel := hrecord.1
          rw [hk'] at hmodel
          cases hmodel
          rw [Bool.and_eq_true, Bool.and_eq_true, beq_iff_eq, hq'.isHttp, hq'.onSpan hs, hname]
          exact ⟨rfl, ⟨rfl, hhttp⟩, hrecord.2⟩
    rw [hsome, Option.map_some, Option.getD_some, decide_eq_true_eq, counts, Bool.and_eq_true, Bool.and_eq_true,
      hp.isModel, hp.onSpan hs, Bool.not_eq_true', ← Bool.not_eq_true, Bool.and_eq_true, hany, hp.isCallback]
    constructor
    · rintro ⟨⟨rfl, hspan⟩, hnot⟩
      refine ⟨⟨hk, hspan⟩, ?_⟩
      by_cases hhttp : FromHttp events i
      · exact Or.inl hhttp
      · exact Or.inr fun j hrecord hj hname => hnot ⟨⟨rfl, hhttp⟩, j, hrecord, hj, hname⟩
    · rintro ⟨⟨hmodel, hspan⟩, hor⟩
      rw [hk] at hmodel
      cases hmodel
      refine ⟨⟨rfl, hspan⟩, ?_⟩
      rintro ⟨⟨-, hnot⟩, j, hrecord, hj, hname⟩
      rcases hor with hhttp | hall
      · exact hnot hhttp
      · exact hall j hrecord hj hname

/-- The turns of an order are made. -/
theorem Arranged.exists_turns (h : Arranged clock events order) :
    ∃ turns, turnsOf clock (arrange events order) = .ok turns := by
  refine exists_turnsOf h.phasesOf_eq fun p hp => ?_
  obtain ⟨i, -, hi⟩ := List.mem_filterMap.1 hp
  rcases h.phaseIn_eq i with ⟨-, hnone⟩ | ⟨kind, q, -, hq, hsome⟩
  · rw [hnone] at hi
    cases hi
  · rw [hsome] at hi
    cases hi
    have hhash : q.spanId.hashable = true := by
      rw [hq.spanId]
      exact (named_getD h.named i).hashable (by simp)
    simp [Phase.dedupable, hhash]

end Records

/-! ## §F Calls are counted once -/

variable (clock) in
/-- The turns are what is returned, whatever the limit is that lets all of them through. -/
def Returns (events : List Json) (turns : List Turn) : Prop :=
  ∀ limit, turns.length ≤ limit → sessionTimeline clock events limit = .ok ⟨turns, false⟩

variable (clock) in
/-- Two events are in one turn. -/
def SameTurn (events : List Json) (order : List ℕ) (i j : ℕ) : Prop :=
  ∃ p q, phaseIn clock events order i = some p ∧ phaseIn clock events order j = some q ∧ p.1.key? = q.1.key?

/-- A span accounts for one model phase at most, and each of them for one model call. -/
structure Once (turns : List Turn) : Prop where
  calls : ∀ turn ∈ turns, turn.modelCalls = turn.phases.countP (·.1.isModel)
  once : ∀ s, s ≠ "" → callsOn turns s ≤ 1

variable (clock) in
/-- Calls are counted once, and neither the number of calls nor which events are in one turn depends on the order
of the events. -/
def Settled (events : List Json) : Prop :=
  ∀ order order' : List ℕ, order.Perm (List.range events.length) → order'.Perm (List.range events.length) →
    ∃ turns turns', Returns clock (arrange events order) turns ∧ Returns clock (arrange events order') turns'
      ∧ Once turns ∧ (∀ s, s ≠ "" → callsOn turns s = callsOn turns' s)
      ∧ ∀ i j, SameTurn clock events order i j ↔ SameTurn clock events order' i j

/-- Which events are in one turn depends on no order. -/
def Stable (events : List Json) : Prop :=
  ∀ i j, Kinded events i → Kinded events j → i ≠ j →
    (linking events).Together (List.range events.length) i j ∨ (linking events).Apart (List.range events.length) i j

/-- A span has one record, or one record of the HTTP layer and callbacks that are together with it. -/
def Deduped (events : List Json) : Prop :=
  ∀ s, (∀ i j, IsRecord events s i → IsRecord events s j → i = j)
    ∨ ∃ h, IsRecord events s h ∧ FromHttp events h ∧ ∀ i, IsRecord events s i → i ≠ h →
        ¬ FromHttp events i ∧ (linking events).Together (List.range events.length) i h

section Settled

variable {events : List Json} {order order' : List ℕ} {s : String} {i j : ℕ} {turns : List Turn}

theorem returns_iff : Returns clock events turns ↔ turnsOf clock events = .ok turns := by
  constructor
  · intro h
    obtain ⟨turns', hturns', hpure⟩ := Checked.bind_eq_ok.1 (h turns.length (Nat.le_refl _))
    obtain ⟨hitems, htruncated⟩ := Timeline.mk.inj (Except.ok.inj hpure)
    have hle : turns'.length ≤ turns.length := Nat.le_of_not_lt (of_decide_eq_false htruncated)
    rw [hturns', ← hitems]
    split
    · rfl
    · rw [lastN_of_length_le hle]
  · intro h limit hle
    unfold sessionTimeline
    rw [h]
    have hnot : ¬ limit < turns.length := Nat.not_lt.2 hle
    simp only [bind, Except.bind, lastN_of_length_le hle, ite_self, decide_eq_false hnot]
    rfl

theorem Arranged.sameTurn_iff (h : Arranged clock events order) :
    SameTurn clock events order i j ↔ Kinded events i ∧ Kinded events j
      ∧ (linking events).name order i = (linking events).name order j := by
  unfold SameTurn Kinded
  rcases h.phaseIn_eq i with ⟨hi, hnone⟩ | ⟨kind, p, hi, -, hp⟩
  · rw [hnone, hi]
    simp
  · rcases h.phaseIn_eq j with ⟨hj, hnone⟩ | ⟨kind', q, hj, -, hq⟩
    · rw [hnone, hj]
      simp
    · rw [hp, hq, hi, hj]
      simp [Json.key?]

/-- What is stable has its turns in every order as in any other. -/
theorem Stable.name_eq_iff (hstable : Stable events) (hperm : order.Perm (List.range events.length))
    (hperm' : order'.Perm (List.range events.length)) (hi : Kinded events i) (hj : Kinded events j) :
    (linking events).name order i = (linking events).name order j
      ↔ (linking events).name order' i = (linking events).name order' j := by
  have hmi := List.mem_range.2 hi.lt
  have hmj := List.mem_range.2 hj.lt
  by_cases hij : i = j
  · subst hij
    exact iff_of_true rfl rfl
  · rcases hstable i j hi hj hij with htogether | hapart
    · exact iff_of_true (htogether.name_eq hperm hmi hmj) (htogether.name_eq hperm' hmi hmj)
    · exact iff_of_false (hapart.name_ne hperm hmi hmj hij) (hapart.name_ne hperm' hmi hmj hij)

theorem Stable.survives_iff (hstable : Stable events) (hperm : order.Perm (List.range events.length))
    (hperm' : order'.Perm (List.range events.length)) : Survives events order s i ↔ Survives events order' s i := by
  refine and_congr_right fun hi => or_congr_right (forall_congr' fun j => forall_congr' fun hj => ?_)
  exact imp_congr_right fun _ => not_congr (hstable.name_eq_iff hperm hperm' hj.kinded hi.kinded)

open Classical in
theorem Arranged.callsOn_le_one (h : Arranged clock events order)
    (hturns : turnsOf clock (arrange events order) = .ok turns) (hs : s ≠ "") :
    callsOn turns s ≤ 1 ↔ ∀ i j, Survives events order s i → Survives events order s j → i = j := by
  have hnodup : (order.filter fun i => decide (Survives events order s i)).Nodup :=
    (h.perm.nodup_iff.2 List.nodup_range).filter _
  have hmem : ∀ i, i ∈ (order.filter fun i => decide (Survives events order s i)) ↔ Survives events order s i := by
    intro i
    rw [List.mem_filter, decide_eq_true_eq]
    exact ⟨And.right, fun hi => ⟨h.perm.mem_iff.2 (List.mem_range.2 hi.1.kinded.lt), hi⟩⟩
  rw [h.callsOn_eq hturns hs, List.countP_eq_length_filter]
  constructor
  · intro hle i j hi hj
    rw [← hmem] at hi hj
    match hl : order.filter fun i => decide (Survives events order s i) with
    | [] =>
      rw [hl] at hi
      cases hi
    | [k] =>
      rw [hl, List.mem_singleton] at hi hj
      rw [hi, hj]
    | _ :: _ :: _ =>
      rw [hl] at hle
      simp at hle
  · intro hsame
    match hl : order.filter fun i => decide (Survives events order s i) with
    | [] => exact Nat.zero_le _
    | [k] => exact Nat.le_refl _
    | k :: l :: _ =>
      rw [hl] at hnodup
      have hk := (hmem k).1 (by rw [hl]; exact List.mem_cons_self)
      have hl' := (hmem l).1 (by rw [hl]; exact List.mem_cons_of_mem _ List.mem_cons_self)
      have hne := (List.nodup_cons.1 hnodup).1
      rw [hsame k l hk hl'] at hne
      exact absurd List.mem_cons_self hne

/-- Records that are deduplicated leave one that survives. -/
theorem Deduped.survives (hdeduped : Deduped events) (hperm : order.Perm (List.range events.length)) :
    ∀ i j, Survives events order s i → Survives events order s j → i = j := by
  intro i j hi hj
  rcases hdeduped s with hone | ⟨h, hh, hhttp, hothers⟩
  · exact hone i j hi.1 hj.1
  · have hlast : ∀ k, Survives events order s k → k = h := by
      intro k hk
      by_contra hne
      obtain ⟨hnot, htogether⟩ := hothers k hk.1 hne
      rcases hk.2 with hfrom | hall
      · exact hnot hfrom
      · exact hall h hh hhttp (htogether.name_eq hperm (List.mem_range.2 hk.1.kinded.lt)
          (List.mem_range.2 hh.kinded.lt)).symm
    rw [hlast i hi, hlast j hj]

/-- And when one survives the records are deduplicated. -/
theorem Stable.deduped (hstable : Stable events) (hperm : order.Perm (List.range events.length))
    (honce : ∀ s, s ≠ "" → ∀ i j, Survives events order s i → Survives events order s j → i = j) :
    Deduped events := by
  intro s
  by_cases hs : s = ""
  · refine Or.inl fun i j hi => ?_
    exact absurd hs (textOf_ne hi.2).1
  have honce := honce s hs
  by_cases hany : ∃ h, IsRecord events s h ∧ FromHttp events h
  · obtain ⟨h, hh, hhttp⟩ := hany
    have hsurvives : Survives events order s h := ⟨hh, Or.inl hhttp⟩
    refine Or.inr ⟨h, hh, hhttp, fun i hi hne => ?_⟩
    have hnot : ¬ FromHttp events i := fun hfrom => hne (honce i h ⟨hi, Or.inl hfrom⟩ hsurvives)
    refine ⟨hnot, ?_⟩
    rcases hstable i h hi.kinded hh.kinded hne with htogether | hapart
    · exact htogether
    · refine absurd (honce i h ⟨hi, Or.inr fun j hj hfrom => ?_⟩ hsurvives) hne
      rw [honce j h ⟨hj, Or.inl hfrom⟩ hsurvives]
      exact (hapart.name_ne hperm (List.mem_range.2 hi.kinded.lt) (List.mem_range.2 hh.kinded.lt) hne).symm
  · refine Or.inl fun i j hi hj => honce i j ⟨hi, Or.inr ?_⟩ ⟨hj, Or.inr ?_⟩
    · exact fun k hk hfrom => absurd ⟨k, hk, hfrom⟩ hany
    · exact fun k hk hfrom => absurd ⟨k, hk, hfrom⟩ hany

/-- **Calls are counted once in every order** exactly for events that raise nothing, whose turns depend on no order,
and whose spans each have one record, or one of the HTTP layer and callbacks that are together with it. -/
theorem calls_settled (hnamed : ∀ event ∈ events, Named event) :
    Settled clock events
      ↔ (∀ event ∈ events, readable clock event = true) ∧ Stable events ∧ Deduped events := by
  constructor
  · intro hsettled
    have hread : ∀ event ∈ events, readable clock event = true := by
      obtain ⟨turns, -, hturns, -⟩ := hsettled _ _ (List.Perm.refl _) (List.Perm.refl _)
      obtain ⟨phases, hphases, -⟩ := Checked.bind_eq_ok.1 (returns_iff.1 hturns)
      exact fun event he => readable_of_phasesOf hphases event ((mem_arrange (List.Perm.refl _) event).2 he)
    have harranged : ∀ order : List ℕ, order.Perm (List.range events.length) → Arranged clock events order :=
      fun order hperm => ⟨hperm, hnamed, hread⟩
    have hstable : Stable events := by
      intro i j hi hj hij
      by_contra hneither
      obtain ⟨htogether, hapart⟩ := not_or.1 hneither
      obtain ⟨⟨order, hperm, heq⟩, order', hperm', hne⟩ := Linking.exists_orders List.nodup_range
        (List.mem_range.2 hi.lt) (List.mem_range.2 hj.lt) hij htogether hapart
      obtain ⟨-, -, -, -, -, -, hsame⟩ := hsettled order order' hperm hperm'
      have hin := (hsame i j).1 ((harranged order hperm).sameTurn_iff.2 ⟨hi, hj, heq⟩)
      exact hne ((harranged order' hperm').sameTurn_iff.1 hin).2.2
    refine ⟨hread, hstable, hstable.deduped (List.Perm.refl _) fun s hs => ?_⟩
    obtain ⟨turns, -, hturns, -, honce, -⟩ := hsettled _ _ (List.Perm.refl _) (List.Perm.refl _)
    exact ((harranged _ (List.Perm.refl _)).callsOn_le_one (returns_iff.1 hturns) hs).1 (honce.once s hs)
  · classical
    rintro ⟨hread, hstable, hdeduped⟩ order order' hperm hperm'
    have harranged : Arranged clock events order := ⟨hperm, hnamed, hread⟩
    have harranged' : Arranged clock events order' := ⟨hperm', hnamed, hread⟩
    obtain ⟨turns, hturns⟩ := harranged.exists_turns
    obtain ⟨turns', hturns'⟩ := harranged'.exists_turns
    refine ⟨turns, turns', returns_iff.2 hturns, returns_iff.2 hturns',
      ⟨turnsOf_modelCalls hturns, fun s hs => ?_⟩, fun s hs => ?_, fun i j => ?_⟩
    · exact (harranged.callsOn_le_one hturns hs).2 (hdeduped.survives hperm)
    · rw [harranged.callsOn_eq hturns hs, harranged'.callsOn_eq hturns' hs]
      refine ((hperm.trans hperm'.symm).countP_eq _).trans (List.countP_congr fun i _ => ?_)
      simp only [decide_eq_true_eq]
      exact hstable.survives_iff hperm hperm'
    · rw [harranged.sameTurn_iff, harranged'.sameTurn_iff]
      refine and_congr_right fun hi => and_congr_right fun hj => ?_
      exact hstable.name_eq_iff hperm hperm' hi hj

end Settled

/-! ## §G A call with two records -/

section Records

/-- A clock that reads no time. -/
def silent : Clock := ⟨fun _ => none, fun _ => "", fun _ => ""⟩

/-- A record of the call `s`. -/
def record (action trace : String) : Json :=
  .object [("module", .string "model_gateway"), ("action", .string action), ("trace_id", .string trace),
    ("span_id", .string "s"), ("message_id", .string "m")]

theorem record_named (action trace : String) : Named (record action trace) := by
  intro key hkey
  simp only [List.mem_cons, List.not_mem_nil, or_false] at hkey
  rcases hkey with rfl | rfl | rfl
  · exact Or.inr ⟨"m", rfl⟩
  · exact Or.inr ⟨trace, rfl⟩
  · exact Or.inr ⟨"s", rfl⟩

/-- A callback with the message of the record is not counted, though it has another trace. -/
theorem call_settled : Settled silent [record "http_request" "t", record "model.completed" "u"] := by
  have hnamed : ∀ event ∈ [record "http_request" "t", record "model.completed" "u"], Named event := by
    intro event he
    simp only [List.mem_cons, List.not_mem_nil, or_false] at he
    rcases he with rfl | rfl
    · exact record_named _ _
    · exact record_named _ _
  have htogether : ∀ i j, i < 2 → j < 2 →
      (linking [record "http_request" "t", record "model.completed" "u"]).Together (List.range 2) i j := by
    intro i j hi hj
    have hmessage : ∀ k, k < 2 → (linking [record "http_request" "t", record "model.completed" "u"]).message k
        = some "m" := by
      decide +kernel
    refine Or.inl ⟨"m", hmessage i hi, hmessage j hj, "t", 0, by decide, ?_⟩
    decide +kernel
  refine (calls_settled hnamed).2 ⟨by decide +kernel, fun i j hi hj _ => Or.inl (htogether i j hi.lt hj.lt), ?_⟩
  intro s
  by_cases hs : s = "s"
  · subst hs
    refine Or.inr ⟨0, ⟨by decide +kernel, by decide +kernel⟩, by unfold FromHttp; decide +kernel, ?_⟩
    intro i hi hne
    obtain rfl : i = 1 := by
      have hlt : i < 2 := hi.kinded.lt
      omega
    exact ⟨by unfold FromHttp; decide +kernel, htogether 1 0 (by omega) (by omega)⟩
  · refine Or.inl fun i j hi => ?_
    have hspan : ∀ k, k < 2 → textOf ([record "http_request" "t", record "model.completed" "u"].getD k .null)
        "span_id" = some "s" := by
      decide +kernel
    have hspan' := hspan i hi.kinded.lt
    rw [hi.2] at hspan'
    exact absurd (Option.some.inj hspan') hs

/-- A record of the call `s` without a message. -/
def unlinked (action trace : String) : Json :=
  .object [("module", .string "model_gateway"), ("action", .string action), ("trace_id", .string trace),
    ("span_id", .string "s")]

/-- **A call is counted twice** when its callback has another trace and no message. -/
theorem two_identities : ¬ Settled silent [unlinked "http_request" "t", unlinked "model.completed" "u"] := by
  intro h
  obtain ⟨turns, -, hturns, -, honce, -⟩ := h [0, 1] [0, 1] (List.Perm.refl _) (List.Perm.refl _)
  have harranged : Arranged silent [unlinked "http_request" "t", unlinked "model.completed" "u"] [0, 1] := by
    refine ⟨List.Perm.refl _, ?_, by decide +kernel⟩
    intro event he key hkey
    simp only [List.mem_cons, List.not_mem_nil, or_false] at he hkey
    rcases he with rfl | rfl <;> rcases hkey with rfl | rfl | rfl
    all_goals first | exact Or.inl rfl | exact Or.inr ⟨_, rfl⟩
  have hzero : Survives [unlinked "http_request" "t", unlinked "model.completed" "u"] [0, 1] "s" 0 :=
    ⟨⟨by decide +kernel, by decide +kernel⟩, Or.inl (by unfold FromHttp; decide +kernel)⟩
  have hone : Survives [unlinked "http_request" "t", unlinked "model.completed" "u"] [0, 1] "s" 1 := by
    refine ⟨⟨by decide +kernel, by decide +kernel⟩, Or.inr fun j hj hhttp => ?_⟩
    have hlt : j < 2 := hj.kinded.lt
    obtain rfl | rfl : j = 0 ∨ j = 1 := by omega
    · decide +kernel
    · revert hhttp
      unfold FromHttp
      decide +kernel
  exact absurd ((harranged.callsOn_le_one (returns_iff.1 hturns) (by decide)).1 (honce.once "s" (by decide)) 0 1
    hzero hone) (by decide)

end Records

end OpencodeCloud.Observability
