/-
# OpencodeCloud.Observability.Times -- the time of a module

The time of a module is the measure of the union of the intervals of its spans (`aggregate_times`): overlapping
spans are not counted twice. The interval of a span goes from the first start that one of its events tells to
the last time that one of them tells. Nothing of that depends on the order of the events, as long as the events of
a span do not name different modules.
-/
import OpencodeCloud.Observability.Aggregate

namespace OpencodeCloud.Observability

open OpencodeCloud.Library

variable (texts : Texts)

/-! ## §A What is measured -/

/-- The times that the events of a span tell. -/
def ends (events : List Json) (sid : String) : Set ℚ :=
  {t | ∃ event ∈ events, spanIdOf event = some sid ∧ dateOf texts event = some t}

/-- The starts that they tell: the time of an event less its duration, when it has a valid one. -/
def begins (events : List Json) (sid : String) : Set ℚ :=
  {t | ∃ event ∈ events, spanIdOf event = some sid ∧ ∃ date duration, dateOf texts event = some date
    ∧ duration? event = some duration ∧ 0 ≤ date - duration ∧ t = date - duration}

/-- The interval of a span; it is empty when no event tells a start. -/
def spanTime (events : List Json) (sid : String) : Set ℝ :=
  {x | ∃ s e, IsLeast (begins texts events sid) s ∧ IsGreatest (ends texts events sid) e ∧ (s : ℝ) ≤ x ∧ x ≤ e}

/-- The module of a span: the last one that its events name. -/
def moduleOf (events : List Json) (sid : String) : Json :=
  lastTruthy (events.filter (spanIdOf · == some sid)) "module"

/-- The union of the intervals of the spans of a module. -/
def busy (events : List Json) (module : Json) : Set ℝ :=
  {x | ∃ sid, x ∈ spanTime texts events sid ∧ (moduleOf events sid).truthy = true
    ∧ (moduleOf events sid).same module = true}

/-- `module_duration_ms[module]`, or zero when the module is not listed. -/
def timeOf (times : List (Json × ℚ)) (module : Json) : ℚ :=
  ((times.find? (·.1.same module)).map Prod.snd).getD 0

/-- The events of each span name one module, if any. -/
def Unambiguous (events : List Json) : Prop :=
  ∀ event ∈ events, ∀ event' ∈ events, spanIdOf event = spanIdOf event' → (spanIdOf event).isSome →
    (field event "module").truthy = true → (field event' "module").truthy = true →
    (field event "module").same (field event' "module") = true

variable {texts}

/-! ## §B The intervals -/

theorem min?_iff_isLeast {l : List ℚ} {t : ℚ} : l.min? = some t ↔ IsLeast {x | x ∈ l} t := by
  rw [List.min?_eq_some_iff]
  exact Iff.rfl

theorem max?_iff_isGreatest {l : List ℚ} {t : ℚ} : l.max? = some t ↔ IsGreatest {x | x ∈ l} t := by
  rw [List.max?_eq_some_iff]
  exact Iff.rfl

theorem lastEnd_iff {events : List Json} {sid : String} {t : ℚ} :
    lastEnd texts (events.filter (spanIdOf · == some sid)) = some t ↔ IsGreatest (ends texts events sid) t := by
  rw [lastEnd, max?_iff_isGreatest]
  have hset : {x | x ∈ (datedOf texts (events.filter (spanIdOf · == some sid))).map Prod.fst}
      = ends texts events sid := by
    ext t
    simp only [datedOf, Set.mem_ofPred_eq, List.mem_map, List.mem_filterMap, List.mem_filter, beq_iff_eq, ends]
    constructor
    · rintro ⟨d, ⟨event, ⟨hevent, hsid⟩, hdate⟩, rfl⟩
      obtain ⟨date, hfound, rfl⟩ := Option.map_eq_some_iff.1 hdate
      exact ⟨event, hevent, hsid, hfound⟩
    · rintro ⟨event, hevent, hsid, hdate⟩
      exact ⟨(t, event), ⟨event, ⟨hevent, hsid⟩, by rw [hdate]; rfl⟩, rfl⟩
  rw [hset]

theorem firstStart_iff {events : List Json} {sid : String} {t : ℚ} :
    firstStart texts (events.filter (spanIdOf · == some sid)) = some t ↔ IsLeast (begins texts events sid) t := by
  rw [firstStart, min?_iff_isLeast]
  have hset : {x | x ∈ (datedOf texts (events.filter (spanIdOf · == some sid))).filterMap start?}
      = begins texts events sid := by
    ext t
    simp only [datedOf, Set.mem_ofPred_eq, List.mem_filterMap, List.mem_filter, beq_iff_eq, begins]
    constructor
    · rintro ⟨d, ⟨event, ⟨hevent, hsid⟩, hdate⟩, hstart⟩
      obtain ⟨date, hfound, rfl⟩ := Option.map_eq_some_iff.1 hdate
      obtain ⟨duration, hduration, hif⟩ := Option.bind_eq_some_iff.1 hstart
      split at hif
      · rename_i hpos
        cases hif
        exact ⟨event, hevent, hsid, date, duration, hfound, hduration, hpos, rfl⟩
      · cases hif
    · rintro ⟨event, hevent, hsid, date, duration, hdate, hduration, hpos, rfl⟩
      refine ⟨(date, event), ⟨event, ⟨hevent, hsid⟩, by rw [hdate]; rfl⟩, ?_⟩
      rw [start?, hduration, Option.bind_some, if_pos hpos]
  rw [hset]

/-- A duration is never negative. -/
theorem duration?_nonneg {event : Json} {duration : ℚ} (h : duration? event = some duration) : 0 ≤ duration := by
  unfold duration? at h
  split at h
  · split at h
    · rename_i hpos
      cases h
      exact_mod_cast hpos
    · cases h
  · split at h
    · rename_i hpos
      cases h
      exact hpos
    · cases h
  · cases h
    exact le_rfl
  · cases h

/-- A span begins before it ends. -/
theorem start_le_end {events : List Json} {sid : String} {s e : ℚ} (hs : IsLeast (begins texts events sid) s)
    (he : IsGreatest (ends texts events sid) e) : s ≤ e := by
  obtain ⟨event, hevent, hsid, date, duration, hdate, hduration, -, rfl⟩ := hs.1
  have hle : date ≤ e := he.2 ⟨event, hevent, hsid, hdate⟩
  have hpos := duration?_nonneg hduration
  linarith

/-- The ranges are the intervals of the spans that have a module, a start and an end. -/
theorem mem_ranges {events : List Json} {spans : List Span}
    (hspans : List.Forall₂ (fun group span => spanOf texts group = .ok span) (groupsBy spanIdOf events) spans)
    {module : Json} {s e : ℚ} :
    (module, (s, e)) ∈ spans.filterMap rangeOf ↔
      ∃ sid, module = moduleOf events sid ∧ module.truthy = true ∧ IsLeast (begins texts events sid) s
        ∧ IsGreatest (ends texts events sid) e := by
  obtain ⟨hids, hdesc⟩ := spans_of_groups hspans
  rw [List.mem_filterMap]
  constructor
  · rintro ⟨span, hs, hrange⟩
    obtain ⟨hd, -⟩ := hdesc span hs
    unfold rangeOf at hrange
    split at hrange
    · rename_i htruthy
      obtain ⟨s', hs', hrange⟩ := Option.bind_eq_some_iff.1 hrange
      obtain ⟨e', he', heq⟩ := Option.map_eq_some_iff.1 hrange
      cases heq
      rw [hd.startTime] at hs'
      rw [hd.endTime] at he'
      exact ⟨span.spanId, hd.module, htruthy, firstStart_iff.1 hs', lastEnd_iff.1 he'⟩
    · cases hrange
  · rintro ⟨sid, rfl, htruthy, hs, he⟩
    obtain ⟨event, hevent, hsid, -⟩ := he.1
    have hmem : sid ∈ spans.map Span.spanId := by
      rw [hids]
      exact mem_keys_groupsBy.2 ⟨event, hevent, hsid⟩
    obtain ⟨span, hspan, rfl⟩ := List.mem_map.1 hmem
    obtain ⟨hd, -⟩ := hdesc span hspan
    have hmodule : span.module = moduleOf events span.spanId := hd.module
    refine ⟨span, hspan, ?_⟩
    rw [rangeOf, hmodule, if_pos htruthy, hd.startTime, hd.endTime]
    simp only [firstStart_iff.2 hs, lastEnd_iff.2 he, Option.bind_some, Option.map_some]

/-- The ranges of a module cover what it was busy. -/
theorem busy_eq {events : List Json} {spans : List Span}
    (hspans : List.Forall₂ (fun group span => spanOf texts group = .ok span) (groupsBy spanIdOf events) spans)
    (module : Json) {ranges : List (ℚ × ℚ)}
    (hranges : ranges.Perm (((spans.filterMap rangeOf).filter (·.1.same module)).map Prod.snd)) :
    busy texts events module = cover (ranges.map fun range => ((range.1 : ℝ), (range.2 : ℝ))) := by
  ext x
  simp only [busy, spanTime, cover, Set.mem_ofPred_eq, Set.mem_iUnion, List.mem_map, exists_prop]
  constructor
  · rintro ⟨sid, ⟨s, e, hs, he, hsx, hxe⟩, htruthy, hsame⟩
    have hmem : (moduleOf events sid, (s, e)) ∈ spans.filterMap rangeOf :=
      (mem_ranges hspans).2 ⟨sid, rfl, htruthy, hs, he⟩
    refine ⟨((s : ℝ), (e : ℝ)), ⟨(s, e), hranges.mem_iff.2 ?_, rfl⟩, hsx, hxe⟩
    exact List.mem_map.2 ⟨_, List.mem_filter.2 ⟨hmem, hsame⟩, rfl⟩
  · rintro ⟨-, ⟨⟨s, e⟩, hmem, rfl⟩, hsx, hxe⟩
    obtain ⟨⟨module', s', e'⟩, hfilter, heq⟩ := List.mem_map.1 (hranges.mem_iff.1 hmem)
    cases heq
    obtain ⟨hrange, hsame⟩ := List.mem_filter.1 hfilter
    obtain ⟨sid, rfl, htruthy, hs, he⟩ := (mem_ranges hspans).1 hrange
    exact ⟨sid, ⟨s, e, hs, he, hsx, hxe⟩, htruthy, hsame⟩

/-! ## §C The sums -/

theorem hashable_of_same {a b : Json} (ha : a.hashable = true) (h : a.same b = true) : b.hashable = true := by
  cases b with
  | array items => cases a <;> simp_all [Json.hashable, Json.key?, Json.same, Json.sameScalar, Json.number?]
  | object fields => cases a <;> simp_all [Json.hashable, Json.key?, Json.same, Json.sameScalar, Json.number?]
  | float x => cases x <;> rfl
  | _ => rfl

theorem sortedRanges_pairwise (ranges : List (ℚ × ℚ)) : (sortedRanges ranges).Pairwise (·.1 ≤ ·.1) := by
  have htotal : ∀ a b : ℚ × ℚ, ((decide (a.1 < b.1) || a.1 == b.1 && decide (a.2 ≤ b.2))
      || (decide (b.1 < a.1) || b.1 == a.1 && decide (b.2 ≤ a.2))) = true := by
    intro a b
    rcases lt_trichotomy a.1 b.1 with h | h | h
    · simp [h]
    · simp [h, le_total a.2 b.2]
    · simp [h]
  have htrans : ∀ a b c : ℚ × ℚ, (decide (a.1 < b.1) || a.1 == b.1 && decide (a.2 ≤ b.2)) = true →
      (decide (b.1 < c.1) || b.1 == c.1 && decide (b.2 ≤ c.2)) = true →
      (decide (a.1 < c.1) || a.1 == c.1 && decide (a.2 ≤ c.2)) = true := by
    intro a b c hab hbc
    simp only [Bool.or_eq_true, Bool.and_eq_true, decide_eq_true_eq, beq_iff_eq] at hab hbc ⊢
    rcases hab with hab | ⟨hab, hab'⟩
    · rcases hbc with hbc | ⟨hbc, -⟩
      · exact Or.inl (hab.trans hbc)
      · exact Or.inl (hbc ▸ hab)
    · rcases hbc with hbc | ⟨hbc, hbc'⟩
      · exact Or.inl (hab ▸ hbc)
      · exact Or.inr ⟨hab.trans hbc, hab'.trans hbc'⟩
  refine (List.pairwise_mergeSort htrans htotal ranges).imp fun h => ?_
  simp only [Bool.or_eq_true, Bool.and_eq_true, decide_eq_true_eq, beq_iff_eq] at h
  rcases h with h | ⟨h, -⟩
  · exact h.le
  · exact h.le

/-- The ranges with the key of a module are its ranges. -/
theorem filter_key {ranges : List (Json × (ℚ × ℚ))} (hhash : ∀ range ∈ ranges, range.1.hashable = true)
    {module : Json} {k : Key} (hmodule : module.hashable = true) (hk : module.key? = some k) :
    ranges.filter (·.1.key? == some k) = ranges.filter (·.1.same module) := by
  refine List.filter_congr fun range hr => ?_
  rw [Bool.eq_iff_iff, beq_iff_eq, ← hk]
  exact Json.key?_inj (hhash range hr) hmodule

/-- The module of a group is that of its first range. -/
def groupModule (group : Key × List (Json × (ℚ × ℚ))) : Json := (group.2.head?.map Prod.fst).getD .null

theorem groupModule_of_mem {ranges : List (Json × (ℚ × ℚ))} {group : Key × List (Json × (ℚ × ℚ))}
    (h : group ∈ groupsBy (fun range : Json × (ℚ × ℚ) => range.1.key?) ranges) :
    ∃ first ∈ ranges, groupModule group = first.1 ∧ first.1.key? = some group.1 := by
  obtain ⟨hmembers, hne⟩ := mem_groupsBy.1 h
  obtain ⟨first, rest, hcons⟩ := List.exists_cons_of_ne_nil hne
  have hfirst : first ∈ ranges.filter (·.1.key? == some group.1) := by
    rw [← hmembers, hcons]
    exact List.mem_cons_self
  obtain ⟨hmem, hkey⟩ := List.mem_filter.1 hfirst
  exact ⟨first, hmem, by rw [groupModule, hcons]; rfl, beq_iff_eq.1 hkey⟩

/-- The groups of a module have its key. -/
theorem groupModule_same {ranges : List (Json × (ℚ × ℚ))} (hhash : ∀ range ∈ ranges, range.1.hashable = true)
    {group : Key × List (Json × (ℚ × ℚ))} {module : Json}
    (h : group ∈ groupsBy (fun range : Json × (ℚ × ℚ) => range.1.key?) ranges) :
    (groupModule group).same module = true ↔ module.hashable = true ∧ module.key? = some group.1 := by
  obtain ⟨first, hmem, hfirst, hkey⟩ := groupModule_of_mem h
  rw [hfirst]
  constructor
  · intro hsame
    have hmodule := hashable_of_same (hhash first hmem) hsame
    exact ⟨hmodule, ((Json.key?_inj (hhash first hmem) hmodule).2 hsame).symm.trans hkey⟩
  · rintro ⟨hmodule, hk⟩
    exact (Json.key?_inj (hhash first hmem) hmodule).1 (hkey.trans hk.symm)

/-- A module is listed when it has a range. -/
theorem listed_iff {spans : List Span} {times : List (Json × ℚ)} (h : moduleMs spans = .ok times)
    (module : Json) :
    (∃ entry ∈ times, entry.1.same module = true) ↔
      ∃ range ∈ spans.filterMap rangeOf, range.1.same module = true := by
  simp only [moduleMs] at h
  generalize spans.filterMap rangeOf = ranges at h ⊢
  split at h
  · rename_i hall
    have hhash := fun range hr => List.all_eq_true.1 hall range hr
    cases h
    constructor
    · rintro ⟨entry, hentry, hsame⟩
      obtain ⟨group, hg, rfl⟩ := List.mem_map.1 hentry
      obtain ⟨first, hmem, hfirst, -⟩ := groupModule_of_mem hg
      exact ⟨first, hmem, hfirst ▸ hsame⟩
    · rintro ⟨range, hr, hsame⟩
      obtain ⟨k, hk⟩ := Option.isSome_iff_exists.1 (hhash range hr)
      have hmodule := hashable_of_same (hhash range hr) hsame
      have hlisted : k ∈ (groupsBy (fun range : Json × (ℚ × ℚ) => range.1.key?) ranges).map Prod.fst :=
        mem_keys_groupsBy.2 ⟨range, hr, hk⟩
      obtain ⟨group, hg, rfl⟩ := List.mem_map.1 hlisted
      refine ⟨_, List.mem_map_of_mem hg, (groupModule_same hhash hg).2 ⟨hmodule, ?_⟩⟩
      exact ((Json.key?_inj (hhash range hr) hmodule).2 hsame).symm.trans hk
  · cases h

/-- What is listed for a module is the sweep of its ranges. -/
theorem timeOf_eq {spans : List Span} {times : List (Json × ℚ)} (h : moduleMs spans = .ok times) (module : Json) :
    timeOf times module
      = sweep (sortedRanges (((spans.filterMap rangeOf).filter (·.1.same module)).map Prod.snd)) := by
  have hlisted := listed_iff h module
  unfold timeOf
  cases hfind : times.find? (·.1.same module) with
  | none =>
    have hnone : (spans.filterMap rangeOf).filter (·.1.same module) = [] := by
      refine List.filter_eq_nil_iff.2 fun range hr hsame => ?_
      obtain ⟨entry, hentry, hes⟩ := hlisted.2 ⟨range, hr, hsame⟩
      exact List.find?_eq_none.1 hfind entry hentry hes
    rw [hnone, List.map_nil, sortedRanges, List.mergeSort_nil]
    rfl
  | some entry =>
    have hentry := List.mem_of_find?_eq_some hfind
    have hsame := List.find?_some hfind
    simp only [moduleMs] at h
    generalize spans.filterMap rangeOf = ranges at h ⊢
    split at h
    · rename_i hall
      have hhash := fun range hr => List.all_eq_true.1 hall range hr
      cases h
      obtain ⟨group, hg, rfl⟩ := List.mem_map.1 hentry
      obtain ⟨hmodule, hk⟩ := (groupModule_same hhash hg).1 hsame
      rw [← filter_key hhash hmodule hk, ← (mem_groupsBy.1 hg).1]
      rfl
    · cases h

open MeasureTheory in
/-- The sweep of the sorted ranges is the measure of what they cover. -/
theorem volume_sortedRanges (ranges : List (ℚ × ℚ)) (hvalid : ∀ range ∈ ranges, range.1 ≤ range.2) :
    volume (cover ((sortedRanges ranges).map fun range => ((range.1 : ℝ), (range.2 : ℝ))))
        = ENNReal.ofReal ((sweep (sortedRanges ranges) : ℚ) : ℝ)
      ∧ 0 ≤ sweep (sortedRanges ranges) := by
  have hmem : ∀ range ∈ sortedRanges ranges, range.1 ≤ range.2 :=
    fun range hr => hvalid range ((List.mergeSort_perm _ _).mem_iff.1 hr)
  constructor
  · rw [sweep_cast]
    refine volume_sweep _ (fun range hr => ?_) ?_
    · obtain ⟨range, hrange, rfl⟩ := List.mem_map.1 hr
      exact Rat.cast_le.2 (hmem range hrange)
    · rw [List.pairwise_map]
      exact (sortedRanges_pairwise ranges).imp fun h => Rat.cast_le.2 h
  · exact sweep_nonneg _ hmem (sortedRanges_pairwise ranges)

open MeasureTheory in
/-- **The time of a module is the measure of what its spans cover.** -/
theorem volume_busy {events : List Json} {result : Aggregate} (h : aggregate texts events = .ok result)
    (module : Json) :
    volume (busy texts events module) = ENNReal.ofReal ((timeOf result.moduleMs module : ℚ) : ℝ)
      ∧ 0 ≤ timeOf result.moduleMs module := by
  obtain ⟨spans, -, hspans, hmodules, -⟩ := aggregate_eq_ok h
  rw [busy_eq hspans module (List.mergeSort_perm _ _), timeOf_eq hmodules]
  refine volume_sortedRanges _ fun range hr => ?_
  obtain ⟨⟨module', s, e⟩, hfilter, rfl⟩ := List.mem_map.1 hr
  obtain ⟨sid, -, -, hs, he⟩ := (mem_ranges hspans).1 (List.mem_of_mem_filter hfilter)
  exact start_le_end hs he

/-! ## §D The order of the events -/

theorem truthy_lastTruthy {members : List Json} {key : String} :
    (lastTruthy members key).truthy = true ↔ ∃ event ∈ members, (field event key).truthy = true := by
  unfold lastTruthy
  cases hf : (members.reverse.map (field · key)).find? Json.truthy with
  | none =>
    refine ⟨fun h => (nomatch h), ?_⟩
    rintro ⟨event, hevent, htruthy⟩
    exact absurd htruthy (List.find?_eq_none.1 hf _ (List.mem_map_of_mem (List.mem_reverse.2 hevent)))
  | some value =>
    have htruthy := List.find?_some hf
    obtain ⟨event, hevent, rfl⟩ := List.mem_map.1 (List.mem_of_find?_eq_some hf)
    exact ⟨fun _ => ⟨event, List.mem_reverse.1 hevent, htruthy⟩, fun _ => htruthy⟩

/-- The module of a span is one that its events name. -/
theorem moduleOf_mem {events : List Json} {sid : String} (h : (moduleOf events sid).truthy = true) :
    ∃ event ∈ events, spanIdOf event = some sid ∧ moduleOf events sid = field event "module" := by
  unfold moduleOf lastTruthy at h ⊢
  cases hf : ((events.filter (spanIdOf · == some sid)).reverse.map (field · "module")).find? Json.truthy with
  | none =>
    rw [hf] at h
    cases h
  | some value =>
    obtain ⟨event, hevent, rfl⟩ := List.mem_map.1 (List.mem_of_find?_eq_some hf)
    obtain ⟨hmem, hsid⟩ := List.mem_filter.1 (List.mem_reverse.1 hevent)
    exact ⟨event, hmem, beq_iff_eq.1 hsid, rfl⟩

theorem spanTime_perm {events events' : List Json} (hperm : events'.Perm events) (sid : String) :
    spanTime texts events' sid = spanTime texts events sid := by
  have hends : ends texts events' sid = ends texts events sid := by
    simp only [ends, hperm.mem_iff]
  have hbegins : begins texts events' sid = begins texts events sid := by
    simp only [begins, hperm.mem_iff]
  rw [spanTime, spanTime, hends, hbegins]

/-- The module of a span that counts has a hash. -/
theorem moduleOf_hashable {events : List Json} {result : Aggregate} (h : aggregate texts events = .ok result)
    {sid : String} {x : ℝ} (hx : x ∈ spanTime texts events sid) (htruthy : (moduleOf events sid).truthy = true) :
    (moduleOf events sid).hashable = true := by
  obtain ⟨spans, -, hspans, hmodules, -⟩ := aggregate_eq_ok h
  obtain ⟨s, e, hs, he, -⟩ := hx
  have hmem := (mem_ranges hspans).2 ⟨sid, rfl, htruthy, hs, he⟩
  simp only [moduleMs] at hmodules
  split at hmodules
  · rename_i hall
    exact List.all_eq_true.1 hall _ hmem
  · cases hmodules

/-- With unambiguous modules, what a module was busy does not depend on the order. -/
theorem busy_subset {events events' : List Json} {result result' : Aggregate} (hperm : events'.Perm events)
    (hone : Unambiguous events) (h : aggregate texts events = .ok result)
    (h' : aggregate texts events' = .ok result') (module : Json) :
    busy texts events' module ⊆ busy texts events module := by
  rintro x ⟨sid, hx', htruthy', hsame⟩
  have hx : x ∈ spanTime texts events sid := spanTime_perm hperm sid ▸ hx'
  obtain ⟨event', hevent', hsid', heq'⟩ := moduleOf_mem htruthy'
  have hmem' := hperm.mem_iff.1 hevent'
  have htruthy : (moduleOf events sid).truthy = true :=
    truthy_lastTruthy.2 ⟨event', List.mem_filter.2 ⟨hmem', beq_iff_eq.2 hsid'⟩, heq' ▸ htruthy'⟩
  obtain ⟨event, hevent, hsid, heq⟩ := moduleOf_mem htruthy
  have hhash := moduleOf_hashable h hx htruthy
  have hhash' := moduleOf_hashable h' hx' htruthy'
  have hboth : (moduleOf events sid).same (moduleOf events' sid) = true := by
    rw [heq, heq']
    exact hone event hevent event' hmem' (hsid.trans hsid'.symm) (by rw [hsid]; rfl) (heq ▸ htruthy)
      (heq' ▸ htruthy')
  refine ⟨sid, hx, htruthy, ?_⟩
  have hmodule := hashable_of_same hhash' hsame
  rw [← Json.key?_inj hhash hmodule, (Json.key?_inj hhash hhash').2 hboth]
  exact (Json.key?_inj hhash' hmodule).2 hsame

theorem Unambiguous.perm {events events' : List Json} (h : Unambiguous events) (hperm : events'.Perm events) :
    Unambiguous events' :=
  fun event hevent event' hevent' => h event (hperm.mem_iff.1 hevent) event' (hperm.mem_iff.1 hevent')

/-! ## §E The answer -/

open MeasureTheory in
/-- **The time of a module is the measure of the union of the intervals of its spans**, and it is listed when one
of them has an interval. The order of the events does not matter when the module of each span is unambiguous.
Only events with a list or a dictionary where a name belongs, or with a duration beyond all floats, are not
aggregated. -/
theorem aggregate_times (texts : Texts) (events : List Json) :
    (match aggregate texts events with
      | .error _ => ∃ event ∈ events, ¬ Usual event
      | .ok result => ∀ module,
        volume (busy texts events module) = ENNReal.ofReal ((timeOf result.moduleMs module : ℚ) : ℝ)
          ∧ 0 ≤ timeOf result.moduleMs module
          ∧ ((∃ entry ∈ result.moduleMs, entry.1.same module = true) ↔ (busy texts events module).Nonempty))
      ∧ ∀ events' : List Json, events'.Perm events → Unambiguous events →
        match aggregate texts events, aggregate texts events' with
        | .ok result, .ok result' => ∀ module, timeOf result.moduleMs module = timeOf result'.moduleMs module
        | _, _ => True := by
  constructor
  · cases hresult : aggregate texts events with
    | error e =>
      by_contra hall
      push Not at hall
      obtain ⟨result, hok⟩ := aggregate_of_usual texts hall
      rw [hresult] at hok
      cases hok
    | ok result =>
      intro module
      obtain ⟨hvolume, hpos⟩ := volume_busy hresult module
      refine ⟨hvolume, hpos, ?_⟩
      obtain ⟨spans, -, hspans, hmodules, -⟩ := aggregate_eq_ok hresult
      rw [listed_iff hmodules]
      constructor
      · rintro ⟨⟨module', s, e⟩, hrange, hsame⟩
        obtain ⟨sid, rfl, htruthy, hs, he⟩ := (mem_ranges hspans).1 hrange
        exact ⟨s, sid, ⟨s, e, hs, he, le_rfl, Rat.cast_le.2 (start_le_end hs he)⟩, htruthy, hsame⟩
      · rintro ⟨x, sid, ⟨s, e, hs, he, -⟩, htruthy, hsame⟩
        exact ⟨_, (mem_ranges hspans).2 ⟨sid, rfl, htruthy, hs, he⟩, hsame⟩
  · intro events' hperm hone
    cases hresult : aggregate texts events with
    | error e => trivial
    | ok result =>
      cases hresult' : aggregate texts events' with
      | error e => trivial
      | ok result' =>
        intro module
        obtain ⟨hvolume, hpos⟩ := volume_busy hresult module
        obtain ⟨hvolume', hpos'⟩ := volume_busy hresult' module
        have hbusy : busy texts events' module = busy texts events module :=
          Set.Subset.antisymm (busy_subset hperm hone hresult hresult' module)
            (busy_subset hperm.symm (hone.perm hperm) hresult' hresult module)
        rw [hbusy, hvolume] at hvolume'
        have hreal := (ENNReal.ofReal_eq_ofReal_iff (Rat.cast_nonneg.2 hpos) (Rat.cast_nonneg.2 hpos')).1 hvolume'
        exact_mod_cast hreal

/-- Two events of one span, the end of which both tell. -/
def twoEvents : List Json :=
  [.object [("timestamp", .string "0001-01-01T00:00:01+00:00"), ("span_id", .string "a"),
      ("module", .string "operations"), ("duration_ms", .float (.finite 250))],
    .object [("timestamp", .string "0001-01-01T00:00:02+00:00"), ("span_id", .string "a"),
      ("module", .string "operations")]]

/-- The times of the two events. -/
def twoTexts : Texts where
  instant := fun s =>
    if s = "0001-01-01T00:00:01+00:00" then some 1000
    else if s = "0001-01-01T00:00:02+00:00" then some 2000 else none
  str := fun _ => ""
  upper := fun s => s

/-- In either order the module has the same time. -/
theorem two_orders : ∃ result result', aggregate twoTexts twoEvents = .ok result
    ∧ aggregate twoTexts twoEvents.reverse = .ok result'
    ∧ ∀ module, timeOf result.moduleMs module = timeOf result'.moduleMs module := by
  have husual : ∀ event ∈ twoEvents, Usual event := by
    intro event hevent
    rcases List.mem_pair.1 hevent with rfl | rfl
    · exact ⟨rfl, rfl, rfl⟩
    · exact ⟨rfl, rfl, rfl⟩
  obtain ⟨result, h⟩ := aggregate_of_usual twoTexts husual
  obtain ⟨result', h'⟩ := aggregate_of_usual twoTexts fun event he => husual event (List.mem_reverse.1 he)
  refine ⟨result, result', h, h', ?_⟩
  have hone : Unambiguous twoEvents := by
    have hmodule : ∀ event ∈ twoEvents, field event "module" = .string "operations" := by
      intro event hevent
      rcases List.mem_pair.1 hevent with rfl | rfl
      · rfl
      · rfl
    intro event hevent event' hevent' _ _ _ _
    rw [hmodule event hevent, hmodule event' hevent']
    simp [Json.same, Json.sameScalar]
  have htimes := (aggregate_times twoTexts twoEvents).2 twoEvents.reverse (List.reverse_perm _) hone
  rw [h, h'] at htimes
  exact htimes

end OpencodeCloud.Observability
