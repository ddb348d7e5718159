/-
# OpencodeCloud.Observability.Tree -- the spans of a trace are a forest

Whatever the events say of parents, `aggregate` makes a forest of the spans: each span is a root or the child of
one other span, the one that it has recorded as its parent, and it is found below a root (`aggregate_forest`).
Where the chain of recorded parents has no end, on a cycle or on the way into one, the span is a root that is
marked as such.
-/
import OpencodeCloud.Observability.Aggregate

namespace OpencodeCloud.Observability

open OpencodeCloud.Library

/-! ## §A Forests -/

/-- A span is found below another one. -/
inductive Below (spans : List Span) (root : String) : String → Prop
  | here : Below spans root root
  | child (parent : Span) {sid : String} (above : Below spans root parent.spanId) (mem : parent ∈ spans)
      (is : sid ∈ parent.children) : Below spans root sid

/-- The spans are a forest, made of the parents that they have recorded. -/
structure Forest (spans : List Span) (roots : List String) : Prop where
  /-- Each span is in one place: among the roots or among the children of one span. -/
  once : (roots ++ spans.flatMap Span.children).Perm (spans.map Span.spanId)
  nodup : (spans.map Span.spanId).Nodup
  reachable : ∀ span ∈ spans, ∃ root ∈ roots, Below spans root span.spanId
  recorded : ∀ parent ∈ spans, ∀ sid ∈ parent.children,
    ∃ span ∈ spans, span.spanId = sid ∧ span.parentSpanId = .string parent.spanId
  broken : ∀ span ∈ spans, span.cycleBroken = true ↔ Endless (parentId spans) span.spanId
  external : ∀ span ∈ spans, span.externalParent = true ↔
    span.parentSpanId.truthy = true ∧ ∀ parent ∈ spans, span.parentSpanId ≠ .string parent.spanId

section Ids

variable {spans : List Span}

theorem eq_of_spanId (hnodup : (spans.map Span.spanId).Nodup) {a b : Span} (ha : a ∈ spans) (hb : b ∈ spans)
    (h : a.spanId = b.spanId) : a = b :=
  List.inj_on_of_nodup_map hnodup ha hb h

theorem find?_spanId (hnodup : (spans.map Span.spanId).Nodup) {span : Span} (h : span ∈ spans) :
    spans.find? (·.spanId == span.spanId) = some span := by
  cases hf : spans.find? (·.spanId == span.spanId) with
  | none => exact absurd (beq_self_eq_true span.spanId) (List.find?_eq_none.1 hf span h)
  | some found =>
    have hid : found.spanId = span.spanId := by simpa using List.find?_some hf
    rw [eq_of_spanId hnodup (List.mem_of_find?_eq_some hf) h hid]

theorem byId_eq_some (hnodup : (spans.map Span.spanId).Nodup) {key : Json} {span : Span} :
    byId spans key = some span ↔ span ∈ spans ∧ key = .string span.spanId := by
  refine ⟨byId_mem, ?_⟩
  rintro ⟨h, rfl⟩
  exact find?_spanId hnodup h

/-- The parent that the chain of a span goes on with. -/
theorem parentId_eq_some (hnodup : (spans.map Span.spanId).Nodup) {sid pid : String} :
    parentId spans sid = some pid ↔
      ∃ span ∈ spans, span.spanId = sid ∧ span.parentSpanId = .string pid
        ∧ ∃ parent ∈ spans, parent.spanId = pid := by
  unfold parentId
  constructor
  · intro h
    obtain ⟨span, hs, h⟩ := Option.bind_eq_some_iff.1 h
    obtain ⟨parent, hp, rfl⟩ := Option.map_eq_some_iff.1 h
    obtain ⟨hmem, hkey⟩ := byId_mem hp
    exact ⟨span, List.mem_of_find?_eq_some hs, by simpa using List.find?_some hs, hkey, parent, hmem, rfl⟩
  · rintro ⟨span, hs, rfl, hkey, parent, hp, rfl⟩
    rw [find?_spanId hnodup hs, Option.bind_some, hkey, (byId_eq_some hnodup).2 ⟨hp, rfl⟩]
    rfl

/-- The chains depend on the identifiers and the recorded parents only. -/
theorem parentId_congr {spans' : List Span} (hnodup : (spans.map Span.spanId).Nodup)
    (hperm : (spans'.map fun s => (s.spanId, s.parentSpanId)).Perm (spans.map fun s => (s.spanId, s.parentSpanId))) :
    parentId spans' = parentId spans := by
  have hids : (spans'.map Span.spanId).Perm (spans.map Span.spanId) := by
    have h := hperm.map Prod.fst
    rw [List.map_map, List.map_map] at h
    exact h
  have hnodup' := hids.nodup_iff.2 hnodup
  have hpair : ∀ sid key, (∃ span ∈ spans', span.spanId = sid ∧ span.parentSpanId = key) ↔
      ∃ span ∈ spans, span.spanId = sid ∧ span.parentSpanId = key := by
    intro sid key
    have h := hperm.mem_iff (a := (sid, key))
    simpa only [List.mem_map, Prod.mk.injEq] using h
  have hid : ∀ pid, (∃ span ∈ spans', span.spanId = pid) ↔ ∃ span ∈ spans, span.spanId = pid := by
    intro pid
    have h := hids.mem_iff (a := pid)
    simpa only [List.mem_map] using h
  funext sid
  refine Option.ext fun pid => ?_
  have hiff := hpair sid (.string pid)
  show parentId spans' sid = some pid ↔ parentId spans sid = some pid
  rw [parentId_eq_some hnodup', parentId_eq_some hnodup]
  constructor
  · rintro ⟨span, hs, h1, h2, hp⟩
    obtain ⟨span', hs', h1', h2'⟩ := hiff.1 ⟨span, hs, h1, h2⟩
    exact ⟨span', hs', h1', h2', (hid pid).1 hp⟩
  · rintro ⟨span, hs, h1, h2, hp⟩
    obtain ⟨span', hs', h1', h2'⟩ := hiff.2 ⟨span, hs, h1, h2⟩
    exact ⟨span', hs', h1', h2', (hid pid).2 hp⟩

end Ids

/-! ## §B The loop over the spans -/

section Tree

variable {spans : List Span}

/-- **The walk finds the chains without an end.** -/
theorem cycle_iff (span : Span) : cycle spans span = true ↔ Endless (parentId spans) span.spanId := by
  refine walk_iff (fun v hv => ⟨0, ?_⟩) (Finset.mem_singleton_self _)
  rw [Finset.mem_singleton.1 hv]
  rfl

/-- The span as the loop leaves it. -/
def placed (spans : List Span) (span : Span) : Span :=
  { span with
    externalParent := span.parentSpanId.truthy && (byId spans span.parentSpanId).isNone
    cycleBroken := cycle spans span
    children := (spans.filter fun child =>
      isChild spans child && child.parentSpanId.same (.string span.spanId)).map Span.spanId }

theorem treeOf_eq_ok {tree : List Span} {roots : List String} (h : treeOf spans = .ok (tree, roots)) :
    tree = spans.map (placed spans) ∧ roots = (spans.filter (!isChild spans ·)).map Span.spanId := by
  unfold treeOf at h
  split at h
  · cases h
    exact ⟨rfl, rfl⟩
  · cases h

theorem same_string {key : Json} {sid : String} : key.same (.string sid) = true ↔ key = .string sid := by
  cases key with
  | float x => cases x <;> simp [Json.same, Json.sameScalar, Json.number?]
  | _ => simp [Json.same, Json.sameScalar, Json.number?]

theorem mem_children {parent : Span} {sid : String} :
    sid ∈ (placed spans parent).children ↔
      ∃ span ∈ spans, isChild spans span = true ∧ span.parentSpanId = .string parent.spanId ∧ span.spanId = sid := by
  simp only [placed, List.mem_map, List.mem_filter, Bool.and_eq_true, same_string]
  constructor
  · rintro ⟨span, ⟨hs, hc, hp⟩, rfl⟩
    exact ⟨span, hs, hc, hp, rfl⟩
  · rintro ⟨span, hs, hc, hp, rfl⟩
    exact ⟨span, ⟨hs, hc, hp⟩, rfl⟩

theorem isChild_iff (hnodup : (spans.map Span.spanId).Nodup) {span : Span} :
    isChild spans span = true ↔
      (∃ parent ∈ spans, span.parentSpanId = .string parent.spanId) ∧ Ends (parentId spans) span.spanId := by
  rw [isChild, Bool.and_eq_true, Bool.not_eq_true', Option.isSome_iff_exists, ← Bool.not_eq_true, cycle_iff,
    not_endless_iff]
  refine and_congr_left fun _ => exists_congr fun parent => ?_
  rw [byId_eq_some hnodup]

/-- A span whose chain ends is below a root. -/
theorem below_root (hnodup : (spans.map Span.spanId).Nodup) {sid : String} (h : Ends (parentId spans) sid) :
    ∀ span ∈ spans, span.spanId = sid →
      ∃ root ∈ (spans.filter (!isChild spans ·)).map Span.spanId, Below (spans.map (placed spans)) root sid := by
  have hroot : ∀ span ∈ spans, isChild spans span = false →
      ∃ root ∈ (spans.filter (!isChild spans ·)).map Span.spanId,
        Below (spans.map (placed spans)) root span.spanId := by
    intro span hs hc
    exact ⟨span.spanId, List.mem_map_of_mem (List.mem_filter.2 ⟨hs, by rw [hc]; rfl⟩), .here⟩
  induction h with
  | here hnone =>
    rintro span hs rfl
    refine hroot span hs ?_
    rw [isChild, Bool.and_eq_false_iff]
    refine Or.inl ?_
    cases hb : byId spans span.parentSpanId with
    | none => rfl
    | some parent =>
      rw [parentId, find?_spanId hnodup hs, Option.bind_some, hb] at hnone
      cases hnone
  | there hnext rest ih =>
    rintro span hs rfl
    obtain ⟨span', hs', hid, hkey, parent, hp, rfl⟩ := (parentId_eq_some hnodup).1 hnext
    obtain rfl := eq_of_spanId hnodup hs' hs hid
    obtain ⟨root, hr, hbelow⟩ := ih parent hp rfl
    have hchild : isChild spans span' = true :=
      (isChild_iff hnodup).2 ⟨⟨parent, hp, hkey⟩, .there hnext rest⟩
    exact ⟨root, hr, .child (placed spans parent) hbelow (List.mem_map_of_mem hp)
      (mem_children.2 ⟨span', hs', hchild, hkey, rfl⟩)⟩

theorem spanIds_placed : (spans.map (placed spans)).map Span.spanId = spans.map Span.spanId := by
  rw [List.map_map]
  rfl

/-- Each span is in one place. -/
theorem placed_once (hnodup : (spans.map Span.spanId).Nodup) :
    ((spans.filter (!isChild spans ·)).map Span.spanId ++ (spans.map (placed spans)).flatMap Span.children).Perm
      (spans.map Span.spanId) := by
  have hids : ∀ p : Span → Bool, ((spans.filter p).map Span.spanId).Nodup := fun p =>
    hnodup.sublist (List.filter_sublist.map Span.spanId)
  have hchildren : ((spans.map (placed spans)).flatMap Span.children).Nodup := by
    rw [List.nodup_flatMap]
    refine ⟨?_, ?_⟩
    · intro parent hp
      obtain ⟨parent, -, rfl⟩ := List.mem_map.1 hp
      exact hids _
    · rw [List.pairwise_map]
      have hpair : spans.Pairwise fun a b => a.spanId ≠ b.spanId := List.pairwise_map.1 hnodup
      refine hpair.imp fun hne => ?_
      rw [Function.onFun, List.disjoint_left]
      intro sid ha hb
      obtain ⟨a, hma, -, hka, rfl⟩ := mem_children.1 ha
      obtain ⟨b, hmb, -, hkb, hid⟩ := mem_children.1 hb
      obtain rfl := eq_of_spanId hnodup hmb hma hid
      rw [hka, Json.string.injEq] at hkb
      exact hne hkb
  refine (List.perm_ext_iff_of_nodup (List.nodup_append.2 ⟨hids _, hchildren, ?_⟩) hnodup).2 fun sid => ?_
  · rintro sid hroot child hchild rfl
    obtain ⟨span, hspan, rfl⟩ := List.mem_map.1 hroot
    obtain ⟨hs, hnot⟩ := List.mem_filter.1 hspan
    obtain ⟨parent, hp, hmem⟩ := List.mem_flatMap.1 hchild
    obtain ⟨parent, -, rfl⟩ := List.mem_map.1 hp
    obtain ⟨span', hs', hc, -, hid⟩ := mem_children.1 hmem
    obtain rfl := eq_of_spanId hnodup hs' hs hid
    rw [hc] at hnot
    cases hnot
  · rw [List.mem_append, List.mem_map, List.mem_flatMap, List.mem_map]
    constructor
    · rintro (⟨span, hspan, rfl⟩ | ⟨parent, hp, hmem⟩)
      · exact ⟨span, List.mem_of_mem_filter hspan, rfl⟩
      · obtain ⟨parent, -, rfl⟩ := List.mem_map.1 hp
        obtain ⟨span, hs, -, -, rfl⟩ := mem_children.1 hmem
        exact ⟨span, hs, rfl⟩
    · rintro ⟨span, hs, rfl⟩
      by_cases hc : isChild spans span = true
      · obtain ⟨⟨parent, hp, hkey⟩, -⟩ := (isChild_iff hnodup).1 hc
        exact Or.inr ⟨placed spans parent, List.mem_map_of_mem hp, mem_children.2 ⟨span, hs, hc, hkey, rfl⟩⟩
      · exact Or.inl ⟨span, List.mem_filter.2 ⟨hs, by simpa using hc⟩, rfl⟩

/-- **The loop makes a forest.** -/
theorem forest_placed (hnodup : (spans.map Span.spanId).Nodup) :
    Forest (spans.map (placed spans)) ((spans.filter (!isChild spans ·)).map Span.spanId) := by
  have hchains : parentId (spans.map (placed spans)) = parentId spans := by
    refine parentId_congr hnodup ?_
    rw [List.map_map]
    rfl
  refine ⟨?_, ?_, ?_, ?_, ?_, ?_⟩
  · rw [spanIds_placed]
    exact placed_once hnodup
  · rw [spanIds_placed]
    exact hnodup
  · intro span hspan
    obtain ⟨span, hs, rfl⟩ := List.mem_map.1 hspan
    by_cases hends : Ends (parentId spans) span.spanId
    · exact below_root hnodup hends span hs rfl
    · refine ⟨span.spanId, List.mem_map_of_mem (List.mem_filter.2 ⟨hs, ?_⟩), .here⟩
      rw [Bool.not_eq_true', ← Bool.not_eq_true, isChild_iff hnodup]
      exact fun h => hends h.2
  · intro parent hparent sid hsid
    obtain ⟨parent, hp, rfl⟩ := List.mem_map.1 hparent
    obtain ⟨span, hs, -, hkey, rfl⟩ := mem_children.1 hsid
    exact ⟨placed spans span, List.mem_map_of_mem hs, rfl, hkey⟩
  · intro span hspan
    obtain ⟨span, hs, rfl⟩ := List.mem_map.1 hspan
    rw [hchains]
    exact cycle_iff span
  · intro span hspan
    obtain ⟨span, hs, rfl⟩ := List.mem_map.1 hspan
    show (span.parentSpanId.truthy && (byId spans span.parentSpanId).isNone) = true ↔ _
    rw [Bool.and_eq_true, Option.isNone_iff_eq_none]
    refine and_congr_right fun _ => ?_
    constructor
    · intro hnone parent hparent hkey
      obtain ⟨parent, hp, rfl⟩ := List.mem_map.1 hparent
      have hsome : byId spans span.parentSpanId = some parent := (byId_eq_some hnodup).2 ⟨hp, hkey⟩
      rw [hnone] at hsome
      cases hsome
    · intro hall
      by_contra hsome
      obtain ⟨parent, hp⟩ := Option.ne_none_iff_exists'.1 hsome
      obtain ⟨hp, hkey⟩ := byId_mem hp
      exact hall (placed spans parent) (List.mem_map_of_mem hp) hkey

end Tree

/-! ## §C The answer -/

theorem Below.arranged {spans spans' : List Span} {root sid : String} (h : Below spans root sid)
    (offset : Span → Option ℚ) (hmem : ∀ span ∈ spans, { span with offsetMs := offset span } ∈ spans') :
    Below spans' root sid := by
  induction h with
  | here => exact .here
  | child parent above mem is ih => exact .child { parent with offsetMs := offset parent } ih (hmem parent mem) is

/-- A forest stays one when its spans are put in another order and get their offsets. -/
theorem Forest.arranged {spans spans' : List Span} {roots : List String} (h : Forest spans roots)
    (hperm : spans'.Perm spans) (offset : Span → Option ℚ) :
    Forest (spans'.map fun span => { span with offsetMs := offset span }) roots := by
  have hids : ((spans'.map fun span => { span with offsetMs := offset span }).map Span.spanId).Perm
      (spans.map Span.spanId) := by
    rw [List.map_map]
    exact hperm.map _
  have hmem : ∀ span ∈ spans, { span with offsetMs := offset span }
      ∈ spans'.map fun span => { span with offsetMs := offset span } :=
    fun span hs => List.mem_map_of_mem (hperm.mem_iff.2 hs)
  have hof : ∀ span ∈ spans'.map fun span => { span with offsetMs := offset span },
      ∃ span₀ ∈ spans, span = { span₀ with offsetMs := offset span₀ } := by
    intro span hs
    obtain ⟨span₀, hs₀, rfl⟩ := List.mem_map.1 hs
    exact ⟨span₀, hperm.mem_iff.1 hs₀, rfl⟩
  have hchains : parentId (spans'.map fun span => { span with offsetMs := offset span }) = parentId spans := by
    refine parentId_congr h.nodup ?_
    rw [List.map_map]
    exact hperm.map _
  refine ⟨?_, hids.nodup_iff.2 h.nodup, ?_, ?_, ?_, ?_⟩
  · have hchildren : ((spans'.map fun span => { span with offsetMs := offset span }).flatMap Span.children).Perm
        (spans.flatMap Span.children) := by
      rw [List.flatMap_map]
      exact hperm.flatMap_right _
    exact ((hchildren.append_left roots).trans h.once).trans hids.symm
  · intro span hspan
    obtain ⟨span, hs, rfl⟩ := hof span hspan
    obtain ⟨root, hroot, hbelow⟩ := h.reachable span hs
    exact ⟨root, hroot, hbelow.arranged offset hmem⟩
  · intro parent hparent sid hsid
    obtain ⟨parent, hp, rfl⟩ := hof parent hparent
    obtain ⟨span, hs, hid, hkey⟩ := h.recorded parent hp sid hsid
    exact ⟨_, hmem span hs, hid, hkey⟩
  · intro span hspan
    obtain ⟨span, hs, rfl⟩ := hof span hspan
    rw [hchains]
    exact h.broken span hs
  · intro span hspan
    obtain ⟨span, hs, rfl⟩ := hof span hspan
    refine (h.external span hs).trans (and_congr_right fun _ => ?_)
    constructor
    · intro hall parent hparent
      obtain ⟨parent, hp, rfl⟩ := hof parent hparent
      exact hall parent hp
    · intro hall parent hp
      exact hall { parent with offsetMs := offset parent } (hmem parent hp)

/-- **The spans of a trace are a forest**, one for each identifier among the events. The recorded parent of a
span is that of the latest of its events. Only events with a list or a dictionary where a name belongs, or with a
duration beyond all floats, are not aggregated. -/
theorem aggregate_forest (texts : Texts) (events : List Json) :
    match aggregate texts events with
    | .error _ => ∃ event ∈ events, ¬ Usual event
    | .ok result =>
      Forest result.spans result.roots
        ∧ (∀ sid, sid ∈ result.spans.map Span.spanId ↔ ∃ event ∈ events, spanIdOf event = some sid)
        ∧ ∀ span ∈ result.spans, span.parentSpanId
          = field (latestOf texts (events.filter (spanIdOf · == some span.spanId))) "parent_span_id" := by
  cases hresult : aggregate texts events with
  | error e =>
    by_contra hall
    push Not at hall
    obtain ⟨result, hok⟩ := aggregate_of_usual texts hall
    rw [hresult] at hok
    cases hok
  | ok result =>
    obtain ⟨spans, tree, hspans, -, htree, offset, hfinal⟩ := aggregate_eq_ok hresult
    obtain ⟨hids, hdesc⟩ := spans_of_groups hspans
    obtain ⟨rfl, hroots⟩ := treeOf_eq_ok htree
    have hnodup : (spans.map Span.spanId).Nodup := by
      rw [hids]
      exact groupsBy_nodup _ _
    have hperm : (sortedSpans (spans.map (placed spans))).Perm (spans.map (placed spans)) :=
      List.mergeSort_perm _ _
    have hforest := (forest_placed hnodup).arranged hperm offset
    rw [← hfinal, ← hroots] at hforest
    have hperm' : (result.spans.map fun s => (s.spanId, s.parentSpanId)).Perm
        (spans.map fun s => (s.spanId, s.parentSpanId)) := by
      have h := hperm.map fun s => (s.spanId, s.parentSpanId)
      rw [List.map_map] at h
      rw [hfinal, List.map_map]
      exact h
    refine ⟨hforest, fun sid => ?_, fun span hspan => ?_⟩
    · have h := hperm'.map Prod.fst
      rw [List.map_map, List.map_map] at h
      rw [show result.spans.map Span.spanId = result.spans.map (Prod.fst ∘ fun s => (s.spanId, s.parentSpanId))
        from rfl, h.mem_iff, show spans.map (Prod.fst ∘ fun s => (s.spanId, s.parentSpanId))
        = spans.map Span.spanId from rfl, hids, mem_keys_groupsBy]
    · have h := hperm'.mem_iff.1 (List.mem_map_of_mem hspan)
      obtain ⟨span₀, hs₀, heq⟩ := List.mem_map.1 h
      rw [Prod.mk.injEq] at heq
      rw [← heq.2, ← heq.1]
      exact (hdesc span₀ hs₀).1.parentSpanId

end OpencodeCloud.Observability
