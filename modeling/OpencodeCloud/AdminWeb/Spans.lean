/-
# OpencodeCloud.AdminWeb.Spans -- the tree of a trace

`orderedSpans` puts the spans of a trace into an outline: the spans whose parent is not in the trace, each
with its children below it, in the order of their beginning. What is left over then is in a cycle, and is
shown as well. `visibleSpans` leaves out what lies below a span that is not expanded.

Every span of the trace has one row (`orderedSpans_rows`). A span that descends from a root is shown right
in the subtree of its parent, at its depth in the trace, but for the limit of eight
(`nested_row`), and up to that depth it is visible exactly when all its ancestors are expanded
(`visible_iff_ancestors`).
-/
import Mathlib.Data.Finset.Card
import Mathlib.Data.List.Sort
import Mathlib.Data.Rat.Defs
import OpencodeCloud.Library.Outline

namespace OpencodeCloud.AdminWeb

open OpencodeCloud.Library

/-! ## §A Spans and rows -/

/-- A span, as far as the order depends on it. -/
structure Span where
  spanId : String
  parentSpanId : Option String
  offsetMs : Option ℚ
  deriving DecidableEq

/-- `{ ...span, depth }` -/
structure Row where
  span : Span
  depth : Nat
  deriving DecidableEq

/-- `span.offset_ms ?? Number.MAX_SAFE_INTEGER` -/
def Span.beginning (s : Span) : ℚ := s.offsetMs.getD 9007199254740991

/-- The sort at the beginning; it is stable. -/
def sorted (spans : List Span) : List Span := spans.mergeSort fun a b => decide (a.beginning ≤ b.beginning)

section Order

variable (spans : List Span)

/-- `byId.has(id)` -/
def has (id : String) : Bool := spans.any fun s => s.spanId == id

/-- `children.get(id)` -/
def children (id : String) : List Span :=
  spans.filter fun s => s.parentSpanId == some id && id != "" && has spans id

/-- `!byId.has(span.parent_span_id)` -/
def isRoot (s : Span) : Bool := !s.parentSpanId.any (has spans)

/-- `visited.has(id)`: a span is marked where its row is added. -/
def visited (rows : List Row) (id : String) : Bool := rows.any fun r => r.span.spanId == id

/-- `visit`; every call inside another has added a row, so the depth of the calls is bounded by the number
of spans. -/
def visit : Nat → List Row → Span → Nat → List Row
  | 0, rows, _, _ => rows
  | fuel + 1, rows, s, depth =>
    if visited rows s.spanId then rows
    else
      (children spans s.spanId).foldl (fun rows child => visit fuel rows child (min (depth + 1) 8))
        (rows ++ [⟨s, depth⟩])

/-- The rows below the roots. -/
def rootRows : List Row :=
  (spans.filter (isRoot spans)).foldl (fun rows s => visit spans (spans.length + 1) rows s 0) []

/-- The rows of spans that are sorted already. -/
def allRows : List Row :=
  spans.foldl (fun rows s => visit spans (spans.length + 1) rows s 0) (rootRows spans)

/-- `orderedSpans` -/
def orderedSpans : List Row := allRows (sorted spans)

/-- `visibleSpans` -/
def visibleSpans (expanded : List String) : List Row :=
  Outline.collapse Row.depth (fun r => expanded.contains r.span.spanId) none (orderedSpans spans)

end Order

/-! ## §B One visit -/

section Visit

variable {spans : List Span}

/-- The ids that have a row. -/
def ids (rows : List Row) : List String := rows.map fun r => r.span.spanId

theorem visited_iff {rows : List Row} {id : String} : visited rows id = true ↔ id ∈ ids rows := by
  simp [visited, ids]

@[simp] theorem ids_append (rows more : List Row) : ids (rows ++ more) = ids rows ++ ids more := by
  simp [ids]

/-- The spans without a row. -/
def unseen (spans : List Span) (rows : List Row) : Nat :=
  ((spans.map Span.spanId).toFinset \ (ids rows).toFinset).card

theorem unseen_append (rows more : List Row) : unseen spans (rows ++ more) ≤ unseen spans rows := by
  refine Finset.card_le_card (Finset.sdiff_subset_sdiff (Finset.Subset.refl _) ?_)
  intro id hid
  simp only [List.mem_toFinset, ids_append, List.mem_append] at hid ⊢
  exact Or.inl hid

theorem unseen_lt {rows : List Row} {s : Span} (hs : s ∈ spans) (hnew : s.spanId ∉ ids rows)
    (depth : Nat) : unseen spans (rows ++ [⟨s, depth⟩]) < unseen spans rows := by
  refine Finset.card_lt_card (Finset.ssubset_iff_of_subset ?_ |>.2 ⟨s.spanId, ?_, ?_⟩)
  · refine Finset.sdiff_subset_sdiff (Finset.Subset.refl _) fun id hid => ?_
    simp only [List.mem_toFinset, ids_append, List.mem_append] at hid ⊢
    exact Or.inl hid
  · simp only [Finset.mem_sdiff, List.mem_toFinset]
    exact ⟨List.mem_map_of_mem hs, hnew⟩
  · simp [ids]

/-- A row at depth zero, or right in the subtree of a row of its parent. -/
def Placed (front : List Row) (r : Row) : Prop :=
  r.depth = 0 ∨ ∃ p, r.span.parentSpanId = some p.span.spanId ∧ r.depth = min (p.depth + 1) 8 ∧
    Outline.Below Row.depth front r.depth p

/-- Every row is placed. -/
def Laid (rows : List Row) : Prop := ∀ front r back, rows = front ++ r :: back → Placed front r

theorem Laid.concat {rows : List Row} (h : Laid rows) {r : Row} (hr : Placed rows r) :
    Laid (rows ++ [r]) := by
  intro front x back heq
  rcases List.eq_nil_or_concat back with rfl | ⟨back', y, rfl⟩
  · obtain ⟨rfl, hx⟩ := List.append_inj' heq rfl
    obtain rfl := (List.cons.inj hx).1
    exact hr
  · have hsplit : rows ++ [r] = (front ++ x :: back') ++ [y] := by simpa using heq
    exact h front x back' (List.append_inj' hsplit rfl).1

/-- What a visit adds to the rows. -/
structure Adds (spans : List Span) (rows : List Row) (cs : List Span) (depth : Nat)
    (rows' : List Row) : Prop where
  more : ∃ added, rows' = rows ++ added ∧
    (∀ x ∈ added, x.span ∈ spans ∧ ((∃ c ∈ cs, x = ⟨c, depth⟩) ∨ min (depth + 1) 8 ≤ x.depth)) ∧
    ∀ x ∈ added, ∀ c ∈ children spans x.span.spanId, c.spanId ∈ ids rows'
  seen : ∀ c ∈ cs, c.spanId ∈ ids rows'
  nodup : (ids rows).Nodup → (ids rows').Nodup
  laid : Laid rows → (∀ c ∈ cs, ∀ more, (∀ x ∈ more, depth ≤ x.depth) →
    Placed (rows ++ more) ⟨c, depth⟩) → Laid rows'

theorem Adds.unseen {rows rows' : List Row} {cs : List Span} {depth : Nat}
    (h : Adds spans rows cs depth rows') : unseen spans rows' ≤ unseen spans rows := by
  obtain ⟨added, rfl, _⟩ := h.more
  exact unseen_append rows added

/-- One visit after the other. -/
theorem foldl_adds {step : List Row → Span → List Row} {depth fuel : Nat} (hdepth : depth ≤ 8)
    (hstep : ∀ rows c, c ∈ spans → unseen spans rows ≤ fuel → Adds spans rows [c] depth (step rows c))
    (cs : List Span) (hcs : ∀ c ∈ cs, c ∈ spans) {rows : List Row} (hfuel : unseen spans rows ≤ fuel) :
    Adds spans rows cs depth (cs.foldl step rows) := by
  induction cs generalizing rows with
  | nil =>
    exact ⟨⟨[], by simp, by simp, by simp⟩, by simp, id, fun h _ => h⟩
  | cons c cs ih =>
    rw [List.forall_mem_cons] at hcs
    have hfirst := hstep rows c hcs.1 hfuel
    have hrest := @ih hcs.2 (step rows c) (Nat.le_trans hfirst.unseen hfuel)
    obtain ⟨added, hadded, hown, hclosed⟩ := hfirst.more
    obtain ⟨added', hadded', hown', hclosed'⟩ := hrest.more
    have hdeep : ∀ x ∈ added, depth ≤ x.depth := by
      intro x hx
      rcases (hown x hx).2 with ⟨d, _, rfl⟩ | hge
      · exact Nat.le_refl _
      · omega
    have hlater : ∀ id ∈ ids (step rows c), id ∈ ids (cs.foldl step (step rows c)) := by
      intro id hid
      rw [hadded', ids_append]
      exact List.mem_append_left _ hid
    refine ⟨⟨added ++ added', ?_, fun x hx => ?_, fun x hx d hd => ?_⟩, ?_, ?_, ?_⟩
    · rw [List.foldl_cons, hadded', hadded, List.append_assoc]
    · rcases List.mem_append.1 hx with hx | hx
      · refine ⟨(hown x hx).1, (hown x hx).2.imp_left ?_⟩
        rintro ⟨d, hd, rfl⟩
        exact ⟨d, by rw [List.mem_singleton.1 hd]; exact List.mem_cons_self, rfl⟩
      · refine ⟨(hown' x hx).1, (hown' x hx).2.imp_left ?_⟩
        rintro ⟨d, hd, rfl⟩
        exact ⟨d, List.mem_cons_of_mem _ hd, rfl⟩
    · rcases List.mem_append.1 hx with hx | hx
      · exact hlater _ (hclosed x hx d hd)
      · exact hclosed' x hx d hd
    · rw [List.forall_mem_cons]
      exact ⟨hlater _ (hfirst.seen c List.mem_cons_self), hrest.seen⟩
    · exact fun h => hrest.nodup (hfirst.nodup h)
    · intro hlaid hplaced
      rw [List.forall_mem_cons] at hplaced
      refine hrest.laid (hfirst.laid hlaid fun d hd => ?_) fun d hd more hmore => ?_
      · rw [List.mem_singleton.1 hd]
        exact hplaced.1
      · rw [hadded, List.append_assoc]
        refine hplaced.2 d hd (added ++ more) fun x hx => ?_
        rcases List.mem_append.1 hx with hx | hx
        · exact hdeep x hx
        · exact hmore x hx

theorem mem_children {id : String} {c : Span} (h : c ∈ children spans id) :
    c ∈ spans ∧ c.parentSpanId = some id := by
  simp only [children, List.mem_filter, Bool.and_eq_true, beq_iff_eq] at h
  exact ⟨h.1, h.2.1.1⟩

/-- A span that has a row is left alone. -/
theorem Adds.refl {rows : List Row} {s : Span} {depth : Nat} (h : s.spanId ∈ ids rows) :
    Adds spans rows [s] depth rows where
  more := ⟨[], by simp, by simp, by simp⟩
  seen c hc := by rwa [List.mem_singleton.1 hc]
  nodup := id
  laid h _ := h

/-- A span gets a row, and its children get theirs below it. -/
theorem Adds.push {rows rows' : List Row} {s : Span} {depth : Nat} (hdepth : depth ≤ 8)
    (hs : s ∈ spans) (hnew : s.spanId ∉ ids rows)
    (h : Adds spans (rows ++ [⟨s, depth⟩]) (children spans s.spanId) (min (depth + 1) 8) rows') :
    Adds spans rows [s] depth rows' := by
  obtain ⟨added, rfl, hown, hclosed⟩ := h.more
  have hself : s.spanId ∈ ids (rows ++ [⟨s, depth⟩] ++ added) := by simp [ids]
  refine ⟨⟨⟨s, depth⟩ :: added, by simp, fun x hx => ?_, fun x hx c hc => ?_⟩, ?_, ?_, ?_⟩
  · rcases List.mem_cons.1 hx with rfl | hx
    · exact ⟨hs, Or.inl ⟨s, List.mem_singleton_self s, rfl⟩⟩
    · refine ⟨(hown x hx).1, Or.inr ?_⟩
      rcases (hown x hx).2 with ⟨c, _, rfl⟩ | hge
      · exact Nat.le_refl _
      · omega
  · rcases List.mem_cons.1 hx with rfl | hx
    · exact h.seen c hc
    · exact hclosed x hx c hc
  · intro c hc
    rwa [List.mem_singleton.1 hc]
  · intro hnodup
    refine h.nodup ?_
    rw [ids_append]
    exact List.Nodup.append hnodup (List.nodup_singleton _) (by simpa [ids] using hnew)
  · intro hlaid hplaced
    refine h.laid (hlaid.concat ?_) fun c hc more hmore => Or.inr ⟨⟨s, depth⟩, ?_, rfl, ?_⟩
    · simpa using hplaced s (List.mem_singleton_self s) [] (by simp)
    · exact (mem_children hc).2
    · exact ⟨rows, more, by simp, hmore⟩

/-- **What a visit does**, when the bound on the depth of the calls is large enough. -/
theorem visit_adds {fuel depth : Nat} (hdepth : depth ≤ 8) {rows : List Row} {s : Span} (hs : s ∈ spans)
    (hfuel : unseen spans rows ≤ fuel) :
    Adds spans rows [s] depth (visit spans (fuel + 1) rows s depth) := by
  induction fuel generalizing rows s depth with
  | zero =>
    have hseen : s.spanId ∈ ids rows := by
      by_contra hnew
      have := unseen_lt hs hnew depth
      omega
    rw [visit, if_pos (visited_iff.2 hseen)]
    exact Adds.refl hseen
  | succ fuel ih =>
    rw [visit]
    split
    · next hseen => exact Adds.refl (visited_iff.1 hseen)
    · next hnew =>
      rw [visited_iff] at hnew
      have hless := unseen_lt hs hnew depth
      refine Adds.push hdepth hs hnew (@foldl_adds spans _ _ fuel (by omega) ?_ _
        (fun c hc => (mem_children hc).1) _ (by omega))
      exact fun rows c hc hfuel => ih (by omega) hc hfuel

end Visit

/-! ## §C The whole outline -/

section Outlined

variable {spans : List Span}

theorem unseen_nil : unseen spans [] ≤ spans.length := by
  refine Nat.le_trans (Finset.card_le_card Finset.sdiff_subset) ?_
  exact Nat.le_trans (List.toFinset_card_le _) (by simp)

theorem rootRows_adds : Adds spans [] (spans.filter (isRoot spans)) 0 (rootRows spans) :=
  foldl_adds (Nat.zero_le 8) (fun _ _ hc hfuel => visit_adds (Nat.zero_le 8) hc hfuel) _
    (fun _ hc => (List.mem_filter.1 hc).1) unseen_nil

theorem allRows_adds : Adds spans (rootRows spans) spans 0 (allRows spans) :=
  foldl_adds (Nat.zero_le 8) (fun _ _ hc hfuel => visit_adds (Nat.zero_le 8) hc hfuel) _
    (fun _ hc => hc) (Nat.le_trans rootRows_adds.unseen unseen_nil)

theorem rootRows_laid : Laid (rootRows spans) := by
  refine rootRows_adds.laid ?_ fun _ _ _ _ => Or.inl rfl
  intro front r back heq
  exact absurd heq.symm (by simp)

theorem allRows_laid : Laid (allRows spans) :=
  allRows_adds.laid rootRows_laid fun _ _ _ _ => Or.inl rfl

theorem allRows_nodup : (ids (allRows spans)).Nodup :=
  allRows_adds.nodup (rootRows_adds.nodup List.nodup_nil)

theorem mem_rootRows {r : Row} (h : r ∈ rootRows spans) :
    r.span ∈ spans ∧ (isRoot spans r.span = true ∨ 1 ≤ r.depth) := by
  obtain ⟨added, hadded, hown, _⟩ := (@rootRows_adds spans).more
  rw [hadded, List.nil_append] at h
  refine ⟨(hown r h).1, (hown r h).2.imp ?_ id⟩
  rintro ⟨c, hc, rfl⟩
  exact (List.mem_filter.1 hc).2

theorem rootRows_closed {r : Row} (h : r ∈ rootRows spans) {c : Span}
    (hc : c ∈ children spans r.span.spanId) : c.spanId ∈ ids (rootRows spans) := by
  obtain ⟨added, hadded, _, hclosed⟩ := (@rootRows_adds spans).more
  rw [hadded, List.nil_append] at h
  exact hclosed r h c hc

theorem allRows_extends : ∃ more, allRows spans = rootRows spans ++ more :=
  allRows_adds.more.imp fun _ h => h.1

theorem mem_allRows {r : Row} (h : r ∈ allRows spans) : r.span ∈ spans := by
  obtain ⟨added, hadded, hown, _⟩ := (@allRows_adds spans).more
  rw [hadded] at h
  rcases List.mem_append.1 h with h | h
  · exact (mem_rootRows h).1
  · exact (hown r h).1

/-! ## §D Levels -/

/-- The span is `n` levels below a span whose parent is not in the trace. -/
inductive Nested (spans : List Span) : Nat → Span → Prop
  | root (s : Span) (found : s ∈ spans) (top : isRoot spans s = true) : Nested spans 0 s
  | child (n : Nat) (p s : Span) (above : Nested spans n p) (named : p.spanId ≠ "")
      (found : s ∈ spans) (parent : s.parentSpanId = some p.spanId) : Nested spans (n + 1) s

theorem Nested.mem {n : Nat} {s : Span} (h : Nested spans n s) : s ∈ spans := by
  cases h with
  | root _ found _ => exact found
  | child _ _ _ _ _ found _ => exact found

theorem has_iff {id : String} : has spans id = true ↔ id ∈ spans.map Span.spanId := by
  simp [has]

theorem isRoot_of_parent {s p : Span} (hp : p ∈ spans) (h : s.parentSpanId = some p.spanId) :
    isRoot spans s = false := by
  simp [isRoot, h, has_iff.2 (List.mem_map_of_mem hp)]

theorem mem_children_of {n : Nat} {s p : Span} (hp : Nested spans n p) (hnamed : p.spanId ≠ "")
    (hs : s ∈ spans) (h : s.parentSpanId = some p.spanId) : s ∈ children spans p.spanId := by
  simp [children, hs, h, hnamed, has_iff.2 (List.mem_map_of_mem hp.mem)]

variable (distinct : (spans.map Span.spanId).Nodup)

include distinct

/-- A span is known by its id. -/
theorem span_eq {s t : Span} (hs : s ∈ spans) (ht : t ∈ spans) (h : s.spanId = t.spanId) : s = t :=
  List.inj_on_of_nodup_map distinct hs ht h

/-- The row of a span that has one. -/
theorem row_of_seen {rows : List Row} (hrows : ∀ r ∈ rows, r.span ∈ spans) {s : Span} (hs : s ∈ spans)
    (h : s.spanId ∈ ids rows) : ∃ r ∈ rows, r.span = s := by
  obtain ⟨r, hr, hid⟩ := List.mem_map.1 h
  exact ⟨r, hr, span_eq distinct (hrows r hr) hs hid⟩

/-- **A span that descends from a root is shown at its level**, but for the limit. -/
theorem nested_rootRow {n : Nat} {s : Span} (h : Nested spans n s) :
    ⟨s, min n 8⟩ ∈ rootRows spans := by
  have hspans : ∀ r ∈ rootRows spans, r.span ∈ spans := fun r hr => (mem_rootRows hr).1
  have hplaced : ∀ r ∈ rootRows spans, r.depth = 0 ∨ ∃ p ∈ rootRows spans,
      r.span.parentSpanId = some p.span.spanId ∧ r.depth = min (p.depth + 1) 8 := by
    intro r hr
    obtain ⟨front, back, heq⟩ := List.append_of_mem hr
    refine (rootRows_laid front r back heq).imp_right ?_
    rintro ⟨p, hparent, hdepth, above, between, rfl, _⟩
    exact ⟨p, by rw [heq]; simp, hparent, hdepth⟩
  induction h with
  | root s hs htop =>
    obtain ⟨r, hr, rfl⟩ := row_of_seen distinct hspans hs
      (rootRows_adds.seen s (List.mem_filter.2 ⟨hs, htop⟩))
    rcases hplaced r hr with hzero | ⟨p, hp, hparent, _⟩
    · rw [← show r.depth = min 0 8 from hzero]
      exact hr
    · rw [isRoot_of_parent (hspans p hp) hparent] at htop
      cases htop
  | child n p s habove hnamed hs hparent ih =>
    obtain ⟨r, hr, rfl⟩ := row_of_seen distinct hspans hs
      (rootRows_closed ih (mem_children_of habove hnamed hs hparent))
    rcases hplaced r hr with hzero | ⟨q, hq, hparent', hdepth⟩
    · rcases (mem_rootRows hr).2 with htop | hge
      · rw [isRoot_of_parent habove.mem hparent] at htop
        cases htop
      · omega
    · have hid : q.span.spanId = p.spanId := Option.some.inj (hparent'.symm.trans hparent)
      have hsame : q = ⟨p, min n 8⟩ :=
        List.inj_on_of_nodup_map (rootRows_adds.nodup List.nodup_nil) hq ih hid
      rw [hsame] at hdepth
      have hlevel : r.depth = min (n + 1) 8 := by
        rw [hdepth]
        simp only
        omega
      rw [← hlevel]
      exact hr

/-! ## §E What is visible -/

omit distinct in
/-- `a` is above `s` in the trace. -/
inductive Ancestor (spans : List Span) : Span → Span → Prop
  | parent (p s : Span) (found : p ∈ spans) (parent : s.parentSpanId = some p.spanId) :
    Ancestor spans p s
  | above (a p s : Span) (above : Ancestor spans a p) (found : p ∈ spans)
      (parent : s.parentSpanId = some p.spanId) : Ancestor spans a s

/-- Every ancestor on the first eight levels is open. -/
def OpenAbove (spans : List Span) (isOpen : String → Bool) (s : Span) : Prop :=
  ∀ a m, Ancestor spans a s → Nested spans m a → m < 8 → isOpen a.spanId = true

/-- A span has one level. -/
theorem Nested.unique {n m : Nat} {s : Span} (h : Nested spans n s) (h' : Nested spans m s) :
    n = m := by
  induction h generalizing m with
  | root s hs htop =>
    cases h' with
    | root _ _ _ => rfl
    | child m p _ habove _ _ hparent =>
      rw [isRoot_of_parent habove.mem hparent] at htop
      cases htop
  | child n p s habove _ _ hparent ih =>
    cases h' with
    | root _ _ htop =>
      rw [isRoot_of_parent habove.mem hparent] at htop
      cases htop
    | child m q _ habove' _ _ hparent' =>
      obtain rfl := span_eq distinct habove.mem habove'.mem
        (Option.some.inj (hparent.symm.trans hparent'))
      rw [ih habove']

omit distinct in
theorem openAbove_root {isOpen : String → Bool} {s : Span} (htop : isRoot spans s = true) :
    OpenAbove spans isOpen s := by
  intro a m ha _ _
  cases ha with
  | parent _ hfound hparent =>
    rw [isRoot_of_parent hfound hparent] at htop
    cases htop
  | above p _ _ hfound hparent =>
    rw [isRoot_of_parent hfound hparent] at htop
    cases htop

theorem openAbove_child {isOpen : String → Bool} {n : Nat} {p s : Span} (hp : Nested spans n p)
    (hparent : s.parentSpanId = some p.spanId) :
    OpenAbove spans isOpen s ↔ (n < 8 → isOpen p.spanId = true) ∧ OpenAbove spans isOpen p := by
  constructor
  · intro h
    exact ⟨h p n (.parent p s hp.mem hparent) hp, fun a m ha hm hlt =>
      h a m (.above a p s ha hp.mem hparent) hm hlt⟩
  · rintro ⟨hself, habove⟩ a m ha hm hlt
    cases ha with
    | parent _ hfound hparent' =>
      obtain rfl := span_eq distinct hfound hp.mem (Option.some.inj (hparent'.symm.trans hparent))
      exact hself (hm.unique distinct hp ▸ hlt)
    | above q _ ha hfound hparent' =>
      obtain rfl := span_eq distinct hfound hp.mem (Option.some.inj (hparent'.symm.trans hparent))
      exact habove a m ha hm hlt

/-- **The rows that enclose a row** are those of its ancestors on the first eight levels. -/
theorem enclosed_iff {isOpen : String → Bool} {n : Nat} {s : Span} (h : Nested spans n s)
    {front back : List Row} (heq : allRows spans = front ++ ⟨s, min n 8⟩ :: back) :
    (∀ q, Outline.Encloses Row.depth front (min n 8) q → isOpen q.span.spanId = true) ↔
      OpenAbove spans isOpen s := by
  induction h generalizing front back with
  | root s hs htop =>
    refine ⟨fun _ => openAbove_root htop, fun _ q hq => ?_⟩
    obtain ⟨_, _, _, hlt, _⟩ := hq
    exact absurd hlt (by omega)
  | child n p s habove hnamed hs hparent ih =>
    rw [openAbove_child distinct habove hparent]
    rcases allRows_laid _ _ _ heq with hzero | ⟨q, hparent', hdepth, above, between, rfl, hbetween⟩
    · simp only at hzero
      omega
    · obtain ⟨more, hmore⟩ := @allRows_extends spans
      have hrow : ⟨p, min n 8⟩ ∈ allRows spans := by
        rw [hmore]
        exact List.mem_append_left _ (nested_rootRow distinct habove)
      have hsame : q = ⟨p, min n 8⟩ := by
        refine List.inj_on_of_nodup_map allRows_nodup ?_ hrow
          (Option.some.inj (hparent'.symm.trans hparent))
        rw [heq]
        simp
      subst hsame
      rw [← @ih above (between ++ ⟨s, min (n + 1) 8⟩ :: back) (by rw [heq]; simp)]
      by_cases hn : n < 8
      · have hstep : min (n + 1) 8 = Row.depth ⟨p, min n 8⟩ + 1 := by
          simp only
          omega
        simp only [Outline.encloses_below hstep hbetween]
        constructor
        · intro hall
          exact ⟨fun _ => hall _ (Or.inl rfl), fun q hq => hall q (Or.inr hq)⟩
        · rintro ⟨hself, hothers⟩ q (rfl | hq)
          · exact hself hn
          · exact hothers q hq
      · have hlimit : min (n + 1) 8 = min n 8 := by omega
        have hbeside : ∀ x ∈ (⟨p, min n 8⟩ :: between : List Row), min (n + 1) 8 ≤ x.depth := by
          rw [List.forall_mem_cons]
          exact ⟨Nat.le_of_eq hlimit, hbetween⟩
        rw [hlimit] at hbeside ⊢
        simp only [Outline.encloses_beside hbeside]
        exact ⟨fun hall => ⟨fun hlt => absurd hlt hn, hall⟩, fun h => h.2⟩

end Outlined

/-! ## §F The trace as it comes -/

section Trace

variable {spans : List Span}

theorem mem_sorted {s : Span} : s ∈ sorted spans ↔ s ∈ spans := List.mem_mergeSort

theorem sorted_distinct (h : (spans.map Span.spanId).Nodup) :
    ((sorted spans).map Span.spanId).Nodup :=
  ((List.mergeSort_perm spans _).map Span.spanId).nodup_iff.2 h

theorem has_sorted (id : String) : has (sorted spans) id = has spans id := by
  rw [Bool.eq_iff_iff, has_iff, has_iff, List.mem_map, List.mem_map]
  simp only [mem_sorted]

theorem isRoot_sorted (s : Span) : isRoot (sorted spans) s = isRoot spans s := by
  unfold isRoot
  rw [show has (sorted spans) = has spans from funext has_sorted]

theorem nested_sorted {n : Nat} {s : Span} : Nested (sorted spans) n s ↔ Nested spans n s := by
  constructor
  · intro h
    induction h with
    | root s hs htop => exact .root s (mem_sorted.1 hs) ((isRoot_sorted s).symm.trans htop)
    | child n p s _ hnamed hs hparent ih => exact .child n p s ih hnamed (mem_sorted.1 hs) hparent
  · intro h
    induction h with
    | root s hs htop => exact .root s (mem_sorted.2 hs) ((isRoot_sorted s).trans htop)
    | child n p s _ hnamed hs hparent ih => exact .child n p s ih hnamed (mem_sorted.2 hs) hparent

theorem ancestor_sorted {a s : Span} : Ancestor (sorted spans) a s ↔ Ancestor spans a s := by
  constructor
  · intro h
    induction h with
    | parent s hp hparent => exact .parent _ s (mem_sorted.1 hp) hparent
    | above p s _ hp hparent ih => exact .above _ p s ih (mem_sorted.1 hp) hparent
  · intro h
    induction h with
    | parent s hp hparent => exact .parent _ s (mem_sorted.2 hp) hparent
    | above p s _ hp hparent ih => exact .above _ p s ih (mem_sorted.2 hp) hparent

/-- **Every span of the trace has one row**, also in a cycle, and nothing else has one. -/
theorem orderedSpans_rows (spans : List Span) :
    (ids (orderedSpans spans)).Nodup ∧ (∀ r ∈ orderedSpans spans, r.span ∈ spans) ∧
      ∀ s ∈ spans, s.spanId ∈ ids (orderedSpans spans) :=
  ⟨allRows_nodup, fun _ hr => mem_sorted.1 (mem_allRows hr), fun s hs =>
    allRows_adds.seen s (mem_sorted.2 hs)⟩

/-- **A span is visible exactly when its ancestors on the first eight levels are expanded.** For a trace
whose spans have different ids, and a span that descends from one whose parent is not in the trace. -/
theorem visible_iff_ancestors (distinct : (spans.map Span.spanId).Nodup) {n : Nat} {s : Span}
    (h : Nested spans n s) (expanded : List String) :
    (∃ r ∈ visibleSpans spans expanded, r.span = s) ↔
      ∀ a m, Ancestor spans a s → Nested spans m a → m < 8 → a.spanId ∈ expanded := by
  have hdistinct := sorted_distinct distinct
  have hnested := nested_sorted.2 h
  obtain ⟨more, hmore⟩ := @allRows_extends (sorted spans)
  have hrow : (⟨s, min n 8⟩ : Row) ∈ allRows (sorted spans) := by
    rw [hmore]
    exact List.mem_append_left _ (nested_rootRow hdistinct hnested)
  obtain ⟨front, back, heq⟩ := List.append_of_mem hrow
  have hrows : (allRows (sorted spans)).Nodup := List.Nodup.of_map _ allRows_nodup
  have hopen := @enclosed_iff _ hdistinct expanded.contains _ _ hnested _ _ heq
  have hone : (∃ r ∈ visibleSpans spans expanded, r.span = s) ↔
      (⟨s, min n 8⟩ : Row) ∈ visibleSpans spans expanded := by
    constructor
    · rintro ⟨r, hr, rfl⟩
      have hmem : r ∈ allRows (sorted spans) := (Outline.collapse_sublist _ _).subset hr
      rwa [← List.inj_on_of_nodup_map allRows_nodup hmem hrow rfl]
    · exact fun hr => ⟨_, hr, rfl⟩
  rw [hone, visibleSpans, orderedSpans, heq, Outline.mem_collapse_iff (heq ▸ hrows)]
  refine hopen.trans ?_
  unfold OpenAbove
  simp only [ancestor_sorted, nested_sorted, List.contains_iff_mem]

/-- A call, what it waits for, and a span below that. -/
def nestedTrace : List Span :=
  [⟨"leaf", some "middle", some 2⟩, ⟨"top", some "elsewhere", some 0⟩, ⟨"middle", some "top", some 1⟩]

theorem visible_iff_ancestors_when_expanded :
    (∃ r ∈ visibleSpans nestedTrace ["top"], r.span = ⟨"leaf", some "middle", some 2⟩) ↔
      ∀ a m, Ancestor nestedTrace a ⟨"leaf", some "middle", some 2⟩ → Nested nestedTrace m a → m < 8 →
        a.spanId ∈ ["top"] := by
  have htop : Nested nestedTrace 0 ⟨"top", some "elsewhere", some 0⟩ :=
    .root _ (by simp [nestedTrace]) (by decide)
  have hmiddle : Nested nestedTrace 1 ⟨"middle", some "top", some 1⟩ :=
    .child 0 _ _ htop (by decide) (by simp [nestedTrace]) rfl
  have hleaf : Nested nestedTrace 2 ⟨"leaf", some "middle", some 2⟩ :=
    .child 1 _ _ hmiddle (by decide) (by simp [nestedTrace]) rfl
  exact visible_iff_ancestors (by decide) hleaf ["top"]

end Trace

end OpencodeCloud.AdminWeb
