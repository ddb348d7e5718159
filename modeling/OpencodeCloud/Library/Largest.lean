/-
# OpencodeCloud.Library.Largest -- the largest elements of a stream in a bounded heap

A heap of at most `limit` elements takes the elements of a stream one by one. While there is room an element
is pushed; when there is none it replaces the least one, if it is larger. Elements are compared by a key that
no two of them share. At the end the heap holds the first `limit` elements of the sorted stream
(`descending_keepLargest`).

A heap is given as its elements in ascending order: the least one is its head. How the elements are arranged
behind the head is not said anywhere.
-/
import Mathlib.Data.List.Sort
import Mathlib.Order.Basic

namespace OpencodeCloud.Library

section Largest

variable {α κ : Type*} [LinearOrder κ] (key : α → κ)

/-- `heapq.heappush(heap, a)` -/
def heappush (heap : List α) (a : α) : List α := heap.orderedInsert (fun x y => key x ≤ key y) a

/-- `heapq.heapreplace(heap, a)`: the least element goes. -/
def heapreplace (heap : List α) (a : α) : List α := heappush key heap.tail a

/-- One element of the stream. -/
def keepLargest (limit : ℕ) (heap : List α) (a : α) : List α :=
  if heap.length < limit then heappush key heap a
  else
    match heap.head? with
    | some least => if key least < key a then heapreplace key heap a else heap
    | none => heap

/-- The largest first. -/
def descending (elements : List α) : List α := elements.mergeSort fun x y => decide (key y ≤ key x)

/-- What the heap is when `seen` has passed: its elements are larger than those that it let go, and it let
none go before it was full. -/
structure Largest (limit : ℕ) (seen heap : List α) : Prop where
  ascending : heap.Pairwise (key · < key ·)
  bounded : heap.length ≤ limit
  rest : ∃ gone, (heap ++ gone).Perm seen ∧ (∀ x ∈ gone, ∀ y ∈ heap, key x < key y)
    ∧ (gone ≠ [] → heap.length = limit)

variable {key}

variable (key) in
theorem heappush_perm (heap : List α) (a : α) : (heappush key heap a).Perm (a :: heap) :=
  List.perm_orderedInsert _ a heap

theorem heappush_ascending {heap : List α} {a : α} (h : heap.Pairwise (key · < key ·))
    (hnew : ∀ x ∈ heap, key x ≠ key a) : (heappush key heap a).Pairwise (key · < key ·) := by
  induction heap with
  | nil => simp [heappush]
  | cons x heap ih =>
    obtain ⟨hx, hrest⟩ := List.pairwise_cons.1 h
    have hne := hnew x List.mem_cons_self
    unfold heappush
    rw [List.orderedInsert]
    split
    · rename_i hle
      have hlt := lt_of_le_of_ne hle (Ne.symm hne)
      refine List.pairwise_cons.2 ⟨fun y hy => ?_, h⟩
      rcases List.mem_cons.1 hy with rfl | hy
      · exact hlt
      · exact hlt.trans (hx y hy)
    · rename_i hle
      refine List.pairwise_cons.2 ⟨fun y hy => ?_, ih hrest fun y hy => hnew y (List.mem_cons_of_mem _ hy)⟩
      rcases List.mem_cons.1 ((heappush_perm key heap a).mem_iff.1 hy) with rfl | hy
      · exact not_le.1 hle
      · exact hx y hy

theorem Largest.nil (limit : ℕ) : Largest key limit [] [] :=
  ⟨List.Pairwise.nil, Nat.zero_le _, [], List.Perm.nil, nofun, fun h => absurd rfl h⟩

/-- **The next element** keeps the heap the largest of what has passed. -/
theorem Largest.step {limit : ℕ} {seen heap : List α} {a : α} (h : Largest key limit seen heap)
    (hlimit : 1 ≤ limit) (hnew : ∀ x ∈ seen, key x ≠ key a) :
    Largest key limit (seen ++ [a]) (keepLargest key limit heap a) := by
  obtain ⟨hasc, hbound, gone, hperm, hgone, hfull⟩ := h
  have hnew' : ∀ x ∈ heap, key x ≠ key a := fun x hx => hnew x (hperm.mem_iff.1 (List.mem_append_left _ hx))
  unfold keepLargest
  split
  · rename_i hroom
    have hnone : gone = [] := by
      by_contra hne
      exact absurd (hfull hne) (Nat.ne_of_lt hroom)
    subst hnone
    refine ⟨heappush_ascending hasc hnew', ?_, [], ?_, nofun, fun h => absurd rfl h⟩
    · rw [(heappush_perm key heap a).length_eq, List.length_cons]
      omega
    · rw [List.append_nil] at hperm ⊢
      exact (heappush_perm key heap a).trans ((hperm.cons a).trans (List.perm_append_singleton a seen).symm)
  · rename_i hroom
    cases heap with
    | nil => exact absurd hlimit hroom
    | cons least heap =>
      obtain ⟨hleast, hrest⟩ := List.pairwise_cons.1 hasc
      have hlen : (least :: heap).length = limit := le_antisymm hbound (not_lt.1 hroom)
      simp only [List.head?_cons]
      split
      · rename_i hlt
        have hpush := heappush_perm key heap a
        refine ⟨heappush_ascending hrest fun x hx => hnew' x (List.mem_cons_of_mem _ hx), ?_,
          least :: gone, ?_, ?_, fun _ => ?_⟩
        · rw [heapreplace, List.tail_cons, hpush.length_eq, List.length_cons]
          exact hbound
        · have hswap : (heappush key heap a ++ least :: gone).Perm (a :: (least :: heap ++ gone)) :=
            (hpush.append_right _).trans (List.perm_middle.cons a)
          exact hswap.trans ((hperm.cons a).trans (List.perm_append_singleton a seen).symm)
        · intro x hx y hy
          have hy' := List.mem_cons.1 (hpush.mem_iff.1 hy)
          have hxl : key x ≤ key least := by
            rcases List.mem_cons.1 hx with rfl | hx
            · exact le_rfl
            · exact (hgone x hx least List.mem_cons_self).le
          rcases hy' with rfl | hy'
          · exact lt_of_le_of_lt hxl hlt
          · exact lt_of_le_of_lt hxl (hleast y hy')
        · rw [heapreplace, List.tail_cons, hpush.length_eq, List.length_cons]
          exact hlen
      · rename_i hlt
        have hless : key a < key least := lt_of_le_of_ne (not_lt.1 hlt) (hnew' least List.mem_cons_self).symm
        refine ⟨hasc, hbound, a :: gone, ?_, ?_, fun _ => hlen⟩
        · exact List.perm_middle.trans ((hperm.cons a).trans (List.perm_append_singleton a seen).symm)
        · intro x hx y hy
          rcases List.mem_cons.1 hx with rfl | hx
          · rcases List.mem_cons.1 hy with rfl | hy
            · exact hless
            · exact hless.trans (hleast y hy)
          · exact hgone x hx y hy

/-- A whole stream. -/
theorem Largest.run {limit : ℕ} (hlimit : 1 ≤ limit) (stream : List α) {seen heap : List α}
    (h : Largest key limit seen heap) (hnew : ((seen ++ stream).map key).Nodup) :
    Largest key limit (seen ++ stream) (stream.foldl (keepLargest key limit) heap) := by
  induction stream generalizing seen heap with
  | nil => simpa using h
  | cons a stream ih =>
    have hsplit : seen ++ a :: stream = seen ++ [a] ++ stream := by simp
    have hfresh : ∀ x ∈ seen, key x ≠ key a := by
      intro x hx heq
      rw [List.map_append, List.nodup_append] at hnew
      exact hnew.2.2 _ (List.mem_map_of_mem hx) _ (List.mem_map_of_mem List.mem_cons_self) heq
    rw [hsplit] at hnew ⊢
    exact ih (h.step hlimit hfresh) hnew

/-- Two descending arrangements of the same elements are one. -/
theorem eq_of_descending {xs ys : List α} (hxs : xs.Pairwise (key · > key ·)) (hys : ys.Pairwise (key · ≥ key ·))
    (hperm : xs.Perm ys) : xs = ys := by
  have hys' : ys.Pairwise (key · > key ·) := by
    have hnodup : (ys.map key).Nodup := (hperm.map key).nodup_iff.1
      (List.pairwise_map.2 (hxs.imp fun h => ne_of_gt h))
    exact (hys.and (List.pairwise_map.1 hnodup)).imp fun h => lt_of_le_of_ne h.1 h.2.symm
  exact hperm.eq_of_pairwise (fun x y _ _ h1 h2 => absurd h1 (lt_asymm h2)) hxs hys'

theorem descending_pairwise (elements : List α) : (descending key elements).Pairwise (key · ≥ key ·) := by
  have htotal : ∀ x y : α, (decide (key y ≤ key x) || decide (key x ≤ key y)) = true :=
    fun x y => by simpa using le_total (key y) (key x)
  have htrans : ∀ x y z : α, decide (key y ≤ key x) = true → decide (key z ≤ key y) = true →
      decide (key z ≤ key x) = true :=
    fun x y z hxy hyz => decide_eq_true (le_trans (of_decide_eq_true hyz) (of_decide_eq_true hxy))
  have h : (descending key elements).Pairwise fun x y => decide (key y ≤ key x) = true :=
    List.pairwise_mergeSort htrans htotal elements
  exact h.imp fun h => of_decide_eq_true h

/-- **The heap at the end**, the largest first, is the beginning of the sorted stream. -/
theorem Largest.descending_eq {limit : ℕ} {seen heap : List α} (h : Largest key limit seen heap)
    (hnew : (seen.map key).Nodup) : descending key heap = (descending key seen).take limit := by
  obtain ⟨hasc, hbound, gone, hperm, hgone, hfull⟩ := h
  have hnodup : ((descending key gone).map key).Nodup := by
    have h := (hperm.map key).nodup_iff.2 hnew
    rw [List.map_append, List.nodup_append] at h
    exact ((List.mergeSort_perm gone _).map key).nodup_iff.2 h.2.1
  have hgonedesc : (descending key gone).Pairwise (key · > key ·) :=
    ((descending_pairwise gone).and (List.pairwise_map.1 hnodup)).imp fun h => lt_of_le_of_ne h.1 h.2.symm
  have hheap : descending key heap = heap.reverse :=
    (eq_of_descending (List.pairwise_reverse.2 hasc) (descending_pairwise heap)
      ((List.reverse_perm heap).trans (List.mergeSort_perm heap _).symm)).symm
  have hall : heap.reverse ++ descending key gone = descending key seen := by
    refine eq_of_descending (List.pairwise_append.2 ⟨List.pairwise_reverse.2 hasc, hgonedesc, ?_⟩)
      (descending_pairwise seen) ?_
    · intro x hx y hy
      exact hgone y ((List.mergeSort_perm gone _).mem_iff.1 hy) x (List.mem_reverse.1 hx)
    · exact (((List.reverse_perm heap).append (List.mergeSort_perm gone _)).trans hperm).trans
        (List.mergeSort_perm seen _).symm
  rw [hheap, ← hall]
  by_cases hne : gone = []
  · rw [hne, show descending key ([] : List α) = [] from List.mergeSort_nil, List.append_nil,
      List.take_of_length_le (by simpa using hbound)]
  · rw [List.take_left' (by simpa using hfull hne)]

/-- **The largest elements of a stream.** -/
theorem descending_keepLargest {limit : ℕ} (hlimit : 1 ≤ limit) (stream : List α) (hnew : (stream.map key).Nodup) :
    descending key (stream.foldl (keepLargest key limit) []) = (descending key stream).take limit :=
  (Largest.run hlimit stream (Largest.nil limit) hnew).descending_eq hnew

end Largest

end OpencodeCloud.Library
