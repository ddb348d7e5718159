/-
# OpencodeCloud.Catalog.Releases -- what becomes of releases and versions

A release is never changed after it is prepared but for its mark `committed`, which only a commit of
that release sets. A committed version is the content of a committed release and stays with its agent; a
number that was used for an agent is not used again, since the id of a deleted agent is retired
(`Document.Spent`).
-/
import OpencodeCloud.Catalog.Numbering

namespace OpencodeCloud.Catalog

open OpencodeCloud.Library

/-! ## §A Releases -/

/-- The same release, but for its mark. -/
def Release.Remains (r r' : Release) : Prop := r' = { r with committed := r'.committed }

theorem Release.Remains.refl (r : Release) : r.Remains r := rfl

theorem Release.Remains.trans {r r' r'' : Release} (h : r.Remains r') (h' : r'.Remains r'') :
    r.Remains r'' := by
  unfold Release.Remains at h h' ⊢
  rw [h', h]

/-- A release without the mark is known from what it remains as. -/
theorem Release.Remains.unmarked {r r' : Release} (h : r.Remains r') (hopen : r.committed = false) :
    r = { r' with committed := false } := by
  unfold Release.Remains at h
  rw [h, ← hopen]

/-- The release is marked as committed. -/
def Document.committed (d : Document) (rid : String) : Bool :=
  (d.releases.lookup rid).any (·.committed)

theorem Write.releases {d d' : Document} (h : Write d d') : d'.releases = d.releases := by
  rcases h with hput | hdrop
  · cases hput <;> simp
  · cases hdrop <;> rfl

theorem Writes.releases {d d' : Document} (h : Writes d d') : d'.releases = d.releases :=
  h.keep (I := fun x => x.releases = d.releases) (fun _ _ hw hx => hw.releases.trans hx) rfl

/-- A prepared release is not committed. -/
theorem Prepared.uncommitted {host : Host} {d : Document} {r : Release} (h : Prepared host d r) :
    r.committed = false := by
  cases h <;> rfl

namespace Effect

variable {env : Service.Environment} {d d' : Document} {c : Command}

/-- A release stays, but for its mark. -/
theorem release_remains (h : Effect env d c d') {rid : String} {r : Release}
    (hr : d.releases.lookup rid = some r) :
    ∃ r', d'.releases.lookup rid = some r' ∧ r.Remains r' ∧
      (r'.committed = true → r.committed = true ∨ c = .commit rid) := by
  have hmark : ∀ rid' r₀, d.releases.lookup rid' = some r₀ → c = .commit rid' →
      ∃ r', (d.releases.insert rid' { r₀ with committed := true }).lookup rid = some r' ∧
        r.Remains r' ∧ (r'.committed = true → r.committed = true ∨ c = .commit rid) := by
    intro rid' r₀ hr₀ hc
    by_cases hid : rid = rid'
    · subst hid
      obtain rfl := Option.some.inj (hr.symm.trans hr₀)
      exact ⟨_, AList.lookup_insert _, rfl, fun _ => Or.inr hc⟩
    · exact ⟨r, by rw [AList.lookup_insert_ne hid]; exact hr, .refl r, Or.inl⟩
  cases h with
  | refused e _ => exact ⟨r, hr, .refl r, Or.inl⟩
  | writes _ hw => exact ⟨r, by rw [hw.releases]; exact hr, .refl r, Or.inl⟩
  | prepared rid' r' hfresh _ _ =>
    have hid : rid ≠ rid' := by
      rintro rfl
      rw [hfresh] at hr
      exact absurd hr (by simp)
    exact ⟨r, by rw [AList.lookup_insert_ne hid]; exact hr, .refl r, Or.inl⟩
  | committed hc =>
    cases hc with
    | again r' _ _ => exact ⟨r, hr, .refl r, Or.inl⟩
    | models r₀ ms configuration hr₀ _ _ _ => exact hmark _ r₀ hr₀ rfl
    | agent r₀ a cfg files hr₀ _ _ _ _ => exact hmark _ r₀ hr₀ rfl

/-- A release that was not there has been prepared. -/
theorem release_origin (h : Effect env d c d') {rid : String} {r' : Release}
    (hr' : d'.releases.lookup rid = some r') :
    (∃ r, d.releases.lookup rid = some r ∧ r.Remains r') ∨
      (d.releases.lookup rid = none ∧ Prepared env.host d r' ∧ r'.releaseId = rid) := by
  cases hr : d.releases.lookup rid with
  | some r =>
    obtain ⟨r'', hr'', hremains, _⟩ := h.release_remains hr
    obtain rfl := Option.some.inj (hr''.symm.trans hr')
    exact Or.inl ⟨r, rfl, hremains⟩
  | none =>
    refine Or.inr ⟨rfl, ?_⟩
    have hmark : ∀ rid' (r₀ : Release), d.releases.lookup rid' = some r₀ →
        (d.releases.insert rid' { r₀ with committed := true }).lookup rid = some r' →
        Prepared env.host d r' ∧ r'.releaseId = rid := by
      intro rid' r₀ hr₀ hlook
      rcases Dict.lookup_insert_cases hlook with ⟨rfl, _⟩ | ⟨_, hold⟩
      · rw [hr] at hr₀
        exact absurd hr₀ (by simp)
      · rw [hr] at hold
        exact absurd hold (by simp)
    cases h with
    | refused e _ =>
      rw [hr] at hr'
      exact absurd hr' (by simp)
    | writes _ hw =>
      rw [hw.releases, hr] at hr'
      exact absurd hr' (by simp)
    | prepared rid' r₀ _ hp hid =>
      rcases Dict.lookup_insert_cases hr' with ⟨rfl, rfl⟩ | ⟨_, hold⟩
      · exact ⟨hp, hid⟩
      · rw [hr] at hold
        exact absurd hold (by simp)
    | committed hc =>
      cases hc with
      | again r₀ _ _ =>
        rw [hr] at hr'
        exact absurd hr' (by simp)
      | models r₀ ms configuration hr₀ _ _ _ => exact hmark _ r₀ hr₀ hr'
      | agent r₀ a cfg files hr₀ _ _ _ _ => exact hmark _ r₀ hr₀ hr'

/-- Only the commit of a release marks it as committed. -/
theorem committed_origin (h : Effect env d c d') {rid : String} (hc : d'.committed rid = true) :
    d.committed rid = true ∨ c = .commit rid := by
  simp only [Document.committed, Option.any_eq_true] at hc ⊢
  obtain ⟨r', hr', hcommitted⟩ := hc
  rcases h.release_origin hr' with ⟨r, hr, _⟩ | ⟨_, hp, _⟩
  · obtain ⟨r'', hr'', _, horigin⟩ := h.release_remains hr
    obtain rfl := Option.some.inj (hr''.symm.trans hr')
    exact (horigin hcommitted).imp_left fun h => ⟨r, hr, h⟩
  · rw [hp.uncommitted] at hcommitted
    exact absurd hcommitted (by decide)

end Effect

end OpencodeCloud.Catalog
