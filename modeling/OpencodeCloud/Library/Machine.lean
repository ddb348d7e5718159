/-
# OpencodeCloud.Library.Machine -- runs of a deterministic labelled machine

A machine is a partial step function: `step s i = none` says that the input `i` is not enabled in
`s`. All nondeterminism sits in the inputs, so a run is a list of inputs and is computed by `run`.

The results are about runs **along a condition** on steps: `Along C s is` asks that every step of the
run is taken from a state, and with an input, that meet `C`. An invariant that `C`-steps preserve
holds at the end of every such run, and (a prefix of a run along `C` being one itself) at every state
the run passes. The condition `fun _ _ => True` gives the usual invariant rule.

What happened in a run, and in which order, is said with `Since`; such facts are proved by the history
rule (`run_history`), whose invariants are about the run and not only about the state.
-/
import Mathlib.Logic.Basic
import Mathlib.Data.Option.Basic
import Mathlib.Data.List.Basic
import Mathlib.Data.List.Induction

namespace OpencodeCloud.Library

/-- A machine with states `σ` and inputs `ι`. -/
structure Machine (σ ι : Type*) where
  step : σ → ι → Option σ

namespace Machine

variable {σ ι τ κ : Type*} (m : Machine σ ι)

/-! ## Runs -/

/-- Feed a list of inputs, `none` as soon as one of them is not enabled. -/
def run : σ → List ι → Option σ
  | s, [] => some s
  | s, i :: is =>
    match m.step s i with
    | some t => run t is
    | none => none

/-- Every step of the run meets `C` in the state it leaves. -/
def Along (C : σ → ι → Prop) : σ → List ι → Prop
  | _, [] => True
  | s, i :: is => C s i ∧ ∀ t ∈ m.step s i, Along C t is

instance decidableAlong (C : σ → ι → Prop) [∀ s i, Decidable (C s i)] :
    ∀ (s : σ) (is : List ι), Decidable (m.Along C s is)
  | _, [] => inferInstanceAs (Decidable True)
  | s, i :: is =>
    have : ∀ t, Decidable (m.Along C t is) := fun t => decidableAlong C t is
    inferInstanceAs (Decidable (C s i ∧ ∀ t ∈ m.step s i, m.Along C t is))

@[simp] theorem run_nil (s : σ) : m.run s [] = some s := rfl

theorem run_cons {s t : σ} {i : ι} {is : List ι} (h : m.step s i = some t) :
    m.run s (i :: is) = m.run t is := by
  simp only [run, h]

/-- A run that starts with `i` takes an enabled first step. -/
theorem run_cons_inv {s u : σ} {i : ι} {is : List ι} (h : m.run s (i :: is) = some u) :
    ∃ t, m.step s i = some t ∧ m.run t is = some u := by
  simp only [run] at h
  cases hs : m.step s i with
  | none => simp [hs] at h
  | some t => exact ⟨t, rfl, by simpa [hs] using h⟩

theorem run_append {s u : σ} {is js : List ι} (h : m.run s (is ++ js) = some u) :
    ∃ t, m.run s is = some t ∧ m.run t js = some u := by
  induction is generalizing s with
  | nil => exact ⟨s, rfl, h⟩
  | cons i is ih =>
    obtain ⟨t, hstep, hrest⟩ := m.run_cons_inv h
    obtain ⟨v, hv, hu⟩ := ih hrest
    exact ⟨v, by rw [m.run_cons hstep]; exact hv, hu⟩

/-- A run goes on. -/
theorem run_append_eq {s t : σ} {is js : List ι} (h : m.run s is = some t) :
    m.run s (is ++ js) = m.run t js := by
  induction is generalizing s with
  | nil =>
    obtain rfl : s = t := by simpa using h
    rfl
  | cons i is ih =>
    obtain ⟨u, hstep, hrest⟩ := m.run_cons_inv h
    rw [List.cons_append, m.run_cons hstep, ih hrest]

theorem along_cons {C : σ → ι → Prop} {s t : σ} {i : ι} {is : List ι}
    (hstep : m.step s i = some t) (h : m.Along C s (i :: is)) : C s i ∧ m.Along C t is :=
  ⟨h.1, h.2 t hstep⟩

/-- A prefix of a run along `C` is a run along `C`. -/
theorem along_prefix {C : σ → ι → Prop} {s : σ} {is js : List ι}
    (h : m.Along C s (is ++ js)) : m.Along C s is := by
  induction is generalizing s with
  | nil => trivial
  | cons i is ih =>
    exact ⟨h.1, fun t ht => ih (h.2 t ht)⟩

/-- The rest of a run along `C` is a run along `C` too. -/
theorem along_suffix {C : σ → ι → Prop} {s t : σ} {is js : List ι}
    (h : m.Along C s (is ++ js)) (hrun : m.run s is = some t) : m.Along C t js := by
  induction is generalizing s with
  | nil =>
    obtain rfl : s = t := by simpa using hrun
    exact h
  | cons i is ih =>
    obtain ⟨u, hstep, hrest⟩ := m.run_cons_inv hrun
    exact ih (h.2 u hstep) hrest

theorem along_append {C : σ → ι → Prop} {s t : σ} {is js : List ι} (h : m.Along C s is)
    (hrun : m.run s is = some t) (hrest : m.Along C t js) : m.Along C s (is ++ js) := by
  induction is generalizing s with
  | nil =>
    obtain rfl : s = t := by simpa using hrun
    exact hrest
  | cons i is ih =>
    obtain ⟨u, hstep, hrun⟩ := m.run_cons_inv hrun
    refine ⟨h.1, fun v hv => ?_⟩
    obtain rfl : u = v := Option.some.inj (hstep.symm.trans hv)
    exact ih (h.2 u hstep) hrun

/-- A run that is computed to its end and fails a test there. -/
theorem exists_run_of_all_eq_false {p : σ → Bool} {s : σ} {is : List ι}
    (h : (m.run s is).all p = false) : ∃ t, m.run s is = some t ∧ p t = false := by
  cases hr : m.run s is with
  | none => simp [hr] at h
  | some t => exact ⟨t, rfl, by simpa [hr] using h⟩

/-! ## The invariant rule -/

/-- **The invariant rule.** What holds at the start, and is kept by every enabled step that meets
`C`, holds at the end of every run along `C`. -/
theorem run_invariant {C : σ → ι → Prop} {I : σ → Prop}
    (keep : ∀ s i t, I s → C s i → m.step s i = some t → I t)
    {s t : σ} {is : List ι} (h0 : I s) (hrun : m.run s is = some t) (hC : m.Along C s is) :
    I t := by
  induction is generalizing s with
  | nil =>
    obtain rfl : s = t := by simpa using hrun
    exact h0
  | cons i is ih =>
    obtain ⟨u, hstep, hrest⟩ := m.run_cons_inv hrun
    obtain ⟨hCi, hCrest⟩ := m.along_cons hstep hC
    exact ih (keep s i u h0 hCi hstep) hrest hCrest

/-- What the invariant and the condition give of one step holds of every step of the run. -/
theorem along_of_invariant {C P : σ → ι → Prop} {I : σ → Prop}
    (keep : ∀ s i t, I s → C s i → m.step s i = some t → I t) (holds : ∀ s i, I s → C s i → P s i)
    {s : σ} {is : List ι} (h0 : I s) (hC : m.Along C s is) : m.Along P s is := by
  induction is generalizing s with
  | nil => trivial
  | cons i is ih =>
    exact ⟨holds s i h0 hC.1, fun t ht => ih (keep s i t h0 hC.1 ht) (hC.2 t ht)⟩

/-- What an invariant of all steps gives of one step holds of every step of a run. -/
theorem along_always {P : σ → ι → Prop} {I : σ → Prop}
    (keep : ∀ s i t, I s → m.step s i = some t → I t) (holds : ∀ s i, I s → P s i) {s : σ} (h0 : I s)
    (is : List ι) : m.Along P s is := by
  induction is generalizing s with
  | nil => trivial
  | cons i is ih => exact ⟨holds s i h0, fun t ht => ih (keep s i t h0 ht)⟩

/-- The invariant rule without a condition on the steps. -/
theorem run_always {I : σ → Prop} (keep : ∀ s i t, I s → m.step s i = some t → I t)
    {s t : σ} {is : List ι} (h0 : I s) (hrun : m.run s is = some t) : I t := by
  induction is generalizing s with
  | nil =>
    obtain rfl : s = t := by simpa using hrun
    exact h0
  | cons i is ih =>
    obtain ⟨u, hstep, hrest⟩ := m.run_cons_inv hrun
    exact ih (keep s i u h0 hstep) hrest

/-- **Projection.** When every step of `m` is a step of `n` or nothing at all, seen through `f`, every
run of `m` is a run of `n`. -/
theorem run_project {n : Machine τ κ} {f : σ → τ}
    (h : ∀ s i t, m.step s i = some t → f t = f s ∨ ∃ k, n.step (f s) k = some (f t))
    {s t : σ} {is : List ι} (hrun : m.run s is = some t) : ∃ ks, n.run (f s) ks = some (f t) := by
  induction is generalizing s with
  | nil =>
    obtain rfl : s = t := by simpa using hrun
    exact ⟨[], rfl⟩
  | cons i is ih =>
    obtain ⟨u, hstep, hrest⟩ := m.run_cons_inv hrun
    obtain ⟨ks, hks⟩ := ih hrest
    rcases h s i u hstep with hsame | ⟨k, hk⟩
    · exact ⟨ks, hsame ▸ hks⟩
    · exact ⟨k :: ks, by rw [n.run_cons hk]; exact hks⟩

/-! ## What holds throughout a run -/

/-- `P` holds in every state the run passes. -/
def Throughout (P : σ → Prop) : σ → List ι → Prop
  | s, [] => P s
  | s, i :: is => P s ∧ ∀ t ∈ m.step s i, Throughout P t is

theorem Throughout.start {P : σ → Prop} {s : σ} {is : List ι} (h : m.Throughout P s is) : P s := by
  cases is with
  | nil => exact h
  | cons i is => exact h.1

theorem Throughout.last {P : σ → Prop} {s t : σ} {is : List ι} (h : m.Throughout P s is)
    (hrun : m.run s is = some t) : P t := by
  induction is generalizing s with
  | nil =>
    obtain rfl : s = t := by simpa using hrun
    exact h
  | cons i is ih =>
    obtain ⟨u, hstep, hrest⟩ := m.run_cons_inv hrun
    exact ih (h.2 u hstep) hrest

/-- The invariant rule at every state of the run. -/
theorem throughout_of_along {C : σ → ι → Prop} {I : σ → Prop}
    (keep : ∀ s i t, I s → C s i → m.step s i = some t → I t)
    {s : σ} {is : List ι} (h0 : I s) (hC : m.Along C s is) : m.Throughout I s is := by
  induction is generalizing s with
  | nil => exact h0
  | cons i is ih =>
    exact ⟨h0, fun t ht => ih (keep s i t h0 hC.1 ht) (hC.2 t ht)⟩

/-- The invariant rule at every state of the run, without a condition on the steps. -/
theorem throughout_always {I : σ → Prop} (keep : ∀ s i t, I s → m.step s i = some t → I t)
    {s : σ} (is : List ι) (h0 : I s) : m.Throughout I s is := by
  induction is generalizing s with
  | nil => exact h0
  | cons i is ih => exact ⟨h0, fun t ht => ih (keep s i t h0 ht)⟩

theorem Throughout.imp {P Q : σ → Prop} (h : ∀ s, P s → Q s) {s : σ} {is : List ι}
    (hP : m.Throughout P s is) : m.Throughout Q s is := by
  induction is generalizing s with
  | nil => exact h s hP
  | cons i is ih => exact ⟨h s hP.1, fun t ht => ih (hP.2 t ht)⟩

/-- **The exact condition.** When `C` says of every step exactly whether it keeps `P`, the runs along
`C` are the runs throughout which `P` holds. -/
theorem throughout_iff_along {C : σ → ι → Prop} {P : σ → Prop}
    (keep : ∀ s i t, P s → m.step s i = some t → (P t ↔ C s i))
    {s t : σ} {is : List ι} (h0 : P s) (hrun : m.run s is = some t) :
    m.Throughout P s is ↔ m.Along C s is := by
  refine ⟨fun h => ?_, throughout_of_along m (fun s i t hs hC ht => (keep s i t hs ht).mpr hC) h0⟩
  induction is generalizing s with
  | nil => trivial
  | cons i is ih =>
    obtain ⟨u, hstep, hrest⟩ := m.run_cons_inv hrun
    have hu : P u := (h.2 u hstep).start
    refine ⟨(keep s i u h0 hstep).mp hu, fun v hv => ?_⟩
    obtain rfl : u = v := Option.some.inj (hstep.symm.trans hv)
    exact ih hu hrest (h.2 u hstep)

/-- The exact condition, in the states that an invariant of all runs allows. -/
theorem throughout_iff_along_of_invariant {C : σ → ι → Prop} {I P : σ → Prop}
    (keepI : ∀ s i t, I s → m.step s i = some t → I t)
    (keep : ∀ s i t, I s → P s → m.step s i = some t → (P t ↔ C s i))
    {s t : σ} {is : List ι} (hI : I s) (h0 : P s) (hrun : m.run s is = some t) :
    m.Throughout P s is ↔ m.Along C s is := by
  have hiff : m.Throughout (fun s => I s ∧ P s) s is ↔ m.Along C s is :=
    m.throughout_iff_along (fun s i t hs hstep =>
      ⟨fun ht => (keep s i t hs.1 hs.2 hstep).mp ht.2,
        fun hC => ⟨keepI s i t hs.1 hstep, (keep s i t hs.1 hs.2 hstep).mpr hC⟩⟩) ⟨hI, h0⟩ hrun
  rw [← hiff]
  constructor
  · intro hP
    clear hiff hrun
    induction is generalizing s with
    | nil => exact ⟨hI, hP⟩
    | cons i is ih =>
      exact ⟨⟨hI, h0⟩, fun u hu => ih (keepI s i u hI hu) (hP.2 u hu).start (hP.2 u hu)⟩
  · exact Throughout.imp m fun _ hs => hs.2

/-! ## Progress -/

/-- What an invariant helps every step to keep. -/
theorem run_stays {P : σ → Prop} {I : σ → Prop} (keep : ∀ s i t, I s → m.step s i = some t → I t)
    (stay : ∀ s i t, I s → P s → m.step s i = some t → P t) {s t : σ} {is : List ι} (h0 : I s)
    (hP : P s) (hrun : m.run s is = some t) : P t :=
  (m.run_always (I := fun s => I s ∧ P s)
    (fun s i t h hstep => ⟨keep s i t h.1 hstep, stay s i t h.1 h.2 hstep⟩) ⟨h0, hP⟩ hrun).2

/-- **The progress rule.** When no step raises the rank and every step that counts lowers it, until the
goal is there, a run with more such steps than the rank comes to the goal. -/
theorem run_reaches {I goal : σ → Prop} {counts : ι → Bool} {rank : σ → Nat}
    (keep : ∀ s i t, I s → m.step s i = some t → I t)
    (stay : ∀ s i t, I s → goal s → m.step s i = some t → goal t)
    (down : ∀ s i t, I s → ¬goal s → m.step s i = some t →
      goal t ∨ rank t + (if counts i then 1 else 0) ≤ rank s)
    {s t : σ} {is : List ι} (h0 : I s) (hrun : m.run s is = some t) (hmany : rank s < is.countP counts) :
    goal t := by
  induction is generalizing s with
  | nil => exact absurd hmany (by simp)
  | cons i is ih =>
    obtain ⟨u, hstep, hrest⟩ := m.run_cons_inv hrun
    have hu := keep s i u h0 hstep
    by_cases hs : goal s
    · exact m.run_stays keep stay hu (stay s i u h0 hs hstep) hrest
    · rcases down s i u h0 hs hstep with hgoal | hdown
      · exact m.run_stays keep stay hu hgoal hrest
      · refine ih hu hrest ?_
        rw [List.countP_cons] at hmany
        omega

/-- **The bound of a run.** When no step raises the rank and every step that counts lowers it, a run has
no more such steps than the rank. -/
theorem run_bounded {I : σ → Prop} {counts : ι → Bool} {rank : σ → Nat}
    (keep : ∀ s i t, I s → m.step s i = some t → I t)
    (down : ∀ s i t, I s → m.step s i = some t → rank t + (if counts i then 1 else 0) ≤ rank s)
    {s t : σ} {is : List ι} (h0 : I s) (hrun : m.run s is = some t) :
    rank t + is.countP counts ≤ rank s := by
  induction is generalizing s with
  | nil =>
    obtain rfl : s = t := by simpa using hrun
    simp
  | cons i is ih =>
    obtain ⟨u, hstep, hrest⟩ := m.run_cons_inv hrun
    have hfirst := down s i u h0 hstep
    have hothers := ih (keep s i u h0 hstep) hrest
    rw [List.countP_cons]
    omega

/-! ## What happened in a run -/

/-- `P` held at a moment of the run, of the state then and of the rest of the run. -/
def Since (P : σ → List ι → Prop) (s : σ) (is : List ι) : Prop :=
  ∃ js ks t, is = js ++ ks ∧ m.run s js = some t ∧ P t ks

theorem since_now {P : σ → List ι → Prop} {s t : σ} {is : List ι} (ks : List ι)
    (hrun : m.run s is = some t) (h : P t ks) : m.Since P s (is ++ ks) :=
  ⟨is, ks, t, rfl, hrun, h⟩

theorem Since.imp {P Q : σ → List ι → Prop} (h : ∀ t ks, P t ks → Q t ks) {s : σ} {is : List ι}
    (hP : m.Since P s is) : m.Since Q s is := by
  obtain ⟨js, ks, t, his, hjs, ht⟩ := hP
  exact ⟨js, ks, t, his, hjs, h t ks ht⟩

/-- The run goes on by one step. -/
theorem Since.snoc {P Q : σ → List ι → Prop} {s t : σ} {is : List ι} {i : ι} (h : m.Since P s is)
    (hrun : m.run s is = some t)
    (keep : ∀ u ks, m.run u ks = some t → P u ks → Q u (ks ++ [i])) : m.Since Q s (is ++ [i]) := by
  obtain ⟨js, ks, u, rfl, hjs, hP⟩ := h
  obtain ⟨u', hu', hks⟩ := m.run_append hrun
  obtain rfl : u = u' := Option.some.inj (hjs.symm.trans hu')
  exact ⟨js, ks ++ [i], u, by simp, hjs, keep u ks hks hP⟩

/-- **The history rule.** What holds of the empty run, and of a run with one more step, holds of every run
and the state it comes to. -/
theorem run_history {I : List ι → σ → Prop} {s : σ} (h0 : I [] s)
    (keep : ∀ is t i u, m.run s is = some t → I is t → m.step t i = some u → I (is ++ [i]) u)
    {t : σ} {is : List ι} (hrun : m.run s is = some t) : I is t := by
  induction is using List.reverseRecOn generalizing t with
  | nil =>
    obtain rfl : s = t := by simpa using hrun
    exact h0
  | append_singleton is i ih =>
    obtain ⟨u, hu, hlast⟩ := m.run_append hrun
    obtain ⟨v, hv, hnil⟩ := m.run_cons_inv hlast
    obtain rfl : v = t := by simpa using hnil
    exact keep is u i v hu (ih hu) hv

end Machine

end OpencodeCloud.Library
