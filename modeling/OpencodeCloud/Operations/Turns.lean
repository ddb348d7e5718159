/-
# OpencodeCloud.Operations.Turns -- the turns of a worker around its commit

`Worker.Turn` takes one move of a worker apart, as far as the release, the bundle to go back to and the
two flags of the commit are concerned. From it come the phases that these pass through (`Worker.Phases`)
and where the release of a worker comes from.

The decision to compensate rests on `Worker.compensates`. A worker **exposes** a release while an
exception could still make it take that release back without any further question to the catalog
(`Worker.exposes`): before the commit was sent, after the catalog has answered that the release is not
committed, and during the compensation itself.
-/
import OpencodeCloud.Operations.Publications

namespace OpencodeCloud.Operations

open OpencodeCloud.Library OpencodeCloud.Catalog

/-! ## §A Turns -/

/-- The statements of the body at which nothing about the release is decided. -/
def Pc.plain : Pc → Bool
  | .start | .fetchPrevious | .obtainRelease | .commit | .commitStatus _ => false
  | pc => pc.inBody

/-- The end of the body. -/
def Pc.closing : Pc → Bool
  | .desiredMark | .finish => true
  | _ => false

namespace Worker

/-- What a worker keeps unless a turn is about it. -/
structure Alike (w w' : Worker) : Prop where
  job : w'.job = w.job
  release : w'.release = w.release
  previous : w'.previous = w.previous
  started : w'.commitStarted = w.commitStarted
  known : w'.commitStateKnown = w.commitStateKnown

/-- One move of a worker; the answer is there when the move takes one. -/
inductive Turn (w : Worker) : Option Reply → Worker → Prop
  | idle : Turn w none w
  | raised (answer : Option Reply) (exc : Exc) : Turn w answer (w.raise exc)
  | started (pc : Pc) (here : w.pc = .start) (body : pc.inBody = true) (plain : pc.closing = false)
      (decides : pc.plain = false → w.job.kind.isApply = true ∧ (pc = .fetchPrevious ∨ pc = .obtainRelease)) :
    Turn w none (w.goto pc)
  | fetched (b : Bundle) (here : w.pc = .fetchPrevious) :
    Turn w (some (.ok (.bundle b))) { w with previous := some b, pc := .obtainRelease }
  | unpublished (e : Failure) (here : w.pc = .fetchPrevious) :
    Turn w (some (.error e)) (w.goto .obtainRelease)
  | obtained (r : Release) (here : w.pc = .obtainRelease) :
    Turn w (some (.ok (.release r))) { w with release := some r, pc := .validateMark }
  | committing (here : w.pc = .commitMark) : Turn w none { w with commitStarted := true, pc := .commit }
  | doubtful (e : Failure) (here : w.pc = .commit) :
    Turn w (some (.error e)) (w.goto (.commitStatus (.http e)))
  | committed (answer : Option Reply) (result : JobResult)
      (here : w.pc = .commit ∨ ∃ exc, w.pc = .commitStatus exc) :
    Turn w answer ({ w with commitStateKnown := true }.afterBody result)
  /-- the catalog has answered that the release is not committed -/
  | uncommitted (exc : Exc) (r : Release) (here : w.pc = .commitStatus exc) (unmarked : r.committed = false) :
    Turn w (some (.ok (.release r))) ({ w with commitStateKnown := true }.raise exc)
  | onward (answer : Option Reply) (w' : Worker) (alike : w.Alike w') (body : w.pc.inBody = true)
      (plain : w'.pc.plain = true) (closing : w.pc.closing = true → w'.pc.closing = true) :
    Turn w answer w'
  | outside (answer : Option Reply) (w' : Worker) (alike : w.Alike w') (out : w'.pc.inBody = false)
      (compensates : ∀ exc, w'.pc ≠ .compensate exc)
      (verifies : ∀ exc, w'.pc = .compensateVerify exc → w.pc = .compensate exc) :
    Turn w answer w'

theorem Alike.goto (w : Worker) (pc : Pc) : w.Alike (w.goto pc) := ⟨rfl, rfl, rfl, rfl, rfl⟩

theorem checkpoint_turn {s : Store} {w next : Worker} {f : Job → Job} (h : w.Turn none next) :
    w.Turn none (w.checkpoint s f next).2 := by
  rcases checkpoint_snd s w f next with hn | ⟨exc, hr⟩
  · rw [hn]
    exact h
  · rw [hr]
    exact .raised none exc

/-- Every write of a worker is a turn. -/
theorem work_turn (s : Store) (w : Worker) (raises : Bool) : w.Turn none (w.work s raises).2 := by
  cases raises with
  | true => exact .raised none .other
  | false =>
    cases hpc : w.pc with
    | start =>
      simp only [work, hpc, Bool.false_eq_true, if_false]
      refine checkpoint_turn ?_
      unfold afterStart
      split
      · next hkind => exact .started _ hpc rfl rfl fun _ => ⟨by rw [hkind]; rfl, Or.inl rfl⟩
      · next hkind => exact .started _ hpc rfl rfl fun _ => ⟨by rw [hkind]; rfl, Or.inr rfl⟩
      · split
        · exact .started _ hpc rfl rfl fun h => absurd h (by decide)
        · exact .started _ hpc rfl rfl fun h => absurd h (by decide)
    | validateMark | quiesceMark | verifyMark =>
      simp only [work, hpc, Bool.false_eq_true, if_false]
      exact checkpoint_turn (.onward none _ ⟨rfl, rfl, rfl, rfl, rfl⟩ (by rw [hpc]; rfl) rfl
        (by rw [hpc]; exact fun h => absurd h (by decide)))
    | applyMark =>
      simp only [work, hpc, Bool.false_eq_true, if_false]
      refine checkpoint_turn ?_
      obtain ⟨pc, h, hpc'⟩ := afterApplyMark_eq w
      rw [h]
      refine .onward none _ ⟨rfl, rfl, rfl, rfl, rfl⟩ (by rw [hpc]; rfl) ?_
        (by rw [hpc]; exact fun h => absurd h (by decide))
      rcases hpc' with rfl | rfl | rfl | rfl | rfl <;> rfl
    | commitMark =>
      simp only [work, hpc, Bool.false_eq_true, if_false]
      exact checkpoint_turn (.committing hpc)
    | sandboxDeletedMark | filesDeletedMark =>
      simp only [work, hpc, Bool.false_eq_true, if_false]
      exact .onward none _ (.goto w _) (by rw [hpc]; rfl) rfl
        (by rw [hpc]; exact fun h => absurd h (by decide))
    | desiredMark =>
      simp only [work, hpc, Bool.false_eq_true, if_false]
      split <;> exact .onward none _ (.goto w _) (by rw [hpc]; rfl) rfl fun _ => rfl
    | finish | stoppedMark | settle | resumeFailed =>
      simp only [work, hpc, Bool.false_eq_true, if_false]
      exact .outside none _ (.goto w _) rfl (fun _ h => by cases h) fun _ h => by cases h
    | stopped | leave =>
      simp only [work, hpc, Bool.false_eq_true, if_false]
      split <;> exact .outside none _ (.goto w _) rfl (fun _ h => by cases h) fun _ h => by cases h
    | _ =>
      simp only [work, hpc, Bool.false_eq_true, if_false]
      exact .idle

theorem callFailed_turn (w : Worker) (answer : Option Reply) (reply : Reply) :
    w.Turn answer (w.callFailed reply) := by
  unfold callFailed
  split <;> exact .raised answer _

/-- The end of the body of a job that is not a publication. -/
theorem afterBody_turn {w w₀ : Worker} (answer : Option Reply) (result : JobResult)
    (h : w₀.Alike w) (hbody : w₀.pc.inBody = true) : w₀.Turn answer (w.afterBody result) := by
  obtain ⟨pc, heq, hpc⟩ := afterBody_eq w result
  rw [heq]
  refine .onward answer _ ⟨h.job, h.release, h.previous, h.started, h.known⟩ hbody ?_ fun _ => ?_
  · rcases hpc with rfl | rfl <;> rfl
  · rcases hpc with rfl | rfl <;> rfl

/-- Every answer that a worker takes is a turn. -/
theorem receive_turn (w : Worker) (reply : Reply) : w.Turn (some reply) (w.receive reply) := by
  unfold receive
  split
  case h_1 b hpc => exact .fetched b hpc
  case h_2 e hpc =>
    split
    · exact .unpublished e hpc
    · exact .raised _ _
  case h_3 r hpc => exact .obtained r hpc
  case h_7 answer hpc =>
    have hbody : w.pc.inBody = true := by rw [hpc]; rfl
    have hnext : w.Turn (some (.ok answer)) (w.goto .commitMark) :=
      .onward _ _ (.goto w _) hbody rfl (by rw [hpc]; exact fun h => absurd h (by decide))
    split
    · exact hnext
    · split
      · split
        · exact hnext
        · exact .raised _ _
      · exact .raised _ _
  case h_8 n hpc => exact .committed _ _ (Or.inl hpc)
  case h_9 _ hpc => exact .committed _ _ (Or.inl hpc)
  case h_10 e hpc => exact .doubtful e hpc
  case h_11 exc r hpc =>
    dsimp only
    split
    · exact .committed _ _ (Or.inr ⟨exc, hpc⟩)
    · next hc => exact .uncommitted exc r hpc (by simpa using hc)
  case h_12 hpc | h_17 hpc =>
    exact afterBody_turn _ _ ⟨rfl, rfl, rfl, rfl, rfl⟩ (by rw [hpc]; rfl)
  case h_18 exc _ hpc =>
    split
    · exact .outside _ _ ⟨rfl, rfl, rfl, rfl, rfl⟩ rfl (fun _ => nofun) fun _ => nofun
    · exact .outside _ _ (.goto w _) rfl (fun _ => nofun) fun exc' h => by
        rw [hpc, Pc.compensateVerify.inj h]
  case h_19 | h_20 =>
    exact .outside _ _ ⟨rfl, rfl, rfl, rfl, rfl⟩ rfl (fun _ => nofun) fun _ => nofun
  case h_21 => exact callFailed_turn w _ _
  all_goals
    next hpc =>
    exact .onward _ _ ⟨rfl, rfl, rfl, rfl, rfl⟩ (by rw [hpc]; rfl) rfl
      (by rw [hpc]; exact fun h => absurd h (by decide))

/-- **A move of a worker is a turn**, with the answer that it takes. -/
theorem Moved.turn {s s' : Store} {task : Nat} {w w' : Worker} {e : Event}
    (h : w.Moved s task e s' w') :
    (∃ reply, e = .reply task reply ∧ w.Turn (some reply) w') ∨
      (∀ reply, e ≠ .reply task reply) ∧ w.Turn none w' := by
  cases h with
  | work raises _ _ => exact Or.inr ⟨fun _ => nofun, work_turn s w raises⟩
  | reply answer _ => exact Or.inl ⟨answer, rfl, receive_turn w answer⟩
  | stop _ => exact Or.inr ⟨fun _ => nofun, .raised none .cancelled⟩

/-! ## §B Phases -/

/-- The flags and the kind of the job fit the statement. -/
structure Phases (w : Worker) : Prop where
  started : w.pc = .commit ∨ (∃ exc, w.pc = .commitStatus exc) → w.commitStarted = true
  unknown : w.pc.inBody = true → w.pc.closing = false → w.commitStateKnown = false
  publishes : w.pc = .fetchPrevious ∨ w.pc = .obtainRelease → w.job.kind.isApply = true

theorem Phases.of_out {w : Worker} (h : w.pc.inBody = false) : w.Phases := by
  refine ⟨fun hpc => ?_, fun hin => ?_, fun hpc => ?_⟩
  · rcases hpc with hpc | ⟨exc, hpc⟩ <;> rw [hpc] at h <;> exact absurd h.symm Bool.false_ne_true
  · rw [h] at hin
    exact absurd hin (by decide)
  · rcases hpc with hpc | hpc <;> rw [hpc] at h <;> exact absurd h (by decide)

theorem Pc.plain_cases {pc : Pc} (h : pc.plain = true) : pc.inBody = true ∧ pc ≠ .commit ∧
    (∀ exc, pc ≠ .commitStatus exc) ∧ pc ≠ .fetchPrevious ∧ pc ≠ .obtainRelease := by
  cases pc <;> first
    | exact absurd h Bool.false_ne_true
    | exact ⟨h, nofun, fun _ => nofun, nofun, nofun⟩

/-- **Every turn keeps the phases.** -/
theorem Turn.phases {w w' : Worker} {answer : Option Reply} (h : w.Turn answer w')
    (hp : w.Phases) : w'.Phases := by
  have hclosed : ∀ (v : Worker) (result : JobResult), (v.afterBody result).Phases := by
    intro v result
    obtain ⟨pc, heq, hpc⟩ := afterBody_eq v result
    rw [heq]
    rcases hpc with rfl | rfl
    · exact ⟨nofun, fun _ h => absurd h.symm Bool.false_ne_true, nofun⟩
    · exact ⟨nofun, fun _ h => absurd h.symm Bool.false_ne_true, nofun⟩
  cases h with
  | idle => exact hp
  | raised _ exc => exact .of_out (raise_body w exc)
  | uncommitted exc r _ _ => exact .of_out (raise_body _ exc)
  | committed _ result _ => exact hclosed _ result
  | outside _ _ _ out _ _ => exact .of_out out
  | started pc here body plain decides =>
    refine ⟨fun hpc => ?_, fun _ _ => hp.unknown (by rw [here]; rfl) (by rw [here]; rfl), fun hpc => ?_⟩
    · have hpc' : pc = .commit ∨ ∃ exc, pc = .commitStatus exc := hpc
      cases hplain : pc.plain with
      | true =>
        obtain ⟨_, h1, h2, _, _⟩ := Pc.plain_cases hplain
        exact absurd hpc' (by rintro (h | ⟨exc, h⟩); exacts [h1 h, h2 exc h])
      | false =>
        rcases (decides hplain).2 with rfl | rfl
        · exact absurd hpc' (by simp)
        · exact absurd hpc' (by simp)
    · have hpc' : pc = .fetchPrevious ∨ pc = .obtainRelease := hpc
      refine (decides ?_).1
      rcases hpc' with rfl | rfl <;> rfl
  | fetched b here | unpublished e here =>
    exact ⟨nofun, fun _ _ => hp.unknown (by rw [here]; rfl) (by rw [here]; rfl),
      fun _ => hp.publishes (Or.inl here)⟩
  | obtained r here =>
    exact ⟨nofun, fun _ _ => hp.unknown (by rw [here]; rfl) (by rw [here]; rfl), nofun⟩
  | committing here =>
    exact ⟨fun _ => rfl, fun _ _ => hp.unknown (by rw [here]; rfl) (by rw [here]; rfl), nofun⟩
  | doubtful e here =>
    exact ⟨fun _ => hp.started (Or.inl here),
      fun _ _ => hp.unknown (by rw [here]; rfl) (by rw [here]; rfl), nofun⟩
  | onward _ _ alike body plain closing =>
    obtain ⟨_, h1, h2, h3, h4⟩ := Pc.plain_cases plain
    refine ⟨?_, fun _ hopen => ?_, ?_⟩
    · rintro (h | ⟨exc, h⟩)
      · exact absurd h h1
      · exact absurd h (h2 exc)
    · rw [alike.known]
      refine hp.unknown body ?_
      by_contra hc
      rw [closing (by simpa using hc)] at hopen
      exact absurd hopen (by decide)
    · rintro (h | h)
      · exact absurd h h3
      · exact absurd h h4

theorem spawned_phases (job : Job) : (spawned job).Phases := ⟨nofun, fun _ _ => rfl, nofun⟩

/-- A worker goes on with its job. -/
theorem Turn.job {w w' : Worker} {answer : Option Reply} (h : w.Turn answer w') :
    w'.job = w.job := by
  have hraise : ∀ (v : Worker) (exc : Exc), (v.raise exc).job = v.job := by
    intro v exc
    obtain ⟨pc, heq, _⟩ := raise_eq v exc
    exact heq ▸ rfl
  cases h with
  | raised _ exc => exact hraise w exc
  | uncommitted exc r' _ _ => exact hraise { w with commitStateKnown := true } exc
  | committed _ result _ =>
    obtain ⟨pc, heq, _⟩ := afterBody_eq { w with commitStateKnown := true } result
    rw [heq]
  | onward _ _ alike _ _ _ => exact alike.job
  | outside _ _ alike _ _ _ => exact alike.job
  | _ => rfl

/-- The release of a worker is the one that it had, or the one that it is answered. -/
theorem Turn.release {w w' : Worker} {answer : Option Reply} (h : w.Turn answer w') {r : Release}
    (hr : w'.release = some r) :
    w.release = some r ∨ w.pc = .obtainRelease ∧ answer = some (.ok (.release r)) := by
  have hraise : ∀ (v : Worker) (exc : Exc), (v.raise exc).release = v.release := by
    intro v exc
    obtain ⟨pc, heq, _⟩ := raise_eq v exc
    rw [heq]
    rfl
  cases h with
  | idle => exact Or.inl hr
  | raised _ exc => exact Or.inl ((hraise w exc).symm.trans hr)
  | uncommitted exc r' _ _ =>
    exact Or.inl ((hraise { w with commitStateKnown := true } exc).symm.trans hr)
  | committed _ result _ =>
    obtain ⟨pc, heq, _⟩ := afterBody_eq { w with commitStateKnown := true } result
    rw [heq] at hr
    exact Or.inl hr
  | obtained r' here =>
    obtain rfl := Option.some.inj hr
    exact Or.inr ⟨here, rfl⟩
  | onward _ _ alike _ _ _ => exact Or.inl (alike.release.symm.trans hr)
  | outside _ _ alike _ _ _ => exact Or.inl (alike.release.symm.trans hr)
  | _ => exact Or.inl hr

/-- The bundle to go back to is the one that the worker had, or the one that it is answered. -/
theorem Turn.previous {w w' : Worker} {answer : Option Reply} (h : w.Turn answer w') {b : Bundle}
    (hb : w'.previous = some b) :
    w.previous = some b ∨ w.pc = .fetchPrevious ∧ answer = some (.ok (.bundle b)) := by
  have hraise : ∀ (v : Worker) (exc : Exc), (v.raise exc).previous = v.previous := by
    intro v exc
    obtain ⟨pc, heq, _⟩ := raise_eq v exc
    rw [heq]
    rfl
  cases h with
  | idle => exact Or.inl hb
  | raised _ exc => exact Or.inl ((hraise w exc).symm.trans hb)
  | uncommitted exc r' _ _ =>
    exact Or.inl ((hraise { w with commitStateKnown := true } exc).symm.trans hb)
  | committed _ result _ =>
    obtain ⟨pc, heq, _⟩ := afterBody_eq { w with commitStateKnown := true } result
    rw [heq] at hb
    exact Or.inl hb
  | fetched b' here =>
    obtain rfl := Option.some.inj hb
    exact Or.inr ⟨here, rfl⟩
  | onward _ _ alike _ _ _ => exact Or.inl (alike.previous.symm.trans hb)
  | outside _ _ alike _ _ _ => exact Or.inl (alike.previous.symm.trans hb)
  | _ => exact Or.inl hb

/-! ## §C Exposed releases -/

/-- The release that the worker has, by its id. -/
def held (w : Worker) : List String := (w.release.map (·.releaseId)).toList

/-- The catalog has answered that the release is not committed. -/
def saysUncommitted : Option Reply → Bool
  | some (.ok (.release r)) => !r.committed
  | _ => false

/-- The release in an answer. -/
def answeredRelease : Option Reply → List String
  | some (.ok (.release r)) => [r.releaseId]
  | _ => []

/-- The releases that the worker may take back without asking the catalog again; `answer` is the
answer that it is about to take. -/
def exposes (w : Worker) (answer : Option Reply) : List String :=
  match w.pc with
  | .compensate _ | .compensateVerify _ => w.held
  | .commitStatus _ => if saysUncommitted answer then w.held else []
  | .obtainRelease => answeredRelease answer ++ if w.commitStarted then [] else w.held
  | pc => if pc.inBody && !pc.closing && !w.commitStarted then w.held else []

/-- An answer that is no release exposes nothing more. -/
theorem exposes_mono {w : Worker} {a b : Option Reply} (h : ∀ r, a ≠ some (.ok (.release r)))
    {rid : String} (hrid : rid ∈ w.exposes a) : rid ∈ w.exposes b := by
  have hclaims : saysUncommitted a = false := by
    unfold saysUncommitted
    split
    · next r => exact absurd rfl (h r)
    · rfl
  have hanswered : answeredRelease a = [] := by
    unfold answeredRelease
    split
    · next r => exact absurd rfl (h r)
    · rfl
  unfold exposes at hrid ⊢
  split at hrid
  · exact hrid
  · exact hrid
  · rw [hclaims] at hrid
    exact absurd hrid List.not_mem_nil
  · rw [hanswered] at hrid
    exact List.mem_append_right _ hrid
  · exact hrid

/-- The raised exception leads to a compensation only where the worker compensates. -/
theorem raise_compensates {w : Worker} {exc exc' : Exc}
    (h : (w.raise exc).pc = .compensate exc' ∨ (w.raise exc).pc = .compensateVerify exc') :
    w.pc.inBody = true ∧ w.compensates = true := by
  unfold raise at h
  split at h
  · next hbody =>
    refine ⟨hbody, ?_⟩
    split at h
    · exact absurd h (by simp [goto])
    · split at h
      · next hc => exact hc
      · exact absurd h (by simp [goto])
  · split at h <;> exact absurd h (by simp [goto])

/-- A worker outside the body exposes its release during a compensation only. -/
theorem exposes_out {w : Worker} (h : w.pc.inBody = false) {a : Option Reply} {rid : String}
    (hrid : rid ∈ w.exposes a) :
    rid ∈ w.held ∧ ∃ exc, w.pc = .compensate exc ∨ w.pc = .compensateVerify exc := by
  cases hpc : w.pc <;> simp only [exposes, hpc] at hrid
  case compensate exc => exact ⟨hrid, exc, Or.inl rfl⟩
  case compensateVerify exc => exact ⟨hrid, exc, Or.inr rfl⟩
  all_goals
    rw [hpc] at h
    first
    | exact absurd h.symm Bool.false_ne_true
    | exact absurd hrid List.not_mem_nil

/-- A worker in the body that has not sent its commit exposes its release. -/
theorem exposes_of_body {w : Worker} (hbody : w.pc.inBody = true) (hopen : w.pc.closing = false)
    (hstarted : w.commitStarted = false) (hp : w.Phases) {a : Option Reply} {rid : String}
    (hrid : rid ∈ w.held) : rid ∈ w.exposes a := by
  cases hpc : w.pc <;> simp only [exposes, hpc]
  case commitStatus exc =>
    rw [hp.started (Or.inr ⟨exc, hpc⟩)] at hstarted
    exact absurd hstarted (by decide)
  case obtainRelease => exact List.mem_append_right _ (by rw [hstarted]; exact hrid)
  all_goals
    rw [hpc] at hbody hopen
    first
    | exact hrid
    | exact absurd hbody Bool.false_ne_true
    | exact absurd hopen.symm Bool.false_ne_true
    | (rw [hstarted]; exact hrid)

/-- In the body, without an answer, only a release whose commit was not sent is exposed. -/
theorem started_of_exposes {w : Worker} (hbody : w.pc.inBody = true) {rid : String}
    (hrid : rid ∈ w.exposes none) :
    rid ∈ w.held ∧ w.commitStarted = false ∧ w.pc.closing = false := by
  cases hstarted : w.commitStarted with
  | true =>
    refine absurd hrid ?_
    cases hpc : w.pc <;> rw [hpc] at hbody <;> first
      | exact absurd hbody Bool.false_ne_true
      | simp [exposes, hpc, hstarted, saysUncommitted, answeredRelease]
  | false =>
    cases hpc : w.pc <;> rw [hpc] at hbody <;> simp only [exposes, hpc] at hrid
    case compensate | compensateVerify => exact absurd hbody Bool.false_ne_true
    case commitStatus | desiredMark | finish => exact absurd hrid List.not_mem_nil
    case obtainRelease =>
      rw [hstarted] at hrid
      exact ⟨hrid, rfl, rfl⟩
    all_goals
      first
      | exact absurd hbody Bool.false_ne_true
      | (rw [hstarted] at hrid; exact ⟨hrid, rfl, rfl⟩)

/-- **A turn exposes nothing new**, unless it is an exception after the commit. -/
theorem Turn.exposes {w w' : Worker} {answer : Option Reply} (h : w.Turn answer w') (hp : w.Phases)
    (hC : w.pc.closing = true → ∀ exc, w'.pc ≠ .compensate exc) {rid : String}
    (hrid : rid ∈ w'.exposes none) : rid ∈ w.exposes answer := by
  cases h with
  | idle => exact hrid
  | raised _ exc =>
    obtain ⟨hheld, exc', hpc⟩ := exposes_out (raise_body w exc) hrid
    obtain ⟨hbody, hcompensates⟩ := raise_compensates hpc
    have hheld' : rid ∈ w.held := by
      obtain ⟨pc, heq, _⟩ := raise_eq w exc
      rw [heq] at hheld
      exact hheld
    have hopen : w.pc.closing = false := by
      by_contra hc
      obtain ⟨pc, heq, hhandler⟩ := raise_eq w exc
      rw [heq] at hpc
      rcases hpc with hpc | hpc
      · exact hC (by simpa using hc) exc' (by rw [heq]; exact hpc)
      · rw [show pc = .compensateVerify exc' from hpc] at hhandler
        exact absurd hhandler Bool.false_ne_true
    refine exposes_of_body hbody hopen ?_ hp hheld'
    -- before the answer to a status query the flag `commit_state_known` is not set
    simp only [compensates, Bool.and_eq_true, Bool.or_eq_true, Bool.not_eq_true'] at hcompensates
    rcases hcompensates.1.2 with hstarted | hknown
    · exact hstarted
    · rw [hp.unknown hbody hopen] at hknown
      exact absurd hknown (by decide)
  | uncommitted exc r here unmarked =>
    obtain ⟨hheld, _⟩ := exposes_out (raise_body _ exc) hrid
    have hheld' : rid ∈ w.held := by
      obtain ⟨pc, heq, _⟩ := raise_eq { w with commitStateKnown := true } exc
      rw [heq] at hheld
      exact hheld
    simp only [Worker.exposes, here, saysUncommitted, unmarked, Bool.not_false, if_true]
    exact hheld'
  | started pc here body _ _ =>
    obtain ⟨hheld, hstarted, _⟩ := started_of_exposes (w := w.goto pc) body hrid
    exact exposes_of_body (w := w) (by rw [here]; rfl) (by rw [here]; rfl) hstarted hp hheld
  | fetched b here | unpublished e here =>
    obtain ⟨hheld, hstarted, _⟩ := started_of_exposes rfl hrid
    exact exposes_of_body (w := w) (by rw [here]; rfl) (by rw [here]; rfl) hstarted hp hheld
  | obtained r here =>
    obtain ⟨hheld, _⟩ := started_of_exposes rfl hrid
    simp only [Worker.exposes, here, answeredRelease]
    exact List.mem_append_left _ (by simpa [held] using hheld)
  | committing here => exact absurd hrid List.not_mem_nil
  | doubtful e here => exact absurd hrid List.not_mem_nil
  | committed _ result _ =>
    obtain ⟨pc, heq, hpc⟩ := afterBody_eq { w with commitStateKnown := true } result
    rw [heq] at hrid
    rcases hpc with rfl | rfl <;> exact absurd hrid List.not_mem_nil
  | onward _ _ alike body plain closing =>
    obtain ⟨hheld, hstarted, hopen⟩ := started_of_exposes (Pc.plain_cases plain).1 hrid
    rw [alike.started] at hstarted
    rw [held, alike.release] at hheld
    refine exposes_of_body (w := w) body ?_ hstarted hp hheld
    by_contra hc
    rw [closing (by simpa using hc)] at hopen
    exact absurd hopen (by decide)
  | outside _ _ alike out compensates verifies =>
    obtain ⟨hheld, exc, hpc | hpc⟩ := exposes_out out hrid
    · exact absurd hpc (compensates exc)
    · rw [held, alike.release] at hheld
      simp only [Worker.exposes, verifies exc hpc]
      exact hheld

end Worker

end OpencodeCloud.Operations
