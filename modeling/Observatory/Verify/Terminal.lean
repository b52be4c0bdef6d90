import Observatory.Verify.Holders

/-!
# Terminal states

COMPLETED, FAILED and CANCELLED are meant to be final.  Several writers set the status of a run
without looking at it again: the final commit of the coordinator, both finalisations of a
continuation, and the recovery of stuck runs, which reads the rows first and commits later.  A
worker without a heartbeat outlives its lease, and then two of them write the same run.

`Undisturbed` is what keeps them apart: nobody claims a run that is still held or already found
stuck, nobody finds a run stuck that is held or has moved on, and a `/resume` that has loaded a run
PAUSED commits while it is.  Under it a run has one holder, which finds it EXECUTING (`Orderly`), and
terminal states are absorbing.
-/

namespace Observatory

open Effect Effect.Machine

variable {cfg : Settings}

/-- No terminal run changes its status. -/
def KeepsTerminal (_ : History cfg) (e : Event cfg) : Prop :=
  ∀ r s, e.before.runStatus r = some s → s.isTerminal = true → e.after.runStatus r = some s

/-- The run a recovery has found stuck, by the row it loaded before. -/
def foundStuck (h : History cfg) (e : Event cfg) : Option RunId :=
  match e.act with
  | .did p (.ext .utcnow) (.ok now) _ =>
    match phaseOf cfg h p with
    | some ⟨_, .recovering cutoff ((r, loaded) :: _) _⟩ =>
      if Db.stuck cutoff now loaded then some r else none
    | _ => none
  | _ => none

/-- **Writers kept apart.**  A run is claimed when nobody holds it and no recovery is about to fail
it, found stuck when nobody holds it and it has not moved on, and resumed while it is paused. -/
structure Undisturbed (h : History cfg) (e : Event cfg) : Prop where
  claim : ∀ r ∈ claimedRun e, Free h r ∧ Unpicked h r
  recovery : ∀ r ∈ foundStuck h e, Free h r ∧
    (e.before.runStatus r = some .executing ∨ e.before.runStatus r = some .failed)
  resume : ∀ r ∈ unpausedRun e, e.before.runStatus r = some .paused

instance (h : History cfg) (e : Event cfg) : Decidable (Undisturbed h e) :=
  decidable_of_iff (_ ∧ _ ∧ _) ⟨fun hu => ⟨hu.1, hu.2.1, hu.2.2⟩, fun hu => ⟨hu.1, hu.2, hu.3⟩⟩

/-- One holder a run, which finds it EXECUTING; and a run about to be failed has no holder. -/
structure Orderly (h : History cfg) (w : World) : Prop where
  alone : SoleHolders h
  executing : ∀ {p : Pid} {r : RunId}, Held h p r →
    ∃ run, w.db.runs[r]? = some run ∧ run.status = .executing
  picked : ∀ {p : Pid} {g : Phase} {r : RunId}, phaseOf cfg h p = some g → g.stage.picks r = true →
    Free h r ∧ ∃ run, w.db.runs[r]? = some run ∧ (run.status = .executing ∨ run.status = .failed)

section steps

variable {h : History cfg} {w : World} {e : Event cfg} {p p' : Pid} {r : RunId}

/-- What finding a run stuck is. -/
theorem foundStuck_some (hf : foundStuck h e = some r) :
    ∃ p g cutoff now loaded rest picked stays, phaseOf cfg h p = some g ∧
      g.stage = .recovering cutoff ((r, loaded) :: rest) picked ∧
      Db.stuck cutoff now loaded = true ∧ e.act = .did p (.ext .utcnow) (.ok now) stays := by
  unfold foundStuck at hf
  split at hf
  · next p now stays act =>
    split at hf
    · next entry cutoff r' loaded rest picked hg =>
      split at hf
      · next hstuck =>
        cases hf
        exact ⟨p, _, cutoff, now, loaded, rest, picked, stays, hg, rfl, hstuck, act⟩
      · cases hf
    · cases hf
  · cases hf

/-- A run is found stuck before a recovery is about to fail it. -/
theorem Lawful.picked {g : Phase} (hl : Lawful cfg h w e) (hg : phaseOf cfg (e :: h) p = some g)
    (hr : g.stage.picks r = true) :
    (∃ g₀, phaseOf cfg h p = some g₀ ∧ g₀.stage.picks r = true) ∨ foundStuck h e = some r := by
  cases hl.became hg with
  | kept running other => exact .inl ⟨g, running, hr⟩
  | started q act phase =>
    subst phase
    cases q <;> cases hr
  | @did o res g₀ act running step =>
    cases step with
    | dlq h₀ => exact .inl ⟨g, running, hr⟩
    | operated h₀ => exact .inl ⟨g, running, hr⟩
    | logged h₀ => exact .inl ⟨g, running, hr⟩
    | @judged cutoff now r₀ loaded rest picked h₀ =>
      obtain ⟨entry, stage⟩ := g₀
      cases h₀
      by_cases hstuck : Db.stuck cutoff now loaded = true
      · simp only [Phase.at', Stage.picks, hstuck, ite_true, List.any_append, List.any_cons,
          List.any_nil, Bool.or_false, Bool.or_eq_true, decide_eq_true_eq] at hr
        rcases hr with hr | rfl
        · exact .inl ⟨_, running, hr⟩
        · right
          simp only [foundStuck, act, running, hstuck, ite_true]
      · simp only [Phase.at', Stage.picks, hstuck, Bool.false_eq_true, ite_false] at hr
        exact .inl ⟨_, running, hr⟩
    | _ => cases hr

/-- A run is resumed out of PAUSED. -/
theorem Undisturbed.resumes {run : Run} (hu : Undisturbed h e) (hl : Lawful cfg h w e)
    (hres : unpausedRun e = some r) (hrow : w.db.runs[r]? = some run) : run.status = .paused := by
  have hs := hu.resume r hres
  rw [hl.before, World.runStatus_eq] at hs
  obtain ⟨run₀, hrow₀, hs⟩ := hs
  cases hrow.symm.trans hrow₀
  exact hs

theorem Orderly.executing_step (hsound : Sound h w) (ho : Orderly h w) (hl : Lawful cfg h w e)
    (hu : Undisturbed h e) (hp : Held (e :: h) p r) :
    ∃ run, e.after.db.runs[r]? = some run ∧ run.status = .executing := by
  rcases hl.held hp with hold | hc
  swap
  · obtain ⟨run, -, -, hrow'⟩ := hl.claims hc
    exact ⟨_, hrow', rfl⟩
  obtain ⟨run, hrow, hexec⟩ := ho.executing hold
  obtain ⟨run', hrow'⟩ := hl.run_kept hsound hrow
  refine ⟨run', hrow', ?_⟩
  cases hl.status hsound hrow hrow' with
  | unchanged hs => rw [hs, hexec]
  | settled held hset act =>
    obtain rfl := ho.alone _ _ _ hold held
    rw [hl.holds_on_status hold hp act hrow hrow', hexec]
  | claimed hc => exact absurd hold (hu.claim r hc.claimedRun).1.not_held
  | recovered running picks => exact absurd hold (ho.picked running picks).1.not_held
  | decided hs =>
    rw [hs] at hexec
    cases hexec
  | resumed hres =>
    rw [hu.resumes hl hres hrow] at hexec
    cases hexec

theorem Orderly.picked_step {g : Phase} (hsound : Sound h w) (ho : Orderly h w)
    (hl : Lawful cfg h w e) (hu : Undisturbed h e) (hg : phaseOf cfg (e :: h) p = some g)
    (hr : g.stage.picks r = true) :
    Free (e :: h) r ∧ ∃ run, e.after.db.runs[r]? = some run ∧
      (run.status = .executing ∨ run.status = .failed) := by
  have hwas : Free h r ∧ claimedRun e ≠ some r ∧
      ∃ run, w.db.runs[r]? = some run ∧ (run.status = .executing ∨ run.status = .failed) := by
    rcases hl.picked hg hr with ⟨g₀, hg₀, hr₀⟩ | hfound
    · obtain ⟨hfree, hrow⟩ := ho.picked hg₀ hr₀
      refine ⟨hfree, fun hc => ?_, hrow⟩
      have hun := (hu.claim r hc).2 p g₀ hg₀
      rw [hr₀] at hun
      cases hun
    · obtain ⟨hfree, hstatus⟩ := hu.recovery r hfound
      obtain ⟨_, _, _, _, _, _, _, _, -, -, -, act⟩ := foundStuck_some hfound
      refine ⟨hfree, by simp [claimedRun, act], ?_⟩
      rw [hl.before, World.runStatus_eq, World.runStatus_eq] at hstatus
      rcases hstatus with ⟨run, hrow, hs⟩ | ⟨run, hrow, hs⟩
      · exact ⟨run, hrow, .inl hs⟩
      · exact ⟨run, hrow, .inr hs⟩
  obtain ⟨hfree, hnc, run, hrow, hstatus⟩ := hwas
  obtain ⟨run', hrow'⟩ := hl.run_kept hsound hrow
  refine ⟨free_of_not_held fun p' hp' => ?_, run', hrow', ?_⟩
  · rcases hl.held hp' with hold | hc
    · exact hfree.not_held hold
    · exact hnc hc.claimedRun
  · cases hl.status hsound hrow hrow' with
    | unchanged hs => rwa [hs]
    | settled held hset act => exact absurd held hfree.not_held
    | claimed hc => exact absurd hc.claimedRun hnc
    | recovered running picks hs' => exact .inr hs'
    | decided hs => rw [hs] at hstatus; simp at hstatus
    | resumed hres => rw [hu.resumes hl hres hrow] at hstatus; simp at hstatus

/-- Terminal runs keep their status in an orderly state. -/
theorem Orderly.keeps (hsound : Sound h w) (ho : Orderly h w) (hl : Lawful cfg h w e)
    (hu : Undisturbed h e) : KeepsTerminal h e := by
  intro r s hs hterm
  rw [hl.before, World.runStatus_eq] at hs
  obtain ⟨run, hrow, rfl⟩ := hs
  obtain ⟨run', hrow'⟩ := hl.run_kept hsound hrow
  refine World.runStatus_eq.2 ⟨run', hrow', ?_⟩
  have hnot : run.status ≠ .executing := by
    intro hs
    rw [hs] at hterm
    cases hterm
  cases hl.status hsound hrow hrow' with
  | unchanged hs => exact hs
  | settled held hset act =>
    obtain ⟨run₀, hrow₀, hexec⟩ := ho.executing held
    cases hrow.symm.trans hrow₀
    exact absurd hexec hnot
  | claimed hc =>
    obtain ⟨run₀, hrow₀, hclaim, -⟩ := hl.claims hc
    cases hrow.symm.trans hrow₀
    simp only [Db.claimable, hnot, decide_false, Bool.false_and, Bool.or_false,
      decide_eq_true_eq] at hclaim
    rw [hclaim] at hterm
    cases hterm
  | recovered running picks hs' =>
    obtain ⟨-, run₀, hrow₀, hexec | hfail⟩ := ho.picked running picks
    · cases hrow.symm.trans hrow₀
      exact absurd hexec hnot
    · cases hrow.symm.trans hrow₀
      rw [hs', hfail]
  | decided hs =>
    rw [hs] at hterm
    cases hterm
  | resumed hres =>
    rw [hu.resumes hl hres hrow] at hterm
    cases hterm

theorem Orderly.step (hsound : Sound h w) (ho : Orderly h w) (hl : Lawful cfg h w e)
    (hu : Undisturbed h e) : Orderly (e :: h) e.after where
  alone := ho.alone.step hl fun r hc => (hu.claim r hc).1
  executing := ho.executing_step hsound hl hu
  picked := ho.picked_step hsound hl hu

end steps

theorem Orderly.initial (w : World) : Orderly ([] : History cfg) w := by
  refine ⟨.initial, ?_, ?_⟩
  · rintro p r ⟨g, hg, -⟩
    cases hg
  · intro p g r hg
    cases hg

/-- **Terminal states are absorbing** in every run whose writers are kept apart. -/
theorem terminal_absorbing {c : Config (system cfg)} (hc : Reachable cfg Undisturbed c) :
    Historically KeepsTerminal c.hist :=
  Reachable.historically (P := Orderly) (fun w _ => .initial w)
    (fun _ _ _ hsound ho hl hu => ⟨ho.step hsound hl hu, ho.keeps hsound hl hu⟩) hc

/-- A run that is worked on without disturbance up to COMPLETED. -/
theorem terminal_absorbing_completed : ∃ c : Config (system {}),
    c.world.runStatus 0 = some .completed ∧ Historically KeepsTerminal c.hist := by
  obtain ⟨c, hc, hstatus⟩ := reachable_of_run (K := Undisturbed) (fun c => c.world.runStatus 0)
    (x := some .completed) (World.empty_initial 0 [])
    (approvalGranted {} ++ serve {} 1 .processOne 8) (by decide +kernel)
  exact ⟨c, hstatus, terminal_absorbing hc⟩

/-- **A terminal status is overwritten.**  The continuation's call outlasts the lease, the recovery
fails the run and enqueues a successor, and then the call returns and completes the failed run. -/
theorem terminal_overwritten : ∃ c : Config (system {}),
    Reachable {} anyEvent c ∧ ¬Historically KeepsTerminal c.hist := by
  obtain ⟨c, hc, hsee⟩ := reachable_of_run (K := anyEvent)
    (fun c => c.hist.head?.map fun e => (e.before.runStatus 0, e.after.runStatus 0))
    (x := some (some .failed, some .completed)) (World.empty_initial 0 [])
    (approvalGranted {} ++ serve {} 1 .processOne 5 ++ [.tick (.advance 31000)] ++
      serve {} 2 .checkSources 8 ++ List.replicate 2 (.perform 1 {})) (by decide +kernel)
  refine ⟨c, hc, fun hkeeps => ?_⟩
  obtain ⟨e, he, hstatus⟩ := Option.map_eq_some_iff.1 hsee
  obtain ⟨h, hhist⟩ := List.head?_eq_some_iff.1 he
  rw [hhist] at hkeeps
  have hbefore : e.before.runStatus 0 = some .failed := congrArg Prod.fst hstatus
  have hafter : e.after.runStatus 0 = some .completed := congrArg Prod.snd hstatus
  have hkept := hkeeps.1 0 .failed hbefore rfl
  rw [hafter] at hkept
  cases hkept

end Observatory
