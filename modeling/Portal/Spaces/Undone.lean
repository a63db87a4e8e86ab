import Portal.Spaces.Moved

/-!
# A failed move leaves what it found (`space_move.rs`: `Moves::undo`, `copy`, `release`)

The target may hold data of its own under the space's tenant.  A move that holds the space anew
looks before it copies; one that finds the hold there takes what the target holds for its own copy.
What failed is undone: the copy purged, the hold released.

* `Plain`             the condition on a move's steps;
* `Found`, `Intact`   what the target holds in each stage, and the invariant;
* `step_intact`       one step keeps it;
* `left_as_found`     nothing foreign is purged or copied over, an undone move left no trace;
* `foreign_purged`    a hold that was not released.
-/

namespace Portal
namespace Spaces

section
variable {ρ : Type} [DecidableEq ρ] (b : Brokers ρ)

def resumes (s : World ρ) (job : Job ρ) : Bool :=
  job.stage = .holding && annotate job.plan.target s.manifest = s.manifest

/-- a move that resumes finds nothing of anyone else's in the target, and is not undone over a copy
it found; an import that failed left nothing -/
def Plain (t : Trans (World ρ) (Event ρ)) : Prop :=
  Clear b t ∧
  match t.act, t.before.job with
  | .commit _, some job => resumes t.before job = true →
      t.before.contents job.plan.target ⊆ t.before.own job.plan.target
  | .copy part (some _), some job => part ⊆ t.before.contents job.plan.target
  | .purge _, some job => job.resumed = true → job.found = ∅
  | _, _ => True

instance (t : Trans (World ρ) (Event ρ)) : Decidable (Plain b t) := by
  obtain ⟨s, e, s'⟩ := t
  unfold Plain
  have h : Decidable (match e, s.job with
    | .commit _, some job => resumes s job = true →
        s.contents job.plan.target ⊆ s.own job.plan.target
    | .copy part (some _), some job => part ⊆ s.contents job.plan.target
    | .purge _, some job => job.resumed = true → job.found = ∅
    | _, _ => True) := by
    split <;> infer_instance
  infer_instance

end

section
variable {ρ : Type}

def Found (s : World ρ) (job : Job ρ) : Prop :=
  match job.stage with
  | .holding => s.contents job.plan.target = job.found ∧ job.resumed = false
  | .awaiting fresh => s.contents job.plan.target = job.found ∧ job.resumed = !fresh ∧
      (fresh = false → job.found ⊆ s.own job.plan.target)
  | .probing => s.contents job.plan.target = job.found ∧ job.resumed = false
  | .copying => s.contents job.plan.target = job.found ∧ job.found ⊆ s.own job.plan.target ∧
      (job.resumed = false → job.found = ∅)
  | .comparing _ | .switching | .purging _ =>
      s.contents job.plan.target ⊆ s.own job.plan.target ∧ (job.resumed = false → job.found = ∅)
  | .releasing _ undone => undone = true → s.contents job.plan.target = job.found

/-- a move that runs finds its way back: to the manifest before the hold, and to the target as it
was -/
structure Intact (s : World ρ) : Prop where
  shaped : Shaped s.manifest
  unheld : s.job.isSome = true ∨ moving s.manifest = true → release s.manifest = tidy s.unheld
  found : ∀ job, s.job = some job → Found s job

theorem found_congr {s s' : World ρ} {job : Job ρ}
    (hcontents : s'.contents job.plan.target = s.contents job.plan.target)
    (hown : s'.own job.plan.target = s.own job.plan.target) (h : Found s job) : Found s' job := by
  unfold Found at h ⊢
  rw [hcontents, hown]
  exact h

theorem own_of_stage {s : World ρ} {job : Job ρ} (h : Found s job)
    (hstage : job.stage = .copying ∨ ∃ first, job.stage = .purging first) :
    s.contents job.plan.target ⊆ s.own job.plan.target := by
  unfold Found at h
  rcases hstage with hcopying | ⟨first, hpurging⟩
  · rw [hcopying] at h
    rw [h.1]
    exact h.2.1
  · rw [hpurging] at h
    exact h.1

theorem found_fail {s : World ρ} {job : Job ρ} (h : Found s job)
    (hstage : ∀ first undone, job.stage ≠ .releasing first undone) (reason : String) :
    Found s { job with stage := job.stage.fail reason } := by
  obtain ⟨plan, stage, resumed, found⟩ := job
  cases stage with
  | holding => exact fun _ => h.1
  | awaiting fresh => exact fun _ => h.1
  | probing => exact fun _ => h.1
  | copying => exact fun _ => h.1
  | comparing source => exact h
  | switching => exact h
  | purging first => exact nofun
  | releasing first undone => exact absurd rfl (hstage first undone)

theorem Intact.at {s' : World ρ} {job : Job ρ} {stage : Stage} (hshaped : Shaped s'.manifest)
    (hunheld : release s'.manifest = tidy s'.unheld)
    (hfound : Found (s'.at job stage) { job with stage := stage }) : Intact (s'.at job stage) where
  shaped := hshaped
  unheld _ := hunheld
  found := by
    intro job₁ h₁
    cases h₁
    exact hfound

theorem Intact.finish {s' : World ρ} (hshaped : Shaped s'.manifest)
    (hunheld : moving s'.manifest = true → release s'.manifest = tidy s'.unheld) (ended : Ended) :
    Intact (s'.finish ended) where
  shaped := hshaped
  unheld h := hunheld (h.resolve_left (by simp [World.finish]))
  found := nofun

theorem eq_empty_of_digest {b : Brokers ρ} {records : Finset ρ}
    (h : ¬ ((b.digest records).entities > 0 || (b.digest records).attrInstances > 0) = true) :
    records = ∅ := by
  simp only [Brokers.digest, gt_iff_lt, Bool.or_eq_true, decide_eq_true_eq, not_or, not_lt,
    Nat.le_zero, Finset.card_eq_zero, Finset.filter_eq_empty_iff] at h
  rw [Finset.eq_empty_iff_forall_notMem]
  intro r hr
  exact h.2 hr (h.1 hr)

section
variable {s s' : World ρ} {job : Job ρ}

theorem commitStep_intact {lost : Option String} (h : commitStep s job lost = some s')
    (hjob : s.job = some job) (hs : Intact s)
    (hanswered : lost = none ∨ job.stage ≠ .switching)
    (hforeign : resumes s job = true → s.contents job.plan.target ⊆ s.own job.plan.target) :
    Intact s' := by
  have hunheld : release s.manifest = tidy s.unheld := hs.unheld (.inl (by rw [hjob]; rfl))
  have hfound := hs.found job hjob
  unfold Found at hfound
  unfold commitStep at h
  split at h
  · rename_i hstage
    rw [hstage] at hfound
    split at h
    · rename_i hsame
      cases h
      have hown : job.found ⊆ s.own job.plan.target := by
        rw [← hfound.1]
        exact hforeign (by simp [resumes, hstage, hsame])
      exact Intact.at hs.shaped hunheld ⟨hfound.1, rfl, fun _ => hown⟩
    · cases h
      have hedited : release (annotate job.plan.target s.manifest) = tidy s.unheld :=
        (release_annotate _ _).trans hunheld
      cases lost with
      | none => exact Intact.at (shaped_annotate _ _) hedited ⟨hfound.1, hfound.2, nofun⟩
      | some reason =>
        refine Intact.at (shaped_annotate _ _) hedited ?_
        rw [hstage]
        exact fun _ => hfound.1
  · rename_i hstage
    split at h
    · cases h
      exact Intact.finish hs.shaped (fun _ => hunheld) .done
    · cases lost with
      | none =>
        cases h
        refine Intact.finish (shaped_switchTo _ _) (fun hmoving => ?_) .done
        rw [show moving _ = _ from moving_switchTo job.plan.target s.manifest] at hmoving
        exact absurd hmoving (by simp)
      | some reason => exact absurd hstage (hanswered.resolve_left (by simp))
  · have hreleased : ∀ ended, Intact ({ s with manifest := release s.manifest }.finish ended) := by
      intro ended
      refine Intact.finish (shaped_release _) (fun hmoving => ?_) ended
      rw [show moving _ = _ from moving_release s.manifest] at hmoving
      exact absurd hmoving (by simp)
    split at h
    · cases h
      exact Intact.finish hs.shaped (fun _ => hunheld) _
    · cases lost with
      | none =>
        cases h
        exact hreleased _
      | some reason =>
        cases h
        exact hreleased _
  · exact absurd h (by simp)

theorem digestStep_intact {b : Brokers ρ} (h : digestStep b s job = some s')
    (hjob : s.job = some job) (hs : Intact s) : Intact s' := by
  have hunheld : release s.manifest = tidy s.unheld := hs.unheld (.inl (by rw [hjob]; rfl))
  have hfound := hs.found job hjob
  unfold Found at hfound
  unfold digestStep at h
  dsimp only at h
  split at h
  · rename_i hstage
    rw [hstage] at hfound
    split at h
    · cases h
      exact Intact.at hs.shaped hunheld (fun _ => hfound.1)
    · rename_i hcounts
      cases h
      have hempty : job.found = ∅ := hfound.1.symm.trans (eq_empty_of_digest hcounts)
      refine Intact.at hs.shaped hunheld ⟨hfound.1, ?_, fun _ => hempty⟩
      change job.found ⊆ _
      rw [hempty]
      exact Finset.empty_subset _
  · rename_i hstage
    rw [hstage] at hfound
    cases h
    exact Intact.at hs.shaped hunheld hfound
  · rename_i source hstage
    rw [hstage] at hfound
    split at h
    · cases h
      exact Intact.at hs.shaped hunheld hfound
    · cases h
      exact Intact.at hs.shaped hunheld hfound
  · exact absurd h (by simp)

theorem purge_intact {lost : Option String} {first : String} (hjob : s.job = some job)
    (hs : Intact s) (hstage : job.stage = .purging first)
    (hresumed : job.resumed = true → job.found = ∅) :
    Intact ({ s with
      contents := Function.update s.contents job.plan.target ∅
      own := Function.update s.own job.plan.target ∅ }.answered job (.releasing first true)
        lost) := by
  have hunheld : release s.manifest = tidy s.unheld := hs.unheld (.inl (by rw [hjob]; rfl))
  have hfound := hs.found job hjob
  rw [Found, hstage] at hfound
  have hempty : job.found = ∅ := by
    cases hr : job.resumed with
    | true => exact hresumed hr
    | false => exact hfound.2 hr
  cases lost with
  | none =>
    refine Intact.at hs.shaped hunheld (fun _ => ?_)
    simp only [World.at, Function.update_self]
    exact hempty.symm
  | some reason =>
    refine Intact.at hs.shaped hunheld ?_
    rw [hstage]
    exact nofun

variable [DecidableEq ρ]

/-- **The copy**: over nothing foreign, and where it failed over nothing new. -/
theorem copy_intact {part : Finset ρ} {lost : Option String} (hjob : s.job = some job)
    (hs : Intact s) (hstage : job.stage = .copying)
    (hpart : lost = none ∨ part ⊆ s.contents job.plan.target) :
    Intact ({ s with
      contents := Function.update s.contents job.plan.target (s.contents job.plan.target ∪ part)
      own := Function.update s.own job.plan.target (s.own job.plan.target ∪ part) }.answered job
        (.comparing none) lost) := by
  have hunheld : release s.manifest = tidy s.unheld := hs.unheld (.inl (by rw [hjob]; rfl))
  have hfound := hs.found job hjob
  rw [Found, hstage] at hfound
  obtain ⟨heq, hown, hempty⟩ := hfound
  cases lost with
  | none =>
    refine Intact.at hs.shaped hunheld ⟨?_, hempty⟩
    have hsub : s.contents job.plan.target ∪ part ⊆ s.own job.plan.target ∪ part := by
      rw [heq]
      exact Finset.union_subset_union_left hown
    simpa only [World.at, Function.update_self] using hsub
  | some reason =>
    refine Intact.at hs.shaped hunheld ?_
    have hsame : s.contents job.plan.target ∪ part = job.found := by
      rw [Finset.union_eq_left.mpr (hpart.resolve_left (by simp))]
      exact heq
    rw [hstage]
    intro _
    simpa only [World.at, Function.update_self] using hsame

theorem jobStep_intact {b : Brokers ρ} {e : Event ρ} (h : jobStep b s job e = some s')
    (hjob : s.job = some job) (hs : Intact s)
    (hanswered : ∀ reason, e = .commit (some reason) → job.stage ≠ .switching)
    (hplain : Plain b ⟨s, e, s'⟩) : Intact s' := by
  have hunheld : release s.manifest = tidy s.unheld := hs.unheld (.inl (by rw [hjob]; rfl))
  have hfound := hs.found job hjob
  have hcond := hplain.2
  cases e with
  | commit lost =>
    simp only [hjob] at hcond
    refine commitStep_intact h hjob hs ?_ hcond
    cases lost with
    | none => exact .inl rfl
    | some reason => exact .inr (hanswered reason rfl)
  | held =>
    simp only [jobStep] at h
    split at h
    · rename_i fresh hstage
      rw [Found, hstage] at hfound
      obtain ⟨heq, hresumed, hown⟩ := hfound
      split at h
      · cases h
        refine Intact.at hs.shaped hunheld ?_
        cases fresh with
        | true => exact ⟨heq, hresumed⟩
        | false =>
          refine ⟨heq, hown rfl, ?_⟩
          intro hfresh
          exact absurd (hresumed.symm.trans hfresh) (by simp)
      · exact absurd h (by simp)
    · exact absurd h (by simp)
  | digest => exact digestStep_intact h hjob hs
  | copy part lost =>
    simp only [jobStep] at h
    split at h
    · rename_i hcopy
      cases h
      refine copy_intact hjob hs hcopy.1 ?_
      cases lost with
      | none => exact .inl rfl
      | some reason =>
        simp only [hjob] at hcond
        exact .inr hcond
    · exact absurd h (by simp)
  | purge lost =>
    simp only [jobStep] at h
    split at h
    · rename_i first hstage
      cases h
      simp only [hjob] at hcond
      exact purge_intact hjob hs hstage hcond
    · exact absurd h (by simp)
  | refuse reason =>
    simp only [jobStep, Option.some.injEq] at h
    subst h
    unfold refuseStep
    split
    · exact Intact.finish hs.shaped (fun _ => hunheld) _
    · rename_i hstage
      exact Intact.at hs.shaped hunheld (found_fail hfound hstage reason)
  | _ => exact absurd h (by simp [jobStep])

end

variable [DecidableEq ρ] {b : Brokers ρ}

/-- **One step**: the way back stays open. -/
theorem step_intact {s s' : World ρ} {e : Event ρ} (h : step b s e = some s')
    (hplain : Plain b ⟨s, e, s'⟩) (hp : Placed b s) (hs : Intact s) : Intact s' := by
  have hrun : s.job.bind (fun job => jobStep b s job e) = some s' → Intact s' := by
    intro h
    obtain ⟨job, hjob, hstep, hanswered⟩ := jobStep_of_step h hplain.1
    exact jobStep_intact hstep hjob hs hanswered hplain
  cases e with
  | start plan =>
    simp only [step] at h
    split at h
    · cases h
      refine ⟨hs.shaped, fun _ => ?_, ?_⟩
      · change release s.manifest = tidy (if moving s.manifest then s.unheld else s.manifest)
        split
        · rename_i hmoving
          exact hs.unheld (.inr hmoving)
        · rename_i hfree
          exact release_of_not_moving hs.shaped (by simpa using hfree)
      · intro job hjob
        cases hjob
        exact ⟨rfl, rfl⟩
    · exact absurd h (by simp)
  | restart =>
    cases h
    refine ⟨hs.shaped, fun hmoving => hs.unheld (.inr ?_), fun _ h => absurd h (by simp)⟩
    exact hmoving.resolve_left (by simp)
  | poll =>
    cases h
    exact ⟨hs.shaped, hs.unheld, hs.found⟩
  | write records =>
    simp only [step] at h
    split at h
    · exact absurd h (by simp)
    · rename_i hheld
      cases h
      have hroute : s.gateway.route = b.home s := hp.route (by simpa using hheld)
      refine ⟨hs.shaped, hs.unheld, ?_⟩
      intro job hjob
      have hin := hp.move job hjob
      refine found_congr (s := s) ?_ rfl (hs.found job hjob)
      -- what is written goes to the broker named, which is not the target
      change Function.update s.contents s.gateway.route records job.plan.target = _
      rw [hroute, hin.home]
      exact Function.update_of_ne hin.other.symm _ _
  | commit lost => exact hrun h
  | held => exact hrun h
  | digest => exact hrun h
  | copy part lost => exact hrun h
  | purge lost => exact hrun h
  | refuse reason => exact hrun h

theorem stage_of_step {s s' : World ρ} {e : Event ρ} {job : Job ρ} (h : step b s e = some s')
    (hjob : s.job = some job)
    (he : (∃ lost, e = .purge lost) ∨ ∃ part lost, e = .copy part lost) :
    job.stage = .copying ∨ ∃ first, job.stage = .purging first := by
  rcases he with ⟨lost, rfl⟩ | ⟨part, lost, rfl⟩
  · simp only [step, hjob, Option.bind_some, jobStep] at h
    split at h
    · rename_i first hstage
      exact .inr ⟨first, hstage⟩
    · exact absurd h (by simp)
  · simp only [step, hjob, Option.bind_some, jobStep] at h
    split at h
    · rename_i hcopy
      exact .inl hcopy.1
    · exact absurd h (by simp)

/-- **The undo**: the hold released and the target as it was found. -/
theorem released_as_found {s s' : World ρ} {job : Job ρ} {reason : String}
    (h : step b s (.commit none) = some s') (hjob : s.job = some job)
    (hstage : job.stage = .releasing reason true) (hs : Intact s) :
    s'.last = some (.failed reason) ∧ tidy s'.manifest = tidy s.unheld ∧
      s'.contents job.plan.target = job.found := by
  have hunheld : release s.manifest = tidy s.unheld := hs.unheld (.inl (by rw [hjob]; rfl))
  have hfound := hs.found job hjob
  rw [Found, hstage] at hfound
  simp only [step, hjob, Option.bind_some, jobStep, commitStep, hstage] at h
  split at h
  · rename_i hsame
    cases h
    refine ⟨rfl, ?_, hfound rfl⟩
    change tidy s.manifest = tidy s.unheld
    rw [← tidy_tidy s.unheld, ← hunheld, hsame]
  · cases h
    refine ⟨rfl, ?_, hfound rfl⟩
    change tidy (release s.manifest) = tidy s.unheld
    rw [hunheld, tidy_tidy]

/-- **A failed move leaves what it found**: in every run whose steps are plain, over any number of
moves and restarts, a move purges and copies over nothing but what moves of the space copied there,
and one whose undo succeeds leaves the manifest before its hold and the target as it was. -/
theorem left_as_found {s₀ s : World ρ} {tr : List (Trans (World ρ) (Event ρ))}
    (hidle : s₀.job = none) (hroute : s₀.gateway.held = false → s₀.gateway.route = b.home s₀)
    (hshaped : Shaped s₀.manifest)
    (hunheld : moving s₀.manifest = true → release s₀.manifest = tidy s₀.unheld)
    (hr : Run (step b) s₀ tr s) (hplain : ∀ t ∈ tr, Plain b t) :
    (∀ t ∈ tr, ∀ job, t.before.job = some job →
      ((∃ lost, t.act = .purge lost) ∨ ∃ part lost, t.act = .copy part lost) →
      t.before.contents job.plan.target ⊆ t.before.own job.plan.target) ∧
    (∀ t ∈ tr, ∀ job reason, t.act = .commit none → t.before.job = some job →
      job.stage = .releasing reason true →
      t.after.last = some (.failed reason) ∧ tidy t.after.manifest = tidy t.before.unheld ∧
        t.after.contents job.plan.target = job.found) := by
  have hstart : Intact s₀ :=
    ⟨hshaped, fun h => hunheld (h.resolve_left (by simp [hidle])), by simp [hidle]⟩
  have hintact : ∀ t ∈ tr, Intact t.before ∧ step b t.before t.act = some t.after := by
    intro t ht
    obtain ⟨l, l', rfl⟩ := List.append_of_mem ht
    obtain ⟨hr', hstep, -⟩ := hr.at
    have hboth : Placed b t.before ∧ Intact t.before := by
      refine Run.invariant (C := Plain b) (I := fun s => Placed b s ∧ Intact s)
        ⟨⟨hroute, by simp [hidle]⟩, hstart⟩ ?_ hr'
        (fun t' ht' => hplain t' (List.mem_append_left _ ht'))
      intro s e s' hstep hc ⟨hp, hs⟩
      exact ⟨step_placed hstep hc.1 hp, step_intact hstep hc hp hs⟩
    exact ⟨hboth.2, hstep⟩
  constructor
  · intro t ht job hjob he
    obtain ⟨hs, hstep⟩ := hintact t ht
    exact own_of_stage (hs.found job hjob) (stage_of_step hstep hjob he)
  · intro t ht job reason hact hjob hstage
    obtain ⟨hs, hstep⟩ := hintact t ht
    rw [hact] at hstep
    exact released_as_found hstep hjob hstage hs

end

/-! ## a tenant of someone else's -/

/-- the target holds data: the move is refused, and released -/
def refusedAndReleased : List (Event Bool) :=
  [.start ⟨"main", "canary"⟩, .commit none, .poll, .held, .digest, .commit none]

/-- the same with a release that fails; the next move finds the hold there -/
def resumedOverForeign : List (Event Bool) :=
  [.start ⟨"main", "canary"⟩, .commit none, .poll, .held, .digest, .refuse "timeout",
    .start ⟨"main", "canary"⟩, .commit none, .held, .copy {true} none, .digest, .digest, .purge none]

theorem left_as_found_of_foreign :
    (final (step twoRecords) (airWorld {true} {false}) refusedAndReleased).contents "canary"
      = {false} ∧
    ∀ t ∈ trace (step twoRecords) (airWorld {true} {false}) refusedAndReleased, ∀ job reason,
      t.act = .commit none → t.before.job = some job → job.stage = .releasing reason true →
      t.after.last = some (.failed reason) ∧ tidy t.after.manifest = tidy t.before.unheld ∧
        t.after.contents job.plan.target = job.found := by
  have hrun : Run (step twoRecords) (airWorld {true} {false})
      (trace (step twoRecords) (airWorld {true} {false}) refusedAndReleased)
      (final (step twoRecords) (airWorld {true} {false}) refusedAndReleased) :=
    run_trace (by decide +kernel)
  have hshaped : Shaped (airWorld {true} {false}).manifest :=
    ⟨.ofList [("name", .other (.string "air"))], by decide +kernel, .inl (by decide +kernel)⟩
  refine ⟨by decide +kernel, ?_⟩
  exact (left_as_found rfl (by decide +kernel) hshaped (by decide +kernel) hrun
    (by decide +kernel)).2

/-- **Someone else's data is purged**: the hold of a refused move was not released, so the next one
takes the tenant for its own copy, mixes its copy in and purges both. -/
theorem foreign_purged :
    Run (step twoRecords) (airWorld {true} {false})
      (trace (step twoRecords) (airWorld {true} {false}) resumedOverForeign)
      (final (step twoRecords) (airWorld {true} {false}) resumedOverForeign) ∧
    (∃ t ∈ trace (step twoRecords) (airWorld {true} {false}) resumedOverForeign,
      t.act = .purge none ∧ false ∈ t.before.contents "canary" ∧ false ∉ t.before.own "canary" ∧
      false ∉ t.after.contents "canary") := by
  exact ⟨run_trace (by decide +kernel), by decide +kernel⟩

end Spaces
end Portal
