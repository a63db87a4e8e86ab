import Mathlib.Data.Fintype.Powerset
import Portal.Spaces.Move

/-!
# A moved space keeps its data (`space_move.rs`: `Moves::steps`, `undo`)

The committed manifest names one broker, and that broker has to hold what the space held when its
hold took effect.  The move compares both brokers before it switches, and nothing is written in
between, as long as it stays between the broker named and its target.

* `Compared`, `Safe`      what the comparison says, and the invariant;
* `step_safe`             one step keeps it;
* `moved_with_its_data`   the broker named holds the space, and is never the one purged;
* `moved_away_from_its_data`   a switch whose answer is lost.
-/

namespace Portal
namespace Spaces

section
variable {ρ : Type} (b : Brokers ρ)

/-- what the digests answered so far say -/
def Compared (s : World ρ) (job : Job ρ) : Prop :=
  match job.stage with
  | .comparing source => ∀ d, source = some d → d = b.digest (s.contents job.plan.source)
  | .switching => s.contents job.plan.source = s.contents job.plan.target
  | _ => True

/-- the broker named holds the space -/
structure Safe (s : World ρ) : Prop where
  space : s.space ⊆ s.contents (b.home s)
  compared : ∀ job, s.job = some job → Compared b s job

/-- the space and the broker named, as a step of the move leaves them -/
structure Leaves (s s' : World ρ) : Prop where
  space : s'.space = s.space
  home : b.home s' = b.home s
  contents : s'.contents (b.home s) = s.contents (b.home s)

end

section
variable {ρ : Type} {b : Brokers ρ}

theorem Leaves.refl (s : World ρ) : Leaves b s s := ⟨rfl, rfl, rfl⟩

theorem leaves_edit (s : World ρ) {m : Manifest} (h : brokerRef m = brokerRef s.manifest) :
    Leaves b s { s with manifest := m } :=
  ⟨rfl, congrArg b.brokerOf h, rfl⟩

theorem leaves_update {s : World ρ} {job : Job ρ} (hin : InMove b s job) (records : Finset ρ)
    (own : String → Finset ρ) :
    Leaves b s { s with
      contents := Function.update s.contents job.plan.target records, own := own } := by
  refine ⟨rfl, rfl, ?_⟩
  rw [hin.home]
  exact Function.update_of_ne hin.other _ _

theorem Safe.finish {s s' : World ρ} (hs : Safe b s) (hl : Leaves b s s') (ended : Ended) :
    Safe b (s'.finish ended) where
  space := by
    change s'.space ⊆ s'.contents (b.home s')
    rw [hl.space, hl.home, hl.contents]
    exact hs.space
  compared := nofun

theorem Safe.at {s s' : World ρ} {job : Job ρ} {stage : Stage} (hs : Safe b s)
    (hl : Leaves b s s') (hcompared : Compared b (s'.at job stage) { job with stage := stage }) :
    Safe b (s'.at job stage) where
  space := (hs.finish hl .done).space
  compared := by
    intro job₁ h₁
    cases h₁
    exact hcompared

theorem compared_fail (s : World ρ) (job : Job ρ) (stage : Stage) (reason : String) :
    Compared b s { job with stage := stage.fail reason } := by
  cases stage <;> exact True.intro

theorem Safe.answered {s s' : World ρ} {job : Job ρ} {next : Stage} (hs : Safe b s)
    (hl : Leaves b s s') (hcompared : Compared b (s'.at job next) { job with stage := next })
    (lost : Option String) : Safe b (s'.answered job next lost) := by
  cases lost with
  | none => exact hs.at hl hcompared
  | some reason => exact hs.at hl (compared_fail _ job job.stage reason)

/-- **The switch**: both digests agreed, and nothing was written since. -/
theorem safe_switched {s : World ρ} {job : Job ρ} (hs : Safe b s) (hin : InMove b s job)
    (hjob : s.job = some job) (hstage : job.stage = .switching) (ended : Ended) :
    Safe b ({ s with manifest := switchTo job.plan.target s.manifest }.finish ended) := by
  have hsame := hs.compared job hjob
  rw [Compared, hstage] at hsame
  refine ⟨?_, nofun⟩
  change s.space ⊆ s.contents (b.brokerOf (brokerRef (switchTo job.plan.target s.manifest)))
  rw [brokerRef_switchTo, b.named _ hin.declared, ← hsame, ← hin.home]
  exact hs.space

theorem commitStep_safe {s s' : World ρ} {job : Job ρ} {lost : Option String}
    (h : commitStep s job lost = some s') (hjob : s.job = some job) (hin : InMove b s job)
    (hs : Safe b s) (hanswered : lost = none ∨ job.stage ≠ .switching) : Safe b s' := by
  unfold commitStep at h
  split at h
  · split at h
    · cases h
      exact hs.at (Leaves.refl s) True.intro
    · cases h
      refine hs.answered (leaves_edit s (brokerRef_annotate _ _)) ?_ lost
      exact True.intro
  · rename_i hstage
    split at h
    · cases h
      exact hs.finish (Leaves.refl s) .done
    · cases lost with
      | none =>
        cases h
        exact safe_switched hs hin hjob hstage .done
      | some reason => exact absurd hstage (hanswered.resolve_left (by simp))
  · split at h
    · cases h
      exact hs.finish (Leaves.refl s) _
    · cases lost with
      | none =>
        cases h
        exact hs.finish (leaves_edit s (brokerRef_release _)) _
      | some reason =>
        cases h
        exact hs.finish (leaves_edit s (brokerRef_release _)) _
  · exact absurd h (by simp)

theorem digestStep_safe (hsha : ∀ c c', b.digest c = b.digest c' → c = c') {s s' : World ρ}
    {job : Job ρ} (h : digestStep b s job = some s') (hjob : s.job = some job) (hs : Safe b s) :
    Safe b s' := by
  have hcompared := hs.compared job hjob
  unfold digestStep at h
  unfold Compared at hcompared
  dsimp only at h
  split at h
  · split at h
    · cases h
      exact hs.at (Leaves.refl s) True.intro
    · cases h
      exact hs.at (Leaves.refl s) True.intro
  · cases h
    refine hs.at (Leaves.refl s) ?_
    intro d hd
    exact (Option.some.inj hd).symm
  · rename_i source hstage
    rw [hstage] at hcompared
    split at h
    · rename_i hsame
      cases h
      exact hs.at (Leaves.refl s) (hsha _ _ ((hcompared source rfl).symm.trans hsame))
    · cases h
      exact hs.at (Leaves.refl s) True.intro
  · exact absurd h (by simp)

theorem compared_write {s : World ρ} {job : Job ρ} (hfree : s.gateway.held = false)
    (hholding : Holding s job) (contents : String → Finset ρ) (records : Finset ρ) :
    Compared b { s with contents := contents, space := records } job := by
  unfold Holding at hholding
  unfold Compared
  split
  · rename_i hstage
    rw [hstage, hfree] at hholding
    exact absurd hholding.2 (by simp)
  · rename_i hstage
    rw [hstage, hfree] at hholding
    exact absurd hholding.2 (by simp)
  · trivial

variable [DecidableEq ρ]

theorem jobStep_safe (hsha : ∀ c c', b.digest c = b.digest c' → c = c') {s s' : World ρ}
    {job : Job ρ} {e : Event ρ} (h : jobStep b s job e = some s') (hjob : s.job = some job)
    (hin : InMove b s job) (hs : Safe b s)
    (hanswered : ∀ reason, e = .commit (some reason) → job.stage ≠ .switching) : Safe b s' := by
  cases e with
  | commit lost =>
    refine commitStep_safe h hjob hin hs ?_
    cases lost with
    | none => exact .inl rfl
    | some reason => exact .inr (hanswered reason rfl)
  | held =>
    simp only [jobStep] at h
    split at h
    · rename_i fresh _
      split at h
      · cases h
        refine hs.at (Leaves.refl s) ?_
        cases fresh <;> exact True.intro
      · exact absurd h (by simp)
    · exact absurd h (by simp)
  | digest => exact digestStep_safe hsha h hjob hs
  | copy part lost =>
    simp only [jobStep] at h
    split at h
    · cases h
      refine hs.answered (leaves_update hin _ _) ?_ lost
      exact fun _ h => absurd h (by simp)
    · exact absurd h (by simp)
  | purge lost =>
    simp only [jobStep] at h
    split at h
    · cases h
      refine hs.answered (leaves_update hin _ _) ?_ lost
      exact True.intro
    · exact absurd h (by simp)
  | refuse reason =>
    simp only [jobStep, Option.some.injEq] at h
    subst h
    unfold refuseStep
    split
    · exact hs.finish (Leaves.refl s) _
    · exact hs.at (Leaves.refl s) (compared_fail s job _ reason)
  | _ => exact absurd h (by simp [jobStep])

/-- **One step**: the broker named goes on holding the space. -/
theorem step_safe (hsha : ∀ c c', b.digest c = b.digest c' → c = c') {s s' : World ρ} {e : Event ρ}
    (h : step b s e = some s') (hclear : Clear b ⟨s, e, s'⟩) (hp : Placed b s) (hs : Safe b s) :
    Safe b s' := by
  have hrun : s.job.bind (fun job => jobStep b s job e) = some s' → Safe b s' := by
    intro h
    obtain ⟨job, hjob, hstep, hanswered⟩ := jobStep_of_step h hclear
    exact jobStep_safe hsha hstep hjob (hp.move job hjob) hs hanswered
  cases e with
  | start plan =>
    simp only [step] at h
    split at h
    · cases h
      refine ⟨hs.space, ?_⟩
      intro job hjob
      cases hjob
      exact True.intro
    · exact absurd h (by simp)
  | restart =>
    cases h
    exact ⟨hs.space, fun _ h => absurd h (by simp)⟩
  | poll =>
    cases h
    exact ⟨hs.space, hs.compared⟩
  | write records =>
    simp only [step] at h
    split at h
    · exact absurd h (by simp)
    · rename_i hheld
      cases h
      have hfree : s.gateway.held = false := by simpa using hheld
      refine ⟨?_, ?_⟩
      · change records ⊆ Function.update s.contents s.gateway.route records (b.home s)
        rw [hp.route hfree, Function.update_self]
      · intro job hjob
        exact compared_write hfree (hp.move job hjob).holding _ _
  | commit lost => exact hrun h
  | held => exact hrun h
  | digest => exact hrun h
  | copy part lost => exact hrun h
  | purge lost => exact hrun h
  | refuse reason => exact hrun h

/-- **A moved space keeps its data**: in every run whose steps are clear, over any number of moves
and restarts, the broker the committed manifest names holds what the space held when its hold took
effect, and a broker that is purged is not the one named. -/
theorem moved_with_its_data (hsha : ∀ c c', b.digest c = b.digest c' → c = c') {s₀ s : World ρ}
    {tr : List (Trans (World ρ) (Event ρ))} (hidle : s₀.job = none)
    (hspace : s₀.space ⊆ s₀.contents (b.home s₀))
    (hroute : s₀.gateway.held = false → s₀.gateway.route = b.home s₀)
    (hr : Run (step b) s₀ tr s) (hclear : ∀ t ∈ tr, Clear b t) :
    s.space ⊆ s.contents (b.home s) ∧
    ∀ t ∈ tr, ∀ lost job, t.act = .purge lost → t.before.job = some job →
      job.plan.target ≠ b.home t.before := by
  have hsafe : Placed b s ∧ Safe b s := by
    refine Run.invariant (C := Clear b) (I := fun s => Placed b s ∧ Safe b s)
      ⟨⟨hroute, by simp [hidle]⟩, hspace, by simp [hidle]⟩ ?_ hr hclear
    intro s e s' hstep hc ⟨hp, hs⟩
    exact ⟨step_placed hstep hc hp, step_safe hsha hstep hc hp hs⟩
  refine ⟨hsafe.2.space, ?_⟩
  intro t ht lost job _ hjob
  obtain ⟨l, l', rfl⟩ := List.append_of_mem ht
  obtain ⟨hr', -, -⟩ := hr.at
  have hp := run_placed hidle hroute hr' (fun t' ht' => hclear t' (List.mem_append_left _ ht'))
  rw [(hp.move job hjob).home]
  exact (hp.move job hjob).other.symm

end

/-! ## one entity and its history -/

/-- a tenant holds an entity (`true`), a record of its history (`false`), or both -/
def twoRecords : Brokers Bool where
  isEntity r := r
  sha256 records := toString records.card
  declared name := name = "main" || name = "canary"
  brokerOf ref := ref.getD "main"
  named _ _ := rfl

def airManifest : Manifest := .ofList
  [("metadata", .mapping (.ofList [("name", .other (.string "air"))])),
    ("spec", .mapping (.ofList [("title", .other (.string "Air"))]))]

/-- the space `air` on `main`, and what another broker holds under its tenant -/
def airWorld (here elsewhere : Finset Bool) : World Bool where
  manifest := airManifest
  contents broker := if broker = "main" then here else elsewhere
  gateway := ⟨"main", false⟩
  job := none
  last := none
  space := here
  own _ := ∅
  unheld := airManifest

/-- a move to `canary`, up to its switch -/
def toCanary : List (Event Bool) :=
  [.start ⟨"main", "canary"⟩, .commit none, .poll, .held, .digest, .copy {true, false} none,
    .digest, .digest]

def switched : List (Event Bool) := toCanary ++ [.commit none]

/-- the switch is committed, its answer lost, and the target purged -/
def switchLost : List (Event Bool) :=
  toCanary ++ [.commit (some "the repository refused the commit: timeout"), .purge none]

theorem moved_with_its_data_of_air :
    twoRecords.home (final (step twoRecords) (airWorld {true, false} ∅) switched) = "canary" ∧
    (final (step twoRecords) (airWorld {true, false} ∅) switched).space
      ⊆ (final (step twoRecords) (airWorld {true, false} ∅) switched).contents
        (twoRecords.home (final (step twoRecords) (airWorld {true, false} ∅) switched)) := by
  have hrun : Run (step twoRecords) (airWorld {true, false} ∅)
      (trace (step twoRecords) (airWorld {true, false} ∅) switched)
      (final (step twoRecords) (airWorld {true, false} ∅) switched) :=
    run_trace (by decide +kernel)
  refine ⟨by decide +kernel, ?_⟩
  exact (moved_with_its_data (by decide +kernel) rfl (by decide +kernel) (by decide +kernel) hrun
    (by decide +kernel)).1

/-- **The moved space is purged**: the commit of the switch is applied and its answer lost, so the
undo purges the target, and the manifest names it. -/
theorem moved_away_from_its_data :
    Run (step twoRecords) (airWorld {true, false} ∅)
      (trace (step twoRecords) (airWorld {true, false} ∅) switchLost)
      (final (step twoRecords) (airWorld {true, false} ∅) switchLost) ∧
    twoRecords.home (final (step twoRecords) (airWorld {true, false} ∅) switchLost) = "canary" ∧
    ¬ (final (step twoRecords) (airWorld {true, false} ∅) switchLost).space
      ⊆ (final (step twoRecords) (airWorld {true, false} ∅) switchLost).contents "canary" :=
  ⟨run_trace (by decide +kernel), by decide +kernel, by decide +kernel⟩

end Spaces
end Portal
