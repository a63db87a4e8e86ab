import Mathlib.Data.Finset.Card
import Mathlib.Data.Finset.Lattice.Lemmas
import Mathlib.Data.String.Basic
import Mathlib.Logic.Function.Basic
import Portal.Base.Json
import Portal.Base.Machine
import Portal.Base.OrdMap

/-!
# Moving a space to another broker (`space_move.rs`)

A move holds the space read-only by an annotation in its manifest, waits for the gateway to say so,
copies the tenant to the target, compares both digests and commits the switch.  What fails goes
through the undo: a target that took the copy is purged, and the hold is released.

* `annotate`, `release`, `switchTo`   the three edits of the manifest;
* `World`, `Job`, `step`              the manifest, the brokers, the gateway and one move at a time,
                                      with every answer of the forge, the gateway and the brokers;
* `Clear`, `Placed`, `step_placed`    a move starts from the broker named, learns whether its switch
                                      was committed, and stays between its two brokers.
-/

namespace Portal
namespace Spaces

/-! ## the manifest -/

inductive Item (α : Type) where
  | mapping (fields : OrdMap String α)
  | other (v : Value)
deriving DecidableEq

/-- a space's manifest, as far as a move edits it: two levels of mappings -/
abbrev Manifest := OrdMap String (Item (Item Value))

def movingTo : String := "joinedcontext.com/moving-to"

section
variable {α : Type}

def member (m : OrdMap String (Item α)) (key : String) : OrdMap String α :=
  match m.get? key with
  | some (.mapping fields) => fields
  | _ => .empty

/-- a mapping edited under a key; what is no mapping is replaced -/
def within (key : String) (f : OrdMap String α → OrdMap String α) (m : OrdMap String (Item α)) :
    OrdMap String (Item α) :=
  m.insert key (.mapping (f (member m key)))

end

def annotations (m : Manifest) : OrdMap String Value := member (member m "metadata") "annotations"

def annotate (broker : String) : Manifest → Manifest :=
  within "metadata" (within "annotations" (fun notes => notes.insert movingTo (.string broker)))

/-- drops the hold, and the annotations with it when it was the only one -/
def release : Manifest → Manifest :=
  within "metadata" (fun metadata =>
    let notes := (member metadata "annotations").erase movingTo
    if notes = .empty then metadata.erase "annotations"
    else metadata.insert "annotations" (.mapping notes))

/-- the switch: the hold dropped and the broker named, in one edit -/
def switchTo (broker : String) (m : Manifest) : Manifest :=
  within "spec" (fun spec => spec.insert "brokerRef" (.other (.string broker))) (release m)

def brokerRef (m : Manifest) : Option String :=
  match (member m "spec").get? "brokerRef" with
  | some (.other (.string name)) => some name
  | _ => none

/-- whether the manifest holds the space -/
def moving (m : Manifest) : Bool := ((annotations m).get? movingTo).isSome

def tidy (m : Manifest) : Manifest :=
  match m.get? "metadata" with
  | some (.mapping metadata) =>
    if metadata.get? "annotations" = some (.mapping .empty) then
      m.insert "metadata" (.mapping (metadata.erase "annotations"))
    else m
  | _ => m

def Shaped (m : Manifest) : Prop :=
  ∃ metadata, m.get? "metadata" = some (.mapping metadata) ∧
    (metadata.get? "annotations" = none ∨
      ∃ notes, metadata.get? "annotations" = some (.mapping notes))

section
variable {α : Type}

@[simp] theorem member_within (key : String) (f : OrdMap String α → OrdMap String α)
    (m : OrdMap String (Item α)) : member (within key f m) key = f (member m key) := by
  unfold within
  rw [member, OrdMap.get?_insert, if_pos rfl]

theorem member_within_of_ne {key key' : String} (h : key' ≠ key)
    (f : OrdMap String α → OrdMap String α) (m : OrdMap String (Item α)) :
    member (within key f m) key' = member m key' := by
  unfold within member
  rw [OrdMap.get?_insert, if_neg h]

theorem within_within (key : String) (f g : OrdMap String α → OrdMap String α)
    (m : OrdMap String (Item α)) : within key g (within key f m) = within key (g ∘ f) m := by
  conv_lhs => rw [within, member_within]
  rw [within, OrdMap.insert_insert]
  rfl

end

theorem brokerRef_within (f : OrdMap String (Item Value) → OrdMap String (Item Value))
    (m : Manifest) : brokerRef (within "metadata" f m) = brokerRef m := by
  unfold brokerRef
  rw [member_within_of_ne (by decide)]

theorem brokerRef_annotate (broker : String) (m : Manifest) :
    brokerRef (annotate broker m) = brokerRef m := brokerRef_within _ m

theorem brokerRef_release (m : Manifest) : brokerRef (release m) = brokerRef m := brokerRef_within _ m

theorem brokerRef_switchTo (broker : String) (m : Manifest) :
    brokerRef (switchTo broker m) = some broker := by
  unfold brokerRef switchTo
  rw [member_within, OrdMap.get?_insert, if_pos rfl]

theorem moving_annotate (broker : String) (m : Manifest) : moving (annotate broker m) = true := by
  unfold moving annotations annotate
  rw [member_within, member_within, OrdMap.get?_insert, if_pos rfl]
  rfl

/-- the metadata with the hold dropped; the annotations are gone, or hold it no more -/
def released (metadata : OrdMap String (Item Value)) : OrdMap String (Item Value) :=
  let notes := (member metadata "annotations").erase movingTo
  if notes = .empty then metadata.erase "annotations"
  else metadata.insert "annotations" (.mapping notes)

theorem release_eq (m : Manifest) : release m = within "metadata" released m := rfl

theorem member_released (metadata : OrdMap String (Item Value)) :
    member (released metadata) "annotations" = (member metadata "annotations").erase movingTo := by
  unfold released
  simp only
  split
  · rename_i hempty
    rw [hempty, member, OrdMap.get?_erase, if_pos rfl]
  · rw [member, OrdMap.get?_insert, if_pos rfl]

theorem released_within (f : OrdMap String Value → OrdMap String Value)
    (hf : ∀ notes, (f notes).erase movingTo = notes.erase movingTo)
    (metadata : OrdMap String (Item Value)) :
    released (within "annotations" f metadata) = released metadata := by
  unfold released
  rw [member_within, hf]
  simp only
  split
  · rw [within, OrdMap.erase_insert]
  · rw [within, OrdMap.insert_insert]

theorem release_annotate (broker : String) (m : Manifest) :
    release (annotate broker m) = release m := by
  rw [release_eq, annotate, within_within, release_eq]
  change m.insert "metadata" (.mapping (released (within "annotations" _ (member m "metadata"))))
    = m.insert "metadata" (.mapping (released (member m "metadata")))
  rw [released_within _ (fun notes => OrdMap.erase_insert notes _ _)]

theorem moving_release (m : Manifest) : moving (release m) = false := by
  unfold moving annotations
  rw [release_eq, member_within, member_released, OrdMap.get?_erase, if_pos rfl]
  rfl

theorem moving_switchTo (broker : String) (m : Manifest) : moving (switchTo broker m) = false := by
  unfold moving annotations switchTo
  rw [member_within_of_ne (by decide)]
  exact moving_release m

theorem release_of_not_moving {m : Manifest} (hm : Shaped m) (h : moving m = false) :
    release m = tidy m := by
  obtain ⟨metadata, hmeta, hnotes⟩ := hm
  have hmember : member m "metadata" = metadata := by rw [member, hmeta]
  have hnone : (member metadata "annotations").get? movingTo = none := by
    unfold moving annotations at h
    rw [hmember] at h
    exact Option.isNone_iff_eq_none.mp (by rw [← Option.not_isSome, h]; rfl)
  rw [release_eq, within, hmember, tidy, hmeta]
  unfold released
  rw [OrdMap.erase_of_get? hnone]
  rcases hnotes with habsent | ⟨notes, hpresent⟩
  · have hempty : member metadata "annotations" = .empty := by rw [member, habsent]
    simp only [hempty, if_true]
    rw [OrdMap.erase_of_get? habsent, OrdMap.insert_of_get? hmeta, if_neg (by simp [habsent])]
  · have hfull : member metadata "annotations" = notes := by rw [member, hpresent]
    simp only [hfull]
    by_cases hempty : notes = .empty
    · subst hempty
      rw [if_pos rfl, if_pos hpresent]
    · rw [if_neg hempty, OrdMap.insert_of_get? hpresent, OrdMap.insert_of_get? hmeta, if_neg]
      rw [hpresent, Option.some.injEq, Item.mapping.injEq]
      exact hempty

theorem tidy_tidy (m : Manifest) : tidy (tidy m) = tidy m := by
  by_cases h : ∃ metadata, m.get? "metadata" = some (.mapping metadata) ∧
      metadata.get? "annotations" = some (.mapping .empty)
  · obtain ⟨metadata, hmeta, hempty⟩ := h
    have ht : tidy m = m.insert "metadata" (.mapping (metadata.erase "annotations")) := by
      rw [tidy, hmeta]
      exact if_pos hempty
    rw [ht, tidy, OrdMap.get?_insert, if_pos rfl]
    simp only
    rw [OrdMap.get?_erase, if_pos rfl, if_neg (by simp)]
  · have ht : tidy m = m := by
      unfold tidy
      split
      · rename_i metadata hmeta
        exact if_neg (fun hempty => h ⟨metadata, hmeta, hempty⟩)
      · rfl
    rw [ht, ht]

theorem shaped_within {f : OrdMap String (Item Value) → OrdMap String (Item Value)} (m : Manifest)
    (hf : (f (member m "metadata")).get? "annotations" = none ∨
      ∃ notes, (f (member m "metadata")).get? "annotations" = some (.mapping notes)) :
    Shaped (within "metadata" f m) :=
  ⟨_, by rw [within, OrdMap.get?_insert, if_pos rfl], hf⟩

theorem shaped_annotate (broker : String) (m : Manifest) : Shaped (annotate broker m) :=
  shaped_within m (.inr ⟨_, by rw [within, OrdMap.get?_insert, if_pos rfl]⟩)

theorem shaped_release (m : Manifest) : Shaped (release m) := by
  refine shaped_within m ?_
  change (released _).get? _ = none ∨ ∃ notes, (released _).get? _ = some (.mapping notes)
  unfold released
  simp only
  split
  · exact .inl (by rw [OrdMap.get?_erase, if_pos rfl])
  · exact .inr ⟨_, by rw [OrdMap.get?_insert, if_pos rfl]⟩

theorem shaped_switchTo (broker : String) (m : Manifest) : Shaped (switchTo broker m) := by
  obtain ⟨metadata, hmeta, hnotes⟩ := shaped_release m
  refine ⟨metadata, ?_, hnotes⟩
  rw [switchTo, within, OrdMap.get?_insert, if_neg (by decide), hmeta]

/-! ## brokers, gateway and move -/

structure Digest where
  entities : Nat
  attrInstances : Nat
  sha256 : String
deriving DecidableEq

/-- what the Portal takes from the brokers and from jc-core -/
structure Brokers (ρ : Type) where
  /-- an entity, or a record of its history -/
  isEntity : ρ → Bool
  sha256 : Finset ρ → String
  /-- the brokers a `ContextBroker` names -/
  declared : String → Bool
  /-- `broker_of`: the broker a space lives on -/
  brokerOf : Option String → String
  /-- a declared broker that is named is the one -/
  named : ∀ name, declared name = true → brokerOf (some name) = name

structure Plan where
  source : String
  target : String
deriving DecidableEq

inductive Stage where
  | holding
  | awaiting (fresh : Bool)
  | probing
  | copying
  | comparing (source : Option Digest)
  | switching
  /-- the undo: a target that took the copy is purged first -/
  | purging (reason : String)
  /-- and the hold is released; whether all of the undo succeeded so far -/
  | releasing (reason : String) (undone : Bool)
deriving DecidableEq

structure Job (ρ : Type) where
  plan : Plan
  stage : Stage
  /-- whether the hold was there already -/
  resumed : Bool
  /-- what the target held when the move started -/
  found : Finset ρ

/-- the gateway as its last poll left it -/
structure Gateway where
  route : String
  held : Bool
deriving DecidableEq

inductive Ended where
  | done
  | failed (reason : String)
deriving DecidableEq

structure World (ρ : Type) where
  /-- on the default branch -/
  manifest : Manifest
  /-- the space's tenant on each broker -/
  contents : String → Finset ρ
  gateway : Gateway
  job : Option (Job ρ)
  last : Option Ended
  /-- what the space holds: what was last written to it -/
  space : Finset ρ
  /-- what the moves of the space copied to each broker, since its last purge -/
  own : String → Finset ρ
  /-- the manifest before its hold -/
  unheld : Manifest

inductive Event (ρ : Type) where
  | start (plan : Plan)
  /-- the Portal restarts, and forgets the move -/
  | restart
  /-- the gateway reads the manifest -/
  | poll
  /-- the space is written, and holds `records` then -/
  | write (records : Finset ρ)
  /-- the forge commits the edit; its answer may be lost -/
  | commit (lost : Option String)
  /-- every pod says that it holds the space -/
  | held
  /-- a broker answers its digest -/
  | digest
  /-- the target takes a part of the export; its answer may be lost, or a refusal -/
  | copy (part : Finset ρ) (lost : Option String)
  | purge (lost : Option String)
  /-- what the move asks is refused or not answered, and nothing is done -/
  | refuse (reason : String)
deriving DecidableEq

section
variable {ρ : Type} [DecidableEq ρ] (b : Brokers ρ)

def Brokers.digest (records : Finset ρ) : Digest where
  entities := (records.filter (fun r => b.isEntity r = true)).card
  attrInstances := (records.filter (fun r => ¬ b.isEntity r = true)).card
  sha256 := b.sha256 records

/-- the broker the committed manifest names -/
def Brokers.home (s : World ρ) : String := b.brokerOf (brokerRef s.manifest)

/-- a step that failed: what was imported is purged, then the hold is released -/
def Stage.fail (reason : String) : Stage → Stage
  | .comparing _ | .switching => .purging reason
  | .purging first => .releasing (first ++ "; the target's copy was not purged: " ++ reason) false
  | _ => .releasing reason true

def World.at (s : World ρ) (job : Job ρ) (stage : Stage) : World ρ :=
  { s with job := some { job with stage := stage } }

def World.finish (s : World ρ) (ended : Ended) : World ρ := { s with job := none, last := some ended }

/-- the move goes on, or fails where the answer was lost -/
def World.answered (s : World ρ) (job : Job ρ) (next : Stage) : Option String → World ρ
  | none => s.at job next
  | some reason => s.at job (job.stage.fail reason)

/-- the texts of the two refusals of the move itself -/
def heldAlready (broker : String) (d : Digest) : String :=
  "broker " ++ broker ++ " already holds " ++ toString d.entities ++ " entities and "
    ++ toString d.attrInstances ++ " history records in this space's tenant; nothing was copied and "
    ++ "that data stays: empty the tenant or move the space to another broker"

def mismatch (source target : Digest) : String :=
  "the copy does not match: the source holds " ++ toString source.entities ++ " entities and "
    ++ toString source.attrInstances ++ " history records, the target "
    ++ toString target.entities ++ " and " ++ toString target.attrInstances

/-- the undo's last word -/
def notReleased (first reason : String) : String :=
  first ++ "; the hold was not released: " ++ reason

/-- an edit of the manifest: nothing is committed where nothing changes -/
def commitStep (s : World ρ) (job : Job ρ) (lost : Option String) : Option (World ρ) :=
  match job.stage with
  | .holding =>
    if annotate job.plan.target s.manifest = s.manifest then
      some (s.at { job with resumed := true } (.awaiting false))
    else some ({ s with manifest := annotate job.plan.target s.manifest }.answered job
      (.awaiting true) lost)
  | .switching =>
    if switchTo job.plan.target s.manifest = s.manifest then some (s.finish .done)
    else
      let s' := { s with manifest := switchTo job.plan.target s.manifest }
      match lost with
      | none => some (s'.finish .done)
      | some reason => some (s'.at job (job.stage.fail reason))
  | .releasing first _ =>
    if release s.manifest = s.manifest then some (s.finish (.failed first))
    else
      let s' := { s with manifest := release s.manifest }
      match lost with
      | none => some (s'.finish (.failed first))
      | some reason => some (s'.finish (.failed (notReleased first reason)))
  | _ => none

/-- a digest answered: of the target before a fresh copy, then of the source and of the target -/
def digestStep (s : World ρ) (job : Job ρ) : Option (World ρ) :=
  let target := b.digest (s.contents job.plan.target)
  match job.stage with
  | .probing =>
    if target.entities > 0 || target.attrInstances > 0 then
      some (s.at job (.releasing (heldAlready job.plan.target target) true))
    else some (s.at job .copying)
  | .comparing none => some (s.at job (.comparing (some (b.digest (s.contents job.plan.source)))))
  | .comparing (some source) =>
    if source = target then some (s.at job .switching)
    else some (s.at job (.purging (mismatch source target)))
  | _ => none

def refuseStep (s : World ρ) (job : Job ρ) (reason : String) : World ρ :=
  match job.stage with
  | .releasing first _ => s.finish (.failed (notReleased first reason))
  | stage => s.at job (stage.fail reason)

def jobStep (s : World ρ) (job : Job ρ) : Event ρ → Option (World ρ)
  | .commit lost => commitStep s job lost
  | .held =>
    match job.stage with
    | .awaiting fresh =>
      if s.gateway.held then some (s.at job (if fresh then .probing else .copying)) else none
    | _ => none
  | .digest => digestStep b s job
  | .copy part lost =>
    if job.stage = .copying ∧ part ⊆ s.contents job.plan.source then
      some ({ s with
        contents := Function.update s.contents job.plan.target (s.contents job.plan.target ∪ part)
        own := Function.update s.own job.plan.target (s.own job.plan.target ∪ part) }.answered job
          (.comparing none) lost)
    else none
  | .purge lost =>
    match job.stage with
    | .purging first =>
      some ({ s with
        contents := Function.update s.contents job.plan.target ∅
        own := Function.update s.own job.plan.target ∅ }.answered job (.releasing first true) lost)
    | _ => none
  | .refuse reason => some (refuseStep s job reason)
  | _ => none

def step (s : World ρ) : Event ρ → Option (World ρ)
  | .start plan =>
    -- one move of the space at a time, to another broker that is declared
    if s.job.isNone ∧ b.declared plan.target = true ∧ plan.source ≠ plan.target then
      some { s with
        job := some ⟨plan, .holding, false, s.contents plan.target⟩
        unheld := if moving s.manifest then s.unheld else s.manifest }
    else none
  | .restart => some { s with job := none }
  | .poll => some { s with gateway := ⟨b.home s, moving s.manifest⟩ }
  | .write records =>
    if s.gateway.held then none
    else some { s with
      contents := Function.update s.contents s.gateway.route records, space := records }
  | e => s.job.bind (fun job => jobStep b s job e)

/-! ## where a move is -/

/-- a step that leaves the move sure of the broker: it starts from the one the committed manifest
names, and no commit of the switch goes unanswered -/
def Clear (t : Trans (World ρ) (Event ρ)) : Prop :=
  match t.act with
  | .start plan => plan.source = b.home t.before
  | .commit (some _) => t.before.job.map Job.stage ≠ some .switching
  | _ => True

instance (t : Trans (World ρ) (Event ρ)) : Decidable (Clear b t) := by
  unfold Clear
  split <;> infer_instance

/-- the hold is committed from the wait on, and in force from the copy on -/
def Holding (s : World ρ) (job : Job ρ) : Prop :=
  match job.stage with
  | .awaiting _ => moving s.manifest = true
  | .probing | .copying | .comparing _ | .switching =>
    moving s.manifest = true ∧ s.gateway.held = true
  | _ => True

structure InMove (s : World ρ) (job : Job ρ) : Prop where
  home : b.home s = job.plan.source
  other : job.plan.source ≠ job.plan.target
  declared : b.declared job.plan.target = true
  holding : Holding s job

/-- a move goes from the broker named to another, and what the gateway lets through goes to the
broker named -/
structure Placed (s : World ρ) : Prop where
  route : s.gateway.held = false → s.gateway.route = b.home s
  move : ∀ job, s.job = some job → InMove b s job

/-- the gateway and the broker named, as a step of the move leaves them -/
structure Keeps (s s' : World ρ) : Prop where
  gateway : s'.gateway = s.gateway
  home : b.home s' = b.home s

end

section
variable {ρ : Type} {b : Brokers ρ}

theorem Keeps.refl (s : World ρ) : Keeps b s s := ⟨rfl, rfl⟩

theorem keeps_edit (s : World ρ) {m : Manifest} (h : brokerRef m = brokerRef s.manifest) :
    Keeps b s { s with manifest := m } :=
  ⟨rfl, congrArg b.brokerOf h⟩

theorem keeps_records (s : World ρ) (contents own : String → Finset ρ) :
    Keeps b s { s with contents := contents, own := own } := ⟨rfl, rfl⟩

theorem Placed.finish {s s' : World ρ} (hs : Placed b s) (hk : Keeps b s s') (ended : Ended) :
    Placed b (s'.finish ended) where
  route := by
    change s'.gateway.held = false → s'.gateway.route = b.home s'
    rw [hk.gateway, hk.home]
    exact hs.route
  move := nofun

theorem Placed.at {s s' : World ρ} {job job' : Job ρ} {stage : Stage} (hs : Placed b s)
    (hk : Keeps b s s') (hjob : s.job = some job) (hplan : job'.plan = job.plan)
    (hholding : Holding (s'.at job' stage) { job' with stage := stage }) :
    Placed b (s'.at job' stage) where
  route := (hs.finish hk .done).route
  move := by
    intro job₁ h₁
    cases h₁
    have hin := hs.move job hjob
    refine ⟨?_, ?_, ?_, hholding⟩
    · exact hk.home.trans (hin.home.trans (by rw [hplan]))
    · rw [hplan]
      exact hin.other
    · rw [hplan]
      exact hin.declared

theorem holding_fail (s : World ρ) (job : Job ρ) (stage : Stage) (reason : String) :
    Holding s { job with stage := stage.fail reason } := by
  cases stage <;> exact True.intro

theorem Placed.answered {s s' : World ρ} {job : Job ρ} {next : Stage} (hs : Placed b s)
    (hk : Keeps b s s') (hjob : s.job = some job)
    (hholding : Holding (s'.at job next) { job with stage := next }) (lost : Option String) :
    Placed b (s'.answered job next lost) := by
  cases lost with
  | none => exact hs.at hk hjob rfl hholding
  | some reason => exact hs.at hk hjob rfl (holding_fail _ job job.stage reason)

theorem placed_switched {s : World ρ} {job : Job ρ} (hs : Placed b s) (hjob : s.job = some job)
    (hstage : job.stage = .switching) (ended : Ended) :
    Placed b ({ s with manifest := switchTo job.plan.target s.manifest }.finish ended) := by
  have hholding := (hs.move job hjob).holding
  rw [Holding, hstage] at hholding
  refine ⟨?_, nofun⟩
  intro hfree
  rw [World.finish, hholding.2] at hfree
  exact absurd hfree (by simp)

theorem commitStep_placed {s s' : World ρ} {job : Job ρ} {lost : Option String}
    (h : commitStep s job lost = some s') (hjob : s.job = some job) (hs : Placed b s)
    (hanswered : lost = none ∨ job.stage ≠ .switching) : Placed b s' := by
  unfold commitStep at h
  split at h
  · split at h
    · rename_i hsame
      cases h
      refine hs.at (Keeps.refl s) hjob rfl ?_
      change moving s.manifest = true
      rw [← hsame]
      exact moving_annotate _ _
    · cases h
      refine hs.answered (keeps_edit s (brokerRef_annotate _ _)) hjob ?_ lost
      exact moving_annotate job.plan.target s.manifest
  · rename_i hstage
    split at h
    · cases h
      exact hs.finish (Keeps.refl s) .done
    · cases lost with
      | none =>
        cases h
        exact placed_switched hs hjob hstage .done
      | some reason => exact absurd hstage (hanswered.resolve_left (by simp))
  · split at h
    · cases h
      exact hs.finish (Keeps.refl s) _
    · cases lost with
      | none =>
        cases h
        exact hs.finish (keeps_edit s (brokerRef_release _)) _
      | some reason =>
        cases h
        exact hs.finish (keeps_edit s (brokerRef_release _)) _
  · exact absurd h (by simp)

theorem digestStep_placed {s s' : World ρ} {job : Job ρ} (h : digestStep b s job = some s')
    (hjob : s.job = some job) (hs : Placed b s) : Placed b s' := by
  have hholding := (hs.move job hjob).holding
  unfold digestStep at h
  unfold Holding at hholding
  dsimp only at h
  split at h
  · rename_i hstage
    rw [hstage] at hholding
    split at h
    · cases h
      exact hs.at (Keeps.refl s) hjob rfl True.intro
    · cases h
      exact hs.at (Keeps.refl s) hjob rfl hholding
  · rename_i hstage
    rw [hstage] at hholding
    cases h
    exact hs.at (Keeps.refl s) hjob rfl hholding
  · rename_i source hstage
    rw [hstage] at hholding
    split at h
    · cases h
      exact hs.at (Keeps.refl s) hjob rfl hholding
    · cases h
      exact hs.at (Keeps.refl s) hjob rfl True.intro
  · exact absurd h (by simp)

theorem holding_poll {s : World ρ} {job : Job ρ} (h : Holding s job) :
    Holding { s with gateway := ⟨b.home s, moving s.manifest⟩ } job := by
  unfold Holding at h ⊢
  split at h
  · exact h
  · exact ⟨h.1, h.1⟩
  · exact ⟨h.1, h.1⟩
  · exact ⟨h.1, h.1⟩
  · exact ⟨h.1, h.1⟩
  · trivial

variable [DecidableEq ρ]

theorem jobStep_placed {s s' : World ρ} {job : Job ρ} {e : Event ρ}
    (h : jobStep b s job e = some s') (hjob : s.job = some job) (hs : Placed b s)
    (hanswered : ∀ reason, e = .commit (some reason) → job.stage ≠ .switching) : Placed b s' := by
  have hholding := (hs.move job hjob).holding
  unfold Holding at hholding
  cases e with
  | commit lost =>
    refine commitStep_placed h hjob hs ?_
    cases lost with
    | none => exact .inl rfl
    | some reason => exact .inr (hanswered reason rfl)
  | held =>
    simp only [jobStep] at h
    split at h
    · rename_i fresh hstage
      rw [hstage] at hholding
      split at h
      · rename_i hheld
        cases h
        refine hs.at (Keeps.refl s) hjob rfl ?_
        cases fresh <;> exact ⟨hholding, hheld⟩
      · exact absurd h (by simp)
    · exact absurd h (by simp)
  | digest => exact digestStep_placed h hjob hs
  | copy part lost =>
    simp only [jobStep] at h
    split at h
    · rename_i hcopy
      cases h
      rw [hcopy.1] at hholding
      refine hs.answered (keeps_records s _ _) hjob ?_ lost
      exact hholding
    · exact absurd h (by simp)
  | purge lost =>
    simp only [jobStep] at h
    split at h
    · cases h
      refine hs.answered (keeps_records s _ _) hjob ?_ lost
      exact True.intro
    · exact absurd h (by simp)
  | refuse reason =>
    simp only [jobStep, Option.some.injEq] at h
    subst h
    unfold refuseStep
    split
    · exact hs.finish (Keeps.refl s) _
    · exact hs.at (Keeps.refl s) hjob rfl (holding_fail s job _ reason)
  | _ => exact absurd h (by simp [jobStep])

theorem jobStep_of_step {s s' : World ρ} {e : Event ρ}
    (h : s.job.bind (fun job => jobStep b s job e) = some s') (hclear : Clear b ⟨s, e, s'⟩) :
    ∃ job, s.job = some job ∧ jobStep b s job e = some s' ∧
      ∀ reason, e = .commit (some reason) → job.stage ≠ .switching := by
  obtain ⟨job, hjob, hstep⟩ := Option.bind_eq_some_iff.mp h
  refine ⟨job, hjob, hstep, ?_⟩
  rintro reason rfl hstage
  refine (show s.job.map Job.stage ≠ some .switching from hclear) ?_
  rw [hjob, Option.map_some, hstage]

/-- **One step**: the move stays between its two brokers. -/
theorem step_placed {s s' : World ρ} {e : Event ρ} (h : step b s e = some s')
    (hclear : Clear b ⟨s, e, s'⟩) (hs : Placed b s) : Placed b s' := by
  have hrun : s.job.bind (fun job => jobStep b s job e) = some s' → Placed b s' := by
    intro h
    obtain ⟨job, hjob, hstep, hanswered⟩ := jobStep_of_step h hclear
    exact jobStep_placed hstep hjob hs hanswered
  cases e with
  | start plan =>
    simp only [step] at h
    split at h
    · rename_i hguard
      cases h
      refine ⟨hs.route, ?_⟩
      intro job hjob
      cases hjob
      exact ⟨hclear.symm, hguard.2.2, hguard.2.1, True.intro⟩
    · exact absurd h (by simp)
  | restart =>
    cases h
    exact ⟨hs.route, nofun⟩
  | poll =>
    cases h
    refine ⟨fun _ => rfl, ?_⟩
    intro job hjob
    have hin := hs.move job hjob
    exact ⟨hin.home, hin.other, hin.declared, holding_poll hin.holding⟩
  | write records =>
    simp only [step] at h
    split at h
    · exact absurd h (by simp)
    · cases h
      refine ⟨hs.route, ?_⟩
      intro job hjob
      have hin := hs.move job hjob
      exact ⟨hin.home, hin.other, hin.declared, hin.holding⟩
  | commit lost => exact hrun h
  | held => exact hrun h
  | digest => exact hrun h
  | copy part lost => exact hrun h
  | purge lost => exact hrun h
  | refuse reason => exact hrun h

theorem run_placed {s₀ s : World ρ} {tr : List (Trans (World ρ) (Event ρ))} (hidle : s₀.job = none)
    (hroute : s₀.gateway.held = false → s₀.gateway.route = b.home s₀)
    (hr : Run (step b) s₀ tr s) (hclear : ∀ t ∈ tr, Clear b t) : Placed b s :=
  Run.invariant (C := Clear b) ⟨hroute, by simp [hidle]⟩
    (fun _ _ _ hstep hc hs => step_placed hstep hc hs) hr hclear

end
end Spaces
end Portal
