import Mathlib.Logic.Function.Basic
import Portal.Base.Machine
import Portal.Verdicts.Drafts

/-!
# The gate and the checks it follows (`ops/proposals.rs`, `ops/verdict.rs`)

A proposal of a manifest is gated on the verdict its draft holds: green, of this very manifest, and
for a Pipeline with a record check that is green and of this very spec.  A check sets the verdict of
its draft, and puts the draft first when there is none; a run of the mapping reads the verdict and
sets it again later with the records it checked.

* `verdictGate`    the gate;
* `Desk`, `step`   the drafts, the operations in flight, and what was recorded of each draft;
* `Sound`          a green verdict that is held is the newest check's;
* `gate_follows`   **the law**, where no run writes back a green verdict that is no longer the newest.
-/

namespace Portal
namespace Verdicts

/-! ## the gate -/

inductive Validation where
  | strict
  | lax
deriving DecidableEq

inductive Reason where
  | verdictAbsent
  | verdictFailed
  | stale
  | recordsUnchecked
  | recordsStale
  | recordsFailed
deriving DecidableEq

def Reason.text : Reason → String
  | .verdictAbsent => "verdict_absent"
  | .verdictFailed => "verdict_failed"
  | .stale => "stale"
  | .recordsUnchecked => "records_unchecked"
  | .recordsStale => "records_stale"
  | .recordsFailed => "records_failed"

def Reason.detail (subject : String) : Reason → String
  | .verdictAbsent => "The " ++ subject ++ " has not been checked; check it, then propose it."
  | .verdictFailed =>
    "The " ++ subject ++ "'s check found problems; resolve them and check it again."
  | .recordsUnchecked =>
    "The " ++ subject ++ "'s records have not been checked against the space's model, the target " ++
      "Endpoint and the lifetime; test it on a sample, then propose it."
  | .recordsFailed =>
    "Records of the " ++ subject ++ "'s sample would not be written; resolve what the test names " ++
      "and test it again."
  | .recordsStale =>
    "The " ++ subject ++ " changed since its records were checked; test it again, then propose it."
  | .stale => "The " ++ subject ++ " changed since its check; check it again, then propose it."

/-- a Pipeline's records are checked by its test, whatever check the door names -/
def Reason.check (checkOp : String) : Reason → String
  | .recordsUnchecked | .recordsStale | .recordsFailed => "jc_pipeline_test"
  | .verdictAbsent | .verdictFailed | .stale => checkOp

/-- the conflict a proposal is refused with, under the error `verdict_required` -/
structure Required where
  check : String
  reason : Reason
  detail : String
deriving DecidableEq

structure DraftRef where
  kind : String
  name : String
deriving DecidableEq

/-- `own_draft` -/
def ownDraft (manifest : Json) : Option DraftRef := do
  let kind ← (← manifest.value.get? "kind").asStr
  let name ← (← (← manifest.value.get? "metadata").get? "name").asStr
  return ⟨kind, name⟩

def DraftRef.key (project : String) (draft : DraftRef) : Key := ⟨"", project, draft.kind, draft.name⟩

def checkForKind (kind : String) : String :=
  if kind = "DataSource" then "jc_datasource_check"
  else if kind = "Pipeline" then "jc_pipeline_test"
  else "jc_manifest_dry_run"

section
variable {δ : Type} (hash : Value → δ)

/-- `digest_of`: `hash` prints the canonical form and takes its SHA-256 -/
def digestOf (input : Json) : δ := hash (canonicalize input.value)

theorem digestOf_inj {hash} (hhash : Function.Injective hash) (a b : Json) :
    digestOf (δ := δ) hash a = digestOf hash b ↔ a.Same b :=
  hhash.eq_iff.trans (canonicalize_inj a.distinct b.distinct)

def nullJson : Json := ⟨.null, trivial⟩

/-- `pipeline["spec"]` -/
def specOf (manifest : Json) : Json := (manifest.get? "spec").getD nullJson

variable [DecidableEq δ]

def recordsRefusal (verdict : Verdict δ) (manifest : Json) : Option Reason :=
  if manifest.text "kind" ≠ some "Pipeline" then none
  else
    match manifest.get? "spec" with
    | none => none
    | some spec =>
      match verdict.records with
      | none => some .recordsUnchecked
      | some records =>
        if records.specDigest ≠ digestOf hash spec then some .recordsStale
        else if ¬ records.ok then some .recordsFailed
        else none

def Verdict.isFreshFor (verdict : Verdict δ) (manifest : Json) : Bool :=
  verdict.ok && verdict.inputDigest = digestOf hash manifest

def refusalReason (verdict : Option (Verdict δ)) (manifest : Json) : Option Reason :=
  match verdict with
  | none => some .verdictAbsent
  | some v =>
    if ¬ v.ok then some .verdictFailed
    else if ¬ v.isFreshFor hash manifest then some .stale
    else recordsRefusal hash v manifest

/-- `verdict_gate`: whether it lets the manifest through with a warning, or the refusal -/
def verdictGate (mode : Validation) (verdict : Option (Verdict δ)) (manifest : Json)
    (checkOp subject : String) : Except Required Bool :=
  match refusalReason hash verdict manifest with
  | none => .ok false
  | some reason =>
    if mode = .strict then .error ⟨reason.check checkOp, reason, reason.detail subject⟩ else .ok true

variable {hash}

/-- **What the strict gate asks** of the verdict a draft holds. -/
theorem verdictGate_strict {verdict : Option (Verdict δ)} {manifest : Json}
    {checkOp subject : String} {warning : Bool}
    (h : verdictGate hash .strict verdict manifest checkOp subject = .ok warning) :
    ∃ v, verdict = some v ∧ v.ok ∧ v.inputDigest = digestOf hash manifest ∧
      (manifest.text "kind" = some "Pipeline" → ∀ spec, manifest.get? "spec" = some spec →
        ∃ records, v.records = some records ∧ records.specDigest = digestOf hash spec ∧
          records.ok) := by
  have hnone : refusalReason hash verdict manifest = none := by
    cases hreason : refusalReason hash verdict manifest with
    | none => rfl
    | some reason => simp [verdictGate, hreason] at h
  unfold refusalReason at hnone
  split at hnone
  · cases hnone
  rename_i v
  split at hnone
  · cases hnone
  split at hnone
  · cases hnone
  rename_i hfresh
  have hdigest : v.ok = true ∧ v.inputDigest = digestOf hash manifest := by
    simpa [Verdict.isFreshFor] using hfresh
  refine ⟨v, rfl, hdigest.1, hdigest.2, fun hkind spec hspec => ?_⟩
  simp only [recordsRefusal, hkind, hspec, ne_eq, not_true_eq_false, if_false] at hnone
  split at hnone
  · cases hnone
  rename_i records hrecords
  split at hnone
  · cases hnone
  rename_i hdigest
  split at hnone
  · cases hnone
  rename_i hgreen
  exact ⟨records, hrecords, by simpa using hdigest, by simpa using hgreen⟩

end

/-! ## operations in flight -/

/-- who sets a verdict: a check of the manifest, or a run of the mapping -/
inductive Source where
  | check
  | harness
deriving DecidableEq

/-- a verdict on its way to the draft under `key` -/
structure Recording (δ : Type) where
  source : Source
  key : Key
  manifest : Json
  verdict : Verdict δ
  touchedBy : String
  touchedKind : String

/-- an operation before its next step -/
inductive Task (δ : Type) where
  /-- `record_verdict`, about to set the verdict -/
  | record (r : Recording δ)
  /-- it found no draft, and is about to put one -/
  | create (r : Recording δ)
  /-- it has put one, and is about to set the verdict again -/
  | again (r : Recording δ)
  /-- `record_refused_check` -/
  | refused (r : Recording δ)
  /-- `record_records`, about to read the verdict -/
  | run (key : Key) (manifest : Json) (records : RecordsVerdict δ) (touchedBy touchedKind : String)

structure Desk (δ : Type) where
  drafts : Drafts δ
  tasks : Nat → Option (Task δ)
  /-- the checks recorded of each draft, the newest first: what was judged and the verdict -/
  checks : Key → List (Json × Verdict δ)
  /-- the record checks recorded of each draft, the newest first, with their Pipeline -/
  records : Key → List (Json × RecordsVerdict δ)

namespace Desk
variable {δ : Type} (desk : Desk δ)

def opened (δ : Type) : Desk δ := ⟨fun _ => none, fun _ => none, fun _ => [], fun _ => []⟩

/-- the operation `id` goes on with `task`, or ends -/
def goesOn (id : Nat) (task : Option (Task δ)) : Desk δ :=
  { desk with tasks := Function.update desk.tasks id task }

/-- a recorded verdict, noted: a run of the mapping is no check of the manifest -/
def noted (r : Recording δ) : Desk δ where
  drafts := desk.drafts
  tasks := desk.tasks
  checks :=
    match r.source with
    | .check => Function.update desk.checks r.key ((r.manifest, r.verdict) :: desk.checks r.key)
    | .harness => desk.checks
  records :=
    match r.verdict.records with
    | some records =>
      Function.update desk.records r.key ((r.manifest, records) :: desk.records r.key)
    | none => desk.records

end Desk

section
variable {δ : Type} (hash : Value → δ)

def notChecked : Finding :=
  ⟨.error, "", "The Pipeline itself has not been checked yet: run its check."⟩

/-- `Verdict::red` -/
def Verdict.red (input : Json) (findings : List Finding) (now : Int) : Verdict δ :=
  ⟨false, findings, none, now, digestOf hash input, [], none⟩

/-- a verdict set by its recording's last step -/
def recorded (desk : Desk δ) (id : Nat) (r : Recording δ) (now : Int) : Desk δ :=
  match setVerdict desk.drafts r.key r.verdict now with
  | .ok (_, drafts) => (({ desk with drafts }).noted r).goesOn id none
  | .error _ => desk.goesOn id none

/-- the operation `id` takes its next step -/
def advance (desk : Desk δ) (id : Nat) (now : Int) : Option (Desk δ) :=
  match desk.tasks id with
  | none => none
  | some (.record r) =>
    match setVerdict desk.drafts r.key r.verdict now with
    | .ok _ => some (recorded desk id r now)
    | .error _ => some (desk.goesOn id (some (.create r)))
  | some (.create r) =>
    match put desk.drafts r.key r.manifest (some 0) r.touchedBy r.touchedKind now with
    | .ok (_, drafts) => some (({ desk with drafts }).goesOn id (some (.again r)))
    | .error _ => some (desk.goesOn id none)
  | some (.again r) | some (.refused r) => some (recorded desk id r now)
  | some (.run key manifest records touchedBy touchedKind) =>
    let earlier := (desk.drafts key).bind Draft.verdict
    let verdict := earlier.getD (Verdict.red hash manifest [notChecked] now)
    some (desk.goesOn id (some (.record
      ⟨.harness, key, manifest, { verdict with records := some records }, touchedBy, touchedKind⟩)))

variable [DecidableEq δ]

def Recording.Judges (r : Recording δ) : Prop :=
  r.source = .check ∧ r.verdict.inputDigest = digestOf hash r.manifest ∧
    ∀ records ∈ r.verdict.records, records.specDigest = digestOf hash (specOf r.manifest)

instance (r : Recording δ) : Decidable (r.Judges hash) := by unfold Recording.Judges; infer_instance

/-- an operation before its first step, for a caller who may propose -/
def Task.Begins : Task δ → Prop
  | .record r | .refused r => r.Judges hash
  | .run _ manifest records _ _ => records.specDigest = digestOf hash (specOf manifest)
  | .create _ | .again _ => False

instance (task : Task δ) : Decidable (task.Begins hash) := by
  cases task <;> unfold Task.Begins <;> infer_instance

inductive Act (δ : Type) where
  | start (id : Nat) (task : Task δ)
  | advance (id : Nat) (now : Int)
  | put (key : Key) (manifest : Json) (expected : Option Int) (touchedBy touchedKind : String)
      (now : Int)
  | drop (key : Key)
  | sweep (cutoff : Int)
  /-- a manifest proposed alone passes the gate of the draft under its own kind and name -/
  | propose (project : String) (manifest : Json)
  /-- a draft passes it -/
  | proposeDraft (project : String) (draft : DraftRef)

/-- what a proposal proposes, and the draft whose verdict it is gated on; a manifest that has no
kind or no name is refused for its shape -/
def proposed (desk : Desk δ) : Act δ → Option (Key × Json)
  | .propose project manifest => (ownDraft manifest).map fun own => (own.key project, manifest)
  | .proposeDraft project draft =>
    (desk.drafts (draft.key project)).map fun d => (draft.key project, d.manifest)
  | _ => none

def passes (desk : Desk δ) (key : Key) (manifest : Json) : Bool :=
  (verdictGate hash .strict ((desk.drafts key).bind Draft.verdict) manifest
    (checkForKind key.kind) "manifest").isOk

def step (desk : Desk δ) : Act δ → Option (Desk δ)
  | .start id task =>
    if desk.tasks id = none ∧ task.Begins hash then some (desk.goesOn id (some task)) else none
  | .advance id now => advance hash desk id now
  | .put key manifest expected touchedBy touchedKind now =>
    match put desk.drafts key manifest expected touchedBy touchedKind now with
    | .ok (_, drafts) => some { desk with drafts }
    | .error _ => some desk
  | .drop key => some { desk with drafts := drop desk.drafts key }
  | .sweep cutoff => some { desk with drafts := sweep desk.drafts cutoff }
  | .propose project manifest =>
    match proposed desk (.propose project manifest) with
    | some (key, m) => if passes hash desk key m then some desk else none
    | none => none
  | .proposeDraft project draft =>
    match proposed desk (.proposeDraft project draft) with
    | some (key, m) => if passes hash desk key m then some desk else none
    | none => none

end

/-! ## the law -/

section
variable {δ : Type} (hash : Value → δ)

/-- the verdict of the draft under `key` -/
def held (desk : Desk δ) (key : Key) : Option (Verdict δ) := (desk.drafts key).bind Draft.verdict

/-- the newest check recorded of the draft is green, and of a manifest with this digest -/
def NewestGreen (desk : Desk δ) (key : Key) (digest : δ) : Prop :=
  ∃ c, (desk.checks key).head? = some c ∧ c.2.ok ∧ digestOf hash c.1 = digest

/-- **What a proposal that passes the gate rests on**: the newest check of the draft was green and
of this manifest up to the order of keys, and a Pipeline's newest record check was green and of this
spec. -/
structure Rests (desk : Desk δ) (key : Key) (manifest : Json) : Prop where
  check : ∃ c, (desk.checks key).head? = some c ∧ c.2.ok ∧ c.1.Same manifest
  records : manifest.text "kind" = some "Pipeline" → ∀ spec, manifest.get? "spec" = some spec →
    ∃ c, (desk.records key).head? = some c ∧ c.2.ok ∧ (specOf c.1).Same spec

abbrev Moment (δ : Type) := Trans (Desk δ) (Act δ)

/-- the step passes the gate only over the newest check -/
def Follows (t : Moment δ) : Prop :=
  ∀ key manifest, proposed t.before t.act = some (key, manifest) → Rests t.before key manifest

def Task.verdictSet : Task δ → Option (Recording δ)
  | .record r | .again r | .refused r => some r
  | .create _ | .run .. => none

/-- where the step has a run of the mapping write back a green verdict, the newest check of the
draft is green too, and of the manifest that verdict is of -/
def WritesNewest (t : Moment δ) : Prop :=
  ∀ id now r, t.act = .advance id now → (t.before.tasks id).bind Task.verdictSet = some r →
    r.source = .harness → r.verdict.ok → (t.before.drafts r.key).isSome →
    NewestGreen hash t.before r.key r.verdict.inputDigest

variable [DecidableEq δ]

instance (desk : Desk δ) (key : Key) (digest : δ) : Decidable (NewestGreen hash desk key digest) :=
  decidable_of_iff (∃ c ∈ (desk.checks key).head?, c.2.ok ∧ digestOf hash c.1 = digest) Iff.rfl

instance (t : Moment δ) : Decidable (WritesNewest hash t) :=
  match hact : t.act with
  | .advance id now =>
    decidable_of_iff
      (∀ r ∈ (t.before.tasks id).bind Task.verdictSet, r.source = .harness → r.verdict.ok →
        (t.before.drafts r.key).isSome → NewestGreen hash t.before r.key r.verdict.inputDigest)
      ⟨fun h id' now' r he hr => by cases hact.symm.trans he; exact h r hr,
        fun h r hr => h id now r hact hr⟩
  | .start .. | .put .. | .drop .. | .sweep .. | .propose .. | .proposeDraft .. =>
    isTrue (fun _ _ _ he => by cases hact.symm.trans he)

end

section
variable {δ : Type} (hash : Value → δ)

/-- a check in flight is of its manifest, and a record check of the spec of its Pipeline -/
def Recording.Fits (r : Recording δ) : Prop :=
  (r.source = .check → r.verdict.inputDigest = digestOf hash r.manifest) ∧
    ∀ records, r.verdict.records = some records →
      records.specDigest = digestOf hash (specOf r.manifest)

def Task.Fits : Task δ → Prop
  | .record r | .create r | .again r | .refused r => r.Fits hash
  | .run _ manifest records _ _ => records.specDigest = digestOf hash (specOf manifest)

/-- **The invariant**: a green verdict that is held is of the manifest of the newest check, which is
green, and the records that are held are those of the newest record check. -/
structure Sound (desk : Desk δ) : Prop where
  green : ∀ key v, held desk key = some v → v.ok → NewestGreen hash desk key v.inputDigest
  records : ∀ key v records, held desk key = some v → v.records = some records →
    ∃ c, (desk.records key).head? = some c ∧ c.2 = records ∧
      records.specDigest = digestOf hash (specOf c.1)
  tasks : ∀ id task, desk.tasks id = some task → task.Fits hash

theorem sound_opened : Sound hash (Desk.opened δ) where
  green key v h := by simp [held, Desk.opened] at h
  records key v records h := by simp [held, Desk.opened] at h
  tasks id task h := by simp [Desk.opened] at h

variable {hash}

theorem Sound.drafts {desk : Desk δ} (hs : Sound hash desk) {drafts : Drafts δ}
    (hheld : ∀ key v, (drafts key).bind Draft.verdict = some v → held desk key = some v) :
    Sound hash { desk with drafts } where
  green key v h hok := hs.green key v (hheld key v h) hok
  records key v records h hrecords := hs.records key v records (hheld key v h) hrecords
  tasks := hs.tasks

theorem Sound.goesOn {desk : Desk δ} (hs : Sound hash desk) (id : Nat) {task : Option (Task δ)}
    (hfits : ∀ t, task = some t → t.Fits hash) : Sound hash (desk.goesOn id task) where
  green := hs.green
  records := hs.records
  tasks id' t ht := by
    by_cases hid : id' = id
    · subst hid
      exact hfits t (by simpa [Desk.goesOn] using ht)
    · exact hs.tasks id' t (by simpa [Desk.goesOn, hid] using ht)

theorem Sound.ends {desk : Desk δ} (id : Nat) (hs : Sound hash desk) :
    Sound hash (desk.goesOn id none) :=
  hs.goesOn id (fun _ ht => nomatch ht)

theorem held_put {desk : Desk δ} {key : Key} {manifest : Json} {expected : Option Int}
    {touchedBy touchedKind : String} {now : Int} {draft : Draft δ} {drafts : Drafts δ}
    (h : put desk.drafts key manifest expected touchedBy touchedKind now = .ok (draft, drafts))
    (key' : Key) (v : Verdict δ) (hv : (drafts key').bind Draft.verdict = some v) :
    held desk key' = some v := by
  obtain ⟨-, -, hverdict, -, rfl⟩ := put_cases h
  by_cases hkey : key' = key
  · subst hkey
    rw [Function.update_self, Option.bind_some, hverdict] at hv
    exact hv
  · rwa [Function.update_of_ne hkey] at hv

theorem sound_recorded {desk : Desk δ} (hs : Sound hash desk) {id : Nat} {r : Recording δ}
    {now : Int} (hfits : r.Fits hash)
    (hnewest : r.source = .harness → r.verdict.ok → (desk.drafts r.key).isSome →
      NewestGreen hash desk r.key r.verdict.inputDigest) :
    Sound hash (recorded desk id r now) := by
  unfold recorded
  split
  case h_2 => exact hs.ends id
  rename_i draft drafts hset
  obtain ⟨found, hfound, -, -, hverdict, rfl⟩ := setVerdict_cases hset
  have hkept : held desk r.key = found.verdict := by rw [held, hfound]; rfl
  apply Sound.ends
  refine ⟨fun key v hv hok => ?_, fun key v records hv hrecords => ?_, hs.tasks⟩
  · by_cases hkey : key = r.key
    · subst hkey
      have hv' : r.verdict.keepingRecords found.verdict = v := by
        simpa [held, Desk.noted, hverdict] using hv
      have hok' : r.verdict.ok = true := by simpa [← hv'] using hok
      have hbare : v.bare = r.verdict.bare :=
        hv' ▸ Verdict.bare_keepingRecords r.verdict found.verdict
      have hdigest : v.bare.inputDigest = r.verdict.bare.inputDigest :=
        congrArg Verdict.inputDigest hbare
      change NewestGreen hash _ r.key v.bare.inputDigest
      rw [hdigest]
      cases hsource : r.source with
      | check =>
        exact ⟨(r.manifest, r.verdict), by simp [Desk.noted, hsource], hok', (hfits.1 hsource).symm⟩
      | harness =>
        obtain ⟨c, hc, hgreen, hof⟩ := hnewest hsource hok' (by rw [hfound]; rfl)
        exact ⟨c, by simpa [Desk.noted, hsource] using hc, hgreen, hof⟩
    · have hv' : held desk key = some v := by simpa [held, Desk.noted, hkey] using hv
      obtain ⟨c, hc, hgreen, hof⟩ := hs.green key v hv' hok
      refine ⟨c, ?_, hgreen, hof⟩
      cases hsource : r.source <;> simpa [Desk.noted, hsource, hkey] using hc
  · by_cases hkey : key = r.key
    · subst hkey
      have hv' : r.verdict.keepingRecords found.verdict = v := by
        simpa [held, Desk.noted, hverdict] using hv
      rw [← hv', Verdict.records_keepingRecords] at hrecords
      cases hown : r.verdict.records with
      | some own =>
        have hsame : own = records := by simpa [hown] using hrecords
        exact ⟨(r.manifest, own), by simp [Desk.noted, hown], hsame,
          hsame ▸ hfits.2 own hown⟩
      | none =>
        have hearlier : found.verdict.bind Verdict.records = some records := by
          simpa [hown] using hrecords
        obtain ⟨w, hw, hwr⟩ := Option.bind_eq_some_iff.mp hearlier
        obtain ⟨c, hc, hcr⟩ := hs.records r.key w records (hkept.trans hw) hwr
        exact ⟨c, by simpa [Desk.noted, hown] using hc, hcr⟩
    · have hv' : held desk key = some v := by simpa [held, Desk.noted, hkey] using hv
      obtain ⟨c, hc, hcr⟩ := hs.records key v records hv' hrecords
      refine ⟨c, ?_, hcr⟩
      cases hown : r.verdict.records <;> simpa [Desk.noted, hown, hkey] using hc

theorem sound_advance {desk desk' : Desk δ} (hs : Sound hash desk) {id : Nat} {now : Int}
    (h : advance hash desk id now = some desk')
    (hnewest : ∀ r, (desk.tasks id).bind Task.verdictSet = some r → r.source = .harness →
      r.verdict.ok → (desk.drafts r.key).isSome →
      NewestGreen hash desk r.key r.verdict.inputDigest) : Sound hash desk' := by
  unfold advance at h
  split at h
  case h_1 => cases h
  case h_2 r htask =>
    have hfits : r.Fits hash := hs.tasks id _ htask
    split at h
    · obtain rfl := Option.some.inj h
      exact sound_recorded hs hfits (hnewest r (by simp [htask, Task.verdictSet]))
    · obtain rfl := Option.some.inj h
      exact hs.goesOn id (fun t ht => by cases ht; exact hfits)
  case h_3 r htask =>
    have hfits : r.Fits hash := hs.tasks id _ htask
    split at h
    · rename_i draft drafts hput
      obtain rfl := Option.some.inj h
      exact (hs.drafts (held_put hput)).goesOn id (fun t ht => by cases ht; exact hfits)
    · obtain rfl := Option.some.inj h
      exact hs.ends id
  case h_4 r htask =>
    obtain rfl := Option.some.inj h
    exact sound_recorded hs (hs.tasks id _ htask) (hnewest r (by simp [htask, Task.verdictSet]))
  case h_5 r htask =>
    obtain rfl := Option.some.inj h
    exact sound_recorded hs (hs.tasks id _ htask) (hnewest r (by simp [htask, Task.verdictSet]))
  case h_6 key manifest records touchedBy touchedKind htask =>
    obtain rfl := Option.some.inj h
    have hspec : records.specDigest = digestOf hash (specOf manifest) := hs.tasks id _ htask
    refine hs.goesOn id (fun t ht => ?_)
    cases ht
    refine ⟨fun hsource => (by cases hsource), fun records' hrecords => ?_⟩
    obtain rfl := Option.some.inj hrecords
    exact hspec

variable [DecidableEq δ]

theorem sound_step {desk desk' : Desk δ} {act : Act δ} (h : step hash desk act = some desk')
    (hnewest : WritesNewest hash ⟨desk, act, desk'⟩) (hs : Sound hash desk) : Sound hash desk' := by
  cases act with
  | start id task =>
    simp only [step] at h
    split at h
    · rename_i hbegins
      obtain rfl := Option.some.inj h
      refine hs.goesOn id (fun t ht => ?_)
      obtain rfl := Option.some.inj ht
      have hb := hbegins.2
      cases task with
      | record r | refused r => exact ⟨fun _ => hb.2.1, hb.2.2⟩
      | run => exact hb
      | create | again => exact hb.elim
    · cases h
  | advance id now => exact sound_advance hs h (fun r hr => hnewest id now r rfl hr)
  | put key manifest expected touchedBy touchedKind now =>
    simp only [step] at h
    split at h
    · rename_i draft drafts hput
      obtain rfl := Option.some.inj h
      exact hs.drafts (held_put hput)
    · obtain rfl := Option.some.inj h
      exact hs
  | drop key =>
    obtain rfl := Option.some.inj h
    refine hs.drafts (fun key' v hv => ?_)
    by_cases hkey : key' = key
    · subst hkey
      simp [drop] at hv
    · simpa [drop, hkey, held] using hv
  | sweep cutoff =>
    obtain rfl := Option.some.inj h
    refine hs.drafts (fun key v hv => ?_)
    obtain ⟨d, hd, hdv⟩ := Option.bind_eq_some_iff.mp hv
    have hfound : desk.drafts key = some d := (Option.filter_eq_some_iff.mp hd).1
    rw [held, hfound]
    exact hdv
  | propose project manifest | proposeDraft project draft =>
    simp only [step] at h
    split at h
    · split at h
      · exact Option.some.inj h ▸ hs
      · cases h
    · cases h

theorem Sound.rests {desk : Desk δ} (hhash : Function.Injective hash) (hs : Sound hash desk)
    {key : Key} {manifest : Json} (hpasses : passes hash desk key manifest) :
    Rests desk key manifest := by
  unfold passes at hpasses
  cases hgate : verdictGate hash .strict ((desk.drafts key).bind Draft.verdict) manifest
      (checkForKind key.kind) "manifest" with
  | error e => rw [hgate] at hpasses; cases hpasses
  | ok warning =>
    obtain ⟨v, hv, hok, hdigest, hpipeline⟩ := verdictGate_strict hgate
    obtain ⟨c, hc, hgreen, hof⟩ := hs.green key v hv hok
    refine ⟨⟨c, hc, hgreen, (digestOf_inj hhash _ _).mp (hof.trans hdigest)⟩, ?_⟩
    intro hkind spec hspec
    obtain ⟨records, hrecords, hspecDigest, hrok⟩ := hpipeline hkind spec hspec
    obtain ⟨p, hp, rfl, hpspec⟩ := hs.records key v records hv hrecords
    exact ⟨p, hp, hrok, (digestOf_inj hhash _ _).mp (hpspec.symm.trans hspecDigest)⟩

theorem follows_step {desk desk' : Desk δ} {act : Act δ} (hhash : Function.Injective hash)
    (h : step hash desk act = some desk') (hs : Sound hash desk) :
    Follows ⟨desk, act, desk'⟩ := by
  intro key manifest hproposed
  dsimp only at hproposed
  cases act with
  | propose project m | proposeDraft project d =>
    simp only [step, hproposed] at h
    split at h
    · rename_i hpasses
      exact hs.rests hhash hpasses
    · cases h
  | start | advance | put | drop | sweep => cases hproposed

/-- **The gate follows the newest check**, in every run in which no run of the mapping writes back
a green verdict over a newer check that was red or of another manifest. -/
theorem gate_follows (hhash : Function.Injective hash) {tr : List (Moment δ)} {desk : Desk δ}
    (hr : Run (step hash) (Desk.opened δ) tr desk) (hnewest : ∀ t ∈ tr, WritesNewest hash t) :
    ∀ t ∈ tr, Follows t := by
  intro t ht
  obtain ⟨a, b, rfl⟩ := List.append_of_mem ht
  obtain ⟨hbefore, hstep, -⟩ := hr.at
  have hs : Sound hash t.before :=
    hbefore.invariant (C := WritesNewest hash) (sound_opened hash)
      (fun _ _ _ h hC hI => sound_step h hC hI)
      (fun u hu => hnewest u (List.mem_append_left _ hu))
  exact follows_step hhash hstep hs

end

/-! ### one Pipeline -/

def airSpec : Value := .object [("mapping", .string "root = this")]

/-- a Pipeline `air` -/
def airPipeline : Json where
  value := .object [("kind", .string "Pipeline"), ("metadata", .object [("name", .string "air")]),
    ("spec", airSpec)]
  distinct := by simp [Value.All, Value.AllFields, airSpec]

def airKey : Key := ⟨"", "doprava", "Pipeline", "air"⟩

/-- jana's check of `air`, with these findings -/
def airCheck (findings : List Finding) : Task Value :=
  .record ⟨.check, airKey, airPipeline,
    ⟨findings.isEmpty, findings, none, 1, digestOf id airPipeline, [], none⟩, "jana", "session"⟩

/-- a run of the mapping of `air` over one record -/
def airRun : Task Value :=
  .run airKey airPipeline
    ⟨true, 1, 0, digestOf id (specOf airPipeline), canonicalize (.array [])⟩ "jana" "session"

/-- a check that creates the draft, and a run after it -/
def checkedActs : List (Act Value) :=
  [.start 1 (airCheck []), .advance 1 1, .advance 1 1, .advance 1 1, .start 2 airRun, .advance 2 2]

def checkedTrace : List (Moment Value) :=
  trace (step id) (Desk.opened Value) (checkedActs ++ [.advance 2 3, .propose "doprava" airPipeline])

theorem gate_follows_of_checked :
    checkedTrace.length = 8 ∧ (∀ t ∈ checkedTrace, WritesNewest id t) ∧
      ∀ t ∈ checkedTrace, Follows t := by
  have hruns : (exec (step id) (Desk.opened Value)
        (checkedActs ++ [.advance 2 3, .propose "doprava" airPipeline])).isSome ∧
      checkedTrace.length = 8 ∧ ∀ t ∈ checkedTrace, WritesNewest id t := by
    decide +kernel
  obtain ⟨hsome, hlength, hnewest⟩ := hruns
  exact ⟨hlength, hnewest, gate_follows Function.injective_id (run_trace hsome) hnewest⟩

/-- the Endpoint is gone when the check is made again, between the run's read and its write -/
def revivedTrace : List (Moment Value) :=
  trace (step id) (Desk.opened Value) (checkedActs ++
    [.start 3 (airCheck [⟨.error, "spec", "the Endpoint is gone"⟩]), .advance 3 2, .advance 2 3,
      .propose "doprava" airPipeline])

/-- **A red check is revived**: the run writes back the green verdict it read, and `air` is
proposed. -/
theorem red_check_revived :
    ¬ ∀ tr desk, Run (step id) (Desk.opened Value) tr desk → ∀ t ∈ tr, Follows t := by
  intro hall
  have hsome : (exec (step id) (Desk.opened Value) (checkedActs ++
      [.start 3 (airCheck [⟨.error, "spec", "the Endpoint is gone"⟩]), .advance 3 2, .advance 2 3,
        .propose "doprava" airPipeline])).isSome := by decide +kernel
  have hred : ∃ t ∈ revivedTrace, proposed t.before t.act = some (airKey, airPipeline) ∧
      ((t.before.checks airKey).head?.any (fun c => c.2.ok)) = false := by decide +kernel
  obtain ⟨t, ht, hproposed, hnot⟩ := hred
  obtain ⟨c, hc, hok, -⟩ := (hall _ _ (run_trace hsome) t ht airKey airPipeline hproposed).check
  rw [hc] at hnot
  simp [hok] at hnot

end Verdicts
end Portal
