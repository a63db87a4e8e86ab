import Portal.Base.OrdMap
import Portal.Changes.Lane
import Portal.Error
import Portal.Connectors.Ceiling

/-!
# Plans waiting for their apply (`ops/plans.rs`: `PlanStore`, `etag`, `unchanged_and_gated`)

A plan is kept under a random id with what each of its objects was when it was planned, and taken
out by the one who planned it.  Before anything of it is opened each object is compared with what it
was, and asked for its verdict.

* `PlanStore.keep`, `take`           the store, which holds `maxPlans` plans at most;
* `Sight`                            what one moment shows a call;
* `etag`, `sourceEtag`, `moved`      what an object is now, against what it was;
* `gateRefusal`                      what the verdict gate says of a planned manifest;
* `size_keep`, `take_cases`          what the operations of the store do.
-/

namespace Portal
namespace Plans

open Changes (Envelope)
open Connectors (ConnectorVerb Ceiling)

/-! ## plans -/

/-- the LinkML half of a planned DataModel, with what the published file was -/
structure ModelPlan where
  source : String
  base : String
deriving DecidableEq

/-- one change of a plan: where it goes, and what the object was -/
structure Planned where
  kind : String
  plural : String
  home : String
  name : String
  /-- `none` for a delete -/
  manifest : Option Value
  base : String
  model : Option ModelPlan
deriving DecidableEq

structure Plan where
  owner : String
  connector : Option String
  project : String
  workspace : Option String
  items : List Planned
  expiresAt : Int
deriving DecidableEq

def maxPlans : Nat := 2000

abbrev PlanStore := OrdMap String Plan

namespace PlanStore

def live (s : PlanStore) (now : Int) : PlanStore := s.retain (fun p => now < p.expiresAt)

def isOldest (s : PlanStore) (id : String) : Bool :=
  match s.get? id with
  | none => false
  | some p => s.toList.all (fun q => p.expiresAt ≤ q.2.expiresAt)

/-- keeps a plan: the expired ones go, and `oldest` of the others where there is no room; which of
several oldest it is, the map's order says -/
def keep (s : PlanStore) (id : String) (plan : Plan) (now : Int) (oldest : String) : PlanStore :=
  let plans := s.live now
  (if maxPlans ≤ plans.size then plans.erase oldest else plans).insert id plan

/-- takes a plan out, for its own caller, project and connector and before it expires -/
def take (s : PlanStore) (id owner project : String) (connector : Option String) (now : Int) :
    Option Plan × PlanStore :=
  match s.get? id with
  | none => (none, s)
  | some p =>
    if p.owner = owner && p.project = project && p.connector = connector && now < p.expiresAt then
      (some p, s.erase id)
    else (none, s)

/-! ### what the operations do -/

theorem size_keep {s : PlanStore} {id : String} {plan : Plan} {now : Int} {oldest : String}
    (hs : s.size ≤ maxPlans) (ho : maxPlans ≤ (s.live now).size → (s.live now).isOldest oldest = true) :
    (s.keep id plan now oldest).size ≤ maxPlans := by
  have hlive : (s.live now).size ≤ maxPlans := le_trans (s.size_retain_le _) hs
  unfold keep
  dsimp only
  split
  · rename_i hfull
    have hold := ho hfull
    unfold isOldest at hold
    split at hold
    · cases hold
    rename_i p hp
    have hroom := OrdMap.size_erase_lt hp
    have hinsert := ((s.live now).erase oldest).size_insert_le id plan
    omega
  · have hinsert := (s.live now).size_insert_le id plan
    omega

theorem get?_keep {s : PlanStore} {id id' : String} {plan p : Plan} {now : Int} {oldest : String}
    (h : (s.keep id plan now oldest).get? id' = some p) :
    (id' = id ∧ p = plan) ∨ (id' ≠ id ∧ s.get? id' = some p) := by
  unfold keep at h
  dsimp only at h
  rcases OrdMap.of_get?_insert h with ⟨heq, hp⟩ | ⟨hne, h⟩
  · exact Or.inl ⟨heq, hp⟩
  · have hlive : (s.live now).get? id' = some p := by
      split at h
      · exact (OrdMap.of_get?_erase h).2
      · exact h
    unfold live at hlive
    rw [OrdMap.get?_retain, Option.filter_eq_some_iff] at hlive
    exact Or.inr ⟨hne, hlive.1⟩

/-- **a take finds the caller's own plan and removes it, or leaves the store as it was** -/
theorem take_cases (s : PlanStore) (id owner project : String) (connector : Option String)
    (now : Int) :
    (∃ p, s.get? id = some p ∧ p.owner = owner ∧ p.project = project ∧ p.connector = connector ∧
      now < p.expiresAt ∧ s.take id owner project connector now = (some p, s.erase id)) ∨
    s.take id owner project connector now = (none, s) := by
  unfold take
  split
  · exact Or.inr rfl
  · rename_i p hp
    split
    · rename_i hmine
      simp only [Bool.and_eq_true, decide_eq_true_eq] at hmine
      obtain ⟨⟨⟨howner, hproject⟩, hconnector⟩, hlive⟩ := hmine
      exact Or.inl ⟨p, hp, howner, hproject, hconnector, hlive, rfl⟩
    · exact Or.inr rfl

end PlanStore

/-! ## what a call sees -/

inductive OpError where
  | api (e : ApiError)
  | invalidInput (path message : String)
  /-- the body of a conflict -/
  | conflict (body : Value)
deriving DecidableEq

/-- what one moment shows a call: the mirror, the published model files, the verdict gate and the
policies that bind the caller -/
structure Sight where
  get : String → String → String → Option Envelope
  readSource : String → String → Except ApiError String
  verdict : String → Value → Except OpError Unit
  ceiling : Ceiling

/-- SHA-256, of the JSON of a value and of a text -/
structure Digest where
  ofValue : Value → String
  ofText : String → String

def absent : String := "absent"

section
variable (d : Digest) (w : Sight)

/-- what an object is now: its metadata and spec, or `absent` -/
def etag (home kind name : String) : String :=
  match w.get home kind name with
  | none => absent
  | some e => d.ofValue (.object [("metadata", (e.toValue.get? "metadata").getD .null),
      ("spec", e.spec)])

/-- what the published LinkML file of a DataModel is now -/
def sourceEtag (home name : String) : Except OpError String :=
  match w.get home "DataModel" name with
  | none => .ok absent
  | some _ =>
    match w.readSource home name with
    | .ok text => .ok (d.ofText text)
    | .error (.notFound _) => .ok absent
    | .error e => .error (.api e)

/-- the verb a change of a plan applies -/
def itemVerb (hasManifest : Bool) (base : String) : ConnectorVerb :=
  if !hasManifest then .delete else if base = absent then .create else .edit

def fileMoved (item : Planned) : Except OpError Bool :=
  match item.model with
  | none => .ok false
  | some model => (sourceEtag d w item.home item.name).map (fun e => e ≠ model.base)

def moved (item : Planned) : Except OpError Bool :=
  (fileMoved d w item).map (fun file =>
    file || etag d w item.home item.kind item.name ≠ item.base)

def gateRefusal (item : Planned) : Except OpError (Option String) :=
  match item.manifest with
  | none => .ok none
  | some manifest =>
    match w.verdict item.home manifest with
    | .ok _ => .ok none
    | .error (.conflict body) =>
      let text := fun key => (body.get? key).bind Value.asStr
      .ok (some ((text "detail").getD "its check is not fresh." ++ " Run `"
        ++ (text "check").getD "jc_manifest_dry_run" ++ "` on it, then call "
        ++ Connectors.planTool ++ " again"))
    | .error other => .error other

def Green (item : Planned) : Prop := gateRefusal w item = .ok none

/-- an item is what it was when it was planned, its model file too -/
def Unmoved (item : Planned) : Prop :=
  etag d w item.home item.kind item.name = item.base ∧
  ∀ model, item.model = some model → sourceEtag d w item.home item.name = .ok model.base

end

def Planned.label (item : Planned) : String := item.kind ++ " " ++ item.name

def movedConflict (labels : List String) : OpError :=
  .api (.conflict (", ".intercalate labels ++ " changed since the plan was made; nothing was "
    ++ "applied. Read it again and call " ++ Connectors.planTool ++ " anew"))

def gateConflict (refused : List String) : OpError :=
  .api (.conflict ("nothing was applied: " ++ "; ".intercalate refused))

section
variable {d : Digest} {w : Sight} {item : Planned}

theorem fileMoved_false : fileMoved d w item = .ok false ↔
    ∀ model, item.model = some model → sourceEtag d w item.home item.name = .ok model.base := by
  unfold fileMoved
  cases item.model with
  | none => simp
  | some model =>
    dsimp only
    cases hs : sourceEtag d w item.home item.name with
    | error e => simp [Except.map]
    | ok e => simp [Except.map]

theorem moved_false : moved d w item = .ok false ↔ Unmoved d w item := by
  unfold moved Unmoved
  rw [← fileMoved_false]
  cases hf : fileMoved d w item with
  | error e => simp [Except.map]
  | ok file => cases file <;> simp [Except.map]

end

end Plans
end Portal
