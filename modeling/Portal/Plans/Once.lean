import Portal.Base.Machine
import Portal.Plans.Apply

/-!
# A plan is applied once and as planned (`ops/plans.rs`)

Any number of calls plan, peek and apply while the mirror, the model files and the gate change.  The
store is one lock; what a call reads of an object it reads at a moment of its own.

* `Call`, `State`, `step`     the calls in flight and the store, one read or one lock at a time;
* `taken`, `kept`, `opened`   what a transition took, kept and opened;
* `Recorded`, `Found`         an item was read when it was planned, and when it was applied;
* `Lawful`, `step_lawful`     the invariant of a run, and what one step keeps of it;
* `applied_once_as_planned`   one take, by its own caller, and nothing opened that moved.
-/

namespace Portal
namespace Plans

open Connectors (Connector JcDelegation)

/-! ## the calls -/

inductive Phase where
  | admitting
  /-- the items still to compare, and those that moved -/
  | comparing (rest : List Planned) (away : List String)
  /-- the file of `item` was read, its object is next -/
  | comparingObject (item : Planned) (file : Bool) (rest : List Planned) (away : List String)
  | gating (rest : List Planned) (refused : List String)
  | opening (rest : List Planned)

inductive Call where
  | planning (caller : Caller) (project : String) (workspace : Option String)
      (items : List Planned)
  | applying (caller : Caller) (project planId : String) (plan : Plan) (phase : Phase)

structure State where
  plans : PlanStore
  /-- what a read shows now -/
  sight : Sight
  calls : Nat → Option Call
  /-- the ids given to plans so far -/
  issued : List String

def State.start (w : Sight) : State := ⟨OrdMap.empty, w, fun _ => none, []⟩

def State.setCall (s : State) (k : Nat) (call : Option Call) : State :=
  { s with calls := Function.update s.calls k call }

structure Target where
  kind : String
  plural : String
  home : String
  name : String
  manifest : Option Value

inductive Act where
  /-- the mirror, a file, the gate or a policy changes -/
  | change (w : Sight)
  | plan (k : Nat) (caller : Caller) (project : String) (workspace : Option String)
  | readObject (k : Nat) (target : Target)
  | readFile (k : Nat) (source : String)
  | keep (k : Nat) (id : String) (now : Int) (oldest : String)
  | peek (id owner project : String) (now : Int)
  | take (k : Nat) (caller : Caller) (project planId : String) (now : Int)
  | scope (k : Nat)
  | compareFile (k : Nat)
  | compareObject (k : Nat)
  | gate (k : Nat)
  /-- all items were compared, or gated -/
  | pass (k : Nat)
  | openOne (k : Nat) (ok : Bool)
  | openTogether (k : Nat) (ok : Bool)
  /-- the call is answered, and ends -/
  | answer (k : Nat)

def ttl : Int := 30 * 60 * 1000000000

def Target.planned (t : Target) (base : String) : Planned where
  kind := t.kind
  plural := t.plural
  home := t.home
  name := t.name
  manifest := t.manifest
  base := base
  model := none

def planAt (caller : Caller) (project : String) (workspace : Option String) (items : List Planned)
    (now : Int) : Plan where
  owner := caller.subject
  connector := caller.connector.map Connector.id
  project := project
  workspace := workspace
  items := items
  expiresAt := now + ttl

/-- the last item of a plan in the making gets its model file -/
def withModel (items : List Planned) (model : ModelPlan) : List Planned :=
  match items.getLast? with
  | none => items
  | some item => items.dropLast ++ [{ item with model := some model }]

/-- what a take does: a connector with the switch off takes nothing -/
def takeFor (s : State) (caller : Caller) (project planId : String) (now : Int) :
    Option Plan × PlanStore :=
  if (caller.connector.any (fun c => !c.writes)) = true then (none, s.plans)
  else s.plans.take planId caller.subject project (caller.connector.map Connector.id) now

section
variable (x : JcDelegation) (d : Digest)

def stepApply (s : State) (caller : Caller) (project planId : String) (plan : Plan) (k : Nat)
    (phase : Phase) (a : Act) : Option State :=
  let next := fun phase => s.setCall k (some (.applying caller project planId plan phase))
  let closed := s.setCall k none
  match a, phase with
  | .scope _, .admitting =>
    match itemsAdmitted x s.sight caller project plan.items with
    | .ok _ => some (next (.comparing plan.items []))
    | .error _ => some closed
  | .compareFile _, .comparing (item :: rest) away =>
    match fileMoved d s.sight item with
    | .ok file => some (next (.comparingObject item file rest away))
    | .error _ => some closed
  | .compareObject _, .comparingObject item file rest away =>
    if file || etag d s.sight item.home item.kind item.name ≠ item.base then
      some (next (.comparing rest (away ++ [item.label])))
    else some (next (.comparing rest away))
  | .pass _, .comparing [] away =>
    if away.isEmpty then some (next (.gating plan.items [])) else some closed
  | .gate _, .gating (item :: rest) refused =>
    match gateRefusal s.sight item with
    | .ok none => some (next (.gating rest refused))
    | .ok (some why) => some (next (.gating rest (refused ++ [item.label ++ ": " ++ why])))
    | .error _ => some closed
  | .pass _, .gating [] refused =>
    if refused.isEmpty then some (next (.opening plan.items)) else some closed
  | .openOne _ ok, .opening (_ :: rest) =>
    if bundled plan then none
    else if ok then some (next (.opening rest)) else some closed
  | .openTogether _ _, .opening _ => if bundled plan then some closed else none
  | _, _ => none

def Act.call : Act → Option Nat
  | .scope k | .compareFile k | .compareObject k | .gate k | .pass k | .openOne k _
  | .openTogether k _ => some k
  | _ => none

def step (s : State) (a : Act) : Option State :=
  match a with
  | .change w => some { s with sight := w }
  | .plan k caller project workspace =>
    if (s.calls k).isSome then none
    else some (s.setCall k (some (.planning caller project workspace [])))
  | .readObject k target =>
    match s.calls k with
    | some (.planning caller project workspace items) =>
      some (s.setCall k (some (.planning caller project workspace
        (items ++ [target.planned (etag d s.sight target.home target.kind target.name)]))))
    | _ => none
  | .readFile k source =>
    match s.calls k with
    | some (.planning caller project workspace items) =>
      match items.getLast?.map (fun item => sourceEtag d s.sight item.home item.name) with
      | some (.ok base) => some (s.setCall k (some (.planning caller project workspace
          (withModel items ⟨source, base⟩))))
      | some (.error _) => some (s.setCall k none)
      | none => none
    | _ => none
  | .keep k id now oldest =>
    match s.calls k with
    | some (.planning caller project workspace items) =>
      if maxPlans ≤ (s.plans.live now).size && !(s.plans.live now).isOldest oldest then none
      else some { s.setCall k none with
        plans := s.plans.keep id (planAt caller project workspace items now) now oldest
        issued := id :: s.issued }
    | _ => none
  | .peek _ _ _ _ => some s
  | .take k caller project planId now =>
    if (s.calls k).isSome then none
    else
      match takeFor s caller project planId now with
      | (none, _) => some s
      | (some plan, plans) => some { s.setCall k
          (some (.applying caller project planId plan .admitting)) with plans := plans }
  | .answer k => some (s.setCall k none)
  | a =>
    match a.call with
    | none => none
    | some k =>
      match s.calls k with
      | some (.applying caller project planId plan phase) =>
        stepApply x d s caller project planId plan k phase a
      | _ => none

end

/-! ## what a transition did -/

abbrev Moment := Trans State Act

def taken (t : Moment) : Option (String × Plan) :=
  match t.act with
  | .take _ caller project planId now =>
    (takeFor t.before caller project planId now).1.map (fun plan => (planId, plan))
  | _ => none

def kept (t : Moment) : Option (String × Plan) :=
  match t.act with
  | .keep k id now _ =>
    match t.before.calls k with
    | some (.planning caller project workspace items) =>
      some (id, planAt caller project workspace items now)
    | _ => none
  | _ => none

/-- the call and the items of a transition that opened changes -/
def opened (t : Moment) : Option (Nat × List Planned) :=
  match t.act with
  | .openOne k true =>
    match t.before.calls k with
    | some (.applying _ _ _ _ (.opening (item :: _))) => some (k, [item])
    | _ => none
  | .openTogether k true =>
    match t.before.calls k with
    | some (.applying _ _ _ plan (.opening _)) => some (k, plan.items)
    | _ => none
  | _ => none

/-- a plan's id was not given out before: 26 random characters -/
def FreshId (t : Moment) : Prop :=
  match t.act with
  | .keep _ id _ _ => id ∉ t.before.issued
  | _ => True

instance (t : Moment) : Decidable (FreshId t) := by
  unfold FreshId
  split <;> infer_instance

section
variable (d : Digest)

def Recorded (tr : List Moment) (item : Planned) : Prop :=
  (∃ r ∈ tr, (∃ k target, r.act = .readObject k target) ∧
    etag d r.before.sight item.home item.kind item.name = item.base) ∧
  ∀ model, item.model = some model → ∃ r ∈ tr, (∃ k source, r.act = .readFile k source) ∧
    sourceEtag d r.before.sight item.home item.name = .ok model.base

def FileFound (tr : List Moment) (k : Nat) (item : Planned) : Prop :=
  ∀ model, item.model = some model → ∃ r ∈ tr, r.act = .compareFile k ∧
    sourceEtag d r.before.sight item.home item.name = .ok model.base

def Compared (tr : List Moment) (k : Nat) (item : Planned) : Prop :=
  FileFound d tr k item ∧ ∃ r ∈ tr, r.act = .compareObject k ∧
    etag d r.before.sight item.home item.kind item.name = item.base

/-- the call found the item's gate not red -/
def Gated (tr : List Moment) (k : Nat) (item : Planned) : Prop :=
  ∃ r ∈ tr, r.act = .gate k ∧ Green r.before.sight item

def Origin (tr : List Moment) (id : String) (plan : Plan) : Prop :=
  ∃ a t b, tr = a ++ t :: b ∧ kept t = some (id, plan) ∧ ∀ item ∈ plan.items, Recorded d a item

def PhaseOk (tr : List Moment) (k : Nat) (plan : Plan) : Phase → Prop
  | .admitting => True
  | .comparing rest away => ∃ past, plan.items = past ++ rest ∧
      (away = [] → ∀ item ∈ past, Compared d tr k item)
  | .comparingObject item file rest away => ∃ past, plan.items = past ++ item :: rest ∧
      (away = [] → ∀ item ∈ past, Compared d tr k item) ∧
      (file = false → FileFound d tr k item)
  | .gating rest refused => (∀ item ∈ plan.items, Compared d tr k item) ∧
      ∃ past, plan.items = past ++ rest ∧ (refused = [] → ∀ item ∈ past, Gated tr k item)
  | .opening rest => (∀ item ∈ plan.items, Compared d tr k item) ∧
      (∀ item ∈ plan.items, Gated tr k item) ∧ ∃ past, plan.items = past ++ rest

def CallOk (tr : List Moment) (k : Nat) : Call → Prop
  | .planning _ _ _ items => ∀ item ∈ items, Recorded d tr item
  | .applying caller project planId plan phase => ∃ a u b now, tr = a ++ u :: b ∧
      u.act = .take k caller project planId now ∧ taken u = some (planId, plan) ∧
      Origin d a planId plan ∧ PhaseOk d b k plan phase

structure Lawful (tr : List Moment) (s : State) : Prop where
  size : s.plans.size ≤ maxPlans
  store : ∀ id plan, s.plans.get? id = some plan → id ∈ s.issued ∧ Origin d tr id plan
  gone : ∀ t ∈ tr, ∀ id plan, taken t = some (id, plan) →
    id ∈ s.issued ∧ s.plans.get? id = none
  once : ((tr.filterMap taken).map Prod.fst).Nodup
  calls : ∀ k call, s.calls k = some call → CallOk d tr k call

end

/-! ## what a longer run keeps -/

section
variable {d : Digest} {tr : List Moment} {k : Nat} {item : Planned} {plan : Plan}

theorem Recorded.snoc (h : Recorded d tr item) (t : Moment) : Recorded d (tr ++ [t]) item := by
  obtain ⟨⟨r, hr, hread⟩, hfile⟩ := h
  refine ⟨⟨r, List.mem_append_left _ hr, hread⟩, fun model hm => ?_⟩
  obtain ⟨r', hr', hread'⟩ := hfile model hm
  exact ⟨r', List.mem_append_left _ hr', hread'⟩

theorem FileFound.snoc (h : FileFound d tr k item) (t : Moment) :
    FileFound d (tr ++ [t]) k item := by
  intro model hm
  obtain ⟨r, hr, hread⟩ := h model hm
  exact ⟨r, List.mem_append_left _ hr, hread⟩

theorem Compared.snoc (h : Compared d tr k item) (t : Moment) : Compared d (tr ++ [t]) k item := by
  obtain ⟨hfile, r, hr, hread⟩ := h
  exact ⟨hfile.snoc t, r, List.mem_append_left _ hr, hread⟩

theorem Gated.snoc (h : Gated tr k item) (t : Moment) : Gated (tr ++ [t]) k item := by
  obtain ⟨r, hr, hread⟩ := h
  exact ⟨r, List.mem_append_left _ hr, hread⟩

theorem Origin.snoc {id : String} (h : Origin d tr id plan) (t : Moment) :
    Origin d (tr ++ [t]) id plan := by
  obtain ⟨a, u, b, rfl, hkept, hread⟩ := h
  exact ⟨a, u, b ++ [t], by simp, hkept, hread⟩

theorem PhaseOk.snoc {phase : Phase} (h : PhaseOk d tr k plan phase) (t : Moment) :
    PhaseOk d (tr ++ [t]) k plan phase := by
  cases phase with
  | admitting => trivial
  | comparing rest away =>
    obtain ⟨past, hitems, hpast⟩ := h
    exact ⟨past, hitems, fun ha item hi => (hpast ha item hi).snoc t⟩
  | comparingObject item file rest away =>
    obtain ⟨past, hitems, hpast, hfile⟩ := h
    exact ⟨past, hitems, fun ha item hi => (hpast ha item hi).snoc t, fun hf => (hfile hf).snoc t⟩
  | gating rest refused =>
    obtain ⟨hall, past, hitems, hpast⟩ := h
    exact ⟨fun item hi => (hall item hi).snoc t, past, hitems,
      fun hr item hi => (hpast hr item hi).snoc t⟩
  | opening rest =>
    obtain ⟨hall, hgated, hrest⟩ := h
    exact ⟨fun item hi => (hall item hi).snoc t, fun item hi => (hgated item hi).snoc t, hrest⟩

theorem CallOk.snoc {call : Call} (h : CallOk d tr k call) (t : Moment) :
    CallOk d (tr ++ [t]) k call := by
  cases call with
  | planning caller project workspace items => exact fun item hi => (h item hi).snoc t
  | applying caller project planId plan phase =>
    obtain ⟨a, u, b, now, rfl, hact, htaken, horigin, hphase⟩ := h
    exact ⟨a, u, b ++ [t], now, by simp, hact, htaken, horigin, hphase.snoc t⟩

/-! ## what one step keeps -/

variable {x : JcDelegation} {s s' : State} {a : Act}

theorem phase_step {caller : Caller} {project planId : String} {phase : Phase}
    (hphase : PhaseOk d tr k plan phase) (hk : a.call = some k)
    (h : stepApply x d s caller project planId plan k phase a = some s') :
    ∃ next : Option Phase, s' = s.setCall k (next.map (Call.applying caller project planId plan)) ∧
      ∀ p, next = some p → PhaseOk d (tr ++ [⟨s, a, s'⟩]) k plan p := by
  have hover : s.setCall k none = s' → ∃ next : Option Phase,
      s' = s.setCall k (next.map (Call.applying caller project planId plan)) ∧
      ∀ p, next = some p → PhaseOk d (tr ++ [⟨s, a, s'⟩]) k plan p :=
    fun h => ⟨none, h.symm, fun p hp => (nomatch hp)⟩
  have hnow : (⟨s, a, s'⟩ : Moment) ∈ tr ++ [⟨s, a, s'⟩] :=
    List.mem_append_right _ List.mem_cons_self
  unfold stepApply at h
  dsimp only at h
  split at h
  · -- the connector's checks
    split at h
    · refine ⟨some (.comparing plan.items []), (Option.some.inj h).symm, fun p hp => ?_⟩
      cases hp
      exact ⟨[], rfl, fun _ item hi => absurd hi List.not_mem_nil⟩
    · exact hover (Option.some.inj h)
  · -- the model file of the next item
    rename_i k' item rest away
    cases hk
    split at h
    · rename_i file hfile
      obtain ⟨past, hitems, hpast⟩ := hphase
      refine ⟨some (.comparingObject item file rest away), (Option.some.inj h).symm, fun p hp => ?_⟩
      cases hp
      refine ⟨past, hitems, fun ha i hi => (hpast ha i hi).snoc _, fun hf model hm => ?_⟩
      rw [hf] at hfile
      exact ⟨_, hnow, rfl, fileMoved_false.mp hfile model hm⟩
    · exact hover (Option.some.inj h)
  · -- the object of the next item
    rename_i k' item file rest away
    cases hk
    obtain ⟨past, hitems, hpast, hfound⟩ := hphase
    have hitems' : plan.items = (past ++ [item]) ++ rest := by rw [hitems, List.append_assoc]; rfl
    split at h
    · refine ⟨some (.comparing rest (away ++ [item.label])), (Option.some.inj h).symm,
        fun p hp => ?_⟩
      cases hp
      exact ⟨past ++ [item], hitems', fun ha => absurd ha (by simp)⟩
    · rename_i hsame
      simp only [Bool.or_eq_true, decide_eq_true_eq, not_or, not_not, Bool.not_eq_true] at hsame
      refine ⟨some (.comparing rest away), (Option.some.inj h).symm, fun p hp => ?_⟩
      cases hp
      refine ⟨past ++ [item], hitems', fun ha i hi => ?_⟩
      rcases List.mem_append.mp hi with hi | hi
      · exact (hpast ha i hi).snoc _
      · rw [List.mem_singleton.mp hi]
        exact ⟨(hfound hsame.1).snoc _, _, hnow, rfl, hsame.2⟩
  · -- all of them are as they were
    rename_i away
    split at h
    · rename_i haway
      obtain ⟨past, hitems, hpast⟩ := hphase
      refine ⟨some (.gating plan.items []), (Option.some.inj h).symm, fun p hp => ?_⟩
      cases hp
      rw [List.append_nil] at hitems
      refine ⟨fun i hi => (hpast (List.isEmpty_iff.mp haway) i (hitems ▸ hi)).snoc _, [], rfl,
        fun _ i hi => absurd hi List.not_mem_nil⟩
    · exact hover (Option.some.inj h)
  · -- the gate of the next item
    rename_i k' item rest refused
    cases hk
    obtain ⟨hall, past, hitems, hpast⟩ := hphase
    have hitems' : plan.items = (past ++ [item]) ++ rest := by rw [hitems, List.append_assoc]; rfl
    split at h
    · rename_i hgreen
      refine ⟨some (.gating rest refused), (Option.some.inj h).symm, fun p hp => ?_⟩
      cases hp
      refine ⟨fun i hi => (hall i hi).snoc _, past ++ [item], hitems', fun hr i hi => ?_⟩
      rcases List.mem_append.mp hi with hi | hi
      · exact (hpast hr i hi).snoc _
      · rw [List.mem_singleton.mp hi]
        exact ⟨_, hnow, rfl, hgreen⟩
    · rename_i why _
      refine ⟨some (.gating rest (refused ++ [item.label ++ ": " ++ why])),
        (Option.some.inj h).symm, fun p hp => ?_⟩
      cases hp
      exact ⟨fun i hi => (hall i hi).snoc _, past ++ [item], hitems',
        fun hr => absurd hr (by simp)⟩
    · exact hover (Option.some.inj h)
  · -- no gate is red
    rename_i refused
    split at h
    · rename_i hrefused
      obtain ⟨hall, past, hitems, hpast⟩ := hphase
      refine ⟨some (.opening plan.items), (Option.some.inj h).symm, fun p hp => ?_⟩
      cases hp
      rw [List.append_nil] at hitems
      exact ⟨fun i hi => (hall i hi).snoc _,
        fun i hi => (hpast (List.isEmpty_iff.mp hrefused) i (hitems ▸ hi)).snoc _, [], rfl⟩
    · exact hover (Option.some.inj h)
  · -- one change is opened
    rename_i k' ok item rest
    split at h
    · cases h
    split at h
    · obtain ⟨hall, hgated, past, hitems⟩ := hphase
      refine ⟨some (.opening rest), (Option.some.inj h).symm, fun p hp => ?_⟩
      cases hp
      exact ⟨fun i hi => (hall i hi).snoc _, fun i hi => (hgated i hi).snoc _, past ++ [item],
        by rw [hitems, List.append_assoc]; rfl⟩
    · exact hover (Option.some.inj h)
  · split at h
    · exact hover (Option.some.inj h)
    · cases h
  · cases h

theorem calls_setCall {k' : Nat} {c : Option Call} {call : Call}
    (h : (s.setCall k c).calls k' = some call) :
    (k' = k ∧ c = some call) ∨ (k' ≠ k ∧ s.calls k' = some call) := by
  unfold State.setCall at h
  by_cases hk : k' = k
  · subst hk
    exact Or.inl ⟨rfl, by simpa using h⟩
  · exact Or.inr ⟨hk, by simpa [Function.update_of_ne hk] using h⟩

theorem Lawful.quiet (h : Lawful d tr s) {t : Moment} {c : Option Call} (ht : taken t = none)
    (hplans : s'.plans = s.plans) (hissued : s'.issued = s.issued)
    (hcalls : s'.calls = (s.setCall k c).calls)
    (hc : ∀ call, c = some call → CallOk d (tr ++ [t]) k call) : Lawful d (tr ++ [t]) s' where
  size := hplans ▸ h.size
  store := by
    intro id plan hget
    rw [hplans] at hget
    obtain ⟨hi, horigin⟩ := h.store id plan hget
    exact ⟨hissued ▸ hi, horigin.snoc t⟩
  gone := by
    intro u hu id plan htaken
    rw [hplans, hissued]
    rcases List.mem_append.mp hu with hu | hu
    · exact h.gone u hu id plan htaken
    · rw [List.mem_singleton.mp hu, ht] at htaken
      cases htaken
  once := by
    rw [List.filterMap_append]
    simp only [List.filterMap_cons, ht, List.filterMap_nil, List.append_nil]
    exact h.once
  calls := by
    intro k' call hcall
    rw [hcalls] at hcall
    rcases calls_setCall hcall with ⟨rfl, hnew⟩ | ⟨_, hold⟩
    · exact hc call hnew
    · exact (h.calls k' call hold).snoc t

theorem Lawful.idle (h : Lawful d tr s) {t : Moment} (ht : taken t = none)
    (hplans : s'.plans = s.plans) (hissued : s'.issued = s.issued) (hcalls : s'.calls = s.calls) :
    Lawful d (tr ++ [t]) s' := by
  refine h.quiet (k := 0) (c := s.calls 0) ht hplans hissued ?_
    (fun call hc => (h.calls 0 call hc).snoc t)
  rw [hcalls]
  exact (Function.update_eq_self 0 s.calls).symm

theorem recorded_readObject {target : Target} {items : List Planned}
    (h : ∀ item ∈ items, Recorded d tr item) :
    ∀ item ∈ items ++ [target.planned (etag d s.sight target.home target.kind target.name)],
      Recorded d (tr ++ [⟨s, .readObject k target, s'⟩]) item := by
  intro item hi
  rcases List.mem_append.mp hi with hi | hi
  · exact (h item hi).snoc _
  · rw [List.mem_singleton.mp hi]
    refine ⟨⟨_, List.mem_append_right _ List.mem_cons_self, ⟨k, target, rfl⟩, rfl⟩, ?_⟩
    exact fun model hm => (nomatch hm)

theorem recorded_readFile {source base : String} {items : List Planned} {last : Planned}
    (h : ∀ item ∈ items, Recorded d tr item) (hlast : items.getLast? = some last)
    (hbase : sourceEtag d s.sight last.home last.name = .ok base) :
    ∀ item ∈ withModel items ⟨source, base⟩,
      Recorded d (tr ++ [⟨s, .readFile k source, s'⟩]) item := by
  intro item hi
  unfold withModel at hi
  rw [hlast] at hi
  rcases List.mem_append.mp hi with hi | hi
  · exact (h item (List.dropLast_subset _ hi)).snoc _
  · rw [List.mem_singleton.mp hi]
    have hrec := (h last (List.mem_of_getLast? hlast)).snoc ⟨s, .readFile k source, s'⟩
    refine ⟨hrec.1, fun model hm => ?_⟩
    have hmodel : model = ⟨source, base⟩ := (Option.some.inj hm).symm
    rw [hmodel]
    exact ⟨_, List.mem_append_right _ List.mem_cons_self, ⟨k, source, rfl⟩, hbase⟩

theorem lawful_keep (h : Lawful d tr s) {id oldest : String} {now : Int} {caller : Caller}
    {project : String} {workspace : Option String} {items : List Planned}
    (hcall : s.calls k = some (.planning caller project workspace items))
    (hold : maxPlans ≤ (s.plans.live now).size → (s.plans.live now).isOldest oldest = true)
    (hfresh : id ∉ s.issued)
    (hs' : s' = { s.setCall k none with
      plans := s.plans.keep id (planAt caller project workspace items now) now oldest
      issued := id :: s.issued }) :
    Lawful d (tr ++ [⟨s, .keep k id now oldest, s'⟩]) s' where
  size := hs' ▸ PlanStore.size_keep h.size hold
  store := by
    subst hs'
    intro id' plan hget
    rcases PlanStore.get?_keep hget with ⟨rfl, rfl⟩ | ⟨_, hget⟩
    · refine ⟨List.mem_cons_self, tr, _, [], rfl, ?_, h.calls k _ hcall⟩
      simp only [kept, hcall]
    · obtain ⟨hi, horigin⟩ := h.store id' plan hget
      exact ⟨List.mem_cons_of_mem _ hi, horigin.snoc _⟩
  gone := by
    subst hs'
    intro u hu id' plan htaken
    rcases List.mem_append.mp hu with hu | hu
    · obtain ⟨hi, hnone⟩ := h.gone u hu id' plan htaken
      refine ⟨List.mem_cons_of_mem _ hi, Option.eq_none_iff_forall_not_mem.mpr (fun p hp => ?_)⟩
      rcases PlanStore.get?_keep hp with ⟨rfl, _⟩ | ⟨_, hget⟩
      · exact hfresh hi
      · rw [hnone] at hget
        cases hget
    · rw [List.mem_singleton.mp hu] at htaken
      cases htaken
  once := by
    rw [List.filterMap_append]
    simp only [List.filterMap_cons, taken, List.filterMap_nil, List.append_nil]
    exact h.once
  calls := by
    subst hs'
    intro k' call hc
    rcases calls_setCall hc with ⟨rfl, hnew⟩ | ⟨_, hc⟩
    · cases hnew
    · exact (h.calls k' call hc).snoc _

theorem lawful_take (h : Lawful d tr s) {caller : Caller} {project planId : String} {now : Int}
    (htake : takeFor s caller project planId now = (some plan, s.plans.erase planId))
    (hget : s.plans.get? planId = some plan)
    (hs' : s' = { s.setCall k (some (.applying caller project planId plan .admitting)) with
      plans := s.plans.erase planId }) :
    Lawful d (tr ++ [⟨s, .take k caller project planId now, s'⟩]) s' := by
  have htaken : taken ⟨s, .take k caller project planId now, s'⟩ = some (planId, plan) := by
    simp only [taken, htake, Option.map_some]
  obtain ⟨hissued, horigin⟩ := h.store planId plan hget
  have hnone : (s.plans.erase planId).get? planId = none := by simp [OrdMap.get?_erase]
  refine ⟨?_, ?_, ?_, ?_, ?_⟩
  · rw [hs']
    exact le_trans (s.plans.size_erase_le planId) h.size
  · intro id p hp
    rw [hs'] at hp ⊢
    obtain ⟨hi, ho⟩ := h.store id p (OrdMap.of_get?_erase hp).2
    exact ⟨hi, ho.snoc _⟩
  · intro u hu id p hu'
    rw [hs']
    rcases List.mem_append.mp hu with hu | hu
    · obtain ⟨hi, hn⟩ := h.gone u hu id p hu'
      refine ⟨hi, ?_⟩
      show (s.plans.erase planId).get? id = none
      rw [OrdMap.get?_erase]
      split
      · rfl
      · exact hn
    · rw [List.mem_singleton.mp hu, htaken] at hu'
      cases hu'
      exact ⟨hissued, hnone⟩
  · -- the id was not taken before, for it was in the store
    rw [List.filterMap_append, List.map_append, List.nodup_append]
    simp only [List.filterMap_cons, htaken, List.filterMap_nil, List.map_cons, List.map_nil]
    refine ⟨h.once, by simp, fun id hid id' hid' heq => ?_⟩
    rw [List.mem_singleton.mp hid'] at heq
    obtain ⟨q, hq, hqid⟩ := List.mem_map.mp hid
    obtain ⟨u, hu, hut⟩ := List.mem_filterMap.mp hq
    obtain ⟨_, hn⟩ := h.gone u hu q.1 q.2 hut
    rw [hqid, heq, hget] at hn
    cases hn
  · intro k' call hc
    rw [hs'] at hc
    rcases calls_setCall hc with ⟨rfl, hnew⟩ | ⟨_, hc⟩
    · cases hnew
      exact ⟨tr, _, [], now, rfl, rfl, htaken, horigin, trivial⟩
    · exact (h.calls k' call hc).snoc _

theorem takeFor_cases (s : State) (caller : Caller) (project planId : String) (now : Int) :
    (∃ plan, s.plans.get? planId = some plan ∧ plan.owner = caller.subject ∧
      plan.project = project ∧ plan.connector = caller.connector.map Connector.id ∧
      now < plan.expiresAt ∧
      takeFor s caller project planId now = (some plan, s.plans.erase planId)) ∨
    takeFor s caller project planId now = (none, s.plans) := by
  unfold takeFor
  split
  · exact Or.inr rfl
  · exact s.plans.take_cases planId caller.subject project _ now

/-- **one step keeps the law** -/
theorem step_lawful (h : Lawful d tr s) (hs : step x d s a = some s') (hfresh : FreshId ⟨s, a, s'⟩) :
    Lawful d (tr ++ [⟨s, a, s'⟩]) s' := by
  unfold step at hs
  split at hs
  · cases hs
    exact h.idle rfl rfl rfl rfl
  · split at hs
    · cases hs
    · cases hs
      exact h.quiet rfl rfl rfl rfl (fun call hc => by cases hc; exact fun item hi => (nomatch hi))
  · split at hs
    · rename_i hcall
      cases hs
      refine h.quiet rfl rfl rfl rfl (fun call hc => ?_)
      cases hc
      exact recorded_readObject (h.calls _ _ hcall)
    · cases hs
  · split at hs
    · rename_i items hcall
      split at hs
      · rename_i base hbase
        cases hs
        obtain ⟨last, hlast, hread⟩ := Option.map_eq_some_iff.mp hbase
        refine h.quiet rfl rfl rfl rfl (fun call hc => ?_)
        cases hc
        exact recorded_readFile (h.calls _ _ hcall) hlast hread
      · cases hs
        exact h.quiet rfl rfl rfl rfl (fun call hc => (nomatch hc))
      · cases hs
    · cases hs
  · split at hs
    · rename_i k id now oldest _ caller project workspace items hcall
      split at hs
      · cases hs
      · rename_i hroom
        have hold : maxPlans ≤ (s.plans.live now).size →
            (s.plans.live now).isOldest oldest = true := by
          intro hfull
          simpa [hfull] using hroom
        exact lawful_keep h hcall hold hfresh (Option.some.inj hs).symm
    · cases hs
  · cases hs
    exact h.idle rfl rfl rfl rfl
  · split at hs
    · cases hs
    · rename_i k caller project planId now hfree
      rcases takeFor_cases s caller project planId now with ⟨plan, hget, _, _, _, _, htake⟩ | htake
      · rw [htake] at hs
        exact lawful_take h htake hget (Option.some.inj hs).symm
      · rw [htake] at hs
        cases hs
        exact h.idle (by simp only [taken, htake, Option.map_none]) rfl rfl rfl
  · cases hs
    exact h.quiet rfl rfl rfl rfl (fun call hc => (nomatch hc))
  · -- a step of an apply
    split at hs
    · cases hs
    · rename_i k hk
      split at hs
      · rename_i caller project planId plan phase hcall
        obtain ⟨b, u, c, now, rfl, hact, htaken, horigin, hphase⟩ := h.calls k _ hcall
        obtain ⟨next, rfl, hnext⟩ := phase_step hphase hk hs
        have hquiet : taken ⟨s, a, s.setCall k (next.map (Call.applying caller project planId plan))⟩
            = none := by
          unfold taken
          split
          · rename_i hact'
            dsimp only at hact'
            rw [hact'] at hk
            cases hk
          · rfl
        refine h.quiet hquiet rfl rfl rfl (fun call hc => ?_)
        obtain ⟨p, hp, rfl⟩ := Option.map_eq_some_iff.mp hc
        exact ⟨b, u, _, now, by simp, hact, htaken, horigin, hnext p hp⟩
      · cases hs

theorem lawful_start (w : Sight) : Lawful d [] (State.start w) where
  size := Nat.zero_le _
  store := fun _ _ h => (nomatch h)
  gone := fun _ h => (nomatch h)
  once := List.nodup_nil
  calls := fun _ _ h => (nomatch h)

theorem run_lawful {w : Sight} (hr : Run (step x d) (State.start w) tr s)
    (hfresh : ∀ t ∈ tr, FreshId t) : Lawful d tr s :=
  Run.history (C := FreshId) (lawful_start w) (fun _ _ _ _ _ hs hf hl => step_lawful hl hs hf) hr
    hfresh

theorem opened_cases {t : Moment} {items : List Planned} (h : opened t = some (k, items)) :
    ∃ caller project planId plan rest,
      t.before.calls k = some (.applying caller project planId plan (.opening rest)) ∧
      ∀ item ∈ items, item ∈ rest ∨ item ∈ plan.items := by
  unfold opened at h
  split at h
  · split at h
    · rename_i item _ hcall
      cases h
      exact ⟨_, _, _, _, _, hcall, fun i hi => Or.inl (List.mem_singleton.mp hi ▸
        List.mem_cons_self)⟩
    · cases h
  · split at h
    · rename_i hcall
      cases h
      exact ⟨_, _, _, _, _, hcall, fun i hi => Or.inr hi⟩
    · cases h
  · cases h

/-- **a plan is applied at most once and as planned**: in every interleaving of calls that plan,
peek and apply with changes of the mirror, each id is taken once at most, by the person who planned
it, for the same project, through the same connector and before it expires; a take that is refused
changes nothing; no more than `maxPlans` plans are kept; and a change is opened only of a plan whose
items were each read when it was planned, and after the take found with the etag and the file they
had and with a gate that is not red -/
theorem applied_once_as_planned (x : JcDelegation) (d : Digest) {w : Sight} {tr : List Moment}
    {s : State} (hr : Run (step x d) (State.start w) tr s) (hfresh : ∀ t ∈ tr, FreshId t) :
    ((tr.filterMap taken).map Prod.fst).Nodup ∧
    (∀ a t b k caller project planId now, tr = a ++ t :: b →
      t.act = .take k caller project planId now →
      (taken t = none ∧ t.after = t.before) ∨
      ∃ plan, taken t = some (planId, plan) ∧ plan.owner = caller.subject ∧
        plan.project = project ∧ plan.connector = caller.connector.map Connector.id ∧
        now < plan.expiresAt ∧ ∃ u ∈ a, kept u = some (planId, plan)) ∧
    (∀ t ∈ tr, t.after.plans.size ≤ maxPlans) ∧
    (∀ a t b k items, tr = a ++ t :: b → opened t = some (k, items) →
      ∃ before u after caller project planId now plan, a = before ++ u :: after ∧
        u.act = .take k caller project planId now ∧ taken u = some (planId, plan) ∧
        (∀ item ∈ items, item ∈ plan.items) ∧
        ∀ item ∈ plan.items, Recorded d before item ∧ Compared d after k item ∧
          Gated after k item) := by
  have hlaw : ∀ a t b, tr = a ++ t :: b → Lawful d a t.before ∧ step x d t.before t.act = some t.after
      ∧ Lawful d (a ++ [t]) t.after := by
    intro a t b htr
    subst htr
    obtain ⟨hr1, hs, _⟩ := hr.at
    have hfresh1 : ∀ u ∈ a, FreshId u := fun u hu => hfresh u (List.mem_append_left _ hu)
    have hl := run_lawful hr1 hfresh1
    exact ⟨hl, hs, step_lawful hl hs (hfresh t (by simp))⟩
  refine ⟨(run_lawful hr hfresh).once, ?_, ?_, ?_⟩
  · intro a t b k caller project planId now htr hact
    obtain ⟨hl, hs, _⟩ := hlaw a t b htr
    rcases takeFor_cases t.before caller project planId now with
      ⟨plan, hget, howner, hproject, hconnector, hlive, htake⟩ | htake
    · refine Or.inr ⟨plan, by simp only [taken, hact, htake, Option.map_some], howner, hproject,
        hconnector, hlive, ?_⟩
      obtain ⟨_, a₁, u, a₂, rfl, hkept, _⟩ := hl.store planId plan hget
      exact ⟨u, by simp, hkept⟩
    · refine Or.inl ⟨by simp only [taken, hact, htake, Option.map_none], ?_⟩
      rw [hact] at hs
      unfold step at hs
      dsimp only at hs
      rw [htake] at hs
      split at hs
      · cases hs
      · exact (Option.some.inj hs).symm
  · intro t ht
    obtain ⟨a, b, htr⟩ := List.append_of_mem ht
    exact (hlaw a t b htr).2.2.size
  · intro a t b k items htr hopened
    obtain ⟨hl, _, _⟩ := hlaw a t b htr
    obtain ⟨caller, project, planId, plan, rest, hcall, hitems⟩ := opened_cases hopened
    obtain ⟨a₁, u, a₂, now, rfl, hact, htaken, horigin, hall, hgated, past, hrest⟩ :=
      hl.calls k _ hcall
    refine ⟨a₁, u, a₂, caller, project, planId, now, plan, rfl, hact, htaken, fun item hi => ?_,
      fun item hi => ?_⟩
    · rcases hitems item hi with hi | hi
      · rw [hrest]
        exact List.mem_append_right _ hi
      · exact hi
    · obtain ⟨b₁, v, b₂, rfl, _, hrec⟩ := horigin
      obtain ⟨⟨r, hr', hread⟩, hfile⟩ := hrec item hi
      refine ⟨⟨⟨r, List.mem_append_left _ hr', hread⟩, fun model hm => ?_⟩, hall item hi,
        hgated item hi⟩
      obtain ⟨r', hr', hread'⟩ := hfile model hm
      exact ⟨r', List.mem_append_left _ hr', hread'⟩

end

/-! ### one plan, two applies -/

def stopsTarget : Target := ⟨"Endpoint", "endpoints", "doprava", "stops", stopsEdited.manifest⟩

/-- jana plans through her connector, mallory and another of jana's calls ask for the plan, jana's
first apply opens it -/
def onceActs : List Act :=
  let jana := janaThrough airConnector
  [.plan 1 jana "doprava" none, .readObject 1 stopsTarget, .keep 1 "p1" 0 "",
    .take 2 ⟨"mallory", none, false⟩ "doprava" "p1" 1, .take 2 jana "doprava" "p1" 1,
    .take 3 jana "doprava" "p1" 1, .scope 2, .compareFile 2, .compareObject 2, .pass 2, .gate 2,
    .pass 2, .openOne 2 true, .answer 2]

def onceTrace : List Moment := trace (step plainDelegation plainDigest) (State.start airSight) onceActs

theorem applied_once_as_planned_of_p1 :
    (onceTrace.filterMap taken).map Prod.fst = ["p1"] ∧
    (onceTrace.filterMap opened).map Prod.fst = [2] ∧
    ((onceTrace.filterMap taken).map Prod.fst).Nodup ∧
    (∀ t ∈ onceTrace, t.after.plans.size ≤ maxPlans) := by
  have hruns : (exec (step plainDelegation plainDigest) (State.start airSight) onceActs).isSome ∧
      (∀ t ∈ onceTrace, FreshId t) ∧ (onceTrace.filterMap taken).map Prod.fst = ["p1"] ∧
      (onceTrace.filterMap opened).map Prod.fst = [2] := by
    decide +kernel
  obtain ⟨hsome, hfresh, htaken, hopened⟩ := hruns
  have hall := applied_once_as_planned plainDelegation plainDigest (run_trace hsome) hfresh
  exact ⟨htaken, hopened, hall.1, hall.2.2.1⟩

end Plans
end Portal
