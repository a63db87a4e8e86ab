import Portal.Base.Machine
import Portal.Deployer.Sources
import Portal.Error

/-!
# Who writes a swept space (`pipeline_expiry.rs`: `check`)

A pipeline with an expiry deletes from the space of its output what it did not write lately.  Nothing on
an entity says which pipeline wrote it, so a pipeline is refused when it would sweep a space another one
writes, or write into a space another one sweeps.

* `spaceOfEndpoint`, `spacesWritten`   the spaces a pipeline writes;
* `problems`, `sweptByAnother`, `sourceDeleteGrants`, `check`   what a write is refused for;
* `Act`, `step`      Pipelines written and deleted, and every other manifest;
* `OneWriter`        no pipeline writes a space another one sweeps;
* `oneWriter_run`    **no run of accepted writes leaves two**, while Endpoints stay in their spaces.
-/

namespace Portal

namespace Expiring

/-! ## what is read of the manifests -/

structure Expiry where
  after : String
  types : List String
deriving DecidableEq

inductive SourceDeleteMode where
  | snapshot
  | events
  | other (name : String)
deriving DecidableEq

structure Output where
  /-- the local id of `target_endpoint` -/
  targetEndpoint : String
  entityType : Option String
deriving DecidableEq

structure PipelineSpec where
  /-- `outputs()`, one `output` of the older form included -/
  outputs : List Output
  expiry : Option Expiry
  /-- the mode of the field `source_deletes` -/
  sourceDeletes : Option SourceDeleteMode
deriving DecidableEq

inductive Operation where
  | queryBatch
  | deleteBatch
  | other (name : String)
deriving DecidableEq

inductive OperationRef where
  | single (operation : Operation)
  /-- a group with its `operations()` -/
  | group (operations : List Operation)
deriving DecidableEq

inductive PrincipalKind where
  | serviceAccount
  | other (name : String)
deriving DecidableEq

structure EntitySelector where
  entityType : String
  id : Option String
  idPattern : Option String
deriving DecidableEq

structure PolicySpec where
  isProhibition : Bool
  /-- the name of `context_space_ref` -/
  contextSpace : String
  assigneeKind : PrincipalKind
  assigneeId : String
  operations : List OperationRef
  /-- the `entities` of each `information` -/
  information : List (List EntitySelector)
  q : Option Value
  scopeQ : Option Value
  geoQ : Option Value
  temporalQ : Option Value
deriving DecidableEq

/-- the specs as jc-core parses them, and the grants it expands a Policy to, one for each rule -/
structure JcExpiry where
  pipelineSpec : Value → Option PipelineSpec
  policySpec : Value → Option PolicySpec
  expand : PolicySpec → String → Option (List (String × PolicySpec))
  policyOf : String → String

structure ModelSchema where
  model : String
  classes : List String

/-- what the check reads beside the mirror -/
structure World where
  /-- the compiled model of a project's space -/
  modelSchemas : String → String → Option ModelSchema
  /-- the account a pipeline writes as, and its derived Policies under per-pipeline identity -/
  identity : Mirror → String → String → PipelineSpec → String × Option (List (String × PolicySpec))

def joined (names : List String) : String := ", ".intercalate names

def ungrantedText (wire types space extend : String) : String :=
  s!"no Policy grants the pipelines account {wire} on {types} in space {space}: add it to {extend} "
    ++ "in the same change, knowing that it lets the pipeline delete"

section
variable (x : JcExpiry) (w : World) (m : Mirror) (project : String)

def spaceOfEndpoint (endpoint : String) : Option String := do
  referenceName (← (← m.get project "Endpoint" endpoint).get? "contextSpaceRef")

/-- the spaces a pipeline writes, one for each output whose Endpoint the mirror holds -/
def spacesWritten (spec : PipelineSpec) : List String :=
  spec.outputs.filterMap (fun output => spaceOfEndpoint m project output.targetEndpoint)

def pipelines (name : String) : List (String × PipelineSpec) :=
  ((m.list project "Pipeline").toList.filter (fun other => other.1 ≠ name)).filterMap
    (fun other => (x.pipelineSpec other.2).map (fun spec => (other.1, spec)))

/-! ## grants -/

def forPipelines (policy : PolicySpec) (space account : String) : Bool :=
  policy.contextSpace = space && policy.assigneeKind = .serviceAccount && policy.assigneeId = account

def OperationRef.covers (operation : Operation) : OperationRef → Bool
  | .single operation' => operation' = operation
  | .group operations => operations.contains operation

/-- whether a Policy grants an operation on every entity of a type, or of every type for `none` -/
def granted (policies : List (String × PolicySpec)) (space account : String) (operation : Operation)
    (entityType : Option String) : Bool :=
  policies.any (fun p =>
    !p.2.isProhibition && forPipelines p.2 space account &&
      p.2.operations.any (OperationRef.covers operation) &&
      (p.2.information.isEmpty || p.2.information.any (fun entities => entities.any (fun selector =>
        some selector.entityType = entityType && selector.id.isNone && selector.idPattern.isNone))) &&
      p.2.q.isNone && p.2.scopeQ.isNone && p.2.geoQ.isNone && p.2.temporalQ.isNone)

/-- the Policy the author extends: the account's write grant on the space -/
def pipelinePolicy (policies : List (String × PolicySpec)) (space account : String) : Option String :=
  (policies.find? (fun p => !p.2.isProhibition && forPipelines p.2 space account)).map
    (fun p => x.policyOf p.1)

def policies : List (String × PolicySpec) :=
  (m.list project "Policy").toList.flatMap (fun p =>
    ((x.policySpec p.2).bind (fun spec => x.expand spec p.1)).getD [])

/-- the account a pipeline deletes as and the Policies that bind it -/
def grantsOf (name : String) (spec : PipelineSpec) : String × List (String × PolicySpec) :=
  match w.identity m project name spec with
  | (account, some derived) => (account, derived.flatMap (fun p => (x.expand p.2 p.1).getD []))
  | (account, none) => (account, policies x m project)

def wires : List (Operation × String) := [(.queryBatch, "queryBatch"), (.deleteBatch, "deleteBatch")]

def extended (policies : List (String × PolicySpec)) (space account : String) : String :=
  ((pipelinePolicy x policies space account).map ("Policy " ++ ·)).getD "a Policy"

/-! ## the check -/

def problems (name : String) (spec : PipelineSpec) (expiry : Expiry) : List String :=
  match spec.outputs with
  | [] => ["expiry needs the one output the pipeline writes"]
  | output :: _ =>
    match spaceOfEndpoint m project output.targetEndpoint with
    | none => []
    | some space =>
      let writers := ((pipelines x m project name).filter
        (fun other => (spacesWritten m project other.2).contains space)).map (fun other =>
          s!"pipeline {other.1} also writes into space {space}, so expiry would delete its "
            ++ "entities too: give this pipeline a space of its own, or leave expiry off")
      let classes := (w.modelSchemas project space).elim [] (fun model =>
        (expiry.types.filter (fun t => !model.classes.contains t)).map (fun t =>
          s!"{t} is not a class of model {model.model}, the model of space {space}"))
      let grants := grantsOf x w m project name spec
      let ungranted := wires.filterMap (fun op =>
        let missing := expiry.types.filter (fun t => !granted grants.2 space grants.1 op.1 (some t))
        if missing.isEmpty then none
        else some (ungrantedText op.2 (joined missing) space (extended x grants.2 space grants.1)))
      writers ++ classes ++ ungranted

/-- what a pipeline without one is refused for: a sweep would take its entities -/
def sweptByAnother (name : String) (spec : PipelineSpec) : List String :=
  let written := spacesWritten m project spec
  if written.isEmpty then []
  else (pipelines x m project name).flatMap (fun other =>
    other.2.expiry.elim [] (fun expiry =>
      ((spacesWritten m project other.2).filter written.contains).map (fun space =>
        s!"pipeline {other.1} removes " ++ joined expiry.types
          ++ s!" entities not updated for {expiry.after} in space {space}, and would remove this "
          ++ s!"pipeline's too: write into another space, or turn expiry off on {other.1}")))

def sourceDeleteGrants (name : String) (spec : PipelineSpec) : List String :=
  if spec.sourceDeletes = some .snapshot || spec.sourceDeletes = some .events then
    let grants := grantsOf x w m project name spec
    spec.outputs.flatMap (fun output =>
      (spaceOfEndpoint m project output.targetEndpoint).elim [] (fun space =>
        wires.filterMap (fun op =>
          if granted grants.2 space grants.1 op.1 output.entityType then none
          else some (ungrantedText op.2 (output.entityType.getD "every type") space
            (extended x grants.2 space grants.1) ++ " what its source drops"))))
  else []

def judged (name : String) (spec : PipelineSpec) : List String :=
  match spec.expiry with
  | some expiry => problems x w m project name spec expiry
  | none => sweptByAnother x m project name spec

def check (kind name : String) (spec : Value) : Except ApiError Unit :=
  if kind ≠ "Pipeline" then .ok ()
  else
    match x.pipelineSpec spec with
    | none => .ok ()
    | some pipeline =>
      let problems := judged x w m project name pipeline
      let ungranted := sourceDeleteGrants x w m project name pipeline
      if problems.isEmpty && !ungranted.isEmpty then
        .error (.invalid ("spec.sourceDeletes deletes through the pipeline's Endpoint, and no Policy "
          ++ "lets it (PL-99)") ungranted)
      else if problems.isEmpty then .ok ()
      else .error (.invalid "the pipeline's entities are not safe from a stale-entity sweep (PL-64)"
        problems)

/-! ## runs -/

/-- one manifest written or deleted; a Pipeline of the project is checked -/
inductive Act where
  | write (w : World) (name : String) (spec : Value)
  | delete (name : String)
  | other (ns kind name : String) (spec : Option Value)

def step : Act → Option Mirror
  | .write w name spec =>
    match check x w m project "Pipeline" name spec with
    | .ok _ => some (m.write project "Pipeline" name spec)
    | .error _ => none
  | .delete name => some (m.put project "Pipeline" name none)
  | .other ns kind name spec =>
    if ns = project ∧ kind = "Pipeline" then none else some (m.put ns kind name spec)

/-- a Pipeline of the mirror as it parses -/
def Holds (name : String) (spec : PipelineSpec) : Prop :=
  (m.get project "Pipeline" name).bind x.pipelineSpec = some spec

/-- every output's Endpoint is in the mirror, and a pipeline with an expiry has one output -/
structure Valid : Prop where
  endpoints : ∀ name spec, Holds x m project name spec → ∀ output ∈ spec.outputs,
    (m.get project "Endpoint" output.targetEndpoint).isSome
  oneOutput : ∀ name spec, Holds x m project name spec → spec.expiry.isSome → spec.outputs.length = 1

def OneWriter : Prop :=
  ∀ sweeper spec other spec', Holds x m project sweeper spec → spec.expiry.isSome →
    Holds x m project other spec' → other ≠ sweeper →
    ∀ space ∈ spacesWritten m project spec, space ∉ spacesWritten m project spec'

end

def SameSpaces (project : String) (m m' : Mirror) : Prop :=
  ∀ endpoint, (m.get project "Endpoint" endpoint).isSome →
    (m'.get project "Endpoint" endpoint).isSome →
    spaceOfEndpoint m' project endpoint = spaceOfEndpoint m project endpoint

/-! ## one write -/

section
variable {x : JcExpiry} {w : World} {m m' : Mirror} {project : String}

theorem mem_pipelines {name other : String} {spec : PipelineSpec} :
    (other, spec) ∈ pipelines x m project name ↔ other ≠ name ∧ Holds x m project other spec := by
  unfold pipelines Holds
  rw [List.mem_filterMap, ← Mirror.list_get?]
  constructor
  · rintro ⟨⟨key, v⟩, hmem, hv⟩
    rw [List.mem_filter, decide_eq_true_eq] at hmem
    obtain ⟨spec', hparse, heq⟩ := Option.map_eq_some_iff.1 hv
    obtain ⟨rfl, rfl⟩ := Prod.mk.inj heq
    refine ⟨hmem.2, ?_⟩
    rw [(OrdMap.mem_toList _ _ _).1 hmem.1]
    exact hparse
  · rintro ⟨hne, hv⟩
    obtain ⟨v, hget, hparse⟩ := Option.bind_eq_some_iff.1 hv
    refine ⟨(other, v), ?_, ?_⟩
    · rw [List.mem_filter, decide_eq_true_eq]
      exact ⟨(OrdMap.mem_toList _ _ _).2 hget, hne⟩
    · rw [hparse]
      rfl

theorem judged_of_check {name : String} {v : Value} {spec : PipelineSpec}
    (hparse : x.pipelineSpec v = some spec) (hok : check x w m project "Pipeline" name v = .ok ()) :
    judged x w m project name spec = [] := by
  unfold check at hok
  rw [if_neg (fun h => h rfl), hparse] at hok
  dsimp only at hok
  by_cases hempty : (judged x w m project name spec).isEmpty = true
  · exact List.isEmpty_iff.1 hempty
  · rw [Bool.not_eq_true] at hempty
    rw [hempty] at hok
    exact nomatch hok

theorem apart_of_problems {name : String} {spec : PipelineSpec} {expiry : Expiry}
    (hone : spec.outputs.length = 1) (hnil : problems x w m project name spec expiry = [])
    {other : String} {spec' : PipelineSpec} (hne : other ≠ name)
    (hother : Holds x m project other spec') :
    ∀ space ∈ spacesWritten m project spec, space ∉ spacesWritten m project spec' := by
  obtain ⟨output, hout⟩ := List.length_eq_one_iff.1 hone
  intro space hspace hwrites
  have hof : spaceOfEndpoint m project output.targetEndpoint = some space := by
    obtain ⟨output', hmem, hof⟩ := List.mem_filterMap.1 hspace
    rw [hout, List.mem_singleton] at hmem
    rw [← hmem, hof]
  unfold problems at hnil
  rw [hout] at hnil
  dsimp only at hnil
  rw [hof] at hnil
  dsimp only at hnil
  have hwriters := (List.append_eq_nil_iff.1 (List.append_eq_nil_iff.1 hnil).1).1
  rw [List.map_eq_nil_iff, List.filter_eq_nil_iff] at hwriters
  exact hwriters (other, spec') (mem_pipelines.2 ⟨hne, hother⟩) (List.contains_iff_mem.2 hwrites)

theorem apart_of_swept {name : String} {spec : PipelineSpec}
    (hnil : sweptByAnother x m project name spec = []) {other : String} {spec' : PipelineSpec}
    (hne : other ≠ name) (hother : Holds x m project other spec') (hsweeps : spec'.expiry.isSome) :
    ∀ space ∈ spacesWritten m project spec, space ∉ spacesWritten m project spec' := by
  intro space hspace hwrites
  obtain ⟨expiry, hexpiry⟩ := Option.isSome_iff_exists.1 hsweeps
  unfold sweptByAnother at hnil
  dsimp only at hnil
  have hsome : (spacesWritten m project spec).isEmpty = false :=
    List.isEmpty_eq_false_iff_exists_mem.2 ⟨space, hspace⟩
  rw [hsome] at hnil
  have hof := List.flatMap_eq_nil_iff.1 hnil (other, spec') (mem_pipelines.2 ⟨hne, hother⟩)
  dsimp only at hof
  rw [hexpiry, Option.elim_some, List.map_eq_nil_iff, List.filter_eq_nil_iff] at hof
  exact hof space hwrites (List.contains_iff_mem.2 hspace)

/-- **Check**: an accepted pipeline shares no space with another where one of the two sweeps. -/
theorem apart_of_check {name : String} {v : Value} {spec : PipelineSpec}
    (hparse : x.pipelineSpec v = some spec) (hok : check x w m project "Pipeline" name v = .ok ())
    (hone : spec.expiry.isSome → spec.outputs.length = 1) {other : String} {spec' : PipelineSpec}
    (hne : other ≠ name) (hother : Holds x m project other spec')
    (hsweeps : spec.expiry.isSome ∨ spec'.expiry.isSome) :
    ∀ space ∈ spacesWritten m project spec, space ∉ spacesWritten m project spec' := by
  have hnil := judged_of_check hparse hok
  unfold judged at hnil
  cases hexpiry : spec.expiry with
  | some expiry =>
    rw [hexpiry] at hnil hone
    exact apart_of_problems (hone rfl) hnil hne hother
  | none =>
    rw [hexpiry] at hnil hsweeps
    exact apart_of_swept hnil hne hother (hsweeps.resolve_left (by simp))

/-! ## every run -/

theorem get_of_other {ns kind name : String} (h : ¬ (ns = project ∧ kind = "Pipeline"))
    (spec : Option Value) (name' : String) :
    (m.put ns kind name spec).get project "Pipeline" name' = m.get project "Pipeline" name' := by
  rw [Mirror.get_put, if_neg]
  exact fun hc => h ⟨hc.1.symm, hc.2.1.symm⟩

theorem spaceOfEndpoint_write (name : String) (spec : Value) :
    spaceOfEndpoint (m.write project "Pipeline" name spec) project = spaceOfEndpoint m project := by
  funext endpoint
  unfold spaceOfEndpoint
  rw [Mirror.get_write, if_neg (fun h => absurd h.2.1 (by decide))]

theorem spaceOfEndpoint_put (name : String) (spec : Option Value) :
    spaceOfEndpoint (m.put project "Pipeline" name spec) project = spaceOfEndpoint m project := by
  funext endpoint
  unfold spaceOfEndpoint
  rw [Mirror.get_put, if_neg (fun h => absurd h.2.1 (by decide))]

theorem spacesWritten_congr (h : spaceOfEndpoint m' project = spaceOfEndpoint m project) :
    spacesWritten m' project = spacesWritten m project := by
  funext spec
  unfold spacesWritten
  rw [h]

theorem spacesWritten_same (hv : Valid x m project) (hv' : Valid x m' project)
    (hsame : SameSpaces project m m') {name : String} {spec : PipelineSpec}
    (hheld : Holds x m project name spec) (hheld' : Holds x m' project name spec) :
    spacesWritten m' project spec = spacesWritten m project spec := by
  unfold spacesWritten
  apply List.filterMap_congr
  intro output hout
  exact hsame _ (hv.endpoints name spec hheld output hout) (hv'.endpoints name spec hheld' output hout)

theorem step_write {name : String} {v : Value}
    (hs : step x m project (.write w name v) = some m') :
    check x w m project "Pipeline" name v = .ok () ∧ m' = m.write project "Pipeline" name v := by
  unfold step at hs
  dsimp only at hs
  cases hok : check x w m project "Pipeline" name v with
  | error e =>
    rw [hok] at hs
    exact nomatch hs
  | ok u =>
    rw [hok] at hs
    exact ⟨rfl, (Option.some.inj hs).symm⟩

theorem sameSpaces_write (name : String) (v : Value) :
    SameSpaces project m (m.write project "Pipeline" name v) :=
  fun endpoint _ _ => congrFun (spaceOfEndpoint_write name v) endpoint

theorem valid_write {name : String} {v : Value} {spec : PipelineSpec} (hv : Valid x m project)
    (hparse : x.pipelineSpec v = some spec)
    (hends : ∀ output ∈ spec.outputs, (m.get project "Endpoint" output.targetEndpoint).isSome)
    (hone : spec.expiry.isSome → spec.outputs.length = 1) :
    Valid x (m.write project "Pipeline" name v) project := by
  have hget : ∀ endpoint, (m.write project "Pipeline" name v).get project "Endpoint" endpoint
      = m.get project "Endpoint" endpoint := by
    intro endpoint
    rw [Mirror.get_write, if_neg (fun h => absurd h.2.1 (by decide))]
  have hheld : ∀ n p, Holds x (m.write project "Pipeline" name v) project n p →
      p = spec ∨ Holds x m project n p := by
    intro n p h
    unfold Holds at h ⊢
    rw [Mirror.get_write] at h
    by_cases hn : n = name
    · rw [if_pos ⟨rfl, rfl, hn⟩, Option.bind_some, hparse] at h
      exact Or.inl (Option.some.inj h).symm
    · rw [if_neg (fun hc => hn hc.2.2)] at h
      exact Or.inr h
  constructor
  · intro n p h output hout
    rw [hget]
    rcases hheld n p h with rfl | h
    · exact hends output hout
    · exact hv.endpoints n p h output hout
  · intro n p h hsweeps
    rcases hheld n p h with rfl | h
    · exact hone hsweeps
    · exact hv.oneOutput n p h hsweeps

theorem oneWriter_write {name : String} {v : Value}
    (hok : check x w m project "Pipeline" name v = .ok ())
    (hv' : Valid x (m.write project "Pipeline" name v) project) (hone : OneWriter x m project) :
    OneWriter x (m.write project "Pipeline" name v) project := by
  intro sweeper spec other spec' hsweeper hsweeps hother hne space hspace
  have hnew : ∀ p, x.pipelineSpec v = some p → p.expiry.isSome → p.outputs.length = 1 := by
    intro p hp
    refine hv'.oneOutput name p ?_
    unfold Holds
    rw [Mirror.get_write, if_pos ⟨rfl, rfl, rfl⟩]
    exact hp
  unfold Holds at hsweeper hother
  rw [Mirror.get_write] at hsweeper hother
  rw [spacesWritten_congr (spaceOfEndpoint_write name v)] at hspace ⊢
  by_cases hs : sweeper = name
  · -- the written pipeline sweeps
    have hne' : other ≠ name := fun h => hne (h.trans hs.symm)
    rw [if_pos ⟨rfl, rfl, hs⟩] at hsweeper
    rw [if_neg (fun h => hne' h.2.2)] at hother
    exact apart_of_check hsweeper hok (hnew _ hsweeper) hne' hother (Or.inl hsweeps) space hspace
  · rw [if_neg (fun h => hs h.2.2)] at hsweeper
    by_cases ho : other = name
    · -- the written pipeline may write into a swept space
      rw [if_pos ⟨rfl, rfl, ho⟩] at hother
      intro hwrites
      exact apart_of_check hother hok (hnew _ hother) hs hsweeper (Or.inr hsweeps) space hwrites hspace
    · rw [if_neg (fun h => ho h.2.2)] at hother
      exact hone sweeper spec other spec' hsweeper hsweeps hother hne space hspace

theorem oneWriter_of_held (hone : OneWriter x m project)
    (hold : ∀ name spec, Holds x m' project name spec → Holds x m project name spec ∧
      spacesWritten m' project spec = spacesWritten m project spec) : OneWriter x m' project := by
  intro sweeper spec other spec' hsweeper hsweeps hother hne space hspace
  obtain ⟨h1, hs1⟩ := hold sweeper spec hsweeper
  obtain ⟨h2, hs2⟩ := hold other spec' hother
  rw [hs1] at hspace
  rw [hs2]
  exact hone sweeper spec other spec' h1 hsweeps h2 hne space hspace

/-- **Step**: a write that is accepted leaves one writer to every swept space. -/
theorem oneWriter_step {a : Act} (hs : step x m project a = some m') (hv : Valid x m project)
    (hv' : Valid x m' project) (hsame : SameSpaces project m m') (hone : OneWriter x m project) :
    OneWriter x m' project := by
  cases a with
  | write w name v =>
    obtain ⟨hok, rfl⟩ := step_write hs
    exact oneWriter_write hok hv' hone
  | delete name =>
    obtain rfl := Option.some.inj hs
    refine oneWriter_of_held hone (fun n p h => ⟨?_, ?_⟩)
    · unfold Holds at h ⊢
      rw [Mirror.get_put] at h
      split at h
      · exact nomatch h
      · exact h
    · rw [spacesWritten_congr (spaceOfEndpoint_put name none)]
  | other ns kind name v =>
    unfold step at hs
    dsimp only at hs
    by_cases hk : ns = project ∧ kind = "Pipeline"
    · rw [if_pos hk] at hs
      exact nomatch hs
    · rw [if_neg hk] at hs
      obtain rfl := Option.some.inj hs
      refine oneWriter_of_held hone (fun n p h => ?_)
      have hheld : Holds x m project n p := by
        unfold Holds at h ⊢
        rw [get_of_other hk] at h
        exact h
      exact ⟨hheld, spacesWritten_same hv hv' hsame hheld h⟩

/-- **Run**: from a project without pipelines no run of accepted writes leaves a pipeline in a space
another one sweeps. -/
theorem oneWriter_run (x : JcExpiry) (project : String) {m₀ m : Mirror}
    (hnone : ∀ name, m₀.get project "Pipeline" name = none) {tr : List (Trans Mirror Act)}
    (hr : Run (fun m a => step x m project a) m₀ tr m)
    (hvalid : ∀ t ∈ tr, Valid x t.after project)
    (hsame : ∀ t ∈ tr, SameSpaces project t.before t.after) : OneWriter x m project := by
  have hheld : ∀ name spec, ¬ Holds x m₀ project name spec := by
    intro name spec h
    unfold Holds at h
    rw [hnone] at h
    exact nomatch h
  have hboth : Valid x m project ∧ OneWriter x m project := by
    refine Run.invariant (I := fun m => Valid x m project ∧ OneWriter x m project)
      (C := fun t => Valid x t.after project ∧ SameSpaces project t.before t.after) ?_ ?_ hr
      (fun t ht => ⟨hvalid t ht, hsame t ht⟩)
    · exact ⟨⟨fun name spec h => absurd h (hheld name spec), fun name spec h => absurd h (hheld name spec)⟩,
        fun sweeper spec _ _ h => absurd h (hheld sweeper spec)⟩
    · intro m a m' hs hc hi
      exact ⟨hc.1, oneWriter_step hs hi.1 hc.1 hc.2 hi.2⟩
  exact hboth.2

/-! ## a run -/

namespace Sample

def vehicles : PipelineSpec := ⟨[⟨"ep-vehicles", none⟩], some ⟨"14d", ["Vehicle"]⟩, none⟩

def stops : PipelineSpec := ⟨[⟨"ep-stops", none⟩], none, none⟩

def vehiclesSpec : Value :=
  .object [("outputs", .array [.object [("targetEndpoint", .string "ep-vehicles")]]),
    ("expiry", .object [("after", .string "14d"), ("types", .array [.string "Vehicle"])])]

def stopsSpec : Value :=
  .object [("outputs", .array [.object [("targetEndpoint", .string "ep-stops")]])]

def jc : JcExpiry where
  pipelineSpec v := if v = vehiclesSpec then some vehicles else if v = stopsSpec then some stops else none
  policySpec _ := none
  expand policy name := some [(name ++ "#1", policy)]
  policyOf name := name

/-- under per-pipeline identity a pipeline may delete what it writes -/
def world : World where
  modelSchemas _ _ := some ⟨"vehicles", ["Vehicle"]⟩
  identity _ _ name _ := ("pl-" ++ name, some [("pl-" ++ name,
    ⟨false, name, .serviceAccount, "pl-" ++ name, [.group [.queryBatch, .deleteBatch]], [],
      none, none, none, none⟩)])

def start : Mirror :=
  ((⟨OrdMap.empty⟩ : Mirror).write "helsinki" "Endpoint" "ep-vehicles"
    (.object [("contextSpaceRef", .string "vehicles")])).write "helsinki" "Endpoint" "ep-stops"
    (.object [("contextSpaceRef", .object [("name", .string "stops")])])

def swept : Mirror := start.write "helsinki" "Pipeline" "vehicles" vehiclesSpec

def both : Mirror := swept.write "helsinki" "Pipeline" "stops" stopsSpec

theorem start_none (name : String) : start.get "helsinki" "Pipeline" name = none := by
  unfold start
  rw [Mirror.get_write, if_neg (fun h => absurd h.2.1 (by decide)), Mirror.get_write,
    if_neg (fun h => absurd h.2.1 (by decide))]
  rfl

theorem start_valid : Valid jc start "helsinki" := by
  have hheld : ∀ name spec, ¬ Holds jc start "helsinki" name spec := by
    intro name spec h
    unfold Holds at h
    rw [start_none] at h
    exact nomatch h
  exact ⟨fun name spec h => absurd h (hheld name spec), fun name spec h => absurd h (hheld name spec)⟩

theorem swept_valid : Valid jc swept "helsinki" :=
  valid_write start_valid (show _ = some vehicles by decide +kernel) (by decide +kernel) (fun _ => rfl)

theorem both_valid : Valid jc both "helsinki" :=
  valid_write swept_valid (show _ = some stops by decide +kernel) (by decide +kernel)
    (fun h => absurd h (by decide))

end Sample

open Sample in
theorem oneWriter_of_bothWritten : OneWriter jc both "helsinki" := by
  have h1 : step jc start "helsinki" (.write world "vehicles" vehiclesSpec) = some swept := by
    have hok : check jc world start "helsinki" "Pipeline" "vehicles" vehiclesSpec = .ok () := by
      decide +kernel
    unfold step
    dsimp only
    rw [hok]
    rfl
  have h2 : step jc swept "helsinki" (.write world "stops" stopsSpec) = some both := by
    have hok : check jc world swept "helsinki" "Pipeline" "stops" stopsSpec = .ok () := by
      decide +kernel
    unfold step
    dsimp only
    rw [hok]
    rfl
  refine oneWriter_run jc "helsinki" start_none ((Run.nil.snoc h1).snoc h2) ?_ ?_
  · intro t ht
    rcases List.mem_append.1 ht with ht | ht
    · rw [List.mem_singleton.1 ht]
      exact swept_valid
    · rw [List.mem_singleton.1 ht]
      exact both_valid
  · intro t ht
    rcases List.mem_append.1 ht with ht | ht
    · rw [List.mem_singleton.1 ht]
      exact sameSpaces_write _ _
    · rw [List.mem_singleton.1 ht]
      exact sameSpaces_write _ _

end

end Expiring

end Portal
