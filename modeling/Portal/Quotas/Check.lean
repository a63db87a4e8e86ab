import Portal.Error
import Portal.Quotas.Counts

/-!
# The check of a write (`quotas.rs`: `check`, `check_clock`, `min_pipeline_period`)

A write is refused when the manifest it would add counts against a dimension whose limit is reached,
when a pipeline's clock is shorter than the floor in force, and when an endpoint asks for a higher
rate than the project may serve.  What a manifest counts for, though, may hang on another one: a
pipeline is resident when the DataSource it reads waits for pushes, and the check of a DataSource
counts no pipelines.

* `check`               the check of one write;
* `counts_write_source` what a DataSource written makes of the pipelines that read it;
* `accepted_within`     an accepted write keeps a project within its limits, unless it is of a
                        DataSource and turns more pipelines resident than there is room for, or of
                        the quota itself.
-/

namespace Portal

/-- the refusal every door gives for a quota -/
def ApiError.over (dimension : String) (after limit : Nat) (project : String) : ApiError :=
  .denied ("quota: " ++ dimension ++ " " ++ toString after ++ " of " ++ toString limit
    ++ " in project " ++ project ++ "; raise the quota on the project or the organization first "
    ++ "(PF-73, PF-74)")

/-- a number that fits an unsigned word -/
def Value.asU64 : Value → Option Nat
  | .number (.int n) => if 0 ≤ n then some n.toNat else none
  | _ => none

section
variable (x : JcQuotas) (m : Mirror) (project : String)

/-- the shortest clock a pipeline of the project may run on, and the field that sets it: the
stricter of the project's own and the organization's -/
def minPipelinePeriod : Option (Nat × String) :=
  let own := ((ownQuotas x m project).bind Quotas.minPipelinePeriodSeconds).map (fun floor =>
    (floor, "spec.quotas.minPipelinePeriodSeconds of project " ++ project))
  let organization := (organizationDefault x m).minPipelinePeriodSeconds.map (fun floor =>
    (floor, "spec.projects.quota.minPipelinePeriodSeconds of the organization"))
  match own, organization with
  | none, floor | floor, none => floor
  | some a, some b => if b.1 < a.1 then some a else some b

def checkClock (spec : Value) : Except ApiError Unit :=
  match minPipelinePeriod x m project, x.pipelineSpec spec with
  | some (floor, setBy), .ok pipeline =>
    match x.shortestClockSeconds pipeline with
    | none => .ok ()
    | some shortest =>
      if floor ≤ shortest then .ok ()
      else
        let field := if x.periodSeconds pipeline = some shortest then "spec.period"
          else "spec.schedule"
        .error (.unprocessable
          ("the pipeline runs every " ++ toString shortest
            ++ " s, faster than the minimum period of "
            ++ toString floor ++ " s project " ++ project ++ " allows (PL-116)")
          [field ++ ": runs every " ++ toString shortest ++ " s, below the minimum period of "
            ++ toString floor ++ " s (" ++ setBy ++ "); choose " ++ toString floor
            ++ " s or longer, or ask an admin to lower the minimum"])
  | _, _ => .ok ()

/-- one dimension: what the write adds to its count against its limit -/
def checkDimension (quotas : Quotas) (kind name : String) (spec : Value) (c : String × String) :
    Except ApiError Unit :=
  if c.2 ≠ kind || !counts x m project c.1 kind spec then .ok ()
  else
    match (limits quotas).get? c.1 with
    | none => .ok ()
    | some limit =>
      -- rewriting what is counted already changes no count
      if (m.get project kind name).any (counts x m project c.1 kind) then .ok ()
      else
        let after := (m.list project kind).countOthers name (counts x m project c.1 kind) + 1
        if after > limit then .error (ApiError.over c.1 after limit project) else .ok ()

/-- what one endpoint asks for is capped by the project's quota -/
def checkRate (quotas : Quotas) (spec : Value) : Except ApiError Unit :=
  match (valueAt (some spec) ["rateLimits", "requestsPerMinute"]).bind Value.asU64,
    quotas.requestsPerMinute with
  | some asked, some limit =>
    if asked > limit then
      .error (ApiError.over "requestsPerMinute" (min asked (2 ^ 32 - 1)) limit project)
    else .ok ()
  | _, _ => .ok ()

/-- the check of a write of one manifest -/
def check (kind name : String) (spec : Value) : Except ApiError Unit := do
  let quotas := effective x m project
  counted.forM (checkDimension x m project quotas kind name spec)
  if kind = "Pipeline" then checkClock x m project spec
  if kind = "Endpoint" then checkRate project quotas spec

def WithinQuota : Prop :=
  ∀ dimension used limit, (usage x m project).get? dimension = some used →
    (limits (effective x m project)).get? dimension = some limit → used ≤ limit

end

/-! ## what a write changes -/

section
variable {x : JcQuotas} {m : Mirror} {project kind name : String} {spec : Value}

/-- the manifest written is one the quota in force is read from -/
def WritesQuota (project kind name : String) : Prop :=
  project = orgNamespace ∧ (kind = "Organization" ∨ kind = "Project" ∧ name = project)

theorem effective_write (h : ¬ WritesQuota project kind name) :
    effective x (m.write project kind name spec) project = effective x m project := by
  have hown : ownQuotas x (m.write project kind name spec) project = ownQuotas x m project := by
    unfold ownQuotas
    rw [Mirror.get_write, if_neg]
    rintro ⟨hp, hk, hn⟩
    exact h ⟨hp.symm, Or.inr ⟨hk.symm, hn.symm⟩⟩
  have horg : organizationDefault x (m.write project kind name spec) = organizationDefault x m := by
    unfold organizationDefault organizations
    rw [Mirror.list_write_of_ne]
    rintro ⟨hp, hk⟩
    exact h ⟨hp.symm, Or.inl hk.symm⟩
  unfold effective
  rw [hown, horg]

/-- whether a DataSource of the project waits for pushes -/
def feeds (x : JcCore) (m : Mirror) (ns name : String) : Bool :=
  match dataSource x m ns name with
  | .ok spec => isResident spec.sourceType
  | .error _ => false

theorem sourceStays_eq (x : JcCore) (m : Mirror) (ns : String) (source : PipelineSource) :
    sourceStays x m ns source =
      match source.dataSourceRef with
      | some reference => feeds x m ns reference.name
      | none => source.endpointRef.isSome && source.trigger.isSome := by
  cases hd : source.dataSourceRef with
  | none =>
    unfold sourceStays
    rw [hd]
    rfl
  | some reference =>
    unfold sourceStays resolveSource feeds
    rw [hd]
    simp only [Option.isNone_some, Bool.false_eq_true, if_false]
    cases dataSource x m ns reference.name <;> rfl

/-- whether a DataSource spec is of one that waits for pushes -/
def pushes (x : JcCore) (spec : Value) : Bool :=
  match x.dataSourceSpec spec with
  | .ok ds => isResident ds.sourceType
  | .error _ => false

theorem feeds_write (n : String) :
    feeds x.toJcCore (m.write project kind name spec) project n =
      if kind = "DataSource" ∧ n = name then pushes x.toJcCore spec
      else feeds x.toJcCore m project n := by
  unfold feeds dataSource
  rw [Mirror.get_write]
  by_cases h : kind = "DataSource" ∧ n = name
  · rw [if_pos ⟨rfl, h.1.symm, h.2⟩, if_pos h]
    unfold pushes
    cases hs : x.dataSourceSpec spec <;> simp [hs, Except.mapError]
  · rw [if_neg (fun hc => h ⟨hc.2.1.symm, hc.2.2⟩), if_neg h]

theorem counts_write (h : kind ≠ "DataSource") (dimension k : String) :
    counts x (m.write project kind name spec) project dimension k =
      counts x m project dimension k := by
  have hstays : staysResident x.toJcCore (m.write project kind name spec) project =
      staysResident x.toJcCore m project := by
    funext p
    unfold staysResident
    congr 1
    funext source
    rw [sourceStays_eq, sourceStays_eq]
    simp only [feeds_write, h, false_and, if_false]
  funext document
  unfold counts
  rw [hstays]

theorem counts_frame (m m' : Mirror) {dimension : String} (h : dimension ≠ "residentPipelines")
    (k : String) : counts x m project dimension k = counts x m' project dimension k := by
  funext document
  unfold counts
  split
  · rfl
  · rfl
  · rfl
  · exact absurd rfl h
  · rfl

def readsSource (x : JcCore) (name : String) (document : Value) : Bool :=
  match x.pipelineSpec document with
  | .ok spec => spec.sources.any (fun source => source.dataSourceRef.any (fun r => r.name = name))
  | .error _ => false

/-- **A DataSource that waits for pushes keeps every pipeline that reads it loaded**, besides those
that were; one that does not wait keeps none that was not. -/
theorem counts_write_source (document : Value) :
    (pushes x.toJcCore spec = true →
      counts x (m.write project "DataSource" name spec) project "residentPipelines" "Pipeline"
          document =
        (counts x m project "residentPipelines" "Pipeline" document
          || readsSource x.toJcCore name document)) ∧
    (pushes x.toJcCore spec = false →
      counts x (m.write project "DataSource" name spec) project "residentPipelines" "Pipeline"
          document = true →
        counts x m project "residentPipelines" "Pipeline" document = true) := by
  rw [counts_resident, counts_resident]
  unfold readsSource
  cases hp : x.pipelineSpec document with
  | error err => simp
  | ok p =>
    have hstay : ∀ source, sourceStays x.toJcCore (m.write project "DataSource" name spec) project
        source = if source.dataSourceRef.any (fun r => r.name = name) then pushes x.toJcCore spec
          else sourceStays x.toJcCore m project source := by
      intro source
      rw [sourceStays_eq, sourceStays_eq]
      cases hd : source.dataSourceRef with
      | none => rfl
      | some reference => simp only [feeds_write, true_and, Option.any_some, decide_eq_true_eq]
    have hreads : ∀ source : PipelineSource,
        source.dataSourceRef.any (fun r => r.name = name) = true →
        source.dataSourceRef.isSome = true := by
      intro source h
      cases hd : source.dataSourceRef with
      | none =>
        rw [hd] at h
        exact absurd h (by simp)
      | some reference => rfl
    refine ⟨fun hpush => ?_, fun hpush h => ?_⟩
    · have hany : staysResident x.toJcCore (m.write project "DataSource" name spec) project p =
          (staysResident x.toJcCore m project p ||
            p.sources.any (fun source => source.dataSourceRef.any (fun r => r.name = name))) := by
        unfold staysResident
        rw [Bool.eq_iff_iff]
        simp only [Bool.or_eq_true, List.any_eq_true, ← exists_or, ← and_or_left, hstay, hpush]
        refine exists_congr (fun source => and_congr_right (fun _ => ?_))
        cases source.dataSourceRef.any (fun r => decide (r.name = name)) <;> simp
      show (isStreamPipeline p && _) = ((isStreamPipeline p && _) || _)
      rw [hany, Bool.and_or_distrib_left]
      congr 1
      -- a pipeline that reads a DataSource is a stream pipeline
      rw [Bool.and_eq_right_iff_imp]
      intro h
      obtain ⟨source, hmem, hs⟩ := List.any_eq_true.mp h
      exact List.any_eq_true.mpr ⟨source, hmem, by rw [hreads source hs, Bool.true_or]⟩
    · rw [Bool.and_eq_true] at h ⊢
      refine ⟨h.1, ?_⟩
      obtain ⟨source, hmem, hs⟩ := List.any_eq_true.mp h.2
      rw [hstay, hpush] at hs
      split at hs
      · exact absurd hs (by simp)
      · exact List.any_eq_true.mpr ⟨source, hmem, hs⟩

/-! ## the counts after a write -/

theorem held_write (hk : kind ≠ "DataSource") (dimension : String) :
    held x (m.write project kind name spec) project dimension kind =
      (m.list project kind).countOthers name (counts x m project dimension kind)
        + (counts x m project dimension kind spec).toNat := by
  unfold held
  rw [counts_write hk, Mirror.list_write, OrdMap.count_insert]

theorem held_write_of_ne {k : String} (hk : kind ≠ "DataSource") (hne : k ≠ kind)
    (dimension : String) :
    held x (m.write project kind name spec) project dimension k = held x m project dimension k := by
  unfold held
  rw [counts_write hk, Mirror.list_write_of_ne m (fun h => hne h.2)]

def idleReaders (x : JcQuotas) (m : Mirror) (project name : String) : Nat :=
  (m.list project "Pipeline").count (fun document => readsSource x.toJcCore name document
    && !counts x m project "residentPipelines" "Pipeline" document)

theorem held_write_source :
    (pushes x.toJcCore spec = true →
      held x (m.write project "DataSource" name spec) project "residentPipelines" "Pipeline" =
        held x m project "residentPipelines" "Pipeline" + idleReaders x m project name) ∧
    (pushes x.toJcCore spec = false →
      held x (m.write project "DataSource" name spec) project "residentPipelines" "Pipeline" ≤
        held x m project "residentPipelines" "Pipeline") := by
  unfold held idleReaders
  rw [Mirror.list_write_of_ne m (by simp)]
  refine ⟨fun h => ?_, fun h => ?_⟩
  · rw [← OrdMap.count_or]
    exact OrdMap.count_congr _ (fun document => (counts_write_source document).1 h)
  · exact OrdMap.count_mono _ (fun document => (counts_write_source document).2 h)

theorem forM_ok {α ε : Type} {f : α → Except ε Unit} {l : List α} (h : l.forM f = .ok ()) :
    ∀ a ∈ l, f a = .ok () := by
  induction l with
  | nil => exact fun a ha => absurd ha List.not_mem_nil
  | cons b l ih =>
    have h : (f b >>= fun _ => l.forM f) = .ok () := h
    cases hb : f b with
    | error err =>
      rw [hb] at h
      cases h
    | ok _ =>
      rw [hb] at h
      intro a ha
      rcases List.mem_cons.mp ha with rfl | ha
      · exact hb
      · exact ih h a ha

theorem checkDimension_ok (h : check x m project kind name spec = .ok ()) :
    ∀ c ∈ counted,
      checkDimension x m project (effective x m project) kind name spec c = .ok () := by
  unfold check at h
  cases hf : counted.forM
      (checkDimension x m project (effective x m project) kind name spec) with
  | error err =>
    simp only [hf] at h
    cases h
  | ok _ => exact forM_ok hf

/-- **What is counted of the kind written stays within its limit.** -/
theorem held_write_le (hk : kind ≠ "DataSource") {dimension : String} {limit : Nat}
    (hc : checkDimension x m project (effective x m project) kind name spec (dimension, kind)
      = .ok ())
    (hl : (limits (effective x m project)).get? dimension = some limit)
    (hle : held x m project dimension kind ≤ limit) :
    held x (m.write project kind name spec) project dimension kind ≤ limit := by
  have hbefore : held x m project dimension kind =
      (m.list project kind).countOthers name (counts x m project dimension kind)
        + ((m.get project kind name).any (counts x m project dimension kind)).toNat := by
    rw [← Mirror.list_get?]
    exact OrdMap.count_eq _ _ _
  rw [held_write hk]
  unfold checkDimension at hc
  simp only [ne_eq, not_true_eq_false, decide_false, Bool.false_or, Bool.not_eq_true', hl] at hc
  split at hc
  · rename_i hcount
    rw [hcount, Bool.toNat_false]
    omega
  · rename_i hcount
    have hcount : counts x m project dimension kind spec = true := by simpa using hcount
    rw [hcount, Bool.toNat_true]
    split at hc
    · rename_i hheld
      rw [hheld, Bool.toNat_true] at hbefore
      omega
    · split at hc
      · cases hc
      · rename_i hafter
        omega

/-- the write leaves room: a DataSource that waits for pushes turns no more pipelines resident than
the limit has left, and a quota written for the namespace itself is not below what it holds -/
structure Fits (x : JcQuotas) (m : Mirror) (project kind name : String) (spec : Value) : Prop where
  source : kind = "DataSource" → pushes x.toJcCore spec = true →
    ∀ limit, limitOf x m project "residentPipelines" = some limit →
      held x m project "residentPipelines" "Pipeline" + idleReaders x m project name ≤ limit
  quota : WritesQuota project kind name → ∀ dimension used limit,
    (usage x m project).get? dimension = some used →
    limitOf x (m.write project kind name spec) project dimension = some limit → used ≤ limit

theorem within_iff : WithinQuota x m project ↔ ∀ c ∈ counted, ∀ limit ∈ limitOf x m project c.1,
    held x m project c.1 c.2 ≤ limit := by
  refine ⟨fun h c hc limit hl => ?_, fun h dimension used limit hu hl => ?_⟩
  · exact h c.1 _ limit ((usage_get? c.1 _).mpr ⟨c.2, hc, rfl⟩) hl
  · obtain ⟨k, hk, rfl⟩ := (usage_get? dimension used).mp hu
    exact h (dimension, k) hk limit hl

instance : Decidable (WithinQuota x m project) := decidable_of_iff _ within_iff.symm

/-- the dimensions and the kinds of `counted` go together one to one -/
theorem counted_resident {dimension k : String} (h : (dimension, k) ∈ counted) :
    (dimension = "residentPipelines" ↔ k = "Pipeline") ∧ k ≠ "DataSource" ∧ k ≠ "Organization" ∧
      k ≠ "Project" := by
  unfold counted at h
  simp only [List.mem_cons, List.not_mem_nil, Prod.mk.injEq, or_false] at h
  rcases h with ⟨rfl, rfl⟩ | ⟨rfl, rfl⟩ | ⟨rfl, rfl⟩ | ⟨rfl, rfl⟩ <;> decide

/-- **When an accepted write keeps a project within its limits**: exactly when it fits.  The check
counts what the manifest written counts for, and not the pipelines that a DataSource turns
resident. -/
theorem accepted_within (hw : WithinQuota x m project)
    (hc : check x m project kind name spec = .ok ()) :
    WithinQuota x (m.write project kind name spec) project ↔ Fits x m project kind name spec := by
  rw [within_iff] at hw ⊢
  by_cases hk : kind = "DataSource"
  · subst hk
    -- the quota and the lists of the counted kinds are as they were
    have hq : ¬ WritesQuota project "DataSource" name := by
      rintro ⟨_, h | ⟨h, _⟩⟩ <;> exact absurd h (by decide)
    have hlimit : ∀ dimension, limitOf x (m.write project "DataSource" name spec) project dimension
        = limitOf x m project dimension := by
      intro dimension
      unfold limitOf
      rw [effective_write hq]
    constructor
    · intro h
      refine ⟨fun _ hp limit hl => ?_, fun h => absurd h hq⟩
      rw [← held_write_source.1 hp]
      exact h ("residentPipelines", "Pipeline") (by decide) limit ((hlimit _).trans hl)
    · rintro h ⟨dimension, k⟩ hmem limit hl
      rw [hlimit] at hl
      by_cases hd : dimension = "residentPipelines"
      · obtain rfl := (counted_resident hmem).1.mp hd
        subst hd
        cases hp : pushes x.toJcCore spec with
        | true =>
          rw [held_write_source.1 hp]
          exact h.source rfl hp limit hl
        | false =>
          exact le_trans (held_write_source.2 hp) (hw _ hmem limit hl)
      · have hsame : held x (m.write project "DataSource" name spec) project dimension k
            = held x m project dimension k := by
          unfold held
          rw [Mirror.list_write_of_ne m (fun h => (counted_resident hmem).2.1 h.2),
            counts_frame _ m hd]
        rw [hsame]
        exact hw _ hmem limit hl
  · by_cases hq : WritesQuota project kind name
    · have hsame : ∀ dimension k, (dimension, k) ∈ counted →
          held x (m.write project kind name spec) project dimension k =
            held x m project dimension k := by
        intro dimension k hmem
        obtain ⟨_, _, horg, hproject⟩ := counted_resident hmem
        refine held_write_of_ne hk ?_ dimension
        rcases hq.2 with h | ⟨h, _⟩ <;> rw [h] <;> assumption
      constructor
      · intro h
        refine ⟨fun h => absurd h hk, fun _ dimension used limit hu hl => ?_⟩
        obtain ⟨k, hmem, rfl⟩ := (usage_get? dimension used).mp hu
        rw [← hsame dimension k hmem]
        exact h (dimension, k) hmem limit hl
      · rintro h ⟨dimension, k⟩ hmem limit hl
        rw [hsame dimension k hmem]
        exact h.quota hq dimension _ limit ((usage_get? dimension _).mpr ⟨k, hmem, rfl⟩) hl
    · refine iff_of_true ?_ ⟨fun h => absurd h hk, fun h => absurd h hq⟩
      rintro ⟨dimension, k⟩ hmem limit hl
      rw [limitOf, effective_write hq] at hl
      have hle : held x m project dimension k ≤ limit := hw _ hmem limit hl
      by_cases hkk : k = kind
      · subst hkk
        exact held_write_le hk (checkDimension_ok hc _ hmem) hl hle
      · rw [held_write_of_ne hk hkk]
        exact hle

end

/-- three pipelines read a feed that is polled, and the limit has room for all of them -/
theorem accepted_within_of_room :
    check Sample.jc (Sample.mirror 3 "http") "ovzdusie" "DataSource" "feed" (Sample.feedSpec "mqtt")
      = .ok () ∧
    WithinQuota Sample.jc ((Sample.mirror 3 "http").write "ovzdusie" "DataSource" "feed"
      (Sample.feedSpec "mqtt")) "ovzdusie" := by
  have hcheck : check Sample.jc (Sample.mirror 3 "http") "ovzdusie" "DataSource" "feed"
      (Sample.feedSpec "mqtt") = .ok () := by decide +kernel
  refine ⟨hcheck, (accepted_within (by decide +kernel) hcheck).mpr ⟨fun _ _ limit hl => ?_, ?_⟩⟩
  · have hlimit :
        limitOf Sample.jc (Sample.mirror 3 "http") "ovzdusie" "residentPipelines" = some 3 :=
      by decide +kernel
    obtain rfl := Option.some.inj (hlimit.symm.trans hl)
    decide +kernel
  · rintro ⟨h, _⟩
    exact absurd h (by decide)

/-- **A DataSource rewritten takes a project over its quota**: three pipelines read a feed that is
polled and two may be resident; the feed written as a broker's is accepted, and makes three. -/
theorem accepted_over :
    ¬ ∀ (x : JcQuotas) (m : Mirror) (project kind name : String) (spec : Value),
      WithinQuota x m project → check x m project kind name spec = .ok () →
      WithinQuota x (m.write project kind name spec) project := by
  intro h
  exact absurd (h Sample.jc (Sample.mirror 2 "http") "ovzdusie" "DataSource" "feed"
    (Sample.feedSpec "mqtt") (by decide +kernel) (by decide +kernel)) (by decide +kernel)

end Portal
