import Portal.Quotas.Check

/-!
# Whose quota a project has (`quotas.rs`: `effective`, `organization_default`, `min_pipeline_period`)

A project without a quota of its own takes a default, and the default is the first one that any
Organization carries, in the order of their names: the `organizationRef` of the project is not
read.  Two mirrors that agree on a project, on its Organization and on all it holds may so answer
differently, for the sake of an Organization that has nothing to do with it.

* `FirstDefault`        the default quota that is taken, apart from how the code scans for it;
* `SameTenant`          two mirrors that agree on a project and its Organization;
* `same_answers_iff`    when they give the same quota, the same floor and the same checks;
* `foreign_default`     one Organization more, and a project holds less.
-/

namespace Portal

section
variable (x : JcQuotas)

/-- the default quota an Organization carries -/
def defaultOf (spec : Value) : Option Quotas :=
  (valueAt (some spec) ["projects", "quota"]).bind x.quotas

inductive FirstDefault (m : Mirror) : Option Quotas → Prop
  | none : (∀ name spec, m.get orgNamespace "Organization" name = some spec →
      defaultOf x spec = none) → FirstDefault m none
  | some (name : String) (spec : Value) (quotas : Quotas) :
      m.get orgNamespace "Organization" name = some spec → defaultOf x spec = some quotas →
      (∀ name' spec', name' < name → m.get orgNamespace "Organization" name' = some spec' →
        defaultOf x spec' = none) → FirstDefault m (some quotas)

def Carries (m : Mirror) (project : String) (own : Quotas) : Prop :=
  ∃ spec quotas, m.get orgNamespace "Project" project = some spec ∧
    spec.get? "quotas" = some quotas ∧ x.quotas quotas = some own

/-- two mirrors with the same project, the same Organization that its `organizationRef` names and
the same manifests in the project -/
structure SameTenant (m m' : Mirror) (project : String) : Prop where
  itself : m.get orgNamespace "Project" project = m'.get orgNamespace "Project" project
  organization : ∃ spec reference name owner,
    m.get orgNamespace "Project" project = some spec ∧
    spec.get? "organizationRef" = some reference ∧ referenceName reference = some name ∧
    m.get orgNamespace "Organization" name = some owner ∧
    m'.get orgNamespace "Organization" name = some owner
  manifests : ∀ kind name, m.get project kind name = m'.get project kind name

structure SameAnswers (m m' : Mirror) (project : String) : Prop where
  effective : effective x m project = effective x m' project
  period : minPipelinePeriod x m project = minPipelinePeriod x m' project
  check : ∀ kind name spec,
    check x m project kind name spec = check x m' project kind name spec

/-- the floors of two defaults make no difference beside a project's own: they are the same, or both
are below it -/
def SameFloor (own d d' : Quotas) : Prop :=
  d.minPipelinePeriodSeconds = d'.minPipelinePeriodSeconds ∨
    ∃ floor, own.minPipelinePeriodSeconds = some floor ∧
      (∀ f, d.minPipelinePeriodSeconds = some f → f < floor) ∧
      ∀ f, d'.minPipelinePeriodSeconds = some f → f < floor

/-- two defaults make no difference to a project: they are the same, or it sets dimensions of its
own and its floor does not tell them apart -/
def NoDifference (m : Mirror) (project : String) (d d' : Quotas) : Prop :=
  d = d' ∨ ∃ own, Carries x m project own ∧ own.setsDimensions = true ∧ SameFloor own d d'

end

section
variable {x : JcQuotas} {m m' : Mirror} {project : String}

/-! ## the default -/

theorem mem_organizations {name : String} {spec : Value} :
    (name, spec) ∈ organizations m ↔ m.get orgNamespace "Organization" name = some spec := by
  unfold organizations
  rw [OrdMap.mem_toList, Mirror.list_get?]

theorem firstDefault_findSome :
    FirstDefault x m ((organizations m).findSome? (fun p => defaultOf x p.2)) := by
  cases h : (organizations m).findSome? (fun p => defaultOf x p.2) with
  | none =>
    rw [List.findSome?_eq_none_iff] at h
    exact .none fun name spec hget => h (name, spec) (mem_organizations.mpr hget)
  | some quotas =>
    obtain ⟨before, ⟨name, spec⟩, rest, hl, hq, hnone⟩ := List.findSome?_eq_some_iff.mp h
    refine .some name spec quotas ?_ hq fun name' spec' hlt hget => ?_
    · exact mem_organizations.mp (by rw [hl]; simp)
    · have hsorted : (organizations m).Pairwise (fun p q => p.1 < q.1) := OrdMap.sorted _
      have hmem := mem_organizations.mpr hget
      rw [hl] at hsorted hmem
      rcases List.mem_append.mp hmem with hb | hr
      · exact hnone _ hb
      · rcases List.mem_cons.mp hr with heq | hr
        · exact absurd (Prod.mk.inj heq).1 (ne_of_lt hlt)
        · have := (List.pairwise_cons.mp (List.pairwise_append.mp hsorted).2.1).1 _ hr
          exact absurd hlt (lt_asymm this)

theorem firstDefault_unique {d d' : Option Quotas} (h : FirstDefault x m d)
    (h' : FirstDefault x m d') : d = d' := by
  cases h with
  | none hall =>
    cases h' with
    | none _ => rfl
    | some name spec quotas hget hq _ =>
      rw [hall name spec hget] at hq
      exact absurd hq (by simp)
  | some name spec quotas hget hq hfirst =>
    cases h' with
    | none hall =>
      rw [hall name spec hget] at hq
      exact absurd hq (by simp)
    | some name' spec' quotas' hget' hq' hfirst' =>
      rcases lt_trichotomy name name' with hlt | rfl | hlt
      · rw [hfirst' name spec hlt hget] at hq
        exact absurd hq (by simp)
      · rw [hget] at hget'
        rw [Option.some.inj hget', hq'] at hq
        exact hq.symm
      · rw [hfirst name' spec' hlt hget'] at hq'
        exact absurd hq' (by simp)

/-- **The default is the first by name, whosever it is.** -/
theorem organizationDefault_eq {d : Option Quotas} (h : FirstDefault x m d) :
    organizationDefault x m = d.getD x.noQuotas := by
  rw [firstDefault_unique h firstDefault_findSome]
  rfl

theorem ownQuotas_eq_some {own : Quotas} :
    ownQuotas x m project = some own ↔ Carries x m project own := by
  unfold ownQuotas Carries
  simp only [Option.bind_eq_bind, Option.bind_eq_some_iff]
  constructor
  · intro ⟨spec, h1, quotas, h2, h3⟩
    exact ⟨spec, quotas, h1, h2, h3⟩
  · intro ⟨spec, quotas, h1, h2, h3⟩
    exact ⟨spec, h1, quotas, h2, h3⟩

theorem SameTenant.ownQuotas (h : SameTenant m m' project) :
    ownQuotas x m project = ownQuotas x m' project := by
  unfold Portal.ownQuotas
  rw [h.itself]

/-! ## the quota and the floor -/

theorem effective_eq_iff (h : SameTenant m m' project) :
    effective x m project = effective x m' project ↔
      (∃ own, Carries x m project own ∧ own.setsDimensions = true) ∨
        organizationDefault x m = organizationDefault x m' := by
  unfold effective
  rw [← h.ownQuotas]
  cases hf : (ownQuotas x m project).filter Quotas.setsDimensions with
  | none =>
    have hnot : ¬ ∃ own, Carries x m project own ∧ own.setsDimensions = true := by
      intro ⟨own, hc, hs⟩
      rw [ownQuotas_eq_some.mpr hc, Option.filter_some_pos hs] at hf
      exact absurd hf (by simp)
    exact ⟨fun heq => Or.inr heq, fun hor => hor.resolve_left hnot⟩
  | some own =>
    obtain ⟨hc, hs⟩ := Option.filter_eq_some_iff.mp hf
    exact ⟨fun _ => Or.inl ⟨own, ownQuotas_eq_some.mp hc, hs⟩, fun _ => rfl⟩

/-- the stricter of two floors, each with where it is set; the second of two that are equal -/
def stricter : Option (Nat × String) → Option (Nat × String) → Option (Nat × String)
  | none, floor | floor, none => floor
  | some a, some b => if b.1 < a.1 then some a else some b

/-- the floors of two defaults are told apart, unless both give way to the project's own -/
theorem stricter_eq_iff {own b b' : Option Nat} {s t : String} (hne : s ≠ t) :
    stricter (own.map (fun f => (f, s))) (b.map (fun f => (f, t)))
        = stricter (own.map (fun f => (f, s))) (b'.map (fun f => (f, t))) ↔
      b = b' ∨ ∃ a, own = some a ∧ (∀ f, b = some f → f < a) ∧ ∀ f, b' = some f → f < a := by
  have hkeep : ∀ (a : Nat) (b : Option Nat), (∀ f, b = some f → f < a) →
      stricter (some (a, s)) (b.map (fun f => (f, t))) = some (a, s) := by
    intro a b hlt
    cases b with
    | none => rfl
    | some f => exact if_pos (hlt f rfl)
  have hgive : ∀ (a : Nat) (b : Option Nat), ¬ (∀ f, b = some f → f < a) →
      ∃ f, b = some f ∧ stricter (some (a, s)) (b.map (fun f => (f, t))) = some (f, t) := by
    intro a b hnot
    cases b with
    | none => exact absurd (fun f h => absurd h (by simp)) hnot
    | some f => exact ⟨f, rfl, if_neg fun hlt => hnot fun g hg => Option.some.inj hg ▸ hlt⟩
  constructor
  · intro h
    cases own with
    | none =>
      have hmap : b.map (fun f => (f, t)) = b'.map (fun f => (f, t)) := by
        cases b <;> cases b' <;> exact h
      exact Or.inl (Option.map_injective (fun f g hfg => (Prod.mk.inj hfg).1) hmap)
    | some a =>
      rw [Option.map_some] at h
      by_cases h1 : ∀ f, b = some f → f < a
      · by_cases h2 : ∀ f, b' = some f → f < a
        · exact Or.inr ⟨a, rfl, h1, h2⟩
        · obtain ⟨f, _, hf⟩ := hgive a b' h2
          rw [hkeep a b h1, hf] at h
          exact absurd (Prod.mk.inj (Option.some.inj h)).2 hne
      · obtain ⟨f, hb, hf⟩ := hgive a b h1
        by_cases h2 : ∀ f, b' = some f → f < a
        · rw [hkeep a b' h2, hf] at h
          exact absurd (Prod.mk.inj (Option.some.inj h)).2.symm hne
        · obtain ⟨f', hb', hf'⟩ := hgive a b' h2
          rw [hf, hf'] at h
          exact Or.inl (by rw [hb, hb', (Prod.mk.inj (Option.some.inj h)).1])
  · intro h
    rcases h with rfl | ⟨a, rfl, h1, h2⟩
    · rfl
    · rw [Option.map_some, hkeep a b h1, hkeep a b' h2]

theorem minPipelinePeriod_eq_iff (h : SameTenant m m' project) :
    minPipelinePeriod x m project = minPipelinePeriod x m' project ↔
      (organizationDefault x m).minPipelinePeriodSeconds
          = (organizationDefault x m').minPipelinePeriodSeconds ∨
        ∃ own, Carries x m project own ∧ ∃ floor, own.minPipelinePeriodSeconds = some floor ∧
          (∀ f, (organizationDefault x m).minPipelinePeriodSeconds = some f → f < floor) ∧
          ∀ f, (organizationDefault x m').minPipelinePeriodSeconds = some f → f < floor := by
  have hne : "spec.quotas.minPipelinePeriodSeconds of project " ++ project
      ≠ "spec.projects.quota.minPipelinePeriodSeconds of the organization" := by
    intro heq
    have htake := congrArg (fun s => s.toList.take 6) heq
    simp only [String.toList_append] at htake
    rw [List.take_append_of_le_length (by decide)] at htake
    exact absurd htake (by decide)
  have hst : ∀ m : Mirror, minPipelinePeriod x m project =
      stricter (((ownQuotas x m project).bind Quotas.minPipelinePeriodSeconds).map (fun floor =>
          (floor, "spec.quotas.minPipelinePeriodSeconds of project " ++ project)))
        ((organizationDefault x m).minPipelinePeriodSeconds.map (fun floor =>
          (floor, "spec.projects.quota.minPipelinePeriodSeconds of the organization"))) := by
    intro m
    rfl
  rw [hst, hst, ← h.ownQuotas, stricter_eq_iff hne]
  refine or_congr_right ⟨fun ⟨a, ha, h1, h2⟩ => ?_, fun ⟨own, hc, floor, hf, h1, h2⟩ => ?_⟩
  · obtain ⟨own, hown, hfloor⟩ := Option.bind_eq_some_iff.mp ha
    exact ⟨own, ownQuotas_eq_some.mp hown, a, hfloor, h1, h2⟩
  · exact ⟨floor, by rw [ownQuotas_eq_some.mpr hc]; exact hf, h1, h2⟩

/-! ## the check -/

theorem SameTenant.list (h : SameTenant m m' project) (kind : String) :
    m.list project kind = m'.list project kind := by
  apply OrdMap.ext_get?
  intro name
  rw [Mirror.list_get?, Mirror.list_get?, h.manifests]

theorem SameTenant.counts (h : SameTenant m m' project) (dimension kind : String) :
    counts x m project dimension kind = counts x m' project dimension kind := by
  have hfeeds : feeds x.toJcCore m project = feeds x.toJcCore m' project := by
    funext name
    unfold feeds dataSource
    rw [h.manifests]
  have hstays : staysResident x.toJcCore m project = staysResident x.toJcCore m' project := by
    funext p
    unfold staysResident
    congr 1
    funext source
    rw [sourceStays_eq, sourceStays_eq, hfeeds]
  funext spec
  unfold Portal.counts
  rw [hstays]

theorem SameTenant.check (h : SameTenant m m' project)
    (he : Portal.effective x m project = Portal.effective x m' project)
    (hp : minPipelinePeriod x m project = minPipelinePeriod x m' project)
    (kind name : String) (spec : Value) :
    Portal.check x m project kind name spec = Portal.check x m' project kind name spec := by
  have hdim : checkDimension x m project (Portal.effective x m' project) kind name spec
      = checkDimension x m' project (Portal.effective x m' project) kind name spec := by
    funext c
    unfold checkDimension
    rw [h.counts, h.manifests, h.list]
  have hclock : checkClock x m project spec = checkClock x m' project spec := by
    unfold checkClock
    rw [hp]
  unfold Portal.check
  simp only [he, hdim, hclock]

/-! ## the answers -/

/-- **Two mirrors that agree on a project and its Organization answer alike** exactly where the
first defaults by name, whosever they are, make no difference to it. -/
theorem same_answers_iff (h : SameTenant m m' project) :
    SameAnswers x m m' project ↔ ∀ d d', FirstDefault x m d → FirstDefault x m' d' →
      NoDifference x m project (d.getD x.noQuotas) (d'.getD x.noQuotas) := by
  constructor
  · intro hsame d d' hd hd'
    have he := (effective_eq_iff h).mp hsame.effective
    have hp := (minPipelinePeriod_eq_iff h).mp hsame.period
    rw [organizationDefault_eq hd, organizationDefault_eq hd'] at he hp
    rcases he with ⟨own, hc, hs⟩ | heq
    · refine Or.inr ⟨own, hc, hs, hp.imp_right fun ⟨own', hc', hfloor⟩ => ?_⟩
      have : own' = own := by
        rw [← Option.some.injEq, ← ownQuotas_eq_some.mpr hc, ← ownQuotas_eq_some.mpr hc']
      rwa [this] at hfloor
    · exact Or.inl heq
  · intro hno
    have hdef := hno _ _ firstDefault_findSome firstDefault_findSome
    rw [← organizationDefault_eq firstDefault_findSome,
      ← organizationDefault_eq firstDefault_findSome] at hdef
    have he : effective x m project = effective x m' project := by
      refine (effective_eq_iff h).mpr ?_
      rcases hdef with heq | ⟨own, hc, hs, _⟩
      · exact Or.inr heq
      · exact Or.inl ⟨own, hc, hs⟩
    have hp : minPipelinePeriod x m project = minPipelinePeriod x m' project := by
      refine (minPipelinePeriod_eq_iff h).mpr ?_
      rcases hdef with heq | ⟨own, hc, _, hfloor⟩
      · rw [heq]
        exact Or.inl rfl
      · exact hfloor.imp_right fun hbelow => ⟨own, hc, hbelow⟩
    exact ⟨he, hp, h.check he hp⟩

end

namespace Sample

/-- the project `ovzdusie` of the Organization `owner`, and nothing else -/
def tenant (owner : String) (spec : Value) : Mirror :=
  ((⟨OrdMap.empty⟩ : Mirror).write "org" "Organization" owner spec).write "org" "Project" "ovzdusie"
    (.object [("organizationRef", .string owner)])

theorem sameTenant_write {owner other : String} {spec spec' : Value} (h : other ≠ owner) :
    SameTenant (tenant owner spec) ((tenant owner spec).write "org" "Organization" other spec')
      "ovzdusie" where
  itself := by
    rw [Mirror.get_write, if_neg]
    exact fun hc => absurd hc.2.1 (by decide)
  organization := by
    have howner : (tenant owner spec).get "org" "Organization" owner = some spec := by
      unfold tenant
      rw [Mirror.get_write, if_neg (fun hc => absurd hc.2.1 (by decide)), Mirror.get_write,
        if_pos ⟨rfl, rfl, rfl⟩]
    refine ⟨.object [("organizationRef", .string owner)], .string owner, owner, spec, ?_, rfl, rfl,
      howner, ?_⟩
    · exact (Mirror.get_write ..).trans (if_pos ⟨rfl, rfl, rfl⟩)
    · rw [Mirror.get_write, if_neg]
      · exact howner
      · exact fun hc => h hc.2.2.symm
  manifests := by
    intro kind name
    rw [Mirror.get_write, if_neg]
    exact fun hc => absurd hc.1 (by decide)

end Sample

/-- an Organization behind the project's own in the order of their names is not looked at -/
theorem same_answers_behind : SameAnswers Sample.jc
    (Sample.tenant "bb" (Sample.organizationSpec 3))
    ((Sample.tenant "bb" (Sample.organizationSpec 3)).write "org" "Organization" "zilina"
      (Sample.organizationSpec 1)) "ovzdusie" := by
  refine (same_answers_iff (Sample.sameTenant_write (by decide))).mpr fun d d' hd hd' => Or.inl ?_
  rw [← organizationDefault_eq hd, ← organizationDefault_eq hd']
  decide +kernel

/-- **One Organization more, and a project holds less.**  `ovzdusie` belongs to `zilina`, which sets
no quota, and takes the one of `bb`. -/
theorem foreign_default :
    ¬ ∀ (x : JcQuotas) (m m' : Mirror) (project : String),
      SameTenant m m' project → SameAnswers x m m' project := by
  intro h
  have hsame := h Sample.jc (Sample.tenant "zilina" (.object [("domain", .string "zilina.sk")]))
    ((Sample.tenant "zilina" (.object [("domain", .string "zilina.sk")])).write "org" "Organization"
      "bb" (Sample.organizationSpec 1)) "ovzdusie" (Sample.sameTenant_write (by decide))
  exact absurd hsame.effective (by decide +kernel)

end Portal
