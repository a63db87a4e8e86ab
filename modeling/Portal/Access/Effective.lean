import Mathlib.Data.List.Dedup
import Mathlib.Data.List.Sort
import Mathlib.Data.String.Basic
import Portal.Access.Grants

/-!
# The permissions of a caller (`permissions.rs`: `effective`, `in_force`, `Reach`,
`organization_reaches`, `narrowed_to_own_settings`, `without_organization_kinds`)

The roles and bindings of the organization's namespace say who may do what where.  A binding reaches
one Organization, one project or one context space.  With one Organization in the repository a
binding to it reaches everywhere; with several, a project is its owner's alone and the
organization's namespace the installation's alone, where another Organization's bindings keep only
its own settings.

* `Repository`       the mirror, and of each manifest the metadata beside its name;
* `Reach`, `covers`  where a binding applies, and what a grant held there also holds for;
* `inForce`          every rule a binding or a ServiceAccount's role gives the caller;
* `narrowedToOwnSettings`, `withoutOrganizationKinds`   what several Organizations leave of a grant;
* `effective`        the grants of a caller in one project: `mem_effective`.
-/

namespace Portal
namespace Access

/-- the manifests, with what else their metadata holds -/
structure Repository extends Mirror where
  metadata : ResourceKey → List (String × Value)

/-- every manifest whose key a predicate keeps -/
def matching (m : Mirror) (p : ResourceKey → Bool) : List (ResourceKey × Value) :=
  (m.resources.filterKeys p).toList

/-- the annotation of an App's default group -/
def appLabel : String := "joinedcontext.com/app"

def Repository.annotated (r : Repository) (key : ResourceKey) (label : String) : Bool :=
  (valueAt (some (.object (r.metadata key))) ["annotations", label]).isSome

def Repository.manifest (r : Repository) (key : ResourceKey) (spec : Value) : Value :=
  .object [("apiVersion", .string "joinedcontext.com/v1"), ("kind", .string key.kind),
    ("metadata", .object (("name", .string key.name) :: ("namespace", .string key.ns)
      :: r.metadata key)), ("spec", spec)]

/-! ## where a binding applies -/

inductive Reach where
  | organization (name : String)
  | project (name : String)
  | space (name : String)
deriving DecidableEq

def Reach.scopeName : Reach → String
  | .organization _ => "organization"
  | .project p => "project:" ++ p
  | .space s => "contextSpace:" ++ s

/-- the widest level a scope names -/
def Reach.of (scope : RoleScope) : Option Reach :=
  match scope.organization, scope.project, scope.contextSpace with
  | some o, _, _ => some (.organization o)
  | none, some p, _ => some (.project p)
  | none, none, some s => some (.space s)
  | none, none, none => none

section
variable (m : Mirror)

def projectOfSpace (space : String) : Option String :=
  match (matching m (fun key => key.kind = "ContextSpace" && key.name = space)).map
    (fun e => e.1.ns) with
  | [project] => some project
  | _ => none

/-- whether a binding scoped to `organization` applies in `project` -/
def organizationReaches (organization project : String) : Bool :=
  if (organizations m).length ≤ 1 then true
  else
    (if project = orgNamespace || project = "" then installationOrganization m
      else organizationOf m project) = some organization

/-- whether a grant held here also holds at `target` -/
def Reach.covers : Reach → Reach → Bool
  | .organization held, .organization wanted =>
    held = wanted || organizationReaches m held orgNamespace
  | .organization held, .project p => organizationReaches m held p
  | .organization held, .space s =>
    (projectOfSpace m s).any (fun p => organizationReaches m held p)
  | .project held, .project wanted => held = wanted
  | .project held, .space s => (m.get held "ContextSpace" s).isSome
  | .space held, .space wanted => held = wanted
  | _, _ => false

end

/-! ## roles and bindings in force -/

section
variable (x : JcAccess) (m : Mirror)

def roles (ns : String) : List (String × RoleSpec) :=
  (m.list ns "Role").toList.filterMap (fun p => (x.roleSpec p.2).toOption.map (fun s => (p.1, s)))

/-- the role a binding names: the organization's, else the project's its scope lies in -/
def roleOf (reach : Reach) (name : String) : Option (String × RoleSpec) :=
  ((roles x m orgNamespace).find? (fun p => p.1 = name)) <|>
    (match reach with
      | .organization _ => none
      | .project project => some project
      | .space space => projectOfSpace m space).bind
      (fun project => (roles x m project).find? (fun p => p.1 = name))

/-- whether a RoleBinding's spec names the caller, read in place -/
def namesCaller (identity : Identity) (spec : Value) : Bool :=
  match (spec.get? "subjects").bind Value.asArray with
  | none => false
  | some subjects => subjects.any (fun s => names identity (textAt s "user") (textAt s "group"))

def grantsOf (reach : Reach) (role binding : String) (rules : List Rule) : List (Reach × Grant) :=
  rules.map (fun rule => (reach, ⟨role, binding, reach.scopeName, none, none, rule⟩))

/-- whether a window that may be absent is open -/
def windowOpen (validity : Option Validity) (now : Int) : Bool :=
  validity.all (fun v => x.contains v now)

def bindingGrants (identity : Identity) (now : Int) (name : String) (spec : Value) :
    List (Reach × Grant) :=
  if !namesCaller identity spec then []
  else
    match x.roleBindingSpec spec with
    | .error _ => []
    | .ok binding =>
      if !binding.subjects.any (isSubject identity) then []
      else if !windowOpen x binding.validity now then []
      else
        match Reach.of binding.scope with
        | none => []
        | some reach =>
          match roleOf x m reach binding.role with
          | none => []
          | some (role, spec) => grantsOf reach role name spec.rules

/-- the account a bearer token speaks for: the only one that derives its client id -/
def accountOf (identity : Identity) : Option (String × ServiceAccountSpec) :=
  match identity.client with
  | none => none
  | some client =>
    if !Text.eqIgnoreAsciiCase identity.username ("service-account-" ++ client) then none
    else
      match m.namespaces.flatMap (fun ns => (m.list ns "ServiceAccount").toList.filter
        (fun p => x.keycloakClientId ns p.1 = client)) with
      | [(name, spec)] => (x.serviceAccountSpec spec).toOption.map (fun s => (name, s))
      | _ => none

/-- the rules without `approve`: a workload proposes, a person approves -/
def withoutApprove (rules : List Rule) : List Rule :=
  (rules.map (fun rule => { rule with verbs := rule.verbs.filter (· ≠ .approve) })).filter
    (fun rule => !rule.verbs.isEmpty)

def accountGrants (identity : Identity) (now : Int) : List (Reach × Grant) :=
  match accountOf x m identity with
  | none => []
  | some (account, spec) =>
    (spec.roles.filter (fun granted => windowOpen x granted.validity now)).flatMap (fun granted =>
      match Reach.of granted.scope with
      | none => []
      | some reach =>
        match roleOf x m reach granted.role with
        | none => []
        | some (role, spec) =>
          grantsOf reach role ("serviceaccount/" ++ account) (withoutApprove spec.rules))

/-- every rule a binding in force gives the caller, with where it applies -/
def inForce (identity : Identity) (now : Int) : List (Reach × Grant) :=
  (m.list orgNamespace "RoleBinding").toList.flatMap
    (fun p => bindingGrants x m identity now p.1 p.2) ++ accountGrants x m identity now

end

/-! ## several Organizations -/

def oneOf (field : String) (values : List String) : Constraint := ⟨field, values, [], none, none⟩

def noneOf (field : String) (values : List String) : Constraint := ⟨field, [], values, none, none⟩

/-- what jc-core documents of `Constraint::holds` on a list: the field's text must be one of it, or
must not be one of it -/
structure JcAccess.HoldsListed (x : JcAccess) : Prop where
  oneOf : ∀ field values text, values ≠ [] →
    (x.holds (oneOf field values) text = true ↔ ∃ t ∈ values, text = some t)
  noneOf : ∀ field values text,
    x.holds (noneOf field values) text = true ↔ ∀ t ∈ values, text ≠ some t

theorem satisfied_oneOf {x : JcAccess} (hl : x.HoldsListed) {field : String} {values : List String}
    (hne : values ≠ []) {target : Option Value} :
    satisfied x (oneOf field values) target = true ↔
      ∃ t ∈ values, fieldText x target field = some t :=
  hl.oneOf field values _ hne

theorem satisfied_noneOf {x : JcAccess} (hl : x.HoldsListed) {field : String}
    {values : List String} {target : Option Value} :
    satisfied x (noneOf field values) target = true ↔
      ∀ t ∈ values, fieldText x target field ≠ some t :=
  hl.noneOf field values _

/-- the kinds another Organization's administrator keeps in the organization's namespace -/
def ownSettingsKinds : List String := ["Organization", "RoleBinding", "Group"]

/-- the groups a Policy names as assignee, alone or in one of its rules -/
def policyGroups (spec : Value) : List String :=
  (spec :: ((spec.get? "rules").bind Value.asArray).getD []).filterMap (fun holder =>
    match holder.get? "assignee" with
    | none => none
    | some assignee => if textAt assignee "kind" = some "group" then textAt assignee "id" else none)

/-- the groups an App's access gives a role to -/
def appGroups (spec : Value) : List String :=
  (((spec.get? "access").bind Value.asArray).getD []).flatMap (fun entry =>
    (((entry.get? "subjects").bind Value.asArray).getD []).filterMap (fun s => textAt s "group"))

section
variable (x : JcAccess) (r : Repository) (organization : String)

def ownProjects : List String :=
  ((r.list orgNamespace "Project").keys).filter (organizationReaches r.toMirror organization)

def foreignProjects : List String :=
  ((r.list orgNamespace "Project").keys).filter (fun p => p ∉ ownProjects r organization)

def ownSpaces : List String :=
  ((matching r.toMirror (fun key => key.kind = "ContextSpace"
    && (ownProjects r organization).contains key.ns)).map (fun e => e.1.name)).filter
    (fun space => (Reach.organization organization).covers r.toMirror (.space space))

def otherOrganizations : List String :=
  ((organizations r.toMirror).map Prod.fst).filter (fun name => name ≠ organization)

/-- the groups that decide access outside the Organization: those a binding that is not its own
names, those of the Policies and Apps of other projects, and every App's default group -/
def elsewhere : List String :=
  (((r.list orgNamespace "RoleBinding").toList.filterMap (fun p => (x.roleBindingSpec p.2).toOption)
    |>.filter (fun b => !(Reach.of b.scope).any
      (fun reach => (Reach.organization organization).covers r.toMirror reach))
    |>.flatMap (fun b => b.subjects.filterMap Subject.group))
  ++ (matching r.toMirror (fun key => key.kind = "Policy"
      && !organizationReaches r.toMirror organization key.ns)).flatMap (fun e => policyGroups e.2)
  ++ (matching r.toMirror (fun key => key.kind = "App"
      && !organizationReaches r.toMirror organization key.ns)).flatMap (fun e => appGroups e.2)
  ++ ((r.list orgNamespace "Group").keys).filter
      (fun name => r.annotated (ResourceKey.of orgNamespace "Group" name) appLabel)).dedup
    |>.insertionSort (· ≤ ·)

/-- the verbs and the constraints a rule keeps on one kind of its own settings, one entry for each
way to be inside the Organization -/
def confined (kind : String) (verbs : List Verb) : List (List Verb × List Constraint) :=
  if kind = "Organization" then
    [(verbs.filter (· ≠ .delete),
      [oneOf "metadata.name" [organization], noneOf "spec.installation" ["true"]])]
  else if kind = "RoleBinding" then
    ([("spec.scope.organization", [organization]),
      ("spec.scope.project", ownProjects r organization),
      ("spec.scope.contextSpace", ownSpaces r organization)].filter
      (fun level => !level.2.isEmpty)).map (fun level =>
      (verbs, [oneOf level.1 level.2,
        noneOf "spec.scope.organization" (otherOrganizations r organization),
        noneOf "spec.scope.project" (foreignProjects r organization)]))
  else
    [(verbs, [{ oneOf "metadata.name" [] with pattern := some (x.escape organization ++ "-.+") },
      noneOf "metadata.name" (elsewhere x r organization)])]

/-- a grant of a binding scoped to an Organization that is not the installation's, read in the
organization's namespace -/
def narrowedToOwnSettings (grant : Grant) : List Grant :=
  if (r.get orgNamespace "Organization" organization).isNone then []
  else
    (ownSettingsKinds.filter (fun kind => grant.rule.kinds.contains kind)).flatMap (fun kind =>
      ((confined x r organization kind grant.rule.verbs).filter (fun c => !c.1.isEmpty)).map
        (fun c => { grant with
          organization := some organization
          rule := ⟨[kind], c.1, grant.rule.constraints ++ c.2⟩ }))

end

section
variable (x : JcAccess)

def byKind (kind : String) : Option KindInfo := x.kinds.find? (fun info => info.kind = kind)

/-- whether a manifest belongs to the organization rather than to one project -/
def belongsToTheOrganization (kind : String) (ns : Option String) : Bool :=
  match byKind x kind with
  | none => false
  | some info =>
    match info.scope with
    | .organization => true
    | .project => false
    | .organizationOrProject => ns.all (fun ns => ns = "" || ns = orgNamespace)

def Grant.withoutOrganizationKinds (project : String) (g : Grant) : Option Grant :=
  let kinds := g.rule.kinds.filter (fun kind => !belongsToTheOrganization x kind (some project))
  if kinds.isEmpty then none else some { g with rule := { g.rule with kinds := kinds } }

/-- in a project of another Organization a grant reaches the project's own kinds alone -/
def withoutOrganizationKinds (m : Mirror) (project : String) (grants : List Grant) : List Grant :=
  if project = orgNamespace || (organizations m).length ≤ 1
      || organizationOf m project = installationOrganization m then grants
  else grants.filterMap (Grant.withoutOrganizationKinds x project)

end

/-! ## the permissions in one project -/

section
variable (x : JcAccess) (r : Repository) (bootstrapGroup : String) (identity : Identity)
  (project : String) (now : Int)

/-- what a grant in force is in this project: the grant itself, bound to its space or not, unless it
is an Organization's that does not reach here -/
def reached (reach : Reach) (grant : Grant) : Option Grant :=
  match reach with
  | .organization org =>
    if organizationReaches r.toMirror org project then some { grant with space := none } else none
  | .project p => if p = project then some { grant with space := none } else none
  | .space space =>
    if projectOfSpace r.toMirror space = some project then some { grant with space := some space }
    else none

/-- what is left of it in the organization's namespace when it does not reach there -/
def ownSettings (reach : Reach) (grant : Grant) : List Grant :=
  match reach with
  | .organization org =>
    if !organizationReaches r.toMirror org project && project = orgNamespace then
      narrowedToOwnSettings x r org grant
    else []
  | _ => []

def effective : Effective :=
  if inGroup identity bootstrapGroup then ⟨project, true, []⟩
  else
    let held := inForce x r.toMirror identity now
    ⟨project, false, withoutOrganizationKinds x r.toMirror project
      (held.filterMap (fun h => reached r project h.1 h.2)
        ++ held.flatMap (fun h => ownSettings x r project h.1 h.2))⟩

end

/-! ## mirrors that agree -/

/-- the same manifests under the keys that satisfy `p` -/
def Agree (p : String → String → String → Prop) (m m' : Mirror) : Prop :=
  ∀ ns kind name, p ns kind name → m.get ns kind name = m'.get ns kind name

section
variable {p : String → String → String → Prop} {m m' : Mirror}

theorem Agree.list (h : Agree p m m') {ns kind : String} (hp : ∀ name, p ns kind name) :
    m.list ns kind = m'.list ns kind := by
  refine OrdMap.ext_get? (fun name => ?_)
  rw [Mirror.list_get?, Mirror.list_get?]
  exact h ns kind name (hp name)

theorem Agree.filterKeys (h : Agree p m m') {q : ResourceKey → Bool}
    (hq : ∀ key, q key = true → p key.ns key.kind key.name) :
    m.resources.filterKeys q = m'.resources.filterKeys q := by
  refine OrdMap.ext_get? (fun key => ?_)
  rw [OrdMap.get?_filterKeys, OrdMap.get?_filterKeys]
  cases hk : q key with
  | false => rfl
  | true => exact h key.ns key.kind key.name (hq key hk)

theorem Agree.matching (h : Agree p m m') {q : ResourceKey → Bool}
    (hq : ∀ key, q key = true → p key.ns key.kind key.name) : matching m q = matching m' q := by
  unfold Access.matching
  rw [h.filterKeys hq]

theorem Agree.projectOfSpace (h : Agree p m m') (hp : ∀ ns name, p ns "ContextSpace" name)
    (space : String) : projectOfSpace m space = projectOfSpace m' space := by
  unfold Access.projectOfSpace
  rw [h.matching]
  intro key hkey
  simp only [Bool.and_eq_true, decide_eq_true_eq] at hkey
  rw [hkey.1]
  exact hp _ _

theorem Agree.roles (h : Agree p m m') (x : JcAccess) {ns : String}
    (hp : ∀ name, p ns "Role" name) : roles x m ns = roles x m' ns := by
  unfold Access.roles
  rw [h.list hp]

theorem namespaces_eq (m : Mirror) : m.namespaces
    = ((m.resources.filterKeys (fun key => key.ns ≠ "" && key.ns ≠ orgNamespace)).keys.map
        ResourceKey.ns).destutter (· ≠ ·) := by
  unfold Mirror.namespaces OrdMap.filterKeys OrdMap.keys
  congr 1
  rw [List.map_map, List.filter_map, List.map_map]
  rfl

theorem Agree.namespaces (h : Agree p m m')
    (hp : ∀ ns kind name, ns ≠ "" → ns ≠ orgNamespace → p ns kind name) :
    m.namespaces = m'.namespaces := by
  rw [namespaces_eq, namespaces_eq, h.filterKeys]
  intro key hkey
  simp only [ne_eq, decide_not, Bool.and_eq_true, Bool.not_eq_true', decide_eq_false_iff_not] at hkey
  exact hp _ _ _ hkey.1 hkey.2

structure SameOwners (m m' : Mirror) : Prop where
  organizations : organizations m = organizations m'
  projects : ∀ project, m.get orgNamespace "Project" project = m'.get orgNamespace "Project" project

theorem Agree.sameOwners (h : Agree p m m')
    (ho : ∀ name, p orgNamespace "Organization" name)
    (hp : ∀ name, p orgNamespace "Project" name) : SameOwners m m' where
  organizations := by
    unfold Portal.organizations
    rw [h.list ho]
  projects := fun project => h _ _ _ (hp project)

theorem SameOwners.installation (h : SameOwners m m') :
    installationOrganization m = installationOrganization m' := by
  unfold installationOrganization
  rw [h.organizations]

theorem SameOwners.owner (h : SameOwners m m') (project : String) :
    organizationOf m project = organizationOf m' project := by
  unfold organizationOf
  rw [h.projects, h.installation]

theorem SameOwners.reaches (h : SameOwners m m') (organization project : String) :
    organizationReaches m organization project = organizationReaches m' organization project := by
  unfold organizationReaches
  rw [h.organizations, h.installation, h.owner]

theorem SameOwners.kindsLeft (h : SameOwners m m') (x : JcAccess) (project : String)
    (grants : List Grant) :
    withoutOrganizationKinds x m project grants = withoutOrganizationKinds x m' project grants := by
  unfold withoutOrganizationKinds
  rw [h.organizations, h.owner, h.installation]

end

/-! ## roles found by name -/

theorem find?_filterMap_table {β : Type} (f : Value → Option β) (name : String)
    {l : List (String × Value)} (hl : l.Pairwise (fun p q => p.1 < q.1)) :
    (l.filterMap (fun p => (f p.2).map (fun s => (p.1, s)))).find? (fun p => p.1 = name)
      = (l.lookup name).bind (fun v => (f v).map (fun s => (name, s))) := by
  induction l with
  | nil => rfl
  | cons p l ih =>
    obtain ⟨k, v⟩ := p
    obtain ⟨hk, hl⟩ := List.pairwise_cons.mp hl
    rw [List.filterMap_cons]
    by_cases hname : k = name
    · subst hname
      rw [List.lookup_cons_self]
      cases hv : f v with
      | some s => simp [hv]
      | none =>
        have hrest : l.lookup k = none := OrdMap.lookup_none_of_lt hk
        simp only [Option.map_none, Option.bind_some, hv]
        rw [ih hl, hrest]
        rfl
    · have hne : (name == k) = false := by simpa using Ne.symm hname
      rw [List.lookup_cons, hne]
      cases hv : f v with
      | some s =>
        simp only [Option.map_some]
        rw [List.find?_cons_of_neg (by simpa using hname)]
        exact ih hl
      | none => exact ih hl

theorem find?_roles (x : JcAccess) (m : Mirror) (ns name : String) :
    (roles x m ns).find? (fun p => p.1 = name)
      = (m.get ns "Role" name).bind (fun v => (x.roleSpec v).toOption.map (fun s => (name, s))) := by
  rw [← Mirror.list_get?]
  exact find?_filterMap_table (fun v => (x.roleSpec v).toOption) name (m.list ns "Role").sorted

/-! ## what is in force, one by one -/

section
variable {x : JcAccess} {m : Mirror} {identity : Identity} {now : Int} {h : Reach × Grant}

/-- one rule of a role, given through a binding or an account of this name -/
def ruleGrant (reach : Reach) (role binding : String) (rule : Rule) : Reach × Grant :=
  (reach, ⟨role, binding, reach.scopeName, none, none, rule⟩)

theorem mem_bindingGrants {name : String} {spec : Value} :
    h ∈ bindingGrants x m identity now name spec ↔ ∃ binding reach role roleSpec,
      namesCaller identity spec = true ∧ x.roleBindingSpec spec = .ok binding ∧
      binding.subjects.any (isSubject identity) = true ∧
      windowOpen x binding.validity now = true ∧ Reach.of binding.scope = some reach ∧
      roleOf x m reach binding.role = some (role, roleSpec) ∧
      ∃ rule ∈ roleSpec.rules, h = ruleGrant reach role name rule := by
  constructor
  · intro hh
    unfold bindingGrants at hh
    split at hh
    · exact absurd hh List.not_mem_nil
    rename_i hnames
    split at hh
    · exact absurd hh List.not_mem_nil
    rename_i binding hparse
    split at hh
    · exact absurd hh List.not_mem_nil
    rename_i hsubject
    split at hh
    · exact absurd hh List.not_mem_nil
    rename_i hwindow
    split at hh
    · exact absurd hh List.not_mem_nil
    rename_i reach hreach
    split at hh
    · exact absurd hh List.not_mem_nil
    rename_i role roleSpec hrole
    obtain ⟨rule, hrule, rfl⟩ := List.mem_map.mp hh
    exact ⟨binding, reach, role, roleSpec, by simpa using hnames, hparse, by simpa using hsubject,
      by simpa using hwindow, hreach, hrole, rule, hrule, rfl⟩
  · rintro ⟨binding, reach, role, roleSpec, hnames, hparse, hsubject, hwindow, hreach, hrole, rule,
      hrule, rfl⟩
    unfold bindingGrants
    simp only [hnames, hparse, hsubject, hwindow, hreach, hrole, Bool.not_true, Bool.false_eq_true,
      if_false]
    exact List.mem_map.mpr ⟨rule, hrule, rfl⟩

theorem mem_accountGrants :
    h ∈ accountGrants x m identity now ↔ ∃ account spec, ∃ granted ∈ spec.roles,
      ∃ reach role roleSpec, accountOf x m identity = some (account, spec) ∧
      windowOpen x granted.validity now = true ∧ Reach.of granted.scope = some reach ∧
      roleOf x m reach granted.role = some (role, roleSpec) ∧
      ∃ rule ∈ withoutApprove roleSpec.rules,
        h = ruleGrant reach role ("serviceaccount/" ++ account) rule := by
  unfold accountGrants
  cases ha : accountOf x m identity with
  | none => simp
  | some found =>
    obtain ⟨account, spec⟩ := found
    simp only [Option.some.injEq, Prod.mk.injEq, List.mem_flatMap, List.mem_filter]
    constructor
    · rintro ⟨granted, ⟨hmem, hw⟩, hh⟩
      cases hr : Reach.of granted.scope with
      | none => simp [hr] at hh
      | some reach =>
        cases hrole : roleOf x m reach granted.role with
        | none => simp [hr, hrole] at hh
        | some found =>
          rw [hr] at hh
          simp only [hrole] at hh
          obtain ⟨rule, hrule, rfl⟩ := List.mem_map.mp hh
          exact ⟨account, spec, granted, hmem, reach, found.1, found.2, ⟨rfl, rfl⟩, hw, hr, hrole,
            rule, hrule, rfl⟩
    · rintro ⟨_, _, granted, hmem, reach, role, roleSpec, ⟨rfl, rfl⟩, hw, hr, hrole, rule, hrule,
        rfl⟩
      refine ⟨granted, ⟨hmem, hw⟩, ?_⟩
      rw [hr]
      simp only [hrole]
      exact List.mem_map.mpr ⟨rule, hrule, rfl⟩

theorem mem_inForce : h ∈ inForce x m identity now ↔
    (∃ name spec, m.get orgNamespace "RoleBinding" name = some spec ∧
      h ∈ bindingGrants x m identity now name spec) ∨ h ∈ accountGrants x m identity now := by
  unfold inForce
  rw [List.mem_append, List.mem_flatMap]
  simp only [Prod.exists, OrdMap.mem_toList, Mirror.list_get?]

end

/-! ## what the grants of a project come from -/

section
variable {x : JcAccess} {r : Repository} {bootstrapGroup : String} {identity : Identity}
  {project : String} {now : Int}

/-- whether the grants of a project say anything of a kind -/
def kindHere (x : JcAccess) (m : Mirror) (project kind : String) : Bool :=
  project = orgNamespace || (organizations m).length ≤ 1
    || organizationOf m project = installationOrganization m
    || !belongsToTheOrganization x kind (some project)

theorem allows_withoutOrganizationKinds (hx : x.GrantsListed) {kind : String} {verb : Verb}
    {target : Option Value} {g : Grant} :
    (∃ g', g.withoutOrganizationKinds x project = some g' ∧ g'.allows x kind verb target = true) ↔
      g.allows x kind verb target = true ∧
        belongsToTheOrganization x kind (some project) = false := by
  unfold Grant.withoutOrganizationKinds
  simp only [Option.ite_none_left_eq_some, Option.some.injEq]
  rw [g.allows_iff hx]
  constructor
  · rintro ⟨g', ⟨-, rfl⟩, hall⟩
    obtain ⟨hkind, hrest⟩ := (Grant.allows_iff hx).mp hall
    obtain ⟨hkind, hhere⟩ := List.mem_filter.mp hkind
    exact ⟨⟨hkind, hrest⟩, by simpa using hhere⟩
  · rintro ⟨⟨hkind, hrest⟩, hhere⟩
    have hmem : kind ∈ g.rule.kinds.filter
        (fun kind => !belongsToTheOrganization x kind (some project)) :=
      List.mem_filter.mpr ⟨hkind, by simp [hhere]⟩
    refine ⟨_, ⟨?_, rfl⟩, (Grant.allows_iff hx).mpr ⟨hmem, hrest⟩⟩
    intro hempty
    rw [List.isEmpty_iff.mp hempty] at hmem
    exact List.not_mem_nil hmem

/-- **What a caller may do in a project**: what a binding in force gives them there, of a kind that
the project's grants say anything of. -/
theorem allowed_iff (hx : x.GrantsListed) (hb : inGroup identity bootstrapGroup = false)
    {kind : String} {verb : Verb} {target : Option Value} :
    (effective x r bootstrapGroup identity project now).check x kind verb target = .ok () ↔
      kindHere x r.toMirror project kind = true ∧
      ∃ h ∈ inForce x r.toMirror identity now, ∃ g,
        (reached r project h.1 h.2 = some g ∨ g ∈ ownSettings x r project h.1 h.2) ∧
        g.allows x kind verb (judged kind verb target) = true := by
  have hmem : ∀ g, g ∈ (inForce x r.toMirror identity now).filterMap
        (fun h => reached r project h.1 h.2)
        ++ (inForce x r.toMirror identity now).flatMap (fun h => ownSettings x r project h.1 h.2) ↔
      ∃ h ∈ inForce x r.toMirror identity now,
        reached r project h.1 h.2 = some g ∨ g ∈ ownSettings x r project h.1 h.2 := by
    intro g
    rw [List.mem_append, List.mem_filterMap, List.mem_flatMap, ← exists_or]
    simp only [← and_or_left]
  rw [check_ok_iff]
  unfold effective
  rw [hb]
  simp only [Bool.false_eq_true, if_false, false_or]
  unfold withoutOrganizationKinds kindHere
  split
  · rename_i hcond
    simp only [Bool.or_eq_true, decide_eq_true_eq] at hcond
    simp only [hmem, Bool.or_eq_true, decide_eq_true_eq, hcond, true_or, true_and]
    constructor
    · rintro ⟨g, ⟨h, hh, hg⟩, hall⟩
      exact ⟨h, hh, g, hg, hall⟩
    · rintro ⟨h, hh, g, hg, hall⟩
      exact ⟨g, ⟨h, hh, hg⟩, hall⟩
  · rename_i hcond
    rw [Bool.not_eq_true] at hcond
    simp only [hcond, Bool.false_or, Bool.not_eq_true', List.mem_filterMap, hmem]
    constructor
    · rintro ⟨g', ⟨g, ⟨h, hh, hg⟩, hkept⟩, hall⟩
      obtain ⟨hall, hkind⟩ := (allows_withoutOrganizationKinds hx).mp ⟨g', hkept, hall⟩
      exact ⟨hkind, h, hh, g, hg, hall⟩
    · rintro ⟨hkind, h, hh, g, hg, hall⟩
      obtain ⟨g', hkept, hall⟩ := (allows_withoutOrganizationKinds hx).mpr ⟨hall, hkind⟩
      exact ⟨g', ⟨g, ⟨h, hh, hg⟩, hkept⟩, hall⟩

theorem allows_of_rule (hx : x.GrantsListed) {g g' : Grant} {kind : String} {verb : Verb}
    {target : Option Value} (hgrants : x.grants g.rule kind verb = true)
    (hconstraints : ∀ c ∈ g.rule.constraints, c ∈ g'.rule.constraints)
    (hspace : g.space = none ∨ g.space = g'.space) (h : g'.allows x kind verb target = true) :
    g.allows x kind verb target = true := by
  obtain ⟨-, -, hstatus, hin, hsat⟩ := (Grant.allows_iff hx).mp h
  obtain ⟨hkind, hverb⟩ := (hx _ _ _).mp hgrants
  refine (Grant.allows_iff hx).mpr ⟨hkind, hverb, fun hv => ?_, fun space hs => ?_,
    fun c hc => hsat c (hconstraints c hc)⟩
  · have hnone := hstatus hv
    unfold writesStatusOnly at hnone ⊢
    rw [List.any_eq_false] at hnone ⊢
    exact fun c hc => hnone c (hconstraints c hc)
  · rcases hspace with h0 | h0
    · rw [h0] at hs
      exact absurd hs (by simp)
    · exact hin space (h0.symm.trans hs)

/-- the ways to be inside an Organization, for one kind of its own settings -/
def ways (x : JcAccess) (r : Repository) (organization kind : String) : List (List Constraint) :=
  (confined x r organization kind []).map Prod.snd

theorem mem_confined {organization kind : String} {verbs : List Verb}
    {c : List Verb × List Constraint} (h : c ∈ confined x r organization kind verbs) :
    c.2 ∈ ways x r organization kind ∧ (∀ d ∈ c.2, d.field ≠ "status.build") ∧
      c.1 = if kind = "Organization" then verbs.filter (· ≠ .delete) else verbs := by
  unfold ways
  unfold confined at h ⊢
  split_ifs at h ⊢ with h1 h2
  · rw [List.mem_singleton] at h
    subst h
    exact ⟨by simp, by simp [oneOf, noneOf], rfl⟩
  · obtain ⟨level, hlevel, rfl⟩ := List.mem_map.mp h
    refine ⟨?_, ?_, rfl⟩
    · rw [List.map_map]
      exact List.mem_map.mpr ⟨level, hlevel, rfl⟩
    · have hfield : level.1 ≠ "status.build" := by
        have hmem := (List.mem_filter.mp hlevel).1
        simp only [List.mem_cons, List.not_mem_nil, or_false] at hmem
        rcases hmem with rfl | rfl | rfl <;> simp
      simp [oneOf, noneOf, hfield]
  · rw [List.mem_singleton] at h
    subst h
    exact ⟨by simp, by simp [oneOf, noneOf], rfl⟩

theorem exists_confined {organization kind : String} (verbs : List Verb) {cs : List Constraint}
    (h : cs ∈ ways x r organization kind) :
    ∃ c ∈ confined x r organization kind verbs, c.2 = cs := by
  unfold ways at h
  obtain ⟨c, hc, rfl⟩ := List.mem_map.mp h
  unfold confined at hc ⊢
  split_ifs at hc ⊢ with h1 h2
  · rw [List.mem_singleton] at hc
    exact ⟨_, List.mem_singleton_self _, by rw [hc]⟩
  · obtain ⟨level, hlevel, rfl⟩ := List.mem_map.mp hc
    exact ⟨_, List.mem_map.mpr ⟨level, hlevel, rfl⟩, rfl⟩
  · rw [List.mem_singleton] at hc
    exact ⟨_, List.mem_singleton_self _, by rw [hc]⟩

/-- **What narrowing leaves of a grant**: what it allows of an Organization's own settings, where
the manifest is inside the Organization, and never the deletion of the Organization. -/
theorem allows_narrowed (hx : x.GrantsListed) {organization kind : String} {verb : Verb}
    {target : Option Value} {grant : Grant} :
    (∃ g ∈ narrowedToOwnSettings x r organization grant, g.allows x kind verb target = true) ↔
      (r.get orgNamespace "Organization" organization).isSome = true ∧ kind ∈ ownSettingsKinds ∧
      (kind = "Organization" → verb ≠ .delete) ∧ grant.allows x kind verb target = true ∧
      ∃ cs ∈ ways x r organization kind, ∀ c ∈ cs, satisfied x c target = true := by
  unfold narrowedToOwnSettings
  cases horg : r.get orgNamespace "Organization" organization with
  | none => simp
  | some spec =>
    simp only [Option.isNone_some, Bool.false_eq_true, if_false, Option.isSome_some, true_and]
    constructor
    · rintro ⟨g, hg, hall⟩
      obtain ⟨kind', hkind', hg⟩ := List.mem_flatMap.mp hg
      obtain ⟨hown, hkinds⟩ := List.mem_filter.mp hkind'
      obtain ⟨c, hc, rfl⟩ := List.mem_map.mp hg
      obtain ⟨hway, -, hverbs⟩ := mem_confined (List.mem_filter.mp hc).1
      obtain ⟨hkind, hverb, hstatus, hspace, hsat⟩ := (Grant.allows_iff hx).mp hall
      rw [List.mem_singleton] at hkind
      subst hkind
      -- what is left of the verbs are verbs of the rule
      have hleft : ∀ v ∈ c.1, v ∈ grant.rule.verbs ∧ (kind = "Organization" → v ≠ .delete) := by
        intro v hv
        rw [hverbs] at hv
        split_ifs at hv with h0
        · obtain ⟨hv, hne⟩ := List.mem_filter.mp hv
          exact ⟨hv, fun _ => by simpa using hne⟩
        · exact ⟨hv, fun h => absurd h h0⟩
      refine ⟨hown, ?_, ?_, c.2, hway, fun d hd => hsat d (List.mem_append_right _ hd)⟩
      · rcases hverb with hv | ⟨rfl, _⟩
        · exact (hleft verb hv).2
        · exact fun _ => by simp
      · refine (Grant.allows_iff hx).mpr ⟨by simpa using hkinds, ?_, fun hv => ?_, hspace,
          fun d hd => hsat d (List.mem_append_left _ hd)⟩
        · rcases hverb with hv | ⟨h0, hv⟩
          · exact .inl (hleft verb hv).1
          · exact .inr ⟨h0, (hleft _ hv).1⟩
        · have hnone := hstatus hv
          unfold writesStatusOnly at hnone ⊢
          rw [List.any_append, Bool.or_eq_false_iff] at hnone
          exact hnone.1
    · rintro ⟨hown, hdelete, hall, cs, hcs, hsat⟩
      obtain ⟨hkind, hverb, hstatus, hspace, hsat'⟩ := (Grant.allows_iff hx).mp hall
      obtain ⟨c, hc, rfl⟩ := exists_confined grant.rule.verbs hcs
      obtain ⟨-, hfield, hverbs⟩ := mem_confined hc
      have hkept : ∀ v ∈ grant.rule.verbs, (kind = "Organization" → v ≠ .delete) → v ∈ c.1 := by
        intro v hv hne
        rw [hverbs]
        split_ifs with h0
        · exact List.mem_filter.mpr ⟨hv, by simpa using hne h0⟩
        · exact hv
      have hverb' : verb ∈ c.1 ∨ verb = .read ∧ .propose ∈ c.1 := by
        rcases hverb with hv | ⟨h0, hv⟩
        · exact .inl (hkept verb hv hdelete)
        · exact .inr ⟨h0, hkept _ hv (fun _ => by simp)⟩
      have hne : c.1 ≠ [] := by
        rcases hverb' with hv | ⟨-, hv⟩
        · exact List.ne_nil_of_mem hv
        · exact List.ne_nil_of_mem hv
      refine ⟨_, List.mem_flatMap.mpr ⟨kind, List.mem_filter.mpr ⟨hown, by simpa using hkind⟩,
        List.mem_map.mpr ⟨c, List.mem_filter.mpr ⟨hc, by simpa using hne⟩, rfl⟩⟩, ?_⟩
      refine (Grant.allows_iff hx).mpr ⟨List.mem_singleton_self _, hverb', fun hv => ?_, hspace,
        fun d hd => ?_⟩
      · unfold writesStatusOnly
        rw [List.any_append, Bool.or_eq_false_iff]
        refine ⟨hstatus hv, List.any_eq_false.mpr (fun d hd => ?_)⟩
        simpa using hfield d hd
      · rcases List.mem_append.mp hd with hd | hd
        · exact hsat' d hd
        · exact hsat d hd

/-- whether a grant held gives a request here -/
def gives (x : JcAccess) (r : Repository) (project kind : String) (verb : Verb)
    (target : Option Value) (h : Reach × Grant) : Prop :=
  ∃ g, (reached r project h.1 h.2 = some g ∨ g ∈ ownSettings x r project h.1 h.2) ∧
    g.allows x kind verb target = true

end

theorem plainJc_holdsListed : plainJc.HoldsListed where
  oneOf field values text hne := by
    cases text with
    | none => simp [plainJc, oneOf, hne]
    | some t => simp [plainJc, oneOf, hne]
  noneOf field values text := by
    cases text with
    | none => simp [plainJc, noneOf]
    | some t =>
      simp only [plainJc, noneOf, List.isEmpty_nil, Bool.true_or, Option.any_some, Bool.true_and,
        Option.all_none, Bool.and_true, Bool.not_eq_true', List.contains_eq_mem,
        decide_eq_false_iff_not, ne_eq, Option.some.injEq]
      exact ⟨fun h t' ht' he => h (he ▸ ht'), fun h ht => h t ht rfl⟩

end Access
end Portal
