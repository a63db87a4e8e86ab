import Portal.Access.Effective
import Portal.Base.Machine

/-!
# The last administrator (`permissions.rs`: `keeps_an_administrator_after`, `administrators`,
`administers_organization`)

A change of roles and bindings that would leave the organization without an administrator is
refused.  An administrator is there when a binding at organization scope is in force, names somebody
and gives them a role of the organization with one rule, under no constraint, that grants `approve`
and `delete` on `RoleBinding`.  The guard looks at the roles and bindings a change writes or removes;
which Organization is the installation's is decided by the Organization manifests, and it is not
asked about those.

* `administrators`             the bindings that make somebody an administrator;
* `keepsAnAdministratorAfter`  the guard of changes that land together;
* `Effective.administersOrganization`   whether a caller administers the organization;
* `administrator_kept`         along every run of accepted changes that leave the installation's
                               Organization as it is, the organization keeps an administrator.
-/

namespace Portal
namespace Access

/-! ## the guard -/

inductive AccessChange where
  | write (manifest : Value)
  | remove (kind ns name : String)

/-- which Organization's bindings make an administrator of the installation: `none` for any -/
def installationScope (m : Mirror) : Option (Option String) :=
  if (organizations m).length > 1 then some (installationOrganization m) else none

section
variable (x : JcAccess)

/-- a rule that hands access out and takes it back -/
def Rule.administers (rule : Rule) : Bool :=
  rule.constraints.isEmpty && rule.kinds.contains "RoleBinding" && rule.verbs.contains .approve
    && rule.verbs.contains .delete

def roleAdministers (roles : OrdMap String Value) (role : String) : Bool :=
  match (roles.get? role).bind (fun spec => (x.roleSpec spec).toOption) with
  | none => false
  | some spec => spec.rules.any Rule.administers

/-- whether the scope of a binding is the installation's -/
def scopeCounts (installation : Option (Option String)) (scope : RoleScope) : Bool :=
  match installation with
  | none => scope.organization.isSome
  | some installation => installation.isSome && scope.organization = installation

/-- whether a binding makes somebody an administrator -/
def bindingAdministers (roles : OrdMap String Value) (installation : Option (Option String))
    (now : Int) (spec : Value) : Bool :=
  match x.roleBindingSpec spec with
  | .error _ => false
  | .ok binding =>
    scopeCounts installation binding.scope && !binding.subjects.isEmpty
      && windowOpen x binding.validity now && roleAdministers x roles binding.role

/-- the bindings that make somebody an administrator, by name -/
def administrators (roles bindings : OrdMap String Value) (installation : Option (Option String))
    (now : Int) : List String :=
  (bindings.toList.filter (fun p => bindingAdministers x roles installation now p.2)).map Prod.fst

def AccessChange.about : AccessChange → String × String × String × Option Value
  | .write manifest =>
    ((textAt manifest "kind").getD "",
      ((valueAt (some manifest) ["metadata", "namespace"]).bind Value.asStr).getD orgNamespace,
      ((valueAt (some manifest) ["metadata", "name"]).bind Value.asStr).getD "",
      manifest.get? "spec")
  | .remove kind ns name => (kind, ns, name, none)

/-- whether the guard reads a change: of a role or a binding of the organization -/
def AccessChange.guarded (c : AccessChange) : Bool :=
  (c.about.1 = "Role" || c.about.1 = "RoleBinding")
    && (c.about.2.1 = orgNamespace || c.about.2.1 = "")

def AccessChange.table (c : AccessChange) (kind : String) (t : OrdMap String Value) :
    OrdMap String Value :=
  if c.guarded && c.about.1 = kind then t.alter c.about.2.2.1 (fun _ => c.about.2.2.2) else t

/-- the roles or the bindings of the organization after several changes -/
def tableAfter (m : Mirror) (kind : String) (changes : List AccessChange) : OrdMap String Value :=
  changes.foldl (fun t c => c.table kind t) (m.list orgNamespace kind)

def administratorsOf (m : Mirror) (now : Int) : List String :=
  administrators x (m.list orgNamespace "Role") (m.list orgNamespace "RoleBinding")
    (installationScope m) now

def keepsAnAdministratorAfter (m : Mirror) (changes : List AccessChange) (now : Int) :
    Except ApiError Unit :=
  let before := administratorsOf x m now
  if before.isEmpty then .ok ()
  else if changes.any AccessChange.guarded && (administrators x (tableAfter m "Role" changes)
      (tableAfter m "RoleBinding" changes) (installationScope m) now).isEmpty then
    .error (.conflict ("this change would leave the organization without an administrator: after "
      ++ "it, no binding at organization scope grants approve and delete on RoleBinding (today: "
      ++ ", ".intercalate before ++ "). Bind another person to such a role first, then make this "
      ++ "change (PF-03)"))
  else .ok ()

/-- whether the caller administers the organization, asked of the permissions in its namespace -/
def Effective.administersOrganization (e : Effective) : Bool :=
  [Verb.approve, Verb.delete].all (fun verb => e.bootstrap || e.grants.any (fun grant =>
    grant.organization.isNone && grant.space.isNone && x.grants grant.rule "RoleBinding" verb))

end

/-! ## changes that land -/

def AccessChange.apply (c : AccessChange) (r : Repository) : Repository :=
  let (kind, ns, name, written) := c.about
  let ns := if ns = "" then orgNamespace else ns
  { r with toMirror := r.toMirror.put ns kind name written }

structure World where
  repository : Repository
  now : Int

/-- changes that land together once the guard accepts them, and time -/
inductive WorldAct where
  | land (changes : List AccessChange)
  | tick (now : Int)

def World.step (x : JcAccess) (w : World) : WorldAct → Option World
  | .land changes =>
    match keepsAnAdministratorAfter x w.repository.toMirror changes w.now with
    | .error _ => none
    | .ok () => some { w with repository := changes.foldl (fun r c => c.apply r) w.repository }
  | .tick now => if w.now ≤ now then some { w with now := now } else none

/-! ## what a landing leaves -/

section
variable {x : JcAccess} {r : Repository} {now : Int}

theorem list_apply (c : AccessChange) (r : Repository) {kind : String}
    (hk : kind = "Role" ∨ kind = "RoleBinding") :
    (c.apply r).list orgNamespace kind = c.table kind (r.list orgNamespace kind) := by
  show (r.toMirror.put (if c.about.2.1 = "" then orgNamespace else c.about.2.1) c.about.1
    c.about.2.2.1 c.about.2.2.2).list orgNamespace kind = _
  unfold AccessChange.table AccessChange.guarded
  by_cases hkind : c.about.1 = kind
  · rw [hkind]
    have hguard : (decide (kind = "Role") || decide (kind = "RoleBinding")) = true := by
      simpa using hk
    by_cases hns : c.about.2.1 = orgNamespace ∨ c.about.2.1 = ""
    · have hat : (if c.about.2.1 = "" then orgNamespace else c.about.2.1) = orgNamespace := by
        rcases hns with h | h
        · rw [h]
          rfl
        · rw [if_pos h]
      rw [hat, hguard, Mirror.list_put]
      simp [hns]
    · rw [not_or] at hns
      rw [if_neg hns.2, hguard, Mirror.list_put_of_ne _ (fun h => hns.1 h.1.symm)]
      simp [hns.1, hns.2]
  · rw [Mirror.list_put_of_ne _ (fun h => hkind h.2.symm)]
    simp [hkind]

theorem list_applied (changes : List AccessChange) (r : Repository) {kind : String}
    (hk : kind = "Role" ∨ kind = "RoleBinding") :
    (changes.foldl (fun r c => c.apply r) r).list orgNamespace kind
      = tableAfter r.toMirror kind changes := by
  unfold tableAfter
  induction changes generalizing r with
  | nil => rfl
  | cons c changes ih =>
    rw [List.foldl_cons, List.foldl_cons, ih, list_apply c r hk]

theorem tableAfter_of_not_guarded {changes : List AccessChange} {m : Mirror}
    (h : changes.any AccessChange.guarded = false) (kind : String) :
    tableAfter m kind changes = m.list orgNamespace kind := by
  unfold tableAfter
  generalize m.list orgNamespace kind = t
  induction changes generalizing t with
  | nil => rfl
  | cons c changes ih =>
    rw [List.any_cons, Bool.or_eq_false_iff] at h
    rw [List.foldl_cons]
    have hc : c.table kind t = t := by
      unfold AccessChange.table
      rw [h.1]
      rfl
    rw [hc]
    exact ih h.2 t

/-- **Step**: changes the guard accepts leave an administrator, where the Organizations stay. -/
theorem administratorsOf_landed {changes : List AccessChange}
    (hguard : keepsAnAdministratorAfter x r.toMirror changes now = .ok ())
    (hscope : installationScope (changes.foldl (fun r c => c.apply r) r).toMirror
      = installationScope r.toMirror)
    (h : administratorsOf x r.toMirror now ≠ []) :
    administratorsOf x (changes.foldl (fun r c => c.apply r) r).toMirror now ≠ [] := by
  unfold administratorsOf
  rw [hscope, list_applied changes r (.inl rfl), list_applied changes r (.inr rfl)]
  unfold keepsAnAdministratorAfter at hguard
  simp only [List.isEmpty_iff, h, if_false] at hguard
  cases hg : changes.any AccessChange.guarded with
  | false =>
    rw [tableAfter_of_not_guarded hg, tableAfter_of_not_guarded hg]
    exact h
  | true =>
    intro hnone
    simp [hg, hnone] at hguard

theorem organizationReaches_of_scopeCounts {m : Mirror} {scope : RoleScope}
    (h : scopeCounts (installationScope m) scope = true) :
    ∃ o, scope.organization = some o ∧ organizationReaches m o orgNamespace = true := by
  unfold installationScope at h
  unfold organizationReaches
  split at h
  · rename_i hlen
    simp only [scopeCounts, Bool.and_eq_true, decide_eq_true_eq] at h
    obtain ⟨o, ho⟩ := Option.isSome_iff_exists.mp h.1
    refine ⟨o, h.2.trans ho, ?_⟩
    rw [if_neg (by omega)]
    simp [ho]
  · rename_i hlen
    obtain ⟨o, ho⟩ := Option.isSome_iff_exists.mp h
    refine ⟨o, ho, ?_⟩
    rw [if_pos (by omega)]

/-- **Everyone an administrator's binding names administers the organization.** -/
theorem administers_of_administrator (hx : x.GrantsListed) {name : String}
    (h : name ∈ administratorsOf x r.toMirror now) (bootstrapGroup : String) :
    ∃ spec binding, r.get orgNamespace "RoleBinding" name = some spec ∧
      x.roleBindingSpec spec = .ok binding ∧ binding.subjects ≠ [] ∧
      ∀ identity, namesCaller identity spec = true →
        binding.subjects.any (isSubject identity) = true →
        (effective x r bootstrapGroup identity orgNamespace now).administersOrganization x
          = true := by
  obtain ⟨⟨name', spec⟩, hmem, rfl⟩ := List.mem_map.mp h
  obtain ⟨hmem, hadmin⟩ := List.mem_filter.mp hmem
  have hget : r.get orgNamespace "RoleBinding" name' = some spec := by
    rw [← Mirror.list_get?]
    exact (OrdMap.mem_toList _ _ _).mp hmem
  unfold bindingAdministers at hadmin
  split at hadmin
  · exact absurd hadmin (by simp)
  rename_i binding hparse
  simp only [Bool.and_eq_true, Bool.not_eq_true', List.isEmpty_eq_false_iff] at hadmin
  obtain ⟨⟨⟨hscope, hsubjects⟩, hwindow⟩, hrole⟩ := hadmin
  refine ⟨spec, binding, hget, hparse, hsubjects, fun identity hnames hsubject => ?_⟩
  cases hb : inGroup identity bootstrapGroup with
  | true => simp [effective, hb, Effective.administersOrganization]
  | false =>
    obtain ⟨o, ho, hreach⟩ := organizationReaches_of_scopeCounts hscope
    -- the role is found where the guard found it
    obtain ⟨roleSpec, hfound, rule, hrule, hruleAdmin⟩ :
        ∃ roleSpec, roleOf x r.toMirror (.organization o) binding.role
            = some (binding.role, roleSpec) ∧ ∃ rule ∈ roleSpec.rules, rule.administers = true := by
      unfold roleAdministers at hrole
      rw [Mirror.list_get?] at hrole
      split at hrole
      · exact absurd hrole (by simp)
      · rename_i roleSpec hspec
        refine ⟨roleSpec, ?_, List.any_eq_true.mp hrole⟩
        unfold roleOf
        rw [find?_roles]
        cases hv : r.get orgNamespace "Role" binding.role with
        | none => rw [hv] at hspec; exact absurd hspec (by simp)
        | some v =>
          rw [hv] at hspec
          have hspec : (x.roleSpec v).toOption = some roleSpec := hspec
          simp [hspec]
    have hof : Reach.of binding.scope = some (.organization o) := by simp [Reach.of, ho]
    have hheld : ruleGrant (.organization o) binding.role name' rule
        ∈ inForce x r.toMirror identity now :=
      mem_inForce.mpr (.inl ⟨name', spec, hget, mem_bindingGrants.mpr ⟨binding, _, _, roleSpec,
        hnames, hparse, hsubject, hwindow, hof, hfound, rule, hrule, rfl⟩⟩)
    have hgrant : (⟨binding.role, name', "organization", none, none, rule⟩ : Grant)
        ∈ (effective x r bootstrapGroup identity orgNamespace now).grants := by
      unfold effective withoutOrganizationKinds
      rw [hb]
      simp only [Bool.false_eq_true, if_false, decide_true, Bool.true_or, if_true]
      refine List.mem_append_left _ (List.mem_filterMap.mpr ⟨_, hheld, ?_⟩)
      simp [reached, hreach, ruleGrant, Reach.scopeName]
    simp only [Rule.administers, Bool.and_eq_true, List.contains_iff_mem] at hruleAdmin
    obtain ⟨⟨⟨-, hkind⟩, happrove⟩, hdelete⟩ := hruleAdmin
    unfold Effective.administersOrganization
    rw [List.all_eq_true]
    intro verb hverb
    rw [Bool.or_eq_true]
    refine .inr (List.any_eq_true.mpr ⟨_, hgrant, ?_⟩)
    have hin : verb ∈ rule.verbs := by
      rcases List.mem_pair.mp hverb with rfl | rfl
      · exact happrove
      · exact hdelete
    simp [(hx rule "RoleBinding" verb).mpr ⟨hkind, .inl hin⟩]

theorem administratorsOf_later {m : Mirror} {later : Int}
    (hwindows : ∀ name spec binding, m.get orgNamespace "RoleBinding" name = some spec →
      x.roleBindingSpec spec = .ok binding → windowOpen x binding.validity now = true →
      windowOpen x binding.validity later = true)
    (h : administratorsOf x m now ≠ []) : administratorsOf x m later ≠ [] := by
  obtain ⟨name, hname⟩ := List.exists_mem_of_ne_nil _ h
  obtain ⟨⟨name', spec⟩, hmem, rfl⟩ := List.mem_map.mp hname
  obtain ⟨hmem, hadmin⟩ := List.mem_filter.mp hmem
  refine List.ne_nil_of_mem (List.mem_map.mpr ⟨(name', spec), List.mem_filter.mpr ⟨hmem, ?_⟩, rfl⟩)
  have hget : m.get orgNamespace "RoleBinding" name' = some spec := by
    rw [← Mirror.list_get?]
    exact (OrdMap.mem_toList _ _ _).mp hmem
  unfold bindingAdministers at hadmin ⊢
  cases hparse : x.roleBindingSpec spec with
  | error e => rw [hparse] at hadmin; exact absurd hadmin (by simp)
  | ok binding =>
    rw [hparse] at hadmin
    simp only [Bool.and_eq_true] at hadmin ⊢
    exact ⟨⟨hadmin.1.1, hwindows _ _ _ hget hparse hadmin.1.2⟩, hadmin.2⟩

end

/-- a step that leaves which Organization is the installation's, and that no window closes in -/
def Calm (x : JcAccess) (t : Trans World WorldAct) : Prop :=
  match t.act with
  | .land _ => installationScope t.after.repository.toMirror
      = installationScope t.before.repository.toMirror
  | .tick now => ∀ name spec binding,
      t.before.repository.get orgNamespace "RoleBinding" name = some spec →
      x.roleBindingSpec spec = .ok binding → windowOpen x binding.validity t.before.now = true →
      windowOpen x binding.validity now = true

/-- some binding makes an administrator -/
def World.Administered (x : JcAccess) (w : World) : Prop :=
  administratorsOf x w.repository.toMirror w.now ≠ []

theorem administered_step {x : JcAccess} {w w' : World} {a : WorldAct}
    (hs : w.step x a = some w') (hC : Calm x ⟨w, a, w'⟩) (h : w.Administered x) :
    w'.Administered x := by
  cases a with
  | land changes =>
    simp only [World.step] at hs
    cases hguard : keepsAnAdministratorAfter x w.repository.toMirror changes w.now with
    | error e => rw [hguard] at hs; exact absurd hs (by simp)
    | ok u =>
      rw [hguard] at hs
      cases hs
      exact administratorsOf_landed hguard hC h
  | tick now =>
    simp only [World.step] at hs
    split at hs
    · cases hs
      exact administratorsOf_later hC h
    · exact absurd hs (by simp)

/-- **The organization keeps an administrator** along every run of accepted changes that leave the
installation's Organization as it is: a binding in force that names somebody, and everyone it names
administers the organization. -/
theorem administrator_kept {x : JcAccess} (hx : x.GrantsListed) (bootstrapGroup : String)
    {w w' : World} {tr : List (Trans World WorldAct)}
    (h : w.Administered x) (hr : Run (World.step x) w tr w') (hC : ∀ t ∈ tr, Calm x t) :
    ∃ name spec binding, w'.repository.get orgNamespace "RoleBinding" name = some spec ∧
      x.roleBindingSpec spec = .ok binding ∧ binding.subjects ≠ [] ∧
      ∀ identity, namesCaller identity spec = true →
        binding.subjects.any (isSubject identity) = true →
        (effective x w'.repository bootstrapGroup identity orgNamespace w'.now
          ).administersOrganization x = true := by
  have hkept : w'.Administered x :=
    Run.invariant (I := World.Administered x) (C := Calm x) h
      (fun _ _ _ hs hC hI => administered_step hs hC hI) hr hC
  obtain ⟨name, hname⟩ := List.exists_mem_of_ne_nil _ hkept
  exact ⟨name, administers_of_administrator hx hname bootstrapGroup⟩

/-! ## where it is lost -/

/-- a caller whose bindings are of Organizations that do not reach the organization's namespace does
not administer it -/
theorem not_administers {x : JcAccess} {r : Repository} {bootstrapGroup : String}
    {identity : Identity} {now : Int} (hb : inGroup identity bootstrapGroup = false)
    (h : ∀ g ∈ inForce x r.toMirror identity now, ∃ o, g.1 = .organization o ∧
      organizationReaches r.toMirror o orgNamespace = false) :
    (effective x r bootstrapGroup identity orgNamespace now).administersOrganization x = false := by
  have hnone : ∀ g ∈ (effective x r bootstrapGroup identity orgNamespace now).grants,
      g.organization.isNone = false := by
    intro g hg
    unfold effective withoutOrganizationKinds at hg
    rw [hb] at hg
    simp only [Bool.false_eq_true, if_false, decide_true, Bool.true_or, if_true] at hg
    rcases List.mem_append.mp hg with hg | hg
    · obtain ⟨held, hheld, hreached⟩ := List.mem_filterMap.mp hg
      obtain ⟨o, ho, hreach⟩ := h held hheld
      simp [ho, reached, hreach] at hreached
    · obtain ⟨held, hheld, hown⟩ := List.mem_flatMap.mp hg
      obtain ⟨o, ho, hreach⟩ := h held hheld
      simp only [ho, ownSettings, hreach, Bool.not_false, decide_true, Bool.and_self, if_true,
        narrowedToOwnSettings] at hown
      split at hown
      · exact absurd hown List.not_mem_nil
      · obtain ⟨kind, -, hkind⟩ := List.mem_flatMap.mp hown
        obtain ⟨c, -, rfl⟩ := List.mem_map.mp hkind
        rfl
  have hboot : (effective x r bootstrapGroup identity orgNamespace now).bootstrap = false := by
    simp [effective, hb]
  unfold Effective.administersOrganization
  rw [List.all_eq_false]
  refine ⟨.approve, List.mem_cons_self, ?_⟩
  rw [hboot, Bool.false_or, Bool.not_eq_true, List.any_eq_false]
  intro g hg
  simp [hnone g hg]

/-- manifests by namespace, kind and name, without other metadata -/
def repositoryOf (l : List (String × String × String × Value)) : Repository where
  resources := OrdMap.ofList (l.map (fun e => (ResourceKey.of e.1 e.2.1 e.2.2.1, e.2.2.2)))
  metadata := fun _ => []

def textsValue (l : List String) : Value := .array (l.map .string)

def ruleValue (kinds verbs : List String) : Value :=
  .object [("kinds", textsValue kinds), ("verbs", textsValue verbs)]

def roleValue (rules : List Value) : Value := .object [("rules", .array rules)]

def bindingValue (role level scope user : String) : Value :=
  .object [("role", .string role), ("scope", .object [(level, .string scope)]),
    ("subjects", .array [.object [("user", .string user)]])]

def personOf (name : String) : Identity := ⟨name, name, none, none, [], [], none⟩

/-- one Organization whose administrator is ana; her role has the rules given -/
def acmeWorld (rules : List Value) : World where
  repository := repositoryOf [("org", "Organization", "acme", .object []),
    ("org", "Role", "org-admin", roleValue rules),
    ("org", "RoleBinding", "admins", bindingValue "org-admin" "organization" "acme" "ana")]
  now := 0

def adminRules : List Value := [ruleValue ["RoleBinding"] ["propose", "approve", "delete"]]

def splitRules : List Value :=
  [ruleValue ["RoleBinding"] ["approve"], ruleValue ["RoleBinding"] ["delete"]]

def bobBinding : AccessChange := .write (.object [("kind", .string "RoleBinding"),
  ("metadata", .object [("name", .string "bobs")]),
  ("spec", bindingValue "org-admin" "organization" "acme" "bob")])

def acmeActs : List WorldAct :=
  [.land [bobBinding], .tick 5, .land [.remove "RoleBinding" "org" "admins"]]

/-- whether a landing leaves the installation's Organization -/
def landsCalm (t : Trans World WorldAct) : Bool :=
  match t.act with
  | .land _ => installationScope t.after.repository.toMirror
      = installationScope t.before.repository.toMirror
  | .tick _ => true

theorem readBinding_of_ok {spec : Value} {binding : RoleBindingSpec}
    (h : plainJc.roleBindingSpec spec = .ok binding) : readBinding spec = some binding := by
  have h' : (readBinding spec).elim (.error "spec") .ok = Except.ok binding := h
  cases hr : readBinding spec with
  | none => rw [hr] at h'; exact absurd h' (by simp)
  | some b => rw [hr] at h'; exact congrArg some (Except.ok.inj h')

theorem windowOpen_plain {spec : Value} {binding : RoleBindingSpec}
    (h : plainJc.roleBindingSpec spec = .ok binding) (now : Int) :
    windowOpen plainJc binding.validity now = true := by
  have hb := readBinding_of_ok h
  have hv : binding.validity = none := by
    simp only [readBinding, bind, Option.bind_eq_some_iff, pure, Option.some.injEq] at hb
    obtain ⟨_, _, _, _, _, _, rfl⟩ := hb
    rfl
  rw [hv]
  rfl

theorem calm_of_landsCalm {t : Trans World WorldAct} (h : landsCalm t = true) : Calm plainJc t := by
  unfold landsCalm at h
  unfold Calm
  cases ht : t.act with
  | land changes => simpa [ht] using h
  | tick now => exact fun _ _ _ _ hparse _ => windowOpen_plain hparse now

theorem administrator_kept_of_bob : ∃ name spec binding,
    (final (World.step plainJc) (acmeWorld adminRules) acmeActs).repository.get orgNamespace
      "RoleBinding" name = some spec ∧
      plainJc.roleBindingSpec spec = .ok binding ∧ binding.subjects ≠ [] ∧
      ∀ identity, namesCaller identity spec = true →
        binding.subjects.any (isSubject identity) = true →
        (effective plainJc (final (World.step plainJc) (acmeWorld adminRules) acmeActs).repository
          "bootstrap" identity orgNamespace
          (final (World.step plainJc) (acmeWorld adminRules) acmeActs).now
          ).administersOrganization plainJc = true := by
  have hrun : (exec (World.step plainJc) (acmeWorld adminRules) acmeActs).isSome := by
    decide +kernel
  have hcalm : (trace (World.step plainJc) (acmeWorld adminRules) acmeActs).all landsCalm = true := by
    decide +kernel
  refine administrator_kept plainJc_grantsListed "bootstrap" ?_ (run_trace hrun) ?_
  · unfold World.Administered
    decide +kernel
  · exact fun t ht => calm_of_landsCalm (List.all_eq_true.mp hcalm t ht)

/-- a second Organization, which does not claim the installation -/
def secondOrganization : AccessChange := .write (.object [("kind", .string "Organization"),
  ("metadata", .object [("name", .string "beta")]), ("spec", .object [])])

/-- whether some person outside the bootstrap group administers the organization -/
def World.HasAdministrator (x : JcAccess) (bootstrapGroup : String) (w : World) : Prop :=
  ∃ identity, inGroup identity bootstrapGroup = false ∧
    (effective x w.repository bootstrapGroup identity orgNamespace w.now).administersOrganization x
      = true

theorem accountGrants_eq_nil {x : JcAccess} {m : Mirror} (h : m.namespaces = [])
    (identity : Identity) (now : Int) : accountGrants x m identity now = [] := by
  have ha : accountOf x m identity = none := by
    unfold accountOf
    rw [h]
    split
    · rfl
    · split
      · rfl
      · rfl
  unfold accountGrants
  rw [ha]

theorem reach_of_bindings {x : JcAccess} {m : Mirror} {o : String} (hns : m.namespaces = [])
    (h : ∀ p ∈ (m.list orgNamespace "RoleBinding").toList, ∀ binding,
      x.roleBindingSpec p.2 = .ok binding → Reach.of binding.scope = some (.organization o))
    {identity : Identity} {now : Int} {g : Reach × Grant} (hg : g ∈ inForce x m identity now) :
    g.1 = .organization o := by
  rcases mem_inForce.mp hg with ⟨name, spec, hget, hb⟩ | ha
  · obtain ⟨binding, reach, _, _, _, hparse, _, _, hreach, _, _, _, rfl⟩ := mem_bindingGrants.mp hb
    rw [← Mirror.list_get?, ← OrdMap.mem_toList] at hget
    exact Option.some.inj (hreach.symm.trans (h _ hget binding hparse))
  · rw [accountGrants_eq_nil hns] at ha
    exact absurd ha List.not_mem_nil

def World.landed (w : World) (changes : List AccessChange) : Repository :=
  changes.foldl (fun r c => c.apply r) w.repository

/-- **The guard does not keep it** when a second Organization comes, which takes the namespace from
the only one, nor when ana's rights are in two rules of her role. -/
theorem administrator_lost :
    ((acmeWorld adminRules).HasAdministrator plainJc "bootstrap" ∧
      ∃ w, World.step plainJc (acmeWorld adminRules) (.land [secondOrganization]) = some w ∧
        ¬ w.HasAdministrator plainJc "bootstrap") ∧
    ((acmeWorld splitRules).HasAdministrator plainJc "bootstrap" ∧
      ∃ w, World.step plainJc (acmeWorld splitRules) (.land [.remove "RoleBinding" "org" "admins"])
          = some w ∧ ¬ w.HasAdministrator plainJc "bootstrap") := by
  refine ⟨⟨⟨personOf "ana", by decide, by decide +kernel⟩, _, rfl, ?_⟩,
    ⟨personOf "ana", by decide, by decide +kernel⟩, _, rfl, ?_⟩
  · rintro ⟨identity, hb, hadmin⟩
    have hlist : (((acmeWorld adminRules).landed [secondOrganization]).list orgNamespace
        "RoleBinding").toList
        = [("admins", bindingValue "org-admin" "organization" "acme" "ana")] := by decide +kernel
    refine absurd hadmin (Bool.eq_false_iff.mp (not_administers hb (fun g hg => ⟨"acme", ?_, ?_⟩)))
    · refine reach_of_bindings (by decide +kernel) (fun p hp binding hparse => ?_) hg
      have hp' : p ∈ (((acmeWorld adminRules).landed [secondOrganization]).list orgNamespace
          "RoleBinding").toList := hp
      rw [hlist, List.mem_singleton] at hp'
      subst hp'
      cases hparse
      rfl
    · decide +kernel
  · rintro ⟨identity, hb, hadmin⟩
    have hlist : (((acmeWorld splitRules).landed [.remove "RoleBinding" "org" "admins"]).list
        orgNamespace "RoleBinding").toList = [] := by decide +kernel
    refine absurd hadmin (Bool.eq_false_iff.mp (not_administers hb (fun g hg => ?_)))
    rcases mem_inForce.mp hg with ⟨name, spec, hget, _⟩ | ha
    · rw [← Mirror.list_get?, ← OrdMap.mem_toList] at hget
      exact absurd (hlist ▸ hget) List.not_mem_nil
    · rw [accountGrants_eq_nil (by decide +kernel)] at ha
      exact absurd ha List.not_mem_nil

end Access
end Portal
