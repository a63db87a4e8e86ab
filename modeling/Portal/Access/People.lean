import Portal.Access.Reading

/-!
# Who administers the organization (`permissions.rs`: `administrator_people`)

The pages that remove people ask who would be left to run the organization: the users that an
administrator's binding names, and the members of the groups it names.

* `administratorPeople`      the people, by lower-case name;
* `counted_administers`      a person counted administers the organization;
* `administrator_counted`    an administrator through a user subject and one unconstrained rule is counted;
* `people_agree`             both together.
-/

namespace Portal
namespace Access

/-- `to_ascii_lowercase` -/
def lowerAscii (s : String) : String := String.ofList (s.toList.map Char.toLower)

section
variable (x : JcAccess) (members : Value → List String) (m : Mirror) (now : Int)

def peopleOf (s : Subject) : List String :=
  (s.user.toList ++ ((s.group.bind (m.list orgNamespace "Group").get?).map members).getD []).map
    lowerAscii

def administratorSubjects : List Subject :=
  (administratorsOf x m now).flatMap (fun name =>
    match ((m.list orgNamespace "RoleBinding").get? name).bind
      (fun spec => (x.roleBindingSpec spec).toOption) with
    | none => []
    | some binding => binding.subjects)

/-- every person an administrator's binding names; `members` are the users a Group's spec lists, none
where it does not parse -/
def administratorPeople : List String :=
  ((administratorSubjects x m now).flatMap (peopleOf members m)).dedup.insertionSort (· ≤ ·)

end

section
variable {x : JcAccess} {members : Value → List String} {r : Repository} {now : Int}

theorem mem_administratorPeople {p : String} : p ∈ administratorPeople x members r.toMirror now ↔
    ∃ s ∈ administratorSubjects x r.toMirror now, p ∈ peopleOf members r.toMirror s := by
  unfold administratorPeople
  rw [(List.perm_insertionSort _ _).mem_iff, List.mem_dedup, List.mem_flatMap]

theorem mem_administratorSubjects {s : Subject} : s ∈ administratorSubjects x r.toMirror now ↔
    ∃ name ∈ administratorsOf x r.toMirror now, ∃ spec binding,
      r.get orgNamespace "RoleBinding" name = some spec ∧ x.roleBindingSpec spec = .ok binding ∧
      s ∈ binding.subjects := by
  unfold administratorSubjects
  rw [List.mem_flatMap]
  refine exists_congr (fun name => and_congr_right (fun _ => ?_))
  rw [Mirror.list_get?]
  cases r.get orgNamespace "RoleBinding" name with
  | none => simp
  | some spec =>
    cases hparse : x.roleBindingSpec spec with
    | error e => simp [hparse, Except.toOption]
    | ok binding => simp [hparse, Except.toOption]

/-- **A person counted administers the organization**: whoever the user of the subject is, and whoever
is in its group where it names no user. -/
theorem counted_administers (hx : x.GrantsListed) (hs : x.SubjectsRead) (bootstrapGroup : String)
    {s : Subject} (h : s ∈ administratorSubjects x r.toMirror now) {identity : Identity}
    (hidentity : isSubject identity s = true) :
    (effective x r bootstrapGroup identity orgNamespace now).administersOrganization x = true := by
  obtain ⟨name, hname, spec, binding, hget, hparse, hsub⟩ := mem_administratorSubjects.mp h
  obtain ⟨spec', binding', hget', hparse', -, hadministers⟩ :=
    administers_of_administrator hx hname bootstrapGroup
  cases hget.symm.trans hget'
  cases hparse.symm.trans hparse'
  have hany : binding.subjects.any (isSubject identity) = true := List.any_eq_true.mpr ⟨s, hsub, hidentity⟩
  exact hadministers identity ((namesCaller_eq hs hparse identity).trans hany) hany

theorem scopeCounts_of_organizationReaches {m : Mirror} {scope : RoleScope} {o : String}
    (ho : scope.organization = some o) (h : organizationReaches m o orgNamespace = true) :
    scopeCounts (installationScope m) scope = true := by
  unfold organizationReaches at h
  unfold installationScope scopeCounts
  by_cases hlen : (organizations m).length ≤ 1
  · rw [if_neg (by omega)]
    simp [ho]
  · rw [if_neg hlen] at h
    rw [if_pos (by omega)]
    have hinstallation : installationOrganization m = some o := by simpa using h
    simp [ho, hinstallation]

/-- a role of the organization that a binding at organization scope finds, as the guard reads it -/
theorem roleAdministers_of_roleOf {o role found : String} {roleSpec : RoleSpec} {rule : Rule}
    (h : roleOf x r.toMirror (.organization o) role = some (found, roleSpec)) (hrule : rule ∈ roleSpec.rules)
    (hadministers : rule.administers = true) :
    roleAdministers x (r.list orgNamespace "Role") role = true := by
  have hfind : (roles x r.toMirror orgNamespace).find? (fun p => p.1 = role) = some (found, roleSpec) := by
    simpa [roleOf] using h
  rw [find?_roles] at hfind
  unfold roleAdministers
  rw [Mirror.list_get?]
  cases hget : r.get orgNamespace "Role" role with
  | none => simp [hget] at hfind
  | some spec =>
    cases hparse : x.roleSpec spec with
    | error e => simp [hget, hparse, Except.toOption] at hfind
    | ok parsed =>
      simp only [hget, hparse, Except.toOption, Option.bind_some, Option.map_some, Option.some.injEq,
        Prod.mk.injEq] at hfind
      obtain ⟨-, rfl⟩ := hfind
      have hany : parsed.rules.any Rule.administers = true := List.any_eq_true.mpr ⟨rule, hrule, hadministers⟩
      simpa only [Option.bind_some, hparse, Except.toOption] using hany

theorem not_administers_of_withoutApprove {rules : List Rule} {rule : Rule}
    (h : rule ∈ withoutApprove rules) : rule.administers = false := by
  obtain ⟨hmem, -⟩ := List.mem_filter.mp h
  obtain ⟨whole, -, rfl⟩ := List.mem_map.mp hmem
  simp [Rule.administers]

theorem scope_of_inForce {identity : Identity} {h : Reach × Grant}
    (hh : h ∈ inForce x r.toMirror identity now) : h.2.scope = h.1.scopeName := by
  rcases mem_inForce.mp hh with ⟨name, spec, -, hgrant⟩ | haccount
  · obtain ⟨_, _, _, _, -, -, -, -, -, -, _, -, rfl⟩ := mem_bindingGrants.mp hgrant
    rfl
  · obtain ⟨_, _, _, -, _, _, _, -, -, -, -, _, -, rfl⟩ := mem_accountGrants.mp haccount
    rfl

theorem inForce_of_organization {bootstrapGroup : String} {identity : Identity} {g : Grant}
    (hb : inGroup identity bootstrapGroup = false)
    (hg : g ∈ (effective x r bootstrapGroup identity orgNamespace now).grants)
    (horg : g.organization = none) (hscope : g.scope = "organization") :
    ∃ o held, organizationReaches r.toMirror o orgNamespace = true ∧
      (Reach.organization o, held) ∈ inForce x r.toMirror identity now ∧
      held.binding = g.binding ∧ held.rule = g.rule := by
  unfold effective withoutOrganizationKinds at hg
  rw [hb] at hg
  simp only [Bool.false_eq_true, if_false, decide_true, Bool.true_or, if_true] at hg
  rcases List.mem_append.mp hg with hg | hg
  · obtain ⟨⟨reach, held⟩, hheld, hreached⟩ := List.mem_filterMap.mp hg
    have hname : held.scope = reach.scopeName := scope_of_inForce hheld
    cases reach with
    | organization o =>
      simp only [reached, Option.ite_none_right_eq_some, Option.some.injEq] at hreached
      obtain ⟨hreach, rfl⟩ := hreached
      exact ⟨o, held, hreach, hheld, rfl, rfl⟩
    | project p =>
      simp only [reached, Option.ite_none_right_eq_some, Option.some.injEq] at hreached
      obtain ⟨-, rfl⟩ := hreached
      have habsurd : "project:" ++ p = "organization" := hname.symm.trans hscope
      exact absurd (congrArg (fun s => s.toList.head?) habsurd) (by simp)
    | space space =>
      simp only [reached, Option.ite_none_right_eq_some, Option.some.injEq] at hreached
      obtain ⟨-, rfl⟩ := hreached
      have habsurd : "contextSpace:" ++ space = "organization" := hname.symm.trans hscope
      exact absurd (congrArg (fun s => s.toList.head?) habsurd) (by simp)
  · -- what is left of another Organization's grant names that Organization
    obtain ⟨⟨reach, held⟩, -, hown⟩ := List.mem_flatMap.mp hg
    cases reach with
    | organization o =>
      simp only [ownSettings, narrowedToOwnSettings] at hown
      split at hown
      · split at hown
        · exact absurd hown List.not_mem_nil
        · obtain ⟨kind, -, hkind⟩ := List.mem_flatMap.mp hown
          obtain ⟨c, -, rfl⟩ := List.mem_map.mp hkind
          exact absurd horg (by simp)
      · exact absurd hown List.not_mem_nil
    | project p => exact absurd hown List.not_mem_nil
    | space space => exact absurd hown List.not_mem_nil

/-- **An administrator is counted** where a binding at organization scope gives them one rule, under
no constraint, that approves and deletes bindings: as are all users the binding names. -/
theorem administrator_counted {bootstrapGroup : String} {identity : Identity} {g : Grant}
    (hb : inGroup identity bootstrapGroup = false)
    (hg : g ∈ (effective x r bootstrapGroup identity orgNamespace now).grants)
    (horg : g.organization = none) (hscope : g.scope = "organization") (hrule : g.rule.administers = true)
    {spec : Value} {binding : RoleBindingSpec} (hget : r.get orgNamespace "RoleBinding" g.binding = some spec)
    (hparse : x.roleBindingSpec spec = .ok binding) {s : Subject} (hs : s ∈ binding.subjects)
    {user : String} (huser : s.user = some user) :
    lowerAscii user ∈ administratorPeople x members r.toMirror now := by
  obtain ⟨o, held, hreach, hheld, hname, hheldRule⟩ := inForce_of_organization hb hg horg hscope
  rcases mem_inForce.mp hheld with ⟨name, spec', hget', hgrant⟩ | haccount
  · obtain ⟨binding', reach, role, roleSpec, -, hparse', -, hwindow, hof, hfound, rule, hmem, heq⟩ :=
      mem_bindingGrants.mp hgrant
    cases heq
    cases hname
    cases hget.symm.trans hget'
    cases hparse.symm.trans hparse'
    have ho : binding.scope.organization = some o := by
      unfold Reach.of at hof
      split at hof <;> simp_all
    have hadministers : bindingAdministers x (r.list orgNamespace "Role") (installationScope r.toMirror) now
        spec = true := by
      have hrole := roleAdministers_of_roleOf hfound hmem
        ((congrArg Rule.administers hheldRule).trans hrule)
      unfold bindingAdministers
      simp [hparse, scopeCounts_of_organizationReaches ho hreach, hwindow, hrole, List.ne_nil_of_mem hs]
    have hin : g.binding ∈ administratorsOf x r.toMirror now := by
      refine List.mem_map.mpr ⟨(g.binding, spec), List.mem_filter.mpr ⟨?_, hadministers⟩, rfl⟩
      rw [OrdMap.mem_toList, Mirror.list_get?]
      exact hget
    refine mem_administratorPeople.mpr ⟨s, mem_administratorSubjects.mpr ⟨_, hin, spec, binding, hget, hparse,
      hs⟩, ?_⟩
    simp [peopleOf, huser]
  · obtain ⟨_, _, _, -, _, _, _, -, -, -, -, rule, hmem, heq⟩ := mem_accountGrants.mp haccount
    cases heq
    have hnot := not_administers_of_withoutApprove hmem
    have hdoes : rule.administers = true := (congrArg Rule.administers hheldRule).trans hrule
    exact absurd (hnot.symm.trans hdoes) (by simp)

/-- **The people counted are administrators**, through a user they are or a group they are in, and an
administrator through a user subject and one unconstrained rule at organization scope is counted. -/
theorem people_agree (hx : x.GrantsListed) (hs : x.SubjectsRead) (bootstrapGroup : String) :
    (∀ p ∈ administratorPeople x members r.toMirror now, ∃ s ∈ administratorSubjects x r.toMirror now,
      ((∃ user, s.user = some user ∧ p = lowerAscii user) ∨
        ∃ group spec, s.group = some group ∧ r.get orgNamespace "Group" group = some spec ∧
          p ∈ (members spec).map lowerAscii) ∧
      (∀ user, s.user = some user → ∀ identity, names identity (some user) none = true →
        (effective x r bootstrapGroup identity orgNamespace now).administersOrganization x = true) ∧
      ∀ group, s.group = some group → s.user = none → ∀ identity, inGroup identity group = true →
        (effective x r bootstrapGroup identity orgNamespace now).administersOrganization x = true) ∧
    ∀ identity, inGroup identity bootstrapGroup = false →
      ∀ g ∈ (effective x r bootstrapGroup identity orgNamespace now).grants,
        g.organization = none → g.scope = "organization" → g.rule.administers = true →
        ∀ spec binding, r.get orgNamespace "RoleBinding" g.binding = some spec →
          x.roleBindingSpec spec = .ok binding → ∀ s ∈ binding.subjects, ∀ user, s.user = some user →
            lowerAscii user ∈ administratorPeople x members r.toMirror now := by
  constructor
  · intro p hp
    obtain ⟨s, hsub, hp⟩ := mem_administratorPeople.mp hp
    refine ⟨s, hsub, ?_, fun user huser identity hid => ?_, fun group hgroup huser identity hid => ?_⟩
    · obtain ⟨who, hwho, rfl⟩ := List.mem_map.mp hp
      rcases List.mem_append.mp hwho with huser | hmember
      · exact .inl ⟨who, Option.mem_toList.mp huser, rfl⟩
      · cases hgroup : s.group with
        | none => simp [hgroup] at hmember
        | some group =>
          cases hget : r.get orgNamespace "Group" group with
          | none => simp [hgroup, Mirror.list_get?, hget] at hmember
          | some spec =>
            simp only [hgroup, Option.bind_some, Mirror.list_get?, hget, Option.map_some,
              Option.getD_some] at hmember
            exact .inr ⟨group, spec, rfl, hget, List.mem_map.mpr ⟨who, hmember, rfl⟩⟩
    · refine counted_administers hx hs bootstrapGroup hsub ?_
      unfold isSubject
      rw [huser]
      exact hid
    · refine counted_administers hx hs bootstrapGroup hsub ?_
      unfold isSubject
      rw [huser, hgroup]
      exact hid
  · intro identity hb g hg horg hscope hrule spec binding hget hparse s hmem user huser
    exact administrator_counted hb hg horg hscope hrule hget hparse hmem huser

end

/-! ## one Organization and its administrator -/

def anaGrant : Grant :=
  ⟨"org-admin", "admins", "organization", none, none, ⟨["RoleBinding"], [.propose, .approve, .delete], []⟩⟩

/-- ana, whom a binding names, is counted -/
theorem people_agree_of_ana :
    "ana" ∈ administratorPeople plainJc (readTexts · "members") (acmeWorld adminRules).repository.toMirror 0 := by
  obtain ⟨-, hcounted⟩ := @people_agree plainJc (readTexts · "members") (acmeWorld adminRules).repository 0
    plainJc_grantsListed plainJc_subjectsRead "bootstrap"
  refine hcounted (personOf "ana") (by decide) anaGrant (by decide +kernel) rfl rfl (by decide)
    (bindingValue "org-admin" "organization" "acme" "ana") _ (by decide +kernel) rfl ⟨some "ana", none⟩ ?_
    "ana" rfl
  exact List.mem_singleton_self _

def constrainedRules : List Value :=
  [.object [("kinds", textsValue ["RoleBinding"]), ("verbs", textsValue ["approve", "delete"]),
    ("constraints", .array [.object [("field", .string "spec.role"), ("oneOf", textsValue ["reader"])]])]]

/-- **An administrator who is not counted**: ana, whose rule is under a constraint. -/
theorem constrained_not_counted :
    (effective plainJc (acmeWorld constrainedRules).repository "bootstrap" (personOf "ana") orgNamespace
        0).administersOrganization plainJc = true ∧
      administratorPeople plainJc (readTexts · "members")
        (acmeWorld constrainedRules).repository.toMirror 0 = [] := by
  decide +kernel

end Access
end Portal
