import Portal.Access.Bindings

/-!
# Tenants (`permissions.rs`: `effective`, `organization_reaches`, `narrowed_to_own_settings`)

With several Organizations in one repository each has its own projects and people.  A caller whose
bindings are all of one Organization, which is not the installation's, stays inside it.

* `Owns`            whether a project is the Organization's;
* `BoundTo`         every binding of the caller applies to the Organization or one of its projects;
* `OwnSetting`      a request about the Organization's own settings;
* `tenant_isolated` nothing is allowed in a foreign project, in the organization's namespace the own
                    settings alone, and what stands in foreign projects changes no answer in an own
                    one.  A bearer token whose client id a foreign account derives too speaks for
                    nobody, so the last is said of callers without such a namesake.
-/

namespace Portal
namespace Access

section
variable (x : JcAccess) (m : Mirror) (o : String)

def Owns (project : String) : Prop := project ≠ orgNamespace ∧ organizationOf m project = some o

/-- whether a binding applies to the Organization or to one of its projects -/
def Within : Reach → Prop
  | .organization name => name = o
  | .project p => Owns m o p
  | .space _ => False

/-- all of the caller's bindings are of one Organization -/
structure BoundTo (identity : Identity) : Prop where
  bindings : ∀ name spec binding reach, m.get orgNamespace "RoleBinding" name = some spec →
    x.roleBindingSpec spec = .ok binding → binding.subjects.any (isSubject identity) = true →
    Reach.of binding.scope = some reach → Within m o reach
  account : ∀ name spec reach, accountOf x m identity = some (name, spec) →
    ∀ granted ∈ spec.roles, Reach.of granted.scope = some reach → Within m o reach

/-- the caller's client id is derived by no account outside the Organization -/
def NoNamesake (identity : Identity) : Prop :=
  ∀ ns name, ¬ Owns m o ns → (m.get ns "ServiceAccount" name).isSome = true →
    identity.client ≠ some (x.keycloakClientId ns name)

end

/-- a request about an Organization's own settings: itself, short of its deletion; a binding whose
scope names it, one of its projects or one of their spaces and beside these no other Organization
and no foreign project; a group of its own name that nobody else's access rests on -/
def OwnSetting (x : JcAccess) (r : Repository) (o kind : String) (verb : Verb)
    (target : Option Value) : Prop :=
  (kind = "Organization" ∧ verb ≠ .delete ∧ fieldText x target "metadata.name" = some o ∧
    fieldText x target "spec.installation" ≠ some "true") ∨
  (kind = "RoleBinding" ∧
    (fieldText x target "spec.scope.organization" = some o ∨
      (∃ p ∈ ownProjects r o, fieldText x target "spec.scope.project" = some p) ∨
      ∃ s ∈ ownSpaces r o, fieldText x target "spec.scope.contextSpace" = some s) ∧
    (∀ other ∈ otherOrganizations r o, fieldText x target "spec.scope.organization" ≠ some other) ∧
    ∀ p ∈ foreignProjects r o, fieldText x target "spec.scope.project" ≠ some p) ∨
  (kind = "Group" ∧
    satisfied x { oneOf "metadata.name" [] with pattern := some (x.escape o ++ "-.+") } target = true ∧
    ∀ group ∈ elsewhere x r o, fieldText x target "metadata.name" ≠ some group)

section
variable {x : JcAccess} {r : Repository} {bootstrapGroup : String} {identity : Identity}
  {o : String} {now : Int}

theorem within_of_mem_inForce (hbound : BoundTo x r.toMirror o identity) {h : Reach × Grant}
    (hh : h ∈ inForce x r.toMirror identity now) : Within r.toMirror o h.1 := by
  rcases mem_inForce.mp hh with ⟨name, spec, hget, hb⟩ | ha
  · obtain ⟨binding, reach, _, _, -, hparse, hsubject, -, hreach, -, _, -, rfl⟩ :=
      mem_bindingGrants.mp hb
    exact hbound.bindings name spec binding reach hget hparse hsubject hreach
  · obtain ⟨name, spec, granted, hmem, reach, _, _, haccount, -, hreach, -, _, -, rfl⟩ :=
      mem_accountGrants.mp ha
    exact hbound.account name spec reach haccount granted hmem hreach

theorem organizationReaches_iff {m : Mirror} (hseveral : 1 < (organizations m).length)
    (ho : installationOrganization m ≠ some o) {project : String} :
    organizationReaches m o project = true ↔
      project ≠ orgNamespace ∧ project ≠ "" ∧ organizationOf m project = some o := by
  unfold organizationReaches
  rw [if_neg (by omega)]
  by_cases hproject : project = orgNamespace ∨ project = ""
  · have hcond : (decide (project = orgNamespace) || decide (project = "")) = true := by
      simpa using hproject
    rw [if_pos hcond]
    simp only [decide_eq_true_eq, ho, false_iff, not_and]
    intro h1 h2
    exact absurd hproject (by simp [h1, h2])
  · rw [not_or] at hproject
    rw [if_neg (by simp [hproject.1, hproject.2])]
    simp [hproject.1, hproject.2]

theorem owns_of_gives (hseveral : 1 < (organizations r.toMirror).length)
    (ho : installationOrganization r.toMirror ≠ some o) {project kind : String} {verb : Verb}
    {target : Option Value} {h : Reach × Grant} (hwithin : Within r.toMirror o h.1)
    (hproject : project ≠ orgNamespace) (hg : gives x r project kind verb target h) :
    Owns r.toMirror o project := by
  obtain ⟨reach, grant⟩ := h
  obtain ⟨g, hg | hg, -⟩ := hg
  · cases reach with
    | organization name =>
      obtain rfl : name = o := hwithin
      simp only [reached, Option.ite_none_right_eq_some] at hg
      obtain ⟨h1, -, h2⟩ := (organizationReaches_iff hseveral ho).mp hg.1
      exact ⟨h1, h2⟩
    | project p =>
      simp only [reached, Option.ite_none_right_eq_some] at hg
      exact hg.1 ▸ hwithin
    | space s => exact hwithin.elim
  · cases reach with
    | organization name =>
      simp only [ownSettings] at hg
      rw [if_neg (by simp [hproject])] at hg
      exact absurd hg List.not_mem_nil
    | project p => exact absurd hg List.not_mem_nil
    | space s => exact hwithin.elim

/-- a way to be inside the Organization, read back from its constraints -/
theorem ownSetting_of_ways (hl : x.HoldsListed) {kind : String} {verb : Verb}
    {target : Option Value} (hown : kind ∈ ownSettingsKinds)
    (hdelete : kind = "Organization" → verb ≠ .delete)
    (hways : ∃ cs ∈ ways x r o kind, ∀ c ∈ cs, satisfied x c target = true) :
    OwnSetting x r o kind verb target := by
  obtain ⟨cs, hcs, hsat⟩ := hways
  simp only [ownSettingsKinds, List.mem_cons, List.not_mem_nil, or_false] at hown
  unfold ways confined at hcs
  rcases hown with rfl | rfl | rfl
  · refine .inl ⟨rfl, hdelete rfl, ?_, ?_⟩
    all_goals
      simp only [if_true, List.map_cons, List.map_nil, List.mem_singleton] at hcs
      subst hcs
    · have hname := hsat _ List.mem_cons_self
      rw [satisfied_oneOf hl (by simp)] at hname
      simpa using hname
    · have hnot := hsat _ (List.mem_cons_of_mem _ List.mem_cons_self)
      rw [satisfied_noneOf hl] at hnot
      exact hnot _ List.mem_cons_self
  · simp only [String.reduceEq, if_false, if_true, List.map_map] at hcs
    obtain ⟨level, hlevel, rfl⟩ := List.mem_map.mp hcs
    obtain ⟨hlevel, hne⟩ := List.mem_filter.mp hlevel
    have hfirst := hsat _ List.mem_cons_self
    have hothers := hsat _ (List.mem_cons_of_mem _ List.mem_cons_self)
    have hforeign := hsat _ (List.mem_cons_of_mem _ (List.mem_cons_of_mem _ List.mem_cons_self))
    rw [satisfied_oneOf hl (by simpa using hne)] at hfirst
    rw [satisfied_noneOf hl] at hothers hforeign
    refine .inr (.inl ⟨rfl, ?_, hothers, hforeign⟩)
    simp only [List.mem_cons, List.not_mem_nil, or_false] at hlevel
    rcases hlevel with rfl | rfl | rfl
    · exact .inl (by simpa using hfirst)
    · exact .inr (.inl hfirst)
    · exact .inr (.inr hfirst)
  · simp only [String.reduceEq, if_false, List.map_cons, List.map_nil, List.mem_singleton] at hcs
    subst hcs
    have hpattern := hsat _ List.mem_cons_self
    have helse := hsat _ (List.mem_cons_of_mem _ List.mem_cons_self)
    rw [satisfied_noneOf hl] at helse
    exact .inr (.inr ⟨rfl, hpattern, helse⟩)

theorem ownSetting_of_gives (hx : x.GrantsListed) (hl : x.HoldsListed)
    (hseveral : 1 < (organizations r.toMirror).length)
    (ho : installationOrganization r.toMirror ≠ some o) {kind : String} {verb : Verb}
    {target : Option Value} {h : Reach × Grant} (hwithin : Within r.toMirror o h.1)
    (hg : gives x r orgNamespace kind verb target h) : OwnSetting x r o kind verb target := by
  have hout : organizationReaches r.toMirror o orgNamespace = false := by
    by_contra hreach
    rw [Bool.not_eq_false, organizationReaches_iff hseveral ho] at hreach
    exact hreach.1 rfl
  obtain ⟨reach, grant⟩ := h
  cases reach with
  | organization name =>
    obtain rfl : name = o := hwithin
    obtain ⟨g, hg | hg, hall⟩ := hg
    · simp [reached, hout] at hg
    · simp only [ownSettings, hout, Bool.not_false, decide_true, Bool.and_self, if_true] at hg
      obtain ⟨-, hown, hdelete, -, hways⟩ := (allows_narrowed hx).mp ⟨g, hg, hall⟩
      exact ownSetting_of_ways hl hown hdelete hways
  | project p =>
    obtain ⟨g, hg | hg, -⟩ := hg
    · simp only [reached, Option.ite_none_right_eq_some] at hg
      exact absurd hg.1 hwithin.1
    · exact absurd hg List.not_mem_nil
  | space s => exact hwithin.elim

theorem judged_of_ownSetting {kind : String} {verb : Verb} {target : Option Value}
    (h : OwnSetting x r o kind verb (judged kind verb target)) : OwnSetting x r o kind verb target := by
  have hkind : kind ≠ "App" := by
    rcases h with ⟨rfl, -⟩ | ⟨rfl, -⟩ | ⟨rfl, -⟩ <;> decide
  have hsame : judged kind verb target = target := by simp [judged, hkind]
  rwa [hsame] at h

end

/-! ## what stands elsewhere changes nothing -/

/-- the manifests of the organization's namespace and of the Organization's projects -/
def Near (m : Mirror) (o : String) (ns _kind _name : String) : Prop :=
  ns = orgNamespace ∨ Owns m o ns

section
variable {x : JcAccess} {m m' : Mirror} {identity : Identity} {o : String} {now : Int}

theorem near_sameOwners (h : Agree (Near m o) m m') : SameOwners m m' :=
  h.sameOwners (fun _ => .inl rfl) (fun _ => .inl rfl)

theorem near_roleOf (h : Agree (Near m o) m m') {reach : Reach} (hwithin : Within m o reach)
    (name : String) : roleOf x m reach name = roleOf x m' reach name := by
  have horg : roles x m orgNamespace = roles x m' orgNamespace := h.roles x (fun _ => .inl rfl)
  unfold roleOf
  rw [horg]
  cases reach with
  | organization org => rfl
  | project p =>
    have hp : roles x m p = roles x m' p := h.roles x (fun _ => .inr hwithin)
    simp only [Option.bind_some, hp]
  | space s => exact hwithin.elim

theorem near_bindingGrants (h : Agree (Near m o) m m') (hbound : BoundTo x m o identity)
    {name : String} {spec : Value} (hget : m.get orgNamespace "RoleBinding" name = some spec) :
    bindingGrants x m identity now name spec = bindingGrants x m' identity now name spec := by
  unfold bindingGrants
  cases hparse : x.roleBindingSpec spec with
  | error e => rfl
  | ok binding =>
    cases hsubject : binding.subjects.any (isSubject identity) with
    | false => simp [hsubject]
    | true =>
      cases hreach : Reach.of binding.scope with
      | none => simp [hreach]
      | some reach =>
        simp only [hreach]
        rw [near_roleOf h (hbound.bindings name spec binding reach hget hparse hsubject hreach)]

theorem near_namespaces [DecidablePred (Owns m o)] (h : Agree (Near m o) m m') :
    m.namespaces.filter (fun ns => Owns m o ns) = m'.namespaces.filter (fun ns => Owns m o ns) := by
  have hsorted : ∀ n : Mirror, (n.namespaces.filter (fun ns => Owns m o ns)).Pairwise (· < ·) :=
    fun n => n.namespaces_sorted.sublist List.filter_sublist
  have hmem : ∀ ns, ns ∈ m.namespaces.filter (fun ns => Owns m o ns) ↔
      ns ∈ m'.namespaces.filter (fun ns => Owns m o ns) := by
    intro ns
    rw [List.mem_filter, List.mem_filter, Mirror.mem_namespaces, Mirror.mem_namespaces]
    refine and_congr_left (fun hown => ?_)
    have hown : Owns m o ns := by simpa using hown
    simp only [h ns _ _ (.inr hown)]
  have hperm := (List.perm_ext_iff_of_nodup ((hsorted m).imp ne_of_lt)
    ((hsorted m').imp ne_of_lt)).mpr hmem
  exact hperm.eq_of_pairwise (fun a b _ _ h1 h2 => (lt_asymm h1 h2).elim) (hsorted m) (hsorted m')

theorem accounts_eq [DecidablePred (Owns m o)] {n : Mirror} {client : String}
    (hnone : ∀ ns name, ¬ Owns m o ns → (n.get ns "ServiceAccount" name).isSome = true →
      client ≠ x.keycloakClientId ns name) (l : List String) :
    l.flatMap (fun ns => (n.list ns "ServiceAccount").toList.filter
        (fun p => x.keycloakClientId ns p.1 = client))
      = (l.filter (fun ns => Owns m o ns)).flatMap (fun ns =>
        (n.list ns "ServiceAccount").toList.filter
          (fun p => x.keycloakClientId ns p.1 = client)) := by
  induction l with
  | nil => rfl
  | cons ns l ih =>
    rw [List.flatMap_cons, ih]
    by_cases hown : Owns m o ns
    · rw [List.filter_cons_of_pos (by simpa using hown), List.flatMap_cons]
    · rw [List.filter_cons_of_neg (by simpa using hown)]
      have hempty : (n.list ns "ServiceAccount").toList.filter
          (fun p => x.keycloakClientId ns p.1 = client) = [] := by
        rw [List.filter_eq_nil_iff]
        intro p hp
        rw [OrdMap.mem_toList, Mirror.list_get?] at hp
        simpa using Ne.symm (hnone ns p.1 hown (by rw [hp]; rfl))
      rw [hempty, List.nil_append]

theorem near_accountOf (h : Agree (Near m o) m m') (hn : NoNamesake x m o identity)
    (hn' : NoNamesake x m' o identity) : accountOf x m identity = accountOf x m' identity := by
  classical
  unfold accountOf
  cases hclient : identity.client with
  | none => rfl
  | some client =>
    have howns : ∀ ns, Owns m' o ns ↔ Owns m o ns := by
      intro ns
      unfold Owns
      rw [(near_sameOwners h).owner]
    have hnone : ∀ ns name, ¬ Owns m o ns → (m.get ns "ServiceAccount" name).isSome = true →
        client ≠ x.keycloakClientId ns name :=
      fun ns name hown hsome he => hn ns name hown hsome (hclient.trans (congrArg some he))
    have hnone' : ∀ ns name, ¬ Owns m o ns → (m'.get ns "ServiceAccount" name).isSome = true →
        client ≠ x.keycloakClientId ns name :=
      fun ns name hown hsome he => hn' ns name (fun hc => hown ((howns ns).mp hc)) hsome
        (hclient.trans (congrArg some he))
    have hsame : m.namespaces.flatMap (fun ns => (m.list ns "ServiceAccount").toList.filter
        (fun p => x.keycloakClientId ns p.1 = client))
        = m'.namespaces.flatMap (fun ns => (m'.list ns "ServiceAccount").toList.filter
        (fun p => x.keycloakClientId ns p.1 = client)) := by
      rw [accounts_eq hnone, accounts_eq hnone', near_namespaces h]
      refine List.flatMap_congr (fun ns hns => ?_)
      have hown : Owns m o ns := by simpa using (List.mem_filter.mp hns).2
      rw [h.list (fun _ => .inr hown)]
    simp only
    rw [hsame]

theorem near_inForce (h : Agree (Near m o) m m') (hbound : BoundTo x m o identity)
    (hn : NoNamesake x m o identity) (hn' : NoNamesake x m' o identity) :
    inForce x m identity now = inForce x m' identity now := by
  have hlist : m.list orgNamespace "RoleBinding" = m'.list orgNamespace "RoleBinding" :=
    h.list (fun _ => .inl rfl)
  unfold inForce
  rw [← hlist]
  refine congr_arg₂ (· ++ ·) (List.flatMap_congr (fun p hp => ?_)) ?_
  · rw [OrdMap.mem_toList, Mirror.list_get?] at hp
    exact near_bindingGrants h hbound hp
  · unfold accountGrants
    rw [← near_accountOf h hn hn']
    cases haccount : accountOf x m identity with
    | none => rfl
    | some found =>
      obtain ⟨account, spec⟩ := found
      refine List.flatMap_congr (fun granted hgranted => ?_)
      cases hreach : Reach.of granted.scope with
      | none => rfl
      | some reach =>
        simp only
        rw [near_roleOf h (hbound.account account spec reach haccount granted
          (List.mem_filter.mp hgranted).1 hreach)]

end

section
variable {x : JcAccess} {r r' : Repository} {bootstrapGroup : String} {identity : Identity}
  {o : String} {now : Int}

/-- **The same permissions in an own project** over manifests that differ in foreign ones. -/
theorem near_effective (h : Agree (Near r.toMirror o) r.toMirror r'.toMirror)
    (hbound : BoundTo x r.toMirror o identity) (hn : NoNamesake x r.toMirror o identity)
    (hn' : NoNamesake x r'.toMirror o identity) {project : String}
    (hproject : project ≠ orgNamespace) :
    effective x r bootstrapGroup identity project now
      = effective x r' bootstrapGroup identity project now := by
  have howners := near_sameOwners h
  have hown : ∀ (s : Repository) reach grant, ownSettings x s project reach grant = [] := by
    intro s reach grant
    cases reach with
    | organization name => simp [ownSettings, hproject]
    | project p => rfl
    | space sp => rfl
  have hreached : ∀ held ∈ inForce x r.toMirror identity now,
      reached r project held.1 held.2 = reached r' project held.1 held.2 := by
    intro held hheld
    have hwithin := within_of_mem_inForce hbound hheld
    obtain ⟨reach, grant⟩ := held
    cases reach with
    | organization name => simp only [reached, howners.reaches]
    | project p => rfl
    | space sp => exact hwithin.elim
  unfold effective
  simp only [hown]
  rw [howners.kindsLeft, ← near_inForce h hbound hn hn', List.filterMap_congr hreached]

/-- **Tenants are isolated.** -/
theorem tenant_isolated (hx : x.GrantsListed) (hl : x.HoldsListed)
    (hseveral : 1 < (organizations r.toMirror).length)
    (ho : installationOrganization r.toMirror ≠ some o)
    (hb : inGroup identity bootstrapGroup = false) (hbound : BoundTo x r.toMirror o identity) :
    (∀ project kind verb target, project ≠ orgNamespace → ¬ Owns r.toMirror o project →
      (effective x r bootstrapGroup identity project now).check x kind verb target ≠ .ok ()) ∧
    (∀ project kind verb target, Owns r.toMirror o project →
      belongsToTheOrganization x kind (some project) = true →
      (effective x r bootstrapGroup identity project now).check x kind verb target ≠ .ok ()) ∧
    (∀ kind verb target,
      (effective x r bootstrapGroup identity orgNamespace now).check x kind verb target = .ok () →
      OwnSetting x r o kind verb target) ∧
    ∀ r' : Repository, Agree (Near r.toMirror o) r.toMirror r'.toMirror →
      NoNamesake x r.toMirror o identity → NoNamesake x r'.toMirror o identity →
      ∀ project kind verb target, Owns r.toMirror o project →
        (effective x r bootstrapGroup identity project now).check x kind verb target
          = (effective x r' bootstrapGroup identity project now).check x kind verb target := by
  refine ⟨?_, ?_, ?_, ?_⟩
  · intro project kind verb target hproject hforeign hok
    obtain ⟨-, h, hh, hg⟩ := (allowed_iff hx hb).mp hok
    exact hforeign (owns_of_gives hseveral ho (within_of_mem_inForce hbound hh) hproject hg)
  · intro project kind verb target hown hkind hok
    obtain ⟨hhere, -⟩ := (allowed_iff hx hb).mp hok
    have hlen : ¬ (organizations r.toMirror).length ≤ 1 := by omega
    have hother : ¬ some o = installationOrganization r.toMirror := fun hc => ho hc.symm
    simp [kindHere, hown.1, hown.2, hlen, hother, hkind] at hhere
  · intro kind verb target hok
    obtain ⟨-, h, hh, hg⟩ := (allowed_iff hx hb).mp hok
    exact judged_of_ownSetting
      (ownSetting_of_gives hx hl hseveral ho (within_of_mem_inForce hbound hh) hg)
  · intro r' h hn hn' project kind verb target hown
    rw [near_effective h hbound hn hn' hown.1]

end

/-! ## an editor of the harbour -/

/-- where a binding that names the caller applies -/
def scopeOfCaller (x : JcAccess) (identity : Identity) (spec : Value) : Option Reach :=
  match x.roleBindingSpec spec with
  | .error _ => none
  | .ok binding =>
    if binding.subjects.any (isSubject identity) then Reach.of binding.scope else none

theorem boundTo_of_list {x : JcAccess} {m : Mirror} {o : String} {identity : Identity}
    (hperson : identity.client = none)
    (h : ∀ p ∈ (m.list orgNamespace "RoleBinding").toList,
      ∀ reach, scopeOfCaller x identity p.2 = some reach → Within m o reach) :
    BoundTo x m o identity where
  bindings name spec binding reach hget hparse hsubject hreach := by
    rw [← Mirror.list_get?, ← OrdMap.mem_toList] at hget
    refine h _ hget reach ?_
    simp [scopeOfCaller, hparse, hsubject, hreach]
  account name spec reach haccount := by
    simp [accountOf, hperson] at haccount

/-- the harbour's editor sam, and the market, which is `north`'s -/
def harbour : Repository := repositoryOf [
  ("org", "Organization", "city", .object [("installation", .bool true)]),
  ("org", "Organization", "north", .object []), ("org", "Organization", "south", .object []),
  ("org", "Project", "harbour", .object [("organizationRef", .string "south")]),
  ("org", "Project", "market", .object [("organizationRef", .string "north")]),
  ("org", "Role", "editor", roleValue [ruleValue ["Dashboard"] ["propose"]]),
  ("org", "RoleBinding", "sam", bindingValue "editor" "project" "harbour" "sam"),
  ("harbour", "ServiceAccount", "a-b", .object [("roles", .array [.object [
    ("role", .string "editor"), ("scope", .object [("project", .string "harbour")])]])])]

example : (organizations harbour.toMirror).map Prod.fst = ["city", "north", "south"] := by decide +kernel

theorem harbour_bindings : (harbour.list orgNamespace "RoleBinding").toList
    = [("sam", bindingValue "editor" "project" "harbour" "sam")] := by decide +kernel

theorem harbour_owned : Owns harbour.toMirror "south" "harbour" := ⟨by decide, by decide +kernel⟩

theorem market_foreign : ¬ Owns harbour.toMirror "south" "market" := by
  rintro ⟨-, howner⟩
  exact absurd howner (by decide +kernel)

theorem harbour_sam_bound : BoundTo plainJc harbour.toMirror "south" (personOf "sam") := by
  refine boundTo_of_list rfl (fun p hp reach hreach => ?_)
  rw [harbour_bindings, List.mem_singleton] at hp
  subst hp
  have hscope : scopeOfCaller plainJc (personOf "sam")
      (bindingValue "editor" "project" "harbour" "sam") = some (.project "harbour") := by
    decide +kernel
  obtain rfl : Reach.project "harbour" = reach := Option.some.inj (hscope.symm.trans hreach)
  exact harbour_owned

theorem tenant_isolated_of_sam :
    (effective plainJc harbour "bootstrap" (personOf "sam") "market" 0).check plainJc
      "Dashboard" .read none ≠ .ok () ∧
    (effective plainJc harbour "bootstrap" (personOf "sam") "harbour" 0).check plainJc
      "RoleBinding" .read none ≠ .ok () := by
  obtain ⟨hforeign, hkinds, -, -⟩ := @tenant_isolated plainJc harbour "bootstrap"
    (personOf "sam") "south" 0 plainJc_grantsListed plainJc_holdsListed (by decide +kernel)
    (by decide +kernel) (by decide) harbour_sam_bound
  exact ⟨hforeign "market" "Dashboard" .read none (by decide) market_foreign,
    hkinds "harbour" "RoleBinding" .read none harbour_owned (by decide)⟩

def robot : Identity := ⟨"robot", "service-account-harbour-a-b", none, none, [], [],
  some "harbour-a-b"⟩

/-- the harbour, and an account of another project that derives the same client id -/
def harbourNamesake : Repository where
  toMirror := harbour.toMirror.write "harbour-a" "ServiceAccount" "b"
    (.object [("roles", .array [])])
  metadata := harbour.metadata

example : (harbourNamesake.get "harbour-a" "ServiceAccount" "b").isSome := by decide +kernel

/-- a caller of the bootstrap group, whom no binding names -/
def root : Identity := ⟨"root", "root", none, none, [], ["bootstrap"], none⟩

theorem harbour_root_bound : BoundTo plainJc harbour.toMirror "south" root := by
  refine boundTo_of_list rfl (fun p hp reach hreach => ?_)
  rw [harbour_bindings, List.mem_singleton] at hp
  subst hp
  have hscope : scopeOfCaller plainJc root (bindingValue "editor" "project" "harbour" "sam")
      = none := by decide +kernel
  exact absurd (hscope.symm.trans hreach) (by simp)

theorem harbour_robot_bound : BoundTo plainJc harbour.toMirror "south" robot where
  bindings name spec binding reach hget hparse hsubject hreach := by
    rw [← Mirror.list_get?, ← OrdMap.mem_toList, harbour_bindings, List.mem_singleton] at hget
    cases hget
    have hscope : scopeOfCaller plainJc robot (bindingValue "editor" "project" "harbour" "sam")
        = none := by decide +kernel
    simp [scopeOfCaller, hparse, hsubject, hreach] at hscope
  account name spec reach haccount granted hgranted hreach := by
    have hscopes : (accountOf plainJc harbour.toMirror robot).map
        (fun a => a.2.roles.map (fun g => Reach.of g.scope)) = some [some (.project "harbour")] := by
      decide +kernel
    rw [haccount, Option.map_some, Option.some.injEq] at hscopes
    have hmem := List.mem_map_of_mem (f := fun g : AccountRole => Reach.of g.scope) hgranted
    rw [hscopes, List.mem_singleton, hreach, Option.some.injEq] at hmem
    rw [hmem]
    exact harbour_owned

theorem harbour_agree : Agree (Near harbour.toMirror "south") harbour.toMirror
    harbourNamesake.toMirror := by
  intro ns kind name hnear
  show _ = (harbour.toMirror.write _ _ _ _).get ns kind name
  rw [Mirror.get_write, if_neg]
  rintro ⟨rfl, -, -⟩
  rcases hnear with h | ⟨-, h⟩
  · exact absurd h (by decide)
  · exact absurd h (by decide +kernel)

/-- **Not of every caller**: the bootstrap group is bound to nothing and may do everything
everywhere, and an account of a foreign project that derives the client id of one of the harbour's
takes that one's rights in the harbour away. -/
theorem tenant_not_isolated :
    1 < (organizations harbour.toMirror).length ∧
    installationOrganization harbour.toMirror ≠ some "south" ∧
    (BoundTo plainJc harbour.toMirror "south" root ∧ ¬ Owns harbour.toMirror "south" "market" ∧
      (effective plainJc harbour "bootstrap" root "market" 0).check plainJc "Dashboard" .delete none
        = .ok ()) ∧
    (BoundTo plainJc harbour.toMirror "south" robot ∧
      Agree (Near harbour.toMirror "south") harbour.toMirror harbourNamesake.toMirror ∧
      Owns harbour.toMirror "south" "harbour" ∧
      (effective plainJc harbour "bootstrap" robot "harbour" 0).check plainJc "Dashboard" .propose
        none = .ok () ∧
      (effective plainJc harbourNamesake "bootstrap" robot "harbour" 0).check plainJc "Dashboard"
        .propose none ≠ .ok ()) := by
  exact ⟨by decide +kernel, by decide +kernel,
    ⟨harbour_root_bound, market_foreign, by decide +kernel⟩, harbour_robot_bound, harbour_agree,
    harbour_owned, by decide +kernel, by decide +kernel⟩

end Access
end Portal
