import Portal.Access.Administrators

/-!
# Nobody grants above their own rights (`permissions.rs`: `within_own_rights`,
`replaces_only_own_settings`, `subjects_name_a_group`)

Every verb on every kind that a proposed role, binding or service account would grant must be one
the proposer holds where it would apply, under no constraint the new rule drops.

* `withinOwnRights`   the check of a proposed manifest;
* `no_escalation`     what a binding it accepts newly allows anybody, its proposer was allowed
                      before.  A binding replaced may have been what kept a group out of another
                      Organization's hands, so on the groups of the organization's namespace this is
                      said of new bindings alone (`group_released`).
-/

namespace Portal
namespace Access

section
variable (x : JcAccess) (r : Repository) (bootstrapGroup : String) (identity : Identity) (now : Int)

def textIn (manifest : Value) (path : List String) : Option String :=
  (valueAt (some manifest) path).bind Value.asStr

def subjectsNameAGroup (m : Mirror) (manifest : Value) : Except ApiError Unit :=
  let kind := (textAt manifest "kind").getD ""
  if kind ≠ "RoleBinding" && kind ≠ "ServiceAccount" then .ok ()
  else
    let named := (((valueAt (some manifest) ["spec", "subjects"]).bind Value.asArray).getD
      []).filterMap (fun s => textAt s "group")
    match named.find? (fun group => (m.get orgNamespace "Group" group).isNone) with
    | none => .ok ()
    | some group =>
      let declared := (m.list orgNamespace "Group").keys
      .error (.badRequest ("spec.subjects names the group '" ++ group ++ "', and no Group manifest "
        ++ "declares it; propose the group first, or a binding to it matches nobody (PF-62, PF-64). "
        ++ "Declared: " ++ if declared.isEmpty then "none" else ", ".intercalate declared))

/-- whether the caller's only rights on a kind of the organization's namespace are narrowed -/
def narrowedOnly (e : Effective) (kind : String) (verb : Verb) : Bool :=
  !e.bootstrap && e.grants.any (fun g => g.organization.isSome)
    && !e.grants.any (fun g => g.organization.isNone && x.grants g.rule kind verb)

def replacesOnlyOwnSettings (manifest : Value) (who : String) : Except ApiError Unit :=
  match textIn manifest ["kind"], textIn manifest ["metadata", "name"] with
  | some kind, some name =>
    if !ownSettingsKinds.contains kind || !(textIn manifest ["metadata", "namespace"]).all
        (fun ns => ns = orgNamespace || ns = "") then .ok ()
    else
      let verb := if who = "approver" then Verb.approve else Verb.propose
      let e := effective x r bootstrapGroup identity orgNamespace now
      if !narrowedOnly x e kind verb then .ok ()
      else if kind = "Group"
          && (valueAt (some manifest) ["metadata", "annotations", appLabel]).isSome then
        .error (.denied ("metadata.annotations: the Group " ++ name ++ " may not name an App; an "
          ++ "App's default group is the installation administrators' to make (ADR-N-058, AP-118)"))
      else
        match r.get orgNamespace kind name with
        | none => .ok ()
        | some spec =>
          match e.check x kind verb
            (some (r.manifest (ResourceKey.of orgNamespace kind name) spec)) with
          | .ok () => .ok ()
          | .error _ => .error (.denied (kind ++ " " ++ name ++ " as it stands belongs to another "
              ++ "Organization or to the installation; its administrators change it (ADR-N-058, "
              ++ "PF-123)"))
  | _, _ => .ok ()

/-- whether every grant of an account is one it held before, each matched once -/
def onlyDropsGrants (before : Value) (head : ServiceAccountSpec) : Bool :=
  match (before.get? "spec").bind (fun spec => (x.serviceAccountSpec spec).toOption) with
  | none => false
  | some spec => head.roles.isSubperm spec.roles

/-- whether one of the grants held gives a right a new rule would give at `target` -/
def holdsRight (m : Mirror) (held : List (Reach × Grant)) (target : Reach) (rule : Rule)
    (kind : String) (verb : Verb) : Bool :=
  held.any (fun h => h.1.covers m target && x.grants h.2.rule kind verb
    && h.2.rule.constraints.all (fun c => rule.constraints.contains c))

/-- the rights of new rules at their targets that are not held, each once -/
def missing (m : Mirror) (held : List (Reach × Grant)) (grants : List (List Rule × Reach)) :
    List String :=
  (grants.flatMap (fun g => g.1.flatMap (fun rule => rule.kinds.flatMap (fun kind =>
    rule.verbs.filterMap (fun verb =>
      if holdsRight x m held g.2 rule kind verb then none
      else some (verbName verb ++ " on " ++ kind)))))).eraseDups

def noScope : ApiError := .badRequest "spec.scope names no organization, project or context space"

/-- what a manifest would grant, and where; `none` for a kind that grants nothing -/
def wouldGrant (m : Mirror) (manifest : Value) (before : Option Value) :
    Except ApiError (Option (String × List (List Rule × Reach))) :=
  let spec := (manifest.get? "spec").getD .null
  let unreadable := fun e => ApiError.badRequest ("spec: " ++ e)
  match textAt manifest "kind" with
  | some "Role" =>
    match x.roleSpec spec with
    | .error e => .error (unreadable e)
    | .ok role =>
      let ns := (textIn manifest ["metadata", "namespace"]).getD orgNamespace
      let home := if ns = orgNamespace || ns = "" then
          Reach.organization ((installationOrganization m).getD "")
        else .project ns
      .ok (some ("role", [(role.rules, home)]))
  | some "RoleBinding" =>
    match x.roleBindingSpec spec with
    | .error e => .error (unreadable e)
    | .ok binding =>
      match Reach.of binding.scope with
      | none => .error noScope
      | some target =>
        match roleOf x m target binding.role with
        | none => .error (.denied ("no role " ++ binding.role ++ " is defined where this binding "
            ++ "applies; propose the role before a binding to it (PF-52, PF-69)"))
        | some (_, role) => .ok (some ("binding", [(role.rules, target)]))
  | some "ServiceAccount" =>
    match x.serviceAccountSpec spec with
    | .error e => .error (unreadable e)
    | .ok account =>
      let new := if before.any (fun b => onlyDropsGrants x b account) then [] else account.roles
      match new.find? (fun granted => (Reach.of granted.scope).isNone) with
      | some _ => .error noScope
      | none => .ok (some ("service account", new.filterMap (fun granted =>
          (Reach.of granted.scope).bind (fun target =>
            (roleOf x m target granted.role).map (fun role => (role.2.rules, target))))))
  | _ => .ok none

def withinOwnRights (manifest : Value) (before : Option Value) (who : String) :
    Except ApiError Unit := do
  subjectsNameAGroup r.toMirror manifest
  replacesOnlyOwnSettings x r bootstrapGroup identity now manifest who
  keepsAnAdministratorAfter x r.toMirror [.write manifest] now
  match ← wouldGrant x r.toMirror manifest before with
  | none => return ()
  | some (noun, grants) =>
    if inGroup identity bootstrapGroup then return ()
    else
      let missing := missing x r.toMirror (inForce x r.toMirror identity now) grants
      if missing.isEmpty then return ()
      else .error (.denied ("a " ++ noun ++ " may not grant more than its " ++ who
        ++ " holds: missing " ++ ", ".intercalate missing ++ " (PF-52)"))

/-! ## rights held -/

def Repository.bound (r : Repository) (manifest : Value) : Repository where
  toMirror := r.toMirror.put orgNamespace "RoleBinding"
    ((textIn manifest ["metadata", "name"]).getD "") (some ((manifest.get? "spec").getD .null))
  metadata := r.metadata

end

section
variable {x : JcAccess} {r : Repository} {bootstrapGroup : String} {identity : Identity} {now : Int}

theorem holdsRight_of_missing {m : Mirror} {held : List (Reach × Grant)}
    {grants : List (List Rule × Reach)} (h : missing x m held grants = [])
    {rules : List Rule} {target : Reach} (hg : (rules, target) ∈ grants) {rule : Rule}
    (hrule : rule ∈ rules) {kind : String} (hkind : kind ∈ rule.kinds) {verb : Verb}
    (hverb : verb ∈ rule.verbs) : holdsRight x m held target rule kind verb = true := by
  by_contra hnot
  refine List.not_mem_nil (a := verbName verb ++ " on " ++ kind) ?_
  rw [← h]
  unfold missing
  rw [List.mem_eraseDups]
  refine List.mem_flatMap.mpr ⟨_, hg, List.mem_flatMap.mpr ⟨rule, hrule, List.mem_flatMap.mpr
    ⟨kind, hkind, List.mem_filterMap.mpr ⟨verb, hverb, ?_⟩⟩⟩⟩
  rw [if_neg hnot]

/-- **What an accepted binding grants, its proposer holds.** -/
theorem holds_of_withinOwnRights (hb : inGroup identity bootstrapGroup = false) {manifest : Value}
    {before : Option Value} {who : String} (hkind : textAt manifest "kind" = some "RoleBinding")
    (hok : withinOwnRights x r bootstrapGroup identity now manifest before who = .ok ()) :
    ∃ binding target role roleSpec,
      x.roleBindingSpec ((manifest.get? "spec").getD .null) = .ok binding ∧
      Reach.of binding.scope = some target ∧
      roleOf x r.toMirror target binding.role = some (role, roleSpec) ∧
      ∀ rule ∈ roleSpec.rules, ∀ kind ∈ rule.kinds, ∀ verb ∈ rule.verbs,
        holdsRight x r.toMirror (inForce x r.toMirror identity now) target rule kind verb
          = true := by
  unfold withinOwnRights at hok
  cases h1 : subjectsNameAGroup r.toMirror manifest with
  | error e => rw [h1] at hok; exact absurd hok (by simp [bind, Except.bind])
  | ok u1 =>
  cases h2 : replacesOnlyOwnSettings x r bootstrapGroup identity now manifest who with
  | error e => rw [h1, h2] at hok; exact absurd hok (by simp [bind, Except.bind])
  | ok u2 =>
  cases h3 : keepsAnAdministratorAfter x r.toMirror [.write manifest] now with
  | error e => rw [h1, h2, h3] at hok; exact absurd hok (by simp [bind, Except.bind])
  | ok u3 =>
  rw [h1, h2, h3] at hok
  unfold wouldGrant at hok
  simp only [hkind] at hok
  cases hparse : x.roleBindingSpec ((manifest.get? "spec").getD .null) with
  | error e => simp [hparse, bind, Except.bind] at hok
  | ok binding =>
  cases htarget : Reach.of binding.scope with
  | none => simp [hparse, htarget, bind, Except.bind] at hok
  | some target =>
  cases hrole : roleOf x r.toMirror target binding.role with
  | none => simp [hparse, htarget, hrole, bind, Except.bind] at hok
  | some found =>
  obtain ⟨role, roleSpec⟩ := found
  refine ⟨binding, target, role, roleSpec, rfl, htarget, hrole, ?_⟩
  simp only [hparse, htarget, hrole, bind, Except.bind, hb, Bool.false_eq_true, if_false] at hok
  have hempty : missing x r.toMirror (inForce x r.toMirror identity now)
      [(roleSpec.rules, target)] = [] := by
    by_contra hne
    rw [if_neg (by simpa using hne)] at hok
    exact absurd hok (by simp)
  exact fun rule hrule kind hk verb hv =>
    holdsRight_of_missing hempty (List.mem_singleton_self _) hrule hk hv

theorem space_of_mem_inForce {h : Reach × Grant} (hh : h ∈ inForce x r.toMirror identity now) :
    h.2.space = none := by
  rcases mem_inForce.mp hh with ⟨name, spec, -, hb⟩ | ha
  · obtain ⟨_, _, _, _, -, -, -, -, -, -, _, -, rfl⟩ := mem_bindingGrants.mp hb
    rfl
  · obtain ⟨_, _, _, -, _, _, _, -, -, -, -, _, -, rfl⟩ := mem_accountGrants.mp ha
    rfl

theorem projectOfSpace_unique {m : Mirror} {space project other : String}
    (h : projectOfSpace m space = some project) (ho : (m.get other "ContextSpace" space).isSome) :
    other = project := by
  obtain ⟨spec, hspec⟩ := Option.isSome_iff_exists.mp ho
  have hmem : (ResourceKey.of other "ContextSpace" space, spec)
      ∈ matching m (fun key => key.kind = "ContextSpace" && key.name = space) := by
    unfold matching
    rw [OrdMap.mem_toList, OrdMap.get?_filterKeys, if_pos (by simp)]
    exact hspec
  have hns := List.mem_map_of_mem (f := fun e : ResourceKey × Value => e.1.ns) hmem
  unfold projectOfSpace at h
  split at h
  · rename_i p hp
    rw [hp, List.mem_singleton] at hns
    exact hns.trans (Option.some.inj h)
  · exact absurd h (by simp)

theorem grants_of_gives (hx : x.GrantsListed) {project kind : String} {verb : Verb}
    {target : Option Value} {h : Reach × Grant} (hg : gives x r project kind verb target h) :
    x.grants h.2.rule kind verb = true := by
  obtain ⟨reach, grant⟩ := h
  obtain ⟨g, hg | hg, hall⟩ := hg
  · have hrule : g.rule = grant.rule := by
      cases reach <;> simp only [reached, Option.ite_none_right_eq_some, Option.some.injEq] at hg <;>
        (obtain ⟨-, rfl⟩ := hg; rfl)
    obtain ⟨hk, hv, -⟩ := (Grant.allows_iff hx).mp hall
    rw [hrule] at hk hv
    exact (hx _ _ _).mpr ⟨hk, hv⟩
  · cases reach with
    | project p => exact absurd hg List.not_mem_nil
    | space s => exact absurd hg List.not_mem_nil
    | organization o =>
      simp only [ownSettings] at hg
      split_ifs at hg
      · obtain ⟨-, -, -, hall', -⟩ := (allows_narrowed hx).mp ⟨g, hg, hall⟩
        obtain ⟨hk, hv, -⟩ := (Grant.allows_iff hx).mp hall'
        exact (hx _ _ _).mpr ⟨hk, hv⟩
      · exact absurd hg List.not_mem_nil

/-- **A grant that covers another gives what the other gives**, where it names the request under no
constraint the other drops and is not the installation's. -/
theorem gives_of_covers (hx : x.GrantsListed) {project kind : String} {verb : Verb}
    {target : Option Value} {held wanted : Reach × Grant}
    (hcovers : held.1.covers r.toMirror wanted.1 = true)
    (hinst : ∀ o, held.1 = .organization o → installationOrganization r.toMirror ≠ some o)
    (hgrants : x.grants held.2.rule kind verb = true)
    (hconstraints : ∀ c ∈ held.2.rule.constraints, c ∈ wanted.2.rule.constraints)
    (hspace : held.2.space = none)
    (h : gives x r project kind verb target wanted) : gives x r project kind verb target held := by
  obtain ⟨reach, grant⟩ := held
  obtain ⟨reach', grant'⟩ := wanted
  obtain ⟨g, hg, hall⟩ := h
  have hlift : ∀ s s', (s = none ∨ s = s') →
      ({ grant' with space := s' } : Grant).allows x kind verb target = true →
      ({ grant with space := s } : Grant).allows x kind verb target = true :=
    fun s s' hs => allows_of_rule hx hgrants hconstraints hs
  cases reach' with
  | organization wanted =>
    cases reach with
    | organization held =>
      simp only [Reach.covers, Bool.or_eq_true, decide_eq_true_eq] at hcovers
      by_cases hsame : held = wanted
      · subst hsame
        rcases hg with hg | hg
        · simp only [reached, Option.ite_none_right_eq_some, Option.some.injEq] at hg
          obtain ⟨hreach, rfl⟩ := hg
          refine ⟨{ grant with space := none }, .inl ?_, hlift none none (.inl rfl) hall⟩
          simp [reached, hreach]
        · simp only [ownSettings] at hg
          split_ifs at hg with hcond
          · obtain ⟨horg, hown, hdelete, hall', hways⟩ := (allows_narrowed hx).mp ⟨g, hg, hall⟩
            obtain ⟨g', hg', hall''⟩ := (allows_narrowed hx).mpr ⟨horg, hown, hdelete,
              allows_of_rule hx hgrants hconstraints (.inl hspace) hall', hways⟩
            refine ⟨g', .inr ?_, hall''⟩
            simp only [ownSettings]
            rw [if_pos hcond]
            exact hg'
          · exact absurd hg List.not_mem_nil
      · -- another Organization is covered by one that reaches everywhere
        have hreach : organizationReaches r.toMirror held orgNamespace = true :=
          hcovers.resolve_left hsame
        have hone : (organizations r.toMirror).length ≤ 1 := by
          by_contra hlen
          unfold organizationReaches at hreach
          rw [if_neg hlen] at hreach
          simp only [decide_true, Bool.true_or, if_true, decide_eq_true_eq] at hreach
          exact hinst held rfl hreach
        have hall' : ∀ o p, organizationReaches r.toMirror o p = true := by
          intro o p
          unfold organizationReaches
          rw [if_pos hone]
        rcases hg with hg | hg
        · simp only [reached, hall', if_true, Option.some.injEq] at hg
          subst hg
          refine ⟨{ grant with space := none }, .inl ?_, hlift none none (.inl rfl) hall⟩
          simp [reached, hall']
        · simp [ownSettings, hall'] at hg
    | project held => exact absurd hcovers (by simp [Reach.covers])
    | space held => exact absurd hcovers (by simp [Reach.covers])
  | project wanted =>
    have hg : reached r project (.project wanted) grant' = some g := by
      rcases hg with hg | hg
      · exact hg
      · exact absurd hg List.not_mem_nil
    simp only [reached, Option.ite_none_right_eq_some, Option.some.injEq] at hg
    obtain ⟨rfl, rfl⟩ := hg
    refine ⟨{ grant with space := none }, .inl ?_, hlift none none (.inl rfl) hall⟩
    cases reach with
    | organization held =>
      have hreach : organizationReaches r.toMirror held wanted = true := hcovers
      simp [reached, hreach]
    | project held =>
      have hsame : held = wanted := by simpa [Reach.covers] using hcovers
      simp [reached, hsame]
    | space held => exact absurd hcovers (by simp [Reach.covers])
  | space wanted =>
    have hg : reached r project (.space wanted) grant' = some g := by
      rcases hg with hg | hg
      · exact hg
      · exact absurd hg List.not_mem_nil
    simp only [reached, Option.ite_none_right_eq_some, Option.some.injEq] at hg
    obtain ⟨hproject, rfl⟩ := hg
    cases reach with
    | organization held =>
      have hreach : organizationReaches r.toMirror held project = true := by
        simpa [Reach.covers, hproject] using hcovers
      refine ⟨{ grant with space := none }, .inl ?_, hlift none _ (.inl rfl) hall⟩
      simp [reached, hreach]
    | project held =>
      have hsame : held = project := projectOfSpace_unique hproject hcovers
      refine ⟨{ grant with space := none }, .inl ?_, hlift none _ (.inl rfl) hall⟩
      simp [reached, hsame]
    | space held =>
      have hsame : held = wanted := by simpa [Reach.covers] using hcovers
      refine ⟨{ grant with space := some held }, .inl ?_,
        hlift (some held) _ (.inr (congrArg some hsame)) hall⟩
      simp [reached, hsame, hproject]

/-! ## a binding beside the others -/

/-- everything but the bindings of the organization -/
def NotBinding (ns kind _name : String) : Prop := ¬ (ns = orgNamespace ∧ kind = "RoleBinding")

section
variable {manifest : Value}

theorem agree_bound (r : Repository) (manifest : Value) :
    Agree NotBinding r.toMirror (r.bound manifest).toMirror := by
  intro ns kind name hp
  show _ = (r.toMirror.put _ _ _ _).get ns kind name
  rw [Mirror.get_put, if_neg (fun h => hp ⟨h.1, h.2.1⟩)]

theorem notBinding_of_kind {ns kind name : String} (h : kind ≠ "RoleBinding") :
    NotBinding ns kind name := fun hc => h hc.2

theorem sameOwners_bound (r : Repository) (manifest : Value) :
    SameOwners r.toMirror (r.bound manifest).toMirror :=
  (agree_bound r manifest).sameOwners (fun _ => notBinding_of_kind (by decide))
    (fun _ => notBinding_of_kind (by decide))

theorem projectOfSpace_bound (space : String) :
    projectOfSpace (r.bound manifest).toMirror space = projectOfSpace r.toMirror space :=
  ((agree_bound r manifest).projectOfSpace (fun _ _ => notBinding_of_kind (by decide)) space).symm

theorem roleOf_bound (reach : Reach) (name : String) :
    roleOf x (r.bound manifest).toMirror reach name = roleOf x r.toMirror reach name := by
  have hroles : ∀ ns, roles x (r.bound manifest).toMirror ns = roles x r.toMirror ns :=
    fun ns => ((agree_bound r manifest).roles x (fun _ => notBinding_of_kind (by decide))).symm
  unfold roleOf
  simp only [hroles, projectOfSpace_bound]

theorem bindingGrants_bound (name : String) (spec : Value) :
    bindingGrants x (r.bound manifest).toMirror identity now name spec
      = bindingGrants x r.toMirror identity now name spec := by
  unfold bindingGrants
  simp only [roleOf_bound]

theorem accountGrants_bound :
    accountGrants x (r.bound manifest).toMirror identity now
      = accountGrants x r.toMirror identity now := by
  have hagree := agree_bound r manifest
  have hnamespaces := hagree.namespaces (fun ns kind name _ hns hc => hns hc.1)
  have haccounts : ∀ ns, r.list ns "ServiceAccount" = (r.bound manifest).list ns "ServiceAccount" :=
    fun ns => hagree.list (fun _ => notBinding_of_kind (by decide))
  have hof : accountOf x (r.bound manifest).toMirror identity = accountOf x r.toMirror identity := by
    unfold accountOf
    rw [← hnamespaces]
    simp only [haccounts]
  unfold accountGrants
  rw [hof]
  simp only [roleOf_bound]

theorem mem_inForce_bound {h : Reach × Grant}
    (hh : h ∈ inForce x (r.bound manifest).toMirror identity now) :
    h ∈ inForce x r.toMirror identity now ∨
      h ∈ bindingGrants x r.toMirror identity now ((textIn manifest ["metadata", "name"]).getD "")
        ((manifest.get? "spec").getD .null) := by
  rcases mem_inForce.mp hh with ⟨name, spec, hget, hb⟩ | ha
  · rw [bindingGrants_bound] at hb
    have hput : (r.toMirror.put _ _ _ _).get orgNamespace "RoleBinding" name = some spec := hget
    rw [Mirror.get_put] at hput
    split_ifs at hput with hname
    · obtain ⟨-, -, rfl⟩ := hname
      cases hput
      exact .inr hb
    · exact .inl (mem_inForce.mpr (.inl ⟨name, spec, hput, hb⟩))
  · rw [accountGrants_bound] at ha
    exact .inl (mem_inForce.mpr (.inr ha))

theorem covers_bound (held wanted : Reach) :
    held.covers (r.bound manifest).toMirror wanted = held.covers r.toMirror wanted := by
  have hreaches := fun o p => ((sameOwners_bound r manifest).reaches o p).symm
  have hspace : ∀ p s, (r.bound manifest).get p "ContextSpace" s = r.get p "ContextSpace" s :=
    fun p s => (agree_bound r manifest p _ s (notBinding_of_kind (by decide))).symm
  cases held <;> cases wanted <;>
    simp only [Reach.covers, hreaches, projectOfSpace_bound, hspace]

theorem elsewhere_subset
    (hnew : r.get orgNamespace "RoleBinding" ((textIn manifest ["metadata", "name"]).getD "") = none)
    {organization group : String} (h : group ∈ elsewhere x r organization) :
    group ∈ elsewhere x (r.bound manifest) organization := by
  have hreaches := fun o p => ((sameOwners_bound r manifest).reaches o p).symm
  have hagree := agree_bound r manifest
  unfold elsewhere at h ⊢
  simp only [List.mem_insertionSort, List.mem_dedup, List.mem_append] at h ⊢
  rcases h with ((h | h) | h) | h
  · refine .inl (.inl (.inl ?_))
    obtain ⟨b, hb, hgroup⟩ := List.mem_flatMap.mp h
    obtain ⟨hb, hout⟩ := List.mem_filter.mp hb
    obtain ⟨p, hp, hparse⟩ := List.mem_filterMap.mp hb
    refine List.mem_flatMap.mpr ⟨b, List.mem_filter.mpr ⟨List.mem_filterMap.mpr ⟨p, ?_, hparse⟩, ?_⟩,
      hgroup⟩
    · rw [OrdMap.mem_toList, Mirror.list_get?] at hp ⊢
      show (r.toMirror.put _ _ _ _).get _ _ _ = _
      rw [Mirror.get_put, if_neg]
      · exact hp
      · rintro ⟨-, -, hname⟩
        rw [hname] at hp
        exact absurd (hnew.symm.trans hp) (by simp)
    · simpa only [covers_bound] using hout
  · refine .inl (.inl (.inr ?_))
    simp only [hreaches]
    rwa [← hagree.matching]
    intro key hkey
    simp only [Bool.and_eq_true, decide_eq_true_eq] at hkey
    exact notBinding_of_kind (by rw [hkey.1]; decide)
  · refine .inl (.inr ?_)
    simp only [hreaches]
    rwa [← hagree.matching]
    intro key hkey
    simp only [Bool.and_eq_true, decide_eq_true_eq] at hkey
    exact notBinding_of_kind (by rw [hkey.1]; decide)
  · refine .inr ?_
    have hgroups : (r.bound manifest).list orgNamespace "Group" = r.list orgNamespace "Group" :=
      (hagree.list (fun _ => notBinding_of_kind (by decide))).symm
    rw [hgroups]
    exact h

/-- the bindings do not say which manifests but groups are inside an Organization -/
theorem ways_bound {organization kind : String}
    (hkind : kind = "Organization" ∨ kind = "RoleBinding") :
    ways x (r.bound manifest) organization kind = ways x r organization kind := by
  have hreaches := fun o p => ((sameOwners_bound r manifest).reaches o p).symm
  have hagree := agree_bound r manifest
  have hprojects : (r.bound manifest).list orgNamespace "Project" = r.list orgNamespace "Project" :=
    (hagree.list (fun _ => notBinding_of_kind (by decide))).symm
  have hown : ownProjects (r.bound manifest) organization = ownProjects r organization := by
    unfold ownProjects
    rw [hprojects]
    exact List.filter_congr (fun p _ => hreaches organization p)
  have hspaces : ownSpaces (r.bound manifest) organization = ownSpaces r organization := by
    unfold ownSpaces
    rw [hown]
    simp only [covers_bound]
    rw [← hagree.matching]
    intro key hkey
    simp only [Bool.and_eq_true, decide_eq_true_eq] at hkey
    exact notBinding_of_kind (by rw [hkey.1]; decide)
  have hothers : otherOrganizations (r.bound manifest) organization
      = otherOrganizations r organization := by
    unfold otherOrganizations
    rw [(sameOwners_bound r manifest).organizations]
  have hforeign : foreignProjects (r.bound manifest) organization
      = foreignProjects r organization := by
    unfold foreignProjects
    rw [hprojects, hown]
  unfold ways confined
  rcases hkind with rfl | rfl
  · rw [if_pos rfl, if_pos rfl]
  · simp only [hown, hspaces, hothers, hforeign, String.reduceEq, if_false, if_true]

/-- **What a grant gives once the binding is there it gave before**, but for a group that the
binding replaced kept elsewhere. -/
theorem gives_of_bound (hx : x.GrantsListed) (hl : x.HoldsListed) {project kind : String}
    {verb : Verb} {target : Option Value} {h : Reach × Grant}
    (hnew : ¬ (project = orgNamespace ∧ kind = "Group") ∨
      r.get orgNamespace "RoleBinding" ((textIn manifest ["metadata", "name"]).getD "") = none)
    (hg : gives x (r.bound manifest) project kind verb target h) :
    gives x r project kind verb target h := by
  have hreaches := fun o p => ((sameOwners_bound r manifest).reaches o p).symm
  obtain ⟨reach, grant⟩ := h
  obtain ⟨g, hg | hg, hall⟩ := hg
  · refine ⟨g, .inl ?_, hall⟩
    rw [← hg]
    cases reach <;> simp only [reached, hreaches, projectOfSpace_bound]
  · cases reach with
    | project p => exact absurd hg List.not_mem_nil
    | space s => exact absurd hg List.not_mem_nil
    | organization o =>
      simp only [ownSettings, hreaches] at hg
      split_ifs at hg with hcond
      · have hproject : project = orgNamespace := by
          simp only [Bool.and_eq_true, decide_eq_true_eq] at hcond
          exact hcond.2
        obtain ⟨horg, hown, hdelete, hall', cs, hcs, hsat⟩ := (allows_narrowed hx).mp ⟨g, hg, hall⟩
        have hways : ∃ cs ∈ ways x r o kind, ∀ c ∈ cs, satisfied x c target = true := by
          simp only [ownSettingsKinds, List.mem_cons, List.not_mem_nil, or_false] at hown
          rcases hown with rfl | rfl | rfl
          · rw [ways_bound (.inl rfl)] at hcs
            exact ⟨cs, hcs, hsat⟩
          · rw [ways_bound (.inr rfl)] at hcs
            exact ⟨cs, hcs, hsat⟩
          · have hnone := hnew.resolve_left (fun hn => hn ⟨hproject, rfl⟩)
            unfold ways confined at hcs ⊢
            simp only [String.reduceEq, if_false, List.map_cons, List.map_nil,
              List.mem_singleton] at hcs ⊢
            subst hcs
            refine ⟨_, rfl, ?_⟩
            intro c hc
            rcases List.mem_pair.mp hc with rfl | rfl
            · exact hsat _ List.mem_cons_self
            · have hout := hsat _ (List.mem_cons_of_mem _ List.mem_cons_self)
              rw [satisfied_noneOf hl] at hout ⊢
              exact fun t ht => hout t (elsewhere_subset hnone ht)
        have horg' : (r.get orgNamespace "Organization" o).isSome = true := by
          rw [← horg, agree_bound r manifest _ _ _ (notBinding_of_kind (by decide))]
        obtain ⟨g', hg', hall''⟩ := (allows_narrowed hx).mpr ⟨horg', hown, hdelete, hall', hways⟩
        refine ⟨g', .inr ?_, hall''⟩
        simp only [ownSettings]
        rw [if_pos hcond]
        exact hg'
      · exact absurd hg List.not_mem_nil

/-- **No escalation through bindings**: what an accepted binding newly allows anybody, its proposer
was allowed before.  Of the groups of the organization's namespace this is said where the binding
replaces none. -/
theorem no_escalation (hx : x.GrantsListed) (hl : x.HoldsListed)
    (hb : inGroup identity bootstrapGroup = false)
    (hinst : ∀ h ∈ inForce x r.toMirror identity now, ∀ o, h.1 = .organization o →
      installationOrganization r.toMirror ≠ some o)
    {before : Option Value} {who : String} (hkind : textAt manifest "kind" = some "RoleBinding")
    (hok : withinOwnRights x r bootstrapGroup identity now manifest before who = .ok ())
    {subject : Identity} {project kind : String} {verb : Verb} {target : Option Value}
    (hnew : ¬ (project = orgNamespace ∧ kind = "Group") ∨
      r.get orgNamespace "RoleBinding" ((textIn manifest ["metadata", "name"]).getD "") = none)
    (hrefused : (effective x r bootstrapGroup subject project now).check x kind verb target ≠ .ok ())
    (hallowed : (effective x (r.bound manifest) bootstrapGroup subject project now).check x kind verb
      target = .ok ()) :
    (effective x r bootstrapGroup identity project now).check x kind verb target = .ok () := by
  have hs : inGroup subject bootstrapGroup = false := by
    by_contra hin
    rw [Bool.not_eq_false] at hin
    exact hrefused (by simp [effective, hin, Effective.check])
  obtain ⟨hhere, h, hh, hgives⟩ := (allowed_iff hx hs).mp hallowed
  have hhere' : kindHere x r.toMirror project kind = true := by
    rw [← hhere]
    unfold kindHere
    rw [(sameOwners_bound r manifest).organizations, (sameOwners_bound r manifest).owner,
      (sameOwners_bound r manifest).installation]
  have hgives' : gives x r project kind verb (judged kind verb target) h :=
    gives_of_bound hx hl hnew hgives
  rcases mem_inForce_bound hh with hold | hgrant
  · exact absurd ((allowed_iff hx hs).mpr ⟨hhere', h, hold, hgives'⟩) hrefused
  -- what the new binding gives, somebody who proposed it holds where it applies
  obtain ⟨binding, reach, role, roleSpec, -, hparse, -, -, hreach, hrole, rule, hrule, rfl⟩ :=
    mem_bindingGrants.mp hgrant
  obtain ⟨binding', reach', role', roleSpec', hparse', hreach', hrole', hholds⟩ :=
    holds_of_withinOwnRights hb hkind hok
  obtain rfl : binding = binding' := Except.ok.inj (hparse.symm.trans hparse')
  obtain rfl : reach = reach' := Option.some.inj (hreach.symm.trans hreach')
  obtain ⟨rfl, rfl⟩ : role = role' ∧ roleSpec = roleSpec' := by
    simpa using hrole.symm.trans hrole'
  obtain ⟨verb', hverb', hstands⟩ : ∃ verb' ∈ rule.verbs, kind ∈ rule.kinds ∧
      (verb' = verb ∨ verb = .read ∧ verb' = .propose) := by
    obtain ⟨g, hg, hall⟩ := hgives'
    have hrule' : x.grants rule kind verb = true := grants_of_gives hx ⟨g, hg, hall⟩
    obtain ⟨hk, hv⟩ := (hx _ _ _).mp hrule'
    rcases hv with hv | ⟨rfl, hv⟩
    · exact ⟨verb, hv, hk, .inl rfl⟩
    · exact ⟨.propose, hv, hk, .inr ⟨rfl, rfl⟩⟩
  have hheld := hholds rule hrule kind hstands.1 verb' hverb'
  obtain ⟨held, hmem, hheld⟩ := List.any_eq_true.mp hheld
  simp only [Bool.and_eq_true, List.all_eq_true, List.contains_iff_mem] at hheld
  obtain ⟨⟨hcovers, hgrants⟩, hconstraints⟩ := hheld
  have hgrants' : x.grants held.2.rule kind verb = true := by
    rcases hstands.2 with rfl | ⟨rfl, rfl⟩
    · exact hgrants
    · obtain ⟨hk, hv⟩ := (hx _ _ _).mp hgrants
      exact (hx _ _ _).mpr ⟨hk, .inr ⟨rfl, hv.resolve_right (by simp)⟩⟩
  exact (allowed_iff hx hb).mpr ⟨hhere', held, hmem, gives_of_covers hx hcovers (hinst held hmem)
    hgrants' hconstraints (space_of_mem_inForce hmem) hgives'⟩

end

end

/-! ## two Organizations beside the installation's -/

def organizationAdminRules : List Value :=
  [ruleValue ["RoleBinding", "Group", "Dashboard"] ["propose", "approve"]]

/-- ana administers both `south` and `north`, and a binding of `north` names a group of `south` -/
def southNorth : Repository := repositoryOf [
  ("org", "Organization", "city", .object [("installation", .bool true)]),
  ("org", "Organization", "north", .object []), ("org", "Organization", "south", .object []),
  ("org", "Project", "harbour", .object [("organizationRef", .string "south")]),
  ("org", "Group", "south-team", .object []),
  ("org", "Role", "admin", roleValue organizationAdminRules),
  ("org", "Role", "editor", roleValue [ruleValue ["Dashboard"] ["propose"]]),
  ("org", "RoleBinding", "ana-north", bindingValue "admin" "organization" "north" "ana"),
  ("org", "RoleBinding", "ana-south", bindingValue "admin" "organization" "south" "ana"),
  ("org", "RoleBinding", "guests", .object [("role", .string "editor"),
    ("scope", .object [("organization", .string "north")]),
    ("subjects", .array [.object [("group", .string "south-team")]])])]

example : (organizations southNorth.toMirror).map Prod.fst = ["city", "north", "south"] := by decide +kernel

def bindingManifest (name : String) (spec : Value) : Value :=
  .object [("kind", .string "RoleBinding"), ("metadata", .object [("name", .string name)]),
    ("spec", spec)]

def samEdits : Value := bindingManifest "sam" (bindingValue "editor" "project" "harbour" "sam")

theorem ana_beside_installation : ∀ h ∈ inForce plainJc southNorth.toMirror (personOf "ana") 0,
    ∀ o, h.1 = .organization o → installationOrganization southNorth.toMirror ≠ some o := by
  have hinst : installationOrganization southNorth.toMirror = some "city" := by decide +kernel
  have hall : ∀ h ∈ inForce plainJc southNorth.toMirror (personOf "ana") 0,
      h.1 ≠ .organization "city" := by decide +kernel
  intro h hh o ho hc
  rw [hinst, Option.some.injEq] at hc
  exact hall h hh (ho.trans (congrArg Reach.organization hc.symm))

theorem no_escalation_of_sam :
    (effective plainJc southNorth "bootstrap" (personOf "ana") "harbour" 0).check plainJc "Dashboard"
      .propose none = .ok () := by
  have hok : withinOwnRights plainJc southNorth "bootstrap" (personOf "ana") 0 samEdits none
      "proposer" = .ok () := by decide +kernel
  have hrefused : (effective plainJc southNorth "bootstrap" (personOf "sam") "harbour" 0).check
      plainJc "Dashboard" .propose none ≠ .ok () := by decide +kernel
  have hallowed : (effective plainJc (southNorth.bound samEdits) "bootstrap" (personOf "sam")
      "harbour" 0).check plainJc "Dashboard" .propose none = .ok () := by decide +kernel
  exact @no_escalation plainJc southNorth "bootstrap" (personOf "ana") 0 samEdits
    plainJc_grantsListed plainJc_holdsListed (by decide) ana_beside_installation none "proposer"
    (by decide) hok (personOf "sam") "harbour" "Dashboard" .propose none (.inl (by decide)) hrefused
    hallowed

/-- the guests' binding becomes sam's, an administrator of `south` -/
def guestsBecomeSams : Value :=
  bindingManifest "guests" (bindingValue "admin" "organization" "south" "sam")

def southTeam : Option Value :=
  some (.object [("kind", .string "Group"), ("metadata", .object [("name", .string "south-team")])])

/-- **A group released**: the binding replaced was what kept the group out of the hands of the
Organization whose name it bears; sam may approve it now, and ana, who made him an administrator,
could not. -/
theorem group_released :
    inGroup (personOf "ana") "bootstrap" = false ∧
    (∀ h ∈ inForce plainJc southNorth.toMirror (personOf "ana") 0, ∀ o, h.1 = .organization o →
      installationOrganization southNorth.toMirror ≠ some o) ∧
    withinOwnRights plainJc southNorth "bootstrap" (personOf "ana") 0 guestsBecomeSams none "proposer"
      = .ok () ∧
    (effective plainJc southNorth "bootstrap" (personOf "sam") "org" 0).check plainJc "Group" .approve
      southTeam ≠ .ok () ∧
    (effective plainJc (southNorth.bound guestsBecomeSams) "bootstrap" (personOf "sam") "org" 0).check
      plainJc "Group" .approve southTeam = .ok () ∧
    (effective plainJc southNorth "bootstrap" (personOf "ana") "org" 0).check plainJc "Group" .approve
      southTeam ≠ .ok () := by
  refine ⟨by decide, ana_beside_installation, ?_, ?_, ?_, ?_⟩
  · decide +kernel
  · decide +kernel
  · decide +kernel
  · decide +kernel

end Access
end Portal
