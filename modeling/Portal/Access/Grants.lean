import Portal.Deployer.Sources
import Portal.Error

/-!
# Grants and their check (`permissions.rs`: `Effective`, `names`, `satisfied`)

A caller's permissions in one project are a list of grants, each one rule of a role with the binding
it came through.  A request names a kind, a verb and the manifest it is about; one grant that names
kind and verb and whose constraints the manifest satisfies allows it.

* `Identity`, `names`   who calls, and whether a binding's subject is them;
* `Rule`, `Constraint`, `Grant`;
* `Effective.check`     the check of one request, with the refusals in the source's words;
* `check_ok_iff`        a request is allowed by the bootstrap group or by one of the grants.

The kinds of jc-core, what a rule grants and when a constraint holds are its own (`JcAccess`).
-/

namespace Portal

namespace Text

/-- equal but for the case of ASCII letters -/
def eqIgnoreAsciiCase (a b : String) : Bool := a.toList.map Char.toLower = b.toList.map Char.toLower

end Text

namespace Access

/-! ## manifests -/

inductive Verb where
  | read
  | propose
  | approve
  | delete
deriving DecidableEq

def verbName : Verb → String
  | .read => "read"
  | .propose => "propose"
  | .approve => "approve"
  | .delete => "delete"

structure Constraint where
  field : String
  oneOf : List String
  notIn : List String
  equals : Option String
  pattern : Option String
deriving DecidableEq

structure Rule where
  kinds : List String
  verbs : List Verb
  constraints : List Constraint
deriving DecidableEq

structure RoleSpec where
  rules : List Rule
deriving DecidableEq

structure RoleScope where
  organization : Option String
  project : Option String
  contextSpace : Option String
deriving DecidableEq

structure Subject where
  user : Option String
  group : Option String
deriving DecidableEq

/-- a window of time, open where it names no bound -/
structure Validity where
  notBefore : Option Int
  notAfter : Option Int
deriving DecidableEq

structure RoleBindingSpec where
  role : String
  scope : RoleScope
  subjects : List Subject
  validity : Option Validity
deriving DecidableEq

structure AccountRole where
  role : String
  scope : RoleScope
  validity : Option Validity
  /-- the fields that the gateway reads -/
  body : Value
deriving DecidableEq

structure ServiceAccountSpec where
  roles : List AccountRole
deriving DecidableEq

/-- where the manifests of a kind live -/
inductive Scope where
  | organization
  | project
  | organizationOrProject
deriving DecidableEq

structure KindInfo where
  kind : String
  plural : String
  scope : Scope
deriving DecidableEq

/-- what the permissions take from jc-core -/
structure JcAccess where
  roleSpec : Value → Except String RoleSpec
  roleBindingSpec : Value → Except String RoleBindingSpec
  serviceAccountSpec : Value → Except String ServiceAccountSpec
  /-- `Rule::grants` -/
  grants : Rule → String → Verb → Bool
  /-- `Constraint::holds`, of the text of the field -/
  holds : Constraint → Option String → Bool
  /-- `Validity::contains` -/
  contains : Validity → Int → Bool
  keycloakClientId : String → String → String
  kinds : List KindInfo
  /-- the text of a JSON number -/
  numberText : Number → String
  /-- a text as a pattern that matches it alone -/
  escape : String → String

/-- what jc-core documents of `Rule::grants`: a verb listed on a kind listed, and `read` where
`propose` is -/
def JcAccess.GrantsListed (x : JcAccess) : Prop :=
  ∀ rule kind verb, x.grants rule kind verb = true ↔
    kind ∈ rule.kinds ∧ (verb ∈ rule.verbs ∨ verb = .read ∧ .propose ∈ rule.verbs)

/-! ## who calls -/

structure Identity where
  subject : String
  username : String
  email : Option String
  name : Option String
  roles : List String
  groups : List String
  /-- the client of a bearer token; a session is a person's and has none -/
  client : Option String
deriving DecidableEq

def inGroup (identity : Identity) (group : String) : Bool :=
  identity.groups.contains group || identity.roles.contains group

/-- a lower-case hyphenated UUID -/
def isPersonId (value : String) : Bool :=
  let groups := Text.split (· = '-') value.toList
  groups.length = 5 && (groups.zip [8, 4, 4, 4, 12]).all (fun p =>
    Text.utf8Len p.1 = p.2 && p.1.all (fun c => Text.isDigit c || ('a' ≤ c && c ≤ 'f')))

/-- whether a subject's `user` and `group` are the caller -/
def names (identity : Identity) (user group : Option String) : Bool :=
  match user with
  | some user =>
    if isPersonId user then identity.subject = user
    else identity.email.any (fun e => Text.eqIgnoreAsciiCase e user)
      || Text.eqIgnoreAsciiCase identity.username user || identity.subject = user
  | none => group.any (inGroup identity)

def isSubject (identity : Identity) (subject : Subject) : Bool :=
  names identity subject.user subject.group

/-! ## grants -/

/-- one rule in force, with the binding and role it came through -/
structure Grant where
  role : String
  binding : String
  scope : String
  /-- the context space the binding is scoped to -/
  space : Option String
  /-- the Organization whose own settings the grant is narrowed to -/
  organization : Option String
  rule : Rule
deriving DecidableEq

structure Effective where
  project : String
  bootstrap : Bool
  grants : List Grant

section
variable (x : JcAccess)

/-- the value at a dotted path of the manifest, as text -/
def fieldText (target : Option Value) (path : String) : Option String :=
  match valueAt target ((Text.split (· = '.') path.toList).map String.ofList) with
  | some (.string s) => some s
  | some (.number n) => some (x.numberText n)
  | some (.bool b) => some (if b then "true" else "false")
  | _ => none

def satisfied (c : Constraint) (target : Option Value) : Bool :=
  x.holds c (fieldText x target c.field)

end

/-- the build lane's rule, which names the field it writes -/
def writesStatusOnly (rule : Rule) : Bool := rule.constraints.any (fun c => c.field = "status.build")

def describe (c : Constraint) : String :=
  match c.equals with
  | some expected => "must equal " ++ expected
  | none =>
    match c.pattern with
    | some pattern => "must match " ++ pattern
    | none =>
      if !c.oneOf.isEmpty then "must be one of " ++ ", ".intercalate c.oneOf
      else "must not be one of " ++ ", ".intercalate c.notIn

/-- the space a manifest's spec names, bare or as a reference -/
def specSpace (spec : Value) : Option String := (spec.get? "contextSpaceRef").bind referenceName

def spaceRef (target : Value) : Option String := (target.get? "spec").bind specSpace

/-- an App with a destination beyond its endpoint -/
def declaresEgress (target : Option Value) : Bool :=
  match (valueAt target ["spec", "egress"]).bind Value.asArray with
  | some egress => !egress.isEmpty
  | none => false

/-- a member of an object put in its place -/
def putMember (key : String) (v : Value) : List (String × Value) → List (String × Value)
  | [] => [(key, v)]
  | (k, w) :: fields =>
    if key < k then (key, v) :: (k, w) :: fields
    else if k = key then (key, v) :: fields
    else (k, w) :: putMember key v fields

def setMember (key : String) (v : Value) (target : Value) : Value :=
  .object (putMember key v ((target.asObject).getD []))

def judgedAsPublic (target : Option Value) : Value :=
  let target := target.getD .null
  setMember "spec" (setMember "visibility" (.string "public") ((target.get? "spec").getD .null))
    target

/-- the manifest a request is judged by: an App that declares egress is approved as a public one -/
def judged (kind : String) (verb : Verb) (target : Option Value) : Option Value :=
  if kind = "App" && verb = .approve && declaresEgress target then some (judgedAsPublic target)
  else target

section
variable (x : JcAccess)

/-- whether a grant is about the request at all -/
def Grant.concerns (g : Grant) (kind : String) (verb : Verb) (target : Option Value) : Bool :=
  x.grants g.rule kind verb && !(verb = .propose && writesStatusOnly g.rule) &&
    match g.space with
    | none => true
    | some space => target.bind spaceRef = some space

/-- the walk over the grants: `ok` at the first that allows, else the first violation met -/
def checkGrants (kind : String) (verb : Verb) (target : Option Value) :
    List Grant → Option String → Except (Option String) Unit
  | [], violation => .error violation
  | g :: grants, violation =>
    if g.concerns x kind verb target then
      match g.rule.constraints.find? (fun c => !satisfied x c target) with
      | none => .ok ()
      | some c => checkGrants kind verb target grants (violation <|> some
          (c.field ++ " does not satisfy role " ++ g.role ++ " (" ++ describe c ++ ")"))
    else checkGrants kind verb target grants violation

/-- whether a grant allows `verb` on `kind` for the manifest, or why not -/
def Effective.check (e : Effective) (kind : String) (verb : Verb) (target : Option Value) :
    Except ApiError Unit :=
  if e.bootstrap then .ok ()
  else
    let egressDeclared := kind = "App" && verb = .approve && declaresEgress target
    let target := judged kind verb target
    match checkGrants x kind verb target e.grants none with
    | .ok () => .ok ()
    | .error violation =>
      if kind = "Endpoint" && verb = .approve &&
          (valueAt target ["spec", "audience"]).bind Value.asStr = some "public" then
        .error (.denied ("approving a public Endpoint needs publisher, the role whose approve is "
          ++ "constrained to a public audience; org-admin holds it too (EP-76, PF-71)"))
      else if egressDeclared then
        .error (.denied ("approving an App that declares spec.egress needs publisher, the role whose "
          ++ "approve is constrained to a public visibility; org-admin holds it too (AP-134, "
          ++ "PF-71)"))
      else if kind = "App" && verb = .approve &&
          (valueAt target ["spec", "visibility"]).bind Value.asStr = some "public" then
        .error (.denied ("approving a public App needs publisher, the role whose approve is "
          ++ "constrained to a public visibility; org-admin holds it too (AP-120, PF-71)"))
      else .error (.denied (violation.getD ("no role grants " ++ verbName verb ++ " on " ++ kind
        ++ " in project " ++ e.project ++ " (PF-50)")))

def Grant.allows (g : Grant) (kind : String) (verb : Verb) (target : Option Value) : Bool :=
  g.concerns x kind verb target && g.rule.constraints.all (fun c => satisfied x c target)

variable {x}

theorem checkGrants_ok_iff {kind : String} {verb : Verb} {target : Option Value}
    {grants : List Grant} {violation : Option String} :
    checkGrants x kind verb target grants violation = .ok () ↔
      ∃ g ∈ grants, g.allows x kind verb target = true := by
  induction grants generalizing violation with
  | nil => simp [checkGrants]
  | cons g grants ih =>
    unfold checkGrants
    rw [List.exists_mem_cons_iff]
    cases hc : g.concerns x kind verb target with
    | false =>
      rw [if_neg (by simp), ih]
      simp [Grant.allows, hc]
    | true =>
      rw [if_pos rfl]
      cases hf : g.rule.constraints.find? (fun c => !satisfied x c target) with
      | none =>
        have hall : g.allows x kind verb target = true := by
          rw [List.find?_eq_none] at hf
          simp only [Grant.allows, hc, Bool.true_and, List.all_eq_true]
          intro c hc'
          simpa using hf c hc'
        simp [hall]
      | some c =>
        have hc' : satisfied x c target = false := by simpa using List.find?_some hf
        have hnot : g.allows x kind verb target = false := by
          simp only [Grant.allows, hc, Bool.true_and]
          rw [List.all_eq_false]
          exact ⟨c, List.mem_of_find?_eq_some hf, by simp [hc']⟩
        simp only
        rw [ih]
        simp [hnot]

/-- **What is allowed**: anything to the bootstrap group, else what one of the grants allows. -/
theorem check_ok_iff {e : Effective} {kind : String} {verb : Verb} {target : Option Value} :
    e.check x kind verb target = .ok () ↔ e.bootstrap = true ∨
      ∃ g ∈ e.grants, g.allows x kind verb (judged kind verb target) = true := by
  unfold Effective.check
  cases hb : e.bootstrap with
  | true => simp
  | false =>
    simp only [Bool.false_eq_true, if_false, false_or]
    rw [← @checkGrants_ok_iff x kind verb (judged kind verb target) e.grants none]
    cases hc : checkGrants x kind verb (judged kind verb target) e.grants none with
    | ok u => simp
    | error v =>
      simp only [reduceCtorEq, iff_false]
      split_ifs <;> simp

theorem Grant.allows_iff (hx : x.GrantsListed) {g : Grant} {kind : String} {verb : Verb}
    {target : Option Value} :
    g.allows x kind verb target = true ↔
      kind ∈ g.rule.kinds ∧ (verb ∈ g.rule.verbs ∨ verb = .read ∧ .propose ∈ g.rule.verbs) ∧
      (verb = .propose → writesStatusOnly g.rule = false) ∧
      (∀ space, g.space = some space → target.bind spaceRef = some space) ∧
      ∀ c ∈ g.rule.constraints, satisfied x c target = true := by
  unfold Grant.allows Grant.concerns
  have hspace : (match g.space with
      | none => true
      | some space => decide (target.bind spaceRef = some space)) = true ↔
      ∀ space, g.space = some space → target.bind spaceRef = some space := by
    cases g.space with
    | none => simp
    | some space => simp
  rw [Bool.and_eq_true, Bool.and_eq_true, Bool.and_eq_true, hx, hspace, List.all_eq_true]
  have hstatus : (!(decide (verb = .propose) && writesStatusOnly g.rule)) = true ↔
      (verb = .propose → writesStatusOnly g.rule = false) := by
    by_cases hv : verb = .propose
    · simp [hv]
    · simp [hv]
  rw [hstatus]
  tauto

end

/-! ## a plain reading of the specs -/

def readTexts (v : Value) (key : String) : List String :=
  (((v.get? key).bind Value.asArray).getD []).filterMap Value.asStr

def readVerb (text : String) : Option Verb :=
  [Verb.read, .propose, .approve, .delete].find? (fun verb => verbName verb = text)

def readItems {α : Type} (read : Value → Option α) (v : Value) (key : String) : Option (List α) :=
  (((v.get? key).bind Value.asArray).getD []).mapM read

def readConstraint (v : Value) : Option Constraint := do
  return ⟨← textAt v "field", readTexts v "oneOf", readTexts v "notIn", textAt v "equals",
    textAt v "pattern"⟩

def readRule (v : Value) : Option Rule := do
  return ⟨readTexts v "kinds", ← (readTexts v "verbs").mapM readVerb,
    ← readItems readConstraint v "constraints"⟩

def readScope (v : Value) : RoleScope :=
  ⟨textAt v "organization", textAt v "project", textAt v "contextSpace"⟩

def readBinding (v : Value) : Option RoleBindingSpec := do
  return ⟨← textAt v "role", readScope (← v.get? "scope"),
    ← readItems (fun s => some ⟨textAt s "user", textAt s "group"⟩) v "subjects", none⟩

def readAccount (v : Value) : Option ServiceAccountSpec := do
  return ⟨← readItems (fun g => do
    return ⟨← textAt g "role", readScope (← g.get? "scope"), none, g⟩) v "roles"⟩

/-- a pattern `name-.+` -/
def matchesPrefix (pattern text : String) : Bool :=
  (pattern.toList.take (pattern.toList.length - 2)).isPrefixOf text.toList
    && pattern.toList.length - 2 < text.toList.length

/-- jc-core on specs without windows, numbers in constraints and patterns other than `name-.+` -/
def plainJc : JcAccess where
  roleSpec v := ((readItems readRule v "rules").map RoleSpec.mk).elim (.error "spec") .ok
  roleBindingSpec v := (readBinding v).elim (.error "spec") .ok
  serviceAccountSpec v := (readAccount v).elim (.error "spec") .ok
  grants rule kind verb := rule.kinds.contains kind
    && (rule.verbs.contains verb || verb = .read && rule.verbs.contains .propose)
  holds c text := (c.oneOf.isEmpty || text.any (fun t => c.oneOf.contains t))
    && !text.any (fun t => c.notIn.contains t) && c.equals.all (fun e => text = some e)
    && c.pattern.all (fun p => text.any (matchesPrefix p))
  contains v now := v.notBefore.all (· ≤ now) && v.notAfter.all (now ≤ ·)
  keycloakClientId ns name := ns ++ "-" ++ name
  kinds := [⟨"Organization", "organizations", .organization⟩, ⟨"Project", "projects", .organization⟩,
    ⟨"RoleBinding", "rolebindings", .organization⟩, ⟨"Group", "groups", .organization⟩,
    ⟨"Role", "roles", .organizationOrProject⟩, ⟨"Environment", "environments", .organization⟩,
    ⟨"Dashboard", "dashboards", .project⟩, ⟨"Pipeline", "pipelines", .project⟩,
    ⟨"ServiceAccount", "serviceaccounts", .project⟩, ⟨"DataModel", "datamodels", .project⟩]
  numberText _ := ""
  escape := id

theorem plainJc_grantsListed : plainJc.GrantsListed := by
  intro rule kind verb
  simp [plainJc]

end Access
end Portal
