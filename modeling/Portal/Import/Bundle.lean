import Portal.Changes.Approval
import Portal.Import.Rewrite

/-!
# A bundle and its gates (`api/import.rs`: `refusals`, `references`, `unresolved`, `own_spaces`,
`remap`, `space_of`, `reproject`; `mutate.rs`: `find_literal_secret`; `groups.rs`: `check`)

A bundle is a list of items, each a manifest or a native file under its path in the archive.  A
manifest the platform cannot store refuses the whole bundle; one it can is moved into the project
before anything is planned.

* `Incoming`, `ImportOptions`, `Served`   the upload, what it is imported with and what the import
                                          takes from jc-core, the realm and the repository;
* `refusals`, `unresolved`                the gates, with the source's texts;
* `landed`                                a manifest in the target project: its namespace, its ids
                                          and the spaces mapped onto the project's.
-/

namespace Portal

namespace Access

/-- the kinds a binding scoped to one space can reach -/
def livesInSpace (kind : String) : Bool :=
  ["ContextSpace", "Endpoint", "Policy", "Subscription", "ContextSourceRegistration", "DataModel",
    "Mapping", "ModelProjection", "DataOffer"].contains kind

/-- whether some grant opens a kind to a verb, whatever the manifest says -/
def Effective.may (x : JcAccess) (e : Effective) (kind : String) (verb : Verb) : Bool :=
  e.bootstrap || e.grants.any (fun g => x.grants g.rule kind verb
    && (g.space.isNone || livesInSpace kind) && (g.organization.isNone || verb ≠ .read))

def Effective.mayRead (x : JcAccess) (e : Effective) (kind : String) : Bool := e.may x kind .read

end Access

namespace Import

open Access Changes

/-! ## what is uploaded -/

/-- one manifest or native file on its way into the repository -/
structure Incoming where
  path : Option String
  envelope : Option Envelope
  content : String
deriving DecidableEq

/-- what to do with a resource the project already has -/
inductive ConflictPolicy where
  | fail
  | skip
  | replace
  | rename
deriving DecidableEq

/-- one space of the origin mapped onto a space of the target project -/
structure SpaceMapping where
  source : String
  target : String
deriving DecidableEq

structure ImportOptions where
  targetNamespace : Option String
  orgDomain : Option String
  conflictPolicy : ConflictPolicy
  spaceMapping : List SpaceMapping
deriving DecidableEq

/-- what an import takes from jc-core, the realm, the repository and its random source -/
structure Served where
  reads : Reads
  /-- the path template of a kind -/
  template : KindInfo → String
  /-- `jc_core::serves`, of a kind and an api version -/
  serves : String → String → Bool
  apiVersion : String
  /-- `validate_dns1123_label` -/
  validateLabel : String → Except String Unit
  builtAnnotations : List String
  importedFrom : String
  /-- `urn_segment`, of project, name and pin -/
  urnSegment : String → String → Option String → String
  /-- the slugs `generate_slug` answers, call by call -/
  generateSlug : Nat → String
  /-- the text of a JSON value -/
  jsonText : Value → String
  /-- the groups of the realm the platform does not manage -/
  hasGroup : String → Bool
  /-- the clients of the realm the platform did not make -/
  hasClient : String → Bool
  /-- the repository of a project that has its own -/
  repositoryOf : String → Option String
  /-- what a Pipeline reads or writes and its proposer cannot (`pipeline_rights::missing`) -/
  pipelineMissing : Effective → String → Value → List String
  /-- the kind's own parse and invariants (`registry::validate_yaml`) -/
  validate : Envelope → Option (Except String Unit)
  /-- a shipped App bundle this Portal does not hold (`unshipped_claim`) -/
  unshippedClaim : Envelope → Option String

def Served.isDns1123 (s : Served) (name : String) : Bool := (s.validateLabel name).isOk

/-- the index of an exported archive, which is read and never written -/
def bundleKind : String := "Bundle"

def kindInfo (x : JcAccess) (kind : String) : Option KindInfo :=
  (kinds x).find? (fun info => info.kind = kind)

/-! ## metadata -/

/-- a text among the labels or the annotations of a manifest -/
def metaText (metadata : List (String × Value)) (table key : String) : Option String :=
  valueAt (metadata.lookup table) [key] |>.bind Value.asStr

/-- a member set, in its place when it is there already -/
def insertMember (key : String) (v : Value) (fields : List (String × Value)) :
    List (String × Value) :=
  putMember key v (fields.filter (fun p => p.1 ≠ key))

theorem mem_putMember {key : String} {v : Value} {fields : List (String × Value)}
    {p : String × Value} (h : p ∈ putMember key v fields) : p = (key, v) ∨ p ∈ fields := by
  induction fields with
  | nil => exact .inl (List.mem_singleton.mp h)
  | cons q fields ih =>
    obtain ⟨k, w⟩ := q
    unfold putMember at h
    split at h
    · exact List.mem_cons.mp h
    · split at h
      · rcases List.mem_cons.mp h with h | h
        · exact .inl h
        · exact .inr (List.mem_cons_of_mem _ h)
      · rcases List.mem_cons.mp h with h | h
        · exact .inr (h ▸ List.mem_cons_self)
        · exact (ih h).imp_right (List.mem_cons_of_mem _)

theorem lookup_putMember (key : String) (v : Value) (fields : List (String × Value))
    (key' : String) :
    (putMember key v fields).lookup key' = if key' = key then some v else fields.lookup key' := by
  induction fields with
  | nil =>
    unfold putMember
    rw [List.lookup_cons]
    by_cases h : key' = key
    · simp [h]
    · rw [if_neg h, beq_false_of_ne h]
  | cons q fields ih =>
    obtain ⟨k, w⟩ := q
    unfold putMember
    by_cases h : key' = key
    · subst h
      rw [if_pos rfl]
      split
      · exact List.lookup_cons_self
      · split
        · exact List.lookup_cons_self
        · rename_i hne
          rw [List.lookup_cons, beq_false_of_ne (Ne.symm hne), ih, if_pos rfl]
    · rw [if_neg h]
      split
      · rw [List.lookup_cons, beq_false_of_ne h]
      · split
        · rename_i hk
          rw [List.lookup_cons, List.lookup_cons, beq_false_of_ne h, beq_false_of_ne (hk ▸ h)]
        · rw [List.lookup_cons, List.lookup_cons, ih, if_neg h]

theorem lookup_insertMember (key : String) (v : Value) (fields : List (String × Value))
    (key' : String) :
    (insertMember key v fields).lookup key' = if key' = key then some v else fields.lookup key' := by
  unfold insertMember
  rw [lookup_putMember]
  by_cases h : key' = key
  · rw [if_pos h, if_pos h]
  · rw [if_neg h, if_neg h]
    induction fields with
    | nil => rfl
    | cons q fields ih =>
      rw [List.filter_cons, List.lookup_cons]
      by_cases hq : q.1 = key
      · rw [if_neg (by simpa using hq), ih, beq_false_of_ne (hq ▸ h)]
      · rw [if_pos (by simpa using hq), List.lookup_cons, ih]

/-! ## the gates -/

def secretKeys : List String :=
  ["password", "token", "secret", "clientSecret", "apiKey", "client_secret", "api_key", "apiToken",
    "api_token", "access_token", "accessToken", "access_token_secret", "accessTokenSecret",
    "consumer_secret", "consumerSecret", "auth_secret", "authSecret", "account_key", "accountKey",
    "bot_token", "botToken", "private_key", "privateKey", "private_key_pass", "privateKeyPass",
    "passphrase", "user_jwt", "userJwt", "user_nkey_seed", "userNkeySeed"]

/-- a whole `${VAR}`, which names a secret and holds none -/
def isVariableReference (value : String) : Bool :=
  match (Text.after "$\x7b" value).bind (Text.before "\x7d") with
  | none => false
  | some name =>
    name.toList.head?.any (fun c => Text.isAsciiLetter c || c = '_')
      && name.toList.all (fun c => Text.isAsciiLetter c || Text.isDigit c || c = '_')

/-- a scalar that is a secret typed into a manifest -/
def holdsSecret : Value → Bool
  | .string text => !isVariableReference text
  | .number _ => true
  | .bool _ => true
  | _ => false

def holdsText (part whole : List Char) : Bool := whole.tails.any part.isPrefixOf

/-- the first request header that holds a credential as plain text -/
def credentialHeader (headers : Value) : Option String :=
  ((headers.asObject).getD []).findSome? (fun p =>
    let plain := (p.1.toList.filter (fun c => Text.isAsciiLetter c || Text.isDigit c)).map Char.toLower
    if p.2.asStr.any (fun text => !holdsText "$\x7b".toList text.toList)
        && ["auth", "token", "secret", "password", "key", "cookie"].any
          (fun word => holdsText word.toList plain) then some p.1
    else none)

mutual

/-- the first key under which a manifest holds a secret as a literal -/
def findLiteralSecret : Value → Option String
  | .object fields => findSecretIn fields
  | .array items => findSecretAmong items
  | _ => none

def findSecretAmong : List Value → Option String
  | [] => none
  | v :: items => findLiteralSecret v <|> findSecretAmong items

def findSecretIn : List (String × Value) → Option String
  | [] => none
  | (key, v) :: fields =>
    if secretKeys.contains key && holdsSecret v then some key
    else
      ((if key = "headers" then credentialHeader v else none).map ("headers." ++ ·)) <|>
        findLiteralSecret v <|> findSecretIn fields

end

section
variable (x : JcAccess) (s : Served)

/-- everything wrong with one manifest -/
def refusals (e : Envelope) : List String :=
  (if s.serves e.kind e.apiVersion then [] else
    [e.name ++ ": apiVersion '" ++ e.apiVersion ++ "' is not supported (expected '" ++ s.apiVersion
      ++ "')"])
  ++ (if (kindInfo x e.kind).isSome then [] else
    [e.name ++ ": kind '" ++ e.kind ++ "' is not a resource this platform serves"])
  ++ (match s.validateLabel e.name with
    | .ok () => []
    | .error problem => [e.name ++ ": " ++ problem])
  ++ (if e.status.isNone then [] else
    [e.name ++ ": status is computed by the platform and cannot be imported (MF-04)"])
  ++ (match findLiteralSecret e.spec with
    | none => []
    | some key => [e.name ++ ": literal secret in field '" ++ key
        ++ "'; use secretRef instead (MF-24)"])
  ++ (s.builtAnnotations.filter (fun key => (metaText e.metadata "annotations" key).isSome)).map
    (fun key => e.name ++ ": annotation '" ++ key ++ "' is written by this instance's build lane "
      ++ "and cannot be imported; the image is built here (AP-11, AP-13a)")

end

mutual

/-- every reference of a value, as kind and name -/
def references : Value → List (String × String)
  | .object fields => referencesIn fields
  | .array items => referencesAmong items
  | _ => []

def referencesAmong : List Value → List (String × String)
  | [] => []
  | v :: items => references v ++ referencesAmong items

def referencesIn : List (String × Value) → List (String × String)
  | [] => []
  | (key, v) :: fields =>
    (if isSecretRef key then []
      else match reference key v with
        | some found => [found]
        | none => references v) ++ referencesIn fields

end

section
variable (x : JcAccess) (m : Mirror) (project : String)

/-- where a reference to a kind may be found from inside the project -/
def referenceHomes (kind : String) : List String :=
  match kindInfo x kind with
  | none => [namespaceFor x kind project]
  | some info => homes info project

def unresolved (manifests : List Envelope) : List String :=
  OrdMap.keySet (manifests.flatMap (fun e => (references e.spec).filterMap (fun r =>
    if manifests.any (fun e' => e'.kind = r.1 && e'.name = r.2)
        || (referenceHomes x project r.1).any (fun home => (m.get home r.1 r.2).isSome) then none
    else some (e.name ++ ": " ++ r.1 ++ " '" ++ r.2 ++ "' is in neither the bundle nor project '"
      ++ project ++ "'" ++ if r.1 = "ContextSpace" then "; copy the space with it, map it onto a "
        ++ "space of this project (spaceMapping), or use the source's data through a "
        ++ "SharedSpaceReference" else ""))))

end

/-! ## into the project -/

/-- the space a manifest lives under, for the kinds whose path has one -/
def spaceOf (e : Envelope) : Option String :=
  metaText e.metadata "labels" "joinedcontext.com/space" <|> specSpace e.spec <|> e.ns

def ownSpaces (manifests : List Envelope) : List String :=
  manifests.flatMap (fun e =>
    (if e.kind = "ContextSpace" then [e.name] else []) ++ (spaceOf e).toList)

def mapMember (key : String) (f : Value → Value) : Value → Value
  | .object fields => .object (fields.map (fun p => (p.1, if p.1 = key then f p.2 else p.2)))
  | v => v

/-- the Endpoint a SharedSpaceReference names, in the project the bundle lands in -/
def moveEndpointRef (source target : String) : Value → Value :=
  mapMember "endpointRef" (mapMember "project" (fun project =>
    if project.asStr = some source then .string target else project))

section
variable (x : JcAccess) (s : Served) (m : Mirror) (project domain : String)
  (spaces : List String) (mappings : List SpaceMapping)

def segment (project name : String) : String :=
  s.urnSegment project name ((m.get project "ContextSpace" name).bind (textAt · "urnSegment"))

/-- one manifest in the target namespace -/
def remap (source : String) (e : Envelope) : Envelope :=
  let spec := remapValue x source project domain spaces e.spec
  { e with
    ns := some (namespaceOf x e.kind e.ns project)
    spec := if e.kind = "SharedSpaceReference" then moveEndpointRef source project spec else spec }

def mapSpace (source : String) (spec : Value) (mapping : SpaceMapping) : Value :=
  let new := segment s m project mapping.target
  rewriteSpace mapping.source new (rewriteSpace (segment s m source mapping.source) new
    (rewriteReference "ContextSpace" mapping.source mapping.target spec))

/-- the namespace a manifest comes from -/
def originOf (e : Envelope) : String := e.ns.getD project

def landed (e : Envelope) : Envelope :=
  let e' := remap x project domain spaces (originOf project e) e
  { e' with spec := mappings.foldl (mapSpace s m project (originOf project e)) e'.spec }

end

/-- a native file's path in the project -/
def reproject (path project : String) : String :=
  match segments path with
  | "projects" :: _ :: rest => "projects/" ++ project ++ "/" ++ "/".intercalate rest
  | _ => "projects/" ++ project ++ "/" ++ path

/-! ## groups -/

section
variable (x : JcAccess) (s : Served) (c : Caller)

def forRequest (project : String) : Effective :=
  effective x c.repository c.bootstrapGroup c.identity project c.now

/-- the owner a group's annotation names, in words -/
def writtenOwner : Option String → String
  | none => "the organization"
  | some app =>
    match Text.splitOnce '/' app.toList with
    | some (project, name) =>
      "the App " ++ String.ofList name ++ " of project " ++ String.ofList project
    | none => "the App " ++ app

/-- who a group belongs to today, in words -/
def groupOwner (app : Option String) : String :=
  match app with
  | none => "the organization"
  | some app =>
    match Text.splitOnce '/' app.toList with
    | some (project, _) =>
      if (forRequest x c (String.ofList project)).mayRead x "App" then
        writtenOwner (some app)
      else "an App of another project"
    | none => "an App of another project"

/-- the project whose derived group has a name -/
def projectNamedBy (name : String) : Option String :=
  (Text.before "-readers" name <|> Text.before "-writers" name).filter (fun project =>
    (c.repository.get orgNamespace "Project" project).isSome)

/-- a Group whose name another owner holds is refused -/
def checkGroup (kind name : String) (metadata : List (String × Value)) : Except ApiError Unit :=
  if kind ≠ "Group" then .ok ()
  else
    let wanted := metaText metadata "annotations" appLabel
    match c.repository.get orgNamespace "Group" name with
    | none =>
      if s.hasGroup name then
        .error (.denied ("the group '" ++ name ++ "' for " ++ writtenOwner wanted ++ " already "
          ++ "exists in the realm and this platform does not manage it; it is never taken over "
          ++ "(AP-115). Choose another name, or ask a realm administrator to rename or remove that "
          ++ "group"))
      else
        match projectNamedBy c name with
        | some project => .error (.denied ("the group '" ++ name ++ "' is project " ++ project
            ++ "'s, filled from its role bindings, and admits to its Endpoints; a Group manifest "
            ++ "may not take the name (PF-87). Choose another name"))
        | none => .ok ()
    | some _ =>
      let current := metaText (c.repository.metadata (ResourceKey.of orgNamespace "Group" name))
        "annotations" appLabel
      if wanted.isNone || wanted = current then .ok ()
      else .error (.denied ("the group '" ++ name ++ "' belongs to " ++ groupOwner x c current
        ++ ", so it cannot become the group of " ++ writtenOwner wanted
        ++ " (AP-115); choose another name"))

end

end Import
end Portal
