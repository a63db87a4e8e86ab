import Portal.AccessRequests.Names
import Portal.Base.Blanks

/-!
# A request that adds nothing (`access_requests.rs`: `checked_types`, `already_granted`)

A pipeline's request names entity types and attributes of each.  It is refused where each of its types
is named by a Policy of its account that has no end and lists its operations: the test looks at nothing
else of the Policy.

* `checkedTypes`        the types of a request, trimmed and counted;
* `alreadyGranted`      the test;
* `gives`, `Held`       what a Policy permits, and what is held in a space by permissions in force;
* `already_granted_iff` **when the test is right for every request of an account**.
-/

namespace Portal

namespace AccessRequests

open Access Changes Import

/-! ## the types of a request -/

def maxTypes : ℕ := 20

def maxAttrs : ℕ := 50

/-- an NGSI-LD attribute name as a grant may hold it: a term, never a wildcard or an IRI -/
def isAttrName (name : String) : Bool :=
  match name.toList with
  | [] => false
  | c :: cs => Text.isAsciiLetter c && name.utf8ByteSize ≤ 64
      && cs.all (fun c => Text.isAsciiLetter c || Text.isDigit c || c = '_')

/-- the attributes asked for on a type, after those before them -/
def checkedAttrs (entityType : String) : List String → List String → Except String (List String)
  | [], attrs => .ok attrs
  | attr :: rest, attrs =>
    let attr := Text.trimmed attr
    if !isAttrName attr then
      .error ("'" ++ attr ++ "' is not an attribute name of " ++ entityType
        ++ ": a letter, then letters, digits or _")
    else if attrs.contains attr then
      .error ("the attribute " ++ attr ++ " of " ++ entityType ++ " is named twice")
    else checkedAttrs entityType rest (attrs ++ [attr])

section
variable (validType : String → Bool)

/-- the types asked for, after those before them; `validType` is jc-core's `validate_entity_type` -/
def checkedFrom : List TypeGrant → List TypeGrant → Except String (List TypeGrant)
  | [], out => .ok out
  | grant :: rest, out =>
    let entityType := Text.trimmed grant.entityType
    if !validType entityType then
      .error ("'" ++ entityType ++ "' is not an entity type name (PascalCase, PF-42)")
    else if out.any (fun g => g.entityType = entityType) then
      .error ("the type " ++ entityType ++ " is named twice")
    else if grant.attrs.isEmpty || grant.attrs.length > maxAttrs then
      .error ("name one to " ++ toString maxAttrs ++ " attributes of " ++ entityType
        ++ "; a request never asks for all of them")
    else
      match checkedAttrs entityType grant.attrs [] with
      | .error e => .error e
      | .ok attrs => checkedFrom rest (out ++ [⟨entityType, attrs⟩])

def checkedTypes (types : List TypeGrant) : Except String (List TypeGrant) :=
  if types.isEmpty || types.length > maxTypes then
    .error ("name one to " ++ toString maxTypes ++ " entity types; a request never asks for every type")
  else checkedFrom validType types []

end

/-! ## the test -/

/-- the items of an array, none when it is absent -/
def listAt (v : Value) (key : String) : List Value := ((v.get? key).bind Value.asArray).getD []

def isAbsent (v : Value) (key : String) : Bool := (v.get? key).all (· = .null)

def Operations.wanted (ops : Operations) : List String := (ops.policyOperations.asArray.getD []).filterMap Value.asStr

/-- whether a spec, or a rule, is assigned to a ServiceAccount -/
def assignedTo (account : String) (spec : Value) : Bool :=
  (spec.get? "assignee").any (fun a => textAt a "kind" = some "serviceAccount" && textAt a "id" = some account)

/-- a Policy's spec for the account, without an end, with every operation -/
def isOpenGrant (account : String) (ops : Operations) (spec : Value) : Bool :=
  assignedTo account spec && ((spec.get? "validity").all (isAbsent · "to"))
    && ops.wanted.all (readTexts spec "operations").contains

/-- whether an entry of its information names the type -/
def namesType (spec : Value) (entityType : String) : Bool :=
  (listAt spec "information").any (fun info =>
    (listAt info "entities").any (fun e => textAt e "type" = some entityType))

def alreadyGranted (policies : List (Of "Policy")) (account : String) (request : List TypeGrant)
    (ops : Operations) : Bool :=
  request.all (fun grant => policies.any (fun p =>
    isOpenGrant account ops p.val.spec && namesType p.val.spec grant.entityType))

/-! ## what a Policy permits -/

/-- whether an entry of the information reaches an attribute of every entity of a type: entities named
by id are not all of them, and a list of attribute names leaves the others out -/
def reaches (info : Value) (entityType attr : String) : Bool :=
  let names := readTexts info "propertyNames" ++ readTexts info "relationshipNames"
  (listAt info "entities").any (fun e =>
    textAt e "type" = some entityType && isAbsent e "id" && isAbsent e "idPattern")
    && (names.isEmpty || names.contains attr)

def rulesOf (spec : Value) : List Value :=
  match (spec.get? "rules").bind Value.asArray with
  | some rules => rules
  | none => [spec]

/-- the filters that narrow a rule to some entities -/
def filters : List String := ["q", "scopeQ", "geoQ", "temporalQ"]

/-- whether a rule permits an operation on an attribute of a type; without information, on all -/
def permits (rule : Value) (account entityType attr op : String) : Bool :=
  !(textAt rule "effect").any (Text.startsWith "prohibit") && assignedTo account rule
    && (readTexts rule "operations").contains op && filters.all (isAbsent rule)
    && ((listAt rule "information").isEmpty || (listAt rule "information").any (reaches · entityType attr))

/-- whether a Policy's spec gives it in a space -/
def gives (spec : Value) (account space entityType attr op : String) : Bool :=
  (spec.get? "contextSpaceRef").bind referenceName = some space
    && (rulesOf spec).any (permits · account entityType attr op)

section
variable (t : Rfc3339)

def startsAt (policy : Envelope) : Option Int := ((policy.spec.get? "validity").bind (textAt · "from")).bind t.parse

def Held (now : Int) (policies : List (Of "Policy")) (account space entityType attr op : String) : Prop :=
  ∃ p ∈ policies, (startsAt t p.val).all (· ≤ now) = true ∧ inForce t now p.val = true ∧
    gives p.val.spec account space entityType attr op = true

end

/-! ## what a checked request names -/

theorem checkedAttrs_ok {entityType : String} {asked attrs out : List String}
    (h : checkedAttrs entityType asked attrs = .ok out) (hattrs : ∀ a ∈ attrs, isAttrName a = true) :
    (∀ a ∈ out, isAttrName a = true) ∧ attrs.length + asked.length = out.length := by
  induction asked generalizing attrs with
  | nil =>
    cases h
    exact ⟨hattrs, rfl⟩
  | cons a asked ih =>
    unfold checkedAttrs at h
    simp only at h
    split at h
    · cases h
    rename_i hname
    split at h
    · cases h
    have hbefore : ∀ b ∈ attrs ++ [Text.trimmed a], isAttrName b = true := by
      intro b hb
      rcases List.mem_append.mp hb with hb | hb
      · exact hattrs b hb
      · rw [List.mem_singleton.mp hb]
        simpa using hname
    obtain ⟨hall, hlen⟩ := ih h hbefore
    refine ⟨hall, ?_⟩
    rw [← hlen, List.length_append, List.length_cons, List.length_singleton]
    omega

section
variable {validType : String → Bool}

/-- a type of a checked request: trimmed and valid, with attribute names -/
def NamedType (validType : String → Bool) (g : TypeGrant) : Prop :=
  validType g.entityType = true ∧ Text.trimmed g.entityType = g.entityType ∧ g.attrs ≠ [] ∧
    ∀ a ∈ g.attrs, isAttrName a = true

theorem checkedFrom_ok {asked out types : List TypeGrant}
    (h : checkedFrom validType asked out = .ok types) (hout : ∀ g ∈ out, NamedType validType g) :
    (∀ g ∈ types, NamedType validType g) ∧ out.length + asked.length = types.length := by
  induction asked generalizing out with
  | nil =>
    cases h
    exact ⟨hout, rfl⟩
  | cons g asked ih =>
    unfold checkedFrom at h
    simp only at h
    split at h
    · cases h
    rename_i hvalid
    split at h
    · cases h
    split at h
    · cases h
    rename_i hcount
    split at h
    · cases h
    rename_i attrs hattrs
    obtain ⟨hnames, hlen⟩ := checkedAttrs_ok hattrs (by simp)
    have hne : g.attrs ≠ [] := by
      intro hnil
      simp [hnil] at hcount
    have hnew : NamedType validType ⟨Text.trimmed g.entityType, attrs⟩ := by
      refine ⟨by simpa using hvalid, Text.trimmed_trimmed _, fun hnil => hne ?_, hnames⟩
      have hnil' : attrs = [] := hnil
      rw [hnil'] at hlen
      exact List.eq_nil_of_length_eq_zero (by simpa using hlen)
    have hbefore : ∀ b ∈ out ++ [⟨Text.trimmed g.entityType, attrs⟩], NamedType validType b := by
      intro b hb
      rcases List.mem_append.mp hb with hb | hb
      · exact hout b hb
      · rw [List.mem_singleton.mp hb]
        exact hnew
    obtain ⟨hall, hlen'⟩ := ih h hbefore
    refine ⟨hall, ?_⟩
    rw [← hlen', List.length_append, List.length_cons, List.length_singleton]
    omega

/-- **A checked request** names at least one type, and attributes of each. -/
theorem checkedTypes_ok {asked types : List TypeGrant} (h : checkedTypes validType asked = .ok types) :
    types ≠ [] ∧ ∀ g ∈ types, NamedType validType g := by
  unfold checkedTypes at h
  split at h
  · cases h
  rename_i hcount
  obtain ⟨hall, hlen⟩ := checkedFrom_ok h (by simp)
  refine ⟨fun hnil => ?_, hall⟩
  have hasked : asked = [] := by
    rw [hnil] at hlen
    exact List.eq_nil_of_length_eq_zero (by simpa using hlen)
  simp [hasked] at hcount

theorem isWhitespace_of_term {c : Char} (h : (Text.isAsciiLetter c || Text.isDigit c || c = '_') = true) :
    Text.isWhitespace c = false := by
  have hrange : 48 ≤ c.toNat ∧ c.toNat ≤ 122 := by
    simp only [Text.isAsciiLetter, Text.isDigit, Bool.or_eq_true, Bool.and_eq_true, decide_eq_true_eq, Char.le_def,
      UInt32.le_iff_toNat_le] at h
    rcases h with ((⟨hlo, hhi⟩ | ⟨hlo, hhi⟩) | ⟨hlo, hhi⟩) | rfl
    · exact ⟨le_trans (by decide) hlo, hhi⟩
    · exact ⟨le_trans (by decide) hlo, le_trans hhi (by decide)⟩
    · exact ⟨hlo, le_trans hhi (by decide)⟩
    · decide
  unfold Text.isWhitespace
  simp only [Bool.or_eq_false_iff, Bool.and_eq_false_iff, beq_eq_false_iff_ne, decide_eq_false_iff_not]
  omega

theorem isAttrName_trimmed {attr : String} (h : isAttrName attr = true) : Text.trimmed attr = attr := by
  have hchars : ∀ c ∈ attr.toList, (Text.isAsciiLetter c || Text.isDigit c || c = '_') = true := by
    unfold isAttrName at h
    cases hl : attr.toList with
    | nil => simp
    | cons c cs =>
      simp only [hl, Bool.and_eq_true, List.all_eq_true] at h
      obtain ⟨⟨hletter, -⟩, hrest⟩ := h
      intro d hd
      rcases List.mem_cons.mp hd with rfl | hd
      · simp [hletter]
      · exact hrest d hd
  exact Text.trimmed_of_all (fun c hc => isWhitespace_of_term (hchars c hc))

theorem checkedTypes_singleton {entityType attr : String} (hvalid : validType entityType = true)
    (htrim : Text.trimmed entityType = entityType) (hattr : isAttrName attr = true) :
    checkedTypes validType [⟨entityType, [attr]⟩] = .ok [⟨entityType, [attr]⟩] := by
  have hattrs : checkedAttrs entityType [attr] [] = .ok [attr] := by
    simp [checkedAttrs, isAttrName_trimmed hattr, hattr]
  simp [checkedTypes, checkedFrom, htrim, hvalid, hattrs, maxTypes, maxAttrs]

end

/-! ## the Policy of a request -/

section
variable {t : Rfc3339} {apiVersion : String} {r : AccessRequest}

theorem get?_grant {key : String} (hkey : key ≠ "validity") :
    (grant t apiVersion r).spec.get? key = ([
      ("contextSpaceRef", Value.object [("kind", .string "ContextSpace"), ("name", .string r.space)]),
      ("assigner", .string ownAssigner),
      ("assignee", .object [("kind", .string (if r.pipeline.isSome then "serviceAccount" else "user")),
        ("id", .string r.account)]),
      ("operations", r.operations.policyOperations),
      ("information", information r.types)]).lookup key := by
  have hne : (key == "validity") = false := by simpa using hkey
  unfold grant
  rw [Value.get?_object, List.lookup_append]
  cases r.until? with
  | none => simp
  | some until' => simp [List.lookup_cons, hne]

theorem assignedTo_grant (hp : r.pipeline.isSome = true) :
    assignedTo r.account (grant t apiVersion r).spec = true := by
  unfold assignedTo
  rw [get?_grant (by decide), hp]
  simp [List.lookup_cons, textAt, Value.get?, Value.asObject, Value.asStr]

theorem operations_grant : readTexts (grant t apiVersion r).spec "operations" = r.operations.wanted := by
  unfold readTexts Operations.wanted
  rw [get?_grant (by decide)]
  simp [List.lookup_cons]

/-- what a type of a request is in the information of its Policy -/
def entryOf (g : TypeGrant) : Value :=
  .object ([("entities", .array [.object [("type", .string g.entityType)]])]
    ++ if g.attrs.isEmpty then [] else [("propertyNames", .array (g.attrs.map Value.string))])

theorem information_grant : listAt (grant t apiVersion r).spec "information" = r.types.map entryOf := by
  unfold listAt
  rw [get?_grant (by decide)]
  rfl

theorem entities_entryOf (g : TypeGrant) :
    listAt (entryOf g) "entities" = [.object [("type", .string g.entityType)]] := by
  unfold listAt entryOf
  rw [Value.get?_object, List.lookup_append]
  rfl

theorem propertyNames_entryOf (g : TypeGrant) : readTexts (entryOf g) "propertyNames" = g.attrs := by
  have htexts : (g.attrs.map Value.string).filterMap Value.asStr = g.attrs := by
    rw [List.filterMap_map]
    exact List.filterMap_some
  unfold readTexts entryOf
  rw [Value.get?_object, List.lookup_append]
  cases hempty : g.attrs.isEmpty with
  | true =>
    rw [List.isEmpty_iff.mp hempty]
    rfl
  | false =>
    simp only [Bool.false_eq_true, if_false]
    exact htexts

theorem relationshipNames_entryOf (g : TypeGrant) : readTexts (entryOf g) "relationshipNames" = [] := by
  unfold readTexts entryOf
  rw [Value.get?_object, List.lookup_append]
  cases g.attrs.isEmpty <;> rfl

theorem reaches_entryOf {g : TypeGrant} {entityType attr : String} :
    reaches (entryOf g) entityType attr = true ↔
      g.entityType = entityType ∧ (g.attrs = [] ∨ attr ∈ g.attrs) := by
  unfold reaches
  rw [entities_entryOf, propertyNames_entryOf, relationshipNames_entryOf, List.append_nil]
  simp [textAt, isAbsent, Value.get?, Value.asObject, Value.asStr, List.lookup_cons]

theorem namesType_grant {entityType : String} :
    namesType (grant t apiVersion r).spec entityType = true ↔ ∃ g ∈ r.types, g.entityType = entityType := by
  unfold namesType
  rw [information_grant, List.any_map, List.any_eq_true]
  refine exists_congr (fun g => and_congr_right (fun _ => ?_))
  rw [Function.comp_apply, entities_entryOf]
  simp [textAt, Value.get?, Value.asObject, Value.asStr]

theorem rulesOf_grant : rulesOf (grant t apiVersion r).spec = [(grant t apiVersion r).spec] := by
  unfold rulesOf
  rw [get?_grant (by decide)]
  rfl

/-- **What the Policy of a request gives** its account in its space. -/
theorem gives_grant (hp : r.pipeline.isSome = true) (hne : r.types ≠ []) {entityType attr op : String} :
    gives (grant t apiVersion r).spec r.account r.space entityType attr op = true ↔
      op ∈ r.operations.wanted ∧
        ∃ g ∈ r.types, g.entityType = entityType ∧ (g.attrs = [] ∨ attr ∈ g.attrs) := by
  have hspace : ((grant t apiVersion r).spec.get? "contextSpaceRef").bind referenceName = some r.space := by
    rw [get?_grant (by decide)]
    rfl
  have heffect : textAt (grant t apiVersion r).spec "effect" = none := by
    unfold textAt
    rw [get?_grant (by decide)]
    rfl
  have hfilters : filters.all (isAbsent (grant t apiVersion r).spec) = true := by
    rw [List.all_eq_true]
    intro key hkey
    unfold isAbsent
    simp only [filters, List.mem_cons, List.not_mem_nil, or_false] at hkey
    rcases hkey with rfl | rfl | rfl | rfl <;> rw [get?_grant (by decide)] <;> rfl
  have hempty : (r.types.map entryOf).isEmpty = false := by simpa using hne
  unfold gives permits
  rw [rulesOf_grant, List.any_cons, List.any_nil, Bool.or_false, assignedTo_grant hp, operations_grant,
    information_grant, heffect, hfilters, hspace, hempty]
  simp [reaches_entryOf]

/-- **The Policy of a request without an end** is one the test finds. -/
theorem alreadyGranted_of_grant {policies : List (Of "Policy")} (hp : r.pipeline.isSome = true)
    (huntil : r.until? = none) (h : ∃ p ∈ policies, p.val.spec = (grant t apiVersion r).spec) :
    alreadyGranted policies r.account r.types r.operations = true := by
  obtain ⟨p, hmem, hspec⟩ := h
  have hvalidity : (grant t apiVersion r).spec.get? "validity" = none := by
    unfold grant
    rw [huntil]
    rfl
  unfold alreadyGranted
  rw [List.all_eq_true]
  intro g hg
  refine List.any_eq_true.mpr ⟨p, hmem, ?_⟩
  rw [hspec, Bool.and_eq_true]
  constructor
  · unfold isOpenGrant
    rw [assignedTo_grant hp, operations_grant, hvalidity]
    simp
  · exact namesType_grant.mpr ⟨g, hg, rfl⟩

end

/-! ## when the test is right -/

/-- every type that the account's Policies without an end and with the operations name is held whole in
the space: each attribute and each of the operations -/
def HeldWhole (t : Rfc3339) (validType : String → Bool) (now : Int) (policies : List (Of "Policy"))
    (account space : String) (ops : Operations) : Prop :=
  ∀ p ∈ policies, isOpenGrant account ops p.val.spec = true →
    ∀ entityType, namesType p.val.spec entityType = true → validType entityType = true →
      Text.trimmed entityType = entityType → ∀ attr, isAttrName attr = true → ∀ op ∈ ops.wanted,
        Held t now policies account space entityType attr op

section
variable {t : Rfc3339} {apiVersion : String} {validType : String → Bool} {now : Int}
  {policies : List (Of "Policy")}

/-- **When a request that is refused would add nothing**: the test is right for every request of a
pipeline for some operations in a space exactly when its account holds each type whole that its Policies
name; and with the request's own Policy without an end the test finds it. -/
theorem already_granted_iff (r : AccessRequest) (hp : r.pipeline.isSome = true) :
    (∀ asked types, checkedTypes validType asked = .ok types →
      (alreadyGranted policies r.account types r.operations = true →
        ∀ entityType attr op,
          gives (grant t apiVersion { r with types := types }).spec r.account r.space entityType attr op = true →
          Held t now policies r.account r.space entityType attr op) ∧
      ((∃ p ∈ policies,
          p.val.spec = (grant t apiVersion { r with types := types, until? := none }).spec) →
        alreadyGranted policies r.account types r.operations = true)) ↔
    HeldWhole t validType now policies r.account r.space r.operations := by
  constructor
  · intro h p hmem hopen entityType hnames hvalid htrim attr hattr op hop
    obtain ⟨hsound, -⟩ := h _ _ (checkedTypes_singleton hvalid htrim hattr)
    refine hsound ?_ entityType attr op ?_
    · unfold alreadyGranted
      rw [List.all_cons, List.all_nil, Bool.and_true]
      exact List.any_eq_true.mpr ⟨p, hmem, by rw [hopen, hnames]; rfl⟩
    · refine (gives_grant (r := { r with types := [⟨entityType, [attr]⟩] }) hp (by simp)).mpr ⟨hop, ?_⟩
      exact ⟨_, List.mem_singleton_self _, rfl, .inr (List.mem_singleton_self _)⟩
  · intro hwhole asked types hok
    obtain ⟨hne, hnamed⟩ := checkedTypes_ok hok
    refine ⟨fun hgranted entityType attr op hgives => ?_, fun hgrant => ?_⟩
    · obtain ⟨hop, g, hg, rfl, hattr⟩ := (gives_grant (r := { r with types := types }) hp hne).mp hgives
      obtain ⟨hvalid, htrim, hattrs, hall⟩ := hnamed g hg
      unfold alreadyGranted at hgranted
      obtain ⟨p, hmem, hfound⟩ := List.any_eq_true.mp (List.all_eq_true.mp hgranted g hg)
      rw [Bool.and_eq_true] at hfound
      exact hwhole p hmem hfound.1 _ hfound.2 hvalid htrim attr (hall attr (hattr.resolve_left hattrs)) op hop
    · exact alreadyGranted_of_grant (r := { r with types := types, until? := none }) hp rfl hgrant

end

/-! ## a narrow grant and a whole one -/

/-- what the pipeline of the air index asks for on the air quality of another project -/
def airAsks (attrs : List String) : AccessRequest :=
  { asks "air-quality" "city-kpis" "air-index" with types := [⟨"AirQualityObserved", attrs⟩] }

/-- its Policy, without an end; with no attributes, for the whole type -/
def airPolicy (attrs : List String) : Of "Policy" := ⟨grant noTime "v1" (airAsks attrs), rfl⟩

/-- a type that is held whole is held in each attribute -/
theorem already_granted_iff_of_whole : Held noTime 0 [airPolicy []] "city-kpis/pl-air-index" "air"
    "AirQualityObserved" "no2" "retrieveOps" := by
  have hwhole : HeldWhole noTime (fun _ => true) 0 [airPolicy []] (airAsks []).account (airAsks []).space
      (airAsks []).operations := by
    intro p hp _ entityType hnames _ _ attr _ op hop
    obtain rfl := List.mem_singleton.mp hp
    refine ⟨airPolicy [], List.mem_singleton_self _, rfl, rfl, ?_⟩
    obtain ⟨g, hg, htype⟩ := namesType_grant.mp hnames
    obtain rfl := List.mem_singleton.mp hg
    exact (gives_grant (r := airAsks []) rfl (by simp [airAsks])).mpr
      ⟨hop, _, List.mem_singleton_self _, htype, .inl rfl⟩
  obtain ⟨hsound, -⟩ := (@already_granted_iff noTime "v1" _ 0 [airPolicy []] (airAsks ["no2"]) rfl).mpr
    hwhole [⟨"AirQualityObserved", ["no2"]⟩] [⟨"AirQualityObserved", ["no2"]⟩] rfl
  exact hsound (by decide +kernel) _ _ _ (by decide +kernel)

/-- **An attribute that is not granted**: the account reads one attribute of the type, and its request for
another is refused as held already. -/
theorem granted_without_the_attribute :
    checkedTypes (fun _ => true) [⟨"AirQualityObserved", ["no2"]⟩] = .ok [⟨"AirQualityObserved", ["no2"]⟩] ∧
    alreadyGranted [airPolicy ["pm10"]] "city-kpis/pl-air-index" [⟨"AirQualityObserved", ["no2"]⟩] .read = true ∧
    gives (grant noTime "v1" (airAsks ["no2"])).spec "city-kpis/pl-air-index" "air" "AirQualityObserved"
      "no2" "retrieveOps" = true ∧
    ¬ Held noTime 0 [airPolicy ["pm10"]] "city-kpis/pl-air-index" "air" "AirQualityObserved" "no2"
      "retrieveOps" := by
  refine ⟨rfl, by decide +kernel, by decide +kernel, ?_⟩
  rintro ⟨p, hp, -, -, hgives⟩
  obtain rfl := List.mem_singleton.mp hp
  exact absurd hgives (by decide +kernel)

end AccessRequests
end Portal
