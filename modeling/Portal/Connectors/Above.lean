import Portal.Connectors.Ceiling
import Portal.Error
import Portal.Base.Text

/-!
# What a connector asks above the ceiling (`connectors.rs`: `validate`, `above`)

A request above the ceiling is refused, or kept until an administrator lets it through; what is above
it is told as one line per field.

* `Asked`, `validate`      a request, and its checks;
* `Tag`, `Above`, `above`  the lines, each with its field and its text;
* `line_inj`               what two equal lines have in common: the field's kind and its text, which
                           of a segment names no segment;
* `mem_above`              what stands in the lines.
-/

namespace Portal
namespace Connectors

/-! ## requests -/

structure Asked where
  segments : List String
  scope : List ScopeItem
  kinds : Option (List KindGrant)
  writes : Bool
  autonomous : Bool
  expiresAt : Int
  allowedClients : List String
deriving DecidableEq

/-- what the core library and the clock's library say of names, verbs and dates -/
structure Shapes where
  isDns1123 : String → Bool
  /-- a list of kinds and verbs out of shape: the field, the kind and why -/
  kindVerbs : List KindGrant → Option (String × String × String)
  /-- an instant to the second -/
  rfc3339 : Int → String

/-- a DNS-1123 label is of lower-case letters, digits and hyphens -/
def Shapes.Labels (y : Shapes) : Prop :=
  ∀ name, y.isDns1123 name = true → ':' ∉ name.toList ∧ ' ' ∉ name.toList

def maxScope : Nat := 50
def maxClients : Nat := 10
def maxExpiryDays : Nat := 365

def day : Int := 86400 * 1000000000

def isSegment (segment : String) : Bool :=
  segment = admin || segments.any (fun s => s.1 = segment)

def invalidField (field detail : String) : ApiError := .invalid detail [field]

def validateSegments (l : List String) : Except ApiError Unit :=
  if l.isEmpty then
    .error (invalidField "segments" "segments names at least one preset, e.g. data-read")
  else
    match l.zipIdx.find? (fun p => !isSegment p.1) with
    | none => .ok ()
    | some (segment, i) => .error (invalidField ("segments[" ++ toString i ++ "]")
        ("'" ++ segment ++ "' is no segment; one of data-read, context, pipeline, access, publish, "
          ++ "apps, operate, admin"))

section
variable (y : Shapes)

/-- a scope item out of shape: the field after the item, and why -/
def scopeItemError (writes : Bool) (item : ScopeItem) : Option (String × String) :=
  let named := [("space", item.space), ("endpoint", item.endpoint), ("pipeline", item.pipeline)]
  if !y.isDns1123 item.project then
    some (".project", "'" ++ item.project ++ "' is not a project name")
  else if 1 < (named.filter (fun p => p.2.isSome)).length then
    some ("", "a scope item names at most one of space, endpoint, pipeline")
  else
    match named.find? (fun p => p.2.any (fun v => v ≠ "*" && !y.isDns1123 v)) with
    | some (field, value) =>
      some ("." ++ field, "'" ++ value.getD "" ++ "' is neither a name nor *")
    | none =>
      if item.access = .write && !writes then some (".access", "a write item needs writes: true")
      else none

def validateScope (asked : Asked) : Except ApiError Unit :=
  if asked.scope.isEmpty || maxScope < asked.scope.length then
    .error (invalidField "scope" ("scope names 1 to 50 items, e.g. \x7b\"project\": \"doprava\", "
      ++ "\"access\": \"read\"\x7d"))
  else
    match asked.scope.zipIdx.findSome? (fun p =>
        (scopeItemError y asked.writes p.1).map (fun e => (e, p.2))) with
    | none => .ok ()
    | some ((field, why), i) => .error (invalidField ("scope[" ++ toString i ++ "]" ++ field) why)

/-- the kinds of the segments that plan changes -/
def proposingReach (carries : String → Bool) : List String × List String :=
  reachOf (fun segment => carries segment
    && segments.any (fun s => s.1 = segment && s.2.1.contains planTool))

def validateKinds (asked : Asked) : Except ApiError Unit :=
  match asked.kinds with
  | none => .ok ()
  | some kinds =>
    let ticked := fun segment => asked.segments.any (fun s => s = segment || s = admin)
    let reached := (reachOf ticked).2
    let proposed := (proposingReach ticked).2
    match y.kindVerbs kinds with
    | some (field, value, reason) =>
      .error (invalidField field ("kind " ++ value ++ ": " ++ reason))
    | none =>
      match kinds.zipIdx.findSome? (fun p =>
        if !reached.contains p.1.kind then
          some ("kinds[" ++ toString p.2 ++ "].kind", "the segments "
            ++ ", ".intercalate asked.segments ++ " do not reach " ++ p.1.kind ++ "; they reach "
            ++ ", ".intercalate reached)
        else if p.1.verbs.any (· ≠ .read) && !proposed.contains p.1.kind then
          some ("kinds[" ++ toString p.2 ++ "].verbs", "no ticked preset proposes changes of "
            ++ p.1.kind ++ "; tick one that does, such as context or pipeline, or keep it read")
        else none) with
      | none => .ok ()
      | some (field, why) => .error (invalidField field why)

/-- no policy lets a scope item tick `personalData` yet -/
def validatePersonal (scope : List ScopeItem) : Except ApiError Unit :=
  match scope.zipIdx.find? (fun p => p.1.personalData) with
  | none => .ok ()
  | some (_, i) => .error (.denied ("scope[" ++ toString i ++ "].personalData: your organization "
      ++ "keeps the attributes a model marks personalData out of AI connector answers; untick it, "
      ++ "or ask an organization admin for a DelegationPolicy that allows it (AG-150)"))

def isClientId (client : String) : Bool :=
  client ≠ "" && client.utf8ByteSize ≤ 512 && client.toList.all (fun c =>
    ('a' ≤ c && c ≤ 'z') || ('A' ≤ c && c ≤ 'Z') || Text.isDigit c || ['-', '.', '_', ':', '/'].contains c)

def validateClients (clients : List String) : Except ApiError Unit :=
  if maxClients < clients.length then .error (invalidField "allowedClients" "at most 10 clients")
  else
    match clients.zipIdx.find? (fun p => !isClientId p.1) with
    | none => .ok ()
    | some (_, i) => .error (invalidField ("allowedClients[" ++ toString i ++ "]")
        "a client is an OAuth client id: a realm client such as mcp-local or a CIMD https URL")

end

/-! ## the lines -/

inductive Tag where
  | segment
  | project
  | endpoint
  | verb (v : ConnectorVerb)
  | kinds
  | writes
  | expiry
  | client
  | clients
deriving DecidableEq

def Tag.words : Tag → String
  | .segment => " lets a connector carry only "
  | .project => " does not let a connector reach project "
  | .endpoint => " lets a connector reach only the Endpoints it lists in project "
  | .verb v => " does not let a connector " ++ v.word ++ " "
  | .kinds => " names the verbs a connector holds per kind: tick them"
  | .writes => " lets a connector read only"
  | .expiry => " lets a connector live at most "
  | .client => " does not allow the client "
  | .clients => " lets a connector answer only the clients it lists: name one"

def Tag.field (i : Nat) : Tag → String
  | .segment => "segments[" ++ toString i ++ "]"
  | .project => "scope[" ++ toString i ++ "].project"
  | .endpoint => "scope[" ++ toString i ++ "].endpoint"
  | .verb _ => "kinds[" ++ toString i ++ "].verbs"
  | .kinds => "kinds"
  | .writes => "writes"
  | .expiry => "expiresAt"
  | .client => "allowedClients[" ++ toString i ++ "]"
  | .clients => "allowedClients"

structure Above where
  tag : Tag
  index : Nat
  /-- what follows the words -/
  rest : String

def Above.why (named : String) (a : Above) : String := named ++ a.tag.words ++ a.rest

def Above.line (named : String) (a : Above) : String :=
  a.tag.field a.index ++ ": " ++ a.why named

/-- what a verb asks for: `propose` stands for three -/
def wanted : ConnectorVerb → List ConnectorVerb
  | .propose => [.create, .edit, .delete]
  | verb => [verb]

/-- what an item's Endpoint line ends with -/
def endpointRest (project : String) (endpoint : Option String) : String :=
  project ++ ": name one (asked " ++ endpoint.getD "every Endpoint" ++ ")"

section
variable (x : JcDelegation) (y : Shapes) (ceiling : Ceiling) (asked : Asked)

def aboveSegments : List Above :=
  asked.segments.zipIdx.filterMap (fun p =>
    if ceiling.allowsSegment x p.1 then none
    else some ⟨.segment, p.2, ", ".intercalate (ceiling.allowedSegments x)⟩)

def aboveScope : List Above :=
  asked.scope.zipIdx.filterMap (fun p =>
    if !ceiling.allowsProjectName p.1.project then some ⟨.project, p.2, p.1.project⟩
    else if !ceiling.allowsEndpoint p.1.project p.1.endpoint then
      some ⟨.endpoint, p.2, endpointRest p.1.project p.1.endpoint⟩
    else none)

/-- the first of the verbs wanted that no policy offers -/
def refusedVerb (kind : String) (verb : ConnectorVerb) : Option ConnectorVerb :=
  (wanted verb).find? (fun v => !ceiling.allowsVerb x none kind v)

def aboveKinds : List Above :=
  (asked.kinds.getD []).zipIdx.flatMap (fun p => p.1.verbs.filterMap (fun verb =>
    (refusedVerb x ceiling p.1.kind verb).map (fun v => ⟨.verb v, p.2, p.1.kind⟩)))

def aboveClients : List Above :=
  asked.allowedClients.zipIdx.filterMap (fun p =>
    if ceiling.allowsClient x p.1 then none else some ⟨.client, p.2, p.1⟩)

def lineIf (b : Bool) (a : Above) : List Above := if b then [a] else []

/-- what a request asks above the ceiling, field by field -/
def above (now : Int) : List Above :=
  aboveSegments x ceiling asked ++ aboveScope ceiling asked ++ aboveKinds x ceiling asked
    ++ lineIf (asked.kinds.isNone && ceiling.listsKinds) ⟨.kinds, 0, ""⟩
    ++ lineIf (asked.writes && !ceiling.writes) ⟨.writes, 0, ""⟩
    ++ lineIf (now + ceiling.maxDays x * day < asked.expiresAt) ⟨.expiry, 0,
      toString (ceiling.maxDays x) ++ " days; asked until " ++ y.rfc3339 asked.expiresAt⟩
    ++ aboveClients x ceiling asked
    ++ lineIf (asked.allowedClients.isEmpty && !ceiling.anyClient) ⟨.clients, 0, ""⟩

def aboveLines (now : Int) : List String := (above x y ceiling asked now).map (Above.line ceiling.named)

/-- the checks of a request: refused, or with the lines above the ceiling it waits for -/
def validate (name : String) (now : Int) : Except ApiError (List String) :=
  if !y.isDns1123 name || 63 < name.utf8ByteSize then
    .error (invalidField "name" ("name '" ++ name ++ "' must be a DNS-1123 label of at most 63 "
      ++ "characters, e.g. doprava-in-claude"))
  else do
    validateSegments asked.segments
    validateScope y asked
    validateKinds y asked
    validatePersonal asked.scope
    if asked.expiresAt ≤ now then
      .error (invalidField "expiresAt" "expiresAt must lie in the future")
    else if now + maxExpiryDays * day < asked.expiresAt then
      .error (invalidField "expiresAt" "a connector lives at most 365 days")
    else do
      validateClients asked.allowedClients
      match above x y ceiling asked now with
      | [] => .ok []
      | a :: _ =>
        if ceiling.queues then .ok (aboveLines x y ceiling asked now)
        else .error (.denied (a.tag.field a.index ++ ": " ++ a.why ceiling.named ++ " (AG-150)"))

end

/-! ## what two equal lines have in common -/

def allTags : List Tag :=
  [.segment, .project, .endpoint, .verb .read, .verb .create, .verb .edit, .verb .delete, .verb .run,
    .verb .propose, .kinds, .writes, .expiry, .client, .clients]

theorem mem_allTags (t : Tag) : t ∈ allTags := by
  cases t with
  | verb v => cases v <;> decide
  | _ => decide

theorem words_eq {s t : Tag} (h : s.words.toList <+: t.words.toList) : s = t := by
  have hall : ∀ s ∈ allTags, ∀ t ∈ allTags,
      s.words.toList.isPrefixOf t.words.toList = true → s = t := by decide +kernel
  exact hall s (mem_allTags s) t (mem_allTags t) (List.isPrefixOf_iff_prefix.mpr h)

theorem colon_not_mem_toString (n : Nat) : ':' ∉ (toString n).toList := by
  intro h
  have hdigits : (toString n).toList = Nat.toDigits 10 n := by
    show (Nat.repr n).toList = _
    unfold Nat.repr
    exact String.toList_ofList
  rw [hdigits] at h
  have hdigit := Nat.isDigit_of_mem_toDigits (by decide) (by decide) h
  exact absurd hdigit (by decide)

theorem colon_not_mem_indexed {l r : String} (hl : ':' ∉ l.toList) (hr : ':' ∉ r.toList) (i : Nat) :
    ':' ∉ (l ++ toString i ++ r).toList := by
  rw [String.toList_append, String.toList_append, List.mem_append, List.mem_append]
  rintro ((h | h) | h)
  · exact hl h
  · exact colon_not_mem_toString i h
  · exact hr h

theorem colon_not_mem_field (t : Tag) (i : Nat) : ':' ∉ (t.field i).toList := by
  cases t with
  | segment => exact colon_not_mem_indexed (l := "segments[") (r := "]") (by decide) (by decide) i
  | project =>
    exact colon_not_mem_indexed (l := "scope[") (r := "].project") (by decide) (by decide) i
  | endpoint =>
    exact colon_not_mem_indexed (l := "scope[") (r := "].endpoint") (by decide) (by decide) i
  | verb v => exact colon_not_mem_indexed (l := "kinds[") (r := "].verbs") (by decide) (by decide) i
  | client =>
    exact colon_not_mem_indexed (l := "allowedClients[") (r := "]") (by decide) (by decide) i
  | kinds => exact (by decide : ':' ∉ "kinds".toList)
  | writes => exact (by decide : ':' ∉ "writes".toList)
  | expiry => exact (by decide : ':' ∉ "expiresAt".toList)
  | clients => exact (by decide : ':' ∉ "allowedClients".toList)

/-- **two lines that are equal are about the same kind of field and end alike** -/
theorem line_inj {named : String} {a b : Above} (h : a.line named = b.line named) :
    a.tag = b.tag ∧ a.rest = b.rest := by
  have hlist := congrArg String.toList h
  simp only [Above.line, String.toList_append] at hlist
  -- the field has no colon, so the texts after it are equal
  have hsep : (": " : String).toList = ':' :: [' '] := rfl
  rw [hsep, List.append_assoc, List.append_assoc] at hlist
  have hcut := (Text.cut_first (colon_not_mem_field a.tag a.index)
    (colon_not_mem_field b.tag b.index) hlist).2
  have hwhy : (a.why named).toList = (b.why named).toList := (List.cons.inj hcut).2
  simp only [Above.why, String.toList_append, List.append_assoc] at hwhy
  have hwords := List.append_cancel_left hwhy
  -- of two words that begin one text one begins the other
  have htag : a.tag = b.tag := by
    have ha : a.tag.words.toList <+: a.tag.words.toList ++ a.rest.toList := List.prefix_append _ _
    have hb : b.tag.words.toList <+: a.tag.words.toList ++ a.rest.toList := by
      rw [hwords]
      exact List.prefix_append _ _
    rcases List.prefix_or_prefix_of_prefix ha hb with hab | hba
    · exact words_eq hab
    · exact (words_eq hba).symm
  rw [htag] at hwords
  exact ⟨htag, String.toList_inj.mp (List.append_cancel_left hwords)⟩

/-! ## what stands in the lines -/

section
variable {x : JcDelegation} {y : Shapes} {ceiling : Ceiling} {asked : Asked} {now : Int}

theorem mem_lineIf {b : Bool} {a a' : Above} : a ∈ lineIf b a' ↔ b = true ∧ a = a' := by
  cases b <;> simp [lineIf]

theorem exists_mem_zipIdx {α : Type} {l : List α} {a : α} : (∃ i, (a, i) ∈ l.zipIdx) ↔ a ∈ l := by
  constructor
  · rintro ⟨i, hi⟩
    have hmap : a ∈ l.zipIdx.map Prod.fst := List.mem_map.mpr ⟨(a, i), hi, rfl⟩
    rwa [List.zipIdx_map_fst] at hmap
  · intro ha
    rw [← List.zipIdx_map_fst 0 l] at ha
    obtain ⟨p, hp, rfl⟩ := List.mem_map.mp ha
    exact ⟨p.2, hp⟩

/-- a field above the ceiling, by what the line says of it -/
def Stands (x : JcDelegation) (y : Shapes) (ceiling : Ceiling) (asked : Asked) (now : Int)
    (rest : String) : Tag → Prop
  | .segment => rest = ", ".intercalate (ceiling.allowedSegments x) ∧
      ∃ segment ∈ asked.segments, ceiling.allowsSegment x segment = false
  | .project => ∃ item ∈ asked.scope, ceiling.allowsProjectName item.project = false ∧
      rest = item.project
  | .endpoint => ∃ item ∈ asked.scope, ceiling.allowsProjectName item.project = true ∧
      ceiling.allowsEndpoint item.project item.endpoint = false ∧
      rest = endpointRest item.project item.endpoint
  | .verb v => ∃ kinds, asked.kinds = some kinds ∧ ∃ entry ∈ kinds, ∃ verb ∈ entry.verbs,
      refusedVerb x ceiling entry.kind verb = some v ∧ rest = entry.kind
  | .kinds => rest = "" ∧ asked.kinds = none ∧ ceiling.listsKinds = true
  | .writes => rest = "" ∧ asked.writes = true ∧ ceiling.writes = false
  | .expiry => now + ceiling.maxDays x * day < asked.expiresAt ∧
      rest = toString (ceiling.maxDays x) ++ " days; asked until " ++ y.rfc3339 asked.expiresAt
  | .client => rest ∈ asked.allowedClients ∧ ceiling.allowsClient x rest = false
  | .clients => rest = "" ∧ asked.allowedClients = [] ∧ ceiling.anyClient = false

theorem mem_aboveSegments {a : Above} : a ∈ aboveSegments x ceiling asked ↔
    a.tag = .segment ∧ a.rest = ", ".intercalate (ceiling.allowedSegments x) ∧
      ∃ segment, (segment, a.index) ∈ asked.segments.zipIdx ∧
        ceiling.allowsSegment x segment = false := by
  unfold aboveSegments
  rw [List.mem_filterMap]
  constructor
  · rintro ⟨p, hp, hsome⟩
    split at hsome
    · cases hsome
    · rename_i hnot
      cases hsome
      exact ⟨rfl, rfl, p.1, hp, by simpa using hnot⟩
  · rintro ⟨htag, hrest, segment, hp, hnot⟩
    refine ⟨(segment, a.index), hp, ?_⟩
    rw [hnot, ← htag, ← hrest]
    rfl

theorem mem_aboveScope {a : Above} : a ∈ aboveScope ceiling asked ↔
    ∃ item, (item, a.index) ∈ asked.scope.zipIdx ∧
      ((ceiling.allowsProjectName item.project = false ∧ a.tag = .project ∧ a.rest = item.project) ∨
        (ceiling.allowsProjectName item.project = true ∧
          ceiling.allowsEndpoint item.project item.endpoint = false ∧ a.tag = .endpoint ∧
          a.rest = endpointRest item.project item.endpoint)) := by
  unfold aboveScope
  rw [List.mem_filterMap]
  constructor
  · rintro ⟨p, hp, hsome⟩
    split at hsome
    · rename_i hnot
      cases hsome
      exact ⟨p.1, hp, Or.inl ⟨by simpa using hnot, rfl, rfl⟩⟩
    · rename_i hproject
      split at hsome
      · rename_i hnot
        cases hsome
        exact ⟨p.1, hp, Or.inr ⟨by simpa using hproject, by simpa using hnot, rfl, rfl⟩⟩
      · cases hsome
  · rintro ⟨item, hp, ⟨hnot, htag, hrest⟩ | ⟨hproject, hnot, htag, hrest⟩⟩
    · refine ⟨(item, a.index), hp, ?_⟩
      simp only [hnot, Bool.not_false, if_true]
      rw [← htag, ← hrest]
    · refine ⟨(item, a.index), hp, ?_⟩
      simp only [hproject, hnot, Bool.not_true, Bool.false_eq_true, if_false, Bool.not_false,
        if_true]
      rw [← htag, ← hrest]

theorem mem_aboveKinds {a : Above} : a ∈ aboveKinds x ceiling asked ↔
    ∃ entry, (entry, a.index) ∈ (asked.kinds.getD []).zipIdx ∧ ∃ verb ∈ entry.verbs, ∃ v,
      refusedVerb x ceiling entry.kind verb = some v ∧ a.tag = .verb v ∧ a.rest = entry.kind := by
  unfold aboveKinds
  simp only [List.mem_flatMap, List.mem_filterMap, Option.map_eq_some_iff]
  constructor
  · rintro ⟨p, hp, verb, hverb, v, hv, rfl⟩
    exact ⟨p.1, hp, verb, hverb, v, hv, rfl, rfl⟩
  · rintro ⟨entry, hp, verb, hverb, v, hv, htag, hrest⟩
    exact ⟨(entry, a.index), hp, verb, hverb, v, hv, by rw [← htag, ← hrest]⟩

theorem mem_aboveClients {a : Above} : a ∈ aboveClients x ceiling asked ↔
    a.tag = .client ∧ (a.rest, a.index) ∈ asked.allowedClients.zipIdx ∧
      ceiling.allowsClient x a.rest = false := by
  unfold aboveClients
  rw [List.mem_filterMap]
  constructor
  · rintro ⟨p, hp, hsome⟩
    split at hsome
    · cases hsome
    · rename_i hnot
      cases hsome
      exact ⟨rfl, hp, by simpa using hnot⟩
  · rintro ⟨htag, hp, hnot⟩
    refine ⟨(a.rest, a.index), hp, ?_⟩
    rw [hnot, ← htag]
    rfl

theorem mem_above_iff {a : Above} : a ∈ above x y ceiling asked now ↔
    a ∈ aboveSegments x ceiling asked ∨ a ∈ aboveScope ceiling asked ∨ a ∈ aboveKinds x ceiling asked
    ∨ ((asked.kinds.isNone && ceiling.listsKinds) = true ∧ a = ⟨.kinds, 0, ""⟩)
    ∨ ((asked.writes && !ceiling.writes) = true ∧ a = ⟨.writes, 0, ""⟩)
    ∨ (decide (now + ceiling.maxDays x * day < asked.expiresAt) = true ∧ a = ⟨.expiry, 0,
      toString (ceiling.maxDays x) ++ " days; asked until " ++ y.rfc3339 asked.expiresAt⟩)
    ∨ a ∈ aboveClients x ceiling asked
    ∨ ((asked.allowedClients.isEmpty && !ceiling.anyClient) = true ∧ a = ⟨.clients, 0, ""⟩) := by
  unfold above
  simp only [List.mem_append, mem_lineIf, or_assoc]

theorem stands_of_mem {a : Above} (h : a ∈ above x y ceiling asked now) :
    Stands x y ceiling asked now a.rest a.tag := by
  rcases mem_above_iff.mp h with h | h | h | ⟨hb, rfl⟩ | ⟨hb, rfl⟩ | ⟨hb, rfl⟩ | h | ⟨hb, rfl⟩
  · obtain ⟨htag, hrest, segment, hs, hnot⟩ := mem_aboveSegments.mp h
    rw [htag]
    exact ⟨hrest, segment, exists_mem_zipIdx.mp ⟨_, hs⟩, hnot⟩
  · obtain ⟨item, hi, ⟨hnot, htag, hrest⟩ | ⟨hproject, hnot, htag, hrest⟩⟩ := mem_aboveScope.mp h
    · rw [htag]
      exact ⟨item, exists_mem_zipIdx.mp ⟨_, hi⟩, hnot, hrest⟩
    · rw [htag]
      exact ⟨item, exists_mem_zipIdx.mp ⟨_, hi⟩, hproject, hnot, hrest⟩
  · obtain ⟨entry, he, verb, hverb, v, hv, htag, hrest⟩ := mem_aboveKinds.mp h
    rw [htag]
    have hentry : entry ∈ asked.kinds.getD [] := exists_mem_zipIdx.mp ⟨_, he⟩
    cases hk : asked.kinds with
    | none => rw [hk] at hentry; cases hentry
    | some kinds =>
      rw [hk] at hentry
      exact ⟨kinds, hk, entry, hentry, verb, hverb, hv, hrest⟩
  · simpa [Stands] using hb
  · simpa [Stands] using hb
  · exact ⟨by simpa using hb, rfl⟩
  · obtain ⟨htag, hc, hnot⟩ := mem_aboveClients.mp h
    rw [htag]
    exact ⟨exists_mem_zipIdx.mp ⟨_, hc⟩, hnot⟩
  · simpa [Stands] using hb

/-- **what the lines say**: every field above the ceiling has its line -/
theorem mem_of_stands {tag : Tag} {rest : String} (h : Stands x y ceiling asked now rest tag) :
    ∃ i, (⟨tag, i, rest⟩ : Above) ∈ above x y ceiling asked now := by
  simp only [mem_above_iff]
  cases tag with
  | segment =>
    obtain ⟨hrest, segment, hs, hnot⟩ := h
    obtain ⟨i, hi⟩ := exists_mem_zipIdx.mpr hs
    exact ⟨i, Or.inl (mem_aboveSegments.mpr ⟨rfl, hrest, segment, hi, hnot⟩)⟩
  | project =>
    obtain ⟨item, hitem, hnot, hrest⟩ := h
    obtain ⟨i, hi⟩ := exists_mem_zipIdx.mpr hitem
    exact ⟨i, Or.inr (Or.inl (mem_aboveScope.mpr ⟨item, hi, Or.inl ⟨hnot, rfl, hrest⟩⟩))⟩
  | endpoint =>
    obtain ⟨item, hitem, hproject, hnot, hrest⟩ := h
    obtain ⟨i, hi⟩ := exists_mem_zipIdx.mpr hitem
    exact ⟨i, Or.inr (Or.inl (mem_aboveScope.mpr
      ⟨item, hi, Or.inr ⟨hproject, hnot, rfl, hrest⟩⟩))⟩
  | verb v =>
    obtain ⟨kinds, hk, entry, hentry, verb, hverb, hv, hrest⟩ := h
    have hentry' : entry ∈ asked.kinds.getD [] := by rw [hk]; exact hentry
    obtain ⟨i, hi⟩ := exists_mem_zipIdx.mpr hentry'
    exact ⟨i, Or.inr (Or.inr (Or.inl (mem_aboveKinds.mpr
      ⟨entry, hi, verb, hverb, v, hv, rfl, hrest⟩)))⟩
  | kinds =>
    obtain ⟨rfl, hnone, hlists⟩ := h
    exact ⟨0, by simp [hnone, hlists]⟩
  | writes =>
    obtain ⟨rfl, hw, hnot⟩ := h
    exact ⟨0, by simp [hw, hnot]⟩
  | expiry =>
    obtain ⟨hlate, rfl⟩ := h
    exact ⟨0, by simp [hlate]⟩
  | client =>
    obtain ⟨hc, hnot⟩ := h
    obtain ⟨i, hi⟩ := exists_mem_zipIdx.mpr hc
    refine ⟨i, ?_⟩
    have hmem : (⟨.client, i, rest⟩ : Above) ∈ aboveClients x ceiling asked :=
      mem_aboveClients.mpr ⟨rfl, hi, hnot⟩
    exact Or.inr (Or.inr (Or.inr (Or.inr (Or.inr (Or.inr (Or.inl hmem))))))
  | clients =>
    obtain ⟨rfl, hnone, hnot⟩ := h
    exact ⟨0, by simp [hnone, hnot]⟩

/-- **a field above the ceiling whose line another request has too stands in that one** -/
theorem stands_of_lines {tag : Tag} {rest : String} {other : Asked} {later : Int}
    (h : Stands x y ceiling asked now rest tag)
    (hsub : ∀ line ∈ aboveLines x y ceiling asked now, line ∈ aboveLines x y ceiling other later) :
    Stands x y ceiling other later rest tag := by
  obtain ⟨i, hi⟩ := mem_of_stands h
  have hline := hsub _ (List.mem_map.mpr ⟨_, hi, rfl⟩)
  obtain ⟨b, hb, heq⟩ := List.mem_map.mp hline
  obtain ⟨htag, hrest⟩ := line_inj heq
  have hstands := stands_of_mem hb
  rw [htag, hrest] at hstands
  exact hstands

/-! ## the checks -/

/-- a request that is kept has names for its projects and Endpoints, and its lines are the ones
above the ceiling -/
theorem validate_ok {name : String} {lines : List String}
    (h : validate x y ceiling asked name now = .ok lines) :
    lines = aboveLines x y ceiling asked now ∧ ∀ item ∈ asked.scope,
      y.isDns1123 item.project = true ∧
      ∀ e, item.endpoint = some e → e = "*" ∨ y.isDns1123 e = true := by
  unfold validate at h
  split at h
  · cases h
  cases h1 : validateSegments asked.segments with
  | error e => rw [h1] at h; cases h
  | ok u =>
  rw [h1] at h
  cases h2 : validateScope y asked with
  | error e => rw [h2] at h; cases h
  | ok u =>
  rw [h2] at h
  cases h3 : validateKinds y asked with
  | error e => rw [h3] at h; cases h
  | ok u =>
  rw [h3] at h
  cases h4 : validatePersonal asked.scope with
  | error e => rw [h4] at h; cases h
  | ok u =>
  rw [h4] at h
  refine ⟨?_, ?_⟩
  · simp only [bind, Except.bind] at h
    split at h
    · cases h
    split at h
    · cases h
    cases h5 : validateClients asked.allowedClients with
    | error e => rw [h5] at h; cases h
    | ok u =>
    rw [h5] at h
    dsimp only at h
    split at h
    · rename_i hnil
      cases h
      unfold aboveLines
      rw [hnil]
      rfl
    · split at h
      · exact (Except.ok.inj h).symm
      · cases h
  · intro item hitem
    unfold validateScope at h2
    split at h2
    · cases h2
    split at h2
    · rename_i hnone
      obtain ⟨i, hi⟩ := exists_mem_zipIdx.mpr hitem
      have herror := List.findSome?_eq_none_iff.mp hnone (item, i) hi
      have hshape : scopeItemError y asked.writes item = none := by simpa using herror
      unfold scopeItemError at hshape
      dsimp only at hshape
      split at hshape
      · cases hshape
      rename_i hproject
      split at hshape
      · cases hshape
      split at hshape
      · cases hshape
      rename_i hfind
      refine ⟨by simpa using hproject, fun e he => ?_⟩
      have hend := List.find?_eq_none.mp hfind ("endpoint", item.endpoint) (by simp)
      rw [he] at hend
      by_contra hcon
      rw [not_or] at hcon
      exact hend (by simp [hcon.1, hcon.2])
    · cases h2

end

end Connectors
end Portal
