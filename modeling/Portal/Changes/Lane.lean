import Portal.Access.Bindings

/-!
# The lane of a change (`change.rs`: `classify`, `classify_manifest`; `import.rs`: `riskiest`,
`native_kind`, `owns_native`, `space_in_path`; `secret_files.rs`: `parse_path`; `gitea.rs`:
`committed_text`)

A change is reviewed in one of three lanes.  A manifest's lane is read off its kind and spec; a
merge request carries several files and is reviewed in the riskiest of their lanes.

* `Lane`, `riskiest`     the lanes by risk, `riskiest_le` and `le_riskiest`;
* `Envelope`             a manifest as the repository holds it;
* `classify`             the lane of a kind, an operation and a spec;
* `nativeKind`, `ownsNative`, `spaceInPath`, `projectOfPath`, `secretPath`   what a path says;
* `committedText`        the text that a write of a file commits.
-/

namespace Portal

namespace Changes

open Access

/-! ## lanes -/

inductive Lane where
  | green
  | yellow
  | red
deriving DecidableEq

namespace Lane

def rank : Lane → Nat
  | green => 0
  | yellow => 1
  | red => 2

instance : LE Lane := ⟨fun a b => a.rank ≤ b.rank⟩

instance : DecidableLE Lane := fun a b => inferInstanceAs (Decidable (a.rank ≤ b.rank))

theorem le_def {a b : Lane} : a ≤ b ↔ a.rank ≤ b.rank := Iff.rfl

theorem rank_inj {a b : Lane} (h : a.rank = b.rank) : a = b := by
  cases a <;> cases b <;> simp_all [rank]

instance : PartialOrder Lane where
  le_refl a := Nat.le_refl a.rank
  le_trans a b c h h' := by
    rw [le_def] at *
    omega
  le_antisymm a b h h' := rank_inj (Nat.le_antisymm h h')

theorem green_le (a : Lane) : green ≤ a := Nat.zero_le _

theorem le_red (a : Lane) : a ≤ red := by
  rw [le_def]
  cases a <;> simp [rank]

theorem eq_red_of_le {a : Lane} (h : red ≤ a) : a = red := le_antisymm (le_red a) h

end Lane

def riskiest (left right : Lane) : Lane := if right.rank > left.rank then right else left

theorem riskiest_le {a b c : Lane} : riskiest a b ≤ c ↔ a ≤ c ∧ b ≤ c := by
  unfold riskiest
  simp only [Lane.le_def]
  split
  · omega
  · omega

theorem le_riskiest_left (a b : Lane) : a ≤ riskiest a b := (riskiest_le.mp le_rfl).1

theorem le_riskiest_right (a b : Lane) : b ≤ riskiest a b := (riskiest_le.mp le_rfl).2

theorem riskiest_eq (a b : Lane) : riskiest a b = a ∨ riskiest a b = b := by
  unfold riskiest
  split
  · exact .inr rfl
  · exact .inl rfl

theorem le_riskiest {a b c : Lane} : c ≤ riskiest a b ↔ c ≤ a ∨ c ≤ b := by
  constructor
  · intro h
    rcases riskiest_eq a b with he | he
    · exact .inl (he ▸ h)
    · exact .inr (he ▸ h)
  · rintro (h | h)
    · exact le_trans h (le_riskiest_left a b)
    · exact le_trans h (le_riskiest_right a b)

def riskiestOf (l : List Lane) : Lane := l.foldl riskiest .green

theorem foldl_riskiest_le {l : List Lane} {a c : Lane} :
    l.foldl riskiest a ≤ c ↔ a ≤ c ∧ ∀ b ∈ l, b ≤ c := by
  induction l generalizing a with
  | nil => simp
  | cons b l ih =>
    rw [List.foldl_cons, ih, riskiest_le, List.forall_mem_cons]
    tauto

theorem riskiestOf_le {l : List Lane} {c : Lane} : riskiestOf l ≤ c ↔ ∀ b ∈ l, b ≤ c := by
  unfold riskiestOf
  rw [foldl_riskiest_le]
  exact and_iff_right (Lane.green_le c)

theorem le_foldl_riskiest {l : List Lane} {a c : Lane} :
    c ≤ l.foldl riskiest a ↔ c ≤ a ∨ ∃ b ∈ l, c ≤ b := by
  induction l generalizing a with
  | nil => simp
  | cons b l ih =>
    rw [List.foldl_cons, ih, le_riskiest, List.exists_mem_cons_iff]
    tauto

theorem le_riskiestOf {l : List Lane} {c : Lane} :
    c ≤ riskiestOf l ↔ c = .green ∨ ∃ b ∈ l, c ≤ b := by
  unfold riskiestOf
  rw [le_foldl_riskiest]
  refine or_congr_left ⟨fun h => le_antisymm h (Lane.green_le c), fun h => le_of_eq h⟩

/-! ## manifests -/

/-- a manifest as the repository holds it -/
structure Envelope where
  apiVersion : String
  kind : String
  name : String
  ns : Option String
  /-- the metadata beside name and namespace, as JSON -/
  metadata : List (String × Value)
  spec : Value
  status : Option Value
  /-- no member of the metadata is written twice -/
  beside : ∀ p ∈ metadata, p.1 ≠ "name" ∧ p.1 ≠ "namespace"
deriving DecidableEq

theorem Envelope.beside_nil :
    ∀ p ∈ ([] : List (String × Value)), p.1 ≠ "name" ∧ p.1 ≠ "namespace" :=
  List.forall_mem_nil _

def Envelope.toValue (e : Envelope) : Value :=
  .object ([("apiVersion", .string e.apiVersion), ("kind", .string e.kind),
    ("metadata", .object (("name", .string e.name)
      :: (e.ns.map (fun ns => ("namespace", Value.string ns))).toList ++ e.metadata)),
    ("spec", e.spec)] ++ (e.status.map (fun s => ("status", s))).toList)

/-- the resource a manifest declares -/
def Envelope.key (e : Envelope) : String × String × String := (e.ns.getD "", e.kind, e.name)

/-- the JSON of a manifest says which resource it declares -/
theorem Envelope.key_of_toValue {e e' : Envelope} (h : e.toValue = e'.toValue) : e.key = e'.key := by
  unfold toValue at h
  simp only [Value.object.injEq, List.cons_append, List.cons.injEq, Prod.mk.injEq, true_and,
    Value.string.injEq] at h
  obtain ⟨-, hkind, ⟨hname, hmeta⟩, -⟩ := h
  have hns : e.ns = e'.ns := by
    cases hn : e.ns with
    | none =>
      cases hn' : e'.ns with
      | none => rfl
      | some ns =>
        rw [hn, hn'] at hmeta
        refine absurd rfl (e.beside ("namespace", .string ns) ?_).2
        rw [show e.metadata = _ from hmeta]
        exact List.mem_cons_self
    | some ns =>
      cases hn' : e'.ns with
      | none =>
        rw [hn, hn'] at hmeta
        refine absurd rfl (e'.beside ("namespace", .string ns) ?_).2
        rw [show e'.metadata = _ from hmeta.symm]
        exact List.mem_cons_self
      | some ns' =>
        rw [hn, hn'] at hmeta
        simp only [Option.map_some, Option.toList_some, List.cons_append, List.cons.injEq,
          Prod.mk.injEq, Value.string.injEq, true_and] at hmeta
        rw [hmeta.1]
  unfold key
  rw [hns, hkind, hname]

inductive Operation where
  | create
  | update
  | delete
deriving DecidableEq

/-- the kinds whose every change is red -/
def redKinds : List String :=
  ["ContextSourceRegistration", "SharedSpaceReference", "DataSpaceParticipant", "DataOffer",
    "DataAgreement", "ServiceAccount", "Role", "RoleBinding", "Group", "ContextBroker",
    "MqttBroker", "Environment", "Policy", "ScopeDefinition", "Organization", "Project",
    "DelegationPolicy"]

def classify (kind : String) (op : Operation) (spec : Value) : Lane :=
  if op = .delete then .red
  else if kind = "Endpoint" && textAt spec "audience" = some "public" then .red
  else if kind = "App" && (textAt spec "visibility" = some "public" ||
      ((spec.get? "egress").bind Value.asArray).any (fun egress => !egress.isEmpty)) then .red
  else if kind = "McpServer" && textAt spec "audience" = some "public" then .red
  else if kind = "AssistantDeployment" &&
      (textAt spec "channel").any (fun channel => channel ≠ "internal") then .red
  else if redKinds.contains kind then .red
  else if kind = "ContextSpace" && spec.get? "isSandbox" = some (.bool true) then .green
  else if kind = "Dashboard" || kind = "Layer" then .green
  else .yellow

/-- the lane of a manifest where it lives: an organization's data model is every project's -/
def classifyManifest (e : Envelope) (op : Operation) : Lane :=
  if e.kind = "DataModel" && e.ns = some orgNamespace then .red else classify e.kind op e.spec

/-! ## what a path says -/

def segments (path : String) : List String :=
  (Text.split (· = '/') path.toList).map String.ofList

section
variable (x : JcAccess)

/-- the kinds of jc-core and the Portal's own, in this order -/
def kinds : List KindInfo := x.kinds ++ [⟨"Entity", "entities", .project⟩]

def byPlural (plural : String) : Option KindInfo := (kinds x).find? (fun info => info.plural = plural)

/-- the kind whose directory a file is in -/
def nativeKind (path : String) : Option String := do
  let rest := (segments path).drop 2
  let first ← rest[0]?
  let plural ← if first = "spaces" then rest[2]? else some first
  return (← byPlural x plural).kind

end

def isYaml (path : String) : Bool := Text.endsWith ".yaml" path || Text.endsWith ".yml" path

/-- the text a write commits: a manifest in the one layout, any other file as it is -/
def committedText (manifest : String → Bool) (format : String → Option String)
    (path content : String) : String :=
  if isYaml path && manifest content then (format content).getD content else content

/-- whether the manifest at a path, of this name, owns a native file -/
def ownsNative (native manifestPath name : String) : Bool :=
  let (dir, manifestDir) := ((segments native).dropLast, (segments manifestPath).dropLast)
  !dir.isEmpty && !manifestDir.isEmpty && manifestDir = dir
    && (dir.getLast? = some name
      || Text.startsWith (name ++ ".") (((segments native).getLast?).getD ""))

def spaceInPath (path : String) : Option String :=
  match segments path with
  | "projects" :: _ :: "spaces" :: space :: _ :: _ => if space = "" then none else some space
  | _ => none

/-- the project a file belongs to, none for one of the organization -/
def projectOfPath (path : String) : Option String :=
  match segments path with
  | "projects" :: project :: _ => if project = "" then none else some project
  | _ => none

/-- a secret's name: letters and digits first, no longer than a DNS label -/
def validSecretName (name : String) : Bool :=
  let alphanumeric := fun c : Char =>
    Text.isDigit c || ('a' ≤ c && c ≤ 'z') || ('A' ≤ c && c ≤ 'Z')
  1 ≤ name.toList.length && name.toList.length ≤ 63
    && name.toList.all (fun c => alphanumeric c || c = '-' || c = '_')
    && name.toList.head?.any alphanumeric

/-- the project and name of a secrets file; a project without a slash ends at the first `/secrets/` -/
def secretPath (path : String) : Option (String × String) :=
  match segments path with
  | ["projects", project, "secrets", file] =>
    match Text.before ".enc.yaml" file with
    | some name => if project ≠ "" && validSecretName name then some (project, name) else none
    | none => none
  | _ => none

example : nativeKind plainJc "projects/p/spaces/s/dashboards/a.yaml" = some "Dashboard" := by decide

example : secretPath "projects/p/secrets/db.enc.yaml" = some ("p", "db") := by decide

end Changes
end Portal
