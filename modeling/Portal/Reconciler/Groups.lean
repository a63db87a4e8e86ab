import Portal.Access.Grants

/-!
# The Keycloak groups the repository owns (`reconciler/groups.rs`)

A run of the wave lists the realm's groups, brings each group that a manifest declares or a project
derives to what it should be, and removes the managed groups that nothing declares any more.  Every
request may fail, whether or not the realm has done what it asked.

* `Realm`, `Wire`           the realm, and the requests that reach it or do not;
* `convergeOne`, `convergeWith`   the source's run;
* `Worked`                  what work on one group does of the realm, whatever fails;
* `Turned`                  what its turn does, and what the outcome says;
* `convergeOne_quiet`       a turn of a group that is as it should be.
-/

namespace Portal
namespace Groups
open Access

/-! ## groups -/

/-- the attribute that says a group is this platform's to write -/
def managedBy : String := "managed-by"
def managedValue : String := "joinedcontext"

def organizationAttribute : String := "jc_org"
def groupsAttribute : String := "jc_groups"

structure KcGroup where
  id : Nat
  name : String
  attributes : OrdMap String (List String)

def managed (attributes : OrdMap String (List String)) : Bool :=
  (attributes.get? managedBy).any (fun values => values.any (fun v => v = managedValue))

/-- a group the platform derives, and what it adds to its members' tokens -/
structure DerivedGroup where
  name : String
  members : List String
  jcOrg : Option String
  jcGroups : Option String

/-- what a group the platform writes carries -/
def attributesOf (derived : Option DerivedGroup) : OrdMap String (List String) :=
  let attributes := OrdMap.empty.insert managedBy [managedValue]
  let attributes :=
    match derived.bind DerivedGroup.jcOrg with
    | some organization => attributes.insert organizationAttribute [organization]
    | none => attributes
  match derived.bind DerivedGroup.jcGroups with
  | some path => attributes.insert groupsAttribute [path]
  | none => attributes

structure GroupOutcome where
  name : String
  /-- empty when the realm already matched -/
  drift : List String
  warnings : List String
  error : Option String
deriving DecidableEq

def GroupOutcome.of (name : String) : GroupOutcome := ⟨name, [], [], none⟩

/-! ## the realm and its requests -/

/-- a group as the realm holds it -/
structure Held where
  id : Nat
  attributes : OrdMap String (List String)
  members : List String

structure Realm where
  groups : OrdMap String Held
  /-- the ids of the users -/
  users : List String
  next : Nat

def Held.shown (h : Held) (name : String) : KcGroup := ⟨h.id, name, h.attributes⟩

namespace Realm

def held (r : Realm) (id : Nat) : Option Held :=
  (r.groups.toList.map Prod.snd).find? (fun h => h.id = id)

/-- the group `id`, changed -/
def update (r : Realm) (id : Nat) (f : Held → Held) : Realm :=
  { r with groups := r.groups.mapVal (fun _ h => if h.id = id then f h else h) }

def put (r : Realm) (name : String) (h : Held) : Realm :=
  { r with groups := r.groups.insert name h }

end Realm

/-- `max` of the listings -/
def pageSize : Nat := 1000

def notFound (method path : String) : String := method ++ " " ++ path ++ ": 404 Not Found"

def token (r : Realm) : Except String Unit × Realm := (.ok (), r)

def listGroups (r : Realm) : Except String (List KcGroup) × Realm :=
  (.ok ((r.groups.toList.take pageSize).map (fun p => p.2.shown p.1)), r)

def createGroup (name : String) (attributes : OrdMap String (List String)) (r : Realm) :
    Except String Unit × Realm :=
  if (r.groups.get? name).isSome then (.error "POST /groups: 409 Conflict", r)
  else (.ok (), { r.put name ⟨r.next, attributes, []⟩ with next := r.next + 1 })

def searchGroups (name : String) (r : Realm) : Except String (List KcGroup) × Realm :=
  (.ok ((r.groups.get? name).toList.map (fun h => h.shown name)), r)

/-- a change of one group, if there is one under `id` -/
def changes (method path : String) (id : Nat) (f : Held → Held) (r : Realm) :
    Except String Unit × Realm :=
  match r.held id with
  | some _ => (.ok (), r.update id f)
  | none => (.error (notFound method path), r)

def writeGroup (id : Nat) (attributes : OrdMap String (List String)) :
    Realm → Except String Unit × Realm :=
  changes "PUT" ("/groups/" ++ toString id) id (fun h => { h with attributes })

def listMembers (id : Nat) (r : Realm) : Except String (List String) × Realm :=
  match r.held id with
  | some h => (.ok (h.members.take pageSize), r)
  | none => (.error (notFound "GET" ("/groups/" ++ toString id ++ "/members")), r)

def userExists (user : String) (r : Realm) : Except String Bool × Realm :=
  (.ok (decide (user ∈ r.users)), r)

def membership (user : String) (id : Nat) : String :=
  "/users/" ++ user ++ "/groups/" ++ toString id

def joinGroup (user : String) (id : Nat) (r : Realm) : Except String Unit × Realm :=
  if user ∈ r.users then
    changes "PUT" (membership user id) id (fun h =>
      { h with members := if user ∈ h.members then h.members else h.members ++ [user] }) r
  else (.error (notFound "PUT" (membership user id)), r)

def leaveGroup (user : String) (id : Nat) : Realm → Except String Unit × Realm :=
  changes "DELETE" (membership user id) id (fun h =>
    { h with members := h.members.filter (fun u => u ≠ user) })

def deleteGroup (id : Nat) (r : Realm) : Except String Unit × Realm :=
  match r.held id with
  | some _ => (.ok (), { r with groups := r.groups.retain (fun h => h.id ≠ id) })
  | none => (.error (notFound "DELETE" ("/groups/" ++ toString id)), r)

/-- a request without its answer; the realm may have done what it asked -/
structure Fault where
  applied : Bool
  text : String

structure Wire where
  realm : Realm
  /-- what becomes of the requests to come; they are answered once it is told no more -/
  faults : List (Option Fault)

def Wire.request {β : Type} (w : Wire) (f : Realm → Except String β × Realm) :
    Except String β × Wire :=
  match w.faults with
  | [] => ((f w.realm).1, ⟨(f w.realm).2, []⟩)
  | none :: rest => ((f w.realm).1, ⟨(f w.realm).2, rest⟩)
  | some fault :: rest =>
    (.error fault.text, ⟨if fault.applied then (f w.realm).2 else w.realm, rest⟩)

/-! ## one group -/

structure Turn where
  outcome : GroupOutcome
  wire : Wire

namespace Turn

def drifts (t : Turn) (text : String) (w : Wire) : Turn :=
  ⟨{ t.outcome with drift := t.outcome.drift ++ [text] }, w⟩

def warns (t : Turn) (text : String) (w : Wire) : Turn :=
  ⟨{ t.outcome with warnings := t.outcome.warnings ++ [text] }, w⟩

def fails (t : Turn) (text : String) (w : Wire) : Turn :=
  ⟨{ t.outcome with error := some text }, w⟩

end Turn

def addMember (id : Nat) (t : Turn) (user : String) : Turn :=
  match t.wire.request (userExists user) with
  | (.ok true, w) =>
    match w.request (joinGroup user id) with
    | (.ok _, w) => t.drifts (user ++ " belongs in the group and was added") w
    | (.error e, w) => t.fails e w
  | (.ok false, w) =>
    t.warns (user ++ " belongs in the group and the realm has no user with that id") w
  | (.error e, w) => t.fails e w

def removeMember (id : Nat) (t : Turn) (user : String) : Turn :=
  match t.wire.request (leaveGroup user id) with
  | (.ok _, w) =>
    t.drifts (user ++ " was in the realm's group and does not belong in it; the membership was " ++
      "removed") w
  | (.error e, w) => t.fails e w

/-- who is in the group now, against who should be -/
def syncMembers (id : Nat) (wanted : List String) (t : Turn) : Turn :=
  match t.wire.request (listMembers id) with
  | (.ok held, w) =>
    let t := (wanted.filter (fun u => u ∉ held)).foldl (addMember id) { t with wire := w }
    ((OrdMap.keySet held).filter (fun u => u ∉ wanted)).foldl (removeMember id) t
  | (.error e, w) => t.fails e w

def unnamedText (unnamed : Nat) (name : String) : String :=
  toString unnamed ++ " member(s) of '" ++ name ++ "' are not named by their Keycloak user id " ++
    "(ADR-N-061), so the group is left as the realm holds it; merge the migration Change that " ++
    "names them by id (People, Name people by id)"

/-- a group with a member that is not named by its id is left as the realm holds it -/
def keepMembers (name : String) (id : Nat) (wanted : List String) (t : Turn) : Turn :=
  let unnamed := (wanted.filter (fun member => !isPersonId member)).length
  if 0 < unnamed then t.fails (unnamedText unnamed name) t.wire else syncMembers id wanted t

/-- whether a group gives the claims it should -/
def claimsRight (attributes : OrdMap String (List String)) (d : DerivedGroup) : Bool :=
  [organizationAttribute, groupsAttribute].all
    (fun key => attributes.get? key = (attributesOf (some d)).get? key)

def keepClaims (held : Option KcGroup) (derived : Option DerivedGroup) (t : Turn) : Turn :=
  match held, derived with
  | some group, some d =>
    if claimsRight group.attributes d then t
    else
      match t.wire.request (writeGroup group.id (attributesOf (some d))) with
      | (.ok _, w) =>
        t.drifts "the group's Organization claims were not what its project says; they are now" w
      | (.error e, w) => t.fails e w
  | _, _ => t

def unmanagedText (name : String) : String :=
  "the realm has a group '" ++ name ++ "' without the " ++ managedBy ++ ": " ++ managedValue ++
    " attribute; the platform never writes a group it does not manage"

def convergeOne (name : String) (wanted : List String) (derived : Option DerivedGroup)
    (held : Option KcGroup) (w : Wire) : Turn :=
  let t : Turn := ⟨.of name, w⟩
  match held with
  | some group =>
    if !managed group.attributes then t.fails (unmanagedText name) w
    else keepMembers name group.id wanted (keepClaims held derived t)
  | none =>
    match w.request (createGroup name (attributesOf derived)) with
    | (.error e, w) => t.fails e w
    | (.ok _, w) =>
      let t := t.drifts ("the realm had no group '" ++ name ++ "'; it was created") w
      match w.request (searchGroups name) with
      | (.error e, w) => t.fails e w
      | (.ok found, w) =>
        match found.find? (fun group => group.name = name) with
        | none => t.fails "the realm did not return the group it just created" w
        | some group =>
          keepMembers name group.id wanted (keepClaims held derived { t with wire := w })

/-! ## a run -/

/-- a group to bring to what it should be, or why it is not -/
structure Entry where
  name : String
  what : Except String (List String × Option DerivedGroup)

def parseText (err : String) : String := "the manifest does not parse: " ++ err

def clashText (name : String) : String :=
  "a Group manifest declares '" ++ name ++ "', the name of a project's forge group (PF-87); the " ++
    "manifest decides its members, so the project's bindings do not reach the forge through it. " ++
    "Rename the manifest"

/-- a `Group` manifest: the members' `user` as jc-core parses the spec -/
def manifestEntry (p : String × Except String (List String)) : Entry :=
  match p.2 with
  | .ok users => ⟨p.1, .ok (OrdMap.keySet (users.map Text.trimmed), none)⟩
  | .error err => ⟨p.1, .error (parseText err)⟩

/-- the derived groups, less those whose name is declared already -/
def derivedEntries : List String → List DerivedGroup → List Entry
  | _, [] => []
  | wanted, d :: ds =>
    if d.name ∈ wanted then ⟨d.name, .error (clashText d.name)⟩ :: derivedEntries wanted ds
    else ⟨d.name, .ok (OrdMap.keySet d.members, some d)⟩ :: derivedEntries (d.name :: wanted) ds

def entries (manifests : OrdMap String (Except String (List String)))
    (generated : List DerivedGroup) : List Entry :=
  manifests.toList.map manifestEntry ++ derivedEntries manifests.keys generated

def convergeEntry (existing : List KcGroup) (e : Entry) (w : Wire) : Turn :=
  match e.what with
  | .error text => (⟨.of e.name, w⟩ : Turn).fails text w
  | .ok (wanted, derived) =>
    convergeOne e.name wanted derived (existing.find? (fun group => group.name = e.name)) w

def convergeEntries (existing : List KcGroup) : List Entry → Wire → List GroupOutcome × Wire
  | [], w => ([], w)
  | e :: es, w =>
    let t := convergeEntry existing e w
    let rest := convergeEntries existing es t.wire
    (t.outcome :: rest.1, rest.2)

def removeGroup (group : KcGroup) (w : Wire) : Turn :=
  let t : Turn := ⟨.of group.name, w⟩
  match w.request (deleteGroup group.id) with
  | (.ok _, w) =>
    t.drifts ("the group was managed here and no manifest declares it any more; it was removed " ++
      "from the realm") w
  | (.error e, w) => t.fails e w

def removeGroups (declared : List String) : List KcGroup → Wire → List GroupOutcome × Wire
  | [], w => ([], w)
  | group :: groups, w =>
    if managed group.attributes && group.name ∉ declared then
      let t := removeGroup group w
      let rest := removeGroups declared groups t.wire
      (t.outcome :: rest.1, rest.2)
    else removeGroups declared groups w

structure Report where
  outcomes : List GroupOutcome
  /-- the unmanaged names, for the write doors -/
  foreign : Option (List String)
  wire : Wire

def failed (e : String) (w : Wire) : Report :=
  ⟨[{ GroupOutcome.of "*" with error := some e }], none, w⟩

def convergeWith (manifests : OrdMap String (Except String (List String)))
    (generated : List DerivedGroup) (w : Wire) : Report :=
  match w.request token with
  | (.error e, w) => failed e w
  | (.ok _, w) =>
    match w.request listGroups with
    | (.error e, w) => failed e w
    | (.ok existing, w) =>
      let es := entries manifests generated
      let done := convergeEntries existing es w
      let gone := removeGroups (es.map Entry.name) existing done.2
      ⟨done.1 ++ gone.1,
        some (OrdMap.keySet ((existing.filter (fun group => !managed group.attributes)).map
          KcGroup.name)), gone.2⟩

/-! ## the realm, group by group -/

/-- **Invariant** of a realm: ids are not given twice, and the members are users. -/
structure Sound (r : Realm) : Prop where
  fresh : ∀ name h, r.groups.get? name = some h → h.id < r.next
  one : ∀ n n' h h', r.groups.get? n = some h → r.groups.get? n' = some h' → h'.id = h.id → n' = n
  nodup : ∀ name h, r.groups.get? name = some h → h.members.Nodup
  users : ∀ name h, r.groups.get? name = some h → ∀ u ∈ h.members, u ∈ r.users

/-- `name` is the group `h` of a sound realm -/
structure At (name : String) (h : Held) (r : Realm) : Prop where
  sound : Sound r
  get : r.groups.get? name = some h

section
variable {r r' : Realm} {name : String} {h h' : Held} {β : Type} {w w' : Wire}

@[simp] theorem get?_put (n : String) :
    (r.put name h).groups.get? n = if n = name then some h else r.groups.get? n :=
  OrdMap.get?_insert _ _ _ _

@[simp] theorem put_users : (r.put name h).users = r.users := rfl

theorem put_put : (r.put name h).put name h' = r.put name h' := by
  show ({ r with groups := (r.groups.insert name h).insert name h' } : Realm) = _
  rw [OrdMap.insert_insert]
  rfl

theorem put_of_get (hget : r.groups.get? name = some h) : r.put name h = r := by
  show ({ r with groups := r.groups.insert name h } : Realm) = r
  rw [OrdMap.insert_of_get? hget]

/-- a group may change all but its id -/
theorem At.put (hat : At name h r) (hid : h'.id = h.id) (hnodup : h'.members.Nodup)
    (husers : ∀ u ∈ h'.members, u ∈ r.users) : At name h' (r.put name h') := by
  refine ⟨⟨?_, ?_, ?_, ?_⟩, by simp⟩
  · intro n k hk
    rw [get?_put] at hk
    split at hk
    · obtain rfl := Option.some.inj hk
      exact hid ▸ hat.sound.fresh name h hat.get
    · exact hat.sound.fresh n k hk
  · -- the id is the one that the group had
    have hold : ∀ n k, (r.put name h').groups.get? n = some k →
        ∃ k₀, r.groups.get? n = some k₀ ∧ k₀.id = k.id := by
      intro n k hk
      rw [get?_put] at hk
      split at hk
      · rename_i hn
        obtain rfl := Option.some.inj hk
        exact ⟨h, hn ▸ hat.get, hid.symm⟩
      · exact ⟨k, hk, rfl⟩
    intro n n' k k' hk hk' heq
    obtain ⟨k₀, hk₀, hid₀⟩ := hold n k hk
    obtain ⟨k₁, hk₁, hid₁⟩ := hold n' k' hk'
    exact hat.sound.one n n' k₀ k₁ hk₀ hk₁ (by rw [hid₁, heq, hid₀])
  · intro n k hk
    rw [get?_put] at hk
    split at hk
    · exact Option.some.inj hk ▸ hnodup
    · exact hat.sound.nodup n k hk
  · intro n k hk
    rw [get?_put] at hk
    split at hk
    · exact Option.some.inj hk ▸ husers
    · exact hat.sound.users n k hk

theorem At.held (hat : At name h r) : r.held h.id = some h := by
  have hmem : h ∈ r.groups.toList.map Prod.snd :=
    List.mem_map.2 ⟨(name, h), (OrdMap.mem_toList _ _ _).2 hat.get, rfl⟩
  cases hfind : r.held h.id with
  | none => exact absurd (List.find?_eq_none.1 hfind h hmem) (by simp)
  | some k =>
    obtain ⟨⟨n, k'⟩, hk, rfl⟩ := List.mem_map.1 (List.mem_of_find?_eq_some hfind)
    have hget := (OrdMap.mem_toList _ _ _).1 hk
    have hid : k'.id = h.id := by simpa using List.find?_some hfind
    obtain rfl := hat.sound.one name n h k' hat.get hget hid
    exact congrArg some (Option.some.inj (hget.symm.trans hat.get))

theorem At.update (hat : At name h r) (f : Held → Held) : r.update h.id f = r.put name (f h) := by
  have hgroups : (r.groups.mapVal (fun _ k => if k.id = h.id then f k else k))
      = r.groups.insert name (f h) := by
    apply OrdMap.ext_get?
    intro n
    rw [OrdMap.get?_mapVal, OrdMap.get?_insert]
    by_cases hn : n = name
    · rw [if_pos hn, hn, hat.get, Option.map_some, if_pos rfl]
    · rw [if_neg hn]
      cases hk : r.groups.get? n with
      | none => rfl
      | some k =>
        rw [Option.map_some, if_neg]
        intro hid
        exact hn (hat.sound.one name n h k hat.get hk hid)
  show ({ r with groups := _ } : Realm) = _
  rw [hgroups]
  rfl

theorem At.changes (hat : At name h r) (method path : String) (f : Held → Held) :
    changes method path h.id f r = (.ok (), r.put name (f h)) := by
  unfold Groups.changes
  rw [hat.held, hat.update]

/-! ## requests -/

theorem request_ok {f : Realm → Except String β × Realm} {b : β}
    (h : w.request f = (.ok b, w')) :
    (f w.realm).1 = .ok b ∧ w'.realm = (f w.realm).2 ∧ (w.faults = [] → w'.faults = []) := by
  unfold Wire.request at h
  split at h
  · obtain ⟨h1, rfl⟩ := Prod.mk.inj h
    exact ⟨h1, rfl, fun _ => rfl⟩
  · rename_i hfaults
    obtain ⟨h1, rfl⟩ := Prod.mk.inj h
    exact ⟨h1, rfl, fun hnil => absurd (hfaults.symm.trans hnil) (by simp)⟩
  · exact absurd (Prod.mk.inj h).1 (by simp)

theorem request_error {f : Realm → Except String β × Realm} {e : String}
    (h : w.request f = (.error e, w')) :
    (w'.realm = w.realm ∨ w'.realm = (f w.realm).2) ∧
      (w.faults = [] → (f w.realm).1 = .error e ∧ w'.faults = []) := by
  unfold Wire.request at h
  split at h
  · obtain ⟨h1, rfl⟩ := Prod.mk.inj h
    exact ⟨.inr rfl, fun _ => ⟨h1, rfl⟩⟩
  · rename_i hfaults
    obtain ⟨h1, rfl⟩ := Prod.mk.inj h
    exact ⟨.inr rfl, fun hnil => absurd (hfaults.symm.trans hnil) (by simp)⟩
  · rename_i fault rest hfaults
    obtain ⟨-, rfl⟩ := Prod.mk.inj h
    refine ⟨?_, fun hnil => absurd (hfaults.symm.trans hnil) (by simp)⟩
    cases fault.applied
    · exact .inl rfl
    · exact .inr rfl

theorem request_reads {f : Realm → Except String β × Realm} (hreads : ∀ r, (f r).2 = r)
    (w : Wire) : (w.request f).2.realm = w.realm := by
  unfold Wire.request
  split
  · exact hreads _
  · exact hreads _
  · rename_i fault _ _
    cases fault.applied
    · rfl
    · exact hreads _

/-- a request that makes `k` of the group `name`: it is `k` if it was answered, else it may be -/
theorem request_changes {f : Realm → Except String Unit × Realm} {k : Held} {e : Except String Unit}
    (hat : At name h w.realm) (hf : f w.realm = (.ok (), w.realm.put name k)) (hid : k.id = h.id)
    (hnodup : k.members.Nodup) (husers : ∀ u ∈ k.members, u ∈ w.realm.users)
    (hrequest : w.request f = (e, w')) :
    ∃ h', At name h' w'.realm ∧ w'.realm = w.realm.put name h' ∧ (h' = h ∨ h' = k) ∧
      (e = .ok () → h' = k) ∧ (w.faults = [] → e = .ok () ∧ w'.faults = []) := by
  have hdone : w'.realm = w.realm.put name k → At name k w'.realm := fun hrealm =>
    hrealm ▸ hat.put hid hnodup husers
  cases e with
  | ok u =>
    obtain ⟨-, hrealm, hcalm⟩ := request_ok hrequest
    rw [hf] at hrealm
    exact ⟨k, hdone hrealm, hrealm, .inr rfl, fun _ => rfl, fun hnil => ⟨rfl, hcalm hnil⟩⟩
  | error e =>
    obtain ⟨hrealm, hcalm⟩ := request_error hrequest
    rw [hf] at hrealm hcalm
    have hnil : ¬ w.faults = [] := fun hnil => absurd (hcalm hnil).1 (by simp)
    rcases hrealm with hrealm | hrealm
    · exact ⟨h, hrealm ▸ hat, by rw [hrealm, put_of_get hat.get], .inl rfl,
        fun hok => absurd hok (by simp), fun hn => absurd hn hnil⟩
    · exact ⟨k, hdone hrealm, hrealm, .inr rfl, fun hok => absurd hok (by simp),
        fun hn => absurd hn hnil⟩

theorem listMembers_reads (id : Nat) (r : Realm) : (listMembers id r).2 = r := by
  unfold listMembers
  split <;> rfl

end

/-! ## the members of one group -/

/-- work on the group `name`, which was `h` and is `h'` -/
structure Worked (name : String) (h h' : Held) (t t' : Turn) : Prop where
  after : At name h' t'.wire.realm
  realm : t'.wire.realm = t.wire.realm.put name h'
  id : h'.id = h.id
  name : t'.outcome.name = t.outcome.name
  error : t'.outcome.error = none → t.outcome.error = none
  calm : t.wire.faults = [] → t'.wire.faults = []

section
variable {name : String} {h h' h'' : Held} {t t' t'' : Turn}

theorem Worked.trans (h1 : Worked name h h' t t') (h2 : Worked name h' h'' t' t'') :
    Worked name h h'' t t'' where
  after := h2.after
  realm := by rw [h2.realm, h1.realm, put_put]
  id := h2.id.trans h1.id
  name := h2.name.trans h1.name
  error := fun hnone => h1.error (h2.error hnone)
  calm := fun hnil => h2.calm (h1.calm hnil)

theorem Worked.users (hw : Worked name h h' t t') : t'.wire.realm.users = t.wire.realm.users := by
  rw [hw.realm, put_users]

theorem Worked.idle (hat : At name h t.wire.realm) (hrealm : t'.wire.realm = t.wire.realm)
    (hname : t'.outcome.name = t.outcome.name)
    (herror : t'.outcome.error = none → t.outcome.error = none)
    (hcalm : t.wire.faults = [] → t'.wire.faults = []) : Worked name h h t t' where
  after := hrealm ▸ hat
  realm := by rw [hrealm, put_of_get hat.get]
  id := rfl
  name := hname
  error := herror
  calm := hcalm

theorem addMember_spec (hat : At name h t.wire.realm) (user : String) :
    ∃ h', Worked name h h' t (addMember h.id t user) ∧ h'.attributes = h.attributes ∧
      (t.wire.faults = [] → (addMember h.id t user).outcome.error = t.outcome.error) ∧
      ((addMember h.id t user).outcome.error = none →
        ∀ u, u ∈ h'.members ↔ u ∈ h.members ∨ u = user ∧ u ∈ t.wire.realm.users) := by
  have hreads := request_reads (f := userExists user) (fun _ => rfl) t.wire
  unfold addMember
  split
  · rename_i w hexists
    obtain ⟨hanswer, -, hcalm⟩ := request_ok hexists
    rw [hexists] at hreads
    have huser : user ∈ t.wire.realm.users := by simpa [userExists] using hanswer
    have hat' : At name h w.realm := hreads ▸ hat
    let k : Held :=
      { h with members := if user ∈ h.members then h.members else h.members ++ [user] }
    have hk : ∀ u, u ∈ k.members ↔ u ∈ h.members ∨ u = user := by
      intro u
      show u ∈ (if user ∈ h.members then h.members else h.members ++ [user]) ↔ _
      split
      · rename_i hmem
        exact ⟨.inl, fun hu => hu.elim id (fun heq => heq ▸ hmem)⟩
      · rw [List.mem_append, List.mem_singleton]
    have hnodup : k.members.Nodup := by
      show (if user ∈ h.members then h.members else h.members ++ [user]).Nodup
      split
      · exact hat.sound.nodup name h hat.get
      · rename_i hmem
        exact List.nodup_append.2 ⟨hat.sound.nodup name h hat.get, List.nodup_singleton _,
          fun a ha b hb heq => hmem (List.mem_singleton.1 hb ▸ heq ▸ ha)⟩
    have husers : ∀ u ∈ k.members, u ∈ w.realm.users := by
      intro u hu
      rw [hreads]
      rcases (hk u).1 hu with hu | rfl
      · exact hat.sound.users name h hat.get u hu
      · exact huser
    have hjoin : joinGroup user h.id w.realm = (.ok (), w.realm.put name k) := by
      unfold joinGroup
      rw [if_pos (hreads ▸ huser), hat'.changes]
    split
    · rename_i u w₁ hrequest
      obtain ⟨h', hafter, hrealm, -, hdone, hanswered⟩ :=
        request_changes hat' hjoin rfl hnodup husers hrequest
      obtain rfl := hdone rfl
      refine ⟨k, ⟨hafter, by rw [← hreads]; exact hrealm, rfl, rfl, fun hnone => hnone,
        fun hnil => (hanswered (hcalm hnil)).2⟩, rfl, fun _ => rfl, fun _ u => ?_⟩
      rw [hk u]
      constructor
      · rintro (hu | rfl)
        · exact .inl hu
        · exact .inr ⟨rfl, huser⟩
      · rintro (hu | ⟨rfl, -⟩)
        · exact .inl hu
        · exact .inr rfl
    · rename_i e w₁ hrequest
      obtain ⟨h', hafter, hrealm, hh', -, hanswered⟩ :=
        request_changes hat' hjoin rfl hnodup husers hrequest
      have hid : h'.id = h.id ∧ h'.attributes = h.attributes := by
        rcases hh' with rfl | rfl <;> exact ⟨rfl, rfl⟩
      have hnil : ¬ t.wire.faults = [] := fun hnil => absurd (hanswered (hcalm hnil)).1 (by simp)
      exact ⟨h', ⟨hafter, by rw [← hreads]; exact hrealm, hid.1, rfl,
        fun hnone => absurd hnone (by simp [Turn.fails]), fun hn => absurd hn hnil⟩, hid.2,
        fun hn => absurd hn hnil, fun hnone => absurd hnone (by simp [Turn.fails])⟩
  · rename_i w hexists
    obtain ⟨hanswer, -, hcalm⟩ := request_ok hexists
    rw [hexists] at hreads
    have huser : user ∉ t.wire.realm.users := by simpa [userExists] using hanswer
    refine ⟨h, .idle hat hreads rfl (fun hnone => hnone) hcalm, rfl, fun _ => rfl, fun _ u => ?_⟩
    constructor
    · exact fun hu => .inl hu
    · rintro (hu | ⟨rfl, hu⟩)
      · exact hu
      · exact absurd hu huser
  · rename_i e w hexists
    obtain ⟨-, hcalm⟩ := request_error hexists
    rw [hexists] at hreads
    refine ⟨h, .idle hat hreads rfl (fun hnone => absurd hnone (by simp [Turn.fails])) ?_, rfl, ?_,
      fun hnone => absurd hnone (by simp [Turn.fails])⟩
    · exact fun hnil => (hcalm hnil).2
    · exact fun hnil => absurd (hcalm hnil).1 (by simp [userExists])

theorem removeMember_spec (hat : At name h t.wire.realm) (user : String) :
    ∃ h', Worked name h h' t (removeMember h.id t user) ∧ h'.attributes = h.attributes ∧
      (t.wire.faults = [] → (removeMember h.id t user).outcome.error = t.outcome.error) ∧
      ((removeMember h.id t user).outcome.error = none →
        ∀ u, u ∈ h'.members ↔ u ∈ h.members ∧ u ≠ user) := by
  let k : Held := { h with members := h.members.filter (fun u => u ≠ user) }
  have hnodup : k.members.Nodup := (hat.sound.nodup name h hat.get).filter _
  have husers : ∀ u ∈ k.members, u ∈ t.wire.realm.users := fun u hu =>
    hat.sound.users name h hat.get u (List.mem_filter.1 hu).1
  have hleave : leaveGroup user h.id t.wire.realm = (.ok (), t.wire.realm.put name k) := by
    unfold leaveGroup
    rw [hat.changes]
  unfold removeMember
  split
  · rename_i u w hrequest
    obtain ⟨h', hafter, hrealm, -, hdone, hanswered⟩ :=
      request_changes hat hleave rfl hnodup husers hrequest
    obtain rfl := hdone rfl
    refine ⟨k, ⟨hafter, hrealm, rfl, rfl, fun hnone => hnone, fun hnil => (hanswered hnil).2⟩, rfl,
      fun _ => rfl, fun _ u => ?_⟩
    show u ∈ h.members.filter (fun u => u ≠ user) ↔ _
    rw [List.mem_filter, decide_eq_true_iff]
  · rename_i e w hrequest
    obtain ⟨h', hafter, hrealm, hh', -, hanswered⟩ :=
      request_changes hat hleave rfl hnodup husers hrequest
    have hid : h'.id = h.id ∧ h'.attributes = h.attributes := by
      rcases hh' with rfl | rfl <;> exact ⟨rfl, rfl⟩
    have hnil : ¬ t.wire.faults = [] := fun hnil => absurd (hanswered hnil).1 (by simp)
    exact ⟨h', ⟨hafter, hrealm, hid.1, rfl, fun hnone => absurd hnone (by simp [Turn.fails]),
      fun hn => absurd hn hnil⟩, hid.2, fun hn => absurd hn hnil,
      fun hnone => absurd hnone (by simp [Turn.fails])⟩

theorem addMembers_spec (users : List String) : ∀ {t : Turn} {h : Held}, At name h t.wire.realm →
    ∃ h', Worked name h h' t (users.foldl (addMember h.id) t) ∧ h'.attributes = h.attributes ∧
      (t.wire.faults = [] → (users.foldl (addMember h.id) t).outcome.error = t.outcome.error) ∧
      ((users.foldl (addMember h.id) t).outcome.error = none →
        ∀ u, u ∈ h'.members ↔ u ∈ h.members ∨ u ∈ users ∧ u ∈ t.wire.realm.users) := by
  induction users with
  | nil =>
    intro t h hat
    refine ⟨h, .idle hat rfl rfl (fun hn => hn) (fun hn => hn), rfl, fun _ => rfl, fun _ u => ?_⟩
    simp
  | cons user users ih =>
    intro t h hat
    obtain ⟨h1, hworked1, hattributes1, hcalm1, hmembers1⟩ := addMember_spec hat user
    obtain ⟨h2, hworked2, hattributes2, hcalm2, hmembers2⟩ := ih hworked1.after
    rw [hworked1.id] at hworked2 hcalm2 hmembers2
    refine ⟨h2, hworked1.trans hworked2, hattributes2.trans hattributes1,
      fun hnil => (hcalm2 (hworked1.calm hnil)).trans (hcalm1 hnil), fun hnone u => ?_⟩
    rw [List.foldl_cons] at hnone
    rw [hmembers2 hnone u, hmembers1 (hworked2.error hnone) u, hworked1.users, List.mem_cons]
    constructor
    · rintro ((hu | ⟨rfl, hu⟩) | ⟨hu, hu'⟩)
      · exact .inl hu
      · exact .inr ⟨.inl rfl, hu⟩
      · exact .inr ⟨.inr hu, hu'⟩
    · rintro (hu | ⟨rfl | hu, hu'⟩)
      · exact .inl (.inl hu)
      · exact .inl (.inr ⟨rfl, hu'⟩)
      · exact .inr ⟨hu, hu'⟩

theorem removeMembers_spec (users : List String) :
    ∀ {t : Turn} {h : Held}, At name h t.wire.realm →
    ∃ h', Worked name h h' t (users.foldl (removeMember h.id) t) ∧ h'.attributes = h.attributes ∧
      (t.wire.faults = [] → (users.foldl (removeMember h.id) t).outcome.error = t.outcome.error) ∧
      ((users.foldl (removeMember h.id) t).outcome.error = none →
        ∀ u, u ∈ h'.members ↔ u ∈ h.members ∧ u ∉ users) := by
  induction users with
  | nil =>
    intro t h hat
    refine ⟨h, .idle hat rfl rfl (fun hn => hn) (fun hn => hn), rfl, fun _ => rfl, fun _ u => ?_⟩
    simp
  | cons user users ih =>
    intro t h hat
    obtain ⟨h1, hworked1, hattributes1, hcalm1, hmembers1⟩ := removeMember_spec hat user
    obtain ⟨h2, hworked2, hattributes2, hcalm2, hmembers2⟩ := ih hworked1.after
    rw [hworked1.id] at hworked2 hcalm2 hmembers2
    refine ⟨h2, hworked1.trans hworked2, hattributes2.trans hattributes1,
      fun hnil => (hcalm2 (hworked1.calm hnil)).trans (hcalm1 hnil), fun hnone u => ?_⟩
    rw [List.foldl_cons] at hnone
    rw [hmembers2 hnone u, hmembers1 (hworked2.error hnone) u, List.mem_cons, not_or, and_assoc]

theorem syncMembers_spec (hat : At name h t.wire.realm) (wanted : List String) :
    ∃ h', Worked name h h' t (syncMembers h.id wanted t) ∧ h'.attributes = h.attributes ∧
      (t.wire.faults = [] → (syncMembers h.id wanted t).outcome.error = t.outcome.error) ∧
      (h.members.length ≤ pageSize → (syncMembers h.id wanted t).outcome.error = none →
        ∀ u, u ∈ h'.members ↔ u ∈ wanted ∧ u ∈ t.wire.realm.users) := by
  have hreads := request_reads (listMembers_reads h.id) t.wire
  have hlist : listMembers h.id t.wire.realm
      = (.ok (h.members.take pageSize), t.wire.realm) := by
    unfold listMembers
    rw [hat.held]
  unfold syncMembers
  split
  · rename_i held w hrequest
    obtain ⟨hanswer, -, hcalm⟩ := request_ok hrequest
    rw [hlist] at hanswer
    obtain rfl := Except.ok.inj hanswer
    rw [hrequest] at hreads
    have hidle : Worked name h h t { t with wire := w } :=
      .idle hat hreads rfl (fun hn => hn) hcalm
    obtain ⟨h1, hworked1, hattributes1, hcalm1, hmembers1⟩ :=
      addMembers_spec (wanted.filter (fun u => u ∉ h.members.take pageSize)) hidle.after
    obtain ⟨h2, hworked2, hattributes2, hcalm2, hmembers2⟩ :=
      removeMembers_spec ((OrdMap.keySet (h.members.take pageSize)).filter (fun u => u ∉ wanted))
        hworked1.after
    rw [hworked1.id] at hworked2 hcalm2 hmembers2
    refine ⟨h2, (hidle.trans hworked1).trans hworked2, hattributes2.trans hattributes1,
      fun hnil => (hcalm2 (hworked1.calm (hcalm hnil))).trans (hcalm1 (hcalm hnil)),
      fun hpage hnone u => ?_⟩
    have hadded := hmembers1 (hworked2.error hnone) u
    have hremoved := hmembers2 hnone u
    rw [List.take_of_length_le hpage, List.mem_filter, decide_eq_true_iff] at hadded hremoved
    rw [OrdMap.mem_keySet] at hremoved
    rw [hremoved, hadded, hidle.users]
    constructor
    · rintro ⟨hu | ⟨⟨hu, -⟩, huser⟩, hkept⟩
      · exact ⟨not_not.1 (fun hno => hkept ⟨hu, hno⟩), hat.sound.users name h hat.get u hu⟩
      · exact ⟨hu, huser⟩
    · rintro ⟨hu, huser⟩
      refine ⟨?_, fun hno => hno.2 hu⟩
      by_cases hmem : u ∈ h.members
      · exact .inl hmem
      · exact .inr ⟨⟨hu, hmem⟩, huser⟩
  · rename_i e w hrequest
    obtain ⟨-, hcalm⟩ := request_error hrequest
    rw [hrequest] at hreads
    rw [hlist] at hcalm
    refine ⟨h, .idle hat hreads rfl (fun hnone => absurd hnone (by simp [Turn.fails])) ?_, rfl, ?_,
      fun _ hnone => absurd hnone (by simp [Turn.fails])⟩
    · exact fun hnil => (hcalm hnil).2
    · exact fun hnil => absurd (hcalm hnil).1 (by simp)

theorem keepMembers_spec (hat : At name h t.wire.realm) (wanted : List String) :
    ∃ h', Worked name h h' t (keepMembers name h.id wanted t) ∧ h'.attributes = h.attributes ∧
      (t.wire.faults = [] → (∀ m ∈ wanted, isPersonId m = true) →
        (keepMembers name h.id wanted t).outcome.error = t.outcome.error) ∧
      ((∃ m ∈ wanted, isPersonId m = false) → h'.members = h.members) ∧
      (h.members.length ≤ pageSize → (keepMembers name h.id wanted t).outcome.error = none →
        ∀ u, u ∈ h'.members ↔ u ∈ wanted ∧ u ∈ t.wire.realm.users) := by
  unfold keepMembers
  simp only
  split
  · rename_i hpos
    refine ⟨h, .idle hat rfl rfl (fun hnone => absurd hnone (by simp [Turn.fails])) (fun hn => hn),
      rfl, fun _ hall => ?_, fun _ => rfl, fun _ hnone => absurd hnone (by simp [Turn.fails])⟩
    obtain ⟨m, hm⟩ := List.length_pos_iff_exists_mem.1 hpos
    obtain ⟨hm, hno⟩ := List.mem_filter.1 hm
    exact absurd hno (by simp [hall m hm])
  · rename_i hpos
    obtain ⟨h', hworked, hattributes, hcalm, hmembers⟩ := syncMembers_spec hat wanted
    refine ⟨h', hworked, hattributes, fun hnil _ => hcalm hnil, ?_, hmembers⟩
    rintro ⟨m, hm, hno⟩
    exact absurd (List.length_pos_of_mem (List.mem_filter.2 ⟨hm, by simp [hno]⟩)) hpos

theorem claimsRight_attributesOf (d : DerivedGroup) :
    claimsRight (attributesOf (some d)) d = true := by
  simp [claimsRight]

theorem managed_attributesOf (derived : Option DerivedGroup) :
    managed (attributesOf derived) = true := by
  have hget : (attributesOf derived).get? managedBy = some [managedValue] := by
    unfold attributesOf
    have horganization : managedBy ≠ organizationAttribute := by decide
    have hgroups : managedBy ≠ groupsAttribute := by decide
    cases derived.bind DerivedGroup.jcOrg <;> cases derived.bind DerivedGroup.jcGroups <;>
      simp [OrdMap.get?_insert, horganization, hgroups]
  unfold managed
  rw [hget]
  simp

theorem keepClaims_spec (hat : At name h t.wire.realm) (derived : Option DerivedGroup) :
    ∃ h', Worked name h h' t (keepClaims (some (h.shown name)) derived t) ∧
      h'.members = h.members ∧ (managed h.attributes = true → managed h'.attributes = true) ∧
      (t.wire.faults = [] →
        (keepClaims (some (h.shown name)) derived t).outcome.error = t.outcome.error) ∧
      ((keepClaims (some (h.shown name)) derived t).outcome.error = none →
        ∀ d, derived = some d → claimsRight h'.attributes d = true) := by
  cases derived with
  | none =>
    exact ⟨h, .idle hat rfl rfl (fun hn => hn) (fun hn => hn), rfl, fun hm => hm, fun _ => rfl,
      fun _ d hd => absurd hd (by simp)⟩
  | some d =>
    let k : Held := { h with attributes := attributesOf (some d) }
    have hwrite : writeGroup h.id (attributesOf (some d)) t.wire.realm
        = (.ok (), t.wire.realm.put name k) := by
      unfold writeGroup
      rw [hat.changes]
    have hnodup : k.members.Nodup := hat.sound.nodup name h hat.get
    have husers : ∀ u ∈ k.members, u ∈ t.wire.realm.users := hat.sound.users name h hat.get
    unfold keepClaims
    simp only
    split
    · rename_i hright
      exact ⟨h, .idle hat rfl rfl (fun hn => hn) (fun hn => hn), rfl, fun hm => hm, fun _ => rfl,
        fun _ d' hd => Option.some.inj hd ▸ hright⟩
    · split
      · rename_i u w hrequest
        obtain ⟨h', hafter, hrealm, -, hdone, hanswered⟩ :=
          request_changes hat hwrite rfl hnodup husers hrequest
        obtain rfl := hdone rfl
        exact ⟨k, ⟨hafter, hrealm, rfl, rfl, fun hnone => hnone, fun hnil => (hanswered hnil).2⟩,
          rfl, fun _ => managed_attributesOf _, fun _ => rfl,
          fun _ d' hd => Option.some.inj hd ▸ claimsRight_attributesOf d⟩
      · rename_i e w hrequest
        obtain ⟨h', hafter, hrealm, hh', -, hanswered⟩ :=
          request_changes hat hwrite rfl hnodup husers hrequest
        have hid : h'.id = h.id ∧ h'.members = h.members ∧
            (managed h.attributes = true → managed h'.attributes = true) := by
          rcases hh' with rfl | rfl
          · exact ⟨rfl, rfl, fun hm => hm⟩
          · exact ⟨rfl, rfl, fun _ => managed_attributesOf _⟩
        have hnil : ¬ t.wire.faults = [] := fun hnil => absurd (hanswered hnil).1 (by simp)
        exact ⟨h', ⟨hafter, hrealm, hid.1, rfl, fun hnone => absurd hnone (by simp [Turn.fails]),
          fun hn => absurd hn hnil⟩, hid.2.1, hid.2.2, fun hn => absurd hn hnil,
          fun hnone => absurd hnone (by simp [Turn.fails])⟩

end

/-! ## the turn of one group -/

/-- the group `name` is as it was declared -/
def Matches (r : Realm) (name : String) (wanted : List String) (derived : Option DerivedGroup) :
    Prop :=
  ∃ h, r.groups.get? name = some h ∧ managed h.attributes = true ∧
    (∀ d, derived = some d → claimsRight h.attributes d = true) ∧
    ∀ u, u ∈ h.members ↔ u ∈ wanted ∧ u ∈ r.users

/-- a turn has nothing to do with the group `name`: it is not managed, or not named by ids, or as it
was declared -/
def Quiet (r : Realm) (name : String) (wanted : List String) (derived : Option DerivedGroup) :
    Prop :=
  ∃ h, r.groups.get? name = some h ∧ h.members.length ≤ pageSize ∧ (managed h.attributes = true →
    (∀ d, derived = some d → claimsRight h.attributes d = true) ∧
      ((∃ m ∈ wanted, isPersonId m = false) ∨ ∀ u, u ∈ h.members ↔ u ∈ wanted ∧ u ∈ r.users))

structure Turned (name : String) (wanted : List String) (derived : Option DerivedGroup)
    (Listed : Prop) (w : Wire) (t : Turn) : Prop where
  sound : Sound t.wire.realm
  users : t.wire.realm.users = w.realm.users
  others : ∀ n, n ≠ name → t.wire.realm.groups.get? n = w.realm.groups.get? n
  unmanaged : ∀ h, w.realm.groups.get? name = some h → managed h.attributes = false →
    t.wire.realm = w.realm
  named : t.outcome.name = name
  calm : w.faults = [] → t.wire.faults = []
  told : (∀ h, w.realm.groups.get? name = some h → h.members.length ≤ pageSize) →
    t.outcome.error = none → Matches t.wire.realm name wanted derived
  /-- where every request is answered and the group was listed if there is one -/
  quiet : w.faults = [] → (∀ h, w.realm.groups.get? name = some h → h.members.length ≤ pageSize) →
    wanted.length ≤ pageSize → Listed → Quiet t.wire.realm name wanted derived
  answered : w.faults = [] → Listed →
    (∀ h, w.realm.groups.get? name = some h → managed h.attributes = true) →
    (∀ m ∈ wanted, isPersonId m = true) → t.outcome.error = none

section
variable {name : String} {wanted : List String} {derived : Option DerivedGroup}
  {Listed : Prop} {w : Wire} {h : Held}

theorem keepMembers_turned {t : Turn} (hat : At name h t.wire.realm)
    (hmanaged : managed h.attributes = true)
    (hright : t.outcome.error = none → ∀ d, derived = some d → claimsRight h.attributes d = true)
    (husers : t.wire.realm.users = w.realm.users)
    (hothers : ∀ n, n ≠ name → t.wire.realm.groups.get? n = w.realm.groups.get? n)
    (hours : ∀ k, w.realm.groups.get? name = some k → managed k.attributes = true)
    (hpage : (∀ k, w.realm.groups.get? name = some k → k.members.length ≤ pageSize) →
      h.members.length ≤ pageSize)
    (hname : t.outcome.name = name)
    (hcalm : w.faults = [] → t.wire.faults = [] ∧ t.outcome.error = none) :
    Turned name wanted derived Listed w (keepMembers name h.id wanted t) := by
  obtain ⟨h', hworked, hattributes, hanswered, hunnamed, hmembers⟩ := keepMembers_spec hat wanted
  have hnone : w.faults = [] → (∀ m ∈ wanted, isPersonId m = true) →
      (keepMembers name h.id wanted t).outcome.error = none := fun hnil hall =>
    (hanswered (hcalm hnil).1 hall).trans (hcalm hnil).2
  refine ⟨hworked.after.sound, hworked.users.trans husers, ?_, ?_, hworked.name.trans hname,
    fun hnil => hworked.calm (hcalm hnil).1, ?_, ?_, fun hnil _ _ => hnone hnil⟩
  · intro n hn
    rw [hworked.realm, get?_put, if_neg hn, hothers n hn]
  · intro k hk hno
    exact absurd ((hours k hk).symm.trans hno) (by simp)
  · intro hsmall hok
    refine ⟨h', hworked.after.get, hattributes ▸ hmanaged, hattributes ▸ hright (hworked.error hok),
      fun u => ?_⟩
    rw [hworked.users]
    exact hmembers (hpage hsmall) hok u
  · intro hnil hsmall hwanted _
    by_cases hall : ∀ m ∈ wanted, isPersonId m = true
    · have hiff := hmembers (hpage hsmall) (hnone hnil hall)
      have hlength : h'.members.length ≤ wanted.length :=
        (List.subperm_of_subset (hworked.after.sound.nodup name h' hworked.after.get)
          (fun u hu => ((hiff u).1 hu).1)).length_le
      refine ⟨h', hworked.after.get, le_trans hlength hwanted,
        fun _ => ⟨hattributes ▸ hright (hcalm hnil).2, .inr (fun u => ?_)⟩⟩
      rw [hworked.users]
      exact hiff u
    · simp only [not_forall, Bool.not_eq_true] at hall
      obtain ⟨m, hm, hno⟩ := hall
      exact ⟨h', hworked.after.get, hunnamed ⟨m, hm, hno⟩ ▸ hpage hsmall,
        fun _ => ⟨hattributes ▸ hright (hcalm hnil).2, .inl ⟨m, hm, hno⟩⟩⟩

theorem convergeOne_held (hat : At name h w.realm) :
    Turned name wanted derived Listed w
      (convergeOne name wanted derived (some (h.shown name)) w) := by
  have hshown : (h.shown name).attributes = h.attributes := rfl
  have hid : (h.shown name).id = h.id := rfl
  unfold convergeOne
  simp only [hshown, hid]
  cases hmanaged : managed h.attributes with
  | false =>
    have hno : ∀ k, w.realm.groups.get? name = some k → ¬ managed k.attributes = true := by
      intro k hk hm
      obtain rfl := Option.some.inj (hat.get.symm.trans hk)
      exact absurd (hmanaged.symm.trans hm) (by simp)
    exact ⟨hat.sound, rfl, fun _ _ => rfl, fun _ _ _ => rfl, rfl, fun hnil => hnil,
      fun _ hnone => absurd hnone (by simp [Turn.fails]),
      fun _ hsmall _ _ => ⟨h, hat.get, hsmall h hat.get, fun hm => absurd hm (hno h hat.get)⟩,
      fun _ _ hours => absurd (hours h hat.get) (hno h hat.get)⟩
  | true =>
    simp only [Bool.not_true, Bool.false_eq_true, if_false]
    obtain ⟨h1, hworked1, hmembers1, hstays, hcalm1, hright⟩ :=
      keepClaims_spec (t := ⟨.of name, w⟩) hat derived
    have hturned := @keepMembers_turned _ wanted _ Listed w _ _ hworked1.after
      (hstays hmanaged) hright hworked1.users
      (fun n hn => by rw [hworked1.realm, get?_put, if_neg hn])
      (fun k hk => Option.some.inj (hat.get.symm.trans hk) ▸ hmanaged)
      (fun hsmall => hmembers1 ▸ hsmall h hat.get) hworked1.name
      (fun hnil => ⟨hworked1.calm hnil, hcalm1 hnil⟩)
    rw [hworked1.id] at hturned
    exact hturned

theorem at_created {r : Realm} (hsound : Sound r)
    (attributes : OrdMap String (List String)) :
    At name ⟨r.next, attributes, []⟩
      { r.put name ⟨r.next, attributes, []⟩ with next := r.next + 1 } := by
  have hcases : ∀ n k, (r.groups.insert name ⟨r.next, attributes, []⟩).get? n = some k →
      n = name ∧ k = ⟨r.next, attributes, []⟩ ∨ r.groups.get? n = some k := by
    intro n k hk
    rw [OrdMap.get?_insert] at hk
    split at hk
    · rename_i hn
      exact .inl ⟨hn, (Option.some.inj hk).symm⟩
    · exact .inr hk
  refine ⟨⟨?_, ?_, ?_, ?_⟩, (OrdMap.get?_insert _ _ _ _).trans (if_pos rfl)⟩
  · intro n k hk
    rcases hcases n k hk with ⟨-, rfl⟩ | hk
    · exact Nat.lt_succ_self _
    · exact Nat.lt_succ_of_lt (hsound.fresh n k hk)
  · intro n n' k k' hk hk' hid
    rcases hcases n k hk with ⟨hn, hnew⟩ | hold <;>
      rcases hcases n' k' hk' with ⟨hn', hnew'⟩ | hold'
    · rw [hn, hn']
    · exact absurd (hid.trans (congrArg Held.id hnew)) (Nat.ne_of_lt (hsound.fresh n' k' hold'))
    · exact absurd (hid.symm.trans (congrArg Held.id hnew')) (Nat.ne_of_lt (hsound.fresh n k hold))
    · exact hsound.one n n' k k' hold hold' hid
  · intro n k hk
    rcases hcases n k hk with ⟨-, rfl⟩ | hk
    · exact List.nodup_nil
    · exact hsound.nodup n k hk
  · intro n k hk u hu
    rcases hcases n k hk with ⟨-, rfl⟩ | hk
    · exact absurd hu List.not_mem_nil
    · exact hsound.users n k hk u hu

theorem convergeOne_none (hsound : Sound w.realm)
    (hlisted : Listed → w.realm.groups.get? name = none) :
    Turned name wanted derived Listed w (convergeOne name wanted derived none w) := by
  unfold convergeOne
  simp only
  cases hget : w.realm.groups.get? name with
  | some k =>
    have hcreate : createGroup name (attributesOf derived) w.realm
        = (.error "POST /groups: 409 Conflict", w.realm) := by
      unfold createGroup
      rw [hget]
      rfl
    split
    · rename_i e w' hrequest
      obtain ⟨hrealm, hcalm⟩ := request_error hrequest
      rw [hcreate, or_self] at hrealm
      have hno : ¬ Listed := fun hl => absurd (hget.symm.trans (hlisted hl)) (by simp)
      exact ⟨hrealm ▸ hsound, congrArg Realm.users hrealm,
        fun n _ => congrArg (fun r => r.groups.get? n) hrealm, fun _ _ _ => hrealm, rfl,
        fun hnil => (hcalm hnil).2, fun _ hnone => absurd hnone (by simp [Turn.fails]),
        fun _ _ _ hl => absurd hl hno, fun _ hl => absurd hl hno⟩
    · rename_i u w' hrequest
      have hok := (request_ok hrequest).1
      rw [hcreate] at hok
      exact absurd hok (by simp)
  | none =>
    let k : Held := ⟨w.realm.next, attributesOf derived, []⟩
    let r : Realm := { w.realm.put name k with next := w.realm.next + 1 }
    have hat : At name k r := at_created hsound _
    have hcreate : createGroup name (attributesOf derived) w.realm = (.ok (), r) := by
      unfold createGroup
      rw [hget]
      rfl
    have hclaims : ∀ d, derived = some d → claimsRight k.attributes d = true := by
      intro d hd
      show claimsRight (attributesOf derived) d = true
      rw [hd]
      exact claimsRight_attributesOf d
    have hothers : ∀ n, n ≠ name → r.groups.get? n = w.realm.groups.get? n := fun n hn =>
      (OrdMap.get?_insert _ _ _ _).trans (if_neg hn)
    have hfailed : ∀ t : Turn, t.outcome.name = name → t.outcome.error ≠ none →
        (t.wire.realm = w.realm ∨ t.wire.realm = r) → ¬ w.faults = [] →
        Turned name wanted derived Listed w t := by
      intro t hname herror hrealm hnil
      refine ⟨?_, ?_, ?_, fun h hh _ => absurd (hget.symm.trans hh) (by simp), hname,
        fun hn => absurd hn hnil, fun _ hnone => absurd hnone herror, fun hn => absurd hn hnil,
        fun hn => absurd hn hnil⟩
      · rcases hrealm with hrealm | hrealm
        · exact hrealm ▸ hsound
        · exact hrealm ▸ hat.sound
      · rcases hrealm with hrealm | hrealm <;> rw [hrealm]
        rfl
      · intro n hn
        rcases hrealm with hrealm | hrealm <;> rw [hrealm]
        exact hothers n hn
    split
    · rename_i e w' hrequest
      obtain ⟨hrealm, hcalm⟩ := request_error hrequest
      rw [hcreate] at hrealm hcalm
      exact hfailed _ rfl (by simp [Turn.fails]) hrealm
        (fun hnil => absurd (hcalm hnil).1 (by simp))
    · rename_i u w' hrequest
      obtain ⟨-, hrealm, hcalm⟩ := request_ok hrequest
      rw [hcreate] at hrealm
      have hsearch := request_reads (f := searchGroups name) (fun _ => rfl) w'
      split
      · rename_i e w'' hrequest'
        obtain ⟨-, hcalm'⟩ := request_error hrequest'
        rw [hrequest'] at hsearch
        exact hfailed _ rfl (by simp [Turn.fails]) (.inr (hsearch.trans hrealm))
          (fun hnil => absurd (hcalm' (hcalm hnil)).1 (by simp [searchGroups]))
      · rename_i found w'' hrequest'
        obtain ⟨hfound, -, hcalm'⟩ := request_ok hrequest'
        rw [hrequest'] at hsearch
        have hrealm' : w''.realm = r := hsearch.trans hrealm
        have hlisted : found.find? (fun group => group.name = name) = some (k.shown name) := by
          have hone : found = [k.shown name] := by
            have hanswer := Except.ok.inj hfound
            rw [hrealm, hat.get] at hanswer
            exact hanswer.symm
          rw [hone]
          exact List.find?_cons_of_pos (by simp [Held.shown])
        rw [hlisted]
        exact @keepMembers_turned _ wanted derived _ w _
          ⟨((⟨.of name, w⟩ : Turn).drifts ("the realm had no group '" ++ name ++
            "'; it was created") w').outcome, w''⟩ (hrealm'.symm ▸ hat)
          (managed_attributesOf derived) (fun _ d hd => hclaims d hd)
          (by rw [hrealm']; rfl) (fun n hn => by rw [hrealm']; exact hothers n hn)
          (fun k' hk' => absurd (hget.symm.trans hk') (by simp)) (fun _ => Nat.zero_le _) rfl
          (fun hnil => ⟨hcalm' (hcalm hnil), rfl⟩)

/-! ## a turn with nothing to do -/

theorem request_calm {β : Type} {f : Realm → Except String β × Realm} (hnil : w.faults = []) :
    w.request f = ((f w.realm).1, ⟨(f w.realm).2, []⟩) := by
  unfold Wire.request
  rw [hnil]

theorem request_calm_reads {β : Type} {f : Realm → Except String β × Realm} {b : β}
    (hnil : w.faults = []) (hf : f w.realm = (.ok b, w.realm)) : w.request f = (.ok b, w) := by
  rw [request_calm hnil, hf, ← hnil]

theorem addMembers_idle {id : Nat} (users : List String) : ∀ t : Turn, t.wire.faults = [] →
    (∀ u ∈ users, u ∉ t.wire.realm.users) →
    (users.foldl (addMember id) t).wire = t.wire ∧
      (users.foldl (addMember id) t).outcome.drift = t.outcome.drift := by
  induction users with
  | nil => exact fun t _ _ => ⟨rfl, rfl⟩
  | cons user users ih =>
    intro t hnil hno
    have hadd : addMember id t user = t.warns
        (user ++ " belongs in the group and the realm has no user with that id") t.wire := by
      unfold addMember
      rw [request_calm_reads (b := false) hnil]
      unfold userExists
      rw [decide_eq_false (hno user List.mem_cons_self)]
    rw [List.foldl_cons, hadd]
    exact ih _ hnil (fun u hu => hno u (List.mem_cons_of_mem _ hu))

theorem keepMembers_idle {t : Turn} (hat : At name h t.wire.realm) (hnil : t.wire.faults = [])
    (hpage : h.members.length ≤ pageSize)
    (hmembers : (∃ m ∈ wanted, isPersonId m = false) ∨
      ∀ u, u ∈ h.members ↔ u ∈ wanted ∧ u ∈ t.wire.realm.users) :
    (keepMembers name h.id wanted t).wire = t.wire ∧
      (keepMembers name h.id wanted t).outcome.drift = t.outcome.drift := by
  unfold keepMembers
  simp only
  split
  · exact ⟨rfl, rfl⟩
  · rename_i hpos
    have hmembers : ∀ u, u ∈ h.members ↔ u ∈ wanted ∧ u ∈ t.wire.realm.users := by
      refine hmembers.resolve_left ?_
      rintro ⟨m, hm, hno⟩
      exact hpos (List.length_pos_of_mem (List.mem_filter.2 ⟨hm, by simp [hno]⟩))
    have hlist : listMembers h.id t.wire.realm = (.ok h.members, t.wire.realm) := by
      unfold listMembers
      rw [hat.held]
      show (Except.ok (h.members.take pageSize), _) = _
      rw [List.take_of_length_le hpage]
    have hremoved : (OrdMap.keySet h.members).filter (fun u => u ∉ wanted) = [] := by
      rw [List.filter_eq_nil_iff]
      intro u hu
      have hw := ((hmembers u).1 ((OrdMap.mem_keySet _ _).1 hu)).1
      simp [hw]
    unfold syncMembers
    rw [request_calm_reads hnil hlist]
    simp only [hremoved, List.foldl_nil]
    exact addMembers_idle _ _ hnil (fun u hu huser => by
      obtain ⟨hu, hno⟩ := List.mem_filter.1 hu
      exact of_decide_eq_true hno ((hmembers u).2 ⟨hu, huser⟩))

theorem convergeOne_quiet {held : Option KcGroup} (hsound : Sound w.realm) (hnil : w.faults = [])
    (hquiet : Quiet w.realm name wanted derived)
    (hseen : ∀ g, held = some g → ∃ k, w.realm.groups.get? name = some k ∧ g = k.shown name) :
    (convergeOne name wanted derived held w).wire = w ∧
      (convergeOne name wanted derived held w).outcome.drift = [] := by
  obtain ⟨h, hget, hpage, hquiet⟩ := hquiet
  unfold convergeOne
  cases held with
  | none =>
    have hcreate : createGroup name (attributesOf derived) w.realm
        = (.error "POST /groups: 409 Conflict", w.realm) := by
      unfold createGroup
      rw [hget]
      rfl
    simp only [request_calm hnil, hcreate]
    exact ⟨by rw [← hnil]; rfl, rfl⟩
  | some g =>
    obtain ⟨k, hk, rfl⟩ := hseen g rfl
    obtain rfl := Option.some.inj (hget.symm.trans hk)
    have hshown : (h.shown name).attributes = h.attributes := rfl
    have hid : (h.shown name).id = h.id := rfl
    simp only [hshown, hid]
    cases hmanaged : managed h.attributes with
    | false => exact ⟨rfl, rfl⟩
    | true =>
      simp only [Bool.not_true, Bool.false_eq_true, if_false]
      obtain ⟨hright, hmembers⟩ := hquiet hmanaged
      have hclaims : keepClaims (some (h.shown name)) derived ⟨.of name, w⟩ = ⟨.of name, w⟩ := by
        unfold keepClaims
        cases derived with
        | none => rfl
        | some d => exact if_pos (hright d rfl)
      rw [hclaims]
      exact keepMembers_idle ⟨hsound, hget⟩ hnil hpage hmembers

end

end Groups
end Portal
