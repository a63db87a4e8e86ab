import Portal.Base.DateTime
import Portal.Base.Machine
import Portal.AccessRequests.Request

/-!
# Deciding access requests (`api/access_requests.rs`: `approve_request`, `decline_request`,
`revoke_request`)

An owner's decision reads the request and main, claims the request by a compare-and-set on its state,
proposes its Change, and records the Change or takes the claim back.  Owners decide at the same time,
and the Changes they open are merged or closed at any later time.

* `Office`, `step`    the requests, main's Policies, the Changes opened and the decisions in flight;
* `Moves`             a request moves as it is decided, and a claim is taken back by its own owner;
* `latest`            the Change of the latest decision recorded;
* `record_follows_decisions`   **the law**, where a grant's Change is recorded and merged before its
  request is revoked, and a revoke ends what main holds.
-/

namespace Portal
namespace AccessRequests

open Changes Import

inductive Decision where
  | approve
  | decline
  | revoke
deriving DecidableEq

def Decision.source : Decision → State
  | .approve | .decline => .pending
  | .revoke => .approved

def Decision.target : Decision → State
  | .approve => .approved
  | .decline => .declined
  | .revoke => .revoked

inductive Phase where
  /-- the request is read -/
  | read
  /-- main is read -/
  | ready
  /-- the request is claimed, and nothing proposed yet -/
  | claimed
  | proposed (change : String)
  /-- the proposal failed, and the claim is to be taken back -/
  | refused
  | recorded (change : String)
  | ended
deriving DecidableEq

structure Session where
  owner : String
  /-- the request as it was read -/
  request : AccessRequest
  decision : Decision
  reason : Option String
  /-- main as it was read, and when -/
  endpoint : Option (Of "Endpoint")
  policies : List (Of "Policy")
  seenAt : Int
  phase : Phase

inductive Status where
  | opened
  | merged
  | closed
deriving DecidableEq

structure Opened where
  name : String
  request : String
  decision : Decision
  bundle : List Envelope
  status : Status

structure Office where
  rows : String → Option AccessRequest
  endpoints : String → Option (Of "Endpoint")
  policies : List (Of "Policy")
  changes : List Opened
  sessions : Nat → Option Session
  clock : Int
  /-- the claims that stand on each request, the newest first -/
  standing : String → List (Nat × Decision)

/-- the clock's format, the api version, and which ids name a person -/
structure Platform extends Rfc3339 where
  apiVersion : String
  isPersonId : String → Bool

inductive Act where
  | read (i : Nat) (owner : String) (decision : Decision) (request : String) (reason : Option String)
  | prepare (i : Nat)
  | claim (i : Nat)
  | propose (i : Nat) (change : String)
  | fail (i : Nat)
  | record (i : Nat)
  | takeBack (i : Nat)
  | merge (change : String)
  | close (change : String)
  | tick (passed : Nat)

/-! ## the steps -/

/-- what an owner may decide of the request as it is read: nobody approves their own -/
def Permits (p : Platform) (owner : String) (row : AccessRequest) : Decision → Bool
  | .approve => row.requestedBy ≠ owner && row.state = .pending &&
      match row.requester with
      | .person person => p.isPersonId person
      | .pipeline _ => true
  | .decline => true
  | .revoke => row.state = .approved

def Session.bundle (p : Platform) (s : Session) : List Envelope :=
  match s.decision, s.endpoint with
  | .approve, some endpoint => grantBundle p.toRfc3339 p.apiVersion s.request endpoint
  | .revoke, endpoint => revokeBundle p.toRfc3339 s.request endpoint s.policies s.seenAt
  | _, _ => []

def asKind (kind : String) (e : Envelope) : Option (Of kind) :=
  if h : e.kind = kind then some ⟨e, h⟩ else none

/-- a manifest of this name among those of a bundle -/
def holds (bundle : List Envelope) (name : String) : Bool :=
  bundle.any fun e => e.kind = "Policy" && e.name = name

/-- main's Policies once a bundle is merged -/
def written (policies : List (Of "Policy")) (bundle : List Envelope) : List (Of "Policy") :=
  policies.filter (fun p => !holds bundle p.val.name) ++ bundle.filterMap (asKind "Policy")

/-- the request once it is claimed: `decide` -/
def AccessRequest.claimed (row : AccessRequest) (s : Session) (now : Int) : AccessRequest :=
  { row with
    state := s.decision.target
    decidedBy := some s.owner
    decidedAt := some now
    decisionReason := s.reason <|> row.decisionReason }

/-- the request as it was before a claim: `take_back` -/
def AccessRequest.restored (row : AccessRequest) (s : Session) : AccessRequest :=
  { row with
    state := s.request.state
    decidedBy := s.request.decidedBy
    decidedAt := s.request.decidedAt
    decisionReason := s.request.decisionReason }

/-- whether a request is still as the session's claim left it -/
def Session.standsOn (s : Session) (row : AccessRequest) : Bool :=
  row.state = s.decision.target && row.decidedBy = some s.owner && row.change = s.request.change

section
variable (p : Platform) (o : Office)

def goesOn (i : Nat) (s : Session) (phase : Phase) : Office :=
  { o with sessions := Function.update o.sessions i (some { s with phase }) }

def withRow (id : String) (row : AccessRequest) : Office :=
  { o with rows := Function.update o.rows id (some row) }

def withStanding (id : String) (claims : List (Nat × Decision)) : Office :=
  { o with standing := Function.update o.standing id claims }

variable {o} in
theorem sessions_goesOn {i : Nat} {s : Session} {phase : Phase} {j : Nat} {s₁ : Session}
    (h : (goesOn o i s phase).sessions j = some s₁) :
    (j = i ∧ s₁ = { s with phase }) ∨ (j ≠ i ∧ o.sessions j = some s₁) := by
  by_cases hji : j = i
  · subst hji
    have hself : some { s with phase } = some s₁ := by simpa [goesOn] using h
    exact .inl ⟨rfl, (Option.some.inj hself).symm⟩
  · exact .inr ⟨hji, by simpa [goesOn, hji] using h⟩

variable {o} in
theorem rows_withRow {id : String} {row : AccessRequest} {id' : String} {row' : AccessRequest}
    (h : (withRow o id row).rows id' = some row') :
    (id' = id ∧ row' = row) ∨ (id' ≠ id ∧ o.rows id' = some row') := by
  by_cases hid : id' = id
  · subst hid
    have hself : some row = some row' := by simpa [withRow] using h
    exact .inl ⟨rfl, (Option.some.inj hself).symm⟩
  · exact .inr ⟨hid, by simpa [withRow, hid] using h⟩

def claim (i : Nat) (s : Session) : Office :=
  match o.rows s.request.id with
  | some row =>
    if row.state = s.decision.source then
      withStanding (goesOn (withRow o s.request.id (row.claimed s o.clock)) i s
          (if s.decision = .decline then .ended else .claimed))
        s.request.id ((i, s.decision) :: o.standing s.request.id)
    else goesOn o i s .ended
  | none => goesOn o i s .ended

/-- the claim is taken back, where the request is as it left it -/
def takeBack (i : Nat) (s : Session) : Office :=
  match o.rows s.request.id with
  | some row =>
    if s.standsOn row then
      withStanding (goesOn (withRow o s.request.id (row.restored s)) i s .ended)
        s.request.id (o.standing s.request.id).tail
    else goesOn o i s .ended
  | none => goesOn o i s .ended

/-- the session with main as it reads it -/
def Session.sees (s : Session) : Session :=
  { s with endpoint := o.endpoints s.request.endpoint, policies := o.policies, seenAt := o.clock }

/-- a value that members are written to: writing one to any other ends the call -/
def writableTo (v : Value) : Bool := v = .null || v.asObject.isSome

/-- a Policy whose end can be written -/
def endable (policy : Envelope) : Bool :=
  writableTo policy.spec && writableTo ((policy.spec.get? "validity").getD .null)

/-- an approval needs the Endpoint, and a revoke something to propose -/
def Session.goesReady (s : Session) : Phase :=
  match s.decision with
  | .approve => if s.endpoint.isSome then .ready else .ended
  | .decline => .ready
  | .revoke =>
    if (s.bundle p).isEmpty || (ownPolicy s.request s.policies).any (fun q => !endable q.val) then .ended
    else .ready

def prepare (i : Nat) (s : Session) : Office := goesOn o i (s.sees o) ((s.sees o).goesReady p)

def propose (i : Nat) (s : Session) (change : String) : Office :=
  { goesOn o i s (.proposed change) with
    changes := o.changes ++ [⟨change, s.request.id, s.decision, s.bundle p, .opened⟩] }

def setStatus (name : String) (status : Status) : List Opened :=
  o.changes.map fun c => if c.name = name then { c with status } else c

def merge (c : Opened) : Office :=
  { o with
    changes := setStatus o c.name .merged
    policies := written o.policies c.bundle
    endpoints := fun n =>
      (c.bundle.findSome? fun e => if e.name = n then asKind "Endpoint" e else none)
        <|> o.endpoints n }

def step (o : Office) : Act → Option Office
  | .read i owner decision id reason =>
    match o.sessions i, o.rows id with
    | none, some row =>
      if Permits p owner row decision then
        some (goesOn o i ⟨owner, row, decision, reason, none, [], o.clock, .read⟩ .read)
      else none
    | _, _ => none
  | .prepare i =>
    match o.sessions i with
    | some s => if s.phase = .read then some (prepare p o i s) else none
    | none => none
  | .claim i =>
    match o.sessions i with
    | some s => if s.phase = .ready then some (claim o i s) else none
    | none => none
  | .propose i change =>
    match o.sessions i with
    | some s =>
      if s.phase = .claimed ∧ ∀ c ∈ o.changes, c.name ≠ change then
        some (propose p o i s change)
      else none
    | none => none
  | .fail i =>
    match o.sessions i with
    | some s => if s.phase = .claimed then some (goesOn o i s .refused) else none
    | none => none
  | .record i =>
    match o.sessions i with
    | some s =>
      match s.phase, o.rows s.request.id with
      | .proposed change, some row =>
        some (goesOn (withRow o s.request.id { row with change := some change }) i s
          (.recorded change))
      | _, _ => none
    | none => none
  | .takeBack i =>
    match o.sessions i with
    | some s => if s.phase = .refused then some (takeBack o i s) else none
    | none => none
  | .merge name =>
    match o.changes.find? (fun c => c.name = name) with
    | some c =>
      if c.status = .opened then some (merge o c) else none
    | none => none
  | .close name =>
    match o.changes.find? (fun c => c.name = name) with
    | some c =>
      if c.status = .opened then some { o with changes := setStatus o c.name .closed } else none
    | none => none
  | .tick passed => some { o with clock := o.clock + passed }

end

inductive Takes (p : Platform) (o : Office) : Act → Office → Prop
  | read {i : Nat} {owner : String} {d : Decision} {id : String} {reason : Option String}
      {row : AccessRequest} (hi : o.sessions i = none) (hrow : o.rows id = some row)
      (hpermits : Permits p owner row d = true) :
      Takes p o (.read i owner d id reason)
        (goesOn o i ⟨owner, row, d, reason, none, [], o.clock, .read⟩ .read)
  | prepare {i : Nat} {s : Session} (hi : o.sessions i = some s) (hphase : s.phase = .read) :
      Takes p o (.prepare i) (prepare p o i s)
  | claim {i : Nat} {s : Session} (hi : o.sessions i = some s) (hphase : s.phase = .ready) :
      Takes p o (.claim i) (claim o i s)
  | propose {i : Nat} {s : Session} {change : String} (hi : o.sessions i = some s)
      (hphase : s.phase = .claimed) (hfresh : ∀ c ∈ o.changes, c.name ≠ change) :
      Takes p o (.propose i change) (propose p o i s change)
  | fail {i : Nat} {s : Session} (hi : o.sessions i = some s) (hphase : s.phase = .claimed) :
      Takes p o (.fail i) (goesOn o i s .refused)
  | record {i : Nat} {s : Session} {change : String} {row : AccessRequest}
      (hi : o.sessions i = some s) (hphase : s.phase = .proposed change)
      (hrow : o.rows s.request.id = some row) :
      Takes p o (.record i)
        (goesOn (withRow o s.request.id { row with change := some change }) i s (.recorded change))
  | takeBack {i : Nat} {s : Session} (hi : o.sessions i = some s) (hphase : s.phase = .refused) :
      Takes p o (.takeBack i) (takeBack o i s)
  | merge {c : Opened} (hc : c ∈ o.changes) (hopen : c.status = .opened) :
      Takes p o (.merge c.name) (merge o c)
  | close {c : Opened} (hc : c ∈ o.changes) (hopen : c.status = .opened) :
      Takes p o (.close c.name) { o with changes := setStatus o c.name .closed }
  | tick {passed : Nat} : Takes p o (.tick passed) { o with clock := o.clock + passed }

theorem takes_of_step {p : Platform} {o o' : Office} {a : Act} (h : step p o a = some o') :
    Takes p o a o' := by
  cases a with
  | read i owner d id reason =>
    simp only [step] at h
    split at h
    · split at h
      · rename_i row hi hrow hpermits
        exact Option.some.inj h ▸ .read hi hrow hpermits
      · cases h
    · cases h
  | prepare i | claim i | fail i | takeBack i =>
    simp only [step] at h
    split at h
    · rename_i s hi
      split at h
      · rename_i hphase
        cases Option.some.inj h
        constructor <;> assumption
      · cases h
    · cases h
  | propose i change =>
    simp only [step] at h
    split at h
    · rename_i s hi
      split at h
      · rename_i hphase
        exact Option.some.inj h ▸ .propose hi hphase.1 hphase.2
      · cases h
    · cases h
  | record i =>
    simp only [step] at h
    split at h
    · rename_i s hi
      split at h
      · rename_i change row hphase hrow
        exact Option.some.inj h ▸ .record hi hphase hrow
      · cases h
    · cases h
  | merge name | close name =>
    simp only [step] at h
    split at h
    · rename_i c hc
      have hname : c.name = name := by simpa using List.find?_some hc
      subst hname
      split at h
      · rename_i hopen
        cases Option.some.inj h
        constructor
        · exact List.mem_of_find?_eq_some hc
        · exact hopen
      · cases h
    · cases h
  | tick passed => exact Option.some.inj h ▸ .tick

/-! ## the law -/

abbrev Moment := Trans Office Act

/-- **The request moves as it is decided**: a claim moves it from the state the decision finds to the
one it leaves, an approval never by who filed it, and a claim is taken back by its own session, whose
proposal failed, and while it is the newest. -/
def Moves (u : Moment) : Prop :=
  ∀ id row row', u.before.rows id = some row → u.after.rows id = some row' →
    row'.state = row.state ∨
    (∃ i s, u.act = .claim i ∧ u.before.sessions i = some s ∧ s.request.id = id ∧
      row.state = s.decision.source ∧ row'.state = s.decision.target ∧
      row'.decidedBy = some s.owner ∧ (s.decision = .approve → s.owner ≠ row.requestedBy)) ∨
    (∃ i s, u.act = .takeBack i ∧ u.before.sessions i = some s ∧ s.phase = .refused ∧
      s.request.id = id ∧ (u.before.standing id).head? = some (i, s.decision) ∧
      row.state = s.decision.target ∧ row'.state = s.decision.source)

def Session.recordedChange (s : Session) : Option String :=
  match s.phase with
  | .recorded change => some change
  | _ => none

def newest (sessions : Nat → Option Session) (claims : List (Nat × Decision)) : Option String :=
  claims.findSome? fun claim => (sessions claim.1).bind Session.recordedChange

/-- the Change of the latest decision that recorded one -/
def latest (o : Office) (id : String) : Option String := newest o.sessions (o.standing id)

/-- **The Change recorded with a request is that of its latest recorded decision.** -/
def Recorded (o : Office) : Prop := ∀ id row, o.rows id = some row → row.change = latest o id

def describes (e : Envelope) : Option String := (e.metadata.lookup "description").bind (textAt · "en")

def OfRequest (r : AccessRequest) (e : Envelope) : Prop := describes e = some (description r)

instance (r : AccessRequest) (e : Envelope) : Decidable (OfRequest r e) := by
  unfold OfRequest
  infer_instance

section
variable (t : Rfc3339) (o : Office)

/-- no decision of the request is between its claim and its Change, and no Change of it is open -/
structure Done (id : String) : Prop where
  sessions : ∀ i s, o.sessions i = some s → s.request.id = id → s.phase ≠ .claimed ∧ s.phase ≠ .refused
  changes : ∀ c ∈ o.changes, c.request = id → c.status ≠ .opened

/-- **A revoked request whose Changes are all merged or closed has no Policy in force.** -/
def Ended : Prop :=
  ∀ id row, o.rows id = some row → row.state = .revoked → Done o id →
    ∀ q ∈ o.policies, OfRequest row q.val → inForce t o.clock q.val = false

end

/-- what a step of an orderly run does not do: record an approval's Change over another, merge a
grant of a revoked request, revoke without the Policies main holds by then, close a revoke's Change
while the grant is in force, or fail to take a revoke back -/
structure Orderly (t : Rfc3339) (u : Moment) : Prop where
  records : ∀ i s row, u.act = .record i → u.before.sessions i = some s → s.decision = .approve →
    u.before.rows s.request.id = some row → row.change = none
  merges : ∀ c ∈ u.before.changes, u.act = .merge c.name → c.decision = .approve →
    ∀ row, u.before.rows c.request = some row → row.state ≠ .revoked
  claims : ∀ i s, u.act = .claim i → u.before.sessions i = some s → s.decision = .revoke →
    ∀ q ∈ u.before.policies, OfRequest s.request q.val → inForce t u.before.clock q.val = true →
      ∃ q' ∈ s.policies, q'.val.name = q.val.name
  closes : ∀ c ∈ u.before.changes, u.act = .close c.name → c.decision = .revoke →
    ∀ row, u.before.rows c.request = some row → ∀ q ∈ u.before.policies, OfRequest row q.val →
      inForce t u.before.clock q.val = false
  takesBack : ∀ i s row, u.act = .takeBack i → u.before.sessions i = some s → s.decision = .revoke →
    u.before.rows s.request.id = some row → s.standsOn row = true

/-- a request id: `ar-` and twelve hexadecimal digits -/
def isId (id : String) : Bool :=
  Text.utf8Len id.toList = 15 && Text.startsWith "ar-" id &&
    (id.toList.drop 3).all fun c => Text.isDigit c || ('a' ≤ c && c ≤ 'f')

/-- the office before the first decision -/
structure Opens (o : Office) : Prop where
  rows : ∀ id row, o.rows id = some row →
    row.id = id ∧ isId id = true ∧ row.state = .pending ∧ row.change = none
  policies : ∀ q ∈ o.policies, ∀ id row, o.rows id = some row → ¬ OfRequest row q.val
  sessions : o.sessions = fun _ => none
  changes : o.changes = []
  standing : o.standing = fun _ => []

/-! ## claims that stand -/

inductive Stands : State → List (Nat × Decision) → Prop
  | pending : Stands .pending []
  | approved (i : Nat) : Stands .approved [(i, .approve)]
  | declined (i : Nat) : Stands .declined [(i, .decline)]
  | revoked (i j : Nat) : Stands .revoked [(j, .revoke), (i, .approve)]

theorem Stands.push {d : Decision} {claims : List (Nat × Decision)} (i : Nat)
    (h : Stands d.source claims) : Stands d.target ((i, d) :: claims) := by
  cases d with
  | approve => cases h; exact .approved i
  | decline => cases h; exact .declined i
  | revoke => cases h; exact .revoked _ i

theorem Stands.pop {d : Decision} {claims : List (Nat × Decision)} {i : Nat}
    (h : Stands d.target claims) (hmem : (i, d) ∈ claims) :
    ∃ rest, claims = (i, d) :: rest ∧ Stands d.source rest := by
  cases d with
  | approve =>
    cases h
    obtain ⟨rfl, -⟩ := Prod.mk.inj (List.mem_singleton.mp hmem)
    exact ⟨[], rfl, .pending⟩
  | decline =>
    cases h
    obtain ⟨rfl, -⟩ := Prod.mk.inj (List.mem_singleton.mp hmem)
    exact ⟨[], rfl, .pending⟩
  | revoke =>
    cases h with
    | revoked j k =>
      rcases List.mem_cons.mp hmem with heq | hmem
      · obtain ⟨rfl, -⟩ := Prod.mk.inj heq
        exact ⟨[(j, .approve)], rfl, .approved j⟩
      · have hne := (Prod.mk.inj (List.mem_singleton.mp hmem)).2
        cases hne

/-- the phases of a session whose claim stands -/
def Phase.Claims : Phase → Bool
  | .claimed | .proposed _ | .refused | .recorded _ => true
  | .read | .ready | .ended => false

def asked (r : AccessRequest) : AccessRequest :=
  { r with
    state := .pending, decidedBy := none, decidedAt := none, decisionReason := none, change := none }

structure Session.Fits (f : String → Option AccessRequest) (s : Session) : Prop where
  asks : f s.request.id = some (asked s.request)
  finds : s.decision ≠ .decline → s.request.state = s.decision.source
  owner : s.decision = .approve → s.owner ≠ s.request.requestedBy

/-- **The invariant of the claims.** -/
structure Sound (f : String → Option AccessRequest) (o : Office) : Prop where
  rows : ∀ id, (o.rows id).map asked = f id
  fits : ∀ i s, o.sessions i = some s → s.Fits f
  stands : ∀ id row, o.rows id = some row → Stands row.state (o.standing id)
  claims : ∀ i s, o.sessions i = some s → s.phase.Claims = true →
    (i, s.decision) ∈ o.standing s.request.id ∧ s.decision ≠ .decline
  held : ∀ id i d, (i, d) ∈ o.standing id →
    ∃ s, o.sessions i = some s ∧ s.request.id = id ∧ s.decision = d

variable {f : String → Option AccessRequest} {p : Platform} {o o' : Office} {i : Nat} {s : Session}

theorem Session.Fits.congr {s' : Session} (h : s.Fits f) (hrequest : s'.request = s.request)
    (hdecision : s'.decision = s.decision) (howner : s'.owner = s.owner) : s'.Fits f where
  asks := hrequest ▸ h.asks
  finds hd := by rw [hrequest, hdecision]; exact h.finds (hdecision ▸ hd)
  owner hd := by rw [hrequest, howner]; exact h.owner (hdecision ▸ hd)

theorem Sound.held_goesOn (hs : Sound f o) (hi : o.sessions i = some s) {s' : Session}
    (hrequest : s'.request = s.request) (hdecision : s'.decision = s.decision) (phase : Phase)
    {id : String} {j : Nat} {d : Decision} (hmem : (j, d) ∈ o.standing id) :
    ∃ s₁, (AccessRequests.goesOn o i s' phase).sessions j = some s₁ ∧ s₁.request.id = id ∧
      s₁.decision = d := by
  obtain ⟨s₁, hs₁, hid, hd⟩ := hs.held id j d hmem
  by_cases hji : j = i
  · subst hji
    obtain rfl := Option.some.inj (hi.symm.trans hs₁)
    exact ⟨_, Function.update_self .., hrequest ▸ hid, hdecision ▸ hd⟩
  · exact ⟨s₁, (Function.update_of_ne hji ..).trans hs₁, hid, hd⟩

theorem Sound.goesOn (hs : Sound f o) (hi : o.sessions i = some s) {s' : Session}
    (hrequest : s'.request = s.request) (hdecision : s'.decision = s.decision)
    (howner : s'.owner = s.owner) {phase : Phase}
    (hphase : phase.Claims = true → s.phase.Claims = true) :
    Sound f (goesOn o i s' phase) where
  rows := hs.rows
  fits j s₁ hj := by
    rcases sessions_goesOn hj with ⟨rfl, rfl⟩ | ⟨-, hj⟩
    · exact (hs.fits j s hi).congr hrequest hdecision howner
    · exact hs.fits j s₁ hj
  stands := hs.stands
  claims j s₁ hj hclaims := by
    rcases sessions_goesOn hj with ⟨rfl, rfl⟩ | ⟨-, hj⟩
    · show (j, s'.decision) ∈ o.standing s'.request.id ∧ s'.decision ≠ .decline
      rw [hrequest, hdecision]
      exact hs.claims j s hi (hphase hclaims)
    · exact hs.claims j s₁ hj hclaims
  held id j d hmem := hs.held_goesOn hi hrequest hdecision phase hmem

theorem Sound.withRow (hs : Sound f o) {id : String} {row row' : AccessRequest}
    (hrow : o.rows id = some row) (hasked : asked row' = asked row)
    (hstate : row'.state = row.state) : Sound f (withRow o id row') where
  rows id' := by
    by_cases hid : id' = id
    · subst hid
      rw [← hs.rows id', hrow]
      simp [AccessRequests.withRow, hasked]
    · rw [← hs.rows id']
      simp [AccessRequests.withRow, hid]
  fits := hs.fits
  stands id' row₁ h₁ := by
    rcases rows_withRow h₁ with ⟨rfl, rfl⟩ | ⟨-, h₁⟩
    · rw [hstate]
      exact hs.stands id' row hrow
    · exact hs.stands id' row₁ h₁
  claims := hs.claims
  held := hs.held

@[simp] theorem standing_withStanding_self (o : Office) (id : String)
    (claims : List (Nat × Decision)) : (withStanding o id claims).standing id = claims :=
  Function.update_self ..

theorem standing_withStanding_of_ne (o : Office) {id id' : String} (h : id' ≠ id)
    (claims : List (Nat × Decision)) : (withStanding o id claims).standing id' = o.standing id' :=
  Function.update_of_ne h ..

theorem mem_withStanding {o : Office} {id : String} {claims : List (Nat × Decision)} {id' : String}
    {c : Nat × Decision} (h : c ∈ (withStanding o id claims).standing id') :
    (id' = id ∧ c ∈ claims) ∨ (id' ≠ id ∧ c ∈ o.standing id') := by
  by_cases hid : id' = id
  · subst hid
    exact .inl ⟨rfl, by simpa using h⟩
  · exact .inr ⟨hid, by rwa [standing_withStanding_of_ne o hid] at h⟩

theorem map_asked_withRow (hs : Sound f o) {id : String} {row row' : AccessRequest}
    (hrow : o.rows id = some row) (hasked : asked row' = asked row) (id' : String) :
    ((withRow o id row').rows id').map asked = f id' := by
  rw [← hs.rows id']
  by_cases hid : id' = id
  · subst hid
    simp [withRow, hrow, hasked]
  · simp [withRow, hid]

theorem sound_claim (hs : Sound f o) (hi : o.sessions i = some s) : Sound f (claim o i s) := by
  have hends : Sound f (goesOn o i s .ended) := hs.goesOn hi rfl rfl rfl (by simp [Phase.Claims])
  unfold claim
  split
  case h_2 => exact hends
  rename_i row hrow
  split
  case isFalse => exact hends
  rename_i hsource
  refine ⟨map_asked_withRow hs hrow rfl, fun j s₁ hj => ?_, fun id row₁ h₁ => ?_,
    fun j s₁ hj hclaims => ?_, fun id j d hmem => ?_⟩
  · rcases sessions_goesOn hj with ⟨rfl, rfl⟩ | ⟨-, hj⟩
    · exact (hs.fits j s hi).congr rfl rfl rfl
    · exact hs.fits j s₁ hj
  · rcases rows_withRow h₁ with ⟨rfl, rfl⟩ | ⟨hid, h₁⟩
    · have hbefore : Stands s.decision.source (o.standing s.request.id) :=
        hsource ▸ hs.stands _ row hrow
      rw [standing_withStanding_self]
      exact hbefore.push i
    · rw [standing_withStanding_of_ne _ hid]
      exact hs.stands id row₁ h₁
  · rcases sessions_goesOn hj with ⟨rfl, rfl⟩ | ⟨hji, hj⟩
    · refine ⟨by simp, fun hdecline => ?_⟩
      have hphase : Phase.Claims (if s.decision = .decline then .ended else .claimed) = true :=
        hclaims
      rw [if_pos hdecline] at hphase
      cases hphase
    · obtain ⟨hmem, hne⟩ := hs.claims j s₁ hj hclaims
      refine ⟨?_, hne⟩
      by_cases hid : s₁.request.id = s.request.id
      · rw [hid] at hmem ⊢
        rw [standing_withStanding_self]
        exact List.mem_cons_of_mem _ hmem
      · rw [standing_withStanding_of_ne _ hid]
        exact hmem
  · rcases mem_withStanding hmem with ⟨rfl, hnew⟩ | ⟨-, hold⟩
    · rcases List.mem_cons.mp hnew with heq | hold
      · obtain ⟨rfl, rfl⟩ := Prod.mk.inj heq
        exact ⟨_, Function.update_self .., rfl, rfl⟩
      · exact hs.held_goesOn hi rfl rfl _ hold
    · exact hs.held_goesOn hi rfl rfl _ hold

theorem standing_of_standsOn (hs : Sound f o) (hi : o.sessions i = some s)
    (hclaims : s.phase.Claims = true) {row : AccessRequest} (hrow : o.rows s.request.id = some row)
    (hon : s.standsOn row = true) :
    ∃ rest, o.standing s.request.id = (i, s.decision) :: rest ∧ Stands s.decision.source rest := by
  have hstands := hs.stands _ row hrow
  have htarget : row.state = s.decision.target := by
    simp only [Session.standsOn, Bool.and_eq_true, decide_eq_true_eq] at hon
    exact hon.1.1
  rw [htarget] at hstands
  exact hstands.pop (hs.claims i s hi hclaims).1

theorem sound_takeBack (hs : Sound f o) (hi : o.sessions i = some s)
    (hclaims : s.phase.Claims = true) : Sound f (takeBack o i s) := by
  have hends : Sound f (goesOn o i s .ended) := hs.goesOn hi rfl rfl rfl (by simp [Phase.Claims])
  unfold takeBack
  split
  case h_2 => exact hends
  rename_i row hrow
  split
  case isFalse => exact hends
  rename_i hon
  obtain ⟨rest, hstanding, hrest⟩ := standing_of_standsOn hs hi hclaims hrow hon
  rw [hstanding, List.tail_cons]
  refine ⟨map_asked_withRow hs hrow rfl, fun j s₁ hj => ?_, fun id row₁ h₁ => ?_,
    fun j s₁ hj hclaims₁ => ?_, fun id j d hmem => ?_⟩
  · rcases sessions_goesOn hj with ⟨rfl, rfl⟩ | ⟨-, hj⟩
    · exact (hs.fits j s hi).congr rfl rfl rfl
    · exact hs.fits j s₁ hj
  · rcases rows_withRow h₁ with ⟨rfl, rfl⟩ | ⟨hid, h₁⟩
    · have hsource : (row.restored s).state = s.decision.source :=
        (hs.fits i s hi).finds (hs.claims i s hi hclaims).2
      rw [standing_withStanding_self, hsource]
      exact hrest
    · rw [standing_withStanding_of_ne _ hid]
      exact hs.stands id row₁ h₁
  · rcases sessions_goesOn hj with ⟨rfl, rfl⟩ | ⟨hji, hj⟩
    · cases hclaims₁
    · obtain ⟨hmem, hne⟩ := hs.claims j s₁ hj hclaims₁
      refine ⟨?_, hne⟩
      by_cases hid : s₁.request.id = s.request.id
      · rw [hid, hstanding] at hmem
        have hold : (j, s₁.decision) ∈ rest := by simpa [hji] using hmem
        rw [hid, standing_withStanding_self]
        exact hold
      · rw [standing_withStanding_of_ne _ hid]
        exact hmem
  · rcases mem_withStanding hmem with ⟨rfl, hleft⟩ | ⟨-, hold⟩
    · exact hs.held_goesOn hi rfl rfl _ (hstanding ▸ List.mem_cons_of_mem _ hleft)
    · exact hs.held_goesOn hi rfl rfl _ hold

def Filed (f : String → Option AccessRequest) : Prop :=
  ∀ id r, f id = some r → r.id = id ∧ Text.utf8Len id.toList = 15

theorem Sound.filed (hs : Sound f o) {id : String} {row : AccessRequest}
    (hrow : o.rows id = some row) : f id = some (asked row) := by
  rw [← hs.rows id, hrow]
  rfl

theorem Sound.of_eq (hs : Sound f o) (hrows : o'.rows = o.rows) (hsessions : o'.sessions = o.sessions)
    (hstanding : o'.standing = o.standing) : Sound f o' where
  rows := hrows ▸ hs.rows
  fits := hsessions ▸ hs.fits
  stands := by
    rw [hrows, hstanding]
    exact hs.stands
  claims := by
    rw [hsessions, hstanding]
    exact hs.claims
  held := by
    rw [hsessions, hstanding]
    exact hs.held

theorem fits_of_permits (hf : Filed f) (hs : Sound f o) {id : String} {row : AccessRequest}
    (hrow : o.rows id = some row) (hrequest : s.request = row)
    (hpermits : Permits p s.owner row s.decision = true) : s.Fits f := by
  have hid : row.id = id := (hf id (asked row) (hs.filed hrow)).1
  subst hrequest
  refine ⟨hid.symm ▸ hs.filed hrow, fun hd => ?_, fun hd => ?_⟩
  · cases hdecision : s.decision with
    | approve =>
      simp only [hdecision, Permits, Bool.and_eq_true, decide_eq_true_eq] at hpermits
      exact hpermits.1.2
    | decline => exact absurd hdecision hd
    | revoke =>
      simp only [hdecision, Permits, decide_eq_true_eq] at hpermits
      exact hpermits
  · simp only [hd, Permits, Bool.and_eq_true, decide_eq_true_eq] at hpermits
    exact fun howner => hpermits.1.1 howner.symm

theorem sound_read (hs : Sound f o) (hi : o.sessions i = none) (hfits : s.Fits f) :
    Sound f (goesOn o i s .read) := by
  refine ⟨hs.rows, fun j s₁ hj => ?_, hs.stands, fun j s₁ hj hclaims => ?_, fun id j d hmem => ?_⟩
  · rcases sessions_goesOn hj with ⟨rfl, rfl⟩ | ⟨-, hj⟩
    · exact hfits.congr rfl rfl rfl
    · exact hs.fits j s₁ hj
  · rcases sessions_goesOn hj with ⟨rfl, rfl⟩ | ⟨-, hj⟩
    · cases hclaims
    · exact hs.claims j s₁ hj hclaims
  · obtain ⟨s₁, hs₁, hrest⟩ := hs.held id j d hmem
    have hji : j ≠ i := by
      rintro rfl
      rw [hi] at hs₁
      cases hs₁
    exact ⟨s₁, (Function.update_of_ne hji ..).trans hs₁, hrest⟩

theorem claims_goesReady (p : Platform) (s : Session) : (s.goesReady p).Claims = false := by
  unfold Session.goesReady
  split
  · split <;> rfl
  · rfl
  · split <;> rfl

theorem sound_step {a : Act} (hf : Filed f) (h : step p o a = some o') (hs : Sound f o) :
    Sound f o' := by
  cases takes_of_step h with
  | read hi hrow hpermits =>
    exact sound_read hs hi (fits_of_permits hf hs hrow rfl hpermits)
  | prepare hi hphase =>
    refine hs.goesOn hi ?_ ?_ ?_ (fun hclaims => ?_)
    · rfl
    · rfl
    · rfl
    · rw [claims_goesReady] at hclaims
      cases hclaims
  | claim hi hphase => exact sound_claim hs hi
  | @propose i s change hi hphase hfresh =>
    have hgoes : Sound f (goesOn o i s (.proposed change)) :=
      hs.goesOn hi rfl rfl rfl (fun _ => by rw [hphase]; rfl)
    exact hgoes.of_eq rfl rfl rfl
  | fail hi hphase => exact hs.goesOn hi rfl rfl rfl (by simp [Phase.Claims, hphase])
  | @record i s change row hi hphase hrow =>
    have hwritten : Sound f (withRow o s.request.id { row with change := some change }) :=
      hs.withRow hrow rfl rfl
    refine hwritten.goesOn hi rfl rfl rfl (fun _ => ?_)
    rw [hphase]
    rfl
  | takeBack hi hphase => exact sound_takeBack hs hi (by simp [Phase.Claims, hphase])
  | merge | close | tick => exact hs.of_eq rfl rfl rfl

/-! ## moves -/

theorem claim_cases (o : Office) (i : Nat) (s : Session) :
    claim o i s = goesOn o i s .ended ∨
    ∃ row, o.rows s.request.id = some row ∧ row.state = s.decision.source ∧
      claim o i s = withStanding (goesOn (withRow o s.request.id (row.claimed s o.clock)) i s
        (if s.decision = .decline then .ended else .claimed))
        s.request.id ((i, s.decision) :: o.standing s.request.id) := by
  unfold claim
  split
  · rename_i row hrow
    split
    · rename_i hsource
      exact .inr ⟨row, hrow, hsource, rfl⟩
    · exact .inl rfl
  · exact .inl rfl

theorem takeBack_cases (o : Office) (i : Nat) (s : Session) :
    (takeBack o i s = goesOn o i s .ended ∧
      ∀ row, o.rows s.request.id = some row → s.standsOn row = false) ∨
    ∃ row, o.rows s.request.id = some row ∧ s.standsOn row = true ∧
      takeBack o i s = withStanding (goesOn (withRow o s.request.id (row.restored s)) i s .ended)
        s.request.id (o.standing s.request.id).tail := by
  unfold takeBack
  split
  · rename_i row hrow
    split
    · rename_i hon
      exact .inr ⟨row, hrow, hon, rfl⟩
    · rename_i hoff
      refine .inl ⟨rfl, fun row' hrow' => ?_⟩
      obtain rfl := Option.some.inj (hrow.symm.trans hrow')
      simpa using hoff
  · rename_i hnone
    exact .inl ⟨rfl, fun row hrow => by rw [hnone] at hrow; cases hrow⟩

theorem moves_step {a : Act} (h : step p o a = some o') (hs : Sound f o) : Moves ⟨o, a, o'⟩ := by
  intro id row row' hrow hrow'
  dsimp only at hrow hrow' ⊢
  have hsame : o.rows id = some row' → row'.state = row.state := by
    intro hstays
    rw [Option.some.inj (hrow.symm.trans hstays)]
  cases takes_of_step h with
  | read | prepare | propose | fail | merge | close | tick => exact .inl (hsame hrow')
  | @claim i s hi hphase =>
    rcases claim_cases o i s with heq | ⟨row₁, hrow₁, hsource, heq⟩
    · rw [heq] at hrow'
      exact .inl (hsame hrow')
    · rw [heq] at hrow'
      rcases rows_withRow hrow' with ⟨rfl, rfl⟩ | ⟨-, hrow'⟩
      · obtain rfl := Option.some.inj (hrow.symm.trans hrow₁)
        refine .inr (.inl ⟨i, s, rfl, hi, rfl, hsource, rfl, rfl, fun hd howner => ?_⟩)
        have hfits := hs.fits i s hi
        have hasked : asked row = asked s.request :=
          Option.some.inj ((hs.filed hrow).symm.trans hfits.asks)
        have hfiler : (asked row).requestedBy = (asked s.request).requestedBy :=
          congrArg AccessRequest.requestedBy hasked
        exact hfits.owner hd (howner.trans hfiler)
      · exact .inl (hsame hrow')
  | @record i s change row₁ hi hphase hrow₁ =>
    rcases rows_withRow (show (withRow o _ _).rows id = some row' from hrow') with
      ⟨rfl, rfl⟩ | ⟨-, hrow'⟩
    · obtain rfl := Option.some.inj (hrow.symm.trans hrow₁)
      exact .inl rfl
    · exact .inl (hsame hrow')
  | @takeBack i s hi hphase =>
    have hclaims : s.phase.Claims = true := by rw [hphase]; rfl
    rcases takeBack_cases o i s with ⟨heq, -⟩ | ⟨row₁, hrow₁, hon, heq⟩
    · rw [heq] at hrow'
      exact .inl (hsame hrow')
    · rw [heq] at hrow'
      rcases rows_withRow hrow' with ⟨rfl, rfl⟩ | ⟨-, hrow'⟩
      · obtain rfl := Option.some.inj (hrow.symm.trans hrow₁)
        obtain ⟨rest, hstanding, -⟩ := standing_of_standsOn hs hi hclaims hrow hon
        have htarget : row.state = s.decision.target := by
          simp only [Session.standsOn, Bool.and_eq_true, decide_eq_true_eq] at hon
          exact hon.1.1
        refine .inr (.inr ⟨i, s, rfl, hi, hphase, rfl, ?_, htarget,
          (hs.fits i s hi).finds (hs.claims i s hi hclaims).2⟩)
        rw [hstanding]
        rfl
      · exact .inl (hsame hrow')

/-! ## the Change recorded -/

theorem newest_congr {sessions sessions' : Nat → Option Session} {claims : List (Nat × Decision)}
    (h : ∀ c ∈ claims, (sessions' c.1).bind Session.recordedChange
      = (sessions c.1).bind Session.recordedChange) :
    newest sessions' claims = newest sessions claims := by
  unfold newest
  induction claims with
  | nil => rfl
  | cons c claims ih =>
    rw [List.findSome?_cons, List.findSome?_cons, h c List.mem_cons_self,
      ih (fun c' hc' => h c' (List.mem_cons_of_mem _ hc'))]

theorem newest_cons_of_none {sessions : Nat → Option Session} {c : Nat × Decision}
    {claims : List (Nat × Decision)} (h : (sessions c.1).bind Session.recordedChange = none) :
    newest sessions (c :: claims) = newest sessions claims := by
  unfold newest
  rw [List.findSome?_cons, h]

theorem newest_cons_of_some {sessions : Nat → Option Session} {c : Nat × Decision}
    {claims : List (Nat × Decision)} {change : String}
    (h : (sessions c.1).bind Session.recordedChange = some change) :
    newest sessions (c :: claims) = some change := by
  unfold newest
  rw [List.findSome?_cons, h]

theorem recordedChange_of_phase (hi : o.sessions i = some s) (hphase : ∀ c, s.phase ≠ .recorded c) :
    (o.sessions i).bind Session.recordedChange = none := by
  rw [hi, Option.bind_some]
  unfold Session.recordedChange
  split
  · rename_i c hc
    exact absurd hc (hphase c)
  · rfl

theorem recordedChange_goesOn {phase : Phase} (hafter : ∀ c, phase ≠ .recorded c) :
    ((goesOn o i s phase).sessions i).bind Session.recordedChange = none :=
  recordedChange_of_phase (s := { s with phase }) (Function.update_self ..) hafter

theorem newest_goesOn {phase : Phase} (hbefore : (o.sessions i).bind Session.recordedChange = none)
    (hafter : ∀ c, phase ≠ .recorded c) (claims : List (Nat × Decision)) :
    newest (goesOn o i s phase).sessions claims = newest o.sessions claims := by
  refine newest_congr (fun c _ => ?_)
  by_cases hci : c.1 = i
  · rw [hci, hbefore]
    exact recordedChange_goesOn hafter
  · show (Function.update o.sessions i _ c.1).bind _ = _
    rw [Function.update_of_ne hci]

theorem newest_record (hs : Sound f o) (hi : o.sessions i = some s) {change : String}
    (hclaims : s.phase.Claims = true) {row : AccessRequest} (hrow : o.rows s.request.id = some row)
    (hnone : s.decision = .approve → latest o s.request.id = none) :
    newest (goesOn o i s (.recorded change)).sessions (o.standing s.request.id) = some change := by
  obtain ⟨hmem, hdecline⟩ := hs.claims i s hi hclaims
  have hself : ((goesOn o i s (.recorded change)).sessions i).bind Session.recordedChange
      = some change := by
    show (Function.update o.sessions i _ i).bind _ = _
    rw [Function.update_self]
    rfl
  have hstands := hs.stands _ row hrow
  have hheld := hs.held s.request.id
  unfold latest at hnone
  generalize o.standing s.request.id = claims at hmem hstands hheld hnone ⊢
  generalize row.state = state at hstands
  cases hdecision : s.decision with
  | approve =>
    rw [hdecision] at hmem
    cases hstands with
    | pending => cases hmem
    | declined j => simp at hmem
    | approved j =>
      obtain rfl : i = j := by simpa using hmem
      exact newest_cons_of_some hself
    | revoked j k =>
      obtain rfl : i = j := by simpa using hmem
      -- the revoke is another session, and has recorded nothing
      have hother : k ≠ i := by
        rintro rfl
        obtain ⟨s₁, hs₁, -, hd⟩ := hheld k .revoke List.mem_cons_self
        rw [Option.some.inj (hi.symm.trans hs₁), hd] at hdecision
        cases hdecision
      have hquiet : (o.sessions k).bind Session.recordedChange = none :=
        List.findSome?_eq_none_iff.mp (hnone hdecision) (k, .revoke) List.mem_cons_self
      have hkept : (goesOn o i s (.recorded change)).sessions k = o.sessions k :=
        Function.update_of_ne hother ..
      rw [newest_cons_of_none (by rw [hkept]; exact hquiet)]
      exact newest_cons_of_some hself
  | decline => exact absurd hdecision hdecline
  | revoke =>
    rw [hdecision] at hmem
    cases hstands with
    | pending => cases hmem
    | declined j => simp at hmem
    | approved j => simp at hmem
    | revoked j k =>
      obtain rfl : i = k := by simpa using hmem
      exact newest_cons_of_some hself

theorem Recorded.of_eq (hrec : Recorded o)
    (hrows : ∀ id row', o'.rows id = some row' → ∃ row, o.rows id = some row ∧ row'.change = row.change)
    (hlatest : ∀ id, latest o' id = latest o id) : Recorded o' := by
  intro id row' hrow'
  obtain ⟨row, hrow, hchange⟩ := hrows id row' hrow'
  rw [hchange, hlatest id]
  exact hrec id row hrow

theorem Recorded.goesOn (hrec : Recorded o) {phase : Phase}
    (hbefore : (o.sessions i).bind Session.recordedChange = none)
    (hafter : ∀ c, phase ≠ .recorded c) : Recorded (goesOn o i s phase) :=
  hrec.of_eq (fun _ row hrow => ⟨row, hrow, rfl⟩) (fun _ => newest_goesOn hbefore hafter _)

/-- the request is written with the Change it had, and the claims behind it with one that recorded
nothing more or less -/
theorem Recorded.withStanding (hrec : Recorded o) {row row' : AccessRequest} {id : String}
    (hrow : o.rows id = some row) (hchange : row'.change = row.change) {phase : Phase}
    (hbefore : (o.sessions i).bind Session.recordedChange = none)
    (hafter : ∀ c, phase ≠ .recorded c) {claims : List (Nat × Decision)}
    (hclaims : newest (AccessRequests.goesOn o i s phase).sessions claims
      = newest (AccessRequests.goesOn o i s phase).sessions (o.standing id)) :
    Recorded (withStanding (AccessRequests.goesOn (withRow o id row') i s phase) id claims) := by
  refine hrec.of_eq (fun id₁ row₁ h₁ => ?_) (fun id₁ => ?_)
  · rcases rows_withRow h₁ with ⟨rfl, rfl⟩ | ⟨-, h₁⟩
    · exact ⟨row, hrow, hchange⟩
    · exact ⟨row₁, h₁, rfl⟩
  · by_cases hid : id₁ = id
    · subst hid
      unfold latest
      rw [standing_withStanding_self]
      exact hclaims.trans (newest_goesOn hbefore hafter _)
    · unfold latest
      rw [standing_withStanding_of_ne _ hid]
      exact newest_goesOn hbefore hafter _

theorem recorded_step {t : Rfc3339} {a : Act} (h : step p o a = some o') (hs : Sound f o)
    (horderly : Orderly t ⟨o, a, o'⟩) (hrec : Recorded o) : Recorded o' := by
  cases takes_of_step h with
  | read hi hrow hpermits => exact hrec.goesOn (by rw [hi]; rfl) (by simp)
  | @prepare i s hi hphase =>
    refine hrec.goesOn (recordedChange_of_phase hi (by simp [hphase])) (fun change hready => ?_)
    have hclaims := claims_goesReady p (s.sees o)
    rw [hready] at hclaims
    cases hclaims
  | @claim i s hi hphase =>
    have hbefore := recordedChange_of_phase hi (by simp [hphase])
    rcases claim_cases o i s with heq | ⟨row, hrow, -, heq⟩
    · rw [heq]
      exact hrec.goesOn hbefore (by simp)
    · have hafter : ∀ c, (if s.decision = .decline then Phase.ended else .claimed) ≠ .recorded c := by
        intro c
        split <;> simp
      have hquiet := recordedChange_goesOn (o := o) (i := i) (s := s) hafter
      rw [heq]
      refine hrec.withStanding hrow ?_ hbefore hafter ?_
      · rfl
      · exact newest_cons_of_none hquiet
  | @propose i s change hi hphase hfresh =>
    have hgoes : Recorded (goesOn o i s (.proposed change)) :=
      hrec.goesOn (recordedChange_of_phase hi (by simp [hphase])) (by simp)
    exact hgoes
  | @fail i s hi hphase =>
    exact hrec.goesOn (recordedChange_of_phase hi (by simp [hphase])) (by simp)
  | @record i s change row hi hphase hrow =>
    have hclaims : s.phase.Claims = true := by rw [hphase]; rfl
    have hnone : s.decision = .approve → latest o s.request.id = none := by
      intro happrove
      rw [← hrec _ row hrow]
      exact horderly.records i s row rfl hi happrove hrow
    intro id row' hrow'
    rcases rows_withRow (show (withRow o _ _).rows id = some row' from hrow') with
      ⟨rfl, rfl⟩ | ⟨hid, hrow'⟩
    · exact (newest_record hs hi hclaims hrow hnone).symm
    · rw [hrec id row' hrow']
      refine (newest_congr (fun c hc => ?_)).symm
      -- the claim of the session stands on its own request
      have hci : c.1 ≠ i := by
        intro hci
        obtain ⟨s₁, hs₁, hid₁, -⟩ := hs.held id c.1 c.2 hc
        rw [hci, hi] at hs₁
        exact hid (hid₁.symm.trans (congrArg (fun s => s.request.id) (Option.some.inj hs₁)).symm)
      show (Function.update o.sessions i _ c.1).bind _ = _
      rw [Function.update_of_ne hci]
  | @takeBack i s hi hphase =>
    have hclaims : s.phase.Claims = true := by rw [hphase]; rfl
    have hbefore := recordedChange_of_phase hi (by simp [hphase])
    rcases takeBack_cases o i s with ⟨heq, -⟩ | ⟨row, hrow, hon, heq⟩
    · rw [heq]
      exact hrec.goesOn hbefore (by simp)
    · obtain ⟨rest, hstanding, -⟩ := standing_of_standsOn hs hi hclaims hrow hon
      have hafter : ∀ c, Phase.ended ≠ .recorded c := by simp
      have hquiet := recordedChange_goesOn (o := o) (i := i) (s := s) hafter
      rw [heq, hstanding, List.tail_cons]
      refine hrec.withStanding hrow ?_ hbefore hafter ?_
      · rfl
      · rw [hstanding]
        exact (newest_cons_of_none hquiet).symm
  | merge | close | tick => exact hrec

/-! ## the Policies of a revoked request -/

theorem eq_of_append {a b x y : List Char} (h : a ++ x = b ++ y)
    (hlen : Text.utf8Len a = Text.utf8Len b) : a = b := by
  induction a generalizing b with
  | nil =>
    cases b with
    | nil => rfl
    | cons d b =>
      have hpos := Char.utf8Size_pos d
      simp [Text.utf8Len] at hlen
      omega
  | cons c a ih =>
    cases b with
    | nil =>
      have hpos := Char.utf8Size_pos c
      simp [Text.utf8Len] at hlen
      omega
    | cons d b =>
      obtain ⟨rfl, hrest⟩ := List.cons.inj h
      have hlen' : Text.utf8Len a = Text.utf8Len b := by
        simp only [Text.utf8Len, List.map_cons, List.sum_cons] at hlen ⊢
        omega
      rw [ih hrest hlen']

theorem description_inj {r q : AccessRequest} (hr : Text.utf8Len r.id.toList = 15)
    (hq : Text.utf8Len q.id.toList = 15) (h : description r = description q) : r.id = q.id := by
  have hchars : "Access request ".toList ++ (r.id.toList ++ (": ".toList ++ r.reason.toList))
      = "Access request ".toList ++ (q.id.toList ++ (": ".toList ++ q.reason.toList)) := by
    have htoList : ∀ r : AccessRequest, (description r).toList
        = "Access request ".toList ++ (r.id.toList ++ (": ".toList ++ r.reason.toList)) := by
      intro r
      unfold description
      rw [String.toList_append, String.toList_append, String.toList_append, List.append_assoc,
        List.append_assoc]
    rw [← htoList, ← htoList, h]
  exact String.toList_inj.mp
    (eq_of_append (List.append_cancel_left hchars) (hr.trans hq.symm))

theorem get?_setMember {v : Value} (hv : writableTo v = true) (key : String) (w : Value) :
    (setMember key w v).get? key = some w := by
  cases v with
  | null => simp [setMember]
  | object fields => simp [setMember, lookup_insertMember]
  | bool | number | string | array => cases hv

/-- an instant the text of which reads back as it -/
def Reads (t : Rfc3339) (now : Int) : Prop := t.parse (t.format now) = some now

theorem inForce_ended {t : Rfc3339} {policy : Envelope} (hpolicy : endable policy = true)
    {at' now : Int} (hreads : Reads t at') (hnow : at' ≤ now) :
    inForce t now (ended t at' policy) = false := by
  obtain ⟨hspec, hvalidity⟩ := Bool.and_eq_true_iff.mp hpolicy
  have hends : endsAt t (ended t at' policy) = some at' := by
    unfold endsAt ended
    dsimp only
    rw [get?_setMember hspec, Option.bind_some, textAt, get?_setMember hvalidity]
    exact hreads
  unfold inForce
  rw [hends]
  simpa using hnow

theorem inForce_of_later {t : Rfc3339} {policy : Envelope} {now later : Int} (hle : now ≤ later)
    (h : inForce t later policy = true) : inForce t now policy = true := by
  unfold inForce at h ⊢
  cases hends : endsAt t policy with
  | none => rfl
  | some ends =>
    rw [hends] at h
    have hlater : later < ends := by simpa using h
    simpa using Int.lt_of_le_of_lt hle hlater

/-- a Policy of a filed request goes by its Policy's name -/
def Named (f : String → Option AccessRequest) (e : Envelope) : Prop :=
  ∀ id r, f id = some r → OfRequest r e → e.name = r.policyName

/-- a revoked request's Policy of this name is to be ended: by a decision in flight, or by its Change -/
inductive Awaits (o : Office) (id name : String) : Prop
  | claimed {i : Nat} {s : Session} (hi : o.sessions i = some s) (hid : s.request.id = id)
      (hd : s.decision = .revoke) (hphase : s.phase = .claimed)
      (hseen : ∃ q ∈ s.policies, q.val.name = name) : Awaits o id name
  | refused {i : Nat} {s : Session} (hi : o.sessions i = some s) (hid : s.request.id = id)
      (hd : s.decision = .revoke) (hphase : s.phase = .refused) : Awaits o id name
  | opened {c : Opened} (hc : c ∈ o.changes) (hid : c.request = id) (hd : c.decision = .revoke)
      (hopen : c.status = .opened) (hholds : holds c.bundle name = true) : Awaits o id name

theorem Awaits.mono {id name : String} (h : Awaits o id name)
    (hsessions : ∀ i s, o.sessions i = some s → s.request.id = id → s.decision = .revoke →
      s.phase = .claimed ∨ s.phase = .refused → o'.sessions i = some s)
    (hchanges : ∀ c ∈ o.changes, c ∈ o'.changes) : Awaits o' id name := by
  cases h with
  | claimed hi hid hd hphase hseen =>
    exact .claimed (hsessions _ _ hi hid hd (.inl hphase)) hid hd hphase hseen
  | refused hi hid hd hphase => exact .refused (hsessions _ _ hi hid hd (.inr hphase)) hid hd hphase
  | opened hc hid hd hopen hholds => exact .opened (hchanges _ hc) hid hd hopen hholds

theorem Awaits.goesOn {id name : String} (h : Awaits o id name) {s' : Session} {phase : Phase}
    (hquiet : ∀ s₀, o.sessions i = some s₀ → s₀.request.id = id → s₀.decision = .revoke →
      s₀.phase ≠ .claimed ∧ s₀.phase ≠ .refused) :
    Awaits (AccessRequests.goesOn o i s' phase) id name := by
  refine h.mono (fun j s₁ hj hid hd hphase => ?_) (fun c hc => hc)
  have hji : j ≠ i := by
    rintro rfl
    obtain ⟨hclaimed, hrefused⟩ := hquiet s₁ hj hid hd
    exact hphase.elim hclaimed hrefused
  exact (Function.update_of_ne hji ..).trans hj

/-- **The invariant of the Policies.** -/
structure Bundled (t : Rfc3339) (f : String → Option AccessRequest) (o : Office) : Prop where
  seen : ∀ i s, o.sessions i = some s →
    s.seenAt ≤ o.clock ∧ Reads t s.seenAt ∧ ∀ q ∈ s.policies, Named f q.val
  ends : ∀ i s, o.sessions i = some s → s.decision = .revoke →
    s.phase = .ready ∨ s.phase = .claimed →
    ∀ q, ownPolicy s.request s.policies = some q → endable q.val = true
  policies : ∀ q ∈ o.policies, Named f q.val
  unique : ∀ c ∈ o.changes, ∀ c' ∈ o.changes, c.name = c'.name → c = c'
  /-- a Policy a Change writes is ended, or is the grant of its request -/
  bundles : ∀ c ∈ o.changes, ∀ e ∈ c.bundle, e.kind = "Policy" → Named f e ∧
    (inForce t o.clock e = false ∨
      c.decision = .approve ∧ ∀ id r, f id = some r → OfRequest r e → id = c.request)
  awaits : ∀ id row, o.rows id = some row → row.state = .revoked → ∀ q ∈ o.policies,
    OfRequest row q.val → inForce t o.clock q.val = true → Awaits o id q.val.name

theorem of_grant {t : Rfc3339} {apiVersion : String} (hf : Filed f) {r : AccessRequest}
    (hr : f r.id = some (asked r)) {id : String} {q : AccessRequest} (hq : f id = some q)
    (hof : OfRequest q (grant t apiVersion r)) : id = r.id := by
  obtain ⟨hqid, hqlen⟩ := hf id q hq
  have hrlen := (hf r.id (asked r) hr).2
  have hsame : description r = description q := Option.some.inj hof
  rw [← hqid] at hqlen ⊢
  exact (description_inj hrlen hqlen hsame).symm

theorem named_grant {t : Rfc3339} {apiVersion : String} (hf : Filed f) {r : AccessRequest}
    (hr : f r.id = some (asked r)) : Named f (grant t apiVersion r) := by
  intro id q hq hof
  obtain rfl := of_grant hf hr hq hof
  obtain rfl := Option.some.inj (hr.symm.trans hq)
  rfl

theorem named_ended {t : Rfc3339} {now : Int} {policy : Envelope} (h : Named f policy) :
    Named f (ended t now policy) := fun id q hq hof => h id q hq hof

theorem mem_written {policies : List (Of "Policy")} {bundle : List Envelope} {q : Of "Policy"}
    (h : q ∈ written policies bundle) :
    (q ∈ policies ∧ holds bundle q.val.name = false) ∨ q.val ∈ bundle := by
  rcases List.mem_append.mp h with h | h
  · obtain ⟨hq, hkept⟩ := List.mem_filter.mp h
    exact .inl ⟨hq, by simpa using hkept⟩
  · obtain ⟨e, he, hq⟩ := List.mem_filterMap.mp h
    unfold asKind at hq
    split at hq
    · exact .inr (Option.some.inj hq ▸ he)
    · cases hq

theorem mem_setStatus {name : String} {status : Status} {c : Opened}
    (h : c ∈ setStatus o name status) : ∃ c₀ ∈ o.changes, c.name = c₀.name ∧
      c.request = c₀.request ∧ c.decision = c₀.decision ∧ c.bundle = c₀.bundle ∧
      (c₀.name ≠ name → c = c₀) := by
  obtain ⟨c₀, hc₀, rfl⟩ := List.mem_map.mp h
  refine ⟨c₀, hc₀, ?_⟩
  split
  · rename_i hname
    exact ⟨rfl, rfl, rfl, rfl, fun hne => absurd hname hne⟩
  · exact ⟨rfl, rfl, rfl, rfl, fun _ => rfl⟩

theorem bundle_policy {e : Envelope} (he : e ∈ s.bundle p) (hkind : e.kind = "Policy") :
    (s.decision = .approve ∧ e = grant p.toRfc3339 p.apiVersion s.request) ∨
    (s.decision = .revoke ∧ ∃ q, ownPolicy s.request s.policies = some q ∧
      e = ended p.toRfc3339 s.seenAt q.val) := by
  unfold Session.bundle at he
  split at he
  · rename_i hd hendpoint
    exact .inl ⟨hd, grantBundle_policy he hkind⟩
  · rename_i hd
    exact .inr ⟨hd, revokeBundle_policy he hkind⟩
  · cases he

variable {t : Rfc3339}

theorem bundles_propose (hf : Filed f) (hs : Sound f o) (hb : Bundled p.toRfc3339 f o) (hi : o.sessions i = some s)
    (hphase : s.phase = .claimed) {e : Envelope} (he : e ∈ s.bundle p) (hkind : e.kind = "Policy") :
    Named f e ∧ (inForce p.toRfc3339 o.clock e = false ∨
      s.decision = .approve ∧ ∀ id r, f id = some r → OfRequest r e → id = s.request.id) := by
  have hasks := (hs.fits i s hi).asks
  rcases bundle_policy he hkind with ⟨hd, rfl⟩ | ⟨hd, q, hq, rfl⟩
  · exact ⟨named_grant hf hasks, .inr ⟨hd, fun id r hr hof => of_grant hf hasks hr hof⟩⟩
  · obtain ⟨hseenAt, hreads, hnamed⟩ := hb.seen i s hi
    refine ⟨named_ended (hnamed q (List.mem_of_find?_eq_some hq)), .inl ?_⟩
    exact inForce_ended (hb.ends i s hi hd (.inr hphase) q hq) hreads hseenAt

theorem holds_propose (hs : Sound f o) (hi : o.sessions i = some s) (hd : s.decision = .revoke)
    {row : AccessRequest} (hrow : o.rows s.request.id = some row) {name : String}
    (hname : name = row.policyName) (hseen : ∃ q ∈ s.policies, q.val.name = name) :
    holds (s.bundle p) name = true := by
  have hasked : asked row = asked s.request :=
    Option.some.inj ((hs.filed hrow).symm.trans (hs.fits i s hi).asks)
  have hpolicy : row.policyName = s.request.policyName :=
    (congrArg AccessRequest.policyName hasked : (asked row).policyName = (asked s.request).policyName)
  obtain ⟨q, hq, hqname⟩ := hseen
  have hown : (ownPolicy s.request s.policies).isSome = true :=
    List.find?_isSome.mpr ⟨q, hq, by simp [hqname, hname, hpolicy]⟩
  obtain ⟨w, hw⟩ := Option.isSome_iff_exists.mp hown
  refine List.any_eq_true.mpr ⟨ended p.toRfc3339 s.seenAt w.val, ?_, ?_⟩
  · unfold Session.bundle
    rw [hd]
    exact List.mem_append_right _ (by simp [hw])
  · have hwname : (ended p.toRfc3339 s.seenAt w.val).name = s.request.policyName := name_ownPolicy hw
    have hwkind : (ended p.toRfc3339 s.seenAt w.val).kind = "Policy" := w.property
    simp [hwname, hwkind, hname, hpolicy]

theorem Bundled.of_rows (hb : Bundled t f o) (hsessions : o'.sessions = o.sessions)
    (hpolicies : o'.policies = o.policies) (hchanges : o'.changes = o.changes)
    (hclock : o'.clock = o.clock)
    (hawaits : ∀ id row, o'.rows id = some row → row.state = .revoked → ∀ q ∈ o.policies,
      OfRequest row q.val → inForce t o.clock q.val = true → Awaits o id q.val.name) :
    Bundled t f o' where
  seen := by
    rw [hsessions, hclock]
    exact hb.seen
  ends := hsessions ▸ hb.ends
  policies := hpolicies ▸ hb.policies
  unique := hchanges ▸ hb.unique
  bundles := by
    rw [hchanges, hclock]
    exact hb.bundles
  awaits := by
    rw [hpolicies, hclock]
    intro id row hrow hrevoked q hq hof hforce
    refine (hawaits id row hrow hrevoked q hq hof hforce).mono (fun i s hi _ _ _ => ?_)
      (fun c hc => hchanges ▸ hc)
    rw [hsessions]
    exact hi

theorem Bundled.goesOn (hb : Bundled t f o) {s' : Session} {phase : Phase}
    (hseen : s'.seenAt ≤ o.clock ∧ Reads t s'.seenAt ∧ ∀ q ∈ s'.policies, Named f q.val)
    (hendable : s'.decision = .revoke → phase = .ready ∨ phase = .claimed →
      ∀ q, ownPolicy s'.request s'.policies = some q → endable q.val = true)
    (hawaits : ∀ id row, o.rows id = some row → row.state = .revoked → ∀ q ∈ o.policies,
      OfRequest row q.val → inForce t o.clock q.val = true →
      Awaits (AccessRequests.goesOn o i s' phase) id q.val.name) :
    Bundled t f (AccessRequests.goesOn o i s' phase) where
  seen j s₁ hj := by
    rcases sessions_goesOn hj with ⟨rfl, rfl⟩ | ⟨-, hj⟩
    · exact hseen
    · exact hb.seen j s₁ hj
  ends j s₁ hj hd hphase := by
    rcases sessions_goesOn hj with ⟨rfl, rfl⟩ | ⟨-, hj⟩
    · exact hendable hd hphase
    · exact hb.ends j s₁ hj hd hphase
  policies := hb.policies
  unique := hb.unique
  bundles := hb.bundles
  awaits := hawaits

theorem Bundled.goesOn_of_quiet (hb : Bundled t f o) {s' : Session} {phase : Phase}
    (hseen : s'.seenAt ≤ o.clock ∧ Reads t s'.seenAt ∧ ∀ q ∈ s'.policies, Named f q.val)
    (hendable : s'.decision = .revoke → phase = .ready ∨ phase = .claimed →
      ∀ q, ownPolicy s'.request s'.policies = some q → endable q.val = true)
    (hquiet : ∀ s₀, o.sessions i = some s₀ → s₀.decision = .revoke →
      s₀.phase ≠ .claimed ∧ s₀.phase ≠ .refused) : Bundled t f (AccessRequests.goesOn o i s' phase) :=
  hb.goesOn hseen hendable (fun id row hrow hrevoked q hq hof hforce =>
    (hb.awaits id row hrow hrevoked q hq hof hforce).goesOn (fun s₀ h₀ _ hd => hquiet s₀ h₀ hd))

theorem bundled_claim (hs : Sound f o) (hb : Bundled t f o) (hi : o.sessions i = some s)
    (hphase : s.phase = .ready) (hseen : s.decision = .revoke → ∀ q ∈ o.policies,
      OfRequest s.request q.val → inForce t o.clock q.val = true →
      ∃ q' ∈ s.policies, q'.val.name = q.val.name) : Bundled t f (claim o i s) := by
  have hquiet : ∀ s₀, o.sessions i = some s₀ → s₀.decision = .revoke →
      s₀.phase ≠ .claimed ∧ s₀.phase ≠ .refused := by
    intro s₀ h₀ _
    rw [← Option.some.inj (hi.symm.trans h₀), hphase]
    exact ⟨by simp, by simp⟩
  have hgoes : ∀ phase, Bundled t f (goesOn o i s phase) := fun phase =>
    hb.goesOn_of_quiet (hb.seen i s hi) (fun hd _ => hb.ends i s hi hd (.inl hphase)) hquiet
  rcases claim_cases o i s with heq | ⟨row, hrow, hsource, heq⟩
  · rw [heq]
    exact hgoes .ended
  · rw [heq]
    refine (hgoes _).of_rows rfl rfl rfl rfl (fun id row' hrow' hrevoked q hq hof hforce => ?_)
    rcases rows_withRow hrow' with ⟨rfl, rfl⟩ | ⟨-, hrow'⟩
    · have hd : s.decision = .revoke := by
        cases hdecision : s.decision <;>
          simp [AccessRequest.claimed, hdecision, Decision.target] at hrevoked
        rfl
      have hasked : asked row = asked s.request :=
        Option.some.inj ((hs.filed hrow).symm.trans (hs.fits i s hi).asks)
      have hdescription : description (asked row) = description (asked s.request) :=
        congrArg description hasked
      have hof' : OfRequest s.request q.val :=
        (hof : describes q.val = some (description row)).trans (congrArg some hdescription)
      refine .claimed (i := i) (s := { s with phase := .claimed }) ?_ rfl hd rfl (hseen hd q hq hof' hforce)
      rw [if_neg (by rw [hd]; simp)]
      exact Function.update_self ..
    · exact (hgoes _).awaits id row' hrow' hrevoked q hq hof hforce

theorem bundled_takeBack (hs : Sound f o) (hb : Bundled t f o) (hi : o.sessions i = some s)
    (hphase : s.phase = .refused)
    (hon : s.decision = .revoke → ∀ row, o.rows s.request.id = some row → s.standsOn row = true) :
    Bundled t f (takeBack o i s) := by
  have hendable : s.decision = .revoke → Phase.ended = .ready ∨ Phase.ended = .claimed →
      ∀ q, ownPolicy s.request s.policies = some q → endable q.val = true := by simp
  have hclaims : s.phase.Claims = true := by rw [hphase]; rfl
  rcases takeBack_cases o i s with ⟨heq, hoff⟩ | ⟨row, hrow, -, heq⟩
  · -- only an approval's claim is found gone
    rw [heq]
    refine hb.goesOn_of_quiet (hb.seen i s hi) hendable (fun s₀ h₀ hd => ?_)
    obtain rfl := Option.some.inj (hi.symm.trans h₀)
    have hfiled := hs.rows s.request.id
    rw [(hs.fits i s hi).asks] at hfiled
    obtain ⟨row, hrow, -⟩ := Option.map_eq_some_iff.mp hfiled
    have hstays := hon hd row hrow
    rw [hoff row hrow] at hstays
    cases hstays
  · rw [heq]
    -- the request is no longer revoked, and the session is of no other
    have hrestored : (row.restored s).state = s.decision.source :=
      (hs.fits i s hi).finds (hs.claims i s hi hclaims).2
    have hrows : ∀ id row', (withRow o s.request.id (row.restored s)).rows id = some row' →
        row'.state = .revoked → id ≠ s.request.id ∧ o.rows id = some row' := by
      intro id row' hrow' hrevoked
      rcases rows_withRow hrow' with ⟨rfl, rfl⟩ | hother
      · rw [hrestored] at hrevoked
        cases hd : s.decision <;> rw [hd] at hrevoked <;> cases hrevoked
      · exact hother
    have hwritten : Bundled t f (withRow o s.request.id (row.restored s)) :=
      hb.of_rows rfl rfl rfl rfl (fun id row' hrow' hrevoked =>
        hb.awaits id row' (hrows id row' hrow' hrevoked).2 hrevoked)
    have hgoes : Bundled t f (goesOn (withRow o s.request.id (row.restored s)) i s .ended) := by
      refine hwritten.goesOn (hb.seen i s hi) hendable
        (fun id row' hrow' hrevoked q hq hof hforce => ?_)
      refine (hwritten.awaits id row' hrow' hrevoked q hq hof hforce).goesOn
        (fun s₀ h₀ hid _ => ?_)
      obtain rfl := Option.some.inj (hi.symm.trans h₀)
      exact absurd hid.symm (hrows id row' hrow' hrevoked).1
    exact hgoes.of_rows rfl rfl rfl rfl hgoes.awaits

theorem bundled_propose (hf : Filed f) (hs : Sound f o) (hb : Bundled p.toRfc3339 f o) (hi : o.sessions i = some s)
    (hphase : s.phase = .claimed) {change : String} (hfresh : ∀ c ∈ o.changes, c.name ≠ change) :
    Bundled p.toRfc3339 f (propose p o i s change) where
  seen j s₁ hj := by
    rcases sessions_goesOn hj with ⟨rfl, rfl⟩ | ⟨-, hj⟩
    · exact hb.seen j s hi
    · exact hb.seen j s₁ hj
  ends j s₁ hj hd hready := by
    rcases sessions_goesOn hj with ⟨rfl, rfl⟩ | ⟨-, hj⟩
    · rcases hready with h | h <;> cases h
    · exact hb.ends j s₁ hj hd hready
  policies := hb.policies
  unique c hc c' hc' hname := by
    rcases List.mem_append.mp hc with hc | hc <;> rcases List.mem_append.mp hc' with hc' | hc'
    · exact hb.unique c hc c' hc' hname
    · obtain rfl := List.mem_singleton.mp hc'
      exact absurd hname (hfresh c hc)
    · obtain rfl := List.mem_singleton.mp hc
      exact absurd hname.symm (hfresh c' hc')
    · rw [List.mem_singleton.mp hc, List.mem_singleton.mp hc']
  bundles c hc e he hkind := by
    rcases List.mem_append.mp hc with hc | hc
    · exact hb.bundles c hc e he hkind
    · obtain rfl := List.mem_singleton.mp hc
      exact bundles_propose hf hs hb hi hphase he hkind
  awaits id row hrow hrevoked q hq hof hforce := by
    cases hb.awaits id row hrow hrevoked q hq hof hforce with
    | @claimed j s₁ hj hid hd hclaimed hseen =>
      by_cases hji : j = i
      · -- the session's own Change is to end the Policy
        subst hji
        obtain rfl := Option.some.inj (hi.symm.trans hj)
        subst hid
        have hname := hb.policies q hq _ _ (hs.filed hrow) hof
        have hholds : holds (s.bundle p) q.val.name = true :=
          holds_propose hs hi hd hrow hname hseen
        exact .opened (List.mem_append_right _ (List.mem_singleton_self _)) rfl hd rfl hholds
      · exact .claimed ((Function.update_of_ne hji ..).trans hj) hid hd hclaimed hseen
    | @refused j s₁ hj hid hd hrefused =>
      have hji : j ≠ i := by
        rintro rfl
        rw [Option.some.inj (hi.symm.trans hj), hrefused] at hphase
        cases hphase
      exact .refused ((Function.update_of_ne hji ..).trans hj) hid hd hrefused
    | opened hc hid hd hopen hholds =>
      exact .opened (List.mem_append_left _ hc) hid hd hopen hholds

theorem bundled_fail (hb : Bundled t f o) (hi : o.sessions i = some s) :
    Bundled t f (goesOn o i s .refused) := by
  refine hb.goesOn (hb.seen i s hi) (by simp) (fun id row hrow hrevoked q hq hof hforce => ?_)
  cases hb.awaits id row hrow hrevoked q hq hof hforce with
  | @claimed j s₁ hj hid hd hclaimed hseen =>
    by_cases hji : j = i
    · subst hji
      obtain rfl := Option.some.inj (hi.symm.trans hj)
      exact .refused (s := { s with phase := .refused }) (Function.update_self ..) hid hd rfl
    · exact .claimed ((Function.update_of_ne hji ..).trans hj) hid hd hclaimed hseen
  | @refused j s₁ hj hid hd hrefused =>
    by_cases hji : j = i
    · subst hji
      obtain rfl := Option.some.inj (hi.symm.trans hj)
      exact .refused (s := { s with phase := .refused }) (Function.update_self ..) hid hd rfl
    · exact .refused ((Function.update_of_ne hji ..).trans hj) hid hd hrefused
  | opened hc hid hd hopen hholds => exact .opened hc hid hd hopen hholds

theorem unique_setStatus (hb : Bundled t f o) (name : String) (status : Status) :
    ∀ c ∈ setStatus o name status, ∀ c' ∈ setStatus o name status, c.name = c'.name → c = c' := by
  intro c hc c' hc' hname
  obtain ⟨c₀, hc₀, rfl⟩ := List.mem_map.mp hc
  obtain ⟨c₁, hc₁, rfl⟩ := List.mem_map.mp hc'
  have hsame : c₀.name = c₁.name := by
    have hkept : ∀ c : Opened, (if c.name = name then { c with status } else c).name = c.name := by
      intro c
      split <;> rfl
    rwa [hkept, hkept] at hname
  rw [hb.unique c₀ hc₀ c₁ hc₁ hsame]

theorem bundles_setStatus (hb : Bundled t f o) (name : String) (status : Status) :
    ∀ c ∈ setStatus o name status, ∀ e ∈ c.bundle, e.kind = "Policy" → Named f e ∧
      (inForce t o.clock e = false ∨
        c.decision = .approve ∧ ∀ id r, f id = some r → OfRequest r e → id = c.request) := by
  intro c hc e he hkind
  obtain ⟨c₀, hc₀, -, hrequest, hdecision, hbundle, -⟩ := mem_setStatus hc
  rw [hbundle] at he
  rw [hrequest, hdecision]
  exact hb.bundles c₀ hc₀ e he hkind

theorem Awaits.setStatus {id name : String} (h : Awaits o id name) {c : Opened}
    {status : Status} {o₁ : Office} (hsessions : o₁.sessions = o.sessions)
    (hchanges : o₁.changes = AccessRequests.setStatus o c.name status)
    (hother : ∀ c' ∈ o.changes, c'.request = id → c'.decision = .revoke → c'.status = .opened →
      holds c'.bundle name = true → c'.name ≠ c.name) : Awaits o₁ id name := by
  cases h with
  | claimed hi hid hd hphase hseen => exact .claimed (hsessions ▸ hi) hid hd hphase hseen
  | refused hi hid hd hphase => exact .refused (hsessions ▸ hi) hid hd hphase
  | @opened c' hc hid hd hopen hholds =>
    refine .opened (c := c') ?_ hid hd hopen hholds
    rw [hchanges]
    refine List.mem_map.mpr ⟨c', hc, ?_⟩
    rw [if_neg (hother c' hc hid hd hopen hholds)]

theorem bundled_merge (hs : Sound f o) (hb : Bundled t f o) {c : Opened} (hc : c ∈ o.changes)
    (hgrant : c.decision = .approve → ∀ row, o.rows c.request = some row → row.state ≠ .revoked) :
    Bundled t f (merge o c) where
  seen := hb.seen
  ends := hb.ends
  policies q hq := by
    rcases mem_written hq with ⟨hq, -⟩ | hq
    · exact hb.policies q hq
    · exact (hb.bundles c hc q.val hq q.property).1
  unique := unique_setStatus hb c.name .merged
  bundles := bundles_setStatus hb c.name .merged
  awaits id row hrow hrevoked q hq hof hforce := by
    rcases mem_written hq with ⟨hq, hkept⟩ | hq
    · refine (hb.awaits id row hrow hrevoked q hq hof hforce).setStatus rfl rfl
        (fun c' hc' _ _ _ hholds hname => ?_)
      rw [hb.unique c' hc' c hc hname, hkept] at hholds
      cases hholds
    · -- what the Change writes is ended, or the grant of a request that is not revoked
      rcases (hb.bundles c hc q.val hq q.property).2 with hended | ⟨hd, hof'⟩
      · rw [show inForce t o.clock q.val = true from hforce] at hended
        cases hended
      · obtain rfl := hof' id (asked row) (hs.filed hrow) hof
        exact absurd hrevoked (hgrant hd row hrow)

theorem bundled_close (hb : Bundled t f o) {c : Opened} (hc : c ∈ o.changes)
    (hrevoke : c.decision = .revoke → ∀ row, o.rows c.request = some row → ∀ q ∈ o.policies,
      OfRequest row q.val → inForce t o.clock q.val = false) :
    Bundled t f { o with changes := setStatus o c.name .closed } where
  seen := hb.seen
  ends := hb.ends
  policies := hb.policies
  unique := unique_setStatus hb c.name .closed
  bundles := bundles_setStatus hb c.name .closed
  awaits id row hrow hrevoked q hq hof hforce := by
    refine (hb.awaits id row hrow hrevoked q hq hof hforce).setStatus rfl rfl
      (fun c' hc' hid hd _ _ hname => ?_)
    obtain rfl := hb.unique c' hc' c hc hname
    subst hid
    rw [hrevoke hd row hrow q hq hof] at hforce
    cases hforce

theorem bundled_tick (hb : Bundled t f o) (passed : Nat) :
    Bundled t f { o with clock := o.clock + passed } where
  seen i s hi := ⟨(hb.seen i s hi).1.trans (by dsimp only; omega), (hb.seen i s hi).2⟩
  ends := hb.ends
  policies := hb.policies
  unique := hb.unique
  bundles c hc e he hkind := by
    obtain ⟨hnamed, hwrites⟩ := hb.bundles c hc e he hkind
    refine ⟨hnamed, hwrites.imp_left (fun hended => ?_)⟩
    cases hlater : inForce t (o.clock + passed) e with
    | false => rfl
    | true =>
      rw [inForce_of_later (by omega) hlater] at hended
      cases hended
  awaits id row hrow hrevoked q hq hof hforce :=
    (hb.awaits id row hrow hrevoked q hq hof
      (inForce_of_later (by dsimp only; omega) hforce)).mono (fun _ _ hi _ _ _ => hi) (fun _ hc => hc)

theorem bundled_prepare (hreads : Reads p.toRfc3339 o.clock) (hb : Bundled p.toRfc3339 f o)
    (hi : o.sessions i = some s)
    (hphase : s.phase = .read) : Bundled p.toRfc3339 f (prepare p o i s) := by
  refine hb.goesOn_of_quiet ⟨le_rfl, hreads, hb.policies⟩ (fun hd hready q hq => ?_) (fun s₀ h₀ _ => ?_)
  · have hd' : s.decision = .revoke := hd
    unfold Session.goesReady at hready
    rw [hd] at hready
    dsimp only at hready
    split at hready
    · rcases hready with h | h <;> cases h
    · rename_i hwrites
      have hown : ownPolicy (s.sees o).request (s.sees o).policies = some q := hq
      rw [hown] at hwrites
      simp only [Option.any_some, Bool.or_eq_true, Bool.not_eq_true', not_or,
        Bool.not_eq_false] at hwrites
      exact hwrites.2
  · rw [← Option.some.inj (hi.symm.trans h₀), hphase]
    exact ⟨by simp, by simp⟩

theorem bundled_step {a : Act} (hreads : Reads p.toRfc3339 o.clock) (hf : Filed f)
    (h : step p o a = some o') (hs : Sound f o) (horderly : Orderly p.toRfc3339 ⟨o, a, o'⟩)
    (hb : Bundled p.toRfc3339 f o) : Bundled p.toRfc3339 f o' := by
  cases takes_of_step h with
  | read hi hrow hpermits =>
    refine hb.goesOn_of_quiet ⟨le_rfl, hreads, by simp⟩ (by simp) (fun s₀ h₀ _ => ?_)
    rw [hi] at h₀
    cases h₀
  | prepare hi hphase => exact bundled_prepare hreads hb hi hphase
  | @claim i s hi hphase => exact bundled_claim hs hb hi hphase (horderly.claims i s rfl hi)
  | propose hi hphase hfresh => exact bundled_propose hf hs hb hi hphase hfresh
  | fail hi hphase => exact bundled_fail hb hi
  | @record i s change row hi hphase hrow =>
    have hwritten : Bundled p.toRfc3339 f
        (withRow o s.request.id { row with change := some change }) := by
      refine hb.of_rows rfl rfl rfl rfl (fun id row' hrow' hrevoked q hq hof hforce => ?_)
      rcases rows_withRow hrow' with ⟨rfl, rfl⟩ | ⟨-, hrow'⟩
      · exact hb.awaits _ row hrow hrevoked q hq hof hforce
      · exact hb.awaits id row' hrow' hrevoked q hq hof hforce
    refine hwritten.goesOn_of_quiet (hb.seen i s hi) (by simp) (fun s₀ h₀ _ => ?_)
    rw [← Option.some.inj (hi.symm.trans h₀), hphase]
    exact ⟨by simp, by simp⟩
  | @takeBack i s hi hphase =>
    exact bundled_takeBack hs hb hi hphase
      (fun hd row hrow => horderly.takesBack i s row rfl hi hd hrow)
  | @merge c hc hopen =>
    exact bundled_merge hs hb hc (fun hd row hrow => horderly.merges c hc rfl hd row hrow)
  | @close c hc hopen => exact bundled_close hb hc (horderly.closes c hc rfl)
  | tick => exact bundled_tick hb _

def filedIn (o : Office) (id : String) : Option AccessRequest := (o.rows id).map asked

theorem filed_of_opens (h : Opens o) : Filed (filedIn o) := by
  intro id r hr
  obtain ⟨row, hrow, rfl⟩ := Option.map_eq_some_iff.mp hr
  obtain ⟨hid, hlen, -, -⟩ := h.rows id row hrow
  simp only [isId, Bool.and_eq_true, decide_eq_true_eq] at hlen
  exact ⟨hid, hlen.1.1⟩

theorem sound_of_opens (h : Opens o) : Sound (filedIn o) o where
  rows _ := rfl
  fits i s hi := by
    rw [h.sessions] at hi
    cases hi
  stands id row hrow := by
    rw [h.standing, (h.rows id row hrow).2.2.1]
    exact .pending
  claims i s hi := by
    rw [h.sessions] at hi
    cases hi
  held id i d hmem := by
    rw [h.standing] at hmem
    cases hmem

theorem bundled_of_opens (h : Opens o) : Bundled t (filedIn o) o where
  seen i s hi := by
    rw [h.sessions] at hi
    cases hi
  ends i s hi := by
    rw [h.sessions] at hi
    cases hi
  policies q hq id r hr hof := by
    obtain ⟨row, hrow, rfl⟩ := Option.map_eq_some_iff.mp hr
    exact absurd hof (h.policies q hq id row hrow)
  unique c hc := by
    rw [h.changes] at hc
    cases hc
  bundles c hc := by
    rw [h.changes] at hc
    cases hc
  awaits id row hrow hrevoked := by
    rw [(h.rows id row hrow).2.2.1] at hrevoked
    cases hrevoked

theorem recorded_of_opens (h : Opens o) : Recorded o := by
  intro id row hrow
  unfold latest
  rw [(h.rows id row hrow).2.2.2, h.standing]
  rfl

theorem ended_of_bundled (hb : Bundled t f o) : Ended t o := by
  intro id row hrow hrevoked hdone q hq hof
  cases hforce : inForce t o.clock q.val with
  | false => rfl
  | true =>
    cases hb.awaits id row hrow hrevoked q hq hof hforce with
    | claimed hi hid hd hphase hseen => exact absurd hphase (hdone.sessions _ _ hi hid).1
    | refused hi hid hd hphase => exact absurd hphase (hdone.sessions _ _ hi hid).2
    | opened hc hid hd hopen hholds => exact absurd hopen (hdone.changes _ hc hid)

/-- **The record of a request follows its decisions** in every orderly run: it moves as it is
decided, holds the Change of its latest recorded decision, and once it is revoked and its Changes are
merged or closed, no Policy of it is in force. -/
theorem record_follows_decisions (p : Platform) {o₀ o : Office} (h₀ : Opens o₀) {tr : List Moment}
    (hr : Run (step p) o₀ tr o) (hreads : ∀ u ∈ tr, Reads p.toRfc3339 u.before.clock)
    (horderly : ∀ u ∈ tr, Orderly p.toRfc3339 u) :
    (∀ u ∈ tr, Moves u) ∧ Recorded o ∧ Ended p.toRfc3339 o := by
  have hf := filed_of_opens h₀
  have hsound : ∀ {tr' : List Moment} {o' : Office}, Run (step p) o₀ tr' o' →
      Sound (filedIn o₀) o' := fun hr' =>
    hr'.invariant (C := fun _ => True) (sound_of_opens h₀) (fun _ _ _ h _ hs => sound_step hf h hs)
      (fun _ _ => trivial)
  have hboth : Recorded o ∧ Bundled p.toRfc3339 (filedIn o₀) o :=
    hr.history (I := fun _ o => Recorded o ∧ Bundled p.toRfc3339 (filedIn o₀) o)
      (C := fun u => Reads p.toRfc3339 u.before.clock ∧ Orderly p.toRfc3339 u)
      ⟨recorded_of_opens h₀, bundled_of_opens h₀⟩
      (fun _ _ _ _ hrun h hC hI => ⟨recorded_step h (hsound hrun) hC.2 hI.1,
        bundled_step hC.1 hf h (hsound hrun) hC.2 hI.2⟩)
      (fun u hu => ⟨hreads u hu, horderly u hu⟩)
  refine ⟨fun u hu => ?_, hboth.1, ended_of_bundled hboth.2⟩
  obtain ⟨a, b, rfl⟩ := List.append_of_mem hu
  obtain ⟨hbefore, hstep, -⟩ := hr.at
  exact moves_step hstep (hsound hbefore)

instance (t : Rfc3339) (u : Moment) : Decidable (Orderly t u) :=
  match hact : u.act with
  | .record i =>
    decidable_of_iff (∀ s ∈ u.before.sessions i, s.decision = .approve →
        ∀ row ∈ u.before.rows s.request.id, row.change = none) <| by
      refine ⟨fun h => ⟨fun i' s row hi hs hd hrow => ?_, by simp [hact], by simp [hact],
        by simp [hact], by simp [hact]⟩, fun h s hs hd row hrow => h.records i s row hact hs hd hrow⟩
      obtain rfl : i = i' := by simpa [hact] using hi
      exact h s hs hd row hrow
  | .merge name =>
    decidable_of_iff (∀ c ∈ u.before.changes, c.name = name → c.decision = .approve →
        ∀ row ∈ u.before.rows c.request, row.state ≠ .revoked) <| by
      refine ⟨fun h => ⟨by simp [hact], fun c hc hname => ?_, by simp [hact], by simp [hact],
        by simp [hact]⟩, fun h c hc hname => h.merges c hc (by rw [hact, hname])⟩
      obtain rfl : name = c.name := by simpa [hact] using hname
      exact h c hc rfl
  | .claim i =>
    decidable_of_iff (∀ s ∈ u.before.sessions i, s.decision = .revoke → ∀ q ∈ u.before.policies,
        OfRequest s.request q.val → inForce t u.before.clock q.val = true →
          ∃ q' ∈ s.policies, q'.val.name = q.val.name) <| by
      refine ⟨fun h => ⟨by simp [hact], by simp [hact], fun i' s hi hs => ?_, by simp [hact],
        by simp [hact]⟩, fun h s hs => h.claims i s hact hs⟩
      obtain rfl : i = i' := by simpa [hact] using hi
      exact h s hs
  | .close name =>
    decidable_of_iff (∀ c ∈ u.before.changes, c.name = name → c.decision = .revoke →
        ∀ row ∈ u.before.rows c.request, ∀ q ∈ u.before.policies, OfRequest row q.val →
          inForce t u.before.clock q.val = false) <| by
      refine ⟨fun h => ⟨by simp [hact], by simp [hact], by simp [hact], fun c hc hname => ?_,
        by simp [hact]⟩, fun h c hc hname => h.closes c hc (by rw [hact, hname])⟩
      obtain rfl : name = c.name := by simpa [hact] using hname
      exact h c hc rfl
  | .takeBack i =>
    decidable_of_iff (∀ s ∈ u.before.sessions i, s.decision = .revoke →
        ∀ row ∈ u.before.rows s.request.id, s.standsOn row = true) <| by
      refine ⟨fun h => ⟨by simp [hact], by simp [hact], by simp [hact], by simp [hact],
        fun i' s row hi hs hd hrow => ?_⟩, fun h s hs hd row hrow =>
          h.takesBack i s row hact hs hd hrow⟩
      obtain rfl : i = i' := by simpa [hact] using hi
      exact h s hs hd row hrow
  | .read .. | .prepare _ | .propose .. | .fail _ | .tick _ =>
    .isTrue ⟨by simp [hact], by simp [hact], by simp [hact], by simp [hact], by simp [hact]⟩

/-! ### a pipeline's access, granted and ended -/

/-- the pipeline `air-index` of `city-kpis` asks for read on helsinki's Endpoint `air` -/
def airRequest : AccessRequest where
  id := "ar-0a1b2c3d4e5f"
  project := "city-kpis"
  requester := .pipeline "air-index"
  endpointProject := "helsinki"
  endpoint := "air"
  space := "air"
  operations := .read
  types := [⟨"AirQualityObserved", []⟩]
  until? := none
  reason := "the air index"
  state := .pending
  requestedBy := "jana"
  decidedBy := none
  decidedAt := none
  decisionReason := none
  change := none

def airOffered : Of "Endpoint" where
  val :=
    { apiVersion := "joinedcontext.eu/v1alpha1", kind := "Endpoint", name := "air"
      ns := some "helsinki", metadata := []
      spec := .object [("contextSpaceRef", .string "air")], status := none, beside := Envelope.beside_nil }
  property := rfl

def airOffice : Office where
  rows id := if id = airRequest.id then some airRequest else none
  endpoints n := if n = "air" then some airOffered else none
  policies := []
  changes := []
  sessions _ := none
  clock := 1792238430 * Time.second
  standing _ := []

/-- the platform, whose clock reads the two instants written below -/
def airPlatform : Platform where
  format := stamp
  parse text := [1792238430 * Time.second, 1792238431 * Time.second].find? fun i => stamp i = text
  apiVersion := "joinedcontext.eu/v1alpha1"
  isPersonId _ := true

def approvedActs : List Act :=
  [.read 0 "petra" .approve airRequest.id none, .prepare 0, .claim 0, .propose 0 "c1"]

def revokedActs : List Act :=
  [.read 1 "eva" .revoke airRequest.id none, .prepare 1, .claim 1, .propose 1 "c2", .record 1]

theorem opens_air : Opens airOffice where
  rows id row hrow := by
    obtain ⟨rfl, rfl⟩ : id = airRequest.id ∧ airRequest = row := by
      simpa [airOffice, Option.ite_none_right_eq_some] using hrow
    decide
  policies q hq := by cases hq
  sessions := rfl
  changes := rfl
  standing := rfl

/-- each Change is recorded and merged before the next decision -/
def inTurn : List Act :=
  approvedActs ++ [.record 0, .merge "c1", .tick Time.second.toNat] ++ revokedActs ++ [.merge "c2"]

theorem record_follows_decisions_of_air :
    (∀ u ∈ trace (step airPlatform) airOffice inTurn, Moves u) ∧
      Recorded (final (step airPlatform) airOffice inTurn) ∧
      Ended airPlatform.toRfc3339 (final (step airPlatform) airOffice inTurn) := by
  have hruns : (exec (step airPlatform) airOffice inTurn).isSome ∧
      (∀ u ∈ trace (step airPlatform) airOffice inTurn,
        airPlatform.parse (airPlatform.format u.before.clock) = some u.before.clock) ∧
      ∀ u ∈ trace (step airPlatform) airOffice inTurn, Orderly airPlatform.toRfc3339 u := by
    decide +kernel
  obtain ⟨hsome, hreads, horderly⟩ := hruns
  exact record_follows_decisions airPlatform opens_air (run_trace hsome) hreads horderly

/-- petra's Change is merged and eva's recorded before petra's call records hers -/
def overwritten : List Act := approvedActs ++ [.merge "c1"] ++ revokedActs ++ [.record 0]

/-- **The grant's Change is recorded over the revoke's.** -/
theorem change_overwritten :
    ¬ ∀ o tr, Run (step airPlatform) airOffice tr o → Recorded o := by
  intro hall
  have hruns : (exec (step airPlatform) airOffice overwritten).isSome ∧
      ((final (step airPlatform) airOffice overwritten).rows airRequest.id).map (·.change)
        = some (some "c1") ∧
      latest (final (step airPlatform) airOffice overwritten) airRequest.id = some "c2" := by
    decide +kernel
  obtain ⟨hsome, hchange, hlatest⟩ := hruns
  obtain ⟨row, hrow, hc1⟩ := Option.map_eq_some_iff.mp hchange
  have hrecorded := hall _ _ (run_trace hsome) airRequest.id row hrow
  rw [hc1, hlatest] at hrecorded
  exact absurd hrecorded (by decide)

end AccessRequests
end Portal
