import Portal.Base.Machine
import Portal.Changes.Lane
import Portal.Deployer.Sources
import Portal.Verdicts.Digest

/-!
# The question an MCP call asks first (`mcp/elicitation.rs`; `mcp/mod.rs`: `answer_call`;
`api/mcp_elicitations.rs`)

A call that takes the yellow or the red lane, or destroys, opens a question and runs nothing.  The
person decides it on its page with their own session, and the client sends the call again with the
question's id.  A ServiceAccount has no person behind it and accepts for itself.

* `McpElicitations`   the open questions: `ask`, `decide`, `answer`;
* `answerCall`        what a call comes to;
* `step`              calls, pages, the clock and restarts, in any order;
* `Backed`            what the open questions rest on, `backed_run` along runs;
* `runs_licensed`     **the law**: a call that must ask runs only as it was asked about, on the last
                      word of the person whose client asked, once.
-/

namespace Portal
namespace Mcp
open Verdicts (canonicalize)

/-! ## the open questions -/

/-- `EXPIRES_IN_SECONDS` -/
def expiresInSeconds : Int := 600

inductive ElicitationDecision where
  | accept
  | decline
deriving DecidableEq

/-- one question waiting for its answer -/
structure Pending where
  owner : String
  operation : String
  project : String
  digest : String
  message : String
  resource : String
  askedAt : Int
  decision : Option ElicitationDecision
deriving DecidableEq

/-- one open question as its page shows it -/
structure Question where
  id : String
  operation : String
  message : String
  resource : String
  expiresAt : Int
  decision : Option ElicitationDecision
deriving DecidableEq

inductive Answer where
  | accepted
  | declined
  | waiting
  | unknown
deriving DecidableEq

def questionOf (id : String) (p : Pending) : Question :=
  ⟨id, p.operation, p.message, p.resource, p.askedAt + expiresInSeconds, p.decision⟩

/-- the id a client sends back -/
def sentId (sent : Value) : Option String :=
  ((sent.get? "elicitationId").orElse (fun _ => sent.get? "id")).bind Value.asStr

def sentAction (sent : Value) : Option String := (sent.get? "action").bind Value.asStr

def clientDeclined (sent : Value) : Bool :=
  (sentAction sent).any (fun action => action ∈ ["decline", "declined", "cancel", "cancelled"])

def clientAccepted (sent : Value) : Bool :=
  (sentAction sent).any (fun action => action ∈ ["accept", "accepted"])

namespace Pending

def openFor (now : Int) (p : Pending) (owner project : String) : Bool :=
  p.owner = owner && p.project = project && now - p.askedAt ≤ expiresInSeconds

/-- the decision the client's second call meets; a workload's own accept is one where there is none -/
def decided (p : Pending) (sent : Value) (workload : Bool) : Option ElicitationDecision :=
  if p.decision = none && clientAccepted sent && workload then some .accept else p.decision

/-- a client may decline and nothing more -/
def answer (p : Pending) (sent : Value) (workload : Bool) : Answer :=
  match p.decided sent workload, clientDeclined sent with
  | some .accept, false => .accepted
  | some .decline, _ => .declined
  | _, true => .declined
  | none, false => .waiting

end Pending

abbrev McpElicitations := OrdMap String Pending

namespace McpElicitations

def forgetExpired (m : McpElicitations) (now : Int) : McpElicitations :=
  m.retain (fun p => now - p.askedAt ≤ expiresInSeconds)

def ask (m : McpElicitations) (now : Int) (id : String) (p : Pending) : McpElicitations :=
  (m.forgetExpired now).insert id p

/-- the open question `id` of `owner` in `project` -/
def held (m : McpElicitations) (now : Int) (owner project id : String) : Option Pending :=
  (m.get? id).filter (fun p => p.openFor now owner project)

def question (m : McpElicitations) (now : Int) (owner project id : String) : Option Question :=
  (m.held now owner project id).map (questionOf id)

def decide (m : McpElicitations) (now : Int) (owner project id : String)
    (decision : ElicitationDecision) : McpElicitations × Option Question :=
  match m.held now owner project id with
  | none => (m, none)
  | some p =>
    let p := { p with decision := some decision }
    (m.insert id p, some (questionOf id p))

/-- an id answers once: a question that is decided is spent -/
def answer (m : McpElicitations) (now : Int) (owner operation project digest : String)
    (sent : Value) (workload : Bool) : McpElicitations × Answer :=
  match sentId sent with
  | none => (m, .unknown)
  | some id =>
    match m.held now owner project id with
    | none => (m, .unknown)
    | some p =>
      if p.operation = operation ∧ p.digest = digest then
        match p.answer sent workload with
        | .waiting => (m, .waiting)
        | answer => (m.erase id, answer)
      else (m, .unknown)

end McpElicitations

/-! ## calls -/

/-- a `tools/call` that no earlier check refused -/
structure Call where
  /-- the subject of the token -/
  owner : String
  workload : Bool
  operation : String
  destructive : Bool
  lane : Changes.Lane
  project : String
  arguments : Value
  /-- `params.elicitation` -/
  elicitation : Option Value

namespace Call

def input (c : Call) : Value :=
  match c.arguments with
  | .object fields => .object (fields.filter (fun p => p.1 ≠ "project" && p.1 ≠ "elicitation"))
  | v => v

/-- the answer that comes with the call -/
def sent (c : Call) : Option Value :=
  c.elicitation.orElse (fun _ => c.arguments.get? "elicitation")

def mustAsk (c : Call) : Bool := c.lane ≠ .green || c.destructive

def names (c : Call) : Option String := c.sent.bind sentId

end Call

inductive Outcome where
  | runs
  | asked
  | declined
  | waiting
  | unknown
deriving DecidableEq

def Answer.outcome : Answer → Outcome
  | .accepted => .runs
  | .declined => .declined
  | .waiting => .waiting
  | .unknown => .unknown

section
variable (hash : Value → String)

/-- `digest_of`: `hash` prints the canonical form and shortens its SHA-256 -/
def digestOf (v : Value) : String := hash (canonicalize v)

def Call.opens (c : Call) (now : Int) (message resource : String) : Pending :=
  ⟨c.owner, c.operation, c.project, digestOf hash c.input, message, resource, now, none⟩

/-- `id` is the one drawn where a question is opened -/
def answerCall (m : McpElicitations) (now : Int) (c : Call) (id message resource : String) :
    McpElicitations × Outcome :=
  if !c.mustAsk then (m, .runs)
  else
    match c.sent with
    | none => (m.ask now id (c.opens hash now message resource), .asked)
    | some sent =>
      let answered := m.answer now c.owner c.operation c.project (digestOf hash c.input) sent
        c.workload
      (answered.1, answered.2.outcome)

/-! ## runs -/

structure Asking where
  pending : McpElicitations
  now : Int

inductive Act where
  | call (c : Call) (id message resource : String)
  /-- a person's session decides on the page; a bearer token is refused there -/
  | decide (owner project id : String) (decision : ElicitationDecision)
  | tick (now : Int)
  | restart

def step (s : Asking) : Act → Option Asking
  | .call c id message resource =>
    some { s with pending := (answerCall hash s.pending s.now c id message resource).1 }
  | .decide owner project id decision =>
    some { s with pending := (s.pending.decide s.now owner project id decision).1 }
  | .tick now => some { s with now }
  | .restart => some { s with pending := OrdMap.empty }

/-- `t` opens the question `id` as `p` -/
def Asks (id : String) (p : Pending) (t : Trans Asking Act) : Prop :=
  ∃ c message resource, t.act = .call c id message resource ∧ c.mustAsk = true ∧ c.sent = none ∧
    p = c.opens hash t.before.now message resource

/-- `t` spends the question `id` -/
def Spends (id : String) (t : Trans Asking Act) : Prop :=
  ∃ c id' message resource, t.act = .call c id' message resource ∧ c.mustAsk = true ∧
    c.names = some id ∧
    ((answerCall hash t.before.pending t.before.now c id' message resource).2 = .runs ∨
      (answerCall hash t.before.pending t.before.now c id' message resource).2 = .declined)

/-- the person who was asked `p` decides it in time -/
def Decides (id : String) (p : Pending) (decision : ElicitationDecision) (t : Trans Asking Act) :
    Prop :=
  t.act = .decide p.owner p.project id decision ∧ t.before.now - p.askedAt ≤ expiresInSeconds

/-- nobody asks under `id` again, spends it or restarts the Portal -/
structure Stays (id : String) (t : Trans Asking Act) : Prop where
  asked : ∀ p, ¬ Asks hash id p t
  spent : ¬ Spends hash id t
  lives : t.act ≠ .restart

end

/-- the last of the decisions of `p` in `l` is `decision`; none: there is no decision -/
def LastWord (id : String) (p : Pending) (l : List (Trans Asking Act)) :
    Option ElicitationDecision → Prop
  | none => ∀ u ∈ l, ∀ d, ¬ Decides id p d u
  | some decision => ∃ m t n, l = m ++ t :: n ∧ Decides id p decision t ∧
      ∀ u ∈ n, ∀ d, ¬ Decides id p d u

section
variable (hash : Value → String)

/-- a question was asked, stood since, and holds the last word -/
def Backed (tr : List (Trans Asking Act)) (id : String) (p : Pending) : Prop :=
  ∃ l t m, tr = l ++ t :: m ∧ Asks hash id { p with decision := none } t ∧
    (∀ u ∈ m, Stays hash id u) ∧ LastWord id p m p.decision

/-- a call that may run on the question `id`: this very call was asked about, not ten minutes ago,
and is accepted by the last word of the person who was asked, or by a workload itself -/
def Licensed (tr : List (Trans Asking Act)) (now : Int) (c : Call) (id : String) : Prop :=
  ∃ l t m p, tr = l ++ t :: m ∧ Asks hash id p t ∧ (∀ u ∈ m, Stays hash id u) ∧
    (p.owner = c.owner ∧ p.operation = c.operation ∧ p.project = c.project ∧
      p.digest = digestOf hash c.input) ∧
    now - p.askedAt ≤ expiresInSeconds ∧
    (LastWord id p m (some .accept) ∨
      LastWord id p m none ∧ c.workload = true ∧ c.sent.any clientAccepted = true)

end

section
variable {hash : Value → String} {m m' : McpElicitations} {now : Int} {id : String} {p p' : Pending}

/-! ## one operation -/

theorem held_eq_some {owner project : String} :
    m.held now owner project id = some p ↔
      m.get? id = some p ∧ p.owner = owner ∧ p.project = project ∧
        now - p.askedAt ≤ expiresInSeconds := by
  unfold McpElicitations.held Pending.openFor
  rw [Option.filter_eq_some_iff]
  simp [and_assoc]

theorem get?_ask {now : Int} {id id' : String} {q : Pending} (h : (m.ask now id q).get? id' = some p) :
    id' = id ∧ p = q ∨ id' ≠ id ∧ m.get? id' = some p := by
  unfold McpElicitations.ask at h
  rcases OrdMap.of_get?_insert h with ⟨hid, hp⟩ | ⟨hid, h⟩
  · exact .inl ⟨hid, hp⟩
  · unfold McpElicitations.forgetExpired at h
    rw [OrdMap.get?_retain, Option.filter_eq_some_iff] at h
    exact .inr ⟨hid, h.1⟩

/-- what an answer leaves: the questions as they were, or one that was open for this call spent -/
theorem answer_cases (owner operation project digest : String) (sent : Value) (workload : Bool) :
    ((m.answer now owner operation project digest sent workload).1 = m ∧
      ((m.answer now owner operation project digest sent workload).2 = .waiting ∨
        (m.answer now owner operation project digest sent workload).2 = .unknown)) ∨
    ∃ id p, sentId sent = some id ∧ m.held now owner project id = some p ∧
      p.operation = operation ∧ p.digest = digest ∧
      m.answer now owner operation project digest sent workload
        = (m.erase id, p.answer sent workload) ∧ p.answer sent workload ≠ .waiting := by
  cases hid : sentId sent with
  | none => exact .inl (by simp [McpElicitations.answer, hid])
  | some id =>
    cases hheld : m.held now owner project id with
    | none => exact .inl (by simp [McpElicitations.answer, hid, hheld])
    | some p =>
      by_cases hp : p.operation = operation ∧ p.digest = digest
      · by_cases hwaiting : p.answer sent workload = .waiting
        · exact .inl (by simp [McpElicitations.answer, hid, hheld, hp, hwaiting])
        · refine .inr ⟨id, p, rfl, hheld, hp.1, hp.2, ?_, hwaiting⟩
          simp only [McpElicitations.answer, hid, hheld, hp, and_self, if_true]
      · exact .inl (by simp [McpElicitations.answer, hid, hheld, hp])

theorem accepted_cases {sent : Value} {workload : Bool} (h : p.answer sent workload = .accepted) :
    p.decision = some .accept ∨ p.decision = none ∧ workload = true ∧ clientAccepted sent = true := by
  have hdecided : p.decided sent workload = some .accept := by
    unfold Pending.answer at h
    split at h
    · assumption
    all_goals exact absurd h (by simp)
  unfold Pending.decided at hdecided
  split at hdecided
  · rename_i hown
    simp only [Bool.and_eq_true, decide_eq_true_eq] at hown
    exact .inr ⟨hown.1.1, hown.2, hown.1.2⟩
  · exact .inl hdecided

theorem LastWord.snoc {l : List (Trans Asking Act)} {t : Trans Asking Act}
    {word : Option ElicitationDecision} (h : LastWord id p l word) (ht : ∀ d, ¬ Decides id p d t) :
    LastWord id p (l ++ [t]) word := by
  cases word with
  | none =>
    intro u hu d
    rcases List.mem_append.1 hu with hu | hu
    · exact h u hu d
    · exact List.mem_singleton.1 hu ▸ ht d
  | some decision =>
    obtain ⟨before, u, after, rfl, hu, hafter⟩ := h
    refine ⟨before, u, after ++ [t], by simp, hu, ?_⟩
    intro v hv d
    rcases List.mem_append.1 hv with hv | hv
    · exact hafter v hv d
    · exact List.mem_singleton.1 hv ▸ ht d

/-! ## one step -/

/-- **Step**: a question that is open was just asked, just decided, or is left as it was. -/
theorem entry_of_step {s s' : Asking} {a : Act} (h : step hash s a = some s')
    (hget : s'.pending.get? id = some p') :
    (Asks hash id p' ⟨s, a, s'⟩ ∧ p'.decision = none) ∨
      Stays hash id ⟨s, a, s'⟩ ∧
        ((∃ p d, s.pending.get? id = some p ∧ p' = { p with decision := some d } ∧
            Decides id p d ⟨s, a, s'⟩) ∨
          s.pending.get? id = some p' ∧ ∀ d, ¬ Decides id p' d ⟨s, a, s'⟩) := by
  cases a with
  | call c id₀ message resource =>
    have hno : ∀ q d, ¬ Decides id q d ⟨s, .call c id₀ message resource, s'⟩ :=
      fun q d hd => absurd hd.1 (by simp)
    obtain rfl := Option.some.inj h
    by_cases hask : c.mustAsk = true
    · cases hsent : c.sent with
      | none =>
        have hcall : answerCall hash s.pending s.now c id₀ message resource
            = (s.pending.ask s.now id₀ (c.opens hash s.now message resource), .asked) := by
          simp [answerCall, hask, hsent]
        simp only [hcall] at hget
        rcases get?_ask hget with ⟨rfl, rfl⟩ | ⟨hne, hget⟩
        · exact .inl ⟨⟨c, message, resource, rfl, hask, hsent, rfl⟩, rfl⟩
        · refine .inr ⟨⟨?_, ?_, by simp⟩, .inr ⟨hget, hno p'⟩⟩
          · rintro q ⟨c', message', resource', hact, -, -, -⟩
            simp only [Act.call.injEq] at hact
            exact hne hact.2.1.symm
          · rintro ⟨c', id', message', resource', hact, -, hnames, -⟩
            simp only [Act.call.injEq] at hact
            obtain ⟨rfl, rfl, rfl, rfl⟩ := hact
            simp [Call.names, hsent] at hnames
      | some sent =>
        have hcall : answerCall hash s.pending s.now c id₀ message resource
            = ((s.pending.answer s.now c.owner c.operation c.project (digestOf hash c.input) sent
                  c.workload).1,
                (s.pending.answer s.now c.owner c.operation c.project (digestOf hash c.input) sent
                  c.workload).2.outcome) := by
          simp [answerCall, hask, hsent]
        have hasked : ∀ q, ¬ Asks hash id q ⟨s, .call c id₀ message resource,
            { s with pending := (answerCall hash s.pending s.now c id₀ message resource).1 }⟩ := by
          rintro q ⟨c', message', resource', hact, -, hsent', -⟩
          simp only [Act.call.injEq] at hact
          obtain ⟨rfl, rfl, rfl, rfl⟩ := hact
          exact absurd (hsent.symm.trans hsent') (by simp)
        simp only [hcall] at hget
        rcases @answer_cases s.pending s.now c.owner c.operation c.project
            (digestOf hash c.input) sent c.workload with
          ⟨hsame, hopen⟩ | ⟨id₁, p₁, hid, -, -, -, hanswer, -⟩
        · rw [hsame] at hget
          refine .inr ⟨⟨hasked, ?_, by simp⟩, .inr ⟨hget, hno p'⟩⟩
          rintro ⟨c', id', message', resource', hact, -, -, hout⟩
          simp only [Act.call.injEq] at hact
          obtain ⟨rfl, rfl, rfl, rfl⟩ := hact
          simp only [hcall] at hout
          rcases hopen with hopen | hopen <;> simp [hopen, Answer.outcome] at hout
        · rw [hanswer] at hget
          obtain ⟨hne, hget⟩ := OrdMap.of_get?_erase hget
          refine .inr ⟨⟨hasked, ?_, by simp⟩, .inr ⟨hget, hno p'⟩⟩
          rintro ⟨c', id', message', resource', hact, -, hnames, -⟩
          simp only [Act.call.injEq] at hact
          obtain ⟨rfl, rfl, rfl, rfl⟩ := hact
          rw [Call.names, hsent, Option.bind_some, hid] at hnames
          exact hne (Option.some.inj hnames).symm
    · have hcall : answerCall hash s.pending s.now c id₀ message resource = (s.pending, .runs) := by
        simp [answerCall, hask]
      simp only [hcall] at hget
      refine .inr ⟨⟨?_, ?_, by simp⟩, .inr ⟨hget, hno p'⟩⟩
      · rintro q ⟨c', message', resource', hact, hask', -, -⟩
        simp only [Act.call.injEq] at hact
        exact hask (hact.1 ▸ hask')
      · rintro ⟨c', id', message', resource', hact, hask', -, -⟩
        simp only [Act.call.injEq] at hact
        exact hask (hact.1 ▸ hask')
  | decide owner project id₀ decision =>
    have hstays : Stays hash id ⟨s, .decide owner project id₀ decision, s'⟩ := by
      refine ⟨?_, ?_, by simp⟩
      · rintro q ⟨c', message', resource', hact, -⟩
        exact absurd hact (by simp)
      · rintro ⟨c', id', message', resource', hact, -⟩
        exact absurd hact (by simp)
    refine .inr ⟨hstays, ?_⟩
    obtain rfl := Option.some.inj h
    unfold McpElicitations.decide at hget
    cases hheld : s.pending.held s.now owner project id₀ with
    | none =>
      simp only [hheld] at hget
      refine .inr ⟨hget, ?_⟩
      rintro d ⟨hact, hin⟩
      simp only [Act.decide.injEq] at hact
      obtain ⟨rfl, rfl, rfl, rfl⟩ := hact
      have hheld' := held_eq_some.2 ⟨hget, rfl, rfl, hin⟩
      exact absurd (hheld.symm.trans hheld') (by simp)
    | some p =>
      simp only [hheld] at hget
      obtain ⟨hp, howner, hproject, hin⟩ := held_eq_some.1 hheld
      rw [OrdMap.get?_insert] at hget
      by_cases hid : id = id₀
      · rw [if_pos hid] at hget
        subst hid
        refine .inl ⟨p, decision, hp, (Option.some.inj hget).symm, ?_, hin⟩
        rw [howner, hproject]
      · rw [if_neg hid] at hget
        refine .inr ⟨hget, ?_⟩
        rintro d ⟨hact, -⟩
        simp only [Act.decide.injEq] at hact
        exact hid hact.2.2.1.symm
  | tick now =>
    obtain rfl := Option.some.inj h
    refine .inr ⟨⟨?_, ?_, by simp⟩, .inr ⟨hget, fun d hd => absurd hd.1 (by simp)⟩⟩
    · rintro q ⟨c', message', resource', hact, -⟩
      exact absurd hact (by simp)
    · rintro ⟨c', id', message', resource', hact, -⟩
      exact absurd hact (by simp)
  | restart =>
    obtain rfl := Option.some.inj h
    exact absurd hget (by simp)

theorem Backed.snoc {tr : List (Trans Asking Act)} {t : Trans Asking Act}
    (h : Backed hash tr id p) (hstays : Stays hash id t) (hno : ∀ d, ¬ Decides id p d t) :
    Backed hash (tr ++ [t]) id p := by
  obtain ⟨l, u, m, rfl, hasks, hm, hword⟩ := h
  refine ⟨l, u, m ++ [t], by simp, hasks, ?_, hword.snoc hno⟩
  intro v hv
  rcases List.mem_append.1 hv with hv | hv
  · exact hm v hv
  · exact List.mem_singleton.1 hv ▸ hstays

theorem Backed.decided {tr : List (Trans Asking Act)} {t : Trans Asking Act}
    {decision : ElicitationDecision} (h : Backed hash tr id p) (hstays : Stays hash id t)
    (hdecides : Decides id p decision t) :
    Backed hash (tr ++ [t]) id { p with decision := some decision } := by
  obtain ⟨l, u, m, rfl, hasks, hm, -⟩ := h
  refine ⟨l, u, m ++ [t], by simp, hasks, ?_, ⟨m, t, [], rfl, hdecides, by simp⟩⟩
  intro v hv
  rcases List.mem_append.1 hv with hv | hv
  · exact hm v hv
  · exact List.mem_singleton.1 hv ▸ hstays

/-- **Run**: every open question is backed. -/
theorem backed_run {n₀ : Int} {tr : List (Trans Asking Act)} {s : Asking}
    (hr : Run (step hash) ⟨OrdMap.empty, n₀⟩ tr s) :
    ∀ id p, s.pending.get? id = some p → Backed hash tr id p := by
  refine Run.history (C := fun _ => True)
    (I := fun tr s => ∀ id p, s.pending.get? id = some p → Backed hash tr id p) ?_ ?_ hr (by simp)
  · intro id p hp
    exact absurd hp (by simp)
  · intro tr s a s' _ hstep _ ih id p' hp'
    rcases entry_of_step hstep hp' with
      ⟨hasks, hnone⟩ | ⟨hstays, ⟨p, d, hp, rfl, hdecides⟩ | ⟨hp, hno⟩⟩
    · refine ⟨tr, ⟨s, a, s'⟩, [], rfl, ?_, by simp, ?_⟩
      · have heq : { p' with decision := none } = p' := by rw [← hnone]
        rw [heq]
        exact hasks
      · rw [hnone]
        exact fun u hu => absurd hu (by simp)
    · exact (ih id p hp).decided hstays hdecides
    · exact (ih id p' hp).snoc hstays hno

/-! ## the law -/

/-- **What runs was asked about and accepted**: after any calls, pages, ticks and restarts, a call of
an operation that must ask runs only on a question that its client was asked about this very call at
most ten minutes ago, that nobody has answered, asked again or forgotten since, and whose last
decision by the person who was asked is accept; or which a ServiceAccount accepts undecided. -/
theorem runs_licensed {n₀ : Int} {tr : List (Trans Asking Act)} {s : Asking}
    (hr : Run (step hash) ⟨OrdMap.empty, n₀⟩ tr s) {c : Call} {id message resource : String}
    (hask : c.mustAsk = true)
    (hruns : (answerCall hash s.pending s.now c id message resource).2 = .runs) :
    ∃ eid, c.names = some eid ∧ Licensed hash tr s.now c eid := by
  unfold answerCall at hruns
  simp only [hask, Bool.not_true, Bool.false_eq_true, if_false] at hruns
  cases hsent : c.sent with
  | none => simp [hsent] at hruns
  | some sent =>
    simp only [hsent] at hruns
    rcases @answer_cases s.pending s.now c.owner c.operation c.project
        (digestOf hash c.input) sent c.workload with
      ⟨-, hopen⟩ | ⟨eid, p, hid, hheld, hoperation, hdigest, hanswer, -⟩
    · rcases hopen with hopen | hopen <;> simp [hopen, Answer.outcome] at hruns
    · have haccepted : p.answer sent c.workload = .accepted := by
        rw [hanswer] at hruns
        cases hp : p.answer sent c.workload with
        | accepted => rfl
        | _ => simp [hp, Answer.outcome] at hruns
      obtain ⟨hp, howner, hproject, hin⟩ := held_eq_some.1 hheld
      obtain ⟨l, u, m, hl, hasks, hm, hword⟩ := backed_run hr eid p hp
      refine ⟨eid, by rw [Call.names, hsent, Option.bind_some, hid], l, u, m,
        { p with decision := none }, hl, hasks, hm, ⟨howner, hoperation, hproject, hdigest⟩, hin, ?_⟩
      rcases accepted_cases haccepted with hdecision | ⟨hdecision, hworkload, hown⟩
      · rw [hdecision] at hword
        exact .inl hword
      · rw [hdecision] at hword
        exact .inr ⟨hword, hworkload, by rw [hsent]; exact hown⟩

end

/-! ## a deletion, accepted on its page -/

def deletion : Call :=
  ⟨"sub-1", false, "jc_resource_delete", true, .red, "helsinki",
    .object [("project", .string "helsinki"), ("kind", .string "Endpoint"), ("name", .string "air")],
    none⟩

def confirmed : Call :=
  { deletion with elicitation := some (.object [("elicitationId", .string "eli-1")]) }

def askedAndAccepted : List Act :=
  [.call deletion "eli-1" "Delete in project 'helsinki'" "/projects/helsinki/endpoints/air",
    .decide "sub-1" "helsinki" "eli-1" .accept, .tick 60]

/-- the text itself in the place of its hash; the call has no numbers -/
def textOf (v : Value) : String := String.ofList (v.chars (fun _ => []))

theorem runs_licensed_of_accepted : ∃ eid, confirmed.names = some eid ∧
    Licensed textOf (trace (step textOf) ⟨OrdMap.empty, 0⟩ askedAndAccepted) 60 confirmed eid := by
  have hruns : (answerCall textOf (final (step textOf) ⟨OrdMap.empty, 0⟩ askedAndAccepted).pending
      (final (step textOf) ⟨OrdMap.empty, 0⟩ askedAndAccepted).now confirmed "" "" "").2 = .runs := by
    decide +kernel
  exact runs_licensed (run_trace (by decide +kernel)) (by decide +kernel) hruns

end Mcp
end Portal
