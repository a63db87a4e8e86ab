import Portal.Deployer.Orphans
import Portal.Deployer.Placement

/-!
# Sending a stream to the runner (`reconciler/streams.rs`: `apply`, `holds_as_rendered`, `waiting`,
`back_off`, `remove`, `retire_unqualified`)

A stream that the runner already runs as rendered is not sent again; any other is, unless the last
send of the same render went unanswered and its wait is not over.  Three maps decide: the render
each live stream was sent with, the unanswered sends, and the set of deployed streams, which the
pass compares with what it found live.  `Sender` is the deployer with the first two, and every call
carries the time it was made at.

* `Sender.apply`    one stream of a pass, with the runner's replies;
* `Sender.step`     a stream applied, a step of the deployer, or the removal of bare names;
* `applying`, `sending_inv`   what either of them can do;
* `InTurn`          a pass applies each of its streams once and retires none that it found live.
-/

namespace Portal

/-! ## the sender -/

/-- the first wait after a send the runner did not answer, and the longest -/
def backoffStart : Int := 60 * Time.second

def backoffCeiling : Int := 15 * 60 * Time.second

/-- the last send of a stream that the runner did not answer: the render it carried, when the next
is due, the wait that led there and what the transport said -/
structure Backoff where
  hash : UInt64
  due : Int
  wait : Int
  reason : String

/-- a rendered stream, as far as its sending goes: the hash of its configuration, and whether its
input ends by itself -/
structure Config where
  hash : UInt64
  endsByItself : Bool

/-- what the runner replies while a stream is applied: what its list says of the stream (no list;
not held; held and running or not), whether it holds the stream as rendered, and the answer to a
send, or what the transport said -/
structure Replies where
  list : Option (Option Bool)
  holds : Bool
  put : Except String StreamOutcome
  /-- when the wait is looked at, and when the answer is there -/
  asked : Int
  said : Int

structure Sender where
  deployer : Deployer
  /-- the render each live stream was last sent with -/
  rendered : OrdMap Key UInt64
  backoff : OrdMap Key Backoff
  /-- when a call for the stream was last answered -/
  looked : OrdMap Key Int

inductive Applied where
  | unchanged
  | waits (said : StreamOutcome)
  | answered (outcome : StreamOutcome)
  | missed (reason : String)

namespace Sender

def start (batch short : Nat) : Sender :=
  ⟨Deployer.start batch short, OrdMap.empty, OrdMap.empty, OrdMap.empty⟩

section
variable (s : Sender) (key : Key) (c : Config) (r : Replies)

def unchanged : Bool :=
  match s.rendered.get? key with
  -- not sent since this Portal started: adopted, when the runner holds it as rendered
  | none => r.holds
  | some stored =>
    if stored = c.hash then
      match r.list with
      | none => true
      | some none => false
      | some (some true) => true
      | some (some false) => c.endsByItself
    else false

/-- the outcome of a stream whose last send of this render went unanswered, while its wait lasts -/
def waiting (hash : UInt64) (now : Int) : Option StreamOutcome :=
  match s.backoff.get? key with
  | none => none
  | some last =>
    if last.due < now then none
    else if last.hash = hash then
      some (.error ("the pipeline runner did not answer the last change of this stream ("
        ++ last.reason ++ "); the Portal sends it again in "
        ++ toString (max ((last.due - now) / Time.second) 1) ++ " s"))
    else none

/-- the wait after one more unanswered send: twice the last of the same render -/
def nextWait (hash : UInt64) : Int :=
  match s.backoff.get? key with
  | none => backoffStart
  | some last =>
    if last.hash = hash then min (last.wait * 2) backoffCeiling else backoffStart

def backOff (hash : UInt64) (reason : String) (now : Int) : Sender × StreamOutcome :=
  ({ s with
      backoff := s.backoff.insert key
        ⟨hash, now + s.nextWait key hash, s.nextWait key hash, reason⟩ },
    .error ("the pipeline runner did not answer: " ++ reason ++ "; the Portal sends it again in "
      ++ toString (s.nextWait key hash / Time.second) ++ " s"))

def applied : Applied :=
  if s.unchanged key c r then .unchanged
  else
    match s.waiting key c.hash r.asked with
    | some said => .waits said
    | none =>
      match r.put with
      | .ok outcome => .answered outcome
      | .error reason => .missed reason

/-- a stream found live is recorded with its render, and its wait forgotten -/
def record (hash : UInt64) : Sender :=
  { s with rendered := s.rendered.insert key hash, backoff := s.backoff.erase key }

def apply : Sender × StreamOutcome :=
  let p := match s.applied key c r with
    | .unchanged => (s, .live)
    | .waits said => (s, said)
    | .answered outcome => (s, outcome)
    | .missed reason => s.backOff key c.hash reason r.said
  if p.2 = .live then (p.1.record key c.hash, p.2) else p

end

/-- a removed stream is forgotten, answered or not -/
def remove (s : Sender) (key : Key) (now : Int) : Sender :=
  { s with
    rendered := s.rendered.erase key
    backoff := s.backoff.erase key
    looked := s.looked.insert key now }

end Sender

/-! ## steps -/

inductive Send where
  | apply (key : Key) (config : Config) (replies : Replies)
  /-- a step of the deployer other than an answer to a stream -/
  | act (a : Deploy) (now : Int)
  /-- a pass asks for the removal of a project's streams under bare names, from a time on; `kept` is
  the first that the runner does not remove -/
  | unqualified (project : String) (names held : List String) (kept : Option String) (now : Int)

namespace Sender

/-- the stream that a step of the deployer removes -/
def removes : Deploy → Option Key
  | .retired key | .queue (.call (.delete key _)) => some key
  | _ => none

/-- a pass has one sweep a pipeline, and its streams are applied one by one -/
def allows : Deploy → Bool
  | .begin p => decide p.sweeps.Nodup
  | .sent _ _ | .unqualified _ _ _ _ => false
  | _ => true

def forgets (s : Sender) (a : Deploy) (now : Int) : Sender :=
  match removes a with
  | some key => s.remove key now
  | none => s

/-- no call for the stream is answered after this time -/
def AnsweredBy (s : Sender) (key : Key) (now : Int) : Prop := ∀ time ∈ s.looked.get? key, time ≤ now

instance (s : Sender) (key : Key) (now : Int) : Decidable (s.AnsweredBy key now) :=
  inferInstanceAs (Decidable (∀ time ∈ s.looked.get? key, time ≤ now))

section
variable (x : Ext) (runnerFor : String → Option String)

def step (s : Sender) : Send → Option Sender
  | .apply key c r =>
    if s.AnsweredBy key r.asked ∧ r.asked ≤ r.said then
      (s.deployer.step x (.sent key (decide ((s.apply key c r).2 = .live)))).map (fun d =>
        { (s.apply key c r).1 with deployer := d, looked := s.looked.insert key r.said })
    else none
  | .act a now =>
    if allows a ∧ ∀ key ∈ removes a, s.AnsweredBy key now then
      (s.deployer.step x a).map (fun d => { s.forgets a now with deployer := d })
    else none
  | .unqualified project names held kept now =>
    if (runnerFor project).isSome ∧ ∀ key ∈ s.looked.keys,
        Deployer.hits runnerFor project (askedIds names held kept) key = true →
          s.AnsweredBy key now then
      (s.deployer.step x (.unqualified project names held kept)).map
        (fun d => { s with deployer := d })
    else none

end
end Sender

/-! ## inversion -/

/-- what becomes of an applied stream, and what is left of the maps -/
inductive Applying (s : Sender) (key : Key) (c : Config) (r : Replies) :
    Applied → Sender × StreamOutcome → Prop
  | unchanged : s.unchanged key c r = true →
      Applying s key c r .unchanged (s.record key c.hash, .live)
  | waits (said : StreamOutcome) : s.unchanged key c r = false →
      s.waiting key c.hash r.asked = some said → said ≠ .live →
      Applying s key c r (.waits said) (s, said)
  | live : s.unchanged key c r = false → s.waiting key c.hash r.asked = none →
      Applying s key c r (.answered .live) (s.record key c.hash, .live)
  | refused (outcome : StreamOutcome) : s.unchanged key c r = false →
      s.waiting key c.hash r.asked = none → outcome ≠ .live →
      Applying s key c r (.answered outcome) (s, outcome)
  | missed (reason : String) : s.unchanged key c r = false →
      s.waiting key c.hash r.asked = none →
      Applying s key c r (.missed reason) (s.backOff key c.hash reason r.said)

theorem waiting_ne_live {s : Sender} {key : Key} {hash : UInt64} {now : Int} {said : StreamOutcome}
    (h : s.waiting key hash now = some said) : said ≠ .live := by
  unfold Sender.waiting at h
  split at h
  · exact absurd h (by simp)
  · split at h
    · exact absurd h (by simp)
    · split at h
      · obtain rfl := Option.some.inj h
        exact fun he => StreamOutcome.noConfusion he
      · exact absurd h (by simp)

theorem applying (s : Sender) (key : Key) (c : Config) (r : Replies) :
    Applying s key c r (s.applied key c r) (s.apply key c r) := by
  unfold Sender.apply Sender.applied
  by_cases hu : s.unchanged key c r = true
  · simp only [hu, if_true]
    exact .unchanged hu
  · have hu : s.unchanged key c r = false := by simpa using hu
    simp only [hu, Bool.false_eq_true, if_false]
    cases hw : s.waiting key c.hash r.asked with
    | some said =>
      have hne := waiting_ne_live hw
      simp only [hne, if_false]
      exact .waits said hu hw hne
    | none =>
      cases hp : r.put with
      | error reason => exact .missed reason hu hw
      | ok outcome =>
        by_cases hl : outcome = .live
        · subst hl
          exact .live hu hw
        · simp only [hl, if_false]
          exact .refused outcome hu hw hl

inductive Sending (x : Ext) (runnerFor : String → Option String) : Sender → Send → Sender → Prop
  | apply (s : Sender) (d : Deployer) (key : Key) (c : Config) (r : Replies) :
      s.AnsweredBy key r.asked → r.asked ≤ r.said →
      s.deployer.step x (.sent key (decide ((s.apply key c r).2 = .live))) = some d →
      Sending x runnerFor s (.apply key c r)
        { (s.apply key c r).1 with deployer := d, looked := s.looked.insert key r.said }
  | act (s : Sender) (d : Deployer) (a : Deploy) (now : Int) : Sender.allows a = true →
      (∀ key ∈ Sender.removes a, s.AnsweredBy key now) → s.deployer.step x a = some d →
      Sending x runnerFor s (.act a now) { s.forgets a now with deployer := d }
  | unqualified (s : Sender) (projects : Finset String) (project : String)
      (names held : List String) (kept : Option String) (now : Int) :
      (∀ key ∈ s.looked.keys,
        Deployer.hits runnerFor project (askedIds names held kept) key = true →
        s.AnsweredBy key now) →
      Sending x runnerFor s (.unqualified project names held kept now)
        { s with deployer := { s.deployer with unqualified := projects } }

theorem sending_inv {x : Ext} {runnerFor : String → Option String} {s s' : Sender} {a : Send}
    (h : s.step x runnerFor a = some s') : Sending x runnerFor s a s' := by
  unfold Sender.step at h
  cases a with
  | apply key c r =>
    simp only at h
    split at h
    · rename_i hg
      obtain ⟨d, hd, rfl⟩ := Option.map_eq_some_iff.mp h
      exact .apply s d key c r hg.1 hg.2 hd
    · exact absurd h (by simp)
  | act a now =>
    simp only at h
    split at h
    · rename_i hg
      obtain ⟨d, hd, rfl⟩ := Option.map_eq_some_iff.mp h
      exact .act s d a now hg.1 hg.2 hd
    · exact absurd h (by simp)
  | unqualified project names held kept now =>
    simp only at h
    split at h
    · rename_i hg
      obtain ⟨d, hd, rfl⟩ := Option.map_eq_some_iff.mp h
      obtain ⟨deployer, rendered, backoff, looked⟩ := s
      cases deployed_inv hd with
      | unqualified d projects project names held kept hidle hkept =>
        exact .unqualified _ projects project names held kept now hg.2
    · exact absurd h (by simp)

/-! ## the pass's part -/

/-- the streams a pass has still to apply -/
def Converge.toCome : Converge → List Key
  | .sending p left _ => left ++ p.sweeps
  | .sweeping _ left _ => left
  | _ => []

def Converge.toRetire : Converge → Finset Key
  | .retiring _ left _ => left
  | _ => ∅

theorem placed_sends (rs : List Rendered) (sends : List Key) (queued : OrdMap Key Planned) :
    (rs.foldl (fun acc r => place r acc.1 acc.2) (sends, queued)).1
      = sends ++ (rs.filter Rendered.resident).map Rendered.key := by
  induction rs generalizing sends queued with
  | nil => simp
  | cons r rs ih =>
    rw [List.foldl_cons, ih]
    unfold place
    cases hr : r.resident with
    | true => simp [hr]
    | false => cases r.clock <;> simp [hr]

theorem Pass.streams_nodup (p : Pass) (h : p.sweeps.Nodup) : p.streams.Nodup := by
  have hsends : p.sends = (p.rendered.filter Rendered.resident).map Rendered.key :=
    placed_sends p.rendered [] OrdMap.empty
  have hsub : p.sends.Sublist (p.rendered.map Rendered.key) := by
    rw [hsends]
    exact List.filter_sublist.map Rendered.key
  refine List.nodup_append.mpr ⟨p.distinct.sublist hsub, h, fun a ha b hb hab => ?_⟩
  exact p.apart b hb (hab ▸ hsub.subset ha)

/-- a pass applies a stream once: what is still to come is not yet found live, and it retires
nothing that it found live -/
structure InTurn (c : Converge) : Prop where
  once : c.toCome.Nodup
  fresh : ∀ K ∈ c.toCome, K ∉ c.live
  kept : ∀ K ∈ c.toRetire, K ∉ c.live

theorem inTurn_answer {left sweeps : List Key} {lives : Finset Key} {key : Key} (live : Bool)
    (hkey : key ∈ left) (once : (left ++ sweeps).Nodup) (fresh : ∀ K ∈ left ++ sweeps, K ∉ lives) :
    (left.erase key ++ sweeps).Nodup ∧
      ∀ K ∈ left.erase key ++ sweeps, K ∉ (if live then insert key lives else lives) := by
  rw [← List.erase_append_left sweeps hkey]
  refine ⟨once.erase key, fun K hK => ?_⟩
  obtain ⟨hne, hmem⟩ := once.mem_erase_iff.mp hK
  cases live with
  | false => exact fresh K hmem
  | true => exact fun h => (Finset.mem_insert.mp h).elim hne (fresh K hmem)

theorem inTurn_step {x : Ext} {d d' : Deployer} {a : Deploy} (h : d.step x a = some d')
    (ha : ∀ p, a = .begin p → p.sweeps.Nodup) (hs : InTurn d.converge) : InTurn d'.converge := by
  have hnone : ∀ K ∈ (∅ : Finset Key), K ∉ (∅ : Finset Key) := fun K hK => absurd hK (by simp)
  cases deployed_inv h with
  | queue d s' a hp hq => exact hs
  | unqualified => exact hs
  | begin s p deployed un =>
    exact ⟨p.streams_nodup (ha p rfl), fun K _ => Finset.notMem_empty K, hnone⟩
  | sent s p left lives deployed un key live hkey =>
    obtain ⟨hn, hf⟩ := inTurn_answer live hkey hs.once hs.fresh
    exact ⟨hn, hf, fun K hK => absurd hK (Finset.notMem_empty K)⟩
  | swept s p left lives deployed un key live hkey =>
    have honce : (left ++ []).Nodup := by
      rw [List.append_nil]
      exact hs.once
    have hfresh : ∀ K ∈ left ++ [], K ∉ lives := by
      rw [List.append_nil]
      exact hs.fresh
    obtain ⟨hn, hf⟩ := inTurn_answer live hkey honce hfresh
    rw [List.append_nil] at hn hf
    exact ⟨hn, hf, fun K hK => absurd hK (Finset.notMem_empty K)⟩
  | plan s p live deployed un rules now =>
    exact ⟨hs.once, hs.fresh, fun K hK => absurd hK (Finset.notMem_empty K)⟩
  | retire s p live deployed un =>
    refine ⟨List.nodup_nil, fun K hK => absurd hK List.not_mem_nil, fun K hK => ?_⟩
    exact (Finset.mem_sdiff.mp (Finset.mem_filter.mp hK).1).2
  | retired s p left live deployed un key hkey =>
    exact ⟨List.nodup_nil, fun K hK => absurd hK List.not_mem_nil,
      fun K hK => hs.kept K (Finset.mem_of_mem_erase hK)⟩
  | done s p live deployed un =>
    exact ⟨List.nodup_nil, fun K hK => absurd hK List.not_mem_nil, hnone⟩

/-- a stream the passes count on: deployed, found live by the one under way or about to be
retired -/
def Deployer.CountsOn (d : Deployer) (K : Key) : Prop :=
  K ∈ d.deployed ∨ K ∈ d.converge.live ∨ K ∈ d.converge.toRetire

theorem countsOn_step {x : Ext} {d d' : Deployer} {a : Deploy} {K : Key}
    (h : d.step x a = some d') (ha : a ≠ .sent K true) (hs : d'.CountsOn K) : d.CountsOn K := by
  have hfound : ∀ {lives : Finset Key} {key : Key} {live : Bool}, a = .sent key live →
      K ∈ (if live then insert key lives else lives) → K ∈ lives := by
    intro lives key live he hK
    cases live with
    | false => exact hK
    | true =>
      refine (Finset.mem_insert.mp hK).resolve_left (fun hk => ha ?_)
      rw [he, hk]
  cases deployed_inv h with
  | queue d s' a hp hq => exact hs.imp_left (fun hK => forget_subset d.deployed a hK)
  | unqualified => exact hs
  | begin s p deployed un =>
    exact Or.inl (hs.resolve_right (by simp [Converge.live, Converge.toRetire]))
  | sent s p left lives deployed un key live hkey =>
    exact hs.imp_right (Or.imp_left (hfound rfl))
  | swept s p left lives deployed un key live hkey =>
    exact hs.imp_right (Or.imp_left (hfound rfl))
  | plan s p live deployed un rules now => exact hs
  | retire s p live deployed un =>
    rcases hs with hs | hs | hs
    · exact Or.inl hs
    · exact Or.inr (Or.inl hs)
    · exact Or.inl (Finset.mem_sdiff.mp (Finset.mem_filter.mp hs).1).1
  | retired s p left live deployed un key hkey =>
    rcases hs with hs | hs | hs
    · exact Or.inl (Finset.mem_of_mem_erase hs)
    · exact Or.inr (Or.inl hs)
    · exact Or.inr (Or.inr (Finset.mem_of_mem_erase hs))
  | done s p live deployed un =>
    exact Or.inr (Or.inl (hs.resolve_right (by simp [Converge.live, Converge.toRetire])))

/-- the pass under way has `K` still to apply or found it live -/
def Converge.OnTrack (c : Converge) (K : Key) : Prop :=
  c = .idle ∨ K ∈ c.toCome ∨ K ∈ c.live

theorem onTrack_answer {left sweeps : List Key} {lives : Finset Key} {key K : Key} {live : Bool}
    (hl : Deploy.sent key live ≠ .sent K false) (hs : K ∈ left ++ sweeps ∨ K ∈ lives) :
    K ∈ left.erase key ++ sweeps ∨ K ∈ (if live then insert key lives else lives) := by
  by_cases hk : K = key
  · subst hk
    cases live with
    | false => exact absurd rfl hl
    | true => exact Or.inr (Finset.mem_insert_self K lives)
  · rcases hs with hs | hs
    · rcases List.mem_append.mp hs with hs | hs
      · exact Or.inl (List.mem_append_left _ ((List.mem_erase_of_ne hk).mpr hs))
      · exact Or.inl (List.mem_append_right _ hs)
    · exact Or.inr (mem_found hs)

theorem onTrack_step {x : Ext} {d d' : Deployer} {a : Deploy} {K : Key}
    (h : d.step x a = some d') (hb : ∀ p, a = .begin p → K ∈ p.streams)
    (hl : a ≠ .sent K false) (hs : d.converge.OnTrack K) : d'.converge.OnTrack K := by
  cases deployed_inv h with
  | queue d s' a hp hq => exact hs
  | unqualified => exact hs
  | begin s p deployed un => exact Or.inr (Or.inl (hb p rfl))
  | sent s p left lives deployed un key live hkey =>
    exact Or.inr (onTrack_answer hl (hs.resolve_left (by simp)))
  | swept s p left lives deployed un key live hkey =>
    have hs' : K ∈ left ++ [] ∨ K ∈ lives := by
      rw [List.append_nil]
      exact hs.resolve_left (by simp)
    have h := onTrack_answer hl hs'
    rw [List.append_nil] at h
    exact Or.inr h
  | plan s p live deployed un rules now => exact Or.inr (hs.resolve_left (by simp))
  | retire s p live deployed un => exact hs.imp_left (by simp)
  | retired s p left live deployed un key hkey => exact hs.imp_left (by simp)
  | done s p live deployed un => exact Or.inl rfl

theorem onTrack_found {x : Ext} {d d' : Deployer} {K : Key}
    (h : d.step x (.sent K true) = some d') : d'.converge.OnTrack K := by
  cases deployed_inv h with
  | sent => exact Or.inr (Or.inr (Finset.mem_insert_self K _))
  | swept => exact Or.inr (Or.inr (Finset.mem_insert_self K _))

theorem toCome_of_sent {x : Ext} {d d' : Deployer} {K : Key} {live : Bool}
    (h : d.step x (.sent K live) = some d') :
    K ∈ d.converge.toCome ∧ d.converge.toRetire = ∅ := by
  cases deployed_inv h with
  | sent s p left lives deployed un key live hkey => exact ⟨List.mem_append_left _ hkey, rfl⟩
  | swept s p left lives deployed un key live hkey => exact ⟨hkey, rfl⟩

theorem toRetire_of_retired {x : Ext} {d d' : Deployer} {K : Key}
    (h : d.step x (.retired K) = some d') :
    K ∈ d.converge.toRetire ∧ d.converge.toCome = [] ∧ d.converge ≠ .idle := by
  cases deployed_inv h with
  | retired s p left live deployed un key hkey => exact ⟨hkey, rfl, by simp⟩

end Portal
