import Portal.Deployer.Sender

/-!
# A send the runner does not answer (`reconciler/streams.rs`: `apply`, `waiting`, `back_off`,
`converge`, `remove`)

After a send that the runner did not answer, the same render is not sent again before a wait is
over, and the wait doubles with every further miss.  The wait is recorded beside the set of deployed
streams, and a pass retires what was deployed and is not found live: a stream that was live and
whose new render goes unanswered is deleted in the same pass, and its wait with it.

* `BackedOff`       after an unanswered send nothing is sent before its wait is over, and the waits
                    double up to the ceiling;
* `Trans.Calm`      the steps that leave the waits alone;
* `Owed`            where a stream stands after an unanswered send;
* `backed_off`      over every run of calm steps the sends are backed off;
* `undone`          a live stream whose new render goes unanswered is deleted by the same pass.
-/

namespace Portal

/-! ## what a run owes a stream -/

/-- an unanswered send: the stream and its render, when the runner was given up on, and the wait -/
structure Miss where
  key : Key
  hash : UInt64
  said : Int
  wait : Int
deriving DecidableEq

def Miss.over (m : Miss) : Int := m.said + m.wait

namespace Trans

/-- the unanswered send of a step, with the wait recorded for it -/
def misses (t : Trans Sender Send) : Option Miss :=
  match t.act with
  | .apply key c r =>
    match t.before.applied key c r with
    | .missed _ => (t.after.backoff.get? key).map (fun b => ⟨key, c.hash, r.said, b.wait⟩)
    | _ => none
  | _ => none

def finds (t : Trans Sender Send) : Option Key :=
  match t.act with
  | .apply key c r => if (t.before.apply key c r).2 = .live then some key else none
  | _ => none

/-- when a step of a pass sends `K` or asks for its removal -/
def requests (runnerFor : String → Option String) (K : Key) (t : Trans Sender Send) : Option Int :=
  match t.act with
  | .apply key c r =>
    match t.before.applied key c r with
    | .answered _ | .missed _ => if key = K then some r.asked else none
    | _ => none
  | .act (.retired key) now => if key = K then some now else none
  | .act _ _ => none
  | .unqualified project names held kept now =>
    if Deployer.hits runnerFor project (askedIds names held kept) K then some now else none

/-- the pipeline of `K` stays eligible and renders to `h` -/
def Keeps (K : Key) (h : UInt64) (t : Trans Sender Send) : Prop :=
  match t.act with
  | .apply key c _ => key = K → c.hash = h
  | .act (.begin p) _ => K ∈ p.streams
  | _ => True

instance (K : Key) (h : UInt64) (t : Trans Sender Send) : Decidable (t.Keeps K h) := by
  unfold Keeps
  split <;> infer_instance

end Trans

/-- the last unanswered send of `K` -/
def lastMiss (tr : List (Trans Sender Send)) (K : Key) : Option Miss :=
  tr.foldl (fun last t => if (t.misses.map Miss.key) = some K then t.misses else last) none

/-- the last unanswered send of `K` since it was found live -/
def series (tr : List (Trans Sender Send)) (K : Key) : Option Miss :=
  tr.foldl (fun last t =>
    if t.finds = some K then none
    else if (t.misses.map Miss.key) = some K then t.misses
    else last) none

/-- **An unanswered send is backed off**: while the pipeline stays eligible and renders the same, no
pass sends the stream or asks for its removal before the wait is over; and the waits of consecutive
unanswered sends of one render start at the first and double up to the ceiling. -/
structure BackedOff (runnerFor : String → Option String) (tr : List (Trans Sender Send)) :
    Prop where
  quiet : ∀ (l mid l' : List (Trans Sender Send)) (t t' : Trans Sender Send) (m : Miss)
    (time : Int), tr = l ++ t :: (mid ++ t' :: l') → t.misses = some m →
    (∀ u ∈ mid ++ [t'], u.Keeps m.key m.hash) → t'.requests runnerFor m.key = some time →
    m.over ≤ time
  first : ∀ (l l' : List (Trans Sender Send)) (t : Trans Sender Send) (m : Miss),
    tr = l ++ t :: l' → t.misses = some m → (∀ last ∈ series l m.key, last.hash ≠ m.hash) →
    m.wait = backoffStart
  doubled : ∀ (l l' : List (Trans Sender Send)) (t : Trans Sender Send) (m last : Miss),
    tr = l ++ t :: l' → t.misses = some m → series l m.key = some last → last.hash = m.hash →
    m.wait = min (last.wait * 2) backoffCeiling

/-! ## the condition -/

/-- the runner answers that it lost a stream this Portal has sent it with this render -/
def Sender.lost (s : Sender) (key : Key) (c : Config) (r : Replies) : Bool :=
  s.rendered.get? key == some c.hash && !s.unchanged key c r

def Applied.isMissed : Applied → Bool
  | .missed _ => true
  | _ => false

/-- a stream that may be removed behind the passes' back: no wait is recorded for it, and if it was
found live since its last unanswered send, that one's wait is over -/
def Spared (l : List (Trans Sender Send)) (s : Sender) (K : Key) (now : Int) : Prop :=
  s.backoff.get? K = none ∧ ∀ m ∈ lastMiss l K, s.rendered.get? K = some m.hash → m.over ≤ now

/-- a step after `l` that leaves the waits alone: what goes unanswered was not live on the last
pass; the runner loses no stream within the wait of its last unanswered send; and neither a tick nor
the removal of bare names removes a stream that waits -/
def Trans.Calm (runnerFor : String → Option String) (l : List (Trans Sender Send))
    (t : Trans Sender Send) : Prop :=
  match t.act with
  | .apply key c r =>
    ((t.before.applied key c r).isMissed = true → key ∉ t.before.deployer.deployed) ∧
    (t.before.lost key c r = true → ∀ m ∈ lastMiss l key, m.hash = c.hash → m.over ≤ r.asked)
  | .act (.queue (.call (.delete key _))) now => Spared l t.before key now
  | .act _ _ => True
  | .unqualified project names held kept now =>
    ∀ K ∈ t.before.backoff.keys ++ t.before.rendered.keys,
      Deployer.hits runnerFor project (askedIds names held kept) K = true → Spared l t.before K now

instance (l : List (Trans Sender Send)) (s : Sender) (K : Key) (now : Int) :
    Decidable (Spared l s K now) := by
  unfold Spared
  cases s.backoff.get? K <;> infer_instance

instance (runnerFor : String → Option String) (l : List (Trans Sender Send))
    (t : Trans Sender Send) : Decidable (t.Calm runnerFor l) := by
  unfold Trans.Calm
  split <;> infer_instance

/-! ## one applied stream -/

/-- what an applied stream leaves, with the unanswered send and the stream found live of the step -/
inductive Effect (x : Ext) (s : Sender) (key : Key) (c : Config) (r : Replies) :
    Sender → Option Miss → Option Key → Prop
  | live (d : Deployer) : s.deployer.step x (.sent key true) = some d →
      Effect x s key c r
        { s.record key c.hash with deployer := d, looked := s.looked.insert key r.said }
        none (some key)
  | quiet (d : Deployer) : s.unchanged key c r = false →
      s.deployer.step x (.sent key false) = some d →
      Effect x s key c r { s with deployer := d, looked := s.looked.insert key r.said } none none
  | missed (d : Deployer) (reason : String) : s.unchanged key c r = false →
      s.waiting key c.hash r.asked = none → (s.applied key c r).isMissed = true →
      s.deployer.step x (.sent key false) = some d →
      Effect x s key c r
        { s with
          deployer := d
          backoff := s.backoff.insert key ⟨c.hash, r.said + s.nextWait key c.hash,
            s.nextWait key c.hash, reason⟩
          looked := s.looked.insert key r.said }
        (some ⟨key, c.hash, r.said, s.nextWait key c.hash⟩) none

theorem effect {x : Ext} {s : Sender} {d : Deployer} {key : Key} {c : Config} {r : Replies}
    (h : s.deployer.step x (.sent key (decide ((s.apply key c r).2 = .live))) = some d)
    {s' : Sender}
    (hs' : { (s.apply key c r).1 with
      deployer := d, looked := s.looked.insert key r.said } = s') :
    Effect x s key c r s' (Trans.misses ⟨s, .apply key c r, s'⟩)
      (Trans.finds ⟨s, .apply key c r, s'⟩) := by
  have hA := applying s key c r
  unfold Trans.misses Trans.finds
  dsimp only
  generalize ho : s.applied key c r = o at hA ⊢
  generalize s.apply key c r = p at hA h hs' ⊢
  subst hs'
  cases hA with
  | unchanged hu => exact .live d h
  | waits said hu hw hne =>
    simp only [hne, decide_false, if_false] at h ⊢
    exact .quiet d hu h
  | live hu hw => exact .live d h
  | refused outcome hu hw hne =>
    simp only [hne, decide_false, if_false] at h ⊢
    exact .quiet d hu h
  | missed reason hu hw =>
    have hmiss : (s.applied key c r).isMissed = true := by
      rw [ho]
      rfl
    have hrec : (Option.map (fun b : Backoff => (⟨key, c.hash, r.said, b.wait⟩ : Miss))
        ((s.backOff key c.hash reason r.said).1.backoff.get? key))
        = some ⟨key, c.hash, r.said, s.nextWait key c.hash⟩ := by
      show Option.map _ ((s.backoff.insert key _).get? key) = _
      rw [OrdMap.get?_insert, if_pos rfl]
      rfl
    rw [hrec]
    exact .missed d reason hu hw hmiss h

theorem due_of_not_waiting {s : Sender} {key : Key} {now : Int} {b : Backoff}
    (hb : s.backoff.get? key = some b) (hw : s.waiting key b.hash now = none) : b.due < now := by
  unfold Sender.waiting at hw
  rw [hb] at hw
  dsimp only at hw
  split at hw
  · assumption
  · rw [if_pos rfl] at hw
    exact absurd hw (by simp)

/-- a pass that requests an applied stream finds that it neither runs as rendered nor waits -/
theorem requests_apply {runnerFor : String → Option String} {s s' : Sender} {key K : Key}
    {c : Config} {r : Replies} {time : Int}
    (h : Trans.requests runnerFor K ⟨s, .apply key c r, s'⟩ = some time) :
    key = K ∧ time = r.asked ∧ s.unchanged key c r = false ∧
      s.waiting key c.hash r.asked = none := by
  have hA := applying s key c r
  unfold Trans.requests at h
  dsimp only at h
  generalize s.applied key c r = o at hA h
  generalize s.apply key c r = p at hA
  have hsent : ∀ {z : Option Int}, z = (if key = K then some r.asked else none) → z = some time →
      key = K ∧ time = r.asked := by
    intro z hz hsome
    rw [hz] at hsome
    split at hsome
    · exact ⟨by assumption, (Option.some.inj hsome).symm⟩
    · exact absurd hsome (by simp)
  cases hA with
  | unchanged => exact absurd h (by simp)
  | waits => exact absurd h (by simp)
  | live hu hw => exact ⟨(hsent rfl h).1, (hsent rfl h).2, hu, hw⟩
  | refused outcome hu hw hne => exact ⟨(hsent rfl h).1, (hsent rfl h).2, hu, hw⟩
  | missed reason hu hw => exact ⟨(hsent rfl h).1, (hsent rfl h).2, hu, hw⟩

/-! ## where a stream stands after an unanswered send -/

theorem lastMiss_snoc (tr : List (Trans Sender Send)) (t : Trans Sender Send) (K : Key) :
    lastMiss (tr ++ [t]) K
      = if (t.misses.map Miss.key) = some K then t.misses else lastMiss tr K := by
  unfold lastMiss
  rw [List.foldl_append]
  rfl

theorem series_snoc (tr : List (Trans Sender Send)) (t : Trans Sender Send) (K : Key) :
    series (tr ++ [t]) K = if t.finds = some K then none
      else if (t.misses.map Miss.key) = some K then t.misses else series tr K := by
  unfold series
  rw [List.foldl_append]
  rfl

/-- a call for the stream was answered since the wait is over -/
def AnsweredSince (s : Sender) (m : Miss) : Prop :=
  ∃ time, s.looked.get? m.key = some time ∧ m.over ≤ time

/-- after the unanswered send `m`: a call was answered since its wait is over; or it is the last one
still, and waits, or was found live and the pass under way does not miss it -/
def Owed (tr : List (Trans Sender Send)) (s : Sender) (m : Miss) : Prop :=
  AnsweredSince s m ∨
    (lastMiss tr m.key = some m ∧
      ((∃ b, s.backoff.get? m.key = some b ∧ b.hash = m.hash ∧ b.due = m.over) ∨
        (s.rendered.get? m.key = some m.hash ∧ s.deployer.converge.OnTrack m.key)))

/-- the waits are those of the run: no pass counts on a stream that waits, and its last unanswered
send since it was found live is the one recorded -/
structure Waits (tr : List (Trans Sender Send)) (s : Sender) : Prop where
  turn : InTurn s.deployer.converge
  apart : ∀ K, s.backoff.get? K ≠ none → ¬ s.deployer.CountsOn K
  series : ∀ K, (series tr K).map (fun m => (m.hash, m.wait))
    = (s.backoff.get? K).map (fun b => (b.hash, b.wait))

section
variable {x : Ext} {runnerFor : String → Option String} {tr : List (Trans Sender Send)}
  {s s' : Sender} {m : Miss}

theorem AnsweredSince.le {time : Int} (h : AnsweredSince s m) (hb : s.AnsweredBy m.key time) :
    m.over ≤ time := by
  obtain ⟨at', hat, hle⟩ := h
  exact le_trans hle (hb at' hat)

theorem owed_lost {c : Config} {r : Replies} (hlast : lastMiss tr m.key = some m)
    (hC : Trans.Calm runnerFor tr ⟨s, .apply m.key c r, s'⟩) (hh : c.hash = m.hash)
    (hu : s.unchanged m.key c r = false) (hr : s.rendered.get? m.key = some m.hash) :
    m.over ≤ r.asked := by
  refine hC.2 ?_ m hlast hh.symm
  show (s.rendered.get? m.key == some c.hash && !s.unchanged m.key c r) = true
  rw [hr, hh, hu]
  simp

theorem owed_apply {c : Config} {r : Replies} (ho : Owed tr s m)
    (hby : s.AnsweredBy m.key r.asked) (hC : Trans.Calm runnerFor tr ⟨s, .apply m.key c r, s'⟩)
    (hh : c.hash = m.hash) (hu : s.unchanged m.key c r = false)
    (hw : s.waiting m.key c.hash r.asked = none) : m.over ≤ r.asked := by
  rcases ho with h | ⟨hlast, ⟨b, hb, hbh, hbd⟩ | ⟨hr, _⟩⟩
  · exact h.le hby
  · rw [hh, ← hbh] at hw
    have := due_of_not_waiting hb hw
    omega
  · exact owed_lost hlast hC hh hu hr

theorem Spared.over {now : Int} (hS : Spared tr s m.key now) (ho : Owed tr s m)
    (hby : s.AnsweredBy m.key now) : m.over ≤ now := by
  rcases ho with h | ⟨hlast, ⟨b, hb, _⟩ | ⟨hr, _⟩⟩
  · exact h.le hby
  · rw [hS.1] at hb
    exact absurd hb (by simp)
  · exact hS.2 m hlast hr

theorem owed_removed {a : Deploy} {now : Int} {d : Deployer} (hI : Waits tr s) (ho : Owed tr s m)
    (hC : Trans.Calm runnerFor tr ⟨s, .act a now, s'⟩) (hrem : Sender.removes a = some m.key)
    (hby : s.AnsweredBy m.key now) (hd : s.deployer.step x a = some d) : m.over ≤ now := by
  unfold Sender.removes at hrem
  split at hrem
  · obtain rfl := Option.some.inj hrem
    obtain ⟨hleft, hcome, hidle⟩ := toRetire_of_retired hd
    rcases ho with h | ⟨hlast, ⟨b, hb, _⟩ | ⟨_, htrack⟩⟩
    · exact h.le hby
    · exact absurd (Or.inr (Or.inr hleft)) (hI.apart m.key (by rw [hb]; simp))
    · rcases htrack with h | h | h
      · exact absurd h hidle
      · rw [hcome] at h
        exact absurd h List.not_mem_nil
      · exact absurd h (hI.turn.kept m.key hleft)
  · obtain rfl := Option.some.inj hrem
    exact Spared.over hC ho hby
  · exact absurd hrem (by simp)

/-- **No pass requests a stream before the wait it owes is over.** -/
theorem owed_request {a : Send} {time : Int} (h : s.step x runnerFor a = some s')
    (hC : Trans.Calm runnerFor tr ⟨s, a, s'⟩) (hI : Waits tr s) (ho : Owed tr s m)
    (hk : Trans.Keeps m.key m.hash ⟨s, a, s'⟩)
    (hreq : Trans.requests runnerFor m.key ⟨s, a, s'⟩ = some time) : m.over ≤ time := by
  cases sending_inv h with
  | apply d key c r hby hle hd =>
    obtain ⟨rfl, rfl, hu, hw⟩ := requests_apply hreq
    exact owed_apply ho hby hC (hk rfl) hu hw
  | act d a now hal hby hd =>
    unfold Trans.requests at hreq
    dsimp only at hreq
    split at hreq
    · rename_i hact
      exact absurd hact (by simp)
    · rename_i key now' hact
      obtain ⟨rfl, rfl⟩ := Send.act.inj hact
      split at hreq
      · rename_i hkey
        obtain rfl := Option.some.inj hreq
        subst hkey
        exact owed_removed hI ho hC rfl (hby _ rfl) hd
      · exact absurd hreq (by simp)
    · exact absurd hreq (by simp)
    · rename_i hact
      exact absurd hact (by simp)
  | unqualified projects project names held kept now hby =>
    unfold Trans.requests at hreq
    dsimp only at hreq
    split at hreq
    · rename_i hhit
      obtain rfl := Option.some.inj hreq
      have hC : ∀ K ∈ s.backoff.keys ++ s.rendered.keys,
          Deployer.hits runnerFor project (askedIds names held kept) K = true →
          Spared tr s K now := hC
      rcases ho with hsince | ⟨hlast, hrest⟩
      · obtain ⟨at', hat, hle⟩ := hsince
        have hmem : m.key ∈ s.looked.keys := (s.looked.mem_keys m.key).mpr ⟨at', hat⟩
        exact le_trans hle (hby m.key hmem hhit at' hat)
      · rcases hrest with ⟨b, hb, _⟩ | ⟨hr, _⟩
        · have hS := hC m.key
            (List.mem_append_left _ ((s.backoff.mem_keys m.key).mpr ⟨b, hb⟩)) hhit
          rw [hS.1] at hb
          exact absurd hb (by simp)
        · have hS := hC m.key
            (List.mem_append_right _ ((s.rendered.mem_keys m.key).mpr ⟨_, hr⟩)) hhit
          exact hS.2 m hlast hr
    · exact absurd hreq (by simp)

theorem forgets_get? (s : Sender) {a : Deploy} (now : Int) {K : Key}
    (h : Sender.removes a ≠ some K) :
    (s.forgets a now).looked.get? K = s.looked.get? K ∧
    (s.forgets a now).backoff.get? K = s.backoff.get? K ∧
    (s.forgets a now).rendered.get? K = s.rendered.get? K := by
  unfold Sender.forgets
  split
  · rename_i key hkey
    have hne : K ≠ key := fun he => h (by rw [hkey, he])
    refine ⟨?_, ?_, ?_⟩
    · show (s.looked.insert key now).get? K = _
      rw [OrdMap.get?_insert, if_neg hne]
    · show (s.backoff.erase key).get? K = _
      rw [OrdMap.get?_erase, if_neg hne]
    · show (s.rendered.erase key).get? K = _
      rw [OrdMap.get?_erase, if_neg hne]
  · exact ⟨rfl, rfl, rfl⟩

theorem owed_frame {t : Trans Sender Send} (ho : Owed tr s m)
    (hmiss : (t.misses.map Miss.key) ≠ some m.key)
    (hlook : s'.looked.get? m.key = s.looked.get? m.key)
    (hback : s'.backoff.get? m.key = s.backoff.get? m.key)
    (hrend : s'.rendered.get? m.key = s.rendered.get? m.key)
    (htrack : s.deployer.converge.OnTrack m.key → s'.deployer.converge.OnTrack m.key) :
    Owed (tr ++ [t]) s' m := by
  rcases ho with ⟨time, htime, hle⟩ | ⟨hlast, hrest⟩
  · exact Or.inl ⟨time, by rw [hlook]; exact htime, hle⟩
  · refine Or.inr ⟨by rw [lastMiss_snoc, if_neg hmiss]; exact hlast, ?_⟩
    rw [hback, hrend]
    exact hrest.imp_right (And.imp_right htrack)

/-- the applied stream itself: found live, waiting still, or past its wait -/
theorem owed_applied {c : Config} {r : Replies} (hE : Effect x s m.key c r s'
      (Trans.misses ⟨s, .apply m.key c r, s'⟩) (Trans.finds ⟨s, .apply m.key c r, s'⟩))
    (hby : s.AnsweredBy m.key r.asked) (hle : r.asked ≤ r.said)
    (hC : Trans.Calm runnerFor tr ⟨s, .apply m.key c r, s'⟩) (ho : Owed tr s m)
    (hh : c.hash = m.hash) : Owed (tr ++ [⟨s, .apply m.key c r, s'⟩]) s' m := by
  have hsnoc := lastMiss_snoc tr ⟨s, .apply m.key c r, s'⟩ m.key
  have hpast : m.over ≤ r.asked → s'.looked = s.looked.insert m.key r.said →
      Owed (tr ++ [⟨s, .apply m.key c r, s'⟩]) s' m := by
    intro hover hlook
    refine Or.inl ⟨r.said, ?_, le_trans hover hle⟩
    rw [hlook, OrdMap.get?_insert, if_pos rfl]
  generalize Trans.misses ⟨s, .apply m.key c r, s'⟩ = missed at hE hsnoc
  generalize Trans.finds ⟨s, .apply m.key c r, s'⟩ = found at hE
  cases hE with
  | live d hd =>
    rcases ho with hsince | ⟨hlast, _⟩
    · exact hpast (hsince.le hby) rfl
    · refine Or.inr ⟨by rw [hsnoc]; exact hlast, Or.inr ⟨?_, onTrack_found hd⟩⟩
      show (s.rendered.insert m.key c.hash).get? m.key = _
      rw [OrdMap.get?_insert, if_pos rfl, hh]
  | quiet d hu hd =>
    rcases ho with hsince | ⟨hlast, hb | ⟨hr, _⟩⟩
    · exact hpast (hsince.le hby) rfl
    · exact Or.inr ⟨by rw [hsnoc]; exact hlast, Or.inl hb⟩
    · exact hpast (owed_lost hlast hC hh hu hr) rfl
  | missed d reason hu hw hmiss hd => exact hpast (owed_apply ho hby hC hh hu hw) rfl

theorem owed_other {key : Key} {c : Config} {r : Replies} (hkey : m.key ≠ key)
    (hE : Effect x s key c r s' (Trans.misses ⟨s, .apply key c r, s'⟩)
      (Trans.finds ⟨s, .apply key c r, s'⟩)) (ho : Owed tr s m) :
    Owed (tr ++ [⟨s, .apply key c r, s'⟩]) s' m := by
  have hlook : ∀ time, (s.looked.insert key time).get? m.key = s.looked.get? m.key := by
    intro time
    rw [OrdMap.get?_insert, if_neg hkey]
  have htrack : ∀ {live d}, s.deployer.step x (.sent key live) = some d →
      s.deployer.converge.OnTrack m.key → d.converge.OnTrack m.key := by
    intro live d hd
    refine onTrack_step hd (fun p hp => Deploy.noConfusion hp) (fun he => hkey ?_)
    exact (Deploy.sent.inj he).1.symm
  have hframe := @owed_frame tr s s' m ⟨s, .apply key c r, s'⟩ ho
  generalize Trans.misses ⟨s, .apply key c r, s'⟩ = missed at hE hframe
  generalize Trans.finds ⟨s, .apply key c r, s'⟩ = found at hE
  cases hE with
  | live d hd =>
    refine hframe (by simp) (hlook _) ?_ ?_ (htrack hd)
    · show (s.backoff.erase key).get? m.key = _
      rw [OrdMap.get?_erase, if_neg hkey]
    · show (s.rendered.insert key c.hash).get? m.key = _
      rw [OrdMap.get?_insert, if_neg hkey]
  | quiet d hu hd => exact hframe (by simp) (hlook _) rfl rfl (htrack hd)
  | missed d reason hu hw hmiss hd =>
    refine hframe (fun he => hkey (Option.some.inj he).symm) (hlook _) ?_ rfl (htrack hd)
    show (s.backoff.insert key _).get? m.key = _
    rw [OrdMap.get?_insert, if_neg hkey]

/-- **A step leaves a stream past the wait it owes, or owing it still.** -/
theorem owed_step {a : Send} (h : s.step x runnerFor a = some s')
    (hC : Trans.Calm runnerFor tr ⟨s, a, s'⟩) (hI : Waits tr s) (ho : Owed tr s m)
    (hk : Trans.Keeps m.key m.hash ⟨s, a, s'⟩) : Owed (tr ++ [⟨s, a, s'⟩]) s' m := by
  cases sending_inv h with
  | apply d key c r hby hle hd =>
    have hE := effect hd rfl
    by_cases hkey : m.key = key
    · subst hkey
      exact owed_applied hE hby hle hC ho (hk rfl)
    · exact owed_other hkey hE ho
  | act d a now hal hby hd =>
    have htrack : s.deployer.converge.OnTrack m.key → d.converge.OnTrack m.key := by
      refine onTrack_step hd (fun p hp => ?_) (fun he => ?_)
      · subst hp
        exact hk
      · subst he
        exact absurd hal (by simp [Sender.allows])
    by_cases hrem : Sender.removes a = some m.key
    · refine Or.inl ⟨now, ?_, owed_removed hI ho hC hrem (hby _ hrem) hd⟩
      show (s.forgets a now).looked.get? m.key = some now
      unfold Sender.forgets
      rw [hrem]
      show (s.looked.insert m.key now).get? m.key = some now
      rw [OrdMap.get?_insert, if_pos rfl]
    · obtain ⟨h1, h2, h3⟩ := forgets_get? s now hrem
      exact owed_frame ho (by simp [Trans.misses]) h1 h2 h3 htrack
  | unqualified projects project names held kept now hby =>
    exact owed_frame ho (by simp [Trans.misses]) rfl rfl rfl id

/-! ## the waits of a run -/

theorem removed_none {a : Deploy} {now : Int} {d : Deployer} {key : Key} (hI : Waits tr s)
    (hC : Trans.Calm runnerFor tr ⟨s, .act a now, s'⟩) (hd : s.deployer.step x a = some d)
    (hrem : Sender.removes a = some key) : s.backoff.get? key = none := by
  unfold Sender.removes at hrem
  split at hrem
  · obtain rfl := Option.some.inj hrem
    by_contra hb
    exact hI.apart _ hb (Or.inr (Or.inr (toRetire_of_retired hd).1))
  · obtain rfl := Option.some.inj hrem
    exact hC.1
  · exact absurd hrem (by simp)

theorem forgets_backoff {a : Deploy} {now : Int} {d : Deployer} (hI : Waits tr s)
    (hC : Trans.Calm runnerFor tr ⟨s, .act a now, s'⟩) (hd : s.deployer.step x a = some d)
    (K : Key) : (s.forgets a now).backoff.get? K = s.backoff.get? K := by
  by_cases hrem : Sender.removes a = some K
  · rw [removed_none hI hC hd hrem]
    unfold Sender.forgets
    rw [hrem]
    show (s.backoff.erase K).get? K = none
    rw [OrdMap.get?_erase, if_pos rfl]
  · exact (forgets_get? s now hrem).2.1

theorem apart_missed {key : Key} {c : Config} {r : Replies} {d : Deployer} (hI : Waits tr s)
    (hC : Trans.Calm runnerFor tr ⟨s, .apply key c r, s'⟩)
    (hmiss : (s.applied key c r).isMissed = true)
    (hd : s.deployer.step x (.sent key false) = some d) : ¬ d.CountsOn key := by
  intro hcount
  obtain ⟨hcome, hleft⟩ := toCome_of_sent hd
  rcases countsOn_step hd (by simp) hcount with h | h | h
  · exact hC.1 hmiss h
  · exact hI.turn.fresh key hcome h
  · rw [hleft] at h
    exact absurd h (Finset.notMem_empty key)

theorem waits_applied {key : Key} {c : Config} {r : Replies} (hI : Waits tr s)
    (hC : Trans.Calm runnerFor tr ⟨s, .apply key c r, s'⟩)
    (hE : Effect x s key c r s' (Trans.misses ⟨s, .apply key c r, s'⟩)
      (Trans.finds ⟨s, .apply key c r, s'⟩)) :
    Waits (tr ++ [⟨s, .apply key c r, s'⟩]) s' := by
  have hsnoc := series_snoc tr ⟨s, .apply key c r, s'⟩
  have hturn : ∀ {live d}, s.deployer.step x (.sent key live) = some d → InTurn d.converge :=
    fun hd => inTurn_step hd (fun p hp => Deploy.noConfusion hp) hI.turn
  have hcount : ∀ {live d K}, s.deployer.step x (.sent key live) = some d →
      (K = key → live = false) → d.CountsOn K → s.deployer.CountsOn K := by
    intro live d K hd hne
    refine countsOn_step hd (fun he => ?_)
    obtain ⟨hk, hl⟩ := Deploy.sent.inj he
    exact absurd hl (by simp [hne hk.symm])
  generalize Trans.misses ⟨s, .apply key c r, s'⟩ = missed at hE hsnoc
  generalize Trans.finds ⟨s, .apply key c r, s'⟩ = found at hE hsnoc
  cases hE with
  | live d hd =>
    have hback : ∀ K, ((s.backoff.erase key).get? K) = if K = key then none else s.backoff.get? K :=
      fun K => OrdMap.get?_erase _ key K
    refine ⟨hturn hd, fun K hK => ?_, fun K => ?_⟩
    · have hK : (s.backoff.erase key).get? K ≠ none := hK
      rw [hback] at hK
      by_cases hkey : K = key
      · rw [if_pos hkey] at hK
        exact absurd rfl hK
      · rw [if_neg hkey] at hK
        exact fun h => hI.apart K hK (hcount hd (fun he => absurd he hkey) h)
    · show _ = Option.map _ ((s.backoff.erase key).get? K)
      rw [hsnoc, hback]
      by_cases hkey : K = key
      · simp [hkey]
      · rw [if_neg hkey, if_neg (fun he => hkey (Option.some.inj he).symm)]
        exact hI.series K
  | quiet d hu hd =>
    refine ⟨hturn hd, fun K hK h => hI.apart K hK (hcount hd (fun _ => rfl) h), fun K => ?_⟩
    rw [hsnoc]
    exact hI.series K
  | missed d reason hu hw hmiss hd =>
    refine ⟨hturn hd, fun K hK => ?_, fun K => ?_⟩
    · by_cases hkey : K = key
      · subst hkey
        exact apart_missed hI hC hmiss hd
      · have hK : (s.backoff.insert key _).get? K ≠ none := hK
        rw [OrdMap.get?_insert, if_neg hkey] at hK
        exact fun h => hI.apart K hK (hcount hd (fun _ => rfl) h)
    · show _ = Option.map _ ((s.backoff.insert key _).get? K)
      rw [hsnoc, OrdMap.get?_insert, if_neg (by simp), Option.map_some]
      by_cases hkey : K = key
      · simp [hkey]
      · rw [if_neg hkey, if_neg (fun he => hkey (Option.some.inj he).symm)]
        exact hI.series K

theorem waits_step {a : Send} (h : s.step x runnerFor a = some s')
    (hC : Trans.Calm runnerFor tr ⟨s, a, s'⟩) (hI : Waits tr s) :
    Waits (tr ++ [⟨s, a, s'⟩]) s' := by
  cases sending_inv h with
  | apply d key c r hby hle hd => exact waits_applied hI hC (effect hd rfl)
  | act d a now hal hby hd =>
    have hback := forgets_backoff hI hC hd
    refine ⟨inTurn_step hd (fun p hp => ?_) hI.turn, fun K hK hcount => ?_, fun K => ?_⟩
    · subst hp
      simpa [Sender.allows] using hal
    · have hK : (s.forgets a now).backoff.get? K ≠ none := hK
      rw [hback K] at hK
      refine hI.apart K hK (countsOn_step hd (fun he => ?_) hcount)
      subst he
      exact absurd hal (by simp [Sender.allows])
    · show _ = Option.map _ ((s.forgets a now).backoff.get? K)
      rw [series_snoc, hback K]
      exact hI.series K
  | unqualified projects project names held kept now hby =>
    refine ⟨hI.turn, hI.apart, fun K => ?_⟩
    rw [series_snoc]
    exact hI.series K

theorem owed_missed {a : Send} (h : s.step x runnerFor a = some s')
    (hm : Trans.misses ⟨s, a, s'⟩ = some m) :
    Owed (tr ++ [⟨s, a, s'⟩]) s' m ∧ m.wait = s.nextWait m.key m.hash := by
  have hsnoc := lastMiss_snoc tr ⟨s, a, s'⟩ m.key
  rw [hm, if_pos (by simp)] at hsnoc
  cases sending_inv h with
  | apply d key c r hby hle hd =>
    have hE := effect hd rfl
    rw [hm] at hE
    generalize hs' : ({ (s.apply key c r).1 with
      deployer := d, looked := s.looked.insert key r.said } : Sender) = s' at hE hsnoc ⊢
    generalize Trans.finds _ = found at hE
    cases hE with
    | missed d reason hu hw hmiss hd =>
      refine ⟨Or.inr ⟨hsnoc, Or.inl ⟨⟨c.hash, r.said + s.nextWait key c.hash,
        s.nextWait key c.hash, reason⟩, ?_, rfl, rfl⟩⟩, rfl⟩
      exact (OrdMap.get?_insert s.backoff key key _).trans (if_pos rfl)
  | act d a now hal hby hd => exact absurd hm (by simp [Trans.misses])
  | unqualified projects project names held kept now hby =>
    exact absurd hm (by simp [Trans.misses])

end

/-- every unanswered send of the run is owed its wait, where the pipeline stayed as it was -/
def OwedSince (tr : List (Trans Sender Send)) (s : Sender) : Prop :=
  ∀ (l mid : List (Trans Sender Send)) (t : Trans Sender Send) (m : Miss),
    tr = l ++ t :: mid → t.misses = some m → (∀ u ∈ mid, u.Keeps m.key m.hash) → Owed tr s m

theorem owedSince_step {x : Ext} {runnerFor : String → Option String}
    {tr : List (Trans Sender Send)} {s s' : Sender} {a : Send}
    (h : s.step x runnerFor a = some s') (hC : Trans.Calm runnerFor tr ⟨s, a, s'⟩)
    (hI : Waits tr s) (hO : OwedSince tr s) : OwedSince (tr ++ [⟨s, a, s'⟩]) s' := by
  intro l mid t m htr hm hk
  -- the send is this step's, or it was owed its wait before it
  rcases List.eq_nil_or_concat mid with rfl | ⟨mid, u, rfl⟩
  · obtain ⟨rfl, ht⟩ := List.append_inj' htr rfl
    obtain rfl := (List.cons.inj ht).1
    exact (owed_missed h hm).1
  · rw [List.concat_eq_append, ← List.cons_append, ← List.append_assoc] at htr
    obtain ⟨rfl, hu⟩ := List.append_inj' htr rfl
    obtain rfl := (List.cons.inj hu).1
    have hbefore := hO l mid t m rfl hm (fun v hv => hk v (by simp [hv]))
    exact owed_step h hC hI hbefore (hk _ (by simp))

theorem waits_start (batch short : Nat) : Waits [] (Sender.start batch short) :=
  ⟨⟨List.nodup_nil, fun _ hK => absurd hK List.not_mem_nil,
    fun K hK => absurd hK (Finset.notMem_empty K)⟩, fun _ hK => absurd rfl hK, fun _ => rfl⟩

section
variable {x : Ext} {runnerFor : String → Option String} {batch short : Nat}
  {tr : List (Trans Sender Send)} {s : Sender}

theorem waits_run (hr : Run (Sender.step x runnerFor) (Sender.start batch short) tr s)
    (hC : ∀ (l : List (Trans Sender Send)) t l', tr = l ++ t :: l' → t.Calm runnerFor l) :
    Waits tr s ∧ OwedSince tr s := by
  refine Run.traced (I := fun tr s => Waits tr s ∧ OwedSince tr s)
    (C := fun l t => t.Calm runnerFor l) ⟨waits_start batch short, ?_⟩ ?_ hr hC
  · intro l mid t m htr
    exact absurd htr (by simp)
  · intro tr s a s' _ hstep hcalm hI
    exact ⟨waits_step hstep hcalm hI.1, owedSince_step hstep hcalm hI.1 hI.2⟩

theorem wait_of_series (hr : Run (Sender.step x runnerFor) (Sender.start batch short) tr s)
    (hC : ∀ (l : List (Trans Sender Send)) t l', tr = l ++ t :: l' → t.Calm runnerFor l)
    {l l' : List (Trans Sender Send)} {t : Trans Sender Send} {m : Miss}
    (htr : tr = l ++ t :: l') (hm : t.misses = some m) :
    m.wait = match series l m.key with
      | none => backoffStart
      | some last => if last.hash = m.hash then min (last.wait * 2) backoffCeiling
        else backoffStart := by
  subst htr
  obtain ⟨r1, hstep, _⟩ := hr.at
  have hI := (waits_run r1 (fun a u b e => hC a u (b ++ t :: l') (by rw [e]; simp))).1
  have hwait := (@owed_missed x runnerFor l _ _ m _ hstep hm).2
  have hseries := hI.series m.key
  rw [hwait]
  unfold Sender.nextWait
  cases hs : series l m.key with
  | none =>
    rw [hs] at hseries
    rw [Option.map_eq_none_iff.mp hseries.symm]
  | some last =>
    rw [hs] at hseries
    obtain ⟨b, hb, he⟩ := Option.map_eq_some_iff.mp hseries.symm
    obtain ⟨h1, h2⟩ := Prod.mk.inj he
    rw [hb]
    dsimp only
    rw [h1, h2]

/-- **An unanswered send is backed off and not undone**, over every run of passes and ticks and
every pattern of answers, as long as the steps leave the waits alone. -/
theorem backed_off (hr : Run (Sender.step x runnerFor) (Sender.start batch short) tr s)
    (hC : ∀ (l : List (Trans Sender Send)) t l', tr = l ++ t :: l' → t.Calm runnerFor l) :
    BackedOff runnerFor tr where
  quiet := by
    intro l mid l' t t' m time htr hm hk hreq
    have htr' : tr = (l ++ t :: mid) ++ t' :: l' := by
      rw [htr, List.append_assoc, List.cons_append]
    subst htr'
    obtain ⟨r1, hstep, _⟩ := hr.at
    obtain ⟨hI, hO⟩ := waits_run r1 (fun a u b e => hC a u (b ++ t' :: l') (by rw [e]; simp))
    have ho := hO l mid t m rfl hm (fun u hu => hk u (List.mem_append_left _ hu))
    exact owed_request hstep (hC _ t' l' rfl) hI ho (hk t' (by simp)) hreq
  first := by
    intro l l' t m htr hm hfirst
    rw [wait_of_series hr hC htr hm]
    cases hs : series l m.key with
    | none => rfl
    | some last => exact if_neg (hfirst last hs)
  doubled := by
    intro l l' t m last htr hm hs hh
    rw [wait_of_series hr hC htr hm, hs]
    exact if_pos hh

end

/-! ## a live stream -/

/-- `p/b` is applied with a render, and the runner's answer to the send -/
def appliedB (hash : UInt64) (put : Except String StreamOutcome) (asked said : Int) : Send :=
  .apply keyB ⟨hash, false⟩ ⟨none, false, put, asked * Time.second, said * Time.second⟩

/-- a pass over `p/b`, up to its retiring -/
def passUntil (a : Send) (now : Int) : List Send :=
  [.act (.begin passB) (now * Time.second), a,
    .act (.plan OrdMap.empty (now * Time.second)) (now * Time.second),
    .act .retire (now * Time.second)]

def doneAt (now : Int) : List Send := [.act .done (now * Time.second)]

/-- three passes over a stream that was never live: the second waits, the third sends again -/
def unansweredTwice : List Send := List.flatten [
  passUntil (appliedB 1 (.error "timed out") 0 30) 30, doneAt 30,
  passUntil (appliedB 1 (.error "timed out") 60 60) 60, doneAt 60,
  passUntil (appliedB 1 (.error "timed out") 91 121) 121, doneAt 121]

/-- a live stream is rendered anew, and the send of the new render goes unanswered -/
def liveThenUnanswered : List Send := List.flatten [
  passUntil (appliedB 1 (.ok .live) 0 1) 1, doneAt 1,
  passUntil (appliedB 2 (.error "timed out") 60 90) 90,
  [.act (.retired keyB) (91 * Time.second)], doneAt 91]

def oneRunner : String → Option String := fun _ => some "http://bento"

theorem backed_off_of_unanswered :
    ∃ (tr : List (Trans Sender Send)) (s : Sender),
      Run (Sender.step sampleExt oneRunner) (Sender.start 1 1) tr s ∧
      (tr.filterMap Trans.misses).map Miss.wait = [60 * Time.second, 120 * Time.second] ∧
      BackedOff oneRunner tr := by
  have hr : Run (Sender.step sampleExt oneRunner) (Sender.start 1 1)
      (trace (Sender.step sampleExt oneRunner) (Sender.start 1 1) unansweredTwice)
      (final (Sender.step sampleExt oneRunner) (Sender.start 1 1) unansweredTwice) :=
    run_trace (by decide +kernel)
  have hC : ∀ i : Fin (trace (Sender.step sampleExt oneRunner) (Sender.start 1 1)
      unansweredTwice).length, Trans.Calm oneRunner
        ((trace (Sender.step sampleExt oneRunner) (Sender.start 1 1) unansweredTwice).take i)
        ((trace (Sender.step sampleExt oneRunner) (Sender.start 1 1) unansweredTwice).get i) := by
    decide +kernel
  exact ⟨_, _, hr, by decide +kernel, backed_off hr (fun l t l' e => forall_cut hC e)⟩

/-- **A live stream whose new render goes unanswered is deleted by the same pass.** -/
theorem undone :
    ¬ ∀ (x : Ext) (runnerFor : String → Option String) (batch short : Nat)
      (tr : List (Trans Sender Send)) (s : Sender),
      Run (Sender.step x runnerFor) (Sender.start batch short) tr s → BackedOff runnerFor tr := by
  intro h
  have hr : Run (Sender.step sampleExt oneRunner) (Sender.start 1 1)
      (trace (Sender.step sampleExt oneRunner) (Sender.start 1 1) liveThenUnanswered)
      (final (Sender.step sampleExt oneRunner) (Sender.start 1 1) liveThenUnanswered) :=
    run_trace (by decide +kernel)
  rw [← cut (trace (Sender.step sampleExt oneRunner) (Sender.start 1 1) liveThenUnanswered) 6
    (by decide +kernel), ← cut (List.drop (6 + 1)
      (trace (Sender.step sampleExt oneRunner) (Sender.start 1 1) liveThenUnanswered)) 2
    (by decide +kernel)] at hr
  -- the send goes unanswered 90 s in, to wait for 60 s, and the removal is asked for at 91 s
  have hquiet := (h sampleExt oneRunner 1 1 _ _ hr).quiet _ _ _ _ _
    ⟨keyB, 2, 90 * Time.second, 60 * Time.second⟩ (91 * Time.second) rfl
    (by decide +kernel) (by decide +kernel) (by decide +kernel)
  exact absurd hquiet (by decide)

end Portal
