import Portal.RunQueue.Tick
import Mathlib.Data.Finset.Filter
import Mathlib.Data.Finset.SDiff

/-!
# Two owners of a stream (`reconciler/streams.rs`: `StreamDeployer::converge`, `retire_unqualified`)

A pass of the reconciler first removes what an older Portal left on the runner under bare names,
once a project.  It sends the resident streams to the runner, plans the queue with the other
pipelines, sends the expiry sweeps and retires what was live on the last pass and is not now.  Ticks
of the queue go on all the while, on the same runner and under the same ids, and share nothing with
the pass but the queue's lock.  `Deployer.step` is the two of them, one step an answered call or a
section under the lock.

* `place`, `Pass`         a pass over the rendered pipelines, each resident or queued;
* `bareIds`, `askedIds`   the ids under bare names, and which of them a pass asks to remove;
* `residents`             what passes recorded live and is resident still;
* `handover`              a pass retires nothing that the queue holds, and removes no run of it under
                          a bare name, while no pipeline has the name of a project whose pipeline
                          `expiry` runs; a tick deletes no resident stream, while no pass sends one
                          that the queue still holds;
* `tick_deletes_resident` a queued pipeline that turns resident while it runs is deleted;
* `bare_name_strikes`     the sweep of a pipeline `q`, under its bare name, is `q`'s pipeline `expiry`.
-/

namespace Portal

/-! ## a pass -/

/-- a pipeline as a pass renders it: the stream of one run, and what its clock reads as -/
structure Rendered where
  key : Key
  stream : Value
  resident : Bool
  clock : Except String Clock
  replace : Bool

/-- where a rendered pipeline runs: a resident one is sent, any other joins the queue -/
def place (r : Rendered) (sends : List Key) (queued : OrdMap Key Planned) :
    List Key × OrdMap Key Planned :=
  if r.resident then (sends ++ [r.key], queued) else
    match r.clock with
    | .ok clock => (sends, queued.insert r.key ⟨r.stream, clock, r.replace⟩)
    | .error _ => (sends, queued)

/-- what a pass works on: the mirror's pipelines, each once, and the sweeps of those that expire;
the name of a sweep has a dot and a pipeline's has none -/
structure Pass where
  rendered : List Rendered
  sweeps : List Key
  distinct : (rendered.map Rendered.key).Nodup
  apart : ∀ k ∈ sweeps, k ∉ rendered.map Rendered.key

namespace Pass

def placed (p : Pass) : List Key × OrdMap Key Planned :=
  p.rendered.foldl (fun acc r => place r acc.1 acc.2) ([], OrdMap.empty)

def sends (p : Pass) : List Key := p.placed.1

def queued (p : Pass) : OrdMap Key Planned := p.placed.2

/-- the streams it sends to the runner itself -/
def streams (p : Pass) : List Key := p.sends ++ p.sweeps

end Pass

/-! ## ids on the runner -/

def streamId (key : Key) : String := key.project ++ "." ++ key.name

def sweepName (name : String) : String := name ++ ".expiry"

/-- the ids that a Portal before the ids were qualified gave to a project's streams, of those that
the runner holds -/
def bareIds (names held : List String) : List String :=
  (names.flatMap (fun name => [name, sweepName name])).filter (fun id => id ∈ held)

/-- the bare ids whose removal is asked for: all of them, or up to the first that the runner
keeps -/
def askedIds (names held : List String) : Option String → List String
  | none => bareIds names held
  | some kept => (bareIds names held).takeWhile (fun id => id ≠ kept) ++ [kept]

/-! ## the deployer -/

/-- where the pass stands: what it has still to send or to retire, and what it found live -/
inductive Converge where
  | idle
  | sending (pass : Pass) (left : List Key) (live : Finset Key)
  | sweeping (pass : Pass) (left : List Key) (live : Finset Key)
  | retiring (pass : Pass) (left live : Finset Key)

structure Deployer where
  sys : Sys
  converge : Converge
  /-- what was live on the last pass -/
  deployed : Finset Key
  /-- the projects whose streams under bare names are removed -/
  unqualified : Finset String

inductive Deploy where
  /-- a step of the queue or of a tick -/
  | queue (a : Action)
  /-- before a pass sends anything, it asks for the removal of a project's streams under bare names;
  `held` is the runner's list, `kept` the first that the runner does not remove -/
  | unqualified (project : String) (names held : List String) (kept : Option String)
  | begin (pass : Pass)
  /-- the runner's answer to a stream that was sent -/
  | sent (key : Key) (live : Bool)
  | plan (rules : OrdMap String UInt64) (now : Int)
  | retire
  | retired (key : Key)
  | done

/-- a stream that was sent is answered for, and found live or not -/
def Converge.answer (key : Key) (live : Bool) : Converge → Option Converge
  | .sending p left lives =>
    if key ∈ left then
      some (.sending p (left.erase key) (if live then insert key lives else lives))
    else none
  | .sweeping p left lives =>
    if key ∈ left then
      some (.sweeping p (left.erase key) (if live then insert key lives else lives))
    else none
  | _ => none

namespace Deployer

def start (batch short : Nat) : Deployer := ⟨Sys.start batch short, .idle, ∅, ∅⟩

/-- the removal of `ids` on a project's runner is the removal of this stream -/
def hits (runnerFor : String → Option String) (project : String) (ids : List String) (key : Key) :
    Bool :=
  runnerFor key.project == runnerFor project && decide (streamId key ∈ ids)

/-- a removed stream is forgotten, whoever removed it -/
def forget (deployed : Finset Key) : Action → Finset Key
  | .call (.delete key _) => deployed.erase key
  | _ => deployed

def isPlan : Action → Bool
  | .plan _ _ => true
  | _ => false

/-- what was live and is not now, but for what is queued: a queued pipeline's stream is its run's -/
def toRetire (d : Deployer) (p : Pass) (live : Finset Key) : Finset Key :=
  (d.deployed \ live).filter (fun key => (p.queued.get? key).isNone)

def step (x : Ext) (d : Deployer) : Deploy → Option Deployer
  | .queue a =>
    if isPlan a then none else
      (Portal.step x d.sys a).map (fun s => { d with sys := s, deployed := forget d.deployed a })
  | .unqualified project names held kept =>
    match d.converge with
    | .idle =>
      if project ∈ d.unqualified then none
      else if ∀ id ∈ kept, id ∈ bareIds names held then
        -- one that is kept is asked for again on the next pass
        some (if kept.isNone then { d with unqualified := insert project d.unqualified } else d)
      else none
    | _ => none
  | .begin p =>
    match d.converge with
    | .idle => some { d with converge := .sending p p.sends ∅ }
    | _ => none
  | .sent key live => (Converge.answer key live d.converge).map (fun c => { d with converge := c })
  | .plan rules now =>
    match d.converge with
    | .sending p [] live =>
      some { d with
        sys := { d.sys with queue := (d.sys.queue.setRules rules).plan x p.queued now }
        converge := .sweeping p p.sweeps live }
    | _ => none
  | .retire =>
    match d.converge with
    | .sweeping p [] live => some { d with converge := .retiring p (d.toRetire p live) live }
    | _ => none
  | .retired key =>
    match d.converge with
    | .retiring p left live =>
      if key ∈ left then
        some { d with
          converge := .retiring p (left.erase key) live
          deployed := d.deployed.erase key }
      else none
    | _ => none
  | .done =>
    match d.converge with
    | .retiring _ left live =>
      if left = ∅ then some { d with converge := .idle, deployed := live } else none
    | _ => none

end Deployer

/-! ## inversion -/

inductive Deployed (x : Ext) : Deployer → Deploy → Deployer → Prop
  | queue (d s' a) : Deployer.isPlan a = false → step x d.sys a = some s' →
      Deployed x d (.queue a) { d with sys := s', deployed := Deployer.forget d.deployed a }
  | unqualified (d projects project names held kept) : d.converge = .idle →
      (∀ id ∈ kept, id ∈ bareIds names held) →
      Deployed x d (.unqualified project names held kept) { d with unqualified := projects }
  | begin (s p deployed un) : Deployed x ⟨s, .idle, deployed, un⟩ (.begin p)
      ⟨s, .sending p p.sends ∅, deployed, un⟩
  | sent (s p left lives deployed un key live) : key ∈ left →
      Deployed x ⟨s, .sending p left lives, deployed, un⟩ (.sent key live)
        ⟨s, .sending p (left.erase key) (if live then insert key lives else lives), deployed, un⟩
  | swept (s p left lives deployed un key live) : key ∈ left →
      Deployed x ⟨s, .sweeping p left lives, deployed, un⟩ (.sent key live)
        ⟨s, .sweeping p (left.erase key) (if live then insert key lives else lives), deployed, un⟩
  | plan (s : Sys) (p live deployed un rules now) :
      Deployed x ⟨s, .sending p [] live, deployed, un⟩ (.plan rules now)
        ⟨{ s with queue := (s.queue.setRules rules).plan x p.queued now },
          .sweeping p p.sweeps live, deployed, un⟩
  | retire (s p live deployed un) : Deployed x ⟨s, .sweeping p [] live, deployed, un⟩ .retire
      ⟨s, .retiring p (Deployer.toRetire ⟨s, .sweeping p [] live, deployed, un⟩ p live) live,
        deployed, un⟩
  | retired (s p left live deployed un key) : key ∈ left →
      Deployed x ⟨s, .retiring p left live, deployed, un⟩ (.retired key)
        ⟨s, .retiring p (left.erase key) live, deployed.erase key, un⟩
  | done (s p live deployed un) : Deployed x ⟨s, .retiring p ∅ live, deployed, un⟩ .done
      ⟨s, .idle, live, un⟩

theorem deployed_inv {x : Ext} {d d' : Deployer} {a : Deploy} (h : d.step x a = some d') :
    Deployed x d a d' := by
  obtain ⟨s, converge, deployed, un⟩ := d
  unfold Deployer.step at h
  cases a with
  | queue a =>
    simp only at h
    split at h
    · exact absurd h (by simp)
    · rename_i hp
      obtain ⟨s', hs, rfl⟩ := Option.map_eq_some_iff.mp h
      exact .queue _ s' a (by simpa using hp) hs
  | unqualified project names held kept =>
    simp only at h
    split at h
    · split at h
      · exact absurd h (by simp)
      · split at h
        · rename_i hkept
          obtain rfl := Option.some.inj h
          cases hk : kept.isNone with
          | true => exact .unqualified _ (insert project un) project names held kept rfl hkept
          | false => exact .unqualified _ un project names held kept rfl hkept
        · exact absurd h (by simp)
    · exact absurd h (by simp)
  | begin p =>
    simp only at h
    split at h
    · cases h
      exact .begin ..
    · exact absurd h (by simp)
  | sent key live =>
    obtain ⟨c, hc, rfl⟩ := Option.map_eq_some_iff.mp h
    unfold Converge.answer at hc
    simp only at hc
    split at hc
    · split at hc
      · rename_i hk
        cases hc
        exact .sent _ _ _ _ _ _ _ _ hk
      · exact absurd hc (by simp)
    · split at hc
      · rename_i hk
        cases hc
        exact .swept _ _ _ _ _ _ _ _ hk
      · exact absurd hc (by simp)
    · exact absurd hc (by simp)
  | plan rules now =>
    simp only at h
    split at h
    · cases h
      exact .plan ..
    · exact absurd h (by simp)
  | retire =>
    simp only at h
    split at h
    · cases h
      exact .retire ..
    · exact absurd h (by simp)
  | retired key =>
    simp only at h
    split at h
    · split at h
      · rename_i hk
        cases h
        exact .retired _ _ _ _ _ _ _ hk
      · exact absurd h (by simp)
    · exact absurd h (by simp)
  | done =>
    simp only at h
    split at h
    · split at h
      · rename_i hk
        cases h
        subst hk
        exact .done ..
      · exact absurd h (by simp)
    · exact absurd h (by simp)

/-! ## a pass keeps its streams apart -/

theorem placed_fold (rs : List Rendered) (sends : List Key) (queued : OrdMap Key Planned)
    (k : Key) :
    (k ∈ (rs.foldl (fun acc r => place r acc.1 acc.2) (sends, queued)).1 →
      k ∈ sends ∨ ∃ r ∈ rs, r.key = k ∧ r.resident = true) ∧
    ((rs.foldl (fun acc r => place r acc.1 acc.2) (sends, queued)).2.get? k ≠ none →
      queued.get? k ≠ none ∨ ∃ r ∈ rs, r.key = k ∧ r.resident = false) := by
  induction rs generalizing sends queued with
  | nil => exact ⟨Or.inl, Or.inl⟩
  | cons r rs ih =>
    have hlift : ∀ {P : Rendered → Prop}, (∃ r' ∈ rs, P r') → ∃ r' ∈ r :: rs, P r' :=
      fun ⟨r', hr', hp⟩ => ⟨r', List.mem_cons_of_mem _ hr', hp⟩
    rw [List.foldl_cons]
    unfold place
    split
    · rename_i hres
      obtain ⟨h1, h2⟩ := ih (sends ++ [r.key]) queued
      refine ⟨fun h => ?_, fun h => ?_⟩
      · rcases h1 h with hs | hr
        · rcases List.mem_append.mp hs with hs | hs
          · exact Or.inl hs
          · exact Or.inr ⟨r, List.mem_cons_self .., (List.mem_singleton.mp hs).symm, hres⟩
        · exact Or.inr (hlift hr)
      · exact (h2 h).imp_right hlift
    · rename_i hres
      split
      · rename_i clock hclock
        obtain ⟨h1, h2⟩ := ih sends (queued.insert r.key ⟨r.stream, clock, r.replace⟩)
        refine ⟨fun h => ?_, fun h => ?_⟩
        · exact (h1 h).imp_right hlift
        · rcases h2 h with hq | hr
          · rw [OrdMap.get?_insert] at hq
            by_cases hk : k = r.key
            · exact Or.inr ⟨r, List.mem_cons_self .., hk.symm, by simpa using hres⟩
            · rw [if_neg hk] at hq
              exact Or.inl hq
          · exact Or.inr (hlift hr)
      · obtain ⟨h1, h2⟩ := ih sends queued
        exact ⟨fun h => (h1 h).imp_right hlift, fun h => (h2 h).imp_right hlift⟩

/-- **What a pass sends itself it does not queue.** -/
theorem Pass.queued_none (p : Pass) {k : Key} (hk : k ∈ p.streams) : p.queued.get? k = none := by
  obtain ⟨h1, h2⟩ := placed_fold p.rendered [] OrdMap.empty k
  by_contra hq
  obtain ⟨r, hr, hkey, hres⟩ := (h2 hq).resolve_left (by simp)
  rcases List.mem_append.mp hk with hs | hs
  · obtain ⟨r', hr', hkey', hres'⟩ := (h1 hs).resolve_left (by simp)
    have heq : r = r' := List.inj_on_of_nodup_map p.distinct hr hr' (hkey.trans hkey'.symm)
    rw [heq, hres'] at hres
    exact absurd hres (by simp)
  · exact p.apart k hs (List.mem_map.mpr ⟨r, hr, hkey⟩)

/-! ## what the queue holds of a stream -/

/-- the streams a tick has still to delete or to start -/
def Tick.pending : Tick → List Key
  | .idle => []
  | .looking _ sweeps _ _ _ => sweeps
  | .ending _ ended starts | .holding _ _ ended starts => ended ++ starts.map Start.key
  | .telling _ _ starts => starts.map Start.key
  | .refusing _ key _ starts | .clearing _ key starts => key :: starts.map Start.key

/-- the queue holds `K`: it is planned, its run is gone and not yet deleted, or a tick is about to
delete or to start it -/
def QueueHolds (K : Key) (s : Sys) : Prop :=
  s.queue.entries.get? K ≠ none ∨ K ∈ s.queue.gone ∨ K ∈ s.tick.pending

instance (K : Key) (s : Sys) : Decidable (QueueHolds K s) :=
  inferInstanceAs (Decidable (_ ∨ _ ∨ _))

theorem Answered.pending_subset {tk tk' : Tick} {c : Call} (h : Answered tk c tk') :
    tk'.pending ⊆ tk.pending := by
  cases h with
  | swept => exact List.subset_cons_self ..
  | looked => exact List.Subset.refl _
  | deleted => exact List.subset_cons_self ..
  | kept => exact List.subset_cons_self ..
  | told => exact List.Subset.refl _
  | started => exact List.subset_cons_self ..
  | refused => exact List.Subset.refl _
  | cleared => exact List.subset_cons_self ..

theorem Answered.delete_mem {tk tk' : Tick} {K : Key} {ok : Bool}
    (h : Answered tk (.delete K ok) tk') : K ∈ tk.pending := by
  cases h <;> exact List.mem_cons_self ..

theorem delete_pending {x : Ext} {s s' : Sys} {K : Key} {ok : Bool}
    (h : step x s (.call (.delete K ok)) = some s') : K ∈ s.tick.pending := by
  cases step_inv h with
  | call q tk tk' c hc => exact hc.delete_mem

theorem mem_starts_entry {x : Ext} {q : RunQueue} {states : List (Key × RunState)} {now : Int}
    (hn : (states.map Prod.fst).Nodup) {K : Key}
    (h : K ∈ (q.settle x states now).2.2.map Start.key) : q.entries.get? K ≠ none := by
  intro he
  obtain ⟨st, hst, hk⟩ := List.mem_map.mp h
  have hmem : st ∈ (q.settle x states now).2.2.filter (fun s => s.key = K) :=
    List.mem_filter.mpr ⟨hst, by simpa using hk⟩
  rw [(RunQueue.settle_none q x states now hn he).2] at hmem
  exact absurd hmem (by simp)

theorem entry_step {x : Ext} {s s' : Sys} {a : Action} (h : step x s a = some s')
    (hp : Deployer.isPlan a = false) {K : Key} (he : s'.queue.entries.get? K ≠ none) :
    s.queue.entries.get? K ≠ none := by
  have hm := entry_inv h K
  generalize s.queue.entries.get? K = o at hm ⊢
  generalize s'.queue.entries.get? K = o' at hm he
  cases hm with
  | keep => exact he
  | plan => exact absurd hp (by simp [Deployer.isPlan])
  | queueNow | sweep | settle | hold | fail => exact Option.some_ne_none _

/-- **The queue takes hold of a stream by a plan only.** -/
theorem queueHolds_step {x : Ext} {s s' : Sys} {a : Action} (h : step x s a = some s')
    (hp : Deployer.isPlan a = false) {K : Key} (hs : QueueHolds K s') : QueueHolds K s := by
  rcases hs with he | hrest
  · exact Or.inl (entry_step h hp he)
  cases step_inv h with
  | tell q tk t => cases t <;> exact Or.inr hrest
  | plan => exact absurd hp (by simp [Deployer.isPlan])
  | runNow q tk key now =>
    rw [RunQueue.runNow_frame] at hrest
    exact Or.inr hrest
  | tick q now =>
    rcases hrest with hg | ht
    · exact absurd hg (by simp [RunQueue.sweeps])
    · rcases (RunQueue.mem_sweeps q K).mp ht with hg | ⟨e, he, _⟩
      · exact Or.inr (Or.inl hg)
      · exact Or.inl (by rw [he]; simp)
  | call q tk tk' c hc => exact Or.inr (hrest.imp_right (fun ht => hc.pending_subset ht))
  | settle q now states asked =>
    rw [List.append_nil] at asked
    rw [RunQueue.settle_frame] at hrest
    rcases hrest with hg | ht
    · exact Or.inr (Or.inl hg)
    · rcases List.mem_append.mp ht with ht | ht
      · obtain ⟨e, he, _⟩ := (RunQueue.mem_settle_ended q x states now K asked).mp ht
        exact Or.inl (by rw [he]; simp)
      · exact Or.inl (mem_starts_entry asked ht)
  | stuck => exact Or.inr hrest
  | takeEnds => exact Or.inr hrest
  | failedToStart => exact Or.inr hrest
  | done => exact Or.inr (hrest.imp_right (fun ht => absurd ht (by simp [Tick.pending])))

theorem queueHolds_plan {x : Ext} {q : RunQueue} {tk : Tick} {wanted : OrdMap Key Planned}
    {now : Int} {K : Key} (hw : wanted.get? K = none)
    (hs : QueueHolds K ⟨q.plan x wanted now, tk⟩) : QueueHolds K ⟨q, tk⟩ := by
  rcases hs with he | hg | ht
  · rw [RunQueue.plan_get?, hw] at he
    exact absurd rfl he
  · rcases (RunQueue.plan_gone q x wanted now K).mp hg with hg | ⟨_, e, he, _⟩
    · exact Or.inr (Or.inl hg)
    · exact Or.inl (by rw [show q.entries.get? K = some e from he]; simp)
  · exact Or.inr (Or.inr ht)

theorem queueHolds_rules {q : RunQueue} {tk : Tick} {rules : OrdMap String UInt64} {K : Key}
    (hs : QueueHolds K ⟨q.setRules rules, tk⟩) : QueueHolds K ⟨q, tk⟩ := hs

/-! ## runs -/

namespace Trans

def deletes (t : Trans Deployer Deploy) : Option Key :=
  match t.act with
  | .queue (.call (.delete key _)) => some key
  | _ => none

def retires (t : Trans Deployer Deploy) : Option Key :=
  match t.act with
  | .retired key => some key
  | _ => none

/-- a pass removes the stream under a bare name: its id is one of those asked for, on its runner -/
def strikes (runnerFor : String → Option String) (K : Key) (t : Trans Deployer Deploy) : Bool :=
  match t.act with
  | .unqualified project names held kept =>
    Deployer.hits runnerFor project (askedIds names held kept) K
  | _ => false

/-- the stream a pass records live -/
def records (t : Trans Deployer Deploy) : Option Key :=
  match t.act with
  | .sent key true => some key
  | _ => none

/-- no stream is recorded live while the queue still holds it -/
def HandsOver (t : Trans Deployer Deploy) : Prop :=
  ∀ K ∈ t.records, ¬ QueueHolds K t.before.sys

instance (t : Trans Deployer Deploy) : Decidable t.HandsOver :=
  inferInstanceAs (Decidable (∀ K ∈ t.records, ¬ QueueHolds K t.before.sys))

/-- where a pass asks for the removal of bare names, the names have no dot, and none that the runner
holds a sweep of is the name of a project on the same runner whose queued pipeline `expiry` runs -/
def KeepsOff (runnerFor : String → Option String) (t : Trans Deployer Deploy) : Prop :=
  match t.act with
  | .unqualified project names held _ => ∀ name ∈ names, '.' ∉ name.toList ∧
      (sweepName name ∈ held → runnerFor name = runnerFor project →
        ∀ e ∈ t.before.sys.queue.entries.get? (Key.of name "expiry"), e.running = none)
  | _ => True

instance (runnerFor : String → Option String) (t : Trans Deployer Deploy) :
    Decidable (t.KeepsOff runnerFor) := by
  unfold KeepsOff
  split <;> infer_instance

def resident (t : Trans Deployer Deploy) (live : Finset Key) : Finset Key :=
  match t.act with
  | .begin p => live.filter (fun key => key ∈ p.streams)
  | .sent key true => insert key live
  | .retired key => live.erase key
  | _ => live

end Trans

/-- the streams that a pass recorded live and that every pass since has sent as its own -/
def residents (tr : List (Trans Deployer Deploy)) : Finset Key :=
  tr.foldl (fun live t => t.resident live) ∅

theorem residents_snoc (tr : List (Trans Deployer Deploy)) (t : Trans Deployer Deploy) :
    residents (tr ++ [t]) = t.resident (residents tr) := by
  unfold residents
  rw [List.foldl_append]
  rfl

def Converge.pass : Converge → Option Pass
  | .idle => none
  | .sending p _ _ | .sweeping p _ _ | .retiring p _ _ => some p

def Converge.unsent : Converge → List Key
  | .sending _ left _ | .sweeping _ left _ => left
  | _ => []

/-- the queue holds no resident stream, and the pass under way sends them all -/
structure Apart (tr : List (Trans Deployer Deploy)) (d : Deployer) : Prop where
  free : ∀ K ∈ residents tr, ¬ QueueHolds K d.sys
  own : ∀ K ∈ residents tr, ∀ p ∈ d.converge.pass, K ∈ p.streams
  unsent : ∀ p ∈ d.converge.pass, ∀ K ∈ d.converge.unsent, K ∈ p.streams

/-- a stream answered for is, where it is recorded live, the pass's own and not the queue's -/
theorem Apart.answer {tr : List (Trans Deployer Deploy)} {d d' : Deployer} {key : Key} {live : Bool}
    {p : Pass} (hs : Apart tr d) (hpass : d.converge.pass = some p) (hkey : key ∈ d.converge.unsent)
    (hC : Trans.HandsOver ⟨d, .sent key live, d'⟩) (hsys : d'.sys = d.sys)
    (hpass' : d'.converge.pass = some p)
    (hunsent : d'.converge.unsent ⊆ d.converge.unsent) :
    Apart (tr ++ [⟨d, .sent key live, d'⟩]) d' := by
  have hall : ∀ K ∈ residents (tr ++ [⟨d, .sent key live, d'⟩]),
      ¬ QueueHolds K d.sys ∧ K ∈ p.streams := by
    intro K hK
    have hold : ∀ K ∈ residents tr, ¬ QueueHolds K d.sys ∧ K ∈ p.streams :=
      fun K hK => ⟨hs.free K hK, hs.own K hK p hpass⟩
    rw [residents_snoc] at hK
    cases live with
    | false => exact hold K hK
    | true =>
      rcases Finset.mem_insert.mp hK with rfl | hK
      · exact ⟨hC K rfl, hs.unsent p hpass K hkey⟩
      · exact hold K hK
  refine ⟨fun K hK => hsys ▸ (hall K hK).1, fun K hK p' hp' => ?_, fun p' hp' K hK => ?_⟩
  · obtain rfl := Option.some.inj (hpass'.symm.trans hp')
    exact (hall K hK).2
  · obtain rfl := Option.some.inj (hpass'.symm.trans hp')
    exact hs.unsent p hpass K (hunsent hK)

theorem apart_step {x : Ext} {tr : List (Trans Deployer Deploy)} {d d' : Deployer} {a : Deploy}
    (h : d.step x a = some d') (hC : Trans.HandsOver ⟨d, a, d'⟩) (hs : Apart tr d) :
    Apart (tr ++ [⟨d, a, d'⟩]) d' := by
  have hsnoc := residents_snoc tr ⟨d, a, d'⟩
  cases deployed_inv h with
  | queue d s' a hp hq =>
    have hres : residents (tr ++ [⟨d, .queue a, { d with sys := s', deployed := _ }⟩]) =
        residents tr := hsnoc
    refine ⟨?_, ?_, hs.unsent⟩
    · rw [hres]
      exact fun K hK hold => hs.free K hK (queueHolds_step hq hp hold)
    · rw [hres]
      exact hs.own
  | unqualified d projects project names held kept hidle hkept =>
    refine ⟨?_, ?_, hs.unsent⟩
    · rw [hsnoc]
      exact hs.free
    · rw [hsnoc]
      exact hs.own
  | begin s p deployed un =>
    refine ⟨?_, ?_, ?_⟩
    · intro K hK
      rw [hsnoc] at hK
      exact hs.free K (Finset.mem_filter.mp hK).1
    · intro K hK p' hp'
      rw [hsnoc] at hK
      obtain rfl := Option.some.inj hp'
      exact (Finset.mem_filter.mp hK).2
    · intro p' hp' K hK
      obtain rfl := Option.some.inj hp'
      exact List.mem_append_left _ hK
  | sent s p left lives deployed un key live hkey =>
    exact hs.answer rfl hkey hC rfl rfl (List.erase_subset ..)
  | swept s p left lives deployed un key live hkey =>
    exact hs.answer rfl hkey hC rfl rfl (List.erase_subset ..)
  | plan s p live deployed un rules now =>
    refine ⟨?_, ?_, ?_⟩
    · intro K hK hold
      rw [hsnoc] at hK
      have hheld : QueueHolds K ⟨s.queue.setRules rules, s.tick⟩ :=
        queueHolds_plan (p.queued_none (hs.own K hK p rfl)) hold
      exact hs.free K hK (queueHolds_rules hheld)
    · intro K hK p' hp'
      rw [hsnoc] at hK
      exact hs.own K hK p' hp'
    · intro p' hp' K hK
      obtain rfl := Option.some.inj hp'
      exact List.mem_append_right _ hK
  | retire s p live deployed un =>
    refine ⟨?_, ?_, fun p' _ K hK => absurd hK (by simp [Converge.unsent])⟩
    · rw [hsnoc]
      exact hs.free
    · rw [hsnoc]
      exact hs.own
  | retired s p left live deployed un key hkey =>
    refine ⟨?_, ?_, fun p' _ K hK => absurd hK (by simp [Converge.unsent])⟩
    · intro K hK
      rw [hsnoc] at hK
      exact hs.free K (Finset.mem_of_mem_erase hK)
    · intro K hK
      rw [hsnoc] at hK
      exact hs.own K (Finset.mem_of_mem_erase hK)
  | done s p live deployed un =>
    refine ⟨?_, fun K _ p' hp' => absurd hp' (by simp [Converge.pass]),
      fun p' hp' => absurd hp' (by simp [Converge.pass])⟩
    rw [hsnoc]
    exact hs.free

/-- once it has planned, a pass knows the whole queue, and retires nothing of it -/
def RetireOk (d : Deployer) : Prop :=
  match d.converge with
  | .sweeping p _ _ => ∀ K, d.sys.queue.entries.get? K ≠ none → p.queued.get? K ≠ none
  | .retiring p left _ => (∀ K, d.sys.queue.entries.get? K ≠ none → p.queued.get? K ≠ none) ∧
      ∀ K ∈ left, p.queued.get? K = none
  | _ => True

theorem retireOk_step {x : Ext} {d d' : Deployer} {a : Deploy} (h : d.step x a = some d')
    (hs : RetireOk d) : RetireOk d' := by
  cases deployed_inv h with
  | queue d s' a hp hq =>
    obtain ⟨s, converge, deployed, un⟩ := d
    have hkeep := fun K => entry_step (K := K) hq hp
    cases converge with
    | idle => trivial
    | sending => trivial
    | sweeping p left live => exact fun K he => hs K (hkeep K he)
    | retiring p left live => exact ⟨fun K he => hs.1 K (hkeep K he), hs.2⟩
  | unqualified d projects project names held kept hidle =>
    unfold RetireOk
    rw [show ({ d with unqualified := projects } : Deployer).converge = .idle from hidle]
    trivial
  | begin => trivial
  | sent => trivial
  | swept s p left lives deployed un key live hkey => exact hs
  | plan s p live deployed un rules now =>
    intro K he hq
    refine he ?_
    show ((s.queue.setRules rules).plan x p.queued now).entries.get? K = none
    rw [RunQueue.plan_get?, hq]
    rfl
  | retire s p live deployed un =>
    refine ⟨hs, fun K hK => ?_⟩
    exact Option.isNone_iff_eq_none.mp (Finset.mem_filter.mp hK).2
  | retired s p left live deployed un key hkey =>
    exact ⟨hs.1, fun K hK => hs.2 K (Finset.mem_of_mem_erase hK)⟩
  | done => trivial

/-! ## bare names -/

theorem mem_askedIds {names held : List String} {kept : Option String}
    (hkept : ∀ id ∈ kept, id ∈ bareIds names held) {id : String}
    (h : id ∈ askedIds names held kept) : id ∈ bareIds names held := by
  cases kept with
  | none => exact h
  | some k =>
    rcases List.mem_append.mp h with h | h
    · exact (List.takeWhile_sublist _).subset h
    · rw [List.mem_singleton.mp h]
      exact hkept k rfl

/-- a name without a dot is no stream's id, and its sweep is the stream `expiry` of that name -/
theorem streamId_bare {name : String} (hdot : '.' ∉ name.toList) {K : Key}
    (h : streamId K = name ∨ streamId K = sweepName name) :
    streamId K = sweepName name ∧ K = Key.of name "expiry" := by
  have hid : (streamId K).toList = K.project.toList ++ '.' :: K.name.toList := by
    unfold streamId
    rw [String.toList_append, String.toList_append, List.append_assoc]
    rfl
  have hsweep : (sweepName name).toList = name.toList ++ '.' :: "expiry".toList := by
    unfold sweepName
    rw [String.toList_append]
    rfl
  rcases h with h | h
  · refine absurd ?_ hdot
    rw [← h, hid]
    simp
  · refine ⟨h, ?_⟩
    have heq : K.project.toList ++ '.' :: K.name.toList = name.toList ++ '.' :: "expiry".toList := by
      rw [← hid, h, hsweep]
    -- the sweep's name has one dot, so the project has none
    have hcount := congrArg (List.count '.') heq
    rw [List.count_append, List.count_append, List.count_cons_self, List.count_cons_self,
      List.count_eq_zero_of_not_mem hdot,
      List.count_eq_zero_of_not_mem (show '.' ∉ "expiry".toList by decide)] at hcount
    have hproject : '.' ∉ K.project.toList := List.count_eq_zero.mp (by omega)
    obtain ⟨h1, h2⟩ := Text.cut_first hproject hdot heq
    show toLex (K.project, K.name) = toLex (name, "expiry")
    rw [String.toList_inj.mp h1, String.toList_inj.mp h2]

theorem strikes_idle {x : Ext} {runnerFor : String → Option String} {d d' : Deployer} {a : Deploy}
    (h : d.step x a = some d') (hC : Trans.KeepsOff runnerFor ⟨d, a, d'⟩) {K : Key}
    (hK : Trans.strikes runnerFor K ⟨d, a, d'⟩ = true) :
    ∀ e ∈ d.sys.queue.entries.get? K, e.running = none := by
  cases deployed_inv h with
  | unqualified d projects project names held kept hidle hkept =>
    obtain ⟨hrunner, hasked⟩ := Bool.and_eq_true_iff.mp hK
    obtain ⟨hbare, hheld⟩ := List.mem_filter.mp (mem_askedIds hkept (of_decide_eq_true hasked))
    obtain ⟨name, hname, hid⟩ := List.mem_flatMap.mp hbare
    obtain ⟨hdot, hoff⟩ := hC name hname
    obtain ⟨hsweep, rfl⟩ := streamId_bare hdot (by simpa using hid)
    rw [hsweep] at hheld
    exact hoff (of_decide_eq_true hheld) (beq_iff_eq.mp hrunner)
  | _ => exact absurd hK (by simp [Trans.strikes])

theorem retired_unqueued {x : Ext} {batch short : Nat} {l l' : List (Trans Deployer Deploy)}
    {t : Trans Deployer Deploy} {d : Deployer} {K : Key}
    (hr : Run (Deployer.step x) (Deployer.start batch short) (l ++ t :: l') d)
    (ht : t.retires = some K) : t.before.sys.queue.entries.get? K = none := by
  obtain ⟨r1, hstep, _⟩ := hr.at
  have hok := Run.invariant (I := RetireOk) (C := fun _ => True) (by trivial)
    (fun d a d' h _ hs => retireOk_step h hs) r1 (fun _ _ => trivial)
  obtain ⟨d₀, a, d₁⟩ := t
  have hinv : Deployed x d₀ a d₁ := deployed_inv hstep
  cases hinv with
  | retired s p left live deployed un key hkey =>
    obtain rfl := Option.some.inj ht
    by_contra he
    exact hok.1 key he (hok.2 key hkey)
  | _ => exact absurd ht (by simp [Trans.retires])

/-- where no stream is recorded live while the queue holds it, a tick deletes none that is resident -/
theorem deletes_apart {x : Ext} {batch short : Nat} {l l' : List (Trans Deployer Deploy)}
    {t : Trans Deployer Deploy} {d : Deployer} {K : Key}
    (hr : Run (Deployer.step x) (Deployer.start batch short) (l ++ t :: l') d)
    (hC : ∀ u ∈ l ++ t :: l', u.HandsOver) (ht : t.deletes = some K) : K ∉ residents l := by
  intro hK
  obtain ⟨r1, hstep, _⟩ := hr.at
  have h0 : Apart [] (Deployer.start batch short) :=
    ⟨fun K hK => absurd hK (by simp [residents]), fun K hK => absurd hK (by simp [residents]),
      fun p hp => absurd hp (by simp [Deployer.start, Converge.pass])⟩
  have hinv := Run.history (I := Apart) (C := fun t => t.HandsOver) h0
    (fun tr d a d' _ h hC hs => apart_step h hC hs) r1
    (fun u hu => hC u (List.mem_append_left _ hu))
  obtain ⟨d₀, a, d₁⟩ := t
  have hcase : Deployed x d₀ a d₁ := deployed_inv hstep
  cases hcase with
  | queue d s' a hp hq =>
    unfold Trans.deletes at ht
    split at ht
    · rename_i key ok ha
      obtain rfl := Option.some.inj ht
      obtain rfl := Deploy.queue.inj ha
      exact hinv.free key hK (Or.inr (Or.inr (delete_pending hq)))
    · exact absurd ht (by simp)
  | _ => exact absurd ht (by simp [Trans.deletes])

/-- **Two owners hand a stream over**, over every interleaving of passes with ticks: what a pass
retires the queue does not hold; what it removes under a bare name is no run of the queue, where no
pipeline has the name of a project whose pipeline `expiry` runs; and where no stream is recorded live
while the queue still holds it, no tick deletes a stream that is live and resident. -/
theorem handover (x : Ext) (runnerFor : String → Option String) (batch short : Nat)
    {tr : List (Trans Deployer Deploy)} {d : Deployer}
    (hr : Run (Deployer.step x) (Deployer.start batch short) tr d) :
    (∀ l t l' K, tr = l ++ t :: l' → t.retires = some K →
      t.before.sys.queue.entries.get? K = none) ∧
    ((∀ t ∈ tr, t.KeepsOff runnerFor) → ∀ l t l' K, tr = l ++ t :: l' →
      t.strikes runnerFor K = true →
      ∀ e ∈ t.before.sys.queue.entries.get? K, e.running = none) ∧
    ((∀ t ∈ tr, t.HandsOver) → ∀ l t l' K, tr = l ++ t :: l' → t.deletes = some K →
      K ∉ residents l) := by
  refine ⟨?_, ?_, ?_⟩
  · intro l t l' K htr ht
    subst htr
    exact retired_unqueued hr ht
  · intro hC l t l' K htr ht
    subst htr
    obtain ⟨_, hstep, _⟩ := hr.at
    exact strikes_idle hstep (hC t (by simp)) ht
  · intro hC l t l' K htr ht
    subst htr
    exact deletes_apart hr hC ht

/-! ## two passes -/

/-- a pass over `p/a`, resident or on an hourly clock, and over `p/b`, resident -/
def passOf (resident : Bool) : Pass where
  rendered := [⟨keyA, streamA, resident, .ok (.every (Duration.ofSecs 3600) 0), true⟩,
    ⟨keyB, streamB, true, .ok .once, false⟩]
  sweeps := []
  distinct := show [keyA, keyB].Nodup by decide
  apart := by simp

/-- a whole pass whose streams the runner takes -/
def passes (resident : Bool) (now : Int) : List Deploy :=
  .begin (passOf resident) :: ((passOf resident).sends.map (fun key => .sent key true)
    ++ [.plan OrdMap.empty now, .retire, .done])

/-- one runner for every project -/
def sharedRunner (_ : String) : Option String := some "http://bento:4195"

/-- `p/a` is queued, and the tick that starts it first removes its leftover; an older Portal has left
the sweep of `a` under its bare name -/
def queuedFirst : List Deploy := List.flatten [
  [.queue (.tell (.ran OrdMap.empty)), .unqualified "p" ["a", "b"] ["a.expiry"] none],
  passes false 0,
  (tickTo 0 [keyA] []).map .queue,
  [.queue .takeEnds, .queue (.call (.start keyA streamA none)), .queue .done]]

/-- it turns resident while its run is in the runner -/
def turnedResident : List Deploy := List.flatten [
  queuedFirst,
  passes true (60 * Time.second),
  [.queue (.tick (65 * Time.second)), .queue (.call (.delete keyA true))]]

theorem queuedFirst_handover :
    ∃ (l l' m m' : List (Trans Deployer Deploy)) (t u : Trans Deployer Deploy) (d : Deployer),
      Run (Deployer.step sampleExt) (Deployer.start 1 1) (l ++ t :: l') d ∧
      residents l = {keyB} ∧ t.deletes = some keyA ∧ keyA ∉ residents l ∧
      l ++ t :: l' = m ++ u :: m' ∧ u.strikes sharedRunner (Key.of "a" "expiry") = true ∧
      ∀ e ∈ u.before.sys.queue.entries.get? (Key.of "a" "expiry"), e.running = none := by
  have hr : Run (Deployer.step sampleExt) (Deployer.start 1 1)
      (trace (Deployer.step sampleExt) (Deployer.start 1 1) queuedFirst)
      (final (Deployer.step sampleExt) (Deployer.start 1 1) queuedFirst) :=
    run_trace (by decide +kernel)
  have hcut := cut (trace (Deployer.step sampleExt) (Deployer.start 1 1) queuedFirst) 1
    (by decide +kernel)
  rw [← cut (trace (Deployer.step sampleExt) (Deployer.start 1 1) queuedFirst) 8
    (by decide +kernel)] at hr
  have hboth := handover sampleExt sharedRunner 1 1 hr
  exact ⟨_, _, _, _, _, _, _, hr, by decide +kernel, by decide +kernel,
    hboth.2.2 (by decide +kernel) _ _ _ keyA rfl (by decide +kernel),
    (cut _ 8 (by decide +kernel)).trans hcut.symm, by decide +kernel,
    hboth.2.1 (by decide +kernel) _ _ _ _ ((cut _ 8 (by decide +kernel)).trans hcut.symm)
      (by decide +kernel)⟩

/-- **A pipeline that turns resident while it runs is deleted by the next tick.** -/
theorem tick_deletes_resident :
    ¬ ∀ (x : Ext) (batch short : Nat) (l l' : List (Trans Deployer Deploy))
      (t : Trans Deployer Deploy) (d : Deployer) (K : Key),
      Run (Deployer.step x) (Deployer.start batch short) (l ++ t :: l') d →
      t.deletes = some K → K ∉ residents l := by
  intro h
  have hr : Run (Deployer.step sampleExt) (Deployer.start 1 1)
      (trace (Deployer.step sampleExt) (Deployer.start 1 1) turnedResident)
      (final (Deployer.step sampleExt) (Deployer.start 1 1) turnedResident) :=
    run_trace (by decide +kernel)
  rw [← cut (trace (Deployer.step sampleExt) (Deployer.start 1 1) turnedResident) 20
    (by decide +kernel)] at hr
  exact absurd (h sampleExt 1 1 _ _ _ _ keyA hr (by decide +kernel)) (by decide +kernel)

/-- the pipeline `expiry` of project `q`, on an hourly clock -/
def keyQ : Key := Key.of "q" "expiry"

def passQ : Pass where
  rendered := [⟨keyQ, streamA, false, .ok (.every (Duration.ofSecs 3600) 0), true⟩]
  sweeps := []
  distinct := by simp
  apart := by simp

/-- its run is in the runner when project `p` gets a pipeline `q` -/
def sweepNamesake : List Deploy := List.flatten [
  [.queue (.tell (.ran OrdMap.empty)), .begin passQ, .plan OrdMap.empty 0, .retire, .done],
  (tickTo 0 [keyQ] []).map .queue,
  [.queue .takeEnds, .queue (.call (.start keyQ streamA none)), .queue .done,
    .unqualified "p" ["q"] ["q.expiry"] none]]

/-- **The sweep of a pipeline `q` under its bare name is the stream of `q`'s pipeline `expiry`**: its
removal stops the run of another project. -/
theorem bare_name_strikes :
    ¬ ∀ (x : Ext) (runnerFor : String → Option String) (batch short : Nat)
      (l l' : List (Trans Deployer Deploy)) (t : Trans Deployer Deploy) (d : Deployer) (K : Key),
      Run (Deployer.step x) (Deployer.start batch short) (l ++ t :: l') d →
      t.strikes runnerFor K = true →
      ∀ e ∈ t.before.sys.queue.entries.get? K, e.running = none := by
  intro h
  have hr : Run (Deployer.step sampleExt) (Deployer.start 1 1)
      (trace (Deployer.step sampleExt) (Deployer.start 1 1) sweepNamesake)
      (final (Deployer.step sampleExt) (Deployer.start 1 1) sweepNamesake) :=
    run_trace (by decide +kernel)
  rw [← cut (trace (Deployer.step sampleExt) (Deployer.start 1 1) sweepNamesake) 11
    (by decide +kernel)] at hr
  exact absurd (h sampleExt sharedRunner 1 1 _ _ _ _ keyQ hr (by decide +kernel))
    (by decide +kernel)

end Portal
