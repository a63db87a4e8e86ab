import Portal.Base.Machine
import Portal.Base.OrdMap

/-!
# Which replica may reconcile (`reconciler/leader.rs`)

The election is an advisory lock of the database, held by a session.  A replica keeps the session it
won the lock with, and asks it again before every reconcile; it may learn late that its session has
ended, and the server may learn late that its replica has gone.

* `Leadership`, `Election`   what a replica holds, and what the server does;
* `step`                     elections, heartbeats, resignations and ends of sessions, in any order;
* `Sound`                    a session that lives is the one with the lock;
* `one_leader`               **the law**: one replica holds a session that lives;
* `lead_passes`              **the law**: another replica leads only when the session before it has
                             ended or its replica has resigned.
-/

namespace Portal
namespace Leader

structure Leadership where
  /-- the session that holds the lock; a follower has none -/
  held : Option Nat
  /-- the session that has won the lock and has no lease yet -/
  winning : Option Nat
  leader : Bool
deriving DecidableEq

def Leadership.follower : Leadership := ⟨none, none, false⟩

structure Election where
  replicas : OrdMap Nat Leadership
  /-- the session with the lock -/
  holder : Option Nat
  /-- the sessions that live -/
  alive : List Nat
  next : Nat

def Election.fresh : Election := ⟨OrdMap.empty, none, [], 0⟩

inductive Act where
  /-- `acquire` finds that its session still answers -/
  | confirm (r : Nat)
  /-- the session does not answer, to `acquire` or to the heartbeat -/
  | drop (r : Nat)
  /-- `acquire` tries the lock on another session -/
  | compete (r : Nat)
  /-- the lease is set on the session that won -/
  | lead (r : Nat)
  /-- the lease is not set -/
  | fail (r : Nat)
  /-- the lock is given up, explicitly or with the session -/
  | resign (r : Nat) (unlocked : Bool)
  /-- the server ends a session: it was closed, went silent past its lease, or died -/
  | ends (k : Nat)
deriving DecidableEq

namespace Election

def replica (s : Election) (r : Nat) : Leadership := (s.replicas.get? r).getD .follower

def put (s : Election) (r : Nat) (l : Leadership) : Election :=
  { s with replicas := s.replicas.insert r l }

/-- the lock, once the session `k` lets it go -/
def without (s : Election) (k : Nat) : Option Nat := if s.holder = some k then none else s.holder

end Election

def step (s : Election) : Act → Option Election
  | .confirm r => if (s.replica r).held.any (fun k => k ∈ s.alive) then some s else none
  | .drop r => if (s.replica r).held.isSome then some (s.put r .follower) else none
  | .compete r =>
    if (s.replica r).held = none ∧ (s.replica r).winning = none then
      if s.holder = none then
        some { s.put r ⟨none, some s.next, (s.replica r).leader⟩ with
          holder := some s.next
          alive := s.next :: s.alive
          next := s.next + 1 }
      else some (s.put r .follower)
    else none
  | .lead r =>
    match (s.replica r).winning with
    | some k => if k ∈ s.alive then some (s.put r ⟨some k, none, true⟩) else none
    | none => none
  | .fail r => if (s.replica r).winning.isSome then some (s.put r .follower) else none
  | .resign r unlocked =>
    if (s.replica r).winning = none then
      match (s.replica r).held with
      | some k =>
        some { s.put r .follower with holder := if unlocked then s.without k else s.holder }
      | none => some (s.put r .follower)
    else none
  | .ends k => some { s with alive := s.alive.filter (fun j => j ≠ k), holder := s.without k }

/-- the replica `r` keeps the session `k` -/
def Owns (s : Election) (r k : Nat) : Prop :=
  (s.replica r).held = some k ∨ (s.replica r).winning = some k

/-- **Invariant**: a session is one replica's, and one that lives has the lock. -/
structure Sound (s : Election) : Prop where
  known : ∀ r k, Owns s r k → k < s.next
  one : ∀ r r' k, Owns s r k → Owns s r' k → r' = r
  holds : ∀ r k, Owns s r k → k ∈ s.alive → s.holder = some k

/-- `t` tells the replica `r` that it leads, on the session `k` -/
def Leads (r k : Nat) (t : Trans Election Act) : Prop :=
  (t.act = .confirm r ∨ t.act = .lead r) ∧ (t.after.replica r).held = some k

section
variable {s s' : Election} {a : Act} {r r' k : Nat}

theorem replica_put (r r' : Nat) (l : Leadership) :
    (s.put r l).replica r' = if r' = r then l else s.replica r' := by
  unfold Election.replica Election.put
  rw [OrdMap.get?_insert]
  split <;> rfl

/-- **Step**: what a replica keeps it kept before, or has just won. -/
theorem owns_of_step (h : step s a = some s') (howns : Owns s' r k) :
    Owns s r k ∨ a = .compete r ∧ k = s.next ∧ s'.holder = some k ∧ k < s'.next := by
  have hput : ∀ (r₀ : Nat) (l : Leadership), s'.replica r = (s.put r₀ l).replica r →
      (l.held = none ∧ l.winning = none ∨ ∀ j, l.held = some j → Owns s r₀ j) → l.winning = none →
      Owns s r k := by
    intro r₀ l hreplica hl hnone
    rw [replica_put] at hreplica
    unfold Owns at howns
    rw [hreplica] at howns
    split at howns
    · rename_i hr
      rcases howns with hheld | hwinning
      · rcases hl with ⟨hl, -⟩ | hl
        · exact absurd (hl.symm.trans hheld) (by simp)
        · exact hr ▸ hl k hheld
      · exact absurd (hnone.symm.trans hwinning) (by simp)
    · exact howns
  cases a with
  | confirm r₀ =>
    simp only [step] at h
    split at h
    · obtain rfl := Option.some.inj h
      exact .inl howns
    · exact absurd h (by simp)
  | drop r₀ =>
    simp only [step] at h
    split at h
    · obtain rfl := Option.some.inj h
      exact .inl (hput r₀ .follower rfl (.inl ⟨rfl, rfl⟩) rfl)
    · exact absurd h (by simp)
  | compete r₀ =>
    simp only [step] at h
    split at h
    · split at h
      · obtain rfl := Option.some.inj h
        by_cases hr : r = r₀
        · subst hr
          have hreplica : (s.put r ⟨none, some s.next, (s.replica r).leader⟩).replica r
              = ⟨none, some s.next, (s.replica r).leader⟩ := by
            rw [replica_put, if_pos rfl]
          have hk : k = s.next := by
            rcases howns with hheld | hwinning
            · exact absurd ((congrArg Leadership.held hreplica).symm.trans hheld) (by simp)
            · exact (Option.some.inj
                ((congrArg Leadership.winning hreplica).symm.trans hwinning)).symm
          exact .inr ⟨rfl, hk, congrArg some hk.symm, hk ▸ Nat.lt_succ_self _⟩
        · have hreplica : (s.put r₀ ⟨none, some s.next, (s.replica r₀).leader⟩).replica r
              = s.replica r := by
            rw [replica_put, if_neg hr]
          refine .inl ?_
          unfold Owns
          rw [← hreplica]
          exact howns
      · obtain rfl := Option.some.inj h
        exact .inl (hput r₀ .follower rfl (.inl ⟨rfl, rfl⟩) rfl)
    · exact absurd h (by simp)
  | lead r₀ =>
    simp only [step] at h
    split at h
    · rename_i j hwinning
      split at h
      · obtain rfl := Option.some.inj h
        refine .inl (hput r₀ ⟨some j, none, true⟩ rfl (.inr ?_) rfl)
        intro j' hj
        obtain rfl := Option.some.inj hj
        exact .inr hwinning
      · exact absurd h (by simp)
    · exact absurd h (by simp)
  | fail r₀ =>
    simp only [step] at h
    split at h
    · obtain rfl := Option.some.inj h
      exact .inl (hput r₀ .follower rfl (.inl ⟨rfl, rfl⟩) rfl)
    · exact absurd h (by simp)
  | resign r₀ unlocked =>
    simp only [step] at h
    split at h
    · split at h
      · obtain rfl := Option.some.inj h
        exact .inl (hput r₀ .follower rfl (.inl ⟨rfl, rfl⟩) rfl)
      · obtain rfl := Option.some.inj h
        exact .inl (hput r₀ .follower rfl (.inl ⟨rfl, rfl⟩) rfl)
    · exact absurd h (by simp)
  | ends j =>
    obtain rfl := Option.some.inj h
    exact .inl howns

/-- `t` lets the lock of the session `k` go -/
def Lets (k : Nat) (s : Election) (a : Act) : Prop :=
  a = .ends k ∨ ∃ r, a = .resign r true ∧ (s.replica r).held = some k

theorem without_ne {j : Nat} (h : s.holder = some k) (hne : j ≠ k) : s.without j = some k := by
  unfold Election.without
  rw [h, if_neg]
  intro heq
  exact hne (Option.some.inj heq).symm

/-- **Step**: the lock stays where it is until it is let go, and is won only where it is free. -/
theorem server_of_step (h : step s a = some s') :
    s.next ≤ s'.next ∧ (∀ j ∈ s'.alive, j ∈ s.alive ∨ s'.holder = some j) ∧
      (∀ j, s.holder = some j → s'.holder = some j ∨ Lets j s a) := by
  have hsame : ∀ r₀ l, s' = s.put r₀ l → s.next ≤ s'.next ∧
      (∀ j ∈ s'.alive, j ∈ s.alive ∨ s'.holder = some j) ∧
      (∀ j, s.holder = some j → s'.holder = some j ∨ Lets j s a) := by
    rintro r₀ l rfl
    exact ⟨le_refl _, fun j hj => .inl hj, fun j hj => .inl hj⟩
  cases a with
  | confirm r₀ =>
    simp only [step] at h
    split at h
    · obtain rfl := Option.some.inj h
      exact ⟨le_refl _, fun j hj => .inl hj, fun j hj => .inl hj⟩
    · exact absurd h (by simp)
  | drop r₀ =>
    simp only [step] at h
    split at h
    · exact hsame r₀ _ (Option.some.inj h).symm
    · exact absurd h (by simp)
  | compete r₀ =>
    simp only [step] at h
    split at h
    · split at h
      · rename_i hfree
        obtain rfl := Option.some.inj h
        refine ⟨Nat.le_succ _, ?_, fun j hj => absurd (hfree.symm.trans hj) (by simp)⟩
        intro j hj
        rcases List.mem_cons.1 hj with rfl | hj
        · exact .inr rfl
        · exact .inl hj
      · exact hsame r₀ _ (Option.some.inj h).symm
    · exact absurd h (by simp)
  | lead r₀ =>
    simp only [step] at h
    split at h
    · split at h
      · exact hsame r₀ _ (Option.some.inj h).symm
      · exact absurd h (by simp)
    · exact absurd h (by simp)
  | fail r₀ =>
    simp only [step] at h
    split at h
    · exact hsame r₀ _ (Option.some.inj h).symm
    · exact absurd h (by simp)
  | resign r₀ unlocked =>
    simp only [step] at h
    split at h
    · split at h
      · rename_i k₀ hheld
        obtain rfl := Option.some.inj h
        refine ⟨le_refl _, fun j hj => .inl hj, ?_⟩
        intro j hj
        cases unlocked with
        | false => exact .inl hj
        | true =>
          by_cases hk : k₀ = j
          · exact .inr (.inr ⟨r₀, rfl, hk ▸ hheld⟩)
          · exact .inl (without_ne hj hk)
      · exact hsame r₀ _ (Option.some.inj h).symm
    · exact absurd h (by simp)
  | ends k₀ =>
    obtain rfl := Option.some.inj h
    refine ⟨le_refl _, fun j hj => .inl (List.mem_filter.1 hj).1, ?_⟩
    intro j hj
    by_cases hk : k₀ = j
    · exact .inr (.inl (hk ▸ rfl))
    · exact .inl (without_ne hj hk)

/-- who lets the lock of a living session go keeps that session no more -/
theorem not_owns_of_lets (hsound : Sound s) (h : step s a = some s') (hlets : Lets k s a)
    (halive : k ∈ s'.alive) : ¬ Owns s' r k := by
  intro howns
  rcases hlets with rfl | ⟨r₀, rfl, hheld⟩
  · obtain rfl := Option.some.inj h
    exact absurd rfl (of_decide_eq_true (List.mem_filter.1 halive).2)
  · rcases owns_of_step h howns with hbefore | ⟨hact, -⟩
    · obtain rfl := hsound.one r₀ r k (.inl hheld) hbefore
      have hreplica : s'.replica r = .follower := by
        simp only [step, hheld] at h
        split at h
        · obtain rfl := Option.some.inj h
          exact (replica_put r r .follower).trans (if_pos rfl)
        · exact absurd h (by simp)
      rcases howns with hown | hown
      · exact absurd ((congrArg Leadership.held hreplica).symm.trans hown)
          (by simp [Leadership.follower])
      · exact absurd ((congrArg Leadership.winning hreplica).symm.trans hown)
          (by simp [Leadership.follower])
    · exact absurd hact (by simp)

/-- **Step**: the election stays sound. -/
theorem Sound.step (hsound : Sound s) (h : Leader.step s a = some s') : Sound s' := by
  obtain ⟨hnext, halive, hholder⟩ := server_of_step h
  refine ⟨?_, ?_, ?_⟩
  · intro r k howns
    rcases owns_of_step h howns with hbefore | ⟨-, -, -, hk⟩
    · exact lt_of_lt_of_le (hsound.known r k hbefore) hnext
    · exact hk
  · intro r r' k howns howns'
    rcases owns_of_step h howns with hbefore | ⟨rfl, rfl, -, -⟩ <;>
      rcases owns_of_step h howns' with hbefore' | ⟨hact, hk, -, -⟩
    · exact hsound.one r r' k hbefore hbefore'
    · exact absurd (hk ▸ hsound.known r k hbefore) (lt_irrefl _)
    · exact absurd (hsound.known r' _ hbefore') (lt_irrefl _)
    · exact (Act.compete.inj hact).symm
  · intro r k howns hk
    rcases owns_of_step h howns with hbefore | ⟨-, -, hlock, -⟩
    · rcases halive k hk with hk' | hlock
      · rcases hholder k (hsound.holds r k hbefore hk') with hlock | hlets
        · exact hlock
        · exact absurd howns (not_owns_of_lets hsound h hlets hk)
      · exact hlock
    · exact hlock

/-- **Run**: every election is sound. -/
theorem sound_run {tr : List (Trans Election Act)} (hr : Run Leader.step .fresh tr s) :
    Sound s := by
  refine Run.invariant (C := fun _ => True) ?_ (fun _ _ _ hstep _ ih => ih.step hstep) hr (by simp)
  have hnone : ∀ r k, ¬ Owns .fresh r k := by
    intro r k howns
    rcases howns with hown | hown <;>
      exact absurd hown (by simp [Election.fresh, Election.replica, Leadership.follower])
  exact ⟨fun r k howns => absurd howns (hnone r k), fun r r' k howns => absurd howns (hnone r k),
    fun r k howns => absurd howns (hnone r k)⟩

/-! ## the laws -/

/-- **One leader**: whatever the replicas and the server do, two replicas that keep sessions which
live are one replica, and it keeps the session with the lock. -/
theorem one_leader {tr : List (Trans Election Act)} (hr : Run Leader.step .fresh tr s)
    (hheld : (s.replica r).held = some k) (halive : k ∈ s.alive)
    (hheld' : (s.replica r').held = some k') (halive' : k' ∈ s.alive) :
    r' = r ∧ k' = k ∧ s.holder = some k := by
  have hsound := sound_run hr
  have hlock := hsound.holds r k (.inl hheld) halive
  have hlock' := hsound.holds r' k' (.inl hheld') halive'
  obtain rfl := Option.some.inj (hlock.symm.trans hlock')
  exact ⟨hsound.one r r' k (.inl hheld) (.inl hheld'), rfl, hlock⟩

/-- the session `k` has the lock, and only `r` can keep it -/
def Locked (r k : Nat) (s : Election) : Prop :=
  s.holder = some k ∧ k < s.next ∧ ∀ r', Owns s r' k → r' = r

theorem Locked.step (hlocked : Locked r k s) (h : Leader.step s a = some s')
    (hlets : ¬ Lets k s a) : Locked r k s' := by
  obtain ⟨hlock, hk, hone⟩ := hlocked
  obtain ⟨hnext, -, hholder⟩ := server_of_step h
  refine ⟨(hholder k hlock).resolve_right hlets, lt_of_lt_of_le hk hnext, ?_⟩
  intro r' howns
  rcases owns_of_step h howns with hbefore | ⟨-, rfl, -⟩
  · exact hone r' hbefore
  · exact absurd hk (lt_irrefl _)

theorem locked_of_leads (hsound : Sound s) (h : Leader.step s a = some s')
    (hleads : Leads r k ⟨s, a, s'⟩) : Locked r k s' := by
  obtain ⟨hact, hheld⟩ := hleads
  have halive : k ∈ s'.alive := by
    rcases hact with rfl | rfl
    · simp only [Leader.step] at h
      split at h
      · rename_i hany
        obtain rfl := Option.some.inj h
        simp only at hheld
        rw [hheld] at hany
        exact of_decide_eq_true hany
      · exact absurd h (by simp)
    · simp only [Leader.step] at h
      split at h
      · rename_i j hwinning
        split at h
        · rename_i hj
          obtain rfl := Option.some.inj h
          have hreplica : (s.put r ⟨some j, none, true⟩).replica r = ⟨some j, none, true⟩ := by
            rw [replica_put, if_pos rfl]
          obtain rfl := Option.some.inj ((congrArg Leadership.held hreplica).symm.trans hheld)
          exact hj
        · exact absurd h (by simp)
      · exact absurd h (by simp)
  have hsound' := hsound.step h
  exact ⟨hsound'.holds r k (.inl hheld) halive, hsound'.known r k (.inl hheld),
    fun r' howns => hsound'.one r r' k (.inl hheld) howns⟩

/-- **Leading passes on only when it is let go**: where one replica was told that it leads and later
another is, in between the session of the first has ended on the server or its replica resigned. -/
theorem lead_passes {l m n : List (Trans Election Act)} {t t' : Trans Election Act}
    (hr : Run Leader.step .fresh (l ++ t :: (m ++ t' :: n)) s)
    (hleads : Leads r k t) (hleads' : Leads r' k' t') (hne : r' ≠ r) :
    ∃ u ∈ m ++ [t'], Lets k u.before u.act := by
  by_contra hnone
  simp only [not_exists, not_and] at hnone
  obtain ⟨hl, hstep, hrest⟩ := hr.at
  obtain ⟨hm, hstep', -⟩ := hrest.at
  have hlocked : Locked r k t'.before :=
    Run.invariant (C := fun u => ¬ Lets k u.before u.act)
      (locked_of_leads (sound_run hl) hstep hleads) (fun _ _ _ hu hC ih => ih.step hu hC)
      hm (fun u hu => hnone u (List.mem_append_left _ hu))
  have hafter := hlocked.step hstep' (hnone t' (by simp))
  have hbefore : Run Leader.step .fresh (l ++ t :: m) t'.before := by
    rw [List.append_cons]
    exact (hl.snoc hstep).append hm
  have hafter' := locked_of_leads (sound_run hbefore) hstep' hleads'
  obtain rfl := Option.some.inj (hafter.1.symm.trans hafter'.1)
  exact hne (hafter.2.2 r' (.inl hleads'.2))

end

/-! ## two replicas, the first of them silent -/

def silenced : List Act := [.compete 0, .lead 0, .compete 1, .ends 0, .compete 1, .lead 1]

theorem one_leader_of_silenced : (1 : Nat) = 1 ∧ (1 : Nat) = 1 ∧
    (final step .fresh silenced).holder = some 1 := by
  have hr : Run step .fresh (trace step .fresh silenced) (final step .fresh silenced) :=
    run_trace (by decide)
  have hheld : ((final step .fresh silenced).replica 1).held = some 1 := by decide
  have halive : 1 ∈ (final step .fresh silenced).alive := by decide
  exact one_leader hr hheld halive hheld halive

/-- what comes after the first replica leads -/
def afterFirst : List (Trans Election Act) := (trace step .fresh silenced).drop 2

theorem lead_passes_of_silenced :
    ∃ u ∈ afterFirst.take 3 ++ [afterFirst.get ⟨3, by decide⟩], Lets 0 u.before u.act := by
  have hr : Run step .fresh ((trace step .fresh silenced).take 1 ++
      (trace step .fresh silenced).get ⟨1, by decide⟩ ::
        (afterFirst.take 3 ++ afterFirst.get ⟨3, by decide⟩ :: afterFirst.drop 4))
      (final step .fresh silenced) := by
    rw [List.get_eq_getElem, List.get_eq_getElem, cut, afterFirst, cut]
    exact run_trace (by decide)
  have hfirst : Leads 0 0 ((trace step .fresh silenced).get ⟨1, by decide⟩) :=
    ⟨.inr (by decide), by decide⟩
  have hsecond : Leads 1 1 (afterFirst.get ⟨3, by decide⟩) := ⟨.inr (by decide), by decide⟩
  exact lead_passes hr hfirst hsecond (by decide)

end Leader
end Portal
