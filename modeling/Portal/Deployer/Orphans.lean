import Portal.Deployer.Handover

/-!
# Streams nobody remembers (`reconciler/streams.rs`: `converge`, `retire`, `remove`;
`reconciler/run_queue.rs`: `tick`)

What the runner holds because this Portal sent it is remembered in three places: the set of deployed
streams, the queue's running entries and its list of runs whose pipeline went away.  An answer does
not always say what the runner did: a request that timed out may have been carried out, and one that
was answered with an error was not.  `Runner` is the deployer beside what the runner really holds,
and every call is taken with whether the runner did what it asked.

* `Runner.step`       a step of the deployer, and what the runner did of the call in it;
* `Trans.Sure`        the steps whose answers say what became of the stream;
* `remembered`        over every interleaving of sure steps, what the runner holds is remembered;
* `forgotten`         a stream whose deletion the runner refused is held and remembered nowhere.
-/

namespace Portal

/-! ## the runner -/

/-- the deployer, and the streams the runner holds because it sent them -/
structure Runner where
  deployer : Deployer
  held : Finset Key

/-- a step of the deployer, with whether the runner did what the call in it asked, or a stream that
the runner loses by itself -/
inductive Move where
  | act (a : Deploy) (did : Bool)
  | lost (key : Key)

namespace Runner

def start (batch short : Nat) : Runner := ⟨Deployer.start batch short, ∅⟩

/-- what the runner holds after it did what it was asked; a stream that goes with a bare name is one
the runner loses -/
def after (held : Finset Key) : Deploy → Finset Key
  | .sent key _ | .queue (.call (.start key _ _)) => insert key held
  | .retired key | .queue (.call (.delete key _)) => held.erase key
  | _ => held

def step (x : Ext) (r : Runner) : Move → Option Runner
  | .act a did =>
    (r.deployer.step x a).map (fun d => ⟨d, if did then after r.held a else r.held⟩)
  | .lost key => some { r with held := r.held.erase key }

end Runner

/-! ## what is remembered -/

/-- the queue knows of a stream of `K`: its entry runs, or its run's pipeline went away -/
def InQueue (K : Key) (q : RunQueue) : Prop :=
  (∃ e, q.entries.get? K = some e ∧ e.running ≠ none) ∨ K ∈ q.gone

instance (K : Key) (q : RunQueue) : Decidable (InQueue K q) :=
  inferInstanceAs (Decidable ((∃ e ∈ q.entries.get? K, e.running ≠ none) ∨ K ∈ q.gone))

def Tick.deletes : Tick → List Key
  | .looking _ sweeps _ _ _ => sweeps
  | .ending _ ended _ | .holding _ _ ended _ => ended
  | .refusing _ key _ _ | .clearing _ key _ => [key]
  | .idle | .telling _ _ _ => []

/-- the keys of the starts a tick has still to answer for -/
def Tick.starting : Tick → List Key
  | .refusing _ key _ starts => key :: starts.map Start.key
  | tk => tk.starts.map Start.key

def Converge.live : Converge → Finset Key
  | .idle => ∅
  | .sending _ _ live | .sweeping _ _ live | .retiring _ _ live => live

/-- `K` is remembered: deployed or found live by the pass under way, in the queue, or about to be
deleted by the tick under way -/
def Deployer.Remembers (d : Deployer) (K : Key) : Prop :=
  K ∈ d.deployed ∨ K ∈ d.converge.live ∨ InQueue K d.sys.queue ∨ K ∈ d.sys.tick.deletes

/-- neither a pass nor a tick is under way -/
def Deployer.atRest (d : Deployer) : Bool :=
  match d.converge, d.sys.tick with
  | .idle, .idle => true
  | _, _ => false

namespace Trans

/-- a step whose answer says what became of the stream: one that the runner took is answered live,
or was deployed and is retired by this pass; one that is deleted is gone; and no pass queues a
pipeline whose stream is deployed -/
def Sure (t : Trans Runner Move) : Prop :=
  match t.act with
  | .act (.sent key live) did => did = true → live = true ∨ key ∈ t.before.deployer.deployed
  | .act (.retired key) did | .act (.queue (.call (.delete key _))) did =>
    key ∈ t.before.held → did = true
  | .act (.begin p) _ => ∀ key ∈ t.before.deployer.deployed, p.queued.get? key = none
  | _ => True

instance (t : Trans Runner Move) : Decidable t.Sure := by
  unfold Sure
  split <;> infer_instance

def completes (t : Trans Runner Move) : Option Pass :=
  match t.act with
  | .act .done _ => t.before.deployer.converge.pass
  | _ => none

end Trans

/-! ## the queue's part -/

section
variable {x : Ext} {K : Key}

theorem inQueue_of_entries {q q' : RunQueue} (hg : q'.gone = q.gone)
    (he : ∀ e, q.entries.get? K = some e → e.running ≠ none →
      ∃ e', q'.entries.get? K = some e' ∧ e'.running ≠ none) (h : InQueue K q) : InQueue K q' := by
  rcases h with ⟨e, h1, h2⟩ | h
  · exact Or.inl (he e h1 h2)
  · exact Or.inr (by rw [hg]; exact h)

theorem inQueue_plan {q : RunQueue} {wanted : OrdMap Key Planned} {now : Int}
    (h : InQueue K q) : InQueue K (q.plan x wanted now) := by
  rcases h with ⟨e, he, hr⟩ | h
  · cases hw : wanted.get? K with
    | none =>
      exact Or.inr ((RunQueue.plan_gone q x wanted now K).mpr
        (Or.inr ⟨hw, e, he, Option.isSome_iff_ne_none.mpr hr⟩))
    | some p =>
      refine Or.inl ⟨_, by rw [RunQueue.plan_get?, hw]; rfl, ?_⟩
      rw [(Entry.retries_retryOnly _ _ _ _).running, he]
      show (e.plan p now).running ≠ none
      unfold Entry.plan
      split
      · exact hr
      · exact hr
  · exact Or.inr ((RunQueue.plan_gone q x wanted now K).mpr (Or.inl h))

theorem inQueue_runNow {q : RunQueue} {key : Key} {now : Int} (h : InQueue K q) :
    InQueue K (q.runNow key now).1 := by
  refine inQueue_of_entries (by rw [RunQueue.runNow_frame]) (fun e he hr => ?_) h
  refine ⟨_, by rw [RunQueue.runNow_get?, he]; rfl, ?_⟩
  dsimp only
  split
  · exact hr
  · exact hr

theorem inQueue_stuck {q : RunQueue} {key : Key} {now : Int} (h : InQueue K q) :
    InQueue K (q.stuck key now) := by
  refine inQueue_of_entries (q := q) rfl (fun e he hr => ?_) h
  refine ⟨_, by rw [RunQueue.stuck_get?, he]; rfl, ?_⟩
  dsimp only
  split
  · exact hr
  · exact hr

theorem inQueue_failedToStart {q : RunQueue} {key : Key} {reason : String} {now : Int}
    (hne : K ≠ key) (h : InQueue K q) : InQueue K (q.failedToStart key reason now) := by
  refine inQueue_of_entries (q := q) rfl (fun e he hr => ⟨e, ?_, hr⟩) h
  rw [RunQueue.failedToStart_get?, he]
  simp [hne]

theorem inQueue_settle {q : RunQueue} {states : List (Key × RunState)} {now : Int}
    (hn : (states.map Prod.fst).Nodup) (h : InQueue K q) :
    InQueue K (q.settle x states now).1 ∨ K ∈ (q.settle x states now).2.1 := by
  rcases h with ⟨e, he, hr⟩ | h
  · cases hend : e.ending (states.lookup K) now q.timeout with
    | some r =>
      refine Or.inr ((RunQueue.mem_settle_ended q x states now K hn).mpr ⟨e, he, ?_⟩)
      rw [hend]
      rfl
    | none =>
      have hrun : (e.settled (states.lookup K) now q.timeout).running ≠ none := by
        rw [Entry.settled_running, hend]
        exact hr
      obtain ⟨e', he', m⟩ := RunQueue.settle_get? q x states now hn he
      refine Or.inl (Or.inl ⟨e', he', ?_⟩)
      generalize (q.settle x states now).2.2.filter (fun s => s.key = K) = l at m
      cases m with
      | stay => exact hrun
      | refuse _ h2 => exact absurd h2 hrun
      | start _ h2 => exact absurd h2 hrun
  · refine Or.inl (Or.inr ?_)
    rw [RunQueue.settle_frame]
    exact h

theorem inQueue_tell {q : RunQueue} (t : Tell) (h : InQueue K q) : InQueue K (t.apply q) := by
  cases t <;> exact h

/-- **The queue and its tick let go of a stream by deleting it only.** -/
theorem queue_remembers {s s' : Sys} {a : Action} (h : step x s a = some s')
    (hk : ∀ ok, a ≠ .call (.delete K ok)) (hs : InQueue K s.queue ∨ K ∈ s.tick.deletes) :
    InQueue K s'.queue ∨ K ∈ s'.tick.deletes := by
  cases step_inv h with
  | tell q tk t => exact hs.imp_left (inQueue_tell t)
  | plan q tk wanted now => exact hs.imp_left inQueue_plan
  | runNow q tk key now => exact hs.imp_left inQueue_runNow
  | tick q now =>
    rcases hs with (⟨e, he, hr⟩ | hs) | hs
    · refine Or.inl (Or.inl ⟨_, by rw [RunQueue.sweeps_get?, he]; rfl, ?_⟩)
      unfold RunQueue.swept
      split
      · exact hr
      · exact hr
    · exact Or.inr ((RunQueue.mem_sweeps q K).mpr (Or.inl hs))
    · exact absurd hs (by simp [Tick.deletes])
  | call q tk tk' c hc =>
    refine hs.imp_right (fun hs => ?_)
    cases hc with
    | swept now k =>
      exact (List.mem_cons.mp hs).resolve_left (fun he => hk _ (by rw [he]))
    | looked => exact hs
    | deleted now k =>
      exact (List.mem_cons.mp hs).resolve_left (fun he => hk _ (by rw [he]))
    | kept now k =>
      exact (List.mem_cons.mp hs).resolve_left (fun he => hk _ (by rw [he]))
    | told => exact hs
    | started => exact hs
    | refused => exact absurd hs (by simp [Tick.deletes])
    | cleared now k =>
      exact absurd (List.mem_singleton.mp hs) (fun he => hk _ (by rw [he]))
  | settle q now states asked =>
    rw [List.append_nil] at asked
    rcases hs with hs | hs
    · exact inQueue_settle asked hs
    · exact absurd hs (by simp [Tick.deletes])
  | stuck q now key ended starts => exact hs.imp_left inQueue_stuck
  | takeEnds q now starts =>
    rcases hs with hs | hs
    · exact Or.inl hs
    · exact absurd hs (by simp [Tick.deletes])
  | failedToStart q now key reason starts =>
    by_cases hne : K = key
    · exact Or.inr (by rw [hne]; exact List.mem_singleton_self key)
    · exact hs.imp_left (inQueue_failedToStart hne)
  | done q now =>
    rcases hs with hs | hs
    · exact Or.inl hs
    · exact absurd hs (by simp [Tick.deletes])

end

/-- what a tick is about to start runs in the queue already, each once -/
structure Starting (s : Sys) : Prop where
  known : ∀ K ∈ s.tick.starting, InQueue K s.queue
  distinct : s.tick.starting.Nodup

theorem settle_starts_nodup {x : Ext} {q : RunQueue} {states : List (Key × RunState)} {now : Int}
    (hn : (states.map Prod.fst).Nodup) : ((q.settle x states now).2.2.map Start.key).Nodup := by
  rw [List.nodup_iff_count_le_one]
  intro K
  have hcount : ((q.settle x states now).2.2.map Start.key).count K
      = ((q.settle x states now).2.2.filter (fun s => s.key = K)).length := by
    rw [List.count, List.countP_map, ← List.countP_eq_length_filter]
    exact List.countP_congr (fun s _ => by simp)
  rw [hcount]
  cases he : q.entries.get? K with
  | none =>
    rw [(RunQueue.settle_none q x states now hn he).2]
    exact Nat.zero_le 1
  | some e =>
    obtain ⟨e', _, m⟩ := RunQueue.settle_get? q x states now hn he
    generalize (q.settle x states now).2.2.filter (fun s => s.key = K) = l at m
    cases m <;> simp

theorem inQueue_of_start {x : Ext} {q : RunQueue} {states : List (Key × RunState)} {now : Int}
    (hn : (states.map Prod.fst).Nodup) {K : Key}
    (h : K ∈ (q.settle x states now).2.2.map Start.key) : InQueue K (q.settle x states now).1 := by
  obtain ⟨st, hst, hkey⟩ := List.mem_map.mp h
  have hmem : st ∈ (q.settle x states now).2.2.filter (fun s => s.key = K) :=
    List.mem_filter.mpr ⟨hst, by simpa using hkey⟩
  obtain ⟨e, he⟩ := Option.ne_none_iff_exists'.mp (mem_starts_entry hn h)
  obtain ⟨e', he', m⟩ := RunQueue.settle_get? q x states now hn he
  refine Or.inl ⟨e', he', ?_⟩
  generalize (q.settle x states now).2.2.filter (fun s => s.key = K) = l at m hmem
  cases m with
  | stay => exact absurd hmem List.not_mem_nil
  | refuse => exact absurd hmem List.not_mem_nil
  | start => simp [Entry.start]

theorem starting_step {x : Ext} {s s' : Sys} {a : Action} (h : step x s a = some s')
    (hs : Starting s) : Starting s' := by
  cases step_inv h with
  | tell q tk t => exact ⟨fun K hK => inQueue_tell t (hs.known K hK), hs.distinct⟩
  | plan q tk wanted now => exact ⟨fun K hK => inQueue_plan (hs.known K hK), hs.distinct⟩
  | runNow q tk key now => exact ⟨fun K hK => inQueue_runNow (hs.known K hK), hs.distinct⟩
  | tick q now => exact ⟨fun K hK => absurd hK List.not_mem_nil, List.nodup_nil⟩
  | call q tk tk' c hc =>
    have hsub : tk'.starting.Sublist tk.starting := by
      cases hc with
      | started now s starts => exact List.sublist_cons_self _ _
      | _ => exact List.Sublist.refl _
    exact ⟨fun K hK => hs.known K (hsub.subset hK), hs.distinct.sublist hsub⟩
  | settle q now states asked =>
    rw [List.append_nil] at asked
    exact ⟨fun K hK => inQueue_of_start asked hK, settle_starts_nodup asked⟩
  | stuck q now key ended starts =>
    exact ⟨fun K hK => inQueue_stuck (hs.known K hK), hs.distinct⟩
  | takeEnds q now starts => exact ⟨hs.known, hs.distinct⟩
  | failedToStart q now key reason starts =>
    obtain ⟨hkey, hstarts⟩ := List.nodup_cons.mp hs.distinct
    refine ⟨fun K hK => ?_, hstarts⟩
    have hne : K ≠ key := fun he => hkey (he ▸ hK)
    exact inQueue_failedToStart hne (hs.known K (List.mem_cons_of_mem _ hK))
  | done q now => exact ⟨fun K hK => absurd hK List.not_mem_nil, List.nodup_nil⟩

theorem start_mem {x : Ext} {s s' : Sys} {K : Key} {stream : Value} {refusal : Option String}
    (h : step x s (.call (.start K stream refusal)) = some s') :
    K ∈ s.tick.starting ∧ s'.queue = s.queue := by
  cases step_inv h with
  | call q tk tk' c hc => cases hc <;> exact ⟨List.mem_cons_self .., rfl⟩

/-! ## the pass's part -/

/-- what is deployed is not queued by the pass under way, and once it retires every stream that is
deployed is found live or about to be retired -/
def PassOk (d : Deployer) : Prop :=
  match d.converge with
  | .idle => True
  | .sending p _ _ | .sweeping p _ _ => ∀ K ∈ d.deployed, p.queued.get? K = none
  | .retiring _ left live => ∀ K ∈ d.deployed, K ∈ live ∨ K ∈ left

theorem passOk_mono {s s' : Sys} {c : Converge} {deployed deployed' : Finset Key}
    {un un' : Finset String} (hsub : deployed' ⊆ deployed) (h : PassOk ⟨s, c, deployed, un⟩) :
    PassOk ⟨s', c, deployed', un'⟩ := by
  cases c with
  | idle => trivial
  | sending p left live => exact fun K hK => h K (hsub hK)
  | sweeping p left live => exact fun K hK => h K (hsub hK)
  | retiring p left live => exact fun K hK => h K (hsub hK)

theorem forget_subset (deployed : Finset Key) (a : Action) :
    Deployer.forget deployed a ⊆ deployed := by
  unfold Deployer.forget
  split
  · exact Finset.erase_subset _ _
  · exact Finset.Subset.refl _

theorem mem_forget {deployed : Finset Key} {a : Action} {K : Key} (hK : K ∈ deployed)
    (hk : ∀ ok, a ≠ .call (.delete K ok)) : K ∈ Deployer.forget deployed a := by
  unfold Deployer.forget
  split
  · rename_i key ok
    exact Finset.mem_erase.mpr ⟨fun he => hk ok (by rw [he]), hK⟩
  · exact hK

theorem held_queue {r : Runner} {a : Action} {did : Bool} {r' : Runner}
    (hC : Trans.Sure ⟨r, .act (.queue a) did, r'⟩) {K : Key}
    (hK : K ∈ (if did then Runner.after r.held (.queue a) else r.held)) :
    (K ∈ r.held ∧ ∀ ok, a ≠ .call (.delete K ok)) ∨
      ∃ stream refusal, a = .call (.start K stream refusal) := by
  by_cases hd : ∃ key ok, a = .call (.delete key ok)
  · obtain ⟨key, ok, rfl⟩ := hd
    have hC : key ∈ r.held → did = true := hC
    left
    cases did with
    | true =>
      obtain ⟨hne, hmem⟩ := Finset.mem_erase.mp (show K ∈ r.held.erase key from hK)
      exact ⟨hmem, fun ok he => hne (by cases he; rfl)⟩
    | false =>
      have hK : K ∈ r.held := hK
      refine ⟨hK, fun ok he => ?_⟩
      cases he
      exact absurd (hC hK) (by simp)
  · by_cases hs : ∃ key stream refusal, a = .call (.start key stream refusal)
    · obtain ⟨key, stream, refusal, rfl⟩ := hs
      by_cases hkey : K = key
      · exact Or.inr ⟨stream, refusal, by rw [hkey]⟩
      · refine Or.inl ⟨?_, fun ok he => by cases he⟩
        cases did with
        | true =>
          have hmem : K ∈ insert key r.held := hK
          exact (Finset.mem_insert.mp hmem).resolve_left hkey
        | false => exact hK
    · have hsame : Runner.after r.held (.queue a) = r.held := by
        unfold Runner.after
        split
        · rename_i he
          cases he
        · rename_i key stream refusal he
          cases he
          exact absurd ⟨key, stream, refusal, rfl⟩ hs
        · rename_i he
          cases he
        · rename_i key ok he
          cases he
          exact absurd ⟨key, ok, rfl⟩ hd
        · rfl
      rw [hsame, ite_self] at hK
      exact Or.inl ⟨hK, fun ok he => hd ⟨K, ok, he⟩⟩

theorem mem_found {lives : Finset Key} {key K : Key} {live : Bool} (h : K ∈ lives) :
    K ∈ (if live then insert key lives else lives) := by
  cases live with
  | true => exact Finset.mem_insert_of_mem h
  | false => exact h

theorem found_self {lives : Finset Key} {key : Key} {live : Bool} (h : live = true) :
    key ∈ (if live then insert key lives else lives) := by
  rw [if_pos h]
  exact Finset.mem_insert_self key lives

theorem remembers_sent {s : Sys} {c c' : Converge} {deployed held : Finset Key}
    {un : Finset String} {key K : Key} {live did : Bool} {r' : Runner} (hmono : c.live ⊆ c'.live) (hlive : live = true → key ∈ c'.live)
    (hheld : ∀ K ∈ held, Deployer.Remembers ⟨s, c, deployed, un⟩ K)
    (hC : Trans.Sure ⟨⟨⟨s, c, deployed, un⟩, held⟩, .act (.sent key live) did, r'⟩)
    (hK : K ∈ (if did then Runner.after held (.sent key live) else held)) :
    Deployer.Remembers ⟨s, c', deployed, un⟩ K := by
  have hC : did = true → live = true ∨ key ∈ deployed := hC
  have hold : K ∈ held → Deployer.Remembers ⟨s, c', deployed, un⟩ K := by
    intro h
    rcases hheld K h with h | h | h
    · exact Or.inl h
    · exact Or.inr (Or.inl (hmono h))
    · exact Or.inr (Or.inr h)
  cases did with
  | false => exact hold hK
  | true =>
    rcases Finset.mem_insert.mp (show K ∈ insert key held from hK) with rfl | h
    · rcases hC rfl with h | h
      · exact Or.inr (Or.inl (hlive h))
      · exact Or.inl h
    · exact hold h

/-- everything the runner holds is remembered, and so that it stays so -/
structure Kept (r : Runner) : Prop where
  held : ∀ K ∈ r.held, r.deployer.Remembers K
  starting : Starting r.deployer.sys
  pass : PassOk r.deployer

/-- **A sure step forgets nothing that the runner holds.** -/
theorem kept_step {x : Ext} {r r' : Runner} {a : Move} (h : r.step x a = some r')
    (hC : Trans.Sure ⟨r, a, r'⟩) (hs : Kept r) : Kept r' := by
  cases a with
  | lost key =>
    cases h
    exact ⟨fun K hK => hs.held K (Finset.mem_of_mem_erase hK), hs.starting, hs.pass⟩
  | act a did =>
    obtain ⟨d, held⟩ := r
    obtain ⟨d', hd, rfl⟩ := Option.map_eq_some_iff.mp h
    obtain ⟨hheld, hstart, hpass⟩ := hs
    cases deployed_inv hd with
    | queue d s' a hp hq =>
      refine ⟨fun K hK => ?_, starting_step hq hstart, passOk_mono (forget_subset _ a) hpass⟩
      rcases held_queue hC hK with ⟨hmem, hk⟩ | ⟨stream, refusal, rfl⟩
      · rcases hheld K hmem with h | h | h
        · exact Or.inl (mem_forget h hk)
        · exact Or.inr (Or.inl h)
        · exact Or.inr (Or.inr (queue_remembers hq hk h))
      · obtain ⟨hmem, hsame⟩ := start_mem hq
        refine Or.inr (Or.inr (Or.inl ?_))
        show InQueue K s'.queue
        rw [hsame]
        exact hstart.known K hmem
    | unqualified d projects project names held' kept hidle =>
      refine ⟨fun K hK => hheld K (by simpa [Runner.after] using hK), hstart, ?_⟩
      unfold PassOk
      rw [show ({ d with unqualified := projects } : Deployer).converge = .idle from hidle]
      trivial
    | begin s p deployed un =>
      refine ⟨fun K hK => ?_, hstart, hC⟩
      rcases hheld K (by simpa [Runner.after] using hK) with h | h | h
      · exact Or.inl h
      · exact absurd h (by simp [Converge.live])
      · exact Or.inr (Or.inr h)
    | sent s p left lives deployed un key live hkey =>
      refine ⟨fun K hK => ?_, hstart, hpass⟩
      refine remembers_sent (fun k hk => ?_) (fun hl => ?_) hheld hC hK
      · exact mem_found hk
      · exact found_self hl
    | swept s p left lives deployed un key live hkey =>
      refine ⟨fun K hK => ?_, hstart, hpass⟩
      refine remembers_sent (fun k hk => ?_) (fun hl => ?_) hheld hC hK
      · exact mem_found hk
      · exact found_self hl
    | plan s p live deployed un rules now =>
      have hq : ∀ K, InQueue K s.queue →
          InQueue K ((s.queue.setRules rules).plan x p.queued now) :=
        fun K h => inQueue_plan (inQueue_tell (.rules rules) h)
      refine ⟨fun K hK => ?_, ⟨fun K hK => hq K (hstart.known K hK), hstart.distinct⟩, hpass⟩
      rcases hheld K (by simpa [Runner.after] using hK) with h | h | h | h
      · exact Or.inl h
      · exact Or.inr (Or.inl h)
      · exact Or.inr (Or.inr (Or.inl (hq K h)))
      · exact Or.inr (Or.inr (Or.inr h))
    | retire s p live deployed un =>
      refine ⟨fun K hK => hheld K (by simpa [Runner.after] using hK), hstart, fun K hK => ?_⟩
      by_cases hl : K ∈ live
      · exact Or.inl hl
      · right
        refine Finset.mem_filter.mpr ⟨Finset.mem_sdiff.mpr ⟨hK, hl⟩, ?_⟩
        rw [hpass K hK]
        rfl
    | retired s p left live deployed un key hkey =>
      have hC : key ∈ held → did = true := hC
      refine ⟨fun K hK => ?_, hstart, fun K hK => ?_⟩
      · have hne : K ≠ key ∧ K ∈ held := by
          cases did with
          | true => exact Finset.mem_erase.mp (show K ∈ held.erase key from hK)
          | false =>
            have hK : K ∈ held := hK
            exact ⟨fun he => absurd (hC (he ▸ hK)) (by simp), hK⟩
        rcases hheld K hne.2 with h | h | h
        · exact Or.inl (Finset.mem_erase.mpr ⟨hne.1, h⟩)
        · exact Or.inr (Or.inl h)
        · exact Or.inr (Or.inr h)
      · obtain ⟨hne, hK⟩ := Finset.mem_erase.mp hK
        exact (hpass K hK).imp_right (fun h => Finset.mem_erase.mpr ⟨hne, h⟩)
    | done s p live deployed un =>
      refine ⟨fun K hK => ?_, hstart, trivial⟩
      rcases hheld K (by simpa [Runner.after] using hK) with h | h | h
      · exact Or.inl ((hpass K h).resolve_right (by simp))
      · exact Or.inl h
      · exact Or.inr (Or.inr h)

/-! ## runs -/

/-- a pass finds live what it sends itself -/
def FoundOwn (d : Deployer) : Prop :=
  ∀ p ∈ d.converge.pass, (∀ K ∈ d.converge.unsent, K ∈ p.streams) ∧
    ∀ K ∈ d.converge.live, K ∈ p.streams

theorem foundOwn_sent {p : Pass} {left : List Key} {lives : Finset Key} {key : Key} {live : Bool}
    (hleft : ∀ K ∈ left, K ∈ p.streams) (hlive : ∀ K ∈ lives, K ∈ p.streams) (hkey : key ∈ left) :
    (∀ K ∈ left.erase key, K ∈ p.streams) ∧
      ∀ K ∈ (if live then insert key lives else lives), K ∈ p.streams := by
  refine ⟨fun K hK => hleft K (List.mem_of_mem_erase hK), fun K hK => ?_⟩
  cases live with
  | false => exact hlive K hK
  | true =>
    rcases Finset.mem_insert.mp hK with rfl | hK
    · exact hleft K hkey
    · exact hlive K hK

theorem foundOwn_step {x : Ext} {d d' : Deployer} {a : Deploy} (h : d.step x a = some d')
    (hs : FoundOwn d) : FoundOwn d' := by
  cases deployed_inv h with
  | queue d s' a hp hq => exact hs
  | unqualified => exact hs
  | begin s p deployed un =>
    intro p' hp'
    obtain rfl := Option.some.inj hp'
    exact ⟨fun K hK => List.mem_append_left _ hK, fun K hK => absurd hK (Finset.notMem_empty _)⟩
  | sent s p left lives deployed un key live hkey =>
    intro p' hp'
    obtain rfl := Option.some.inj hp'
    exact foundOwn_sent (hs p rfl).1 (hs p rfl).2 hkey
  | swept s p left lives deployed un key live hkey =>
    intro p' hp'
    obtain rfl := Option.some.inj hp'
    exact foundOwn_sent (hs p rfl).1 (hs p rfl).2 hkey
  | plan s p live deployed un rules now =>
    intro p' hp'
    obtain rfl := Option.some.inj hp'
    exact ⟨fun K hK => List.mem_append_right _ hK, (hs p rfl).2⟩
  | retire s p live deployed un =>
    intro p' hp'
    obtain rfl := Option.some.inj hp'
    exact ⟨fun K hK => absurd hK List.not_mem_nil, (hs p rfl).2⟩
  | retired s p left live deployed un key hkey =>
    intro p' hp'
    obtain rfl := Option.some.inj hp'
    exact ⟨fun K hK => absurd hK List.not_mem_nil, (hs p rfl).2⟩
  | done s p live deployed un => exact fun p' hp' => absurd hp' (by simp [Converge.pass])

theorem kept_start (batch short : Nat) : Kept (Runner.start batch short) :=
  ⟨fun K hK => absurd hK (Finset.notMem_empty K),
    ⟨fun _ hK => absurd hK List.not_mem_nil, List.nodup_nil⟩, trivial⟩

theorem kept_run {x : Ext} {batch short : Nat} {tr : List (Trans Runner Move)} {r : Runner}
    (hr : Run (Runner.step x) (Runner.start batch short) tr r) (hC : ∀ t ∈ tr, t.Sure) :
    Kept r ∧ FoundOwn r.deployer := by
  refine Run.invariant (I := fun r => Kept r ∧ FoundOwn r.deployer) (C := fun t => t.Sure)
    ⟨kept_start batch short, fun p hp => absurd hp (by simp [Runner.start, Deployer.start,
      Converge.pass])⟩ (fun r a r' h hC hs => ⟨kept_step h hC hs.1, ?_⟩) hr hC
  cases a with
  | lost key =>
    cases h
    exact hs.2
  | act a did =>
    obtain ⟨d', hd, rfl⟩ := Option.map_eq_some_iff.mp h
    exact foundOwn_step hd hs.2

theorem done_leaves {x : Ext} {r r' : Runner} {did : Bool} {p : Pass} {K : Key}
    (h : r.step x (.act .done did) = some r') (hp : r.deployer.converge.pass = some p)
    (hfound : FoundOwn r.deployer) (hkept : Kept r') (hK : K ∈ r'.held) (hout : K ∉ p.streams) :
    InQueue K r'.deployer.sys.queue ∨ K ∈ r'.deployer.sys.tick.deletes := by
  obtain ⟨d, held⟩ := r
  obtain ⟨d', hd, rfl⟩ := Option.map_eq_some_iff.mp h
  cases deployed_inv hd with
  | done s p' live deployed un =>
    obtain rfl : p' = p := Option.some.inj hp
    rcases hkept.held K hK with h | h | h
    · exact absurd ((hfound p' rfl).2 K h) hout
    · exact absurd h (Finset.notMem_empty K)
    · exact h

/-- **No orphan streams, as long as the answers say what the runner did**, over every interleaving
of passes with ticks: what the runner holds is remembered all the while; with no pass and no tick
under way it is deployed, running in the queue or among the runs whose pipeline went away; and of
what a completed pass did not send itself only the queue's is left, to be deleted by a tick. -/
theorem remembered (x : Ext) (batch short : Nat) {tr : List (Trans Runner Move)} {r : Runner}
    (hr : Run (Runner.step x) (Runner.start batch short) tr r) (hC : ∀ t ∈ tr, t.Sure) :
    (∀ K ∈ r.held, r.deployer.Remembers K) ∧
    (r.deployer.atRest = true → ∀ K ∈ r.held,
      K ∈ r.deployer.deployed ∨ InQueue K r.deployer.sys.queue) ∧
    ∀ (l : List (Trans Runner Move)) t l' p K, tr = l ++ t :: l' → t.completes = some p →
      K ∈ t.after.held → K ∉ p.streams →
      InQueue K t.after.deployer.sys.queue ∨ K ∈ t.after.deployer.sys.tick.deletes := by
  obtain ⟨hkept, _⟩ := kept_run hr hC
  refine ⟨hkept.held, fun hrest K hK => ?_, ?_⟩
  · have hidle : r.deployer.converge.live = ∅ ∧ r.deployer.sys.tick.deletes = [] := by
      unfold Deployer.atRest at hrest
      split at hrest
      · rename_i hc ht
        rw [hc, ht]
        exact ⟨rfl, rfl⟩
      · exact absurd hrest (by simp)
    rcases hkept.held K hK with h | h | h | h
    · exact Or.inl h
    · rw [hidle.1] at h
      exact absurd h (Finset.notMem_empty K)
    · exact Or.inr h
    · rw [hidle.2] at h
      exact absurd h List.not_mem_nil
  · intro l t l' p K htr hp hK hout
    subst htr
    obtain ⟨r1, hstep, _⟩ := hr.at
    have hbefore := kept_run r1 (fun u hu => hC u (List.mem_append_left _ hu))
    have hafter := kept_step hstep (hC t (by simp)) hbefore.1
    unfold Trans.completes at hp
    split at hp
    · rename_i did hact
      rw [hact] at hstep
      exact done_leaves hstep hp hbefore.2 hafter hK hout
    · exact absurd hp (by simp)

/-! ## a deletion the runner refuses -/

/-- a pass over `p/b` alone -/
def passB : Pass where
  rendered := [⟨keyB, streamB, true, .ok .once, false⟩]
  sweeps := []
  distinct := by simp
  apart := by simp

/-- `p/a` and `p/b` are sent, and `p/a` is deleted from the repository; `did` is whether the runner
removes its stream -/
def deleted (did : Bool) : List Move := List.flatten [
  (passes true 0).map (fun a => .act a true),
  [.act (.begin passB) true, .act (.sent keyB true) true,
    .act (.plan OrdMap.empty (60 * Time.second)) true, .act .retire true,
    .act (.retired keyA) did, .act .done true]]

theorem remembered_of_deleted :
    ∃ (tr : List (Trans Runner Move)) (r : Runner),
      Run (Runner.step sampleExt) (Runner.start 1 1) tr r ∧ (∀ t ∈ tr, t.Sure) ∧ r.held = {keyB} ∧
      (keyB ∈ r.deployer.deployed ∨ InQueue keyB r.deployer.sys.queue) := by
  have hr : Run (Runner.step sampleExt) (Runner.start 1 1)
      (trace (Runner.step sampleExt) (Runner.start 1 1) (deleted true))
      (final (Runner.step sampleExt) (Runner.start 1 1) (deleted true)) :=
    run_trace (by decide +kernel)
  have hC : ∀ t ∈ trace (Runner.step sampleExt) (Runner.start 1 1) (deleted true), t.Sure := by
    decide +kernel
  exact ⟨_, _, hr, hC, by decide +kernel,
    (remembered sampleExt 1 1 hr hC).2.1 (by decide +kernel) keyB (by decide +kernel)⟩

/-- **A stream whose deletion the runner refuses is held and remembered nowhere.** -/
theorem forgotten :
    ¬ ∀ (x : Ext) (batch short : Nat) (tr : List (Trans Runner Move)) (r : Runner),
      Run (Runner.step x) (Runner.start batch short) tr r → r.deployer.atRest = true →
      ∀ K ∈ r.held, K ∈ r.deployer.deployed ∨ InQueue K r.deployer.sys.queue := by
  intro h
  have hr : Run (Runner.step sampleExt) (Runner.start 1 1)
      (trace (Runner.step sampleExt) (Runner.start 1 1) (deleted false))
      (final (Runner.step sampleExt) (Runner.start 1 1) (deleted false)) :=
    run_trace (by decide +kernel)
  exact absurd (h sampleExt 1 1 _ _ hr (by decide +kernel) keyA (by decide +kernel))
    (by decide +kernel)

end Portal
