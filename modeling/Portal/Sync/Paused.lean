import Portal.Sync.Driver

/-!
# A paused source stays paused (`sync/driver.rs`: `pause`, `run_one`; `sync/state.rs`: `set_paused`)

A pass reads a source's memory, is away for as long as the origin takes, and writes the whole memory
back; so does the switch, between its read and its write.

* `Heeds`               what `jcctl` makes of a paused source;
* `StaysPaused`, `Silent`, `Spares`   the law, of a state, of a pass and of a switch;
* `InTurn`              where a pass and a switch of one source stand between their reads and their
                        writes, and which of their calls are answered;
* `Held`                what such a run keeps;
* `pause_holds`         **the law** in every such run;
* `pause_undone`        a pass that had read the memory before the pause writes it after.
-/

namespace Portal
namespace Sync

variable {μ ω : Type}

/-- what `jcctl` makes of a paused source: nothing, and it stays paused -/
structure Heeds (j : Jcctl μ ω) : Prop where
  proposes : ∀ {asked manifest state now origin d}, j.poll asked manifest state now origin = .ok d →
    state.paused = true → d.proposal = none
  keeps : ∀ {asked manifest state now origin d}, j.poll asked manifest state now origin = .ok d →
    d.state.paused = state.paused

def Stored.recorded (stored : Stored) : Option String × Option String × Option String :=
  (stored.state.observedRevision, stored.state.openProposal, stored.openRevision)

/-- **A source that was paused and not resumed since is paused.** -/
def StaysPaused (l : Loop μ) : Prop := ∀ key, l.held key = true → (l.rows key).state.paused = true

/-- **A pass that read the memory of a held source calls the forge for nothing.** -/
def Silent (u : Moment μ ω) : Prop :=
  ∀ i o s, u.act = .call i o → u.before.passes i = some s → s.readHeld = false

/-- **A switch leaves what the passes recorded.** -/
def Spares (u : Moment μ ω) : Prop :=
  ∀ i ok, u.act = .write i ok → ∀ key, (u.after.rows key).recorded = (u.before.rows key).recorded

/-- a pass has read the memory and is yet to write it -/
def Phase.between : Phase → Bool
  | .answering | .deciding | .proposing .. | .recording => true
  | .wanted | .listed | .ended => false

/-- a step of a run in turn: a held source's memory is read, and so is the one a switch reads; a pass
writes the memory while no switch of its source stands between its read and its write; a switch writes
it while no pass of its source does, a pause while no resume of the source is on its way, and a pause
that is not written comes after another that holds -/
def InTurn (u : Moment μ ω) : Prop :=
  match u.act with
  | .read i ok => ∀ s, u.before.passes i = some s → u.before.held s.key = true → ok = true
  | .recordAnswer i ok | .record i ok =>
    ∀ s, u.before.passes i = some s → ok = true →
      ∀ i' w, u.before.switches i' = some w → w.key ≠ s.key
  | .pause _ _ _ ok => ok = true
  | .write i ok =>
    ∀ w, u.before.switches i = some w →
      (∀ i' s, u.before.passes i' = some s → s.key = w.key → s.phase.between = false) ∧
      (w.paused = true → (ok = false → u.before.held w.key = true) ∧
        ∀ i' w', u.before.switches i' = some w' → w'.key = w.key → w'.paused = true)
  | _ => True

/-! ## what a run keeps -/

/-- a pass that read a held source's memory has it paused, and proposes nothing -/
structure Pass.Quiet (s : Pass μ) : Prop where
  paused : s.stored.state.paused = true
  proposes : ∀ plan files progress, s.phase ≠ .proposing plan files progress

/-- **The invariant of a run in turn**: a held source is paused, in the memory and in the copy of every
pass that is to write it; a switch has what the passes recorded; and no resume of a held source is on
its way. -/
structure Held (l : Loop μ) : Prop where
  rows : StaysPaused l
  passes : ∀ i s, l.passes i = some s → s.readHeld = true → s.Quiet
  copies : ∀ i s, l.passes i = some s → s.phase.between = true → l.held s.key = true →
    s.stored.state.paused = true
  switches : ∀ i w, l.switches i = some w → w.stored.recorded = (l.rows w.key).recorded
  resumes : ∀ i w, l.switches i = some w → w.paused = false → l.held w.key = false

variable {x : Outside} {j : Jcctl μ ω} {l l' : Loop μ}

theorem held_passGoes (h : Held l) {i : Nat} {s : Pass μ} (hs : s.readHeld = true → s.Quiet)
    (hcopy : s.phase.between = true → l.held s.key = true → s.stored.state.paused = true) :
    Held (passGoes l i s) where
  rows := h.rows
  passes i' s' hi' := by
    rcases passes_passGoes hi' with ⟨rfl, rfl⟩ | ⟨-, hi'⟩
    · exact hs
    · exact h.passes i' s' hi'
  copies i' s' hi' := by
    rcases passes_passGoes hi' with ⟨rfl, rfl⟩ | ⟨-, hi'⟩
    · exact hcopy
    · exact h.copies i' s' hi'
  switches := h.switches
  resumes := h.resumes

theorem held_records (h : Held l) {i : Nat} {s : Pass μ} (hi : l.passes i = some s)
    (hbetween : s.phase.between = true) {ok : Bool}
    (hturn : ok = true → ∀ i' w, l.switches i' = some w → w.key ≠ s.key) {s' : Pass μ}
    (hs' : s'.readHeld = true → s'.Quiet) (hkey : s'.key = s.key) (hstored : s'.stored = s.stored) :
    Held (put (passGoes l i s') s.key s.stored s.mark ok) := by
  have hcopy := h.copies i s hi hbetween
  have hgoes : Held (passGoes l i s') :=
    held_passGoes h hs' (fun _ hheld => by rw [hstored]; exact hcopy (hkey ▸ hheld))
  refine ⟨fun k hk => ?_, fun i' s'' hi' => hgoes.passes i' s'' (by rwa [passes_put] at hi'),
    fun i' s'' hi' hb hheld => hgoes.copies i' s'' (by rwa [passes_put] at hi') hb
      (by rwa [held_put] at hheld), fun i' w hw => ?_, fun i' w hw hw' => ?_⟩
  · rw [held_put] at hk
    rcases rows_put (l := passGoes l i s') s.key s.stored s.mark ok k with
      ⟨hrow, -⟩ | ⟨-, rfl, hrow, -⟩
    · rw [hrow]
      exact h.rows k hk
    · rw [hrow]
      exact hcopy hk
  · rw [switches_put] at hw
    rcases rows_put (l := passGoes l i s') s.key s.stored s.mark ok w.key with
      ⟨hrow, -⟩ | ⟨hok, hwkey, -⟩
    · rw [hrow]
      exact h.switches i' w hw
    · exact absurd hwkey (hturn hok i' w hw)
  · rw [switches_put] at hw
    rw [held_put]
    exact h.resumes i' w hw hw'

theorem quiet_decided (hj : Heeds j) {stored : Stored} (hpaused : stored.state.paused = true)
    {asked : Bool} {manifest : μ} {now : Nat} {origin : ω} :
    let d := decided stored (j.poll asked manifest stored.state now origin)
    d.1.state.paused = true ∧ ∀ plan files progress, d.2 ≠ .proposing plan files progress := by
  intro d
  cases hpoll : j.poll asked manifest stored.state now origin with
  | error e =>
    have hd : d = _ := congrArg (decided stored) hpoll
    rw [hd]
    exact ⟨hpaused, by simp [decided]⟩
  | ok decision =>
    have hd : d = _ := congrArg (decided stored) hpoll
    rw [hd, decided_of_none stored (hj.proposes hpoll hpaused)]
    exact ⟨(hj.keeps hpoll).trans hpaused, by simp⟩

theorem paused_reads (h : Held l) {s : Pass μ} {ok : Bool} (hok : l.held s.key = true → ok = true)
    (hheld : l.held s.key = true) : (readsRow l s ok).stored.state.paused = true := by
  show (answer (get l s.key ok) s.pulls).2.state.paused = true
  rw [paused_answer, get, if_pos (hok hheld)]
  exact h.rows s.key hheld

theorem quiet_reads (h : Held l) {s : Pass μ} {ok : Bool} (hok : l.held s.key = true → ok = true)
    (hheld : (readsRow l s ok).readHeld = true) : (readsRow l s ok).Quiet where
  paused := paused_reads h hok hheld
  proposes plan files progress := by
    show (if (answer (get l s.key ok) s.pulls).1.isSome then Phase.answering else .deciding) ≠ _
    split <;> simp

theorem paused_proposed (stored : Stored) (plan : Plan) (files : List (String × String))
    (progress : Progress) :
    (proposed stored plan files progress).1.state.paused = stored.state.paused := by
  unfold proposed
  split
  · dsimp only
    split <;> rfl
  · rfl
  · rfl

theorem held_pause (h : Held l) {i : Nat} {key : Key} {paused : Bool} :
    Held { l with
      switches := Function.update l.switches i
        (some ⟨key, paused, get l key true, getMark l key true⟩)
      held := if paused then l.held else Function.update l.held key false } := by
  have hfewer : ∀ k, (if paused then l.held else Function.update l.held key false) k = true →
      l.held k = true := by
    intro k hk
    cases paused with
    | true => exact hk
    | false =>
      have hk' : Function.update l.held key false k = true := hk
      by_cases hkey : k = key
      · subst hkey
        rw [Function.update_self] at hk'
        cases hk'
      · rwa [Function.update_of_ne hkey] at hk'
  refine ⟨fun k hk => h.rows k (hfewer k hk), h.passes,
    fun i' s hi' hb hheld => h.copies i' s hi' hb (hfewer s.key hheld), fun i' w hw => ?_,
    fun i' w hw hpaused => ?_⟩
  · rcases update_eq_some hw with ⟨-, hw⟩ | ⟨-, hw⟩
    · obtain rfl := Option.some.inj hw
      rfl
    · exact h.switches i' w hw
  · rcases update_eq_some hw with ⟨-, hw⟩ | ⟨-, hw⟩
    · obtain rfl := Option.some.inj hw
      have hp : paused = false := hpaused
      show (if paused then l.held else Function.update l.held key false) key = false
      rw [hp]
      exact Function.update_self ..
    · have hfree := h.resumes i' w hw hpaused
      exact Bool.eq_false_iff.mpr (fun hheld => by rw [hfewer _ hheld] at hfree; cases hfree)

theorem held_write (h : Held l) {i : Nat} {w : Switch} (hi : l.switches i = some w) {ok : Bool}
    (hpasses : ∀ i' s, l.passes i' = some s → s.key = w.key → s.phase.between = false)
    (hpause : w.paused = true → (ok = false → l.held w.key = true) ∧
      ∀ i' w', l.switches i' = some w' → w'.key = w.key → w'.paused = true) :
    Held { put l w.key { w.stored with state := { w.stored.state with paused := w.paused } } w.mark ok
      with
      switches := Function.update l.switches i none
      held := if w.paused then Function.update l.held w.key true else l.held } := by
  set held' := if w.paused then Function.update l.held w.key true else l.held with hheld'
  have hother : ∀ k, k ≠ w.key → held' k = l.held k := by
    intro k hk
    rw [hheld']
    split
    · exact Function.update_of_ne hk ..
    · rfl
  have hsame : w.paused = false → held' = l.held := fun hp => by rw [hheld', hp]; rfl
  have hrow := rows_put (l := l) w.key
    { w.stored with state := { w.stored.state with paused := w.paused } } w.mark ok
  have hswitch : ∀ i' w', Function.update l.switches i none i' = some w' → l.switches i' = some w' := by
    intro i' w' hw'
    rcases update_eq_some hw' with ⟨-, hw'⟩ | ⟨-, hw'⟩
    · cases hw'
    · exact hw'
  refine ⟨fun k hk => ?_, fun i' s hi' => h.passes i' s (by simpa using hi'),
    fun i' s hi' hb hheld => ?_, fun i' w' hw' => ?_, fun i' w' hw' hp => ?_⟩
  · have hk : held' k = true := hk
    show ((put l w.key _ w.mark ok).rows k).state.paused = true
    rcases hrow k with ⟨hkept, -⟩ | ⟨-, rfl, hwritten, -⟩
    · rw [hkept]
      by_cases hkey : k = w.key
      · subst hkey
        cases hp : w.paused with
        | false => exact h.rows _ (by rwa [hsame hp] at hk)
        | true =>
          cases ok with
          | true =>
            rw [← hkept]
            simp [put, hp]
          | false => exact h.rows _ ((hpause hp).1 rfl)
      · exact h.rows k (by rwa [hother k hkey] at hk)
    · rw [hwritten]
      cases hp : w.paused with
      | true => rfl
      | false =>
        have hk' : l.held w.key = true := by rwa [hsame hp] at hk
        rw [h.resumes i w hi hp] at hk'
        cases hk'
  · have hi'' : l.passes i' = some s := by simpa using hi'
    have hheld : held' s.key = true := hheld
    by_cases hkey : s.key = w.key
    · rw [hpasses i' s hi'' hkey] at hb
      cases hb
    · exact h.copies i' s hi'' hb (by rwa [hother s.key hkey] at hheld)
  · rw [h.switches i' w' (hswitch i' w' hw')]
    show (l.rows w'.key).recorded = ((put l w.key _ w.mark ok).rows w'.key).recorded
    rcases hrow w'.key with ⟨hkept, -⟩ | ⟨-, hkey, hwritten, -⟩
    · rw [hkept]
    · rw [hwritten, hkey]
      exact (h.switches i w hi).symm
  · have hfree := h.resumes i' w' (hswitch i' w' hw') hp
    show held' w'.key = false
    by_cases hkey : w'.key = w.key
    · cases hwp : w.paused with
      | false => rwa [hsame hwp]
      | true =>
        rw [(hpause hwp).2 i' w' (hswitch i' w' hw') hkey] at hp
        cases hp
    · rwa [hother w'.key hkey]

theorem held_step (hj : Heeds j) {a : Act μ ω} (h : step x j l a = some l')
    (hturn : InTurn ⟨l, a, l'⟩) (hl : Held l) : Held l' := by
  cases takes_of_step h with
  | want hi => exact held_passGoes hl (by simp) (by simp [Phase.between])
  | @list i o s pulls hi hphase hpulls =>
    exact held_passGoes hl (fun hread => ⟨(hl.passes i s hi hread).paused, by simp⟩)
      (by simp [Phase.between])
  | @listFails i o s hi hphase =>
    exact held_passGoes hl (fun hread => ⟨(hl.passes i s hi hread).paused, by simp⟩)
      (by simp [Phase.between])
  | @read i ok s hi hphase =>
    exact held_passGoes hl (quiet_reads hl (hturn s hi)) (fun _ => paused_reads hl (hturn s hi))
  | @recordAnswer i ok s hi hphase =>
    exact held_records hl hi (by rw [hphase]; rfl) (hturn s hi)
      (fun hread => ⟨(hl.passes i s hi hread).paused, by simp⟩) rfl rfl
  | @decide i origin s hi hphase =>
    have hcopy := hl.copies i s hi (by rw [hphase]; rfl)
    refine held_passGoes hl (fun hread => ?_) (fun _ hheld => (quiet_decided hj (hcopy hheld)).1)
    obtain ⟨hpaused, hsilent⟩ := quiet_decided hj (hl.passes i s hi hread).paused
    exact ⟨hpaused, hsilent⟩
  | @call i o s plan files progress progress' f' hi hphase hopen =>
    have hcopy := hl.copies i s hi (by rw [hphase]; rfl)
    have hgoes : Held (passGoes l i
        { s with
          stored := (proposed s.stored plan files progress').1
          phase := (proposed s.stored plan files progress').2 }) := by
      refine held_passGoes hl (fun hread => ?_) (fun _ hheld => ?_)
      · -- a pass that read a held source's memory is not here
        exact absurd hphase ((hl.passes i s hi hread).proposes _ _ _)
      · exact (paused_proposed s.stored plan files progress').trans (hcopy hheld)
    refine ⟨hgoes.rows, fun i' s' hi' hread => ?_, fun i' s' hi' hb hheld => ?_, hgoes.switches,
      hgoes.resumes⟩
    · rcases passes_passGoes hi' with ⟨rfl, rfl⟩ | ⟨-, hi'⟩
      · exact absurd hphase ((hl.passes i' s hi hread).proposes _ _ _)
      · exact hl.passes i' s' hi' hread
    · rcases passes_passGoes hi' with ⟨rfl, rfl⟩ | ⟨-, hi'⟩
      · exact (paused_proposed s.stored plan files progress').trans (hcopy hheld)
      · exact hl.copies i' s' hi' hb hheld
  | @record i ok s hi hphase =>
    exact held_records hl hi (by rw [hphase]; rfl) (hturn s hi)
      (fun hread => ⟨(hl.passes i s hi hread).paused, by simp⟩) rfl rfl
  | @pause i key paused ok hi =>
    obtain rfl : ok = true := hturn
    exact held_pause hl
  | @write i ok w hi => exact held_write hl hi (hturn w hi).1 (hturn w hi).2
  | review => exact ⟨hl.rows, hl.passes, hl.copies, hl.switches, hl.resumes⟩
  | touch => exact ⟨hl.rows, hl.passes, hl.copies, hl.switches, hl.resumes⟩
  | others => exact ⟨hl.rows, hl.passes, hl.copies, hl.switches, hl.resumes⟩

theorem held_of_starts (h : Starts l) : Held l := by
  refine ⟨fun key hkey => ?_, fun i s hi => ?_, fun i s hi => ?_, fun i w hi => ?_, fun i w hi => ?_⟩
  · rw [h.held] at hkey
    cases hkey
  · rw [h.passes] at hi
    cases hi
  · rw [h.passes] at hi
    cases hi
  · rw [h.switches] at hi
    cases hi
  · rw [h.switches] at hi
    cases hi

theorem silent_step {a : Act μ ω} (h : step x j l a = some l') (hl : Held l) :
    Silent (⟨l, a, l'⟩ : Moment μ ω) := by
  intro i o s hact hi
  cases hread : s.readHeld with
  | false => rfl
  | true =>
    have hact' : a = .call i o := hact
    subst hact'
    cases takes_of_step h with
    | call hi' hphase hopen =>
      obtain rfl := Option.some.inj (hi.symm.trans hi')
      exact absurd hphase ((hl.passes i s hi hread).proposes _ _ _)

theorem spares_step {a : Act μ ω} (h : step x j l a = some l') (hl : Held l) :
    Spares (⟨l, a, l'⟩ : Moment μ ω) := by
  intro i ok hact key
  have hact' : a = .write i ok := hact
  subst hact'
  cases takes_of_step h with
  | @write _ _ w hi =>
    have hrow := rows_put (l := l) w.key
      { w.stored with state := { w.stored.state with paused := w.paused } } w.mark ok key
    show ((put l w.key _ w.mark ok).rows key).recorded = (l.rows key).recorded
    rcases hrow with ⟨hsame, -⟩ | ⟨-, rfl, hwritten, -⟩
    · rw [hsame]
    · rw [hwritten]
      exact hl.switches i w hi

/-- **A paused source stays paused** in every run in turn, the passes that read its memory then propose
nothing, and the switch leaves what the passes recorded. -/
theorem pause_holds (hj : Heeds j) {l₀ : Loop μ} (h₀ : Starts l₀) {tr : List (Moment μ ω)}
    (hr : Run (step x j) l₀ tr l) (hturn : ∀ u ∈ tr, InTurn u) :
    StaysPaused l ∧ ∀ u ∈ tr, Silent u ∧ Spares u := by
  have hheld : ∀ {tr' : List (Moment μ ω)} {l' : Loop μ}, Run (step x j) l₀ tr' l' →
      (∀ u ∈ tr', InTurn u) → Held l' := fun hr' hC =>
    hr'.invariant (C := InTurn) (held_of_starts h₀) (fun _ _ _ h hC hl => held_step hj h hC hl) hC
  refine ⟨(hheld hr hturn).rows, fun u hu => ?_⟩
  obtain ⟨a, b, rfl⟩ := List.append_of_mem hu
  obtain ⟨hbefore, hstep, -⟩ := hr.at
  have hl := hheld hbefore (fun v hv => hturn v (List.mem_append_left _ hv))
  exact ⟨silent_step hstep hl, spares_step hstep hl⟩

/-! ### a source paused between two passes, and during one -/

theorem heeds_byRevision : Heeds byRevision where
  proposes {asked manifest state now origin d} hpoll hpaused := by
    simp only [byRevision, hpaused, Bool.true_or, if_pos, Except.ok.injEq] at hpoll
    rw [← hpoll]
  keeps {asked manifest state now origin d} hpoll := by
    simp only [byRevision] at hpoll
    split at hpoll
    · rw [← Except.ok.inj hpoll]
    · split at hpoll <;> rw [← Except.ok.inj hpoll]

/-- pass `i` reads the memory -/
def beginPass (i : Nat) : List (Act String String) :=
  [.want i regional "regional" true 60 true, .list i .answered, .read i true]

/-- the source is paused, and a pass finds it so -/
def pausedBetween : List (Act String String) :=
  [.pause 0 regional true true, .write 0 true] ++ beginPass 0 ++ [.decide 0 "9f1c0de", .record 0 true]

theorem pause_holds_between :
    StaysPaused (final (step plainly byRevision) unrun pausedBetween) ∧
      ∀ u ∈ trace (step plainly byRevision) unrun pausedBetween, Silent u ∧ Spares u := by
  have hsome : (exec (step plainly byRevision) unrun pausedBetween).isSome := by decide +kernel
  have hturn : ∀ u ∈ trace (step plainly byRevision) unrun pausedBetween, InTurn u := by
    refine forall_trace_cons rfl rfl (forall_trace_cons rfl ?_ (forall_trace_cons rfl trivial
      (forall_trace_cons rfl trivial (forall_trace_cons rfl ?_ (forall_trace_cons rfl trivial
        (forall_trace_cons rfl ?_ (by simp [trace, exec])))))))
    · -- no pass is there, and no other switch
      intro w hw
      refine ⟨fun i' s hs => (by cases hs), fun _ => ⟨by simp, fun i' w' hw' _ => ?_⟩⟩
      rcases update_eq_some hw' with ⟨-, hw'⟩ | ⟨-, hw'⟩
      · exact Option.some.inj hw' ▸ rfl
      · cases hw'
    · intro _ _ _
      rfl
    · -- the pause is written
      intro s _ _ i' w hw
      rcases update_eq_some hw with ⟨-, hw⟩ | ⟨hi, hw⟩
      · cases hw
      · rcases update_eq_some hw with ⟨hi', -⟩ | ⟨-, hw⟩
        · exact absurd hi' hi
        · cases hw
  exact pause_holds heeds_byRevision starts_unrun (run_trace hsome) hturn

/-- the source is paused while its pass is at the origin, which is at the revision observed -/
def pausedDuring : List (Act String String) :=
  beginPass 0 ++ [.pause 0 regional true true, .write 0 true, .decide 0 "9f1c0de", .record 0 true]

def observedLoop : Loop String :=
  { unrun with rows := fun _ => { Stored.fresh with state := ⟨some "9f1c0de", none, none, false⟩ } }

/-- **The pass writes the pause away.** -/
theorem pause_undone :
    ¬ ∀ l tr, Run (step plainly byRevision) observedLoop tr l → StaysPaused l := by
  intro hall
  have hruns : (exec (step plainly byRevision) observedLoop pausedDuring).isSome ∧
      (final (step plainly byRevision) observedLoop pausedDuring).held regional = true ∧
      ((final (step plainly byRevision) observedLoop pausedDuring).rows regional).state.paused
        = false := by
    decide +kernel
  obtain ⟨hsome, hheld, hresumed⟩ := hruns
  have hpaused := hall _ _ (run_trace hsome) regional hheld
  rw [hresumed] at hpaused
  cases hpaused

end Sync
end Portal
