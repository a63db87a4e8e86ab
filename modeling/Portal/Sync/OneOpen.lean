import Portal.Sync.Driver

/-!
# One open proposal per sync source (`sync/driver.rs`: `pass`, `run_one`, `answer`;
`sync/proposal.rs`: `open`; `gitea.rs`: `list_pull_requests`)

A pass looks for the open proposal by the name of its branch in one page of merge requests, listed
before the memory is read; it opens another where the memory says that none is open, and writes the
memory at its end.

* `Polls`               what `jcctl` decides of a source with an open proposal;
* `OneOpen`, `Observed`, `Misses`   the law, of a state and of a step;
* `Orderly`             the forge answers what it does, the page shows the open proposal, and no pass
                        opens or writes over what another is about to record;
* `one_open_proposal`   **the law** in every such run;
* `second_proposal`     a merge request whose opening was not answered stays open beside the next.
-/

namespace Portal
namespace Sync

variable {μ ω : Type}

/-- what `jcctl` decides: it proposes where nothing is open, what it proposes is recorded as open unless
the gates refuse it, and what is observed stays -/
structure Polls (j : Jcctl μ ω) : Prop where
  proposes : ∀ {asked manifest state now origin d plan},
    j.poll asked manifest state now origin = .ok d → d.proposal = some plan → state.openProposal = none
  observes : ∀ {asked manifest state now origin d},
    j.poll asked manifest state now origin = .ok d → d.state.observedRevision = state.observedRevision
  opens : ∀ {asked manifest state now origin d plan},
    j.poll asked manifest state now origin = .ok d → d.proposal = some plan → plan.rejected = [] →
      d.state.openProposal = some plan.name
  leaves : ∀ {asked manifest state now origin d},
    j.poll asked manifest state now origin = .ok d →
      (∀ plan, d.proposal = some plan → plan.rejected ≠ []) →
      d.state.openProposal = state.openProposal

/-- **At most one merge request of a source is open.** -/
def OneOpen (l : Loop μ) : Prop :=
  ∀ e ∈ l.entries, ∀ e' ∈ l.entries, e.key = e'.key → Live l.forge e.number →
    Live l.forge e'.number → e.number = e'.number

/-- a revision of the source whose merge request was merged or closed -/
def Answered (l : Loop μ) (key : Key) (revision : String) : Prop :=
  ∃ e ∈ l.entries, e.key = key ∧ e.revision = revision ∧ Shut l.forge e.number

/-- **What is observed is a revision whose merge request was merged or closed.** -/
def Observed (l : Loop μ) : Prop :=
  ∀ key revision, (l.rows key).state.observedRevision = some revision → Answered l key revision

/-- the pass takes the proposal it reads of for one that vanished -/
def Misses (l : Loop μ) (s : Pass μ) (ok : Bool) : Prop :=
  ∃ branch, (get l s.key ok).state.openProposal = some branch ∧
    s.pulls.find? (fun pull => pull.headBranch = branch) = none

/-- **A source whose proposal is open is not taken for one whose proposal vanished.** -/
def Finds (u : Moment μ ω) : Prop :=
  ∀ i ok s, u.act = .read i ok → u.before.passes i = some s → Misses u.before s ok →
    ∀ e ∈ u.before.entries, e.key = s.key → ¬ Live u.before.forge e.number

/-- the page shows an open proposal, and shows first of its branch what is open or the proposal -/
def Shows (l : Loop μ) (pulls : List Pull) (e : Entry) : Prop :=
  (Live l.forge e.number → ∃ pull ∈ pulls, pull.number = e.number) ∧
    ∀ pull, pulls.find? (fun pull => pull.headBranch = e.branch) = some pull →
      pull.state = .opened ∨ pull.number = e.number

/-- no pass of the source has a merge request it is yet to record -/
def NoneHeld (l : Loop μ) (key : Key) : Prop :=
  ∀ i s, l.passes i = some s → s.key = key → s.holding = none

/-- what the steps of an orderly run meet -/
structure Orderly (x : Outside) (u : Moment μ ω) : Prop where
  /-- the opening of a merge request is answered -/
  answers : ∀ i e s plan files openNow, u.act = .call i (.lost e) → u.before.passes i = some s →
    s.phase ≠ .proposing plan files (.requesting openNow)
  /-- a merge request that merges itself is merged -/
  merges : ∀ i o s plan files pull, u.act = .call i o → u.before.passes i = some s →
    s.phase = .proposing plan files (.merging pull) →
    Shut (call u.before.forge (mergePull x u.before.forge pull.number) o).1 pull.number
  /-- a pass opens or takes up a merge request where the memory records the proposal it found, and no
  other pass of the source has one to record -/
  opens : ∀ i o s, u.act = .call i o → u.before.passes i = some s →
    u.after.entries ≠ u.before.entries →
    u.before.marks s.key = s.found ∧ NoneHeld u.before s.key
  /-- a pass that reads of a proposal was shown it, and no other pass has one to record -/
  reads : ∀ i ok s e, u.act = .read i ok → u.before.passes i = some s →
    u.before.marks s.key = some e → ok = true ∧ Shows u.before s.pulls e ∧
      (Misses u.before s ok → NoneHeld u.before s.key)
  /-- a pass writes a memory that records the proposal it found, or none when it has one to record -/
  writes : ∀ i ok s, u.act = .recordAnswer i ok ∨ u.act = .record i ok →
    u.before.passes i = some s → ok = true → u.before.marks s.key = s.found ∨
      (u.before.marks s.key = none ∧ s.holding ≠ none)
  /-- the record of an open merge request is written -/
  records : ∀ i s e, u.act = .record i false → u.before.passes i = some s → s.holding = some e →
    ¬ Live u.before.forge e.number
  /-- a switch writes over what it read -/
  switches : ∀ i w, u.act = .write i true → u.before.switches i = some w →
    u.before.marks w.key = w.mark ∧ w.stored.state.observedRevision
      = (u.before.rows w.key).state.observedRevision ∧ w.stored.state.openProposal
      = (u.before.rows w.key).state.openProposal ∧ w.stored.openRevision
      = (u.before.rows w.key).openRevision

/-! ## the books -/

/-- a copy of a memory records this proposal of the source -/
def Records (l : Loop μ) (key : Key) (stored : Stored) : Option Entry → Prop
  | none => stored.state.openProposal = none
  | some e => stored.state.openProposal = some e.branch ∧ stored.openRevision = some e.revision ∧
      e.key = key ∧ e ∈ l.entries

def Observes (l : Loop μ) (key : Key) (stored : Stored) : Prop :=
  ∀ revision, stored.state.observedRevision = some revision → Answered l key revision

def Known (f : Forge) (pull : Pull) : Prop := ∃ later ∈ f.pulls, pull.Becomes later

/-- the merge request a pass has in its hands, of this plan -/
def Pass.Holds (s : Pass μ) (plan : Plan) (pull : Pull) (e : Entry) : Prop :=
  s.holding = some e ∧ s.mark = some e ∧ e.number = pull.number ∧ e.branch = plan.name ∧
    e.revision = plan.revision ∧ e.key = s.key

structure PassBooks (l : Loop μ) (s : Pass μ) : Prop where
  shown : ∀ pull ∈ s.pulls, Known l.forge pull
  observes : Observes l s.key s.stored
  /-- before and after its proposal, the copy records what its mark says -/
  records : (∀ plan files progress, s.phase ≠ .proposing plan files progress) → s.phase ≠ .ended →
    Records l s.key s.stored s.mark
  /-- while nothing is opened, nothing is recorded -/
  proposes : ∀ plan files progress, s.phase = .proposing plan files progress →
    s.stored.state.openProposal = some plan.name ∧ (∀ pull ∈ progress.listed, Known l.forge pull) ∧
    (progress.pull? = none → s.mark = none ∧ s.holding = none) ∧
    (∀ pull, progress.pull? = some pull → ∃ e, s.Holds plan pull e) ∧
    (∀ e, progress ≠ .failed e) ∧ (∀ pull, progress ≠ .opened pull)
  /-- what it holds it records, or it is answered -/
  holds : ∀ e, s.holding = some e → e ∈ l.entries ∧ e.key = s.key ∧
    ((∃ plan files progress, s.phase = .proposing plan files progress) ∨
      s.phase = .recording ∧ (s.mark = some e ∨ Shut l.forge e.number))
  /-- what it found it records still, or it is answered -/
  found : ∀ e, s.found = some e → s.mark = some e ∨ Shut l.forge e.number
  kept : s.holding = none → s.phase ≠ .ended → s.mark = none ∨ s.mark = s.found
  answers : s.phase = .answering → s.mark = none
  early : s.phase = .wanted ∨ s.phase = .listed → s.holding = none ∧ s.found = none ∧ s.mark = none

/-- **The books**: every open merge request of a source is the one its memory records or the one its one
pass holds. -/
structure Books (l : Loop μ) : Prop where
  numbered : Numbered l.forge
  entries : ∀ e ∈ l.entries, ∃ pull ∈ l.forge.pulls, pull.number = e.number ∧ pull.headBranch = e.branch
  rows : ∀ key, Records l key (l.rows key) (l.marks key)
  observed : Observed l
  passes : ∀ i s, l.passes i = some s → PassBooks l s
  opened : ∀ e ∈ l.entries, Live l.forge e.number →
    (∃ e', l.marks e.key = some e' ∧ e'.number = e.number) ∨
      ∃ i s e', l.passes i = some s ∧ s.key = e.key ∧ s.holding = some e' ∧ e'.number = e.number
  one : ∀ i i' s s' , l.passes i = some s → l.passes i' = some s' → s.key = s'.key →
    s.holding ≠ none → s'.holding ≠ none → i = i'
  free : ∀ i s e, l.passes i = some s → s.holding ≠ none → l.marks s.key = some e →
    Shut l.forge e.number

variable {x : Outside} {j : Jcctl μ ω} {l l' : Loop μ} {i : Nat} {s s' : Pass μ}

/-! ## what stays in the books -/

theorem Answered.mono {key : Key} {revision : String} (h : Answered l key revision)
    (hgrows : Grows l.forge l'.forge) (hentries : l.entries ⊆ l'.entries) :
    Answered l' key revision := by
  obtain ⟨e, he, hkey, hrevision, hshut⟩ := h
  exact ⟨e, hentries he, hkey, hrevision, hgrows.shut hshut⟩

theorem Records.mono {key : Key} {stored : Stored} {mark : Option Entry}
    (h : Records l key stored mark) (hentries : l.entries ⊆ l'.entries) :
    Records l' key stored mark := by
  cases mark with
  | none => exact h
  | some e => exact ⟨h.1, h.2.1, h.2.2.1, hentries h.2.2.2⟩

theorem Known.mono {f f' : Forge} {pull : Pull} (h : Known f pull) (hgrows : Grows f f') :
    Known f' pull := by
  obtain ⟨q, hq, hbecomes⟩ := h
  obtain ⟨q', hq', hbecomes'⟩ := hgrows.pulls q hq
  exact ⟨q', hq', hbecomes.trans hbecomes'⟩

theorem known_of_mem {f : Forge} {pull : Pull} (h : pull ∈ f.pulls) : Known f pull :=
  ⟨pull, h, .refl pull⟩

theorem PassBooks.mono (h : PassBooks l s) (hgrows : Grows l.forge l'.forge)
    (hentries : l.entries ⊆ l'.entries) : PassBooks l' s where
  shown pull hpull := (h.shown pull hpull).mono hgrows
  observes revision hr := (h.observes revision hr).mono hgrows hentries
  records hphase hended := (h.records hphase hended).mono hentries
  proposes plan files progress hphase := by
    obtain ⟨hopen, hlisted, hrest⟩ := h.proposes plan files progress hphase
    exact ⟨hopen, fun pull hpull => (hlisted pull hpull).mono hgrows, hrest⟩
  holds e he := by
    obtain ⟨hmem, hkey, hphase⟩ := h.holds e he
    exact ⟨hentries hmem, hkey, hphase.imp_right
      (fun hr => ⟨hr.1, hr.2.imp_right (fun hshut => hgrows.shut hshut)⟩)⟩
  found e he := (h.found e he).imp_right (fun hshut => hgrows.shut hshut)
  kept := h.kept
  answers := h.answers
  early := h.early

theorem Books.goes (hb : Books l) (hi : ∀ s₀, l.passes i = some s₀ → s₀.key = s.key ∧ s₀.holding = s.holding)
    (hfree : l.passes i = none → s.holding = none) (hs : PassBooks l s) : Books (passGoes l i s) := by
  have hsame : PassBooks (passGoes l i s) s := hs.mono (.refl _) (List.Subset.refl _)
  -- who holds something after the step held it before
  have hheld : ∀ {i' s'}, (passGoes l i s).passes i' = some s' → s'.holding ≠ none →
      ∃ s₀, l.passes i' = some s₀ ∧ s₀.key = s'.key ∧ s₀.holding = s'.holding := by
    intro i' s' hi' hne
    rcases passes_passGoes hi' with ⟨rfl, rfl⟩ | ⟨-, hi'⟩
    · cases hpass : l.passes i' with
      | none => exact absurd (hfree hpass) hne
      | some s₀ => exact ⟨s₀, rfl, (hi s₀ hpass).1, (hi s₀ hpass).2⟩
    · exact ⟨s', hi', rfl, rfl⟩
  refine ⟨hb.numbered, hb.entries, fun key => (hb.rows key).mono (List.Subset.refl _),
    fun key revision hr => (hb.observed key revision hr).mono (.refl _) (List.Subset.refl _),
    fun i' s' hi' => ?_, fun e he hlive => ?_, fun i₁ i₂ s₁ s₂ h₁ h₂ hkey hne₁ hne₂ => ?_,
    fun i' s' e hi' hne he => ?_⟩
  · rcases passes_passGoes hi' with ⟨rfl, rfl⟩ | ⟨-, hi'⟩
    · exact hsame
    · exact (hb.passes i' s' hi').mono (.refl _) (List.Subset.refl _)
  · refine (hb.opened e he hlive).imp_right (fun ⟨i', s', e', hi', hkey, hholding, hnumber⟩ => ?_)
    by_cases hii : i' = i
    · subst hii
      obtain ⟨hkey', hholding'⟩ := hi s' hi'
      exact ⟨i', s, e', Function.update_self .., hkey' ▸ hkey, hholding' ▸ hholding, hnumber⟩
    · exact ⟨i', s', e', (Function.update_of_ne hii ..).trans hi', hkey, hholding, hnumber⟩
  · obtain ⟨t₁, ht₁, hk₁, hh₁⟩ := hheld h₁ hne₁
    obtain ⟨t₂, ht₂, hk₂, hh₂⟩ := hheld h₂ hne₂
    exact hb.one i₁ i₂ t₁ t₂ ht₁ ht₂ (hk₁.trans (hkey.trans hk₂.symm)) (hh₁ ▸ hne₁) (hh₂ ▸ hne₂)
  · obtain ⟨t, ht, hk, hh⟩ := hheld hi' hne
    exact hb.free i' t e ht (hh ▸ hne) (hk ▸ he)

theorem Books.goesOn (hb : Books l) (hi : l.passes i = some s) (hkey : s'.key = s.key)
    (hholding : s'.holding = s.holding) (hs' : PassBooks l s') : Books (passGoes l i s') := by
  refine hb.goes (fun s₀ h₀ => ?_) (fun hnone => ?_) hs'
  · obtain rfl := Option.some.inj (hi.symm.trans h₀)
    exact ⟨hkey.symm, hholding.symm⟩
  · rw [hi] at hnone
    cases hnone

theorem Books.grows (hb : Books l) {f' : Forge} (hgrows : Grows l.forge f') :
    Books { l with forge := f' } where
  numbered := hgrows.numbered hb.numbered
  entries e he := by
    obtain ⟨p, hp, hnumber, hbranch⟩ := hb.entries e he
    obtain ⟨q, hq, hbecomes⟩ := hgrows.pulls p hp
    exact ⟨q, hq, hbecomes.number.trans hnumber, hbecomes.headBranch.trans hbranch⟩
  rows key := (hb.rows key).mono (List.Subset.refl _)
  observed key revision hr := (hb.observed key revision hr).mono hgrows (List.Subset.refl _)
  passes i s hi := (hb.passes i s hi).mono hgrows (List.Subset.refl _)
  opened e he hlive := by
    obtain ⟨p, hp, hnumber, -⟩ := hb.entries e he
    exact hb.opened e he (hnumber ▸ hgrows.live hb.numbered hp (hnumber ▸ hlive))
  one := hb.one
  free i s e hi hne he := hgrows.shut (hb.free i s e hi hne he)

/-- a memory is written that loses no open merge request from its books -/
theorem Books.put (hb : Books l) {key : Key} {stored : Stored} {mark : Option Entry} {ok : Bool}
    (hrecords : Records l key stored mark) (hobserves : Observes l key stored)
    (hlives : ok = true → ∀ e, l.marks key = some e → mark = some e ∨ Shut l.forge e.number)
    (hkept : ok = true → mark = none ∨ mark = l.marks key) : Books (put l key stored mark ok) := by
  have hrows := rows_put (l := l) key stored mark ok
  refine ⟨by simpa using hb.numbered, by simpa using hb.entries, fun k => ?_, fun k revision hr => ?_,
    fun i s hi => ?_, fun e he hlive => ?_, by simpa using hb.one, fun i s e hi hne he => ?_⟩
  · have hmono : Records l k ((Sync.put l key stored mark ok).rows k)
        ((Sync.put l key stored mark ok).marks k) := by
      rcases hrows k with ⟨hrow, hmark⟩ | ⟨-, rfl, hrow, hmark⟩
      · rw [hrow, hmark]
        exact hb.rows k
      · rw [hrow, hmark]
        exact hrecords
    exact hmono.mono (by simp)
  · have hanswered : Answered l k revision := by
      rcases hrows k with ⟨hrow, -⟩ | ⟨-, rfl, hrow, -⟩
      · exact hb.observed k revision (hrow ▸ hr)
      · exact hobserves revision (hrow ▸ hr)
    exact hanswered.mono (by simpa using Grows.refl l.forge) (by simp)
  · exact (hb.passes i s (by simpa using hi)).mono (by simpa using Grows.refl l.forge) (by simp)
  · rw [entries_put] at he
    rw [forge_put] at hlive
    rcases hb.opened e he hlive with ⟨e', hmark, hnumber⟩ | ⟨i, s, e', hi, hrest⟩
    · refine .inl ⟨e', ?_, hnumber⟩
      rcases hrows e.key with ⟨-, hsame⟩ | ⟨hok, hkey, -, hwritten⟩
      · rw [hsame, hmark]
      · rw [hwritten]
        refine (hlives hok e' (hkey ▸ hmark)).resolve_right (fun hshut => ?_)
        rw [hnumber] at hshut
        exact hb.numbered.not_live hshut hlive
    · exact .inr ⟨i, s, e', by simpa using hi, hrest⟩
  · rw [passes_put] at hi
    rw [forge_put]
    rcases hrows s.key with ⟨-, hsame⟩ | ⟨hok, hkey, -, hwritten⟩
    · exact hb.free i s e hi hne (hsame ▸ he)
    · rw [hwritten] at he
      rcases hkept hok with hnone | hsame
      · rw [hnone] at he
        cases he
      · exact hb.free i s e hi hne (by rw [hkey, ← hsame, he])

/-! ## a pass reads a memory -/

theorem shown_listed (hb : Books l) {pull : Pull} {e : Entry} (he : e ∈ l.entries)
    (hknown : Known l.forge pull) (hnumber : pull.number = e.number) :
    pull.headBranch = e.branch ∧ (pull.state = .closed → Shut l.forge e.number) := by
  obtain ⟨later, hlater, hbecomes⟩ := hknown
  obtain ⟨q, hq, hqn, hqb⟩ := hb.entries e he
  have hsame : later = q := hb.numbered.eq hlater hq (by rw [hbecomes.number, hnumber, hqn])
  subst hsame
  refine ⟨hbecomes.headBranch.symm.trans hqb, fun hclosed => ?_⟩
  exact ⟨later, hlater, hbecomes.number.trans hnumber, hbecomes.closed hclosed⟩

theorem shut_of_missing (hb : Books l) {e : Entry} (he : e ∈ l.entries) {pulls : List Pull}
    (hknown : ∀ pull ∈ pulls, Known l.forge pull) (hshows : Shows l pulls e)
    (hfind : pulls.find? (fun pull => pull.headBranch = e.branch) = none) : Shut l.forge e.number := by
  obtain ⟨q, hq, hqn, -⟩ := hb.entries e he
  refine (hqn ▸ live_or_shut hq).resolve_left (fun hlive => ?_)
  obtain ⟨pull, hpull, hnumber⟩ := hshows.1 hlive
  have hbranch := (shown_listed hb he (hknown pull hpull) hnumber).1
  have hnot := List.find?_eq_none.mp hfind pull hpull
  exact hnot (by simpa using hbranch)

theorem passBooks_read (hs : PassBooks l s) (hholding : s.holding = none) {ok : Bool}
    {flag : Option String} {stored : Stored} {mark : Option Entry}
    (hanswer : answer (get l s.key ok) s.pulls = (flag, stored)) (hobserves : Observes l s.key stored)
    (hmark : (if stored.state.openProposal = none then none else getMark l s.key ok) = mark)
    (hrecords : Records l s.key stored mark)
    (hfound : ∀ e, getMark l s.key ok = some e → mark = some e ∨ Shut l.forge e.number)
    (hanswers : flag.isSome = true → mark = none) : PassBooks l (readsRow l s ok) := by
  have hkept : mark = none ∨ mark = getMark l s.key ok := by
    rw [← hmark]
    split
    · exact .inl rfl
    · exact .inr rfl
  unfold readsRow
  rw [hanswer]
  dsimp only
  rw [hmark]
  exact {
    shown := hs.shown
    observes := hobserves
    records := fun _ _ => hrecords
    proposes := fun plan files progress hphase => by
      dsimp only at hphase
      split at hphase <;> cases hphase
    holds := fun e he => by
      have hnone : s.holding = some e := he
      rw [hholding] at hnone
      cases hnone
    found := hfound
    kept := fun _ _ => hkept
    answers := fun hphase => by
      dsimp only at hphase
      split at hphase
      · rename_i hflag
        exact hanswers hflag
      · cases hphase
    early := fun hphase => by
      dsimp only at hphase
      split at hphase <;> rcases hphase with hphase | hphase <;> cases hphase }

theorem passBooks_reads (hb : Books l) (hs : PassBooks l s) (hphase : s.phase = .listed) {ok : Bool}
    (hreads : ∀ e, l.marks s.key = some e → ok = true ∧ Shows l s.pulls e) :
    PassBooks l (readsRow l s ok) := by
  have hholding := (hs.early (.inr hphase)).1
  have hrow := hb.rows s.key
  have hobserves : Observes l s.key (get l s.key ok) := by
    intro revision hr
    unfold get at hr
    split at hr
    · exact hb.observed s.key revision hr
    · cases hr
  cases hmark : getMark l s.key ok with
  | none =>
    have hnone : (get l s.key ok).state.openProposal = none := by
      unfold get
      unfold getMark at hmark
      split
      · rename_i hok
        rw [if_pos hok] at hmark
        rw [hmark] at hrow
        exact hrow
      · rfl
    exact passBooks_read hs hholding (answer_of_none hnone) hobserves (if_pos hnone) hnone
      (by simp [hmark]) (fun _ => rfl)
  | some e =>
    have hmarks : l.marks s.key = some e := by
      unfold getMark at hmark
      split at hmark
      · exact hmark
      · cases hmark
    obtain ⟨hok, hshows⟩ := hreads e hmarks
    rw [hmarks] at hrow
    obtain ⟨hopen, hrevision, hkey, he⟩ := hrow
    have hget : get l s.key ok = l.rows s.key := if_pos hok
    rw [← hget] at hopen hrevision
    have hanswered : Shut l.forge e.number → ∀ e', getMark l s.key ok = some e' →
        (none : Option Entry) = some e' ∨ Shut l.forge e'.number := by
      intro hshut e' he'
      rw [hmark] at he'
      exact .inr (Option.some.inj he' ▸ hshut)
    cases hfind : s.pulls.find? (fun pull => pull.headBranch = e.branch) with
    | none =>
      have hshut := shut_of_missing hb he hs.shown hshows hfind
      exact passBooks_read hs hholding (answer_of_missing hopen hfind) hobserves (if_pos rfl) rfl
        (hanswered hshut) (fun _ => rfl)
    | some pull =>
      cases hstate : pull.state with
      | opened =>
        -- the proposal waits for its answer
        refine passBooks_read hs hholding (answer_of_opened hopen hfind hstate) hobserves
          ((if_neg (by simp [hopen])).trans hmark) ⟨hopen, hrevision, hkey, he⟩ (fun e' he' => ?_) (by simp)
        exact .inl (hmark.symm.trans he')
      | closed =>
        have hnumber : pull.number = e.number :=
          (hshows.2 pull hfind).resolve_left (by simp [hstate])
        have hknown := hs.shown pull (List.mem_of_find?_eq_some hfind)
        have hshut := (shown_listed hb he hknown hnumber).2 hstate
        refine passBooks_read hs hholding (answer_of_closed hopen hfind hstate)
          (fun revision hr => ?_) (if_pos rfl) rfl (hanswered hshut) (fun _ => rfl)
        have hsame : some e.revision = some revision := hrevision.symm.trans hr
        exact ⟨e, he, hkey, Option.some.inj hsame, hshut⟩

/-! ## a pass decides, and records -/

theorem PassBooks.holding_none (hs : PassBooks l s)
    (hproposing : ∀ plan files progress, s.phase ≠ .proposing plan files progress)
    (hrecording : s.phase ≠ .recording) : s.holding = none := by
  cases hholding : s.holding with
  | none => rfl
  | some e =>
    rcases (hs.holds e hholding).2.2 with ⟨plan, files, progress, hphase⟩ | ⟨hphase, -⟩
    · exact absurd hphase (hproposing plan files progress)
    · exact absurd hphase hrecording

/-- a pass with nothing in its hands has its memory to write, or is done -/
theorem PassBooks.settles (hs : PassBooks l s) (hbefore : s.phase ≠ .ended)
    (hholding : s.holding = none) {stored : Stored} {phase : Phase} (hphase : phase = .recording ∨ phase = .ended) (hobserves : Observes l s.key stored)
    (hrecords : phase = .recording → Records l s.key stored s.mark) :
    PassBooks l { s with stored, phase } where
  shown := hs.shown
  observes := hobserves
  records _ hended := hrecords (hphase.resolve_right hended)
  proposes plan files progress heq := by
    have heq' : phase = .proposing plan files progress := heq
    rcases hphase with hphase | hphase <;> rw [hphase] at heq' <;> cases heq'
  holds e he := by
    have hnone : s.holding = some e := he
    rw [hholding] at hnone
    cases hnone
  found := hs.found
  kept hnone _ := hs.kept hnone hbefore
  answers heq := by
    have heq' : phase = .answering := heq
    rcases hphase with hphase | hphase <;> rw [hphase] at heq' <;> cases heq'
  early heq := by
    have heq' : phase = .wanted ∨ phase = .listed := heq
    rcases hphase with hphase | hphase <;> rw [hphase] at heq' <;>
      rcases heq' with heq' | heq' <;> cases heq'

theorem passBooks_decided (hj : Polls j) (hs : PassBooks l s) (hphase : s.phase = .deciding)
    (origin : ω) :
    let d := decided s.stored (j.poll s.asked s.manifest s.stored.state s.now origin)
    PassBooks l { s with stored := d.1, phase := d.2 } := by
  intro d
  have hrecords := hs.records (by simp [hphase]) (by simp [hphase])
  have hholding := hs.holding_none (by simp [hphase]) (by simp [hphase])
  have hended : s.phase ≠ .ended := by simp [hphase]
  have hd : d = decided s.stored (j.poll s.asked s.manifest s.stored.state s.now origin) := rfl
  cases hpoll : j.poll s.asked s.manifest s.stored.state s.now origin with
  | error e =>
    rw [hpoll] at hd
    rw [hd]
    refine hs.settles hended hholding (.inl rfl) hs.observes (fun _ => ?_)
    cases hmark : s.mark <;> rw [hmark] at hrecords <;> exact hrecords
  | ok decision =>
    rw [hpoll] at hd
    have hobserves : ∀ stored : Stored, stored.state = decision.state → Observes l s.key stored := by
      intro stored hstate revision hr
      rw [hstate, hj.observes hpoll] at hr
      exact hs.observes revision hr
    have hleaves : (∀ plan, decision.proposal = some plan → plan.rejected ≠ []) →
        ∀ stored : Stored, stored.state = decision.state → stored.openRevision = s.stored.openRevision →
          Records l s.key stored s.mark := by
      intro hrejected stored hstate hrevision
      have hopen := hj.leaves hpoll hrejected
      rw [← hstate] at hopen
      cases hmark : s.mark with
      | none =>
        rw [hmark] at hrecords
        exact hopen.trans hrecords
      | some e =>
        rw [hmark] at hrecords
        exact ⟨hopen.trans hrecords.1, hrevision.trans hrecords.2.1, hrecords.2.2⟩
    cases hproposal : decision.proposal with
    | none =>
      rw [decided_of_none _ hproposal] at hd
      rw [hd]
      exact hs.settles hended hholding (.inl rfl) (hobserves _ rfl)
        (fun _ => hleaves (by simp [hproposal]) _ rfl rfl)
    | some plan =>
      by_cases hrejected : plan.rejected = []
      · -- nothing is open, so nothing is recorded
        have hnone : s.mark = none := by
          have hopen := hj.proposes hpoll hproposal
          cases hmark : s.mark with
          | none => rfl
          | some e =>
            rw [hmark] at hrecords
            rw [hrecords.1] at hopen
            cases hopen
        rw [decided_of_plan _ hproposal hrejected] at hd
        rw [hd]
        cases htexts : plan.texts with
        | none => exact hs.settles hended hholding (.inr rfl) (hobserves _ rfl) (fun h => by cases h)
        | some files =>
          exact {
            shown := hs.shown
            observes := hobserves _ rfl
            records := fun h => absurd rfl (h plan files .naming)
            proposes := fun plan' files' progress heq => by
              obtain ⟨rfl, rfl, rfl⟩ := Phase.proposing.inj heq
              exact ⟨hj.opens hpoll hproposal hrejected, by simp [Progress.listed],
                fun _ => ⟨hnone, hholding⟩, by simp [Progress.pull?], by simp, by simp⟩
            holds := fun e he => by
              have hheld : s.holding = some e := he
              rw [hholding] at hheld
              cases hheld
            found := hs.found
            kept := fun hnone' _ => hs.kept hnone' hended
            answers := fun h => by cases h
            early := fun h => by rcases h with h | h <;> cases h }
      · rw [decided_of_rejected _ hproposal hrejected] at hd
        rw [hd]
        refine hs.settles hended hholding (.inl rfl) (hobserves _ rfl) (fun _ => hleaves (fun plan' h => ?_) _ rfl rfl)
        rw [hproposal] at h
        rwa [← Option.some.inj h]

theorem books_recordAnswer (hb : Books l) (hi : l.passes i = some s) (hphase : s.phase = .answering)
    {ok : Bool} (hwrites : ok = true → l.marks s.key = s.found ∨
      (l.marks s.key = none ∧ s.holding ≠ none)) :
    Books (put (passGoes l i { s with phase := .deciding, found := if ok then s.mark else s.found })
      s.key s.stored s.mark ok) := by
  have hs := hb.passes i s hi
  have hmark := hs.answers hphase
  have hholding := hs.holding_none (by simp [hphase]) (by simp [hphase])
  have hrecords := hs.records (by simp [hphase]) (by simp [hphase])
  have hgoes : PassBooks l { s with phase := .deciding, found := if ok then s.mark else s.found } :=
    { shown := hs.shown
      observes := hs.observes
      records := fun _ _ => hrecords
      proposes := fun plan files progress h => by cases h
      holds := fun e he => by
        have hheld : s.holding = some e := he
        rw [hholding] at hheld
        cases hheld
      found := fun e he => by
        dsimp only at he
        split at he
        · exact .inl he
        · exact hs.found e he
      kept := fun _ _ => .inl hmark
      answers := fun h => by cases h
      early := fun h => by rcases h with h | h <;> cases h }
  have hbooks : Books (passGoes l i
      { s with phase := .deciding, found := if ok then s.mark else s.found }) := by
    refine hb.goesOn hi ?_ ?_ hgoes <;> rfl
  refine hbooks.put (hrecords.mono (List.Subset.refl _))
    (fun revision hr => (hs.observes revision hr).mono (.refl _) (List.Subset.refl _))
    (fun hok e he => ?_) (fun _ => .inl hmark)
  rcases hwrites hok with hfound | ⟨-, hheld⟩
  · have hfound' : s.found = some e := hfound.symm.trans he
    exact hs.found e hfound'
  · exact absurd hholding hheld

theorem PassBooks.ends (hs : PassBooks l s) :
    PassBooks l { s with phase := .ended, holding := none } where
  shown := hs.shown
  observes := hs.observes
  records _ hended := absurd rfl hended
  proposes plan files progress h := by cases h
  holds e he := by cases he
  found := hs.found
  kept _ hended := absurd rfl hended
  answers h := by cases h
  early h := by rcases h with h | h <;> cases h

theorem books_recordHeld (hb : Books l) (hi : l.passes i = some s) (hphase : s.phase = .recording)
    {e : Entry} (hholding : s.holding = some e) {ok : Bool}
    (hlives : ok = false → ¬ Live l.forge e.number) :
    Books (put (passGoes l i { s with phase := .ended, holding := none }) s.key s.stored s.mark ok) := by
  have hs := hb.passes i s hi
  have hrecords := hs.records (by simp [hphase]) (by simp [hphase])
  have hmark : s.mark = some e ∨ Shut l.forge e.number := by
    rcases (hs.holds e hholding).2.2 with ⟨plan, files, progress, hproposing⟩ | ⟨-, hmark⟩
    · rw [hphase] at hproposing
      cases hproposing
    · exact hmark
  have hne : s.holding ≠ none := by simp [hholding]
  have hrows := rows_put (l := passGoes l i { s with phase := .ended, holding := none })
    s.key s.stored s.mark ok
  -- the others of the source hold nothing
  have hothers : ∀ {i' s'}, (passGoes l i { s with phase := .ended, holding := none }).passes i' = some s' →
      s'.holding ≠ none → l.passes i' = some s' ∧ s'.key ≠ s.key := by
    intro i' s' hi' hne'
    rcases passes_passGoes hi' with ⟨rfl, rfl⟩ | ⟨hii, hi'⟩
    · exact absurd rfl hne'
    · exact ⟨hi', fun hkey => hii (hb.one i' i s' s hi' hi hkey hne' hne)⟩
  refine ⟨by rw [forge_put]; exact hb.numbered, by rw [entries_put, forge_put]; exact hb.entries,
    fun k => ?_, fun k revision hr => ?_, fun i' s' hi' => ?_, fun e₂ he₂ hlive => ?_,
    fun i₁ i₂ s₁ s₂ h₁ h₂ hkey hne₁ hne₂ => ?_, fun i' s' e' hi' hne' he' => ?_⟩
  · have hmono : Records l k ((put (passGoes l i { s with phase := .ended, holding := none }) s.key
        s.stored s.mark ok).rows k) ((put (passGoes l i { s with phase := .ended, holding := none })
        s.key s.stored s.mark ok).marks k) := by
      rcases hrows k with ⟨hrow, hsame⟩ | ⟨-, rfl, hrow, hwritten⟩
      · rw [hrow, hsame]
        exact hb.rows k
      · rw [hrow, hwritten]
        exact hrecords
    refine hmono.mono ?_
    rw [entries_put]
    exact List.Subset.refl _
  · have hanswered : Answered l k revision := by
      rcases hrows k with ⟨hrow, -⟩ | ⟨-, rfl, hrow, -⟩
      · exact hb.observed k revision (hrow ▸ hr)
      · exact hs.observes revision (hrow ▸ hr)
    refine hanswered.mono ?_ ?_
    · rw [forge_put]
      exact .refl _
    · rw [entries_put]
      exact List.Subset.refl _
  · have hbooks : PassBooks l s' := by
      rcases passes_passGoes (by rwa [passes_put] at hi') with ⟨rfl, rfl⟩ | ⟨-, hi'⟩
      · exact hs.ends
      · exact hb.passes i' s' hi'
    refine hbooks.mono ?_ ?_
    · rw [forge_put]
      exact .refl _
    · rw [entries_put]
      exact List.Subset.refl _
  · have he₂' : e₂ ∈ l.entries := by rwa [entries_put] at he₂
    have hlive' : Live l.forge e₂.number := by rwa [forge_put] at hlive
    have hcases := hb.opened e₂ he₂' hlive'
    by_cases hkey : e₂.key = s.key
    · rcases hcases with ⟨e', hmarks, hnumber⟩ | ⟨i', s', e', hi', hkey', hheld, hnumber⟩
      · -- what the memory recorded is answered
        have hshut := hb.free i s e' hi hne (hkey ▸ hmarks)
        rw [hnumber] at hshut
        exact absurd hlive' (hb.numbered.not_live hshut)
      · have hii : i' = i := hb.one i' i s' s hi' hi (hkey'.trans hkey) (by simp [hheld]) hne
        subst hii
        obtain rfl := Option.some.inj (hi.symm.trans hi')
        obtain rfl := Option.some.inj (hholding.symm.trans hheld)
        have hmarked : s.mark = some e := hmark.resolve_right (fun hshut => by
          rw [hnumber] at hshut
          exact hb.numbered.not_live hshut hlive')
        cases ok with
        | false => exact absurd (hnumber ▸ hlive') (hlives rfl)
        | true =>
          refine .inl ⟨e, ?_, hnumber⟩
          rw [hkey, put, if_pos rfl]
          exact (Function.update_self ..).trans hmarked
    · refine hcases.imp (fun ⟨e', hmarks, hnumber⟩ => ⟨e', ?_, hnumber⟩)
        (fun ⟨i', s', e', hi', hkey', hheld, hnumber⟩ => ⟨i', s', e', ?_, hkey', hheld, hnumber⟩)
      · rcases hrows e₂.key with ⟨-, hsame⟩ | ⟨-, hkey', -, -⟩
        · exact hsame.trans hmarks
        · exact absurd hkey' hkey
      · rw [passes_put]
        have hii : i' ≠ i := by
          rintro rfl
          obtain rfl := Option.some.inj (hi.symm.trans hi')
          exact hkey hkey'.symm
        exact (Function.update_of_ne hii ..).trans hi'
  · rw [passes_put] at h₁ h₂
    exact hb.one i₁ i₂ s₁ s₂ (hothers h₁ hne₁).1 (hothers h₂ hne₂).1 hkey hne₁ hne₂
  · rw [passes_put] at hi'
    obtain ⟨hpass, hkey⟩ := hothers hi' hne'
    rw [forge_put]
    rcases hrows s'.key with ⟨-, hsame⟩ | ⟨-, hkey', -, -⟩
    · exact hb.free i' s' e' hpass hne' (hsame.symm.trans he')
    · exact absurd hkey' hkey

theorem books_record (hb : Books l) (hi : l.passes i = some s) (hphase : s.phase = .recording)
    {ok : Bool} (hwrites : ok = true → l.marks s.key = s.found ∨
      (l.marks s.key = none ∧ s.holding ≠ none))
    (hlives : ∀ e, ok = false → s.holding = some e → ¬ Live l.forge e.number) :
    Books (put (passGoes l i { s with phase := .ended, holding := none }) s.key s.stored s.mark ok) := by
  have hs := hb.passes i s hi
  have hrecords := hs.records (by simp [hphase]) (by simp [hphase])
  cases hholding : s.holding with
  | some e => exact books_recordHeld hb hi hphase hholding (fun hok => hlives e hok hholding)
  | none =>
    have hgoes : Books (passGoes l i { s with phase := .ended, holding := none }) := by
      refine hb.goesOn hi ?_ ?_ hs.ends
      · rfl
      · exact hholding.symm
    have hkept := hs.kept hholding (by simp [hphase])
    have hfound : ok = true → l.marks s.key = s.found := fun hok =>
      (hwrites hok).resolve_right (fun h => h.2 hholding)
    refine hgoes.put (hrecords.mono (List.Subset.refl _))
      (fun revision hr => (hs.observes revision hr).mono (.refl _) (List.Subset.refl _))
      (fun hok e he => ?_) (fun hok => ?_)
    · exact hs.found e ((hfound hok).symm.trans he)
    · exact hkept.imp_right (fun h => h.trans (hfound hok).symm)

/-! ## a pass calls the forge -/

variable {plan : Plan} {files : List (String × String)} {progress progress' : Progress} {f' : Forge}

theorem PassBooks.holdsOn (hs : PassBooks l s) (hopen : s.stored.state.openProposal = some plan.name)
    {pull : Pull} {e : Entry} (he : e ∈ l.entries) (hkey : e.key = s.key)
    (hnumber : e.number = pull.number) (hbranch : e.branch = plan.name)
    (hrevision : e.revision = plan.revision)
    (hfound : ∀ e', s.found = some e' → e' = e ∨ Shut l.forge e'.number)
    (hprogress : progress'.pull? = some pull)
    (hmerged : progress' = .opened pull → plan.autoMerge = true → Shut l.forge pull.number) :
    PassBooks l
      { s with
        stored := (proposed s.stored plan files progress').1
        phase := (proposed s.stored plan files progress').2
        mark := if (proposed s.stored plan files progress').1.state.openProposal = none then none
          else some e
        holding := some e } := by
  have hgoes : ∀ progress' : Progress, progress'.pull? = some pull → progress'.listed = [] →
      (∀ e, progress' ≠ .failed e) → (∀ pull, progress' ≠ .opened pull) →
      PassBooks l { s with
        phase := .proposing plan files progress', mark := some e, holding := some e } := by
    intro progress' hpull hlisted hfailed hopened
    exact {
      shown := hs.shown
      observes := hs.observes
      records := fun h => absurd rfl (h plan files progress')
      proposes := fun plan' files' progress'' heq => by
        obtain ⟨rfl, rfl, rfl⟩ := Phase.proposing.inj heq
        refine ⟨hopen, by simp [hlisted], by simp [hpull], fun pull' hpull' => ?_, hfailed, hopened⟩
        obtain rfl := Option.some.inj (hpull.symm.trans hpull')
        exact ⟨e, rfl, rfl, hnumber, hbranch, hrevision, hkey⟩
      holds := fun e' he' => by
        obtain rfl := Option.some.inj he'
        exact ⟨he, hkey, .inl ⟨plan, files, progress', rfl⟩⟩
      found := fun e' he' => (hfound e' he').imp_left (fun h => by rw [h])
      kept := fun h => by cases h
      answers := fun h => by cases h
      early := fun h => by rcases h with h | h <;> cases h }
  have hrecorded : ∀ (stored : Stored) (mark : Option Entry), Observes l s.key stored →
      Records l s.key stored mark → (mark = some e ∨ Shut l.forge e.number) →
      PassBooks l { s with stored, phase := .recording, mark, holding := some e } := by
    intro stored mark hobserves hrecords hmark
    exact {
      shown := hs.shown
      observes := hobserves
      records := fun _ _ => hrecords
      proposes := fun plan' files' progress'' heq => by cases heq
      holds := fun e' he' => by
        obtain rfl := Option.some.inj he'
        exact ⟨he, hkey, .inr ⟨rfl, hmark⟩⟩
      found := fun e' he' => by
        rcases hfound e' he' with rfl | hshut
        · exact hmark
        · exact .inr hshut
      kept := fun h => by cases h
      answers := fun h => by cases h
      early := fun h => by rcases h with h | h <;> cases h }
  cases progress' with
  | closing pull' older rest =>
    have heq := hgoes (.closing pull' older rest) hprogress rfl (by simp) (by simp)
    simpa [proposed, hopen] using heq
  | merging pull' =>
    have heq := hgoes (.merging pull') hprogress rfl (by simp) (by simp)
    simpa [proposed, hopen] using heq
  | opened pull' =>
    obtain rfl : pull' = pull := Option.some.inj hprogress
    by_cases hauto : plan.autoMerge = true
    · -- it merged itself
      have hshut : Shut l.forge e.number := hnumber ▸ hmerged rfl hauto
      have hobserves : Observes l s.key
          (proposed s.stored plan files (.opened pull')).1 := by
        intro revision hr
        simp only [proposed, hauto, if_true] at hr
        exact ⟨e, he, hkey, hrevision.trans (Option.some.inj hr), hshut⟩
      have heq := hrecorded _ none hobserves (by simp [Records, proposed, hauto]) (.inr hshut)
      simpa [proposed, hauto] using heq
    · have hobserves : Observes l s.key (proposed s.stored plan files (.opened pull')).1 := by
        intro revision hr
        simp only [proposed, hauto] at hr
        exact hs.observes revision hr
      have hrecords : Records l s.key (proposed s.stored plan files (.opened pull')).1 (some e) := by
        simp only [proposed, hauto]
        exact ⟨hopen.trans (by rw [hbranch]), by rw [hrevision]; rfl, hkey, he⟩
      have heq := hrecorded _ (some e) hobserves hrecords (.inl rfl)
      simpa [proposed, hauto, hopen] using heq
  | _ => cases hprogress

theorem PassBooks.fails (hs : PassBooks l s) (hphase : s.phase = .proposing plan files progress)
    (hmark : s.mark = none) (hholding : s.holding = none) (e : GitError) :
    PassBooks l
      { s with
        stored := (proposed s.stored plan files (.failed e)).1
        phase := (proposed s.stored plan files (.failed e)).2
        mark := none } := by
  rw [← hmark]
  refine hs.settles (by simp [hphase]) hholding (.inl rfl) (fun revision hr => ?_) (fun _ => ?_)
  · exact hs.observes revision hr
  · rw [hmark]
    rfl

theorem books_takesUp (hb : Books l) (hi : l.passes i = some s)
    (hphase : s.phase = .proposing plan files progress) (hbefore : progress.pull? = none)
    (hmarks : l.marks s.key = s.found) (hnone : NoneHeld l s.key) (hgrows : Grows l.forge f')
    {pull : Pull} (hknown : Known f' pull) (hbranch : pull.headBranch = plan.name) {e : Entry}
    (he : e = ⟨s.key, plan.revision, pull.number, plan.name⟩) (hprogress : progress'.pull? = some pull)
    (hmerged : progress' = .opened pull → plan.autoMerge = false) :
    Books (passGoes { l with forge := f', entries := e :: l.entries } i
      { s with
        stored := (proposed s.stored plan files progress').1
        phase := (proposed s.stored plan files progress').2
        mark := if (proposed s.stored plan files progress').1.state.openProposal = none then none
          else some e
        holding := some e }) := by
  have hs := hb.passes i s hi
  obtain ⟨hopen, -, hfirst, -⟩ := hs.proposes plan files progress hphase
  obtain ⟨hmark, hholding⟩ := hfirst hbefore
  -- what the pass found, and the memory records, is answered
  have hfound : ∀ e', s.found = some e' → Shut l.forge e'.number := by
    intro e' he'
    refine (hs.found e' he').resolve_left (fun h => ?_)
    rw [hmark] at h
    cases h
  have hmono : PassBooks { l with forge := f', entries := e :: l.entries } s :=
    hs.mono hgrows (List.subset_cons_self _ _)
  have hgoes : PassBooks { l with forge := f', entries := e :: l.entries } { s with
      stored := (proposed s.stored plan files progress').1
      phase := (proposed s.stored plan files progress').2
      mark := if (proposed s.stored plan files progress').1.state.openProposal = none then none
        else some e
      holding := some e } :=
    hmono.holdsOn hopen (List.mem_cons_self ..) (by rw [he]) (by rw [he]) (by rw [he]) (by rw [he])
      (fun e' he' => .inr (hgrows.shut (hfound e' he'))) hprogress
      (fun h hauto => by rw [hmerged h] at hauto; cases hauto)
  -- the others hold the merge requests of other sources
  have hothers : ∀ {i' s'}, l.passes i' = some s' → s'.holding ≠ none → s'.key ≠ s.key := by
    intro i' s' hi' hne hkey
    exact hne (hnone i' s' hi' hkey)
  have hheld : ∀ {i' s'} {t : Pass μ}, (passGoes { l with forge := f', entries := e :: l.entries } i t).passes i'
      = some s' → (i' = i ∧ s' = t) ∨ (i' ≠ i ∧ l.passes i' = some s') := fun h => passes_passGoes h
  refine ⟨hgrows.numbered hb.numbered, fun e₂ he₂ => ?_,
    fun key => (hb.rows key).mono (List.subset_cons_self _ _),
    fun key revision hr => (hb.observed key revision hr).mono hgrows (List.subset_cons_self _ _),
    fun i' s' hi' => ?_, fun e₂ he₂ hlive => ?_, fun i₁ i₂ s₁ s₂ h₁ h₂ hkey hne₁ hne₂ => ?_,
    fun i' s' e' hi' hne he' => ?_⟩
  · rcases List.mem_cons.mp he₂ with rfl | he₂
    · obtain ⟨later, hlater, hbecomes⟩ := hknown
      refine ⟨later, hlater, ?_, ?_⟩
      · rw [hbecomes.number, he]
      · rw [hbecomes.headBranch, hbranch, he]
    · obtain ⟨q, hq, hqn, hqb⟩ := hb.entries e₂ he₂
      obtain ⟨later, hlater, hbecomes⟩ := hgrows.pulls q hq
      exact ⟨later, hlater, hbecomes.number.trans hqn, hbecomes.headBranch.trans hqb⟩
  · rcases hheld hi' with ⟨rfl, rfl⟩ | ⟨-, hi'⟩
    · exact hgoes.mono (.refl _) (List.Subset.refl _)
    · exact (hb.passes i' s' hi').mono hgrows (List.subset_cons_self _ _)
  · rcases List.mem_cons.mp he₂ with rfl | he₂
    · exact .inr ⟨i, _, e₂, Function.update_self .., by rw [he], rfl, rfl⟩
    · obtain ⟨q, hq, hqn, -⟩ := hb.entries e₂ he₂
      have hlive' : Live l.forge e₂.number := hqn ▸ hgrows.live hb.numbered hq (hqn ▸ hlive)
      refine (hb.opened e₂ he₂ hlive').imp_right (fun ⟨i', s', e', hi', hkey, hholds, hnumber⟩ => ?_)
      have hii : i' ≠ i := by
        rintro rfl
        rw [Option.some.inj (hi'.symm.trans hi), hholding] at hholds
        cases hholds
      exact ⟨i', s', e', (Function.update_of_ne hii ..).trans hi', hkey, hholds, hnumber⟩
  · rcases hheld h₁ with ⟨rfl, rfl⟩ | ⟨-, hp₁⟩ <;> rcases hheld h₂ with ⟨rfl, rfl⟩ | ⟨-, hp₂⟩
    · rfl
    · exact absurd hkey.symm (hothers hp₂ hne₂)
    · exact absurd hkey (hothers hp₁ hne₁)
    · exact hb.one i₁ i₂ s₁ s₂ hp₁ hp₂ hkey hne₁ hne₂
  · rcases hheld hi' with ⟨rfl, rfl⟩ | ⟨-, hi'⟩
    · exact hgrows.shut (hfound e' (hmarks.symm.trans he'))
    · exact hgrows.shut (hb.free i' s' e' hi' hne he')

theorem takenUp_of_next (hnext : f'.next = l.forge.next) (hbefore : progress.pull? = none) :
    takenUp l.forge f' progress progress' = progress'.pull?.map Pull.number := by
  unfold takenUp
  rw [if_neg (by simp [hnext]), if_pos (by simp [hbefore])]

theorem takenUp_of_at (hnext : f'.next = l.forge.next) {pull : Pull}
    (hbefore : progress.pull? = some pull) : takenUp l.forge f' progress progress' = none := by
  unfold takenUp
  rw [if_neg (by simp [hnext]), if_neg (by simp [hbefore])]

theorem autoMerge_of_closes {p : Proposal} {pull pull' : Pull} {older : List Pull}
    (h : p.closes pull older = .opened pull') : p.autoMerge = false := by
  cases older with
  | cons => cases h
  | nil =>
    have hsettles : p.settles pull = .opened pull' := h
    unfold Proposal.settles at hsettles
    cases hauto : p.autoMerge with
    | false => rfl
    | true =>
      rw [hauto, if_pos rfl] at hsettles
      cases hsettles

theorem PassBooks.goesOn (hs : PassBooks l s) (hphase : s.phase = .proposing plan files progress)
    (hbefore : progress.pull? = none) (hafter : progress'.pull? = none)
    (hlisted : ∀ pull ∈ progress'.listed, Known l.forge pull) :
    PassBooks l
      { s with
        stored := (proposed s.stored plan files progress').1
        phase := (proposed s.stored plan files progress').2
        mark := if (proposed s.stored plan files progress').1.state.openProposal = none then none
          else s.mark } := by
  obtain ⟨hopen, -, hfirst, -⟩ := hs.proposes plan files progress hphase
  obtain ⟨hmark, hholding⟩ := hfirst hbefore
  have hnone : (if (proposed s.stored plan files progress').1.state.openProposal = none then none
      else s.mark) = none := by
    rw [hmark]
    split <;> rfl
  rw [hnone]
  have hgoes : (∀ e, progress' ≠ .failed e) → (∀ pull, progress' ≠ .opened pull) →
      PassBooks l { s with phase := .proposing plan files progress', mark := none } := fun hfailed hopened =>
    { shown := hs.shown
      observes := hs.observes
      records := fun h => absurd rfl (h plan files progress')
      proposes := fun plan' files' progress'' heq => by
        obtain ⟨rfl, rfl, rfl⟩ := Phase.proposing.inj heq
        exact ⟨hopen, hlisted, fun _ => ⟨rfl, hholding⟩, by simp [hafter], hfailed, hopened⟩
      holds := fun e he => by
        have hheld : s.holding = some e := he
        rw [hholding] at hheld
        cases hheld
      found := fun e he => by
        refine .inr ((hs.found e he).resolve_left (fun h => ?_))
        rw [hmark] at h
        cases h
      kept := fun _ _ => .inl rfl
      answers := fun _ => rfl
      early := fun h => by rcases h with h | h <;> cases h }
  cases progress' with
  | failed e => exact hs.fails hphase hmark hholding e
  | opened pull => cases hafter
  | _ => exact hgoes (by simp) (by simp)

theorem books_held (hb : Books l) (hi : l.passes i = some s)
    (hphase : s.phase = .proposing plan files progress) {pull : Pull}
    (hbefore : progress.pull? = some pull) (hgrows : Grows l.forge f') (hafter : progress'.pull? = some pull)
    (hmerged : progress' = .opened pull → plan.autoMerge = true → Shut f' pull.number) :
    Books (passGoes { l with forge := f' } i
      { s with
        stored := (proposed s.stored plan files progress').1
        phase := (proposed s.stored plan files progress').2
        mark := if (proposed s.stored plan files progress').1.state.openProposal = none then none
          else s.mark }) := by
  have hb' := hb.grows hgrows
  have hs := hb'.passes i s hi
  obtain ⟨hopen, -, -, hheld, -⟩ := hs.proposes plan files progress hphase
  obtain ⟨e, hholding, hmark, hnumber, hbranch, hrevision, hkey⟩ := hheld pull hbefore
  have hfound : ∀ e', s.found = some e' → e' = e ∨ Shut f' e'.number := by
    intro e' he'
    refine (hs.found e' he').imp_left (fun h => ?_)
    rw [hmark] at h
    exact (Option.some.inj h).symm
  refine hb'.goesOn hi ?_ ?_ ?_
  · rfl
  · rfl
  · rw [hmark, hholding]
    exact hs.holdsOn hopen (hs.holds e hholding).1 hkey hnumber hbranch hrevision hfound hafter hmerged

/-- a pass whose merge does not happen leaves a merge request that is answered all the same -/
theorem books_unmerged (hb : Books l) (hi : l.passes i = some s)
    (hphase : s.phase = .proposing plan files progress) {pull : Pull}
    (hbefore : progress.pull? = some pull) (hgrows : Grows l.forge f') (hshut : Shut f' pull.number)
    (error : GitError) :
    Books (passGoes { l with forge := f' } i
      { s with
        stored := (proposed s.stored plan files (.failed error)).1
        phase := (proposed s.stored plan files (.failed error)).2
        mark := none }) := by
  have hb' := hb.grows hgrows
  have hs := hb'.passes i s hi
  obtain ⟨hopen, -, -, hheld, -⟩ := hs.proposes plan files progress hphase
  obtain ⟨e, hholding, hmark, hnumber, -⟩ := hheld pull hbefore
  have hshut' : Shut f' e.number := hnumber ▸ hshut
  refine hb'.goesOn hi ?_ ?_ ?_
  · rfl
  · rfl
  · exact {
      shown := hs.shown
      observes := fun revision hr => hs.observes revision hr
      records := fun _ _ => rfl
      proposes := fun plan' files' progress'' heq => by cases heq
      holds := fun e' he' => by
        have hheld' : s.holding = some e' := he'
        obtain rfl := Option.some.inj (hholding.symm.trans hheld')
        exact ⟨(hs.holds e hholding).1, (hs.holds e hholding).2.1, .inr ⟨rfl, .inr hshut'⟩⟩
      found := fun e' he' => by
        refine .inr ((hs.found e' he').elim (fun h => ?_) id)
        rw [hmark] at h
        rwa [← Option.some.inj h]
      kept := fun h => by
        have hnone : s.holding = none := h
        rw [hholding] at hnone
        cases hnone
      answers := fun h => by cases h
      early := fun h => by rcases h with h | h <;> cases h }

theorem books_call (hb : Books l) (hi : l.passes i = some s)
    (hphase : s.phase = .proposing plan files progress) {o : Outcome}
    (hopen : openStep x (plan.proposal files) l.forge progress o = some (f', progress'))
    (hanswers : ∀ e openNow, o = .lost e → progress ≠ .requesting openNow)
    (hmerges : ∀ pull, progress = .merging pull →
      Shut (call l.forge (mergePull x l.forge pull.number) o).1 pull.number)
    (hopens : (afterCall l i s plan files progress progress' f').entries ≠ l.entries →
      l.marks s.key = s.found ∧ NoneHeld l s.key) :
    Books (afterCall l i s plan files progress progress' f') := by
  have hs := hb.passes i s hi
  obtain ⟨-, hlisted, -⟩ := hs.proposes plan files progress hphase
  have hgrows := grows_of_asks (asks_of_openStep hopen)
  cases asks_of_openStep hopen with
  | stays hbefore hafter hpulls hnext hsubset =>
    have htaken : takenUp l.forge f' progress progress' = none := by
      rw [takenUp_of_next hnext hbefore, hafter]
      rfl
    rw [afterCall_of_none htaken]
    have hb' := hb.grows hgrows
    refine hb'.goesOn hi ?_ ?_ ((hb'.passes i s hi).goesOn hphase hbefore hafter fun pull hpull => ?_)
    · rfl
    · rfl
    · rcases List.mem_append.mp (hsubset hpull) with hpull | hpull
      · exact (hlisted pull hpull).mono hgrows
      · exact (known_of_mem hpull).mono hgrows
  | @takes _ _ _ openNow pull hbefore hpulls hnext hpull hbranch =>
    have htaken : takenUp l.forge f' progress ((plan.proposal files).supersedes openNow pull)
        = some pull.number := by
      rw [takenUp_of_next hnext hbefore]
      exact congrArg (Option.map Pull.number) (pull?_closes ..)
    rw [afterCall_of_some htaken] at hopens ⊢
    obtain ⟨hmarks, hnone⟩ := hopens (List.cons_ne_self _ _)
    have hknown : Known f' pull := by
      rcases List.mem_append.mp hpull with hpull | hpull
      · exact (hlisted pull hpull).mono hgrows
      · exact (known_of_mem hpull).mono hgrows
    exact books_takesUp hb hi hphase hbefore hmarks hnone hgrows hknown hbranch rfl (pull?_closes ..)
      (fun h => autoMerge_of_closes h)
  | @creates openNow _ hpulls hnext =>
    have htaken : takenUp l.forge f' (.requesting openNow)
        ((plan.proposal files).supersedes openNow (newPull x l.forge plan.name))
        = some l.forge.next := by
      unfold takenUp
      rw [if_pos (by simp [hnext])]
    rw [show (plan.proposal files).branch = plan.name from rfl] at hopens ⊢
    rw [afterCall_of_some htaken] at hopens ⊢
    obtain ⟨hmarks, hnone⟩ := hopens (List.cons_ne_self _ _)
    have hknown : Known f' (newPull x l.forge plan.name) :=
      known_of_mem (hpulls ▸ List.mem_cons_self ..)
    exact books_takesUp hb hi hphase rfl hmarks hnone hgrows hknown rfl rfl (pull?_closes ..)
      (fun h => autoMerge_of_closes h)
  | forgets => exact absurd rfl (hanswers _ _ rfl)
  | @closes pull older rest _ _ _ hnext =>
    rw [afterCall_of_none (takenUp_of_at hnext rfl)]
    refine books_held hb hi hphase rfl hgrows (pull?_closes ..) (fun h hauto => ?_)
    have hnot : plan.autoMerge = false := autoMerge_of_closes h
    rw [hnot] at hauto
    cases hauto
  | @merges pull hmerged =>
    rw [afterCall_of_none (takenUp_of_at (next_mergePull x l.forge pull.number) rfl)]
    exact books_held hb hi hphase rfl hgrows rfl (fun _ _ => shut_mergePull hmerged)
  | @fails pull _ _ e hf =>
    have hnext : f'.next = l.forge.next := by
      rcases hf with rfl | rfl
      · rfl
      · exact next_mergePull x l.forge pull.number
    have hshut : Shut f' pull.number := by
      have hdone : f' = (call l.forge (mergePull x l.forge pull.number) o).1 := by
        have hf' := (Prod.mk.inj (Option.some.inj hopen)).1
        rw [← hf']
        split <;> rename_i heq <;> rw [heq]
      rw [hdone]
      exact hmerges pull rfl
    rw [afterCall_of_none (takenUp_of_at hnext rfl)]
    exact books_unmerged hb hi hphase rfl hgrows hshut e

/-! ## runs -/

theorem passBooks_wanted (key : Key) (manifest : μ) (asked : Bool) (now : Nat) :
    PassBooks l ⟨key, manifest, asked, now, [], .fresh, .wanted, none, none, none, false⟩ where
  shown pull hpull := by cases hpull
  observes revision hr := by cases hr
  records _ _ := rfl
  proposes plan files progress h := by cases h
  holds e he := by cases he
  found e he := by cases he
  kept _ _ := .inl rfl
  answers _ := rfl
  early _ := ⟨rfl, rfl, rfl⟩

theorem PassBooks.lists (hs : PassBooks l s) (hphase : s.phase = .wanted) {pulls : List Pull}
    {phase : Phase} (hnext : phase = .listed ∨ phase = .ended)
    (hshown : ∀ pull ∈ pulls, Known l.forge pull) : PassBooks l { s with pulls, phase } := by
  obtain ⟨hholding, hfound, hmark⟩ := hs.early (.inl hphase)
  have hrecords := hs.records (by simp [hphase]) (by simp [hphase])
  exact {
    shown := hshown
    observes := hs.observes
    records := fun _ _ => hrecords
    proposes := fun plan files progress h => by
      have h' : phase = .proposing plan files progress := h
      rcases hnext with hnext | hnext <;> rw [hnext] at h' <;> cases h'
    holds := fun e he => by
      have hheld : s.holding = some e := he
      rw [hholding] at hheld
      cases hheld
    found := hs.found
    kept := fun _ _ => .inl hmark
    answers := fun _ => hmark
    early := fun _ => ⟨hholding, hfound, hmark⟩ }

theorem grows_touched (f : Forge) (number : Nat) : Grows f (touched f number) := by
  have hperm : (touched f number).pulls.Perm f.pulls := by
    have hcut := List.filter_append_perm (fun pull : Pull => decide (pull.number = number)) f.pulls
    simpa [touched] using hcut
  refine ⟨fun pull hpull => ⟨pull, hperm.mem_iff.mpr hpull, .refl pull⟩, fun h => ⟨?_, fun pull hpull => ?_⟩⟩
  · exact (hperm.map Pull.number).nodup_iff.mpr h.nodup
  · exact h.lt pull (hperm.mem_iff.mp hpull)

theorem grows_reviewed (x : Outside) (f : Forge) (number : Nat) (merged : Bool) :
    Grows f (reviewed x f number merged) := by
  unfold reviewed
  split
  · exact grows_mergePull x f number
  · exact grows_answerPull rfl rfl

/-- **What one orderly step keeps.** -/
theorem books_step (hj : Polls j) {a : Act μ ω} (h : step x j l a = some l')
    (horderly : Orderly x ⟨l, a, l'⟩) (hb : Books l) : Books l' := by
  cases takes_of_step h with
  | @want i key manifest asked now ok hi =>
    refine hb.goes (fun s₀ h₀ => ?_) (fun _ => rfl) (passBooks_wanted key manifest asked now)
    rw [hi] at h₀
    cases h₀
  | @list i o s pulls hi hphase hpulls =>
    refine hb.goesOn hi ?_ ?_ ((hb.passes i s hi).lists hphase (.inl rfl) (fun pull hpull => ?_))
    · rfl
    · rfl
    · rw [hpulls] at hpull
      exact known_of_mem (List.mem_of_mem_filter (List.mem_of_mem_take hpull))
  | @listFails i o s hi hphase =>
    refine hb.goesOn hi ?_ ?_ ((hb.passes i s hi).lists hphase (.inr rfl) (hb.passes i s hi).shown)
    · rfl
    · rfl
  | @read i ok s hi hphase =>
    refine hb.goesOn hi ?_ ?_ (passBooks_reads hb (hb.passes i s hi) hphase (fun e he => ?_))
    · rfl
    · rfl
    · obtain ⟨hok, hshows, -⟩ := horderly.reads i ok s e rfl hi he
      exact ⟨hok, hshows⟩
  | @recordAnswer i ok s hi hphase =>
    exact books_recordAnswer hb hi hphase (horderly.writes i ok s (.inl rfl) hi)
  | @decide i origin s hi hphase =>
    refine hb.goesOn hi ?_ ?_ (passBooks_decided hj (hb.passes i s hi) hphase origin)
    · rfl
    · rfl
  | @call i o s plan files progress progress' f' hi hphase hopen =>
    refine books_call hb hi hphase hopen (fun e openNow ho hprogress => ?_) (fun pull hprogress => ?_)
      (horderly.opens i o s rfl hi)
    · subst ho
      exact horderly.answers i e s plan files openNow rfl hi (hprogress ▸ hphase)
    · exact horderly.merges i o s plan files pull rfl hi (hprogress ▸ hphase)
  | @record i ok s hi hphase =>
    refine books_record hb hi hphase (horderly.writes i ok s (.inr rfl) hi) (fun e hok hholding => ?_)
    subst hok
    exact horderly.records i s e rfl hi hholding
  | pause hi =>
    exact ⟨hb.numbered, hb.entries, hb.rows, hb.observed,
      fun i s hi => (hb.passes i s hi).mono (.refl _) (List.Subset.refl _), hb.opened, hb.one, hb.free⟩
  | @write i ok w hi =>
    have hput : Books (put l w.key
        { w.stored with state := { w.stored.state with paused := w.paused } } w.mark ok) := by
      cases ok with
      | false => exact hb
      | true =>
        obtain ⟨hmark, hobserved, hopen, hrevision⟩ := horderly.switches i w rfl hi
        have hrow := hb.rows w.key
        refine hb.put ?_ (fun revision hr => hb.observed w.key revision (hobserved ▸ hr))
          (fun _ e he => .inl (hmark ▸ he)) (fun _ => .inr hmark.symm)
        rw [← hmark]
        cases hmarks : l.marks w.key with
        | none =>
          rw [hmarks] at hrow
          exact hopen.trans hrow
        | some e =>
          rw [hmarks] at hrow
          exact ⟨hopen.trans hrow.1, hrevision.trans hrow.2.1, hrow.2.2⟩
    exact ⟨hput.numbered, hput.entries, hput.rows, hput.observed,
      fun i s hi => (hput.passes i s hi).mono (.refl _) (List.Subset.refl _), hput.opened, hput.one,
      hput.free⟩
  | @review number merged => exact hb.grows (grows_reviewed x l.forge number merged)
  | @touch number => exact hb.grows (grows_touched l.forge number)
  | others => exact hb.grows (grows_cons rfl rfl)

/-- a loop that remembers nothing yet, on any forge -/
structure Fresh (l : Loop μ) : Prop extends Starts l where
  rows : l.rows = fun _ => .fresh
  numbered : Numbered l.forge

theorem books_of_fresh (h : Fresh l) : Books l where
  numbered := h.numbered
  entries e he := by
    rw [h.entries] at he
    cases he
  rows key := by
    rw [h.rows, h.marks]
    rfl
  observed key revision hr := by
    rw [h.rows] at hr
    cases hr
  passes i s hi := by
    rw [h.passes] at hi
    cases hi
  opened e he := by
    rw [h.entries] at he
    cases he
  one i i' s s' hi := by
    rw [h.passes] at hi
    cases hi
  free i s e hi := by
    rw [h.passes] at hi
    cases hi

theorem oneOpen_of_books (hb : Books l) : OneOpen l := by
  intro e he e' he' hkey hlive hlive'
  have hclash : ∀ {e₁ e₂ : Entry}, e₁.key = e₂.key → Live l.forge e₁.number →
      (∃ r, l.marks e₁.key = some r ∧ r.number = e₁.number) →
      (∃ i s t, l.passes i = some s ∧ s.key = e₂.key ∧ s.holding = some t ∧ t.number = e₂.number) →
      e₁.number = e₂.number := by
    rintro e₁ e₂ hkeys hlive₁ ⟨r, hmarks, hnumber⟩ ⟨i, s, t, hi, hsk, hholding, -⟩
    -- what the memory records beside a merge request in hand is answered
    have hshut := hb.free i s r hi (by simp [hholding]) (by rw [hsk, ← hkeys, hmarks])
    rw [hnumber] at hshut
    exact absurd hlive₁ (hb.numbered.not_live hshut)
  rcases hb.opened e he hlive with hrecorded | hheld <;>
    rcases hb.opened e' he' hlive' with hrecorded' | hheld'
  · obtain ⟨r, hmarks, hnumber⟩ := hrecorded
    obtain ⟨r', hmarks', hnumber'⟩ := hrecorded'
    rw [hkey] at hmarks
    rw [← hnumber, ← hnumber', Option.some.inj (hmarks.symm.trans hmarks')]
  · exact hclash hkey hlive hrecorded hheld'
  · exact (hclash hkey.symm hlive' hrecorded' hheld).symm
  · obtain ⟨i, s, t, hi, hsk, hholding, hnumber⟩ := hheld
    obtain ⟨i', s', t', hi', hsk', hholding', hnumber'⟩ := hheld'
    have hii : i = i' := hb.one i i' s s' hi hi' (hsk.trans (hkey.trans hsk'.symm)) (by simp [hholding])
      (by simp [hholding'])
    subst hii
    obtain rfl := Option.some.inj (hi.symm.trans hi')
    rw [← hnumber, ← hnumber', Option.some.inj (hholding.symm.trans hholding')]

theorem finds_step {a : Act μ ω} (h : step x j l a = some l') (horderly : Orderly x ⟨l, a, l'⟩)
    (hb : Books l) : Finds (⟨l, a, l'⟩ : Moment μ ω) := by
  intro i ok s hact hi hmisses e he hkey hlive
  have hact' : a = .read i ok := hact
  subst hact'
  cases hmarks : l.marks s.key with
  | none =>
    -- the memory records no proposal
    obtain ⟨branch, hbranch, -⟩ := hmisses
    have hrow := hb.rows s.key
    rw [hmarks] at hrow
    unfold get at hbranch
    split at hbranch
    · rw [hrow] at hbranch
      cases hbranch
    · cases hbranch
  | some r =>
    obtain ⟨hok, hshows, hnone⟩ := horderly.reads i ok s r rfl hi hmarks
    rcases hb.opened e he hlive with ⟨r', hmarks', hnumber⟩ | ⟨i', s', t, hi', hsk, hholding, -⟩
    · obtain rfl : r = r' := Option.some.inj (hmarks.symm.trans (hkey ▸ hmarks'))
      obtain ⟨branch, hbranch, hfind⟩ := hmisses
      have hrow := hb.rows s.key
      rw [hmarks] at hrow
      have hget : get l s.key ok = l.rows s.key := if_pos hok
      have hsame : branch = r.branch := by
        rw [hget] at hbranch
        exact Option.some.inj (hbranch.symm.trans hrow.1)
      have hshut := shut_of_missing hb hrow.2.2.2 (hb.passes i s hi).shown hshows (hsame ▸ hfind)
      rw [hnumber] at hshut
      exact hb.numbered.not_live hshut hlive
    · have hheld := hnone hmisses i' s' hi' (hsk.trans hkey)
      rw [hholding] at hheld
      cases hheld

/-- **One open proposal per sync source** in every orderly run: at most one merge request of a source is
open, an open one is not taken for one that vanished, and what is observed was merged or closed. -/
theorem one_open_proposal (hj : Polls j) {l₀ : Loop μ} (h₀ : Fresh l₀) {tr : List (Moment μ ω)}
    (hr : Run (step x j) l₀ tr l) (horderly : ∀ u ∈ tr, Orderly x u) :
    OneOpen l ∧ Observed l ∧ ∀ u ∈ tr, Finds u := by
  have hbooks : ∀ {tr' : List (Moment μ ω)} {l' : Loop μ}, Run (step x j) l₀ tr' l' →
      (∀ u ∈ tr', Orderly x u) → Books l' := fun hr' hC =>
    hr'.invariant (C := Orderly x) (books_of_fresh h₀) (fun _ _ _ h hC hb => books_step hj h hC hb) hC
  have hb := hbooks hr horderly
  refine ⟨oneOpen_of_books hb, hb.observed, fun u hu => ?_⟩
  obtain ⟨a, b, rfl⟩ := List.append_of_mem hu
  obtain ⟨hbefore, hstep, -⟩ := hr.at
  exact finds_step hstep (horderly u hu)
    (hbooks hbefore (fun v hv => horderly v (List.mem_append_left _ hv)))

/-! ### a run step by step -/

section
variable (x : Outside) (n : Nat)

/-- no pass of the source, of the first `n`, has a merge request it is yet to record -/
def noneHeld (l : Loop μ) (key : Key) : Bool :=
  (List.range n).all fun i => (l.passes i).all fun s => s.key ≠ key || s.holding.isNone

def misses (l : Loop μ) (s : Pass μ) (ok : Bool) : Bool :=
  (get l s.key ok).state.openProposal.any fun branch =>
    (s.pulls.find? (fun pull => pull.headBranch = branch)).isNone

def shows (l : Loop μ) (pulls : List Pull) (e : Entry) : Bool :=
  (!decide (Live l.forge e.number) || pulls.any (fun pull => pull.number = e.number)) &&
    (pulls.find? (fun pull => pull.headBranch = e.branch)).all
      (fun pull => pull.state = .opened || pull.number = e.number)

def callOrderly (u : Moment μ ω) (s : Pass μ) (o : Outcome) : Bool :=
  (match s.phase, o with
    | .proposing _ _ (.requesting _), .lost _ => false
    | .proposing _ _ (.merging pull), o =>
      decide (Shut (call u.before.forge (mergePull x u.before.forge pull.number) o).1 pull.number)
    | _, _ => true) &&
    (u.after.entries = u.before.entries ||
      (u.before.marks s.key = s.found && noneHeld n u.before s.key))

/-- whether a step is orderly, where no pass but the first `n` is about -/
def orderly (u : Moment μ ω) : Bool :=
  match u.act with
  | .call i o => (u.before.passes i).all fun s => callOrderly x n u s o
  | .read i ok =>
    (u.before.passes i).all fun s => (u.before.marks s.key).all fun e =>
      ok && shows u.before s.pulls e && (!misses u.before s ok || noneHeld n u.before s.key)
  | .recordAnswer i true =>
    (u.before.passes i).all fun s => u.before.marks s.key = s.found ||
      (u.before.marks s.key = none && s.holding.isSome)
  | .record i true =>
    (u.before.passes i).all fun s => u.before.marks s.key = s.found ||
      (u.before.marks s.key = none && s.holding.isSome)
  | .record i false =>
    (u.before.passes i).all fun s => s.holding.all fun e => !decide (Live u.before.forge e.number)
  | .write _ true => false
  | _ => true

end

theorem noneHeld_of_check {n : Nat} (hbeyond : ∀ i, n ≤ i → l.passes i = none) {key : Key}
    (h : noneHeld n l key = true) : NoneHeld l key := by
  intro i s hi hkey
  have hlt : i < n := by
    by_contra hge
    rw [hbeyond i (by omega)] at hi
    cases hi
  have hcheck := List.all_eq_true.mp h i (List.mem_range.mpr hlt)
  rw [hi] at hcheck
  simpa [hkey] using hcheck

theorem misses_iff {ok : Bool} : misses l s ok = true ↔ Misses l s ok := by
  simp [misses, Misses, Option.any_eq_true]

theorem shows_of_check {pulls : List Pull} {e : Entry} (h : shows l pulls e = true) : Shows l pulls e := by
  simp only [shows, Bool.and_eq_true, Bool.or_eq_true, Bool.not_eq_true', decide_eq_false_iff_not,
    List.any_eq_true, decide_eq_true_eq, Option.all_eq_true] at h
  refine ⟨fun hlive => ?_, fun pull hpull => h.2 pull hpull⟩
  exact h.1.resolve_left (fun hnot => hnot hlive)

theorem orderly_call {n : Nat} {u : Moment μ ω} (hbeyond : ∀ i, n ≤ i → u.before.passes i = none)
    {i : Nat} {o : Outcome} (hact : u.act = .call i o)
    (h : ∀ s, u.before.passes i = some s → callOrderly x n u s o = true) : Orderly x u where
  answers i' e s plan files openNow hact' hi hphase := by
    obtain ⟨rfl, rfl⟩ : i = i' ∧ o = .lost e := by simpa [hact] using hact'
    have hcheck := h s hi
    simp [callOrderly, hphase] at hcheck
  merges i' o' s plan files pull hact' hi hphase := by
    obtain ⟨rfl, rfl⟩ : i = i' ∧ o = o' := by simpa [hact] using hact'
    have hcheck := h s hi
    simp only [callOrderly, hphase, Bool.and_eq_true, decide_eq_true_eq] at hcheck
    exact hcheck.1
  opens i' o' s hact' hi hne := by
    obtain ⟨rfl, rfl⟩ : i = i' ∧ o = o' := by simpa [hact] using hact'
    have hcheck := h s hi
    simp only [callOrderly, Bool.and_eq_true, Bool.or_eq_true, decide_eq_true_eq] at hcheck
    obtain ⟨hmarks, hnone⟩ := hcheck.2.resolve_left hne
    exact ⟨hmarks, noneHeld_of_check hbeyond hnone⟩
  reads := by simp [hact]
  writes := by simp [hact]
  records := by simp [hact]
  switches := by simp [hact]

theorem orderly_of_check {n : Nat} {u : Moment μ ω} (hbeyond : ∀ i, n ≤ i → u.before.passes i = none)
    (h : orderly x n u = true) : Orderly x u := by
  unfold orderly at h
  split at h
  · rename_i i o hact
    exact orderly_call hbeyond hact (by simpa [Option.all_eq_true] using h)
  · rename_i i ok hact
    refine ⟨by simp [hact], by simp [hact], by simp [hact], fun i' ok' s e hact' hi he => ?_,
      by simp [hact], by simp [hact], by simp [hact]⟩
    obtain ⟨rfl, rfl⟩ : i = i' ∧ ok = ok' := by simpa [hact] using hact'
    rw [hi, Option.all_some, he, Option.all_some] at h
    simp only [Bool.and_eq_true, Bool.or_eq_true, Bool.not_eq_true'] at h
    refine ⟨h.1.1, shows_of_check h.1.2, fun hmisses => ?_⟩
    refine noneHeld_of_check hbeyond (h.2.resolve_left (fun hnot => ?_))
    rw [misses_iff.mpr hmisses] at hnot
    cases hnot
  · rename_i i hact
    refine ⟨by simp [hact], by simp [hact], by simp [hact], by simp [hact],
      fun i' ok s hact' hi hok => ?_, by simp [hact], by simp [hact]⟩
    obtain ⟨rfl, -⟩ : i = i' ∧ true = ok := by simpa [hact] using hact'
    rw [hi, Option.all_some] at h
    simpa [Option.isSome_iff_ne_none] using h
  · rename_i i hact
    refine ⟨by simp [hact], by simp [hact], by simp [hact], by simp [hact],
      fun i' ok s hact' hi hok => ?_, by simp [hact], by simp [hact]⟩
    obtain ⟨rfl, -⟩ : i = i' ∧ true = ok := by simpa [hact] using hact'
    rw [hi, Option.all_some] at h
    simpa [Option.isSome_iff_ne_none] using h
  · rename_i i hact
    refine ⟨by simp [hact], by simp [hact], by simp [hact], by simp [hact],
      fun i' ok s hact' hi hok => ?_, fun i' s e hact' hi he => ?_, by simp [hact]⟩
    · obtain ⟨-, rfl⟩ : i = i' ∧ false = ok := by simpa [hact] using hact'
      cases hok
    · obtain rfl : i = i' := by simpa [hact] using hact'
      rw [hi, Option.all_some, he, Option.all_some] at h
      simpa using h
  · cases h
  · rename_i hcall hread hanswer hrecord hforget hwrite
    refine ⟨fun i e s plan files openNow hact => absurd hact (hcall i _),
      fun i o s plan files pull hact => absurd hact (hcall i o), fun i o s hact => absurd hact (hcall i o),
      fun i ok s e hact => absurd hact (hread i ok), fun i ok s hact _ hok => ?_,
      fun i s e hact => absurd hact (hforget i), fun i w hact => absurd hact (hwrite i)⟩
    subst hok
    rcases hact with hact | hact
    · exact absurd hact (hanswer i)
    · exact absurd hact (hrecord i)

/-- a pass that is wanted is one of the first `n` -/
def wantsBelow (n : Nat) : Act μ ω → Bool
  | .want i .. => decide (i < n)
  | _ => true

theorem passes_beyond {n : Nat} {l₀ : Loop μ} (h₀ : Starts l₀) {tr : List (Moment μ ω)}
    (hr : Run (step x j) l₀ tr l) (hwant : ∀ u ∈ tr, wantsBelow n u.act = true) :
    ∀ i, n ≤ i → l.passes i = none := by
  refine hr.invariant (I := fun l => ∀ i, n ≤ i → l.passes i = none)
    (C := fun u => wantsBelow n u.act = true)
    (fun i _ => by rw [h₀.passes]) (fun l a l' h hC hI i hi => ?_) hwant
  have hgoes : ∀ {i' : Nat} {s' : Pass μ}, i' < n → (passGoes l i' s').passes i = none := by
    intro i' s' hlt
    exact (Function.update_of_ne (by omega) ..).trans (hI i hi)
  have hlt : ∀ {i' : Nat} {s' : Pass μ}, l.passes i' = some s' → i' < n := by
    intro i' s' hi'
    by_contra hge
    rw [hI i' (by omega)] at hi'
    cases hi'
  cases takes_of_step h with
  | want hi' => exact hgoes (of_decide_eq_true hC)
  | list hi' | listFails hi' | read hi' | decide hi' | call hi' => exact hgoes (hlt hi')
  | recordAnswer hi' | record hi' =>
    rw [passes_put]
    exact hgoes (hlt hi')
  | pause => exact hI i hi
  | write => exact (congrFun (passes_put ..) i).trans (hI i hi)
  | review | touch | others => exact hI i hi

/-! ### the source at one revision, and at the next -/

theorem polls_byRevision : Polls byRevision where
  proposes {asked manifest state now origin d plan} hpoll hplan := by
    simp only [byRevision] at hpoll
    split at hpoll
    · rw [← Except.ok.inj hpoll] at hplan
      cases hplan
    · rename_i hopen
      simp only [Bool.or_eq_true, not_or, Option.not_isSome_iff_eq_none] at hopen
      exact hopen.2
  observes {asked manifest state now origin d} hpoll := by
    simp only [byRevision] at hpoll
    split at hpoll
    · rw [← Except.ok.inj hpoll]
    · split at hpoll <;> rw [← Except.ok.inj hpoll]
  opens {asked manifest state now origin d plan} hpoll hplan _ := by
    simp only [byRevision] at hpoll
    split at hpoll
    · rw [← Except.ok.inj hpoll] at hplan
      cases hplan
    · split at hpoll
      · rw [← Except.ok.inj hpoll] at hplan
        cases hplan
      · rw [← Except.ok.inj hpoll] at hplan ⊢
        rw [← Option.some.inj hplan]
  leaves {asked manifest state now origin d} hpoll hrejected := by
    simp only [byRevision] at hpoll
    split at hpoll
    · rw [← Except.ok.inj hpoll]
    · split at hpoll
      · rw [← Except.ok.inj hpoll]
      · rw [← Except.ok.inj hpoll] at hrejected
        exact absurd rfl (hrejected _ rfl)

theorem fresh_unrun : Fresh unrun where
  toStarts := starts_unrun
  rows := rfl
  numbered := ⟨List.nodup_nil, fun pull hpull => by cases hpull⟩

/-- pass `i` wants the source, reads its memory, and finds its origin at this revision -/
def passTo (i : Nat) (revision : String) : List (Act String String) :=
  [.want i regional "regional" true 60 true, .list i .answered, .read i true, .decide i revision]

/-- the calls that put one file on a new branch, and the opening of its merge request -/
def proposeBy (i : Nat) (o : Outcome) : List (Act String String) :=
  List.replicate 5 (.call i .answered) ++ [.call i o, .record i true]

/-- a proposal is opened, merged, and found merged by the next pass -/
def mergedRun : List (Act String String) :=
  passTo 0 "9f1c0de" ++ proposeBy 0 .answered ++ [.review 1 true] ++ passTo 1 "9f1c0de" ++ [.record 1 true]

theorem one_open_proposal_of_merged :
    OneOpen (final (step plainly byRevision) unrun mergedRun) ∧
      Observed (final (step plainly byRevision) unrun mergedRun) ∧
      ∀ u ∈ trace (step plainly byRevision) unrun mergedRun, Finds u := by
  have hruns : (exec (step plainly byRevision) unrun mergedRun).isSome ∧
      (trace (step plainly byRevision) unrun mergedRun).all
        (fun u => orderly plainly 2 u && wantsBelow 2 u.act) = true := by
    decide +kernel
  obtain ⟨hsome, hcheck⟩ := hruns
  have hrun := run_trace hsome
  have hall : ∀ u ∈ trace (step plainly byRevision) unrun mergedRun,
      orderly plainly 2 u = true ∧ wantsBelow 2 u.act = true := by
    simpa [List.all_eq_true, Bool.and_eq_true] using hcheck
  refine one_open_proposal polls_byRevision fresh_unrun hrun (fun u hu => ?_)
  obtain ⟨a, b, hcut⟩ := List.append_of_mem hu
  rw [hcut] at hrun hall
  refine orderly_of_check (n := 2) ?_ (hall u (by simp)).1
  exact passes_beyond starts_unrun hrun.at.1
    (fun v hv => (hall v (List.mem_append_left _ hv)).2)

/-- the first opening is not answered, and the origin moves on -/
def movedOn : List (Act String String) :=
  passTo 0 "9f1c0de" ++ proposeBy 0 (.lost (.transport "timed out")) ++ passTo 1 "b5d2e91"
    ++ proposeBy 1 .answered

/-- **Two merge requests of one source are open.** -/
theorem second_proposal :
    ¬ ∀ l tr, Run (step plainly byRevision) unrun tr l → OneOpen l := by
  intro hall
  have hruns : (exec (step plainly byRevision) unrun movedOn).isSome ∧
      (final (step plainly byRevision) unrun movedOn).entries
        = [⟨regional, "b5d2e91", 2, "chg-sync-regional-b5d2e91"⟩,
            ⟨regional, "9f1c0de", 1, "chg-sync-regional-9f1c0de"⟩] ∧
      Live (final (step plainly byRevision) unrun movedOn).forge 1 ∧
      Live (final (step plainly byRevision) unrun movedOn).forge 2 := by
    decide +kernel
  obtain ⟨hsome, hentries, hfirst, hsecond⟩ := hruns
  have hone := hall _ _ (run_trace hsome) ⟨regional, "b5d2e91", 2, "chg-sync-regional-b5d2e91"⟩
    (by simp [hentries]) ⟨regional, "9f1c0de", 1, "chg-sync-regional-9f1c0de"⟩ (by simp [hentries]) rfl
    hsecond hfirst
  exact absurd hone (by decide)

end Sync
end Portal
