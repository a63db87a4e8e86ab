import Mathlib.Data.List.Perm.Basic
import Portal.Agents.Runs
import Portal.Base.Machine
import Portal.Deployer.Sources

/-!
# The events of a run, to those who follow it (`agents/events.rs`; `agents/store.rs`:
`append_event`, `events_since`; `api/agent_runs.rs`: `publish_event`, `stream_events`)

An event is stored under the next number of its run and then handed to the run's channel, by whoever
publishes it; two that publish at once may hand theirs over in the other order.  The channel keeps
the last 128 events for a listener that is behind.

* `Channel`, `publish`    the stored events, and what became of each since someone listens;
* `Streaming`, `stream`   a browser's stream: it subscribes, reads the store, then follows;
* `stream_complete`       **the law**: until it is told of a lag it misses nothing and repeats nothing;
* `Inbox`, `inbox`        the driver's own reader, which reads the store again where it lags;
* `inbox_ordered`         **the law**: it hands out stored events, each after those before it;
* `inbox_complete`        **the law**: and all of them, where the events are handed over in order.
-/

namespace Portal
namespace Agents

/-! ## numbered events -/

structure Event where
  seq : Nat
  kind : String
  payload : Value
deriving DecidableEq

/-- the numbers of a list go on from `k` -/
def Numbered (l : List Event) (k : Nat) : Prop := l.map Event.seq = List.range' (k + 1) l.length

section
variable {l : List Event} {k : Nat} {e : Event}

theorem numbered_nil (k : Nat) : Numbered [] k := rfl

theorem numbered_cons : Numbered (e :: l) k ↔ e.seq = k + 1 ∧ Numbered l (k + 1) := by
  unfold Numbered
  rw [List.map_cons, List.length_cons, List.range'_succ, List.cons.injEq]

theorem Numbered.snoc (h : Numbered l k) (he : e.seq = k + l.length + 1) :
    Numbered (l ++ [e]) k := by
  unfold Numbered at *
  rw [List.map_append, h, List.length_append, List.length_singleton, List.range'_1_concat,
    List.map_singleton, he]
  congr 2
  omega

theorem Numbered.pairwise (h : Numbered l k) : l.Pairwise (fun a b => a.seq < b.seq) := by
  have hrange : (l.map Event.seq).Pairwise (fun a b => a < b) := h ▸ List.pairwise_lt_range'
  exact List.pairwise_map.1 hrange

theorem Numbered.bounds (h : Numbered l k) (he : e ∈ l) : k < e.seq ∧ e.seq ≤ k + l.length := by
  have hmem : e.seq ∈ l.map Event.seq := List.mem_map_of_mem he
  rw [h, List.mem_range'_1] at hmem
  omega

/-- what stands after the number `m` -/
theorem Numbered.filter (h : Numbered l k) (m : Nat) :
    l.filter (fun e => m < e.seq) = l.drop (m - k) := by
  induction l generalizing k with
  | nil => simp
  | cons e l ih =>
    obtain ⟨he, hl⟩ := numbered_cons.1 h
    rw [List.filter_cons, ih hl]
    by_cases hm : m ≤ k
    · have hnow : m - k = 0 := by omega
      have hlater : m - (k + 1) = 0 := by omega
      rw [if_pos (by simp; omega), hnow, hlater, List.drop_zero, List.drop_zero]
    · have hsucc : m - k = (m - (k + 1)) + 1 := by omega
      rw [if_neg (by simp; omega), hsucc, List.drop_succ_cons]

theorem Numbered.drop (h : Numbered l k) (j : Nat) : Numbered (l.drop j) (k + j) := by
  induction l generalizing k j with
  | nil => simpa using numbered_nil (k + j)
  | cons e l ih =>
    cases j with
    | zero => exact h
    | succ j =>
      have htail := ih (numbered_cons.1 h).2 j
      rw [List.drop_succ_cons]
      have hshift : k + (j + 1) = k + 1 + j := by omega
      rw [hshift]
      exact htail

theorem Numbered.prefix {l l' : List Event} {k : Nat} (h : Numbered (l ++ l') k) :
    Numbered l k := by
  induction l generalizing k with
  | nil => exact numbered_nil k
  | cons e l ih =>
    obtain ⟨he, hl⟩ := numbered_cons.1 h
    exact numbered_cons.2 ⟨he, ih hl⟩

theorem Numbered.getElem (h : Numbered l k) {i : Nat} (he : l[i]? = some e) :
    e.seq = k + i + 1 := by
  have hmap : (l.map Event.seq)[i]? = some e.seq := by rw [List.getElem?_map, he]; rfl
  rw [h] at hmap
  obtain ⟨hi, hget⟩ := List.getElem?_eq_some_iff.1 hmap
  rw [List.getElem_range'] at hget
  omega

end

/-! ## the store and the channel -/

def capacity : Nat := 128

def Event.endsTheRun (e : Event) : Bool :=
  e.kind = "status" && (((e.payload.get? "status").bind Value.asStr).bind
    AgentRunStatus.parse).any AgentRunStatus.isTerminal

/-- a run's events, and for one listener what became of each of them -/
structure Channel where
  stored : List Event
  /-- stored, and not handed over yet -/
  waiting : List Event
  /-- handed over before the listener subscribed -/
  early : List Event
  /-- what the listener's channel carried -/
  sent : List Event
  /-- handed over when the channel was gone -/
  dropped : List Event
  listening : Bool
  closed : Bool

/-- a run without events, and nobody listening -/
def Channel.fresh : Channel := ⟨[], [], [], [], [], false, false⟩

inductive Publishing where
  | append (kind : String) (payload : Value)
  /-- the publisher of the `i`th waiting event hands it over -/
  | broadcast (i : Nat)

def publish (c : Channel) : Publishing → Option Channel
  | .append kind payload =>
    let e : Event := ⟨c.stored.length + 1, kind, payload⟩
    some { c with stored := c.stored ++ [e], waiting := c.waiting ++ [e] }
  | .broadcast i =>
    (c.waiting[i]?).map fun e =>
      let c := { c with waiting := c.waiting.eraseIdx i }
      if !c.listening then { c with early := c.early ++ [e] }
      else if c.closed then { c with dropped := c.dropped ++ [e] }
      else { c with sent := c.sent ++ [e], closed := e.endsTheRun }

/-- an event is handed over before those stored after it -/
def Publishing.inOrder : Publishing → Bool
  | .append _ _ => true
  | .broadcast i => i = 0

/-- every event has one fate, and none is dropped while the channel is open -/
structure Sound (c : Channel) : Prop where
  numbered : Numbered c.stored 0
  fates : c.stored.Perm (c.early ++ (c.sent ++ (c.dropped ++ c.waiting)))
  quiet : c.listening = false → c.sent = [] ∧ c.dropped = [] ∧ c.closed = false
  open_ : c.closed = false → c.dropped = []

section
variable {c c' : Channel} {p : Publishing} {e : Event}

theorem Sound.mem_stored (h : Sound c) :
    e ∈ c.stored ↔ e ∈ c.early ∨ e ∈ c.sent ∨ e ∈ c.dropped ∨ e ∈ c.waiting := by
  rw [h.fates.mem_iff]
  simp

theorem Sound.nodup (h : Sound c) : (c.stored.map Event.seq).Nodup := by
  rw [h.numbered]
  exact List.nodup_range'

theorem Sound.sent_nodup (h : Sound c) : (c.sent.map Event.seq).Nodup := by
  have hall := (h.fates.map Event.seq).nodup_iff.1 h.nodup
  rw [List.map_append, List.map_append] at hall
  exact hall.of_append_right.of_append_left

/-- **Step**: publishing keeps the channel sound. -/
theorem Sound.publish (h : Sound c) (hp : publish c p = some c') : Sound c' := by
  cases p with
  | append kind payload =>
    obtain rfl := Option.some.inj hp
    refine ⟨h.numbered.snoc (by simp), ?_, h.quiet, h.open_⟩
    have hsnoc := h.fates.append_right [(⟨c.stored.length + 1, kind, payload⟩ : Event)]
    simpa [List.append_assoc] using hsnoc
  | broadcast i =>
    obtain ⟨e, he, rfl⟩ := Option.map_eq_some_iff.1 hp
    obtain ⟨hi, hget⟩ := List.getElem?_eq_some_iff.1 he
    have herase : c.waiting.Perm (e :: c.waiting.eraseIdx i) :=
      hget ▸ (List.getElem_cons_eraseIdx_perm hi).symm
    dsimp only
    split
    · rename_i hquiet
      refine ⟨h.numbered, ?_, h.quiet, h.open_⟩
      refine h.fates.trans ?_
      rw [List.append_assoc]
      refine List.Perm.append_left _ ?_
      refine ((List.Perm.append_left _ (List.Perm.append_left _ herase)).trans ?_)
      simp only [← List.append_assoc]
      exact List.perm_middle
    · rename_i hlistening
      have hlisten : c.listening ≠ false := by simpa using hlistening
      split
      · rename_i hclosed
        refine ⟨h.numbered, ?_, fun hq => absurd hq hlisten, fun hopen => ?_⟩
        · refine h.fates.trans (List.Perm.append_left _ (List.Perm.append_left _ ?_))
          rw [List.append_assoc]
          exact List.Perm.append_left _ herase
        · exact absurd (hclosed.symm.trans hopen) (by simp)
      · rename_i hopen
        have hnone := h.open_ (by simpa using hopen)
        refine ⟨h.numbered, ?_, fun hq => absurd hq hlisten, fun _ => hnone⟩
        refine h.fates.trans (List.Perm.append_left _ ?_)
        rw [hnone, List.nil_append, List.nil_append, List.append_assoc]
        exact List.Perm.append_left _ herase

theorem sound_fresh : Sound .fresh :=
  ⟨numbered_nil 0, List.Perm.refl _, fun _ => ⟨rfl, rfl, rfl⟩, fun _ => rfl⟩

theorem sound_run {tr : List (Trans Channel Publishing)} (hr : Run publish .fresh tr c) : Sound c :=
  Run.invariant (C := fun _ => True) sound_fresh (fun _ _ _ hs _ h => h.publish hs) hr (by simp)

theorem quiet_of_publish (hp : Agents.publish c p = some c') (hquiet : c.listening = false) :
    c'.listening = false := by
  cases p with
  | append kind payload =>
    obtain rfl := Option.some.inj hp
    exact hquiet
  | broadcast i =>
    obtain ⟨e, -, rfl⟩ := Option.map_eq_some_iff.1 hp
    simp [hquiet]

theorem stored_of_publish (hp : publish c p = some c') :
    c'.stored = c.stored ∨
      ∃ e : Event, c'.stored = c.stored ++ [e] ∧ e.seq = c.stored.length + 1 := by
  cases p with
  | append kind payload =>
    obtain rfl := Option.some.inj hp
    exact .inr ⟨_, rfl, rfl⟩
  | broadcast i =>
    obtain ⟨e, -, rfl⟩ := Option.map_eq_some_iff.1 hp
    refine .inl ?_
    dsimp only
    split
    · rfl
    · split <;> rfl

theorem first_waiting {l : List Event} (he : l[0]? = some e) : l = e :: l.eraseIdx 0 := by
  cases l with
  | nil => exact absurd he (by simp)
  | cons e' rest =>
    obtain rfl := Option.some.inj he
    rfl

theorem Sound.opened (h : Sound c) : Sound { c with listening := true } :=
  ⟨h.numbered, h.fates, fun hq => absurd hq (by simp), h.open_⟩

theorem sent_of_publish (hp : publish c p = some c') (hlistening : c.listening = true) :
    c'.early = c.early ∧ c'.listening = true ∧ ∃ more, c'.sent = c.sent ++ more := by
  cases p with
  | append kind payload =>
    obtain rfl := Option.some.inj hp
    exact ⟨rfl, hlistening, [], by simp⟩
  | broadcast i =>
    obtain ⟨e, -, rfl⟩ := Option.map_eq_some_iff.1 hp
    dsimp only
    rw [hlistening]
    simp only [Bool.not_true, Bool.false_eq_true, if_false]
    split
    · exact ⟨rfl, rfl, [], by simp⟩
    · exact ⟨rfl, rfl, [e], rfl⟩

end

/-! ## a browser's stream -/

inductive Frame where
  | event (e : Event)
  /-- `missed` events left the channel before they were read -/
  | lag (missed : Nat)
deriving DecidableEq

inductive Phase where
  | idle
  | subscribed (after : Int)
  | following (after through : Int)

structure Streaming where
  channel : Channel
  phase : Phase
  /-- how far the channel is read -/
  pos : Nat
  frames : List Frame

inductive StreamAct where
  | publish (p : Publishing)
  /-- the stream opens, after the event the browser names -/
  | subscribe (after : Int)
  | replay
  | poll

/-- everything after `after`, oldest first -/
def eventsSince (stored : List Event) (after : Int) : List Event :=
  stored.filter (fun e => after < (e.seq : Int))

def stream (s : Streaming) : StreamAct → Option Streaming
  | .publish p => (publish s.channel p).map fun channel => { s with channel }
  | .subscribe after =>
    match s.phase with
    | .idle => some { s with channel := { s.channel with listening := true }, phase := .subscribed after }
    | _ => none
  | .replay =>
    match s.phase with
    | .subscribed after =>
      let replay := eventsSince s.channel.stored after
      some { s with
        phase := .following after (replay.getLast?.elim after (fun e => (e.seq : Int)))
        frames := replay.map .event }
    | _ => none
  | .poll =>
    match s.phase with
    | .following _ through =>
      if capacity < s.channel.sent.length - s.pos then
        some { s with
          pos := s.channel.sent.length - capacity
          frames := s.frames ++ [.lag (s.channel.sent.length - s.pos - capacity)] }
      else
        (s.channel.sent[s.pos]?).map fun e =>
          { s with
            pos := s.pos + 1
            frames := if through < (e.seq : Int) then s.frames ++ [.event e] else s.frames }
    | _ => none

def eventsOf (frames : List Frame) : List Event :=
  frames.filterMap (fun | .event e => some e | .lag _ => none)

def Frame.isLag : Frame → Bool
  | .lag _ => true
  | .event _ => false

/-- what the frames of a stream are: the stored events up to `through`, and those of the channel
beyond it -/
def follows (c : Channel) (after through : Int) (pos : Nat) : List Event :=
  c.stored.filter (fun e => after < (e.seq : Int) ∧ (e.seq : Int) ≤ through)
    ++ (c.sent.take pos).filter (fun e => through < (e.seq : Int))

structure Followed (s : Streaming) : Prop where
  sound : Sound s.channel
  idle : s.phase = .idle → s.channel.listening = false ∧ s.pos = 0
  subscribed : ∀ after, s.phase = .subscribed after → s.channel.listening = true ∧ s.pos = 0
  following : ∀ after through, s.phase = .following after through →
    s.channel.listening = true ∧ s.pos ≤ s.channel.sent.length ∧ after ≤ through ∧
      (through = after ∨ through ≤ (s.channel.stored.length : Int)) ∧
      (∀ e ∈ s.channel.early, (e.seq : Int) ≤ through) ∧
      (s.frames.all (fun f => !f.isLag) = true →
        eventsOf s.frames = follows s.channel after through s.pos)

section
variable {s s' : Streaming}

theorem eventsOf_map (l : List Event) : eventsOf (l.map .event) = l := by
  unfold eventsOf
  rw [List.filterMap_map]
  exact List.filterMap_some

theorem eventsOf_snoc (frames : List Frame) (e : Event) :
    eventsOf (frames ++ [.event e]) = eventsOf frames ++ [e] := by
  unfold eventsOf
  rw [List.filterMap_append]
  rfl

theorem le_through {stored : List Event} {k : Nat} (h : Numbered stored k) (after : Int) {e : Event}
    (he : e ∈ stored) :
    (e.seq : Int) ≤ (eventsSince stored after).getLast?.elim after (fun e => (e.seq : Int)) ∧
      after ≤ (eventsSince stored after).getLast?.elim after (fun e => (e.seq : Int)) := by
  have hsorted : (eventsSince stored after).Pairwise (fun a b => a.seq < b.seq) :=
    h.pairwise.sublist List.filter_sublist
  cases hlast : (eventsSince stored after).getLast? with
  | none =>
    have hnil : eventsSince stored after = [] := List.getLast?_eq_none_iff.1 hlast
    have hnot : ¬ after < (e.seq : Int) := by
      intro hlt
      have hmem : e ∈ eventsSince stored after := List.mem_filter.2 ⟨he, by simpa using hlt⟩
      rw [hnil] at hmem
      exact absurd hmem List.not_mem_nil
    exact ⟨by simpa using hnot, le_refl _⟩
  | some last =>
    obtain ⟨init, hinit⟩ := List.getLast?_eq_some_iff.1 hlast
    have hlastMem : last ∈ eventsSince stored after := by rw [hinit]; simp
    have hafter : after < (last.seq : Int) := by simpa using (List.mem_filter.1 hlastMem).2
    refine ⟨?_, le_of_lt hafter⟩
    by_cases hlt : after < (e.seq : Int)
    · have hmem : e ∈ eventsSince stored after := List.mem_filter.2 ⟨he, by simpa using hlt⟩
      rw [hinit] at hmem hsorted
      rcases List.mem_append.1 hmem with hmem | hmem
      · have hless := (List.pairwise_append.1 hsorted).2.2 e hmem last (by simp)
        simpa using Int.ofNat_le.2 (le_of_lt hless)
      · rw [List.mem_singleton.1 hmem]
        exact le_refl _
    · simp only [Option.elim_some]
      omega

/-- **Step**: what is published while a stream follows is not part of its replay. -/
theorem Followed.publish (h : Followed s) {p : Publishing} (hs : stream s (.publish p) = some s') :
    Followed s' := by
  obtain ⟨c', hp, rfl⟩ := Option.map_eq_some_iff.1 hs
  have hsound := h.sound.publish hp
  refine ⟨hsound, ?_, ?_, ?_⟩
  · intro hphase
    refine ⟨?_, (h.idle hphase).2⟩
    exact quiet_of_publish hp (h.idle hphase).1
  · intro after hphase
    exact ⟨(sent_of_publish hp (h.subscribed after hphase).1).2.1, (h.subscribed after hphase).2⟩
  · intro after through hphase
    obtain ⟨hlistening, hpos, hafter, hthrough, hearly, hframes⟩ := h.following after through hphase
    obtain ⟨hearly', hlistening', more, hsent⟩ := sent_of_publish hp hlistening
    have htake : c'.sent.take s.pos = s.channel.sent.take s.pos := by
      rw [hsent, List.take_append_of_le_length hpos]
    have hstored := stored_of_publish hp
    have hread : s.pos ≤ c'.sent.length := by
      rw [hsent, List.length_append]
      omega
    refine ⟨hlistening', hread, hafter, ?_, ?_, ?_⟩
    · rcases hthrough with hthrough | hthrough
      · exact .inl hthrough
      · refine .inr (le_trans hthrough (Int.ofNat_le.2 ?_))
        rcases hstored with hstored | ⟨e, hstored, -⟩
        · rw [hstored]
        · rw [hstored, List.length_append]
          omega
    · rw [hearly']
      exact hearly
    · intro hnolag
      rw [hframes hnolag]
      unfold follows
      rw [htake]
      rcases hstored with hstored | ⟨e, hstored, hseq⟩
      · rw [hstored]
      · have hlate : ¬ (after < (e.seq : Int) ∧ (e.seq : Int) ≤ through) := by
          rw [hseq]
          rcases hthrough with hthrough | hthrough <;> push_cast <;> omega
        rw [hstored, List.filter_append, List.filter_singleton]
        simp [hlate]

theorem Followed.subscribe (h : Followed s) {after : Int}
    (hs : stream s (.subscribe after) = some s') : Followed s' := by
  simp only [stream] at hs
  split at hs
  · rename_i hphase
    obtain rfl := Option.some.inj hs
    obtain ⟨hquiet, hpos⟩ := h.idle hphase
    obtain ⟨hsent, hdropped, hclosed⟩ := h.sound.quiet hquiet
    refine ⟨⟨h.sound.numbered, h.sound.fates, by simp, h.sound.open_⟩, by simp, ?_, by simp⟩
    intro after' _
    exact ⟨rfl, hpos⟩
  · exact absurd hs (by simp)

/-- **Step**: the replay reads what is stored, so what the channel has missed. -/
theorem Followed.replay (h : Followed s) (hs : stream s .replay = some s') : Followed s' := by
  simp only [stream] at hs
  split at hs
  · rename_i after hphase
    obtain rfl := Option.some.inj hs
    obtain ⟨hlistening, hpos⟩ := h.subscribed after hphase
    refine ⟨h.sound, by simp, by simp, ?_⟩
    intro after' through hfollowing
    simp only [Phase.following.injEq] at hfollowing
    obtain ⟨rfl, hthrough⟩ := hfollowing
    have hle : ∀ e ∈ s.channel.stored, (e.seq : Int) ≤ through ∧ after ≤ through :=
      fun e he => hthrough ▸ le_through h.sound.numbered after he
    have hreached : through = after ∨ through ≤ (s.channel.stored.length : Int) ∧ after ≤ through := by
      cases hlast : (eventsSince s.channel.stored after).getLast? with
      | none =>
        rw [hlast] at hthrough
        exact .inl hthrough.symm
      | some last =>
        have hmem : last ∈ s.channel.stored :=
          (List.mem_filter.1 (List.mem_of_getLast? hlast)).1
        rw [hlast] at hthrough
        have hbound := (h.sound.numbered.bounds hmem).2
        refine .inr ⟨?_, (hle last hmem).2⟩
        rw [← hthrough]
        simp only [Option.elim_some]
        omega
    refine ⟨hlistening, by rw [hpos]; exact Nat.zero_le _, ?_, ?_, ?_, ?_⟩
    · rcases hreached with hreached | hreached
      · omega
      · exact hreached.2
    · exact hreached.imp_right And.left
    · intro e he
      exact (hle e (h.sound.mem_stored.2 (.inl he))).1
    · intro _
      rw [eventsOf_map]
      unfold follows eventsSince
      rw [hpos, List.take_zero, List.filter_nil, List.append_nil]
      refine List.filter_congr (fun e he => ?_)
      have hthrough' := (hle e he).1
      simp [hthrough']
  · exact absurd hs (by simp)

/-- **Step**: a poll lags, or hands on the next event of the channel that is not in the replay. -/
theorem Followed.poll (h : Followed s) (hs : stream s .poll = some s') : Followed s' := by
  simp only [stream] at hs
  split at hs
  · rename_i after through hphase
    obtain ⟨hlistening, hpos, hafter, hthrough, hearly, hframes⟩ := h.following after through hphase
    split at hs
    · obtain rfl := Option.some.inj hs
      refine ⟨h.sound, by simp [hphase], by simp [hphase], ?_⟩
      intro after' through' hphase'
      rw [hphase] at hphase'
      simp only [Phase.following.injEq] at hphase'
      obtain ⟨rfl, rfl⟩ := hphase'
      refine ⟨hlistening, Nat.sub_le _ _, hafter, hthrough, hearly, ?_⟩
      intro hnolag
      simp [Frame.isLag] at hnolag
    · obtain ⟨e, he, rfl⟩ := Option.map_eq_some_iff.1 hs
      obtain ⟨hlt, hget⟩ := List.getElem?_eq_some_iff.1 he
      refine ⟨h.sound, by simp [hphase], by simp [hphase], ?_⟩
      intro after' through' hphase'
      rw [hphase] at hphase'
      simp only [Phase.following.injEq] at hphase'
      obtain ⟨rfl, rfl⟩ := hphase'
      refine ⟨hlistening, hlt, hafter, hthrough, hearly, ?_⟩
      have htake : s.channel.sent.take (s.pos + 1) = s.channel.sent.take s.pos ++ [e] := by
        rw [List.take_add_one, he, Option.toList_some]
      intro hnolag
      unfold follows
      rw [htake, List.filter_append, List.filter_singleton, ← List.append_assoc]
      by_cases hnew : through < (e.seq : Int)
      · simp only [if_pos hnew, List.all_append, Bool.and_eq_true] at hnolag ⊢
        rw [eventsOf_snoc, hframes hnolag.1]
        simp [follows, hnew]
      · simp only [if_neg hnew] at hnolag ⊢
        rw [hframes hnolag]
        simp [follows, hnew]
  · exact absurd hs (by simp)

/-- **Step**: every act keeps a stream followed. -/
theorem Followed.step (h : Followed s) {a : StreamAct} (hs : stream s a = some s') : Followed s' := by
  cases a with
  | publish p => exact h.publish hs
  | subscribe after => exact h.subscribe hs
  | replay => exact h.replay hs
  | poll => exact h.poll hs

/-- a run without events, and a browser that has not asked for them -/
def Streaming.fresh : Streaming := ⟨.fresh, .idle, 0, []⟩

/-- **A stream misses nothing and repeats nothing**: in every run, however the publishers hand their
events over, the frames of a stream that was told of no lag are stored events after the one the
browser named, each once; and once it has read its channel they are all of them, but for those that
are not handed over yet and those handed over after the run's end. -/
theorem stream_complete {tr : List (Trans Streaming StreamAct)} (hr : Run stream .fresh tr s)
    {after through : Int} (hphase : s.phase = .following after through)
    (hnolag : s.frames.all (fun f => !f.isLag) = true) :
    ((eventsOf s.frames).map Event.seq).Nodup ∧
      (∀ e ∈ eventsOf s.frames, e ∈ s.channel.stored ∧ after < (e.seq : Int)) ∧
      (s.pos = s.channel.sent.length → ∀ e ∈ s.channel.stored, after < (e.seq : Int) →
        e ∈ eventsOf s.frames ∨ e ∈ s.channel.waiting ∨
          s.channel.closed = true ∧ e ∈ s.channel.dropped) := by
  have hfollowed : Followed s := by
    refine Run.invariant (C := fun _ => True) ?_ (fun s a s' hs _ h => h.step hs) hr (by simp)
    exact ⟨sound_fresh, fun _ => ⟨rfl, rfl⟩, by simp [Streaming.fresh], by simp [Streaming.fresh]⟩
  obtain ⟨-, hpos, hafter, -, hearly, hframes⟩ := hfollowed.following after through hphase
  have hsound := hfollowed.sound
  have hsent : ∀ e ∈ s.channel.sent, e ∈ s.channel.stored :=
    fun e he => hsound.mem_stored.2 (.inr (.inl he))
  rw [hframes hnolag]
  unfold follows
  refine ⟨?_, ?_, ?_⟩
  · rw [List.map_append]
    refine List.Nodup.append ?_ ?_ ?_
    · exact hsound.nodup.sublist (List.filter_sublist.map _)
    · exact hsound.sent_nodup.sublist
        ((List.filter_sublist.trans (List.take_sublist _ _)).map _)
    · intro n hreplay hlive
      obtain ⟨a, ha, rfl⟩ := List.mem_map.1 hreplay
      obtain ⟨b, hb, hab⟩ := List.mem_map.1 hlive
      have hold : (a.seq : Int) ≤ through := (of_decide_eq_true (List.mem_filter.1 ha).2).2
      have hnew : through < (b.seq : Int) := of_decide_eq_true (List.mem_filter.1 hb).2
      rw [hab] at hnew
      omega
  · intro e he
    rcases List.mem_append.1 he with he | he
    · obtain ⟨hstored, hbetween⟩ := List.mem_filter.1 he
      exact ⟨hstored, (of_decide_eq_true hbetween).1⟩
    · obtain ⟨htaken, hnew⟩ := List.mem_filter.1 he
      have hbeyond : through < (e.seq : Int) := of_decide_eq_true hnew
      exact ⟨hsent e (List.mem_of_mem_take htaken), by omega⟩
  · intro hread e he hlt
    by_cases hle : (e.seq : Int) ≤ through
    · exact .inl (List.mem_append_left _ (List.mem_filter.2 ⟨he, decide_eq_true ⟨hlt, hle⟩⟩))
    · rcases hsound.mem_stored.1 he with hearly' | hsent' | hdropped | hwaiting
      · exact absurd (hearly e hearly') hle
      · refine .inl (List.mem_append_right _ (List.mem_filter.2 ⟨?_, ?_⟩))
        · rw [hread, List.take_length]
          exact hsent'
        · exact decide_eq_true (by omega)
      · refine .inr (.inr ⟨?_, hdropped⟩)
        cases hclosed : s.channel.closed with
        | true => rfl
        | false =>
          rw [hsound.open_ hclosed] at hdropped
          exact absurd hdropped List.not_mem_nil
      · exact .inr (.inl hwaiting)

end

/-! ## the driver's inbox -/

/-- `RunInbox`, with the channel it listens to -/
structure Inbox where
  channel : Channel
  pos : Nat
  seen : Nat
  backlog : List Event
  /-- it lagged and reads the store -/
  reading : Bool
  /-- for the laws: what `recv` handed out -/
  handed : List Event

/-- `RunInbox::new`, over a channel that is subscribed to -/
def Inbox.opened (c : Channel) (seen : Nat) : Inbox :=
  ⟨{ c with listening := true }, 0, seen, [], false, []⟩

inductive InboxAct where
  | publish (p : Publishing)
  /-- one turn of `recv` -/
  | recv
  /-- the store answers, or not -/
  | read (ok : Bool)

def inbox (s : Inbox) : InboxAct → Option Inbox
  | .publish p => (publish s.channel p).map fun channel => { s with channel }
  | .recv =>
    if s.reading then none
    else
      match s.backlog with
      | e :: backlog => some { s with backlog, seen := e.seq, handed := s.handed ++ [e] }
      | [] =>
        if capacity < s.channel.sent.length - s.pos then
          some { s with pos := s.channel.sent.length - capacity, reading := true }
        else
          (s.channel.sent[s.pos]?).map fun e =>
            if e.seq ≤ s.seen then { s with pos := s.pos + 1 }
            else { s with pos := s.pos + 1, seen := e.seq, handed := s.handed ++ [e] }
  | .read ok =>
    if s.reading then
      some { s with
        reading := false
        backlog := if ok then s.backlog ++ s.channel.stored.filter (fun e => s.seen < e.seq)
          else s.backlog }
    else none

/-- what an inbox has handed out since the number `n`, and what it will hand out next -/
structure Handing (n : Nat) (s : Inbox) : Prop where
  sound : Sound s.channel
  handed : s.handed.Pairwise (fun a b => a.seq < b.seq)
  since : n ≤ s.seen
  seen : ∀ e ∈ s.handed, n < e.seq ∧ e.seq ≤ s.seen ∧ e ∈ s.channel.stored
  backlog : s.backlog.Pairwise (fun a b => a.seq < b.seq)
  ahead : ∀ e ∈ s.backlog, s.seen < e.seq ∧ e ∈ s.channel.stored
  reading : s.reading = true → s.backlog = []

section
variable {s s' : Inbox}

/-- **Turn**: `recv` hands out of the backlog, learns that it lags, skips what it has seen, or hands
out what the channel carries. -/
inductive Turn (s : Inbox) : Inbox → Prop
  | backlog {e : Event} {backlog : List Event} (hbacklog : s.backlog = e :: backlog) :
      Turn s { s with backlog, seen := e.seq, handed := s.handed ++ [e] }
  | lag (hbacklog : s.backlog = []) :
      Turn s { s with pos := s.channel.sent.length - capacity, reading := true }
  | skip {e : Event} (hbacklog : s.backlog = []) (he : s.channel.sent[s.pos]? = some e)
      (hold : e.seq ≤ s.seen) : Turn s { s with pos := s.pos + 1 }
  | live {e : Event} (hbacklog : s.backlog = []) (he : s.channel.sent[s.pos]? = some e)
      (hnew : s.seen < e.seq) :
      Turn s { s with pos := s.pos + 1, seen := e.seq, handed := s.handed ++ [e] }

theorem turn_of_recv (h : inbox s .recv = some s') : s.reading = false ∧ Turn s s' := by
  simp only [inbox] at h
  split at h
  · exact absurd h (by simp)
  · rename_i hreading
    refine ⟨by simpa using hreading, ?_⟩
    split at h
    · rename_i e backlog hbacklog
      obtain rfl := Option.some.inj h
      exact .backlog hbacklog
    · rename_i hbacklog
      split at h
      · obtain rfl := Option.some.inj h
        exact .lag hbacklog
      · obtain ⟨e, he, rfl⟩ := Option.map_eq_some_iff.1 h
        split
        · rename_i hold
          exact .skip hbacklog he hold
        · rename_i hnew
          exact .live hbacklog he (by omega)

theorem handed_snoc {l : List Event} {seen : Nat} {e : Event}
    (h : l.Pairwise (fun a b => a.seq < b.seq)) (hseen : ∀ a ∈ l, a.seq ≤ seen)
    (he : seen < e.seq) : (l ++ [e]).Pairwise (fun a b => a.seq < b.seq) := by
  refine List.pairwise_append.2 ⟨h, List.pairwise_singleton _ _, ?_⟩
  intro a ha b hb
  rw [List.mem_singleton.1 hb]
  exact lt_of_le_of_lt (hseen a ha) he

theorem Handing.seen_snoc {n : Nat} (h : Handing n s) {e : Event} (hnew : s.seen < e.seq)
    (he : e ∈ s.channel.stored) :
    ∀ a ∈ s.handed ++ [e], n < a.seq ∧ a.seq ≤ e.seq ∧ a ∈ s.channel.stored := by
  intro a ha
  have hsince := h.since
  rcases List.mem_append.1 ha with ha | ha
  · obtain ⟨hlt, hle, hstored⟩ := h.seen a ha
    exact ⟨hlt, by omega, hstored⟩
  · rw [List.mem_singleton.1 ha]
    exact ⟨by omega, le_refl _, he⟩

/-- **Step**: every act keeps what is handed out in order. -/
theorem Handing.step {n : Nat} (h : Handing n s) {a : InboxAct} (hs : inbox s a = some s') :
    Handing n s' := by
  cases a with
  | publish p =>
    obtain ⟨c', hp, rfl⟩ := Option.map_eq_some_iff.1 hs
    have hstored : ∀ e ∈ s.channel.stored, e ∈ c'.stored := by
      intro e he
      rcases stored_of_publish hp with hsame | ⟨e', hsame, -⟩
      · rw [hsame]
        exact he
      · rw [hsame]
        exact List.mem_append_left _ he
    exact ⟨h.sound.publish hp, h.handed, h.since,
      fun e he => (h.seen e he).imp_right (And.imp_right (hstored e)), h.backlog,
      fun e he => (h.ahead e he).imp_right (hstored e), h.reading⟩
  | recv =>
    obtain ⟨hreading, hturn⟩ := turn_of_recv hs
    have hquiet : ¬ s.reading = true := by simp [hreading]
    cases hturn with
    | @backlog e backlog hbacklog =>
      have hsorted := hbacklog ▸ h.backlog
      have hahead := h.ahead e (by rw [hbacklog]; exact List.mem_cons_self ..)
      refine ⟨h.sound, handed_snoc h.handed (fun a ha => (h.seen a ha).2.1) hahead.1,
        le_trans h.since (le_of_lt hahead.1), h.seen_snoc hahead.1 hahead.2, hsorted.of_cons, ?_,
        fun hr => absurd hr hquiet⟩
      · intro b hb
        exact ⟨List.rel_of_pairwise_cons hsorted hb,
          (h.ahead b (by rw [hbacklog]; exact List.mem_cons_of_mem _ hb)).2⟩
    | lag hbacklog =>
      exact ⟨h.sound, h.handed, h.since, h.seen, h.backlog, h.ahead, fun _ => hbacklog⟩
    | skip hbacklog he hold =>
      exact ⟨h.sound, h.handed, h.since, h.seen, h.backlog, h.ahead, h.reading⟩
    | @live e hbacklog he hnew =>
      have hstored : e ∈ s.channel.stored :=
        h.sound.mem_stored.2 (.inr (.inl (List.mem_of_getElem? he)))
      refine ⟨h.sound, handed_snoc h.handed (fun a ha => (h.seen a ha).2.1) hnew,
        le_trans h.since (le_of_lt hnew), h.seen_snoc hnew hstored, h.backlog, ?_, h.reading⟩
      intro b hb
      have hb' : b ∈ s.backlog := hb
      rw [hbacklog] at hb'
      exact absurd hb' List.not_mem_nil
  | read ok =>
    simp only [inbox] at hs
    split at hs
    · rename_i hreading
      obtain rfl := Option.some.inj hs
      have hnil := h.reading hreading
      refine ⟨h.sound, h.handed, h.since, h.seen, ?_, ?_, by simp⟩
      · rw [hnil]
        cases ok with
        | false => exact List.Pairwise.nil
        | true => exact h.sound.numbered.pairwise.sublist List.filter_sublist
      · intro e he
        rw [hnil] at he
        cases ok with
        | false => exact absurd he List.not_mem_nil
        | true =>
          obtain ⟨hstored, hnew⟩ := List.mem_filter.1 he
          exact ⟨of_decide_eq_true hnew, hstored⟩
    · exact absurd hs (by simp)

/-- **What an inbox hands out is in order**: in every run, however events race to its channel,
whether it lags and whether the store answers it then, the events handed out are stored ones, each
with a higher number than those before it and than what was seen at first. -/
theorem inbox_ordered {c : Channel} {tr₀ : List (Trans Channel Publishing)}
    (hc : Run publish .fresh tr₀ c) {seen : Nat} {tr : List (Trans Inbox InboxAct)}
    (hr : Run inbox (.opened c seen) tr s) :
    s.handed.Pairwise (fun a b => a.seq < b.seq) ∧
      ∀ e ∈ s.handed, seen < e.seq ∧ e ∈ s.channel.stored := by
  have hhanding : Handing seen s := by
    refine Run.invariant (C := fun _ => True) ?_ (fun s a s' hs _ h => h.step hs) hr (by simp)
    refine ⟨(sound_run hc).opened, List.Pairwise.nil, le_refl _, ?_, List.Pairwise.nil, ?_, ?_⟩
    · exact fun e he => absurd he List.not_mem_nil
    · exact fun e he => absurd he List.not_mem_nil
    · exact fun _ => rfl
  exact ⟨hhanding.handed, fun e he => ⟨(hhanding.seen e he).1, (hhanding.seen e he).2.2⟩⟩

/-! ### nothing lost -/

/-- the events are handed over in the order they were stored in, and the store answers -/
def InboxAct.orderly : InboxAct → Bool
  | .publish p => p.inOrder
  | .recv => true
  | .read ok => ok

/-- what was handed over in order, with nobody listening -/
structure Unheard (c : Channel) : Prop where
  numbered : Numbered c.stored 0
  stored : c.stored = c.early ++ c.waiting
  sent : c.sent = []
  dropped : c.dropped = []
  quiet : c.listening = false
  closed : c.closed = false

theorem Unheard.publish {c c' : Channel} (h : Unheard c) {p : Publishing}
    (hp : publish c p = some c') (horder : p.inOrder = true) : Unheard c' := by
  cases p with
  | append kind payload =>
    obtain rfl := Option.some.inj hp
    refine ⟨h.numbered.snoc (by simp), ?_, h.sent, h.dropped, h.quiet, h.closed⟩
    simp only [h.stored, List.append_assoc]
  | broadcast i =>
    obtain rfl : i = 0 := of_decide_eq_true horder
    obtain ⟨e, he, rfl⟩ := Option.map_eq_some_iff.1 hp
    have hwaiting := first_waiting he
    simp only [h.quiet, Bool.not_false, if_true]
    refine ⟨h.numbered, ?_, h.sent, h.dropped, rfl, h.closed⟩
    rw [h.stored, hwaiting]
    simp

theorem unheard_run {c : Channel} {tr : List (Trans Channel Publishing)}
    (hr : Run publish .fresh tr c) (horder : ∀ t ∈ tr, t.act.inOrder = true) : Unheard c :=
  Run.invariant (C := fun t => t.act.inOrder = true) ⟨numbered_nil 0, rfl, rfl, rfl, rfl, rfl⟩
    (fun _ _ _ hs ho h => h.publish hs ho) hr horder

/-- what was handed out goes on from `n`, the backlog goes on from it, and the channel is not read
beyond them -/
structure Whole (n : Nat) (s : Inbox) : Prop where
  numbered : Numbered s.channel.stored 0
  stored : s.channel.stored
    = s.channel.early ++ (s.channel.sent ++ (s.channel.dropped ++ s.channel.waiting))
  listening : s.channel.listening = true
  open_ : s.channel.closed = false → s.channel.dropped = []
  early : s.channel.early.length ≤ n
  handed : Numbered s.handed n
  seen : s.seen = n + s.handed.length
  backlog : Numbered s.backlog s.seen
  read : s.pos ≤ s.channel.sent.length
  pos : s.reading = false → s.channel.early.length + s.pos ≤ s.seen + s.backlog.length
  reading : s.reading = true → s.backlog = []

theorem Whole.seq_sent {n : Nat} (h : Whole n s) {e : Event}
    (he : s.channel.sent[s.pos]? = some e) : e.seq = s.channel.early.length + s.pos + 1 := by
  have hlt : s.pos < s.channel.sent.length := (List.getElem?_eq_some_iff.1 he).1
  have hget : s.channel.stored[s.channel.early.length + s.pos]? = some e := by
    rw [h.stored, List.getElem?_append_right (Nat.le_add_right _ _), Nat.add_sub_cancel_left,
      List.getElem?_append_left hlt]
    exact he
  have hseq := h.numbered.getElem hget
  omega

/-- **Step**: what is handed over in order is next on the channel. -/
theorem Whole.publish {n : Nat} (h : Whole n s) {p : Publishing}
    (hs : inbox s (.publish p) = some s') (horderly : p.inOrder = true) : Whole n s' := by
  obtain ⟨c', hp, rfl⟩ := Option.map_eq_some_iff.1 hs
  cases p with
  | append kind payload =>
    obtain rfl := Option.some.inj hp
    refine ⟨h.numbered.snoc (by simp), ?_, h.listening, h.open_, h.early, h.handed, h.seen,
      h.backlog, h.read, h.pos, h.reading⟩
    simp only [h.stored, List.append_assoc]
  | broadcast i =>
    obtain rfl : i = 0 := of_decide_eq_true horderly
    obtain ⟨e, he, rfl⟩ := Option.map_eq_some_iff.1 hp
    obtain ⟨rest, hwaiting⟩ : ∃ rest, s.channel.waiting = e :: rest := ⟨_, first_waiting he⟩
    have hstored := h.stored
    rw [hwaiting] at hstored
    simp only [h.listening, Bool.not_true, Bool.false_eq_true, if_false, hwaiting,
      List.eraseIdx_cons_zero]
    split
    · rename_i hclosed
      refine ⟨h.numbered, ?_, rfl, fun hopen => ?_, h.early, h.handed, h.seen, h.backlog,
        h.read, h.pos, h.reading⟩
      · rw [hstored]
        simp
      · exact absurd (hclosed.symm.trans hopen) (by simp)
    · rename_i hopen
      have hnone := h.open_ (by simpa using hopen)
      rw [hnone] at hstored
      refine ⟨h.numbered, ?_, rfl, fun _ => hnone, h.early, h.handed, h.seen, h.backlog,
        ?_, h.pos, h.reading⟩
      · rw [hstored, hnone]
        simp
      · rw [List.length_append]
        exact le_trans h.read (Nat.le_add_right _ _)

/-- **Step**: a turn of `recv` hands out the next event, from the backlog or else from the channel. -/
theorem Whole.recv {n : Nat} (h : Whole n s) (hs : inbox s .recv = some s') : Whole n s' := by
  obtain ⟨hreading, hturn⟩ := turn_of_recv hs
  have hquiet : ¬ s.reading = true := by simp [hreading]
  have hpos := h.pos hreading
  have hnext := h.seen
  cases hturn with
  | @backlog e backlog hbacklog =>
    obtain ⟨hseq, htail⟩ := numbered_cons.1 (hbacklog ▸ h.backlog)
    rw [hbacklog, List.length_cons] at hpos
    refine ⟨h.numbered, h.stored, h.listening, h.open_, h.early, h.handed.snoc (by omega), ?_, ?_,
      h.read, ?_, fun hr => absurd hr hquiet⟩
    · show e.seq = n + (s.handed ++ [e]).length
      rw [List.length_append, List.length_singleton]
      omega
    · show Numbered backlog e.seq
      rw [hseq]
      exact htail
    · intro _
      show s.channel.early.length + s.pos ≤ e.seq + backlog.length
      omega
  | lag hbacklog =>
    exact ⟨h.numbered, h.stored, h.listening, h.open_, h.early, h.handed, h.seen, h.backlog,
      Nat.sub_le _ _, by simp, fun _ => hbacklog⟩
  | @skip e hbacklog he hold =>
    have hseq := h.seq_sent he
    rw [hbacklog, List.length_nil, Nat.add_zero] at hpos
    refine ⟨h.numbered, h.stored, h.listening, h.open_, h.early, h.handed, h.seen, h.backlog,
      (List.getElem?_eq_some_iff.1 he).1, ?_, h.reading⟩
    intro _
    show s.channel.early.length + (s.pos + 1) ≤ s.seen + s.backlog.length
    omega
  | @live e hbacklog he hnew =>
    have hseq := h.seq_sent he
    rw [hbacklog, List.length_nil, Nat.add_zero] at hpos
    refine ⟨h.numbered, h.stored, h.listening, h.open_, h.early, h.handed.snoc (by omega), ?_, ?_,
      (List.getElem?_eq_some_iff.1 he).1, ?_, h.reading⟩
    · show e.seq = n + (s.handed ++ [e]).length
      rw [List.length_append, List.length_singleton]
      omega
    · show Numbered s.backlog e.seq
      rw [hbacklog]
      exact numbered_nil _
    · intro _
      show s.channel.early.length + (s.pos + 1) ≤ e.seq + s.backlog.length
      omega

/-- **Step**: the backlog read from the store goes on from what was handed out. -/
theorem Whole.read_ok {n : Nat} (h : Whole n s) (hs : inbox s (.read true) = some s') :
    Whole n s' := by
  simp only [inbox] at hs
  split at hs
  · rename_i hreading
    obtain rfl := Option.some.inj hs
    have hnil := h.reading hreading
    have hfilter : s.channel.stored.filter (fun e => s.seen < e.seq)
        = s.channel.stored.drop s.seen := by
      rw [h.numbered.filter, Nat.sub_zero]
    refine ⟨h.numbered, h.stored, h.listening, h.open_, h.early, h.handed, h.seen, ?_, h.read,
      ?_, by simp⟩
    · have hdrop := h.numbered.drop s.seen
      simp only [hnil, if_true, List.nil_append, hfilter]
      rw [Nat.zero_add] at hdrop
      exact hdrop
    · intro _
      have hlength : s.channel.early.length + s.channel.sent.length
          ≤ s.channel.stored.length := by
        rw [h.stored, List.length_append, List.length_append]
        omega
      have hread := h.read
      simp only [hnil, if_true, List.nil_append, hfilter, List.length_drop]
      omega
  · exact absurd hs (by simp)

/-- **Step**: an orderly act keeps an inbox whole. -/
theorem Whole.step {n : Nat} (h : Whole n s) {a : InboxAct} (hs : inbox s a = some s')
    (horderly : a.orderly = true) : Whole n s' := by
  cases a with
  | publish p => exact h.publish hs horderly
  | recv => exact h.recv hs
  | read ok =>
    cases ok with
    | false => exact absurd horderly (by simp [InboxAct.orderly])
    | true => exact h.read_ok hs

/-- **An inbox misses nothing where the events come in order**: where each event is handed over before
those stored after it, the store answers, and what was handed over before the inbox was opened had
been seen, the numbers handed out go on without a gap from the last one seen; and once the channel is
read they are all the numbers stored, but for those that are not handed over yet and those handed
over after the run's end. -/
theorem inbox_complete {c : Channel} {tr₀ : List (Trans Channel Publishing)}
    (hc : Run publish .fresh tr₀ c) (horder : ∀ t ∈ tr₀, t.act.inOrder = true) {seen : Nat}
    (hseen : c.early.length ≤ seen) {tr : List (Trans Inbox InboxAct)}
    (hr : Run inbox (.opened c seen) tr s) (horderly : ∀ t ∈ tr, t.act.orderly = true) :
    s.handed.map Event.seq = List.range' (seen + 1) s.handed.length ∧
      (s.reading = false → s.backlog = [] → s.pos = s.channel.sent.length →
        ∀ e ∈ s.channel.stored, seen < e.seq → e.seq ∈ s.handed.map Event.seq ∨
          e ∈ s.channel.waiting ∨ s.channel.closed = true ∧ e ∈ s.channel.dropped) := by
  have hwhole : Whole seen s := by
    refine Run.invariant (C := fun t => t.act.orderly = true) ?_
      (fun s a s' hs ho h => h.step hs ho) hr horderly
    have hunheard := unheard_run hc horder
    refine ⟨hunheard.numbered, ?_, rfl, fun _ => hunheard.dropped, hseen, numbered_nil _, rfl,
      numbered_nil _, Nat.zero_le _, fun _ => hseen, fun _ => rfl⟩
    show c.stored = c.early ++ (c.sent ++ (c.dropped ++ c.waiting))
    rw [hunheard.stored, hunheard.sent, hunheard.dropped, List.nil_append, List.nil_append]
  refine ⟨hwhole.handed, ?_⟩
  intro hquiet hnil hread e he hlt
  have hpos := hwhole.pos hquiet
  have hlast := hwhole.seen
  have hearly := hwhole.early
  rw [hnil, List.length_nil, Nat.add_zero, hread] at hpos
  rw [hwhole.stored] at he
  rcases List.mem_append.1 he with he | he
  · have hnumbered : Numbered s.channel.early 0 := by
      have hnumbered := hwhole.numbered
      rw [hwhole.stored] at hnumbered
      exact hnumbered.prefix
    have hbound := (hnumbered.bounds he).2
    omega
  · rcases List.mem_append.1 he with he | he
    · have hafter : Numbered s.channel.sent s.channel.early.length := by
        have hnumbered := hwhole.numbered.drop s.channel.early.length
        rw [hwhole.stored, List.drop_left, Nat.zero_add] at hnumbered
        exact hnumbered.prefix
      have hbound := hafter.bounds he
      refine .inl ?_
      rw [hwhole.handed, List.mem_range'_1]
      omega
    · rcases List.mem_append.1 he with he | he
      · refine .inr (.inr ⟨?_, he⟩)
        cases hclosed : s.channel.closed with
        | true => rfl
        | false =>
          rw [hwhole.open_ hclosed] at he
          exact absurd he List.not_mem_nil
      · exact .inr (.inl he)

end

/-! ## two events and one listener -/

def twoEvents : List Publishing :=
  [.append "message" .null, .broadcast 0, .append "answer" .null]

def followedTwo : List StreamAct :=
  [.publish (.append "message" .null), .subscribe 0, .replay, .publish (.append "answer" .null),
    .publish (.broadcast 1), .publish (.broadcast 0), .poll, .poll]

theorem stream_complete_of_two :
    ((eventsOf (final stream .fresh followedTwo).frames).map Event.seq).Nodup ∧
      (∀ e ∈ eventsOf (final stream .fresh followedTwo).frames,
        e ∈ (final stream .fresh followedTwo).channel.stored ∧ (0 : Int) < (e.seq : Int)) ∧
      ((final stream .fresh followedTwo).pos
          = (final stream .fresh followedTwo).channel.sent.length →
        ∀ e ∈ (final stream .fresh followedTwo).channel.stored, (0 : Int) < (e.seq : Int) →
          e ∈ eventsOf (final stream .fresh followedTwo).frames ∨
            e ∈ (final stream .fresh followedTwo).channel.waiting ∨
            (final stream .fresh followedTwo).channel.closed = true ∧
              e ∈ (final stream .fresh followedTwo).channel.dropped) := by
  have hphase : (final stream .fresh followedTwo).phase = .following 0 1 := by rfl
  exact stream_complete (run_trace rfl) hphase (by rfl)

/-- the channel of the two events, and an inbox that has seen the first -/
def readTwo : Inbox :=
  final inbox (.opened (final publish .fresh twoEvents) 1) [.publish (.broadcast 0), .recv]

theorem inbox_ordered_of_two : readTwo.handed.Pairwise (fun a b => a.seq < b.seq) ∧
    ∀ e ∈ readTwo.handed, 1 < e.seq ∧ e ∈ readTwo.channel.stored :=
  inbox_ordered (run_trace rfl) (run_trace rfl)

theorem inbox_complete_of_two :
    readTwo.handed.map Event.seq = List.range' (1 + 1) readTwo.handed.length ∧
      (readTwo.reading = false → readTwo.backlog = [] →
        readTwo.pos = readTwo.channel.sent.length →
        ∀ e ∈ readTwo.channel.stored, 1 < e.seq → e.seq ∈ readTwo.handed.map Event.seq ∨
          e ∈ readTwo.channel.waiting ∨
          readTwo.channel.closed = true ∧ e ∈ readTwo.channel.dropped) := by
  have horder : ∀ t ∈ trace publish .fresh twoEvents, t.act.inOrder = true := by decide +kernel
  have horderly : ∀ t ∈ trace inbox (.opened (final publish .fresh twoEvents) 1)
      [.publish (.broadcast 0), .recv], t.act.orderly = true := by decide +kernel
  exact inbox_complete (run_trace rfl) horder (by decide +kernel) (run_trace rfl) horderly

end Agents
end Portal
