import Portal.Base.OrdMap
import Portal.RunQueue.Entry
import Mathlib.Data.List.Chain

/-!
# A Live stream that takes records in and lands none (`reconciler/stall.rs`)

The runner's counters are cumulative, so the watch keeps one `Sample` a stream: what it had written
when it was last looked at, and the look since which that has not moved.  What it is for is said of
the whole row of looks at a stream (`Stalled`), and the sample is shown to be enough for it.

* `observe`, `retain`      the source;
* `history`                the looks at one stream since it was last dropped;
* `Begins`, `Anchored`     a look the stream has only taken records in since, and the first such;
* `run_anchored`           the sample of a stream is its anchor, after any looks and drops;
* `observe_stalled_iff`    **a stream is called stalled exactly when its history is**.
-/

namespace Portal.Stall

/-- how long a stream may take records in and write nothing -/
def window : Nat := Duration.ofSecs (10 * 60)

/-- the counters of `PipelineMetrics` the watch reads; an absent one is not exported -/
structure Metrics where
  received : Option UInt64
  sent : Option UInt64
  rejected : Option UInt64
  errors : Option UInt64
deriving DecidableEq

structure Sample where
  /-- `sent + rejected + errors` -/
  written : UInt64
  received : UInt64
  /-- when `written` last moved or the watch began, and `received` then -/
  since : Nat
  receivedSince : UInt64
deriving DecidableEq

abbrev Samples := OrdMap Key Sample

/-- one look at a stream whose runner exports both counters -/
structure Reading where
  time : Nat
  received : UInt64
  written : UInt64
deriving DecidableEq

def Metrics.reading (metrics : Metrics) (now : Nat) : Option Reading :=
  match metrics.received, metrics.sent with
  | some received, some sent =>
    some ⟨now, received, sent + metrics.rejected.getD 0 + metrics.errors.getD 0⟩
  | _, _ => none

def Reading.fresh (r : Reading) : Sample := ⟨r.written, r.received, r.time, r.received⟩

/-- the sample the look goes on from: not moved, not first seen, not restarted from zero -/
def held (samples : Samples) (key : Key) (r : Reading) : Option Sample :=
  (samples.get? key).filter (fun held => held.written = r.written ∧ held.received ≤ r.received)

def said (taken : UInt64) (quiet : Nat) : String :=
  "the stream took " ++ toString taken.toNat ++ " record(s) in over the last "
    ++ toString (quiet / Duration.ofSecs 60)
    ++ " minute(s) and sent, rejected or failed none of them; the source delivers and nothing "
    ++ "lands, the runner's log names the reason"

/-- the samples a look leaves, and why the stream is stalled -/
def observe (samples : Samples) (project pipeline : String) (metrics : Metrics) (now : Nat) :
    Samples × Option String :=
  match metrics.reading now with
  | none => (samples, none)
  | some r =>
    let key := Key.of project pipeline
    match held samples key r with
    | none => (samples.insert key r.fresh, none)
    | some sample =>
      let taken := r.received - sample.receivedSince
      let quiet := now - sample.since
      (samples.insert key { sample with received := r.received },
        if 0 < taken ∧ window ≤ quiet then some (said taken quiet) else none)

/-- the streams that are not `live` are dropped -/
def retain (samples : Samples) (live : List Key) : Samples :=
  samples.filterKeys (fun key => decide (key ∈ live))

inductive Act where
  | observe (project pipeline : String) (metrics : Metrics) (now : Nat)
  | retain (live : List Key)

def Act.apply (samples : Samples) : Act → Samples
  | .observe project pipeline metrics now =>
    (Stall.observe samples project pipeline metrics now).1
  | .retain live => Stall.retain samples live

/-- the watch of one process after `acts`, oldest first -/
def run (acts : List Act) : Samples := acts.foldl Act.apply OrdMap.empty

/-! ## histories -/

def note (key : Key) (h : List Reading) : Act → List Reading
  | .observe project pipeline metrics now =>
    if Key.of project pipeline = key then h ++ (metrics.reading now).toList else h
  | .retain live => if key ∈ live then h else []

/-- the looks at `key` since it was last dropped, oldest first -/
def history (key : Key) (acts : List Act) : List Reading := acts.foldl (note key) []

/-- nothing was written between two looks and the runner did not start over -/
def Steady (x y : Reading) : Prop := x.written = y.written ∧ x.received ≤ y.received

instance (x y : Reading) : Decidable (Steady x y) := inferInstanceAs (Decidable (_ ∧ _))

/-- from `s` to the end of `h` nothing was written and `received` never fell; `t` is what was seen
after `s` -/
def Begins (s : Reading) (t h : List Reading) : Prop := (s :: t) <:+ h ∧ (s :: t).IsChain Steady

/-- **the last look of `h` finds the stream stalled**: records came in since some look `window` ago,
and none was written since it -/
def Stalled (h : List Reading) : Prop :=
  ∃ s t r, Begins s t h ∧ h.getLast? = some r ∧ s.time + window ≤ r.time ∧ s.received < r.received

/-- a sample stands for a history: it starts at the first look that `Begins` -/
structure Anchored (x : Sample) (h : List Reading) (s : Reading) (t : List Reading) : Prop where
  begins : Begins s t h
  first : ∀ s' t', Begins s' t' h → (s' :: t') <:+ (s :: t)
  since : x.since = s.time
  receivedSince : x.receivedSince = s.received
  last : ∃ r, (s :: t).getLast? = some r ∧ x.written = r.written ∧ x.received = r.received

theorem getLast?_of_begins {s : Reading} {t h : List Reading} (hb : Begins s t h) :
    h.getLast? = (s :: t).getLast? := by
  obtain ⟨a, ha⟩ := hb.1
  rw [← ha, List.getLast?_append_of_ne_nil _ (List.cons_ne_nil s t)]

theorem begins_single (h : List Reading) (r : Reading) : Begins r [] (h ++ [r]) :=
  ⟨List.suffix_append h [r], List.isChain_singleton r⟩

theorem Begins.snoc {s r l : Reading} {t h : List Reading} (hb : Begins s t h)
    (hl : (s :: t).getLast? = some l) (hs : Steady l r) : Begins s (t ++ [r]) (h ++ [r]) := by
  constructor
  · obtain ⟨a, ha⟩ := hb.1
    exact ⟨a, by rw [← ha, List.append_assoc, List.cons_append]⟩
  · rw [← List.cons_append, List.isChain_append]
    refine ⟨hb.2, List.isChain_singleton r, fun x hx y hy => ?_⟩
    rw [hl] at hx
    obtain rfl : l = x := Option.some.inj hx
    obtain rfl : r = y := Option.some.inj hy
    exact hs

theorem Begins.of_snoc {s r : Reading} {t h : List Reading} (hb : Begins s t (h ++ [r])) :
    (s = r ∧ t = []) ∨
      ∃ t' l, t = t' ++ [r] ∧ Begins s t' h ∧ (s :: t').getLast? = some l ∧ Steady l r := by
  rcases List.eq_nil_or_concat t with rfl | ⟨t', r', rfl⟩
  · left
    have hlast := getLast?_of_begins hb
    rw [List.getLast?_concat] at hlast
    exact ⟨(Option.some.inj hlast).symm, rfl⟩
  · right
    rw [List.concat_eq_append] at hb
    have hlast := getLast?_of_begins hb
    rw [List.getLast?_concat, ← List.cons_append, List.getLast?_concat] at hlast
    obtain rfl : r = r' := Option.some.inj hlast
    obtain ⟨a, ha⟩ := hb.1
    have ha' : a ++ (s :: t') = h := by
      have hcat : a ++ (s :: t') ++ [r] = h ++ [r] := by
        rw [← ha, List.append_assoc, List.cons_append]
      exact List.append_cancel_right hcat
    have hc := hb.2
    rw [← List.cons_append, List.isChain_append] at hc
    obtain ⟨l, hl⟩ : ∃ l, (s :: t').getLast? = some l := by
      rw [← Option.isSome_iff_exists]
      simp
    exact ⟨t', l, List.concat_eq_append .., ⟨⟨a, ha'⟩, hc.1⟩, hl,
      hc.2.2 l (by rw [hl]; rfl) r (by rfl)⟩

/-! ## the anchor -/

theorem Begins.received_le {s x : Reading} {t h : List Reading} (hb : Begins s t h)
    (hx : x ∈ s :: t) : s.received ≤ x.received := by
  have hc : (s :: t).IsChain (fun a b => a.received ≤ b.received) :=
    hb.2.imp (fun _ _ hs => hs.2)
  have hp : (s :: t).Pairwise (fun a b => a.received ≤ b.received) := by
    have : IsTrans Reading (fun a b => a.received ≤ b.received) := ⟨fun _ _ _ => UInt64.le_trans⟩
    exact List.isChain_iff_pairwise.1 hc
  rcases List.mem_cons.1 hx with rfl | hx
  · exact UInt64.le_refl _
  · exact (List.pairwise_cons.1 hp).1 x hx

theorem Begins.time_le {s x : Reading} {t h : List Reading} (hb : Begins s t h)
    (hh : h.Pairwise (fun a b => a.time ≤ b.time)) (hx : x ∈ s :: t) : s.time ≤ x.time := by
  have hp := hh.sublist hb.1.sublist
  rcases List.mem_cons.1 hx with rfl | hx
  · exact Nat.le_refl _
  · exact (List.pairwise_cons.1 hp).1 x hx

theorem Anchored.steady_iff {x : Sample} {s l r : Reading} {t h : List Reading}
    (ha : Anchored x h s t) (hl : (s :: t).getLast? = some l) :
    Steady l r ↔ x.written = r.written ∧ x.received ≤ r.received := by
  obtain ⟨l', hl', hw, hr⟩ := ha.last
  obtain rfl : l' = l := Option.some.inj (hl'.symm.trans hl)
  rw [hw, hr, Steady]

theorem anchored_fresh {h : List Reading} {r : Reading}
    (hn : ∀ l, h.getLast? = some l → ¬ Steady l r) : Anchored r.fresh (h ++ [r]) r [] where
  begins := begins_single h r
  first s' t' hb := by
    rcases hb.of_snoc with ⟨rfl, rfl⟩ | ⟨t'', l, rfl, hb', hl, hs⟩
    · exact List.suffix_refl _
    · rw [← getLast?_of_begins hb'] at hl
      exact absurd hs (hn l hl)
  since := rfl
  receivedSince := rfl
  last := ⟨r, rfl, rfl, rfl⟩

/-- **Step**: a look that finds nothing moved leaves the anchor where it is. -/
theorem Anchored.snoc {x : Sample} {s r : Reading} {t h : List Reading} (ha : Anchored x h s t)
    (hx : x.written = r.written ∧ x.received ≤ r.received) :
    Anchored { x with received := r.received } (h ++ [r]) s (t ++ [r]) := by
  obtain ⟨l, hl, -, -⟩ := ha.last
  have hs : Steady l r := (ha.steady_iff hl).2 hx
  refine ⟨ha.begins.snoc hl hs, fun s' t' hb => ?_, ha.since, ha.receivedSince, r, ?_, hx.1, rfl⟩
  · rw [← List.cons_append]
    rcases hb.of_snoc with ⟨rfl, rfl⟩ | ⟨t'', l', rfl, hb', -, -⟩
    · exact List.suffix_append (s :: t) [s']
    · rw [← List.cons_append]
      obtain ⟨a, ha'⟩ := ha.first s' t'' hb'
      exact ⟨a, by rw [← ha', List.append_assoc]⟩
  · rw [← List.cons_append, List.getLast?_concat]

/-- the first look that `Begins` decides whether the stream is stalled -/
theorem Anchored.stalled_iff {x : Sample} {s r : Reading} {t h : List Reading}
    (ha : Anchored x h s t) (hr : h.getLast? = some r)
    (hh : h.Pairwise (fun a b => a.time ≤ b.time)) :
    Stalled h ↔ s.time + window ≤ r.time ∧ s.received < r.received := by
  constructor
  · rintro ⟨s', t', r', hb, hr', htime, hrec⟩
    obtain rfl : r' = r := Option.some.inj (hr'.symm.trans hr)
    have hmem : s' ∈ s :: t := (ha.first s' t' hb).subset (List.mem_cons_self ..)
    have ht := ha.begins.time_le hh hmem
    have hle := ha.begins.received_le hmem
    exact ⟨by omega, UInt64.lt_of_le_of_lt hle hrec⟩
  · rintro ⟨htime, hrec⟩
    exact ⟨s, t, r, ha.begins, hr, htime, hrec⟩

/-! ## the watch and its histories -/

/-- a stream has a sample exactly when it was looked at, and the sample is its anchor -/
def Watched (x : Option Sample) (h : List Reading) : Prop :=
  match x with
  | none => h = []
  | some x => ∃ s t, Anchored x h s t

theorem held_eq_some {samples : Samples} {key : Key} {r : Reading} {x : Sample} :
    held samples key r = some x ↔
      samples.get? key = some x ∧ x.written = r.written ∧ x.received ≤ r.received := by
  rw [held, Option.filter_eq_some_iff, decide_eq_true_eq]

theorem not_steady_of_held {samples : Samples} {key : Key} {h : List Reading} {r l : Reading}
    (hw : Watched (samples.get? key) h) (hn : held samples key r = none)
    (hl : h.getLast? = some l) : ¬ Steady l r := by
  intro hs
  cases hx : samples.get? key with
  | none =>
    rw [hx] at hw
    have hnil : h = [] := hw
    rw [hnil] at hl
    exact nomatch hl
  | some x =>
    rw [hx] at hw
    obtain ⟨s, t, ha⟩ := hw
    rw [getLast?_of_begins ha.begins] at hl
    have hh : held samples key r = some x := held_eq_some.2 ⟨hx, (ha.steady_iff hl).1 hs⟩
    rw [hn] at hh
    exact nomatch hh

theorem observe_self {samples : Samples} {project pipeline : String} {metrics : Metrics} {now : Nat}
    {h : List Reading} (hw : Watched (samples.get? (Key.of project pipeline)) h) :
    Watched ((observe samples project pipeline metrics now).1.get? (Key.of project pipeline))
      (h ++ (metrics.reading now).toList) := by
  rw [observe]
  cases hm : metrics.reading now with
  | none =>
    rw [Option.toList_none, List.append_nil]
    exact hw
  | some r =>
    show Watched ((match held samples (Key.of project pipeline) r with
      | none => _
      | some _ => _ : Samples × Option String).1.get? _) (h ++ [r])
    cases hh : held samples (Key.of project pipeline) r with
    | none =>
      show Watched ((samples.insert _ r.fresh).get? _) _
      rw [OrdMap.get?_insert, if_pos rfl]
      exact ⟨r, [], anchored_fresh (fun l hl => not_steady_of_held hw hh hl)⟩
    | some x =>
      obtain ⟨hx, hs⟩ := held_eq_some.1 hh
      rw [hx] at hw
      obtain ⟨s, t, ha⟩ := hw
      show Watched ((samples.insert _ { x with received := r.received }).get? _) _
      rw [OrdMap.get?_insert, if_pos rfl]
      exact ⟨s, t ++ [r], ha.snoc hs⟩

theorem observe_other {samples : Samples} {project pipeline : String} {metrics : Metrics}
    {now : Nat} {key : Key} (hk : Key.of project pipeline ≠ key) :
    (observe samples project pipeline metrics now).1.get? key = samples.get? key := by
  rw [observe]
  cases metrics.reading now with
  | none => rfl
  | some r =>
    cases hh : held samples (Key.of project pipeline) r with
    | none =>
      simp only [hh]
      rw [OrdMap.get?_insert, if_neg (Ne.symm hk)]
    | some x =>
      simp only [hh]
      rw [OrdMap.get?_insert, if_neg (Ne.symm hk)]

theorem get?_retain (samples : Samples) (live : List Key) (key : Key) :
    (retain samples live).get? key = if key ∈ live then samples.get? key else none := by
  rw [retain, OrdMap.get?_filterKeys]
  by_cases hk : key ∈ live <;> simp [hk]

/-- **Step**: every look and every drop keeps the samples at their anchors. -/
theorem watched_apply {samples : Samples} {key : Key} {h : List Reading} (a : Act)
    (hw : Watched (samples.get? key) h) :
    Watched ((a.apply samples).get? key) (note key h a) := by
  cases a with
  | observe project pipeline metrics now =>
    show Watched ((Stall.observe samples project pipeline metrics now).1.get? key) (if _ then _ else _)
    by_cases hk : Key.of project pipeline = key
    · subst hk
      rw [if_pos rfl]
      exact observe_self hw
    · rw [if_neg hk, observe_other hk]
      exact hw
  | retain live =>
    show Watched ((Stall.retain samples live).get? key) (if _ then _ else _)
    rw [get?_retain]
    by_cases hk : key ∈ live
    · rw [if_pos hk, if_pos hk]
      exact hw
    · rw [if_neg hk, if_neg hk]
      rfl

/-- **Run**: after any looks and drops the sample of a stream is the anchor of its history. -/
theorem run_anchored (acts : List Act) (key : Key) :
    Watched ((run acts).get? key) (history key acts) := by
  induction acts using List.reverseRecOn with
  | nil => rfl
  | append_singleton acts a ih =>
    rw [run, history, List.foldl_append, List.foldl_append]
    exact watched_apply a ih

/-! ## what a look says -/

theorem receivedSince_le {acts : List Act} {key : Key} {r : Reading} {x : Sample}
    (hx : held (run acts) key r = some x) : x.receivedSince ≤ r.received := by
  obtain ⟨hget, hs⟩ := held_eq_some.1 hx
  have hw := run_anchored acts key
  rw [hget] at hw
  obtain ⟨s, t, ha⟩ := hw
  have hr : r ∈ s :: (t ++ [r]) := by simp
  rw [ha.receivedSince]
  exact (ha.snoc hs).begins.received_le hr

theorem sub_pos_iff {a b : UInt64} (h : a ≤ b) : 0 < b - a ↔ a < b := by
  rw [UInt64.lt_iff_toNat_lt, UInt64.lt_iff_toNat_lt, UInt64.toNat_sub_of_le b a h]
  have h' := UInt64.le_iff_toNat_le.1 h
  show 0 < _ ↔ _
  omega

theorem history_observe (acts : List Act) (project pipeline : String) (metrics : Metrics)
    (now : Nat) :
    history (Key.of project pipeline) (acts ++ [.observe project pipeline metrics now])
      = history (Key.of project pipeline) acts ++ (metrics.reading now).toList := by
  rw [history, List.foldl_append]
  show (if _ then _ else _) = _
  rw [if_pos rfl]
  rfl

theorem observe_of_not_held {samples : Samples} {project pipeline : String} {metrics : Metrics}
    {now : Nat} {r : Reading} (hm : metrics.reading now = some r)
    (hx : held samples (Key.of project pipeline) r = none) :
    (observe samples project pipeline metrics now).2 = none := by
  rw [observe]
  simp only [hm, hx]

theorem observe_of_held {samples : Samples} {project pipeline : String} {metrics : Metrics}
    {now : Nat} {r : Reading} {x : Sample} (hm : metrics.reading now = some r)
    (hx : held samples (Key.of project pipeline) r = some x) :
    (observe samples project pipeline metrics now).2.isSome ↔
      0 < r.received - x.receivedSince ∧ window ≤ now - x.since := by
  rw [observe]
  simp only [hm, hx]
  by_cases hs : 0 < r.received - x.receivedSince ∧ window ≤ now - x.since
  · rw [if_pos hs]
    exact ⟨fun _ => hs, fun _ => rfl⟩
  · rw [if_neg hs]
    exact ⟨fun h => (nomatch h), fun h => absurd h hs⟩

/-- what a look that exports its counters says, by the anchor it leaves -/
theorem observe_isSome_iff {acts : List Act} {project pipeline : String} {metrics : Metrics}
    {now : Nat} {r : Reading} (hm : metrics.reading now = some r)
    (hh : (history (Key.of project pipeline) acts ++ [r]).Pairwise
      (fun a b => a.time ≤ b.time)) :
    (observe (run acts) project pipeline metrics now).2.isSome ↔
      Stalled (history (Key.of project pipeline) acts ++ [r]) := by
  have hw := run_anchored acts (Key.of project pipeline)
  have hnow : now = r.time := by
    rw [Metrics.reading] at hm
    split at hm
    · rw [← Option.some.inj hm]
    · exact nomatch hm
  cases hx : held (run acts) (Key.of project pipeline) r with
  | none =>
    have ha := anchored_fresh (fun l hl => not_steady_of_held hw hx hl)
    rw [observe_of_not_held hm hx, ha.stalled_iff (List.getLast?_concat ..) hh]
    simp
  | some x =>
    have hle := receivedSince_le hx
    obtain ⟨hget, hs⟩ := held_eq_some.1 hx
    rw [hget] at hw
    obtain ⟨s, t, ha⟩ := hw
    have htime : s.time ≤ r.time := (ha.snoc hs).begins.time_le hh (by simp)
    rw [observe_of_held hm hx, (ha.snoc hs).stalled_iff (List.getLast?_concat ..) hh,
      sub_pos_iff hle, ha.since, ha.receivedSince, hnow, and_comm]
    have hq : window ≤ r.time - s.time ↔ s.time + window ≤ r.time := by omega
    rw [hq]

/-- **The watch is right about every history**: after any looks at any streams and any drops, a look
calls a stream stalled exactly when it exports its counters and the stream's history up to it is
stalled; no look subtracts more than it read; and a drop forgets the streams that are not kept and
no others. -/
theorem observe_stalled_iff (acts : List Act) (project pipeline : String) (metrics : Metrics)
    (now : Nat)
    (hh : (history (Key.of project pipeline)
        (acts ++ [.observe project pipeline metrics now])).Pairwise
      (fun a b => a.time ≤ b.time)) :
    ((observe (run acts) project pipeline metrics now).2.isSome ↔
      (metrics.reading now).isSome ∧
        Stalled (history (Key.of project pipeline)
          (acts ++ [.observe project pipeline metrics now]))) ∧
    (∀ r x, metrics.reading now = some r →
      held (run acts) (Key.of project pipeline) r = some x → x.receivedSince ≤ r.received) ∧
    ∀ live key, (retain (run acts) live).get? key =
      if key ∈ live then (run acts).get? key else none := by
  refine ⟨?_, fun r x _ hx => receivedSince_le hx, fun live key => get?_retain _ live key⟩
  rw [history_observe] at hh ⊢
  cases hm : metrics.reading now with
  | none =>
    rw [observe]
    simp only [hm]
    exact ⟨fun h => (nomatch h), fun h => (nomatch h.1)⟩
  | some r =>
    rw [hm] at hh
    rw [Option.toList_some] at hh ⊢
    rw [observe_isSome_iff hm hh]
    exact ⟨fun h => ⟨rfl, h⟩, And.right⟩

/-- a stream that took 9000 records in over ten minutes and wrote none -/
def busy (received : UInt64) : Metrics := ⟨some received, some 300, none, some 10⟩

theorem observe_stalled_iff_of_busy :
    Stalled (history (Key.of "helsinki" "hfp")
      ([.observe "helsinki" "hfp" (busy 1000) 0] ++ [.observe "helsinki" "hfp" (busy 9000) window])) := by
  have hh : (history (Key.of "helsinki" "hfp")
      ([.observe "helsinki" "hfp" (busy 1000) 0] ++
        [.observe "helsinki" "hfp" (busy 9000) window])).Pairwise
      (fun a b => a.time ≤ b.time) := by
    decide +kernel
  have hsaid : (observe (run [.observe "helsinki" "hfp" (busy 1000) 0]) "helsinki" "hfp"
      (busy 9000) window).2.isSome := by
    decide +kernel
  exact ((observe_stalled_iff _ _ _ _ _ hh).1.1 hsaid).2

end Portal.Stall
