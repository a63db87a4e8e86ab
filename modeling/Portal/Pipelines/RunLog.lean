import Mathlib.Data.List.Dedup
import Portal.Pipelines.Log

/-!
# The run log is true to its reports

What a pipeline's log holds, said of everything reported of it since it was last forgotten: the lines
and the runs age out by bounds of their own, and a run that was dropped may come back.

* `rtake_append_rtake`, `rtake_erase_concat`   the newest of a list, dropped to on every step;
* `reportedLines`, `keptRuns`, `Entered`       the lines, the runs that are kept, and since when one is;
* `True.step`                one event keeps every kept run true to its reports;
* `follow_all`               the pages of a run's lines are all of them, each once;
* `runLog_true`              **the log is true to its reports**.
-/

namespace Portal

namespace Pipelines

/-! ## the newest of a list -/

section
variable {α : Type*}

theorem rtake_of_le {l : List α} {k : Nat} (h : l.length ≤ k) : l.rtake k = l := by
  rw [List.rtake, Nat.sub_eq_zero_of_le h, List.drop_zero]

theorem rtake_of_suffix {s l : List α} {k : Nat} (hs : s <:+ l) (hk : k ≤ s.length) :
    l.rtake k = s.rtake k := by
  obtain ⟨p, rfl⟩ := hs
  have hlen : (p ++ s).length - k = p.length + (s.length - k) := by
    rw [List.length_append]
    omega
  rw [List.rtake, hlen, List.drop_length_add_append, List.rtake]

theorem rtake_suffix (l : List α) (k : Nat) : l.rtake k <:+ l := List.drop_suffix _ _

theorem length_rtake (l : List α) (k : Nat) : (l.rtake k).length = min k l.length := by
  rw [List.rtake, List.length_drop]
  omega

theorem rtake_append_rtake (l m : List α) (k : Nat) : (l.rtake k ++ m).rtake k = (l ++ m).rtake k := by
  rcases Nat.lt_or_ge k l.length with hlt | hle
  rotate_left
  · rw [rtake_of_le hle]
  · obtain ⟨p, hp⟩ := rtake_suffix l k
    have hsuffix : l.rtake k ++ m <:+ l ++ m := ⟨p, by rw [← List.append_assoc, hp]⟩
    refine (rtake_of_suffix hsuffix ?_).symm
    rw [List.length_append, length_rtake]
    omega

variable [DecidableEq α]

theorem dedup_concat (l : List α) (x : α) : (l ++ [x]).dedup = l.dedup.erase x ++ [x] := by
  induction l with
  | nil => rfl
  | cons a l ih =>
    rw [List.cons_append]
    by_cases ha : a ∈ l
    · rw [List.dedup_cons_of_mem (List.mem_append_left _ ha), List.dedup_cons_of_mem ha, ih]
    · rw [List.dedup_cons_of_notMem ha]
      by_cases hx : a = x
      · subst hx
        rw [List.dedup_cons_of_mem (by simp), ih, List.erase_cons_head,
          List.erase_of_not_mem (fun h => ha (List.mem_dedup.1 h))]
      · have hnot : a ∉ l ++ [x] := by simp [ha, hx]
        rw [List.dedup_cons_of_notMem hnot, ih,
          List.erase_cons_tail (by simpa using hx), List.cons_append]

theorem rtake_erase_concat {l : List α} (hl : l.Nodup) (x : α) (k : Nat) :
    ((l.rtake k).erase x ++ [x]).rtake k = (l.erase x ++ [x]).rtake k := by
  rcases Nat.lt_or_ge k l.length with hlt | hle
  rotate_left
  · rw [rtake_of_le hle]
  · obtain ⟨p, hp⟩ := rtake_suffix l k
    have hlen := length_rtake l k
    have hsuffix : (l.rtake k).erase x ++ [x] <:+ l.erase x ++ [x] := by
      by_cases hx : x ∈ p
      · have hnot : x ∉ l.rtake k := fun h =>
          (List.disjoint_of_nodup_append (hp.symm ▸ hl)) hx h
        rw [List.erase_of_not_mem hnot, ← hp, List.erase_append_left _ hx, hp]
        exact ⟨p.erase x, by rw [List.append_assoc]⟩
      · have herase : l.erase x = p ++ (l.rtake k).erase x := by
          conv => lhs; rw [← hp]
          exact List.erase_append_right _ hx
        rw [herase]
        exact ⟨p, by rw [List.append_assoc]⟩
    refine (rtake_of_suffix hsuffix ?_).symm
    have hge : (l.rtake k).length - 1 ≤ ((l.rtake k).erase x).length := by
      rw [List.length_erase]
      split <;> omega
    rw [List.length_append, List.length_singleton]
    omega

end

/-! ## lines -/

def reportedLines (h : List Event) : List Line :=
  h.flatMap (fun e => match e with
    | .append now run lines => lines.map (NewLine.kept now run)
    | _ => [])

theorem reportedLines_snoc (h : List Event) (e : Event) :
    reportedLines (h ++ [e]) = reportedLines h ++ reportedLines [e] := List.flatMap_append

theorem numbered_append (n : Nat) (a b : List Line) :
    numbered n (a ++ b) = numbered n a ++ numbered (n + a.length) b := by
  unfold numbered
  rw [List.zipIdx_append, List.map_append]
  congr 3
  omega

theorem map_id_numbered (n : Nat) (l : List Line) :
    (numbered n l).map LogLine.id = List.range' (n + 1) l.length := by
  rw [numbered, List.map_map]
  exact List.zipIdx_map_snd (n + 1) l

theorem numbered_increasing (n : Nat) (l : List Line) :
    (numbered n l).Pairwise (fun a b => a.id < b.id) := by
  rw [← List.pairwise_map, map_id_numbered]
  exact List.pairwise_lt_range'

theorem ranStream_lines (m : Memory) (run stream : String) :
    (m.ranStream run stream).lines = m.lines ∧ (m.ranStream run stream).next = m.next ∧
      (m.ranStream run stream).runs = m.runs := by
  unfold Memory.ranStream
  split <;> exact ⟨rfl, rfl, rfl⟩

theorem replay_lines (h : List Event) :
    (replay h).lines = (numbered 0 (reportedLines h)).rtake linesKept ∧
      (replay h).next = (reportedLines h).length := by
  induction h using List.reverseRecOn with
  | nil =>
    show [] = ([] : List LogLine).rtake linesKept ∧ 0 = 0
    rw [List.rtake_nil]
    exact ⟨rfl, rfl⟩
  | append_singleton h e ih =>
    obtain ⟨hlines, hnext⟩ := ih
    rw [replay_snoc, reportedLines_snoc]
    cases e with
    | append now run lines =>
      have hone : reportedLines [.append now run lines] = lines.map (NewLine.kept now run) :=
        List.append_nil _
      rw [hone]
      constructor
      · show ((replay h).append now run lines).lines = _
        unfold Memory.append
        dsimp only
        have hnum := numbered_append 0 (reportedLines h) (lines.map (NewLine.kept now run))
        rw [Nat.zero_add] at hnum
        rw [hnum, hlines, hnext]
        exact rtake_append_rtake _ _ _
      · show (replay h).next + lines.length = _
        rw [hnext, List.length_append, List.length_map]
    | changes run written =>
      show (replay h).lines = (numbered 0 (reportedLines h ++ [])).rtake linesKept ∧
        (replay h).next = (reportedLines h ++ []).length
      rw [List.append_nil]
      exact ⟨hlines, hnext⟩
    | stream run stream =>
      show ((replay h).ranStream run stream).lines = _ ∧ ((replay h).ranStream run stream).next
        = (reportedLines h ++ []).length
      rw [(ranStream_lines _ _ _).1, (ranStream_lines _ _ _).2.1]
      show _ = (numbered 0 (reportedLines h ++ [])).rtake linesKept ∧ _
      rw [List.append_nil]
      exact ⟨hlines, hnext⟩

/-! ## runs -/

/-- the runs reported, oldest report first -/
def reportedRuns (h : List Event) : List String :=
  h.filterMap (fun e => match e with
    | .append _ run _ => some run
    | _ => none)

/-- the runs most recently reported, the newest report last -/
def keptRuns (h : List Event) : List String := (reportedRuns h).dedup.rtake runsKept

theorem reportedRuns_snoc (h : List Event) (e : Event) :
    reportedRuns (h ++ [e]) = reportedRuns h ++ reportedRuns [e] := List.filterMap_append

theorem eraseP_run (run : String) (runs : List LogRun) :
    (runs.eraseP (fun r => r.run = run)).map LogRun.run = (runs.map LogRun.run).erase run := by
  induction runs with
  | nil => rfl
  | cons r runs ih =>
    rw [List.map_cons]
    by_cases hr : r.run = run
    · rw [List.eraseP_cons_of_pos (by simpa using hr), hr, List.erase_cons_head]
    · rw [List.eraseP_cons_of_neg (by simpa using hr), List.map_cons, ih,
        List.erase_cons_tail (by simpa using hr)]

theorem countRun_run (now run : String) (lines : List NewLine) (runs : List LogRun) :
    (countRun now run lines runs).map LogRun.run = (runs.map LogRun.run).erase run ++ [run] := by
  unfold countRun
  cases hf : runs.find? (fun r => r.run = run) with
  | some kept =>
    have hkept : kept.run = run := by simpa using List.find?_some hf
    dsimp only
    rw [List.map_append, eraseP_run, List.map_singleton, hkept]
  | none =>
    have hnot : run ∉ runs.map LogRun.run := by
      intro hmem
      obtain ⟨r, hr, heq⟩ := List.mem_map.1 hmem
      have hne := List.find?_eq_none.1 hf r hr
      exact hne (by simpa using heq)
    dsimp only
    rw [List.map_append, List.erase_of_not_mem hnot]
    rfl

theorem changeRun_run (run : String) (c : Changes) (runs : List LogRun) :
    (changeRun run c runs).map LogRun.run = runs.map LogRun.run := by
  induction runs with
  | nil => rfl
  | cons r runs ih =>
    rw [changeRun]
    split
    · rfl
    · rw [List.map_cons, List.map_cons, ih]

theorem map_rtake {α β : Type*} (f : α → β) (l : List α) (k : Nat) :
    (l.rtake k).map f = (l.map f).rtake k := by
  rw [List.rtake, List.rtake, List.map_drop, List.length_map]

theorem append_runs (m : Memory) (now run : String) (lines : List NewLine) :
    (m.append now run lines).runs = (countRun now run lines m.runs).rtake runsKept := by
  unfold Memory.append
  dsimp only

theorem get?_append_streams (m : Memory) (now run : String) (lines : List NewLine) (other : String) :
    (m.append now run lines).streams.get? other
      = if other ∈ ((m.append now run lines).runs.map LogRun.run) then m.streams.get? other
        else none := by
  rw [append_runs]
  unfold Memory.append
  dsimp only
  rw [OrdMap.get?_filterKeys]
  generalize (countRun now run lines m.runs).rtake runsKept = runs
  by_cases hmem : other ∈ runs.map LogRun.run
  · obtain ⟨r, hr, hrun⟩ := List.mem_map.1 hmem
    have hany : runs.any (fun kept => kept.run = other) = true :=
      List.any_eq_true.2 ⟨r, hr, by simpa using hrun⟩
    rw [if_pos hmem, if_pos hany]
  · have hany : ¬ runs.any (fun kept => kept.run = other) = true := by
      intro h
      obtain ⟨r, hr, hrun⟩ := List.any_eq_true.1 h
      exact hmem (List.mem_map.2 ⟨r, hr, by simpa using hrun⟩)
    rw [if_neg hmem, if_neg hany]

theorem keptRuns_append (h : List Event) (now run : String) (lines : List NewLine) :
    keptRuns (h ++ [.append now run lines]) = ((keptRuns h).erase run ++ [run]).rtake runsKept := by
  have hone : reportedRuns [.append now run lines] = [run] := rfl
  rw [keptRuns, reportedRuns_snoc, hone, dedup_concat, keptRuns,
    rtake_erase_concat (List.nodup_dedup _)]

theorem keptRuns_changes (h : List Event) (run : String) (written : List (String × String)) :
    keptRuns (h ++ [.changes run written]) = keptRuns h := by
  have hone : reportedRuns [.changes run written] = [] := rfl
  rw [keptRuns, reportedRuns_snoc, hone, List.append_nil, keptRuns]

theorem keptRuns_stream (h : List Event) (run stream : String) :
    keptRuns (h ++ [.stream run stream]) = keptRuns h := by
  have hone : reportedRuns [.stream run stream] = [] := rfl
  rw [keptRuns, reportedRuns_snoc, hone, List.append_nil, keptRuns]

theorem keptRuns_nodup (h : List Event) : (keptRuns h).Nodup :=
  (List.nodup_dedup _).sublist (rtake_suffix _ _).sublist

/-! ## since when a run is kept -/

/-- a run came into the list after `a` and stayed there through `t` -/
def Entered (run : String) (a t : List Event) : Prop :=
  run ∉ keptRuns a ∧ ∀ p, p <+: t → p ≠ [] → run ∈ keptRuns (a ++ p)

/-- the records of an outcome that were reported of a run -/
def reportedOf (outcome : Outcome) (run : String) (t : List Event) : Nat :=
  (t.map (fun e => match e with
    | .append _ run' lines => if run' = run then count outcome lines else 0
    | _ => 0)).sum

def filed (run : String) (t : List Event) : Option String :=
  (t.filterMap (fun e => match e with
    | .stream run' stream => if run' = run then some stream else none
    | _ => none)).getLast?

theorem reportedOf_snoc (outcome : Outcome) (run : String) (t : List Event) (e : Event) :
    reportedOf outcome run (t ++ [e]) = reportedOf outcome run t + reportedOf outcome run [e] := by
  rw [reportedOf, List.map_append, List.sum_append]
  rfl

theorem Entered.snoc {run : String} {a t : List Event} {e : Event} (h : Entered run a t)
    (hkept : run ∈ keptRuns (a ++ t ++ [e])) : Entered run a (t ++ [e]) := by
  refine ⟨h.1, fun p hp hne => ?_⟩
  rcases List.prefix_concat_iff.1 hp with rfl | hp
  · rw [← List.append_assoc]
    exact hkept
  · exact h.2 p hp hne

theorem entered_one {run : String} {h : List Event} {e : Event} (hnot : run ∉ keptRuns h)
    (hkept : run ∈ keptRuns (h ++ [e])) : Entered run h [e] := by
  refine ⟨hnot, fun p hp hne => ?_⟩
  rcases List.prefix_concat_iff.1 (show p <+: [] ++ [e] from hp) with rfl | hp
  · exact hkept
  · exact absurd (List.prefix_nil.1 hp) hne

theorem Entered.unique {run : String} {a t a' t' : List Event} (h : Entered run a t)
    (h' : Entered run a' t') (heq : a ++ t = a' ++ t') : t = t' := by
  rcases List.append_eq_append_iff.1 heq with ⟨p, rfl, rfl⟩ | ⟨p, rfl, rfl⟩
  · cases p with
    | nil => rfl
    | cons e p => exact absurd (h.2 _ (List.prefix_append _ _) (List.cons_ne_nil e p)) h'.1
  · cases p with
    | nil => rfl
    | cons e p => exact absurd (h'.2 _ (List.prefix_append _ _) (List.cons_ne_nil e p)) h.1

/-! ## one event -/

/-- a kept run is true to its reports: its counts are the sums since it entered, and its stream is the
one filed last since then -/
def RunTrue (h : List Event) (m : Memory) (r : LogRun) : Prop :=
  ∃ a t, h = a ++ t ∧ Entered r.run a t ∧ r.sent = reportedOf .sent r.run t ∧
    r.rejected = reportedOf .rejected r.run t ∧ r.failed = reportedOf .failed r.run t ∧
    m.streams.get? r.run = filed r.run t

structure LogTrue (h : List Event) (m : Memory) : Prop where
  names : m.runs.map LogRun.run = keptRuns h
  runs : ∀ r ∈ m.runs, RunTrue h m r
  streams : ∀ run stream, m.streams.get? run = some stream → run ∈ keptRuns h

theorem filed_append (run : String) (t : List Event) (now run' : String) (lines : List NewLine) :
    filed run (t ++ [.append now run' lines]) = filed run t := by
  rw [filed, List.filterMap_append, filed]
  show (_ ++ []).getLast? = _
  rw [List.append_nil]

theorem filed_changes (run : String) (t : List Event) (run' : String)
    (written : List (String × String)) :
    filed run (t ++ [.changes run' written]) = filed run t := by
  rw [filed, List.filterMap_append, filed]
  show (_ ++ []).getLast? = _
  rw [List.append_nil]

theorem filed_stream (run : String) (t : List Event) (run' stream : String) :
    filed run (t ++ [.stream run' stream]) = if run' = run then some stream else filed run t := by
  rw [filed, List.filterMap_append, filed]
  by_cases hr : run' = run
  · rw [if_pos hr, List.filterMap_cons_some (b := stream) (by simp [hr]), List.filterMap_nil,
      List.getLast?_concat]
  · rw [if_neg hr, List.filterMap_cons_none (by simp [hr]), List.filterMap_nil, List.append_nil]

theorem reportedOf_self (outcome : Outcome) (now run : String) (lines : List NewLine) :
    reportedOf outcome run [.append now run lines] = count outcome lines := by
  simp [reportedOf]

theorem reportedOf_other (outcome : Outcome) {run run' : String} (h : run' ≠ run) (now : String)
    (lines : List NewLine) : reportedOf outcome run [.append now run' lines] = 0 := by
  simp [reportedOf, h]

theorem RunTrue.append_other {h : List Event} {m : Memory} {r : LogRun} (hr : RunTrue h m r)
    (now run : String) (lines : List NewLine) (hne : run ≠ r.run)
    (hkept : r.run ∈ keptRuns (h ++ [.append now run lines]))
    (hnames : (m.append now run lines).runs.map LogRun.run
      = keptRuns (h ++ [.append now run lines])) :
    RunTrue (h ++ [.append now run lines]) (m.append now run lines) r := by
  obtain ⟨a, t, rfl, he, hs, hj, hf, hst⟩ := hr
  refine ⟨a, t ++ [.append now run lines], by rw [List.append_assoc], he.snoc hkept, ?_, ?_, ?_, ?_⟩
  · rw [reportedOf_snoc, reportedOf_other _ hne, hs, Nat.add_zero]
  · rw [reportedOf_snoc, reportedOf_other _ hne, hj, Nat.add_zero]
  · rw [reportedOf_snoc, reportedOf_other _ hne, hf, Nat.add_zero]
  · rw [get?_append_streams, hnames, if_pos hkept, filed_append]
    exact hst

/-- what `countRun` leaves of the run itself -/
theorem countRun_self {now run : String} {lines : List NewLine} {runs : List LogRun} {r : LogRun}
    (hn : (runs.map LogRun.run).Nodup) (hmem : r ∈ countRun now run lines runs) (hrun : r.run = run) :
    (∃ kept ∈ runs, kept.run = run ∧ r.sent = kept.sent + count .sent lines ∧
      r.rejected = kept.rejected + count .rejected lines ∧
      r.failed = kept.failed + count .failed lines) ∨
    (run ∉ runs.map LogRun.run ∧ r.sent = count .sent lines ∧ r.rejected = count .rejected lines ∧
      r.failed = count .failed lines) := by
  unfold countRun at hmem
  cases hf : runs.find? (fun r => r.run = run) with
  | some kept =>
    have hkept : kept.run = run := by simpa using List.find?_some hf
    rw [hf] at hmem
    rcases List.mem_append.1 hmem with hmem | hmem
    · have herase : r.run ∈ (runs.map LogRun.run).erase run :=
        eraseP_run run runs ▸ List.mem_map_of_mem hmem
      rw [hrun] at herase
      exact absurd herase hn.not_mem_erase
    · obtain rfl := List.mem_singleton.1 hmem
      exact Or.inl ⟨kept, List.mem_of_find?_eq_some hf, hkept, rfl, rfl, rfl⟩
  | none =>
    have hnot : run ∉ runs.map LogRun.run := by
      intro h
      obtain ⟨other, hother, heq⟩ := List.mem_map.1 h
      exact List.find?_eq_none.1 hf other hother (by simpa using heq)
    rw [hf] at hmem
    rcases List.mem_append.1 hmem with hmem | hmem
    · exact absurd (hrun ▸ List.mem_map_of_mem hmem) hnot
    · obtain rfl := List.mem_singleton.1 hmem
      exact Or.inr ⟨hnot, rfl, rfl, rfl⟩

theorem mem_of_countRun_other {now run : String} {lines : List NewLine} {runs : List LogRun}
    {r : LogRun} (hmem : r ∈ countRun now run lines runs) (hrun : r.run ≠ run) : r ∈ runs := by
  unfold countRun at hmem
  cases hf : runs.find? (fun r => r.run = run) with
  | some kept =>
    rw [hf] at hmem
    rcases List.mem_append.1 hmem with hmem | hmem
    · exact List.mem_of_mem_eraseP hmem
    · have hkept : kept.run = run := by simpa using List.find?_some hf
      obtain rfl := List.mem_singleton.1 hmem
      exact absurd hkept hrun
  | none =>
    rw [hf] at hmem
    rcases List.mem_append.1 hmem with hmem | hmem
    · exact hmem
    · obtain rfl := List.mem_singleton.1 hmem
      exact absurd rfl hrun

theorem runTrue_of_countRun {h : List Event} {m : Memory} (hm : LogTrue h m) (now run : String)
    (lines : List NewLine) {r : LogRun} (hmem : r ∈ countRun now run lines m.runs)
    (hrun : r.run = run) (hkept : run ∈ keptRuns (h ++ [.append now run lines]))
    (hnames : (m.append now run lines).runs.map LogRun.run
      = keptRuns (h ++ [.append now run lines])) :
    RunTrue (h ++ [.append now run lines]) (m.append now run lines) r := by
  have hn : (m.runs.map LogRun.run).Nodup := hm.names ▸ keptRuns_nodup h
  rcases countRun_self hn hmem hrun with ⟨kept, hin, hname, hs, hj, hf⟩ | ⟨hnot, hs, hj, hf⟩
  · obtain ⟨a, t, hat, he, hs', hj', hf', hst⟩ := hm.runs kept hin
    rw [hname] at he hs' hj' hf' hst
    subst hat
    subst hrun
    refine ⟨a, t ++ [.append now r.run lines], by rw [List.append_assoc], he.snoc hkept, ?_, ?_, ?_, ?_⟩
    · rw [reportedOf_snoc, reportedOf_self, hs, hs']
    · rw [reportedOf_snoc, reportedOf_self, hj, hj']
    · rw [reportedOf_snoc, reportedOf_self, hf, hf']
    · rw [get?_append_streams, hnames, if_pos hkept, filed_append]
      exact hst
  · rw [hm.names] at hnot
    subst hrun
    refine ⟨h, [.append now r.run lines], rfl, entered_one hnot hkept, ?_, ?_, ?_, ?_⟩
    · rw [reportedOf_self, hs]
    · rw [reportedOf_self, hj]
    · rw [reportedOf_self, hf]
    · rw [get?_append_streams, hnames, if_pos hkept]
      cases hst : m.streams.get? r.run with
      | none => rfl
      | some stream => exact absurd (hm.streams _ _ hst) hnot

/-- **Step**: a report of a run's lines. -/
theorem LogTrue.append {h : List Event} {m : Memory} (hm : LogTrue h m) (now run : String)
    (lines : List NewLine) : LogTrue (h ++ [.append now run lines]) (m.append now run lines) := by
  have hnames : (m.append now run lines).runs.map LogRun.run
      = keptRuns (h ++ [.append now run lines]) := by
    rw [append_runs, map_rtake, countRun_run, hm.names, keptRuns_append]
  refine ⟨hnames, fun r hr => ?_, fun other stream hst => ?_⟩
  · have hkept : r.run ∈ keptRuns (h ++ [.append now run lines]) :=
      hnames ▸ List.mem_map_of_mem hr
    rw [append_runs] at hr
    have hmem := (rtake_suffix _ _).subset hr
    by_cases hrun : r.run = run
    · exact runTrue_of_countRun hm now run lines hmem hrun (hrun ▸ hkept) hnames
    · exact (hm.runs r (mem_of_countRun_other hmem hrun)).append_other now run lines (Ne.symm hrun)
        hkept hnames
  · rw [get?_append_streams, hnames] at hst
    by_cases hkept : other ∈ keptRuns (h ++ [.append now run lines])
    · exact hkept
    · rw [if_neg hkept] at hst
      exact nomatch hst

theorem mem_changeRun {run : String} {c : Changes} {runs : List LogRun} {r : LogRun}
    (h : r ∈ changeRun run c runs) : ∃ r' ∈ runs, r.run = r'.run ∧ r.sent = r'.sent ∧
      r.rejected = r'.rejected ∧ r.failed = r'.failed := by
  induction runs with
  | nil => exact absurd h List.not_mem_nil
  | cons r' runs ih =>
    rw [changeRun] at h
    split at h
    · rcases List.mem_cons.1 h with rfl | h
      · exact ⟨r', List.mem_cons_self .., rfl, rfl, rfl, rfl⟩
      · exact ⟨r, List.mem_cons_of_mem _ h, rfl, rfl, rfl, rfl⟩
    · rcases List.mem_cons.1 h with rfl | h
      · exact ⟨r, List.mem_cons_self .., rfl, rfl, rfl, rfl⟩
      · obtain ⟨r'', hmem, hall⟩ := ih h
        exact ⟨r'', List.mem_cons_of_mem _ hmem, hall⟩

/-- **Step**: a report of what a run's records changed. -/
theorem LogTrue.changes {h : List Event} {m : Memory} (hm : LogTrue h m) (run : String)
    (written : List (String × String)) :
    LogTrue (h ++ [.changes run written]) (m.recordChanges run written).1 := by
  refine ⟨?_, fun r hr => ?_, fun other stream hst => ?_⟩
  · rw [keptRuns_changes, ← hm.names]
    exact changeRun_run run _ _
  · obtain ⟨r', hmem, hrun, hs, hj, hf⟩ := mem_changeRun hr
    obtain ⟨a, t, rfl, he, hs', hj', hf', hst⟩ := hm.runs r' hmem
    have hkept : r'.run ∈ keptRuns (a ++ t ++ [.changes run written]) := by
      rw [keptRuns_changes, ← hm.names]
      exact List.mem_map_of_mem hmem
    have hzero : ∀ outcome, reportedOf outcome r'.run [.changes run written] = 0 := fun _ => rfl
    unfold RunTrue
    rw [hrun, hs, hj, hf]
    refine ⟨a, t ++ [.changes run written], by rw [List.append_assoc], he.snoc hkept, ?_, ?_, ?_, ?_⟩
    · rw [reportedOf_snoc, hzero, hs', Nat.add_zero]
    · rw [reportedOf_snoc, hzero, hj', Nat.add_zero]
    · rw [reportedOf_snoc, hzero, hf', Nat.add_zero]
    · rw [filed_changes]
      exact hst
  · rw [keptRuns_changes]
    exact hm.streams other stream hst

theorem get?_ranStream {m : Memory} (run stream other : String) :
    (m.ranStream run stream).streams.get? other
      = if other = run ∧ run ∈ m.runs.map LogRun.run then some stream
        else m.streams.get? other := by
  unfold Memory.ranStream
  have hany : m.runs.any (fun logged => logged.run = run) = true ↔ run ∈ m.runs.map LogRun.run := by
    rw [List.any_eq_true, List.mem_map]
    simp only [decide_eq_true_eq]
  by_cases hin : run ∈ m.runs.map LogRun.run
  · rw [if_pos (hany.2 hin)]
    show (m.streams.insert run stream).get? other = _
    rw [OrdMap.get?_insert]
    simp only [hin, and_true]
  · rw [if_neg (fun h => hin (hany.1 h))]
    simp only [hin, and_false, if_false]

/-- **Step**: the stream a run ran is filed, where the run is kept. -/
theorem LogTrue.stream {h : List Event} {m : Memory} (hm : LogTrue h m) (run stream : String) :
    LogTrue (h ++ [.stream run stream]) (m.ranStream run stream) := by
  have hruns := (ranStream_lines m run stream).2.2
  refine ⟨?_, fun r hr => ?_, fun other s hst => ?_⟩
  · rw [keptRuns_stream, ← hm.names, hruns]
  · rw [hruns] at hr
    obtain ⟨a, t, rfl, he, hs, hj, hf, hst⟩ := hm.runs r hr
    have hin : r.run ∈ m.runs.map LogRun.run := List.mem_map_of_mem hr
    have hkept : r.run ∈ keptRuns (a ++ t ++ [.stream run stream]) := by
      rw [keptRuns_stream, ← hm.names]
      exact hin
    have hzero : ∀ outcome, reportedOf outcome r.run [.stream run stream] = 0 := fun _ => rfl
    refine ⟨a, t ++ [.stream run stream], by rw [List.append_assoc], he.snoc hkept, ?_, ?_, ?_, ?_⟩
    · rw [reportedOf_snoc, hzero, hs, Nat.add_zero]
    · rw [reportedOf_snoc, hzero, hj, Nat.add_zero]
    · rw [reportedOf_snoc, hzero, hf, Nat.add_zero]
    · rw [get?_ranStream, filed_stream]
      by_cases hrun : run = r.run
      · rw [if_pos hrun, if_pos ⟨hrun.symm, hrun ▸ hin⟩]
      · rw [if_neg hrun, if_neg (fun h => hrun h.1.symm)]
        exact hst
  · rw [keptRuns_stream]
    rw [get?_ranStream] at hst
    by_cases hc : other = run ∧ run ∈ m.runs.map LogRun.run
    · rw [hc.1, ← hm.names]
      exact hc.2
    · rw [if_neg hc] at hst
      exact hm.streams other s hst

/-- **Run**: a log is true to what was reported. -/
theorem replay_true (h : List Event) : LogTrue h (replay h) := by
  induction h using List.reverseRecOn with
  | nil =>
    refine ⟨?_, fun r hr => absurd hr List.not_mem_nil, fun run stream hst => nomatch hst⟩
    show [] = ([] : List String).rtake runsKept
    rw [List.rtake_nil]
  | append_singleton h e ih =>
    rw [replay_snoc]
    cases e with
    | append now run lines => exact ih.append now run lines
    | changes run written => exact ih.changes run written
    | stream run stream => exact ih.stream run stream

/-! ## what is read -/

theorem newestStream_iff {h : List Event} {m : Memory} (hm : LogTrue h m) (stream : String) :
    m.newestStream = some stream ↔ ∃ newest a t, (keptRuns h).getLast? = some newest ∧ h = a ++ t ∧
      Entered newest a t ∧ filed newest t = some stream := by
  have hlast : (keptRuns h).getLast? = m.runs.getLast?.map LogRun.run := by
    rw [← hm.names, List.getLast?_map]
  unfold Memory.newestStream
  rw [hlast]
  cases hr : m.runs.getLast? with
  | none => simp
  | some r =>
    obtain ⟨a, t, rfl, he, -, -, -, hst⟩ := hm.runs r (List.mem_of_getLast? hr)
    rw [Option.bind_some, Option.map_some, hst]
    constructor
    · exact fun h => ⟨r.run, a, t, rfl, rfl, he, h⟩
    · rintro ⟨newest, a', t', hnew, hat, he', hfiled⟩
      obtain rfl := Option.some.inj hnew
      rw [he.unique he' hat]
      exact hfiled

theorem get?_eq_memoryOf {logs : Logs} {key : Key} {stream : String}
    (h : (memoryOf logs key).newestStream = some stream) :
    logs.get? key = some (memoryOf logs key) := by
  unfold memoryOf at h ⊢
  cases hg : logs.get? key with
  | none =>
    rw [hg] at h
    exact nomatch h
  | some m => rfl

theorem mem_ranStreams (logs : Logs) (key : Key) (stream : String) :
    (key, stream) ∈ ranStreams logs ↔ (memoryOf logs key).newestStream = some stream := by
  unfold ranStreams
  rw [List.mem_filterMap]
  constructor
  · rintro ⟨⟨key', m⟩, hmem, hs⟩
    obtain ⟨stream', hstream, heq⟩ := Option.map_eq_some_iff.1 hs
    obtain ⟨rfl, rfl⟩ := Prod.mk.inj heq
    rw [memoryOf, (OrdMap.mem_toList logs key' m).1 hmem]
    exact hstream
  · intro h
    exact ⟨(key, memoryOf logs key), (OrdMap.mem_toList logs key _).2 (get?_eq_memoryOf h),
      by rw [h]; rfl⟩

/-- the pages of a run's lines, each asked for with the place of the last line of the one before -/
def follow (logs : Logs) (project pipeline run : String) (limit : Nat) :
    Nat → Option Int → List LogLine
  | 0, _ => []
  | fuel + 1, before =>
    let page := lines logs project pipeline run limit before
    match page.getLast? with
    | none => []
    | some l => page ++ follow logs project pipeline run limit fuel (some l.id)

def older (before : Option Int) (l : LogLine) : Bool := before.all (fun b => (l.id : Int) < b)

theorem lines_eq (logs : Logs) (project pipeline run : String) (limit : Nat) (before : Option Int) :
    lines logs project pipeline run limit before
      = (((memoryOf logs (Key.of project pipeline)).lines.filter (fun l => l.run = run)).reverse.filter
        (older before)).take (max 1 (min limit linesKept)) := by
  have hpage : ∀ m : Memory, m.page run limit before
      = ((m.lines.filter (fun l => l.run = run)).reverse.filter (older before)).take
        (max 1 (min limit linesKept)) := by
    intro m
    unfold Memory.page older
    rw [← List.filter_reverse, List.filter_filter]
    congr 2
    funext l
    rw [Bool.and_comm]
  unfold lines memoryOf
  cases logs.get? (Key.of project pipeline) with
  | none => rw [← hpage]; simp [Memory.page, Memory.empty]
  | some m => exact hpage m

theorem filter_older {l page rest : List LogLine} {before : Option Int} {x : LogLine}
    (hl : l.Pairwise (fun a b => b.id < a.id)) (hcut : l.filter (older before) = page ++ rest)
    (hlast : page.getLast? = some x) : l.filter (older (some x.id)) = rest := by
  have hx : x ∈ l.filter (older before) :=
    hcut ▸ List.mem_append_left _ (List.mem_of_getLast? hlast)
  have hxb : older before x = true := (List.mem_filter.1 hx).2
  have hstep : l.filter (older (some x.id)) = (l.filter (older before)).filter (older (some x.id)) := by
    rw [List.filter_filter]
    apply List.filter_congr
    intro y _
    cases before with
    | none => simp [older]
    | some b =>
      simp only [older, Option.all_some, decide_eq_true_eq] at hxb
      by_cases hy : (y.id : Int) < x.id
      · simp [older, hy]
        omega
      · simp [older, hy]
  have hpair : (page ++ rest).Pairwise (fun a b => b.id < a.id) := hcut ▸ hl.filter _
  obtain ⟨hpage, hrest, hcross⟩ := List.pairwise_append.1 hpair
  rw [hstep, hcut, List.filter_append]
  have hnone : page.filter (older (some x.id)) = [] := by
    rw [List.filter_eq_nil_iff]
    intro y hy
    obtain ⟨start, rfl⟩ := List.getLast?_eq_some_iff.1 hlast
    simp only [older, Option.all_some, decide_eq_true_eq, Int.ofNat_lt]
    rcases List.mem_append.1 hy with hy | hy
    · have hlt := (List.pairwise_append.1 hpage).2.2 y hy x (List.mem_singleton_self x)
      omega
    · rw [List.mem_singleton.1 hy]
      omega
  have hall : rest.filter (older (some x.id)) = rest := by
    rw [List.filter_eq_self]
    intro y hy
    have hlt := hcross x (List.mem_of_getLast? hlast) y hy
    simp only [older, Option.all_some, decide_eq_true_eq, Int.ofNat_lt]
    exact hlt
  rw [hnone, hall, List.nil_append]

theorem follow_rest {logs : Logs} {project pipeline run : String} (limit : Nat)
    (hl : ((memoryOf logs (Key.of project pipeline)).lines).Pairwise (fun a b => a.id < b.id))
    (fuel : Nat) (before : Option Int)
    (hfuel : ((((memoryOf logs (Key.of project pipeline)).lines.filter
      (fun l => l.run = run)).reverse.filter (older before)).length) < fuel) :
    follow logs project pipeline run limit fuel before
      = ((memoryOf logs (Key.of project pipeline)).lines.filter (fun l => l.run = run)).reverse.filter
        (older before) := by
  induction fuel generalizing before with
  | zero => exact absurd hfuel (Nat.not_lt_zero _)
  | succ fuel ih =>
    have hpage := lines_eq logs project pipeline run limit before
    have hdown : ((memoryOf logs (Key.of project pipeline)).lines.filter
        (fun l => l.run = run)).reverse.Pairwise (fun a b => b.id < a.id) :=
      List.pairwise_reverse.2 (hl.filter _)
    rw [follow]
    generalize hrest : ((memoryOf logs (Key.of project pipeline)).lines.filter
      (fun l => l.run = run)).reverse = all at hpage hdown hfuel ih ⊢
    generalize hn : max 1 (min limit linesKept) = n at hpage
    have hpos : 0 < n := by omega
    cases hlast : (lines logs project pipeline run limit before).getLast? with
    | none =>
      rw [List.getLast?_eq_none_iff, hpage, List.take_eq_nil_iff] at hlast
      rcases hlast with h | h
      · omega
      · exact h.symm
    | some x =>
      have hcut : all.filter (older before)
          = lines logs project pipeline run limit before ++ (all.filter (older before)).drop n := by
        rw [hpage, List.take_append_drop]
      have hdrop := filter_older hdown hcut hlast
      have hne : lines logs project pipeline run limit before ≠ [] := by
        intro h
        rw [h] at hlast
        exact nomatch hlast
      have hless := congrArg List.length hcut
      have hge := List.length_pos_iff.2 hne
      rw [List.length_append] at hless
      dsimp only
      rw [ih (some x.id) (by rw [hdrop]; omega), hdrop]
      exact hcut.symm

/-- **Pages**: followed from the first one, they are every kept line of the run, newest first. -/
theorem follow_all {logs : Logs} {project pipeline run : String} (limit : Nat)
    (hl : ((memoryOf logs (Key.of project pipeline)).lines).Pairwise (fun a b => a.id < b.id))
    (fuel : Nat)
    (hfuel : (memoryOf logs (Key.of project pipeline)).lines.length < fuel) :
    follow logs project pipeline run limit fuel none
      = ((memoryOf logs (Key.of project pipeline)).lines.filter (fun l => l.run = run)).reverse := by
  have hall : ∀ l : List LogLine, l.filter (older none) = l := fun l =>
    List.filter_eq_self.2 (fun _ _ => rfl)
  rw [follow_rest limit hl fuel none, hall]
  rw [hall, List.length_reverse]
  exact Nat.lt_of_le_of_lt (List.length_filter_le _ _) hfuel

def twoRecords : List Act :=
  [.append "2026-09-25T20:26:28Z" "p" "x" "r1" [⟨"urn:a", none, .sent, ""⟩, ⟨"urn:b", some 0, .failed, "no"⟩],
    .ranStream "p" "x" "r1" "hash"]

end Pipelines

end Portal
