import Mathlib.Data.List.Chain
import Portal.Base.OrdMap

/-!
# The health log (`health_log.rs`)

Each run of the leader writes what every check found: the latest row of each check, since when its
status holds and when it was last ok, and a point of its history per change or per hour.  The log is
kept in memory to the nanosecond, or by four statements in Postgres that bind whole seconds; what
either lists is printed to the second.

* `Memory`, `Tables`   the two arms, `record` and what they list;
* `Mirrors`            the tables hold what the memory holds of runs at whole seconds;
* `Rounds`             the memory of the runs cut to whole seconds, beside that of the runs;
* `arms_agree`         **the law**: both arms list the same rows, and the same points of runs `Told`;
* `since_streak`       **the law**: `since` is the first of the runs in a row with this status;
* `history_tells`      **the law**: the points tell what each run of the last 90 days found;
* `history_spaced`     **the law**: no point repeats the one before it within the hour.
-/

namespace Portal
namespace Health

/-! ## findings -/

inductive Status where
  | error | warn | ok
deriving DecidableEq

def Status.asStr : Status → String
  | .ok => "ok"
  | .warn => "warn"
  | .error => "error"

def Status.parse (text : String) : Status :=
  if text = "ok" then .ok else if text = "warn" then .warn else .error

@[simp] theorem parse_asStr (s : Status) : Status.parse s.asStr = s := by
  cases s <;> decide

theorem asStr_inj {s s' : Status} : s.asStr = s'.asStr ↔ s = s' := by
  constructor
  · intro h
    rw [← parse_asStr s, h, parse_asStr]
  · exact congrArg _

/-- what one check found in one run; the key is its project, kind, name and check -/
structure Finding (κ τ : Type*) where
  key : κ
  status : Status
  detail : τ
  fix : τ
  evidenceUrl : String

/-- one check of one resource as the page shows it, its times printed -/
structure Check (κ τ : Type*) where
  key : κ
  status : Status
  since : Int
  lastOk : Option Int
  checkedAt : Int
  detail : τ
  fix : τ
  evidenceUrl : String
  history : List (Int × Status)

/-! ## times -/

/-- a second; a time is its nanoseconds since the epoch -/
def second : Int := 1000000000

/-- how long the history is kept -/
def keep : Int := 90 * 24 * 3600 * second

/-- a status that holds gets a point this often -/
def sample : Int := 3600 * second

/-- the time as the statements bind it: its whole seconds -/
def chronoToOdt (dt : Int) : Int := dt / second * second

/-- the second that the text of a time names -/
def rfc3339 (dt : Int) : Int := dt / second

@[simp] theorem rfc3339_chronoToOdt (dt : Int) : rfc3339 (chronoToOdt dt) = rfc3339 dt := by
  unfold rfc3339 chronoToOdt second
  omega

@[simp] theorem rfc3339_comp_chronoToOdt : rfc3339 ∘ chronoToOdt = rfc3339 :=
  funext rfc3339_chronoToOdt

section
variable {κ τ : Type*} [LinearOrder κ]

/-! ## in memory -/

structure Latest (κ τ : Type*) where
  finding : Finding κ τ
  since : Int
  lastOk : Option Int
  checkedAt : Int

structure Memory (κ τ : Type*) [LinearOrder κ] where
  latest : OrdMap κ (Latest κ τ)
  history : List (κ × Int × Status)

def newest (history : List (κ × Int × Status)) (key : κ) : Option (Int × Status) :=
  (history.reverse.find? (fun p => p.1 = key)).map Prod.snd

/-- whether a finding is a point of the history, after the newest one of its check -/
def isPoint (now : Int) (status : Status) (newest : Option (Int × Status)) : Bool :=
  newest.all (fun p => p.2 ≠ status || p.1 ≤ now - sample)

def latestOf (now : Int) (before : Option (Latest κ τ)) (finding : Finding κ τ) : Latest κ τ where
  finding
  since := ((before.filter (fun b => b.finding.status = finding.status)).map Latest.since).getD now
  lastOk := if finding.status = .ok then some now else before.bind Latest.lastOk
  checkedAt := now

namespace Memory

def empty : Memory κ τ := ⟨OrdMap.empty, []⟩

/-- the loop of `record` over the findings; `before` are the rows of the run before -/
def recordOne (now : Int) (before : OrdMap κ (Latest κ τ)) (m : Memory κ τ)
    (finding : Finding κ τ) : Memory κ τ where
  latest := m.latest.insert finding.key (latestOf now (before.get? finding.key) finding)
  history :=
    if isPoint now finding.status (newest m.history finding.key) then
      m.history ++ [(finding.key, now, finding.status)]
    else m.history

def record (m : Memory κ τ) (now : Int) (findings : List (Finding κ τ)) : Memory κ τ :=
  let m' := findings.foldl (recordOne now m.latest) ⟨OrdMap.empty, m.history⟩
  { m' with history := m'.history.filter (fun p => now - keep ≤ p.2.1) }

/-- the rows of the wanted projects, with their points after `start` -/
def list (m : Memory κ τ) (wanted : κ → Bool) (start : Int) : List (Check κ τ) :=
  (m.latest.toList.filter (fun p => wanted p.1)).map (fun p =>
    ⟨p.1, p.2.finding.status, rfc3339 p.2.since, p.2.lastOk.map rfc3339, rfc3339 p.2.checkedAt,
      p.2.finding.detail, p.2.finding.fix, p.2.finding.evidenceUrl,
      ((m.history.filter (fun q => q.1 = p.1 && start < q.2.1)).map Prod.snd).map
        (fun q => (rfc3339 q.1, q.2))⟩)

end Memory

/-! ## in Postgres -/

/-- a row of `health_check` -/
structure Row (τ : Type*) where
  status : String
  since : Int
  lastOk : Option Int
  checkedAt : Int
  detail : τ
  fixHint : τ
  evidenceUrl : String

structure Tables (κ τ : Type*) [LinearOrder κ] where
  rows : OrdMap κ (Row τ)
  /-- `health_check_history`, under the key and the time -/
  history : List (κ × Int × String)

/-- `ORDER BY at DESC LIMIT 1` -/
def last (history : List (κ × Int × String)) (key : κ) : Option (Int × String) :=
  ((history.filter (fun p => p.1 = key)).map Prod.snd).mergeSort (fun a b => b.1 ≤ a.1) |>.head?

namespace Tables

def empty : Tables κ τ := ⟨OrdMap.empty, []⟩

/-- `INSERT … ON CONFLICT (project, kind, name, "check") DO UPDATE` -/
def upsert (now : Int) (finding : Finding κ τ) (held : Option (Row τ)) : Option (Row τ) :=
  some
    { status := finding.status.asStr
      since := ((held.filter (fun h => h.status = finding.status.asStr)).map Row.since).getD now
      lastOk := (if finding.status.asStr = "ok" then some now else none).or (held.bind Row.lastOk)
      checkedAt := now
      detail := finding.detail
      fixHint := finding.fix
      evidenceUrl := finding.evidenceUrl }

/-- the point of a row that was checked now, unless its newest one says the same within the hour -/
def point (now : Int) (history : List (κ × Int × String)) (p : κ × Row τ) :
    Option (κ × Int × String) :=
  if p.2.checkedAt = now ∧ (last history p.1).all
      (fun q => q.2 ≠ p.2.status || q.1 ≤ now - sample) = true then
    some (p.1, p.2.checkedAt, p.2.status)
  else none

/-- the four statements; the first fails on two findings of one key -/
def statements (t : Tables κ τ) (at' : Int) (findings : List (Finding κ τ)) :
    Option (Tables κ τ) :=
  if (findings.map Finding.key).Nodup then
    let rows := (findings.foldl (fun rows f => rows.alter f.key (upsert at' f)) t.rows).retain
      (fun row => at' ≤ row.checkedAt)
    let points := rows.toList.filterMap (point at' t.history)
    -- `ON CONFLICT DO NOTHING`
    let history := t.history ++
      points.filter (fun p => t.history.all (fun q => q.1 ≠ p.1 || q.2.1 ≠ p.2.1))
    some ⟨rows, history.filter (fun p => at' - keep ≤ p.2.1)⟩
  else none

def record (t : Tables κ τ) (now : Int) (findings : List (Finding κ τ)) : Option (Tables κ τ) :=
  t.statements (chronoToOdt now) findings

def list (t : Tables κ τ) (wanted : κ → Bool) (start : Int) : List (Check κ τ) :=
  (t.rows.toList.filter (fun p => wanted p.1)).map (fun p =>
    ⟨p.1, Status.parse p.2.status, rfc3339 p.2.since, p.2.lastOk.map rfc3339,
      rfc3339 p.2.checkedAt, p.2.detail, p.2.fixHint, p.2.evidenceUrl,
      (((t.history.filter (fun q => q.1 = p.1 && chronoToOdt start < q.2.1)).map
        Prod.snd).mergeSort (fun a b => a.1 ≤ b.1)).map
          (fun q => (rfc3339 q.1, Status.parse q.2))⟩)

end Tables

/-! ## the points of one check -/

/-- the points of the check `key`, as they were added -/
def ofKey {σ : Type*} (history : List (κ × Int × σ)) (key : κ) : List (Int × σ) :=
  (history.filter (fun p => p.1 = key)).map Prod.snd

section
variable {σ : Type*} {history : List (κ × Int × σ)} {key : κ}

theorem ofKey_append (history history' : List (κ × Int × σ)) (key : κ) :
    ofKey (history ++ history') key = ofKey history key ++ ofKey history' key := by
  unfold ofKey
  rw [List.filter_append, List.map_append]

theorem ofKey_single (p : κ × Int × σ) (key : κ) :
    ofKey [p] key = if p.1 = key then [p.2] else [] := by
  unfold ofKey
  rw [List.filter_singleton]
  by_cases h : p.1 = key <;> simp [h]

theorem ofKey_filter (history : List (κ × Int × σ)) (key : κ) (c : Int) :
    ofKey (history.filter (fun p => c ≤ p.2.1)) key
      = (ofKey history key).filter (fun p => c ≤ p.1) := by
  unfold ofKey
  rw [List.filter_filter, List.filter_map, List.filter_filter]
  congr 1
  apply List.filter_congr
  intro p _
  exact Bool.and_comm _ _

/-- the points of a check after `start`, as both arms list them -/
theorem ofKey_after (history : List (κ × Int × σ)) (key : κ) (start : Int) :
    (history.filter (fun q => q.1 = key && start < q.2.1)).map Prod.snd
      = (ofKey history key).filter (fun p => start < p.1) := by
  unfold ofKey
  rw [List.filter_map, List.filter_filter]
  congr 1
  apply List.filter_congr
  intro p _
  exact Bool.and_comm _ _

theorem mem_ofKey {p : κ × Int × σ} (h : p ∈ history) : p.2 ∈ ofKey history p.1 :=
  List.mem_map.2 ⟨p, List.mem_filter.2 ⟨h, by simp⟩, rfl⟩

end

theorem newest_eq (history : List (κ × Int × Status)) (key : κ) :
    newest history key = (ofKey history key).getLast? := by
  unfold newest ofKey
  rw [List.getLast?_map, List.getLast?_filter]

/-- where the points came in the order of their times, the last in time is the last to come -/
theorem last_eq {history : List (κ × Int × String)} {key : κ}
    (hsorted : (ofKey history key).Pairwise (fun a b => a.1 < b.1)) :
    last history key = (ofKey history key).getLast? := by
  have hreverse : (ofKey history key).mergeSort (fun a b => b.1 ≤ a.1)
      = (ofKey history key).reverse := by
    refine @List.Perm.eq_of_pairwise _ (fun a b => b.1 ≤ a.1) _ _ ?_ ?_ ?_
      ((List.mergeSort_perm (ofKey history key) (fun a b => b.1 ≤ a.1)).trans
        (List.reverse_perm _).symm)
    · intro a b ha hb hab hba
      have ha : a ∈ ofKey history key := List.mem_mergeSort.1 ha
      have hb : b ∈ ofKey history key := List.mem_reverse.1 hb
      have heq : a.1 = b.1 := le_antisymm hba hab
      have hnodup : ((ofKey history key).map Prod.fst).Nodup :=
        List.pairwise_map.2 (hsorted.imp (fun h => ne_of_lt h))
      exact List.inj_on_of_nodup_map hnodup ha hb heq
    · have h := @List.pairwise_mergeSort _ (fun a b : Int × String => decide (b.1 ≤ a.1))
        (fun a b c hab hbc => by
          simp only [decide_eq_true_eq] at hab hbc ⊢
          omega)
        (fun a b => by
          simp only [Bool.or_eq_true, decide_eq_true_eq]
          omega) (ofKey history key)
      exact h.imp (fun h => of_decide_eq_true h)
    · rw [List.pairwise_reverse]
      exact hsorted.imp (fun h => le_of_lt h)
  show ((ofKey history key).mergeSort (fun a b => b.1 ≤ a.1)).head? = _
  rw [hreverse, List.head?_reverse]

/-! ## one run -/

def found (findings : List (Finding κ τ)) (key : κ) : Option (Finding κ τ) :=
  findings.find? (fun f => f.key = key)

theorem found_cons (f : Finding κ τ) (findings : List (Finding κ τ)) (key : κ) :
    found (f :: findings) key = if f.key = key then some f else found findings key := by
  unfold found
  rw [List.find?_cons]
  by_cases h : f.key = key <;> simp [h]

theorem found_eq_none {findings : List (Finding κ τ)} {key : κ} :
    found findings key = none ↔ key ∉ findings.map Finding.key := by
  unfold found
  simp [List.find?_eq_none]

theorem found_eq_some {findings : List (Finding κ τ)} {key : κ} {f : Finding κ τ}
    (h : found findings key = some f) : f ∈ findings ∧ f.key = key :=
  ⟨List.mem_of_find?_eq_some h, by simpa using List.find?_some h⟩

/-- the point that a run adds for a check -/
def added (now : Int) (newest : Option (Int × Status)) (finding : Option (Finding κ τ)) :
    List (Int × Status) :=
  match finding with
  | some f => if isPoint now f.status newest then [(now, f.status)] else []
  | none => []

theorem foldl_recordOne (now : Int) (before : OrdMap κ (Latest κ τ)) (key : κ)
    (findings : List (Finding κ τ)) : ∀ m : Memory κ τ, (findings.map Finding.key).Nodup →
    (findings.foldl (Memory.recordOne now before) m).latest.get? key
      = ((found findings key).map (latestOf now (before.get? key))).or (m.latest.get? key) ∧
    ofKey (findings.foldl (Memory.recordOne now before) m).history key
      = ofKey m.history key ++ added now (ofKey m.history key).getLast? (found findings key) := by
  induction findings with
  | nil => exact fun m _ => ⟨rfl, (List.append_nil _).symm⟩
  | cons f findings ih =>
    intro m hnodup
    rw [List.map_cons, List.nodup_cons] at hnodup
    obtain ⟨hlatest, hhistory⟩ := ih (Memory.recordOne now before m f) hnodup.2
    rw [List.foldl_cons, hlatest, hhistory, found_cons]
    by_cases hkey : f.key = key
    · subst hkey
      have hnone : found findings f.key = none := found_eq_none.2 hnodup.1
      rw [if_pos rfl, hnone]
      refine ⟨OrdMap.get?_insert _ _ _ _ |>.trans (if_pos rfl), ?_⟩
      show ofKey (Memory.recordOne now before m f).history f.key ++ [] = _
      rw [List.append_nil]
      unfold Memory.recordOne added
      simp only [newest_eq]
      split
      · rw [ofKey_append, ofKey_single, if_pos rfl]
      · rw [List.append_nil]
    · rw [if_neg hkey]
      have hsame : ofKey (Memory.recordOne now before m f).history key = ofKey m.history key := by
        unfold Memory.recordOne
        simp only
        split
        · rw [ofKey_append, ofKey_single, if_neg hkey, List.append_nil]
        · rfl
      have hother : (Memory.recordOne now before m f).latest.get? key = m.latest.get? key :=
        (OrdMap.get?_insert _ _ _ _).trans (if_neg (fun h => hkey h.symm))
      rw [hsame, hother]
      exact ⟨rfl, rfl⟩

/-- **Step** in memory, check by check. -/
theorem memory_record (m : Memory κ τ) (now : Int) {findings : List (Finding κ τ)}
    (hnodup : (findings.map Finding.key).Nodup) (key : κ) :
    (m.record now findings).latest.get? key
      = (found findings key).map (latestOf now (m.latest.get? key)) ∧
    ofKey (m.record now findings).history key
      = (ofKey m.history key ++ added now (ofKey m.history key).getLast? (found findings key)).filter
          (fun p => now - keep ≤ p.1) := by
  obtain ⟨hlatest, hhistory⟩ := foldl_recordOne now m.latest key findings
    ⟨OrdMap.empty, m.history⟩ hnodup
  refine ⟨hlatest.trans (by simp), ?_⟩
  unfold Memory.record
  simp only
  rw [ofKey_filter, hhistory]

theorem ofKey_points (now : Int) (history : List (κ × Int × String)) (key : κ)
    (rows : List (κ × Row τ)) (hnodup : (rows.map Prod.fst).Nodup) :
    ofKey (rows.filterMap (Tables.point now history)) key
      = (((rows.lookup key).bind (fun row => Tables.point now history (key, row))).map
          Prod.snd).toList := by
  induction rows with
  | nil => rfl
  | cons p rows ih =>
    rw [List.map_cons, List.nodup_cons] at hnodup
    have hkeys : ∀ q, Tables.point now history p = some q → q.1 = p.1 := by
      intro q hq
      unfold Tables.point at hq
      split at hq
      · exact congrArg Prod.fst (Option.some.inj hq).symm
      · exact absurd hq (by simp)
    rw [List.lookup_cons]
    by_cases hkey : key = p.1
    · have hnone : rows.lookup key = none := by
        rw [List.lookup_eq_none_iff]
        intro q hq
        simp only [bne_iff_ne, ne_eq]
        intro heq
        exact hnodup.1 (hkey ▸ heq ▸ List.mem_map_of_mem hq)
      have ih := ih hnodup.2
      rw [hnone] at ih
      rw [beq_iff_eq.2 hkey]
      show _ = (((some p.2).bind fun row => Tables.point now history (key, row)).map
        Prod.snd).toList
      rw [Option.bind_some, show (key, p.2) = p from Prod.ext hkey rfl]
      cases hpoint : Tables.point now history p with
      | none =>
        rw [List.filterMap_cons_none hpoint, ih]
        rfl
      | some q =>
        rw [List.filterMap_cons_some hpoint, ← List.singleton_append, ofKey_append, ih, ofKey_single,
          if_pos ((hkeys q hpoint).trans hkey.symm)]
        rfl
    · rw [beq_eq_false_iff_ne.2 hkey]
      show _ = (((rows.lookup key).bind fun row => Tables.point now history (key, row)).map
        Prod.snd).toList
      rw [← ih hnodup.2]
      cases hpoint : Tables.point now history p with
      | none => rw [List.filterMap_cons_none hpoint]
      | some q =>
        rw [List.filterMap_cons_some hpoint, ← List.singleton_append, ofKey_append, ofKey_single,
          if_neg (fun heq => hkey (heq.symm.trans (hkeys q hpoint))), List.nil_append]

/-- every row and every point is from before `now`, and the points of a check came in their order -/
structure Before (m : Memory κ τ) (now : Int) : Prop where
  checked : ∀ key l, m.latest.get? key = some l → l.checkedAt < now
  points : ∀ key, ∀ p ∈ ofKey m.history key, p.1 < now
  sorted : ∀ key, (ofKey m.history key).Pairwise (fun a b => a.1 < b.1)

def rowOf (l : Latest κ τ) : Row τ where
  status := l.finding.status.asStr
  since := l.since
  lastOk := l.lastOk
  checkedAt := l.checkedAt
  detail := l.finding.detail
  fixHint := l.finding.fix
  evidenceUrl := l.finding.evidenceUrl

def stored (p : Int × Status) : Int × String := (p.1, p.2.asStr)

/-- **Relation**: the tables hold what the memory holds. -/
structure Mirrors (m : Memory κ τ) (t : Tables κ τ) : Prop where
  rows : ∀ key, t.rows.get? key = (m.latest.get? key).map rowOf
  history : ∀ key, ofKey t.history key = (ofKey m.history key).map stored

variable {m : Memory κ τ} {t : Tables κ τ} {now : Int} {findings : List (Finding κ τ)}

omit [LinearOrder κ] in
theorem upsert_rowOf (now : Int) (f : Finding κ τ) (before : Option (Latest κ τ)) :
    Tables.upsert now f (before.map rowOf) = some (rowOf (latestOf now before f)) := by
  have hok : (f.status.asStr = "ok") = (f.status = .ok) := propext (@asStr_inj f.status .ok)
  cases before with
  | none =>
    unfold Tables.upsert latestOf rowOf
    simp [hok]
  | some b =>
    unfold Tables.upsert latestOf
    have hstatus : ((rowOf b).status = f.status.asStr) = (b.finding.status = f.status) :=
      propext asStr_inj
    simp only [Option.map_some, Option.bind_some, Option.filter_some, hstatus, hok]
    unfold rowOf
    by_cases h : b.finding.status = f.status <;> by_cases h' : f.status = .ok <;> simp [h, h']

theorem rows_record (hmirrors : Mirrors m t) (hbefore : Before m now)
    (hnodup : (findings.map Finding.key).Nodup) (key : κ) :
    ((findings.foldl (fun rows f => rows.alter f.key (Tables.upsert now f)) t.rows).retain
      (fun row => now ≤ row.checkedAt)).get? key
      = ((found findings key).map (latestOf now (m.latest.get? key))).map rowOf := by
  obtain ⟨hin, hout⟩ := OrdMap.get?_foldl_alter Finding.key (fun f => Tables.upsert now f) findings
    hnodup t.rows key
  rw [OrdMap.get?_retain]
  cases hfound : found findings key with
  | none =>
    rw [hout (found_eq_none.1 hfound), hmirrors.rows key]
    cases hget : m.latest.get? key with
    | none => rfl
    | some l =>
      have hlate : (rowOf l).checkedAt < now := hbefore.checked key l hget
      simp [hlate]
  | some f =>
    obtain ⟨hf, hkey⟩ := found_eq_some hfound
    rw [hin f hf hkey, hmirrors.rows key, upsert_rowOf]
    have hnow : now ≤ (rowOf (latestOf now (m.latest.get? key) f)).checkedAt := le_refl now
    simp [hnow]

theorem point_added (hmirrors : Mirrors m t) (hbefore : Before m now) (key : κ)
    (finding : Option (Finding κ τ)) :
    ((((finding.map (latestOf now (m.latest.get? key))).map rowOf).bind
      (fun row => Tables.point now t.history (key, row))).map Prod.snd).toList
      = (added now (ofKey m.history key).getLast? finding).map stored := by
  cases finding with
  | none => rfl
  | some f =>
    have hlast : last t.history key = ((ofKey m.history key).getLast?).map stored := by
      rw [last_eq, hmirrors.history key, List.getLast?_map]
      rw [hmirrors.history key]
      exact List.pairwise_map.2 (hbefore.sorted key)
    have hcond : (last t.history key).all (fun q => q.2 ≠ f.status.asStr || q.1 ≤ now - sample)
        = isPoint now f.status (ofKey m.history key).getLast? := by
      rw [hlast]
      unfold isPoint
      cases (ofKey m.history key).getLast? with
      | none => rfl
      | some q =>
        have hstatus : (q.2.asStr ≠ f.status.asStr) = (q.2 ≠ f.status) :=
          propext (not_congr asStr_inj)
        show (decide (q.2.asStr ≠ f.status.asStr) || _) = _
        simp only [hstatus]
        rfl
    show ((Tables.point now t.history (key, rowOf (latestOf now _ f))).map Prod.snd).toList = _
    unfold Tables.point added
    have hchecked : (rowOf (latestOf now (m.latest.get? key) f)).checkedAt = now := rfl
    have hrow : (rowOf (latestOf now (m.latest.get? key) f)).status = f.status.asStr := rfl
    simp only [hchecked, hrow, hcond, true_and]
    split <;> rfl

/-- **Step** in Postgres: the statements do of the tables what `record` does of the memory. -/
theorem Mirrors.statements (hmirrors : Mirrors m t) (hbefore : Before m now)
    (hnodup : (findings.map Finding.key).Nodup) :
    ∃ t', t.statements now findings = some t' ∧ Mirrors (m.record now findings) t' := by
  refine ⟨_, if_pos hnodup, ?_, ?_⟩
  · intro key
    rw [(memory_record m now hnodup key).1]
    exact rows_record hmirrors hbefore hnodup key
  · intro key
    have hfresh : ∀ p : κ × Int × String, p.2.1 = now →
        t.history.all (fun q => q.1 ≠ p.1 || q.2.1 ≠ p.2.1) = true := by
      intro p hp
      rw [List.all_eq_true]
      intro q hq
      have hmem := mem_ofKey hq
      rw [hmirrors.history q.1] at hmem
      obtain ⟨q', hq', heq⟩ := List.mem_map.1 hmem
      have hlt : q.2.1 < now := by
        rw [← congrArg Prod.fst heq]
        exact hbefore.points q.1 q' hq'
      have hne : q.2.1 ≠ p.2.1 := hp ▸ ne_of_lt hlt
      simp [hne]
    have hpoints : ∀ rows : OrdMap κ (Row τ),
        (rows.toList.filterMap (Tables.point now t.history)).filter
          (fun p => t.history.all (fun q => q.1 ≠ p.1 || q.2.1 ≠ p.2.1))
          = rows.toList.filterMap (Tables.point now t.history) := by
      intro rows
      rw [List.filter_eq_self]
      intro p hp
      obtain ⟨r, -, hpoint⟩ := List.mem_filterMap.1 hp
      apply hfresh
      unfold Tables.point at hpoint
      split at hpoint
      · rename_i hcond
        rw [← Option.some.inj hpoint]
        exact hcond.1
      · exact absurd hpoint (by simp)
    have hadded := point_added hmirrors hbefore key (found findings key)
    rw [← rows_record hmirrors hbefore hnodup key] at hadded
    show ofKey ((t.history ++ _).filter (fun p => now - keep ≤ p.2.1)) key = _
    rw [hpoints, ofKey_filter, ofKey_append, ofKey_points _ _ _ _ (OrdMap.keys_nodup _),
      hmirrors.history key, (memory_record m now hnodup key).2]
    refine (congrArg (fun l => List.filter _ (_ ++ l)) hadded).trans ?_
    rw [← List.map_append, List.filter_map]
    rfl

omit [LinearOrder κ] in
theorem mem_added {n : Option (Int × Status)} {finding : Option (Finding κ τ)} {p : Int × Status}
    (h : p ∈ added now n finding) : p.1 = now := by
  unfold added at h
  split at h
  · split at h
    · rw [List.mem_singleton.1 h]
    · exact absurd h List.not_mem_nil
  · exact absurd h List.not_mem_nil

theorem Before.sorted_added (hbefore : Before m now) (key : κ) (finding : Option (Finding κ τ)) :
    (ofKey m.history key ++ added now (ofKey m.history key).getLast? finding).Pairwise
      (fun a b => a.1 < b.1) := by
  refine List.pairwise_append.2 ⟨hbefore.sorted key, ?_, ?_⟩
  · unfold added
    split
    · split
      · exact List.pairwise_singleton _ _
      · exact List.Pairwise.nil
    · exact List.Pairwise.nil
  · intro p hp q hq
    rw [mem_added hq]
    exact hbefore.points key p hp

/-- **Step**: after a run everything is from before the next. -/
theorem Before.record (hbefore : Before m now) (hnodup : (findings.map Finding.key).Nodup)
    {later : Int} (hlater : now < later) : Before (m.record now findings) later := by
  have hrow := fun key => (memory_record m now hnodup key).1
  have hpoints := fun key => (memory_record m now hnodup key).2
  refine ⟨?_, ?_, ?_⟩
  · intro key l hl
    rw [hrow key] at hl
    obtain ⟨f, -, rfl⟩ := Option.map_eq_some_iff.1 hl
    exact hlater
  · intro key p hp
    rw [hpoints key] at hp
    rcases List.mem_append.1 (List.mem_filter.1 hp).1 with hp | hp
    · exact lt_trans (hbefore.points key p hp) hlater
    · exact (mem_added hp).symm ▸ hlater
  · intro key
    rw [hpoints key]
    exact (hbefore.sorted_added key _).filter _

theorem Mirrors.list (hmirrors : Mirrors m t)
    (hsorted : ∀ key, (ofKey m.history key).Pairwise (fun a b => a.1 < b.1)) (wanted : κ → Bool)
    (start : Int) : t.list wanted start = m.list wanted (chronoToOdt start) := by
  have hrows : t.rows = m.latest.mapVal (fun _ => rowOf) := by
    apply OrdMap.ext_get?
    intro key
    rw [hmirrors.rows key, OrdMap.get?_mapVal]
  have hhistory : ∀ key, (((t.history.filter
      (fun q => q.1 = key && chronoToOdt start < q.2.1)).map Prod.snd).mergeSort
        (fun a b => a.1 ≤ b.1)).map (fun q => (rfc3339 q.1, Status.parse q.2))
        = ((m.history.filter (fun q => q.1 = key && chronoToOdt start < q.2.1)).map Prod.snd).map
          (fun q => (rfc3339 q.1, q.2)) := by
    intro key
    rw [ofKey_after, ofKey_after, hmirrors.history key, List.filter_map,
      List.mergeSort_of_pairwise]
    · rw [List.map_map]
      exact List.map_congr_left (fun p _ => by simp [stored])
    · refine List.pairwise_map.2 (((hsorted key).filter _).imp (fun h => ?_))
      exact decide_eq_true (le_of_lt h)
  unfold Tables.list Memory.list
  rw [hrows]
  show (((m.latest.toList.map (fun p => (p.1, rowOf p.2))).filter _).map _) = _
  rw [List.filter_map, List.map_map]
  apply List.map_congr_left
  intro p _
  simp only [Function.comp_apply, hhistory]
  simp [rowOf]

/-! ## runs -/

/-- the runs of the leader, oldest first: when each was, and what it found -/
abbrev Runs (κ τ : Type*) := List (Int × List (Finding κ τ))

def kept (m : Memory κ τ) (runs : Runs κ τ) : Memory κ τ :=
  runs.foldl (fun m r => m.record r.1 r.2) m

def written (t : Tables κ τ) (runs : Runs κ τ) : Option (Tables κ τ) :=
  runs.foldlM (fun t r => t.record r.1 r.2) t

def Forward (runs : Runs κ τ) : Prop := runs.Pairwise (fun a b => a.1 < b.1)

/-- no run finds one check twice -/
def Once (runs : Runs κ τ) : Prop := ∀ r ∈ runs, (r.2.map Finding.key).Nodup

/-- each run is in a later second than the one before -/
def Seconds (runs : Runs κ τ) : Prop :=
  runs.Pairwise (fun a b => chronoToOdt a.1 < chronoToOdt b.1)

/-- the runs as the statements see them -/
def atSeconds (runs : Runs κ τ) : Runs κ τ := runs.map (fun r => (chronoToOdt r.1, r.2))

theorem mirrors_run (runs : Runs κ τ) : ∀ (m : Memory κ τ) (t : Tables κ τ), Mirrors m t →
    (∀ key, (ofKey m.history key).Pairwise (fun a b => a.1 < b.1)) →
    (∀ r ∈ runs, Before m (chronoToOdt r.1)) → Seconds runs → Once runs →
    ∃ t', written t runs = some t' ∧ Mirrors (kept m (atSeconds runs)) t' ∧
      ∀ key, (ofKey (kept m (atSeconds runs)).history key).Pairwise (fun a b => a.1 < b.1) := by
  induction runs with
  | nil => exact fun m t hmirrors hsorted _ _ _ => ⟨t, rfl, hmirrors, hsorted⟩
  | cons r runs ih =>
    intro m t hmirrors _ hbefore hseconds honce
    obtain ⟨hfirst, hseconds⟩ := List.pairwise_cons.1 hseconds
    have hnow := hbefore r List.mem_cons_self
    have hnodup := honce r List.mem_cons_self
    obtain ⟨t₁, ht₁, hmirrors₁⟩ := hmirrors.statements hnow hnodup
    obtain ⟨t', ht', hrest⟩ := ih (m.record (chronoToOdt r.1) r.2) t₁ hmirrors₁
      (hnow.record hnodup (Int.lt_succ _)).sorted
      (fun r' hr' => hnow.record hnodup (hfirst r' hr')) hseconds
      (fun r' hr' => honce r' (List.mem_cons_of_mem _ hr'))
    refine ⟨t', ?_, hrest⟩
    unfold written
    rw [List.foldlM_cons]
    show (t.statements (chronoToOdt r.1) r.2).bind _ = some t'
    rw [ht₁]
    exact ht'

theorem before_empty (now : Int) : Before (Memory.empty : Memory κ τ) now :=
  ⟨fun _ _ h => absurd h (by simp [Memory.empty]), fun _ _ h => absurd h List.not_mem_nil,
    fun _ => List.Pairwise.nil⟩

theorem kept_append (runs : Runs κ τ) (r : Int × List (Finding κ τ)) :
    kept .empty (runs ++ [r]) = (kept .empty runs).record r.1 r.2 := by
  unfold kept
  rw [List.foldl_append]
  rfl

omit [LinearOrder κ] in
theorem atSeconds_append (runs : Runs κ τ) (r : Int × List (Finding κ τ)) :
    atSeconds (runs ++ [r]) = atSeconds runs ++ [(chronoToOdt r.1, r.2)] := by
  unfold atSeconds
  rw [List.map_append]
  rfl

/-! ## the memory of the runs at whole seconds -/

def Latest.atSeconds (l : Latest κ τ) : Latest κ τ where
  finding := l.finding
  since := chronoToOdt l.since
  lastOk := l.lastOk.map chronoToOdt
  checkedAt := chronoToOdt l.checkedAt

def pointAt (p : Int × Status) : Int × Status := (chronoToOdt p.1, p.2)

omit [LinearOrder κ] in
theorem latestOf_atSeconds (now : Int) (before : Option (Latest κ τ)) (f : Finding κ τ) :
    latestOf (chronoToOdt now) (before.map Latest.atSeconds) f
      = (latestOf now before f).atSeconds := by
  unfold latestOf Latest.atSeconds
  cases before with
  | none => by_cases hok : f.status = .ok <;> simp [hok]
  | some b =>
    simp only [Option.map_some, Option.filter_some, Option.bind_some, Latest.mk.injEq, true_and,
      and_true]
    constructor
    · by_cases hstatus : b.finding.status = f.status <;> simp [hstatus]
    · by_cases hok : f.status = .ok <;> simp [hok]

/-- **Run**: the rows of the runs at whole seconds are the rows of the runs, at whole seconds. -/
theorem latest_atSeconds {runs : Runs κ τ} (honce : Once runs) (key : κ) :
    (kept .empty (atSeconds runs)).latest.get? key
      = ((kept .empty runs).latest.get? key).map Latest.atSeconds := by
  induction runs using List.reverseRecOn with
  | nil => rfl
  | append_singleton runs r ih =>
    have hnodup := honce r (by simp)
    rw [atSeconds_append, kept_append, kept_append, (memory_record _ _ hnodup key).1,
      (memory_record _ _ hnodup key).1, ih (fun r' hr' => honce r' (List.mem_append_left _ hr')),
      Option.map_map]
    exact congrArg (Option.map · _) (funext (latestOf_atSeconds r.1 _))

theorem rows_atSeconds {runs : Runs κ τ} (honce : Once runs) :
    (kept .empty (atSeconds runs)).latest
      = (kept .empty runs).latest.mapVal (fun _ => Latest.atSeconds) := by
  apply OrdMap.ext_get?
  intro key
  rw [latest_atSeconds honce, OrdMap.get?_mapVal]

/-- the whole seconds tell of any two runs what their times tell: whether the later is an hour
after the earlier, and whether it is more than the 90 days after it.  They do not of runs at
10:00:00.9 and 11:00:00.5: where both find one status, it is one point in memory and two in
Postgres. -/
structure Told (runs : Runs κ τ) : Prop where
  hour : runs.Pairwise (fun a b => chronoToOdt b.1 = chronoToOdt a.1 + sample → a.1 + sample ≤ b.1)
  days : runs.Pairwise (fun a b => chronoToOdt b.1 = chronoToOdt a.1 + keep → b.1 ≤ a.1 + keep)

theorem hour_atSeconds {earlier now : Int}
    (htold : chronoToOdt now = chronoToOdt earlier + sample → earlier + sample ≤ now) :
    chronoToOdt earlier ≤ chronoToOdt now - sample ↔ earlier ≤ now - sample := by
  unfold chronoToOdt sample second at *
  omega

theorem days_atSeconds {earlier now : Int}
    (htold : chronoToOdt now = chronoToOdt earlier + keep → now ≤ earlier + keep) :
    chronoToOdt now - keep ≤ chronoToOdt earlier ↔ now - keep ≤ earlier := by
  unfold chronoToOdt keep second at *
  omega

theorem start_atSeconds {start time : Int}
    (htold : chronoToOdt time = chronoToOdt start → time ≤ start) :
    chronoToOdt start < chronoToOdt time ↔ start < time := by
  unfold chronoToOdt second at *
  omega

omit [LinearOrder κ] in
theorem added_atSeconds {now : Int} {newest : Option (Int × Status)}
    {finding : Option (Finding κ τ)}
    (htold : ∀ p ∈ newest, chronoToOdt now = chronoToOdt p.1 + sample → p.1 + sample ≤ now) :
    added (chronoToOdt now) (newest.map pointAt) finding
      = (added now newest finding).map pointAt := by
  cases finding with
  | none => rfl
  | some f =>
    have hpoint : isPoint (chronoToOdt now) f.status (newest.map pointAt)
        = isPoint now f.status newest := by
      cases newest with
      | none => rfl
      | some p =>
        simp only [isPoint, pointAt, Option.map_some, Option.all_some,
          hour_atSeconds (htold p rfl)]
    simp only [added, hpoint]
    split <;> rfl

theorem run_of_point {runs : Runs κ τ} (honce : Once runs) {key : κ} {p : Int × Status}
    (hp : p ∈ ofKey (kept .empty runs).history key) : ∃ r ∈ runs, r.1 = p.1 := by
  induction runs using List.reverseRecOn with
  | nil => exact absurd hp List.not_mem_nil
  | append_singleton runs r ih =>
    rw [kept_append, (memory_record _ _ (honce r (by simp)) key).2] at hp
    rcases List.mem_append.1 (List.mem_filter.1 hp).1 with hp | hp
    · obtain ⟨r', hr', htime⟩ := ih (fun r' hr' => honce r' (List.mem_append_left _ hr')) hp
      exact ⟨r', List.mem_append_left _ hr', htime⟩
    · exact ⟨r, by simp, (mem_added hp).symm⟩

/-- **Run**: where whole seconds tell enough, the points of the runs at whole seconds are the
points of the runs, at whole seconds. -/
theorem history_atSeconds {runs : Runs κ τ} (htold : Told runs) (honce : Once runs) (key : κ) :
    ofKey (kept .empty (atSeconds runs)).history key
      = (ofKey (kept .empty runs).history key).map pointAt := by
  induction runs using List.reverseRecOn with
  | nil => rfl
  | append_singleton runs r ih =>
    obtain ⟨hhour, -, hhour'⟩ := List.pairwise_append.1 htold.hour
    obtain ⟨hdays, -, hdays'⟩ := List.pairwise_append.1 htold.days
    have hnodup := honce r (by simp)
    have honce' : Once runs := fun r' hr' => honce r' (List.mem_append_left _ hr')
    have hadded : added (chronoToOdt r.1)
        ((ofKey (kept .empty runs).history key).getLast?.map pointAt) (found r.2 key)
        = (added r.1 (ofKey (kept .empty runs).history key).getLast? (found r.2 key)).map
            pointAt := by
      refine added_atSeconds (fun p hp => ?_)
      obtain ⟨r', hr', htime⟩ := run_of_point honce' (List.mem_of_getLast? hp)
      exact htime ▸ hhour' r' hr' r (by simp)
    rw [atSeconds_append, kept_append, kept_append, (memory_record _ _ hnodup key).2,
      (memory_record _ _ hnodup key).2, ih ⟨hhour, hdays⟩ honce', List.getLast?_map, hadded,
      ← List.map_append, List.filter_map]
    refine congrArg _ (List.filter_congr (fun p hp => decide_eq_decide.2 ?_))
    refine days_atSeconds ?_
    rcases List.mem_append.1 hp with hp | hp
    · obtain ⟨r', hr', htime⟩ := run_of_point honce' hp
      exact htime ▸ hdays' r' hr' r (by simp)
    · -- the new point is no older than itself
      rw [mem_added hp]
      unfold keep second
      omega

/-- a row as `current` answers it -/
def Check.current (c : Check κ τ) : Check κ τ := { c with history := [] }

theorem list_current {runs : Runs κ τ} (honce : Once runs) (wanted : κ → Bool)
    (start start' : Int) :
    ((kept .empty (atSeconds runs)).list wanted start).map Check.current
      = ((kept .empty runs).list wanted start').map Check.current := by
  unfold Memory.list
  rw [rows_atSeconds honce, List.map_map, List.map_map]
  show (((List.map _ _).filter _).map _) = _
  rw [List.filter_map, List.map_map]
  apply List.map_congr_left
  intro p _
  simp [Latest.atSeconds, Check.current]

theorem list_atSeconds {runs : Runs κ τ} (htold : Told runs) (honce : Once runs)
    (wanted : κ → Bool) {start : Int}
    (hstart : ∀ r ∈ runs, chronoToOdt r.1 = chronoToOdt start → r.1 ≤ start) :
    (kept .empty (atSeconds runs)).list wanted (chronoToOdt start)
      = (kept .empty runs).list wanted start := by
  have hhistory : ∀ key, (ofKey (kept .empty (atSeconds runs)).history key).filter
      (fun p => chronoToOdt start < p.1)
      = ((ofKey (kept .empty runs).history key).filter (fun p => start < p.1)).map pointAt := by
    intro key
    rw [history_atSeconds htold honce, List.filter_map]
    refine congrArg _ (List.filter_congr (fun p hp => decide_eq_decide.2 (start_atSeconds ?_)))
    obtain ⟨r, hr, htime⟩ := run_of_point honce hp
    exact htime ▸ hstart r hr
  unfold Memory.list
  rw [rows_atSeconds honce]
  show (((List.map _ _).filter _).map _) = _
  rw [List.filter_map, List.map_map]
  apply List.map_congr_left
  intro p _
  simp only [Function.comp_apply, ofKey_after, hhistory]
  simp [Latest.atSeconds, pointAt]

/-- **The two arms agree**: after any runs, each in a later second than the one before, that find no
check twice, the statements have been taken and the tables list the rows that the memory lists, for
any projects; and their points too, where the whole seconds tell of the runs and of the start of the
list what the times tell. -/
theorem arms_agree {runs : Runs κ τ} (hseconds : Seconds runs) (honce : Once runs) :
    ∃ t, written .empty runs = some t ∧
      (∀ wanted start, (t.list wanted start).map Check.current
        = ((kept .empty runs).list wanted start).map Check.current) ∧
      (Told runs → ∀ wanted start,
        (∀ r ∈ runs, chronoToOdt r.1 = chronoToOdt start → r.1 ≤ start) →
        t.list wanted start = (kept .empty runs).list wanted start) := by
  obtain ⟨t, ht, hmirrors, hsorted⟩ := mirrors_run runs Memory.empty Tables.empty
    ⟨fun _ => rfl, fun _ => rfl⟩ (fun _ => List.Pairwise.nil) (fun r _ => before_empty _) hseconds
    honce
  refine ⟨t, ht, ?_, ?_⟩
  · intro wanted start
    rw [hmirrors.list hsorted]
    exact list_current honce wanted _ start
  · intro htold wanted start hstart
    rw [hmirrors.list hsorted]
    exact list_atSeconds htold honce wanted hstart

/-- three runs of one check: it fails twice within the hour, and then is ok -/
def nightly : Runs ℕ String :=
  [(0, [⟨1, .error, "no data", "", ""⟩]),
    (1800 * second + 500000000, [⟨1, .error, "no data", "", ""⟩]),
    (4000 * second + 250000000, [⟨1, .ok, "", "", ""⟩])]

theorem forward_nightly : Forward nightly := by
  unfold Forward
  decide

theorem seconds_nightly : Seconds nightly := by
  unfold Seconds
  decide

theorem once_nightly : Once nightly := by
  unfold Once
  decide

theorem arms_agree_of_nightly : ∃ t, written .empty nightly = some t ∧
    (∀ wanted start, (t.list wanted start).map Check.current
      = ((kept .empty nightly).list wanted start).map Check.current) ∧
    (Told nightly → ∀ wanted start,
      (∀ r ∈ nightly, chronoToOdt r.1 = chronoToOdt start → r.1 ≤ start) →
      t.list wanted start = (kept .empty nightly).list wanted start) :=
  arms_agree seconds_nightly once_nightly

theorem finding_latest {runs : Runs κ τ} (honce : Once runs) (key : κ) :
    ((kept .empty runs).latest.get? key).map Latest.finding
      = runs.getLast?.bind (fun r => found r.2 key) := by
  induction runs using List.reverseRecOn with
  | nil => rfl
  | append_singleton runs r _ =>
    rw [List.getLast?_append_of_ne_nil _ (by simp)]
    unfold kept
    rw [List.foldl_append]
    show ((Memory.record _ r.1 r.2).latest.get? key).map Latest.finding = found r.2 key
    rw [(memory_record _ r.1 (honce r (by simp)) key).1, Option.map_map]
    cases found r.2 key <;> rfl

/-- a run finds the check with this status -/
def Finds (key : κ) (status : Status) (r : Int × List (Finding κ τ)) : Prop :=
  ∃ f, found r.2 key = some f ∧ f.status = status

/-- **Since when**: after any runs, the status of a check holds since the first of the runs in a
row, up to the newest, that found it so; the run before them did not. -/
theorem since_streak {runs : Runs κ τ} (honce : Once runs) {key : κ} {l : Latest κ τ}
    (hget : (kept .empty runs).latest.get? key = some l) :
    ∃ before r streak, runs = before ++ r :: streak ∧ r.1 = l.since ∧
      (∀ r' ∈ r :: streak, Finds key l.finding.status r') ∧
      ∀ r', before.getLast? = some r' → ¬ Finds key l.finding.status r' := by
  induction runs using List.reverseRecOn generalizing l with
  | nil => exact absurd hget (by simp [kept, Memory.empty])
  | append_singleton runs r ih =>
    have honce' : Once runs := fun r' hr' => honce r' (List.mem_append_left _ hr')
    have hfinding := finding_latest honce' key
    unfold kept at hget
    rw [List.foldl_append] at hget
    change ((kept .empty runs).record r.1 r.2).latest.get? key = some l at hget
    rw [(memory_record _ r.1 (honce r (by simp)) key).1] at hget
    obtain ⟨f, hfound, rfl⟩ := Option.map_eq_some_iff.1 hget
    have hfinds : Finds key f.status r := ⟨f, hfound, rfl⟩
    -- the run is the first of its streak unless the one before found the same
    have hfirst : (∀ r', runs.getLast? = some r' → ¬ Finds key f.status r') →
        (latestOf r.1 ((kept .empty runs).latest.get? key) f).since = r.1 →
        ∃ before r₀ streak, runs ++ [r] = before ++ r₀ :: streak ∧
          r₀.1 = (latestOf r.1 ((kept .empty runs).latest.get? key) f).since ∧
          (∀ r' ∈ r₀ :: streak, Finds key f.status r') ∧
          ∀ r', before.getLast? = some r' → ¬ Finds key f.status r' := by
      intro hother hsince
      refine ⟨runs, r, [], rfl, hsince.symm, ?_, hother⟩
      intro r' hr'
      exact List.mem_singleton.1 hr' ▸ hfinds
    cases hheld : (kept .empty runs).latest.get? key with
    | none =>
      rw [hheld] at hfirst hfinding
      refine hfirst (fun r' hr' hfinds' => ?_) rfl
      obtain ⟨f', hf', -⟩ := hfinds'
      rw [hr', Option.bind_some, hf'] at hfinding
      exact absurd hfinding (by simp)
    | some b =>
      rw [hheld] at hfirst hfinding
      by_cases hstatus : b.finding.status = f.status
      · obtain ⟨before, r₀, streak, hruns, hr₀, hstreak, hother⟩ := ih honce' hheld
        rw [hstatus] at hstreak hother
        refine ⟨before, r₀, streak ++ [r], by rw [hruns]; simp, ?_, ?_, hother⟩
        · rw [hr₀]
          show _ = (Option.map Latest.since (Option.filter _ (some b))).getD r.1
          rw [Option.filter_some, if_pos (decide_eq_true hstatus)]
          rfl
        · intro r' hr'
          rw [← List.cons_append] at hr'
          rcases List.mem_append.1 hr' with hr' | hr'
          · exact hstreak r' hr'
          · exact List.mem_singleton.1 hr' ▸ hfinds
      · have hsince : (latestOf r.1 (some b) f).since = r.1 := by
          show (Option.map Latest.since (Option.filter _ (some b))).getD r.1 = r.1
          rw [Option.filter_some, if_neg (by simpa using hstatus)]
          rfl
        refine hfirst (fun r' hr' hfinds' => ?_) hsince
        obtain ⟨f', hf', hf's⟩ := hfinds'
        rw [hr', Option.bind_some, hf'] at hfinding
        exact hstatus (Option.some.inj hfinding ▸ hf's)

theorem since_streak_of_nightly : ∃ before r streak, nightly = before ++ r :: streak ∧
    r.1 = 4000 * second + 250000000 ∧ (∀ r' ∈ r :: streak, Finds 1 .ok r') ∧
      ∀ r', before.getLast? = some r' → ¬ Finds 1 .ok r' :=
  since_streak once_nightly
    (l := ⟨⟨1, .ok, "", "", ""⟩, 4000 * second + 250000000, some (4000 * second + 250000000),
      4000 * second + 250000000⟩) rfl

/-- **Run**: what the runs leave is from before anything later. -/
theorem before_kept {runs : Runs κ τ} (hforward : Forward runs) (honce : Once runs) {later : Int}
    (hlater : ∀ r ∈ runs, r.1 < later) : Before (kept .empty runs) later := by
  induction runs using List.reverseRecOn generalizing later with
  | nil => exact before_empty later
  | append_singleton runs r ih =>
    obtain ⟨hforward', -, hlast⟩ := List.pairwise_append.1 hforward
    have hbefore := ih hforward' (fun r' hr' => honce r' (List.mem_append_left _ hr'))
      (fun r' hr' => hlast r' hr' r List.mem_cons_self)
    rw [kept_append]
    exact hbefore.record (honce r (by simp)) (hlater r (by simp))

theorem filter_suffix {points : List (Int × Status)} (c : Int)
    (hsorted : points.Pairwise (fun a b => a.1 < b.1)) :
    points.filter (fun p => c ≤ p.1) <:+ points := by
  induction points with
  | nil => exact List.suffix_refl _
  | cons p points ih =>
    obtain ⟨hfirst, hsorted⟩ := List.pairwise_cons.1 hsorted
    by_cases hp : c ≤ p.1
    · have hall : (p :: points).filter (fun p => c ≤ p.1) = p :: points := by
        rw [List.filter_eq_self]
        intro q hq
        rcases List.mem_cons.1 hq with rfl | hq
        · exact decide_eq_true hp
        · exact decide_eq_true (le_trans hp (le_of_lt (hfirst q hq)))
      rw [hall]
    · rw [List.filter_cons_of_neg (by simpa using hp)]
      exact (ih hsorted).trans (List.suffix_cons p points)

theorem getLast?_filter_of {points : List (Int × Status)} {p : Int × Status}
    {P : Int × Status → Bool}
    (hlast : points.getLast? = some p) (hp : P p = true) : (points.filter P).getLast? = some p := by
  obtain ⟨points', rfl⟩ := List.getLast?_eq_some_iff.1 hlast
  rw [List.filter_append, List.filter_cons_of_pos hp, List.filter_nil, List.getLast?_concat]

omit [LinearOrder κ] in
theorem spaced_added {points : List (Int × Status)} {finding : Option (Finding κ τ)}
    (hspaced : points.IsChain (fun a b => a.2 ≠ b.2 ∨ a.1 + sample ≤ b.1)) :
    (points ++ added now points.getLast? finding).IsChain
      (fun a b => a.2 ≠ b.2 ∨ a.1 + sample ≤ b.1) := by
  unfold added
  cases finding with
  | none => simpa using hspaced
  | some f =>
    by_cases hpoint : isPoint now f.status points.getLast? = true
    · simp only [if_pos hpoint]
      refine List.isChain_append.2 ⟨hspaced, List.IsChain.singleton _, ?_⟩
      intro p hp q hq
      obtain rfl : (now, f.status) = q := Option.some.inj hq
      rw [Option.mem_def.1 hp] at hpoint
      simp only [isPoint, Option.all_some, Bool.or_eq_true, decide_eq_true_eq] at hpoint
      rcases hpoint with hstatus | hlate
      · exact Or.inl hstatus
      · exact Or.inr (by simp only; omega)
    · simpa only [if_neg hpoint, List.append_nil] using hspaced

/-- **Spacing**: after any runs, no point of a check repeats the one before it within the hour. -/
theorem history_spaced {runs : Runs κ τ} (hforward : Forward runs) (honce : Once runs) (key : κ) :
    (ofKey (kept .empty runs).history key).IsChain (fun a b => a.2 ≠ b.2 ∨ a.1 + sample ≤ b.1) := by
  induction runs using List.reverseRecOn with
  | nil => exact List.IsChain.nil
  | append_singleton runs r ih =>
    obtain ⟨hforward', -, hlast⟩ := List.pairwise_append.1 hforward
    have honce' : Once runs := fun r' hr' => honce r' (List.mem_append_left _ hr')
    have hbefore := before_kept hforward' honce' (fun r' hr' => hlast r' hr' r List.mem_cons_self)
    rw [kept_append, (memory_record _ r.1 (honce r (by simp)) key).2]
    exact (spaced_added (ih hforward' honce')).suffix
      (filter_suffix _ (hbefore.sorted_added key (found r.2 key)))

theorem history_spaced_of_nightly :
    (ofKey (kept .empty nightly).history 1).IsChain (fun a b => a.2 ≠ b.2 ∨ a.1 + sample ≤ b.1) :=
  history_spaced forward_nightly once_nightly 1

omit [LinearOrder κ] in
theorem newest_tells (points : List (Int × Status)) (f : Finding κ τ) :
    ∃ p, (points ++ added now points.getLast? (some f)).getLast? = some p ∧ p.2 = f.status ∧
      now - sample < p.1 := by
  by_cases hpoint : isPoint now f.status points.getLast? = true
  · refine ⟨(now, f.status), ?_, rfl, by simp only [sample, second]; omega⟩
    simp only [added, if_pos hpoint, List.getLast?_concat]
  · cases hnewest : points.getLast? with
    | none =>
      rw [hnewest] at hpoint
      exact absurd rfl hpoint
    | some p =>
      rw [hnewest] at hpoint
      have hadded : added now (some p) (some f) = [] := if_neg hpoint
      simp only [isPoint, Option.all_some, Bool.or_eq_true, decide_eq_true_eq, not_or, not_not,
        not_le] at hpoint
      exact ⟨p, by rw [hadded, List.append_nil, hnewest], hpoint.1, hpoint.2⟩

/-- **The history tells**: of every run up to 90 days less an hour before the newest, the newest
point not after it has the status that the run found, and is from the hour before it. -/
theorem history_tells {runs : Runs κ τ} (hforward : Forward runs) (honce : Once runs)
    {newest : Int × List (Finding κ τ)} (hnewest : runs.getLast? = some newest) {key : κ}
    {status : Status} {r : Int × List (Finding κ τ)} (hr : r ∈ runs) (hfinds : Finds key status r)
    (hkept : newest.1 - keep ≤ r.1 - sample) :
    ∃ p, ((ofKey (kept .empty runs).history key).filter (fun p => p.1 ≤ r.1)).getLast? = some p ∧
      p.2 = status ∧ r.1 - sample < p.1 := by
  induction runs using List.reverseRecOn generalizing newest with
  | nil => exact absurd hr List.not_mem_nil
  | append_singleton runs last ih =>
    obtain ⟨hforward', -, hlast⟩ := List.pairwise_append.1 hforward
    have honce' : Once runs := fun r' hr' => honce r' (List.mem_append_left _ hr')
    have hbefore := before_kept hforward' honce'
      (fun r' hr' => hlast r' hr' last List.mem_cons_self)
    obtain rfl : last = newest := by
      rw [List.getLast?_concat] at hnewest
      exact Option.some.inj hnewest
    rw [kept_append, (memory_record _ last.1 (honce last (by simp)) key).2]
    rcases List.mem_append.1 hr with hr | hr
    · -- an older run: the new point is after it, and its own is not too old yet
      have hlt := hlast r hr last List.mem_cons_self
      obtain ⟨before, hbefore'⟩ : ∃ before, runs.getLast? = some before :=
        ⟨_, List.getLast?_eq_some_getLast (List.ne_nil_of_mem hr)⟩
      have hle := hlast before (List.mem_of_getLast? hbefore') last List.mem_cons_self
      obtain ⟨p, hp, hstatus, htime⟩ := ih hforward' honce' hbefore' hr (by omega)
      have hadded : (added last.1 (ofKey (kept .empty runs).history key).getLast?
          (found last.2 key)).filter (fun p => p.1 ≤ r.1) = [] := by
        rw [List.filter_eq_nil_iff]
        intro q hq
        rw [mem_added hq]
        simpa using hlt
      refine ⟨p, ?_, hstatus, htime⟩
      rw [List.filter_comm, List.filter_append, hadded, List.append_nil]
      exact getLast?_filter_of hp (decide_eq_true (by omega))
    · obtain rfl := List.mem_singleton.1 hr
      obtain ⟨f, hfound, rfl⟩ := hfinds
      obtain ⟨p, hp, hstatus, htime⟩ := @newest_tells _ _ r.1
        (ofKey (kept .empty runs).history key) f
      rw [hfound, List.filter_filter]
      refine ⟨p, getLast?_filter_of hp ?_, hstatus, htime⟩
      have hpr : p.1 ≤ r.1 := by
        rcases List.mem_append.1 (List.mem_of_getLast? hp) with hmem | hmem
        · exact le_of_lt (hbefore.points key p hmem)
        · exact le_of_eq (mem_added hmem)
      simp only [Bool.and_eq_true, decide_eq_true_eq]
      exact ⟨hpr, by omega⟩

theorem history_tells_of_nightly :
    ∃ p, ((ofKey (kept .empty nightly).history 1).filter
        (fun p => p.1 ≤ 1800 * second + 500000000)).getLast? = some p ∧
      p.2 = .error ∧ 1800 * second + 500000000 - sample < p.1 :=
  history_tells forward_nightly once_nightly
    (r := (1800 * second + 500000000, [⟨1, .error, "no data", "", ""⟩])) rfl
    (by simp [nightly]) ⟨_, rfl, rfl⟩ (by decide)

end

end Health
end Portal
