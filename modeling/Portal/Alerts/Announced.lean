import Portal.Alerts.Bookkeeping

/-!
# Who hears of an incident (`alerts.rs`: `Evaluator::run`, `open`, `notify`)

An incident is opened and its subscribers are told in calls of their own, and the next pass finds it
open already.  A pass that fails in between leaves those it had still to tell without the notice.

* `Between`            a pass that fails at no opening's notices;
* `Announced`          an incident that stays open was announced once to each who asked;
* `opened_announced`   it was in every run of passes that fail nowhere else.
-/

namespace Portal.Alerts

/-! ## the rows of a run -/

theorem wish_or_pass (a : Action) :
    (∀ r cut, a ≠ .pass r cut) ∨ ∃ r cut, a = .pass r cut := by
  cases a with
  | pass r cut => exact .inr ⟨r, cut, rfl⟩
  | _ => exact .inl fun _ _ heq => by cases heq

theorem incidents_act {s s' : Store} {a : Action} (h : s.act a = some s')
    (hwish : ∀ r cut, a ≠ .pass r cut) : s'.incidents = s.incidents := by
  cases a with
  | upsert subject project scope target events delivery =>
    obtain rfl := Option.some.inj h
    unfold Store.upsert
    simp only []
    split <;> rfl
  | remove subject id =>
    obtain rfl := Option.some.inj h
    unfold Store.remove
    simp only []
    split <;> rfl
  | mute subject id mutedUntil =>
    obtain rfl := Option.some.inj h
    rfl
  | pass r cut => exact absurd rfl (hwish r cut)

theorem row_act {s s' : Store} {a : Action} (h : s.act a = some s') {n : Nat} {row : Row}
    (hrow : s.incidents[n]? = some row) :
    s'.incidents[n]? = some row ∨
      row.2 = none ∧ ∃ now, s'.incidents[n]? = some (row.1, some now) := by
  rcases wish_or_pass a with hwish | ⟨r, cut, rfl⟩
  · rw [incidents_act h hwish]
    exact .inl hrow
  · obtain rfl := Option.some.inj h
    rcases (closed_iff s r hrow cut).1 with hsame | ⟨hopen, -, hclosed⟩
    · exact .inl hsame
    · exact .inr ⟨hopen, _, hclosed⟩

theorem row_run {s₀ s : Store} {tr : List (Trans Store Action)} (hr : Run Store.act s₀ tr s)
    {n : Nat} {row : Row} (hrow : s₀.incidents[n]? = some row) :
    ∃ recovered, s.incidents[n]? = some (row.1, recovered) := by
  induction hr with
  | nil => exact ⟨row.2, hrow⟩
  | snoc hr hs ih =>
    obtain ⟨recovered, hbefore⟩ := ih
    rcases row_act hs hbefore with hsame | ⟨-, now, hclosed⟩
    · exact ⟨_, hsame⟩
    · exact ⟨_, hclosed⟩

theorem open_run {s₀ s : Store} {tr : List (Trans Store Action)} (hr : Run Store.act s₀ tr s)
    {n : Nat} {incident : Incident} (hrow : s₀.incidents[n]? = some (incident, none))
    (hopen : s.incidents[n]? = some (incident, none)) :
    ∀ t ∈ tr, t.before.incidents[n]? = some (incident, none) := by
  induction hr with
  | nil => exact fun t ht => absurd ht List.not_mem_nil
  | @snoc tr s s' a hr hs ih =>
    have hbefore : s.incidents[n]? = some (incident, none) := by
      obtain ⟨recovered, hrecovered⟩ := row_run hr hrow
      rcases row_act hs hrecovered with hsame | ⟨hnone, now, hclosed⟩
      · rw [hopen] at hsame
        rw [hrecovered, ← hsame]
      · rw [hopen] at hclosed
        cases hclosed
    intro t ht
    rcases List.mem_append.mp ht with ht | ht
    · exact ih hbefore t ht
    · obtain rfl := List.mem_singleton.mp ht
      exact hbefore

theorem Store.row_write {s : Store} {n : Nat} {row : Row} (h : s.incidents[n]? = some row)
    (w : Write) : ∃ recovered, (s.write w).incidents[n]? = some (row.1, recovered) := by
  cases w with
  | openIncident signal now =>
    refine ⟨row.2, ?_⟩
    show (s.incidents ++ [((⟨signal.key, signal.detail, now⟩, none) : Row)])[n]? = some row
    rw [List.getElem?_append_left (List.getElem?_eq_some_iff.mp h).1]
    exact h
  | closeIncident key now =>
    have hafter : (s.closeIncident key now).incidents[n]?
        = some (if row.1.key = key ∧ row.2 = none then (row.1, some now) else row) := by
      rw [Store.closeIncident, List.getElem?_map, h]
      rfl
    by_cases hcloses : row.1.key = key ∧ row.2 = none
    · rw [if_pos hcloses] at hafter
      exact ⟨_, hafter⟩
    · rw [if_neg hcloses] at hafter
      exact ⟨row.2, hafter⟩
  | notify recipient subscription key change detail => exact ⟨row.2, h⟩
  | digest recipient subscription incident key detail => exact ⟨row.2, h⟩
  | digested id now => exact ⟨row.2, h⟩

theorem Store.row_writes {s : Store} {n : Nat} {row : Row} (h : s.incidents[n]? = some row)
    (ws : List Write) : ∃ recovered, (s.writes ws).incidents[n]? = some (row.1, recovered) := by
  induction ws generalizing s row with
  | nil => exact ⟨row.2, h⟩
  | cons w ws ih =>
    obtain ⟨recovered, hafter⟩ := Store.row_write h w
    have hrest := ih hafter
    exact hrest

theorem opened_of_new {ws : List Write} {s : Store} {n : Nat} {row : Row}
    (hnew : s.incidents.length ≤ n) (hrow : (s.writes ws).incidents[n]? = some row) :
    ∃ signal now, .openIncident signal now ∈ ws ∧ row.1 = ⟨signal.key, signal.detail, now⟩ := by
  induction ws generalizing s with
  | nil =>
    have hlt := (List.getElem?_eq_some_iff.mp hrow).1
    rw [Store.writes_nil] at hlt
    omega
  | cons w ws ih =>
    rw [Store.writes_cons] at hrow
    have hrest : (s.write w).incidents.length ≤ n → ∃ signal now,
        .openIncident signal now ∈ w :: ws ∧ row.1 = ⟨signal.key, signal.detail, now⟩ := by
      intro hnew'
      obtain ⟨signal, now, hmem, heq⟩ := ih hnew' hrow
      exact ⟨signal, now, List.mem_cons_of_mem w hmem, heq⟩
    cases w with
    | openIncident signal now =>
      by_cases hn : n = s.incidents.length
      · -- this very write; later ones only close it
        subst hn
        have hhere : (s.write (.openIncident signal now)).incidents[s.incidents.length]?
            = some (⟨signal.key, signal.detail, now⟩, none) := by
          show (s.incidents ++ [((⟨signal.key, signal.detail, now⟩, none) : Row)])[s.incidents.length]? = _
          simp
        obtain ⟨recovered, hafter⟩ := Store.row_writes hhere ws
        obtain rfl : row = (⟨signal.key, signal.detail, now⟩, recovered) :=
          Option.some.inj (hrow.symm.trans hafter)
        exact ⟨signal, now, List.mem_cons_self, rfl⟩
      · refine hrest ?_
        show (s.incidents ++ [((⟨signal.key, signal.detail, now⟩, none) : Row)]).length ≤ n
        rw [List.length_append, List.length_singleton]
        omega
    | closeIncident key now =>
      refine hrest ?_
      show (s.closeIncident key now).incidents.length ≤ n
      rw [Store.closeIncident, List.length_map]
      exact hnew
    | notify recipient subscription key change detail => exact hrest hnew
    | digest recipient subscription incident key detail => exact hrest hnew
    | digested id now => exact hrest hnew

/-! ## the notices of an opening -/

def isOpened (held : Held) (key : IncidentKey) : Write → Bool
  | .notify recipient id key' change _ =>
    recipient = held.subject && id = held.subscription.id && key' = key && change = .opened
  | _ => false

/-- how often a subscription was told that an incident of a key opened -/
def openedNotices (held : Held) (key : IncidentKey) (ws : List Write) : Nat :=
  ws.countP (isOpened held key)

/-- the pass completes, or a call of it fails at none of the notices of an opening -/
def Between (t : Trans Store Action) : Prop :=
  match t.act with
  | .pass r (some cut) =>
    ((opening t.before r).flatMap (openWrites t.before r)).length ≤ cut ∨
      ∃ m, cut = (((opening t.before r).take m).flatMap (openWrites t.before r)).length
  | _ => True

section
variable (s : Store) (r : Reading)

theorem made_of_between {s' : Store} {cut : Option Nat} (h : Between ⟨s, .pass r cut, s'⟩) :
    ∃ m rest, made s r cut = ((opening s r).take m).flatMap (openWrites s r) ++ rest ∧
      (∀ signal now, .openIncident signal now ∉ rest) ∧
      ∀ held key, openedNotices held key rest = 0 := by
  have hlater : ∀ w ∈ (closing s r).flatMap (closeWrites s r) ++ digests s r,
      (∀ signal now, w ≠ .openIncident signal now) ∧ ∀ held key, isOpened held key w = false := by
    intro w hw
    rcases List.mem_append.mp hw with hw | hw
    · obtain ⟨key, -, hw⟩ := List.mem_flatMap.mp hw
      rcases List.mem_cons.mp hw with rfl | hw
      · exact ⟨fun _ _ heq => (by cases heq), fun _ _ => rfl⟩
      · obtain ⟨held, -, rfl⟩ := mem_tell hw
        exact ⟨fun _ _ heq => (by cases heq), fun _ _ => by simp [isOpened]⟩
    · rcases mem_digests s r hw with ⟨_, _, _, _, _, rfl⟩ | ⟨_, -, rfl⟩
      · exact ⟨fun _ _ heq => (by cases heq), fun _ _ => rfl⟩
      · exact ⟨fun _ _ heq => (by cases heq), fun _ _ => rfl⟩
  have hof : ∀ rest, (∀ w ∈ rest, w ∈ (closing s r).flatMap (closeWrites s r) ++ digests s r) →
      (∀ signal now, .openIncident signal now ∉ rest) ∧
        ∀ held key, openedNotices held key rest = 0 := by
    intro rest hrest
    refine ⟨fun signal now hmem => (hlater _ (hrest _ hmem)).1 signal now rfl, fun held key => ?_⟩
    refine List.countP_eq_zero.mpr fun w hw => ?_
    rw [(hlater w (hrest w hw)).2]
    exact Bool.false_ne_true
  have hall : passWrites s r = (opening s r).flatMap (openWrites s r)
      ++ ((closing s r).flatMap (closeWrites s r) ++ digests s r) := by
    rw [passWrites, firstWrites, List.append_assoc]
  cases cut with
  | none =>
    refine ⟨(opening s r).length, _, ?_, hof _ fun w hw => hw⟩
    rw [made, hall, List.take_length]
  | some cut =>
    rcases h with hlong | ⟨m, hcut⟩
    · refine ⟨(opening s r).length, ((closing s r).flatMap (closeWrites s r) ++ digests s r).take
        (cut - ((opening s r).flatMap (openWrites s r)).length), ?_,
        hof _ fun w hw => List.mem_of_mem_take hw⟩
      rw [made, hall, List.take_length, List.take_append, List.take_of_length_le hlong]
    · refine ⟨m, [], ?_, hof [] fun w hw => absurd hw List.not_mem_nil⟩
      have hblocks : (opening s r).flatMap (openWrites s r)
          = ((opening s r).take m).flatMap (openWrites s r)
            ++ ((opening s r).drop m).flatMap (openWrites s r) := by
        rw [← List.flatMap_append, List.take_append_drop]
      rw [made, hall, hblocks, List.append_assoc, hcut, List.take_left', List.append_nil]
      rfl

theorem audience_nodup (hids : (s.subscriptions.map fun held => held.subscription.id).Nodup)
    (key : IncidentKey) :
    ((audience s.subscriptions r key).map fun held => held.subscription.id).Nodup :=
  hids.sublist (List.filter_sublist.map _)

theorem countP_id {hs : List Held} (hids : (hs.map fun held => held.subscription.id).Nodup)
    {held : Held} (hheld : held ∈ hs) :
    (hs.countP fun h => h.subject = held.subject && h.subscription.id = held.subscription.id) = 1 := by
  induction hs with
  | nil => exact absurd hheld List.not_mem_nil
  | cons h hs ih =>
    obtain ⟨hnot, hids'⟩ := List.nodup_cons.mp hids
    rcases List.mem_cons.mp hheld with rfl | hheld
    · have hothers : hs.countP (fun h => h.subject = held.subject &&
          h.subscription.id = held.subscription.id) = 0 := by
        refine List.countP_eq_zero.mpr fun h hh => ?_
        have hne : h.subscription.id ≠ held.subscription.id := fun heq =>
          hnot (List.mem_map.mpr ⟨h, hh, heq⟩)
        simp [hne]
      rw [List.countP_cons, hothers]
      simp
    · have hne : h.subscription.id ≠ held.subscription.id := fun heq =>
        hnot (List.mem_map.mpr ⟨held, hheld, heq.symm⟩)
      rw [List.countP_cons, ih hids' hheld]
      simp [hne]

theorem openedNotices_tell {hs : List Held} (hids : (hs.map fun held => held.subscription.id).Nodup)
    {held : Held} (hheld : held ∈ hs) (key : IncidentKey) (detail : String) :
    openedNotices held key (tell hs key .opened detail) = 1 := by
  rw [openedNotices, tell, List.countP_map, ← countP_id hids hheld]
  refine List.countP_congr fun h _ => ?_
  simp [isOpened]

theorem openedNotices_of_ne (held : Held) {key : IncidentKey} {opened : List Signal}
    (h : ∀ signal ∈ opened, signal.key ≠ key) :
    openedNotices held key (opened.flatMap (openWrites s r)) = 0 := by
  refine List.countP_eq_zero.mpr fun w hw => ?_
  obtain ⟨signal, hsignal, hw⟩ := List.mem_flatMap.mp hw
  rcases List.mem_cons.mp hw with rfl | hw
  · exact Bool.false_ne_true
  · obtain ⟨held', -, rfl⟩ := mem_tell hw
    simp [isOpened, h signal hsignal]

theorem openedNotices_openings (hids : (s.subscriptions.map fun held => held.subscription.id).Nodup)
    {opened : List Signal} (hnodup : (opened.map Signal.key).Nodup) {signal : Signal}
    (hsignal : signal ∈ opened) {held : Held}
    (hheld : held ∈ audience s.subscriptions r signal.key) :
    openedNotices held signal.key (opened.flatMap (openWrites s r)) = 1 := by
  obtain ⟨before, after, rfl⟩ := List.append_of_mem hsignal
  rw [List.map_append, List.map_cons] at hnodup
  obtain ⟨-, hafter, hdisjoint⟩ := List.nodup_append'.mp hnodup
  have hbefore : ∀ other ∈ before, other.key ≠ signal.key := fun other hother heq =>
    hdisjoint (List.mem_map.mpr ⟨other, hother, rfl⟩) (heq ▸ List.mem_cons_self)
  have hrest : ∀ other ∈ after, other.key ≠ signal.key := fun other hother heq =>
    (List.nodup_cons.mp hafter).1 (heq ▸ List.mem_map.mpr ⟨other, hother, rfl⟩)
  have hhere : openedNotices held signal.key (openWrites s r signal) = 1 := by
    rw [openWrites, openedNotices, List.countP_cons]
    exact openedNotices_tell (audience_nodup s r hids signal.key) hheld _ _
  rw [List.flatMap_append, List.flatMap_cons, openedNotices, List.countP_append, List.countP_append]
  have h1 := openedNotices_of_ne s r held hbefore
  have h2 := openedNotices_of_ne s r held hrest
  unfold openedNotices at h1 h2 hhere
  rw [h1, h2, hhere]

end

/-! ## what was announced -/

/-- each incident that stays open up to a pass that completes was announced once, from its opening
on, to every subscription that covers it, asks to be told at once and is not muted -/
def Announced (tr : List (Trans Store Action)) (s : Store) : Prop :=
  ∀ a p b, tr = a ++ p :: b → ∀ r cut, p.act = .pass r cut →
    ∀ (n : Nat) (incident : Incident), p.before.incidents.length ≤ n →
      p.after.incidents[n]? = some (incident, none) → s.incidents[n]? = some (incident, none) →
      (∃ r', (b.getLast?.getD p).act = .pass r' none) →
      ∀ held ∈ audience p.before.subscriptions r incident.key,
        openedNotices held incident.key (log (p :: b)) = 1

theorem openedNotices_of_open {t : Trans Store Action} {key : IncidentKey}
    (h : key ∈ t.before.openKeys) (held : Held) : openedNotices held key (writesOf t) = 0 := by
  unfold writesOf
  split
  · rename_i r cut hact
    have hall : openedNotices held key (passWrites t.before r) = 0 := by
      obtain ⟨m, rest, hmade, -, hrest⟩ := made_of_between t.before r
        (show Between ⟨t.before, .pass r none, t.before⟩ from trivial)
      have hopened : ∀ signal ∈ (opening t.before r).take m, signal.key ≠ key :=
        fun signal hsignal heq =>
          not_mem_openKeys_of_opening _ r (List.mem_of_mem_take hsignal) (heq ▸ h)
      have hblocks := openedNotices_of_ne t.before r held hopened
      have hlater := hrest held key
      rw [made] at hmade
      unfold openedNotices at hblocks hlater ⊢
      rw [hmade, List.countP_append, hblocks, hlater]
    exact Nat.le_zero.mp (hall ▸ (made_start t.before r cut).sublist.countP_le)
  · rfl

theorem openedNotices_log {tr : List (Trans Store Action)} {held : Held} {key : IncidentKey}
    (h : ∀ t ∈ tr, openedNotices held key (writesOf t) = 0) : openedNotices held key (log tr) = 0 := by
  refine List.countP_eq_zero.mpr fun w hw => ?_
  obtain ⟨t, ht, hw⟩ := List.mem_flatMap.mp hw
  exact List.countP_eq_zero.mp (h t ht) w hw

/-- **Every opening is announced once**, in runs whose passes fail at no opening's notices. -/
theorem opened_announced {tr : List (Trans Store Action)} {s : Store}
    (hr : Run Store.act .empty tr s) (hbetween : ∀ t ∈ tr, Between t) : Announced tr s := by
  rintro a p b rfl r cut hact n incident hnew hopened hstays - held hheld
  obtain ⟨hbefore, hstep, hafter⟩ := hr.at
  have hbetweenHere := hbetween p (by simp)
  obtain ⟨before, act, after⟩ := p
  obtain rfl : act = .pass r cut := hact
  have hwrites : after = before.writes (made before r cut) := (Option.some.inj hstep).symm
  subst hwrites
  have hids : (before.subscriptions.map fun held => held.subscription.id).Nodup := by
    have := (marked hbefore).ids
    rw [Store.marks, List.map_map] at this
    exact this
  -- the row was opened by this pass, with its notices
  obtain ⟨m, rest, hmade, hnone, hrest⟩ := made_of_between before r hbetweenHere
  obtain ⟨signal, now, hmem, hincident⟩ := opened_of_new hnew hopened
  rw [hmade] at hmem
  have hsignal : signal ∈ (opening before r).take m := by
    rcases List.mem_append.mp hmem with hmem | hmem
    · obtain ⟨signal', hsignal', hw⟩ := List.mem_flatMap.mp hmem
      rcases List.mem_cons.mp hw with hw | hw
      · rw [(Write.openIncident.inj hw).1]
        exact hsignal'
      · obtain ⟨_, -, hw⟩ := mem_tell hw
        cases hw
    · exact absurd hmem (hnone signal now)
  have hkey : incident.key = signal.key := congrArg Incident.key hincident
  rw [hkey] at hheld ⊢
  have hhere : openedNotices held signal.key (made before r cut) = 1 := by
    have hblocks := openedNotices_openings before r hids
      ((opening_nodup before r).sublist ((List.take_sublist m _).map _)) hsignal hheld
    have hlater := hrest held signal.key
    unfold openedNotices at hblocks hlater ⊢
    rw [hmade, List.countP_append, hblocks, hlater]
  -- later passes find it open
  have hrows := open_run hafter hopened hstays
  have hlater : openedNotices held signal.key (log b) = 0 :=
    openedNotices_log fun t ht => openedNotices_of_open
      (List.mem_map.mpr ⟨(incident, none), List.mem_filter.mpr
        ⟨List.mem_of_getElem? (hrows t ht), rfl⟩, hkey⟩) held
  unfold openedNotices at hhere hlater ⊢
  rw [log, List.flatMap_cons, List.countP_append]
  exact (congrArg₂ (· + ·) hhere hlater)

/-- a person asks to be told at once -/
def watching : Store :=
  Store.empty.upsert "jana" "helsinki" .pipeline "bikes" [.failure] .portal

/-- the first notice of a pass fails -/
def interrupted : Store := watching.writes (made watching failures (some 1))

def completed (s : Store) : Store := s.writes (made s failures none)

theorem run_watching : Run Store.act .empty
    [⟨.empty, .upsert "jana" "helsinki" .pipeline "bikes" [.failure] .portal, watching⟩] watching :=
  Run.nil.snoc rfl

/-- a pass that completes tells of the failure -/
theorem opened_announced_of_completed :
    Announced [⟨.empty, .upsert "jana" "helsinki" .pipeline "bikes" [.failure] .portal, watching⟩,
      ⟨watching, .pass failures none, completed watching⟩] (completed watching) :=
  opened_announced (run_watching.snoc rfl) fun t ht => by
    rcases List.mem_cons.mp ht with rfl | ht
    · trivial
    · obtain rfl := List.mem_singleton.mp ht
      trivial

/-- **An opening whose notice failed is announced to nobody.** -/
theorem unannounced : ¬ ∀ tr s, Run Store.act .empty tr s → Announced tr s := by
  intro hall
  have hfails : watching.act (.pass failures (some 1)) = some interrupted := rfl
  have hcompletes : interrupted.act (.pass failures none) = some (completed interrupted) := rfl
  have hrun := (run_watching.snoc hfails).snoc hcompletes
  have htold := hall _ _ hrun
    [⟨.empty, .upsert "jana" "helsinki" .pipeline "bikes" [.failure] .portal, watching⟩]
    ⟨watching, .pass failures (some 1), interrupted⟩
    [⟨interrupted, .pass failures none, completed interrupted⟩] rfl failures (some 1) rfl 0
    ⟨.of "helsinki" "bikes" .failure, "", 7 * Time.hour⟩ (by decide) (by decide +kernel)
    (by decide +kernel) ⟨failures, rfl⟩
    ⟨"jana", ⟨1, "helsinki", .pipeline, "bikes", [.failure], .portal⟩, none, none⟩
    (by decide +kernel)
  revert htold
  decide +kernel

end Portal.Alerts
