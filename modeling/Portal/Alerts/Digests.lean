import Portal.Alerts.Announced

/-!
# What the digests list (`alerts.rs`: `Evaluator::run`, `digest_due`, `incidents_since`)

A digest lists what opened since the last one, of the rows of the last day; it is due at the first
pass after seven.  Two digests may be more than a day apart, and what opened right after the first
is then in neither.

* `Hourly`             passes in order, one of them complete within every hour;
* `Whole`, `Reaches`   a pass fails amid no digest; none that is due has waited for over a day;
* `ListedOnce`         what opens after a subscription's first digest is listed once;
* `listed_once`        it is in every run whose passes are such.
-/

namespace Portal.Alerts

/-! ## the times of a run -/

def passTimes (tr : List (Trans Store Action)) : List Int :=
  tr.filterMap fun t =>
    match t.act with
    | .pass r _ => some r.now
    | _ => none

def completedTimes (tr : List (Trans Store Action)) : List Int :=
  tr.filterMap fun t =>
    match t.act with
    | .pass r none => some r.now
    | _ => none

/-- a pass comes after those before it, and one that completes within an hour of the last that did
(or, if none did, of the first pass) -/
def OnTime (tr : List (Trans Store Action)) (t : Trans Store Action) : Prop :=
  match t.act with
  | .pass r cut => (∀ x ∈ passTimes tr, x ≤ r.now) ∧
      (cut = none → ∀ y ∈ ((completedTimes tr).getLast?).or (passTimes tr).head?,
        r.now ≤ y + Time.hour)
  | _ => True

def Hourly (tr : List (Trans Store Action)) : Prop :=
  ∀ l t l', tr = l ++ t :: l' → OnTime l t

/-! ## the condition -/

def wants (held : Held) (r : Reading) (key : IncidentKey) : Bool :=
  coversKey held.subscription key r.pipelines && held.subscription.events.contains key.event

/-- the rows of the last day, as a pass leaves them -/
def dayRows (s : Store) (r : Reading) : List (Row × Nat) :=
  (s.writes (firstWrites s r)).incidentsSince (r.now - Time.day)

/-- the pass completes, or a call of it fails amid no digest -/
def Whole (t : Trans Store Action) : Prop :=
  match t.act with
  | .pass r (some cut) =>
    cut ≤ (firstWrites t.before r).length ∨
      ∃ m, cut = (firstWrites t.before r).length
        + (((due t.before r).take m).flatMap (digestWrites r (dayRows t.before r))).length
  | _ => True

/-- no incident that a due digest has still to list opened a day ago or earlier, and none that a
subscription wants opens at the very instant of its last digest -/
def Reaches (t : Trans Store Action) : Prop :=
  match t.act with
  | .pass r _ =>
    (∀ held ∈ due t.before r, held.muted r.now = false → ∀ row ∈ t.before.incidents,
      lists r held row = true → r.now - Time.day < row.1.openedAt) ∧
    ∀ held ∈ t.before.subscriptions, held.digestAt = some r.now →
      ∀ signal ∈ opening t.before r, wants held r signal.key = false
  | _ => True

/-! ## how often an incident is listed -/

def isListed (id n : Nat) : Write → Bool
  | .digest _ id' n' _ _ => id' = id && n' = n
  | _ => false

/-- how often the digests of a subscription listed an incident -/
def listings (id n : Nat) (ws : List Write) : Nat := ws.countP (isListed id n)

/-- a pass finds the subscription set to digest, not muted, and covering the key -/
def Watches (id : Nat) (key : IncidentKey) (t : Trans Store Action) : Prop :=
  match t.act with
  | .pass r _ => ∃ held ∈ t.before.subscriptions, held.subscription.id = id ∧
      held.subscription.delivery = .digest ∧ held.muted r.now = false ∧ wants held r key = true
  | _ => True

/-- what opens after a subscription's first digest, and is covered and not muted from then on, is in
no two digests, and in one when a day has passed -/
def ListedOnce (tr : List (Trans Store Action)) : Prop :=
  ∀ a p b, tr = a ++ p :: b → ∀ r cut, p.act = .pass r cut →
    ∀ (n : Nat) (incident : Incident), p.before.incidents.length ≤ n →
      p.after.incidents[n]? = some (incident, none) →
      ∀ id, stampTimes id (log a) ≠ [] → (∀ t ∈ p :: b, Watches id incident.key t) →
        listings id n (log tr) ≤ 1 ∧
          ((∃ x ∈ completedTimes (p :: b), incident.openedAt + Time.day ≤ x) →
            listings id n (log tr) = 1)

/-! ## what a pass lists -/

section
variable {s : Store} {r : Reading}

theorem listings_append (id n : Nat) (ws ws' : List Write) :
    listings id n (ws ++ ws') = listings id n ws + listings id n ws' := List.countP_append

theorem listings_firstWrites (s : Store) (r : Reading) (id n : Nat) :
    listings id n (firstWrites s r) = 0 := by
  refine List.countP_eq_zero.mpr fun w hw => ?_
  rw [firstWrites, List.mem_append] at hw
  rcases hw with hw | hw
  · obtain ⟨signal, -, hw⟩ := List.mem_flatMap.mp hw
    rcases List.mem_cons.mp hw with rfl | hw
    · exact Bool.false_ne_true
    · obtain ⟨held, -, rfl⟩ := mem_tell hw
      exact Bool.false_ne_true
  · obtain ⟨key, -, hw⟩ := List.mem_flatMap.mp hw
    rcases List.mem_cons.mp hw with rfl | hw
    · exact Bool.false_ne_true
    · obtain ⟨held, -, rfl⟩ := mem_tell hw
      exact Bool.false_ne_true

theorem incidentsSince_nodup (s : Store) (since : Int) :
    ((s.incidentsSince since).map Prod.snd).Nodup := by
  refine List.Nodup.sublist (List.filter_sublist.map Prod.snd) ?_
  rw [List.zipIdx_map_snd]
  exact List.nodup_range'

theorem mem_incidentsSince {s : Store} {since : Int} {row : Row} {n : Nat} :
    (row, n) ∈ s.incidentsSince since ↔
      s.incidents[n]? = some row ∧ since < row.1.openedAt := by
  rw [Store.incidentsSince, List.mem_filter, List.mk_mem_zipIdx_iff_getElem?]
  simp

theorem listings_digestWrites (day : List (Row × Nat)) (hday : (day.map Prod.snd).Nodup)
    (held : Held) (id n : Nat) :
    listings id n (digestWrites r day held) ≤ 1 ∧
      (1 ≤ listings id n (digestWrites r day held) ↔ held.subscription.id = id ∧
        held.muted r.now = false ∧ ∃ row, (row, n) ∈ day ∧ lists r held row = true) := by
  have hstamp : listings id n [.digested held.subscription.id r.now] = 0 := rfl
  rw [digestWrites, listings_append, hstamp, Nat.add_zero]
  by_cases hmuted : held.muted r.now = true
  · rw [if_pos hmuted]
    exact ⟨Nat.zero_le _, fun h => absurd h (Nat.not_succ_le_zero 0),
      fun h => absurd h.2.1 (by simp [hmuted])⟩
  · rw [if_neg hmuted, listings, List.countP_map]
    constructor
    · -- the places are distinct
      have hle : (day.filter fun p => lists r held p.1).countP
          (isListed id n ∘ fun p => .digest held.subject held.subscription.id p.2 p.1.1.key
            (digestDetail p.1))
          ≤ (day.filter fun p => lists r held p.1).countP fun p => p.2 == n := by
        refine List.countP_mono_left fun p _ hp => ?_
        simp only [Function.comp, isListed, Bool.and_eq_true, decide_eq_true_eq] at hp
        exact beq_iff_eq.mpr hp.2
      refine le_trans hle ?_
      have hcount : (day.filter fun p => lists r held p.1).countP (fun p => p.2 == n)
          = ((day.filter fun p => lists r held p.1).map Prod.snd).count n := by
        rw [List.count, List.countP_map]
        rfl
      rw [hcount]
      exact List.nodup_iff_count_le_one.mp (hday.sublist (List.filter_sublist.map _)) n
    · rw [Nat.one_le_iff_ne_zero, ← Nat.pos_iff_ne_zero, List.countP_pos_iff]
      constructor
      · rintro ⟨⟨row, m⟩, hmem, hlisted⟩
        simp only [Function.comp, isListed, Bool.and_eq_true, decide_eq_true_eq] at hlisted
        obtain ⟨hid, rfl⟩ := hlisted
        obtain ⟨hmem, hlists⟩ := List.mem_filter.mp hmem
        exact ⟨hid, by simpa using hmuted, row, hmem, hlists⟩
      · rintro ⟨hid, -, row, hmem, hlists⟩
        refine ⟨(row, n), List.mem_filter.mpr ⟨hmem, hlists⟩, ?_⟩
        simp [isListed, hid]

theorem listings_digests {day : List (Row × Nat)} (hday : (day.map Prod.snd).Nodup)
    {hs : List Held} (hids : (hs.map fun held => held.subscription.id).Nodup) (id n : Nat) :
    listings id n (hs.flatMap (digestWrites r day)) ≤ 1 ∧
      (1 ≤ listings id n (hs.flatMap (digestWrites r day)) ↔ ∃ held ∈ hs,
        held.subscription.id = id ∧ held.muted r.now = false ∧
        ∃ row, (row, n) ∈ day ∧ lists r held row = true) := by
  induction hs with
  | nil => simp [listings]
  | cons held hs ih =>
    obtain ⟨hnot, hids'⟩ := List.nodup_cons.mp hids
    obtain ⟨hle, hiff⟩ := ih hids'
    obtain ⟨hle', hiff'⟩ := listings_digestWrites (r := r) day hday held id n
    rw [List.flatMap_cons, listings_append]
    -- not both: the subscriptions are distinct
    have hone : ¬ (1 ≤ listings id n (digestWrites r day held) ∧
        1 ≤ listings id n (hs.flatMap (digestWrites r day))) := by
      rintro ⟨hhere, hrest⟩
      obtain ⟨other, hother, hid, -⟩ := hiff.mp hrest
      exact hnot (List.mem_map.mpr ⟨other, hother, hid.trans (hiff'.mp hhere).1.symm⟩)
    refine ⟨by omega, ?_⟩
    rw [List.exists_mem_cons_iff, ← hiff', ← hiff]
    omega

theorem dayRows_nodup (s : Store) (r : Reading) : ((dayRows s r).map Prod.snd).Nodup :=
  incidentsSince_nodup _ _

theorem digests_eq (s : Store) (r : Reading) :
    digests s r = (due s r).flatMap (digestWrites r (dayRows s r)) := by
  unfold digests
  split
  · rename_i hempty
    rw [List.isEmpty_iff.mp hempty]
    rfl
  · rfl

/-- a pass that fails amid no digest has done part of what comes before them, or all of that and
the digests of some subscriptions; all of them, if it completes -/
theorem made_of_whole {s' : Store} {cut : Option Nat} (h : Whole ⟨s, .pass r cut, s'⟩) :
    (cut ≠ none ∧ made s r cut <+: firstWrites s r) ∨
      ∃ m, made s r cut = firstWrites s r
          ++ ((due s r).take m).flatMap (digestWrites r (dayRows s r)) ∧
        (cut = none → (due s r).take m = due s r) := by
  cases cut with
  | none =>
    refine .inr ⟨(due s r).length, ?_, fun _ => List.take_length⟩
    rw [made, passWrites, digests_eq, List.take_length]
  | some cut =>
    have hmade : made s r (some cut) = (firstWrites s r
        ++ (due s r).flatMap (digestWrites r (dayRows s r))).take cut := by
      rw [made, passWrites, digests_eq]
    rcases h with hfirst | ⟨m, hcut⟩
    · refine .inl ⟨by simp, ?_⟩
      rw [hmade, List.take_append_of_le_length hfirst]
      exact List.take_prefix _ _
    · refine .inr ⟨m, ?_, by simp⟩
      have hblocks : (due s r).flatMap (digestWrites r (dayRows s r))
          = ((due s r).take m).flatMap (digestWrites r (dayRows s r))
            ++ ((due s r).drop m).flatMap (digestWrites r (dayRows s r)) := by
        rw [← List.flatMap_append, List.take_append_drop]
      simp only at hcut
      rw [hmade, hcut, hblocks, ← List.append_assoc, List.take_left']
      rw [List.length_append]

theorem stamps_firstWrites (s : Store) (r : Reading) :
    (firstWrites s r).filterMap Write.stamps = [] := by
  refine List.filterMap_eq_nil_iff.mpr fun w hw => ?_
  rw [firstWrites, List.mem_append] at hw
  rcases hw with hw | hw
  · obtain ⟨signal, -, hw⟩ := List.mem_flatMap.mp hw
    rcases List.mem_cons.mp hw with rfl | hw
    · rfl
    · obtain ⟨held, -, rfl⟩ := mem_tell hw
      rfl
  · obtain ⟨key, -, hw⟩ := List.mem_flatMap.mp hw
    rcases List.mem_cons.mp hw with rfl | hw
    · rfl
    · obtain ⟨held, -, rfl⟩ := mem_tell hw
      rfl

theorem listings_made {s' : Store} {cut : Option Nat} (h : Whole ⟨s, .pass r cut, s'⟩)
    (hids : (s.subscriptions.map fun held => held.subscription.id).Nodup) (id n : Nat) :
    listings id n (made s r cut) = 0 ∨
      listings id n (made s r cut) = 1 ∧ id ∈ (made s r cut).filterMap Write.stamps ∧
        ∃ held ∈ s.subscriptions, held.subscription.id = id ∧ ∃ row,
          (s.writes (firstWrites s r)).incidents[n]? = some row ∧ lists r held row = true := by
  rcases made_of_whole h with ⟨-, hfirst⟩ | ⟨m, hmade, -⟩
  · left
    have hle := hfirst.sublist.countP_le (p := isListed id n)
    have hnone := listings_firstWrites s r id n
    unfold listings at hnone ⊢
    omega
  · have hsub : ((due s r).take m).Sublist s.subscriptions :=
      (List.take_sublist m _).trans List.filter_sublist
    obtain ⟨hle, hiff⟩ := listings_digests (r := r) (dayRows_nodup s r)
      (hids.sublist (hsub.map _)) id n
    rw [hmade, listings_append, listings_firstWrites, Nat.zero_add]
    by_cases hlisted : 1 ≤ listings id n
        (((due s r).take m).flatMap (digestWrites r (dayRows s r)))
    · right
      obtain ⟨held, hheld, hid, -, row, hday, hlists⟩ := hiff.mp hlisted
      refine ⟨by omega, ?_, held, hsub.subset hheld, hid, row, (mem_incidentsSince.mp hday).1, hlists⟩
      rw [List.filterMap_append, stamps_firstWrites, List.nil_append,
        filterMap_blocks (stamps_digestWrites r (dayRows s r))]
      exact List.mem_map.mpr ⟨held, hheld, hid⟩
    · left
      omega

end
/-! ## the rows and stamps in time -/

theorem passTimes_append (tr tr' : List (Trans Store Action)) :
    passTimes (tr ++ tr') = passTimes tr ++ passTimes tr' := List.filterMap_append

theorem completedTimes_append (tr tr' : List (Trans Store Action)) :
    completedTimes (tr ++ tr') = completedTimes tr ++ completedTimes tr' := List.filterMap_append

theorem passTimes_pass (s s' : Store) (r : Reading) (cut : Option Nat) :
    passTimes [⟨s, .pass r cut, s'⟩] = [r.now] := rfl

theorem completedTimes_sub (tr : List (Trans Store Action)) :
    ∀ x ∈ completedTimes tr, x ∈ passTimes tr := by
  intro x hx
  obtain ⟨t, ht, hnow⟩ := List.mem_filterMap.mp hx
  refine List.mem_filterMap.mpr ⟨t, ht, ?_⟩
  split at hnow
  · rename_i r hact
    rw [hact]
    exact hnow
  · cases hnow

theorem now_of_open {s : Store} {r : Reading} {signal : Signal} {now : Int}
    (h : .openIncident signal now ∈ passWrites s r) : signal ∈ opening s r ∧ now = r.now := by
  rw [passWrites, firstWrites, List.mem_append, List.mem_append] at h
  rcases h with (h | h) | h
  · obtain ⟨signal', hsignal, hw⟩ := List.mem_flatMap.mp h
    rcases List.mem_cons.mp hw with hw | hw
    · obtain ⟨rfl, rfl⟩ := Write.openIncident.inj hw
      exact ⟨hsignal, rfl⟩
    · obtain ⟨held, -, hw⟩ := mem_tell hw
      cases hw
  · obtain ⟨key, -, hw⟩ := List.mem_flatMap.mp h
    rcases List.mem_cons.mp hw with hw | hw
    · cases hw
    · obtain ⟨held, -, hw⟩ := mem_tell hw
      cases hw
  · rcases mem_digests s r h with ⟨_, _, _, _, _, hw⟩ | ⟨_, -, hw⟩ <;> cases hw

theorem row_made {s : Store} {r : Reading} {ws : List Write} (hws : ws.Sublist (passWrites s r))
    {n : Nat} {row : Row} (hrow : (s.writes ws).incidents[n]? = some row) :
    (∃ recovered, s.incidents[n]? = some (row.1, recovered)) ∨
      ∃ signal ∈ opening s r, row.1 = ⟨signal.key, signal.detail, r.now⟩ := by
  by_cases hold : n < s.incidents.length
  · have hbefore := List.getElem?_eq_getElem hold
    obtain ⟨recovered, hafter⟩ := Store.row_writes hbefore ws
    obtain rfl : row = (_, recovered) := Option.some.inj (hrow.symm.trans hafter)
    exact .inl ⟨_, hbefore⟩
  · obtain ⟨signal, now, hmem, heq⟩ := opened_of_new (Nat.not_lt.mp hold) hrow
    obtain ⟨hsignal, rfl⟩ := now_of_open (hws.subset hmem)
    exact .inr ⟨signal, hsignal, heq⟩

theorem made_sublist (s : Store) (r : Reading) (cut : Option Nat) :
    (made s r cut).Sublist (passWrites s r) := (made_start s r cut).sublist

theorem openedAt_mem {tr : List (Trans Store Action)} {s : Store}
    (hr : Run Store.act .empty tr s) {n : Nat} {row : Row} (hrow : s.incidents[n]? = some row) :
    row.1.openedAt ∈ passTimes tr := by
  induction hr generalizing row with
  | nil => cases hrow
  | @snoc tr s s' a hr hs ih =>
    rw [passTimes_append, List.mem_append]
    rcases wish_or_pass a with hwish | ⟨r, cut, rfl⟩
    · rw [incidents_act hs hwish] at hrow
      exact .inl (ih hrow)
    · obtain rfl := Option.some.inj hs
      rcases row_made (made_sublist s r cut) hrow with ⟨recovered, hold⟩ | ⟨signal, -, hnew⟩
      · have hbefore := ih hold
        exact .inl hbefore
      · refine .inr ?_
        rw [passTimes_pass, hnew]
        exact List.mem_cons_self

theorem stampTimes_sub (id : Nat) (tr : List (Trans Store Action)) :
    ∀ x ∈ stampTimes id (log tr), x ∈ passTimes tr := by
  intro x hx
  obtain ⟨w, hw, hstamp⟩ := List.mem_filterMap.mp hx
  obtain ⟨t, ht, hw⟩ := List.mem_flatMap.mp hw
  refine List.mem_filterMap.mpr ⟨t, ht, ?_⟩
  cases w with
  | digested id' now =>
    have hnow : now = x := by
      simp only at hstamp
      split at hstamp
      · exact Option.some.inj hstamp
      · cases hstamp
    subst hnow
    unfold writesOf at hw
    cases hact : t.act with
    | pass r cut =>
      rw [hact] at hw
      exact congrArg some (now_of_stamp t.before r ((made_sublist _ r cut).subset hw)).symm
    | _ =>
      rw [hact] at hw
      exact absurd hw List.not_mem_nil
  | _ => cases hstamp

/-! ## at most once -/

/-- an incident that was listed is no newer than its subscription's stamp -/
structure Once (id n : Nat) (tr : List (Trans Store Action)) (s : Store) : Prop where
  le_one : listings id n (log tr) ≤ 1
  past : 1 ≤ listings id n (log tr) → ∃ row, s.incidents[n]? = some row ∧
    ∀ q ∈ s.marks, q.1 = id → ∃ t, q.2 = some t ∧ row.1.openedAt ≤ t
  born : 1 ≤ listings id n (log tr) → id ≤ s.next

theorem log_pass (tr : List (Trans Store Action)) (s s' : Store) (r : Reading) (cut : Option Nat) :
    log (tr ++ [⟨s, .pass r cut, s'⟩]) = log tr ++ made s r cut := by
  rw [log_append]
  exact congrArg (log tr ++ ·) (List.append_nil _)

theorem log_wish (tr : List (Trans Store Action)) (s s' : Store) {a : Action}
    (h : ∀ r cut, a ≠ .pass r cut) : log (tr ++ [⟨s, a, s'⟩]) = log tr := by
  have hnone : writesOf ⟨s, a, s'⟩ = [] := by
    cases a with
    | pass r cut => exact absurd rfl (h r cut)
    | _ => rfl
  rw [log_append, log, log, List.flatMap_singleton, hnone, List.append_nil]

theorem ids_of_marks {s : Store} (h : (s.marks.map Prod.fst).Nodup) :
    (s.subscriptions.map fun held => held.subscription.id).Nodup := by
  rw [Store.marks, List.map_map] at h
  exact h

theorem marks_made {s : Store} (r : Reading) (cut : Option Nat)
    (hids : (s.marks.map Prod.fst).Nodup) :
    (s.writes (made s r cut)).marks = s.marks.map fun p =>
      (p.1, if p.1 ∈ (made s r cut).filterMap Write.stamps then some r.now else p.2) :=
  Store.marks_writes (fun _ _ ht => now_of_stamp s r ((made_sublist s r cut).subset ht)) hids

/-- what people ask for keeps the stamps of the subscriptions they keep -/
theorem marks_act {s s' : Store} {a : Action} (h : s.act a = some s')
    (hwish : ∀ r cut, a ≠ .pass r cut) :
    s.next ≤ s'.next ∧ ∀ q ∈ s'.marks, q ∈ s.marks ∨ s.next < q.1 := by
  cases a with
  | upsert subject project scope target events delivery =>
    obtain rfl := Option.some.inj h
    unfold Store.upsert
    simp only []
    split
    · refine ⟨le_refl _, fun q hq => .inl ?_⟩
      have hmarks : ∀ p : Held → Bool, (modifyFirst p (fun held =>
          { held with
            subscription := { held.subscription with events := events, delivery := delivery } })
          s.subscriptions).map (fun held => (held.subscription.id, held.digestAt)) = s.marks := by
        intro p
        refine map_modifyFirst ?_ _
        exact fun _ => rfl
      simpa only [Store.marks, hmarks] using hq
    · refine ⟨Nat.le_succ _, fun q hq => ?_⟩
      rw [Store.marks, List.map_append] at hq
      rcases List.mem_append.mp hq with hq | hq
      · exact .inl hq
      · obtain rfl := List.mem_singleton.mp hq
        exact .inr (Nat.lt_succ_self _)
  | remove subject id =>
    obtain rfl := Option.some.inj h
    unfold Store.remove
    simp only []
    split
    · exact ⟨le_refl _, fun q hq => .inl ((List.filter_sublist.map _).subset hq)⟩
    · exact ⟨le_refl _, fun q hq => .inl hq⟩
  | mute subject id mutedUntil =>
    obtain rfl := Option.some.inj h
    have hmarks : (s.mute subject id mutedUntil).marks = s.marks := by
      refine map_modifyFirst ?_ _
      exact fun _ => rfl
    exact ⟨le_refl _, fun q hq => .inl (hmarks ▸ hq)⟩
  | pass r cut => exact absurd rfl (hwish r cut)

theorem Once.pass {id n : Nat} {tr : List (Trans Store Action)} {s : Store} (h : Once id n tr s)
    (hr : Run Store.act .empty tr s) {r : Reading} {cut : Option Nat}
    (hwhole : Whole ⟨s, .pass r cut, s.writes (made s r cut)⟩)
    (htime : ∀ x ∈ passTimes tr, x ≤ r.now) :
    Once id n (tr ++ [⟨s, .pass r cut, s.writes (made s r cut)⟩]) (s.writes (made s r cut)) := by
  have hmarked := marked hr
  have hids := ids_of_marks hmarked.ids
  have hrun : Run Store.act .empty (tr ++ [⟨s, .pass r cut, s.writes (made s r cut)⟩])
      (s.writes (made s r cut)) := hr.snoc rfl
  -- whatever is a row by now opened by now
  have hopened : ∀ {m : Nat} {row : Row}, (s.writes (made s r cut)).incidents[m]? = some row →
      row.1.openedAt ≤ r.now := by
    intro m row hrow
    have hmem := openedAt_mem hrun hrow
    rw [passTimes_append, passTimes_pass, List.mem_append, List.mem_singleton] at hmem
    rcases hmem with hmem | hmem
    · exact htime _ hmem
    · exact le_of_eq hmem
  have hnext := Store.next_le_writes s (made s r cut)
  have hmarks := marks_made r cut hmarked.ids
  rcases listings_made hwhole hids id n with hnone | ⟨hone, hstamped, held, hheld, hid, row, hrow, hlists⟩
  · have hlog : listings id n (log (tr ++ [⟨s, .pass r cut, s.writes (made s r cut)⟩]))
        = listings id n (log tr) := by
      rw [log_pass, listings_append, hnone, Nat.add_zero]
    refine ⟨hlog ▸ h.le_one, fun hlisted => ?_, fun hlisted => le_trans (h.born (hlog ▸ hlisted)) hnext⟩
    obtain ⟨row, hrow, hstamps⟩ := h.past (hlog ▸ hlisted)
    obtain ⟨recovered, hafter⟩ := Store.row_writes hrow (made s r cut)
    refine ⟨_, hafter, fun q hq hqid => ?_⟩
    rw [hmarks] at hq
    obtain ⟨q', hq', rfl⟩ := List.mem_map.mp hq
    by_cases hstamp : q'.1 ∈ (made s r cut).filterMap Write.stamps
    · exact ⟨r.now, if_pos hstamp, hopened hafter⟩
    · obtain ⟨t, ht, hle⟩ := hstamps q' hq' hqid
      exact ⟨t, (if_neg hstamp).trans ht, hle⟩
  · -- a digest lists nothing that is no newer than its stamp
    have hbefore : listings id n (log tr) = 0 := by
      by_contra hne
      obtain ⟨row', hrow', hstamps⟩ := h.past (Nat.one_le_iff_ne_zero.mpr hne)
      obtain ⟨t, ht, hle⟩ := hstamps (id, held.digestAt)
        (List.mem_map.mpr ⟨held, hheld, by rw [hid]⟩) rfl
      obtain ⟨recovered, hafter⟩ := Store.row_writes hrow' (firstWrites s r)
      obtain rfl : row = (row'.1, recovered) := Option.some.inj (hrow.symm.trans hafter)
      simp only at ht
      simp only [lists, ht, Option.getD_some, Bool.and_eq_true, decide_eq_true_eq] at hlists
      omega
    have hlog : listings id n (log (tr ++ [⟨s, .pass r cut, s.writes (made s r cut)⟩])) = 1 := by
      rw [log_pass, listings_append, hbefore, hone]
    refine ⟨le_of_eq hlog, fun _ => ?_, fun _ => ?_⟩
    · -- the digests leave the rows as they are
      have hsame : ∃ recovered, (s.writes (made s r cut)).incidents[n]? = some (row.1, recovered) := by
        rcases made_of_whole hwhole with ⟨-, hfirst⟩ | ⟨m, hmade, -⟩
        · have hnone := hfirst.sublist.countP_le (p := isListed id n)
          have hfirstNone := listings_firstWrites s r id n
          unfold listings at hone hfirstNone
          omega
        · obtain ⟨recovered, hafter⟩ := Store.row_writes hrow
            (((due s r).take m).flatMap (digestWrites r (dayRows s r)))
          rw [hmade, Store.writes_append]
          exact ⟨recovered, hafter⟩
      obtain ⟨recovered, hafter⟩ := hsame
      refine ⟨_, hafter, fun q hq hqid => ?_⟩
      rw [hmarks] at hq
      obtain ⟨q', hq', rfl⟩ := List.mem_map.mp hq
      have hqid' : q'.1 = id := hqid
      exact ⟨r.now, if_pos (hqid' ▸ hstamped), hopened hafter⟩
    · have hbound := hmarked.bound (held.subscription.id, held.digestAt)
        (List.mem_map.mpr ⟨held, hheld, rfl⟩)
      rw [← hid]
      exact le_trans hbound hnext

/-- no incident is listed twice -/
theorem once {tr : List (Trans Store Action)} {s : Store} (hr : Run Store.act .empty tr s)
    (hhourly : Hourly tr) (hwhole : ∀ t ∈ tr, Whole t) (id n : Nat) : Once id n tr s := by
  refine hr.traced (I := Once id n) (C := fun l t => OnTime l t ∧ Whole t) ?_
    (fun tr s a s' hr hs hC h => ?_) fun l t l' heq => ⟨hhourly l t l' heq, hwhole t (by simp [heq])⟩
  · exact ⟨Nat.zero_le _, fun h => absurd h (Nat.not_succ_le_zero 0),
      fun h => absurd h (Nat.not_succ_le_zero 0)⟩
  · rcases wish_or_pass a with hwish | ⟨r, cut, rfl⟩
    · have hlog := log_wish tr s s' hwish
      obtain ⟨hnext, hmarks⟩ := marks_act hs hwish
      refine ⟨hlog ▸ h.le_one, fun hlisted => ?_, fun hlisted => ?_⟩
      · rw [hlog] at hlisted
        obtain ⟨row, hrow, hstamps⟩ := h.past hlisted
        rw [incidents_act hs hwish]
        refine ⟨row, hrow, fun q hq hqid => ?_⟩
        rcases hmarks q hq with hq | hnew
        · exact hstamps q hq hqid
        · have hborn := h.born hlisted
          omega
      · rw [hlog] at hlisted
        exact le_trans (h.born hlisted) hnext
    · obtain rfl := Option.some.inj hs
      exact h.pass hr hC.2 hC.1.1

/-! ## at least once -/

/-- the first seven o'clock after an instant -/
def nextDigest (t : Int) : Int :=
  if Time.hourOf t < digestHour then t / Time.day * Time.day + digestHour * Time.hour
  else (t / Time.day + 1) * Time.day + digestHour * Time.hour

theorem lt_nextDigest (t : Int) : t < nextDigest t ∧ nextDigest t ≤ t + Time.day := by
  unfold nextDigest
  by_cases hearly : Time.hourOf t < digestHour
  · rw [if_pos hearly]
    unfold Time.hourOf at hearly
    simp only [digestHour, Time.day, Time.hour, Time.minute, Time.second] at hearly ⊢
    omega
  · rw [if_neg hearly]
    unfold Time.hourOf at hearly
    simp only [digestHour, Time.day, Time.hour, Time.minute, Time.second] at hearly ⊢
    omega

/-- a digest that is not due within the hour after seven has been written since -/
theorem lt_of_not_due {last opened now : Int} (hlast : last < opened) (hopened : opened ≤ now)
    (hnow : now < nextDigest opened + Time.hour) (h : digestDue (some last) now = false) :
    now < nextDigest opened := by
  by_contra hge
  have hnot : ¬ (digestHour ≤ Time.hourOf now ∧
      last < now / Time.day * Time.day + digestHour * Time.hour) := fun hdue => by
    rw [(digestDue_iff (some last) now).mpr ⟨hdue.1, fun t ht => Option.some.inj ht ▸ hdue.2⟩] at h
    cases h
  apply hnot
  clear hnot h
  -- the digest hour after the opening is the hour of this pass
  unfold nextDigest at hge hnow
  by_cases hearly : Time.hourOf opened < digestHour
  · rw [if_pos hearly] at hge hnow
    unfold Time.hourOf at hearly ⊢
    simp only [digestHour, Time.day, Time.hour, Time.minute, Time.second] at hearly hge hnow ⊢
    omega
  · rw [if_neg hearly] at hge hnow
    unfold Time.hourOf at hearly ⊢
    simp only [digestHour, Time.day, Time.hour, Time.minute, Time.second] at hearly hge hnow ⊢
    omega

/-- an incident that is still to be listed: no digest since, and none due at a pass that completed -/
structure Waiting (id : Nat) (last opened : Int) (tr : List (Trans Store Action)) (s : Store) :
    Prop where
  stamp : ∀ q ∈ s.marks, q.1 = id → q.2 = some last
  born : id ≤ s.next
  early : ∀ x ∈ completedTimes tr, x < nextDigest opened

theorem listed_or_waits {s s' : Store} {r : Reading} {cut : Option Nat}
    (hids : (s.subscriptions.map fun held => held.subscription.id).Nodup)
    (hwhole : Whole ⟨s, .pass r cut, s'⟩) {held : Held} (hheld : held ∈ s.subscriptions)
    (hdelivery : held.subscription.delivery = .digest) (hmuted : held.muted r.now = false)
    {incident : Incident} (hwants : wants held r incident.key = true) {last : Int}
    (hlast : held.digestAt = some last) (hopened : last < incident.openedAt) {n : Nat}
    {recovered : Option Int}
    (hrow : (s.writes (firstWrites s r)).incidents[n]? = some (incident, recovered))
    (hday : held ∈ due s r → r.now - Time.day < incident.openedAt) :
    1 ≤ listings held.subscription.id n (made s r cut) ∨
      held.subscription.id ∉ (made s r cut).filterMap Write.stamps ∧
        (cut = none → digestDue (some last) r.now = false) := by
  rcases made_of_whole hwhole with ⟨hcut, hfirst⟩ | ⟨m, hmade, hall⟩
  · refine .inr ⟨fun hmem => ?_, fun hnone => absurd hnone hcut⟩
    have hstamps := (hfirst.sublist.filterMap Write.stamps).subset hmem
    rw [stamps_firstWrites] at hstamps
    exact absurd hstamps List.not_mem_nil
  · have hsub : ((due s r).take m).Sublist s.subscriptions :=
      (List.take_sublist m _).trans List.filter_sublist
    by_cases hdue : held ∈ (due s r).take m
    · left
      have hlists : lists r held (incident, recovered) = true := by
        obtain ⟨hcovers, hevents⟩ := Bool.and_eq_true_iff.mp hwants
        simp only [lists, hlast, Option.getD_some, hcovers, hevents, Bool.and_true,
          decide_eq_true_eq]
        exact hopened
      have hlisted := (listings_digests (r := r) (dayRows_nodup s r) (hids.sublist (hsub.map _))
        held.subscription.id n).2.mpr ⟨held, hdue, rfl, hmuted, _,
          mem_incidentsSince.mpr ⟨hrow, hday (List.mem_of_mem_take hdue)⟩, hlists⟩
      rw [hmade, listings_append]
      omega
    · right
      constructor
      · intro hmem
        rw [hmade, List.filterMap_append, stamps_firstWrites, List.nil_append,
          filterMap_blocks (stamps_digestWrites r (dayRows s r))] at hmem
        obtain ⟨other, hother, hid⟩ := List.mem_map.mp hmem
        obtain rfl := List.inj_on_of_nodup_map hids (hsub.subset hother) hheld hid
        exact hdue hother
      · intro hnone
        rw [hall hnone] at hdue
        by_contra hnot
        refine hdue (List.mem_filter.mpr ⟨hheld, ?_⟩)
        rw [hlast, (Bool.not_eq_false _).mp hnot, hdelivery]
        rfl

theorem incidents_digestWrites (r : Reading) (day : List (Row × Nat)) (hs : List Held) (s : Store) :
    (s.writes (hs.flatMap (digestWrites r day))).incidents = s.incidents := by
  have hkept : ∀ (ws : List Write) (s : Store),
      (∀ w ∈ ws, ∀ s' : Store, (s'.write w).incidents = s'.incidents) →
        (s.writes ws).incidents = s.incidents := by
    intro ws
    induction ws with
    | nil => exact fun s _ => rfl
    | cons w ws ih =>
      intro s h
      rw [Store.writes_cons, ih _ fun w' hw' => h w' (List.mem_cons_of_mem w hw')]
      exact h w List.mem_cons_self s
  refine hkept _ s fun w hw => ?_
  obtain ⟨held, -, hw⟩ := List.mem_flatMap.mp hw
  rcases List.mem_append.mp hw with hw | hw
  · split at hw
    · exact absurd hw List.not_mem_nil
    · obtain ⟨p, -, rfl⟩ := List.mem_map.mp hw
      exact fun _ => rfl
  · obtain rfl := List.mem_singleton.mp hw
    exact fun _ => rfl

theorem row_first {s s' : Store} {r : Reading} {cut : Option Nat}
    (hwhole : Whole ⟨s, .pass r cut, s'⟩) {n : Nat} {row : Row}
    (hrow : (s.writes (made s r cut)).incidents[n]? = some row) :
    ∃ recovered, (s.writes (firstWrites s r)).incidents[n]? = some (row.1, recovered) := by
  rcases made_of_whole hwhole with ⟨-, rest, hfirst⟩ | ⟨m, hmade, -⟩
  · rw [← hfirst, Store.writes_append]
    exact Store.row_writes hrow rest
  · rw [hmade, Store.writes_append, incidents_digestWrites] at hrow
    exact ⟨row.2, hrow⟩

theorem Waiting.pass {id : Nat} {last : Int} {tr : List (Trans Store Action)} {s : Store}
    {incident : Incident} (h : Waiting id last incident.openedAt tr s)
    (hmarks : (s.marks.map Prod.fst).Nodup) {r : Reading} {cut : Option Nat}
    (hwhole : Whole ⟨s, .pass r cut, s.writes (made s r cut)⟩)
    (hwatches : Watches id incident.key ⟨s, .pass r cut, s.writes (made s r cut)⟩)
    (hopened : last < incident.openedAt) {n : Nat} {recovered : Option Int}
    (hrow : (s.writes (firstWrites s r)).incidents[n]? = some (incident, recovered))
    (hday : ∀ held ∈ due s r, held.muted r.now = false → lists r held (incident, recovered) = true →
      r.now - Time.day < incident.openedAt) (hle : incident.openedAt ≤ r.now)
    (hbound : cut = none → r.now < nextDigest incident.openedAt + Time.hour) :
    1 ≤ listings id n (made s r cut) ∨ Waiting id last incident.openedAt
      (tr ++ [⟨s, .pass r cut, s.writes (made s r cut)⟩]) (s.writes (made s r cut)) := by
  obtain ⟨held, hheld, rfl, hdelivery, hmuted, hwants⟩ := hwatches
  have hlast : held.digestAt = some last :=
    h.stamp _ (List.mem_map.mpr ⟨held, hheld, rfl⟩) rfl
  have hlists : lists r held (incident, recovered) = true := by
    obtain ⟨hcovers, hevents⟩ := Bool.and_eq_true_iff.mp hwants
    simp only [lists, hlast, Option.getD_some, hcovers, hevents, Bool.and_true, decide_eq_true_eq]
    exact hopened
  rcases listed_or_waits (ids_of_marks hmarks) hwhole hheld hdelivery hmuted hwants hlast hopened
    hrow (fun hdue => hday held hdue hmuted hlists) with hlisted | ⟨hstamps, hdue⟩
  · exact .inl hlisted
  · refine .inr ⟨fun q hq hqid => ?_, le_trans h.born (Store.next_le_writes _ _), fun x hx => ?_⟩
    · rw [marks_made r cut hmarks] at hq
      obtain ⟨q', hq', rfl⟩ := List.mem_map.mp hq
      have hqid' : q'.1 = held.subscription.id := hqid
      rw [if_neg (hqid' ▸ hstamps)]
      exact h.stamp q' hq' hqid'
    · rw [completedTimes_append, List.mem_append] at hx
      rcases hx with hx | hx
      · exact h.early x hx
      · cases cut with
        | none =>
          obtain rfl := List.mem_singleton.mp hx
          exact lt_of_not_due hopened hle (hbound rfl) (hdue rfl)
        | some cut => exact absurd hx List.not_mem_nil

theorem Waiting.wish {id : Nat} {last opened : Int} {tr : List (Trans Store Action)} {s s' : Store}
    {a : Action} (h : Waiting id last opened tr s) (hs : s.act a = some s')
    (hwish : ∀ r cut, a ≠ .pass r cut) : Waiting id last opened (tr ++ [⟨s, a, s'⟩]) s' := by
  obtain ⟨hnext, hmarks⟩ := marks_act hs hwish
  refine ⟨fun q hq hqid => ?_, le_trans h.born hnext, fun x hx => ?_⟩
  · rcases hmarks q hq with hq | hnew
    · exact h.stamp q hq hqid
    · have hborn := h.born
      omega
  · have hnone : completedTimes [(⟨s, a, s'⟩ : Trans Store Action)] = [] := by
      cases a with
      | pass r cut => exact absurd rfl (hwish r cut)
      | _ => rfl
    rw [completedTimes_append, hnone, List.append_nil] at hx
    exact h.early x hx

theorem now_lt_of_onTime {a l : List (Trans Store Action)} {s s' : Store} {r : Reading}
    {opened : Int} (htime : OnTime (a ++ l) ⟨s, .pass r none, s'⟩)
    (hpasses : passTimes a ≠ []) (hpast : ∀ x ∈ passTimes a, x ≤ opened)
    (hearly : ∀ x ∈ completedTimes l, x < nextDigest opened) :
    r.now < nextDigest opened + Time.hour := by
  have hnext := (lt_nextDigest opened).1
  obtain ⟨y, hy⟩ : ∃ y, y ∈ ((completedTimes (a ++ l)).getLast?).or (passTimes (a ++ l)).head? := by
    rw [passTimes_append]
    cases htimes : passTimes a with
    | nil => exact absurd htimes hpasses
    | cons x xs =>
      cases (completedTimes (a ++ l)).getLast? with
      | none => exact ⟨x, rfl⟩
      | some y => exact ⟨y, rfl⟩
  have hyearly : y < nextDigest opened := by
    cases hlast : (completedTimes (a ++ l)).getLast? with
    | some z =>
      rw [hlast] at hy
      obtain rfl : z = y := Option.some.inj hy
      have hmem := List.mem_of_getLast? hlast
      rw [completedTimes_append, List.mem_append] at hmem
      rcases hmem with hmem | hmem
      · exact lt_of_le_of_lt (hpast _ (completedTimes_sub a _ hmem)) hnext
      · exact hearly _ hmem
    | none =>
      rw [hlast, Option.none_or, passTimes_append] at hy
      cases htimes : passTimes a with
      | nil => exact absurd htimes hpasses
      | cons x xs =>
        rw [htimes] at hy
        obtain rfl : x = y := Option.some.inj hy
        exact lt_of_le_of_lt (hpast x (htimes ▸ List.mem_cons_self)) hnext
  have hhour := htime.2 rfl y hy
  omega

/-- **Each incident is listed once**, in runs whose passes fail amid no digest and whose digests come
before what they have to list is a day old. -/
theorem listed_once {tr : List (Trans Store Action)} {s : Store} (hr : Run Store.act .empty tr s)
    (hhourly : Hourly tr) (hwhole : ∀ t ∈ tr, Whole t) (hreaches : ∀ t ∈ tr, Reaches t) :
    ListedOnce tr := by
  rintro a p b rfl r cut hact n incident hnew hopened id hfirst hwatches
  have honce := (once hr hhourly hwhole id n).le_one
  refine ⟨honce, fun ⟨x, hx, hlate⟩ => ?_⟩
  suffices hlisted : 1 ≤ listings id n (log (p :: b)) by
    have hlog : log (a ++ p :: b) = log a ++ log (p :: b) := log_append _ _
    rw [hlog, listings_append] at honce ⊢
    omega
  obtain ⟨hbefore, hstep, hafter⟩ := hr.at
  have htimeHere := hhourly a p b rfl
  have hwholeHere := hwhole p (by simp)
  have hreachesHere := hreaches p (by simp)
  have hwatchesHere := hwatches p List.mem_cons_self
  obtain ⟨s₀, act, s₁⟩ := p
  obtain rfl : act = .pass r cut := hact
  obtain rfl : s₁ = s₀.writes (made s₀ r cut) := (Option.some.inj hstep).symm
  have hmarked := marked hbefore
  -- what opened, and when
  obtain ⟨signal, now, hmem, hincident⟩ := opened_of_new hnew hopened
  obtain ⟨hsignal, rfl⟩ := now_of_open ((made_sublist s₀ r cut).subset hmem)
  have hkey : incident.key = signal.key := congrArg Incident.key hincident
  have hopenedAt : incident.openedAt = r.now := congrArg Incident.openedAt hincident
  have hpast : ∀ x ∈ passTimes a, x ≤ incident.openedAt := by
    rw [hopenedAt]
    exact htimeHere.1
  -- the last digest before it
  obtain ⟨last, hlast⟩ : ∃ last, (stampTimes id (log a)).getLast? = some last :=
    Option.isSome_iff_exists.mp (List.getLast?_isSome.mpr hfirst)
  have hlastMem := stampTimes_sub id a last (List.mem_of_getLast? hlast)
  have hpasses : passTimes a ≠ [] := List.ne_nil_of_mem hlastMem
  have hstamp : ∀ q ∈ s₀.marks, q.1 = id → q.2 = some last := fun q hq hqid => by
    rw [hmarked.last q hq, hqid, hlast]
  have hlt : last < incident.openedAt := by
    refine lt_of_le_of_ne (hpast last hlastMem) fun heq => ?_
    obtain ⟨held, hheld, hid, -, -, hwants⟩ := hwatchesHere
    have hnow : held.digestAt = some r.now := by
      rw [← hopenedAt, ← heq]
      exact hstamp (held.subscription.id, held.digestAt)
        (List.mem_map.mpr ⟨held, hheld, rfl⟩) hid
    have hnone := hreachesHere.2 held hheld hnow signal hsignal
    rw [hkey, hnone] at hwants
    cases hwants
  have hborn : id ≤ s₀.next := by
    obtain ⟨held, hheld, rfl, -⟩ := hwatchesHere
    exact hmarked.bound (held.subscription.id, held.digestAt) (List.mem_map.mpr ⟨held, hheld, rfl⟩)
  have hstart : Waiting id last incident.openedAt [] s₀ :=
    ⟨hstamp, hborn, fun x hx => absurd hx List.not_mem_nil⟩
  have hday : (0 : Int) < Time.day := by decide
  -- the pass that opens it
  obtain ⟨recovered, hrowFirst⟩ := row_first hwholeHere hopened
  have hopening := hstart.pass hmarked.ids hwholeHere hwatchesHere hlt hrowFirst
    (fun _ _ _ _ => by omega) (le_of_eq hopenedAt) fun hnone => by
      have hnext := (lt_nextDigest incident.openedAt).1
      have hhour : (0 : Int) < Time.hour := by decide
      omega
  -- the passes after it
  have hlater : 1 ≤ listings id n (log (⟨s₀, .pass r cut, s₀.writes (made s₀ r cut)⟩ :: b)) ∨
      Waiting id last incident.openedAt (⟨s₀, .pass r cut, s₀.writes (made s₀ r cut)⟩ :: b) s := by
    refine hafter.traced
      (I := fun l s' => 1 ≤ listings id n
        (log (⟨s₀, .pass r cut, s₀.writes (made s₀ r cut)⟩ :: l)) ∨
        Waiting id last incident.openedAt (⟨s₀, .pass r cut, s₀.writes (made s₀ r cut)⟩ :: l) s')
      (C := fun l t => OnTime (a ++ ⟨s₀, .pass r cut, s₀.writes (made s₀ r cut)⟩ :: l) t ∧ Whole t ∧
        Reaches t ∧ Watches id incident.key t) ?_ ?_ ?_
    · rw [log, List.flatMap_singleton]
      exact hopening
    · intro l s' act s'' hrun hs hC h
      have hcons : log (⟨s₀, .pass r cut, s₀.writes (made s₀ r cut)⟩ :: (l ++ [⟨s', act, s''⟩]))
          = log (⟨s₀, .pass r cut, s₀.writes (made s₀ r cut)⟩ :: l) ++ writesOf ⟨s', act, s''⟩ := by
        rw [← List.cons_append, log_append, log, log, List.flatMap_singleton]
      rcases h with h | h
      · left
        rw [hcons, listings_append]
        omega
      · rcases wish_or_pass act with hwish | ⟨r', cut', rfl⟩
        · exact .inr (h.wish hs hwish)
        · obtain rfl := Option.some.inj hs
          obtain ⟨htime, hwhole', hreaches', hwatches'⟩ := hC
          have hall : Run Store.act .empty
              ((a ++ [⟨s₀, .pass r cut, s₀.writes (made s₀ r cut)⟩]) ++ l) s' :=
            (hbefore.snoc rfl).append hrun
          obtain ⟨recovered₁, hrowBefore⟩ := row_run hrun hopened
          obtain ⟨recovered₂, hrowFirst'⟩ := Store.row_writes hrowBefore (firstWrites s' r')
          have hnow : incident.openedAt ≤ r'.now := by
            refine htime.1 _ ?_
            rw [passTimes_append, hopenedAt]
            exact List.mem_append_right _ List.mem_cons_self
          rcases h.pass (marked hall).ids hwhole' hwatches' hlt hrowFirst'
            (fun held hdue hmuted hlists => hreaches'.1 held hdue hmuted _
              (List.mem_of_getElem? hrowBefore) hlists) hnow
            (fun hnone => by
              subst hnone
              exact now_lt_of_onTime htime hpasses hpast h.early) with hlisted | hwaits
          · left
            rw [hcons, listings_append]
            exact le_trans hlisted (Nat.le_add_left _ _)
          · exact .inr hwaits
    · intro l t l' heq
      subst heq
      refine ⟨hhourly _ t l' (by simp), hwhole t (by simp), hreaches t (by simp),
        hwatches t (by simp)⟩
  rcases hlater with hlisted | hwaits
  · exact hlisted
  · have hbefore := hwaits.early x hx
    have hnext := (lt_nextDigest incident.openedAt).2
    omega

/-! ### a failure at ten past seven -/

/-- what a pass finds while bikes fails, or before -/
def bikes (fails : Bool) (now : Int) : Reading where
  now := now
  pipelines := [⟨"helsinki", "bikes", [], []⟩]
  signals := if fails then [⟨.of "helsinki" "bikes" .failure, ""⟩] else []
  agents := none
  distinct := by cases fails <;> decide
  ofPipelines := by cases fails <;> decide
  agentsDistinct := Reading.distinct_none
  ofAgents := Reading.agents_none

/-- passes that complete, at some times -/
def passing (s : Store) : List Int → List (Trans Store Action)
  | [] => []
  | now :: nows =>
    ⟨s, .pass (bikes true now) none, s.writes (made s (bikes true now) none)⟩ ::
      passing (s.writes (made s (bikes true now) none)) nows

def passed (s : Store) : List Int → Store
  | [] => s
  | now :: nows => passed (s.writes (made s (bikes true now) none)) nows

theorem run_passing (s : Store) (nows : List Int) :
    Run Store.act s (passing s nows) (passed s nows) := by
  induction nows generalizing s with
  | nil => exact Run.nil
  | cons now nows ih => exact (Run.nil.snoc rfl).append (ih _)

/-- minutes after midnight of the first day -/
def minutes (n : Int) : Int := n * Time.minute

def daily : Store := Store.empty.upsert "jana" "helsinki" .pipeline "bikes" [.failure] .digest

def digestSent : Store := daily.writes (made daily (bikes false (minutes 420)) none)

/-- a subscription, its first digest, and passes from ten past seven on -/
def watched (nows : List Int) : List (Trans Store Action) :=
  [⟨.empty, .upsert "jana" "helsinki" .pipeline "bikes" [.failure] .digest, daily⟩,
    ⟨daily, .pass (bikes false (minutes 420)) none, digestSent⟩] ++ passing digestSent nows

theorem run_watched (nows : List Int) : Run Store.act .empty (watched nows) (passed digestSent nows) :=
  ((Run.nil.snoc rfl).snoc rfl).append (run_passing _ _)

/-- every hour from ten past seven to ten past six -/
def hours : List Int := (List.range 24).map fun i => minutes (430 + 60 * i)

instance (tr : List (Trans Store Action)) (t : Trans Store Action) : Decidable (OnTime tr t) :=
  match t with
  | ⟨_, .pass _ _, _⟩ => inferInstanceAs (Decidable (_ ∧ _))
  | ⟨_, .upsert .., _⟩ => .isTrue trivial
  | ⟨_, .remove .., _⟩ => .isTrue trivial
  | ⟨_, .mute .., _⟩ => .isTrue trivial

instance (t : Trans Store Action) : Decidable (Reaches t) :=
  match t with
  | ⟨_, .pass _ _, _⟩ => inferInstanceAs (Decidable (_ ∧ _))
  | ⟨_, .upsert .., _⟩ => .isTrue trivial
  | ⟨_, .remove .., _⟩ => .isTrue trivial
  | ⟨_, .mute .., _⟩ => .isTrue trivial

instance (id : Nat) (key : IncidentKey) (t : Trans Store Action) : Decidable (Watches id key t) :=
  match t with
  | ⟨_, .pass _ _, _⟩ => inferInstanceAs (Decidable (∃ held ∈ _, _))
  | ⟨_, .upsert .., _⟩ => .isTrue trivial
  | ⟨_, .remove .., _⟩ => .isTrue trivial
  | ⟨_, .mute .., _⟩ => .isTrue trivial

theorem whole_watched (nows : List Int) : ∀ t ∈ watched nows, Whole t := by
  have hpassing : ∀ s, ∀ t ∈ passing s nows, Whole t := by
    induction nows with
    | nil => exact fun s t ht => absurd ht List.not_mem_nil
    | cons now nows ih =>
      intro s t ht
      rcases List.mem_cons.mp ht with rfl | ht
      · trivial
      · exact ih _ t ht
  intro t ht
  rcases List.mem_append.mp ht with ht | ht
  · rcases List.mem_cons.mp ht with rfl | ht
    · trivial
    · obtain rfl := List.mem_singleton.mp ht
      trivial
  · exact hpassing _ t ht

/-- the next digest, at five past seven, lists it -/
theorem listed_once_early : ListedOnce (watched (hours ++ [minutes 1865])) :=
  listed_once (run_watched _) (fun _ _ _ heq => forall_cut (by decide +kernel) heq)
    (whole_watched _) (by decide +kernel)

/-- **What opens ten minutes after a digest is not in the next**, if that is twenty minutes late. -/
theorem unlisted : ¬ ∀ tr s, Run Store.act .empty tr s → Hourly tr → ListedOnce tr := by
  intro hall
  have honce := hall _ _ (run_watched (hours ++ [minutes 1859, minutes 1880]))
    fun _ _ _ heq => forall_cut (by decide +kernel) heq
  have hlisted := (honce
    [⟨.empty, .upsert "jana" "helsinki" .pipeline "bikes" [.failure] .digest, daily⟩,
      ⟨daily, .pass (bikes false (minutes 420)) none, digestSent⟩]
    ⟨digestSent, .pass (bikes true (minutes 430)) none,
      digestSent.writes (made digestSent (bikes true (minutes 430)) none)⟩
    _ rfl _ _ rfl 0 ⟨.of "helsinki" "bikes" .failure, "", minutes 430⟩ (by decide +kernel)
    (by decide +kernel) 1 (by decide +kernel) (by decide +kernel)).2 (by decide +kernel)
  revert hlisted
  decide +kernel

end Portal.Alerts
