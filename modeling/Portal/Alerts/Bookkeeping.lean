import Portal.Alerts.Pass

/-!
# What the evaluator keeps straight (`alerts.rs`: `Evaluator::run`, over any run)

Whatever comes and goes, and whichever calls fail: no incident is open twice, a pass closes what no
longer holds, a subscription completes one digest a day, and a notice costs nobody else theirs.

* `openKeys_nodup`       no key has two open incidents;
* `closed_iff`           a pass closes what its signals do not name;
* `stamps_days`          the digests of a subscription are of different days;
* `bookkeeping`          all of it, over every run.
-/

namespace Portal.Alerts

/-! ## the open incidents -/

namespace Write

def opens : Write → Option IncidentKey
  | .openIncident signal _ => some signal.key
  | _ => none

def closes : Write → Option IncidentKey
  | .closeIncident key _ => some key
  | _ => none

def stamps : Write → Option Nat
  | .digested id _ => some id
  | _ => none

end Write

namespace Store

theorem openKeys_openIncident (s : Store) (signal : Signal) (now : Int) :
    (s.openIncident signal now).openKeys = s.openKeys ++ [signal.key] := by
  simp [openKeys, openIncident, List.filter_append]

theorem openKeys_closeIncident (s : Store) (key : IncidentKey) (now : Int) :
    (s.closeIncident key now).openKeys = s.openKeys.filter fun k => k ≠ key := by
  unfold openKeys closeIncident
  rw [List.filter_map, List.filter_map, List.filter_filter, List.map_map]
  induction s.incidents with
  | nil => rfl
  | cons row rows ih =>
    obtain ⟨incident, recovered⟩ := row
    cases recovered with
    | none =>
      by_cases h : incident.key = key
      · simpa [List.filter_cons, h] using ih
      · simpa [List.filter_cons, h] using ih
    | some t => simpa [List.filter_cons] using ih

theorem openKeys_nodup_writes {s : Store} (h : s.openKeys.Nodup) {ws : List Write}
    (hnodup : (ws.filterMap Write.opens).Nodup)
    (hfresh : ∀ key ∈ ws.filterMap Write.opens, key ∉ s.openKeys) : (s.writes ws).openKeys.Nodup := by
  induction ws generalizing s with
  | nil => exact h
  | cons w ws ih =>
    rw [writes_cons]
    cases w with
    | openIncident signal now =>
      have hopens : (Write.openIncident signal now :: ws).filterMap Write.opens
          = signal.key :: ws.filterMap Write.opens := rfl
      rw [hopens] at hnodup hfresh
      obtain ⟨hnot, hrest⟩ := List.nodup_cons.mp hnodup
      refine ih ?_ hrest fun key hkey => ?_
      · show (s.openIncident signal now).openKeys.Nodup
        rw [openKeys_openIncident]
        refine List.nodup_append'.mpr ⟨h, List.nodup_singleton _, fun key hkey hkey' => ?_⟩
        obtain rfl := List.mem_singleton.mp hkey'
        exact hfresh _ List.mem_cons_self hkey
      · show key ∉ (s.openIncident signal now).openKeys
        rw [openKeys_openIncident, List.mem_append, List.mem_singleton, not_or]
        exact ⟨hfresh key (List.mem_cons_of_mem _ hkey), fun heq => hnot (heq ▸ hkey)⟩
    | closeIncident key now =>
      have hsub : (s.closeIncident key now).openKeys.Sublist s.openKeys := by
        rw [openKeys_closeIncident]
        exact List.filter_sublist
      exact ih (h.sublist hsub) hnodup fun k hk hk' => hfresh k hk (hsub.subset hk')
    | notify recipient subscription key change detail => exact ih h hnodup hfresh
    | digest recipient subscription incident key detail => exact ih h hnodup hfresh
    | digested id now => exact ih h hnodup hfresh

end Store

/-! ## what the writes of a pass are -/

section
variable (s : Store) (r : Reading)

theorem filterMap_blocks {α β γ : Type} {f : β → Option γ} {block : α → List β} {g : α → γ}
    (h : ∀ a, (block a).filterMap f = [g a]) (l : List α) :
    (l.flatMap block).filterMap f = l.map g := by
  induction l with
  | nil => rfl
  | cons a l ih =>
    rw [List.flatMap_cons, List.filterMap_append, ih, h]
    rfl

theorem mem_tell {hs : List Held} {key : IncidentKey} {change : Change} {detail : String}
    {w : Write} (h : w ∈ tell hs key change detail) :
    ∃ held ∈ hs, w = .notify held.subject held.subscription.id key change detail := by
  obtain ⟨held, hheld, rfl⟩ := List.mem_map.mp h
  exact ⟨held, hheld, rfl⟩

theorem mem_digests {w : Write} (h : w ∈ digests s r) :
    (∃ recipient id incident key detail, w = .digest recipient id incident key detail) ∨
      ∃ held ∈ due s r, w = .digested held.subscription.id r.now := by
  unfold digests at h
  split at h
  · exact absurd h List.not_mem_nil
  · obtain ⟨held, hheld, hw⟩ := List.mem_flatMap.mp h
    rcases List.mem_append.mp hw with hw | hw
    · left
      split at hw
      · exact absurd hw List.not_mem_nil
      · obtain ⟨p, -, rfl⟩ := List.mem_map.mp hw
        exact ⟨_, _, _, _, _, rfl⟩
    · exact .inr ⟨held, hheld, List.mem_singleton.mp hw⟩

theorem filterMap_tell {γ : Type} {f : Write → Option γ}
    (h : ∀ recipient id key change detail, f (.notify recipient id key change detail) = none)
    (hs : List Held) (key : IncidentKey) (change : Change) (detail : String) :
    (tell hs key change detail).filterMap f = [] := by
  refine List.filterMap_eq_nil_iff.mpr fun w hw => ?_
  obtain ⟨held, -, rfl⟩ := mem_tell hw
  exact h _ _ _ _ _

theorem filterMap_opens : (passWrites s r).filterMap Write.opens = (opening s r).map Signal.key := by
  have hnone := filterMap_tell (f := Write.opens) fun _ _ _ _ _ => rfl
  have hopening : ((opening s r).flatMap (openWrites s r)).filterMap Write.opens
      = (opening s r).map Signal.key :=
    filterMap_blocks (fun signal => by
      rw [openWrites, List.filterMap_cons, hnone]
      rfl) _
  have hclosing : ((closing s r).flatMap (closeWrites s r)).filterMap Write.opens = [] := by
    refine List.filterMap_eq_nil_iff.mpr fun w hw => ?_
    obtain ⟨key, -, hw⟩ := List.mem_flatMap.mp hw
    rcases List.mem_cons.mp hw with rfl | hw
    · rfl
    · obtain ⟨held, -, rfl⟩ := mem_tell hw
      rfl
  have hdigests : (digests s r).filterMap Write.opens = [] := by
    refine List.filterMap_eq_nil_iff.mpr fun w hw => ?_
    rcases mem_digests s r hw with ⟨_, _, _, _, _, rfl⟩ | ⟨_, -, rfl⟩ <;> rfl
  rw [passWrites, firstWrites, List.filterMap_append, List.filterMap_append, hopening, hclosing,
    hdigests, List.append_nil, List.append_nil]

theorem filterMap_closes : (passWrites s r).filterMap Write.closes = closing s r := by
  have hnone := filterMap_tell (f := Write.closes) fun _ _ _ _ _ => rfl
  have hopening : ((opening s r).flatMap (openWrites s r)).filterMap Write.closes = [] := by
    refine List.filterMap_eq_nil_iff.mpr fun w hw => ?_
    obtain ⟨signal, -, hw⟩ := List.mem_flatMap.mp hw
    rcases List.mem_cons.mp hw with rfl | hw
    · rfl
    · obtain ⟨held, -, rfl⟩ := mem_tell hw
      rfl
  have hclosing : ((closing s r).flatMap (closeWrites s r)).filterMap Write.closes
      = (closing s r).map id :=
    filterMap_blocks (fun key => by
      rw [closeWrites, List.filterMap_cons, hnone]
      rfl) _
  have hdigests : (digests s r).filterMap Write.closes = [] := by
    refine List.filterMap_eq_nil_iff.mpr fun w hw => ?_
    rcases mem_digests s r hw with ⟨_, _, _, _, _, rfl⟩ | ⟨_, -, rfl⟩ <;> rfl
  rw [passWrites, firstWrites, List.filterMap_append, List.filterMap_append, hopening, hclosing,
    hdigests, List.append_nil, List.nil_append, List.map_id]

theorem made_start (cut : Option Nat) : made s r cut <+: passWrites s r := by
  cases cut with
  | none => exact List.prefix_refl _
  | some cut => exact List.take_prefix cut _

end

/-- **No key has two open incidents.** -/
theorem openKeys_nodup {tr : List (Trans Store Action)} {s : Store}
    (hr : Run Store.act .empty tr s) : s.openKeys.Nodup := by
  refine hr.invariant (I := fun s => s.openKeys.Nodup) (C := fun _ => True) List.nodup_nil
    (fun s a s' hs _ h => ?_) fun _ _ => trivial
  cases a with
  | upsert subject project scope target events delivery =>
    obtain rfl := Option.some.inj hs
    have hrows : (s.upsert subject project scope target events delivery).incidents = s.incidents := by
      unfold Store.upsert
      simp only []
      split <;> rfl
    unfold Store.openKeys
    rwa [hrows]
  | remove subject id =>
    obtain rfl := Option.some.inj hs
    have hrows : (s.remove subject id).incidents = s.incidents := by
      unfold Store.remove
      simp only []
      split <;> rfl
    unfold Store.openKeys
    rwa [hrows]
  | mute subject id mutedUntil =>
    obtain rfl := Option.some.inj hs
    exact h
  | pass r cut =>
    obtain rfl := Option.some.inj hs
    have hsub : ((made s r cut).filterMap Write.opens).Sublist ((opening s r).map Signal.key) := by
      rw [← filterMap_opens]
      exact (made_start s r cut).sublist.filterMap _
    refine Store.openKeys_nodup_writes h ((opening_nodup s r).sublist hsub) fun key hkey => ?_
    obtain ⟨signal, hsignal, rfl⟩ := List.mem_map.mp (hsub.subset hkey)
    exact not_mem_openKeys_of_opening s r hsignal

/-! ## what a pass closes -/

theorem Store.getElem?_writes {ws : List Write} {now : Int}
    (hnow : ∀ key t, .closeIncident key t ∈ ws → t = now) {s : Store} {n : Nat} {row : Row}
    (hrow : s.incidents[n]? = some row) :
    (s.writes ws).incidents[n]? = some
      (if row.2 = none ∧ row.1.key ∈ ws.filterMap Write.closes then (row.1, some now) else row) := by
  induction ws generalizing s row with
  | nil => simpa using hrow
  | cons w ws ih =>
    have hrest : ∀ key t, .closeIncident key t ∈ ws → t = now := fun key t h =>
      hnow key t (List.mem_cons_of_mem w h)
    rw [writes_cons]
    cases w with
    | openIncident signal t =>
      refine ih hrest (s := s.openIncident signal t) ?_
      rw [Store.openIncident, List.getElem?_append_left (List.getElem?_eq_some_iff.mp hrow).1]
      exact hrow
    | closeIncident key t =>
      obtain rfl := hnow key t List.mem_cons_self
      have hcloses : (Write.closeIncident key t :: ws).filterMap Write.closes
          = key :: ws.filterMap Write.closes := rfl
      have hnext : (s.closeIncident key t).incidents[n]?
          = some (if row.1.key = key ∧ row.2 = none then (row.1, some t) else row) := by
        rw [Store.closeIncident, List.getElem?_map, hrow]
        rfl
      rw [write, ih hrest hnext, hcloses]
      by_cases hopen : row.2 = none
      · by_cases hkey : row.1.key = key
        · simp [hopen, hkey]
        · simp [hopen, hkey]
      · simp [hopen]
    | notify recipient subscription key change detail =>
      exact ih hrest (s := s.notify recipient subscription key change detail) hrow
    | digest recipient subscription incident key detail =>
      exact ih hrest (s := s.notify recipient subscription key .digest detail) hrow
    | digested id t => exact ih hrest (s := s.digested id t) hrow

section
variable (s : Store) (r : Reading)

theorem now_of_close {key : IncidentKey} {now : Int} (h : .closeIncident key now ∈ passWrites s r) :
    now = r.now := by
  rw [passWrites, firstWrites, List.mem_append, List.mem_append] at h
  rcases h with (h | h) | h
  · obtain ⟨signal, -, hw⟩ := List.mem_flatMap.mp h
    rcases List.mem_cons.mp hw with hw | hw
    · cases hw
    · obtain ⟨held, -, hw⟩ := mem_tell hw
      cases hw
  · obtain ⟨key, -, hw⟩ := List.mem_flatMap.mp h
    rcases List.mem_cons.mp hw with hw | hw
    · exact (Write.closeIncident.inj hw).2
    · obtain ⟨held, -, hw⟩ := mem_tell hw
      cases hw
  · rcases mem_digests s r h with ⟨_, _, _, _, _, hw⟩ | ⟨_, -, hw⟩ <;> cases hw

/-- **A pass closes the incidents that its signals do not name**, all of them if it completes. -/
theorem closed_iff {n : Nat} {row : Row} (hrow : s.incidents[n]? = some row) (cut : Option Nat) :
    ((s.writes (made s r cut)).incidents[n]? = some row ∨
      row.2 = none ∧ row.1.key ∉ (signals s r).map Signal.key ∧
        (s.writes (made s r cut)).incidents[n]? = some (row.1, some r.now)) ∧
    (cut = none → row.2 = none → row.1.key ∉ (signals s r).map Signal.key →
      (s.writes (made s r cut)).incidents[n]? = some (row.1, some r.now)) := by
  have hmade := made_start s r cut
  have hafter := Store.getElem?_writes
    (fun key t h => now_of_close s r (hmade.subset h)) hrow
  constructor
  · by_cases hclosed : row.2 = none ∧ row.1.key ∈ (made s r cut).filterMap Write.closes
    · rw [if_pos hclosed] at hafter
      have hclosing : row.1.key ∈ closing s r := by
        rw [← filterMap_closes]
        exact (hmade.sublist.filterMap _).subset hclosed.2
      exact .inr ⟨hclosed.1, ((mem_closing s r).mp hclosing).2, hafter⟩
    · rw [if_neg hclosed] at hafter
      exact .inl hafter
  · rintro rfl hopen hkey
    have hopenKey : row.1.key ∈ s.openKeys :=
      List.mem_map.mpr ⟨row, List.mem_filter.mpr ⟨List.mem_of_getElem? hrow, by simp [hopen]⟩, rfl⟩
    have hclosed : row.1.key ∈ (made s r none).filterMap Write.closes := by
      rw [made, filterMap_closes]
      exact (mem_closing s r).mpr ⟨hopenKey, hkey⟩
    rwa [if_pos ⟨hopen, hclosed⟩] at hafter

end
/-! ## the digest stamps -/

def Store.marks (s : Store) : List (Nat × Option Int) :=
  s.subscriptions.map fun held => (held.subscription.id, held.digestAt)

/-- when the digests of a subscription were completed -/
def stampTimes (id : Nat) (ws : List Write) : List Int :=
  ws.filterMap fun
    | .digested id' now => if id' = id then some now else none
    | _ => none

theorem stampTimes_append (id : Nat) (ws ws' : List Write) :
    stampTimes id (ws ++ ws') = stampTimes id ws ++ stampTimes id ws' := List.filterMap_append

theorem modifyFirst_marks {id : Nat} (now : Int) {l : List Held}
    (h : (l.map fun held => held.subscription.id).Nodup) :
    (modifyFirst (fun held => held.subscription.id = id)
        (fun held => { held with digestAt := some now }) l).map
          (fun held => (held.subscription.id, held.digestAt))
      = l.map fun held =>
          (held.subscription.id, if held.subscription.id = id then some now else held.digestAt) := by
  induction l with
  | nil => rfl
  | cons held l ih =>
    obtain ⟨hnot, hrest⟩ := List.nodup_cons.mp h
    unfold modifyFirst
    by_cases hid : held.subscription.id = id
    · have hothers : ∀ held' ∈ l, held'.subscription.id ≠ id := fun held' hheld' heq =>
        hnot (List.mem_map.mpr ⟨held', hheld', heq.trans hid.symm⟩)
      rw [if_pos (decide_eq_true hid), List.map_cons, List.map_cons, if_pos hid]
      congr 1
      exact List.map_congr_left fun held' hheld' => by rw [if_neg (hothers held' hheld')]
    · rw [if_neg (by simpa using hid), List.map_cons, List.map_cons, if_neg hid, ih hrest]

theorem Store.marks_writes {ws : List Write} {now : Int}
    (hnow : ∀ id t, .digested id t ∈ ws → t = now) {s : Store}
    (hids : (s.marks.map Prod.fst).Nodup) :
    (s.writes ws).marks = s.marks.map fun p =>
      (p.1, if p.1 ∈ ws.filterMap Write.stamps then some now else p.2) := by
  induction ws generalizing s with
  | nil => simp
  | cons w ws ih =>
    have hrest : ∀ id t, .digested id t ∈ ws → t = now := fun id t h =>
      hnow id t (List.mem_cons_of_mem w h)
    rw [writes_cons]
    cases w with
    | openIncident signal t => exact ih hrest (s := s.openIncident signal t) hids
    | closeIncident key t => exact ih hrest (s := s.closeIncident key t) hids
    | notify recipient subscription key change detail =>
      exact ih hrest (s := s.notify recipient subscription key change detail) hids
    | digest recipient subscription incident key detail =>
      exact ih hrest (s := s.notify recipient subscription key .digest detail) hids
    | digested id t =>
      obtain rfl := hnow id t List.mem_cons_self
      have hstamps : (Write.digested id t :: ws).filterMap Write.stamps
          = id :: ws.filterMap Write.stamps := rfl
      have hnext : (s.digested id t).marks
          = s.marks.map fun p => (p.1, if p.1 = id then some t else p.2) := by
        have hids' : (s.subscriptions.map fun held => held.subscription.id).Nodup := by
          rw [marks, List.map_map] at hids
          exact hids
        rw [marks, marks, Store.digested, modifyFirst_marks t hids', List.map_map]
        rfl
      have hids' : ((s.digested id t).marks.map Prod.fst).Nodup := by
        rw [hnext, List.map_map]
        exact hids
      rw [write, ih hrest hids', hnext, List.map_map, hstamps]
      refine List.map_congr_left fun p _ => ?_
      by_cases hp : p.1 = id
      · simp [hp]
      · simp [hp]

theorem Store.next_le_writes (s : Store) (ws : List Write) : s.next ≤ (s.writes ws).next := by
  induction ws generalizing s with
  | nil => exact le_refl _
  | cons w ws ih =>
    rw [writes_cons]
    refine le_trans ?_ (ih _)
    cases w with
    | notify recipient subscription key change detail => exact Nat.le_succ _
    | digest recipient subscription incident key detail => exact Nat.le_succ _
    | _ => exact le_refl _

theorem stampTimes_eq {ws : List Write} {now : Int} (hnow : ∀ id t, .digested id t ∈ ws → t = now)
    (hnodup : (ws.filterMap Write.stamps).Nodup) (id : Nat) :
    stampTimes id ws = if id ∈ ws.filterMap Write.stamps then [now] else [] := by
  induction ws with
  | nil => rfl
  | cons w ws ih =>
    have hrest : ∀ id t, .digested id t ∈ ws → t = now := fun id t h =>
      hnow id t (List.mem_cons_of_mem w h)
    cases w with
    | digested id' t =>
      obtain rfl := hnow id' t List.mem_cons_self
      have hstamps : (Write.digested id' t :: ws).filterMap Write.stamps
          = id' :: ws.filterMap Write.stamps := rfl
      rw [hstamps] at hnodup ⊢
      obtain ⟨hnot, hnodup'⟩ := List.nodup_cons.mp hnodup
      have hcons : stampTimes id (.digested id' t :: ws)
          = (if id' = id then [t] else []) ++ stampTimes id ws := by
        unfold stampTimes
        rw [List.filterMap_cons]
        by_cases h : id' = id <;> simp [h]
      rw [hcons, ih hrest hnodup']
      by_cases h : id' = id
      · subst h
        simp [hnot]
      · simp [h, Ne.symm h]
    | openIncident signal t => exact ih hrest hnodup
    | closeIncident key t => exact ih hrest hnodup
    | notify recipient subscription key change detail => exact ih hrest hnodup
    | digest recipient subscription incident key detail => exact ih hrest hnodup

section
variable (s : Store) (r : Reading)

theorem stamps_digestWrites (day : List (Row × Nat)) (held : Held) :
    (digestWrites r day held).filterMap Write.stamps = [held.subscription.id] := by
  unfold digestWrites
  rw [List.filterMap_append]
  have hnone : ∀ l : List (Row × Nat), (l.map fun p =>
      Write.digest held.subject held.subscription.id p.2 p.1.1.key
        (digestDetail p.1)).filterMap Write.stamps = [] := fun l => by
    rw [List.filterMap_map]
    exact List.filterMap_eq_nil_iff.mpr fun _ _ => rfl
  split
  · rfl
  · rw [hnone]
    rfl

theorem filterMap_stamps :
    (passWrites s r).filterMap Write.stamps = (due s r).map fun held => held.subscription.id := by
  have hnone := filterMap_tell (f := Write.stamps) fun _ _ _ _ _ => rfl
  have hfirst : (firstWrites s r).filterMap Write.stamps = [] := by
    refine List.filterMap_eq_nil_iff.mpr fun w hw => ?_
    rw [firstWrites, List.mem_append] at hw
    rcases hw with hw | hw
    · obtain ⟨signal, -, hw⟩ := List.mem_flatMap.mp hw
      rcases List.mem_cons.mp hw with rfl | hw
      · rfl
      · obtain ⟨held, -, rfl⟩ := mem_tell hw
        rfl
    · obtain ⟨key, -, hw⟩ := List.mem_flatMap.mp hw
      rcases List.mem_cons.mp hw with rfl | hw
      · rfl
      · obtain ⟨held, -, rfl⟩ := mem_tell hw
        rfl
  rw [passWrites, List.filterMap_append, hfirst, List.nil_append, digests]
  split
  · rename_i hempty
    rw [List.isEmpty_iff.mp hempty]
    rfl
  · exact filterMap_blocks (stamps_digestWrites r _) _

theorem now_of_stamp {id : Nat} {now : Int} (h : .digested id now ∈ passWrites s r) :
    now = r.now := by
  rw [passWrites, firstWrites, List.mem_append, List.mem_append] at h
  rcases h with (h | h) | h
  · obtain ⟨signal, -, hw⟩ := List.mem_flatMap.mp h
    rcases List.mem_cons.mp hw with hw | hw
    · cases hw
    · obtain ⟨held, -, hw⟩ := mem_tell hw
      cases hw
  · obtain ⟨key, -, hw⟩ := List.mem_flatMap.mp h
    rcases List.mem_cons.mp hw with hw | hw
    · cases hw
    · obtain ⟨held, -, hw⟩ := mem_tell hw
      cases hw
  · rcases mem_digests s r h with ⟨_, _, _, _, _, hw⟩ | ⟨held, -, hw⟩
    · cases hw
    · exact (Write.digested.inj hw).2

end

theorem digestDue_iff (last : Option Int) (now : Int) :
    digestDue last now = true ↔ digestHour ≤ Time.hourOf now ∧
      ∀ t ∈ last, t < now / Time.day * Time.day + digestHour * Time.hour := by
  unfold digestDue
  by_cases hhour : Time.hourOf now < digestHour
  · simp [hhour]
  · cases last with
    | none => simpa [hhour] using Nat.not_lt.mp hhour
    | some t => simpa [hhour] using fun _ => Nat.not_lt.mp hhour

theorem day_lt_of_due {last now : Int} (hlast : digestHour ≤ Time.hourOf last)
    (h : digestDue (some last) now = true) : last / Time.day < now / Time.day := by
  have hlt := ((digestDue_iff _ _).mp h).2 last rfl
  unfold Time.hourOf at hlast
  simp only [digestHour, Time.day, Time.hour, Time.minute, Time.second] at hlast hlt ⊢
  omega

/-- the stamps of a run, and what the store keeps of them -/
structure Marked (tr : List (Trans Store Action)) (s : Store) : Prop where
  ids : (s.marks.map Prod.fst).Nodup
  bound : ∀ p ∈ s.marks, p.1 ≤ s.next
  last : ∀ p ∈ s.marks, p.2 = (stampTimes p.1 (log tr)).getLast?
  unborn : ∀ id, s.next < id → stampTimes id (log tr) = []
  days : ∀ id, (stampTimes id (log tr)).Pairwise fun a b => a / Time.day < b / Time.day
  hours : ∀ id, ∀ t ∈ stampTimes id (log tr), digestHour ≤ Time.hourOf t

theorem log_append (tr tr' : List (Trans Store Action)) : log (tr ++ tr') = log tr ++ log tr' :=
  List.flatMap_append

/-- people's wishes leave the stamps; a new subscription has none -/
theorem Marked.upsert {tr : List (Trans Store Action)} {s : Store} (h : Marked tr s)
    (subject project : String) (scope : Scope) (target : String) (events : List Event)
    (delivery : Delivery) :
    Marked tr (s.upsert subject project scope target events delivery) := by
  unfold Store.upsert
  simp only []
  split
  · have hmarks : ∀ p : Held → Bool, (modifyFirst p (fun held =>
        { held with
          subscription := { held.subscription with events := events, delivery := delivery } })
        s.subscriptions).map (fun held => (held.subscription.id, held.digestAt)) = s.marks := by
      intro p
      refine map_modifyFirst ?_ _
      exact fun _ => rfl
    exact ⟨by simpa only [Store.marks, hmarks] using h.ids,
      by simpa only [Store.marks, hmarks] using h.bound,
      by simpa only [Store.marks, hmarks] using h.last, h.unborn, h.days, h.hours⟩
  · refine ⟨?_, ?_, ?_, fun id hid => h.unborn id (by have := hid; simp only at this; omega),
      h.days, h.hours⟩
    · rw [Store.marks, List.map_append, List.map_append]
      refine List.nodup_append'.mpr ⟨h.ids, List.nodup_singleton _, fun id hid hid' => ?_⟩
      obtain ⟨p, hp, rfl⟩ := List.mem_map.mp hid
      have hbound := h.bound p hp
      have hnew : p.1 = s.next + 1 := List.mem_singleton.mp hid'
      omega
    · intro p hp
      rw [Store.marks, List.map_append] at hp
      rcases List.mem_append.mp hp with hp | hp
      · exact le_trans (h.bound p hp) (Nat.le_succ _)
      · obtain rfl := List.mem_singleton.mp hp
        exact le_refl _
    · intro p hp
      rw [Store.marks, List.map_append] at hp
      rcases List.mem_append.mp hp with hp | hp
      · exact h.last p hp
      · obtain rfl := List.mem_singleton.mp hp
        rw [h.unborn _ (Nat.lt_succ_self _)]
        rfl

theorem Marked.remove {tr : List (Trans Store Action)} {s : Store} (h : Marked tr s)
    (subject : String) (id : Nat) : Marked tr (s.remove subject id) := by
  unfold Store.remove
  simp only []
  split
  · have hsub : ∀ p : Held → Bool, ((s.subscriptions.filter p).map fun held =>
        (held.subscription.id, held.digestAt)).Sublist s.marks := fun p => List.filter_sublist.map _
    exact ⟨h.ids.sublist ((hsub _).map _), fun p hp => h.bound p ((hsub _).subset hp),
      fun p hp => h.last p ((hsub _).subset hp), h.unborn, h.days, h.hours⟩
  · exact h

theorem Marked.mute {tr : List (Trans Store Action)} {s : Store} (h : Marked tr s)
    (subject : String) (id : Nat) (mutedUntil : Option Int) :
    Marked tr (s.mute subject id mutedUntil) := by
  have hmarks : (s.mute subject id mutedUntil).marks = s.marks := by
    refine map_modifyFirst ?_ _
    exact fun _ => rfl
  exact ⟨by rw [hmarks]; exact h.ids, by rw [hmarks]; exact h.bound, by rw [hmarks]; exact h.last,
    h.unborn, h.days, h.hours⟩

/-- a pass stamps the subscriptions whose digest it completed, each of which was due -/
theorem Marked.pass {tr : List (Trans Store Action)} {s : Store} (h : Marked tr s) (r : Reading)
    (cut : Option Nat) :
    Marked (tr ++ [⟨s, .pass r cut, s.writes (made s r cut)⟩]) (s.writes (made s r cut)) := by
  have hmade := made_start s r cut
  have hnow : ∀ id t, .digested id t ∈ made s r cut → t = r.now := fun id t ht =>
    now_of_stamp s r (hmade.subset ht)
  have hsub : ((made s r cut).filterMap Write.stamps).Sublist
      ((due s r).map fun held => held.subscription.id) := by
    rw [← filterMap_stamps]
    exact hmade.sublist.filterMap _
  have hids : (s.subscriptions.map fun held => held.subscription.id).Nodup := by
    have := h.ids
    rw [Store.marks, List.map_map] at this
    exact this
  have hnodup : ((made s r cut).filterMap Write.stamps).Nodup :=
    (hids.sublist (List.filter_sublist.map _)).sublist hsub
  have hmarks := Store.marks_writes hnow h.ids
  have hnext := Store.next_le_writes s (made s r cut)
  have hlog : log (tr ++ [⟨s, .pass r cut, s.writes (made s r cut)⟩]) = log tr ++ made s r cut := by
    rw [log_append]
    exact congrArg (log tr ++ ·) (List.append_nil _)
  have htimes : ∀ id, stampTimes id (log (tr ++ [⟨s, .pass r cut, s.writes (made s r cut)⟩]))
      = stampTimes id (log tr)
        ++ if id ∈ (made s r cut).filterMap Write.stamps then [r.now] else [] := fun id => by
    rw [hlog, stampTimes_append, stampTimes_eq hnow hnodup]
  -- a stamped subscription was held, and its digest due
  have hdue : ∀ id ∈ (made s r cut).filterMap Write.stamps, ∃ last, (id, last) ∈ s.marks ∧
      digestDue last r.now = true := by
    intro id hid
    obtain ⟨held, hheld, rfl⟩ := List.mem_map.mp (hsub.subset hid)
    obtain ⟨hheld, hheldDue⟩ := List.mem_filter.mp hheld
    exact ⟨held.digestAt, List.mem_map.mpr ⟨held, hheld, rfl⟩, (Bool.and_eq_true_iff.mp hheldDue).2⟩
  refine ⟨?_, ?_, ?_, ?_, ?_, ?_⟩
  · rw [hmarks, List.map_map]
    exact h.ids
  · intro p hp
    rw [hmarks] at hp
    obtain ⟨q, hq, rfl⟩ := List.mem_map.mp hp
    exact le_trans (h.bound q hq) hnext
  · intro p hp
    rw [hmarks] at hp
    obtain ⟨q, hq, rfl⟩ := List.mem_map.mp hp
    rw [htimes]
    by_cases hid : q.1 ∈ (made s r cut).filterMap Write.stamps
    · simp [hid]
    · simpa [hid] using h.last q hq
  · intro id hid
    have hnot : id ∉ (made s r cut).filterMap Write.stamps := fun hmem => by
      obtain ⟨last, hlast, -⟩ := hdue id hmem
      have hbound := h.bound _ hlast
      simp only at hbound
      omega
    rw [htimes, if_neg hnot, h.unborn id (lt_of_le_of_lt hnext hid)]
    rfl
  · intro id
    rw [htimes]
    by_cases hid : id ∈ (made s r cut).filterMap Write.stamps
    · rw [if_pos hid]
      obtain ⟨last, hlast, hlastDue⟩ := hdue id hid
      refine List.pairwise_append.mpr ⟨h.days id, List.pairwise_singleton _ _, fun a ha b hb => ?_⟩
      obtain rfl := List.mem_singleton.mp hb
      -- the newest stamp is the one the store holds
      have hnewest := h.last _ hlast
      obtain ⟨t, ht⟩ : ∃ t, (stampTimes id (log tr)).getLast? = some t :=
        Option.isSome_iff_exists.mp (List.getLast?_isSome.mpr (List.ne_nil_of_mem ha))
      simp only at hnewest
      rw [hnewest, ht] at hlastDue
      have hlt := day_lt_of_due (h.hours id t (List.mem_of_getLast? ht)) hlastDue
      obtain ⟨before, hbefore⟩ := List.getLast?_eq_some_iff.mp ht
      have hdays := h.days id
      rw [hbefore] at ha hdays
      rcases List.mem_append.mp ha with ha | ha
      · exact lt_trans ((List.pairwise_append.mp hdays).2.2 a ha t List.mem_cons_self) hlt
      · rw [List.mem_singleton.mp ha]
        exact hlt
    · rw [if_neg hid, List.append_nil]
      exact h.days id
  · intro id t ht
    rw [htimes] at ht
    rcases List.mem_append.mp ht with ht | ht
    · exact h.hours id t ht
    · split at ht
      · rename_i hid
        obtain rfl := List.mem_singleton.mp ht
        obtain ⟨last, -, hlastDue⟩ := hdue id hid
        exact ((digestDue_iff _ _).mp hlastDue).1
      · exact absurd ht List.not_mem_nil

theorem marked {tr : List (Trans Store Action)} {s : Store} (hr : Run Store.act .empty tr s) :
    Marked tr s := by
  refine hr.history (I := Marked) (C := fun _ => True) ?_ (fun tr s a s' _ hs _ h => ?_)
    fun _ _ => trivial
  · exact ⟨List.nodup_nil, fun _ hp => absurd hp List.not_mem_nil,
      fun _ hp => absurd hp List.not_mem_nil, fun _ _ => rfl, fun _ => List.Pairwise.nil,
      fun _ _ ht => absurd ht List.not_mem_nil⟩
  · -- a wish writes nothing
    have hwish : ∀ {s' : Store} {a : Action}, Marked tr s' → writesOf ⟨s, a, s'⟩ = [] →
        Marked (tr ++ [⟨s, a, s'⟩]) s' := by
      intro s' a hm hnone
      have hlog : log (tr ++ [⟨s, a, s'⟩]) = log tr := by
        rw [log_append, log, log, List.flatMap_singleton, hnone, List.append_nil]
      exact ⟨hm.ids, hm.bound, by rw [hlog]; exact hm.last, by rw [hlog]; exact hm.unborn,
        by rw [hlog]; exact hm.days, by rw [hlog]; exact hm.hours⟩
    cases a with
    | upsert subject project scope target events delivery =>
      obtain rfl := Option.some.inj hs
      exact hwish (h.upsert ..) rfl
    | remove subject id =>
      obtain rfl := Option.some.inj hs
      exact hwish (h.remove ..) rfl
    | mute subject id mutedUntil =>
      obtain rfl := Option.some.inj hs
      exact hwish (h.mute ..) rfl
    | pass r cut =>
      obtain rfl := Option.some.inj hs
      exact h.pass r cut

/-! ## the notices -/

/-- notices stand in the order they were left -/
structure Store.Numbered (s : Store) : Prop where
  sorted : (s.notices.map fun p => p.2.id).Pairwise (· < ·)
  bound : ∀ p ∈ s.notices, p.2.id ≤ s.next

theorem Store.Numbered.notify {s : Store} (h : s.Numbered) (recipient : String) (subscription : Nat)
    (key : IncidentKey) (change : Change) (detail : String) :
    (s.notify recipient subscription key change detail).Numbered := by
  have hsub : (s.notify recipient subscription key change detail).notices.Sublist (s.notices
      ++ [(recipient, ⟨s.next + 1, subscription, key, change, detail⟩)]) := by
    unfold Store.notify
    simp only []
    split
    · exact dropFirst_sublist ..
    · exact List.Sublist.refl _
  constructor
  · refine List.Pairwise.sublist (hsub.map _) ?_
    rw [List.map_append]
    refine List.pairwise_append.mpr ⟨h.sorted, List.pairwise_singleton _ _, fun a ha b hb => ?_⟩
    obtain ⟨p, hp, rfl⟩ := List.mem_map.mp ha
    obtain rfl := List.mem_singleton.mp hb
    exact Nat.lt_succ_of_le (h.bound p hp)
  · intro p hp
    rcases List.mem_append.mp (hsub.subset hp) with hp | hp
    · exact le_trans (h.bound p hp) (Nat.le_succ _)
    · obtain rfl := List.mem_singleton.mp hp
      exact le_refl _

theorem Store.Numbered.writes {s : Store} (h : s.Numbered) (ws : List Write) :
    (s.writes ws).Numbered := by
  induction ws generalizing s with
  | nil => exact h
  | cons w ws ih =>
    cases w with
    | openIncident signal now => exact ih (s := s.openIncident signal now) ⟨h.sorted, h.bound⟩
    | closeIncident key now => exact ih (s := s.closeIncident key now) ⟨h.sorted, h.bound⟩
    | notify recipient subscription key change detail => exact ih (h.notify ..)
    | digest recipient subscription incident key detail => exact ih (h.notify ..)
    | digested id now => exact ih (s := s.digested id now) ⟨h.sorted, h.bound⟩

theorem numbered {tr : List (Trans Store Action)} {s : Store} (hr : Run Store.act .empty tr s) :
    s.Numbered := by
  refine hr.invariant (I := Store.Numbered) (C := fun _ => True) ?_ (fun s a s' hs _ h => ?_)
    fun _ _ => trivial
  · exact ⟨List.Pairwise.nil, fun p hp => absurd hp List.not_mem_nil⟩
  · cases a with
    | upsert subject project scope target events delivery =>
      obtain rfl := Option.some.inj hs
      unfold Store.upsert
      simp only []
      split
      · exact ⟨h.sorted, h.bound⟩
      · exact ⟨h.sorted, fun p hp => le_trans (h.bound p hp) (Nat.le_succ _)⟩
    | remove subject id =>
      obtain rfl := Option.some.inj hs
      unfold Store.remove
      simp only []
      split
      · exact ⟨h.sorted.sublist (List.filter_sublist.map _),
          fun p hp => h.bound p (List.mem_filter.mp hp).1⟩
      · exact h
    | mute subject id mutedUntil =>
      obtain rfl := Option.some.inj hs
      exact ⟨h.sorted, h.bound⟩
    | pass r cut =>
      obtain rfl := Option.some.inj hs
      exact h.writes _

/-! ## all of it -/

/-- **The evaluator's books are straight in every run**, whichever calls fail. -/
theorem bookkeeping {tr : List (Trans Store Action)} {s : Store} (hr : Run Store.act .empty tr s) :
    s.openKeys.Nodup ∧
    (∀ t ∈ tr, ∀ r cut, t.act = .pass r cut → ∀ (n : Nat) (row : Row),
      t.before.incidents[n]? = some row →
      (t.after.incidents[n]? = some row ∨ row.2 = none ∧
        row.1.key ∉ (signals t.before r).map Signal.key ∧
        t.after.incidents[n]? = some (row.1, some r.now)) ∧
      (cut = none → row.2 = none → row.1.key ∉ (signals t.before r).map Signal.key →
        t.after.incidents[n]? = some (row.1, some r.now))) ∧
    (∀ id, (stampTimes id (log tr)).Pairwise fun a b => a / Time.day ≠ b / Time.day) ∧
    (s.notices.map fun p => p.2.id).Pairwise (· < ·) ∧
    ∀ recipient subscription key change detail other,
      (s.notify recipient subscription key change detail).noticesOf other =
        if other = recipient then
          (s.noticesOf recipient
            ++ [(⟨s.next + 1, subscription, key, change, detail⟩ : Notice)]).rtake kept
        else s.noticesOf other := by
  refine ⟨openKeys_nodup hr, ?_, fun id => ((marked hr).days id).imp fun h => ne_of_lt h,
    (numbered hr).sorted, Store.noticesOf_notify s⟩
  intro t ht r cut hact n row hrow
  obtain ⟨a, b, rfl⟩ := List.append_of_mem ht
  obtain ⟨-, hstep, -⟩ := hr.at
  rw [hact] at hstep
  obtain hafter := Option.some.inj hstep
  rw [← hafter]
  exact closed_iff t.before r hrow cut

/-- two pipelines of a project fail at seven in the morning -/
def failures : Reading where
  now := 7 * Time.hour
  pipelines := [⟨"helsinki", "bikes", [], []⟩, ⟨"helsinki", "docks", [], []⟩]
  signals := [⟨.of "helsinki" "bikes" .failure, ""⟩, ⟨.of "helsinki" "docks" .failure, ""⟩]
  agents := none
  distinct := by decide
  ofPipelines := by decide
  agentsDistinct := Reading.distinct_none
  ofAgents := Reading.agents_none

def watchingBoth : List Action :=
  [.upsert "jana" "helsinki" .pipeline "bikes" [.failure] .digest,
    .upsert "jana" "helsinki" .pipeline "docks" [.failure] .digest, .pass failures none]

theorem run_watchingBoth : Run Store.act .empty (trace Store.act .empty watchingBoth)
    (final Store.act .empty watchingBoth) := run_trace rfl

/-- both failures open once -/
theorem bookkeeping_of_failures : (final Store.act .empty watchingBoth).openKeys.Nodup :=
  (bookkeeping run_watchingBoth).1

/-- when the digests of a person's subscriptions were completed -/
def personDigests (subject : String) (tr : List (Trans Store Action)) : List Int :=
  tr.flatMap fun t => (writesOf t).filterMap fun
    | .digested id now =>
      if t.before.subscriptions.any fun held => held.subject = subject && held.subscription.id = id
      then some now
      else none
    | _ => none

/-- **A person with two subscriptions gets two digests a day.** -/
theorem two_digests_a_day :
    ¬ ∀ tr s, Run Store.act .empty tr s → ∀ subject,
      (personDigests subject tr).Pairwise fun a b => a / Time.day ≠ b / Time.day := by
  intro hall
  have hdays := hall _ _ run_watchingBoth "jana"
  revert hdays
  decide +kernel

end Portal.Alerts
