import Portal.Reconciler.Groups

/-!
# Runs of the group wave (`reconciler/groups.rs`: `converge_with`)

The turns of a run are of different groups, so each finds its group as the listing showed it and no
other turn or removal undoes it.

* `Passed`, `Removed`   what the turns do of the realm, and what the removals do;
* `foreign_kept`        **the law**: an unmanaged group is never touched, whatever fails;
* `reported_true`       **the law**: a group reported without an error is as it was declared;
* `converged`           **the law**: a run whose requests are answered leaves the realm as declared;
* `next_run_quiet`      **the law**: and the next run finds nothing to do.
-/

namespace Portal
namespace Groups
open Access

/-! ## the entries of a run -/

def Entry.turn (e : Entry) : Option String :=
  match e.what with
  | .ok _ => some e.name
  | .error _ => none

/-- what a listing says of the group `n` is so -/
def Seen (existing : List KcGroup) (r : Realm) (n : String) : Prop :=
  ∀ g, existing.find? (fun group => group.name = n) = some g →
    ∃ h, r.groups.get? n = some h ∧ g = h.shown n

/-- the group `n` was listed if there is one -/
def Complete (existing : List KcGroup) (r : Realm) (n : String) : Prop :=
  existing.find? (fun group => group.name = n) = none → r.groups.get? n = none

def Small (es : List Entry) (r : Realm) : Prop :=
  ∀ n ∈ es.filterMap Entry.turn, ∀ h, r.groups.get? n = some h → h.members.length ≤ pageSize

section
variable {existing : List KcGroup} {r r' : Realm} {name : String} {wanted : List String}
  {derived : Option DerivedGroup} {w : Wire}

theorem matches_congr (hget : r'.groups.get? name = r.groups.get? name)
    (husers : r'.users = r.users) (h : Matches r name wanted derived) :
    Matches r' name wanted derived := by
  unfold Matches
  rw [hget, husers]
  exact h

theorem quiet_congr (hget : r'.groups.get? name = r.groups.get? name) (husers : r'.users = r.users)
    (h : Quiet r name wanted derived) : Quiet r' name wanted derived := by
  unfold Quiet
  rw [hget, husers]
  exact h

/-- **Step**: the turn of one entry. -/
theorem convergeOne_turned (hsound : Sound w.realm) (hseen : Seen existing w.realm name) :
    Turned name wanted derived (Complete existing w.realm name) w
      (convergeOne name wanted derived (existing.find? (fun group => group.name = name)) w) := by
  cases hfind : existing.find? (fun group => group.name = name) with
  | none => exact convergeOne_none hsound (fun hcomplete => hcomplete hfind)
  | some g =>
    obtain ⟨h, hget, rfl⟩ := hseen g hfind
    exact convergeOne_held ⟨hsound, hget⟩

/-- what the turns of a list of entries do of the realm, and what their outcomes say -/
structure Passed (existing : List KcGroup) (es : List Entry) (w : Wire)
    (out : List GroupOutcome × Wire) : Prop where
  sound : Sound out.2.realm
  users : out.2.realm.users = w.realm.users
  others : ∀ n, n ∉ es.filterMap Entry.turn → out.2.realm.groups.get? n = w.realm.groups.get? n
  unmanaged : ∀ n h, w.realm.groups.get? n = some h → managed h.attributes = false →
    out.2.realm.groups.get? n = some h
  calm : w.faults = [] → out.2.faults = []
  told : Small es w.realm → ∀ o ∈ out.1, o.error = none → ∃ e ∈ es, e.name = o.name ∧
    ∃ wanted derived, e.what = .ok (wanted, derived) ∧ Matches out.2.realm e.name wanted derived
  quiet : w.faults = [] → Small es w.realm → ∀ e ∈ es, ∀ wanted derived,
    e.what = .ok (wanted, derived) → wanted.length ≤ pageSize → Complete existing w.realm e.name →
    Quiet out.2.realm e.name wanted derived
  answered : w.faults = [] → Small es w.realm → ∀ e ∈ es, ∀ wanted derived,
    e.what = .ok (wanted, derived) → Complete existing w.realm e.name →
    (∀ h, w.realm.groups.get? e.name = some h → managed h.attributes = true) →
    (∀ m ∈ wanted, isPersonId m = true) → Matches out.2.realm e.name wanted derived

theorem turn_error {e : Entry} {text : String} (h : e.what = .error text) : e.turn = none := by
  unfold Entry.turn
  rw [h]

theorem turn_ok {e : Entry} (h : e.what = .ok (wanted, derived)) : e.turn = some e.name := by
  unfold Entry.turn
  rw [h]

theorem Passed.error {e : Entry} {es : List Entry} {text : String} {o : GroupOutcome}
    {out : List GroupOutcome × Wire} (hwhat : e.what = .error text) (ho : o.error ≠ none)
    (hpassed : Passed existing es w out) : Passed existing (e :: es) w (o :: out.1, out.2) := by
  have hturns : (e :: es).filterMap Entry.turn = es.filterMap Entry.turn :=
    List.filterMap_cons_none (turn_error hwhat)
  have hsmall : Small (e :: es) w.realm → Small es w.realm := by
    intro hsmall
    unfold Small at hsmall
    rw [hturns] at hsmall
    exact hsmall
  refine ⟨hpassed.sound, hpassed.users, ?_, hpassed.unmanaged, hpassed.calm, ?_, ?_, ?_⟩
  · rw [hturns]
    exact hpassed.others
  · intro hs o' ho' hnone
    rcases List.mem_cons.1 ho' with rfl | ho'
    · exact absurd hnone ho
    · obtain ⟨e', he', hrest⟩ := hpassed.told (hsmall hs) o' ho' hnone
      exact ⟨e', List.mem_cons_of_mem _ he', hrest⟩
  · intro hnil hs e' he' wanted derived hok
    rcases List.mem_cons.1 he' with rfl | he'
    · exact absurd (hwhat.symm.trans hok) (by simp)
    · exact hpassed.quiet hnil (hsmall hs) e' he' wanted derived hok
  · intro hnil hs e' he' wanted derived hok
    rcases List.mem_cons.1 he' with rfl | he'
    · exact absurd (hwhat.symm.trans hok) (by simp)
    · exact hpassed.answered hnil (hsmall hs) e' he' wanted derived hok

theorem Passed.ok {e : Entry} {es : List Entry} {t : Turn} {out : List GroupOutcome × Wire}
    (hwhat : e.what = .ok (wanted, derived)) (hfresh : e.name ∉ es.filterMap Entry.turn)
    (hturned : Turned e.name wanted derived (Complete existing w.realm e.name) w t)
    (hpassed : Passed existing es t.wire out) :
    Passed existing (e :: es) w (t.outcome :: out.1, out.2) := by
  have hturns : (e :: es).filterMap Entry.turn = e.name :: es.filterMap Entry.turn :=
    List.filterMap_cons_some (turn_ok hwhat)
  have hown : out.2.realm.groups.get? e.name = t.wire.realm.groups.get? e.name :=
    hpassed.others e.name hfresh
  have hother : ∀ n ∈ es.filterMap Entry.turn,
      t.wire.realm.groups.get? n = w.realm.groups.get? n := fun n hn =>
    hturned.others n (fun heq => hfresh (heq ▸ hn))
  have hof : ∀ e' ∈ es, ∀ wanted derived, e'.what = .ok (wanted, derived) →
      t.wire.realm.groups.get? e'.name = w.realm.groups.get? e'.name :=
    fun e' he' _ _ hok => hother _ (List.mem_filterMap.2 ⟨e', he', turn_ok hok⟩)
  have hfirst : Small (e :: es) w.realm →
      ∀ h, w.realm.groups.get? e.name = some h → h.members.length ≤ pageSize := fun hs =>
    hs e.name (by rw [hturns]; exact List.mem_cons_self)
  have hrest : Small (e :: es) w.realm → Small es t.wire.realm := by
    intro hs n hn h hget
    refine hs n (by rw [hturns]; exact List.mem_cons_of_mem _ hn) h ?_
    rw [← hother n hn]
    exact hget
  refine ⟨hpassed.sound, hpassed.users.trans hturned.users, ?_, ?_,
    fun hnil => hpassed.calm (hturned.calm hnil), ?_, ?_, ?_⟩
  · intro n hn
    rw [hturns, List.mem_cons, not_or] at hn
    rw [hpassed.others n hn.2, hturned.others n hn.1]
  · intro n h hget hno
    refine hpassed.unmanaged n h ?_ hno
    by_cases hn : n = e.name
    · subst hn
      rw [hturned.unmanaged h hget hno]
      exact hget
    · rw [hturned.others n hn]
      exact hget
  · intro hs o ho hnone
    rcases List.mem_cons.1 ho with rfl | ho
    · exact ⟨e, List.mem_cons_self, hturned.named.symm, wanted, derived, hwhat,
        matches_congr hown hpassed.users (hturned.told (hfirst hs) hnone)⟩
    · obtain ⟨e', he', htold⟩ := hpassed.told (hrest hs) o ho hnone
      exact ⟨e', List.mem_cons_of_mem _ he', htold⟩
  · intro hnil hs e' he' wanted' derived' hok hfits hcomplete
    rcases List.mem_cons.1 he' with rfl | he'
    · obtain ⟨rfl, rfl⟩ := Prod.mk.inj (Except.ok.inj (hwhat.symm.trans hok))
      exact quiet_congr hown hpassed.users (hturned.quiet hnil (hfirst hs) hfits hcomplete)
    · refine hpassed.quiet (hturned.calm hnil) (hrest hs) e' he' wanted' derived' hok hfits ?_
      unfold Complete
      rw [hof e' he' _ _ hok]
      exact hcomplete
  · intro hnil hs e' he' wanted' derived' hok hcomplete hours hall
    rcases List.mem_cons.1 he' with rfl | he'
    · obtain ⟨rfl, rfl⟩ := Prod.mk.inj (Except.ok.inj (hwhat.symm.trans hok))
      exact matches_congr hown hpassed.users
        (hturned.told (hfirst hs) (hturned.answered hnil hcomplete hours hall))
    · refine hpassed.answered (hturned.calm hnil) (hrest hs) e' he' wanted' derived' hok ?_ ?_ hall
      · unfold Complete
        rw [hof e' he' _ _ hok]
        exact hcomplete
      · rw [hof e' he' _ _ hok]
        exact hours

/-- **Run** of the turns. -/
theorem convergeEntries_passed (existing : List KcGroup) (es : List Entry) : ∀ w : Wire,
    Sound w.realm → (es.filterMap Entry.turn).Nodup →
    (∀ n ∈ es.filterMap Entry.turn, Seen existing w.realm n) →
    Passed existing es w (convergeEntries existing es w) := by
  induction es with
  | nil =>
    intro w hsound _ _
    exact ⟨hsound, rfl, fun _ _ => rfl, fun _ _ hget _ => hget, fun hnil => hnil,
      fun _ _ ho => absurd ho List.not_mem_nil, fun _ _ _ he => absurd he List.not_mem_nil,
      fun _ _ _ he => absurd he List.not_mem_nil⟩
  | cons e es ih =>
    intro w hsound hnodup hseen
    show Passed existing (e :: es) w ((convergeEntry existing e w).outcome ::
      (convergeEntries existing es (convergeEntry existing e w).wire).1, _)
    cases hwhat : e.what with
    | error text =>
      have hturns := List.filterMap_cons_none (l := es) (turn_error hwhat)
      rw [hturns] at hnodup hseen
      have hentry : convergeEntry existing e w = (⟨.of e.name, w⟩ : Turn).fails text w := by
        unfold convergeEntry
        rw [hwhat]
      rw [hentry]
      exact (ih w hsound hnodup hseen).error hwhat (by simp [Turn.fails])
    | ok what =>
      obtain ⟨wanted, derived⟩ := what
      have hturns := List.filterMap_cons_some (l := es) (turn_ok hwhat)
      rw [hturns] at hnodup hseen
      obtain ⟨hfresh, hnodup⟩ := List.nodup_cons.1 hnodup
      have hentry : convergeEntry existing e w = convergeOne e.name wanted derived
          (existing.find? (fun group => group.name = e.name)) w := by
        unfold convergeEntry
        rw [hwhat]
      rw [hentry]
      have hturned : Turned e.name wanted derived _ w _ :=
        convergeOne_turned hsound (hseen e.name List.mem_cons_self)
      refine .ok hwhat hfresh hturned (ih _ hturned.sound hnodup ?_)
      intro n hn
      unfold Seen
      rw [hturned.others n (fun heq => hfresh (heq ▸ hn))]
      exact hseen n (List.mem_cons_of_mem _ hn)

/-- **Run** of the turns with nothing to do. -/
theorem convergeEntries_quiet (existing : List KcGroup) (es : List Entry) (w : Wire)
    (hsound : Sound w.realm) (hnil : w.faults = [])
    (hseen : ∀ n ∈ es.filterMap Entry.turn, Seen existing w.realm n)
    (hquiet : ∀ e ∈ es, ∀ wanted derived, e.what = .ok (wanted, derived) →
      Quiet w.realm e.name wanted derived) :
    (convergeEntries existing es w).2 = w ∧
      ∀ o ∈ (convergeEntries existing es w).1, o.drift = [] := by
  induction es with
  | nil => exact ⟨rfl, fun _ ho => absurd ho List.not_mem_nil⟩
  | cons e es ih =>
    have hsub : ∀ n ∈ es.filterMap Entry.turn, n ∈ (e :: es).filterMap Entry.turn := by
      intro n hn
      obtain ⟨e', he', hturn⟩ := List.mem_filterMap.1 hn
      exact List.mem_filterMap.2 ⟨e', List.mem_cons_of_mem _ he', hturn⟩
    have hentry : (convergeEntry existing e w).wire = w ∧
        (convergeEntry existing e w).outcome.drift = [] := by
      unfold convergeEntry
      cases hwhat : e.what with
      | error text => exact ⟨rfl, rfl⟩
      | ok what =>
        obtain ⟨wanted, derived⟩ := what
        have hmem : e.name ∈ (e :: es).filterMap Entry.turn :=
          List.mem_filterMap.2 ⟨e, List.mem_cons_self, turn_ok hwhat⟩
        exact convergeOne_quiet hsound hnil (hquiet e List.mem_cons_self _ _ hwhat)
          (hseen e.name hmem)
    have hrest := ih (fun n hn => hseen n (hsub n hn)) (fun e' he' =>
      hquiet e' (List.mem_cons_of_mem _ he'))
    unfold convergeEntries
    simp only [hentry.1]
    refine ⟨hrest.1, fun o ho => ?_⟩
    rcases List.mem_cons.1 ho with rfl | ho
    · exact hentry.2
    · exact hrest.2 o ho

/-! ## the groups nothing declares -/

def Realm.without (r : Realm) (name : String) : Realm := { r with groups := r.groups.erase name }

theorem get?_without (n : String) :
    (r.without name).groups.get? n = if n = name then none else r.groups.get? n :=
  OrdMap.get?_erase _ _ _

theorem Sound.without (hsound : Sound r) (name : String) : Sound (r.without name) := by
  have hold : ∀ n h, (r.without name).groups.get? n = some h → r.groups.get? n = some h := by
    intro n h hget
    rw [get?_without] at hget
    split at hget
    · exact absurd hget (by simp)
    · exact hget
  exact ⟨fun n h hget => hsound.fresh n h (hold n h hget),
    fun n n' h h' hget hget' => hsound.one n n' h h' (hold n h hget) (hold n' h' hget'),
    fun n h hget => hsound.nodup n h (hold n h hget),
    fun n h hget => hsound.users n h (hold n h hget)⟩

theorem At.deleted {h : Held} (hat : At name h r) :
    deleteGroup h.id r = (.ok (), r.without name) := by
  have hgroups : r.groups.retain (fun k => k.id ≠ h.id) = r.groups.erase name := by
    apply OrdMap.ext_get?
    intro n
    rw [OrdMap.get?_retain, OrdMap.get?_erase]
    by_cases hn : n = name
    · rw [if_pos hn, hn, hat.get]
      simp
    · rw [if_neg hn]
      cases hk : r.groups.get? n with
      | none => rfl
      | some k =>
        have hid : k.id ≠ h.id := fun hid => hn (hat.sound.one name n h k hat.get hk hid)
        simp [hid]
  unfold deleteGroup
  rw [hat.held]
  show (Except.ok (), ({ r with groups := _ } : Realm)) = _
  rw [hgroups]
  rfl

/-- what the removals of a list of groups do of the realm, and what their outcomes say -/
structure Removed (declared : List String) (groups : List KcGroup) (w : Wire)
    (out : List GroupOutcome × Wire) : Prop where
  sound : Sound out.2.realm
  users : out.2.realm.users = w.realm.users
  calm : w.faults = [] → out.2.faults = []
  others : ∀ n, (∀ g ∈ groups, g.name = n → managed g.attributes = true → n ∈ declared) →
    out.2.realm.groups.get? n = w.realm.groups.get? n
  told : ∀ o ∈ out.1, o.error = none →
    o.name ∉ declared ∧ out.2.realm.groups.get? o.name = none
  gone : w.faults = [] → ∀ g ∈ groups, managed g.attributes = true → g.name ∉ declared →
    out.2.realm.groups.get? g.name = none

theorem Removed.kept {declared : List String} {g : KcGroup} {groups : List KcGroup}
    {out : List GroupOutcome × Wire}
    (hkept : managed g.attributes = true → g.name ∈ declared)
    (hremoved : Removed declared groups w out) : Removed declared (g :: groups) w out where
  sound := hremoved.sound
  users := hremoved.users
  calm := hremoved.calm
  others := fun n hn => hremoved.others n (fun g' hg' => hn g' (List.mem_cons_of_mem _ hg'))
  told := hremoved.told
  gone := by
    intro hnil g' hg' hmanaged hno
    rcases List.mem_cons.1 hg' with rfl | hg'
    · exact absurd (hkept hmanaged) hno
    · exact hremoved.gone hnil g' hg' hmanaged hno

theorem Removed.cons {declared : List String} {g : KcGroup} {groups : List KcGroup} {w' : Wire}
    {o : GroupOutcome} {out : List GroupOutcome × Wire} (hmanaged : managed g.attributes = true)
    (hno : g.name ∉ declared) (hfresh : ∀ g' ∈ groups, g'.name ≠ g.name)
    (husers : w'.realm.users = w.realm.users) (hcalm : w.faults = [] → w'.faults = [])
    (hothers : ∀ n, n ≠ g.name → w'.realm.groups.get? n = w.realm.groups.get? n)
    (hname : o.name = g.name) (htold : o.error = none → w'.realm.groups.get? g.name = none)
    (hgone : w.faults = [] → w'.realm.groups.get? g.name = none)
    (hremoved : Removed declared groups w' out) :
    Removed declared (g :: groups) w (o :: out.1, out.2) := by
  have hown : out.2.realm.groups.get? g.name = w'.realm.groups.get? g.name :=
    hremoved.others g.name (fun g' hg' heq => absurd heq (hfresh g' hg'))
  refine ⟨hremoved.sound, hremoved.users.trans husers, fun hnil => hremoved.calm (hcalm hnil), ?_,
    ?_, ?_⟩
  · intro n hn
    have hne : n ≠ g.name := fun heq => hno (heq ▸ hn g List.mem_cons_self heq.symm hmanaged)
    rw [hremoved.others n (fun g' hg' => hn g' (List.mem_cons_of_mem _ hg')), hothers n hne]
  · intro o' ho' hnone
    rcases List.mem_cons.1 ho' with rfl | ho'
    · rw [hname]
      exact ⟨hno, hown.trans (htold hnone)⟩
    · exact hremoved.told o' ho' hnone
  · intro hnil g' hg' hmanaged' hno'
    rcases List.mem_cons.1 hg' with rfl | hg'
    · exact hown.trans (hgone hnil)
    · exact hremoved.gone (hcalm hnil) g' hg' hmanaged' hno'

/-- **Run** of the removals. -/
theorem removeGroups_removed (declared : List String) (groups : List KcGroup) : ∀ w : Wire,
    Sound w.realm → (groups.map KcGroup.name).Nodup →
    (∀ g ∈ groups, managed g.attributes = true → g.name ∉ declared →
      ∃ h, w.realm.groups.get? g.name = some h ∧ g = h.shown g.name) →
    Removed declared groups w (removeGroups declared groups w) := by
  induction groups with
  | nil =>
    intro w hsound _ _
    exact ⟨hsound, rfl, fun hnil => hnil, fun _ _ => rfl, fun _ ho => absurd ho List.not_mem_nil,
      fun _ _ hg => absurd hg List.not_mem_nil⟩
  | cons g groups ih =>
    intro w hsound hnodup hseen
    rw [List.map_cons, List.nodup_cons] at hnodup
    have hfresh : ∀ g' ∈ groups, g'.name ≠ g.name := fun g' hg' heq =>
      hnodup.1 (heq ▸ List.mem_map_of_mem hg')
    unfold removeGroups
    split
    · rename_i hcond
      simp only [Bool.and_eq_true, decide_eq_true_eq] at hcond
      obtain ⟨hmanaged, hno⟩ := hcond
      obtain ⟨h, hget, hg⟩ := hseen g List.mem_cons_self hmanaged hno
      have hat : At g.name h w.realm := ⟨hsound, hget⟩
      have hid : g.id = h.id := congrArg KcGroup.id hg
      have hdeleted : deleteGroup g.id w.realm = (.ok (), w.realm.without g.name) := by
        rw [hid]
        exact hat.deleted
      have hnone : (w.realm.without g.name).groups.get? g.name = none := by
        rw [get?_without, if_pos rfl]
      -- the realm is as it was, or without the group
      have hrest : ∀ t : Turn, (t.wire.realm = w.realm ∨ t.wire.realm = w.realm.without g.name) →
          (w.faults = [] → t.wire.faults = []) → t.outcome.name = g.name →
          (t.outcome.error = none ∨ w.faults = [] → t.wire.realm = w.realm.without g.name) →
          Removed declared (g :: groups) w
            (t.outcome :: (removeGroups declared groups t.wire).1,
              (removeGroups declared groups t.wire).2) := by
        intro t hrealm hcalm hname hdone
        have hothers : ∀ n, n ≠ g.name →
            t.wire.realm.groups.get? n = w.realm.groups.get? n := by
          intro n hn
          rcases hrealm with hrealm | hrealm <;> rw [hrealm]
          rw [get?_without, if_neg hn]
        have husers : t.wire.realm.users = w.realm.users := by
          rcases hrealm with hrealm | hrealm <;> rw [hrealm]
          rfl
        have hsound' : Sound t.wire.realm := by
          rcases hrealm with hrealm | hrealm <;> rw [hrealm]
          · exact hsound
          · exact hsound.without _
        refine .cons hmanaged hno hfresh husers hcalm hothers hname
          (fun herror => (hdone (.inl herror)).symm ▸ hnone)
          (fun hnil => (hdone (.inr hnil)).symm ▸ hnone) (ih _ hsound' hnodup.2 ?_)
        intro g' hg' hmanaged' hno'
        rw [hothers _ (hfresh g' hg')]
        exact hseen g' (List.mem_cons_of_mem _ hg') hmanaged' hno'
      refine hrest (removeGroup g w) ?_ ?_ ?_ ?_ <;> unfold removeGroup <;> simp only <;> split <;>
        rename_i hrequest
      · exact .inr ((request_ok hrequest).2.1.trans (congrArg Prod.snd hdeleted))
      · exact (request_error hrequest).1.imp id (fun hrealm =>
          hrealm.trans (congrArg Prod.snd hdeleted))
      · exact (request_ok hrequest).2.2
      · exact fun hnil => ((request_error hrequest).2 hnil).2
      · rfl
      · rfl
      · exact fun _ => (request_ok hrequest).2.1.trans (congrArg Prod.snd hdeleted)
      · rintro (herror | hnil)
        · exact absurd herror (by simp [Turn.fails])
        · exact absurd ((congrArg Prod.fst hdeleted).symm.trans
            ((request_error hrequest).2 hnil).1) (by simp)
    · rename_i hcond
      simp only [Bool.and_eq_true, decide_eq_true_eq, not_and, not_not] at hcond
      exact .kept hcond (ih w hsound hnodup.2 (fun g' hg' => hseen g' (List.mem_cons_of_mem _ hg')))

theorem removeGroups_idle (declared : List String) (groups : List KcGroup) (w : Wire)
    (h : ∀ g ∈ groups, managed g.attributes = true → g.name ∈ declared) :
    removeGroups declared groups w = ([], w) := by
  induction groups with
  | nil => rfl
  | cons g groups ih =>
    unfold removeGroups
    rw [if_neg]
    · exact ih (fun g' hg' => h g' (List.mem_cons_of_mem _ hg'))
    · simp only [Bool.and_eq_true, decide_eq_true_eq, not_and, not_not]
      exact h g List.mem_cons_self

end

/-! ## a run -/

theorem derivedEntries_turns (generated : List DerivedGroup) : ∀ declared : List String,
    ((derivedEntries declared generated).filterMap Entry.turn).Nodup ∧
      ∀ n ∈ (derivedEntries declared generated).filterMap Entry.turn, n ∉ declared := by
  induction generated with
  | nil => exact fun _ => ⟨List.nodup_nil, fun _ hn => absurd hn List.not_mem_nil⟩
  | cons d ds ih =>
    intro declared
    unfold derivedEntries
    split
    · rw [List.filterMap_cons_none (turn_error rfl)]
      exact ih declared
    · rename_i hno
      rw [List.filterMap_cons_some (turn_ok rfl)]
      obtain ⟨hnodup, hfresh⟩ := ih (d.name :: declared)
      refine ⟨List.nodup_cons.2 ⟨fun hmem => hfresh _ hmem List.mem_cons_self, hnodup⟩, ?_⟩
      intro n hn
      rcases List.mem_cons.1 hn with rfl | hn
      · exact hno
      · exact fun hmem => hfresh n hn (List.mem_cons_of_mem _ hmem)

theorem manifestEntry_name (p : String × Except String (List String)) :
    (manifestEntry p).name = p.1 := by
  unfold manifestEntry
  split <;> rfl

theorem turn_name {e : Entry} {n : String} (h : e.turn = some n) : e.name = n := by
  unfold Entry.turn at h
  split at h
  · exact Option.some.inj h
  · exact absurd h (by simp)

theorem entries_turns (manifests : OrdMap String (Except String (List String)))
    (generated : List DerivedGroup) :
    ((entries manifests generated).filterMap Entry.turn).Nodup := by
  have hkeys : ∀ n ∈ (manifests.toList.map manifestEntry).filterMap Entry.turn,
      n ∈ manifests.keys := by
    intro n hn
    obtain ⟨e, he, hturn⟩ := List.mem_filterMap.1 hn
    obtain ⟨p, hp, rfl⟩ := List.mem_map.1 he
    rw [← turn_name hturn, manifestEntry_name]
    exact List.mem_map_of_mem hp
  have hnames : (manifests.toList.map manifestEntry).filterMap Entry.turn
      = ((manifests.toList.map manifestEntry).filter (fun e => e.turn.isSome)).map Entry.name := by
    induction manifests.toList.map manifestEntry with
    | nil => rfl
    | cons e es ih =>
      cases hturn : e.turn with
      | none => rw [List.filterMap_cons_none hturn, List.filter_cons_of_neg (by simp [hturn]), ih]
      | some n =>
        rw [List.filterMap_cons_some hturn, List.filter_cons_of_pos (by simp [hturn]),
          List.map_cons, turn_name hturn, ih]
  unfold entries
  rw [List.filterMap_append]
  refine List.nodup_append.2 ⟨?_, (derivedEntries_turns _ _).1, ?_⟩
  · rw [hnames]
    refine List.Nodup.sublist (List.filter_sublist.map Entry.name) ?_
    rw [List.map_map, show Entry.name ∘ manifestEntry = Prod.fst from funext manifestEntry_name]
    exact manifests.keys_nodup
  · rintro n hn m hm rfl
    exact (derivedEntries_turns _ _).2 n hm (hkeys n hn)

def listing (r : Realm) : List KcGroup :=
  (r.groups.toList.take pageSize).map (fun p => p.2.shown p.1)

section
variable {r : Realm} {g : KcGroup} {n : String} {h : Held}

theorem get?_of_listing (hg : g ∈ listing r) :
    ∃ h, r.groups.get? g.name = some h ∧ g = h.shown g.name := by
  obtain ⟨⟨n, h⟩, hp, rfl⟩ := List.mem_map.1 hg
  exact ⟨h, (OrdMap.mem_toList _ _ _).1 (List.mem_of_mem_take hp), rfl⟩

theorem listing_of_get? (hsize : r.groups.size ≤ pageSize) (hget : r.groups.get? n = some h) :
    h.shown n ∈ listing r := by
  unfold listing
  rw [List.take_of_length_le hsize]
  exact List.mem_map.2 ⟨(n, h), (OrdMap.mem_toList _ _ _).2 hget, rfl⟩

theorem listing_nodup (r : Realm) : ((listing r).map KcGroup.name).Nodup := by
  unfold listing
  rw [List.map_map]
  exact r.groups.keys_nodup.sublist ((List.take_sublist _ _).map _)

theorem seen_listing (r : Realm) (n : String) : Seen (listing r) r n := by
  intro g hfind
  have hname : g.name = n := by simpa using List.find?_some hfind
  subst hname
  exact get?_of_listing (List.mem_of_find?_eq_some hfind)

theorem complete_listing (hsize : r.groups.size ≤ pageSize) (n : String) :
    Complete (listing r) r n := by
  intro hfind
  cases hget : r.groups.get? n with
  | none => rfl
  | some h =>
    exact absurd (List.find?_eq_none.1 hfind _ (listing_of_get? hsize hget)) (by simp [Held.shown])

end

section
variable {manifests : OrdMap String (Except String (List String))} {generated : List DerivedGroup}
  {w : Wire}

/-- a run that fails leaves the realm alone and says so; the others take the turns and remove what
nothing declares -/
theorem convergeWith_cases (hsound : Sound w.realm) :
    ((convergeWith manifests generated w).wire.realm = w.realm ∧ w.faults ≠ [] ∧
      ∀ o ∈ (convergeWith manifests generated w).outcomes, o.error ≠ none) ∨
    ∃ done : List GroupOutcome × Wire, ∃ gone : List GroupOutcome × Wire, ∃ w₁ : Wire,
      w₁.realm = w.realm ∧ (w.faults = [] → w₁ = w) ∧
      done = convergeEntries (listing w.realm) (entries manifests generated) w₁ ∧
      gone = removeGroups ((entries manifests generated).map Entry.name) (listing w.realm) done.2 ∧
      (convergeWith manifests generated w).wire = gone.2 ∧
      (convergeWith manifests generated w).outcomes = done.1 ++ gone.1 ∧
      Passed (listing w.realm) (entries manifests generated) w₁ done ∧
      Removed ((entries manifests generated).map Entry.name) (listing w.realm) done.2 gone := by
  have htoken := request_reads (f := token) (fun _ => rfl) w
  unfold convergeWith
  split
  · rename_i e w' hrequest
    rw [hrequest] at htoken
    obtain ⟨-, hcalm⟩ := request_error hrequest
    refine .inl ⟨htoken, fun hnil => absurd (hcalm hnil).1 (by simp [token]), fun o ho => ?_⟩
    rw [List.mem_singleton.1 ho]
    simp
  · rename_i u w' hrequest
    rw [hrequest] at htoken
    have hlist := request_reads (f := listGroups) (fun _ => rfl) w'
    split
    · rename_i e w'' hrequest'
      rw [hrequest'] at hlist
      refine .inl ⟨hlist.trans htoken, fun hnil => ?_, fun o ho => ?_⟩
      · exact absurd ((request_error hrequest').2 ((request_ok hrequest).2.2 hnil)).1
          (by simp [listGroups])
      · rw [List.mem_singleton.1 ho]
        simp
    · rename_i existing w'' hrequest'
      rw [hrequest'] at hlist
      have hrealm : w''.realm = w.realm := hlist.trans htoken
      have hexisting : existing = listing w.realm := by
        have hanswer := Except.ok.inj (request_ok hrequest').1
        rw [← htoken]
        exact hanswer.symm
      have hcalm : w.faults = [] → w'' = w := by
        intro hnil
        have hnil'' := (request_ok hrequest').2.2 ((request_ok hrequest).2.2 hnil)
        cases w''
        cases w
        exact congr (congrArg Wire.mk hrealm) (hnil''.trans hnil.symm)
      subst hexisting
      have hpassed := convergeEntries_passed (listing w.realm) (entries manifests generated) w''
        (hrealm.symm ▸ hsound) (entries_turns _ _) (fun n _ => hrealm.symm ▸ seen_listing w.realm n)
      refine .inr ⟨_, _, w'', hrealm, hcalm, rfl, rfl, rfl, rfl, hpassed, ?_⟩
      refine removeGroups_removed _ _ _ hpassed.sound (listing_nodup _) ?_
      intro g hg _ hno
      rw [hpassed.others g.name, hrealm]
      · exact get?_of_listing hg
      · -- what is not declared has no turn
        intro hturn
        obtain ⟨e, he, hturn⟩ := List.mem_filterMap.1 hturn
        exact hno (List.mem_map.2 ⟨e, he, turn_name hturn⟩)

/-! ## the laws -/

/-- **What is not ours is kept**: whatever requests fail, a group that is not managed, and one whose
manifest cannot be read, is after the run what it was; so are the users. -/
theorem foreign_kept (hsound : Sound w.realm) :
    (convergeWith manifests generated w).wire.realm.users = w.realm.users ∧
    (∀ n h, w.realm.groups.get? n = some h → managed h.attributes = false →
      (convergeWith manifests generated w).wire.realm.groups.get? n = some h) ∧
    ∀ n ∈ (entries manifests generated).map Entry.name,
      n ∉ (entries manifests generated).filterMap Entry.turn →
      (convergeWith manifests generated w).wire.realm.groups.get? n = w.realm.groups.get? n := by
  rcases convergeWith_cases hsound with ⟨hrealm, -⟩ |
    ⟨done, gone, w₁, hw₁, -, -, -, hwire, -, hpassed, hremoved⟩
  · rw [hrealm]
    exact ⟨rfl, fun _ _ hget _ => hget, fun _ _ _ => rfl⟩
  · rw [hwire]
    refine ⟨by rw [hremoved.users, hpassed.users, hw₁], ?_, ?_⟩
    · intro n h hget hno
      have hdone := hpassed.unmanaged n h (hw₁ ▸ hget) hno
      rw [hremoved.others n, hdone]
      intro g hg hname hmanaged
      obtain ⟨k, hk, hg⟩ := get?_of_listing hg
      rw [hname, hget] at hk
      obtain rfl := Option.some.inj hk
      rw [hg] at hmanaged
      exact absurd (hno.symm.trans hmanaged) (by simp)
    · intro n hn hturn
      rw [hremoved.others n (fun _ _ _ _ => hn), hpassed.others n hturn, hw₁]

/-- **What is reported is so**: whatever requests fail, a group reported without an error is as it
was declared, or is gone because nothing declares it. -/
theorem reported_true (hsound : Sound w.realm)
    (hsmall : Small (entries manifests generated) w.realm) {o : GroupOutcome}
    (ho : o ∈ (convergeWith manifests generated w).outcomes) (herror : o.error = none) :
    (∃ e ∈ entries manifests generated, e.name = o.name ∧ ∃ wanted derived,
      e.what = .ok (wanted, derived) ∧
      Matches (convergeWith manifests generated w).wire.realm e.name wanted derived) ∨
    o.name ∉ (entries manifests generated).map Entry.name ∧
      (convergeWith manifests generated w).wire.realm.groups.get? o.name = none := by
  rcases convergeWith_cases hsound with ⟨-, -, hfailed⟩ |
    ⟨done, gone, w₁, hw₁, -, -, -, hwire, houtcomes, hpassed, hremoved⟩
  · exact absurd herror (hfailed o ho)
  · rw [houtcomes] at ho
    rw [hwire]
    rcases List.mem_append.1 ho with ho | ho
    · obtain ⟨e, he, hname, wanted, derived, hwhat, hmatches⟩ :=
        hpassed.told (hw₁ ▸ hsmall) o ho herror
      refine .inl ⟨e, he, hname, wanted, derived, hwhat, ?_⟩
      exact matches_congr (hremoved.others e.name (fun _ _ _ _ => List.mem_map_of_mem he))
        hremoved.users hmatches
    · exact .inr (hremoved.told o ho herror)

/-- a run whose requests are answered leaves no managed group that nothing declares -/
theorem declared_of_managed (hsound : Sound w.realm) (hnil : w.faults = [])
    (hsize : w.realm.groups.size ≤ pageSize) {n : String} {h : Held}
    (hget : (convergeWith manifests generated w).wire.realm.groups.get? n = some h)
    (hmanaged : managed h.attributes = true) :
    n ∈ (entries manifests generated).map Entry.name := by
  by_contra hno
  rcases @convergeWith_cases manifests generated _ hsound with
    ⟨-, hfaults, -⟩ | ⟨done, gone, w₁, hw₁, hcalm, -, -, hwire, -, hpassed, hremoved⟩
  · exact hfaults hnil
  · have hturn : n ∉ (entries manifests generated).filterMap Entry.turn := by
      intro hturn
      obtain ⟨e, he, hturn⟩ := List.mem_filterMap.1 hturn
      exact hno (List.mem_map.2 ⟨e, he, turn_name hturn⟩)
    have hdone : done.2.realm.groups.get? n = w.realm.groups.get? n := by
      rw [hpassed.others n hturn, hw₁]
    rw [hwire] at hget
    by_cases hlisted : ∃ k, w.realm.groups.get? n = some k ∧ managed k.attributes = true
    · obtain ⟨k, hk, hours⟩ := hlisted
      have hgone := hremoved.gone (hpassed.calm (hcalm hnil ▸ hnil)) _ (listing_of_get? hsize hk)
        hours hno
      exact absurd (hget.symm.trans hgone) (by simp)
    · rw [hremoved.others n, hdone] at hget
      · exact hlisted ⟨h, hget, hmanaged⟩
      · intro g hg hname hours
        obtain ⟨k, hk, hshown⟩ := get?_of_listing hg
        rw [hname] at hk
        rw [hshown] at hours
        exact absurd ⟨k, hk, hours⟩ hlisted

/-- **A run whose requests are answered converges**: the managed groups are declared ones, and each
declared group that the realm does not hold as somebody else's, and that names its members by id, is
as it was declared. -/
theorem converged (hsound : Sound w.realm) (hnil : w.faults = [])
    (hsize : w.realm.groups.size ≤ pageSize)
    (hsmall : Small (entries manifests generated) w.realm) :
    (∀ e ∈ entries manifests generated, ∀ wanted derived, e.what = .ok (wanted, derived) →
      (∀ h, w.realm.groups.get? e.name = some h → managed h.attributes = true) →
      (∀ m ∈ wanted, isPersonId m = true) →
      Matches (convergeWith manifests generated w).wire.realm e.name wanted derived) ∧
    ∀ n h, (convergeWith manifests generated w).wire.realm.groups.get? n = some h →
      managed h.attributes = true → n ∈ (entries manifests generated).map Entry.name := by
  refine ⟨?_, fun n h => declared_of_managed hsound hnil hsize⟩
  intro e he wanted derived hwhat hours hall
  rcases @convergeWith_cases manifests generated _ hsound with
    ⟨-, hfaults, -⟩ | ⟨done, gone, w₁, hw₁, hcalm, -, -, hwire, -, hpassed, hremoved⟩
  · exact absurd hnil hfaults
  · rw [hwire]
    have hmatches := hpassed.answered (hcalm hnil ▸ hnil) (hw₁ ▸ hsmall) e he wanted derived hwhat
      (hw₁ ▸ complete_listing hsize e.name) (hw₁ ▸ hours) hall
    exact matches_congr (hremoved.others e.name (fun _ _ _ _ => List.mem_map_of_mem he))
      hremoved.users hmatches

/-- **The next run finds nothing to do**, where the groups, their members and the wanted members fit
one page of the listings: after a run whose requests are answered, another one with the same
manifests reports no drift and changes nothing. -/
theorem next_run_quiet (hsound : Sound w.realm) (hnil : w.faults = [])
    (hsize : w.realm.groups.size ≤ pageSize) (hsmall : Small (entries manifests generated) w.realm)
    (hfits : ∀ e ∈ entries manifests generated, ∀ wanted derived,
      e.what = .ok (wanted, derived) → wanted.length ≤ pageSize) :
    (convergeWith manifests generated (convergeWith manifests generated w).wire).wire
      = (convergeWith manifests generated w).wire ∧
    ∀ o ∈ (convergeWith manifests generated (convergeWith manifests generated w).wire).outcomes,
      o.drift = [] := by
  have hdeclared : ∀ n h, (convergeWith manifests generated w).wire.realm.groups.get? n = some h →
      managed h.attributes = true → n ∈ (entries manifests generated).map Entry.name :=
    fun n h => declared_of_managed hsound hnil hsize
  generalize hw' : (convergeWith manifests generated w).wire = w' at hdeclared ⊢
  have hquiet : Sound w'.realm ∧ w'.faults = [] ∧ ∀ e ∈ entries manifests generated,
      ∀ wanted derived, e.what = .ok (wanted, derived) →
      Quiet w'.realm e.name wanted derived := by
    rcases @convergeWith_cases manifests generated _ hsound with
      ⟨-, hfaults, -⟩ | ⟨done, gone, w₁, hw₁, hcalm, -, -, hwire, -, hpassed, hremoved⟩
    · exact absurd hnil hfaults
    · rw [← hw', hwire]
      have hnil₁ : w₁.faults = [] := hcalm hnil ▸ hnil
      refine ⟨hremoved.sound, hremoved.calm (hpassed.calm hnil₁), ?_⟩
      intro e he wanted derived hwhat
      exact quiet_congr (hremoved.others e.name (fun _ _ _ _ => List.mem_map_of_mem he))
        hremoved.users (hpassed.quiet hnil₁ (hw₁ ▸ hsmall) e he wanted derived hwhat
          (hfits e he wanted derived hwhat) (hw₁ ▸ complete_listing hsize e.name))
  obtain ⟨hsound', hnil', hquiet⟩ := hquiet
  rcases @convergeWith_cases manifests generated _ hsound' with
    ⟨-, hfaults, -⟩ | ⟨done, gone, w₁, -, hcalm, hdone, hgone, hwire, houtcomes, -⟩
  · exact absurd hnil' hfaults
  · obtain rfl := hcalm hnil'
    obtain ⟨hidle, hdrift⟩ := convergeEntries_quiet (listing w₁.realm) (entries manifests generated)
      w₁ hsound' hnil' (fun n _ => seen_listing w₁.realm n) hquiet
    rw [← hdone] at hidle hdrift
    have hremoved : gone = ([], w₁) := by
      rw [hgone, hidle]
      refine removeGroups_idle _ _ _ ?_
      intro g hg hmanaged
      obtain ⟨h, hget, hshown⟩ := get?_of_listing hg
      rw [hshown] at hmanaged
      exact hdeclared g.name h hget hmanaged
    rw [hwire, houtcomes, hremoved]
    refine ⟨rfl, fun o ho => ?_⟩
    rw [List.append_nil] at ho
    exact hdrift o ho

end

/-! ## a realm with an administrators' group -/

def jana : String := "0a000000-0000-4000-8000-000000000001"

/-- one user, and the bootstrap administrators' group -/
def bootstrapped : Realm :=
  { (⟨OrdMap.empty, [jana], 0⟩ : Realm).put "admins" ⟨0, OrdMap.empty, []⟩ with next := 1 }

def leads : OrdMap String (Except String (List String)) :=
  OrdMap.empty.insert "leads" (.ok [jana])

theorem at_bootstrapped : At "admins" ⟨0, OrdMap.empty, []⟩ bootstrapped :=
  at_created (r := ⟨OrdMap.empty, [jana], 0⟩) ⟨fun _ _ hget => absurd hget (by simp),
    fun _ _ _ _ hget => absurd hget (by simp), fun _ _ hget => absurd hget (by simp),
    fun _ _ hget => absurd hget (by simp)⟩ OrdMap.empty

theorem small_leads : Small (entries leads []) bootstrapped := by
  intro n _ h hget
  unfold bootstrapped at hget
  rw [show ∀ (r : Realm) (k : Nat), ({ r with next := k } : Realm).groups = r.groups from
    fun _ _ => rfl, get?_put] at hget
  split at hget
  · rw [← Option.some.inj hget]
    exact Nat.zero_le _
  · exact absurd hget (by simp)

/-- the answer to the creation is lost -/
def interrupted : Wire := ⟨bootstrapped, [none, none, some ⟨true, "timeout"⟩]⟩

theorem foreign_kept_of_admins :
    (convergeWith leads [] interrupted).wire.realm.groups.get? "admins"
      = some ⟨0, OrdMap.empty, []⟩ :=
  (@foreign_kept leads [] interrupted at_bootstrapped.sound).2.1 "admins" _ at_bootstrapped.get (by decide)

/-- every request is answered: the group is created, and its member is in it -/
def answered : Wire := ⟨bootstrapped, []⟩

def leadsMembers : List String := OrdMap.keySet ([jana].map Text.trimmed)

theorem mem_entries_leads :
    (⟨"leads", .ok (leadsMembers, none)⟩ : Entry) ∈ entries leads [] := by
  refine List.mem_append_left _ (List.mem_map.2 ⟨("leads", .ok [jana]), ?_, rfl⟩)
  rw [OrdMap.mem_toList]
  exact OrdMap.get?_insert _ _ _ _

theorem reported_true_of_leads : (∃ e ∈ entries leads [], e.name = "leads" ∧ ∃ wanted derived,
      e.what = .ok (wanted, derived) ∧
      Matches (convergeWith leads [] answered).wire.realm e.name wanted derived) ∨
    "leads" ∉ (entries leads []).map Entry.name ∧
      (convergeWith leads [] answered).wire.realm.groups.get? "leads" = none := by
  have houtcomes : (convergeWith leads [] answered).outcomes.map (fun o => (o.name, o.error))
      = [("leads", none)] := by decide +kernel
  obtain ⟨o, ho, heq⟩ := List.mem_map.1 (houtcomes ▸ List.mem_singleton_self ("leads", none))
  obtain ⟨hname, hnone⟩ := Prod.mk.inj heq
  have hreported := reported_true (w := answered) at_bootstrapped.sound small_leads ho hnone
  rw [hname] at hreported
  exact hreported

theorem converged_of_leads :
    Matches (convergeWith leads [] answered).wire.realm "leads" leadsMembers none :=
  (converged (w := answered) at_bootstrapped.sound rfl (by decide) small_leads).1
    ⟨"leads", .ok (leadsMembers, none)⟩ mem_entries_leads leadsMembers none rfl
    (fun _ hget => absurd ((Option.isNone_iff_eq_none.1 (by decide) :
      bootstrapped.groups.get? "leads" = none).symm.trans hget) (by simp))
    (by decide +kernel)

theorem next_run_quiet_of_leads :
    (convergeWith leads [] (convergeWith leads [] answered).wire).wire
      = (convergeWith leads [] answered).wire ∧
    ∀ o ∈ (convergeWith leads [] (convergeWith leads [] answered).wire).outcomes, o.drift = [] := by
  refine next_run_quiet (w := answered) at_bootstrapped.sound rfl (by decide) small_leads ?_
  intro e he wanted derived hwhat
  obtain rfl := List.mem_singleton.1 he
  obtain ⟨rfl, -⟩ := Prod.mk.inj (Except.ok.inj hwhat)
  decide +kernel

end Groups
end Portal
