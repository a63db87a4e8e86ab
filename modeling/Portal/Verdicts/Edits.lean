import Portal.Verdicts.Checks

/-!
# Edits of a draft (`ops/drafts.rs`, `ops/proposals.rs`: `forget_check`, `propose_with_optional_draft`)

A client reads a draft with its version and saves over that version; a proposal reads the draft and
drops it once its Change is open, and the proposal of a manifest drops the draft its check made when
that draft reads as the manifest.  A version counts up within one life of a draft, from its first put
to the drop or sweep that ends it.

* `Room`, `step`    the drafts, what each client was given of them, and the drops that are due;
* `Settled`         a version given in the current life of a draft names what was put under it;
* `no_edit_lost`    **the law**, where saves name a version of the current life, and no other manifest
  is put between the read and the drop of a proposal.
-/

namespace Portal
namespace Verdicts
namespace Edits

/-- a draft as a client was given it, and the life of the draft that was in -/
structure Sighting where
  manifest : Json
  life : Nat

/-- a drop that is due once the proposal of `manifest` became a Change -/
structure Due where
  key : Key
  manifest : Json
  /-- the manifest put under the key last since the proposal read it -/
  since : Option Json

structure Room (δ : Type) where
  drafts : Drafts δ
  /-- how many drafts under each key have ended -/
  lives : Key → Nat
  /-- what each client was last given as each version -/
  given : String → Key → Int → Option Sighting
  due : Nat → Option Due

def opened (δ : Type) : Room δ := ⟨fun _ => none, fun _ => 0, fun _ _ _ => none, fun _ => none⟩

inductive Act (δ : Type) where
  | get (client : String) (key : Key)
  | put (client : String) (key : Key) (manifest : Json) (expected : Option Int) (touchedKind : String)
      (now : Int)
  | setVerdict (key : Key) (verdict : Verdict δ) (now : Int)
  | drop (key : Key)
  | sweep (cutoff : Int)
  /-- `propose_with_optional_draft` reads the draft it proposes -/
  | readDraft (id : Nat) (key : Key)
  /-- `forget_check` reads the draft under the manifest's own kind and name -/
  | readCheck (id : Nat) (project : String) (manifest : Json)
  /-- either of them drops it -/
  | dropProposed (id : Nat)

section
variable {δ : Type} (room : Room δ)

/-- the drafts end that are there no more -/
def ending (drafts : Drafts δ) : Room δ :=
  { room with
    drafts
    lives := fun key =>
      if (room.drafts key).isSome ∧ (drafts key).isNone then room.lives key + 1 else room.lives key }

def giving (client : String) (key : Key) (draft : Draft δ) : Room δ :=
  { room with
    given := fun c k v =>
      if c = client ∧ k = key ∧ v = draft.version then some ⟨draft.manifest, room.lives key⟩
      else room.given c k v }

/-- a put is noted by the drops that are due under its key -/
def noting (key : Key) (manifest : Json) : Room δ :=
  { room with
    due := fun id => (room.due id).map fun d =>
      if d.key = key then { d with since := some manifest } else d }

def awaiting (id : Nat) (due : Option Due) : Room δ :=
  { room with due := Function.update room.due id due }

variable [DecidableEq δ] (hash : Value → δ)

def step (room : Room δ) : Act δ → Option (Room δ)
  | .get client key =>
    match room.drafts key with
    | some draft => some (giving room client key draft)
    | none => some room
  | .put client key manifest expected touchedKind now =>
    match put room.drafts key manifest expected client touchedKind now with
    | .ok (draft, drafts) => some (giving (noting { room with drafts } key manifest) client key draft)
    | .error _ => some room
  | .setVerdict key verdict now =>
    match setVerdict room.drafts key verdict now with
    | .ok (_, drafts) => some { room with drafts }
    | .error _ => some room
  | .drop key => some (ending room (drop room.drafts key))
  | .sweep cutoff => some (ending room (sweep room.drafts cutoff))
  | .readDraft id key =>
    match room.due id, room.drafts key with
    | none, some draft => some (awaiting room id (some ⟨key, draft.manifest, none⟩))
    | _, _ => none
  | .readCheck id project manifest =>
    match room.due id, ownDraft manifest with
    | none, some own =>
      match room.drafts (own.key project) with
      | some draft =>
        if digestOf hash draft.manifest = digestOf hash manifest then
          some (awaiting room id (some ⟨own.key project, manifest, none⟩))
        else some room
      | none => some room
    | _, _ => none
  | .dropProposed id =>
    match room.due id with
    | some due => some (awaiting (ending room (drop room.drafts due.key)) id none)
    | none => none

end

/-! ## the law -/

section
variable {δ : Type}

abbrev Moment (δ : Type) := Trans (Room δ) (Act δ)

/-- **No edit is lost by the step**: a save over version `v` succeeds over what its client was given
as `v`, version zero for no draft, and a proposal drops only the manifest that was proposed. -/
structure Keeps (t : Moment δ) : Prop where
  saves : ∀ client key manifest v touchedKind now draft drafts,
    t.act = .put client key manifest (some v) touchedKind now →
    put t.before.drafts key manifest (some v) client touchedKind now = .ok (draft, drafts) →
    (v = 0 ∧ t.before.drafts key = none) ∨
      ∃ found seen, t.before.drafts key = some found ∧ t.before.given client key v = some seen ∧
        seen.manifest = found.manifest
  drops : ∀ id due, t.act = .dropProposed id → t.before.due id = some due →
    ∀ found, t.before.drafts due.key = some found → found.manifest.Same due.manifest

/-- a save over a version that is there names one its client was given in this life of the draft,
and where a proposal finds a draft to drop, no other manifest was put last since it read it -/
structure Fresh (t : Moment δ) : Prop where
  saves : ∀ client key manifest v touchedKind now,
    t.act = .put client key manifest (some v) touchedKind now → v ≠ 0 →
    currentVersion t.before.drafts key = v →
    ∃ seen, t.before.given client key v = some seen ∧ seen.life = t.before.lives key
  drops : ∀ id due, t.act = .dropProposed id → t.before.due id = some due →
    (t.before.drafts due.key).isSome → ∀ m, due.since = some m → m.Same due.manifest

instance (t : Moment δ) : Decidable (Fresh t) :=
  match hact : t.act with
  | .put client key _ (some v) _ _ =>
    decidable_of_iff (v ≠ 0 → currentVersion t.before.drafts key = v →
        ∃ seen ∈ t.before.given client key v, seen.life = t.before.lives key)
      ⟨fun h => ⟨fun c k m v' kind now he => by cases hact.symm.trans he; exact h,
          fun id due he => by cases hact.symm.trans he⟩,
        fun h => h.saves _ _ _ _ _ _ hact⟩
  | .dropProposed id =>
    decidable_of_iff (∀ due ∈ t.before.due id, (t.before.drafts due.key).isSome →
        ∀ m ∈ due.since, m.Same due.manifest)
      ⟨fun h => ⟨fun c k m v' kind now he => (by cases hact.symm.trans he),
          fun id' due he hdue => by cases hact.symm.trans he; exact h due hdue⟩,
        fun h due hdue => h.drops id due hact hdue⟩
  | .put _ _ _ none _ _ | .get .. | .setVerdict .. | .drop .. | .sweep .. | .readDraft .. |
    .readCheck .. =>
    isTrue ⟨fun _ _ _ _ _ _ he => (by cases hact.symm.trans he),
      fun _ _ he => by cases hact.symm.trans he⟩

/-- **The invariant.** -/
structure Settled (room : Room δ) : Prop where
  /-- a draft has a version from one on -/
  versions : ∀ key draft, room.drafts key = some draft → 1 ≤ draft.version
  /-- what was given in this life was of no later version, and reads so if of this version -/
  given : ∀ client key v seen, room.given client key v = some seen → seen.life ≤ room.lives key ∧
    (seen.life = room.lives key → ∃ draft, room.drafts key = some draft ∧ v ≤ draft.version ∧
      (v = draft.version → seen.manifest = draft.manifest))
  /-- a draft a proposal is to drop reads as it was read, or as it was put last -/
  due : ∀ id due, room.due id = some due → ∀ draft, room.drafts due.key = some draft →
    match due.since with
    | none => draft.manifest.Same due.manifest
    | some m => draft.manifest = m

theorem settled_opened : Settled (opened δ) where
  versions key draft h := by simp [opened] at h
  given client key v seen h := by simp [opened] at h
  due id due h := by simp [opened] at h

theorem Settled.awaiting {room : Room δ} (hs : Settled room) (id : Nat) {due : Option Due}
    (hdue : ∀ d, due = some d → d.since = none ∧
      ∀ draft, room.drafts d.key = some draft → draft.manifest.Same d.manifest) :
    Settled (awaiting room id due) where
  versions := hs.versions
  given := hs.given
  due id' d hd draft hdraft := by
    by_cases hid : id' = id
    · subst hid
      obtain ⟨hnone, hsame⟩ := hdue d (by simpa [Edits.awaiting] using hd)
      rw [hnone]
      exact hsame draft hdraft
    · exact hs.due id' d (by simpa [Edits.awaiting, hid] using hd) draft hdraft

theorem Settled.ending {room : Room δ} (hs : Settled room) {drafts : Drafts δ}
    (hkept : ∀ key draft, drafts key = some draft → room.drafts key = some draft) :
    Settled (ending room drafts) where
  versions key draft h := hs.versions key draft (hkept key draft h)
  given client key v seen h := by
    obtain ⟨hle, hcurrent⟩ := hs.given client key v seen h
    simp only [Edits.ending]
    split
    · rename_i hends
      exact ⟨by omega, fun heq => absurd heq (by omega)⟩
    · rename_i hstays
      refine ⟨hle, fun heq => ?_⟩
      obtain ⟨draft, hdraft, hversion⟩ := hcurrent heq
      cases hafter : drafts key with
      | none => exact absurd ⟨by rw [hdraft]; rfl, by rw [hafter]; rfl⟩ hstays
      | some draft' =>
        have hsame : draft' = draft := Option.some.inj ((hkept key draft' hafter).symm.trans hdraft)
        exact ⟨draft, congrArg some hsame, hversion⟩
  due id d hd draft hdraft := hs.due id d hd draft (hkept d.key draft hdraft)

theorem settled_get {room : Room δ} (hs : Settled room) {client : String} {key : Key}
    {draft : Draft δ} (hdraft : room.drafts key = some draft) :
    Settled (giving room client key draft) where
  versions := hs.versions
  given c k v seen h := by
    simp only [giving] at h
    split at h
    · rename_i hsame
      obtain ⟨-, rfl, rfl⟩ := hsame
      obtain rfl := Option.some.inj h
      exact ⟨le_rfl, fun _ => ⟨draft, hdraft, le_rfl, fun _ => rfl⟩⟩
    · exact hs.given c k v seen h
  due := hs.due

theorem currentVersion_of_some {s : Drafts δ} {key : Key} {draft : Draft δ}
    (h : s key = some draft) : currentVersion s key = draft.version := by
  rw [currentVersion, h]
  rfl

theorem currentVersion_of_none {s : Drafts δ} {key : Key} (h : s key = none) :
    currentVersion s key = 0 := by
  rw [currentVersion, h]
  rfl

/-- a put raises the version over all that was given, and is given and noted itself -/
theorem settled_put {room : Room δ} (hs : Settled room) {client : String} {key : Key}
    {manifest : Json} {expected : Option Int} {touchedKind : String} {now : Int} {draft : Draft δ}
    {drafts : Drafts δ}
    (hput : put room.drafts key manifest expected client touchedKind now = .ok (draft, drafts)) :
    Settled (giving (noting { room with drafts } key manifest) client key draft) := by
  obtain ⟨-, hmanifest, -, hversion, rfl⟩ := put_cases hput
  have hcurrent : 0 ≤ currentVersion room.drafts key := by
    cases hfound : room.drafts key with
    | none => rw [currentVersion_of_none hfound]
    | some found =>
      have hone := hs.versions key found hfound
      rw [currentVersion_of_some hfound]
      omega
  refine ⟨fun k d hd => ?_, fun c k v seen hseen => ?_, fun id d hd found hfound => ?_⟩
  · by_cases hk : k = key
    · subst hk
      have hd' : draft = d := by simpa [giving, noting] using hd
      rw [← hd', hversion]
      omega
    · exact hs.versions k d (by simpa [giving, noting, hk] using hd)
  · simp only [giving, noting] at hseen ⊢
    split at hseen
    · rename_i hsame
      obtain ⟨-, rfl, rfl⟩ := hsame
      obtain rfl := Option.some.inj hseen
      exact ⟨le_rfl, fun _ => ⟨draft, Function.update_self .., le_rfl, fun _ => rfl⟩⟩
    · obtain ⟨hle, hlive⟩ := hs.given c k v seen hseen
      refine ⟨hle, fun heq => ?_⟩
      obtain ⟨d, hd, hv, hsame⟩ := hlive heq
      by_cases hk : k = key
      · subst hk
        rw [currentVersion_of_some hd] at hversion
        exact ⟨draft, Function.update_self .., by omega, fun hv' => absurd hv' (by omega)⟩
      · exact ⟨d, by rw [Function.update_of_ne hk]; exact hd, hv, hsame⟩
  · simp only [giving, noting] at hd hfound
    obtain ⟨d', hd', rfl⟩ := Option.map_eq_some_iff.mp hd
    by_cases hk : d'.key = key
    · rw [if_pos hk] at hfound ⊢
      have hsame : draft = found := by simpa [hk] using hfound
      exact hsame ▸ hmanifest
    · rw [if_neg hk] at hfound ⊢
      rw [Function.update_of_ne hk] at hfound
      exact hs.due id d' hd' found hfound

theorem settled_setVerdict {room : Room δ} (hs : Settled room) {key : Key} {verdict : Verdict δ}
    {now : Int} {draft : Draft δ} {drafts : Drafts δ}
    (hset : setVerdict room.drafts key verdict now = .ok (draft, drafts)) :
    Settled { room with drafts } := by
  obtain ⟨found, hfound, hmanifest, hversion, -, rfl⟩ := setVerdict_cases hset
  -- a draft and the one in its place differ in their verdicts alone
  have hlike : ∀ k d, Function.update room.drafts key (some draft) k = some d →
      ∃ d', room.drafts k = some d' ∧ d.manifest = d'.manifest ∧ d.version = d'.version := by
    intro k d hd
    by_cases hk : k = key
    · subst hk
      have hsame : draft = d := by simpa using hd
      exact ⟨found, hfound, hsame ▸ hmanifest, hsame ▸ hversion⟩
    · exact ⟨d, by rwa [Function.update_of_ne hk] at hd, rfl, rfl⟩
  refine ⟨fun k d hd => ?_, fun c k v seen hseen => ?_, fun id d hd d' hd' => ?_⟩
  · obtain ⟨d', hd', -, hv⟩ := hlike k d hd
    exact hv ▸ hs.versions k d' hd'
  · obtain ⟨hle, hlive⟩ := hs.given c k v seen hseen
    refine ⟨hle, fun heq => ?_⟩
    obtain ⟨d, hd, hv, hsame⟩ := hlive heq
    by_cases hk : k = key
    · subst hk
      obtain rfl := Option.some.inj (hfound.symm.trans hd)
      exact ⟨draft, Function.update_self .., hversion ▸ hv,
        fun h => (hsame (h.trans hversion)).trans hmanifest.symm⟩
    · exact ⟨d, (Function.update_of_ne hk ..).trans hd, hv, hsame⟩
  · obtain ⟨d'', hd'', hm, -⟩ := hlike d.key d' hd'
    rw [hm]
    exact hs.due id d hd d'' hd''

theorem drop_kept {s : Drafts δ} {key k : Key} {draft : Draft δ} (h : drop s key k = some draft) :
    s k = some draft := by
  by_cases hk : k = key
  · subst hk
    simp [drop] at h
  · simpa [drop, hk] using h

theorem sweep_kept {s : Drafts δ} {cutoff : Int} {k : Key} {draft : Draft δ}
    (h : sweep s cutoff k = some draft) : s k = some draft :=
  (Option.filter_eq_some_iff.mp h).1

theorem keeps_of_settled {t : Moment δ} (hs : Settled t.before) (hf : Fresh t) : Keeps t where
  saves client key manifest v touchedKind now draft drafts hact hput := by
    have hv : v = currentVersion t.before.drafts key := (put_cases hput).1 v rfl
    by_cases hzero : v = 0
    · refine Or.inl ⟨hzero, ?_⟩
      cases hfound : t.before.drafts key with
      | none => rfl
      | some found =>
        have hone := hs.versions key found hfound
        rw [currentVersion_of_some hfound] at hv
        omega
    · obtain ⟨seen, hseen, hlife⟩ := hf.saves client key manifest v touchedKind now hact hzero hv.symm
      obtain ⟨found, hfound, -, hsame⟩ := (hs.given client key v seen hseen).2 hlife
      rw [currentVersion_of_some hfound] at hv
      exact Or.inr ⟨found, seen, hfound, hseen, hsame hv⟩
  drops id due hact hdue found hfound := by
    have hreads := hs.due id due hdue found hfound
    cases hsince : due.since with
    | none => simpa [hsince] using hreads
    | some m =>
      rw [hsince] at hreads
      rw [hreads]
      exact hf.drops id due hact hdue (by rw [hfound]; rfl) m hsince

variable [DecidableEq δ] {hash : Value → δ}

theorem settled_step (hhash : Function.Injective hash) {room room' : Room δ} {act : Act δ}
    (h : step hash room act = some room') (hs : Settled room) : Settled room' := by
  cases act with
  | get client key =>
    simp only [step] at h
    split at h
    · rename_i draft hdraft
      exact Option.some.inj h ▸ settled_get hs hdraft
    · exact Option.some.inj h ▸ hs
  | put client key manifest expected touchedKind now =>
    simp only [step] at h
    split at h
    · rename_i draft drafts hput
      exact Option.some.inj h ▸ settled_put hs hput
    · exact Option.some.inj h ▸ hs
  | setVerdict key verdict now =>
    simp only [step] at h
    split at h
    · rename_i draft drafts hset
      exact Option.some.inj h ▸ settled_setVerdict hs hset
    · exact Option.some.inj h ▸ hs
  | drop key => exact Option.some.inj h ▸ hs.ending (fun _ _ => drop_kept)
  | sweep cutoff => exact Option.some.inj h ▸ hs.ending (fun _ _ => sweep_kept)
  | readDraft id key =>
    simp only [step] at h
    split at h
    · rename_i draft hdue hdraft
      refine Option.some.inj h ▸ hs.awaiting id (fun d hd => ?_)
      obtain rfl := Option.some.inj hd
      refine ⟨rfl, fun found hfound => ?_⟩
      obtain rfl := Option.some.inj (hdraft.symm.trans hfound)
      exact Json.Same.refl _
    · cases h
  | readCheck id project manifest =>
    simp only [step] at h
    split at h
    · rename_i own hdue hown
      split at h
      · rename_i draft hdraft
        split at h
        · rename_i hdigest
          refine Option.some.inj h ▸ hs.awaiting id (fun d hd => ?_)
          obtain rfl := Option.some.inj hd
          refine ⟨rfl, fun found hfound => ?_⟩
          obtain rfl := Option.some.inj (hdraft.symm.trans hfound)
          exact (digestOf_inj hhash _ _).mp hdigest
        · exact Option.some.inj h ▸ hs
      · exact Option.some.inj h ▸ hs
    · cases h
  | dropProposed id =>
    simp only [step] at h
    split at h
    · rename_i due hdue
      exact Option.some.inj h ▸
        (hs.ending (fun _ _ => drop_kept)).awaiting id (fun d hd => nomatch hd)
    · cases h

/-- **No draft edit is lost** in any run whose saves name versions of the current life of their
draft, and in which no other manifest is put last between the read and the drop of a proposal. -/
theorem no_edit_lost (hhash : Function.Injective hash) {tr : List (Moment δ)} {room : Room δ}
    (hr : Run (step hash) (opened δ) tr room) (hfresh : ∀ t ∈ tr, Fresh t) : ∀ t ∈ tr, Keeps t := by
  intro t ht
  obtain ⟨a, b, rfl⟩ := List.append_of_mem ht
  have hbefore : Run (step hash) (opened δ) a t.before := hr.at.1
  have hs : Settled t.before :=
    hbefore.invariant (C := fun _ => True) settled_opened
      (fun _ _ _ h _ hI => settled_step hhash h hI) (fun _ _ => trivial)
  exact keeps_of_settled hs (hfresh t ht)

end
/-! ### a draft that begins again -/

/-- an Endpoint `bikes` as a form holds it -/
def bikes (title : String) : Json where
  value := .object [("kind", .string "Endpoint"), ("metadata", .object [("name", .string "bikes")]),
    ("title", .string title)]
  distinct := by simp [Value.All, Value.AllFields]

def bikesKey : Key := ⟨"", "helsinki", "Endpoint", "bikes"⟩

/-- jana saves the draft, reads it back, saves over what she read, and proposes it -/
def editedActs : List (Act Value) :=
  [.put "jana" bikesKey (bikes "Bikes") none "person" 1, .get "jana" bikesKey,
    .put "jana" bikesKey (bikes "City bikes") (some 1) "person" 2, .readDraft 1 bikesKey,
    .dropProposed 1]

def editedTrace : List (Moment Value) := trace (step id) (opened Value) editedActs

theorem no_edit_lost_of_edited :
    editedTrace.length = 5 ∧ (∀ t ∈ editedTrace, Fresh t) ∧ ∀ t ∈ editedTrace, Keeps t := by
  have hruns : (exec (step id) (opened Value) editedActs).isSome ∧ editedTrace.length = 5 ∧
      ∀ t ∈ editedTrace, Fresh t := by
    decide +kernel
  obtain ⟨hsome, hlength, hfresh⟩ := hruns
  exact ⟨hlength, hfresh, no_edit_lost Function.injective_id (run_trace hsome) hfresh⟩

/-- jana reads version one; petra discards the draft and starts over; jana saves over version one -/
def startedOverActs : List (Act Value) :=
  [.put "jana" bikesKey (bikes "Bikes") none "person" 1, .drop bikesKey,
    .put "petra" bikesKey (bikes "City bikes") none "person" 2,
    .put "jana" bikesKey (bikes "Bikes to rent") (some 1) "person" 3]

/-- **An edit is lost**: the version jana read names another draft by now. -/
theorem edit_lost :
    ¬ ∀ tr room, Run (step id) (opened Value) tr room → ∀ t ∈ tr, Keeps t := by
  intro hall
  have hsome : (exec (step id) (opened Value) startedOverActs).isSome := by decide +kernel
  obtain ⟨t, ht, hact, hput, hfound, hgiven⟩ :
      ∃ t ∈ trace (step id) (opened Value) startedOverActs,
        t.act = .put "jana" bikesKey (bikes "Bikes to rent") (some 1) "person" 3 ∧
        (put t.before.drafts bikesKey (bikes "Bikes to rent") (some 1) "jana" "person" 3).isOk ∧
        (t.before.drafts bikesKey).map Draft.manifest = some (bikes "City bikes") ∧
        (t.before.given "jana" bikesKey 1).map Sighting.manifest = some (bikes "Bikes") := by
    refine ⟨(trace (step id) (opened Value) startedOverActs).get ⟨3, by decide +kernel⟩,
      List.get_mem .., ?_⟩
    exact ⟨rfl, by decide +kernel, by decide +kernel, by decide +kernel⟩
  cases hput' : put t.before.drafts bikesKey (bikes "Bikes to rent") (some 1) "jana" "person" 3 with
  | error e => rw [hput'] at hput; cases hput
  | ok saved =>
    have hkeeps := (hall _ _ (run_trace hsome) t ht).saves "jana" bikesKey (bikes "Bikes to rent") 1
      "person" 3 saved.1 saved.2 hact hput'
    rcases hkeeps with ⟨hzero, -⟩ | ⟨found, seen, hf, hg, hsame⟩
    · cases hzero
    · rw [hf] at hfound
      rw [hg] at hgiven
      have hdiffer : bikes "Bikes" ≠ bikes "City bikes" := by decide +kernel
      exact hdiffer ((Option.some.inj hgiven).symm.trans (hsame.trans (Option.some.inj hfound)))

end Edits
end Verdicts
end Portal
