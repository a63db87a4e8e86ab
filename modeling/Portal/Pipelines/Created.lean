import Portal.Pipelines.Log

/-!
# What a run's records did (`pipeline_log.rs`: `LogStore::record_changes`)

Each record is compared with the last one of its id.  Its id is cut and masked before it is looked up,
and its hash is cut, so two ids may be one key and two hashes one hash.

* `kindOf`, `kinds`          what a record does, by all the records before it;
* `tally_eq`                 the loop over a report tells the kinds of the cleaned records;
* `Exact`, `Clear`           every report is told apart by entity; no id and no hash is taken for another;
* `exact_iff`                **the one is the other**.
-/

namespace Portal

namespace Pipelines

/-! ## what a record does -/

inductive Kind where
  | created
  | updated
  | unchanged
deriving DecidableEq

/-- the hash of the latest record of an id -/
def latest (past : List (String × String)) (id : String) : Option String := past.reverse.lookup id

def kindOf (past : List (String × String)) (w : String × String) : Kind :=
  match latest past w.1 with
  | none => .created
  | some before => if before = w.2 then .unchanged else .updated

/-- what each record does, after those in `past` and the ones before it -/
def kinds : List (String × String) → List (String × String) → List Kind
  | _, [] => []
  | past, w :: ws => kindOf past w :: kinds (past ++ [w]) ws

def Changes.of (l : List Kind) : Changes := ⟨l.count .created, l.count .updated, l.count .unchanged⟩

theorem latest_snoc (past : List (String × String)) (w : String × String) (id : String) :
    latest (past ++ [w]) id = if id = w.1 then some w.2 else latest past id := by
  obtain ⟨id', hash⟩ := w
  rw [latest, List.reverse_append, List.reverse_singleton, List.singleton_append, List.lookup_cons]
  by_cases h : id = id'
  · rw [if_pos h, h, beq_self_eq_true]
  · rw [if_neg h, beq_false_of_ne h, latest]

theorem latest_eq_none {past : List (String × String)} {id : String} :
    latest past id = none ↔ ∀ w ∈ past, w.1 ≠ id := by
  rw [latest, List.lookup_eq_none_iff]
  simp only [List.mem_reverse, bne_iff_ne]
  exact ⟨fun h w hw heq => h w hw heq.symm, fun h w hw heq => h w hw heq.symm⟩

theorem kindOf_created {past : List (String × String)} {w : String × String} :
    kindOf past w = .created ↔ ∀ v ∈ past, v.1 ≠ w.1 := by
  rw [← latest_eq_none]
  unfold kindOf
  cases latest past w.1 with
  | none => exact ⟨fun _ => rfl, fun _ => rfl⟩
  | some before =>
    dsimp only
    split <;> exact ⟨fun h => (nomatch h), fun h => (nomatch h)⟩

def steps : List (String × String) → List (String × String) →
    List (List (String × String) × (String × String))
  | _, [] => []
  | past, w :: ws => (past, w) :: steps (past ++ [w]) ws

theorem kinds_eq (past ws : List (String × String)) :
    kinds past ws = (steps past ws).map (fun s => kindOf s.1 s.2) := by
  induction ws generalizing past with
  | nil => rfl
  | cons w ws ih => rw [kinds, steps, List.map_cons, ih]

theorem mem_steps {past ws p : List (String × String)} {w : String × String} :
    (p, w) ∈ steps past ws ↔ ∃ a b, ws = a ++ w :: b ∧ p = past ++ a := by
  induction ws generalizing past with
  | nil => simp [steps]
  | cons v ws ih =>
    rw [steps, List.mem_cons, ih]
    constructor
    · rintro (h | ⟨a, b, rfl, rfl⟩)
      · obtain ⟨rfl, rfl⟩ := Prod.mk.inj h
        exact ⟨[], ws, rfl, (List.append_nil _).symm⟩
      · exact ⟨v :: a, b, rfl, by rw [List.append_assoc]; rfl⟩
    · rintro ⟨a, b, h, rfl⟩
      cases a with
      | nil =>
        obtain ⟨rfl, rfl⟩ := List.cons.inj h
        exact Or.inl (by rw [List.append_nil])
      | cons u a =>
        obtain ⟨rfl, rfl⟩ := List.cons.inj h
        exact Or.inr ⟨a, b, rfl, by rw [List.append_assoc]; rfl⟩

theorem all_of_count {α : Type*} {f g : α → Kind} {k : Kind} {l : List α}
    (himp : ∀ x ∈ l, f x = k → g x = k) (hc : (l.map f).count k = (l.map g).count k) :
    ∀ x ∈ l, g x = k → f x = k := by
  induction l with
  | nil => exact fun x hx => absurd hx List.not_mem_nil
  | cons y l ih =>
    have htail : ∀ x ∈ l, f x = k → g x = k := fun x hx => himp x (List.mem_cons_of_mem y hx)
    have hle : (l.map f).count k ≤ (l.map g).count k := by
      rw [List.count_eq_countP, List.count_eq_countP, List.countP_map, List.countP_map]
      refine List.countP_mono_left (fun x hx h => ?_)
      rw [Function.comp_apply, beq_iff_eq] at h ⊢
      exact htail x hx h
    rw [List.map_cons, List.map_cons, List.count_cons, List.count_cons] at hc
    have hhead : g y = k → f y = k := by
      intro hg
      by_contra hf
      simp only [hg, beq_self_eq_true, if_true, beq_false_of_ne hf, Bool.false_eq_true, if_false] at hc
      omega
    have hsame : (l.map f).count k = (l.map g).count k := by
      by_cases hg : g y = k
      · simp only [hg, hhead hg] at hc
        omega
      · have hf : f y ≠ k := fun h => hg (himp y (List.mem_cons_self ..) h)
        simp only [beq_false_of_ne hg, beq_false_of_ne hf] at hc
        exact hc
    intro x hx
    rcases List.mem_cons.1 hx with rfl | hx
    · exact hhead
    · exact ih htail hsame x hx

/-! ## the loop over a report -/

/-- the table holds the latest hash of every id -/
def Known (known : OrdMap String String) (past : List (String × String)) : Prop :=
  ∀ id, known.get? id = latest past id

/-- the counts with those of some kinds added -/
def Changes.plus (c : Changes) (l : List Kind) : Changes :=
  ⟨c.created + l.count .created, c.updated + l.count .updated, c.unchanged + l.count .unchanged⟩

theorem tallyOne_eq {known : OrdMap String String} {past : List (String × String)}
    (hk : Known known past) (c : Changes) (w : String × String) :
    Known (tallyOne (known, c) w).1 (past ++ [w]) ∧
      (tallyOne (known, c) w).2 = c.plus [kindOf past w] := by
  constructor
  · intro id
    rw [latest_snoc]
    show (known.insert w.1 w.2).get? id = _
    rw [OrdMap.get?_insert, hk]
  · unfold tallyOne kindOf
    dsimp only
    rw [hk w.1]
    cases latest past w.1 with
    | none => rfl
    | some before =>
      dsimp only
      split <;> rfl

theorem plus_cons (c : Changes) (k : Kind) (l : List Kind) :
    (c.plus [k]).plus l = c.plus (k :: l) := by
  simp only [Changes.plus, List.count_cons, List.count_nil]
  congr 1 <;> omega

theorem foldl_tallyOne {known : OrdMap String String} {past : List (String × String)}
    (hk : Known known past) (c : Changes) (ws : List (String × String)) :
    Known (ws.foldl tallyOne (known, c)).1 (past ++ ws) ∧
      (ws.foldl tallyOne (known, c)).2 = c.plus (kinds past ws) := by
  induction ws generalizing known past c with
  | nil =>
    rw [List.append_nil]
    exact ⟨hk, by simp [kinds, Changes.plus]⟩
  | cons w ws ih =>
    obtain ⟨hk', hc⟩ := tallyOne_eq hk c w
    obtain ⟨h1, h2⟩ := ih hk' (tallyOne (known, c) w).2
    rw [List.append_assoc, List.singleton_append] at h1
    rw [List.foldl_cons, kinds, ← plus_cons, ← hc]
    exact ⟨h1, h2⟩

/-- **Step**: a report is told by the kinds of its cleaned records. -/
theorem tally_eq {known : OrdMap String String} {past : List (String × String)}
    (hk : Known known past) (ws : List (String × String)) :
    Known (tally known ws).1 (past ++ ws) ∧ (tally known ws).2 = Changes.of (kinds past ws) := by
  obtain ⟨h1, h2⟩ := foldl_tallyOne hk ⟨0, 0, 0⟩ ws
  refine ⟨h1, h2.trans ?_⟩
  simp only [Changes.plus, Changes.of, Nat.zero_add]

/-! ## histories -/

/-- the records of a report that have an id -/
def named (written : List (String × String)) : List (String × String) :=
  written.filter (fun w => w.1 ≠ "")

def cleaned (w : String × String) : String × String := (clean w.1, cutHash w.2)

/-- the records of all reports, oldest first -/
def entries (h : List Event) : List (String × String) :=
  h.flatMap (fun e => match e with
    | .changes _ written => named written
    | _ => [])

theorem compared_eq (written : List (String × String)) :
    compared written = (named written).map cleaned := rfl

theorem entries_append (h₁ h₂ : List Event) : entries (h₁ ++ h₂) = entries h₁ ++ entries h₂ :=
  List.flatMap_append

/-- **Run**: the table holds the latest hash of every cleaned id. -/
theorem replay_known (h : List Event) : Known (replay h).hashes ((entries h).map cleaned) := by
  induction h using List.reverseRecOn with
  | nil => exact fun _ => rfl
  | append_singleton h e ih =>
    rw [replay_snoc, entries_append, List.map_append]
    cases e with
    | append now run lines =>
      show Known (replay h).hashes (_ ++ [])
      rw [List.append_nil]
      exact ih
    | changes run written =>
      have hone : entries [.changes run written] = named written := List.append_nil _
      rw [hone, ← compared_eq]
      exact (tally_eq ih (compared written)).1
    | stream run stream =>
      have hsame : ((replay h).take (.stream run stream)).hashes = (replay h).hashes := by
        show ((replay h).ranStream run stream).hashes = _
        unfold Memory.ranStream
        split <;> rfl
      show Known _ (_ ++ [])
      rw [hsame, List.append_nil]
      exact ih

theorem recordChanges_eq (h : List Event) (run : String) (written : List (String × String)) :
    ((replay h).recordChanges run written).2
      = Changes.of (kinds ((entries h).map cleaned) ((named written).map cleaned)) :=
  (tally_eq (replay_known h) (compared written)).2

/-- every report is told apart by entity -/
def Exact (h : List Event) : Prop :=
  ∀ a run written b, h = a ++ .changes run written :: b →
    ((replay a).recordChanges run written).2 = Changes.of (kinds (entries a) (named written))

def Clear (es : List (String × String)) : Prop :=
  (∀ v ∈ es, ∀ w ∈ es, clean v.1 = clean w.1 → v.1 = w.1) ∧
    ∀ a w b before, es = a ++ w :: b → latest a w.1 = some before →
      cutHash before = cutHash w.2 → before = w.2

/-! ## one is the other -/

theorem kinds_cleaned (past ws : List (String × String)) :
    kinds (past.map cleaned) (ws.map cleaned)
      = (steps past ws).map (fun s => kindOf (s.1.map cleaned) (cleaned s.2)) := by
  induction ws generalizing past with
  | nil => rfl
  | cons w ws ih =>
    have h := ih (past ++ [w])
    rw [List.map_append, List.map_singleton] at h
    rw [List.map_cons, kinds, steps, List.map_cons, h]

theorem entries_cons (e : Event) (h : List Event) : entries (e :: h) = entries [e] ++ entries h :=
  entries_append [e] h

theorem entries_report (h₁ h₂ : List Event) (run : String) (written : List (String × String)) :
    entries (h₁ ++ .changes run written :: h₂) = entries h₁ ++ (named written ++ entries h₂) := by
  rw [entries_append, entries_cons]
  exact congrArg (fun l => entries h₁ ++ (l ++ entries h₂)) (List.append_nil _)

theorem split_entries {h : List Event} {a b : List (String × String)} {w : String × String}
    (heq : entries h = a ++ w :: b) : ∃ h₁ run written h₂ a' b',
      h = h₁ ++ .changes run written :: h₂ ∧ named written = a' ++ w :: b' ∧ a = entries h₁ ++ a' := by
  induction h generalizing a with
  | nil => exact absurd heq (by simp [entries])
  | cons e h ih =>
    -- the record is one of a later report
    have later : ∀ a₁, a = entries [e] ++ a₁ → entries h = a₁ ++ w :: b → ∃ h₁ run written h₂ a' b',
        e :: h = h₁ ++ .changes run written :: h₂ ∧ named written = a' ++ w :: b' ∧
          a = entries h₁ ++ a' := by
      intro a₁ ha hrest
      obtain ⟨h₁, run, written, h₂, a', b', rfl, hw, rfl⟩ := ih hrest
      refine ⟨e :: h₁, run, written, h₂, a', b', rfl, hw, ?_⟩
      rw [ha, entries_cons e h₁, List.append_assoc]
    rw [entries_cons] at heq
    rcases List.append_eq_append_iff.1 heq with ⟨a₁, ha, hrest⟩ | ⟨c, hc, hrest⟩
    · exact later a₁ ha hrest
    · cases c with
      | nil =>
        rw [List.append_nil] at hc
        exact later [] (by rw [List.append_nil, hc]) hrest.symm
      | cons v c =>
        obtain ⟨rfl, -⟩ := List.cons.inj hrest
        cases e with
        | append now run lines => exact absurd hc.symm (by simp [entries])
        | stream run stream => exact absurd hc.symm (by simp [entries])
        | changes run written =>
          have hone : entries [.changes run written] = named written := List.append_nil _
          exact ⟨[], run, written, h, a, c, rfl, hone.symm.trans hc, rfl⟩

theorem created_of_cleaned {past : List (String × String)} {w : String × String}
    (h : kindOf (past.map cleaned) (cleaned w) = .created) : kindOf past w = .created := by
  rw [kindOf_created] at h ⊢
  intro v hv heq
  exact h (cleaned v) (List.mem_map_of_mem hv) (congrArg clean heq)

theorem latest_cleaned {past : List (String × String)} {w : String × String}
    (hinj : ∀ v ∈ past, clean v.1 = clean w.1 → v.1 = w.1) :
    latest (past.map cleaned) (clean w.1) = (latest past w.1).map cutHash := by
  induction past using List.reverseRecOn with
  | nil => rfl
  | append_singleton past v ih =>
    rw [List.map_append, List.map_singleton, latest_snoc, latest_snoc,
      ih (fun u hu => hinj u (List.mem_append_left _ hu))]
    by_cases h : w.1 = v.1
    · have hkey : clean w.1 = (cleaned v).1 := congrArg clean h
      rw [if_pos h, if_pos hkey]
      rfl
    · have hne : ¬ clean w.1 = (cleaned v).1 := fun heq =>
        h (hinj v (by simp) heq.symm).symm
      rw [if_neg h, if_neg hne]

theorem kindOf_unchanged {past : List (String × String)} {w : String × String} :
    kindOf past w = .unchanged ↔ latest past w.1 = some w.2 := by
  unfold kindOf
  cases latest past w.1 with
  | none => exact ⟨fun h => (nomatch h), fun h => (nomatch h)⟩
  | some before =>
    show (if before = w.2 then Kind.unchanged else .updated) = _ ↔ _
    by_cases h : before = w.2
    · rw [if_pos h, h]
      exact ⟨fun _ => rfl, fun _ => rfl⟩
    · rw [if_neg h]
      exact ⟨fun h' => (nomatch h'), fun h' => absurd (Option.some.inj h') h⟩

theorem unchanged_cleaned {past : List (String × String)} {w : String × String}
    (hinj : ∀ v ∈ past, clean v.1 = clean w.1 → v.1 = w.1)
    (h : kindOf past w = .unchanged) : kindOf (past.map cleaned) (cleaned w) = .unchanged := by
  rw [kindOf_unchanged] at h ⊢
  show latest (past.map cleaned) (clean w.1) = some (cutHash w.2)
  rw [latest_cleaned hinj, h]
  rfl

theorem kindOf_cleaned {past : List (String × String)} {w : String × String}
    (hinj : ∀ v ∈ past, clean v.1 = clean w.1 → v.1 = w.1)
    (hhash : ∀ before, latest past w.1 = some before → cutHash before = cutHash w.2 → before = w.2) :
    kindOf (past.map cleaned) (cleaned w) = kindOf past w := by
  unfold kindOf
  show (match latest (past.map cleaned) (clean w.1) with
    | none => Kind.created
    | some before => if before = cutHash w.2 then .unchanged else .updated) = _
  rw [latest_cleaned hinj]
  cases hl : latest past w.1 with
  | none => rfl
  | some before =>
    show (if cutHash before = cutHash w.2 then Kind.unchanged else .updated)
      = if before = w.2 then .unchanged else .updated
    by_cases hb : before = w.2
    · rw [if_pos hb, if_pos (congrArg cutHash hb)]
    · rw [if_neg hb, if_neg (fun hc => hb (hhash before hl hc))]

theorem exact_at {h₁ h₂ : List Event} {run : String} {written : List (String × String)}
    (hexact : Exact (h₁ ++ .changes run written :: h₂)) :
    Changes.of ((steps (entries h₁) (named written)).map
        (fun s => kindOf (s.1.map cleaned) (cleaned s.2)))
      = Changes.of ((steps (entries h₁) (named written)).map (fun s => kindOf s.1 s.2)) := by
  rw [← kinds_cleaned, ← kinds_eq, ← recordChanges_eq h₁ run written]
  exact hexact h₁ run written h₂ rfl

theorem created_of_exact {h : List Event} (hexact : Exact h) {a b : List (String × String)}
    {w : String × String} (heq : entries h = a ++ w :: b) (hnew : kindOf a w = .created) :
    kindOf (a.map cleaned) (cleaned w) = .created := by
  obtain ⟨h₁, run, written, h₂, a', b', rfl, hw, rfl⟩ := split_entries heq
  have hmem : (entries h₁ ++ a', w) ∈ steps (entries h₁) (named written) :=
    mem_steps.2 ⟨a', b', hw, rfl⟩
  have himp : ∀ s ∈ steps (entries h₁) (named written),
      kindOf (s.1.map cleaned) (cleaned s.2) = .created → kindOf s.1 s.2 = .created :=
    fun s _ => created_of_cleaned
  have hcount := congrArg Changes.created (exact_at hexact)
  exact all_of_count himp hcount (entries h₁ ++ a', w) hmem hnew

theorem injective_of_created {es : List (String × String)}
    (hnew : ∀ a w b, es = a ++ w :: b → kindOf a w = .created →
      kindOf (a.map cleaned) (cleaned w) = .created) :
    ∀ v ∈ es, ∀ w ∈ es, clean v.1 = clean w.1 → v.1 = w.1 := by
  induction es using List.reverseRecOn with
  | nil => exact fun v hv => absurd hv List.not_mem_nil
  | append_singleton es x ih =>
    have ih := ih (fun a w b heq => hnew a w (b ++ [x]) (by rw [heq, List.append_assoc]; rfl))
    -- an older id against the last one
    have hlast : ∀ v ∈ es, clean v.1 = clean x.1 → v.1 = x.1 := by
      intro v hv heq
      by_cases hc : kindOf es x = .created
      · have hkey := kindOf_created.1 (hnew es x [] rfl hc) (cleaned v) (List.mem_map_of_mem hv)
        exact absurd heq hkey
      · rw [kindOf_created] at hc
        push Not at hc
        obtain ⟨u, hu, hux⟩ := hc
        rw [← hux] at heq ⊢
        exact ih v hv u hu heq
    intro v hv w hw heq
    rcases List.mem_append.1 hv with hv | hv
    · rcases List.mem_append.1 hw with hw | hw
      · exact ih v hv w hw heq
      · rw [List.mem_singleton.1 hw] at heq ⊢
        exact hlast v hv heq
    · rw [List.mem_singleton.1 hv] at heq ⊢
      rcases List.mem_append.1 hw with hw | hw
      · exact (hlast w hw heq.symm).symm
      · rw [List.mem_singleton.1 hw]

theorem unchanged_of_exact {h : List Event} (hexact : Exact h)
    (hinj : ∀ v ∈ entries h, ∀ w ∈ entries h, clean v.1 = clean w.1 → v.1 = w.1)
    {a b : List (String × String)} {w : String × String} (heq : entries h = a ++ w :: b)
    (hsame : kindOf (a.map cleaned) (cleaned w) = .unchanged) : kindOf a w = .unchanged := by
  obtain ⟨h₁, run, written, h₂, a', b', rfl, hw, rfl⟩ := split_entries heq
  have hmem : (entries h₁ ++ a', w) ∈ steps (entries h₁) (named written) :=
    mem_steps.2 ⟨a', b', hw, rfl⟩
  have hall := entries_report h₁ h₂ run written
  have himp : ∀ s ∈ steps (entries h₁) (named written), kindOf s.1 s.2 = .unchanged →
      kindOf (s.1.map cleaned) (cleaned s.2) = .unchanged := by
    intro s hs
    obtain ⟨c, d, hcd, hp⟩ := mem_steps.1 hs
    apply unchanged_cleaned
    rw [hall, hcd] at hinj
    intro v hv
    rw [hp] at hv
    refine hinj v ?_ s.2 (by simp)
    rcases List.mem_append.1 hv with hv | hv
    · exact List.mem_append_left _ hv
    · exact List.mem_append_right _ (List.mem_append_left _ (List.mem_append_left _ hv))
  have hcount := congrArg Changes.unchanged (exact_at hexact).symm
  exact all_of_count himp hcount (entries h₁ ++ a', w) hmem hsame

/-- **Every report is told apart by entity when and only when no id and no hash is taken for another.** -/
theorem exact_iff (h : List Event) : Exact h ↔ Clear (entries h) := by
  constructor
  · intro hexact
    have hinj := injective_of_created (fun a w b => created_of_exact (a := a) (b := b) hexact)
    refine ⟨hinj, fun a w b before heq hl hcut => ?_⟩
    have hpast : ∀ v ∈ a, clean v.1 = clean w.1 → v.1 = w.1 := by
      rw [heq] at hinj
      exact fun v hv => hinj v (List.mem_append_left _ hv) w (by simp)
    have hsame : kindOf (a.map cleaned) (cleaned w) = .unchanged := by
      rw [kindOf_unchanged]
      show latest (a.map cleaned) (clean w.1) = some (cutHash w.2)
      rw [latest_cleaned hpast, hl]
      exact congrArg some hcut
    have hraw := kindOf_unchanged.1 (unchanged_of_exact hexact hinj heq hsame)
    exact Option.some.inj (hl.symm.trans hraw)
  · rintro ⟨hinj, hhash⟩ h₁ run written h₂ rfl
    have hall := entries_report h₁ h₂ run written
    rw [recordChanges_eq, kinds_cleaned, kinds_eq]
    refine congrArg Changes.of (List.map_congr_left (fun s hs => ?_))
    obtain ⟨c, d, hcd, hp⟩ := mem_steps.1 hs
    have heq : entries (h₁ ++ .changes run written :: h₂) = s.1 ++ s.2 :: (d ++ entries h₂) := by
      rw [hall, hcd, hp]
      simp
    apply kindOf_cleaned
    · intro v hv
      rw [heq] at hinj
      exact hinj v (List.mem_append_left _ hv) s.2 (by simp)
    · exact fun before hl => hhash s.1 s.2 _ before heq hl

/-- two ids that are masked to one are one record, created and then updated -/
theorem twoIds_oneKey : ¬ Exact [.changes "r" [("basic 1", "1"), ("basic 2", "2")]] := by
  intro h
  have hcounts := h [] "r" [("basic 1", "1"), ("basic 2", "2")] [] rfl
  revert hcounts
  decide +kernel

end Pipelines

end Portal
