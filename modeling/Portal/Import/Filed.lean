import Portal.Import.Plan

/-!
# The manifests of an import as they are filed

The renames of an import are applied one after another to every manifest, each under the kind of the
first manifest that has the new name.  What becomes of one manifest is what the records make of it
alone; what the platform writes itself afterwards (slugs, assigners, default groups) leaves its
name, its home and its space.

* `goesIn`, `bundleRecords`   what a manifest of the bundle is kept as, and the renames in order;
* `kept_eq`, `records_eq`     the plan keeps and renames these;
* `Finishes`                  what the platform's own writing leaves;
* `filed_ok`                  the manifests that are filed, each under its address.
-/

namespace Portal
namespace Import

open Access Changes

/-! ## one rename after another -/

/-- a rename as it is applied: the kind it is taken for, the old name and the new -/
structure Record where
  kind : String
  old : String
  new : String
deriving DecidableEq

/-- a rename with the kind of the first manifest that has the new name -/
def recordOf (keep : List Envelope) (r : String × String) : Option Record :=
  (keep.find? (fun e => e.name = r.2)).map (fun e => ⟨e.kind, r.1, r.2⟩)

/-- the renames in the order they are applied -/
def records (judged : List (Envelope × Verdict)) : List Record :=
  (renames judged).toList.filterMap (recordOf (kept judged))

def Record.apply (spec : Value) (r : Record) : Value :=
  let moved := rewriteReference r.kind r.old r.new spec
  if r.kind = "ContextSpace" then rewriteSpace r.old r.new moved else moved

/-- a manifest after several renames -/
def referred (rs : List Record) (e : Envelope) : Envelope :=
  { e with spec := rs.foldl Record.apply e.spec }

theorem renamePass_referred (base : List Envelope) (rs : List Record) (r : String × String) :
    renamePass (base.map (referred rs)) r = base.map (referred (rs ++ (recordOf base r).toList)) := by
  have hfind : (base.map (referred rs)).find? (fun e => e.name = r.2)
      = (base.find? (fun e => e.name = r.2)).map (referred rs) := List.find?_map
  unfold renamePass recordOf
  rw [hfind]
  cases base.find? (fun e => e.name = r.2) with
  | none => simp
  | some e =>
    simp only [Option.map_some, Option.toList_some, List.map_map]
    refine List.map_congr_left (fun e' _ => ?_)
    simp only [Function.comp, referred, List.foldl_append, List.foldl_cons, List.foldl_nil]
    rfl

/-- **The renames reach each manifest alone**: what becomes of one is what the records make of it. -/
theorem referring_eq (judged : List (Envelope × Verdict)) :
    referring judged = (kept judged).map (referred (records judged)) := by
  have hfold : ∀ (l : List (String × String)) (rs : List Record),
      l.foldl renamePass ((kept judged).map (referred rs))
        = (kept judged).map (referred (rs ++ l.filterMap (recordOf (kept judged)))) := by
    intro l
    induction l with
    | nil => simp
    | cons r l ih =>
      intro rs
      have hcons : (r :: l).filterMap (recordOf (kept judged))
          = (recordOf (kept judged) r).toList ++ l.filterMap (recordOf (kept judged)) := by
        rw [List.filterMap_cons]
        cases recordOf (kept judged) r <;> rfl
      rw [List.foldl_cons, renamePass_referred, ih, List.append_assoc, hcons]
  have hstart : (kept judged).map (referred []) = kept judged := by
    refine (List.map_congr_left (fun e _ => ?_)).trans (List.map_id _)
    rfl
  have h := hfold (renames judged).toList []
  rw [hstart, List.nil_append] at h
  exact h

/-! ## what the platform writes leaves the rest -/

/-- the members of a spec the platform writes itself -/
def ownMember (kind key : String) : Bool :=
  (kind = "Endpoint" && key = "slug") || (kind = "Policy" && key = "assigner")
    || (kind = "App" && key = "access")

/-- what slugs, assigners and default groups leave of a manifest -/
structure Finishes (e w : Envelope) : Prop where
  kind : w.kind = e.kind
  name : w.name = e.name
  ns : w.ns = e.ns
  metadata : w.metadata = e.metadata
  apiVersion : w.apiVersion = e.apiVersion
  status : w.status = e.status
  members : ∀ key, ownMember e.kind key = false → w.spec.get? key = e.spec.get? key

namespace Finishes

theorem refl (e : Envelope) : Finishes e e :=
  ⟨rfl, rfl, rfl, rfl, rfl, rfl, fun _ _ => rfl⟩

theorem trans {e w v : Envelope} (h : Finishes e w) (h' : Finishes w v) : Finishes e v where
  kind := h'.kind.trans h.kind
  name := h'.name.trans h.name
  ns := h'.ns.trans h.ns
  metadata := h'.metadata.trans h.metadata
  apiVersion := h'.apiVersion.trans h.apiVersion
  status := h'.status.trans h.status
  members key hkey := (h'.members key (h.kind ▸ hkey)).trans (h.members key hkey)

theorem spaceOf_eq {e w : Envelope} (h : Finishes e w) : spaceOf w = spaceOf e := by
  have hmember : w.spec.get? "contextSpaceRef" = e.spec.get? "contextSpaceRef" :=
    h.members _ (by simp [ownMember])
  unfold spaceOf specSpace
  rw [h.metadata, h.ns, hmember]

end Finishes

theorem get?_give {key : String} (hkey : key ≠ "access") (spec : Value) (role group : String) :
    (give spec role group).get? key = spec.get? key := by
  unfold give
  split
  · split
    · rw [Value.get?_object, Value.get?_object, lookup_insertMember, if_neg hkey]
    · rfl
  · rfl

theorem get?_mapMember (key : String) (f : Value → Value) (v : Value) (key' : String) :
    (mapMember key f v).get? key' = (v.get? key').map (fun w => if key' = key then f w else w) := by
  cases v with
  | object fields =>
    exact Value.lookup_map_members (fun k w => if k = key then f w else w) fields key'
  | _ => rfl

section
variable {x : JcAccess} {s : Served} {c : Caller} {project : String}

theorem finishes_withSlug (m : Mirror) (e : Envelope) (call : Nat) :
    Finishes e (withSlug x s m project e call) := by
  unfold withSlug
  split
  · exact Finishes.refl e
  rename_i hkind
  have hkind : e.kind = "Endpoint" := not_not.mp hkind
  simp only
  split
  · rename_i fields hspec
    generalize ((m.get (storedIn x project e) "Endpoint" e.name).bind (textAt · "slug")).getD
      (s.generateSlug call) = slug
    refine ⟨rfl, rfl, rfl, rfl, rfl, rfl, fun key hkey => ?_⟩
    have hne : key ≠ "slug" := by
      rintro rfl
      simp [ownMember, hkind] at hkey
    show (Value.object (insertMember "slug" (.string slug) fields)).get? key = e.spec.get? key
    rw [hspec, Value.get?_object, Value.get?_object, lookup_insertMember, if_neg hne]
  · exact Finishes.refl e

theorem finishes_reassign (e : Envelope) : Finishes e (reassign e) := by
  unfold reassign
  split
  · rename_i hforeign
    simp only [foreignAssigner, Bool.and_eq_true, decide_eq_true_eq] at hforeign
    obtain ⟨hkind, -⟩ := hforeign
    refine ⟨rfl, rfl, rfl, rfl, rfl, rfl, fun key hkey => ?_⟩
    have hne : key ≠ "assigner" := by
      rintro rfl
      simp [ownMember, hkind] at hkey
    show (mapMember "assigner" (fun _ => .string ownAssigner) e.spec).get? key = e.spec.get? key
    rw [get?_mapMember]
    simp [hne]
  · exact Finishes.refl e

theorem finishes_withGroups {e : Envelope} {r : Envelope × List Envelope}
    (h : withGroups x s c project e = .ok r) : Finishes e r.1 := by
  unfold withGroups at h
  split at h
  · cases h
    exact Finishes.refl e
  rename_i hkind
  have hkind : e.kind = "App" := not_not.mp hkind
  cases hgroups : (appRoles e.spec).mapM (defaultGroup x s c project e.name) with
  | error err =>
    rw [hgroups] at h
    exact absurd h (by simp [bind, Except.bind])
  | ok groups =>
    rw [hgroups] at h
    cases h
    refine ⟨rfl, rfl, rfl, rfl, rfl, rfl, fun key hkey => ?_⟩
    have hne : key ≠ "access" := by
      rintro rfl
      simp [ownMember, hkind] at hkey
    show ((appRoles e.spec).foldl (fun spec role => give spec role (groupName e.name role))
      e.spec).get? key = e.spec.get? key
    generalize e.spec = spec
    generalize hroles : appRoles spec = roles
    clear hroles
    induction roles generalizing spec with
    | nil => rfl
    | cons role roles ih => rw [List.foldl_cons, ih, get?_give hne]

theorem forall₂_zipIdx {α β : Type} {R : α → β → Prop} {f : α × Nat → β} (h : ∀ p, R p.1 (f p))
    (l : List α) : List.Forall₂ R l (l.zipIdx.map f) := by
  have hfst : l.zipIdx.map Prod.fst = l := List.zipIdx_map_fst 0 l
  conv_lhs => rw [← hfst]
  rw [List.forall₂_map_left_iff, List.forall₂_map_right_iff]
  exact List.forall₂_same.mpr (fun p _ => h p)

theorem finishes_settled (judged : List (Envelope × Verdict)) :
    List.Forall₂ Finishes ((kept judged).map (referred (records judged)))
      (settled x s c project judged) := by
  unfold settled slugged
  rw [List.map_map, referring_eq]
  exact forall₂_zipIdx (fun p => (finishes_withSlug c.repository.toMirror p.1 p.2).trans
    (finishes_reassign _)) _

theorem finishes_groups {judged : List (Envelope × Verdict)} {groups : List (Envelope × List Envelope)}
    (h : grouped x s c project (settled x s c project judged) = .ok groups) :
    List.Forall₂ Finishes ((kept judged).map (referred (records judged))) (groups.map Prod.fst) := by
  have hgroups : List.Forall₂ Finishes (settled x s c project judged) (groups.map Prod.fst) := by
    unfold grouped at h
    split at h
    · cases h
      rw [List.map_map, List.forall₂_map_right_iff]
      exact List.forall₂_same.mpr (fun e _ => Finishes.refl e)
    · rw [List.forall₂_map_right_iff]
      exact (Gate.mapM_eq_ok.mp h).imp (fun e r hr => finishes_withGroups hr)
  exact (Gate.forall₂_trans (finishes_settled judged) hgroups).imp
    (fun e w ⟨v, hev, hvw⟩ => hev.trans hvw)

end

section
variable (x : JcAccess) (s : Served) (project : String)

/-- the path a manifest is filed under, if its kind has one -/
def address (e : Envelope) : Option String :=
  (kindInfo x e.kind).bind (fun info =>
    repositoryPath s.reads info (storedIn x project e) ((spaceOf e).getD "") e.name)

variable {x s project}

theorem Finishes.address_eq {e w : Envelope} (h : Finishes e w) :
    address x s project w = address x s project e := by
  unfold address storedIn
  rw [h.kind, h.ns, h.name, h.spaceOf_eq]

theorem pathOf_ok {info : KindInfo} {home space name path : String}
    (h : pathOf s info home space name = .ok path) :
    repositoryPath s.reads info home space name = some path := by
  unfold pathOf at h
  split at h
  · rename_i p hp
    rw [hp, Except.ok.inj h]
  · exact absurd h (by simp)

theorem map_eq_ok {α β ε : Type} {g : Except ε α} {f : α → β} {b : β} (h : g.map f = .ok b) :
    ∃ a, g = .ok a ∧ f a = b := by
  cases g with
  | error err => exact absurd h (by simp [Except.map])
  | ok a => exact ⟨a, rfl, Except.ok.inj h⟩

theorem fileOf_ok {incoming : List Incoming} {e : Envelope} {f : String × Content}
    (h : fileOf x s project incoming e = .ok f) : address x s project e = some f.1 ∧
      f.2 = .manifest (annotated s.importedFrom ((sourceOf incoming).getD "upload") e) := by
  unfold fileOf at h
  split at h
  · exact absurd h (by simp)
  · rename_i info hinfo
    obtain ⟨path, hpath, rfl⟩ := map_eq_ok h
    refine ⟨?_, rfl⟩
    unfold address
    rw [hinfo, Option.bind_some, pathOf_ok hpath]

theorem groupFile_ok {e : Envelope} {f : String × Content} (h : groupFile x s e = .ok f) :
    f.2 = .group e ∧ ∃ info, kindInfo x "Group" = some info ∧
      repositoryPath s.reads info orgNamespace "" e.name = some f.1 := by
  unfold groupFile at h
  split at h
  · exact absurd h (by simp)
  · rename_i info hinfo
    obtain ⟨path, hpath, rfl⟩ := map_eq_ok h
    exact ⟨rfl, info, hinfo, pathOf_ok hpath⟩

/-- **The manifests that are filed**: those kept, with their references moved, each under its
address and with its origin noted. -/
theorem filed_ok {c : Caller} {incoming : List Incoming} {judged : List (Envelope × Verdict)}
    {groups : List (Envelope × List Envelope)} {filed : List (String × Content)}
    (hgroups : grouped x s c project (settled x s c project judged) = .ok groups)
    (hfiled : (groups.map Prod.fst).mapM (fileOf x s project incoming) = .ok filed) :
    List.Forall₂ (fun e f => ∃ w, Finishes (referred (records judged) e) w ∧
      address x s project (referred (records judged) e) = some f.1 ∧
      f.2 = .manifest (annotated s.importedFrom ((sourceOf incoming).getD "upload") w))
      (kept judged) filed := by
  have h := Gate.forall₂_trans (finishes_groups hgroups) (Gate.mapM_eq_ok.mp hfiled)
  refine (List.forall₂_map_left_iff.mp h).imp (fun e f => ?_)
  rintro ⟨w, hew, hwf⟩
  exact ⟨w, hew, hew.address_eq ▸ (fileOf_ok hwf).1, (fileOf_ok hwf).2⟩

end

/-! ## the plan by its inputs -/

section
variable (x : JcAccess) (s : Served) (c : Caller) (project domain : String)
  (options : ImportOptions) (incoming : List Incoming)

/-- the name a manifest takes where the project has one of its name -/
def newName (e : Envelope) : String :=
  let a := arrives x s c project domain options incoming e
  freshName c.repository.toMirror (storedIn x project a) a.kind
    (renamed a.name (originOf project e))

/-- whether the project has a resource of a manifest's kind and name already -/
def conflicting (e : Envelope) : Bool :=
  (existing x c.repository.toMirror project (arrives x s c project domain options incoming e)).isSome

/-- what a manifest of the bundle is kept as: a new resource, or by the policy -/
def goesIn (e : Envelope) : Option Envelope :=
  let a := arrives x s c project domain options incoming e
  if !conflicting x s c project domain options incoming e then some a
  else
    match options.conflictPolicy with
    | .fail => none
    | .skip => none
    | .replace => some a
    | .rename => some { a with name := newName x s c project domain options incoming e }

/-- the old and the new name of a manifest that is renamed -/
def renamedTo (e : Envelope) : Option (String × String) :=
  if conflicting x s c project domain options incoming e && options.conflictPolicy = .rename then
    some (e.name, newName x s c project domain options incoming e)
  else none

/-- the renames of the bundle in the order they are applied -/
def bundleRecords : List Record :=
  (OrdMap.ofList ((imported incoming).filterMap
    (renamedTo x s c project domain options incoming))).toList.filterMap
    (recordOf ((imported incoming).filterMap (goesIn x s c project domain options incoming)))

/-- the path a manifest of the bundle is filed under, if it goes in -/
def destination (e : Envelope) : Option String :=
  (goesIn x s c project domain options incoming e).bind (fun a => address x s project
    (referred (bundleRecords x s c project domain options incoming) a))

variable {x s c project domain options incoming}

@[simp] theorem name_arrives (e : Envelope) :
    (arrives x s c project domain options incoming e).name = e.name := rfl

@[simp] theorem kind_arrives (e : Envelope) :
    (arrives x s c project domain options incoming e).kind = e.kind := rfl

theorem verdict_eq {e : Envelope} {verdict : Verdict}
    (h : judge x s c.repository.toMirror project options.conflictPolicy (originOf project e)
      (arrives x s c project domain options incoming e) = .ok verdict) :
    verdict.keeps (arrives x s c project domain options incoming e)
        = goesIn x s c project domain options incoming e ∧
      verdict.rename? (arrives x s c project domain options incoming e)
        = renamedTo x s c project domain options incoming e := by
  unfold goesIn renamedTo conflicting
  rcases judge_ok h with ⟨hnone, rfl⟩ | ⟨hsome, hverdict⟩
  · rw [hnone]
    exact ⟨rfl, rfl⟩
  · rw [hsome]
    rcases hverdict with ⟨hp, rfl⟩ | ⟨hp, rfl⟩ | ⟨hp, rfl⟩
    · rw [hp]
      exact ⟨rfl, rfl⟩
    · rw [hp]
      exact ⟨rfl, rfl⟩
    · rw [hp]
      exact ⟨rfl, rfl⟩

theorem filterMap_of_forall₂ {α β γ : Type} {R : α → β → Prop} {l : List α} {l' : List β}
    {f : α → Option γ} {g : β → Option γ} (h : List.Forall₂ R l l')
    (hfg : ∀ a b, R a b → g b = f a) : l'.filterMap g = l.filterMap f := by
  induction h with
  | nil => rfl
  | cons hab _ ih => rw [List.filterMap_cons, List.filterMap_cons, hfg _ _ hab, ih]

/-- **The plan keeps what goes in.** -/
theorem kept_eq {judged : List (Envelope × Verdict)}
    (h : judgements x s c project domain options incoming = .ok judged) :
    kept judged = (imported incoming).filterMap (goesIn x s c project domain options incoming) := by
  refine filterMap_of_forall₂ (judgements_ok h) (fun e j => ?_)
  rintro ⟨harrives, hverdict⟩
  rw [harrives] at hverdict ⊢
  exact (verdict_eq hverdict).1

theorem records_eq {judged : List (Envelope × Verdict)}
    (h : judgements x s c project domain options incoming = .ok judged) :
    records judged = bundleRecords x s c project domain options incoming := by
  have hrenames : judged.filterMap (fun j => j.2.rename? j.1)
      = (imported incoming).filterMap (renamedTo x s c project domain options incoming) := by
    refine filterMap_of_forall₂ (judgements_ok h) (fun e j => ?_)
    rintro ⟨harrives, hverdict⟩
    rw [harrives] at hverdict ⊢
    exact (verdict_eq hverdict).2
  unfold records bundleRecords renames
  rw [hrenames, kept_eq h]

end

end Import
end Portal
