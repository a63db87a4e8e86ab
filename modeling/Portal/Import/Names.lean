import Portal.Import.Filed

/-!
# Where the names of a bundle put it (`api/import.rs`: `plan_import`)

Under which path a manifest of the bundle is filed is told by names alone: its own, those the mirror
has, and those the mapping and the renames give.  Its space is the one its reference names once the
mappings and the renames have gone over it; an App's default groups are named by the App and its roles.

* `taken`, `enters`, `nameIn`   the manifests the mirror has, those that go in, and their names there;
* `spaceIn`, `fileIn`           the space a manifest names in the end, and the file of it;
* `groupsIn`                    the default groups the bundle brings;
* `Sends`                       what a change of a spec makes of its space and its roles;
* `destination_eq`, `defaultNames_eq`   the plan files the manifests and the groups by these names.
-/

namespace Portal
namespace Import

open Access Changes

/-! ## the space a manifest names -/

/-- what a reference names: a text is the name of a space, an object may give a kind -/
def named (v : Value) : Option (Option String × String) :=
  match v.asStr with
  | some name => some (some "ContextSpace", name)
  | none => (textAt v "name").map (fun name => (textAt v "kind", name))

def namedSpace (spec : Value) : Option (Option String × String) :=
  (spec.get? "contextSpaceRef").bind named

def onTexts (f : String → String) (r : Option String × String) : Option String × String :=
  (r.1.map f, f r.2)

/-- a reference to `old` naming `new` -/
def renameNamed (kind old new : String) (r : Option String × String) : Option String × String :=
  if r = (some kind, old) then (some kind, new) else r

def Record.text (text : String) (r : Record) : String :=
  if r.kind = "ContextSpace" then moveSpace r.old r.new text else text

def Record.named (ref : Option String × String) (r : Record) : Option String × String :=
  onTexts (fun text => Record.text text r) (renameNamed r.kind r.old r.new ref)

section
variable (s : Served) (m : Mirror) (project source : String)

def mapText (text : String) (mapping : SpaceMapping) : String :=
  let new := segment s m project mapping.target
  moveSpace mapping.source new (moveSpace (segment s m source mapping.source) new text)

def mapNamed (ref : Option String × String) (mapping : SpaceMapping) : Option String × String :=
  onTexts (fun text => mapText s m project source text mapping)
    (renameNamed "ContextSpace" mapping.source mapping.target ref)

end

/-! ## the names of a bundle in the project -/

section
variable (x : JcAccess) (s : Served) (c : Caller) (project domain : String)
  (options : ImportOptions) (incoming : List Incoming)

def nsIn (e : Envelope) : String := namespaceOf x e.kind e.ns project

def homeIn (e : Envelope) : String := namespaceOf x e.kind (some (nsIn x project e)) project

/-- whether the mirror has a resource of a manifest's home, kind and name -/
def taken (e : Envelope) : Bool := (c.repository.get (homeIn x project e) e.kind e.name).isSome

/-- whether a manifest gets a new name -/
def changesName (e : Envelope) : Bool :=
  taken x c project e && options.conflictPolicy = .rename

/-- the name of a manifest in the project: where it gets a new one, the first that the mirror does not
have of its own name and where it comes from -/
def nameIn (e : Envelope) : String :=
  if changesName x c project options e then
    freshName c.repository.toMirror (homeIn x project e) e.kind (renamed e.name (originOf project e))
  else e.name

/-- whether a manifest goes in -/
def enters (e : Envelope) : Bool :=
  !taken x c project e || options.conflictPolicy = .replace || options.conflictPolicy = .rename

def namesIn : List (String × String) :=
  (imported incoming).filterMap (fun e =>
    if enters x c project options e then some (e.kind, nameIn x c project options e) else none)

/-- the old and the new names, by the old ones -/
def renamesIn : OrdMap String String :=
  OrdMap.ofList ((imported incoming).filterMap (fun e =>
    if changesName x c project options e then some (e.name, nameIn x c project options e) else none))

/-- the renames, each under the kind of the first manifest that has the new name -/
def recordsIn : List Record :=
  (renamesIn x c project options incoming).toList.filterMap (fun r =>
    ((namesIn x c project options incoming).find? (fun n => n.2 = r.2)).map
      (fun n => ⟨n.1, r.1, r.2⟩))

/-- what the import makes of a text of a manifest -/
def sentText (e : Envelope) (text : String) : String :=
  (recordsIn x c project options incoming).foldl Record.text
    (options.spaceMapping.foldl (mapText s c.repository.toMirror project (originOf project e))
      (remapText x domain (ownSpaces (imported incoming)) text))

/-- what the import makes of a reference of a manifest to a space -/
def sentNamed (e : Envelope) (ref : Option String × String) : Option String × String :=
  (recordsIn x c project options incoming).foldl Record.named
    (options.spaceMapping.foldl (mapNamed s c.repository.toMirror project (originOf project e))
      (onTexts (remapText x domain (ownSpaces (imported incoming))) ref))

/-- the space of a manifest in the project: its label's, else the one its reference names there -/
def spaceIn (e : Envelope) : String :=
  (metaText e.metadata "labels" "joinedcontext.com/space" <|>
    (namedSpace e.spec).map (fun ref => (sentNamed x s c project domain options incoming e ref).2)).getD
    (nsIn x project e)

/-- the catalogue's file of a manifest's kind, home, space and name -/
def fileIn (e : Envelope) : Option String :=
  (kindInfo x e.kind).bind (fun info => repositoryPath s.reads info (homeIn x project e)
    (spaceIn x s c project domain options incoming e) (nameIn x c project options e))

/-- the names of the default groups of an App that the mirror does not have -/
def groupsOf (e : Envelope) : List String :=
  if e.kind ≠ "App" then []
  else (((appRoles e.spec).map (sentText x s c project domain options incoming e)).map
    (groupName (nameIn x c project options e))).filter (fun group =>
      (c.repository.get orgNamespace "Group" group).isNone)

/-- the default groups the bundle brings, but for those it has a manifest of -/
def groupsIn : List String :=
  if (s.repositoryOf project).isSome then []
  else ((imported incoming).flatMap (fun e =>
    if enters x c project options e then groupsOf x s c project domain options incoming e
    else [])).filter (fun group =>
      !(namesIn x c project options incoming).any (fun n => n.1 = "Group" && n.2 = group))

/-- the default groups of the Apps among the manifests, but for those the mirror or they hold -/
def defaultNames (manifests : List Envelope) : List String :=
  if (s.repositoryOf project).isSome then []
  else
    (manifests.flatMap (fun e => if e.kind ≠ "App" then [] else
      ((appRoles e.spec).map (groupName e.name)).filter (fun group =>
        (c.repository.get orgNamespace "Group" group).isNone))).filter (fun group =>
      !manifests.any (fun e => e.kind = "Group" && e.name = group))

end

/-! ## texts that are no ids -/

theorem colon_of_startsWith {text : String} (h : Text.startsWith "urn:ngsi-ld:" text = true) :
    ':' ∈ text.toList := by
  obtain ⟨rest, hrest⟩ := List.isPrefixOf_iff_prefix.mp h
  rw [← hrest]
  exact List.mem_append_left _ (by decide)

theorem colon_of_idSegments {text : String} {p : Bool × List String} (h : idSegments text = some p) :
    ':' ∈ text.toList ∧ 6 ≤ p.2.length := by
  unfold idSegments at h
  simp only [Option.ite_none_right_eq_some, Bool.and_eq_true, decide_eq_true_eq, Option.some.injEq] at h
  obtain ⟨⟨hscheme, hsix⟩, rfl⟩ := h
  have hcolon := colon_of_startsWith hscheme
  refine ⟨?_, hsix⟩
  unfold Text.after at hcolon
  split at hcolon
  · have hrest : ':' ∈ text.toList.drop "^".toList.length := by simpa using hcolon
    exact List.mem_of_mem_drop hrest
  · exact hcolon

theorem colon_of_idText {pattern : Bool} {segments : List String} (h : 2 ≤ segments.length) :
    ':' ∈ (idText pattern segments).toList := by
  obtain ⟨a, b, rest, rfl⟩ : ∃ a b rest, segments = a :: b :: rest := by
    match segments, h with
    | a :: b :: rest, _ => exact ⟨a, b, rest, rfl⟩
  unfold idText
  rw [String.toList_append, String.toList_intercalate, List.map_cons, List.map_cons,
    List.intercalate_cons_cons]
  exact List.mem_append_right _ (by simp)

/-- a change of texts that leaves those without a colon, and makes none -/
def Spares (f : String → String) : Prop :=
  ∀ text, ':' ∉ text.toList ∨ ':' ∉ (f text).toList → f text = text

theorem Spares.eq_iff {f : String → String} (hf : Spares f) {plain text : String}
    (hplain : ':' ∉ plain.toList) : f text = plain ↔ text = plain := by
  constructor
  · intro h
    rw [← hf text (.inr (h ▸ hplain)), h]
  · rintro rfl
    exact hf text (.inl hplain)

theorem spares_moveSpace (old new : String) : Spares (moveSpace old new) := by
  intro text h
  unfold moveSpace at h ⊢
  cases hid : idSegments text with
  | none => rfl
  | some p =>
    obtain ⟨hcolon, hsix⟩ := colon_of_idSegments hid
    rw [hid] at h
    simp only at h ⊢
    split
    · rename_i hold
      rw [if_pos hold] at h
      rcases h with h | h
      · exact absurd hcolon h
      · exact absurd (colon_of_idText (by rw [List.length_set]; omega)) h
    · rfl

theorem spares_remapText (x : JcAccess) (domain : String) (spaces : List String) :
    Spares (remapText x domain spaces) := by
  intro text h
  unfold remapText remapUrn at h ⊢
  cases hid : idSegments text with
  | none => rfl
  | some p =>
    obtain ⟨hcolon, hsix⟩ := colon_of_idSegments hid
    rw [hid] at h
    simp only [Option.bind_eq_bind, Option.bind_some] at h ⊢
    generalize (if p.1 = true then x.escape domain else domain) = replacement at h ⊢
    split
    · rfl
    · rename_i hspace
      rw [if_neg hspace] at h
      split
      · rfl
      · rename_i hsame
        rw [if_neg hsame] at h
        rcases h with h | h
        · exact absurd hcolon h
        · exact absurd (colon_of_idText (by rw [List.length_set]; omega)) h

/-! ## what a change makes of a space and of roles -/

theorem referenceName_eq (v : Value) : referenceName v = (named v).map Prod.snd := by
  unfold referenceName named
  cases v.asStr with
  | some name => rfl
  | none => cases textAt v "name" <;> rfl

theorem specSpace_eq (spec : Value) : specSpace spec = (namedSpace spec).map Prod.snd := by
  unfold specSpace namedSpace
  cases spec.get? "contextSpaceRef" with
  | none => rfl
  | some child => exact referenceName_eq child

/-- a change of a spec, by what it makes of the reference to a space and of the roles -/
structure Sends (change : Value → Value) (ref : Option String × String → Option String × String)
    (text : String → String) : Prop where
  space : ∀ spec, namedSpace (change spec) = (namedSpace spec).map ref
  roles : ∀ spec, appRoles (change spec) = (appRoles spec).map text

section
variable {change change' : Value → Value}
  {ref ref' : Option String × String → Option String × String} {text text' : String → String}

theorem Sends.comp (h' : Sends change' ref' text') (h : Sends change ref text) :
    Sends (change' ∘ change) (ref' ∘ ref) (text' ∘ text) where
  space spec := by rw [Function.comp_apply, h'.space, h.space, Option.map_map]
  roles spec := by rw [Function.comp_apply, h'.roles, h.roles, List.map_map]

theorem Sends.foldl {α : Type} {change : Value → α → Value}
    {ref : Option String × String → α → Option String × String} {text : String → α → String}
    (h : ∀ a, Sends (change · a) (ref · a) (text · a)) (l : List α) :
    Sends (l.foldl change) (l.foldl ref) (l.foldl text) := by
  induction l with
  | nil => exact ⟨fun spec => by simp, fun spec => by simp⟩
  | cons a l ih => exact ih.comp (h a)

end

def roleNames (spec : Value) : List String :=
  (((spec.get? "roles").bind Value.asArray).getD []).filterMap (textAt · "name")

theorem appRoles_sent {f : String → String} (hf : Spares f) {spec changed : Value}
    (hlifecycle : textAt changed "lifecycle" = (textAt spec "lifecycle").map f)
    (hroles : roleNames changed = (roleNames spec).map f) :
    appRoles changed = (appRoles spec).map f := by
  have hretired : textAt changed "lifecycle" = some "retired" ↔
      textAt spec "lifecycle" = some "retired" := by
    rw [hlifecycle]
    cases textAt spec "lifecycle" with
    | none => simp
    | some lifecycle =>
      rw [Option.map_some, Option.some.injEq, Option.some.injEq]
      exact hf.eq_iff (by decide)
  unfold appRoles
  by_cases h : textAt spec "lifecycle" = some "retired"
  · rw [if_pos h, if_pos (hretired.mpr h)]
    rfl
  · rw [if_neg h, if_neg (fun h' => h (hretired.mp h'))]
    exact hroles

theorem roleNames_items {f : String → String} (change : Value → Value) {spec changed : Value}
    (hroles : (changed.get? "roles").bind Value.asArray
      = ((spec.get? "roles").bind Value.asArray).map (List.map change))
    (hname : ∀ item, textAt (change item) "name" = (textAt item "name").map f) :
    roleNames changed = (roleNames spec).map f := by
  unfold roleNames
  rw [hroles]
  cases (spec.get? "roles").bind Value.asArray with
  | none => rfl
  | some items =>
    rw [Option.map_some, Option.getD_some, Option.getD_some, List.filterMap_map, List.map_filterMap]
    exact List.filterMap_congr (fun item _ => hname item)

theorem named_mapStrings {f : String → String} (hf : f "ContextSpace" = "ContextSpace") (v : Value) :
    named (Value.mapStrings f v) = (named v).map (onTexts f) := by
  unfold named
  rw [Value.asStr_mapStrings, textAt_mapStrings, textAt_mapStrings]
  cases v.asStr with
  | some name => simp [onTexts, hf]
  | none => cases textAt v "name" <;> rfl

theorem sends_mapStrings {f : String → String} (hf : Spares f) :
    Sends (Value.mapStrings f) (onTexts f) f where
  space spec := by
    unfold namedSpace
    rw [Value.get?_mapStrings]
    cases spec.get? "contextSpaceRef" with
    | none => rfl
    | some child => exact named_mapStrings (hf _ (.inl (by decide))) child
  roles spec := by
    refine appRoles_sent hf (textAt_mapStrings f spec _)
      (roleNames_items (Value.mapStrings f) ?_ (fun item => textAt_mapStrings f item _))
    rw [Value.get?_mapStrings]
    cases spec.get? "roles" with
    | none => rfl
    | some roles => exact Value.asArray_mapStrings f roles

theorem named_rewriteReference (kind old new : String) (v : Value) :
    named (rewriteReference kind old new v) = named v := by
  unfold named
  rw [asStr_rewriteReference, textAt_rewriteReference kind old new (by decide),
    textAt_rewriteReference kind old new (by decide)]

theorem named_rewriteMember (kind old new : String) (child : Value) :
    named (rewriteMember kind old new "contextSpaceRef" child)
      = (named child).map (renameNamed kind old new) := by
  have hstays : named child ≠ some (some kind, old) →
      named child = (named child).map (renameNamed kind old new) := by
    intro hne
    cases href : named child with
    | none => rfl
    | some ref =>
      rw [Option.map_some, renameNamed, if_neg]
      rintro rfl
      exact hne href
  unfold rewriteMember
  split
  · rename_i htext
    simp only [Bool.and_eq_true, decide_eq_true_eq] at htext
    obtain ⟨hkind, hname⟩ := htext
    obtain rfl : "ContextSpace" = kind := Option.some.inj hkind
    have href : named child = some (some "ContextSpace", old) := by
      unfold named
      rw [hname]
    rw [href, Option.map_some, renameNamed, if_pos rfl]
    rfl
  · rename_i htext
    split
    · rename_i hnames
      have hnew := namesOld_replaceText kind old new hnames
      simp only [namesOld, Bool.and_eq_true, decide_eq_true_eq] at hnames hnew
      unfold named
      rw [asStr_of_textAt hnew.2, asStr_of_textAt hnames.2, hnames.1.2, hnames.2, hnew.1.2, hnew.2]
      simp [renameNamed]
    · rename_i hnames
      rw [named_rewriteReference]
      refine hstays (fun href => ?_)
      unfold named at href
      split at href
      · -- a text names a space
        rename_i name hstr
        obtain ⟨hkind, rfl⟩ := Prod.mk.inj (Option.some.inj href)
        refine htext ?_
        rw [hstr, ← Option.some.inj hkind]
        simp [stringRef]
      · obtain ⟨name, hname, heq⟩ := Option.map_eq_some_iff.mp href
        obtain ⟨hkind, rfl⟩ := Prod.mk.inj heq
        refine hnames ?_
        simp only [namesOld, Bool.and_eq_true, decide_eq_true_eq]
        exact ⟨⟨by decide, hkind⟩, hname⟩

theorem sends_rewriteReference (kind old new : String) :
    Sends (rewriteReference kind old new) (renameNamed kind old new) id where
  space spec := by
    unfold namedSpace
    rw [get?_rewriteReference]
    cases spec.get? "contextSpaceRef" with
    | none => rfl
    | some child => exact named_rewriteMember kind old new child
  roles spec := by
    refine appRoles_sent (fun _ _ => rfl) ?_
      (roleNames_items (rewriteReference kind old new) ?_ (fun item => ?_))
    · rw [textAt_rewriteReference kind old new (by decide)]
      simp
    · rw [get?_rewriteReference]
      cases spec.get? "roles" with
      | none => rfl
      | some roles =>
        rw [Option.map_some, rewriteMember_of_not_ref kind old new (by decide)]
        exact asArray_rewriteReference kind old new roles
    · rw [textAt_rewriteReference kind old new (by decide)]
      simp

section
variable (x : JcAccess) (source target domain : String) (spaces : List String)

theorem asStr_remapValue (v : Value) :
    (remapValue x source target domain spaces v).asStr = v.asStr.map (remapText x domain spaces) := by
  cases v <;> simp [remapValue, Value.asStr]

theorem textAt_remapValue {key : String} (hkey : key ≠ "namespace") (v : Value) :
    textAt (remapValue x source target domain spaces v) key
      = (textAt v key).map (remapText x domain spaces) := by
  unfold textAt
  rw [get?_remapValue]
  cases v.get? key with
  | none => rfl
  | some child =>
    rw [Option.map_some, Option.bind_some, Option.bind_some, remapMember, if_neg (by simp [hkey])]
    exact asStr_remapValue x source target domain spaces child

theorem asArray_remapValue (v : Value) : (remapValue x source target domain spaces v).asArray
    = v.asArray.map (List.map (remapValue x source target domain spaces)) := by
  have hitems : ∀ items, remapItems x source target domain spaces items
      = items.map (remapValue x source target domain spaces) := by
    intro items
    induction items with
    | nil => simp [remapItems]
    | cons v items ih => rw [remapItems, ih, List.map_cons]
  cases v with
  | array items =>
    rw [remapValue, hitems]
    rfl
  | _ => simp [remapValue, Value.asArray]

theorem named_remapValue (v : Value) : named (remapValue x source target domain spaces v)
    = (named v).map (onTexts (remapText x domain spaces)) := by
  have hspace : remapText x domain spaces "ContextSpace" = "ContextSpace" :=
    spares_remapText x domain spaces _ (.inl (by decide))
  unfold named
  rw [asStr_remapValue, textAt_remapValue x source target domain spaces (by decide),
    textAt_remapValue x source target domain spaces (by decide)]
  cases v.asStr with
  | some name => simp [onTexts, hspace]
  | none => cases textAt v "name" <;> rfl

theorem sends_remapValue : Sends (remapValue x source target domain spaces)
    (onTexts (remapText x domain spaces)) (remapText x domain spaces) where
  space spec := by
    unfold namedSpace
    rw [get?_remapValue]
    cases spec.get? "contextSpaceRef" with
    | none => rfl
    | some child =>
      rw [Option.map_some, Option.bind_some, Option.bind_some, remapMember, if_neg (by simp)]
      exact named_remapValue x source target domain spaces child
  roles spec := by
    refine appRoles_sent (spares_remapText x domain spaces)
      (textAt_remapValue x source target domain spaces (by decide) spec)
      (roleNames_items (remapValue x source target domain spaces) ?_
        (fun item => textAt_remapValue x source target domain spaces (by decide) item))
    rw [get?_remapValue]
    cases spec.get? "roles" with
    | none => rfl
    | some roles =>
      rw [Option.map_some, Option.bind_some, Option.map_bind, remapMember, if_neg (by simp)]
      exact asArray_remapValue x source target domain spaces roles

theorem sends_moveEndpointRef : Sends (moveEndpointRef source target) id id where
  space spec := by
    unfold namedSpace moveEndpointRef
    rw [get?_mapMember]
    cases spec.get? "contextSpaceRef" <;> simp
  roles spec := by
    have hget : ∀ key, key ≠ "endpointRef" →
        (moveEndpointRef source target spec).get? key = spec.get? key := by
      intro key hkey
      unfold moveEndpointRef
      rw [get?_mapMember]
      simp [hkey]
    unfold appRoles textAt
    rw [hget _ (by decide), hget _ (by decide), List.map_id]

end

theorem sends_mapSpace (s : Served) (m : Mirror) (project source : String) (mapping : SpaceMapping) :
    Sends (mapSpace s m project source · mapping) (mapNamed s m project source · mapping)
      (mapText s m project source · mapping) := by
  have hnames := sends_rewriteReference "ContextSpace" mapping.source mapping.target
  have hfirst := sends_mapStrings (spares_moveSpace (segment s m source mapping.source)
    (segment s m project mapping.target))
  have hsecond := sends_mapStrings (spares_moveSpace mapping.source (segment s m project mapping.target))
  have hall := hsecond.comp (hfirst.comp hnames)
  refine ⟨fun spec => ?_, fun spec => ?_⟩
  · have h := hall.space spec
    simp only [Function.comp_def, onTexts, Option.map_map] at h
    simp only [mapSpace, mapNamed, mapText, onTexts, rewriteSpace]
    exact h
  · have h := hall.roles spec
    simp only [Function.comp_def, id] at h
    simp only [mapSpace, mapText, rewriteSpace]
    exact h

theorem sends_apply (r : Record) :
    Sends (Record.apply · r) (Record.named · r) (Record.text · r) := by
  have hnames := sends_rewriteReference r.kind r.old r.new
  have hmoves := sends_mapStrings (spares_moveSpace r.old r.new)
  by_cases hkind : r.kind = "ContextSpace"
  · have hall := hmoves.comp hnames
    refine ⟨fun spec => ?_, fun spec => ?_⟩
    · have h := hall.space spec
      simp only [Record.apply, Record.named, Record.text, hkind, if_true] at h ⊢
      exact h
    · have h := hall.roles spec
      simp only [Record.apply, Record.text, hkind, if_true] at h ⊢
      exact h
  · refine ⟨fun spec => ?_, fun spec => ?_⟩
    · have h := hnames.space spec
      simp only [Record.apply, Record.named, Record.text, hkind, if_false, onTexts, Option.map_id'] at h ⊢
      exact h
    · have h := hnames.roles spec
      simp only [Record.apply, Record.text, hkind, if_false] at h ⊢
      exact h

/-! ## the plan by its names -/

section
variable (x : JcAccess) (s : Served) (c : Caller) (project domain : String)
  (options : ImportOptions) (incoming : List Incoming)

theorem conflicting_eq (e : Envelope) :
    conflicting x s c project domain options incoming e = taken x c project e := rfl

theorem newName_eq (e : Envelope) : newName x s c project domain options incoming e
    = freshName c.repository.toMirror (homeIn x project e) e.kind (renamed e.name (originOf project e)) :=
  rfl

theorem renamedTo_eq (e : Envelope) : renamedTo x s c project domain options incoming e
    = if changesName x c project options e then some (e.name, nameIn x c project options e) else none := by
  unfold renamedTo nameIn
  rw [conflicting_eq, newName_eq]
  by_cases h : changesName x c project options e = true
  · rw [if_pos h, if_pos h]
    exact if_pos h
  · rw [if_neg h]
    exact if_neg h

theorem goesIn_eq (e : Envelope) : goesIn x s c project domain options incoming e
    = if enters x c project options e then
        some { arrives x s c project domain options incoming e with
          name := nameIn x c project options e }
      else none := by
  unfold goesIn nameIn changesName enters
  rw [conflicting_eq, newName_eq]
  cases taken x c project e with
  | false => rfl
  | true => cases options.conflictPolicy <;> rfl

theorem bundleRecords_eq : bundleRecords x s c project domain options incoming
    = recordsIn x c project options incoming := by
  have hkinds : ((imported incoming).filterMap (goesIn x s c project domain options incoming)).map
      (fun e => (e.kind, e.name)) = namesIn x c project options incoming := by
    unfold namesIn
    rw [List.map_filterMap]
    refine List.filterMap_congr (fun e _ => ?_)
    rw [goesIn_eq]
    split <;> rfl
  have hrecord : ∀ r, recordOf ((imported incoming).filterMap
        (goesIn x s c project domain options incoming)) r
      = ((namesIn x c project options incoming).find? (fun n => n.2 = r.2)).map
        (fun n => ⟨n.1, r.1, r.2⟩) := by
    intro r
    unfold recordOf
    rw [← hkinds, List.find?_map, Option.map_map]
    rfl
  unfold bundleRecords recordsIn renamesIn
  rw [show renamedTo x s c project domain options incoming = _ from funext (renamedTo_eq x s c project domain
    options incoming)]
  exact List.filterMap_congr (fun r _ => hrecord r)

/-- **What the import makes of a manifest's space and roles** is told by the texts that name them. -/
theorem sends_referred (e : Envelope) :
    ∃ change, Sends change (sentNamed x s c project domain options incoming e)
        (sentText x s c project domain options incoming e) ∧
      (referred (bundleRecords x s c project domain options incoming)
        (arrives x s c project domain options incoming e)).spec = change e.spec := by
  have hremap := sends_remapValue x (originOf project e) project domain (ownSpaces (imported incoming))
  have hmappings := Sends.foldl (fun mapping => sends_mapSpace s c.repository.toMirror project
    (originOf project e) mapping) options.spaceMapping
  have hrecords := Sends.foldl sends_apply (recordsIn x c project options incoming)
  by_cases hkind : e.kind = "SharedSpaceReference"
  · have hendpoint := (sends_moveEndpointRef (originOf project e) project).comp hremap
    refine ⟨_, hrecords.comp (hmappings.comp hendpoint), ?_⟩
    rw [bundleRecords_eq]
    simp [referred, arrives, landed, remap, hkind]
  · refine ⟨_, hrecords.comp (hmappings.comp hremap), ?_⟩
    rw [bundleRecords_eq]
    simp [referred, arrives, landed, remap, hkind]

theorem spaceOf_referred (e : Envelope) : (spaceOf (referred
      (bundleRecords x s c project domain options incoming)
      (arrives x s c project domain options incoming e))).getD ""
    = spaceIn x s c project domain options incoming e := by
  obtain ⟨change, hsends, hspec⟩ := sends_referred x s c project domain options incoming e
  unfold spaceOf spaceIn
  rw [specSpace_eq, hspec, hsends.space, Option.map_map]
  show (metaText e.metadata "labels" "joinedcontext.com/space" <|> _ <|> some _).getD "" = _
  cases metaText e.metadata "labels" "joinedcontext.com/space" with
  | some label => rfl
  | none => cases namedSpace e.spec <;> rfl

/-- **A manifest that goes in is filed by its names.** -/
theorem destination_eq (e : Envelope) : destination x s c project domain options incoming e
    = if enters x c project options e then fileIn x s c project domain options incoming e
      else none := by
  unfold destination
  rw [goesIn_eq]
  split
  · have hspace := spaceOf_referred x s c project domain options incoming e
    unfold fileIn
    rw [← hspace]
    rfl
  · rfl

theorem namesIn_eq : (((imported incoming).filterMap
      (goesIn x s c project domain options incoming)).map
        (referred (bundleRecords x s c project domain options incoming))).map (fun e => (e.kind, e.name))
    = namesIn x c project options incoming := by
  unfold namesIn
  rw [List.map_map, List.map_filterMap]
  refine List.filterMap_congr (fun e _ => ?_)
  rw [goesIn_eq]
  split <;> rfl

/-- **The default groups of a bundle** are named by its Apps and their roles. -/
theorem defaultNames_eq : defaultNames s c project (((imported incoming).filterMap
      (goesIn x s c project domain options incoming)).map
        (referred (bundleRecords x s c project domain options incoming)))
    = groupsIn x s c project domain options incoming := by
  have hbundled : ∀ group, (((imported incoming).filterMap
        (goesIn x s c project domain options incoming)).map
          (referred (bundleRecords x s c project domain options incoming))).any
          (fun e => e.kind = "Group" && e.name = group)
      = (namesIn x c project options incoming).any (fun n => n.1 = "Group" && n.2 = group) := by
    intro group
    rw [← namesIn_eq x s c project domain, List.any_map, List.any_map, List.any_map]
    rfl
  unfold defaultNames groupsIn
  split
  · rfl
  simp only [hbundled]
  congr 1
  rw [List.flatMap_map, List.filterMap_eq_flatMap_toList, List.flatMap_assoc]
  refine List.flatMap_congr (fun e _ => ?_)
  rw [goesIn_eq]
  split
  · rw [Option.toList_some, List.flatMap_singleton]
    obtain ⟨change, hsends, hspec⟩ := sends_referred x s c project domain options incoming e
    unfold groupsOf
    rw [← hsends.roles, ← hspec]
    rfl
  · rfl

end

end Import
end Portal
