import Portal.Import.Names

/-!
# What an import leaves alone (`api/import.rs`: `plan_import`, `owns_native`, `reproject`)

Under `skip` and `rename` an import is to leave every resource it conflicts with as it is, native
files included, and no two of its files may fall on one path.  Only manifests meet the conflict
policy: a native file of the bundle is planned under its own path whatever became of the manifest
it belongs to, and nothing compares the paths.

* `Conflicts`, `Touches`    a resource the bundle has a manifest for, and a path that is its own or
                            one of its native files';
* `Leaves`                  what the import is to leave, of the files it plans;
* `Apart`                   what the names of its bundle must keep apart, of native files, manifests and
                            groups;
* `leaves_iff`              the one exactly when the other.
-/

namespace Portal
namespace Import

open Access Changes

/-! ## where the catalogue files a kind -/

/-- what the catalogue says of its paths: a kind of a project lies in it, one of the organization in
the directory its entry names, one of either by its namespace; a group is filed by its name -/
structure Rooted (x : JcAccess) (s : Served) (directory : KindInfo → String) : Prop where
  project : ∀ info home space name,
    info.scope = .project ∨ info.scope = .organizationOrProject ∧ home ≠ orgNamespace →
    Text.startsWith ("projects/" ++ home ++ "/") (s.reads.repoPath info home space name) = true
  organization : ∀ info space name, info.scope ≠ .project →
    Text.startsWith (directory info) (s.reads.repoPath info orgNamespace space name) = true
  group : ∀ info, kindInfo x "Group" = some info → info.scope ≠ .project
  /-- a group's file is named by the group -/
  groupFile : ∀ info, kindInfo x "Group" = some info → ∀ name name',
    s.reads.repoPath info orgNamespace "" name = s.reads.repoPath info orgNamespace "" name' → name = name'

def Content.kind? : Content → Option String
  | .manifest e => some e.kind
  | .group _ => some "Group"
  | .native _ => none

section
variable (x : JcAccess) (s : Served) (c : Caller) (project domain : String)
  (options : ImportOptions) (incoming : List Incoming)

/-- a resource of the mirror a manifest of the bundle has the home, kind and name of -/
def Conflicts (key : ResourceKey) : Prop :=
  ∃ e ∈ imported incoming, taken x c project e = true ∧
    key = ResourceKey.of (homeIn x project e) e.kind e.name

/-- the path a resource of the mirror is filed under -/
def heldPath (key : ResourceKey) : Option String := do
  let spec ← c.repository.resources.get? key
  let info ← kindInfo x key.kind
  let label := metaText (c.repository.metadata key) "labels" "joinedcontext.com/space"
  repositoryPath s.reads info key.ns ((label <|> specSpace spec <|> some key.ns).getD "") key.name

/-- a path that is a resource's own, or one of its native files' -/
def Touches (path : String) (key : ResourceKey) : Prop :=
  ∃ held, heldPath x s c key = some held ∧
    (path = held ∨ ownsNative path held key.name = true)

/-- a file in the project, or in the directory of the organization its kind's entry names -/
def Placed (directory : KindInfo → String) (f : String × Content) : Prop :=
  Text.startsWith ("projects/" ++ project ++ "/") f.1 = true ∨
    ∃ info, f.2.kind?.bind (kindInfo x) = some info ∧ Text.startsWith (directory info) f.1 = true

/-- what an import is to leave, of the files it plans -/
structure Leaves (directory : KindInfo → String) (files : List (String × Content)) : Prop where
  spared : options.conflictPolicy = .skip ∨ options.conflictPolicy = .rename →
    ∀ key, Conflicts x c project incoming key → ∀ f ∈ files, ¬ Touches x s c f.1 key
  whole : options.conflictPolicy = .fail → ∀ key, ¬ Conflicts x c project incoming key
  distinct : (files.map Prod.fst).Nodup
  placed : ∀ f ∈ files, Placed x project directory f

def groupPath (name : String) : Option String :=
  (kindInfo x "Group").bind (fun info => repositoryPath s.reads info orgNamespace "" name)

/-- a native file's path below its project -/
def below (path : String) : String :=
  match segments path with
  | "projects" :: _ :: rest => "/".intercalate rest
  | _ => path

/-- the file a native file of the bundle becomes in the project -/
def nativeIn (n : String × String) : String := "projects/" ++ project ++ "/" ++ below n.1

/-- the files a bundle's names give its manifests, its default groups and its native files are each
another -/
structure Distinct : Prop where
  /-- no two manifests that go in have one file -/
  files : ((imported incoming).filter (enters x c project options)).Pairwise (fun e e' =>
    fileIn x s c project domain options incoming e ≠ fileIn x s c project domain options incoming e')
  /-- no two of their default groups have one name -/
  groupNames : (groupsIn x s c project domain options incoming).Nodup
  /-- no two native files have one path below their projects -/
  nativeNames : ((nativesOf incoming).map (fun n => below n.1)).Nodup
  fileGroup : ∀ e ∈ (imported incoming).filter (enters x c project options),
    ∀ group ∈ groupsIn x s c project domain options incoming,
    fileIn x s c project domain options incoming e ≠ groupPath x s group
  fileNative : ∀ e ∈ (imported incoming).filter (enters x c project options),
    ∀ n ∈ nativesOf incoming,
    fileIn x s c project domain options incoming e ≠ some (nativeIn project n)
  groupNative : ∀ group ∈ groupsIn x s c project domain options incoming, ∀ n ∈ nativesOf incoming,
    groupPath x s group ≠ some (nativeIn project n)

/-- what the names of a bundle must keep apart: its native files, its manifests and its groups from the
resources it conflicts with, and each of them from the others -/
structure Apart : Prop extends Distinct x s c project domain options incoming where
  natives : options.conflictPolicy = .skip ∨ options.conflictPolicy = .rename →
    ∀ key, Conflicts x c project incoming key →
    ∀ n ∈ nativesOf incoming, ¬ Touches x s c (nativeIn project n) key
  manifests : options.conflictPolicy = .skip ∨ options.conflictPolicy = .rename →
    ∀ key, Conflicts x c project incoming key →
    ∀ e ∈ (imported incoming).filter (enters x c project options),
    ∀ path ∈ fileIn x s c project domain options incoming e, ¬ Touches x s c path key
  groups : options.conflictPolicy = .skip ∨ options.conflictPolicy = .rename →
    ∀ key, Conflicts x c project incoming key →
    ∀ group ∈ groupsIn x s c project domain options incoming,
    ∀ path ∈ groupPath x s group, ¬ Touches x s c path key

end

/-! ## the paths of a plan -/

section
variable {x : JcAccess} {s : Served} {c : Caller} {project domain : String}
  {options : ImportOptions} {incoming : List Incoming}

theorem reproject_eq (path : String) :
    reproject path project = "projects/" ++ project ++ "/" ++ below path := by
  unfold reproject
  split
  · rename_i head rest hsegments
    unfold below
    simp only [hsegments]
  · rename_i hother
    unfold below
    split
    · rename_i head rest hsegments
      exact (hother head rest hsegments).elim
    · rfl

theorem map_filterMap_eq {α β γ : Type} {f : α → Option β} {keep : α → Bool} {g : β → γ} {h : α → γ}
    {l : List α} (hsome : ∀ a b, f a = some b → keep a = true ∧ g b = h a)
    (hnone : ∀ a, f a = none → keep a = false) : (l.filterMap f).map g = (l.filter keep).map h := by
  induction l with
  | nil => rfl
  | cons a l ih =>
    cases hf : f a with
    | none => rw [List.filterMap_cons_none hf, List.filter_cons_of_neg (by simp [hnone a hf]), ih]
    | some b =>
      obtain ⟨hkeep, hg⟩ := hsome a b hf
      rw [List.filterMap_cons_some hf, List.filter_cons_of_pos hkeep, List.map_cons, List.map_cons, hg, ih]

theorem address_of_goesIn {e a : Envelope}
    (h : goesIn x s c project domain options incoming e = some a) :
    enters x c project options e = true ∧
      address x s project (referred (bundleRecords x s c project domain options incoming) a)
        = fileIn x s c project domain options incoming e := by
  have henters : enters x c project options e = true := by
    rw [goesIn_eq] at h
    exact (Option.ite_none_right_eq_some.mp h).1
  have hdestination := destination_eq x s c project domain options incoming e
  rw [if_pos henters, destination, h, Option.bind_some] at hdestination
  exact ⟨henters, hdestination⟩

theorem filed_paths {judged : List (Envelope × Verdict)} {groups : List (Envelope × List Envelope)}
    {filed : List (String × Content)}
    (hjudged : judgements x s c project domain options incoming = .ok judged)
    (hgroups : grouped x s c project (settled x s c project judged) = .ok groups)
    (hfiled : (groups.map Prod.fst).mapM (fileOf x s project incoming) = .ok filed) :
    ((imported incoming).filter (enters x c project options)).map
        (fileIn x s c project domain options incoming)
      = (filed.map Prod.fst).map some := by
  have h := Gate.map_eq_of_forall₂ (f := fun e => address x s project (referred (records judged) e))
    (g := fun f : String × Content => some f.1) (filed_ok hgroups hfiled)
    (fun _ _ ⟨_, _, haddress, _⟩ => haddress)
  rw [List.map_map, kept_eq hjudged, records_eq hjudged] at *
  refine Eq.trans (map_filterMap_eq (fun e a ha => address_of_goesIn ha) (fun e he => ?_)).symm h
  rw [goesIn_eq] at he
  cases henters : enters x c project options e with
  | false => rfl
  | true =>
    rw [henters] at he
    cases he

theorem Finishes.appRoles_eq {e w : Envelope} (h : Finishes e w) :
    appRoles w.spec = appRoles e.spec := by
  unfold appRoles textAt
  rw [h.members "lifecycle" (by simp [ownMember]), h.members "roles" (by simp [ownMember])]

theorem withGroups_names {e : Envelope} {r : Envelope × List Envelope}
    (h : withGroups x s c project e = .ok r) :
    r.2.map Envelope.name = if e.kind ≠ "App" then [] else
      ((appRoles e.spec).map (groupName e.name)).filter (fun group =>
        (c.repository.get orgNamespace "Group" group).isNone) := by
  unfold withGroups at h
  split at h
  · rename_i hkind
    cases h
    rw [if_pos hkind]
    rfl
  rename_i hkind
  rw [if_neg hkind]
  cases hgroups : (appRoles e.spec).mapM (defaultGroup x s c project e.name) with
  | error err =>
    rw [hgroups] at h
    exact absurd h (by simp [bind, Except.bind])
  | ok groups =>
    rw [hgroups] at h
    cases h
    show (groups.filterMap id).map Envelope.name = _
    have hroles := Gate.mapM_eq_ok.mp hgroups
    clear hgroups
    generalize appRoles e.spec = roles at hroles
    induction hroles with
    | nil => rfl
    | cons hrole _ ih =>
      rename_i role group roles groups _
      rw [List.map_cons, List.filter_cons, List.filterMap_cons, ← ih]
      unfold defaultGroup at hrole
      simp only at hrole
      split at hrole
      · exact absurd hrole (by simp)
      · split at hrole
        · exact absurd hrole (by simp)
        · split at hrole
          · rename_i hsome
            cases hrole
            rw [if_neg (by simp [Option.isSome_iff_ne_none.mp hsome])]
            rfl
          · rename_i hnone
            cases hrole
            rw [if_pos (by simpa using hnone)]
            rfl

theorem defaultGroups_names {judged : List (Envelope × Verdict)}
    {groups : List (Envelope × List Envelope)}
    (h : grouped x s c project (settled x s c project judged) = .ok groups) :
    (defaultGroups (settled x s c project judged) groups).map Envelope.name
      = defaultNames s c project ((kept judged).map (referred (records judged))) := by
  have hfinishes : List.Forall₂ Finishes ((kept judged).map (referred (records judged)))
      (settled x s c project judged) := finishes_settled judged
  have hbundled : ∀ group, (settled x s c project judged).any
        (fun e => e.kind = "Group" && e.name = group)
      = ((kept judged).map (referred (records judged))).any
        (fun e => e.kind = "Group" && e.name = group) := by
    intro group
    have hmap := Gate.map_eq_of_forall₂ (f := fun e => decide (e.kind = "Group" && e.name = group))
      (g := fun e => decide (e.kind = "Group" && e.name = group)) hfinishes
      (fun e w hew => by rw [hew.kind, hew.name])
    have hany := congrArg (fun l => l.any id) hmap
    simpa [List.any_map, Function.comp_def] using hany.symm
  unfold defaultGroups defaultNames
  simp only [hbundled]
  unfold grouped at h
  split at h
  · rename_i hrepository
    cases h
    rw [if_pos hrepository, List.flatMap_map]
    simp
  · rename_i hrepository
    rw [if_neg hrepository]
    have hnames : (groups.flatMap Prod.snd).map Envelope.name
        = ((kept judged).map (referred (records judged))).flatMap (fun e =>
          if e.kind ≠ "App" then [] else
          ((appRoles e.spec).map (groupName e.name)).filter (fun group =>
            (c.repository.get orgNamespace "Group" group).isNone)) := by
      rw [List.map_flatMap, List.flatMap_def, List.flatMap_def]
      congr 1
      refine (Gate.map_eq_of_forall₂ (Gate.forall₂_trans hfinishes (Gate.mapM_eq_ok.mp h)) ?_).symm
      rintro e r ⟨w, hew, hwr⟩
      rw [withGroups_names hwr, hew.kind, hew.name, hew.appRoles_eq]
    rw [← hnames, List.filter_map]
    rfl

/-- **The paths of a plan** are the files of its manifests and default groups by their names, and of
its native files. -/
theorem paths_of_plan {report : ImportReport} {files : List (String × Content)}
    (h : planImport x s c project domain options incoming = .ok (report, files)) :
    ∃ filed groups : List String,
      files.map Prod.fst = filed ++ groups ++ (nativesOf incoming).map (nativeIn project) ∧
      ((imported incoming).filter (enters x c project options)).map
        (fileIn x s c project domain options incoming) = filed.map some ∧
      (groupsIn x s c project domain options incoming).map (groupPath x s) = groups.map some := by
  obtain ⟨judged, groups, filed, groupFiles, -, hjudged, -, hgroups, hfiled, hgroupFiles, rfl, -⟩ :=
    planImport_ok h
  refine ⟨filed.map Prod.fst, groupFiles.map Prod.fst, ?_, filed_paths hjudged hgroups hfiled, ?_⟩
  · rw [List.map_append, List.map_append, List.map_map]
    congr 1
    exact List.map_congr_left (fun n _ => reproject_eq n.1)
  · rw [← defaultNames_eq, ← kept_eq hjudged, ← records_eq hjudged, ← defaultGroups_names hgroups,
      List.map_map, List.map_map]
    refine Gate.map_eq_of_forall₂ (Gate.mapM_eq_ok.mp hgroupFiles) (fun e f hf => ?_)
    obtain ⟨-, info, hinfo, hpath⟩ := groupFile_ok hf
    simp only [Function.comp, groupPath, hinfo, Option.bind_some, hpath]

/-! ## where they lie -/

theorem startsWith_append (start rest : String) : Text.startsWith start (start ++ rest) = true := by
  unfold Text.startsWith
  rw [String.toList_append, List.isPrefixOf_iff_prefix]
  exact List.prefix_append _ _

theorem startsWith_reproject (path : String) :
    Text.startsWith ("projects/" ++ project ++ "/") (reproject path project) = true := by
  unfold reproject
  split
  · exact startsWith_append _ _
  · exact startsWith_append _ _

theorem scope_of_kindInfo {kind : String} {info : KindInfo} (h : kindInfo x kind = some info) :
    byKind x kind = some info ∨ byKind x kind = none ∧ info.scope = .project := by
  unfold kindInfo kinds at h
  rw [List.find?_append] at h
  unfold byKind
  cases hfind : x.kinds.find? (fun info => info.kind = kind) with
  | some found =>
    rw [hfind] at h
    exact .inl h
  | none =>
    rw [hfind, Option.none_or] at h
    have hmem := List.mem_of_find?_eq_some h
    rw [List.mem_singleton.mp hmem]
    exact .inr ⟨rfl, rfl⟩

theorem placed_address {directory : KindInfo → String} (hroot : Rooted x s directory) {a : Envelope}
    {declared : Option String} (hns : a.ns = some (namespaceOf x a.kind declared project))
    {path : String} (h : address x s project a = some path) :
    Text.startsWith ("projects/" ++ project ++ "/") path = true ∨
      ∃ info, kindInfo x a.kind = some info ∧ Text.startsWith (directory info) path = true := by
  obtain ⟨info, hinfo, hpath⟩ := Option.bind_eq_some_iff.mp h
  unfold repositoryPath at hpath
  split at hpath
  · exact absurd hpath (by simp)
  obtain rfl := Option.some.inj hpath
  unfold storedIn namespaceOf
  cases hbelongs : belongsToTheOrganization x a.kind a.ns with
  | true =>
    refine .inr ⟨info, hinfo, ?_⟩
    rw [if_pos rfl]
    refine hroot.organization info _ _ (fun hscope => ?_)
    unfold belongsToTheOrganization at hbelongs
    rcases scope_of_kindInfo hinfo with hby | ⟨hby, -⟩
    · simp [hby, hscope] at hbelongs
    · simp [hby] at hbelongs
  | false =>
    left
    rw [if_neg (by simp)]
    refine hroot.project info project _ _ ?_
    rcases scope_of_kindInfo hinfo with hby | ⟨-, hscope⟩
    · cases hscope : info.scope with
      | project => exact .inl rfl
      | organization =>
        unfold belongsToTheOrganization at hbelongs
        simp [hby, hscope] at hbelongs
      | organizationOrProject =>
        -- its namespace is the organization's or the project's, and it is not the organization's
        refine .inr ⟨rfl, fun hproject => ?_⟩
        have hnsorg : a.ns = some orgNamespace := by
          rw [hns]
          unfold namespaceOf
          rw [hproject, ite_self]
        unfold belongsToTheOrganization at hbelongs
        rw [hby, hnsorg] at hbelongs
        simp [hscope] at hbelongs
    · exact .inl hscope

theorem ns_of_goesIn {e a : Envelope} (h : goesIn x s c project domain options incoming e = some a) :
    a.ns = some (namespaceOf x a.kind e.ns project) := by
  unfold goesIn at h
  simp only at h
  split at h
  · cases h
    rfl
  · split at h
    · exact absurd h (by simp)
    · exact absurd h (by simp)
    · cases h
      rfl
    · cases h
      rfl

/-- **Every planned file lies in the project or where its kind's entry puts it.** -/
theorem placed_of_plan {directory : KindInfo → String} (hroot : Rooted x s directory)
    {report : ImportReport} {files : List (String × Content)}
    (h : planImport x s c project domain options incoming = .ok (report, files)) :
    ∀ f ∈ files, Placed x project directory f := by
  obtain ⟨judged, groups, filed, groupFiles, -, hjudged, -, hgroups, hfiled, hgroupFiles, rfl, -⟩ :=
    planImport_ok h
  intro f hf
  rcases List.mem_append.mp hf with hf | hf
  · rcases List.mem_append.mp hf with hf | hf
    · obtain ⟨a, ha, w, hw, haddress, hcontent⟩ :=
        Gate.exists_of_forall₂ (filed_ok hgroups hfiled).flip hf
      rw [kept_eq hjudged] at ha
      obtain ⟨e, -, hgoes⟩ := List.mem_filterMap.mp ha
      have hns : a.ns = some (namespaceOf x a.kind e.ns project) := ns_of_goesIn hgoes
      have hplaced := placed_address hroot (a := referred (records judged) a) hns haddress
      refine hplaced.imp_right (fun ⟨info, hinfo, hdir⟩ => ⟨info, ?_, hdir⟩)
      rw [hcontent]
      show kindInfo x w.kind = some info
      rw [hw.kind]
      exact hinfo
    · obtain ⟨e, -, hfile⟩ := Gate.exists_of_forall₂ (Gate.mapM_eq_ok.mp hgroupFiles).flip hf
      obtain ⟨hcontent, info, hinfo, hpath⟩ := groupFile_ok hfile
      refine .inr ⟨info, ?_, ?_⟩
      · rw [hcontent]
        exact hinfo
      · unfold repositoryPath at hpath
        split at hpath
        · exact absurd hpath (by simp)
        · rw [← Option.some.inj hpath]
          exact hroot.organization info _ _ (hroot.group info hinfo)
  · obtain ⟨n, -, rfl⟩ := List.mem_map.mp hf
    exact .inl (startsWith_reproject n.1)

/-! ## what is left alone -/

/-- under `fail` a bundle that conflicts is not planned -/
theorem no_conflict_of_fail {judged : List (Envelope × Verdict)}
    (h : judgements x s c project domain options incoming = .ok judged)
    (hpolicy : options.conflictPolicy = .fail) (key : ResourceKey) :
    ¬ Conflicts x c project incoming key := by
  rintro ⟨e, he, hconflict, -⟩
  rw [← conflicting_eq x s c project domain options incoming] at hconflict
  obtain ⟨j, -, harrives, hverdict⟩ := Gate.exists_of_forall₂ (judgements_ok h) he
  rw [harrives] at hverdict
  rcases judge_ok hverdict with ⟨hnone, -⟩ | ⟨-, hp | hp | hp⟩
  · unfold conflicting at hconflict
    rw [hnone] at hconflict
    exact absurd hconflict (by simp)
  · exact absurd (hpolicy.symm.trans hp.1) (by simp)
  · exact absurd (hpolicy.symm.trans hp.1) (by simp)
  · exact absurd (hpolicy.symm.trans hp.1) (by simp)

section
variable {α β : Type} {f : α → Option β} {l : List α} {values : List β}

theorem nodup_of_map_some (h : l.map f = values.map some) :
    values.Nodup ↔ l.Pairwise (fun a b => f a ≠ f b) := by
  rw [← List.nodup_map_iff (Option.some_injective β), ← h, List.Nodup, List.pairwise_map]

theorem mem_of_map_some (h : l.map f = values.map some) {b : β} :
    b ∈ values ↔ ∃ a ∈ l, f a = some b := by
  rw [← List.mem_map, h, List.mem_map_of_injective (Option.some_injective β)]

theorem exists_of_map_some (h : l.map f = values.map some) {a : α} (ha : a ∈ l) :
    ∃ b ∈ values, f a = some b := by
  obtain ⟨b, hb, hfa⟩ := List.mem_map.mp (h ▸ List.mem_map_of_mem ha)
  exact ⟨b, hb, hfa.symm⟩

end

theorem groupPath_inj {directory : KindInfo → String} (hroot : Rooted x s directory)
    {name name' path : String} (h : groupPath x s name = some path)
    (h' : groupPath x s name' = some path) : name = name' := by
  obtain ⟨info, hinfo, hrepo⟩ := Option.bind_eq_some_iff.mp h
  obtain ⟨info', hinfo', hrepo'⟩ := Option.bind_eq_some_iff.mp h'
  obtain rfl := Option.some.inj (hinfo.symm.trans hinfo')
  unfold repositoryPath at hrepo hrepo'
  have hpath := (Option.ite_none_left_eq_some.mp hrepo).2
  have hpath' := (Option.ite_none_left_eq_some.mp hrepo').2
  exact hroot.groupFile info hinfo name name' (Option.some.inj (hpath.trans hpath'.symm))

theorem nodup_groups {directory : KindInfo → String} (hroot : Rooted x s directory)
    {names paths : List String} (h : names.map (groupPath x s) = paths.map some) :
    paths.Nodup ↔ names.Nodup := by
  rw [nodup_of_map_some h]
  refine List.Pairwise.iff_of_mem (fun {a b} ha hb => not_congr ⟨fun hpath => ?_, congrArg _⟩)
  obtain ⟨path, -, hpathA⟩ := exists_of_map_some h ha
  exact groupPath_inj hroot hpathA (hpath.symm.trans hpathA)

theorem nodup_natives : ((nativesOf incoming).map (nativeIn project)).Nodup ↔
    ((nativesOf incoming).map (fun n => below n.1)).Nodup := by
  have hinj : Function.Injective (fun path => "projects/" ++ project ++ "/" ++ path) := by
    intro a b hab
    have hlist := congrArg String.toList hab
    simp only [String.toList_append] at hlist
    exact String.toList_inj.mp (List.append_cancel_left hlist)
  have hmap : (nativesOf incoming).map (nativeIn project)
      = ((nativesOf incoming).map (fun n => below n.1)).map
        (fun path => "projects/" ++ project ++ "/" ++ path) := by
    rw [List.map_map]
    rfl
  rw [hmap, List.nodup_map_iff hinj]

section
variable {filed groups : List String}
  (hfiled : ((imported incoming).filter (enters x c project options)).map
    (fileIn x s c project domain options incoming) = filed.map some)
  (hgroups : (groupsIn x s c project domain options incoming).map (groupPath x s) = groups.map some)
include hfiled hgroups

/-- **The planned paths are distinct** where the names are. -/
theorem distinct_iff {directory : KindInfo → String} (hroot : Rooted x s directory) :
    (filed ++ groups ++ (nativesOf incoming).map (nativeIn project)).Nodup ↔
      Distinct x s c project domain options incoming := by
  rw [List.nodup_append, List.nodup_append, nodup_of_map_some hfiled, nodup_groups hroot hgroups,
    nodup_natives]
  constructor
  · rintro ⟨⟨hfiles, hnames, hfileGroup⟩, hnatives, hnative⟩
    refine ⟨hfiles, hnames, hnatives, fun e he group hgroup heq => ?_, fun e he n hn heq => ?_,
      fun group hgroup n hn heq => ?_⟩
    · obtain ⟨path, hpath, hfile⟩ := exists_of_map_some hfiled he
      obtain ⟨path', hpath', hfile'⟩ := exists_of_map_some hgroups hgroup
      exact hfileGroup path hpath path' hpath' (Option.some.inj (hfile.symm.trans (heq.trans hfile')))
    · have hpath := (mem_of_map_some hfiled).mpr ⟨e, he, heq⟩
      exact hnative _ (List.mem_append_left _ hpath) _ (List.mem_map_of_mem hn) rfl
    · have hpath := (mem_of_map_some hgroups).mpr ⟨group, hgroup, heq⟩
      exact hnative _ (List.mem_append_right _ hpath) _ (List.mem_map_of_mem hn) rfl
  · rintro ⟨hfiles, hnames, hnatives, hfileGroup, hfileNative, hgroupNative⟩
    refine ⟨⟨hfiles, hnames, ?_⟩, hnatives, ?_⟩
    · rintro path hpath _ hpath' rfl
      obtain ⟨e, he, hfile⟩ := (mem_of_map_some hfiled).mp hpath
      obtain ⟨group, hgroup, hfile'⟩ := (mem_of_map_some hgroups).mp hpath'
      exact hfileGroup e he group hgroup (hfile.trans hfile'.symm)
    · rintro path hpath _ hpath' rfl
      obtain ⟨n, hn, rfl⟩ := List.mem_map.mp hpath'
      rcases List.mem_append.mp hpath with hpath | hpath
      · obtain ⟨e, he, hfile⟩ := (mem_of_map_some hfiled).mp hpath
        exact hfileNative e he n hn hfile
      · obtain ⟨group, hgroup, hfile⟩ := (mem_of_map_some hgroups).mp hpath
        exact hgroupNative group hgroup n hn hfile

end

/-- **An import leaves what it says it leaves exactly when its bundle's names keep apart what they
must**: its native files, manifests and groups from the resources it conflicts with, and from one
another. -/
theorem leaves_iff {directory : KindInfo → String} (hroot : Rooted x s directory)
    {report : ImportReport} {files : List (String × Content)}
    (h : planImport x s c project domain options incoming = .ok (report, files)) :
    Leaves x s c project options incoming directory files ↔
      Apart x s c project domain options incoming := by
  obtain ⟨filed, groups, hpaths, hfiled, hgroups⟩ := paths_of_plan h
  have hmem : ∀ path, (∃ f ∈ files, f.1 = path) ↔
      (∃ e ∈ (imported incoming).filter (enters x c project options),
        fileIn x s c project domain options incoming e = some path) ∨
      (∃ group ∈ groupsIn x s c project domain options incoming, groupPath x s group = some path) ∨
      ∃ n ∈ nativesOf incoming, nativeIn project n = path := by
    intro path
    rw [← List.mem_map, hpaths, List.mem_append, List.mem_append, mem_of_map_some hfiled,
      mem_of_map_some hgroups, List.mem_map, or_assoc]
  constructor
  · intro hleaves
    have hspared : ∀ path, (∃ f ∈ files, f.1 = path) →
        options.conflictPolicy = .skip ∨ options.conflictPolicy = .rename →
        ∀ key, Conflicts x c project incoming key → ¬ Touches x s c path key := by
      rintro path ⟨f, hf, rfl⟩ hpolicy key hkey
      exact hleaves.spared hpolicy key hkey f hf
    refine ⟨(distinct_iff hfiled hgroups hroot).mp (hpaths ▸ hleaves.distinct), ?_, ?_, ?_⟩
    · intro hpolicy key hkey n hn
      exact hspared _ ((hmem _).mpr (.inr (.inr ⟨n, hn, rfl⟩))) hpolicy key hkey
    · intro hpolicy key hkey e he path hpath
      exact hspared _ ((hmem _).mpr (.inl ⟨e, he, hpath⟩)) hpolicy key hkey
    · intro hpolicy key hkey group hgroup path hpath
      exact hspared _ ((hmem _).mpr (.inr (.inl ⟨group, hgroup, hpath⟩))) hpolicy key hkey
  · intro hapart
    refine ⟨?_, ?_, hpaths ▸ (distinct_iff hfiled hgroups hroot).mpr hapart.toDistinct,
      placed_of_plan hroot h⟩
    · intro hpolicy key hkey f hf
      rcases (hmem f.1).mp ⟨f, hf, rfl⟩ with ⟨e, he, hfile⟩ | ⟨group, hgroup, hfile⟩ | ⟨n, hn, hfile⟩
      · exact hapart.manifests hpolicy key hkey e he f.1 hfile
      · exact hapart.groups hpolicy key hkey group hgroup f.1 hfile
      · exact hfile ▸ hapart.natives hpolicy key hkey n hn
    · obtain ⟨judged, -, -, -, -, hjudged, -⟩ := planImport_ok h
      exact no_conflict_of_fail hjudged

end

/-! ## a pipeline that is skipped -/

/-- the paths of a small catalogue: a space and a pipeline have directories of their own, an Endpoint
lies in its space -/
def smallPath (info : KindInfo) (home space name : String) : String :=
  if info.scope = .project || info.scope = .organizationOrProject && home ≠ orgNamespace then
    "projects/" ++ home ++ "/" ++
      (if info.kind = "ContextSpace" then "spaces/" ++ name ++ "/space.yaml"
      else if info.kind = "Pipeline" then "pipelines/" ++ name ++ "/pipeline.yaml"
      else if info.kind = "Endpoint" then "spaces/" ++ space ++ "/endpoints/" ++ name ++ ".yaml"
      else info.plural ++ "/" ++ name ++ ".yaml")
  else info.plural ++ "/" ++ name ++ ".yaml"

/-- jc-core's names and kinds as far as a small bundle needs them -/
def smallServed : Served where
  reads := ⟨fun _ => .error "missing field", fun _ => none, fun _ => none, smallPath,
    fun info => info.kind = "Endpoint"⟩
  template _ := ""
  serves _ version := version = "joinedcontext.com/v1"
  apiVersion := "joinedcontext.com/v1"
  validateLabel name :=
    if name.toList.all (fun c => ('a' ≤ c && c ≤ 'z') || Text.isDigit c || c = '-') then .ok ()
    else .error "not a DNS-1123 label"
  builtAnnotations := []
  importedFrom := "joinedcontext.com/imported-from"
  urnSegment project name pin := pin.getD (project ++ "-" ++ name)
  generateSlug call := "slug" ++ toString call
  jsonText _ := ""
  hasGroup _ := false
  hasClient _ := false
  repositoryOf _ := none
  pipelineMissing _ _ _ := []
  validate _ := none
  unshippedClaim _ := none

def smallDirectory (info : KindInfo) : String := info.plural ++ "/"

theorem smallServed_rooted : Rooted plainJc smallServed smallDirectory := by
  refine ⟨fun info home space name hscope => ?_, fun info space name hscope => ?_, ?_, ?_⟩
  · have hin : (info.scope = .project || info.scope = .organizationOrProject
        && home ≠ orgNamespace) = true := by
      rcases hscope with h | ⟨h, h'⟩
      · simp [h]
      · simp [h, h']
    show Text.startsWith ("projects/" ++ home ++ "/") (smallPath info home space name) = true
    unfold smallPath
    rw [if_pos hin]
    exact startsWith_append _ _
  · have hout : ¬ (info.scope = .project || info.scope = .organizationOrProject
        && orgNamespace ≠ orgNamespace) = true := by
      simp [hscope]
    show Text.startsWith (info.plural ++ "/") (smallPath info orgNamespace space name) = true
    unfold smallPath
    rw [if_neg hout, String.append_assoc]
    exact startsWith_append _ _
  · intro info hinfo
    have hgroup : kindInfo plainJc "Group" = some ⟨"Group", "groups", .organization⟩ := by decide
    obtain rfl := Option.some.inj (hgroup.symm.trans hinfo)
    exact (by decide : Scope.organization ≠ Scope.project)
  · intro info hinfo name name' hpath
    have hgroup : kindInfo plainJc "Group" = some ⟨"Group", "groups", .organization⟩ := by decide
    obtain rfl := Option.some.inj (hgroup.symm.trans hinfo)
    have hfile : ∀ name, smallPath ⟨"Group", "groups", .organization⟩ orgNamespace "" name
        = "groups" ++ "/" ++ name ++ ".yaml" := fun name => if_neg (by decide)
    have hlist := congrArg String.toList ((hfile name).symm.trans (hpath.trans (hfile name')))
    simp only [String.toList_append] at hlist
    exact String.toList_inj.mp (List.append_cancel_left (List.append_cancel_right hlist))

def bareManifest (kind ns name : String) (spec : Value) : Envelope :=
  ⟨"joinedcontext.com/v1", kind, name, some ns, [], spec, none, Envelope.beside_nil⟩

def uploaded (e : Envelope) : Incoming := ⟨none, some e, ""⟩

/-- a native file of an upload -/
def carried (path content : String) : Incoming := ⟨some path, none, content⟩

/-- a pipeline `aq` with its stream, as another project exported it -/
def aqBundle : List Incoming :=
  [uploaded (bareManifest "Pipeline" "helsinki" "aq" (.object [])),
    carried "projects/helsinki/pipelines/aq/bento.yaml" "input"]

/-- ana's view of a project `p` that has a pipeline of a name -/
def pipelineHeld (name : String) : Caller where
  repository := repositoryOf [("p", "Pipeline", name, .object [])]
  bootstrapGroup := "bootstrap"
  identity := personOf "ana"
  now := 0

def importWith (policy : ConflictPolicy) : ImportOptions := ⟨none, none, policy, []⟩

/-- the files of a bundle whose pipeline conflicts with none -/
def aqFiles : List (String × Content) :=
  [("projects/p/pipelines/aq/pipeline.yaml", .manifest
    (annotated "joinedcontext.com/imported-from" "upload"
      (bareManifest "Pipeline" "p" "aq" (.object [])))),
    ("projects/p/pipelines/aq/bento.yaml", .native "input")]

theorem exists_report {r : Except ApiError (ImportReport × List (String × Content))}
    {files : List (String × Content)} (h : r.map Prod.snd = .ok files) :
    ∃ report, r = .ok (report, files) := by
  obtain ⟨p, hp, hfiles⟩ := map_eq_ok h
  exact ⟨p.1, by rw [hp, ← hfiles]⟩

theorem leaves_iff_of_aq : ∃ report files,
    planImport plainJc smallServed (pipelineHeld "wind") "p" "hel.fi" (importWith .skip) aqBundle
      = .ok (report, files) ∧ Leaves plainJc smallServed (pipelineHeld "wind") "p"
        (importWith .skip) aqBundle smallDirectory files := by
  have hfiles : (planImport plainJc smallServed (pipelineHeld "wind") "p" "hel.fi" (importWith .skip)
      aqBundle).map Prod.snd = .ok aqFiles := by decide +kernel
  obtain ⟨report, hplan⟩ := exists_report hfiles
  refine ⟨report, aqFiles, hplan, (leaves_iff smallServed_rooted hplan).mpr ?_⟩
  have hnone : ∀ key, ¬ Conflicts plainJc (pipelineHeld "wind") "p" aqBundle key := by
    rintro key ⟨e, he, hconflict, -⟩
    have hall : ∀ e ∈ imported aqBundle, taken plainJc (pipelineHeld "wind") "p" e = false := by
      decide +kernel
    rw [hall e he] at hconflict
    exact absurd hconflict (by simp)
  have hdistinct : Distinct plainJc smallServed (pipelineHeld "wind") "p" "hel.fi" (importWith .skip)
      aqBundle := ⟨by decide +kernel, by decide +kernel, by decide +kernel, by decide +kernel,
    by decide +kernel, by decide +kernel⟩
  exact ⟨hdistinct, fun _ key hkey => absurd hkey (hnone key),
    fun _ key hkey => absurd hkey (hnone key), fun _ key hkey => absurd hkey (hnone key)⟩

/-- **A stream written over**: the project has a pipeline `aq`, the import is to skip it, and plans
the file its stream is in. -/
theorem skipped_stream_written : ∃ report files,
    planImport plainJc smallServed (pipelineHeld "aq") "p" "hel.fi" (importWith .skip) aqBundle
      = .ok (report, files) ∧ ¬ Leaves plainJc smallServed (pipelineHeld "aq") "p"
        (importWith .skip) aqBundle smallDirectory files := by
  have hfiles : (planImport plainJc smallServed (pipelineHeld "aq") "p" "hel.fi" (importWith .skip)
      aqBundle).map Prod.snd = .ok [("projects/p/pipelines/aq/bento.yaml", .native "input")] := by
    decide +kernel
  obtain ⟨report, hplan⟩ := exists_report hfiles
  refine ⟨report, _, hplan, fun hleaves => ?_⟩
  have hconflicts : Conflicts plainJc (pipelineHeld "aq") "p" aqBundle
      (ResourceKey.of "p" "Pipeline" "aq") :=
    ⟨bareManifest "Pipeline" "helsinki" "aq" (.object []), by decide +kernel, by decide +kernel,
      by decide +kernel⟩
  refine hleaves.spared (.inl rfl) _ hconflicts _ (List.mem_singleton.mpr rfl)
    ⟨"projects/p/pipelines/aq/pipeline.yaml", by decide +kernel, .inr (by decide +kernel)⟩

/-- two pipelines of another project, one by the name the other takes here -/
def aqTwice : List Incoming :=
  [uploaded (bareManifest "Pipeline" "helsinki" "aq" (.object [])),
    uploaded (bareManifest "Pipeline" "helsinki" "aq-helsinki" (.object []))]

/-- **A manifest renamed onto another**: the mirror does not have the new name, the bundle does, and the
two are planned as one file. -/
theorem renamed_onto_another : ∃ report files,
    planImport plainJc smallServed (pipelineHeld "aq") "p" "hel.fi" (importWith .rename) aqTwice
      = .ok (report, files) ∧ ¬ Leaves plainJc smallServed (pipelineHeld "aq") "p"
        (importWith .rename) aqTwice smallDirectory files := by
  have hpaths : (planImport plainJc smallServed (pipelineHeld "aq") "p" "hel.fi" (importWith .rename)
      aqTwice).map (fun r => r.2.map Prod.fst) = .ok ["projects/p/pipelines/aq-helsinki/pipeline.yaml",
        "projects/p/pipelines/aq-helsinki/pipeline.yaml"] := by
    decide +kernel
  obtain ⟨⟨report, files⟩, hplan, hfiles⟩ := map_eq_ok hpaths
  refine ⟨report, files, hplan, fun hleaves => ?_⟩
  have hdistinct := hleaves.distinct
  rw [hfiles] at hdistinct
  exact absurd hdistinct (by decide)

end Import
end Portal
