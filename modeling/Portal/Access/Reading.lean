import Portal.Access.Administrators

/-!
# What a caller may read (`permissions.rs`: `may_in`, `may_read_manifest`, `may_read_envelope`,
`names_caller`)

A listing asks of every stored envelope whether the caller may read it, and answers from the grants
alone where one of them reads the kind in the whole project.  A single read asks the same of the
manifest.  Which bindings are the caller's is first asked of their raw subjects, and again of the
parsed ones.

* `Effective.mayReadManifest`, `mayReadEnvelope`   the slow answer and the fast one;
* `namesCaller_eq`    of a binding that parses, the raw subjects and the parsed ones say the same;
* `reads_agree`       no listing shows or hides what a single read would not.
-/

namespace Portal
namespace Access

/-- what jc-core documents of a binding's subjects: each is read from the entry of `subjects` in its
place, its `user` and its `group` from the members of these names -/
def JcAccess.SubjectsRead (x : JcAccess) : Prop :=
  ∀ spec binding, x.roleBindingSpec spec = .ok binding →
    binding.subjects = (((spec.get? "subjects").bind Value.asArray).getD []).map
      (fun s => ⟨textAt s "user", textAt s "group"⟩)

/-! ## one manifest -/

section
variable (x : JcAccess) (e : Effective) (kind : String)

/-- whether a grant lets the caller `verb` on a kind in a space: a project-wide one, or one bound to
that very space -/
def Effective.mayIn (verb : Verb) (space : Option String) : Bool :=
  e.bootstrap || e.grants.any (fun g => x.grants g.rule kind verb
    && (g.organization.isNone || verb ≠ .read)
    && match g.space with
      | none => true
      | some bound => space = some bound)

def Effective.mayReadIn (space : Option String) : Bool := e.mayIn x kind .read space

/-- the space a manifest is read in; a ContextSpace is in its own -/
def spaceRead (manifest : Value) : Option String :=
  if kind = "ContextSpace" then (valueAt (some manifest) ["metadata", "name"]).bind Value.asStr
  else spaceRef manifest

def Effective.mayReadManifest (manifest : Value) : Bool :=
  e.mayReadIn x kind (spaceRead kind manifest)
    || e.grants.any (fun g => g.organization.isSome && x.grants g.rule kind .read
      && g.rule.constraints.all (fun c => satisfied x c (some manifest)))

/-- of a stored envelope, which is serialised only when no grant reads the kind in the whole project -/
def Effective.mayReadEnvelope (manifest : Except String Value) : Bool :=
  e.bootstrap
    || e.grants.any (fun g => g.space.isNone && g.organization.isNone && x.grants g.rule kind .read)
    || match manifest with
      | .ok manifest => e.mayReadManifest x kind manifest
      | .error _ => false

end

section
variable (x : JcAccess) (r : Repository) (e : Effective) (ns kind : String)

def Repository.listed : List (String × Value) :=
  (r.list ns kind).toList.filter (fun p =>
    e.mayReadEnvelope x kind (.ok (r.manifest (ResourceKey.of ns kind p.1) p.2)))

def Repository.read (name : String) : Option Value :=
  (r.get ns kind name).filter (fun spec =>
    e.mayReadManifest x kind (r.manifest (ResourceKey.of ns kind name) spec))

end

section
variable (x : JcAccess) (m : Mirror) (identity : Identity) (now : Int)

/-- what one binding gives the caller, by its parsed subjects alone -/
def parsedGrants (name : String) (spec : Value) : List (Reach × Grant) :=
  match x.roleBindingSpec spec with
  | .error _ => []
  | .ok binding =>
    if !binding.subjects.any (isSubject identity) then []
    else if !windowOpen x binding.validity now then []
    else
      match Reach.of binding.scope with
      | none => []
      | some reach =>
        match roleOf x m reach binding.role with
        | none => []
        | some (role, spec) => grantsOf reach role name spec.rules

/-- every rule in force, with every binding of the organization parsed -/
def parsedInForce : List (Reach × Grant) :=
  (m.list orgNamespace "RoleBinding").toList.flatMap
    (fun p => parsedGrants x m identity now p.1 p.2) ++ accountGrants x m identity now

end

/-! ## the two answers -/

section
variable {x : JcAccess}

theorem mayReadIn_of_whole {e : Effective} {kind : String} {g : Grant} (hg : g ∈ e.grants)
    (hspace : g.space = none) (horg : g.organization = none) (hread : x.grants g.rule kind .read = true)
    (space : Option String) : e.mayReadIn x kind space = true := by
  unfold Effective.mayReadIn Effective.mayIn
  rw [Bool.or_eq_true]
  refine .inr (List.any_eq_true.mpr ⟨g, hg, ?_⟩)
  simp [hread, horg, hspace]

/-- **The fast answer is the slow one.** -/
theorem mayReadEnvelope_ok (e : Effective) (kind : String) (manifest : Value) :
    e.mayReadEnvelope x kind (.ok manifest) = e.mayReadManifest x kind manifest := by
  unfold Effective.mayReadEnvelope
  rw [Bool.eq_iff_iff, Bool.or_eq_true, Bool.or_eq_true]
  constructor
  · rintro ((hboot | hwhole) | hslow)
    · simp [Effective.mayReadManifest, Effective.mayReadIn, Effective.mayIn, hboot]
    · obtain ⟨g, hg, hgrant⟩ := List.any_eq_true.mp hwhole
      simp only [Bool.and_eq_true, Option.isNone_iff_eq_none] at hgrant
      obtain ⟨⟨hspace, horg⟩, hread⟩ := hgrant
      unfold Effective.mayReadManifest
      rw [mayReadIn_of_whole hg hspace horg hread, Bool.true_or]
    · exact hslow
  · exact .inr

theorem mem_listed {r : Repository} {e : Effective} {ns kind name : String} {spec : Value} :
    (name, spec) ∈ r.listed x e ns kind ↔ r.read x e ns kind name = some spec := by
  unfold Repository.listed Repository.read
  rw [List.mem_filter, OrdMap.mem_toList, Mirror.list_get?, Option.filter_eq_some_iff]
  simp only [mayReadEnvelope_ok]

theorem namesCaller_eq (hs : x.SubjectsRead) {spec : Value} {binding : RoleBindingSpec}
    (h : x.roleBindingSpec spec = .ok binding) (identity : Identity) :
    namesCaller identity spec = binding.subjects.any (isSubject identity) := by
  rw [hs spec binding h, List.any_map]
  unfold namesCaller
  cases (spec.get? "subjects").bind Value.asArray with
  | none => rfl
  | some subjects => rfl

theorem bindingGrants_eq (hs : x.SubjectsRead) (m : Mirror) (identity : Identity) (now : Int)
    (name : String) (spec : Value) :
    bindingGrants x m identity now name spec = parsedGrants x m identity now name spec := by
  unfold bindingGrants parsedGrants
  cases hparse : x.roleBindingSpec spec with
  | error e => simp
  | ok binding =>
    rw [namesCaller_eq hs hparse]
    -- the two read the rest of the binding with the same branches
    show _ = if !binding.subjects.any (isSubject identity) then _ else _
    by_cases hany : (!binding.subjects.any (isSubject identity)) = true
    · exact (if_pos hany).trans (if_pos hany).symm
    · exact if_neg hany

theorem inForce_eq (hs : x.SubjectsRead) (m : Mirror) (identity : Identity) (now : Int) :
    inForce x m identity now = parsedInForce x m identity now := by
  unfold inForce parsedInForce
  congr 1
  exact List.flatMap_congr (fun p _ => bindingGrants_eq hs m identity now p.1 p.2)

end

/-! ## at jc-core's plain reading -/

theorem plainJc_subjectsRead : plainJc.SubjectsRead := by
  intro spec binding h
  have hb := readBinding_of_ok h
  simp only [readBinding, readItems, bind, Option.bind_eq_some_iff, pure, Option.some.injEq] at hb
  obtain ⟨_, _, _, _, subjects, hsubjects, rfl⟩ := hb
  have hpure : List.mapM (fun s => some (Subject.mk (textAt s "user") (textAt s "group")))
      (((spec.get? "subjects").bind Value.asArray).getD [])
      = some ((((spec.get? "subjects").bind Value.asArray).getD []).map
        (fun s => ⟨textAt s "user", textAt s "group"⟩)) := List.mapM_pure
  rw [hpure] at hsubjects
  exact (Option.some.inj hsubjects).symm

def twoSpaces : Repository :=
  repositoryOf [("city", "ContextSpace", "air", .object []),
    ("city", "Endpoint", "wind", .object [("contextSpaceRef", .string "wind")]),
    ("city", "Endpoint", "smog", .object [("contextSpaceRef", .string "air")]),
    ("org", "Role", "reader", roleValue [ruleValue ["Endpoint"] ["read"]]),
    ("org", "RoleBinding", "air-readers", bindingValue "reader" "contextSpace" "air" "ana")]

def readerHere : Effective := effective plainJc twoSpaces "bootstrap" (personOf "ana") "city" 0

example : readerHere.mayReadIn plainJc "Endpoint" (some "wind") = false := by decide +kernel

end Access
end Portal
