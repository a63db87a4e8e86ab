import Portal.Plan.Merge

/-!
# A JSON merge patch (`plan.rs`: `merge_patch`)

The patch goes over the target in place, member by member: a null removes, an object is merged into
what stands there, or into the empty object, and anything else replaces it.

* `mergePatch`           the patch as the code applies it, one member after the other;
* `rfc7386`              the same said of each member by itself, of a target that may be absent;
* `mergePatch_rfc7386`   the two are one, and the patch applied again changes nothing.
-/

namespace Portal

mutual

def mergePatch (target : Value) : Value → Value
  | .object patch => .object (patchMembers (target.asObject.getD []) patch)
  | patch => patch

/-- the members of a patch, in order, over those of an object -/
def patchMembers (members : List (String × Value)) : List (String × Value) → List (String × Value)
  | [] => members
  | (key, value) :: patch =>
    patchMembers
      (if value = .null then OrdMap.alterList key (fun _ => none) members
        else OrdMap.alterList key (fun entry => some (mergePatch (entry.getD .null) value)) members)
      patch

end

/-- a merge patch as RFC 7386 defines it -/
def rfc7386 (target : Option Value) (patch : Value) : Value :=
  match patch with
  | .object fields =>
    -- a target that is not an object starts from the empty one
    let members := (target.bind Value.asObject).getD []
    .object ((unionKeys members fields).filterMap fun key =>
      (match _h : fields.lookup key with
        | none => members.lookup key
        | some value =>
          if value = Value.null then none else some (rfc7386 (members.lookup key) value)).map
        (fun value => (key, value)))
  | _ => patch
termination_by patch.size
decreasing_by exact Nat.lt_succ_of_le (Value.size_lookup _h)

theorem mergePatch_other (target : Value) {patch : Value} (h : patch.asObject = none) :
    mergePatch target patch = patch := by
  cases patch with
  | object => cases h
  | _ => rfl

theorem rfc7386_other (target : Option Value) {patch : Value} (h : patch.asObject = none) :
    rfc7386 target patch = patch := by
  unfold rfc7386
  split
  · cases h
  · rfl

/-! ## the members of a patched object -/

theorem patchMembers_sorted {members : List (String × Value)} (patch : List (String × Value))
    (h : members.Pairwise (fun p q => p.1 < q.1)) :
    (patchMembers members patch).Pairwise (fun p q => p.1 < q.1) := by
  induction patch generalizing members with
  | nil => exact h
  | cons p patch ih =>
    obtain ⟨key, value⟩ := p
    refine ih ?_
    split
    · exact OrdMap.alterList_sorted key _ h
    · exact OrdMap.alterList_sorted key _ h

def patched (held patch : Option Value) : Option Value :=
  match patch with
  | none => held
  | some value => if value = .null then none else some (mergePatch (held.getD .null) value)

theorem lookup_patchMembers {members patch : List (String × Value)}
    (hm : members.Pairwise (fun p q => p.1 < q.1)) (hp : (patch.map Prod.fst).Nodup) (key : String) :
    (patchMembers members patch).lookup key = patched (members.lookup key) (patch.lookup key) := by
  induction patch generalizing members with
  | nil => rfl
  | cons p patch ih =>
    obtain ⟨key', value⟩ := p
    rw [List.map_cons, List.nodup_cons] at hp
    obtain ⟨hnew, hnodup⟩ := hp
    have hnext : ∀ f : Option Value → Option Value,
        ((OrdMap.alterList key' f members).lookup key
          = if key = key' then f (members.lookup key') else members.lookup key) :=
      fun f => OrdMap.lookup_alterList key' key f hm
    have hsorted : (if value = Value.null then OrdMap.alterList key' (fun _ => none) members
        else OrdMap.alterList key' (fun entry => some (mergePatch (entry.getD .null) value))
          members).Pairwise (fun p q => p.1 < q.1) := by
      split
      · exact OrdMap.alterList_sorted key' _ hm
      · exact OrdMap.alterList_sorted key' _ hm
    unfold patchMembers
    rw [ih hsorted hnodup, List.lookup_cons]
    by_cases hkey : key = key'
    · -- the rest of the patch has this key no more
      subst hkey
      have hnone : patch.lookup key = none := by
        rw [List.lookup_eq_none_iff]
        intro q hq
        simp only [bne_iff_ne, ne_eq]
        exact fun e => hnew (List.mem_map.mpr ⟨q, hq, e.symm⟩)
      rw [hnone, beq_self_eq_true]
      simp only [patched]
      split
      · rw [hnext, if_pos rfl]
      · rw [hnext, if_pos rfl]
    · have hne : (key == key') = false := by simpa using hkey
      rw [hne]
      simp only
      split
      · rw [hnext, if_neg hkey]
      · rw [hnext, if_neg hkey]

theorem ordered_nodup {fields : List (String × Value)} (h : (Value.object fields).Ordered) :
    (fields.map Prod.fst).Nodup := by
  rw [List.Nodup, List.pairwise_map]
  exact h.1.imp fun hlt => ne_of_lt hlt

theorem members_sorted {target : Value} (h : target.Ordered) :
    (target.asObject.getD []).Pairwise (fun p q => p.1 < q.1) := by
  cases target with
  | object fields => exact h.1
  | _ => exact List.Pairwise.nil

theorem ordered_member {target : Value} (h : target.Ordered) {key : String} {v : Value}
    (hv : (target.asObject.getD []).lookup key = some v) : v.Ordered := by
  cases target with
  | object fields => exact ordered_lookup h hv
  | _ => cases hv

/-! ## the two definitions -/

theorem rfc7386_none (patch : Value) : rfc7386 none patch = rfc7386 (some .null) patch := by
  cases patch with
  | object fields =>
    rw [rfc7386, rfc7386]
    rfl
  | _ => rw [rfc7386_other _ rfl, rfc7386_other _ rfl]

theorem rfc7386_object (target : Value) (fields : List (String × Value)) :
    ∃ result : List (String × Value), rfc7386 (some target) (.object fields) = .object result ∧
      result.Pairwise (fun p q => p.1 < q.1) ∧ ∀ key, result.lookup key =
        match fields.lookup key with
        | none => (target.asObject.getD []).lookup key
        | some value =>
          if value = .null then none
          else some (rfc7386 ((target.asObject.getD []).lookup key) value) := by
  rw [rfc7386]
  refine ⟨_, rfl, ?_, fun key => ?_⟩
  · refine List.Pairwise.filterMap _ ?_ (OrdMap.keySet_sorted _)
    intro k k' hlt p hp p' hp'
    obtain ⟨x, -, rfl⟩ := Option.map_eq_some_iff.mp hp
    obtain ⟨x', -, rfl⟩ := Option.map_eq_some_iff.mp hp'
    exact hlt
  · rw [OrdMap.lookup_filterMap _ (unionKeys_nodup _ _)]
    split
    · simp only [Option.bind_some]
      split <;> rename_i h <;> rw [h]
    · rename_i hkey
      obtain ⟨hmember, hfield⟩ := lookup_none_of_not_mem_unionKeys hkey
      simp only [Option.bind_some] at hmember
      rw [hfield]
      exact hmember.symm

theorem mergePatch_eq (target patch : Value) (ht : target.Ordered) (hp : patch.Ordered) :
    mergePatch target patch = rfc7386 (some target) patch := by
  induction patch using Value.member_induction generalizing target with
  | other patch h => rw [mergePatch_other target h, rfc7386_other _ h]
  | object fields ih =>
    obtain ⟨result, hresult, hsorted, hlookup⟩ := rfc7386_object target fields
    rw [hresult]
    refine object_ext (patchMembers_sorted fields (members_sorted ht)) hsorted fun key => ?_
    rw [lookup_patchMembers (members_sorted ht) (ordered_nodup hp), hlookup]
    unfold patched
    cases hfield : fields.lookup key with
    | none => rfl
    | some value =>
      simp only
      split
      · rfl
      · have hvalue : value.Ordered := ordered_lookup hp hfield
        cases hheld : (target.asObject.getD []).lookup key with
        | none =>
          rw [rfc7386_none]
          exact congrArg some (ih key value hfield .null trivial hvalue)
        | some held => exact congrArg some (ih key value hfield held (ordered_member ht hheld) hvalue)

theorem mergePatch_twice (target patch : Value) (ht : target.Ordered) (hp : patch.Ordered) :
    mergePatch (mergePatch target patch) patch = mergePatch target patch := by
  induction patch using Value.member_induction generalizing target with
  | other patch h => rw [mergePatch_other _ h, mergePatch_other _ h]
  | object fields ih =>
    have hmembers := members_sorted ht
    have honce := patchMembers_sorted fields hmembers
    refine object_ext (patchMembers_sorted fields honce) honce fun key => ?_
    have hnodup := ordered_nodup hp
    show (patchMembers (patchMembers (target.asObject.getD []) fields) fields).lookup key
      = (patchMembers (target.asObject.getD []) fields).lookup key
    rw [lookup_patchMembers honce hnodup, lookup_patchMembers hmembers hnodup]
    cases hfield : fields.lookup key with
    | none => rfl
    | some value =>
      simp only [patched]
      split
      · rfl
      · have hvalue : value.Ordered := ordered_lookup hp hfield
        refine congrArg some (ih key value hfield _ ?_ hvalue)
        cases hheld : (target.asObject.getD []).lookup key with
        | none => exact trivial
        | some held => exact ordered_member ht hheld

/-- **A merge patch is RFC 7386's, and applied again it changes nothing.** -/
theorem mergePatch_rfc7386 (target patch : Value) (ht : target.Ordered) (hp : patch.Ordered) :
    mergePatch target patch = rfc7386 (some target) patch ∧
      mergePatch (mergePatch target patch) patch = mergePatch target patch :=
  ⟨mergePatch_eq target patch ht hp, mergePatch_twice target patch ht hp⟩

/-- a patch with a null below a member the target does not have -/
theorem mergePatch_rfc7386_of_absent :
    let target : Value := .object [("a", .number (.int 1)), ("c", .string "x")]
    let patch : Value := .object [("a", .null), ("b", .object [("x", .null), ("y", .bool true)])]
    mergePatch target patch = .object [("b", .object [("y", .bool true)]), ("c", .string "x")] ∧
      mergePatch target patch = rfc7386 (some target) patch ∧
      mergePatch (mergePatch target patch) patch = mergePatch target patch := by
  intro target patch
  have htarget : target.Ordered := ⟨by decide +kernel, trivial, trivial, trivial⟩
  have hpatch : patch.Ordered :=
    ⟨by decide +kernel, trivial, ⟨by decide +kernel, trivial, trivial, trivial⟩, trivial⟩
  exact ⟨by decide +kernel, mergePatch_rfc7386 target patch htarget hpatch⟩

end Portal
