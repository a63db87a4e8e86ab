import Portal.Changes.Request

/-!
# What an import rewrites of a manifest (`api/import.rs`: `namespace_of`, `remap_value`, `remap_urn`,
`rewrite_space`, `rewrite_reference`, `references`)

A bundle comes from another project, often of another organization.  Its references move into the
namespace they land in, its ids onto the domain and the spaces of this organization, and a resource
that lands under another name takes the references that name it along.  Each rewriting goes through
the members of an object one by one, so what it does to one member can be said of that member alone.

* `remapMember`, `rewriteMember`     what a rewriting does to the member under a key;
* `get?_remapValue`, `get?_rewriteReference`, `get?_mapStrings`;
* `reference`                        the manifest the member under a key refers to.
-/

namespace Portal

namespace Value

theorem mapItems_eq (f : String → String) (items : List Value) :
    mapItems f items = items.map (mapStrings f) := by
  induction items with
  | nil => rfl
  | cons v items ih => rw [mapItems, ih, List.map_cons]

theorem mapFields_eq (f : String → String) (fields : List (String × Value)) :
    mapFields f fields = fields.map (fun p => (p.1, mapStrings f p.2)) := by
  induction fields with
  | nil => rfl
  | cons p fields ih =>
    obtain ⟨k, v⟩ := p
    rw [mapFields, ih, List.map_cons]

theorem lookup_map_members (f : String → Value → Value) (fields : List (String × Value))
    (key : String) :
    (fields.map (fun p => (p.1, f p.1 p.2))).lookup key = (fields.lookup key).map (f key) := by
  induction fields with
  | nil => rfl
  | cons p fields ih =>
    rw [List.map_cons, List.lookup_cons, List.lookup_cons, ih]
    cases hb : key == p.1 with
    | true =>
      rw [beq_iff_eq.mp hb]
      rfl
    | false => rfl

@[simp] theorem get?_mapStrings (f : String → String) (v : Value) (key : String) :
    (mapStrings f v).get? key = (v.get? key).map (mapStrings f) := by
  cases v with
  | object fields =>
    rw [mapStrings, mapFields_eq, get?_object, get?_object]
    exact lookup_map_members (fun _ => mapStrings f) fields key
  | _ => rfl

@[simp] theorem asStr_mapStrings (f : String → String) (v : Value) :
    (mapStrings f v).asStr = v.asStr.map f := by
  cases v <;> rfl

@[simp] theorem asArray_mapStrings (f : String → String) (v : Value) :
    (mapStrings f v).asArray = v.asArray.map (List.map (mapStrings f)) := by
  cases v with
  | array items =>
    rw [mapStrings, mapItems_eq]
    rfl
  | _ => rfl

end Value

theorem textAt_mapStrings (f : String → String) (v : Value) (key : String) :
    textAt (Value.mapStrings f v) key = (textAt v key).map f := by
  unfold textAt
  rw [Value.get?_mapStrings]
  cases v.get? key with
  | none => rfl
  | some w => exact Value.asStr_mapStrings f w

namespace Import

open Access Changes

/-! ## ids -/

/-- the segments of an id, or of an anchored pattern of ids, and whether it is a pattern -/
def idSegments (text : String) : Option (Bool × List String) :=
  let body := (Text.after "^" text).getD text
  let segments := (Text.split (· = ':') body.toList).map String.ofList
  if Text.startsWith "urn:ngsi-ld:" body && 6 ≤ segments.length then
    some (Text.startsWith "^" text, segments)
  else none

def idText (pattern : Bool) (segments : List String) : String :=
  (if pattern then "^" else "") ++ ":".intercalate segments

/-- an id of one of the spaces under another domain; `none` where it stays as it is -/
def remapUrn (x : JcAccess) (domain : String) (spaces : List String) (text : String) :
    Option String := do
  let (pattern, segments) ← idSegments text
  if !spaces.contains ((segments[4]?).getD "") then none
  else
    let replacement := if pattern then x.escape domain else domain
    if segments[3]? = some replacement then none
    else some (idText pattern (segments.set 3 replacement))

/-- an id of the space `old` in the space `new` -/
def moveSpace (old new text : String) : String :=
  match idSegments text with
  | none => text
  | some (pattern, segments) =>
    if segments[4]? = some old then idText pattern (segments.set 4 new) else text

/-- every id of a space moved onto its new name -/
def rewriteSpace (old new : String) : Value → Value := Value.mapStrings (moveSpace old new)

example : moveSpace "air" "wind" "^urn:ngsi-ld:Sensor:hel\\.fi:air:.*$"
    = "^urn:ngsi-ld:Sensor:hel\\.fi:wind:.*$" := by decide +kernel

/-! ## namespaces -/

section
variable (x : JcAccess)

def namespaceOf (kind : String) (declared : Option String) (project : String) : String :=
  if belongsToTheOrganization x kind declared then orgNamespace else project

/-- where a reference to a kind points from inside a project -/
def namespaceFor (kind project : String) : String := namespaceOf x kind none project

variable (source target domain : String) (spaces : List String)

/-- a text with its domain replaced, where it is an id of the bundle's own -/
def remapText (text : String) : String := (remapUrn x domain spaces text).getD text

/-- the namespace of a typed reference: `referenced` is where its kind lives -/
def remapNamespace (referenced : Option String) (ns : String) : String :=
  match referenced with
  | none => ns
  | some referenced => if ns = source || referenced = orgNamespace then referenced else ns

/-- where the kind of an object with a `kind` lives -/
def referencedBy (v : Value) : Option String := (textAt v "kind").map (fun k => namespaceFor x k target)

mutual

def remapValue : Value → Value
  | .object members =>
    .object (remapMembers (referencedBy x target (.object members)) members)
  | .array items => .array (remapItems items)
  | .string text => .string (remapText x domain spaces text)
  | .null => .null
  | .bool b => .bool b
  | .number n => .number n

def remapItems : List Value → List Value
  | [] => []
  | v :: items => remapValue v :: remapItems items

def remapMembers (referenced : Option String) : List (String × Value) → List (String × Value)
  | [] => []
  | (key, child) :: members =>
    (key, if key = "namespace" && child.asStr.isSome then
        .string (remapText x domain spaces
          (remapNamespace source referenced (child.asStr.getD "")))
      else remapValue child) :: remapMembers referenced members

end

def remapMember (referenced : Option String) (key : String) (child : Value) : Value :=
  if key = "namespace" && child.asStr.isSome then
    .string (remapText x domain spaces (remapNamespace source referenced (child.asStr.getD "")))
  else remapValue x source target domain spaces child

end

/-! ## references -/

/-- the kind of the manifest a field's text names (`STRING_REFS`) -/
def stringRef (key : String) : Option String :=
  if key = "contextSpaceRef" then some "ContextSpace" else none

def replaceText (key text : String) (v : Value) : Value :=
  match v with
  | .object fields => .object (fields.map (fun p => (p.1, if p.1 = key then .string text else p.2)))
  | v => v

section
variable (kind old new : String)

/-- whether the member under a key is a typed reference to `old` -/
def namesOld (key : String) (child : Value) : Bool :=
  Text.endsWith "Ref" key && textAt child "kind" = some kind && textAt child "name" = some old

mutual

/-- every reference to `old` naming `new` -/
def rewriteReference : Value → Value
  | .object members => .object (rewriteMembers members)
  | .array items => .array (rewriteItems items)
  | .string text => .string text
  | .null => .null
  | .bool b => .bool b
  | .number n => .number n

def rewriteItems : List Value → List Value
  | [] => []
  | v :: items => rewriteReference v :: rewriteItems items

def rewriteMembers : List (String × Value) → List (String × Value)
  | [] => []
  | (key, child) :: members =>
    (key, if stringRef key = some kind && child.asStr = some old then .string new
      else if namesOld kind old key child then replaceText "name" new child
      else rewriteReference child) :: rewriteMembers members

end

def rewriteMember (key : String) (child : Value) : Value :=
  if stringRef key = some kind && child.asStr = some old then .string new
  else if namesOld kind old key child then replaceText "name" new child
  else rewriteReference kind old new child

end

/-! ## member by member -/

section
variable (x : JcAccess) (source target domain : String) (spaces : List String)

theorem remapMembers_eq (referenced : Option String) (members : List (String × Value)) :
    remapMembers x source target domain spaces referenced members
      = members.map (fun p => (p.1, remapMember x source target domain spaces referenced p.1 p.2)) := by
  induction members with
  | nil => simp [remapMembers]
  | cons p members ih =>
    obtain ⟨key, child⟩ := p
    rw [List.map_cons, ← ih]
    rw [remapMembers]
    rfl

theorem get?_remapValue (v : Value) (key : String) :
    (remapValue x source target domain spaces v).get? key
      = (v.get? key).map (remapMember x source target domain spaces (referencedBy x target v) key) := by
  cases v with
  | object members =>
    rw [remapValue, remapMembers_eq, Value.get?_object, Value.get?_object]
    exact Value.lookup_map_members _ members key
  | _ => simp [remapValue, Value.get?, Value.asObject]

end

section
variable (kind old new : String)

theorem rewriteMembers_eq (members : List (String × Value)) :
    rewriteMembers kind old new members
      = members.map (fun p => (p.1, rewriteMember kind old new p.1 p.2)) := by
  induction members with
  | nil => simp [rewriteMembers]
  | cons p members ih =>
    obtain ⟨key, child⟩ := p
    rw [List.map_cons, ← ih]
    rw [rewriteMembers]
    rfl

theorem rewriteItems_eq (items : List Value) :
    rewriteItems kind old new items = items.map (rewriteReference kind old new) := by
  induction items with
  | nil => simp [rewriteItems]
  | cons v items ih => rw [rewriteItems, ih, List.map_cons]

theorem get?_rewriteReference (v : Value) (key : String) :
    (rewriteReference kind old new v).get? key
      = (v.get? key).map (rewriteMember kind old new key) := by
  cases v with
  | object members =>
    rw [rewriteReference, rewriteMembers_eq, Value.get?_object, Value.get?_object]
    exact Value.lookup_map_members _ members key
  | _ => simp [rewriteReference, Value.get?, Value.asObject]

theorem asStr_rewriteReference (v : Value) :
    (rewriteReference kind old new v).asStr = v.asStr := by
  cases v <;> simp [rewriteReference, Value.asStr]

theorem asArray_rewriteReference (v : Value) :
    (rewriteReference kind old new v).asArray
      = v.asArray.map (List.map (rewriteReference kind old new)) := by
  cases v with
  | array items =>
    rw [rewriteReference, rewriteItems_eq]
    rfl
  | _ => simp [rewriteReference, Value.asArray]

theorem rewriteMember_of_not_ref {key : String} (hkey : Text.endsWith "Ref" key = false)
    (child : Value) : rewriteMember kind old new key child = rewriteReference kind old new child := by
  have hstring : stringRef key = none := by
    unfold stringRef
    rw [if_neg]
    intro h
    rw [h] at hkey
    exact absurd hkey (by decide)
  simp [rewriteMember, hstring, namesOld, hkey]

theorem textAt_rewriteReference {key : String} (hkey : Text.endsWith "Ref" key = false) (v : Value) :
    textAt (rewriteReference kind old new v) key = textAt v key := by
  unfold textAt
  rw [get?_rewriteReference]
  cases v.get? key with
  | none => rfl
  | some child =>
    rw [Option.map_some, rewriteMember_of_not_ref kind old new hkey]
    exact asStr_rewriteReference kind old new child

theorem get?_replaceText (key text : String) (v : Value) (key' : String) :
    (replaceText key text v).get? key'
      = (v.get? key').map (fun w => if key' = key then .string text else w) := by
  cases v with
  | object fields =>
    exact Value.lookup_map_members (fun k w => if k = key then .string text else w) fields key'
  | _ => rfl

theorem textAt_replaceText (key text : String) (v : Value) (key' : String) :
    textAt (replaceText key text v) key'
      = if key' = key then (v.get? key').map (fun _ => text) else textAt v key' := by
  unfold textAt
  rw [get?_replaceText]
  by_cases h : key' = key
  · simp only [h, if_true]
    cases v.get? key <;> rfl
  · simp only [h, if_false]
    cases v.get? key' <;> rfl

end

/-! ## the references -/

/-- a secret is the cluster's, not a manifest of the repository -/
def isSecretRef (key : String) : Bool := key = "secretRef" || key = "apiTokenRef"

/-- the manifest the member under a key refers to, by kind and name -/
def reference (key : String) (child : Value) : Option (String × String) :=
  match stringRef key, child.asStr with
  | some kind, some name => some (kind, name)
  | _, _ =>
    if Text.endsWith "Ref" key then
      match textAt child "kind", textAt child "name" with
      | some kind, some name => some (kind, name)
      | _, _ => none
    else none

theorem reference_mapStrings {f : String → String} (hf : f "ContextSpace" = "ContextSpace")
    (key : String) (child : Value) :
    reference key (Value.mapStrings f child) = (reference key child).map (fun r => (f r.1, f r.2)) := by
  unfold reference
  rw [Value.asStr_mapStrings, textAt_mapStrings, textAt_mapStrings]
  have htyped : (if Text.endsWith "Ref" key = true then
        match (textAt child "kind").map f, (textAt child "name").map f with
        | some kind, some name => some (kind, name)
        | _, _ => none
      else none) = (if Text.endsWith "Ref" key = true then
        match textAt child "kind", textAt child "name" with
        | some kind, some name => some (kind, name)
        | _, _ => none
      else none).map (fun r => (f r.1, f r.2)) := by
    split
    · cases textAt child "kind" with
      | none => rfl
      | some kind => cases textAt child "name" <;> rfl
    · rfl
  cases hs : stringRef key with
  | none => exact htyped
  | some kind =>
    cases child.asStr with
    | none => exact htyped
    | some name =>
      have hkind : kind = "ContextSpace" := by
        unfold stringRef at hs
        split at hs
        · exact (Option.some.inj hs).symm
        · exact absurd hs (by simp)
      simp [hkind, hf]

section
variable (kind old new : String)

theorem reference_rewriteReference (key : String) (child : Value) :
    reference key (rewriteReference kind old new child) = reference key child := by
  unfold reference
  rw [asStr_rewriteReference, textAt_rewriteReference kind old new (by decide),
    textAt_rewriteReference kind old new (by decide)]

theorem asStr_of_textAt {v : Value} {key text : String} (h : textAt v key = some text) :
    v.asStr = none := by
  cases v with
  | string t => exact absurd h (by simp [textAt, Value.get?, Value.asObject])
  | _ => rfl

theorem reference_of_namesOld {key : String} {child : Value} (h : namesOld kind old key child = true) :
    reference key child = some (kind, old) := by
  simp only [namesOld, Bool.and_eq_true, decide_eq_true_eq] at h
  obtain ⟨⟨hkey, hkind⟩, hname⟩ := h
  unfold reference
  rw [asStr_of_textAt hkind, hkind, hname]
  cases stringRef key <;> simp [hkey]

theorem namesOld_replaceText {key : String} {child : Value}
    (h : namesOld kind old key child = true) :
    namesOld kind new key (replaceText "name" new child) = true := by
  simp only [namesOld, Bool.and_eq_true, decide_eq_true_eq] at h ⊢
  obtain ⟨⟨hkey, hkind⟩, hname⟩ := h
  refine ⟨⟨hkey, ?_⟩, ?_⟩
  · rw [textAt_replaceText, if_neg (by decide), hkind]
  · rw [textAt_replaceText, if_pos rfl]
    unfold textAt at hname
    cases hget : child.get? "name" with
    | none => exact absurd (hget ▸ hname) (by simp)
    | some w => rfl

/-- a reference to `old` is one the rewriting meets -/
theorem meets_of_reference {key : String} {child : Value}
    (h : reference key child = some (kind, old)) :
    (stringRef key = some kind && child.asStr = some old) = true
      ∨ namesOld kind old key child = true := by
  unfold reference at h
  split at h
  · rename_i k n hk hn
    cases h
    exact .inl (by simp [hk, hn])
  · split at h
    · rename_i hkey
      split at h
      · rename_i k n hk hn
        cases h
        exact .inr (by simp [namesOld, hkey, hk, hn])
      · exact absurd h (by simp)
    · exact absurd h (by simp)

theorem reference_of_string {key name : String} {child : Value} (hkey : stringRef key = some kind)
    (hname : child.asStr = some name) : reference key child = some (kind, name) := by
  unfold reference
  rw [hkey, hname]

end

end Import
end Portal
