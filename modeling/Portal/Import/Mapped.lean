import Portal.Base.JsonText
import Portal.Base.Pieces
import Portal.Base.Substitution
import Portal.Import.Frame

/-!
# Mapped spaces (`api/import.rs`: `plan_import`, its space mapping)

An import may put a space of the bundle onto one the project has.  The mappings go over a manifest's
spec one after another, each over its references and over the `{space}` segments of its ids.

* `segmentOf`, `withSegment`   the segment of an id, and the id with another;
* `foldl_mapSpace`             the mappings one after another: the references in turn, and the ids;
* `SentOnce`                   no reference to a space is sent on by a second mapping;
* `mapped_at_once_iff`         the mappings, in any order, are one substitution exactly for a manifest
                               whose references and ids are sent once;
* `chain_followed`             a bundle whose space is sent twice, and lands by the order.
-/

namespace Portal

namespace Import

open Access Changes

/-! ## the segment of an id -/

/-- the `{space}` segment of an id, or of an anchored pattern of ids -/
def segmentOf (text : String) : Option String := (idSegments text).bind (fun p => p.2[4]?)

def withSegment (text segment : String) : String :=
  match idSegments text with
  | none => text
  | some (pattern, segments) => idText pattern (segments.set 4 segment)

theorem moveSpace_eq (old new text : String) :
    moveSpace old new text = if segmentOf text = some old then withSegment text new else text := by
  unfold moveSpace segmentOf withSegment
  cases idSegments text with
  | none => rfl
  | some p => rfl

/-- the segments of an id: at least six, none with a colon, under the scheme -/
structure IsId (segments : List String) : Prop where
  plain : ∀ s ∈ segments, ':' ∉ s.toList
  six : 6 ≤ segments.length
  scheme : ∃ rest, segments = "urn" :: "ngsi-ld" :: rest

theorem toList_idText (pattern : Bool) (segments : List String) : (idText pattern segments).toList
    = (if pattern then ['^'] else []) ++ [':'].intercalate (segments.map String.toList) := by
  unfold idText
  rw [String.toList_append, String.toList_intercalate]
  cases pattern <;> rfl

theorem intercalate_scheme {rest : List String} (h : rest ≠ []) :
    [':'].intercalate (("urn" :: "ngsi-ld" :: rest).map String.toList)
      = "urn:ngsi-ld:".toList ++ [':'].intercalate (rest.map String.toList) := by
  obtain ⟨s, rest, rfl⟩ := List.exists_cons_of_ne_nil h
  rw [List.map_cons, List.map_cons, List.intercalate_cons_cons, List.map_cons, List.intercalate_cons_cons]
  rfl

theorem after_anchor {text : String} {cs : List Char} (h : text.toList = '^' :: cs) :
    Text.startsWith "^" text = true ∧ ((Text.after "^" text).getD text).toList = cs := by
  unfold Text.startsWith Text.after
  simp [h]

theorem after_none {text : String} (h : text.toList.head? ≠ some '^') :
    Text.startsWith "^" text = false ∧ (Text.after "^" text).getD text = text := by
  have hstart : ("^".toList).isPrefixOf text.toList = false := by
    cases hl : text.toList with
    | nil => rfl
    | cons c cs =>
      rw [hl] at h
      have hc : ('^' == c) = false := by
        rw [beq_eq_false_iff_ne]
        rintro rfl
        exact h rfl
      show ('^' == c && _) = false
      rw [hc]
      rfl
  unfold Text.startsWith Text.after
  rw [hstart]
  exact ⟨rfl, rfl⟩

theorem IsId.exists_rest {segments : List String} (h : IsId segments) :
    ∃ rest, rest ≠ [] ∧ segments = "urn" :: "ngsi-ld" :: rest := by
  obtain ⟨rest, rfl⟩ := h.scheme
  refine ⟨rest, ?_, rfl⟩
  rintro rfl
  exact absurd h.six (by decide)

theorem idSegments_idText {pattern : Bool} {segments : List String} (h : IsId segments) :
    idSegments (idText pattern segments) = some (pattern, segments) := by
  obtain ⟨rest, hne, hrest⟩ := h.exists_rest
  have hbody : Text.startsWith "^" (idText pattern segments) = pattern ∧
      ((Text.after "^" (idText pattern segments)).getD (idText pattern segments)).toList
        = [':'].intercalate (segments.map String.toList) := by
    have hlist := toList_idText pattern segments
    cases pattern with
    | true => exact after_anchor hlist
    | false =>
      obtain ⟨hstart, hafter⟩ := @after_none (idText false segments) (by
        rw [hlist, hrest, intercalate_scheme hne]
        simp)
      refine ⟨hstart, ?_⟩
      rw [hafter, hlist]
      rfl
  have hsplit : (Text.split (· = ':') ([':'].intercalate (segments.map String.toList))).map String.ofList
      = segments := by
    rw [Text.split_intercalate (by simp [hrest]) (by simpa using h.plain), List.map_map]
    simp
  have hscheme : "urn:ngsi-ld:".toList.isPrefixOf ([':'].intercalate (segments.map String.toList)) = true := by
    rw [hrest, intercalate_scheme hne, List.isPrefixOf_iff_prefix]
    exact List.prefix_append _ _
  have hstarts : Text.startsWith "urn:ngsi-ld:"
      ((Text.after "^" (idText pattern segments)).getD (idText pattern segments)) = true := by
    unfold Text.startsWith
    rw [hbody.2]
    exact hscheme
  unfold idSegments
  simp only [hstarts, hbody.1, hbody.2, hsplit, h.six, decide_true, Bool.and_self, if_true]

/-- **An id is its segments**, which are an id's. -/
theorem isId_of_idSegments {text : String} {pattern : Bool} {segments : List String}
    (h : idSegments text = some (pattern, segments)) : text = idText pattern segments ∧ IsId segments := by
  unfold idSegments at h
  simp only [Option.ite_none_right_eq_some, Bool.and_eq_true, decide_eq_true_eq, Option.some.injEq,
    Prod.mk.injEq] at h
  obtain ⟨⟨hscheme, hsix⟩, hpattern, hsegments⟩ := h
  have hpieces : segments.map String.toList
      = Text.split (· = ':') ((Text.after "^" text).getD text).toList := by
    rw [← hsegments, List.map_map]
    simp
  refine ⟨?_, ?_, hsegments ▸ hsix, ?_⟩
  · apply String.toList_inj.mp
    rw [toList_idText, hpieces, Text.intercalate_split, ← hpattern]
    by_cases hanchor : text.toList.head? = some '^'
    · obtain ⟨cs, hcs⟩ : ∃ cs, text.toList = '^' :: cs := by
        cases hl : text.toList with
        | nil => simp [hl] at hanchor
        | cons c cs =>
          rw [hl] at hanchor
          exact ⟨cs, by rw [Option.some.inj hanchor]⟩
      obtain ⟨hstart, hafter⟩ := after_anchor hcs
      rw [hstart, hafter, hcs]
      rfl
    · obtain ⟨hstart, hafter⟩ := after_none hanchor
      rw [hstart, hafter]
      rfl
  · intro s hs
    exact Text.not_mem_of_mem_split (hpieces ▸ List.mem_map_of_mem hs)
  · obtain ⟨rest, hrest⟩ := List.isPrefixOf_iff_prefix.mp hscheme
    refine ⟨(Text.split (· = ':') rest).map String.ofList, ?_⟩
    have hcut : Text.split (· = ':') ("urn".toList ++ ':' :: ("ngsi-ld".toList ++ ':' :: rest))
        = "urn".toList :: "ngsi-ld".toList :: Text.split (· = ':') rest := by
      have hurn : ∀ c ∈ "urn".toList, decide (c = ':') = false := Text.forall_of_all (by decide)
      have hngsi : ∀ c ∈ "ngsi-ld".toList, decide (c = ':') = false := Text.forall_of_all (by decide)
      rw [Text.split_append hurn (by decide), Text.split_append hngsi (by decide)]
    have hlist : ((Text.after "^" text).getD text).toList
        = "urn".toList ++ ':' :: ("ngsi-ld".toList ++ ':' :: rest) := hrest.symm
    rw [← hsegments, hlist, hcut]
    rfl

/-! ## ids sent from segment to segment -/

section
variable {text g g' : String}

theorem segmentOf_eq_some : segmentOf text = some g ↔
    ∃ pattern segments, idSegments text = some (pattern, segments) ∧ segments[4]? = some g := by
  unfold segmentOf
  cases idSegments text with
  | none => simp
  | some p =>
    obtain ⟨pattern, segments⟩ := p
    simp only [Option.bind_some, Option.some.injEq, Prod.mk.injEq]
    constructor
    · exact fun h => ⟨pattern, segments, ⟨rfl, rfl⟩, h⟩
    · rintro ⟨_, _, ⟨rfl, rfl⟩, h⟩
      exact h

theorem idSegments_withSegment {pattern : Bool} {segments : List String} (hg : ':' ∉ g.toList)
    (h : idSegments text = some (pattern, segments)) :
    idSegments (withSegment text g) = some (pattern, segments.set 4 g) := by
  obtain ⟨-, hid⟩ := isId_of_idSegments h
  have hset : IsId (segments.set 4 g) := by
    refine ⟨fun s hs => ?_, by rw [List.length_set]; exact hid.six, ?_⟩
    · rcases List.mem_or_eq_of_mem_set hs with hs | rfl
      · exact hid.plain s hs
      · exact hg
    · obtain ⟨rest, rfl⟩ := hid.scheme
      exact ⟨rest.set 2 g, rfl⟩
  unfold withSegment
  rw [h]
  exact idSegments_idText hset

theorem segmentOf_withSegment (hg : ':' ∉ g.toList) (h : segmentOf text = some g') :
    segmentOf (withSegment text g) = some g := by
  obtain ⟨pattern, segments, hid, -⟩ := segmentOf_eq_some.mp h
  refine segmentOf_eq_some.mpr ⟨pattern, _, idSegments_withSegment hg hid, ?_⟩
  have hsix := (isId_of_idSegments hid).2.six
  rw [List.getElem?_set_self (by omega)]

theorem withSegment_withSegment (hg : ':' ∉ g.toList) :
    withSegment (withSegment text g) g' = withSegment text g' := by
  cases hid : idSegments text with
  | none =>
    have hsame : ∀ g, withSegment text g = text := fun g => by
      unfold withSegment
      rw [hid]
    rw [hsame g]
  | some p =>
    obtain ⟨pattern, segments⟩ := p
    have hset := idSegments_withSegment hg hid
    have hleft : withSegment (withSegment text g) g' = idText pattern ((segments.set 4 g).set 4 g') := by
      unfold withSegment at hset ⊢
      simp only [hid] at hset ⊢
      rw [hset]
    rw [hleft, List.set_set]
    unfold withSegment
    rw [hid]

theorem withSegment_self (h : segmentOf text = some g) : withSegment text g = text := by
  obtain ⟨pattern, segments, hid, hget⟩ := segmentOf_eq_some.mp h
  obtain ⟨htext, -⟩ := isId_of_idSegments hid
  have hset : segments.set 4 g = segments := by
    obtain ⟨hlt, hg⟩ := List.getElem?_eq_some_iff.mp hget
    rw [← hg, List.set_getElem_self]
  unfold withSegment
  simp only [hid, hset]
  exact htext.symm

theorem segmentOf_of_plain (h : ':' ∉ text.toList) : segmentOf text = none := by
  rw [Option.eq_none_iff_forall_not_mem]
  intro g hg
  obtain ⟨pattern, segments, hid, -⟩ := segmentOf_eq_some.mp hg
  obtain ⟨htext, his⟩ := isId_of_idSegments hid
  obtain ⟨rest, hne, hrest⟩ := his.exists_rest
  apply h
  rw [htext, toList_idText, hrest, intercalate_scheme hne]
  have hcolon : ':' ∈ "urn:ngsi-ld:".toList := by decide
  exact List.mem_append_right _ (List.mem_append_left _ hcolon)

theorem plain_segmentOf (h : segmentOf text = some g) : ':' ∉ g.toList := by
  obtain ⟨pattern, segments, hid, hget⟩ := segmentOf_eq_some.mp h
  exact (isId_of_idSegments hid).2.plain g (List.mem_of_getElem? hget)

end

/-! ## references to spaces -/

/-- the keys of every object are its own -/
def Unique (v : Value) : Prop := v.All (fun _ => True) List.Nodup

def spaceNamed (key : String) (child : Value) : Option String :=
  (reference key child).bind (fun r => if r.1 = "ContextSpace" then some r.2 else none)

def putName (name : String) (child : Value) : Value :=
  if child.asStr.isSome then .string name else replaceText "name" name child

section
variable {key n t : String} {child : Value} (old new : String)

theorem spaceNamed_eq_some : spaceNamed key child = some n ↔ reference key child = some ("ContextSpace", n) := by
  unfold spaceNamed
  cases reference key child with
  | none => simp
  | some r =>
    obtain ⟨kind, name⟩ := r
    by_cases h : kind = "ContextSpace" <;> simp [h]

/-- a reference to the space `old` is given the name, every other member is rewritten inside -/
theorem rewriteMember_space : rewriteMember "ContextSpace" old new key child
    = if spaceNamed key child = some old then putName new child
      else rewriteReference "ContextSpace" old new child := by
  unfold rewriteMember putName
  split
  · rename_i hstring
    simp only [Bool.and_eq_true, decide_eq_true_eq] at hstring
    rw [if_pos (spaceNamed_eq_some.mpr (reference_of_string _ hstring.1 hstring.2)), hstring.2]
    rfl
  · rename_i hstring
    split
    · rename_i hnames
      rw [if_pos (spaceNamed_eq_some.mpr (reference_of_namesOld _ old hnames))]
      simp only [namesOld, Bool.and_eq_true, decide_eq_true_eq] at hnames
      rw [asStr_of_textAt hnames.1.2]
      rfl
    · rename_i hnames
      rw [if_neg]
      intro h
      rcases meets_of_reference _ old (spaceNamed_eq_some.mp h) with h | h
      · exact hstring h
      · exact hnames h

theorem spaceNamed_rewriteReference :
    spaceNamed key (rewriteReference "ContextSpace" old new child) = spaceNamed key child := by
  unfold spaceNamed
  rw [reference_rewriteReference]

theorem spaceNamed_putName (h : spaceNamed key child = some n) :
    spaceNamed key (putName t child) = some t := by
  rw [spaceNamed_eq_some] at h ⊢
  unfold putName
  rcases meets_of_reference _ n h with h | h
  · simp only [Bool.and_eq_true, decide_eq_true_eq] at h
    rw [h.2]
    exact reference_of_string _ h.1 rfl
  · have hstr : child.asStr = none := by
      simp only [namesOld, Bool.and_eq_true, decide_eq_true_eq] at h
      exact asStr_of_textAt h.1.2
    rw [hstr]
    exact reference_of_namesOld _ t (namesOld_replaceText _ n t h)

theorem putName_putName (t' : String) : putName t (putName t' child) = putName t child := by
  cases child with
  | object fields =>
    show Value.object _ = Value.object _
    rw [List.map_map]
    congr 1
    apply List.map_congr_left
    intro p _
    by_cases hp : p.1 = "name" <;> simp [hp]
  | _ => rfl

theorem putName_self (hchild : Unique child) (h : spaceNamed key child = some n) :
    putName n child = child := by
  rcases meets_of_reference _ n (spaceNamed_eq_some.mp h) with h | h
  · simp only [Bool.and_eq_true, decide_eq_true_eq] at h
    cases child with
    | string text => exact congrArg Value.string (Option.some.inj h.2).symm
    | _ => exact absurd h.2 (by simp [Value.asStr])
  · simp only [namesOld, Bool.and_eq_true, decide_eq_true_eq] at h
    cases child with
    | object fields =>
      have hname : fields.lookup "name" = some (.string n) := by
        have hget := h.2
        unfold textAt at hget
        rw [Value.get?_object] at hget
        cases hl : fields.lookup "name" with
        | none => exact absurd (hl ▸ hget) (by simp)
        | some w =>
          rw [hl] at hget
          cases w with
          | string text => exact congrArg (fun t => some (Value.string t)) (Option.some.inj hget)
          | _ => exact absurd hget (by simp [Value.asStr])
      show Value.object _ = Value.object _
      congr 1
      refine (List.map_congr_left fun p hp => ?_).trans (List.map_id fields)
      by_cases hkey : p.1 = "name"
      · have hp' := (OrdMap.lookup_iff_mem (Value.all_object.mp hchild).1 p.1 p.2).mpr hp
        rw [hkey, hname] at hp'
        rw [if_pos hkey, Option.some.inj hp']
        rfl
      · rw [if_neg hkey]
        rfl
    | string text => exact absurd h.2 (by simp [textAt, Value.get?, Value.asObject])
    | _ => rfl

theorem rewriteReference_putName : rewriteReference "ContextSpace" old new (putName t child)
    = putName t (rewriteReference "ContextSpace" old new child) := by
  cases child with
  | object fields =>
    have hput : ∀ fields, putName t (.object fields)
        = .object (fields.map (fun p => (p.1, if p.1 = "name" then .string t else p.2))) := fun _ => rfl
    rw [rewriteReference, hput, hput, rewriteReference, rewriteMembers_eq, rewriteMembers_eq,
      List.map_map, List.map_map]
    congr 1
    apply List.map_congr_left
    intro p _
    by_cases hp : p.1 = "name"
    · simp [hp, rewriteMember_of_not_ref _ old new (show Text.endsWith "Ref" "name" = false by decide),
        rewriteReference]
    · simp [hp]
  | _ => simp [putName, rewriteReference, replaceText, Value.asStr]

theorem unique_putName (h : Unique child) : Unique (putName t child) := by
  cases child with
  | object fields =>
    obtain ⟨hkeys, hall⟩ := Value.all_object.mp h
    refine Value.all_object.mpr ⟨?_, ?_⟩
    · rw [List.map_map]
      exact hkeys
    · intro p hp
      obtain ⟨q, hq, rfl⟩ := List.mem_map.mp hp
      by_cases hname : q.1 = "name"
      · rw [if_pos hname]
        trivial
      · rw [if_neg hname]
        exact hall q hq
  | _ => exact h

theorem unique_rewriteReference {v : Value} (h : Unique v) :
    Unique (rewriteReference "ContextSpace" old new v) := by
  induction v using Value.induction with
  | array items ih =>
    rw [rewriteReference, rewriteItems_eq]
    refine Value.all_array.mpr fun w hw => ?_
    obtain ⟨u, hu, rfl⟩ := List.mem_map.mp hw
    exact ih u hu (Value.all_array.mp h u hu)
  | object fields ih =>
    obtain ⟨hkeys, hall⟩ := Value.all_object.mp h
    rw [rewriteReference, rewriteMembers_eq]
    refine Value.all_object.mpr ⟨?_, ?_⟩
    · rw [List.map_map]
      exact hkeys
    · intro p hp
      obtain ⟨q, hq, rfl⟩ := List.mem_map.mp hp
      show Unique (rewriteMember _ old new q.1 q.2)
      rw [rewriteMember_space]
      split
      · exact unique_putName (hall q hq)
      · exact ih q hq (hall q hq)
  | _ => simpa [rewriteReference] using h

theorem rewriteReference_self {v : Value} (h : Unique v) :
    rewriteReference "ContextSpace" old old v = v := by
  induction v using Value.induction with
  | array items ih =>
    rw [rewriteReference, rewriteItems_eq]
    congr 1
    exact (List.map_congr_left fun w hw => ih w hw (Value.all_array.mp h w hw)).trans (List.map_id items)
  | object fields ih =>
    obtain ⟨-, hall⟩ := Value.all_object.mp h
    rw [rewriteReference, rewriteMembers_eq]
    congr 1
    refine (List.map_congr_left fun p hp => ?_).trans (List.map_id fields)
    rw [rewriteMember_space]
    split
    · rw [putName_self (hall p hp) ‹_›]
      rfl
    · rw [ih p hp (hall p hp)]
      rfl
  | _ => rw [rewriteReference]

end

/-! ## one mapping after another over the references -/

def onName (μ : SpaceMapping) : Substitution.Mapping String := ⟨fun n => n = μ.source, μ.target⟩

def inTurns (ms : List SpaceMapping) (v : Value) : Value :=
  ms.foldl (fun v μ => rewriteReference "ContextSpace" μ.source μ.target v) v

def memberInTurns (ms : List SpaceMapping) (key : String) (child : Value) : Value :=
  ms.foldl (fun child μ => rewriteMember "ContextSpace" μ.source μ.target key child) child

def moves (n : String) (μ : SpaceMapping) : Bool := μ.source = n && μ.target ≠ n

/-- the mappings that look into a reference to `n`, in their turns: those that do not send it on -/
def lookInto : List SpaceMapping → String → List SpaceMapping
  | [], _ => []
  | μ :: ms, n => if moves n μ then lookInto ms μ.target else μ :: lookInto ms n

section
variable {ms : List SpaceMapping} {μ : SpaceMapping} {key n : String} {child : Value}

theorem inTurns_array (items : List Value) :
    inTurns ms (.array items) = .array (items.map (inTurns ms)) := by
  induction ms generalizing items with
  | nil =>
    show Value.array items = _
    congr 1
    exact (List.map_id items).symm
  | cons μ ms ih =>
    show inTurns ms (rewriteReference _ μ.source μ.target (.array items)) = _
    rw [rewriteReference, rewriteItems_eq, ih, List.map_map]
    rfl

theorem inTurns_object (fields : List (String × Value)) : inTurns ms (.object fields)
    = .object (fields.map (fun p => (p.1, memberInTurns ms p.1 p.2))) := by
  induction ms generalizing fields with
  | nil =>
    show Value.object fields = _
    congr 1
    exact (List.map_id fields).symm
  | cons μ ms ih =>
    show inTurns ms (rewriteReference _ μ.source μ.target (.object fields)) = _
    rw [rewriteReference, rewriteMembers_eq, ih, List.map_map]
    rfl

theorem memberInTurns_of_none (h : spaceNamed key child = none) :
    memberInTurns ms key child = inTurns ms child := by
  induction ms generalizing child with
  | nil => rfl
  | cons μ ms ih =>
    show memberInTurns ms key (rewriteMember _ μ.source μ.target key child) = _
    rw [rewriteMember_space, if_neg (by simp [h])]
    exact ih (by rw [spaceNamed_rewriteReference, h])

theorem unique_inTurns (h : Unique child) : Unique (inTurns ms child) := by
  induction ms generalizing child with
  | nil => exact h
  | cons μ ms ih => exact ih (unique_rewriteReference _ _ h)

theorem spaceNamed_inTurns : spaceNamed key (inTurns ms child) = spaceNamed key child := by
  induction ms generalizing child with
  | nil => rfl
  | cons μ ms ih => exact ih.trans (spaceNamed_rewriteReference _ _)

theorem inTurns_putName (t : String) : inTurns ms (putName t child) = putName t (inTurns ms child) := by
  induction ms generalizing child with
  | nil => rfl
  | cons μ ms ih =>
    show inTurns ms (rewriteReference _ μ.source μ.target (putName t child)) = _
    rw [rewriteReference_putName]
    exact ih

theorem memberInTurns_of_some (hchild : Unique child) (h : spaceNamed key child = some n) :
    memberInTurns ms key child
      = putName (Substitution.inTurn (ms.map onName) n) (inTurns (lookInto ms n) child) := by
  induction ms generalizing child n with
  | nil => exact (putName_self hchild h).symm
  | cons μ ms ih =>
    show memberInTurns ms key (rewriteMember _ μ.source μ.target key child) = _
    rw [rewriteMember_space, h, List.map_cons, Substitution.inTurn_cons, lookInto]
    by_cases hsource : μ.source = n
    · subst hsource
      rw [if_pos rfl, Substitution.apply_of_names (by simp [onName])]
      by_cases hmoves : μ.target = μ.source
      · rw [if_neg (by simp [moves, hmoves])]
        show memberInTurns ms key (putName μ.target child)
          = putName (Substitution.inTurn (ms.map onName) μ.target)
            (inTurns (lookInto ms μ.source) (rewriteReference _ μ.source μ.target child))
        rw [hmoves, rewriteReference_self _ hchild, putName_self hchild h]
        exact ih hchild h
      · rw [if_pos (by simp [moves, hmoves]), ih (unique_putName hchild) (spaceNamed_putName h), inTurns_putName,
          putName_putName]
        rfl
    · rw [if_neg (by simpa using fun hn => hsource hn.symm), if_neg (by simp [moves, hsource]),
        Substitution.apply_of_not_names (by simp [onName, Ne.symm hsource])]
      exact ih (unique_rewriteReference _ _ hchild) (by rw [spaceNamed_rewriteReference, h])

end

/-! ## all mappings at once -/

section
variable (own : String → String)

mutual

/-- every reference to a space, at every depth, naming that space's own target -/
def renameAll : Value → Value
  | .object fields => .object (renameFields fields)
  | .array items => .array (renameItems items)
  | .string text => .string text
  | .null => .null
  | .bool b => .bool b
  | .number n => .number n

def renameItems : List Value → List Value
  | [] => []
  | v :: items => renameAll v :: renameItems items

def renameFields : List (String × Value) → List (String × Value)
  | [] => []
  | (key, child) :: fields =>
    (key, match spaceNamed key child with
      | some n => putName (own n) (renameAll child)
      | none => renameAll child) :: renameFields fields

end

def renameMember (key : String) (child : Value) : Value :=
  match spaceNamed key child with
  | some n => putName (own n) (renameAll own child)
  | none => renameAll own child

theorem renameItems_eq (items : List Value) : renameItems own items = items.map (renameAll own) := by
  induction items with
  | nil => rfl
  | cons v items ih => rw [renameItems, ih, List.map_cons]

theorem renameFields_eq (fields : List (String × Value)) :
    renameFields own fields = fields.map (fun p => (p.1, renameMember own p.1 p.2)) := by
  induction fields with
  | nil => rfl
  | cons p fields ih =>
    obtain ⟨key, child⟩ := p
    rw [renameFields, ih, List.map_cons]
    rfl

end

def ownTarget (ms : List SpaceMapping) (n : String) : String :=
  Substitution.atOnce (ms.map onName) n

def onSegment (s : Served) (m : Mirror) (project source : String) (μ : SpaceMapping) :
    Substitution.Mapping String :=
  ⟨fun g => g = segment s m source μ.source || g = μ.source, segment s m project μ.target⟩

/-- an id with its segment sent elsewhere -/
def sendSegment (f : String → String) (text : String) : String :=
  match segmentOf text with
  | none => text
  | some g => withSegment text (f g)

/-- a spec with every reference and every id of a mapped space sent at once -/
def mappedAtOnce (s : Served) (m : Mirror) (project source : String) (ms : List SpaceMapping)
    (spec : Value) : Value :=
  Value.mapStrings (sendSegment (Substitution.atOnce (ms.map (onSegment s m project source))))
    (renameAll (ownTarget ms) spec)

/-! ## ids and references are rewritten apart -/

/-- ids stay ids, every other text stays -/
structure Keeps (f : String → String) : Prop where
  plain : ∀ text, segmentOf text = none → f text = text
  ids : ∀ text, segmentOf text ≠ none → segmentOf (f text) ≠ none

section
variable {f f' : String → String} {text : String}

theorem Keeps.eq_iff (hf : Keeps f) {plain : String} (h : segmentOf plain = none) :
    f text = plain ↔ text = plain := by
  constructor
  · intro heq
    by_cases htext : segmentOf text = none
    · rw [← heq, hf.plain text htext]
    · exact absurd (heq ▸ h) (hf.ids text htext)
  · rintro rfl
    exact hf.plain text h

theorem sendSegment_of_none (h : segmentOf text = none) : sendSegment f text = text := by
  unfold sendSegment
  rw [h]

theorem sendSegment_of_some {g : String} (h : segmentOf text = some g) :
    sendSegment f text = withSegment text (f g) := by
  unfold sendSegment
  rw [h]

theorem keeps_sendSegment (hf : ∀ g, ':' ∉ g.toList → ':' ∉ (f g).toList) : Keeps (sendSegment f) := by
  refine ⟨fun text h => sendSegment_of_none h, fun text h => ?_⟩
  obtain ⟨g, hg⟩ := Option.ne_none_iff_exists'.mp h
  rw [sendSegment_of_some hg, segmentOf_withSegment (hf g (plain_segmentOf hg)) hg]
  simp

theorem sendSegment_sendSegment (hf : ∀ g, ':' ∉ g.toList → ':' ∉ (f g).toList) :
    sendSegment f' (sendSegment f text) = sendSegment (f' ∘ f) text := by
  cases h : segmentOf text with
  | none => rw [sendSegment_of_none h, sendSegment_of_none h, sendSegment_of_none h]
  | some g =>
    have hplain := hf g (plain_segmentOf h)
    rw [sendSegment_of_some h, sendSegment_of_some h, sendSegment_of_some (segmentOf_withSegment hplain h),
      withSegment_withSegment hplain]
    rfl

theorem mapStrings_mapStrings (v : Value) :
    Value.mapStrings f' (Value.mapStrings f v) = Value.mapStrings (f' ∘ f) v := by
  induction v using Value.induction with
  | array items ih =>
    rw [Value.mapStrings, Value.mapStrings, Value.mapStrings, Value.mapItems_eq, Value.mapItems_eq,
      Value.mapItems_eq, List.map_map]
    congr 1
    exact List.map_congr_left ih
  | object fields ih =>
    rw [Value.mapStrings, Value.mapStrings, Value.mapStrings, Value.mapFields_eq, Value.mapFields_eq,
      Value.mapFields_eq, List.map_map]
    congr 1
    exact List.map_congr_left fun p hp => congrArg (Prod.mk p.1) (ih p hp)
  | _ => rfl

theorem mapStrings_id (v : Value) : Value.mapStrings id v = v := by
  induction v using Value.induction with
  | array items ih =>
    rw [Value.mapStrings, Value.mapItems_eq]
    congr 1
    exact (List.map_congr_left ih).trans (List.map_id items)
  | object fields ih =>
    rw [Value.mapStrings, Value.mapFields_eq]
    congr 1
    exact (List.map_congr_left fun p hp => congrArg (Prod.mk p.1) (ih p hp)).trans (List.map_id fields)
  | _ => rfl

theorem spaceNamed_mapStrings (hf : Keeps f) (key : String) (child : Value) :
    spaceNamed key (Value.mapStrings f child) = (spaceNamed key child).map f := by
  have hspace : segmentOf "ContextSpace" = none := segmentOf_of_plain (by decide)
  unfold spaceNamed
  rw [reference_mapStrings (hf.plain _ hspace)]
  cases reference key child with
  | none => rfl
  | some r =>
    obtain ⟨kind, name⟩ := r
    simp only [Option.map_some, Option.bind_some, hf.eq_iff hspace]
    split <;> rfl

theorem mapStrings_putName (t : String) (child : Value) :
    Value.mapStrings f (putName t child) = putName (f t) (Value.mapStrings f child) := by
  cases child with
  | object fields =>
    show Value.object _ = Value.object _
    rw [Value.mapFields_eq, Value.mapFields_eq, List.map_map, List.map_map]
    congr 1
    apply List.map_congr_left
    intro p _
    by_cases hp : p.1 = "name" <;> simp [hp, Value.mapStrings]
  | _ => rfl

theorem rewriteReference_mapStrings (hf : Keeps f) {old new : String} (hold : segmentOf old = none)
    (hnew : segmentOf new = none) (v : Value) :
    rewriteReference "ContextSpace" old new (Value.mapStrings f v)
      = Value.mapStrings f (rewriteReference "ContextSpace" old new v) := by
  induction v using Value.induction with
  | array items ih =>
    rw [rewriteReference, Value.mapStrings, rewriteReference, Value.mapStrings, rewriteItems_eq,
      rewriteItems_eq, Value.mapItems_eq, Value.mapItems_eq, List.map_map, List.map_map]
    congr 1
    exact List.map_congr_left ih
  | object fields ih =>
    rw [rewriteReference, Value.mapStrings, rewriteReference, Value.mapStrings, rewriteMembers_eq,
      rewriteMembers_eq, Value.mapFields_eq, Value.mapFields_eq, List.map_map, List.map_map]
    congr 1
    refine List.map_congr_left fun p hp => congrArg (Prod.mk p.1) ?_
    show rewriteMember _ old new p.1 (Value.mapStrings f p.2)
      = Value.mapStrings f (rewriteMember _ old new p.1 p.2)
    rw [rewriteMember_space, rewriteMember_space, spaceNamed_mapStrings hf]
    have hiff : (spaceNamed p.1 p.2).map f = some old ↔ spaceNamed p.1 p.2 = some old := by
      cases spaceNamed p.1 p.2 with
      | none => simp
      | some n => simp [hf.eq_iff hold]
    by_cases h : spaceNamed p.1 p.2 = some old
    · rw [if_pos (hiff.mpr h), if_pos h]
      rw [mapStrings_putName, hf.plain new hnew]
    · rw [if_neg (fun h' => h (hiff.mp h')), if_neg h]
      exact ih p hp
  | string text => rw [Value.mapStrings, rewriteReference, rewriteReference, Value.mapStrings]
  | _ => rw [rewriteReference]; rfl

theorem inTurns_mapStrings (hf : Keeps f) {ms : List SpaceMapping}
    (h : ∀ μ ∈ ms, segmentOf μ.source = none ∧ segmentOf μ.target = none) (v : Value) :
    inTurns ms (Value.mapStrings f v) = Value.mapStrings f (inTurns ms v) := by
  induction ms generalizing v with
  | nil => rfl
  | cons μ ms ih =>
    obtain ⟨hsource, htarget⟩ := h μ List.mem_cons_self
    show inTurns ms (rewriteReference _ μ.source μ.target (Value.mapStrings f v)) = _
    rw [rewriteReference_mapStrings hf hsource htarget, ih fun μ' hμ' => h μ' (List.mem_cons_of_mem μ hμ')]
    rfl

end

section
variable (s : Served) (m : Mirror) (project source : String) {ms : List SpaceMapping}

theorem moveSpace_onSegment (μ : SpaceMapping) (hN : ':' ∉ (segment s m project μ.target).toList) :
    moveSpace μ.source (segment s m project μ.target)
        ∘ moveSpace (segment s m source μ.source) (segment s m project μ.target)
      = sendSegment (onSegment s m project source μ).apply := by
  funext text
  rw [Function.comp_apply, moveSpace_eq (segment s m source μ.source)]
  cases h : segmentOf text with
  | none => rw [if_neg (by simp), moveSpace_eq, h, if_neg (by simp), sendSegment_of_none h]
  | some g =>
    rw [sendSegment_of_some h]
    by_cases hold : g = segment s m source μ.source
    · rw [if_pos (congrArg some hold), Substitution.apply_of_names (by simp [onSegment, hold]), moveSpace_eq,
        withSegment_withSegment hN]
      exact ite_self _
    · rw [if_neg (fun h' => hold (Option.some.inj h')), moveSpace_eq, h]
      by_cases hname : g = μ.source
      · rw [if_pos (congrArg some hname), Substitution.apply_of_names (by simp [onSegment, hname])]
        rfl
      · rw [if_neg (fun h' => hname (Option.some.inj h')),
          Substitution.apply_of_not_names (by simp [onSegment, hold, hname]), withSegment_self h]

theorem plain_inTurn (hN : ∀ μ ∈ ms, ':' ∉ (segment s m project μ.target).toList) (g : String)
    (hg : ':' ∉ g.toList) :
    ':' ∉ (Substitution.inTurn (ms.map (onSegment s m project source)) g).toList := by
  induction ms generalizing g with
  | nil => exact hg
  | cons μ ms ih =>
    rw [List.map_cons, Substitution.inTurn_cons]
    refine ih (fun μ' hμ' => hN μ' (List.mem_cons_of_mem μ hμ')) _ ?_
    unfold Substitution.Mapping.apply
    split
    · exact hN μ List.mem_cons_self
    · exact hg

/-- **The mappings one after another**: the references in turn, and the ids in turn. -/
theorem foldl_mapSpace (h : ∀ μ ∈ ms, segmentOf μ.source = none ∧ segmentOf μ.target = none)
    (hN : ∀ μ ∈ ms, ':' ∉ (segment s m project μ.target).toList) (spec : Value) :
    ms.foldl (mapSpace s m project source) spec
      = Value.mapStrings (sendSegment (Substitution.inTurn (ms.map (onSegment s m project source))))
          (inTurns ms spec) := by
  induction ms generalizing spec with
  | nil =>
    have hid : sendSegment (Substitution.inTurn ([].map (onSegment s m project source))) = id := by
      funext text
      cases htext : segmentOf text with
      | none => exact sendSegment_of_none htext
      | some g =>
        rw [sendSegment_of_some htext]
        exact withSegment_self htext
    rw [hid]
    exact (mapStrings_id spec).symm
  | cons μ ms ih =>
    have hNμ := hN μ List.mem_cons_self
    have hstep : mapSpace s m project source spec μ
        = Value.mapStrings (sendSegment (onSegment s m project source μ).apply)
            (rewriteReference "ContextSpace" μ.source μ.target spec) := by
      rw [← moveSpace_onSegment s m project source μ hNμ]
      exact mapStrings_mapStrings _
    have hplain : ∀ g : String, ':' ∉ g.toList →
        ':' ∉ ((onSegment s m project source μ).apply g).toList :=
      fun g hg => @plain_inTurn s m project source [μ] (by simpa using hNμ) g hg
    have hms := fun μ' hμ' => h μ' (List.mem_cons_of_mem μ hμ')
    have hsend : sendSegment (Substitution.inTurn (ms.map (onSegment s m project source)))
          ∘ sendSegment (onSegment s m project source μ).apply
        = sendSegment (Substitution.inTurn ((μ :: ms).map (onSegment s m project source))) := by
      funext text
      rw [Function.comp_apply, sendSegment_sendSegment hplain]
      congr 1
    have hrest := ih hms (fun μ' hμ' => hN μ' (List.mem_cons_of_mem μ hμ'))
      (mapSpace s m project source spec μ)
    rw [List.foldl_cons, hrest, hstep, inTurns_mapStrings (keeps_sendSegment hplain) hms,
      mapStrings_mapStrings, hsend]
    simp only [inTurns, List.foldl_cons]

end

/-! ## references sent once -/

/-- a space goes to its own target: it is sent there by a mapping still to come, unless it stays, and
what is sent there is sent no further -/
structure Settled (own : String → String) (ms : List SpaceMapping) (n : String) : Prop where
  sent : own n = n ∨ ∃ μ ∈ ms, μ.source = n
  apart : Substitution.Apart (ms.map onName) n

/-- the mappings that look into a reference to `n`: all but the one that moves `n` -/
def besides (ms : List SpaceMapping) (n : String) : List SpaceMapping :=
  ms.filter (fun μ => !moves n μ)

section
variable (own : String → String)

mutual

/-- every reference of a value is settled under the mappings that look where it is -/
def SentOnce : Value → List SpaceMapping → Prop
  | .object fields, ms => SentOnceIn fields ms
  | .array items, ms => SentOnceAmong items ms
  | _, _ => True

def SentOnceAmong : List Value → List SpaceMapping → Prop
  | [], _ => True
  | v :: items, ms => SentOnce v ms ∧ SentOnceAmong items ms

def SentOnceIn : List (String × Value) → List SpaceMapping → Prop
  | [], _ => True
  | (key, child) :: fields, ms =>
    (match spaceNamed key child with
      | some n => Settled own ms n ∧ SentOnce child (besides ms n)
      | none => SentOnce child ms) ∧ SentOnceIn fields ms

end

variable {own} {ms : List SpaceMapping} {n : String}

theorem sentOnceAmong_iff {items : List Value} :
    SentOnceAmong own items ms ↔ ∀ v ∈ items, SentOnce own v ms := by
  induction items with
  | nil => simp [SentOnceAmong]
  | cons v items ih => rw [SentOnceAmong, ih, List.forall_mem_cons]

theorem sentOnceIn_iff {fields : List (String × Value)} :
    SentOnceIn own fields ms ↔ ∀ p ∈ fields, match spaceNamed p.1 p.2 with
      | some n => Settled own ms n ∧ SentOnce own p.2 (besides ms n)
      | none => SentOnce own p.2 ms := by
  induction fields with
  | nil => simp [SentOnceIn]
  | cons p fields ih =>
    obtain ⟨key, child⟩ := p
    rw [SentOnceIn, ih, List.forall_mem_cons]

theorem moves_eq_false {μ : SpaceMapping} : moves n μ = false ↔ (μ.source = n → μ.target = n) := by
  unfold moves
  by_cases hsource : μ.source = n <;> simp [hsource]

theorem lookInto_of_fixed (h : ∀ μ ∈ ms, moves n μ = false) : lookInto ms n = ms := by
  induction ms with
  | nil => rfl
  | cons μ ms ih =>
    rw [lookInto, h μ List.mem_cons_self, if_neg Bool.false_ne_true,
      ih fun μ' hμ' => h μ' (List.mem_cons_of_mem μ hμ')]

theorem besides_of_fixed (h : ∀ μ ∈ ms, moves n μ = false) : besides ms n = ms :=
  List.filter_eq_self.mpr fun μ hμ => by simp [h μ hμ]

theorem lookInto_eq (hms : (ms.map SpaceMapping.source).Nodup)
    (hapart : Substitution.Apart (ms.map onName) n) : lookInto ms n = besides ms n := by
  induction ms with
  | nil => rfl
  | cons μ ms ih =>
    rw [List.map_cons, List.nodup_cons] at hms
    unfold besides
    rw [lookInto, List.filter_cons]
    cases hmoves : moves n μ with
    | true =>
      have hsource : μ.source = n := by
        unfold moves at hmoves
        simp only [Bool.and_eq_true, decide_eq_true_eq] at hmoves
        exact hmoves.1
      have hnot : ∀ μ' ∈ ms, moves n μ' = false := by
        intro μ' hμ'
        rw [moves_eq_false]
        intro hn
        exact absurd (List.mem_map.mpr ⟨μ', hμ', hn.trans hsource.symm⟩) hms.1
      have hstays : ∀ μ' ∈ ms, moves μ.target μ' = false := by
        intro μ' hμ'
        rw [moves_eq_false]
        intro hn
        exact (hapart (onName μ) (List.mem_map.mpr ⟨μ, List.mem_cons_self, rfl⟩)
          (by simp [onName, hsource]) (onName μ')
          (List.mem_map.mpr ⟨μ', List.mem_cons_of_mem μ hμ', rfl⟩)).2 (by simp [onName, hn])
      rw [if_pos rfl, if_neg (by simp), lookInto_of_fixed hstays]
      exact (besides_of_fixed hnot).symm
    | false =>
      rw [if_neg (by simp), if_pos (by simp), ih hms.2]
      · rfl
      · exact fun m hm hn m' hm' => hapart m (List.mem_cons_of_mem _ hm) hn m' (List.mem_cons_of_mem _ hm')

/-- **A space goes to its own target in every order** exactly when it is settled. -/
theorem inTurn_own_iff (hown : ∀ μ ∈ ms, own μ.source = μ.target) :
    (∀ l : List SpaceMapping, l.Perm ms → Substitution.inTurn (l.map onName) n = own n)
      ↔ Settled own ms n := by
  have hnamed : ∀ {l : List SpaceMapping}, l.Perm ms → ∀ m ∈ l.map onName, m.names n = true →
      m.target = own n := by
    intro l hl m hm hn
    obtain ⟨μ, hμ, rfl⟩ := List.mem_map.mp hm
    have hsource : n = μ.source := by simpa [onName] using hn
    rw [hsource]
    exact (hown μ (hl.mem_iff.mp hμ)).symm
  by_cases hany : ∃ μ ∈ ms, μ.source = n
  · obtain ⟨μ, hμ, hsource⟩ := hany
    have honce : ∀ l : List SpaceMapping, l.Perm ms → Substitution.atOnce (l.map onName) n = own n := by
      intro l hl
      have hmem : onName μ ∈ l.map onName := List.mem_map_of_mem (hl.mem_iff.mpr hμ)
      have hnames : (onName μ).names n = true := by simp [onName, hsource]
      rw [Substitution.atOnce_of_names hmem hnames fun m hm hn =>
        (hnamed hl m hm hn).trans (hnamed hl _ hmem hnames).symm]
      exact hnamed hl _ hmem hnames
    constructor
    · intro h
      refine ⟨.inr ⟨μ, hμ, hsource⟩, (Substitution.inAnyOrder_map_iff onName).mp fun l₁ l₂ hl₁ hl₂ => ?_⟩
      rw [h l₁ hl₁, honce l₂ hl₂]
    · intro h l hl
      rw [(Substitution.inAnyOrder_map_iff onName).mpr h.apart l ms hl (List.Perm.refl ms),
        honce ms (List.Perm.refl ms)]
  · have hnone : ∀ {l : List SpaceMapping}, l.Perm ms → ∀ m ∈ l.map onName, ¬ m.names n = true := by
      intro l hl m hm hn
      obtain ⟨μ, hμ, rfl⟩ := List.mem_map.mp hm
      exact hany ⟨μ, hl.mem_iff.mp hμ, by simpa [onName, eq_comm] using hn⟩
    have hstays : ∀ l : List SpaceMapping, l.Perm ms →
        Substitution.inTurn (l.map onName) n = n := fun l hl =>
      Substitution.inTurn_of_fixed fun m hm hn => absurd hn (hnone hl m hm)
    constructor
    · intro h
      refine ⟨.inl ?_, fun m hm hn => absurd hn (hnone (List.Perm.refl ms) m hm)⟩
      rw [← h ms (List.Perm.refl ms), hstays ms (List.Perm.refl ms)]
    · intro h l hl
      rw [hstays l hl]
      exact (h.sent.resolve_right hany).symm

theorem putName_inj {key t t' : String} {a b : Value} (ha : Unique a) (hb : Unique b)
    (hna : spaceNamed key a = some n) (hnb : spaceNamed key b = some n) :
    putName t a = putName t' b ↔ t = t' ∧ a = b := by
  constructor
  · intro h
    refine ⟨?_, ?_⟩
    · have hname := spaceNamed_putName (t := t) hna
      rw [h, spaceNamed_putName hnb] at hname
      exact (Option.some.inj hname).symm
    · calc a = putName n (putName t a) := by rw [putName_putName, putName_self ha hna]
        _ = putName n (putName t' b) := by rw [h]
        _ = b := by rw [putName_putName, putName_self hb hnb]
  · rintro ⟨rfl, rfl⟩
    rfl

/-- only a field with a `Ref` refers to a space -/
theorem endsWith_of_spaceNamed {key : String} {child : Value} (h : spaceNamed key child = some n) :
    Text.endsWith "Ref" key = true := by
  rcases meets_of_reference _ n (spaceNamed_eq_some.mp h) with h | h
  · simp only [Bool.and_eq_true, decide_eq_true_eq] at h
    have hkey := h.1
    unfold stringRef at hkey
    split at hkey
    · rename_i heq
      rw [heq]
      decide
    · exact absurd hkey (by simp)
  · simp only [namesOld, Bool.and_eq_true, decide_eq_true_eq] at h
    exact h.1.1

theorem textAt_renameAll {key : String} (hkey : Text.endsWith "Ref" key = false) (v : Value) :
    textAt (renameAll own v) key = textAt v key := by
  cases v with
  | object fields =>
    have hget : (renameAll own (.object fields)).get? key
        = (fields.lookup key).map (renameMember own key) := by
      rw [renameAll, renameFields_eq, Value.get?_object]
      exact Value.lookup_map_members _ fields key
    unfold textAt
    rw [hget, Value.get?_object]
    cases fields.lookup key with
    | none => rfl
    | some child =>
      have hnone : spaceNamed key child = none := by
        rw [Option.eq_none_iff_forall_not_mem]
        intro n hn
        exact absurd ((endsWith_of_spaceNamed hn).symm.trans hkey) (by simp)
      simp only [Option.map_some, renameMember, hnone]
      cases child <;> simp [renameAll, Value.asStr]
  | _ => simp [renameAll, textAt, Value.get?, Value.asObject]

theorem spaceNamed_renameAll {key : String} {child : Value} :
    spaceNamed key (renameAll own child) = spaceNamed key child := by
  have hstr : (renameAll own child).asStr = child.asStr := by
    cases child <;> simp [renameAll, Value.asStr]
  unfold spaceNamed reference
  rw [hstr, textAt_renameAll (by decide), textAt_renameAll (by decide)]

theorem unique_renameAll {v : Value} (h : Unique v) : Unique (renameAll own v) := by
  induction v using Value.induction with
  | array items ih =>
    rw [renameAll, renameItems_eq]
    refine Value.all_array.mpr fun w hw => ?_
    obtain ⟨u, hu, rfl⟩ := List.mem_map.mp hw
    exact ih u hu (Value.all_array.mp h u hu)
  | object fields ih =>
    obtain ⟨hkeys, hall⟩ := Value.all_object.mp h
    rw [renameAll, renameFields_eq]
    refine Value.all_object.mpr ⟨?_, ?_⟩
    · rw [List.map_map]
      exact hkeys
    · intro p hp
      obtain ⟨q, hq, rfl⟩ := List.mem_map.mp hp
      show Unique (renameMember own q.1 q.2)
      unfold renameMember
      split
      · exact unique_putName (ih q hq (hall q hq))
      · exact ih q hq (hall q hq)
  | _ => simpa [renameAll] using h

theorem forall_perm_besides {P : List SpaceMapping → Prop} :
    (∀ l : List SpaceMapping, l.Perm ms → P (besides l n)) ↔ ∀ l, l.Perm (besides ms n) → P l := by
  constructor
  · intro h l hl
    have hkeep : ∀ μ ∈ l, moves n μ = false := by
      intro μ hμ
      simpa using (List.mem_filter.mp (hl.mem_iff.mp hμ)).2
    have hperm : (l ++ ms.filter (moves n)).Perm ms :=
      (hl.append_right _).trans (List.perm_append_comm.trans (List.filter_append_perm (moves n) ms))
    have hbesides : besides (l ++ ms.filter (moves n)) n = l := by
      have hnil : besides (ms.filter (moves n)) n = [] :=
        List.filter_eq_nil_iff.mpr fun μ hμ => by simp [(List.mem_filter.mp hμ).2]
      have happend : besides (l ++ ms.filter (moves n)) n
          = besides l n ++ besides (ms.filter (moves n)) n := List.filter_append ..
      rw [happend, hnil, besides_of_fixed hkeep, List.append_nil]
    exact hbesides ▸ h _ hperm
  · exact fun h l hl => h _ (hl.filter _)

theorem inTurns_of_leaf {v : Value} (h : ∀ old new, rewriteReference "ContextSpace" old new v = v) :
    inTurns ms v = v := by
  induction ms with
  | nil => rfl
  | cons μ ms ih =>
    show inTurns ms (rewriteReference _ μ.source μ.target v) = v
    rw [h, ih]

theorem inTurns_iff_of_leaf {v : Value} (h : ∀ old new, rewriteReference "ContextSpace" old new v = v)
    (hall : renameAll own v = v) :
    (∀ l : List SpaceMapping, l.Perm ms → inTurns l v = renameAll own v) ↔ True :=
  iff_true_intro fun _ _ => (inTurns_of_leaf h).trans hall.symm

theorem own_besides (hown : ∀ μ ∈ ms, own μ.source = μ.target) :
    ∀ μ ∈ besides ms n, own μ.source = μ.target :=
  fun μ hμ => hown μ (List.mem_filter.mp hμ).1

theorem nodup_besides (hms : (ms.map SpaceMapping.source).Nodup) :
    ((besides ms n).map SpaceMapping.source).Nodup :=
  hms.sublist (List.Sublist.map _ List.filter_sublist)

/-- **The references reach their own targets in every order** exactly when they are settled, at every
depth. -/
theorem inTurns_iff {v : Value} (hv : Unique v) (hms : (ms.map SpaceMapping.source).Nodup)
    (hown : ∀ μ ∈ ms, own μ.source = μ.target) :
    (∀ l : List SpaceMapping, l.Perm ms → inTurns l v = renameAll own v) ↔ SentOnce own v ms := by
  induction v using Value.induction generalizing ms with
  | null => exact inTurns_iff_of_leaf (fun _ _ => by rw [rewriteReference]) (by rw [renameAll])
  | bool b => exact inTurns_iff_of_leaf (fun _ _ => by rw [rewriteReference]) (by rw [renameAll])
  | number k => exact inTurns_iff_of_leaf (fun _ _ => by rw [rewriteReference]) (by rw [renameAll])
  | string text => exact inTurns_iff_of_leaf (fun _ _ => by rw [rewriteReference]) (by rw [renameAll])
  | array items ih =>
    have hitems : ∀ v ∈ items, (∀ l : List SpaceMapping, l.Perm ms → inTurns l v = renameAll own v)
        ↔ SentOnce own v ms :=
      fun v hmem => ih v hmem (Value.all_array.mp hv v hmem) hms hown
    rw [SentOnce, sentOnceAmong_iff]
    simp only [inTurns_array, renameAll, renameItems_eq, Value.array.injEq, List.map_inj_left]
    constructor
    · exact fun h v hmem => (hitems v hmem).mp fun l hl => h l hl v hmem
    · exact fun h l hl v hmem => (hitems v hmem).mpr (h v hmem) l hl
  | object fields ih =>
    obtain ⟨-, hall⟩ := Value.all_object.mp hv
    have hmember : ∀ p ∈ fields, (∀ l : List SpaceMapping, l.Perm ms →
        memberInTurns l p.1 p.2 = renameMember own p.1 p.2) ↔ match spaceNamed p.1 p.2 with
          | some n => Settled own ms n ∧ SentOnce own p.2 (besides ms n)
          | none => SentOnce own p.2 ms := by
      intro p hp
      have hchild := hall p hp
      unfold renameMember
      cases hspace : spaceNamed p.1 p.2 with
      | none =>
        simp only [memberInTurns_of_none hspace]
        exact ih p hp hchild hms hown
      | some n =>
        have hinside := ih p hp hchild (nodup_besides (n := n) hms) (own_besides hown)
        simp only [memberInTurns_of_some hchild hspace]
        have hsplit : ∀ l : List SpaceMapping,
            (putName (Substitution.inTurn (l.map onName) n) (inTurns (lookInto l n) p.2)
              = putName (own n) (renameAll own p.2))
            ↔ Substitution.inTurn (l.map onName) n = own n
              ∧ inTurns (lookInto l n) p.2 = renameAll own p.2 := fun l =>
          putName_inj (unique_inTurns hchild) (unique_renameAll hchild)
            (spaceNamed_inTurns.trans hspace) (spaceNamed_renameAll.trans hspace)
        simp only [hsplit, forall_and, inTurn_own_iff hown]
        refine and_congr_right fun hsettled => ?_
        have hlook : ∀ l : List SpaceMapping, l.Perm ms → lookInto l n = besides l n := fun l hl =>
          lookInto_eq ((hl.map _).nodup_iff.mpr hms) fun m hm hn m' hm' =>
            hsettled.apart m ((hl.map _).mem_iff.mp hm) hn m' ((hl.map _).mem_iff.mp hm')
        rw [← hinside, ← forall_perm_besides (P := fun l => inTurns l p.2 = renameAll own p.2)]
        exact forall_congr' fun l => imp_congr_right fun hl => by rw [hlook l hl]
    rw [SentOnce, sentOnceIn_iff]
    simp only [inTurns_object, renameAll, renameFields_eq, Value.object.injEq, List.map_inj_left,
      Prod.mk.injEq, true_and]
    constructor
    · exact fun h p hp => (hmember p hp).mp fun l hl => h l hl p hp
    · exact fun h l hl p hp => (hmember p hp).mpr (h p hp) l hl

end

/-! ## the ids of a value -/

mutual

def segmentsIn : Value → List String
  | .object fields => segmentsOfFields fields
  | .array items => segmentsAmong items
  | .string text => (segmentOf text).toList
  | _ => []

def segmentsAmong : List Value → List String
  | [] => []
  | v :: items => segmentsIn v ++ segmentsAmong items

def segmentsOfFields : List (String × Value) → List String
  | [] => []
  | (_, v) :: fields => segmentsIn v ++ segmentsOfFields fields

end

theorem segmentsAmong_eq (items : List Value) : segmentsAmong items = items.flatMap segmentsIn := by
  induction items with
  | nil => rfl
  | cons v items ih => rw [segmentsAmong, ih, List.flatMap_cons]

theorem segmentsOfFields_eq (fields : List (String × Value)) :
    segmentsOfFields fields = fields.flatMap (fun p => segmentsIn p.2) := by
  induction fields with
  | nil => rfl
  | cons p fields ih =>
    obtain ⟨key, v⟩ := p
    rw [segmentsOfFields, ih, List.flatMap_cons]

section
variable {f f' : String → String}

theorem mapStrings_sendSegment_iff (hf : ∀ g, ':' ∉ g.toList → ':' ∉ (f g).toList)
    (hf' : ∀ g, ':' ∉ g.toList → ':' ∉ (f' g).toList) (v : Value) :
    Value.mapStrings (sendSegment f) v = Value.mapStrings (sendSegment f') v
      ↔ ∀ g ∈ segmentsIn v, f g = f' g := by
  induction v using Value.induction with
  | string text =>
    rw [Value.mapStrings, Value.mapStrings, Value.string.injEq, segmentsIn]
    cases h : segmentOf text with
    | none => simp [sendSegment_of_none h]
    | some g =>
      rw [sendSegment_of_some h, sendSegment_of_some h]
      simp only [Option.toList_some, List.forall_mem_singleton]
      constructor
      · intro heq
        have hseg := segmentOf_withSegment (hf g (plain_segmentOf h)) h
        rw [heq, segmentOf_withSegment (hf' g (plain_segmentOf h)) h] at hseg
        exact (Option.some.inj hseg).symm
      · exact fun heq => heq ▸ rfl
  | array items ih =>
    rw [Value.mapStrings, Value.mapStrings, Value.mapItems_eq, Value.mapItems_eq, segmentsIn,
      segmentsAmong_eq, Value.array.injEq, List.map_inj_left]
    simp only [List.mem_flatMap, forall_exists_index, and_imp]
    constructor
    · exact fun h g v hv => (ih v hv).mp (h v hv) g
    · exact fun h v hv => (ih v hv).mpr fun g => h g v hv
  | object fields ih =>
    rw [Value.mapStrings, Value.mapStrings, Value.mapFields_eq, Value.mapFields_eq, segmentsIn,
      segmentsOfFields_eq, Value.object.injEq, List.map_inj_left]
    simp only [List.mem_flatMap, forall_exists_index, and_imp, Prod.mk.injEq, true_and]
    constructor
    · exact fun h g p hp => (ih p hp).mp (h p hp) g
    · exact fun h p hp => (ih p hp).mpr fun g => h g p hp
  | _ => simp [Value.mapStrings, segmentsIn]

def idOnly (text : String) : String := if (segmentOf text).isSome then text else ""

theorem idOnly_of_none {text : String} (h : segmentOf text = none) : idOnly text = "" := by
  unfold idOnly
  rw [h]
  rfl

theorem idOnly_of_some {text : String} (h : segmentOf text ≠ none) : idOnly text = text := by
  unfold idOnly
  rw [Option.isSome_iff_ne_none.mpr h, if_pos rfl]

theorem segmentOf_empty : segmentOf "" = none := segmentOf_of_plain (by simp)

theorem segmentOf_idOnly (text : String) : segmentOf (idOnly text) = segmentOf text := by
  by_cases h : segmentOf text = none
  · rw [idOnly_of_none h, h, segmentOf_empty]
  · rw [idOnly_of_some h]

theorem segmentsIn_idOnly (v : Value) : segmentsIn (Value.mapStrings idOnly v) = segmentsIn v := by
  induction v using Value.induction with
  | string text =>
    rw [Value.mapStrings, segmentsIn, segmentsIn, segmentOf_idOnly]
  | array items ih =>
    rw [Value.mapStrings, Value.mapItems_eq, segmentsIn, segmentsIn, segmentsAmong_eq, segmentsAmong_eq,
      List.flatMap_map]
    exact List.flatMap_congr ih
  | object fields ih =>
    rw [Value.mapStrings, Value.mapFields_eq, segmentsIn, segmentsIn, segmentsOfFields_eq,
      segmentsOfFields_eq, List.flatMap_map]
    exact List.flatMap_congr ih
  | _ => rfl

theorem eq_of_maps {α β γ : Type} {φ φ' : α → β} {ε : α → γ} {l l' : List α}
    (h : ∀ a ∈ l, ∀ b, φ a = φ' b → ε a = ε b → a = b) (hφ : l.map φ = l'.map φ')
    (hε : l.map ε = l'.map ε) : l = l' := by
  induction l generalizing l' with
  | nil => exact (List.map_eq_nil_iff.mp hφ.symm).symm
  | cons a l ih =>
    cases l' with
    | nil => exact absurd hφ (by simp)
    | cons b l' =>
      rw [List.map_cons, List.map_cons, List.cons.injEq] at hφ hε
      rw [h a List.mem_cons_self b hφ.1 hε.1,
        ih (fun a' ha' => h a' (List.mem_cons_of_mem a ha')) hφ.2 hε.2]

/-- values with the same ids that ids rewritten do not tell apart are the same -/
theorem eq_of_mapStrings (hf : Keeps f) (hf' : Keeps f') {a b : Value}
    (h : Value.mapStrings f a = Value.mapStrings f' b)
    (hids : Value.mapStrings idOnly a = Value.mapStrings idOnly b) : a = b := by
  induction a using Value.induction generalizing b with
  | string text =>
    cases b with
    | string text' =>
      rw [Value.mapStrings, Value.mapStrings, Value.string.injEq] at h hids
      congr 1
      by_cases ht : segmentOf text = none
      · have ht' : segmentOf text' = none := by
          rw [← segmentOf_idOnly, ← hids, segmentOf_idOnly, ht]
        rw [← hf.plain text ht, h, hf'.plain text' ht']
      · have ht' : segmentOf text' ≠ none := by
          rw [← segmentOf_idOnly, ← hids, segmentOf_idOnly]
          exact ht
        rw [← idOnly_of_some ht, hids, idOnly_of_some ht']
    | _ => simp [Value.mapStrings] at h
  | array items ih =>
    cases b with
    | array items' =>
      rw [Value.mapStrings, Value.mapStrings, Value.mapItems_eq, Value.mapItems_eq,
        Value.array.injEq] at h hids
      rw [eq_of_maps (fun v hv w hw hw' => ih v hv hw hw') h hids]
    | _ => simp [Value.mapStrings] at h
  | object fields ih =>
    cases b with
    | object fields' =>
      rw [Value.mapStrings, Value.mapStrings, Value.mapFields_eq, Value.mapFields_eq,
        Value.object.injEq] at h hids
      rw [eq_of_maps (fun p hp q hq hq' => ?_) h hids]
      rw [Prod.mk.injEq] at hq hq'
      exact Prod.ext hq.1 (ih p hp hq.2 hq'.2)
    | _ => simp [Value.mapStrings] at h
  | _ => cases b <;> simp_all [Value.mapStrings]

theorem idsOnly_putName {key n t : String} {child : Value} (hchild : Unique child)
    (h : spaceNamed key child = some n) (ht : idOnly t = idOnly n) :
    Value.mapStrings idOnly (putName t child) = Value.mapStrings idOnly child := by
  rw [mapStrings_putName, ht, ← mapStrings_putName, putName_self hchild h]

theorem idsOnly_rewriteReference {old new : String} (hold : segmentOf old = none)
    (hnew : segmentOf new = none) {v : Value} (hv : Unique v) :
    Value.mapStrings idOnly (rewriteReference "ContextSpace" old new v) = Value.mapStrings idOnly v := by
  induction v using Value.induction with
  | array items ih =>
    rw [rewriteReference, rewriteItems_eq, Value.mapStrings, Value.mapStrings, Value.mapItems_eq,
      Value.mapItems_eq, List.map_map]
    congr 1
    exact List.map_congr_left fun w hw => ih w hw (Value.all_array.mp hv w hw)
  | object fields ih =>
    obtain ⟨-, hall⟩ := Value.all_object.mp hv
    rw [rewriteReference, rewriteMembers_eq, Value.mapStrings, Value.mapStrings, Value.mapFields_eq,
      Value.mapFields_eq, List.map_map]
    congr 1
    refine List.map_congr_left fun p hp => congrArg (Prod.mk p.1) ?_
    show Value.mapStrings idOnly (rewriteMember _ old new p.1 p.2) = _
    rw [rewriteMember_space]
    split
    · exact idsOnly_putName (hall p hp) ‹_› (by rw [idOnly_of_none hold, idOnly_of_none hnew])
    · exact ih p hp (hall p hp)
  | _ => rw [rewriteReference]

theorem idsOnly_inTurns {ms : List SpaceMapping}
    (h : ∀ μ ∈ ms, segmentOf μ.source = none ∧ segmentOf μ.target = none) {v : Value} (hv : Unique v) :
    Value.mapStrings idOnly (inTurns ms v) = Value.mapStrings idOnly v := by
  induction ms generalizing v with
  | nil => rfl
  | cons μ ms ih =>
    obtain ⟨hsource, htarget⟩ := h μ List.mem_cons_self
    exact (ih (fun μ' hμ' => h μ' (List.mem_cons_of_mem μ hμ')) (unique_rewriteReference _ _ hv)).trans
      (idsOnly_rewriteReference hsource htarget hv)

theorem idsOnly_renameAll {own : String → String} (hown : ∀ n, idOnly (own n) = idOnly n) {v : Value}
    (hv : Unique v) : Value.mapStrings idOnly (renameAll own v) = Value.mapStrings idOnly v := by
  induction v using Value.induction with
  | array items ih =>
    rw [renameAll, renameItems_eq, Value.mapStrings, Value.mapStrings, Value.mapItems_eq,
      Value.mapItems_eq, List.map_map]
    congr 1
    exact List.map_congr_left fun w hw => ih w hw (Value.all_array.mp hv w hw)
  | object fields ih =>
    obtain ⟨-, hall⟩ := Value.all_object.mp hv
    rw [renameAll, renameFields_eq, Value.mapStrings, Value.mapStrings, Value.mapFields_eq,
      Value.mapFields_eq, List.map_map]
    congr 1
    refine List.map_congr_left fun p hp => congrArg (Prod.mk p.1) ?_
    show Value.mapStrings idOnly (renameMember own p.1 p.2) = _
    unfold renameMember
    cases hspace : spaceNamed p.1 p.2 with
    | none => exact ih p hp (hall p hp)
    | some n =>
      exact (idsOnly_putName (unique_renameAll (hall p hp)) (spaceNamed_renameAll.trans hspace)
        (hown n)).trans (ih p hp (hall p hp))
  | _ => rw [renameAll]

end

/-! ## at once -/

section
variable {ms : List SpaceMapping}

theorem ownTarget_source (hms : (ms.map SpaceMapping.source).Nodup) {μ : SpaceMapping} (hμ : μ ∈ ms) :
    ownTarget ms μ.source = μ.target := by
  refine Substitution.atOnce_of_names (m := onName μ) (List.mem_map_of_mem hμ) (by simp [onName]) ?_
  intro m hm hn
  obtain ⟨μ', hμ', rfl⟩ := List.mem_map.mp hm
  have hsource : μ.source = μ'.source := by simpa [onName] using hn
  rw [List.inj_on_of_nodup_map hms hμ hμ' hsource]

theorem ownTarget_of_not_source {n : String} (h : ∀ μ ∈ ms, μ.source ≠ n) : ownTarget ms n = n := by
  refine Substitution.atOnce_of_not_names fun m hm => ?_
  obtain ⟨μ, hμ, rfl⟩ := List.mem_map.mp hm
  simpa [onName, eq_comm] using h μ hμ

theorem ownTarget_perm (hms : (ms.map SpaceMapping.source).Nodup) {ms' : List SpaceMapping}
    (h : ms'.Perm ms) : ownTarget ms' = ownTarget ms := by
  have hms' : (ms'.map SpaceMapping.source).Nodup := (h.map _).nodup_iff.mpr hms
  funext n
  by_cases hany : ∃ μ ∈ ms, μ.source = n
  · obtain ⟨μ, hμ, rfl⟩ := hany
    rw [ownTarget_source hms hμ, ownTarget_source hms' (h.mem_iff.mpr hμ)]
  · have hnone : ∀ μ ∈ ms, μ.source ≠ n := fun μ hμ hn => hany ⟨μ, hμ, hn⟩
    rw [ownTarget_of_not_source hnone, ownTarget_of_not_source fun μ hμ => hnone μ (h.mem_iff.mp hμ)]

theorem idOnly_ownTarget (hms : (ms.map SpaceMapping.source).Nodup)
    (h : ∀ μ ∈ ms, segmentOf μ.source = none ∧ segmentOf μ.target = none) (n : String) :
    idOnly (ownTarget ms n) = idOnly n := by
  by_cases hany : ∃ μ ∈ ms, μ.source = n
  · obtain ⟨μ, hμ, rfl⟩ := hany
    rw [ownTarget_source hms hμ, idOnly_of_none (h μ hμ).1, idOnly_of_none (h μ hμ).2]
  · rw [ownTarget_of_not_source fun μ hμ hn => hany ⟨μ, hμ, hn⟩]

variable (s : Served) (m : Mirror) (project source : String)

theorem plain_atOnce (hN : ∀ μ ∈ ms, ':' ∉ (segment s m project μ.target).toList) (g : String)
    (hg : ':' ∉ g.toList) :
    ':' ∉ (Substitution.atOnce (ms.map (onSegment s m project source)) g).toList := by
  unfold Substitution.atOnce
  cases hfind : (ms.map (onSegment s m project source)).find? (fun μ => μ.names g) with
  | none => exact hg
  | some μ =>
    obtain ⟨μ', hμ', rfl⟩ := List.mem_map.mp (List.mem_of_find?_eq_some hfind)
    exact hN μ' hμ'

/-- **The mappings of an import are one substitution**, in whatever order they come, exactly for a
manifest whose references to spaces are settled and on whose ids the mappings are apart. -/
theorem mapped_at_once_iff {spec : Value} (hspec : Unique spec)
    (hms : (ms.map SpaceMapping.source).Nodup)
    (hnames : ∀ μ ∈ ms, s.isDns1123 μ.source = true ∧ s.isDns1123 μ.target = true)
    (hlabel : ∀ name, s.isDns1123 name = true → ':' ∉ name.toList)
    (hsegment : ∀ μ ∈ ms, ':' ∉ (segment s m project μ.target).toList) :
    (∀ ms' ms'' : List SpaceMapping, ms'.Perm ms → ms''.Perm ms →
        ms'.foldl (mapSpace s m project source) spec = mappedAtOnce s m project source ms'' spec)
      ↔ SentOnce (ownTarget ms) spec ms
        ∧ ∀ g ∈ segmentsIn spec, Substitution.Apart (ms.map (onSegment s m project source)) g := by
  have hplain : ∀ {ms' : List SpaceMapping}, ms'.Perm ms →
      ∀ μ ∈ ms', segmentOf μ.source = none ∧ segmentOf μ.target = none := by
    intro ms' hms' μ hμ
    obtain ⟨hs, ht⟩ := hnames μ (hms'.mem_iff.mp hμ)
    exact ⟨segmentOf_of_plain (hlabel _ hs), segmentOf_of_plain (hlabel _ ht)⟩
  have hsegment' : ∀ {ms' : List SpaceMapping}, ms'.Perm ms →
      ∀ μ ∈ ms', ':' ∉ (segment s m project μ.target).toList :=
    fun hms' μ hμ => hsegment μ (hms'.mem_iff.mp hμ)
  -- the references apart from the ids, on both sides
  have hfold := fun {ms' : List SpaceMapping} (hms' : ms'.Perm ms) =>
    foldl_mapSpace s m project source (hplain hms') (hsegment' hms') spec
  have honce : ∀ {ms'' : List SpaceMapping}, ms''.Perm ms → mappedAtOnce s m project source ms'' spec
      = Value.mapStrings (sendSegment (Substitution.atOnce (ms''.map (onSegment s m project source))))
        (renameAll (ownTarget ms) spec) := by
    intro ms'' hms''
    unfold mappedAtOnce
    rw [ownTarget_perm hms hms'']
  have hturns := fun {ms' : List SpaceMapping} (hms' : ms'.Perm ms) =>
    plain_inTurn s m project source (hsegment' hms')
  have hatOnce := fun {ms'' : List SpaceMapping} (hms'' : ms''.Perm ms) =>
    plain_atOnce s m project source (hsegment' hms'')
  have hidsAll : Value.mapStrings idOnly (renameAll (ownTarget ms) spec) = Value.mapStrings idOnly spec :=
    idsOnly_renameAll (idOnly_ownTarget hms (hplain (List.Perm.refl ms))) hspec
  have hsegments : segmentsIn (renameAll (ownTarget ms) spec) = segmentsIn spec := by
    rw [← segmentsIn_idOnly, hidsAll, segmentsIn_idOnly]
  rw [← inTurns_iff hspec hms fun μ hμ => ownTarget_source hms hμ]
  constructor
  · intro h
    have hreferences : ∀ ms' : List SpaceMapping, ms'.Perm ms →
        inTurns ms' spec = renameAll (ownTarget ms) spec := by
      intro ms' hms'
      have heq := h ms' ms hms' (List.Perm.refl ms)
      rw [hfold hms', honce (List.Perm.refl ms)] at heq
      exact eq_of_mapStrings (keeps_sendSegment (hturns hms'))
        (keeps_sendSegment (hatOnce (List.Perm.refl ms))) heq
        ((idsOnly_inTurns (hplain hms') hspec).trans hidsAll.symm)
    refine ⟨hreferences, fun g hg => ?_⟩
    refine (Substitution.inAnyOrder_map_iff (onSegment s m project source)).mp fun ms' ms'' hms' hms'' => ?_
    have heq := h ms' ms'' hms' hms''
    rw [hfold hms', honce hms'', hreferences ms' hms',
      mapStrings_sendSegment_iff (hturns hms') (hatOnce hms''), hsegments] at heq
    exact heq g hg
  · rintro ⟨hreferences, hids⟩ ms' ms'' hms' hms''
    rw [hfold hms', honce hms'', hreferences ms' hms',
      mapStrings_sendSegment_iff (hturns hms') (hatOnce hms''), hsegments]
    exact fun g hg => (Substitution.inAnyOrder_map_iff (onSegment s m project source)).mpr (hids g hg)
      ms' ms'' hms' hms''

end

/-- a repository with some spaces of the project `p` -/
def spacesOfP (names : List String) : Mirror :=
  (repositoryOf (names.map (fun name => ("p", "ContextSpace", name, .object [])))).toMirror

/-- an Endpoint's spec with a space and a pattern of ids -/
def endpointOn (space idSegment : String) : Value :=
  .object [("contextSpaceRef", .string space),
    ("idPattern", .string ("^urn:ngsi-ld:Sensor:hel\\.fi:" ++ idSegment ++ ":.*$"))]

/-- the spaces of another project put onto two of this one -/
def ontoOthers : List SpaceMapping := [⟨"air", "wind"⟩, ⟨"rain", "sun"⟩]

theorem mapped_at_once_iff_of_air :
    ontoOthers.reverse.foldl (mapSpace smallServed (spacesOfP ["sun", "wind"]) "p" "helsinki")
        (endpointOn "air" "helsinki-air")
      = mappedAtOnce smallServed (spacesOfP ["sun", "wind"]) "p" "helsinki" ontoOthers
        (endpointOn "air" "helsinki-air") := by
  have hlabel : ∀ name, smallServed.isDns1123 name = true → ':' ∉ name.toList := by
    intro name hname hcolon
    have hall : name.toList.all (fun c => ('a' ≤ c && c ≤ 'z') || Text.isDigit c || c = '-') = true := by
      by_contra hnot
      have hno : smallServed.isDns1123 name = false := by
        show (ite _ _ _ : Except String Unit).isOk = false
        rw [if_neg hnot]
        rfl
      rw [hno] at hname
      exact absurd hname (by simp)
    exact absurd (List.all_eq_true.mp hall ':' hcolon) (by decide)
  refine (mapped_at_once_iff smallServed (spacesOfP ["sun", "wind"]) "p" "helsinki" ?_ (by decide)
    (by decide +kernel) hlabel (by decide +kernel)).mpr ⟨?_, by decide +kernel⟩ _ _
    (List.reverse_perm _) (.refl _)
  · exact Value.all_object.mpr ⟨by decide, by simp [Value.All]⟩
  · unfold endpointOn SentOnce
    rw [sentOnceIn_iff]
    simp only [List.forall_mem_cons]
    have hair : spaceNamed "contextSpaceRef" (.string "air") = some "air" := by decide +kernel
    have hpattern : spaceNamed "idPattern"
        (.string ("^urn:ngsi-ld:Sensor:hel\\.fi:" ++ "helsinki-air" ++ ":.*$")) = none := by
      decide +kernel
    simp only [hair, hpattern]
    exact ⟨⟨⟨.inr (by decide), by decide +kernel⟩, by simp [SentOnce]⟩, by simp [SentOnce], by simp⟩

/-- **A space sent twice**: a bundle of the project itself puts `air` onto `wind` and `wind` onto `sun`,
and what was on `air` lands on `sun`; the other way round it lands on `wind`. -/
theorem chain_followed : ∃ (m : Mirror) (ms ms' : List SpaceMapping) (spec : Value),
    (ms.map SpaceMapping.source).Nodup ∧ ms'.Perm ms
      ∧ (∀ μ ∈ ms, (m.get "p" "ContextSpace" μ.target).isSome = true)
      ∧ ms.foldl (mapSpace smallServed m "p" "p") spec = endpointOn "sun" "p-sun"
      ∧ ms'.foldl (mapSpace smallServed m "p" "p") spec = endpointOn "wind" "p-wind"
      ∧ mappedAtOnce smallServed m "p" "p" ms spec = endpointOn "wind" "p-wind" := by
  refine ⟨spacesOfP ["air", "sun", "wind"], [⟨"air", "wind"⟩, ⟨"wind", "sun"⟩],
    [⟨"wind", "sun"⟩, ⟨"air", "wind"⟩], endpointOn "air" "p-air", by decide, by decide, by decide +kernel,
    by decide +kernel, by decide +kernel, by decide +kernel⟩

end Import
end Portal
