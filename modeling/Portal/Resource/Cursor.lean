import Portal.Resource.Listing

/-!
# What a cursor is sealed for (`api/list_query.rs`: `listing_id`, `seal`, `open`)

A listing is named by the hash of its parts, each with a NUL behind it and nothing for one that is
absent.

* `ListQuery.joins`   the parts of a listing;
* `joined`            the text that is hashed;
* `opens_for_its_own`   a cursor opens for a listing with the parts it was sealed for, and no other.
-/

namespace Portal
namespace Lists

/-- the parts that name a listing: the route's, and this query's order and search -/
def ListQuery.joins (p : ListQuery) (parts : List (Option String)) : List (Option String) :=
  parts ++ [p.sort.map SortBy.orderBy, p.q]

def joined (parts : List (Option String)) : String :=
  String.join (parts.map (fun part => part.getD "" ++ "\x00"))

theorem listingId_eq (lib : ListLib) (p : ListQuery) (parts : List (Option String)) :
    p.listingId lib parts = lib.cursors.digest (joined (p.joins parts)) := rfl

def NulFree (parts : List (Option String)) : Prop := ∀ part ∈ parts, '\x00' ∉ (part.getD "").toList

theorem toList_joined_cons (part : Option String) (parts : List (Option String)) :
    (joined (part :: parts)).toList = (part.getD "").toList ++ '\x00' :: (joined parts).toList := by
  unfold joined
  rw [List.map_cons, String.join_cons, String.toList_append, String.toList_append, List.append_assoc]
  rfl

/-- parts without a NUL are told apart, absent ones read as empty -/
theorem joined_inj {parts parts' : List (Option String)} (h : NulFree parts) (h' : NulFree parts') :
    joined parts = joined parts' ↔ parts.map (·.getD "") = parts'.map (·.getD "") := by
  constructor
  · intro heq
    induction parts generalizing parts' with
    | nil =>
      cases parts' with
      | nil => rfl
      | cons part parts' =>
        have hlist := congrArg String.toList heq
        rw [toList_joined_cons] at hlist
        exact absurd hlist.symm (by simp [joined])
    | cons part parts ih =>
      cases parts' with
      | nil =>
        have hlist := congrArg String.toList heq
        rw [toList_joined_cons] at hlist
        exact absurd hlist (by simp [joined])
      | cons part' parts' =>
        have hlist := congrArg String.toList heq
        rw [toList_joined_cons, toList_joined_cons] at hlist
        obtain ⟨hpart, hrest⟩ := Text.cut_first (h part List.mem_cons_self)
          (h' part' List.mem_cons_self) hlist
        rw [List.map_cons, List.map_cons, String.toList_inj.mp hpart,
          ih (fun q hq => h q (List.mem_cons_of_mem _ hq))
            (fun q hq => h' q (List.mem_cons_of_mem _ hq)) (String.toList_inj.mp hrest)]
  · intro heq
    have hmap : ∀ l : List (Option String), joined l
        = String.join ((l.map (·.getD "")).map (· ++ "\x00")) := by
      intro l
      unfold joined
      rw [List.map_map]
      rfl
    rw [hmap, hmap, heq]

section
variable {lib : ListLib} {p p' : ListQuery} {parts parts' : List (Option String)}

/-- **A cursor opens only for its own listing**, parts that are absent read as empty. -/
theorem opens_for_its_own (hdigest : Function.Injective lib.cursors.digest) (hc : lib.cursors.Sound)
    (hnul : NulFree (p.joins parts)) (hnul' : NulFree (p'.joins parts')) :
    (p.listingId lib parts = p'.listingId lib parts' ↔
      (p.joins parts).map (·.getD "") = (p'.joins parts').map (·.getD "")) ∧
    ∀ key key' name, lib.cursors.fromSlice (lib.cursors.toVec ⟨p.listingId lib parts, key, name⟩)
        = some ⟨p.listingId lib parts, key', name⟩ →
      openCursor lib.cursors (sealCursor lib.cursors (p.listingId lib parts) key name)
          (p'.listingId lib parts')
        = if (p.joins parts).map (·.getD "") = (p'.joins parts').map (·.getD "") then .ok (key', name)
          else .error refusedCursor := by
  have hid : p.listingId lib parts = p'.listingId lib parts' ↔
      (p.joins parts).map (·.getD "") = (p'.joins parts').map (·.getD "") := by
    rw [listingId_eq, listingId_eq, hdigest.eq_iff, joined_inj hnul hnul']
  refine ⟨hid, fun key key' name hread => ?_⟩
  rw [openCursor_of_seal hc hread]
  by_cases h : p.listingId lib parts = p'.listingId lib parts'
  · rw [if_neg (not_not.mpr h), if_pos (hid.mp h)]
  · rw [if_pos h, if_neg (fun heq => h (hid.mpr heq))]

end

/-! ## the roles of a project, with an empty selector and with none -/

def plainQuery : ListQuery := ⟨some 1, none, none, none, false⟩

/-- the parts of a list of the roles of `air`, with this label selector -/
def rolesWith (labelSelector : Option String) : List (Option String) :=
  [some "f:1:ana", some "air", some "roles", none, labelSelector, none, none, none]

/-- the cursor after the role `reader` -/
def readerBody : CursorBody := ⟨joined (plainQuery.joins (rolesWith none)), .string "reader", "reader"⟩

/-- the library of that cursor, with the text itself for its hash -/
def rolesLib : ListLib :=
  { nameLib with
    cursors :=
      { nameLib.cursors with
        digest := id
        fromSlice := fun bytes => if bytes = nameBytes readerBody then some readerBody else none } }

theorem rolesLib_sound : rolesLib.cursors.Sound :=
  ⟨nameLib_sound.decode_encode, nameLib_sound.no_dot⟩

theorem opens_for_its_own_of_roles :
    openCursor rolesLib.cursors (sealCursor rolesLib.cursors
        (plainQuery.listingId rolesLib (rolesWith none)) (.string "reader") "reader")
      (plainQuery.listingId rolesLib (rolesWith (some "team=air"))) = .error refusedCursor := by
  have hnul : ∀ labelSelector ∈ [none, some "team=air"],
      NulFree (plainQuery.joins (rolesWith labelSelector)) := by
    unfold NulFree
    decide +kernel
  have hread : rolesLib.cursors.fromSlice (rolesLib.cursors.toVec readerBody) = some readerBody := by
    decide +kernel
  have hopens := (opens_for_its_own Function.injective_id rolesLib_sound
    (hnul none (by decide)) (hnul (some "team=air") (by decide))).2 (.string "reader") (.string "reader")
      "reader" hread
  rw [if_neg (by decide +kernel)] at hopens
  exact hopens

/-- **One id for two listings**: an empty label selector is named as none is. -/
theorem empty_named_as_absent : ¬ ∀ (lib : ListLib) (p p' : ListQuery) parts parts',
    Function.Injective lib.cursors.digest → lib.cursors.Sound →
      p.listingId lib parts = p'.listingId lib parts' → p.joins parts = p'.joins parts' := by
  intro hall
  have hsame := hall rolesLib plainQuery plainQuery (rolesWith none) (rolesWith (some ""))
    Function.injective_id rolesLib_sound rfl
  exact absurd hsame (by decide)

end Lists
end Portal
