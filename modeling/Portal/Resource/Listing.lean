import Mathlib.Data.List.Infix
import Portal.Base.Keyset
import Portal.Error
import Portal.Resource.Order

/-!
# Lists in pages (`api/resources.rs`: `Listing`, `api/list_query.rs`)

A list reads the rows its caller may see, keeps those the filter and the search find, orders them
and cuts a page.  The cursor of the next page carries the sort key and the name of the last row of
this one, sealed for this listing alone; the next request takes the rows that compare greater.

* `Cursors`, `sealCursor`, `openCursor`   the cursor texts;
* `Listing.of`, `Listing.page`      a query checked, and the page it cuts from the rows;
* `follow`                          the requests of one reader, each with the cursor of the last;
* `EachOnce`, `ReadsBack`           the pages list every row once, and the keys read back from a
                                    cursor stand where the rows do;
* `pages_once_iff`                  the first holds, also while rows are taken away, when the second
                                    does.

The JSON text and the base64 of a cursor, its tag and the hash of a listing are library functions
(`Cursors`), as are the schema of a kind and the lower case of a text (`ListLib`).
-/

namespace Portal
namespace Lists
open Portal.Filter

structure SortBy where
  field : String
  descending : Bool

def SortBy.orderBy (s : SortBy) : String := if s.descending then s.field ++ " desc" else s.field

/-- the paging, order, search and count a list call asks for -/
structure ListQuery where
  limit : Option Nat
  cursor : Option String
  sort : Option SortBy
  q : Option String
  count : Bool

/-- a list call's own parameters -/
structure KindListQuery where
  filter : Option String
  labelSelector : Option String
  fieldSelector : Option String
  continueToken : Option String
  revision : Option String
  workspace : Option String

/-- where a page ended, for the listing it was made for -/
structure CursorBody where
  query : String
  key : Value
  name : String
deriving DecidableEq

/-- the library functions of the cursor texts -/
structure Cursors where
  encode : List UInt8 → String
  decode : String → Option (List UInt8)
  /-- the tag of a payload under the key of the process -/
  mac : String → List UInt8
  toVec : CursorBody → List UInt8
  fromSlice : List UInt8 → Option CursorBody
  /-- the hash a listing is named by -/
  digest : String → String

structure ListLib where
  cursors : Cursors
  floats : Floats
  schemaOf : String → Option Value
  lower : String → String

def refused (field message : String) : ApiError :=
  .invalid ("the list parameter `" ++ field ++ "` is not valid: " ++ message)
    [field ++ ": " ++ message]

/-! ## cursors -/

section
variable (c : Cursors)

/-- the cursor of the page after the row with this key and name -/
def sealCursor (listingId : String) (key : Value) (name : String) : String :=
  let payload := c.encode (c.toVec ⟨listingId, key, name⟩)
  payload ++ "." ++ c.encode (c.mac payload)

def refusedCursor : ApiError :=
  refused "cursor" ("is not one this listing handed out: list again without cursor, " ++
    "with the same filter, sort and q")

def openCursor (text listingId : String) : Except ApiError (Value × String) :=
  match Text.splitOnce '.' text.toList with
  | none => .error refusedCursor
  | some (payload, tag) =>
    match c.decode (String.ofList tag) with
    | none => .error refusedCursor
    | some tag =>
      if c.mac (String.ofList payload) ≠ tag then .error refusedCursor
      else
        match (c.decode (String.ofList payload)).bind c.fromSlice with
        | none => .error refusedCursor
        | some body =>
          if body.query ≠ listingId then .error refusedCursor else .ok (body.key, body.name)

/-- what the library promises of a base64 text: it reads back, and has no dot -/
structure Cursors.Sound : Prop where
  decode_encode : ∀ bytes, c.decode (c.encode bytes) = some bytes
  no_dot : ∀ bytes, '.' ∉ (c.encode bytes).toList

variable {c}

theorem openCursor_sealed (hc : c.Sound) (id id' name : String) (key : Value) :
    openCursor c (sealCursor c id key name) id'
      = match c.fromSlice (c.toVec ⟨id, key, name⟩) with
        | none => .error refusedCursor
        | some body => if body.query ≠ id' then .error refusedCursor else .ok (body.key, body.name) := by
  have hsplit : Text.splitOnce '.' (sealCursor c id key name).toList
      = some ((c.encode (c.toVec ⟨id, key, name⟩)).toList,
          (c.encode (c.mac (c.encode (c.toVec ⟨id, key, name⟩)))).toList) := by
    rw [Text.splitOnce_eq_some]
    refine ⟨?_, hc.no_dot _⟩
    simp [sealCursor, String.toList_append]
  unfold openCursor
  rw [hsplit]
  simp only [String.ofList_toList, hc.decode_encode, Option.bind_some, ne_eq, not_true_eq_false,
    if_false]

theorem openCursor_of_seal (hc : c.Sound) {id id' name : String} {key key' : Value}
    (hread : c.fromSlice (c.toVec ⟨id, key, name⟩) = some ⟨id, key', name⟩) :
    openCursor c (sealCursor c id key name) id'
      = if id ≠ id' then .error refusedCursor else .ok (key', name) := by
  rw [openCursor_sealed hc, hread]

end

/-! ## a listing -/

mutual

def texts : Value → List String
  | .string text => [text]
  | .array items => textsItems items
  | .object fields => textsFields fields
  | _ => []

def textsItems : List Value → List String
  | [] => []
  | v :: items => texts v ++ textsItems items

def textsFields : List (String × Value) → List String
  | [] => []
  | (_, v) :: fields => texts v ++ textsFields fields

end

structure Listing where
  filter : Option Expr
  paging : ListQuery
  order : OrderBy
  after : Option (Value × String)
  listingId : String

structure ResourceList where
  continueToken : Option String
  remainingItemCount : Option Nat
  items : List Value
  nextCursor : Option String
  totalCount : Option Nat

/-- a row: its sort key, the name that breaks a tie, the manifest -/
structure Row where
  key : Value
  tie : String
  env : Value
deriving DecidableEq

/-- `metadata.name` of a manifest -/
def nameOf (env : Value) : String := ((valueAt (some env) ["metadata", "name"]).bind asStr).getD ""

def trimmed (text : String) : String := String.ofList (Text.trim text.toList)

section
variable (lib : ListLib)

/-- whether `q` is absent or found in the row's name, title, labels or spec -/
def ListQuery.finds (p : ListQuery) (doc : Value) : Bool :=
  match p.q with
  | none => true
  | some q =>
    [["metadata", "name"], ["metadata", "title"], ["metadata", "labels"], ["spec"]].any (fun path =>
      match valueAt (some doc) path with
      | none => false
      | some value => (texts value).any (fun text => q.toList <:+: (lib.lower text).toList))

/-- the caller, the route's parameters and this query's order and search -/
def ListQuery.listingId (p : ListQuery) (parts : List (Option String)) : String :=
  lib.cursors.digest (String.join ((parts ++ [p.sort.map SortBy.orderBy, p.q]).map
    (fun part => part.getD "" ++ "\x00")))

/-- the filter of the query, checked against the kind -/
def filterOf (schema : Option Value) (filter : Option String) : Except ApiError (Option Expr) :=
  match filter.map trimmed with
  | none => .ok none
  | some text =>
    if text.isEmpty then .ok none
    else
      match Filter.parse schema text with
      | .ok filter => .ok (some filter)
      | .error e => .error (.badRequest
          ("filter at position " ++ toString e.position ++ ": " ++ e.message))

/-- the order of the query, and the list's own without one -/
def orderOf (schema : Option Value) (kind : String) (default : OrderBy) (sort : Option SortBy) :
    Except ApiError OrderBy :=
  match sort with
  | none => .ok default
  | some sort =>
    match OrderBy.parse schema sort.orderBy with
    | .ok order => .ok order
    | .error e => .error (.unprocessable
        ("sort names `" ++ sort.field ++ "`, which a " ++ kind ++ " does not have")
        ["sort: " ++ e.message])

def afterOf (order : OrderBy) (listingId : String) (cursor continueToken : Option String) :
    Except ApiError (Option (Value × String)) :=
  match cursor, continueToken with
  | some _, some _ =>
    .error (.badRequest "send cursor or continue, not both; cursor replaces continue")
  | none, some _ =>
    if order ≠ OrderBy.default then
      .error (.badRequest "continue pages by metadata.name only; page a sort with cursor")
    else .ok none
  | some text, none => (openCursor lib.cursors text listingId).map some
  | none, none => .ok none

/-- a query checked; `parts` names the listing a cursor stays bound to -/
def Listing.of (paging : ListQuery) (query : KindListQuery) (kind : String) (default : OrderBy)
    (parts : List (Option String)) : Except ApiError Listing := do
  let schema := lib.schemaOf kind
  let filter ← filterOf schema query.filter
  let order ← orderOf schema kind default paging.sort
  let listingId := paging.listingId lib (parts ++ [query.filter.map trimmed, query.labelSelector,
    query.fieldSelector, query.workspace, query.revision])
  let after ← afterOf lib order listingId paging.cursor query.continueToken
  return ⟨filter, paging, order, after, listingId⟩

/-- the rows the filter and the search find -/
def Listing.matching (l : Listing) (readable : List (String × Value)) : List Row :=
  (readable.filter (fun row =>
    l.filter.all (eval lib.floats row.2) && l.paging.finds lib row.2)).map
    (fun row => ⟨l.order.keyOf row.2, row.1, row.2⟩)

def Listing.cmp (l : Listing) (a b : Row) : Ordering :=
  l.order.cmp lib.floats (a.key, a.tie) (b.key, b.tie)

/-- the rows that match, in order; the sort is stable -/
def Listing.sorted (l : Listing) (readable : List (String × Value)) : List Row :=
  (l.matching lib readable).insertionSort (fun a b => l.cmp lib a b ≠ Ordering.gt)

def Listing.pastCursor (l : Listing) (rows : List Row) : List Row :=
  match l.after with
  | none => rows
  | some (key, name) => rows.filter (fun row =>
      l.order.cmp lib.floats (row.key, row.tie) (key, name) = Ordering.gt)

def Listing.page (l : Listing) (readable : List (String × Value)) (continueToken : Option String) :
    ResourceList :=
  let rows := l.pastCursor lib (l.sorted lib readable)
  let rows := match continueToken with
    | none => rows
    | some token => rows.filter (fun row => token < nameOf row.env)
  let total := rows.length
  let limit := l.paging.limit.getD total
  let page := rows.take limit
  let more : Bool := limit < total
  let last := if more then page.getLast? else none
  { continueToken := last.map (fun row => nameOf row.env)
    remainingItemCount := if more then some (total - limit) else none
    items := page.map Row.env
    nextCursor := last.map (fun row => sealCursor lib.cursors l.listingId row.key row.tie)
    totalCount := if l.paging.count then some (l.matching lib readable).length else none }

/-! ## a reader that follows the cursors -/

variable (paging : ListQuery) (query : KindListQuery) (kind : String) (default : OrderBy)
  (parts : List (Option String)) (rowsAt : Nat → List (String × Value))

def request (cursor : Option String) (readable : List (String × Value)) :
    Except ApiError ResourceList :=
  (Listing.of lib { paging with cursor := cursor } query kind default parts).map
    (fun l => l.page lib readable query.continueToken)

/-- the pages of the requests from the `i`-th on, which finds `rowsAt i`; at most `fuel` of them -/
def follow : Nat → Nat → Option String → Option (List (List Value))
  | 0, _, _ => none
  | fuel + 1, i, cursor =>
    match request lib paging query kind default parts cursor (rowsAt i) with
    | .error _ => none
    | .ok list =>
      match list.nextCursor with
      | none => some [list.items]
      | some next => (follow fuel (i + 1) (some next)).map (fun pages => list.items :: pages)

end

/-! ## the pages -/

section
variable (lib : ListLib) (paging : ListQuery) (query : KindListQuery) (kind : String)
  (default : OrderBy) (parts : List (Option String)) (rowsAt : Nat → List (String × Value))
  (l : Listing)

/-- rows that are only ever taken away from one request to the next, no two of one tie -/
structure Shrinks (readable : List (String × Value)) (rowsAt : Nat → List (String × Value)) :
    Prop where
  first : rowsAt 0 = readable
  fewer : ∀ i, rowsAt (i + 1) ⊆ rowsAt i
  ties : ∀ i, ((rowsAt i).map Prod.fst).Nodup

/-- A reader that follows the cursors comes to the last page.  The pages together list rows that
matched at the start, in the order of the list and so none twice; every row that matches at each
request is among them; and when no row is taken away they are exactly the rows in order. -/
def EachOnce : Prop :=
  ∃ pages shown, follow lib paging query kind default parts rowsAt ((rowsAt 0).length + 1) 0 none
      = some pages ∧ pages.flatten = shown.map Row.env ∧
    shown.Pairwise (fun a b => l.cmp lib a b = .lt) ∧
    (∀ r ∈ shown, r ∈ l.matching lib (rowsAt 0)) ∧
    (∀ r, (∀ i < pages.length, r ∈ l.matching lib (rowsAt i)) → r ∈ shown) ∧
    ((∀ i, rowsAt i = rowsAt 0) → shown = l.sorted lib (rowsAt 0))

/-- each key a page can end at is read back from its cursor as one at the same place among the
rows; `back` is what the JSON library makes of a key it has written -/
def ReadsBack (back : Value → Option Value) (rows : List Row) : Prop :=
  ∀ r ∈ rows, (∃ s ∈ rows, l.cmp lib s r = .gt) → ∃ key, back r.key = some key ∧
    ∀ s ∈ rows, l.order.cmp lib.floats (s.key, s.tie) (key, r.tie) = .gt ↔ l.cmp lib s r = .gt

end

section
variable {lib : ListLib} {paging : ListQuery} {query : KindListQuery} {kind : String}
  {default : OrderBy} {parts : List (Option String)} {rowsAt : Nat → List (String × Value)}
  {l : Listing}

def Listing.startAt (l : Listing) (cursor : Option String) (after : Option (Value × String)) :
    Listing :=
  { l with paging := { l.paging with cursor := cursor }, after := after }

def Listing.sized (l : Listing) (limit : Option Nat) : Listing :=
  { l with paging := { l.paging with limit := limit } }

/-- a page size changes nothing of a listing but its pages, a cursor nothing but where it starts -/
theorem of_paged (hcont : query.continueToken = none)
    (h : Listing.of lib { paging with cursor := none } query kind default parts = .ok l)
    (limit : Option Nat) :
    l = l.startAt none none ∧ l.paging = { paging with cursor := none } ∧
    Listing.of lib { paging with limit := limit, cursor := none } query kind default parts
      = .ok (l.sized limit) ∧
    ∀ text, Listing.of lib { paging with cursor := some text } query kind default parts
      = (openCursor lib.cursors text l.listingId).map
          (fun after => l.startAt (some text) (some after)) := by
  unfold Listing.of at h ⊢
  simp only [hcont] at h ⊢
  cases hf : filterOf (lib.schemaOf kind) query.filter with
  | error e => rw [hf] at h; exact absurd h (by simp [bind, Except.bind])
  | ok filter =>
    rw [hf] at h
    cases ho : orderOf (lib.schemaOf kind) kind default paging.sort with
    | error e => rw [ho] at h; exact absurd h (by simp [bind, Except.bind])
    | ok order =>
      rw [ho] at h
      cases h
      refine ⟨rfl, rfl, rfl, fun text => ?_⟩
      show ((openCursor lib.cursors text (paging.listingId lib _)).map some).bind _
        = (openCursor lib.cursors text (paging.listingId lib _)).map _
      cases openCursor lib.cursors text (paging.listingId lib _) with
      | error e => rfl
      | ok a => rfl

theorem matching_subset (l : Listing) {rows rows' : List (String × Value)} (h : rows' ⊆ rows) :
    l.matching lib rows' ⊆ l.matching lib rows := by
  intro r hr
  obtain ⟨row, hrow, rfl⟩ := List.mem_map.mp hr
  obtain ⟨hmem, hp⟩ := List.mem_filter.mp hrow
  exact List.mem_map.mpr ⟨row, List.mem_filter.mpr ⟨h hmem, hp⟩, rfl⟩

theorem Shrinks.matching_subset {readable : List (String × Value)} (h : Shrinks readable rowsAt)
    (l : Listing) (lib : ListLib) (i : Nat) :
    l.matching lib (rowsAt i) ⊆ l.matching lib readable := by
  induction i with
  | zero => rw [h.first]; exact List.Subset.refl _
  | succ i ih => exact List.Subset.trans (Lists.matching_subset l (h.fewer i)) ih

theorem mem_sorted {rows : List (String × Value)} {r : Row} :
    r ∈ l.sorted lib rows ↔ r ∈ l.matching lib rows := List.mem_insertionSort _

theorem exists_row {rows : List (String × Value)} {r : Row} (hr : r ∈ l.matching lib rows) :
    ∃ row ∈ rows, l.matching lib [row] = [r] := by
  obtain ⟨row, hrow, rfl⟩ := List.mem_map.mp hr
  obtain ⟨hmem, hpass⟩ := List.mem_filter.mp hrow
  refine ⟨row, hmem, ?_⟩
  unfold Listing.matching
  rw [List.filter_cons, if_pos hpass]
  rfl

theorem matching_ties (l : Listing) {rows : List (String × Value)}
    (h : (rows.map Prod.fst).Nodup) : (l.matching lib rows).Pairwise (fun a b => a.tie ≠ b.tie) := by
  unfold Listing.matching
  rw [List.pairwise_map]
  refine List.Pairwise.sublist List.filter_sublist ?_
  exact List.pairwise_map.mp h

variable {β : Type} [LinearOrder β] {place : Value × String → β}

def Row.pos (place : Value × String → β) (r : Row) : β := place (r.key, r.tie)

/-- the places that `cmp` is the order of, for rows with the keys given, tell ties apart -/
structure Places (lib : ListLib) (l : Listing) (keys : Value → Prop) (place : Value × String → β) :
    Prop where
  cmp_eq : ∀ a b, keys a.1 → keys b.1 →
    l.order.cmp lib.floats a b = compareOfLessAndEq (place a) (place b)
  tie_eq : ∀ a b, place a = place b → a.2 = b.2

variable {keys : Value → Prop}

/-- **The rows sorted stand in strict order of their places.** -/
theorem sorted_ordered (hp : Places lib l keys place) {rows : List (String × Value)}
    (hkeys : ∀ r ∈ l.matching lib rows, keys r.key) (hties : (rows.map Prod.fst).Nodup) :
    Keyset.Ordered (Row.pos place) (l.sorted lib rows) := by
  have hle : ∀ a ∈ l.matching lib rows, ∀ b ∈ l.matching lib rows,
      (l.cmp lib a b ≠ Ordering.gt) ↔ Row.pos place a ≤ Row.pos place b := by
    intro a ha b hb
    have he : l.cmp lib a b = compareOfLessAndEq (Row.pos place a) (Row.pos place b) :=
      hp.cmp_eq _ _ (hkeys a ha) (hkeys b hb)
    rw [he, ne_eq, compareOfLessAndEq_eq_gt le_antisymm le_total not_le, not_lt]
  have hmap := List.map_insertionSort (fun a b => l.cmp lib a b ≠ Ordering.gt) (· ≤ ·)
    (Row.pos place) (l.matching lib rows) hle
  have hsorted : (l.sorted lib rows).Pairwise
      (fun a b => Row.pos place a ≤ Row.pos place b) := by
    rw [← List.pairwise_map (f := Row.pos place)]
    show ((l.sorted lib rows).map (Row.pos place)).Pairwise (· ≤ ·)
    rw [show (l.sorted lib rows).map (Row.pos place) = _ from hmap]
    exact List.pairwise_insertionSort _ _
  have hne : (l.sorted lib rows).Pairwise (fun a b => Row.pos place a ≠ Row.pos place b) := by
    have hperm : (l.sorted lib rows).Perm (l.matching lib rows) := List.perm_insertionSort _ _
    refine (hperm.pairwise_iff (fun h => h.symm)).mpr ?_
    exact (matching_ties l hties).imp (fun h he => h (hp.tie_eq _ _ he))
  exact (hsorted.and hne).imp (fun h => lt_of_le_of_ne h.1 h.2)

theorem cmp_gt_iff (hp : Places lib l keys place) {r s : Row} (hr : keys r.key) (hs : keys s.key) :
    l.cmp lib s r = .gt ↔ Row.pos place r < Row.pos place s := by
  unfold Listing.cmp
  rw [hp.cmp_eq _ _ hs hr]
  exact compareOfLessAndEq_eq_gt le_antisymm le_total not_le _ _

theorem cmp_lt_iff (hp : Places lib l keys place) {r s : Row} (hr : keys r.key) (hs : keys s.key) :
    l.cmp lib r s = .lt ↔ Row.pos place r < Row.pos place s := by
  unfold Listing.cmp
  rw [hp.cmp_eq _ _ hr hs]
  exact compareOfLessAndEq_eq_lt

/-- a cursor lets through the rows after a place -/
def Marks (lib : ListLib) (l : Listing) (place : Value × String → β) (rows : List Row)
    (mark : Option (Value × String)) (start : Option β) : Prop :=
  ∀ r ∈ rows, (∀ m, mark = some m → l.order.cmp lib.floats (r.key, r.tie) m = .gt) ↔
    ∀ p, start = some p → p < Row.pos place r

theorem pastCursor_eq {rows : List (String × Value)} (cursor : Option String)
    {mark : Option (Value × String)} {start : Option β}
    (hmark : Marks lib l place (l.matching lib rows) mark start) :
    (l.startAt cursor mark).pastCursor lib (l.sorted lib rows)
      = Keyset.after (Row.pos place) start (l.sorted lib rows) := by
  have hpast : (l.startAt cursor mark).pastCursor lib (l.sorted lib rows)
      = (l.sorted lib rows).filter (fun r => mark.all (fun m =>
          l.order.cmp lib.floats (r.key, r.tie) m = .gt)) := by
    cases mark with
    | none => exact (List.filter_eq_self.mpr (fun _ _ => rfl)).symm
    | some m => rfl
  have hafter : Keyset.after (Row.pos place) start (l.sorted lib rows)
      = (l.sorted lib rows).filter (fun r => start.all (fun p => decide (p < Row.pos place r))) := by
    cases start with
    | none => exact (List.filter_eq_self.mpr (fun _ _ => rfl)).symm
    | some p => rfl
  rw [hpast, hafter]
  refine List.filter_congr (fun r hr => ?_)
  rw [Bool.eq_iff_iff, Option.all_eq_true, Option.all_eq_true]
  simpa using hmark r (mem_sorted.mp hr)

theorem page_of_left (l : Listing) (rows : List (String × Value)) (cursor : Option String)
    (mark : Option (Value × String)) {left : List Row} {n : Nat}
    (hleft : (l.startAt cursor mark).pastCursor lib (l.sorted lib rows) = left)
    (hn : n = l.paging.limit.getD left.length) :
    ((l.startAt cursor mark).page lib rows none).items = (left.take n).map Row.env ∧
    ((l.startAt cursor mark).page lib rows none).nextCursor
      = (if n < left.length then (left.take n).getLast? else none).map
          (fun row => sealCursor lib.cursors l.listingId row.key row.tie) := by
  rw [hn, ← hleft]
  refine ⟨rfl, ?_⟩
  show Option.map _ (if decide _ = true then _ else none) = _
  simp only [decide_eq_true_eq]
  rfl

theorem page_cases {rows : List (String × Value)} {mark : Option (Value × String)}
    {cursor : Option String} {left : List Row} (hlimit : ∀ n, l.paging.limit = some n → 1 ≤ n)
    (hleft : (l.startAt cursor mark).pastCursor lib (l.sorted lib rows) = left)
    {list : ResourceList} (hlist : list = (l.startAt cursor mark).page lib rows none) :
    (list.nextCursor = none ∧ list.items = left.map Row.env) ∨
    ∃ page x y rest, left = page ++ x :: y :: rest ∧ list.items = (page ++ [x]).map Row.env ∧
      list.nextCursor = some (sealCursor lib.cursors l.listingId x.key x.tie) := by
  obtain ⟨hitems, hnext⟩ := page_of_left l rows cursor mark hleft rfl
  rw [← hlist] at hitems hnext
  by_cases hmore : l.paging.limit.getD left.length < left.length
  · right
    have hpos : 1 ≤ l.paging.limit.getD left.length := by
      cases hl : l.paging.limit with
      | none => rw [hl] at hmore; exact absurd hmore (lt_irrefl _)
      | some n => exact hlimit n hl
    generalize l.paging.limit.getD left.length = n at hitems hnext hmore hpos
    have hne : left.take n ≠ [] := by
      intro he
      have hlen := congrArg List.length he
      rw [List.length_take, List.length_nil] at hlen
      omega
    have hcut := List.dropLast_concat_getLast hne
    obtain ⟨y, rest, hrest⟩ := List.exists_cons_of_length_pos
      (show 0 < (left.drop n).length by rw [List.length_drop]; omega)
    refine ⟨(left.take n).dropLast, (left.take n).getLast hne, y, rest, ?_, ?_, ?_⟩
    · rw [← hrest, List.append_cons, hcut, List.take_append_drop]
    · rw [hcut, hitems]
    · rw [hnext, if_pos hmore, List.getLast?_eq_some_getLast hne]
      rfl
  · left
    rw [if_neg hmore] at hnext
    refine ⟨hnext, ?_⟩
    rw [hitems, List.take_of_length_le (not_lt.mp hmore)]

/-- what the next request makes of the cursor after `x` -/
theorem of_next (hc : lib.cursors.Sound) (hcont : query.continueToken = none)
    (hof : Listing.of lib { paging with cursor := none } query kind default parts = .ok l)
    {back : Value → Option Value} {x : Row}
    (hread : lib.cursors.fromSlice (lib.cursors.toVec ⟨l.listingId, x.key, x.tie⟩)
      = (back x.key).map (fun key => ⟨l.listingId, key, x.tie⟩)) :
    Listing.of lib { paging with
        cursor := some (sealCursor lib.cursors l.listingId x.key x.tie) } query kind default parts
      = match back x.key with
        | none => .error refusedCursor
        | some key => .ok (l.startAt (some (sealCursor lib.cursors l.listingId x.key x.tie))
            (some (key, x.tie))) := by
  rw [(of_paged hcont hof none).2.2.2]
  rw [openCursor_sealed hc, hread]
  cases back x.key with
  | none => rfl
  | some key =>
    simp only [Option.map_some, ne_eq, not_true_eq_false, if_false]
    rfl

theorem follow_pages (hc : lib.cursors.Sound) (hp : Places lib l keys place)
    (hcont : query.continueToken = none)
    (hof : Listing.of lib { paging with cursor := none } query kind default parts = .ok l)
    (hlimit : ∀ n, paging.limit = some n → 1 ≤ n) {readable : List (String × Value)}
    (hshrinks : Shrinks readable rowsAt) (hkeys : ∀ r ∈ l.matching lib readable, keys r.key)
    {back : Value → Option Value} (hread : ∀ r ∈ l.matching lib readable,
      lib.cursors.fromSlice (lib.cursors.toVec ⟨l.listingId, r.key, r.tie⟩)
        = (back r.key).map (fun key => ⟨l.listingId, key, r.tie⟩))
    (hback : ReadsBack lib l back (l.matching lib readable))
    (fuel i : Nat) (cursor : Option String) (mark : Option (Value × String)) (start : Option β)
    (hmark : Marks lib l place (l.matching lib readable) mark start)
    (hstart : Listing.of lib { paging with cursor := cursor } query kind default parts
      = .ok (l.startAt cursor mark))
    (hfuel : (Keyset.after (Row.pos place) start (l.sorted lib (rowsAt i))).length < fuel) :
    ∃ shown, follow lib paging query kind default parts rowsAt fuel i cursor
        = some (shown.map (List.map Row.env)) ∧
      Keyset.Pages (Row.pos place) (fun j => l.sorted lib (rowsAt j)) i start shown := by
  have hsub := hshrinks.matching_subset l lib
  have hord : ∀ j, Keyset.Ordered (Row.pos place) (l.sorted lib (rowsAt j)) :=
    fun j => sorted_ordered hp (fun r hr => hkeys r (hsub j hr)) (hshrinks.ties j)
  have hlimit' : ∀ n, l.paging.limit = some n → 1 ≤ n := by
    rw [(of_paged hcont hof none).2.1]
    exact hlimit
  induction fuel generalizing i cursor mark start with
  | zero => exact absurd hfuel (Nat.not_lt_zero _)
  | succ fuel ih =>
    have hreq : request lib paging query kind default parts cursor (rowsAt i)
        = .ok ((l.startAt cursor mark).page lib (rowsAt i) none) := by
      unfold request
      rw [hstart, hcont]
      rfl
    rw [follow, hreq]
    simp only
    rcases page_cases hlimit' (pastCursor_eq cursor (fun r hr => hmark r (hsub i hr))) rfl with
      ⟨hnext, hitems⟩ | ⟨page, x, y, rest, hleft, hitems, hnext⟩
    · rw [hnext]
      exact ⟨[_], by rw [hitems]; rfl, Keyset.Pages.last i _⟩
    · -- the next request opens the cursor of `x` at the place of `x`, and finds fewer rows after it
      have hmem : ∀ r ∈ page ++ x :: y :: rest, r ∈ l.matching lib readable := fun r hr =>
        hsub i (mem_sorted.mp (Keyset.mem_after.mp (hleft ▸ hr)).1)
      have hx := hmem x (List.mem_append_right _ List.mem_cons_self)
      have hy := hmem y (List.mem_append_right _ (List.mem_cons_of_mem _ List.mem_cons_self))
      have hxy : Row.pos place x < Row.pos place y := by
        have hs := (hord i).after start
        rw [hleft] at hs
        exact (List.pairwise_cons.mp (List.pairwise_append.mp hs).2.1).1 y List.mem_cons_self
      obtain ⟨key, hkey, hplace⟩ := hback x hx ⟨y, hy, (cmp_gt_iff hp (hkeys x hx) (hkeys y hy)).mpr hxy⟩
      have hless := Keyset.length_after_lt (hord i) (hord (i + 1)) hleft
        (fun r hr => mem_sorted.mpr (matching_subset l (hshrinks.fewer i) (mem_sorted.mp hr)))
      obtain ⟨shown, hshown, hpages⟩ := ih (i + 1)
        (some (sealCursor lib.cursors l.listingId x.key x.tie)) (some (key, x.tie))
        (some (Row.pos place x))
        (by
          intro s hs
          simpa [hplace s hs] using cmp_gt_iff hp (hkeys x hx) (hkeys s hs))
        (by rw [of_next hc hcont hof (hread x hx), hkey])
        (Nat.lt_of_lt_of_le hless (Nat.le_of_lt_succ hfuel))
      rw [hnext]
      refine ⟨(page ++ [x]) :: shown, ?_, Keyset.Pages.more hleft hpages⟩
      show Option.map _ (follow lib paging query kind default parts rowsAt fuel (i + 1) _) = _
      rw [hshown, hitems]
      rfl

/-- **Paging lists each row once** when its keys read back to their places. -/
theorem eachOnce_of_readsBack (hc : lib.cursors.Sound) (hp : Places lib l keys place)
    (hcont : query.continueToken = none)
    (hof : Listing.of lib { paging with cursor := none } query kind default parts = .ok l)
    (hlimit : ∀ n, paging.limit = some n → 1 ≤ n) {readable : List (String × Value)}
    (hshrinks : Shrinks readable rowsAt) (hkeys : ∀ r ∈ l.matching lib readable, keys r.key)
    {back : Value → Option Value} (hread : ∀ r ∈ l.matching lib readable,
      lib.cursors.fromSlice (lib.cursors.toVec ⟨l.listingId, r.key, r.tie⟩)
        = (back r.key).map (fun key => ⟨l.listingId, key, r.tie⟩))
    (hback : ReadsBack lib l back (l.matching lib readable)) :
    EachOnce lib paging query kind default parts rowsAt l := by
  have hsub := hshrinks.matching_subset l lib
  have hord : ∀ j, Keyset.Ordered (Row.pos place) (l.sorted lib (rowsAt j)) :=
    fun j => sorted_ordered hp (fun r hr => hkeys r (hsub j hr)) (hshrinks.ties j)
  have hrows : ∀ j, l.sorted lib (rowsAt (j + 1)) ⊆ l.sorted lib (rowsAt j) :=
    fun j r hr => mem_sorted.mpr (matching_subset l (hshrinks.fewer j) (mem_sorted.mp hr))
  have hlen : (l.sorted lib (rowsAt 0)).length < (rowsAt 0).length + 1 := by
    unfold Listing.sorted Listing.matching
    rw [List.length_insertionSort, List.length_map]
    exact Nat.lt_succ_of_le (List.length_filter_le _ _)
  have hstart := hof
  rw [(of_paged hcont hof none).1] at hstart
  obtain ⟨shown, hshown, hpages⟩ := follow_pages hc hp hcont hof hlimit hshrinks hkeys hread hback
    _ 0 none none none (by intro r _; simp) hstart hlen
  have hmem : ∀ r ∈ shown.flatten, r ∈ l.matching lib (rowsAt 0) :=
    fun r hr => mem_sorted.mp (Keyset.mem_after.mp (hpages.mem_first hrows hr)).1
  refine ⟨shown.map (List.map Row.env), shown.flatten, hshown, List.map_flatten.symm, ?_, hmem,
    ?_, ?_⟩
  · refine (hpages.ordered hord hrows).imp_of_mem (fun {a b} ha hb hlt => ?_)
    have he : l.cmp lib a b = compareOfLessAndEq (Row.pos place a) (Row.pos place b) :=
      hp.cmp_eq _ _ (hkeys a (hsub 0 (hmem a ha))) (hkeys b (hsub 0 (hmem b hb)))
    rw [he]
    exact compareOfLessAndEq_eq_lt.mpr hlt
  · intro r hr
    refine hpages.complete (fun j _ hj => mem_sorted.mpr (hr j ?_)) (by simp) hord
    rw [List.length_map]
    omega
  · intro hconst
    exact hpages.eq_after (hord 0) (fun j => by rw [hconst j])

variable {readable : List (String × Value)}

theorem matching_inj (hties : (readable.map Prod.fst).Nodup)
    (hnamed : ∀ row ∈ readable, ∀ row' ∈ readable, row.2 = row'.2 → row.1 = row'.1) {a b : Row}
    (ha : a ∈ l.matching lib readable) (hb : b ∈ l.matching lib readable) (he : a.env = b.env) :
    a = b := by
  obtain ⟨row, hrow, rfl⟩ := List.mem_map.mp ha
  obtain ⟨row', hrow', rfl⟩ := List.mem_map.mp hb
  have hname := hnamed row (List.mem_filter.mp hrow).1 row' (List.mem_filter.mp hrow').1 he
  rw [List.inj_on_of_nodup_map hties (List.mem_filter.mp hrow).1 (List.mem_filter.mp hrow').1 hname]

theorem eq_of_map_env {rows rows' shown : List Row} (hinj : ∀ a ∈ rows, ∀ b ∈ rows, a.env = b.env → a = b)
    (hrows' : rows' ⊆ rows) (hshown : shown ⊆ rows) (he : rows'.map Row.env = shown.map Row.env) :
    rows' = shown := by
  induction rows' generalizing shown with
  | nil => exact (List.map_eq_nil_iff.mp he.symm).symm
  | cons a rows' ih =>
    cases shown with
    | nil => exact absurd he (by simp)
    | cons b shown =>
      rw [List.map_cons, List.map_cons, List.cons.injEq] at he
      rw [hinj a (hrows' List.mem_cons_self) b (hshown List.mem_cons_self) he.1,
        ih (fun r hr => hrows' (List.mem_cons_of_mem _ hr))
          (fun r hr => hshown (List.mem_cons_of_mem _ hr)) he.2]

/-- two requests: the first page ends at `r`, then one row is left -/
theorem follow_two (paging : ListQuery) (rowsAt : Nat → List (String × Value)) (l : Listing)
    (hc : lib.cursors.Sound) (hcont : query.continueToken = none)
    (hof : Listing.of lib { paging with cursor := none } query kind default parts = .ok l)
    {page rest : List Row} {r s y : Row} (hfirst : l.sorted lib (rowsAt 0) = page ++ r :: y :: rest)
    (hsecond : l.sorted lib (rowsAt 1) = [s]) (hlimit : paging.limit = some (page.length + 1))
    {back : Value → Option Value} (hread : lib.cursors.fromSlice
        (lib.cursors.toVec ⟨l.listingId, r.key, r.tie⟩)
      = (back r.key).map (fun key => ⟨l.listingId, key, r.tie⟩)) (fuel : Nat) :
    follow lib paging query kind default parts rowsAt (fuel + 2) 0 none
      = (back r.key).map (fun key => [(page ++ [r]).map Row.env,
          ([s].filter (fun s => l.order.cmp lib.floats (s.key, s.tie) (key, r.tie) = .gt)).map
            Row.env]) := by
  obtain ⟨hstart, hpaging, -, -⟩ := of_paged hcont hof none
  have hsize : l.paging.limit = some (page.length + 1) := by rw [hpaging]; exact hlimit
  have hreq : request lib paging query kind default parts none (rowsAt 0)
      = .ok ((l.startAt none none).page lib (rowsAt 0) none) := by
    unfold request
    rw [hof, ← hstart, hcont]
    rfl
  have htake : (page ++ r :: y :: rest).take (page.length + 1) = page ++ [r] := by
    rw [List.append_cons, List.take_left' (by simp)]
  obtain ⟨hitems, hnext⟩ := page_of_left l (rowsAt 0) none none hfirst
    (n := page.length + 1) (by rw [hsize]; rfl)
  rw [htake] at hitems hnext
  rw [if_pos (by simp), List.getLast?_concat] at hnext
  rw [follow, hreq]
  simp only [hnext, hitems, Option.map_some]
  rw [follow]
  unfold request
  rw [of_next hc hcont hof hread, hcont]
  cases back r.key with
  | none => rfl
  | some key =>
    set left := [s].filter (fun s => l.order.cmp lib.floats (s.key, s.tie) (key, r.tie) = .gt)
      with hleft
    have hlen : left.length ≤ 1 := List.length_filter_le _ _
    have hpast : (l.startAt (some (sealCursor lib.cursors l.listingId r.key r.tie))
        (some (key, r.tie))).pastCursor lib (l.sorted lib (rowsAt 1)) = left := by
      rw [hsecond]
      rfl
    obtain ⟨hitems', hnext'⟩ := page_of_left l (rowsAt 1) _ _ hpast
      (n := page.length + 1) (by rw [hsize]; rfl)
    rw [if_neg (by omega)] at hnext'
    rw [List.take_of_length_le (by omega)] at hitems'
    simp only [Except.map, Option.map_some, Option.map_none, hnext', hitems']
    rw [hleft]

/-- where no row is left behind by the key its page's cursor is read back with, the page comes again
without end -/
theorem follow_again (paging : ListQuery) (rows : List (String × Value)) (l : Listing)
    (hc : lib.cursors.Sound) (hcont : query.continueToken = none)
    (hof : Listing.of lib { paging with cursor := none } query kind default parts = .ok l)
    {page rest : List Row} {r y : Row} (hsorted : l.sorted lib rows = page ++ r :: y :: rest)
    (hlimit : paging.limit = some (page.length + 1)) (back : Value → Option Value) {key : Value}
    (hread : lib.cursors.fromSlice (lib.cursors.toVec ⟨l.listingId, r.key, r.tie⟩)
      = (back r.key).map (fun key => ⟨l.listingId, key, r.tie⟩)) (hback : back r.key = some key)
    (hgreater : ∀ s ∈ l.sorted lib rows,
      l.order.cmp lib.floats (s.key, s.tie) (key, r.tie) = .gt) (fuel i : Nat)
    (cursor : Option String)
    (hcursor : cursor = none ∨
      cursor = some (sealCursor lib.cursors l.listingId r.key r.tie)) :
    follow lib paging query kind default parts (fun _ => rows) fuel i cursor = none := by
  obtain ⟨hstart, hpaging, -, -⟩ := of_paged hcont hof none
  have hsize : l.paging.limit = some (page.length + 1) := by rw [hpaging]; exact hlimit
  -- the first request and the one after it differ in the cursor alone
  have hagain : ∀ cursor, cursor = none ∨
        cursor = some (sealCursor lib.cursors l.listingId r.key r.tie) →
      ∃ mark, Listing.of lib { paging with cursor := cursor } query kind default parts
        = .ok (l.startAt cursor mark) ∧
          (l.startAt cursor mark).pastCursor lib (l.sorted lib rows) = page ++ r :: y :: rest := by
    rintro _ (rfl | rfl)
    · exact ⟨none, hof.trans (congrArg _ hstart), hsorted⟩
    · refine ⟨some (key, r.tie), ?_, ?_⟩
      · rw [of_next hc hcont hof hread, hback]
      · refine (List.filter_eq_self.mpr fun s hs => ?_).trans hsorted
        exact decide_eq_true (hgreater s hs)
  induction fuel generalizing i cursor with
  | zero => rfl
  | succ fuel ih =>
    obtain ⟨mark, hnext, hleft⟩ := hagain cursor hcursor
    obtain ⟨-, hcut⟩ := page_of_left l rows cursor mark hleft (n := page.length + 1)
      (by rw [hsize]; rfl)
    rw [if_pos (by simp), List.append_cons, List.take_left' (by simp), List.getLast?_concat] at hcut
    rw [follow]
    unfold request
    rw [hnext, hcont]
    simp only [Except.map, hcut, Option.map_some, ih (i + 1) _ (.inr rfl), Option.map_none]

/-- what compares greater than a row stands after it -/
theorem mem_after_of_gt (hp : Places lib l keys place)
    (hord : Keyset.Ordered (Row.pos place) (l.sorted lib readable)) {page after : List Row} {r s : Row}
    (hcut : l.sorted lib readable = page ++ r :: after) (hr : keys r.key) (hs : keys s.key)
    (hmem : s ∈ l.matching lib readable) (hgt : l.cmp lib s r = .gt) : s ∈ after := by
  have hlt := (cmp_gt_iff hp hr hs).mp hgt
  have hm := mem_sorted.mpr hmem
  unfold Keyset.Ordered at hord
  rw [hcut] at hord hm
  rcases List.mem_append.mp hm with h | h
  · exact absurd ((List.pairwise_append.mp hord).2.2 s h r List.mem_cons_self) hlt.asymm
  · rcases List.mem_cons.mp h with rfl | h
    · exact absurd hlt (lt_irrefl _)
    · exact h

/-- where the page of a row and then one row more are listed each once, the key of the page's last row
reads back to a place the one row more is after when it is after that row -/
theorem exists_back (hc : lib.cursors.Sound) (hp : Places lib l keys place)
    (hcont : query.continueToken = none)
    (hof : Listing.of lib { paging with cursor := none } query kind default parts = .ok l)
    (hties : (readable.map Prod.fst).Nodup)
    (hnamed : ∀ row ∈ readable, ∀ row' ∈ readable, row.2 = row'.2 → row.1 = row'.1)
    (hkeys : ∀ r ∈ l.matching lib readable, keys r.key) {page rest : List Row} {r y s : Row}
    (hcut : l.sorted lib readable = page ++ r :: y :: rest) (hr : r ∈ l.matching lib readable)
    (hs : s ∈ l.matching lib readable) {back : Value → Option Value}
    (hread : lib.cursors.fromSlice (lib.cursors.toVec ⟨l.listingId, r.key, r.tie⟩)
      = (back r.key).map (fun key => ⟨l.listingId, key, r.tie⟩))
    (hall : ∀ rowsAt, Shrinks readable rowsAt →
      EachOnce lib { paging with limit := some (page.length + 1) } query kind default parts rowsAt l) :
    ∃ key, back r.key = some key ∧
      (l.order.cmp lib.floats (s.key, s.tie) (key, r.tie) = .gt ↔ l.cmp lib s r = .gt) := by
  have hord := sorted_ordered hp hkeys hties
  obtain ⟨row, hmem, hleft⟩ := exists_row hs
  -- a page that ends at `r`, and only `s` left for the next request
  let rowsAt : Nat → List (String × Value) := fun i => if i = 0 then readable else [row]
  have hshrinks : Shrinks readable rowsAt := by
    refine ⟨rfl, fun i => ?_, fun i => ?_⟩
    · cases i with
      | zero => exact List.cons_subset.mpr ⟨hmem, List.nil_subset _⟩
      | succ i => exact List.Subset.refl _
    · cases i with
      | zero => exact hties
      | succ i => exact List.nodup_singleton _
  have hsecond : l.sorted lib [row] = [s] := by
    unfold Listing.sorted
    rw [hleft]
    rfl
  obtain ⟨fuel, hfuel⟩ : ∃ fuel, readable.length = fuel + 1 :=
    Nat.exists_eq_add_one.mpr (List.length_pos_of_mem hmem)
  obtain ⟨pages, shown, hpages, hflat, hlt, hsub, hstays, -⟩ := hall rowsAt hshrinks
  have htwo := follow_two { paging with limit := some (page.length + 1) } rowsAt
    (l.sized (some (page.length + 1))) hc hcont
    (of_paged hcont hof (some (page.length + 1))).2.2.1 hcut hsecond rfl hread fuel
  rw [show (rowsAt 0).length + 1 = fuel + 2 from congrArg (· + 1) hfuel, htwo] at hpages
  cases hkey : back r.key with
  | none => rw [hkey] at hpages; exact absurd hpages (by simp)
  | some key =>
    rw [hkey] at hpages
    cases hpages
    refine ⟨key, rfl, ?_⟩
    set left := [s].filter (fun s => (l.sized (some (page.length + 1))).order.cmp lib.floats
      (s.key, s.tie) (key, r.tie) = .gt)
    have hall' : page ++ [r] ++ left ⊆ l.matching lib readable := by
      intro a ha
      rcases List.mem_append.mp ha with ha | ha
      · refine mem_sorted.mp (hcut ▸ ?_)
        rw [List.append_cons]
        exact List.mem_append_left _ ha
      · rw [List.mem_singleton.mp (List.mem_filter.mp ha).1]
        exact hs
    have hshown : page ++ [r] ++ left = shown :=
      eq_of_map_env (fun a ha b hb => matching_inj hties hnamed ha hb) hall' hsub (by
        rw [List.map_append]
        exact (congrArg _ (List.append_nil _).symm).trans hflat)
    constructor
    · intro hgt
      have hin : s ∈ left := List.mem_filter.mpr ⟨List.mem_singleton.mpr rfl, decide_eq_true hgt⟩
      rw [← hshown] at hlt
      have hrs := (List.pairwise_append.mp hlt).2.2 r (List.mem_concat_self) s hin
      exact (cmp_gt_iff hp (hkeys r hr) (hkeys s hs)).mpr
        ((cmp_lt_iff hp (hkeys r hr) (hkeys s hs)).mp hrs)
    · intro hgt
      have hin : s ∈ shown := by
        refine hstays s (fun i _ => ?_)
        cases i with
        | zero => exact hs
        | succ i => exact hleft ▸ List.mem_singleton.mpr rfl
      rw [← hshown] at hin
      rcases List.mem_append.mp hin with hin | hin
      · -- `s` is on the first page and stands after its last row
        have hs' := mem_after_of_gt hp hord hcut (hkeys r hr) (hkeys s hs) hs hgt
        unfold Keyset.Ordered at hord
        rw [hcut, List.append_cons] at hord
        exact absurd ((List.pairwise_append.mp hord).2.2 s hin s hs') (lt_irrefl _)
      · exact of_decide_eq_true (List.mem_filter.mp hin).2

/-- paging that lists each row once, whatever is taken away, has keys that read back to their
places -/
theorem readsBack_of_eachOnce (hc : lib.cursors.Sound) (hp : Places lib l keys place)
    (hcont : query.continueToken = none)
    (hof : Listing.of lib { paging with cursor := none } query kind default parts = .ok l)
    (hties : (readable.map Prod.fst).Nodup)
    (hnamed : ∀ row ∈ readable, ∀ row' ∈ readable, row.2 = row'.2 → row.1 = row'.1)
    (hkeys : ∀ r ∈ l.matching lib readable, keys r.key)
    {back : Value → Option Value} (hread : ∀ r ∈ l.matching lib readable,
      lib.cursors.fromSlice (lib.cursors.toVec ⟨l.listingId, r.key, r.tie⟩)
        = (back r.key).map (fun key => ⟨l.listingId, key, r.tie⟩))
    (hall : ∀ limit rowsAt, (∀ n, limit = some n → 1 ≤ n) → Shrinks readable rowsAt →
      EachOnce lib { paging with limit := limit } query kind default parts rowsAt l) :
    ReadsBack lib l back (l.matching lib readable) := by
  intro r hr ⟨y, hy, hyr⟩
  obtain ⟨page, after, hcut⟩ := List.append_of_mem (mem_sorted.mpr hr)
  have hafter := mem_after_of_gt hp (sorted_ordered hp hkeys hties) hcut (hkeys r hr) (hkeys y hy) hy hyr
  obtain ⟨z, rest, rfl⟩ : ∃ z rest, after = z :: rest :=
    List.exists_cons_of_ne_nil (List.ne_nil_of_mem hafter)
  have hone : ∀ s ∈ l.matching lib readable, ∃ key, back r.key = some key ∧
      (l.order.cmp lib.floats (s.key, s.tie) (key, r.tie) = .gt ↔ l.cmp lib s r = .gt) :=
    fun s hs => exists_back hc hp hcont hof hties hnamed hkeys hcut hr hs (hread r hr)
      fun rowsAt => hall _ rowsAt (by rintro n ⟨⟩; omega)
  obtain ⟨key, hkey, -⟩ := hone r hr
  refine ⟨key, hkey, fun s hs => ?_⟩
  obtain ⟨key', hkey', hiff⟩ := hone s hs
  rw [hkey] at hkey'
  cases hkey'
  exact hiff

/-- **Paging lists each row once where its keys read back to their places**, and only there: rows
with ties told by their manifests and keys of one kind, in pages of any size, whatever rows are
taken away between two requests. -/
theorem pages_once_iff (hc : lib.cursors.Sound) {value : lib.floats.F → ℚ}
    (hv : lib.floats.ByValue value) (hcont : query.continueToken = none)
    (hof : Listing.of lib { paging with cursor := none } query kind default parts = .ok l)
    (hties : (readable.map Prod.fst).Nodup)
    (hnamed : ∀ row ∈ readable, ∀ row' ∈ readable, row.2 = row'.2 → row.1 = row'.1)
    (hkind : OneKind (fun k => ∃ r ∈ l.matching lib readable, k = r.key))
    (back : Value → Option Value) (hread : ∀ r ∈ l.matching lib readable,
      lib.cursors.fromSlice (lib.cursors.toVec ⟨l.listingId, r.key, r.tie⟩)
        = (back r.key).map (fun key => ⟨l.listingId, key, r.tie⟩)) :
    (∀ limit rowsAt, (∀ n, limit = some n → 1 ≤ n) → Shrinks readable rowsAt →
      EachOnce lib { paging with limit := limit } query kind default parts rowsAt l) ↔
    ReadsBack lib l back (l.matching lib readable) := by
  obtain ⟨β, _, place, hcmp, htie⟩ := l.order.cmp_linear lib.floats hv hkind
  have hp : Places lib l (fun k => ∃ r ∈ l.matching lib readable, k = r.key) place :=
    ⟨hcmp, htie⟩
  have hkeys : ∀ r ∈ l.matching lib readable, ∃ r' ∈ l.matching lib readable, r.key = r'.key :=
    fun r hr => ⟨r, hr, rfl⟩
  constructor
  · exact readsBack_of_eachOnce hc hp hcont hof hties hnamed hkeys hread
  · intro hback limit rowsAt hlimit hshrinks
    have hp' : Places lib (l.sized limit) (fun k => ∃ r ∈ l.matching lib readable, k = r.key) place :=
      ⟨hp.cmp_eq, hp.tie_eq⟩
    exact eachOnce_of_readsBack (l := l.sized limit) hc hp' hcont
      (of_paged hcont hof limit).2.2.1 hlimit hshrinks hkeys hread hback

end

/-! ## two rows, one to a page, the first taken away in between -/

def ratFloats : Floats where
  F := ℚ
  ofNumber
    | .int n => n
    | .float q => q
  parse := fun _ => none
  partialCmp a b := some (compareOfLessAndEq a b)
  text := fun _ => ""

def hexText (bytes : List UInt8) : List Char :=
  bytes.flatMap (fun b => [hexDigit (b.toNat / 16), hexDigit (b.toNat % 16)])

def hexValue (c : Char) : Nat := if c.toNat < 58 then c.toNat - 48 else c.toNat - 87

def readHex : List Char → List UInt8
  | a :: b :: rest => UInt8.ofNat (16 * hexValue a + hexValue b) :: readHex rest
  | _ => []

theorem hexValue_hexDigit {n : Nat} (h : n < 16) :
    hexValue (hexDigit n) = n ∧ hexDigit n ≠ '.' := by
  have hall : ∀ n : Fin 16, hexValue (hexDigit n) = n ∧ hexDigit n ≠ '.' := by decide
  exact hall ⟨n, h⟩

theorem readHex_hexText (bytes : List UInt8) : readHex (hexText bytes) = bytes := by
  induction bytes with
  | nil => rfl
  | cons b bytes ih =>
    have hb : b.toNat < 256 := b.toNat_lt
    show UInt8.ofNat (16 * hexValue (hexDigit (b.toNat / 16)) + hexValue (hexDigit (b.toNat % 16)))
      :: readHex (hexText bytes) = _
    rw [ih, (hexValue_hexDigit (by omega)).1, (hexValue_hexDigit (by omega)).1, Nat.div_add_mod,
      UInt8.ofNat_toNat]

/-- the cursor of a row of the list below, and the bytes of its JSON text -/
def nameBody (name : String) : CursorBody := ⟨"names", .string name, name⟩

def nameBytes (body : CursorBody) : List UInt8 :=
  ("\x7b\"q\":" ++ quote body.query ++ ",\"k\":" ++ quote body.name ++ ",\"n\":" ++ quote body.name
    ++ "\x7d").toList.map (fun c => UInt8.ofNat c.toNat)

def nameLib : ListLib where
  cursors :=
    { encode := fun bytes => String.ofList (hexText bytes)
      decode := fun text => some (readHex text.toList)
      mac := fun payload => (payload.toList.take 8).map (fun c => UInt8.ofNat c.toNat)
      toVec := nameBytes
      fromSlice := fun bytes => [nameBody "a", nameBody "b"].find? (fun b => nameBytes b = bytes)
      digest := fun _ => "names" }
  floats := ratFloats
  schemaOf := fun _ => none
  lower := id

theorem nameLib_sound : nameLib.cursors.Sound where
  decode_encode := by
    intro bytes
    show some (readHex (String.ofList (hexText bytes)).toList) = _
    rw [String.toList_ofList, readHex_hexText]
  no_dot := by
    intro bytes
    show '.' ∉ (String.ofList (hexText bytes)).toList
    rw [String.toList_ofList]
    intro hdot
    obtain ⟨b, _, hb⟩ := List.mem_flatMap.mp hdot
    have hlt : b.toNat < 256 := b.toNat_lt
    simp only [List.mem_cons, List.not_mem_nil, or_false] at hb
    rcases hb with hb | hb
    · exact (hexValue_hexDigit (by omega)).2 hb.symm
    · exact (hexValue_hexDigit (by omega)).2 hb.symm

def named (name : String) : String × Value :=
  (name, .object [("metadata", .object [("name", .string name)])])

def plainList : KindListQuery := ⟨none, none, none, none, none, none⟩

def oneByOne : ListQuery := ⟨some 1, none, none, none, false⟩

def byName : Listing := ⟨none, oneByOne, OrderBy.default, none, "names"⟩

/-- the rows of the requests: the first is taken away after the first page -/
def twoThenOne (i : Nat) : List (String × Value) :=
  if i = 0 then [named "b", named "a"] else [named "b"]

theorem pages_once_iff_of_two :
    EachOnce nameLib oneByOne plainList "Role" OrderBy.default [] twoThenOne byName := by
  have hrows : byName.matching nameLib [named "b", named "a"]
      = [⟨.string "b", "b", (named "b").2⟩, ⟨.string "a", "a", (named "a").2⟩] := rfl
  have hvalues : nameLib.floats.ByValue id := fun a b => rfl
  have hof : Listing.of nameLib { oneByOne with cursor := none } plainList "Role" OrderBy.default []
      = .ok byName := rfl
  have hties : ([named "b", named "a"].map Prod.fst).Nodup := by decide
  refine (pages_once_iff nameLib_sound hvalues rfl hof hties (by decide) (.inr ?_) some ?_).mpr ?_
    (some 1) twoThenOne ?_ ?_
  · rintro k ⟨r, hr, rfl⟩ _
    rw [hrows] at hr
    rcases List.mem_pair.mp hr with rfl | rfl
    · rfl
    · rfl
  · intro r hr
    rw [hrows] at hr
    rcases List.mem_pair.mp hr with rfl | rfl
    · decide
    · decide
  · intro r _ _
    exact ⟨r.key, rfl, fun s _ => Iff.rfl⟩
  · rintro n ⟨⟩
    decide
  · refine ⟨rfl, fun i => ?_, fun i => ?_⟩
    · unfold twoThenOne
      rw [if_neg (Nat.succ_ne_zero i)]
      split
      · simp
      · simp
    · unfold twoThenOne
      split
      · decide
      · decide

/-! ## a number that is read back as the float before it -/

/-- the float 12.088995980580641, and the one its text is read back as -/
def score : Number := .float (1701374931044575 / 140737488355328)

def scoreBack : Number := .float (6805499724178299 / 562949953421312)

def scoreBytes (body : CursorBody) : List UInt8 :=
  ("\x7b\"q\":" ++ quote body.query ++ ",\"k\":12.088995980580641,\"n\":" ++ quote body.name
    ++ "\x7d").toList.map (fun c => UInt8.ofNat c.toNat)

def scoreLib : ListLib :=
  { nameLib with
    cursors :=
      { nameLib.cursors with
        toVec := scoreBytes
        fromSlice := fun bytes =>
          [(⟨"scores", .number scoreBack, "a"⟩ : CursorBody)].find? (fun b => scoreBytes b = bytes)
        digest := fun _ => "scores" } }

def scored (name : String) (n : Number) : String × Value :=
  (name, .object [("metadata", .object [("name", .string name)]),
    ("spec", .object [("score", .number n)])])

def twoScores : List (String × Value) := [scored "a" score, scored "b" (.int 13)]

def oneByScore : ListQuery := { oneByOne with sort := some ⟨"spec.score", false⟩ }

def byScore : Listing := ⟨none, oneByScore, ⟨["spec", "score"], false⟩, none, "scores"⟩

/-- **A row comes again on every page**: its key is read back smaller than it is. -/
theorem score_repeats : Shrinks twoScores (fun _ => twoScores) ∧
    OneKind (fun k => ∃ r ∈ byScore.matching scoreLib twoScores, k = r.key) ∧
    ¬ EachOnce scoreLib oneByScore plainList "Station" OrderBy.default [] (fun _ => twoScores)
      byScore := by
  let r : Row := ⟨.number score, "a", (scored "a" score).2⟩
  let y : Row := ⟨.number (.int 13), "b", (scored "b" (.int 13)).2⟩
  have hrows : byScore.matching scoreLib twoScores = [r, y] := rfl
  refine ⟨⟨rfl, fun _ => List.Subset.refl _, fun _ => by decide⟩, .inl ?_, ?_⟩
  · rintro k ⟨r, hr, rfl⟩ _
    rw [hrows] at hr
    rcases List.mem_pair.mp hr with rfl | rfl
    · rfl
    · rfl
  · rintro ⟨pages, _, hfollow, _⟩
    have horder : orderOf (scoreLib.schemaOf "Station") "Station" OrderBy.default oneByScore.sort
        = .ok byScore.order := by
      decide +kernel
    have hof : Listing.of scoreLib { oneByScore with cursor := none } plainList "Station"
        OrderBy.default [] = .ok byScore := by
      unfold Listing.of
      dsimp only
      rw [horder]
      rfl
    have hsorted : byScore.sorted scoreLib twoScores = [] ++ r :: y :: [] := by decide +kernel
    have hgreater : ∀ s ∈ byScore.sorted scoreLib twoScores,
        byScore.order.cmp scoreLib.floats (s.key, s.tie) (.number scoreBack, r.tie) = .gt := by
      rw [hsorted]
      decide +kernel
    have hread : scoreLib.cursors.fromSlice (scoreLib.cursors.toVec ⟨"scores", r.key, r.tie⟩)
        = some ⟨"scores", .number scoreBack, r.tie⟩ := by
      decide +kernel
    have hcont : plainList.continueToken = none := rfl
    have hsound : scoreLib.cursors.Sound := ⟨nameLib_sound.decode_encode, nameLib_sound.no_dot⟩
    rw [follow_again oneByScore twoScores byScore hsound hcont hof hsorted rfl
      (fun _ => some (.number scoreBack)) hread rfl hgreater _ 0 none (.inl rfl)] at hfollow
    exact absurd hfollow (by simp)

end Lists
end Portal
