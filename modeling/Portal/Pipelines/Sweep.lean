import Portal.Base.Processors
import Portal.Pipelines.Expiry

/-!
# The sweep of a pipeline's stale entities (`pipeline_expiry.rs`: `render_sweep`)

Once an hour every page of the listed types is read from the output's Endpoint, and the entities last
changed before the window are deleted through it.  The offset goes on by what a page kept, and a failed
read or delete ends the hour's sweep.

* `Gateway`        what answers: a page from an offset on, and what was deleted of what was asked;
* `Hour`, `Doc`    what was read, asked and logged; the message of the stream;
* `renderSweep`    the stream: `readPage`, `markStale`, `deleteStale`, `advance` while there is more;
* `Reading`        what holds before every page;
* `sweep_true`     **a sweep that ends by itself has read every entity once and asked for the stale**.
-/

namespace Portal

namespace Expiring

/-! ## the gateway and the runner -/

structure Entity where
  id : String
  modifiedAt : Option Value
  createdAt : Option Value
deriving DecidableEq

/-- what a delete is answered: nothing for all deleted, or a document with a list of successes -/
inductive Answer where
  | empty
  | body (success : Option (List String))
deriving DecidableEq

/-- the ids an answer reports deleted of those asked for -/
def Answer.deleted (ids : List String) : Answer → List String
  | .empty => ids
  | .body success => success.getD []

/-- a gateway in front of entities in a stable order; `σ` is all that may change -/
structure Gateway (σ : Type*) where
  /-- the entities of some types -/
  entities : σ → List String → List Entity
  query : σ → List String → Int → Nat → σ × Except String (List Entity)
  delete : σ → List String → σ × Except String Answer
  now : σ → Int
  distinct : ∀ s types, ((entities s types).map Entity.id).Nodup
  /-- a page is a beginning of what is left, of at most so many, and empty only when nothing is -/
  query_ok : ∀ s types offset limit s' page, 0 < limit →
    query s types (offset : Nat) limit = (s', .ok page) →
    entities s' types = entities s types ∧ page <+: (entities s types).drop offset ∧
      page.length ≤ limit ∧ (page = [] → (entities s types).drop offset = [])
  /-- what is reported deleted was asked for, each once, and is gone -/
  delete_ok : ∀ s types ids s' answer, ids.Nodup → delete s ids = (s', .ok answer) →
    answer.deleted ids ⊆ ids ∧ (answer.deleted ids).Nodup ∧
      entities s' types = (entities s types).filter (fun e => !(answer.deleted ids).contains e.id)

/-- what the sweep takes from jc-core, and the reading of a time by the runner -/
structure JcSweep where
  /-- `Expiry::hours` -/
  hours : Expiry → Option Nat
  expiryMaxHours : Nat
  expiryMaxTypes : Nat
  isEntityType : String → Bool
  /-- `ts_unix`, in whole seconds -/
  tsUnix : Value → Option Int

structure Hour (σ : Type*) where
  gateway : σ
  /-- the pages read, oldest first -/
  reads : List (List Entity)
  /-- the times `now()` was called at -/
  clock : List Int
  /-- the ids asked to be deleted -/
  asked : List (List String)
  /-- the lines logged at ERROR -/
  errors : List String

structure Doc where
  offset : Int
  more : Bool
  page : Option (List Entity)
  read : Option Nat
  stale : Option (List String)
  deleted : Option Nat

/-- the metadata the stream sets, the numbers whose texts they hold -/
structure Metadata where
  expiryOffset : Option Int
  expiryStale : Option Nat

/-- entities read for a request -/
def pageLimit : Nat := 1000

/-- the most pages one sweep reads -/
def maxPages : Nat := 1000

/-! ## the stream -/

section
variable {σ : Type*} (g : Gateway σ) (x : JcSweep)

def Hour.query (types : List String) (w : Hour σ) (offset : Int) :
    Hour σ × Except String (List Entity) :=
  match g.query w.gateway types offset pageLimit with
  | (s', .ok page) => ({ w with gateway := s', reads := w.reads ++ [page] }, .ok page)
  | (s', .error e) => ({ w with gateway := s' }, .error e)

def Hour.delete (w : Hour σ) (ids : List String) : Hour σ × Except String Answer :=
  let r := g.delete w.gateway ids
  ({ w with gateway := r.1, asked := w.asked ++ [ids] }, r.2)

/-- `|` passes over what is missing or null -/
def orElse (v w : Option Value) : Option Value := v.filter (· ≠ .null) <|> w.filter (· ≠ .null)

/-- `(e.modifiedAt | e.createdAt | "").ts_unix().catch(null)` -/
def Entity.at (e : Entity) : Option Int :=
  x.tsUnix ((orElse e.modifiedAt e.createdAt).getD (.string ""))

def readPage (types : List String) : Processor (Hour σ) Doc Metadata :=
  branch (fun doc metadata => .ok (some (), { metadata with expiryOffset := some doc.offset }))
    (fun w _ metadata => match metadata.expiryOffset with
      | none => (w, .error "no expiry_offset")
      | some offset => w.query g types offset)
    (fun doc _ page => .ok { doc with page := some page })

def markStale (seconds : Int) : Processor (Hour σ) Doc Metadata :=
  mapping (fun w doc metadata =>
    let now := g.now w.gateway
    let cutoff := now - seconds
    match doc.page with
    | none => ({ w with clock := w.clock ++ [now] }, .error "no page")
    | some page =>
      let stale := (page.filter (fun e => (e.at x).any (· < cutoff))).map Entity.id
      ({ w with clock := w.clock ++ [now] },
        .ok ({ doc with read := some page.length, stale := some stale, page := none },
          { metadata with expiryStale := some stale.length })))

def deleteStale : Processor (Hour σ) Doc Metadata :=
  branch (fun doc metadata => match doc.stale with
      | none => .error "no stale"
      | some stale => .ok (if stale.isEmpty then none else some stale, metadata))
    (fun w ids _ => w.delete g ids)
    (fun doc metadata answer => match answer with
      | .empty => match metadata.expiryStale with
        | none => .error "no expiry_stale"
        | some n => .ok { doc with deleted := some n }
      | .body success => .ok { doc with deleted := some (success.getD []).length })

def advance : Processor (Hour σ) Doc Metadata :=
  mapping (fun w doc metadata => match doc.read with
    | none => (w, .error "no read")
    | some read => (w, .ok (⟨doc.offset + read - (doc.deleted.getD 0 : Nat), 0 < read, doc.page, none,
        none, none⟩, metadata)))

def logError : Processor (Hour σ) Doc Metadata := fun w m =>
  ({ w with errors := w.errors ++
      ["expiry sweep stopped for this hour: " ++ m.error.getD ""] }, m)

def stop : Processor (Hour σ) Doc Metadata :=
  mapping (fun w doc metadata => (w, .ok ({ doc with more := false }, metadata)))

def onePage (types : List String) (seconds : Int) : Processor (Hour σ) Doc Metadata :=
  sequence [tryAll [readPage g types, markStale g x seconds, deleteStale g, advance],
    catchAll [logError, stop]]

/-- the sweep of a window and types that PL-64 allows -/
def renderSweep (expiry : Expiry) : Option (Processor (Hour σ) Doc Metadata) :=
  match (x.hours expiry).filter (fun hours => 1 ≤ hours && hours ≤ x.expiryMaxHours) with
  | none => none
  | some hours =>
    if 1 ≤ expiry.types.length ∧ expiry.types.length ≤ x.expiryMaxTypes ∧
        expiry.types.all x.isEntityType ∧ expiry.types.Nodup then
      some (whileLoop Doc.more (onePage g x expiry.types (hours * 3600 : Nat)) maxPages)
    else none

end

/-- what the stream starts every hour with -/
def generated : Message Doc Metadata := ⟨⟨0, true, none, none, none, none⟩, ⟨none, none⟩, none⟩

def Hour.start {σ : Type*} (s : σ) : Hour σ := ⟨s, [], [], [], []⟩

/-! ## one page -/

/-- when an entity was last changed: the first of the two times it has -/
def Entity.changed (e : Entity) : Option Value := orElse e.modifiedAt e.createdAt

/-- an entity whose last change reads as a time before the cutoff -/
def readsBefore (x : JcSweep) (cutoff : Int) (e : Entity) : Bool :=
  (e.changed.bind x.tsUnix).any (· < cutoff)

/-- the ids of the entities that are stale when their page is read -/
def staleIds (x : JcSweep) (seconds : Int) (reads : List (List Entity)) (clock : List Int) :
    List String :=
  (reads.zip clock).flatMap (fun p => (p.1.filter (readsBefore x (p.2 - seconds))).map Entity.id)

section
variable {σ : Type*} {g : Gateway σ} {x : JcSweep} {types : List String} {seconds : Int}

theorem at_eq (hempty : x.tsUnix (.string "") = none) (e : Entity) :
    e.at x = e.changed.bind x.tsUnix := by
  unfold Entity.at Entity.changed
  cases orElse e.modifiedAt e.createdAt with
  | none => exact hempty
  | some v => rfl

theorem staleIds_snoc {reads : List (List Entity)} {clock : List Int}
    (h : clock.length = reads.length) (page : List Entity) (now : Int) :
    staleIds x seconds (reads ++ [page]) (clock ++ [now])
      = staleIds x seconds reads clock
        ++ (page.filter (readsBefore x (now - seconds))).map Entity.id := by
  unfold staleIds
  rw [List.zip_append h.symm, List.flatMap_append]
  congr 1
  exact List.append_nil _

theorem readPage_ok {w : Hour σ} {m : Message Doc Metadata}
    (h : (readPage g types w m).2.error = none) :
    ∃ s' page, g.query w.gateway types m.doc.offset pageLimit = (s', .ok page) ∧
      readPage g types w m = ({ w with gateway := s', reads := w.reads ++ [page] },
        { m with doc := { m.doc with page := some page } }) := by
  unfold readPage branch Hour.query at h ⊢
  dsimp only at h ⊢
  rcases hq : g.query w.gateway types m.doc.offset pageLimit with ⟨s', r⟩
  cases r with
  | error e =>
    rw [hq] at h
    exact nomatch h
  | ok page => exact ⟨s', page, rfl, rfl⟩

theorem markStale_eq {w : Hour σ} {m : Message Doc Metadata} {page : List Entity}
    (hp : m.doc.page = some page) (hempty : x.tsUnix (.string "") = none) :
    markStale g x seconds w m =
      ({ w with clock := w.clock ++ [g.now w.gateway] },
        { m with
          doc := { m.doc with
            read := some page.length
            stale := some ((page.filter (readsBefore x (g.now w.gateway - seconds))).map Entity.id)
            page := none }
          metadata := { m.metadata with
            expiryStale := some ((page.filter
              (readsBefore x (g.now w.gateway - seconds))).map Entity.id).length } }) := by
  have hstale : (fun e : Entity => (e.at x).any (· < g.now w.gateway - seconds))
      = readsBefore x (g.now w.gateway - seconds) := by
    funext e
    rw [at_eq hempty]
    rfl
  unfold markStale mapping
  dsimp only
  rw [hp]
  dsimp only
  rw [hstale]

theorem deleteStale_ok {w : Hour σ} {m : Message Doc Metadata} {ids : List String}
    (h : (deleteStale g w m).2.error = none) (hnd : ids.Nodup) (hids : m.doc.stale = some ids)
    (hmeta : m.metadata.expiryStale = some ids.length) (hnone : m.doc.deleted = none)
    (hm : m.error = none) :
    ∃ s' asked gone deleted, gone ⊆ ids ∧ gone.Nodup ∧
      (∀ types, g.entities s' types
        = (g.entities w.gateway types).filter (fun e => !gone.contains e.id)) ∧
      asked.flatten = w.asked.flatten ++ ids ∧ deleted.getD 0 = gone.length ∧
      deleteStale g w m = ({ w with gateway := s', asked := asked },
        { m with doc := { m.doc with deleted := deleted } }) := by
  obtain ⟨⟨offset, more, page, read, stale, deleted⟩, ⟨expiryOffset, expiryStale⟩, error⟩ := m
  dsimp only at hids hmeta hnone hm
  subst hids hmeta hnone hm
  unfold deleteStale branch Hour.delete at h ⊢
  dsimp only at h ⊢
  by_cases he : ids.isEmpty = true
  · -- nothing is stale, and the branch is left out
    rw [if_pos he] at h ⊢
    have hnil : ids = [] := List.isEmpty_iff.1 he
    refine ⟨w.gateway, w.asked, [], none, List.nil_subset _, List.nodup_nil, ?_, ?_, rfl, ?_⟩
    · intro types
      exact (List.filter_eq_self.2 (fun _ _ => rfl)).symm
    · rw [hnil, List.append_nil]
    · rfl
  · rw [if_neg he] at h ⊢
    dsimp only at h ⊢
    rcases hd : g.delete w.gateway ids with ⟨s', r⟩
    rw [hd] at h
    cases r with
    | error e => exact nomatch h
    | ok answer =>
      have hgone := fun types => g.delete_ok w.gateway types ids s' answer hnd hd
      have hflat : (w.asked ++ [ids]).flatten = w.asked.flatten ++ ids := by simp
      refine ⟨s', w.asked ++ [ids], answer.deleted ids, some (answer.deleted ids).length,
        (hgone []).1, (hgone []).2.1, fun types => (hgone types).2.2, hflat, rfl, ?_⟩
      cases answer with
      | empty => rfl
      | body success => rfl

theorem advance_eq {w : Hour σ} {m : Message Doc Metadata} {read : Nat}
    (hread : m.doc.read = some read) :
    advance w m = (w, { m with doc := ⟨m.doc.offset + read - (m.doc.deleted.getD 0 : Nat), 0 < read,
      m.doc.page, none, none, none⟩ }) := by
  unfold advance mapping
  dsimp only
  rw [hread]

/-! ## what is left of a page -/

theorem filter_of_notMem {l : List Entity} {gone : List String} (h : ∀ e ∈ l, e.id ∉ gone) :
    l.filter (fun e => !gone.contains e.id) = l := by
  rw [List.filter_eq_self]
  intro e he
  rw [Bool.not_eq_true', ← Bool.not_eq_true, List.contains_iff_mem]
  exact h e he

/-- a page keeps what it read but for what is gone -/
theorem length_kept {page : List Entity} (hnd : (page.map Entity.id).Nodup) {gone : List String}
    (hsub : gone ⊆ page.map Entity.id) (hgone : gone.Nodup) :
    (page.filter (fun e => !gone.contains e.id)).length + gone.length = page.length := by
  have hperm : ((page.filter (fun e => gone.contains e.id)).map Entity.id).Perm gone := by
    rw [List.perm_ext_iff_of_nodup (hnd.sublist (List.filter_sublist.map Entity.id)) hgone]
    intro id
    constructor
    · intro h
      obtain ⟨e, he, rfl⟩ := List.mem_map.1 h
      exact List.contains_iff_mem.1 (List.mem_filter.1 he).2
    · intro h
      obtain ⟨e, he, rfl⟩ := List.mem_map.1 (hsub h)
      exact List.mem_map_of_mem (List.mem_filter.2 ⟨he, List.contains_iff_mem.2 h⟩)
  have hlen := hperm.length_eq
  rw [List.length_map] at hlen
  have hsplit := List.length_eq_length_filter_add (l := page) (fun e => gone.contains e.id)
  omega

theorem drop_after {es page rest : List Entity} {k : Nat} (hk : k ≤ es.length)
    (hnd : (es.map Entity.id).Nodup) (hpage : page ++ rest = es.drop k) {gone : List String}
    (hsub : gone ⊆ page.map Entity.id) (hgone : gone.Nodup) :
    ∃ k', k' + gone.length = k + page.length ∧
      k' ≤ (es.filter (fun e => !gone.contains e.id)).length ∧
      (es.filter (fun e => !gone.contains e.id)).drop k' = rest := by
  have hes : es = es.take k ++ (page ++ rest) := by rw [hpage, List.take_append_drop]
  have hids : (es.map Entity.id).Nodup := hnd
  rw [hes, List.map_append, List.map_append, List.nodup_append, List.nodup_append] at hids
  obtain ⟨-, ⟨hpnd, -, hpr⟩, hbefore⟩ := hids
  have h1 : ∀ e ∈ es.take k, e.id ∉ gone := fun e he hin =>
    hbefore e.id (List.mem_map_of_mem he) e.id (List.mem_append_left _ (hsub hin)) rfl
  have h2 : ∀ e ∈ rest, e.id ∉ gone := fun e he hin =>
    hpr e.id (hsub hin) e.id (List.mem_map_of_mem he) rfl
  have hlen := length_kept hpnd hsub hgone
  have htake : (es.take k).length = k := List.length_take_of_le hk
  have hleft : es.filter (fun e => !gone.contains e.id)
      = es.take k ++ page.filter (fun e => !gone.contains e.id) ++ rest := by
    conv_lhs => rw [hes]
    rw [List.filter_append, List.filter_append, filter_of_notMem h1, filter_of_notMem h2,
      List.append_assoc]
  have hfront : (es.take k ++ page.filter (fun e => !gone.contains e.id)).length
      = k + (page.filter (fun e => !gone.contains e.id)).length := by
    rw [List.length_append, htake]
  refine ⟨k + (page.filter (fun e => !gone.contains e.id)).length, ?_, ?_, ?_⟩
  · omega
  · rw [hleft, List.length_append, hfront]
    omega
  · rw [hleft, ← hfront, List.drop_left]

/-! ## the sweep -/

structure Reading (g : Gateway σ) (x : JcSweep) (types : List String) (seconds : Int)
    (es : List Entity) (w : Hour σ) (m : Message Doc Metadata) : Prop where
  noError : m.error = none
  undeleted : m.doc.deleted = none
  left : ∃ k : Nat, m.doc.offset = k ∧ k ≤ (g.entities w.gateway types).length ∧
    w.reads.flatten ++ (g.entities w.gateway types).drop k = es ∧
    (m.doc.more = false → (g.entities w.gateway types).drop k = [])
  times : w.clock.length = w.reads.length
  asked : w.asked.flatten = staleIds x seconds w.reads w.clock

/-- **Page**: a page that was read and deleted from without an error goes on where it ends. -/
theorem page_ok (hempty : x.tsUnix (.string "") = none) {es : List Entity} {w : Hour σ}
    {m : Message Doc Metadata} (hr : Reading g x types seconds es w m)
    (h : (tryAll [readPage g types, markStale g x seconds, deleteStale g, advance] w m).2.error
      = none) :
    Reading g x types seconds es
      (tryAll [readPage g types, markStale g x seconds, deleteStale g, advance] w m).1
      (tryAll [readPage g types, markStale g x seconds, deleteStale g, advance] w m).2 := by
  obtain ⟨k, hoffset, hk, hall, -⟩ := hr.left
  obtain ⟨hm, h1, e1⟩ := tryAll_cons_ok h
  obtain ⟨s₁, page, hq, hread⟩ := readPage_ok h1
  rw [e1, hread] at h ⊢
  rw [hoffset] at hq
  obtain ⟨hsame, ⟨rest, hrest⟩, -, hend⟩ := g.query_ok _ _ _ _ _ _ (by decide) hq
  obtain ⟨-, -, e2⟩ := tryAll_cons_ok h
  rw [e2, markStale_eq rfl hempty] at h ⊢
  dsimp only at h ⊢
  -- the stale ids of the page are among its ids, each once
  have hpnd : (page.map Entity.id).Nodup := by
    have hnd := (g.distinct w.gateway types).sublist ((List.drop_sublist k _).map Entity.id)
    rw [← hrest, List.map_append, List.nodup_append] at hnd
    exact hnd.1
  have hsub : ((page.filter (readsBefore x (g.now s₁ - seconds))).map Entity.id).Sublist
      (page.map Entity.id) := List.filter_sublist.map Entity.id
  obtain ⟨-, h3, e3⟩ := tryAll_cons_ok h
  obtain ⟨s₂, asked, gone, deleted, hgone, hgnd, hleft, hasked, hcount, hdelete⟩ :=
    deleteStale_ok h3 (hpnd.sublist hsub) rfl rfl hr.undeleted hm
  rw [e3, hdelete] at h ⊢
  obtain ⟨-, -, e4⟩ := tryAll_cons_ok h
  rw [e4, advance_eq rfl]
  obtain ⟨k', hk', hle, hdrop⟩ := drop_after hk (g.distinct w.gateway types) hrest
    (List.Subset.trans hgone hsub.subset) hgnd
  have hnow : g.entities s₂ types
      = (g.entities w.gateway types).filter (fun e => !gone.contains e.id) := by
    rw [hleft, hsame]
  constructor
  · exact hm
  · rfl
  · refine ⟨k', ?_, ?_, ?_, ?_⟩
    · show m.doc.offset + (page.length : Int) - ((deleted.getD 0 : Nat) : Int) = k'
      rw [hoffset, hcount]
      omega
    · show k' ≤ (g.entities s₂ types).length
      rw [hnow]
      exact hle
    · show (w.reads ++ [page]).flatten ++ (g.entities s₂ types).drop k' = es
      rw [hnow, hdrop, List.flatten_append, List.flatten_singleton, List.append_assoc, hrest]
      exact hall
    · intro hmore
      show (g.entities s₂ types).drop k' = []
      have hzero : ¬ 0 < page.length := of_decide_eq_false hmore
      have hnil : page = [] := List.length_eq_zero_iff.1 (by omega)
      have hall := hend hnil
      rw [← hrest, hnil] at hall
      rw [hnow, hdrop]
      exact hall
  · show (w.clock ++ [g.now s₁]).length = (w.reads ++ [page]).length
    rw [List.length_append, List.length_append, hr.times]
    rfl
  · show asked.flatten = staleIds x seconds (w.reads ++ [page]) (w.clock ++ [g.now s₁])
    rw [staleIds_snoc hr.times, ← hr.asked]
    exact hasked

/-- **Round**: a page goes on, or its error is logged and ends the sweep. -/
theorem onePage_rule (hempty : x.tsUnix (.string "") = none) {es : List Entity} {w : Hour σ}
    {m : Message Doc Metadata} (hmore : m.doc.more = true)
    (hr : w.errors ≠ [] ∧ m.doc.more = false ∨ Reading g x types seconds es w m) :
    (onePage g x types seconds w m).1.errors ≠ [] ∧ (onePage g x types seconds w m).2.doc.more = false ∨
      Reading g x types seconds es (onePage g x types seconds w m).1
        (onePage g x types seconds w m).2 := by
  rcases hr with ⟨-, hstop⟩ | hr
  · rw [hmore] at hstop
    exact nomatch hstop
  · have hpage : onePage g x types seconds w m = catchAll [logError, stop]
        (tryAll [readPage g types, markStale g x seconds, deleteStale g, advance] w m).1
        (tryAll [readPage g types, markStale g x seconds, deleteStale g, advance] w m).2 := rfl
    rw [hpage]
    cases he : (tryAll [readPage g types, markStale g x seconds, deleteStale g, advance]
        w m).2.error with
    | none =>
      right
      rw [catchAll_of_ok he]
      exact page_ok hempty hr he
    | some e =>
      left
      rw [catchAll, he]
      exact ⟨List.append_ne_nil_of_right_ne_nil _ (by simp), rfl⟩

/-- **A sweep that ends by itself, without an error, has read every entity once, in their order, and
asked to delete those whose last change reads as a time before the cutoff of their page.** -/
theorem sweep_true (g : Gateway σ) (x : JcSweep) (hempty : x.tsUnix (.string "") = none)
    {expiry : Expiry} {sweep : Processor (Hour σ) Doc Metadata}
    (hrender : renderSweep g x expiry = some sweep) (s : σ)
    (hended : (sweep (Hour.start s) generated).2.doc.more = false)
    (hclean : (sweep (Hour.start s) generated).1.errors = []) :
    ∃ hours, x.hours expiry = some hours ∧
      (sweep (Hour.start s) generated).1.reads.flatten = g.entities s expiry.types ∧
      (sweep (Hour.start s) generated).1.clock.length
        = (sweep (Hour.start s) generated).1.reads.length ∧
      (sweep (Hour.start s) generated).1.asked.flatten
        = staleIds x (hours * 3600 : Nat) (sweep (Hour.start s) generated).1.reads
          (sweep (Hour.start s) generated).1.clock := by
  unfold renderSweep at hrender
  split at hrender
  · exact nomatch hrender
  · rename_i hours hhours
    split at hrender
    · obtain rfl := Option.some.inj hrender
      have hstart : Reading g x expiry.types (hours * 3600 : Nat) (g.entities s expiry.types)
          (Hour.start s) generated :=
        ⟨rfl, rfl, ⟨0, rfl, Nat.zero_le _, rfl, fun h => (nomatch h)⟩, rfl, rfl⟩
      have hloop := whileLoop_rule
        (I := fun w m => w.errors ≠ [] ∧ m.doc.more = false ∨
          Reading g x expiry.types (hours * 3600 : Nat) (g.entities s expiry.types) w m)
        (fun w m hmore hr => onePage_rule hempty hmore hr) maxPages (Or.inr hstart)
      rcases hloop with ⟨herr, -⟩ | hr
      · exact absurd hclean herr
      · obtain ⟨k, -, -, hall, hend⟩ := hr.left
        rw [hend hended, List.append_nil] at hall
        exact ⟨hours, (Option.filter_eq_some_iff.1 hhours).1, hall, hr.times, hr.asked⟩
    · exact nomatch hrender

/-! ## a sweep -/

namespace Sample

/-- a gateway that answers two entities at a time and deletes all but the first it is asked to -/
def twoByTwo : Gateway { l : List Entity // (l.map Entity.id).Nodup } where
  entities s _ := s.1
  query s _ offset limit := (s, .ok ((s.1.drop offset.toNat).take (min limit 2)))
  delete s ids := (⟨s.1.filter (fun e => !ids.tail.contains e.id),
    s.2.sublist (List.filter_sublist.map Entity.id)⟩, .ok (.body (some ids.tail)))
  now _ := 1000000060
  distinct s _ := s.2
  query_ok := by
    intro s types offset limit s' page hpos h
    obtain ⟨rfl, hpage⟩ := Prod.mk.inj h
    obtain rfl := Except.ok.inj hpage
    refine ⟨rfl, List.take_prefix _ _, ?_, fun hnil => ?_⟩
    · rw [List.length_take]
      omega
    · rcases List.take_eq_nil_iff.1 hnil with hzero | hnil
      · omega
      · exact hnil
  delete_ok := by
    intro s types ids s' answer hnd h
    obtain ⟨rfl, hanswer⟩ := Prod.mk.inj h
    obtain rfl := Except.ok.inj hanswer
    exact ⟨List.tail_subset ids, hnd.sublist (List.tail_sublist ids), rfl⟩

def jcSweep : JcSweep where
  hours expiry := if expiry.after = "1d" then some 24 else none
  expiryMaxHours := 8760
  expiryMaxTypes := 20
  isEntityType type := type ≠ ""
  tsUnix v := if v = .string "1970-01-01T00:00:00Z" then some 0
    else if v = .string "2001-09-09T01:46:40Z" then some 1000000000 else none

def old : Option Value := some (.string "1970-01-01T00:00:00Z")

def fresh : Option Value := some (.string "2001-09-09T01:46:40Z")

/-- three stale entities, one by its creation; one changed lately, and one without a time -/
def vehiclesThere : { l : List Entity // (l.map Entity.id).Nodup } :=
  ⟨[⟨"a", old, fresh⟩, ⟨"b", old, old⟩, ⟨"c", fresh, old⟩, ⟨"d", none, old⟩,
    ⟨"e", some (.string "lately"), old⟩], by decide⟩

def sweeping : Processor (Hour { l : List Entity // (l.map Entity.id).Nodup }) Doc Metadata :=
  whileLoop Doc.more (onePage twoByTwo jcSweep ["Vehicle"] (24 * 3600 : Nat)) maxPages

end Sample

open Sample in
theorem sweep_true_of_twoByTwo : ∃ hours, jcSweep.hours ⟨"1d", ["Vehicle"]⟩ = some hours ∧
    (sweeping (Hour.start vehiclesThere) generated).1.reads.flatten = vehiclesThere.1 ∧
    (sweeping (Hour.start vehiclesThere) generated).1.clock.length
      = (sweeping (Hour.start vehiclesThere) generated).1.reads.length ∧
    (sweeping (Hour.start vehiclesThere) generated).1.asked.flatten
      = staleIds jcSweep (hours * 3600 : Nat) (sweeping (Hour.start vehiclesThere) generated).1.reads
        (sweeping (Hour.start vehiclesThere) generated).1.clock :=
  sweep_true twoByTwo jcSweep (by decide +kernel)
    (show renderSweep twoByTwo jcSweep ⟨"1d", ["Vehicle"]⟩ = some sweeping by rfl) vehiclesThere
    (by decide +kernel) (by decide +kernel)

end

end Expiring

end Portal
