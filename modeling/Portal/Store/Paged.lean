import Portal.Base.Keyset
import Portal.Reconciler.Transitions
import Portal.Resource.Selector

/-!
# The store's listing, by pages (`store.rs`: `Mirror::kind_where`, `Mirror::list`)

The map is ordered by namespace, kind and name, and a listing reads one range of it.  A page is cut from
what comes after the name its token carries, and its own token is the name of its last manifest.

* `Resources`             manifests under their own keys, each under a name of its kind;
* `kindWhere`, `list`     the range of a namespace and kind, and a page of it;
* `walk`                  the requests of a reader who sends each page's token with the next;
* `kindWhere_eq`          the range is the filter of the whole map;
* `walk_pages`            the pages of a reader who asks for one manifest at least;
* `paged_iff`             **when the pages are the listing**: unless they are asked to hold nothing.

The names `jc_core` accepts are a parameter (`Names`).  Of a status the selectors read the phase.
-/

namespace Portal.Paged
open Selector
open Transitions (Names)

/-! ## manifests -/

inductive Phase where
  | draft
  | pending
  | deploying
  | live
  | error
  | drifted
deriving DecidableEq

def phaseStr : Phase → String
  | .draft => "Draft"
  | .pending => "Pending"
  | .deploying => "Deploying"
  | .live => "Live"
  | .error => "Error"
  | .drifted => "Drifted"

structure ObjectMeta where
  name : String
  ns : Option String
  labels : OrdMap String String

structure Status where
  phase : Phase

structure ResourceEnvelope where
  kind : String
  metadata : ObjectMeta
  spec : Value
  status : Option Status

namespace ResourceEnvelope

def name (env : ResourceEnvelope) : String := env.metadata.name

def key (env : ResourceEnvelope) : ResourceKey := .of (env.metadata.ns.getD "") env.kind env.name

end ResourceEnvelope

inductive Field where
  | metadataName
  | metadataNamespace
  | statusPhase
deriving DecidableEq

inductive FieldRequirement where
  | equals (field : Field) (expected : String)
  | notEquals (field : Field) (expected : String)

structure FieldSelector where
  requirements : List FieldRequirement

def FieldRequirement.matches (env : ResourceEnvelope) : FieldRequirement → Bool
  | .equals .metadataName expected => env.name = expected
  | .equals .metadataNamespace expected => env.metadata.ns.getD "" = expected
  | .equals .statusPhase expected => (env.status.map (fun s => decide (phaseStr s.phase = expected))).getD false
  | .notEquals .metadataName expected => env.name ≠ expected
  | .notEquals .metadataNamespace expected => env.metadata.ns.getD "" ≠ expected
  | .notEquals .statusPhase expected => (env.status.map (fun s => decide (phaseStr s.phase ≠ expected))).getD true

def FieldSelector.matches (s : FieldSelector) (env : ResourceEnvelope) : Bool :=
  s.requirements.all (·.matches env)

structure ListOptions where
  labelSelector : Option LabelSelector
  fieldSelector : Option FieldSelector
  limit : Option Nat
  continueToken : Option String

structure ListPage where
  items : List ResourceEnvelope
  continueToken : Option String
  remaining : Nat

def ListOptions.keeps (opts : ListOptions) (env : ResourceEnvelope) : Bool :=
  opts.labelSelector.all (·.matches env.metadata.labels) && opts.fieldSelector.all (·.matches env)

def ListOptions.default : ListOptions := ⟨none, none, none, none⟩

/-! ## the map -/

/-- the resources of a mirror, which only `upsert` puts there -/
structure Resources (names : Names) where
  map : OrdMap ResourceKey ResourceEnvelope
  filed : ∀ key env, map.get? key = some env → env.key = key ∧ names.admits key

namespace Resources
variable {names : Names}

def empty : Resources names := ⟨OrdMap.empty, fun _ _ h => nomatch h⟩

/-- a manifest whose namespace or name is not a name of its kind is left out -/
def upsert (s : Resources names) (env : ResourceEnvelope) : Resources names :=
  if h : names.admits env.key then
    ⟨s.map.insert env.key env, fun key env' hget => by
      rw [OrdMap.get?_insert] at hget
      split at hget
      · next hk =>
        obtain rfl : env = env' := Option.some.inj hget
        exact ⟨hk.symm, hk ▸ h⟩
      · exact s.filed key env' hget⟩
  else s

def remove (s : Resources names) (key : ResourceKey) : Resources names :=
  ⟨s.map.erase key, fun key' env hget => by
    rw [OrdMap.get?_erase] at hget
    split at hget
    · exact nomatch hget
    · exact s.filed key' env hget⟩

def len (s : Resources names) : Nat := s.map.toList.length

/-- the manifests of a namespace and kind that `keep` accepts, read as one range -/
def kindWhere (s : Resources names) (ns kind : String) (keep : ResourceEnvelope → Bool) :
    List ResourceEnvelope :=
  (((s.map.range (ResourceKey.of ns kind "")).takeWhile (fun p => p.1.ns = ns && p.1.kind = kind)).filter
    (fun p => keep p.2)).map Prod.snd

def list (s : Resources names) (ns kind : String) (opts : ListOptions) : ListPage :=
  let filtered := s.kindWhere ns kind opts.keeps
  let items :=
    match opts.continueToken with
    | none => filtered
    | some token => filtered.filter (fun item => token < item.name)
  let total := items.length
  match opts.limit with
  | some limit =>
    if limit < total then
      let pageItems := items.take limit
      ⟨pageItems, pageItems.getLast?.map (·.name), total - limit⟩
    else ⟨items, none, 0⟩
  | none => ⟨items, none, 0⟩

/-- the pages of a reader from a token on, each request with the token of the page before; at most
`fuel` of them -/
def walk (s : Resources names) (ns kind : String) (opts : ListOptions) :
    Nat → Option String → Option (List ListPage)
  | 0, _ => none
  | fuel + 1, token =>
    let page := s.list ns kind { opts with continueToken := token }
    match page.continueToken with
    | none => some [page]
    | some next => (s.walk ns kind opts fuel (some next)).map (page :: ·)

end Resources

/-! ## the range and the whole map -/

namespace Resources
variable {names : Names} (s : Resources names) (ns kind : String)

/-- the whole map read for a namespace and kind, in the order of its keys -/
def scan : List ResourceEnvelope :=
  (s.map.toList.filter (fun p => p.1.ns = ns && p.1.kind = kind)).map Prod.snd

theorem kindWhere_eq (keep : ResourceEnvelope → Bool) :
    s.kindWhere ns kind keep = (s.scan ns kind).filter keep := by
  unfold kindWhere scan
  rw [ResourceKey.takeWhile_kind, List.filter_map]
  rfl

variable {s ns kind} in
theorem mem_scan {env : ResourceEnvelope} :
    env ∈ s.scan ns kind ↔ s.map.get? env.key = some env ∧ env.metadata.ns.getD "" = ns ∧ env.kind = kind := by
  unfold scan
  rw [List.mem_map]
  constructor
  · rintro ⟨p, hp, rfl⟩
    rw [List.mem_filter, Bool.and_eq_true, decide_eq_true_eq, decide_eq_true_eq] at hp
    obtain ⟨hmem, hns, hkind⟩ := hp
    have hget : s.map.get? p.1 = some p.2 := (OrdMap.mem_toList ..).mp hmem
    have hkey := (s.filed _ _ hget).1
    exact ⟨hkey ▸ hget, (congrArg ResourceKey.ns hkey).trans hns,
      (congrArg ResourceKey.kind hkey).trans hkind⟩
  · rintro ⟨hget, hns, hkind⟩
    refine ⟨(env.key, env), ?_, rfl⟩
    rw [List.mem_filter, Bool.and_eq_true, decide_eq_true_eq, decide_eq_true_eq]
    exact ⟨(OrdMap.mem_toList ..).mpr hget, hns, hkind⟩

theorem scan_sorted : (s.scan ns kind).Pairwise (fun a b => a.key < b.key) := by
  unfold scan
  rw [List.pairwise_map]
  refine List.Pairwise.imp_of_mem ?_ (s.map.sorted.sublist List.filter_sublist)
  intro p q hp hq hlt
  have hp' := s.filed _ _ ((OrdMap.mem_toList ..).mp (List.mem_filter.mp hp).1)
  have hq' := s.filed _ _ ((OrdMap.mem_toList ..).mp (List.mem_filter.mp hq).1)
  rw [hp'.1, hq'.1]
  exact hlt

theorem scan_ordered : Keyset.Ordered ResourceEnvelope.name (s.scan ns kind) := by
  refine List.Pairwise.imp_of_mem ?_ (s.scan_sorted ns kind)
  intro a b ha hb hlt
  obtain ⟨-, ha1, ha2⟩ := mem_scan.mp ha
  obtain ⟨-, hb1, hb2⟩ := mem_scan.mp hb
  rw [ResourceKey.lt_iff] at hlt
  simp only [ResourceEnvelope.key, ResourceKey.ns_of, ResourceKey.kind_of, ResourceKey.name_of, ha1, ha2,
    hb1, hb2, lt_self_iff_false, false_or, true_and] at hlt
  exact hlt

/-! ## pages -/

/-- what the selectors let through of the whole map -/
def rows (opts : ListOptions) : List ResourceEnvelope := (s.scan ns kind).filter opts.keeps

theorem rows_ordered (opts : ListOptions) : Keyset.Ordered ResourceEnvelope.name (s.rows ns kind opts) :=
  (s.scan_ordered ns kind).sublist List.filter_sublist

theorem length_rows_le (opts : ListOptions) : (s.rows ns kind opts).length ≤ s.len := by
  unfold rows scan len
  refine List.length_filter_le .. |>.trans ?_
  rw [List.length_map]
  exact List.length_filter_le ..

variable (opts : ListOptions) (token : Option String)

def left : List ResourceEnvelope := Keyset.after ResourceEnvelope.name token (s.rows ns kind opts)

theorem list_eq : s.list ns kind { opts with continueToken := token } =
    match opts.limit with
    | some limit =>
      if limit < (s.left ns kind opts token).length then
        ⟨(s.left ns kind opts token).take limit,
          ((s.left ns kind opts token).take limit).getLast?.map (·.name),
          (s.left ns kind opts token).length - limit⟩
      else ⟨s.left ns kind opts token, none, 0⟩
    | none => ⟨s.left ns kind opts token, none, 0⟩ := by
  have hleft : s.left ns kind opts token = match token with
      | none => s.kindWhere ns kind opts.keeps
      | some token => (s.kindWhere ns kind opts.keeps).filter (fun item => token < item.name) := by
    rw [kindWhere_eq]
    cases token <;> rfl
  rw [hleft]
  rfl

/-- a page that is not asked to hold nothing has all that is left, or ends with a manifest whose name is its
token and has some after it -/
theorem list_cases (hlimit : opts.limit ≠ some 0) :
    s.list ns kind { opts with continueToken := token } = ⟨s.left ns kind opts token, none, 0⟩ ∨
    ∃ page x rest, s.left ns kind opts token = page ++ x :: rest ∧
      s.list ns kind { opts with continueToken := token } = ⟨page ++ [x], some x.name, rest.length⟩ := by
  rw [list_eq]
  generalize s.left ns kind opts token = l
  cases hl : opts.limit with
  | none => exact .inl rfl
  | some limit =>
    by_cases hlt : limit < l.length
    · refine .inr ?_
      obtain ⟨n, rfl⟩ := Nat.exists_eq_succ_of_ne_zero (fun h => hlimit (h ▸ hl))
      have hn : n < l.length := Nat.lt_of_succ_lt hlt
      have htake : l.take (n + 1) = l.take n ++ [l[n]] := by rw [List.take_succ_eq_append_getElem hn]
      refine ⟨l.take n, l[n], l.drop (n + 1), ?_, ?_⟩
      · rw [List.append_cons, ← htake, List.take_append_drop]
      · simp only [Nat.succ_eq_add_one, hlt, if_true, htake, List.getLast?_concat, Option.map_some,
          List.length_drop]
    · exact .inl (if_neg hlt)

/-- **A reader comes to the last page**, and what they read are pages of the listing. -/
theorem walk_pages (hlimit : opts.limit ≠ some 0) (fuel i : Nat)
    (hfuel : (s.left ns kind opts token).length < fuel) :
    ∃ pages, s.walk ns kind opts fuel token = some pages ∧
      Keyset.Pages ResourceEnvelope.name (fun _ => s.rows ns kind opts) i token
        (pages.map ListPage.items) := by
  induction fuel generalizing i token with
  | zero => exact absurd hfuel (Nat.not_lt_zero _)
  | succ fuel ih =>
    unfold walk
    rcases s.list_cases ns kind opts token hlimit with hlist | ⟨page, x, rest, hleft, hlist⟩
    · rw [hlist]
      exact ⟨_, rfl, Keyset.Pages.last i token⟩
    · -- the next request finds less: what comes after `x`
      have hless : (s.left ns kind opts (some x.name)).length < (s.left ns kind opts token).length :=
        Keyset.length_after_lt (s.rows_ordered ns kind opts) (s.rows_ordered ns kind opts) hleft
          (List.Subset.refl _)
      obtain ⟨pages, hwalk, hpages⟩ := ih (some x.name) (i + 1)
        (Nat.lt_of_lt_of_le hless (Nat.le_of_lt_succ hfuel))
      rw [hlist]
      refine ⟨⟨page ++ [x], some x.name, rest.length⟩ :: pages, ?_, Keyset.Pages.more hleft hpages⟩
      show (s.walk ns kind opts fuel (some x.name)).map _ = _
      rw [hwalk]
      rfl

/-- a listing read as the filter of the whole map in the order of its keys, and by pages from the first to
one without a token, each of its manifests once -/
structure Exact : Prop where
  reads : ∀ keep, s.kindWhere ns kind keep = (s.scan ns kind).filter keep
  sorted : (s.scan ns kind).Pairwise (fun a b => a.key < b.key)
  walks : ∀ fuel, s.len < fuel → ∃ pages, s.walk ns kind opts fuel none = some pages ∧
    pages.flatMap ListPage.items = s.rows ns kind opts ∧ (pages.flatMap ListPage.items).Nodup

/-- **When the pages are the listing**: unless they are asked to hold nothing and there is something. -/
theorem paged_iff :
    s.Exact ns kind opts ↔ (opts.limit ≠ some 0 ∨ ∀ env ∈ s.scan ns kind, opts.keeps env = false) := by
  constructor
  · rintro ⟨-, -, hwalks⟩
    refine or_iff_not_imp_left.mpr (fun hlimit => ?_)
    have hzero : opts.limit = some 0 := not_not.mp hlimit
    obtain ⟨pages, hwalk, hitems, -⟩ := hwalks (s.len + 1) (Nat.lt_succ_self _)
    -- the first page is the last, and holds nothing
    have hpage : s.walk ns kind opts (s.len + 1) none
        = some [⟨[], none, (s.rows ns kind opts).length⟩] := by
      unfold walk
      rw [list_eq, hzero]
      have hleft : s.left ns kind opts none = s.rows ns kind opts := rfl
      rw [hleft]
      cases s.rows ns kind opts <;> rfl
    obtain rfl := Option.some.inj (hwalk.symm.trans hpage)
    have hrows : s.rows ns kind opts = [] := hitems.symm
    intro env henv
    exact Bool.eq_false_iff.mpr (List.filter_eq_nil_iff.mp hrows env henv)
  · intro h
    refine ⟨s.kindWhere_eq ns kind, s.scan_sorted ns kind, fun fuel hfuel => ?_⟩
    have hord := s.rows_ordered ns kind opts
    rcases h with hlimit | hnone
    · obtain ⟨pages, hwalk, hpages⟩ := s.walk_pages ns kind opts none hlimit fuel 0
        (Nat.lt_of_le_of_lt (s.length_rows_le ns kind opts) hfuel)
      have hitems : pages.flatMap ListPage.items = s.rows ns kind opts :=
        (List.flatMap_def ..).trans (hpages.eq_after hord (fun _ => rfl))
      exact ⟨pages, hwalk, hitems, hitems ▸ hord.nodup⟩
    · have hrows : s.rows ns kind opts = [] :=
        List.filter_eq_nil_iff.mpr (fun env henv => by simp [hnone env henv])
      have hwalk : s.walk ns kind opts fuel none = some [⟨[], none, 0⟩] := by
        obtain ⟨fuel, rfl⟩ := Nat.exists_eq_succ_of_ne_zero (Nat.ne_of_gt (Nat.zero_lt_of_lt hfuel))
        unfold walk
        have hleft : s.left ns kind opts none = [] := hrows
        rw [list_eq, hleft]
        cases opts.limit <;> rfl
      exact ⟨_, hwalk, hrows.symm, List.nodup_nil⟩

end Resources

/-! ## a page of nothing -/

/-- lower-case letters, digits and hyphens -/
def isLabel (text : String) : Bool :=
  !text.isEmpty && text.toList.all (fun c => c.isLower || c.isDigit || c == '-')

def labels : Names := ⟨isLabel, isLabel⟩

def spaceOf (project name : String) : ResourceEnvelope :=
  ⟨"ContextSpace", ⟨name, some project, OrdMap.empty⟩, .null, none⟩

/-- the spaces of a project, and one of a project whose name begins with its name -/
def spaces : Resources labels :=
  ((Resources.empty.upsert (spaceOf "ovzdusie" "bikes")).upsert (spaceOf "ovzdusie-2" "air")).upsert
    (spaceOf "ovzdusie" "air")

/-- **A reader who asks for nothing is stuck**: two manifests remain, and no token leads to them. -/
theorem zero_is_stuck :
    let opts : ListOptions := { ListOptions.default with limit := some 0 }
    let page := spaces.list "ovzdusie" "ContextSpace" opts
    (page.items.length, page.continueToken, page.remaining) = (0, none, 2) ∧
      ¬ spaces.Exact "ovzdusie" "ContextSpace" opts := by
  refine ⟨by decide +kernel, fun h => ?_⟩
  obtain ⟨pages, hwalk, hitems, -⟩ := h.walks 4 (by decide +kernel)
  have hread : (spaces.walk "ovzdusie" "ContextSpace" { ListOptions.default with limit := some 0 } 4 none).map
      (fun pages => (pages.flatMap ListPage.items).length) = some 0 := by decide +kernel
  have hrows : (spaces.rows "ovzdusie" "ContextSpace"
      { ListOptions.default with limit := some 0 }).length = 2 := by decide +kernel
  rw [hwalk, Option.map_some, hitems, hrows] at hread
  exact absurd hread (by decide)

/-! ## what the other models read -/

namespace Resources
variable {names : Names} (s : Resources names) (ns kind : String)

def toMirror : Mirror := ⟨s.map.mapVal (fun _ env => env.spec)⟩

/-- the listing of the mirror of specs is the page of a request without selectors or limit -/
theorem toMirror_list : (s.toMirror.list ns kind).toList
    = (s.list ns kind .default).items.map (fun env => (env.name, env.spec)) := by
  have hitems : (s.list ns kind .default).items = s.scan ns kind := by
    show s.kindWhere ns kind (ListOptions.keeps .default) = _
    rw [kindWhere_eq]
    exact List.filter_eq_self.mpr (fun _ _ => rfl)
  have hrange : (s.toMirror.list ns kind).toList
      = (s.toMirror.kindRange ns kind).map (fun p => (p.1.name, p.2)) := rfl
  rw [hitems, hrange]
  unfold Mirror.kindRange scan
  rw [ResourceKey.takeWhile_kind, List.map_map]
  have hspecs : s.toMirror.resources.toList = s.map.toList.map (fun p => (p.1, p.2.spec)) := rfl
  rw [hspecs, List.filter_map, List.map_map]
  -- a manifest stands under its own name
  refine List.map_congr_left (fun p hp => ?_)
  have hkey := (s.filed _ _ ((OrdMap.mem_toList ..).mp (List.mem_filter.mp hp).1)).1
  show (p.1.name, p.2.spec) = (p.2.name, p.2.spec)
  rw [← hkey]
  rfl

end Resources

end Portal.Paged
