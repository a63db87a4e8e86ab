import Portal.Base.Pieces
import Portal.Base.Sha256
import Portal.Changes.Request

/-!
# The branch a proposal lives on (`api/mutate.rs`: `branch_name`, `open_change_on`;
`api/changes.rs`: `parse_branch_name`)

One branch for each project, kind, name and operation; a proposal after a stale one opens on the
branch with `_` and a nonce.  The list of changes reads the name back off the branch.

* `branchName`, `openChangeOn`   the source; `parseBranchName` is read in `Portal.Changes.Request`;
* `Catalogue`, `Proposed`     the kinds there are, and what a branch is for;
* `split_rest`                the pieces of a branch: a name may itself hold `-`;
* `parse_rest`                what is read off them, with or without a nonce;
* `parseBranchName_branchName`   **branches read back, and no proposal takes another's for its own**.
-/

namespace Portal

namespace Changes

open Text

/-! ## the source -/

/-- the hash of a project, a kind, a name and an operation, which the standard library leaves open -/
abbrev Hasher := String → List Char → List Char → Operation → UInt64

def Operation.word : Operation → String
  | .create => "create"
  | .update => "update"
  | .delete => "delete"

/-- the first eight of the hash's sixteen digits -/
def shortHash (hash : UInt64) : List Char := (Sha256.hexDigits 16 hash.toNat).take 8

/-- what follows `portal/` -/
def branchRest (hash : Hasher) (project : String) (kind name : List Char) (op : Operation) : List Char :=
  op.word.toList ++ '-' ::
    (kind.map Char.toLower ++ '-' :: (name ++ '-' :: shortHash (hash project kind name op)))

def branchName (hash : Hasher) (project : String) (kind name : List Char) (op : Operation) : String :=
  String.ofList ("portal/".toList ++ branchRest hash project kind name op)

/-- the branch a retry after a rejection opens on -/
def retried (branch : String) (nonce : List Char) : String :=
  String.ofList (branch.toList ++ '_' :: nonce)

def isNonce (s : List Char) : Bool := s.length = 8 && s.all isHexDigit

structure OpenPull where
  number : Nat
  headBranch : String
deriving DecidableEq

inductive ForgeError where
  | notFound
  | other (text : String)
deriving DecidableEq

/-- the request's branch is this one, or this one with a nonce -/
def takes (branch head : String) : Bool :=
  head = branch || (branch.toList ++ ['_']).isPrefixOf head.toList

/-- the first open merge request on a branch; a forge that answers 404 has no repository at all -/
def openChangeOn (answer : Except ForgeError (List OpenPull)) (branch : String) :
    Except ForgeError (Option OpenPull) :=
  match answer with
  | .ok pulls => .ok (pulls.find? (fun pull => takes branch pull.headBranch))
  | .error .notFound => .ok none
  | .error e => .error e

/-! ## what a branch is for -/

def isNameChar (c : Char) : Bool :=
  ('a' ≤ c && c ≤ 'z') || ('0' ≤ c && c ≤ '9') || c = '-' || c = '.'

/-- the kinds of `jc_core`: words of letters, told apart without their case -/
structure Catalogue where
  kinds : List (List Char)
  project : "Project".toList ∈ kinds
  letters : ∀ kind ∈ kinds, kind ≠ [] ∧ ∀ c ∈ kind, isAsciiLetter c
  distinct : ∀ kind ∈ kinds, ∀ other ∈ kinds,
    kind.map Char.toLower = other.map Char.toLower → kind = other

structure Proposed (cat : Catalogue) where
  kind : List Char
  name : List Char
  operation : Operation
  listed : kind ∈ cat.kinds
  named : name ≠ [] ∧ ∀ c ∈ name, isNameChar c

namespace Proposed
variable {cat : Catalogue}

def branch (hash : Hasher) (project : String) (p : Proposed cat) : String :=
  branchName hash project p.kind p.name p.operation

def deletesProject (p : Proposed cat) : Prop := p.operation = .delete ∧ p.kind = "Project".toList

/-- what the list of changes shows of it -/
def info (p : Proposed cat) : BranchInfo :=
  ⟨p.operation, String.ofList (p.kind.map Char.toLower), String.ofList p.name⟩

end Proposed

/-! ## the pieces of a branch -/

section
variable {c : Char}

theorem ne_of_isNameChar (h : isNameChar c) : c ≠ '_' := by
  rintro rfl
  revert h
  decide

theorem ne_of_isHexDigit (h : isHexDigit c) : c ≠ '-' ∧ c ≠ '_' := by
  constructor <;> rintro rfl <;> revert h <;> decide

theorem isHexDigit_digitChar {n : ℕ} (h : n < 16) : isHexDigit (Nat.digitChar n) := by
  have hall : ∀ m : Fin 16, isHexDigit (Nat.digitChar m) := by decide
  exact hall ⟨n, h⟩

theorem isHexDigit_of_mem_hexDigits {k n : ℕ} (h : c ∈ Sha256.hexDigits k n) : isHexDigit c := by
  induction k generalizing n with
  | zero => exact absurd h List.not_mem_nil
  | succ k ih =>
    rw [Sha256.hexDigits, List.mem_append, List.mem_singleton] at h
    rcases h with h | rfl
    · exact ih h
    · exact isHexDigit_digitChar (Nat.mod_lt n (by omega))

theorem isHexDigit_of_mem_shortHash {hash : UInt64} (h : c ∈ shortHash hash) : isHexDigit c :=
  isHexDigit_of_mem_hexDigits (List.mem_of_mem_take h)

theorem toNat_toLower (h : 'A'.val ≤ c.val ∧ c.val ≤ 'Z'.val) : c.toLower.toNat = c.toNat + 32 := by
  have hle : c.val.toNat ≤ 90 := h.2
  unfold Char.toLower
  rw [dif_pos h]
  show (c.val + 32).toNat = c.val.toNat + 32
  rw [UInt32.toNat_add]
  show (c.val.toNat + 32) % 2 ^ 32 = _
  omega

theorem toLower_of_isAsciiLetter (h : isAsciiLetter c) : c.toLower ≠ '-' ∧ c.toLower ≠ '_' := by
  by_cases hup : 'A'.val ≤ c.val ∧ c.val ≤ 'Z'.val
  · have hle : 65 ≤ c.toNat := hup.1
    have hnat := toNat_toLower hup
    constructor <;> intro heq <;> rw [heq] at hnat
    · have h45 : '-'.toNat = 45 := rfl
      omega
    · have h95 : '_'.toNat = 95 := rfl
      omega
  · have hsame : c.toLower = c := by
      unfold Char.toLower
      exact dif_neg hup
    rw [hsame]
    constructor <;> rintro rfl <;> revert h <;> decide

end

section
variable {cat : Catalogue} (hash : Hasher) (project : String) (p : Proposed cat)

theorem not_mem_word (op : Operation) : '-' ∉ op.word.toList ∧ '_' ∉ op.word.toList := by
  cases op <;> decide

theorem not_mem_lower : '-' ∉ p.kind.map Char.toLower ∧ '_' ∉ p.kind.map Char.toLower := by
  have hletters := (cat.letters p.kind p.listed).2
  constructor <;> intro hmem <;> obtain ⟨c, hc, heq⟩ := List.mem_map.1 hmem
  · exact (toLower_of_isAsciiLetter (hletters c hc)).1 heq
  · exact (toLower_of_isAsciiLetter (hletters c hc)).2 heq

theorem not_mem_shortHash (h : UInt64) : '-' ∉ shortHash h ∧ '_' ∉ shortHash h :=
  ⟨fun hmem => (ne_of_isHexDigit (isHexDigit_of_mem_shortHash hmem)).1 rfl,
    fun hmem => (ne_of_isHexDigit (isHexDigit_of_mem_shortHash hmem)).2 rfl⟩

theorem not_mem_nonce {nonce : List Char} (h : isNonce nonce) : '_' ∉ nonce := by
  intro hmem
  rw [isNonce, Bool.and_eq_true, List.all_eq_true] at h
  exact (ne_of_isHexDigit (h.2 _ hmem)).2 rfl

def Proposed.rest : List Char := branchRest hash project p.kind p.name p.operation

theorem not_mem_rest : '_' ∉ p.rest hash project := by
  intro hmem
  unfold Proposed.rest branchRest at hmem
  simp only [List.mem_append, List.mem_cons] at hmem
  rcases hmem with h | h | h | h | h | h | h
  · exact (not_mem_word p.operation).2 h
  · exact absurd h (by decide)
  · exact (not_mem_lower p).2 h
  · exact absurd h (by decide)
  · exact ne_of_isNameChar (p.named.2 _ h) rfl
  · exact absurd h (by decide)
  · exact (not_mem_shortHash _).2 h

theorem split_of_not_mem {w : List Char} (h : '-' ∉ w) : ∀ c ∈ w, decide (c = '-') = false :=
  fun _ hc => decide_eq_false (fun heq => h (heq ▸ hc))

/-- **The pieces of a branch**: a name is in as many as it has `-` and one more. -/
theorem split_rest : split (· = '-') (p.rest hash project)
    = p.operation.word.toList :: p.kind.map Char.toLower ::
      (split (· = '-') p.name ++ [shortHash (hash project p.kind p.name p.operation)]) := by
  have hsep : ∀ a b : List Char, split (· = '-') (a ++ '-' :: b)
      = split (· = '-') a ++ split (· = '-') b := fun a b => split_append_sep (decide_eq_true rfl) a b
  unfold Proposed.rest branchRest
  rw [hsep, hsep, hsep, split_of_none (split_of_not_mem (not_mem_word p.operation).1),
    split_of_none (split_of_not_mem (not_mem_lower p).1),
    split_of_none (split_of_not_mem (not_mem_shortHash _).1)]
  rfl

/-! ## what is read off a branch -/

theorem withoutNonce_of_not_mem {rest : List Char} (h : '_' ∉ rest) : withoutNonce rest = rest := by
  have hsplit : split (· = '_') rest = [rest] :=
    split_of_none (fun c hc => decide_eq_false (fun heq => h (heq ▸ hc)))
  rw [withoutNonce, hsplit]
  rfl

theorem withoutNonce_nonce {rest nonce : List Char} (h : '_' ∉ rest) (hn : isNonce nonce) :
    withoutNonce (rest ++ '_' :: nonce) = rest := by
  have hnone : ∀ s : List Char, '_' ∉ s → split (· = '_') s = [s] := fun s hs =>
    split_of_none (fun c hc => decide_eq_false (fun heq => hs (heq ▸ hc)))
  have hsplit : split (· = '_') (rest ++ '_' :: nonce) = [rest, nonce] := by
    rw [split_append_sep (decide_eq_true rfl), hnone rest h, hnone nonce (not_mem_nonce hn)]
    rfl
  have hlen : nonce.length = 8 := by
    rw [isNonce, Bool.and_eq_true, decide_eq_true_eq] at hn
    exact hn.1
  unfold withoutNonce
  rw [hsplit]
  show (if _ then (rest ++ '_' :: nonce).take _ else _) = rest
  rw [isNonce, Bool.and_eq_true] at hn
  rw [if_pos (by simp [hlen, hn.2])]
  have htake : (rest ++ '_' :: nonce).length - 9 = rest.length := by
    rw [List.length_append, List.length_cons]
    omega
  rw [htake, List.take_left]

/-- the pieces around `-` as `parseBranchName` reads them -/
theorem parts_of_rest : (split (· = '-') (p.rest hash project)).map String.ofList
    = p.operation.word :: String.ofList (p.kind.map Char.toLower) ::
      ((split (· = '-') p.name).map String.ofList ++
        [String.ofList (shortHash (hash project p.kind p.name p.operation))]) := by
  rw [split_rest, List.map_cons, List.map_cons, List.map_append, String.ofList_toList]
  rfl

theorem intercalate_name (s : List Char) :
    "-".intercalate ((split (· = '-') s).map String.ofList) = String.ofList s := by
  apply String.toList_injective
  rw [String.toList_intercalate, List.map_map, String.toList_ofList]
  have hid : String.toList ∘ String.ofList = id := by
    funext w
    exact String.toList_ofList
  rw [hid, List.map_id, String.toList_ofList]
  exact intercalate_split '-' s

theorem kind_of_prefix {tail : List Char}
    (h : "project-".toList <+: p.kind.map Char.toLower ++ '-' :: tail) :
    p.kind = "Project".toList := by
  obtain ⟨after, hafter⟩ := h
  have hcut : "project".toList ++ '-' :: after = p.kind.map Char.toLower ++ '-' :: tail := hafter
  have hlower := (cut_first (by decide) (not_mem_lower p).1 hcut).1
  exact cat.distinct p.kind p.listed _ cat.project (hlower.symm.trans (by decide))

theorem not_bundle (hd : ¬ p.deletesProject) (tail : List Char) :
    bundlePrefixes.any
      (fun start => startsWith start (String.ofList (p.rest hash project ++ tail))) = false := by
  have happ : p.rest hash project ++ tail = p.operation.word.toList ++ '-' ::
      (p.kind.map Char.toLower ++ '-' ::
        (p.name ++ '-' :: shortHash (hash project p.kind p.name p.operation) ++ tail)) := by
    unfold Proposed.rest branchRest
    simp only [List.append_assoc, List.cons_append]
  simp only [startsWith, String.toList_ofList, happ]
  generalize p.name ++ '-' :: shortHash (hash project p.kind p.name p.operation) ++ tail = after
  cases hop : p.operation with
  | create => rfl
  | update => rfl
  | delete =>
    show ("project-".toList.isPrefixOf (p.kind.map Char.toLower ++ '-' :: after) || false) = false
    rw [Bool.or_false, ← Bool.not_eq_true, List.isPrefixOf_iff_prefix]
    exact fun h => hd ⟨hop, kind_of_prefix p h⟩

theorem operationOf_word (op : Operation) : operationOf op.word = some op := by
  cases op <;> rfl

theorem after_portal (rest : List Char) :
    Text.after "portal/" (cleanBranch (String.ofList ("portal/".toList ++ rest)))
      = some (String.ofList rest) := by
  have hlist : (String.ofList ("portal/".toList ++ rest)).toList = "portal/".toList ++ rest :=
    String.toList_ofList
  have hheads : Text.after "refs/heads/" (String.ofList ("portal/".toList ++ rest)) = none := by
    unfold Text.after
    rw [hlist]
    rfl
  rw [cleanBranch, hheads, Option.getD_none, Text.after, hlist,
    if_pos (List.isPrefixOf_iff_prefix.2 (List.prefix_append _ _)), List.drop_left]

/-- what `parseBranchName` makes of a rest that is read as this one -/
theorem parse_of_rest (hd : ¬ p.deletesProject) (tail : List Char)
    (hw : withoutNonce (p.rest hash project ++ tail) = p.rest hash project) :
    parseBranchName (String.ofList ("portal/".toList ++ (p.rest hash project ++ tail)))
      = some p.info := by
  have hpos : 0 < (split (· = '-') p.name).length := List.length_pos_iff.2 (split_ne_nil _ _)
  have hname : "-".intercalate ((p.operation.word :: String.ofList (p.kind.map Char.toLower) ::
      ((split (· = '-') p.name).map String.ofList ++
        [String.ofList (shortHash (hash project p.kind p.name p.operation))])).dropLast.drop 2)
      = String.ofList p.name := by
    rw [← List.cons_append, ← List.cons_append, List.dropLast_concat]
    exact intercalate_name p.name
  have hne : String.ofList p.name ≠ "" := by
    intro hnil
    apply p.named.1
    rw [← @String.toList_ofList p.name, hnil]
    rfl
  unfold parseBranchName
  rw [after_portal, Option.bind_eq_bind, Option.bind_some, not_bundle hash project p hd tail,
    if_neg Bool.false_ne_true]
  simp only [String.toList_ofList, hw, parts_of_rest]
  rw [if_neg (by simp only [List.length_cons, List.length_append, List.length_map]; omega)]
  show (operationOf p.operation.word).bind _ = _
  rw [operationOf_word, Option.bind_some, hname, if_neg hne]
  rfl

end

/-! ## whose branch it is -/

section
variable {cat : Catalogue} (hash : Hasher) (project : String) {p q : Proposed cat}

theorem eq_of_rest (h : p.rest hash project = q.rest hash project) : p = q := by
  have hsplit := congrArg (split (· = '-')) h
  rw [split_rest, split_rest, List.cons.injEq, List.cons.injEq] at hsplit
  obtain ⟨hop, hkind, htail⟩ := hsplit
  obtain ⟨hname, -⟩ := List.append_inj' htail (by rw [List.length_singleton, List.length_singleton])
  obtain ⟨kind, name, op, hl, hnm⟩ := p
  obtain ⟨kind', name', op', hl', hnm'⟩ := q
  obtain rfl : name = name' := split_inj hname
  obtain rfl : kind = kind' := cat.distinct kind hl kind' hl' hkind
  have hops : some op = some op' := by
    rw [← operationOf_word op, ← operationOf_word op']
    exact congrArg operationOf (String.toList_injective hop)
  obtain rfl : op = op' := Option.some.inj hops
  rfl

theorem toList_branch (p : Proposed cat) :
    (p.branch hash project).toList = "portal/".toList ++ p.rest hash project :=
  String.toList_ofList

theorem not_mem_branch (p : Proposed cat) : '_' ∉ (p.branch hash project).toList := by
  have hportal : '_' ∉ "portal/".toList := by decide
  rw [toList_branch, List.mem_append, not_or]
  exact ⟨hportal, not_mem_rest hash project p⟩

theorem eq_of_branch (h : p.branch hash project = q.branch hash project) : p = q := by
  have hlist := congrArg String.toList h
  rw [toList_branch, toList_branch] at hlist
  exact eq_of_rest hash project (List.append_cancel_left hlist)

theorem takes_branch : takes (p.branch hash project) (q.branch hash project) ↔
    p.branch hash project = q.branch hash project := by
  rw [takes, Bool.or_eq_true, decide_eq_true_eq, List.isPrefixOf_iff_prefix]
  constructor
  · rintro (h | h)
    · exact h.symm
    · have hmem : '_' ∈ (q.branch hash project).toList :=
        h.subset (List.mem_append_right _ (List.mem_singleton_self _))
      exact absurd hmem (not_mem_branch hash project q)
  · exact fun h => Or.inl h.symm

theorem takes_retried (nonce : List Char) :
    takes (p.branch hash project) (retried (q.branch hash project) nonce) ↔
      p.branch hash project = q.branch hash project := by
  rw [takes, Bool.or_eq_true, decide_eq_true_eq, List.isPrefixOf_iff_prefix, retried,
    String.toList_ofList]
  constructor
  · rintro (h | ⟨after, h⟩)
    · have hlist := congrArg String.toList h
      rw [String.toList_ofList] at hlist
      have hmem : '_' ∈ (p.branch hash project).toList :=
        hlist ▸ List.mem_append_right _ (List.mem_cons_self ..)
      exact absurd hmem (not_mem_branch hash project p)
    · rw [List.append_assoc, List.singleton_append] at h
      exact String.toList_injective
        (cut_first (not_mem_branch hash project p) (not_mem_branch hash project q) h).1
  · intro h
    right
    rw [h]
    exact ⟨nonce, by rw [List.append_assoc]; rfl⟩

end

/-- a request `openChangeOn` answers with is on a branch it takes -/
theorem takes_of_openChangeOn {pulls : List OpenPull} {branch : String} {pull : OpenPull}
    (h : openChangeOn (.ok pulls) branch = .ok (some pull)) : takes branch pull.headBranch := by
  have hfind : pulls.find? (fun pull => takes branch pull.headBranch) = some pull := Except.ok.inj h
  have hp := List.find?_some hfind
  exact hp

/-- **Branches read back**: the name on a proposal's branch is the resource's, with the operation and
the kind in lower case, and so it is on the branch with a nonce; and the open request a proposal finds
is on no branch of another one, with a nonce or without. -/
theorem parseBranchName_branchName {cat : Catalogue} (hash : Hasher) (project : String)
    (p : Proposed cat) :
    (¬ p.deletesProject →
      parseBranchName (p.branch hash project) = some p.info ∧
      ∀ nonce, isNonce nonce →
        parseBranchName (retried (p.branch hash project) nonce) = some p.info) ∧
    ∀ pulls pull, openChangeOn (.ok pulls) (p.branch hash project) = .ok (some pull) →
      ∀ q : Proposed cat, (pull.headBranch = q.branch hash project ∨
        ∃ nonce, pull.headBranch = retried (q.branch hash project) nonce) → q = p := by
  constructor
  · intro hd
    constructor
    · have hw : withoutNonce (p.rest hash project ++ []) = p.rest hash project := by
        rw [List.append_nil]
        exact withoutNonce_of_not_mem (not_mem_rest hash project p)
      have hparse := parse_of_rest hash project p hd [] hw
      rw [List.append_nil] at hparse
      exact hparse
    · intro nonce hn
      have hparse := parse_of_rest hash project p hd ('_' :: nonce)
        (withoutNonce_nonce (not_mem_rest hash project p) hn)
      rw [retried, toList_branch, List.append_assoc]
      exact hparse
  · intro pulls pull hopen q hhead
    have htakes := takes_of_openChangeOn hopen
    rcases hhead with hhead | ⟨nonce, hhead⟩
    · rw [hhead, takes_branch] at htakes
      exact (eq_of_branch hash project htakes).symm
    · rw [hhead, takes_retried] at htakes
      exact (eq_of_branch hash project htakes).symm

def someKinds : Catalogue where
  kinds := ["Project".toList, "Endpoint".toList, "Pipeline".toList]
  project := by decide
  letters := by
    have hall : ∀ kind ∈ ["Project".toList, "Endpoint".toList, "Pipeline".toList],
        kind ≠ [] ∧ kind.all isAsciiLetter = true := by decide
    exact fun kind hkind => ⟨(hall kind hkind).1, List.all_eq_true.mp (hall kind hkind).2⟩
  distinct := by decide

def hashLike : Proposed someKinds where
  kind := "Pipeline".toList
  name := "hel-news-0711bca4".toList
  operation := .update
  listed := by decide
  named := ⟨by decide, Text.forall_of_all (by decide)⟩

theorem parseBranchName_of_hashLike :
    (∀ hash : Hasher, parseBranchName (retried (hashLike.branch hash "helsinki") "144d2358".toList)
      = some hashLike.info) ∧
    ∀ (hash : Hasher) (q : Proposed someKinds),
      q.branch hash "helsinki" = hashLike.branch hash "helsinki" → q = hashLike := by
  constructor
  · intro hash
    have hd : ¬ hashLike.deletesProject := fun h => nomatch h.1
    exact ((parseBranchName_branchName hash "helsinki" hashLike).1 hd).2 "144d2358".toList (by decide)
  · intro hash q hq
    have hopen : openChangeOn (.ok [⟨7, hashLike.branch hash "helsinki"⟩])
        (hashLike.branch hash "helsinki") = .ok (some ⟨7, hashLike.branch hash "helsinki"⟩) := by
      rw [openChangeOn, List.find?_cons]
      simp [takes]
    exact (parseBranchName_branchName hash "helsinki" hashLike).2 _ _ hopen q (Or.inl hq.symm)

end Changes

end Portal
