import Portal.Base.JsonText
import Portal.Import.Rewrite
import Portal.Pipelines.Masking

/-!
# What holds a credential (`secret_scan.rs`, `pipeline_outcomes.rs`: `mask`)

A caller's input is refused by the path of every value that holds a credential, and an answer is masked.
Both go by the names of members, by the shape of a text, and the first by the query of an address too.

* `secretName`, `secretParam`, `secretText`   what counts;
* `walk`, `find`     the paths of what an input is refused for, in document order;
* `mask`, `masked`   an answer as a model may read it;
* `Leaf`, `leaves`   the scalars of a value, each with the name it stands under;
* `walk_eq`          what is found are leaves;
* `findLiteralSecret_isSome`   what a manifest is refused for (`mutate.rs`: `find_literal_secret`).
-/

namespace Portal

namespace Secrets

open Text Import Pipelines

/-- the lower case of a character, and the query of an address as it is parsed into pairs -/
structure Readings where
  toLowercase : Char → List Char
  queryPairs : List Char → Option (List (String × String))

def secretEndings : List String :=
  ["apikey", "apitoken", "accesstoken", "authtoken", "token", "secret", "password", "passwd",
    "authorization", "privatekey", "accesskey"]

def secretParams : List String :=
  ["apikey", "key", "token", "accesstoken", "apitoken", "authtoken", "secret", "clientsecret",
    "password", "sig", "signature"]

inductive Step where
  | member (key : String)
  | item (n : Nat)
deriving DecidableEq

def Step.pointer : Step → List Char
  | .member key => '/' :: key.toList.flatMap (fun c =>
      if c = '~' then ['~', '0'] else if c = '/' then ['~', '1'] else [c])
  | .item n => '/' :: n.repr.toList

def pointer (path : List Step) : String := String.ofList (path.flatMap Step.pointer)

def hidden : Value := .string Pipelines.mask

section
variable (x : Readings)

def folded (name : String) : List Char :=
  (name.toList.filter (fun c => c ≠ '-' && c ≠ '_')).flatMap x.toLowercase

/-- whether a member of this name holds a credential -/
def secretName (name : String) : Bool :=
  secretKeys.any (fun k => folded x k = folded x name) ||
    secretEndings.any (fun ending => ending.toList.isSuffixOf (folded x name))

/-- whether a query parameter is named like a credential -/
def secretParam (name : String) : Bool :=
  secretParams.any (fun param => param.toList = folded x name) ||
    ["auth", "credential"].any (fun param => param.toList = folded x name) ||
    secretKeys.any (fun k => folded x k = folded x name)

def secretInQuery (text : List Char) : Bool :=
  ((x.queryPairs (trim text)).getD []).any (fun p =>
    secretParam x p.1 && p.2 ≠ "" && !isVariableReference p.2)

/-- whether a text reads like a credential -/
def secretText (text : List Char) : Bool :=
  let publicPem := holdsText "-----BEGIN CERTIFICATE".toList text ||
    holdsText "-----BEGIN PUBLIC KEY".toList text || holdsText "-----BEGIN X509 CRL".toList text
  (credentialShaped text && !publicPem) || secretInQuery x text

mutual

/-- the paths of what holds a credential; `named` is whether the last member's name does -/
def walk (path : List Step) (named : Bool) : Value → List (List Step)
  | .object fields => walkMembers path fields
  | .array items => walkItems path named 0 items
  | .string text =>
    if isVariableReference text || text = "" then []
    else if named || secretText x text.toList then [path] else []
  | .number _ => if named then [path] else []
  | .bool _ => if named then [path] else []
  | .null => []

def walkMembers (path : List Step) : List (String × Value) → List (List Step)
  | [] => []
  | (key, child) :: fields =>
    walk (path ++ [.member key]) (secretName x key) child ++ walkMembers path fields

def walkItems (path : List Step) (named : Bool) (n : Nat) : List Value → List (List Step)
  | [] => []
  | item :: items => walk (path ++ [.item n]) named item ++ walkItems path named (n + 1) items

end

/-- the pointer of every value that holds a credential -/
def find (input : Value) : List String := (walk x [] false input).map pointer

mutual

def mask : Value → Value
  | .object fields => .object (maskFields fields)
  | .array items => .array (maskItems items)
  | .string text => if credentialShaped text.toList then hidden else .string text
  | v => v

def maskFields : List (String × Value) → List (String × Value)
  | [] => []
  | (key, v) :: fields =>
    (key, if secretName x key && holdsSecret v then hidden else mask v) :: maskFields fields

def maskItems : List Value → List Value
  | [] => []
  | v :: items => mask v :: maskItems items

end

/-- each credential-shaped word of a text masked -/
def maskWordsOf (text : String) : String := String.ofList (maskText text.toList)

/-- an answer as a model may read it -/
def masked (answer : Value) : Value := (mask x answer).mapStrings maskWordsOf

end

/-! ## leaves -/

/-- a scalar of a value, where it stands, whether the last member's name counts, and whether it is that
member itself rather than in an array under it -/
structure Leaf where
  path : List Step
  named : Bool
  direct : Bool
  value : Value

def Leaf.under (s : Step) (l : Leaf) : Leaf := { l with path := s :: l.path }

mutual

/-- the scalars of a value in document order -/
def leaves (isName : String → Bool) (named direct : Bool) : Value → List Leaf
  | .object fields => memberLeaves isName fields
  | .array items => itemLeaves isName named 0 items
  | v => [⟨[], named, direct, v⟩]

def memberLeaves (isName : String → Bool) : List (String × Value) → List Leaf
  | [] => []
  | (key, v) :: fields =>
    (leaves isName (isName key) true v).map (Leaf.under (.member key)) ++ memberLeaves isName fields

def itemLeaves (isName : String → Bool) (named : Bool) (n : Nat) : List Value → List Leaf
  | [] => []
  | v :: items =>
    (leaves isName named false v).map (Leaf.under (.item n)) ++ itemLeaves isName named (n + 1) items

end

section
variable {isName : String → Bool} {named direct : Bool} {l : Leaf}

theorem mem_memberLeaves {fields : List (String × Value)} :
    l ∈ memberLeaves isName fields ↔
      ∃ p ∈ fields, ∃ l' ∈ leaves isName (isName p.1) true p.2, l = l'.under (.member p.1) := by
  induction fields with
  | nil => simp [memberLeaves]
  | cons p fields ih =>
    rw [memberLeaves, List.mem_append, ih, List.mem_map]
    constructor
    · rintro (⟨l', hl', rfl⟩ | ⟨q, hq, hl'⟩)
      · exact ⟨p, List.mem_cons_self, l', hl', rfl⟩
      · exact ⟨q, List.mem_cons_of_mem _ hq, hl'⟩
    · rintro ⟨q, hq, l', hl', rfl⟩
      rcases List.mem_cons.1 hq with rfl | hq
      · exact Or.inl ⟨l', hl', rfl⟩
      · exact Or.inr ⟨q, hq, l', hl', rfl⟩

theorem mem_itemLeaves {items : List Value} {n : Nat} :
    l ∈ itemLeaves isName named n items ↔
      ∃ i v, items[i]? = some v ∧ ∃ l' ∈ leaves isName named false v, l = l'.under (.item (n + i)) := by
  induction items generalizing n with
  | nil => simp [itemLeaves]
  | cons v items ih =>
    rw [itemLeaves, List.mem_append, ih, List.mem_map]
    constructor
    · rintro (⟨l', hl', rfl⟩ | ⟨i, w, hw, l', hl', rfl⟩)
      · exact ⟨0, v, rfl, l', hl', rfl⟩
      · exact ⟨i + 1, w, hw, l', hl', by rw [Nat.add_assoc, Nat.add_comm 1]⟩
    · rintro ⟨i, w, hw, l', hl', rfl⟩
      cases i with
      | zero =>
        obtain rfl := Option.some.inj hw
        exact Or.inl ⟨l', hl', rfl⟩
      | succ i => exact Or.inr ⟨i, w, hw, l', hl', by rw [Nat.add_assoc, Nat.add_comm 1]⟩

end

/-- a leaf that an input is refused for -/
def Leaf.listed (x : Readings) (l : Leaf) : Bool :=
  match l.value with
  | .string text =>
    !(isVariableReference text || text = "") && (l.named || secretText x text.toList)
  | .number _ => l.named
  | .bool _ => l.named
  | _ => false

section
variable {x : Readings}

/-- the paths of what is found among leaves under a path -/
def foundIn (x : Readings) (path : List Step) (ls : List Leaf) : List (List Step) :=
  (ls.filter (fun l => l.listed x)).map (fun l => path ++ l.path)

theorem foundIn_append (path : List Step) (a b : List Leaf) :
    foundIn x path (a ++ b) = foundIn x path a ++ foundIn x path b := by
  unfold foundIn
  rw [List.filter_append, List.map_append]

theorem foundIn_under (path : List Step) (s : Step) (ls : List Leaf) :
    foundIn x path (ls.map (Leaf.under s)) = foundIn x (path ++ [s]) ls := by
  unfold foundIn
  rw [List.filter_map, List.map_map]
  apply List.map_congr_left
  intro l _
  show path ++ s :: l.path = path ++ [s] ++ l.path
  rw [List.append_assoc]
  rfl

/-- **What is found are leaves**, in their order. -/
theorem walk_eq (v : Value) : ∀ path named direct,
    walk x path named v = foundIn x path (leaves (secretName x) named direct v) := by
  induction v using Value.induction with
  | null => exact fun _ _ _ => rfl
  | bool b =>
    intro path named direct
    cases named
    · rfl
    · show [path] = [path ++ []]
      rw [List.append_nil]
  | number n =>
    intro path named direct
    cases named
    · rfl
    · show [path] = [path ++ []]
      rw [List.append_nil]
  | string text =>
    intro path named direct
    have hleaf : Leaf.listed x ⟨[], named, direct, .string text⟩
        = (!(isVariableReference text || text = "") && (named || secretText x text.toList)) := rfl
    unfold foundIn walk leaves
    rw [List.filter_singleton, hleaf]
    cases (isVariableReference text || decide (text = "")) <;>
      cases (named || secretText x text.toList) <;> simp
  | array items ih =>
    intro path named direct
    have hitems : ∀ n, walkItems x path named n items
        = foundIn x path (itemLeaves (secretName x) named n items) := by
      induction items with
      | nil => exact fun _ => rfl
      | cons v items ihl =>
        intro n
        rw [walkItems, itemLeaves, foundIn_append, foundIn_under,
          ih v List.mem_cons_self _ _ false,
          ihl (fun w hw => ih w (List.mem_cons_of_mem v hw))]
    exact hitems 0
  | object fields ih =>
    intro path named direct
    show walkMembers x path fields = foundIn x path (memberLeaves (secretName x) fields)
    induction fields with
    | nil => rfl
    | cons p fields ihl =>
      rw [walkMembers, memberLeaves, foundIn_append, foundIn_under,
        ih p List.mem_cons_self _ _ true,
        ihl (fun q hq => ih q (List.mem_cons_of_mem p hq))]

end

/-! ## manifests -/

/-- a manifest that holds a secret as a literal, as a member or as a request header -/
inductive Refused : Value → Prop
  | key {fields : List (String × Value)} {key : String} {v : Value} :
    (key, v) ∈ fields → secretKeys.contains key → holdsSecret v → Refused (.object fields)
  | header {fields : List (String × Value)} {v : Value} :
    ("headers", v) ∈ fields → (credentialHeader v).isSome → Refused (.object fields)
  | member {fields : List (String × Value)} {key : String} {v : Value} :
    (key, v) ∈ fields → Refused v → Refused (.object fields)
  | item {items : List Value} {v : Value} : v ∈ items → Refused v → Refused (.array items)

theorem findSecretAmong_isSome (items : List Value) :
    (findSecretAmong items).isSome ↔ ∃ v ∈ items, (findLiteralSecret v).isSome := by
  induction items with
  | nil => simp [findSecretAmong]
  | cons v items ih =>
    rw [findSecretAmong, Option.orElse_eq_orElse, Option.orElse_eq_or, Option.isSome_or,
      Bool.or_eq_true, ih, List.exists_mem_cons_iff]

theorem findSecretIn_isSome (fields : List (String × Value)) :
    (findSecretIn fields).isSome ↔ ∃ p ∈ fields, (secretKeys.contains p.1 ∧ holdsSecret p.2) ∨
      (p.1 = "headers" ∧ (credentialHeader p.2).isSome) ∨ (findLiteralSecret p.2).isSome := by
  induction fields with
  | nil => simp [findSecretIn]
  | cons p fields ih =>
    obtain ⟨key, v⟩ := p
    rw [findSecretIn, List.exists_mem_cons_iff, ← ih]
    by_cases hk : (secretKeys.contains key && holdsSecret v) = true
    · rw [if_pos hk]
      rw [Bool.and_eq_true] at hk
      exact ⟨fun _ => Or.inl (Or.inl hk), fun _ => rfl⟩
    · rw [if_neg hk]
      rw [Bool.and_eq_true] at hk
      simp only [Option.orElse_eq_orElse, Option.orElse_eq_or, Option.isSome_or, Option.isSome_map,
        Bool.or_eq_true]
      by_cases hh : key = "headers"
      · rw [if_pos hh]
        tauto
      · rw [if_neg hh]
        simp only [Option.isSome_none, Bool.false_eq_true]
        tauto

/-- **A manifest is refused for a literal exactly when it holds one.** -/
theorem findLiteralSecret_isSome (v : Value) : (findLiteralSecret v).isSome ↔ Refused v := by
  induction v using Value.induction with
  | array items ih =>
    rw [findLiteralSecret, findSecretAmong_isSome]
    constructor
    · rintro ⟨v, hv, h⟩
      exact Refused.item hv ((ih v hv).1 h)
    · rintro (_ | _ | _ | ⟨hv, h⟩)
      exact ⟨_, hv, (ih _ hv).2 h⟩
  | object fields ih =>
    rw [findLiteralSecret, findSecretIn_isSome]
    constructor
    · rintro ⟨⟨key, v⟩, hp, ⟨hk, hv⟩ | ⟨hk, hv⟩ | hv⟩
      · exact Refused.key hp hk hv
      · dsimp only at hk
        rw [hk] at hp
        exact Refused.header hp hv
      · exact Refused.member hp ((ih _ hp).1 hv)
    · rintro (⟨hp, hk, hv⟩ | ⟨hp, hv⟩ | ⟨hp, hv⟩ | _)
      · exact ⟨_, hp, Or.inl ⟨hk, hv⟩⟩
      · exact ⟨_, hp, Or.inr (Or.inl ⟨rfl, hv⟩)⟩
      · exact ⟨_, hp, Or.inr (Or.inr ((ih _ hp).2 hv))⟩
  | null => exact ⟨fun h => (nomatch h), fun h => (nomatch h)⟩
  | bool b => exact ⟨fun h => (nomatch h), fun h => (nomatch h)⟩
  | number n => exact ⟨fun h => (nomatch h), fun h => (nomatch h)⟩
  | string text => exact ⟨fun h => (nomatch h), fun h => (nomatch h)⟩

end Secrets

end Portal
