import Portal.Base.Document
import Portal.Base.Text

/-!
# The list filter of every kind (`resource/filter.rs`)

A subset of AIP-160 over the manifest as JSON: a text is cut into tokens, the tokens are parsed by
recursive descent with OR binding tighter than AND, every field is checked against the kind's
schema, and the tree is evaluated on a document.

* `tokens`        the tokens with their byte positions, or the first thing that is none;
* `expr`, `seq`, `factor`, `term`, `restriction`   the parser: what it read and what is left, which
  is always less than it was given (`Parsed`);
* `known`         whether a dotted path names a field of the schema;
* `parse`, `eval` the filter of a text, and whether a document matches.

Numbers are the program's floats: their reading, order and text are a parameter (`Floats`).
-/

namespace Portal
namespace Filter

/-- longest filter text, in bytes -/
def maxLen : Nat := 2000

/-- deepest nesting of parentheses and NOT -/
def maxDepth : Nat := 32

structure FilterError where
  position : Nat
  message : String
deriving DecidableEq, Repr

def err {α : Type} (position : Nat) (message : String) : Except FilterError α :=
  .error ⟨position, message⟩

inductive Op where
  | eq
  | ne
  | lt
  | le
  | gt
  | ge
  | has
deriving DecidableEq, Repr

/-- the value of a restriction is `none` for `field:*` -/
inductive Expr where
  | and (a b : Expr)
  | or (a b : Expr)
  | not (a : Expr)
  | cmp (path : List String) (op : Op) (value : Option String)
deriving DecidableEq, Repr

/-- a word knows whether it was quoted, so `"AND"` stays a value -/
inductive Tok where
  | opening
  | closing
  | op (op : Op)
  | and
  | or
  | not
  | word (text : String) (quoted : Bool)
deriving DecidableEq, Repr

/-! ## tokens -/

abbrev Chars := List (Nat × Char)
abbrev Toks := List (Nat × Tok)

/-- the text of a quoted string after its opening quote, and what follows the closing one -/
def quoted (pos : Nat) : Chars → Except FilterError (List Char × Chars)
  | [] => err pos "the quoted string is not closed"
  | (_, c) :: rest =>
    if c = '"' then .ok ([], rest)
    else if c = '\\' then
      match rest with
      | [] => err pos "the quoted string is not closed"
      | (_, escaped) :: rest => (quoted pos rest).map (fun r => (escaped :: r.1, r.2))
    else (quoted pos rest).map (fun r => (c :: r.1, r.2))

def isBare (c : Char) : Bool := !(Text.isWhitespace c || "()=!<>:\"".toList.contains c)

def bare (chars : Chars) : List Char × Chars :=
  ((chars.takeWhile (fun p => isBare p.2)).map Prod.snd, chars.dropWhile (fun p => isBare p.2))

def keyword (word : String) : Tok :=
  if word = "AND" then .and
  else if word = "OR" then .or
  else if word = "NOT" then .not
  else .word word false

/-- one pass of the loop of `tokens`: the token that starts with `c`, and what follows it -/
def token (pos : Nat) (c : Char) (rest : Chars) : Except FilterError (Option Tok × Chars) :=
  let orEqual := rest.head?.map Prod.snd = some '='
  if Text.isWhitespace c then .ok (none, rest)
  else if c = '(' then .ok (some .opening, rest)
  else if c = ')' then .ok (some .closing, rest)
  else if c = '=' then .ok (some (.op .eq), rest)
  else if c = ':' then .ok (some (.op .has), rest)
  else if c = '!' ∧ orEqual then .ok (some (.op .ne), rest.tail)
  else if c = '<' then
    if orEqual then .ok (some (.op .le), rest.tail) else .ok (some (.op .lt), rest)
  else if c = '>' then
    if orEqual then .ok (some (.op .ge), rest.tail) else .ok (some (.op .gt), rest)
  else if c = '"' then
    (quoted pos rest).map (fun r => (some (.word (String.ofList r.1) true), r.2))
  else if c = '!' then err pos "`!` is only part of `!=`; negate with NOT"
  else
    let (word, rest) := bare ((pos, c) :: rest)
    .ok (some (keyword (String.ofList word)), rest)

/-- what is read of an answer through `map` -/
theorem map_eq_ok {α β : Type} {f : α → β} {x : Except FilterError α} {b : β}
    (h : x.map f = .ok b) : ∃ a, x = .ok a ∧ f a = b := by
  cases x with
  | error e => exact absurd h (by simp [Except.map])
  | ok a => exact ⟨a, rfl, by simpa [Except.map] using h⟩

theorem quoted_length {pos : Nat} {chars : Chars} {r : List Char × Chars}
    (h : quoted pos chars = .ok r) : r.2.length ≤ chars.length := by
  fun_induction quoted pos chars generalizing r with
  | case1 => exact absurd h (by simp [err])
  | case2 => cases h; exact Nat.le_succ _
  | case3 => exact absurd h (by simp [err])
  | case4 p p' escaped rest hq ih =>
    obtain ⟨r', hr, rfl⟩ := map_eq_ok h
    have := ih hr
    simp only [List.length_cons]
    omega
  | case5 p c rest hq hc ih =>
    obtain ⟨r', hr, rfl⟩ := map_eq_ok h
    have := ih hr
    simp only [List.length_cons]
    omega

theorem isBare_iff (c : Char) : isBare c = true ↔ Text.isWhitespace c = false ∧
    c ∉ ['(', ')', '=', '!', '<', '>', ':', '"'] := by
  have hl : "()=!<>:\"".toList = ['(', ')', '=', '!', '<', '>', ':', '"'] := rfl
  unfold isBare
  rw [hl]
  simp

theorem token_bare (pos : Nat) {c : Char} (hc : isBare c = true) (chars : Chars) :
    token pos c chars = .ok (some (keyword (String.ofList (bare ((pos, c) :: chars)).1)),
      (bare ((pos, c) :: chars)).2) := by
  obtain ⟨hs, hm⟩ := (isBare_iff c).mp hc
  simp only [List.mem_cons, List.not_mem_nil, or_false, not_or] at hm
  obtain ⟨h1, h2, h3, h4, h5, h6, h7, h8⟩ := hm
  unfold token
  simp only
  rw [if_neg (by simp [hs]), if_neg h1, if_neg h2, if_neg h3, if_neg h7,
    if_neg (fun h => h4 h.1), if_neg h5, if_neg h6, if_neg h8, if_neg h4]

theorem isBare_eq_false {c : Char} (h : isBare c = false) : Text.isWhitespace c = true ∨
    c ∈ ['(', ')', '=', '!', '<', '>', ':', '"'] := by
  by_contra hn
  rw [not_or, Bool.not_eq_true] at hn
  rw [(isBare_iff c).mpr hn] at h
  exact absurd h (by simp)

theorem token_length {pos : Nat} {c : Char} {rest : Chars} {r : Option Tok × Chars}
    (h : token pos c rest = .ok r) : r.2.length ≤ rest.length := by
  have ht : rest.tail.length ≤ rest.length := by rw [List.length_tail]; omega
  cases hb : isBare c with
  | true =>
    -- the first character is one of the word
    rw [token_bare pos hb] at h
    cases h
    show (List.dropWhile (fun p => isBare p.2) ((pos, c) :: rest)).length ≤ _
    rw [List.dropWhile_cons_of_pos (by exact hb)]
    exact (List.dropWhile_suffix _).length_le
  | false =>
    rcases isBare_eq_false hb with hw | hm
    · unfold token at h
      rw [if_pos hw] at h
      cases h
      rfl
    · have key : ∀ {x : Option Tok × Chars}, x.2.length ≤ rest.length →
          (Except.ok x : Except FilterError _) = .ok r → r.2.length ≤ rest.length := by
        intro x hx he
        cases he
        exact hx
      simp only [List.mem_cons, List.not_mem_nil, or_false] at hm
      rcases hm with rfl | rfl | rfl | rfl | rfl | rfl | rfl | rfl
      · exact key le_rfl h
      · exact key le_rfl h
      · exact key le_rfl h
      · by_cases he : rest.head?.map Prod.snd = some '='
        · simp only [token, he] at h
          exact key ht h
        · simp only [token, he] at h
          exact absurd h (by simp [Text.isWhitespace, err])
      · by_cases he : rest.head?.map Prod.snd = some '='
        · simp only [token, he] at h
          exact key ht h
        · simp only [token, he] at h
          exact key le_rfl h
      · by_cases he : rest.head?.map Prod.snd = some '='
        · simp only [token, he] at h
          exact key ht h
        · simp only [token, he] at h
          exact key le_rfl h
      · exact key le_rfl h
      · obtain ⟨r', hr, rfl⟩ := map_eq_ok (show (quoted pos rest).map _ = .ok r from h)
        exact quoted_length hr

def tokens : Chars → Except FilterError Toks
  | [] => .ok []
  | (pos, c) :: rest =>
    match h : token pos c rest with
    | .error e => .error e
    | .ok (tok, rest') =>
      have : rest'.length ≤ rest.length := token_length h
      (tokens rest').map (fun toks => tok.elim toks (fun t => (pos, t) :: toks))
termination_by chars => chars.length

theorem tokens_nil : tokens [] = .ok [] := by
  rw [tokens.eq_def]

theorem tokens_cons (pos : Nat) (c : Char) (rest : Chars) : tokens ((pos, c) :: rest) =
    match token pos c rest with
    | .error e => .error e
    | .ok (tok, rest') =>
      (tokens rest').map (fun toks => tok.elim toks (fun t => (pos, t) :: toks)) := by
  rw [tokens.eq_def]
  simp only
  cases token pos c rest <;> rfl

/-! ## fields -/

/-- `labels.team` is `metadata.labels.team`; every other field is its dotted path -/
def fieldPath (field : String) : Option (List String) :=
  let parts := (Text.split (· = '.') field.toList).map String.ofList
  if parts.any (fun part => part = "") then none
  else if parts.head? = some "labels" then some ("metadata" :: parts)
  else some parts

def combinators : List String := ["allOf", "anyOf", "oneOf"]

def asArray : Value → Option (List Value)
  | .array items => some items
  | _ => none

def asStr : Value → Option String
  | .string text => some text
  | _ => none

/-- a node with no `type` or `type: object` takes any member; a scalar has none -/
def isOpen (node : Value) : Bool :=
  match node.get? "type" with
  | none => true
  | some (.string t) => t = "object"
  | some (.array types) => types.any (fun t => t = .string "object")
  | some _ => false

/-- whether a node of the schema has a path, in at most `hops` steps -/
def hasPath (root : Value) : Nat → Value → List String → Bool
  | 0, _, _ => false
  | _ + 1, _, [] => true
  | hops + 1, node, head :: rest =>
    match (node.get? "$ref").bind asStr with
    | some target =>
      let name := String.ofList (Text.splitLast (· = '/') target.toList)
      let defs := (root.get? "definitions").or (root.get? "$defs")
      match defs.bind (fun defs => defs.get? name) with
      | some definition => hasPath root hops definition (head :: rest)
      | none => false
    | none =>
      if combinators.any (fun combinator =>
          match (node.get? combinator).bind asArray with
          | some branches => branches.any (fun b => hasPath root hops b (head :: rest))
          | none => false) then true
      else if (match node.get? "items" with
          | some items => hasPath root hops items (head :: rest)
          | none => false) then true
      else
        match (node.get? "properties").bind (fun p => p.get? head) with
        | some child => hasPath root hops child rest
        | none =>
          match node.get? "additionalProperties" with
          | some (.bool false) => false
          | some (.bool true) => true
          | some (.object fields) => hasPath root hops (.object fields) rest
          | _ => (node.get? "properties").isNone
              && !combinators.any (fun c => (node.get? c).isSome)
              && (node.get? "items").isNone && (node.get? "$ref").isNone && isOpen node

/-- whether `path` names a field of the kind; without a schema the envelope's members are known -/
def known (schema : Option Value) (path : List String) : Bool :=
  match schema with
  | some schema => hasPath schema 65 schema path
  | none => match path.head? with
    | some head => ["metadata", "spec", "status", "kind", "apiVersion"].contains head
    | none => false

/-! ## the parser -/

/-- what a rule of the grammar read of `toks`, and what it left: always less -/
structure Parsed (toks : Toks) where
  expr : Expr
  rest : Toks
  shorter : rest.length < toks.length

section
variable (schema : Option Value) (finish : Nat)

def position : Toks → Nat
  | [] => finish
  | (pos, _) :: _ => pos

def restriction : (toks : Toks) → Except FilterError (Parsed toks)
  | (start, .word field false) :: rest =>
    match rest with
    | (_, .op op) :: rest =>
      match rest with
      | (_, .word word quoted) :: rest =>
        let value := if quoted || word ≠ "*" then some word else none
        if value = none ∧ op ≠ .has then
          err start ("`*` means present only after `:`, as `" ++ field ++ ":*`")
        else
          match fieldPath field with
          | none => err start ("`" ++ field ++
              "` is not a field: use a dotted path such as spec.space")
          | some path =>
            if known schema path then
              .ok ⟨.cmp path op value, rest, by simp only [List.length_cons]; omega⟩
            else err start ("`" ++ field ++
              "` is not a field of this kind; read its schema with jc_schema_get")
      | rest => err (position finish rest) ("`" ++ field ++ "` needs a value after its operator")
    | rest => err (position finish rest)
        ("`" ++ field ++ "` needs an operator: = != < <= > >= or :")
  | toks => err (position finish toks) "expected a field such as metadata.name or labels.team"

/-- a token that starts another factor of a sequence -/
def startsFactor : Option Tok → Bool
  | some (.word _ _) | some .opening | some .not => true
  | _ => false

mutual

def expr (depth : Nat) (toks : Toks) : Except FilterError (Parsed toks) :=
  if maxDepth < depth then err (position finish toks) "the filter nests too deep"
  else
    match seq depth toks with
    | .error e => .error e
    | .ok left => andLoop depth toks left
termination_by 8 * toks.length + 5
decreasing_by
  · omega
  · have := left.shorter
    omega

/-- the `while` of `expr` -/
def andLoop (depth : Nat) (toks : Toks) (left : Parsed toks) : Except FilterError (Parsed toks) :=
  match h : left.rest with
  | (_, .and) :: rest =>
    match seq depth rest with
    | .error e => .error e
    | .ok right =>
      andLoop depth toks ⟨.and left.expr right.expr, right.rest, by
        have h1 := left.shorter
        have h2 := right.shorter
        rw [h, List.length_cons] at h1
        omega⟩
  | _ => .ok left
termination_by 8 * left.rest.length + 6
decreasing_by
  · rw [h, List.length_cons]
    omega
  · have := right.shorter
    rw [h, List.length_cons]
    omega

def seq (depth : Nat) (toks : Toks) : Except FilterError (Parsed toks) :=
  match factor depth toks with
  | .error e => .error e
  | .ok left => seqLoop depth toks left
termination_by 8 * toks.length + 3
decreasing_by
  · omega
  · have := left.shorter
    omega

/-- the `while` of `seq` -/
def seqLoop (depth : Nat) (toks : Toks) (left : Parsed toks) : Except FilterError (Parsed toks) :=
  if startsFactor (left.rest.head?.map Prod.snd) then
    match factor depth left.rest with
    | .error e => .error e
    | .ok right =>
      seqLoop depth toks ⟨.and left.expr right.expr, right.rest, right.shorter.trans left.shorter⟩
  else .ok left
termination_by 8 * left.rest.length + 4
decreasing_by
  · omega
  · have := right.shorter
    omega

def factor (depth : Nat) (toks : Toks) : Except FilterError (Parsed toks) :=
  match term depth toks with
  | .error e => .error e
  | .ok left => orLoop depth toks left
termination_by 8 * toks.length + 1
decreasing_by
  · omega
  · have := left.shorter
    omega

/-- the `while` of `factor` -/
def orLoop (depth : Nat) (toks : Toks) (left : Parsed toks) : Except FilterError (Parsed toks) :=
  match h : left.rest with
  | (_, .or) :: rest =>
    match term depth rest with
    | .error e => .error e
    | .ok right =>
      orLoop depth toks ⟨.or left.expr right.expr, right.rest, by
        have h1 := left.shorter
        have h2 := right.shorter
        rw [h, List.length_cons] at h1
        omega⟩
  | _ => .ok left
termination_by 8 * left.rest.length + 2
decreasing_by
  · rw [h, List.length_cons]
    omega
  · have := right.shorter
    rw [h, List.length_cons]
    omega

def term (depth : Nat) (toks : Toks) : Except FilterError (Parsed toks) :=
  match toks with
  | (_, .not) :: rest =>
    match term (depth + 1) rest with
    | .error e => .error e
    | .ok inner => .ok ⟨.not inner.expr, inner.rest, by
        have := inner.shorter
        rw [List.length_cons]
        omega⟩
  | (pos, .opening) :: rest =>
    match expr (depth + 1) rest with
    | .error e => .error e
    | .ok inner =>
      match h : inner.rest with
      | (_, .closing) :: rest' => .ok ⟨inner.expr, rest', by
          have := inner.shorter
          rw [h, List.length_cons] at this
          rw [List.length_cons]
          omega⟩
      | _ => err pos "the parenthesis is not closed"
  | toks => restriction schema finish toks
termination_by 8 * toks.length
decreasing_by all_goals (rw [List.length_cons]; omega)

end

def parse (text : String) : Except FilterError Expr :=
  if maxLen < Text.utf8Len text.toList then
    err maxLen ("a filter is at most " ++ toString maxLen ++ " characters")
  else
    match tokens (Text.charIndices 0 text.toList) with
    | .error e => .error e
    | .ok toks =>
      if toks.isEmpty then err 0 "the filter is empty; leave it out to list everything"
      else
        match expr schema (Text.utf8Len text.toList) 0 toks with
        | .error e => .error e
        | .ok parsed =>
          if parsed.rest.isEmpty then .ok parsed.expr
          else err (position (Text.utf8Len text.toList) parsed.rest)
            "unexpected text; join terms with AND or OR"

end

/-! ## evaluation -/

/-- every non-null value at `path`, stepping into each element of an array on the way -/
def valuesAt (doc : Value) (path : List String) : List Value :=
  let current := path.foldl (fun current segment => current.flatMap (fun v =>
    match v with
    | .array items => items.filterMap (fun i => i.get? segment)
    | other => (other.get? segment).toList)) [doc]
  (current.flatMap (fun v =>
    match v with
    | .array items => items
    | other => [other])).filter (fun v => v ≠ .null)

/-- the floats of the program: `as_f64` of a JSON number, `str::parse`, `partial_cmp`, and the text
of a number -/
structure Floats where
  F : Type
  ofNumber : Number → F
  parse : String → Option F
  partialCmp : F → F → Option Ordering
  text : Number → String

section
variable (fl : Floats)

def textOf : Value → Option String
  | .string s => some s
  | .number n => some (fl.text n)
  | .bool b => some (if b then "true" else "false")
  | _ => none

def asF64 : Value → Option fl.F
  | .number n => some (fl.ofNumber n)
  | _ => none

/-- numbers as numbers when both sides are, everything else as text -/
def compare (value : Value) (want : String) : Option Ordering :=
  match asF64 fl value, fl.parse want with
  | some a, some b => fl.partialCmp a b
  | _, _ => (textOf fl value).map (fun text => compareOfLessAndEq text want)

/-- what an operator asks of an order, for the five that ask one -/
def holds (op : Op) (order : Option Ordering) : Bool :=
  match op with
  | .eq => order = some .eq
  | .lt => order = some .lt
  | .le => order = some .lt ∨ order = some .eq
  | .gt => order = some .gt
  | _ => order = some .gt ∨ order = some .eq

def evalCmp (found : List Value) (op : Op) (value : Option String) : Bool :=
  match op, value with
  | .has, none => !found.isEmpty
  | .has, some want => found.any (fun v =>
      match v with
      | .object fields => (fields.lookup want).isSome
      | other => textOf fl other = some want)
  | .ne, some want => !found.any (fun v => textOf fl v = some want)
  | op, some want => found.any (fun v => holds op (compare fl v want))
  | _, none => false

def eval (doc : Value) : Expr → Bool
  | .and a b => eval doc a && eval doc b
  | .or a b => eval doc a || eval doc b
  | .not a => !eval doc a
  | .cmp path op value => evalCmp fl (valuesAt doc path) op value

end

end Filter
end Portal
