import Mathlib.Data.String.Basic
import Portal.Base.Blanks
import Portal.Base.OrdMap
import Portal.Base.Pieces

/-!
# Label selectors (`resource/selector.rs`: `LabelSelector`)

A list request may ask for the manifests whose labels meet a list of requirements.  The parser takes the
text apart at its commas and looks in each piece for a parenthesis, a `!` in front, and for `==`, `!=`
and `=`, in this order.

* `splitRequirements`, `parsePart`, `parse`   from a text to its requirements;
* `Requirement.matches`                       what a requirement asks of labels;
* `Pieces`, `splitRequirements_eq_ok`         what the text is cut into.
-/

namespace Portal

namespace Selector

open Text

inductive SelectorError where
  | malformed (text : String)
deriving DecidableEq, Repr

inductive Requirement where
  | equals (key value : String)
  | notEquals (key value : String)
  | isIn (key : String) (values : List String)
  | notIn (key : String) (values : List String)
  | keyExists (key : String)
  | doesNotExist (key : String)
deriving DecidableEq, Repr

structure LabelSelector where
  requirements : List Requirement
deriving DecidableEq, Repr

def isValidKey (k : List Char) : Bool :=
  !k.isEmpty && !k.any (fun c => isWhitespace c || "=!()[],".toList.contains c)

/-! ## the pieces of a selector -/

/-- a text put in front of the first piece -/
def extend (p : List Char) : List (List Char) → List (List Char)
  | [] => [p]
  | w :: ws => (p ++ w) :: ws

/-- the rest of a text cut at its commas, from inside `depth` parentheses -/
def splitFrom (input : List Char) : ℕ → List Char → Except SelectorError (List (List Char))
  | depth, [] =>
    if depth ≠ 0 then .error (.malformed ("unclosed set parenthesis: " ++ String.ofList input))
    else .ok [[]]
  | depth, c :: cs =>
    if c = '(' then (splitFrom input (depth + 1) cs).map (extend [c])
    else if c = ')' then
      if depth = 0 then .error (.malformed ("unbalanced parenthesis: " ++ String.ofList input))
      else (splitFrom input (depth - 1) cs).map (extend [c])
    else if c = ',' && depth = 0 then (splitFrom input 0 cs).map ([] :: ·)
    else (splitFrom input depth cs).map (extend [c])

/-- cut at the commas that separate requirements, those inside a set's parentheses left out -/
def splitRequirements (input : List Char) : Except SelectorError (List (List Char)) :=
  splitFrom input 0 input

/-! ## requirements -/

def onKey (key : List Char) (refused : String) (requirement : String → Requirement) :
    Except SelectorError Requirement :=
  if isValidKey key then .ok (requirement (String.ofList key)) else .error (.malformed refused)

def parseSet (part start inside : List Char) : Except SelectorError Requirement :=
  let values := (split (· = ',') inside).map trim
  if values.isEmpty || values.any List.isEmpty then
    .error (.malformed ("set values must be non-empty in: " ++ String.ofList part))
  else
    match stripSuffix "notin".toList (trim start) with
    | some key => onKey (trim key) ("invalid key: " ++ String.ofList (trim key))
        (.notIn · (values.map String.ofList))
    | none =>
      match stripSuffix "in".toList (trim start) with
      | some key => onKey (trim key) ("invalid key: " ++ String.ofList (trim key))
          (.isIn · (values.map String.ofList))
      | none => .error (.malformed ("expected 'in' or 'notin' before parenthesis in: "
          ++ String.ofList part))

def parsePlain (part : List Char) : Except SelectorError Requirement :=
  let refused := "invalid key in: " ++ String.ofList part
  match part with
  | '!' :: stripped => onKey (trim stripped) refused .doesNotExist
  | part =>
    match splitOnceAt "==".toList part with
    | some (k, v) => onKey (trim k) refused (.equals · (String.ofList (trim v)))
    | none =>
      match splitOnceAt "!=".toList part with
      | some (k, v) => onKey (trim k) refused (.notEquals · (String.ofList (trim v)))
      | none =>
        match splitOnce '=' part with
        | some (k, v) => onKey (trim k) refused (.equals · (String.ofList (trim v)))
        | none => onKey (trim part) refused .keyExists

def parsePart (piece : List Char) : Except SelectorError Requirement :=
  let part := trim piece
  if part.isEmpty then .error (.malformed "empty requirement in selector")
  else if part.contains '(' then
    if part.getLast? ≠ some ')' then
      .error (.malformed ("unclosed set parenthesis: " ++ String.ofList part))
    else
      match splitOnce '(' part.dropLast with
      | none => .error (.malformed ("malformed set requirement: " ++ String.ofList part))
      | some (start, inside) => parseSet part start inside
  else parsePlain part

def parse (input : String) : Except SelectorError LabelSelector :=
  let input := trim input.toList
  if input.isEmpty then .ok ⟨[]⟩
  else ((splitRequirements input).bind (·.mapM parsePart)).map LabelSelector.mk

def Requirement.matches (labels : OrdMap String String) : Requirement → Bool
  | .equals k v => ((labels.get? k).map (fun val => decide (val = v))).getD false
  | .notEquals k v => ((labels.get? k).map (fun val => decide (val ≠ v))).getD true
  | .isIn k values => ((labels.get? k).map (fun val => values.contains val)).getD false
  | .notIn k values => ((labels.get? k).map (fun val => !values.contains val)).getD true
  | .keyExists k => (labels.get? k).isSome
  | .doesNotExist k => !(labels.get? k).isSome

def LabelSelector.matches (s : LabelSelector) (labels : OrdMap String String) : Bool :=
  s.requirements.all (·.matches labels)

example : parse "tier in (a,b),env!=prod" = .ok ⟨[.isIn "tier" ["a", "b"], .notEquals "env" "prod"]⟩ := by
  decide +kernel

/-! ## what a selector is cut into -/

/-- how deep in parentheses a text ends that starts `depth` deep: nowhere when it closes more than it
opens, or has a comma outside of them -/
def scan : ℕ → List Char → Option ℕ
  | depth, [] => some depth
  | depth, c :: cs =>
    if c = '(' then scan (depth + 1) cs
    else if c = ')' then
      if depth = 0 then none else scan (depth - 1) cs
    else if c = ',' && depth = 0 then none
    else scan depth cs

/-- texts whole in their parentheses, without a comma outside, that make up a selector -/
structure Pieces (s : List Char) (pieces : List (List Char)) : Prop where
  joined : s = [','].intercalate pieces
  nonempty : pieces ≠ []
  whole : ∀ p ∈ pieces, scan 0 p = some 0

section
variable {input p r s : List Char} {d d' : ℕ} {ws : List (List Char)}

theorem extend_extend (q : List Char) : extend p (extend q ws) = extend (p ++ q) ws := by
  cases ws with
  | nil => rfl
  | cons w ws => simp [extend]

theorem map_extend (q : List Char) (e : Except SelectorError (List (List Char))) :
    (e.map (extend q)).map (extend p) = e.map (extend (p ++ q)) := by
  cases e with
  | error e => rfl
  | ok ws => exact congrArg Except.ok (extend_extend q)

theorem scan_append : scan d (p ++ r) = (scan d p).bind (fun d' => scan d' r) := by
  induction p generalizing d with
  | nil => rfl
  | cons c p ih =>
    rw [List.cons_append, scan, scan]
    split
    · exact ih
    · split
      · split
        · rfl
        · exact ih
      · split
        · rfl
        · exact ih

theorem scan_of_plain (h : ∀ c ∈ p, c ≠ '(' ∧ c ≠ ')' ∧ c ≠ ',') : scan d p = some d := by
  induction p with
  | nil => rfl
  | cons c p ih =>
    obtain ⟨hopen, hclose, hcomma⟩ := h c List.mem_cons_self
    rw [scan, if_neg hopen, if_neg hclose, if_neg (by simp [hcomma])]
    exact ih fun c' hc' => h c' (List.mem_cons_of_mem c hc')

theorem scan_of_inside (h : ∀ c ∈ p, c ≠ '(' ∧ c ≠ ')') : scan (d + 1) p = some (d + 1) := by
  induction p with
  | nil => rfl
  | cons c p ih =>
    obtain ⟨hopen, hclose⟩ := h c List.mem_cons_self
    rw [scan, if_neg hopen, if_neg hclose, if_neg (by simp)]
    exact ih fun c' hc' => h c' (List.mem_cons_of_mem c hc')

/-- a whole text that opens no parenthesis closes none -/
theorem plain_of_scan (h : scan 0 p = some d) (hopen : '(' ∉ p) : ∀ c ∈ p, c ≠ '(' ∧ c ≠ ')' ∧ c ≠ ',' := by
  induction p with
  | nil => exact fun c hc => absurd hc List.not_mem_nil
  | cons c p ih =>
    rw [List.mem_cons, not_or] at hopen
    have hc : c ≠ '(' := fun heq => hopen.1 heq.symm
    rw [scan, if_neg hc] at h
    by_cases hclose : c = ')'
    · rw [if_pos hclose] at h
      exact absurd h (by simp)
    · rw [if_neg hclose] at h
      by_cases hcomma : c = ','
      · rw [if_pos (by simp [hcomma])] at h
        exact absurd h (by simp)
      · rw [if_neg (by simp [hcomma])] at h
        intro c' hc'
        rcases List.mem_cons.mp hc' with rfl | hc'
        · exact ⟨hc, hclose, hcomma⟩
        · exact ih h hopen.2 c' hc'

theorem map_eq_ok {e : Except SelectorError (List (List Char))}
    {f : List (List Char) → List (List Char)} (h : e.map f = .ok ws) : ∃ ws', e = .ok ws' ∧ f ws' = ws := by
  cases e with
  | error e => exact absurd h (by simp [Except.map])
  | ok ws' => exact ⟨ws', rfl, Except.ok.inj h⟩

/-- **What a text is cut into** is whole and makes up the text. -/
theorem pieces_of_splitFrom (h : splitFrom input d s = .ok ws) : ∃ w ws', ws = w :: ws'
    ∧ s = [','].intercalate (w :: ws') ∧ scan d w = some 0 ∧ ∀ p ∈ ws', scan 0 p = some 0 := by
  induction s generalizing d ws with
  | nil =>
    rw [splitFrom] at h
    split at h
    · exact absurd h (by simp)
    · rename_i hd
      refine ⟨[], [], (Except.ok.inj h).symm, rfl, ?_, by simp⟩
      simpa [scan] using hd
  | cons c s ih =>
    have hextend : ∀ {d'}, (splitFrom input d' s).map (extend [c]) = .ok ws →
        (∀ w, scan d' w = some 0 → scan d (c :: w) = some 0) → ∃ w ws', ws = w :: ws'
          ∧ c :: s = [','].intercalate (w :: ws') ∧ scan d w = some 0 ∧ ∀ p ∈ ws', scan 0 p = some 0 := by
      intro d' h hscan
      obtain ⟨ws₀, hrest, rfl⟩ := map_eq_ok h
      obtain ⟨w, ws', rfl, hs, hw, hws'⟩ := ih hrest
      refine ⟨c :: w, ws', rfl, ?_, hscan w hw, hws'⟩
      rw [hs]
      cases ws' <;> rfl
    rw [splitFrom] at h
    split at h
    · rename_i hopen
      exact hextend h fun w hw => by rw [scan, if_pos hopen, hw]
    · rename_i hopen
      split at h
      · rename_i hclose
        split at h
        · exact absurd h (by simp)
        · rename_i hd
          exact hextend h fun w hw => by rw [scan, if_neg hopen, if_pos hclose, if_neg hd, hw]
      · rename_i hclose
        split at h
        · rename_i hcomma
          simp only [Bool.and_eq_true, decide_eq_true_eq] at hcomma
          obtain ⟨rfl, rfl⟩ := hcomma
          obtain ⟨ws₀, hrest, rfl⟩ := map_eq_ok h
          obtain ⟨w, ws', rfl, hs, hw, hws'⟩ := ih hrest
          refine ⟨[], w :: ws', rfl, ?_, rfl, List.forall_mem_cons.mpr ⟨hw, hws'⟩⟩
          rw [hs]
          rfl
        · rename_i hcomma
          exact hextend h fun w hw => by rw [scan, if_neg hopen, if_neg hclose, if_neg hcomma, hw]

theorem splitFrom_append (h : scan d p = some d') :
    splitFrom input d (p ++ r) = (splitFrom input d' r).map (extend p) := by
  induction p generalizing d with
  | nil =>
    obtain rfl := Option.some.inj h
    rw [List.nil_append]
    cases hrest : splitFrom input d r with
    | error e => rfl
    | ok ws =>
      obtain ⟨w, ws', rfl, -⟩ := pieces_of_splitFrom hrest
      rfl
  | cons c p ih =>
    rw [scan] at h
    rw [List.cons_append, splitFrom]
    split at h
    · rename_i hopen
      rw [if_pos hopen, ih h, map_extend]
      rfl
    · rename_i hopen
      rw [if_neg hopen]
      split at h
      · rename_i hclose
        rw [if_pos hclose]
        split at h
        · exact absurd h (by simp)
        · rename_i hd
          rw [if_neg hd, ih h, map_extend]
          rfl
      · rename_i hclose
        rw [if_neg hclose]
        split at h
        · exact absurd h (by simp)
        · rename_i hcomma
          rw [if_neg hcomma, ih h, map_extend]
          rfl

theorem splitFrom_pieces {pieces : List (List Char)} (hne : pieces ≠ [])
    (h : ∀ p ∈ pieces, scan 0 p = some 0) :
    splitFrom input 0 ([','].intercalate pieces) = .ok pieces := by
  induction pieces with
  | nil => exact absurd rfl hne
  | cons p pieces ih =>
    rw [List.forall_mem_cons] at h
    cases pieces with
    | nil =>
      have hnil := @splitFrom_append input p [] 0 0 h.1
      rw [List.append_nil] at hnil
      rw [List.intercalate_singleton, hnil, splitFrom]
      simp [Except.map, extend]
    | cons q pieces =>
      rw [List.intercalate_cons_cons, List.append_assoc, List.singleton_append, splitFrom_append h.1, splitFrom, if_neg (by decide), if_neg (by decide), if_pos (by simp),
        ih (by simp) h.2]
      simp [Except.map, extend]

/-- **A selector is cut into its pieces.** -/
theorem splitRequirements_eq_ok {pieces : List (List Char)} :
    splitRequirements s = .ok pieces ↔ Pieces s pieces := by
  constructor
  · intro h
    obtain ⟨w, ws, rfl, hs, hw, hws⟩ := pieces_of_splitFrom h
    exact ⟨hs, by simp, List.forall_mem_cons.mpr ⟨hw, hws⟩⟩
  · intro h
    have hcut := @splitFrom_pieces s pieces h.nonempty h.whole
    rwa [← h.joined] at hcut

end

end Selector
end Portal
