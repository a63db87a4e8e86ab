import Mathlib.Data.List.Basic

/-!
# Stream processors: mapping, branch, try, catch and while

A message carries a document and its metadata through a list of processors, each of which may act on a
world `σ`.  One that fails leaves the message as it was, with its error.

* `mapping`, `branch`     the document rewritten; a request made of it and the answer read into it;
* `tryAll`, `catchAll`    children until one fails; children for a failed message, whose error is cleared;
* `whileLoop`             children while a check holds, so many times at most;
* `tryAll_cons_ok`        a block that did not fail had no child that failed;
* `whileLoop_rule`        **what a round keeps, the loop keeps**.
-/

namespace Portal

structure Message (δ μ : Type*) where
  doc : δ
  metadata : μ
  error : Option String

namespace Message

variable {δ μ : Type*}

def fail (m : Message δ μ) (e : String) : Message δ μ := { m with error := some e }

end Message

/-- what becomes of a message, and of the world -/
abbrev Processor (σ δ μ : Type*) := σ → Message δ μ → σ × Message δ μ

section
variable {σ δ μ ρ π : Type*}

/-- the document and metadata that `f` makes of a message -/
def mapping (f : σ → δ → μ → σ × Except String (δ × μ)) : Processor σ δ μ := fun s m =>
  match f s m.doc m.metadata with
  | (s', .ok (doc, metadata)) => (s', { m with doc := doc, metadata := metadata })
  | (s', .error e) => (s', m.fail e)

/-- a request made of the message, what it is answered, and the answer read into the document; a
request that is deleted leaves the message as it is.  The metadata of the request stay with it. -/
def branch (request : δ → μ → Except String (Option ρ × μ))
    (child : σ → ρ → μ → σ × Except String π) (result : δ → μ → π → Except String δ) :
    Processor σ δ μ := fun s m =>
  match request m.doc m.metadata with
  | .error e => (s, m.fail e)
  | .ok (none, _) => (s, m)
  | .ok (some asked, metadata) =>
    match child s asked metadata with
    | (s', .error e) => (s', m.fail e)
    | (s', .ok answer) =>
      match result m.doc metadata answer with
      | .error e => (s', m.fail e)
      | .ok doc => (s', { m with doc := doc })

def sequence (ps : List (Processor σ δ μ)) : Processor σ δ μ :=
  fun s m => ps.foldl (fun r p => p r.1 r.2) (s, m)

/-- the children until one fails -/
def tryAll : List (Processor σ δ μ) → Processor σ δ μ
  | [], s, m => (s, m)
  | p :: ps, s, m => if m.error.isSome then (s, m) else tryAll ps (p s m).1 (p s m).2

/-- the children for a message that failed; its error is then cleared -/
def catchAll (ps : List (Processor σ δ μ)) : Processor σ δ μ := fun s m =>
  if m.error.isSome then
    ((sequence ps s m).1, { (sequence ps s m).2 with error := none })
  else (s, m)

/-- the body while the check holds of the document, `n` times at most -/
def whileLoop (check : δ → Bool) (body : Processor σ δ μ) : Nat → Processor σ δ μ
  | 0, s, m => (s, m)
  | n + 1, s, m => if check m.doc then whileLoop check body n (body s m).1 (body s m).2 else (s, m)

theorem tryAll_of_error {ps : List (Processor σ δ μ)} {s : σ} {m : Message δ μ}
    (h : m.error.isSome) : tryAll ps s m = (s, m) := by
  cases ps with
  | nil => rfl
  | cons p ps => rw [tryAll, if_pos h]

/-- a block that did not fail had no child that failed -/
theorem tryAll_cons_ok {p : Processor σ δ μ} {ps : List (Processor σ δ μ)} {s : σ} {m : Message δ μ}
    (h : (tryAll (p :: ps) s m).2.error = none) :
    m.error = none ∧ (p s m).2.error = none ∧
      tryAll (p :: ps) s m = tryAll ps (p s m).1 (p s m).2 := by
  have hm : m.error = none := by
    by_contra hc
    rw [tryAll_of_error (Option.isSome_iff_ne_none.2 hc)] at h
    exact hc h
  have hstep : tryAll (p :: ps) s m = tryAll ps (p s m).1 (p s m).2 := by
    rw [tryAll, hm]
    rfl
  refine ⟨hm, ?_, hstep⟩
  by_contra hc
  rw [hstep, tryAll_of_error (Option.isSome_iff_ne_none.2 hc)] at h
  exact hc h

theorem catchAll_of_ok {ps : List (Processor σ δ μ)} {s : σ} {m : Message δ μ}
    (h : m.error = none) : catchAll ps s m = (s, m) := by
  rw [catchAll, h]
  rfl

/-- **Loop rule**: what one round keeps, the loop keeps. -/
theorem whileLoop_rule {I : σ → Message δ μ → Prop} {check : δ → Bool} {body : Processor σ δ μ}
    (hbody : ∀ s m, check m.doc = true → I s m → I (body s m).1 (body s m).2) (n : Nat) {s : σ}
    {m : Message δ μ} (h : I s m) :
    I (whileLoop check body n s m).1 (whileLoop check body n s m).2 := by
  induction n generalizing s m with
  | zero => exact h
  | succ n ih =>
    rw [whileLoop]
    by_cases hc : check m.doc = true
    · rw [if_pos hc]
      exact ih (hbody s m hc h)
    · rw [if_neg hc]
      exact h

end

end Portal
