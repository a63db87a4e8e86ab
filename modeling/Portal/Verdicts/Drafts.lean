import Portal.Import.Bundle
import Portal.Verdicts.Digest

/-!
# Drafts and their checks (`ops/drafts.rs`: `DraftStore`; `ops/verdict.rs`: `Verdict`)

A draft is kept by workspace, project, kind and name, with the verdict its last check left and a
version that each put raises by one.  A put may name the version it is to replace, zero for none; a
draft that is dropped or swept away ends, and the next put under its key begins again at one.

* `Json`                     a JSON value, which has a key once in each object;
* `Verdict`, `Draft`         what is kept;
* `put`, `setVerdict`, `drop`, `sweep`   the operations, each under the store's lock;
* `put_cases`, `setVerdict_cases`        what a put and a verdict leave.
-/

namespace Portal
namespace Verdicts

/-! ## values -/

/-- a JSON value as it is held in memory: each object has a key once -/
structure Json where
  value : Value
  distinct : value.All (fun _ => True) List.Nodup

instance : DecidableEq Json := fun a b =>
  decidable_of_iff (a.value = b.value)
    ⟨fun h => by cases a; cases b; cases h; rfl, fun h => congrArg Json.value h⟩

namespace Json

/-- equal up to the order of keys -/
def Same (a b : Json) : Prop := Verdicts.Same a.value b.value

instance (a b : Json) : Decidable (a.Same b) :=
  decidable_of_iff _ (canonicalize_inj a.distinct b.distinct)

theorem Same.refl (a : Json) : a.Same a := (canonicalize_inj a.distinct a.distinct).mp rfl

def get? (j : Json) (key : String) : Option Json :=
  match h : j.value.get? key with
  | none => none
  | some v => some ⟨v, by
      obtain ⟨value, distinct⟩ := j
      cases value with
      | object fields =>
        obtain ⟨before, rest, rfl, -⟩ := List.lookup_eq_some_iff.mp h
        exact (Value.all_object.mp distinct).2 (key, v)
          (List.mem_append_right _ List.mem_cons_self)
      | _ => exact absurd h (by simp [Value.get?, Value.asObject])⟩

def text (j : Json) (key : String) : Option String := (j.value.get? key).bind Value.asStr

end Json

/-! ## verdicts -/

inductive Level where
  | error
  | warning
  | info
deriving DecidableEq

structure Finding where
  level : Level
  path : String
  message : String
deriving DecidableEq

structure RecordsVerdict (δ : Type) where
  ok : Bool
  checked : Nat
  rejected : Nat
  specDigest : δ
  sampleDigest : δ
deriving DecidableEq

structure Verdict (δ : Type) where
  ok : Bool
  findings : List Finding
  trace : Option Value
  checkedAt : Int
  inputDigest : δ
  waitsOn : List String
  records : Option (RecordsVerdict δ)
deriving DecidableEq

section
variable {δ : Type}

/-- a verdict with the record check an earlier one held, when it made none -/
def Verdict.keepingRecords (v : Verdict δ) (earlier : Option (Verdict δ)) : Verdict δ :=
  if v.records.isNone then { v with records := earlier.bind Verdict.records } else v

/-- a verdict but for its record check -/
def Verdict.bare (v : Verdict δ) : Verdict δ := { v with records := none }

@[simp] theorem Verdict.ok_keepingRecords (v : Verdict δ) (earlier : Option (Verdict δ)) :
    (v.keepingRecords earlier).ok = v.ok := by
  unfold keepingRecords
  split <;> rfl

@[simp] theorem Verdict.bare_keepingRecords (v : Verdict δ) (earlier : Option (Verdict δ)) :
    (v.keepingRecords earlier).bare = v.bare := by
  unfold keepingRecords bare
  split <;> rfl

theorem Verdict.records_keepingRecords (v : Verdict δ) (earlier : Option (Verdict δ)) :
    (v.keepingRecords earlier).records = (v.records <|> earlier.bind Verdict.records) := by
  unfold keepingRecords
  cases h : v.records with
  | none => simp
  | some records => simp [h]

end

/-! ## the store -/

structure Key where
  /-- empty outside every workspace -/
  workspace : String
  project : String
  kind : String
  name : String
deriving DecidableEq

structure Draft (δ : Type) where
  manifest : Json
  verdict : Option (Verdict δ)
  touchedBy : String
  touchedKind : String
  version : Int
  updatedAt : Int
deriving DecidableEq

inductive DraftError where
  | secret (field : String)
  | conflict (current : Int)
  | notFound
deriving DecidableEq

abbrev Drafts (δ : Type) := Key → Option (Draft δ)

section
variable {δ : Type} (s : Drafts δ) (key : Key)

/-- the version a put finds: zero where there is no draft -/
def currentVersion : Int := ((s key).map Draft.version).getD 0

/-- `put_in` under its lock; the sweep it makes first is a step of its own -/
def put (manifest : Json) (expected : Option Int) (touchedBy touchedKind : String) (now : Int) :
    Except DraftError (Draft δ × Drafts δ) :=
  match Import.findLiteralSecret manifest.value with
  | some field => .error (.secret field)
  | none =>
    if expected.any (fun e => e ≠ currentVersion s key) then .error (.conflict (currentVersion s key))
    else
      let draft : Draft δ := ⟨manifest, (s key).bind Draft.verdict, touchedBy, touchedKind,
        currentVersion s key + 1, now⟩
      .ok (draft, Function.update s key (some draft))

/-- `set_verdict_in` under its lock -/
def setVerdict (verdict : Verdict δ) (now : Int) : Except DraftError (Draft δ × Drafts δ) :=
  match s key with
  | none => .error .notFound
  | some draft =>
    let draft := { draft with verdict := some (verdict.keepingRecords draft.verdict), updatedAt := now }
    .ok (draft, Function.update s key (some draft))

def drop : Drafts δ := Function.update s key none

/-- every draft idle since before `cutoff` ends -/
def sweep (cutoff : Int) : Drafts δ := fun key => (s key).filter (fun d => cutoff ≤ d.updatedAt)

variable {s key}

/-- **What a put leaves**: the manifest under the next version, with the verdict it found. -/
theorem put_cases {manifest : Json} {expected : Option Int} {touchedBy touchedKind : String}
    {now : Int} {draft : Draft δ} {s' : Drafts δ}
    (h : put s key manifest expected touchedBy touchedKind now = .ok (draft, s')) :
    (∀ e, expected = some e → e = currentVersion s key) ∧ draft.manifest = manifest ∧
      draft.verdict = (s key).bind Draft.verdict ∧ draft.version = currentVersion s key + 1 ∧
      s' = Function.update s key (some draft) := by
  unfold put at h
  split at h
  · exact absurd h (by simp)
  · split at h
    · exact absurd h (by simp)
    · rename_i hexpected
      simp only [Except.ok.injEq, Prod.mk.injEq] at h
      obtain ⟨rfl, rfl⟩ := h
      refine ⟨fun e he => ?_, rfl, rfl, rfl, rfl⟩
      subst he
      simpa using hexpected

/-- **What a verdict leaves**: the draft as it was, but for its verdict. -/
theorem setVerdict_cases {verdict : Verdict δ} {now : Int} {draft : Draft δ} {s' : Drafts δ}
    (h : setVerdict s key verdict now = .ok (draft, s')) :
    ∃ found, s key = some found ∧ draft.manifest = found.manifest ∧ draft.version = found.version ∧
      draft.verdict = some (verdict.keepingRecords found.verdict) ∧
      s' = Function.update s key (some draft) := by
  unfold setVerdict at h
  split at h
  · exact absurd h (by simp)
  · rename_i found hfound
    simp only [Except.ok.injEq, Prod.mk.injEq] at h
    obtain ⟨rfl, rfl⟩ := h
    exact ⟨found, hfound, rfl, rfl, rfl, rfl⟩

end

end Verdicts
end Portal
