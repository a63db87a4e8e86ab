import Portal.Changes.Removals

/-!
# A second person decides access and models (`changes.rs`: `approve_change_for`,
`needs_second_person`, `head_author`, `same_email`)

A change of a role, a binding, a group, a service account or a data model is not approved by the one
who proposed it.  Who that is, the head commit of the Portal's own branch says, and of a writer's
branch the forge account that opened it; what the change is of, the manifests that it leaves or
removes and its headline say.

* `sameEmail`        two e-mails but for case and surrounding space;
* `Decides`          a manifest of the change, or its headline, takes two;
* `second_person`    a person who proposed such a change is refused;
* `second_person_evaded`   where the author of an earlier commit, or of a native file alone, is not.
-/

namespace Portal
namespace Changes

open Access

/-- two e-mails equal but for case and surrounding space; a missing or blank one equals nothing -/
def sameEmail (a b : Option String) : Bool :=
  match a.map Text.trimmed, b.map Text.trimmed with
  | some a, some b => a ≠ "" && Text.eqIgnoreAsciiCase a b
  | _, _ => false

section
variable (x : JcAccess) (y : Reads) (mr : MergeRequest) (project : String)

/-- the change is of a kind that takes two: a manifest it leaves or removes, or its headline -/
def Decides : Prop :=
  (∃ file ∈ mr.pullRequestFiles, ∃ e, manifestOf y mr file = some e ∧
    needsSecondPerson e.kind = true) ∨
  ∃ data, loadManifestData x y mr project none = .ok (some data) ∧
    needsSecondPerson data.kind = true

end

section
variable {x : JcAccess} {y : Reads} {z : Further} {c : Caller} {mr : MergeRequest}
  {project : String}

/-- an e-mail the forge keeps without surrounding space is compared as `sameEmail` does -/
theorem isAuthor_of_sameEmail {author : Commit} {identity : Identity}
    (hplain : ∀ e, author.email = some e → Text.trimmed e = e)
    (h : sameEmail author.email identity.email = true) : isAuthor author identity = true := by
  unfold sameEmail at h
  cases hp : author.email with
  | none => simp [hp] at h
  | some prEmail =>
    cases hu : identity.email with
    | none => simp [hp, hu] at h
    | some userEmail =>
      have htrim := hplain prEmail hp
      simp only [hp, hu, Option.map_some, htrim, Bool.and_eq_true, decide_eq_true_eq] at h
      unfold isAuthor
      simp only [hp, hu, htrim, h.1, ne_eq, not_false_eq_true, if_true, h.2]

theorem secondPerson_refuses {data : ManifestData} {via : ApprovedBy} {verdict : Verdict}
    (hvia : via.isConnector = false)
    (h : verdict.changesAccess = true ∨ needsSecondPerson data.kind = true) :
    secondPerson x c project data via verdict true ≠ .ok () := by
  have hdecides : (verdict.changesAccess || needsSecondPerson data.kind) = true :=
    Bool.or_eq_true_iff.mpr h
  unfold secondPerson
  simp only [hvia, hdecides, Bool.true_and, Bool.not_false, if_true]
  cases verdict.grantsApprover with
  | true =>
    rw [if_pos rfl]
    exact fun hok => nomatch hok
  | false =>
    rw [if_neg Bool.false_ne_true]
    exact fun hok => nomatch hok

/-- **A second person decides access and models**: a person whose e-mail is the proposer's is
refused. -/
theorem second_person {id : String} {confirm : Option String} {via : ApprovedBy}
    (hvia : via.isConnector = false) (hdecides : Decides x y mr project)
    (hplain : ∀ e, (headAuthor mr).email = some e → Text.trimmed e = e)
    (hsame : sameEmail (headAuthor mr).email c.identity.email = true) (lane : Lane)
    (log : List Check) :
    approveChangeFor x y z c mr project id confirm via ≠ Gate.ok lane log := by
  intro h
  obtain ⟨data, verdict, fileLog, hdata, hfiles, -, hsecond, -⟩ := approveChangeFor_ok h
  obtain ⟨-, haccess, -⟩ := approveEveryFile_ok hfiles
  rw [isAuthor_of_sameEmail hplain hsame] at hsecond
  refine secondPerson_refuses hvia ?_ hsecond
  rcases hdecides with ⟨file, hfile, e, he, hkind⟩ | ⟨data', hdata', hkind⟩
  · exact .inl (haccess file hfile e he hkind)
  · obtain rfl : data = data' := Option.some.inj (Except.ok.inj (hdata.symm.trans hdata'))
    exact .inr hkind

end

/-! ## a data model -/

def modelAdmin : Caller where
  repository := repositoryOf [("org", "Organization", "acme", .object []),
    ("org", "Role", "admin",
      roleValue [ruleValue ["Dashboard", "DataModel"] ["approve", "delete"]]),
    ("org", "RoleBinding", "ana", bindingValue "admin" "project" "p" "ana")]
  bootstrapGroup := "bootstrap"
  identity := ⟨"ana", "ana", some "ana@example.com", none, [], [], none⟩
  now := 0

def models : Reads := plainReads [("Dashboard", "p", "a"), ("DataModel", "p", "air")]

def modelFile : String × String :=
  ("projects/p/datamodels/air.yaml", manifestText "DataModel" "p" "air")

def byAna : Commit := ⟨"Ana", some "ana@example.com"⟩

def byBob : Commit := ⟨"Bob", some "bob@example.com"⟩

/-- the data model changed, in commits of these authors -/
def modelChanged (commits : List Commit) : MergeRequest :=
  { bobsRequest [⟨modelFile.1, "modified", none⟩] [modelFile] [modelFile] with
    commits := some commits }

theorem second_person_of_ana : sameEmail (headAuthor (modelChanged [byAna, byBob])).email
      modelAdmin.identity.email = true ∧
    ∀ lane log, approveChangeFor plainJc models noFurther modelAdmin (modelChanged [byAna, byBob])
      "p" "chg-00000007" none .person ≠ Gate.ok lane log := by
  have hsame : sameEmail (headAuthor (modelChanged [byAna, byBob])).email
      modelAdmin.identity.email = true := by decide +kernel
  refine ⟨hsame, second_person rfl (.inl ?_) ?_ hsame⟩
  · exact ⟨⟨modelFile.1, false, false⟩, by decide +kernel, plainEnvelope "DataModel" "p" "air",
      by decide +kernel, by decide⟩
  · intro e he
    have hemail : (headAuthor (modelChanged [byAna, byBob])).email = some "ana@example.com" := by
      decide +kernel
    cases hemail.symm.trans he
    decide +kernel

/-- the model's source beside a dashboard, both changed by ana -/
def sourceChanged : MergeRequest :=
  { bobsRequest [⟨dashboardPath "a", "modified", none⟩,
      ⟨"projects/p/datamodels/air.linkml.yaml", "modified", none⟩]
      (("projects/p/datamodels/air.linkml.yaml", "id: air2") :: dashboardTree "a")
      (("projects/p/datamodels/air.linkml.yaml", "id: air") :: dashboardTree "a") with
    commits := some [byAna] }

/-- **Who is not refused**: the author of a commit that another follows, and the author of a model's
source file whose manifest is not in the change. -/
theorem second_person_evaded :
    (byAna ∈ [byBob, byAna] ∧ sameEmail byAna.email modelAdmin.identity.email = true ∧
      Decides plainJc models (modelChanged [byBob, byAna]) "p" ∧
      ∃ log, approveChangeFor plainJc models noFurther modelAdmin (modelChanged [byBob, byAna]) "p"
        "chg-00000007" none .person = Gate.ok .yellow log) ∧
    (nativeKind plainJc "projects/p/datamodels/air.linkml.yaml" = some "DataModel" ∧
      sameEmail (headAuthor sourceChanged).email modelAdmin.identity.email = true ∧
      ∃ log, approveChangeFor plainJc models noFurther modelAdmin sourceChanged "p" "chg-00000007"
        none .person = Gate.ok .green log) := by
  let model := some (plainEnvelope "DataModel" "p" "air").toValue
  let dashboard := some (plainEnvelope "Dashboard" "p" "a").toValue
  have hmodel : approveChangeFor plainJc models noFurther modelAdmin (modelChanged [byBob, byAna])
      "p" "chg-00000007" none .person = Gate.ok .yellow
        [⟨"p", "DataModel", .approve, model⟩, ⟨"p", "DataModel", .approve, model⟩] := by
    decide +kernel
  have hsource : approveChangeFor plainJc models noFurther modelAdmin sourceChanged "p"
      "chg-00000007" none .person = Gate.ok .green [⟨"p", "Dashboard", .approve, dashboard⟩,
        ⟨"p", "Dashboard", .approve, dashboard⟩, ⟨"p", "DataModel", .approve, none⟩] := by
    decide +kernel
  refine ⟨⟨by decide, by decide +kernel, .inl ?_, _, hmodel⟩, by decide +kernel, by decide +kernel,
    _, hsource⟩
  exact ⟨⟨modelFile.1, false, false⟩, by decide +kernel, plainEnvelope "DataModel" "p" "air",
    by decide +kernel, by decide⟩

end Changes
end Portal
