import Portal.Changes.Removals
import Portal.Workspaces.Compare

/-!
# Bringing a workspace back (`workspaces.rs`: `propose`)

A workspace is brought back as one change: the pull request of its whole branch.  What is held to
the caller's rights and checked again are the files of its comparison, and a file that has no kind
is not among them.

* `proposeFile`, `propose`   each file held and checked again, then the pull request;
* `Vetted`                   a path that is listed, held and checked again;
* `bring_back_checked`       every path the branch changes was vetted exactly when each has a kind;
* `kindless_rides_along`     where one has none.
-/

namespace Portal
namespace Workspaces

open Access Changes

inductive Via where
  | session
  | bearer
  | mcp
  | agent
deriving DecidableEq

/-- the record of a workspace, as far as a refusal or the pull request names it -/
structure Workspace where
  name : String
  title : Option String
  owner : String

/-- what a bring-back answers with -/
structure Proposal where
  title : String
  body : String
  lane : Changes.Lane
  creates : Nat
  updates : Nat
  deletes : Nat
deriving DecidableEq

def refuseAgentBringBack (via : Via) : Except OpError Unit :=
  if via = .agent ∨ via = .mcp then
    .error (.api (.denied ("an agent never brings a workspace back; it presents the comparison and "
      ++ "a person proposes it in the Portal or over the REST route (AG-82)")))
  else .ok ()

def refuseConflicts (comparison : Comparison) : Except OpError Unit :=
  if comparison.conflicts ≠ [] then
    .error (.conflict ("Main changed files this workspace changes; update it from main and resolve "
      ++ "each conflict first (CC-80).") comparison.conflicts)
  else .ok ()

def refuseEmpty (w : Workspace) (comparison : Comparison) : Except OpError Unit :=
  if comparison.files = [] then
    .error (.api (.conflict ("workspace '" ++ w.name ++ "' changes nothing yet")))
  else .ok ()

def refuseOpen (w : Workspace) : Option String → Except OpError Unit
  | none => .ok ()
  | some change => .error (.api (.conflict ("workspace '" ++ w.name
      ++ "' is already brought back as " ++ change ++ "; approve or reject it first")))

def verbOf (operation : Operation) : Verb := if operation = .delete then .delete else .propose

section
variable (x : Texts) (j : JcAccess) (z : Asks) (c : Caller) (project : String) (t : Trees)

def reply : Asked → Except OpError Unit
  | .check question => OpError.lift (Changes.answer j c question)
  | .recheck path doc operation => OpError.lift (recheck x j z path doc operation)

def sideFiles (operation : Operation) : Files := if operation = .delete then t.base else t.ours

/-- a grant above the caller's own rights is not brought back -/
def withinRights (kind : String) (doc : Value) : Except OpError Unit :=
  if grantsRights kind then
    OpError.lift (withinOwnRights j c.repository c.bootstrapGroup c.identity c.now doc none
      "proposer")
  else .ok ()

/-- a manifest that stays, checked again -/
def recheckFile (file : ChangeFile) : Option Value → Gate OpError Asked Unit
  | none => return ()
  | some doc =>
    if file.operation = .delete then return ()
    else do
      Gate.ask (withinRights j c file.kind doc)
      Gate.hold (reply x j z c) (.recheck file.path doc file.operation)

/-- one file of the comparison, held to the caller's rights -/
def proposeFile (file : ChangeFile) : Gate OpError Asked Unit := do
  let doc ← Gate.ask (OpError.lift (document x (sideFiles t file.operation) file.path))
  Gate.hold (reply x j z c) (.check ⟨project, file.kind, verbOf file.operation, doc⟩)
  recheckFile x j z c file doc

end

section
variable (x : Texts) (j : JcAccess) (z : Asks) (c : Caller) (via : Via) (project : String)
  (w : Workspace) (s : Site)

/-- the change the pull request stands for -/
def proposalOf (files : List ChangeFile) : Proposal where
  title := "workspace " ++ w.name ++ ": " ++ w.title.getD w.name
  body := "Brought back from workspace `" ++ w.name ++ "` of " ++ w.owner ++ " in project `"
    ++ project ++ "`: " ++ toString files.length ++ " files, based on " ++ s.baseRevision ++ "."
  lane := riskiestOf (files.map ChangeFile.lane)
  creates := files.countP (fun file => file.operation = .create)
  updates := files.countP (fun file => file.operation = .update)
  deletes := files.countP (fun file => file.operation = .delete)

/-- the bring-back: the pull request of the branch, and every question asked before it -/
def propose : Gate OpError Asked Proposal := do
  Gate.ask (refuseAgentBringBack via)
  Gate.ask (OpError.lift z.owned)
  let comparison ← Gate.ask (OpError.lift (compareWorkspace x j s))
  Gate.ask (refuseConflicts comparison)
  Gate.ask (refuseEmpty w comparison)
  let change ← Gate.ask (OpError.lift z.openChange)
  Gate.ask (refuseOpen w change)
  let trees := s.trees.getD ⟨.empty, .empty, .empty⟩
  let _ ← Gate.each (proposeFile x j z c project trees) comparison.files
  Gate.ask (OpError.lift z.createPullRequest)
  return proposalOf project w s comparison.files

end

/-! ## what was vetted -/

section
variable (x : Texts) (j : JcAccess) (project : String) (t : Trees)

/-- a path the branch changes was listed, held to the verb of its operation against its own
document, and where it holds a manifest that stays, checked again -/
def Vetted (files : List ChangeFile) (log : List Asked) (path : String) : Prop :=
  ∃ file ∈ files, file.path = path ∧ file.operation = operationAt t path ∧
    .check ⟨project, file.kind, verbOf file.operation, docOf x path (sideFiles t file.operation)⟩
      ∈ log ∧
    ∀ doc, file.operation ≠ .delete → docOf x path t.ours = some doc →
      .recheck path doc file.operation ∈ log

def kindAt (path : String) : Option String :=
  kindOf x j path (docOf x path t.ours) (docOf x path t.base)

end

section
variable {x : Texts} {j : JcAccess} {z : Asks} {c : Caller} {via : Via} {project : String}
  {w : Workspace} {s : Site} {t : Trees}

/-- one file held: the questions its operation asks were answered -/
theorem proposeFile_ok {file : ChangeFile} {u : Unit} {log : List Asked}
    (h : proposeFile x j z c project t file = Gate.ok u log) :
    .check ⟨project, file.kind, verbOf file.operation,
        docOf x file.path (sideFiles t file.operation)⟩ ∈ log ∧
      ∀ doc, file.operation ≠ .delete → docOf x file.path t.ours = some doc →
        .recheck file.path doc file.operation ∈ log := by
  unfold proposeFile at h
  obtain ⟨doc, l1, r1, h1, g1, rfl⟩ := Gate.bind_eq_ok.mp h
  obtain ⟨_, l2, r2, h2, g2, rfl⟩ := Gate.bind_eq_ok.mp g1
  obtain ⟨hdoc, rfl⟩ := Gate.ask_eq_ok.mp h1
  obtain ⟨-, rfl⟩ := Gate.hold_eq_ok.mp h2
  have hside : doc = docOf x file.path (sideFiles t file.operation) :=
    document_ok (lift_eq_ok.mp hdoc)
  rw [← hside]
  refine ⟨by simp, ?_⟩
  intro doc' hkeeps hours
  -- a file that stays is judged by the branch, so its document is the one checked again
  have hdoc' : doc = some doc' := by rwa [hside, sideFiles, if_neg hkeeps]
  rw [hdoc', recheckFile, if_neg hkeeps] at g2
  obtain ⟨_, l3, r3, -, h4, rfl⟩ := Gate.bind_eq_ok.mp g2
  obtain ⟨-, rfl⟩ := Gate.hold_eq_ok.mp h4
  simp

/-- **A bring-back**: the comparison it was made of, and the questions of each of its files. -/
theorem propose_ok {change : Proposal} {log : List Asked}
    (h : propose x j z c via project w s = Gate.ok change log) :
    ∃ comparison, compareWorkspace x j s = .ok comparison ∧ comparison.files ≠ [] ∧
      ∀ file ∈ comparison.files, ∃ fileLog, fileLog ⊆ log ∧
        proposeFile x j z c project (s.trees.getD ⟨.empty, .empty, .empty⟩) file
          = Gate.ok () fileLog := by
  unfold propose at h
  obtain ⟨_, l1, r1, -, g1, rfl⟩ := Gate.bind_eq_ok.mp h
  obtain ⟨_, l2, r2, -, g2, rfl⟩ := Gate.bind_eq_ok.mp g1
  obtain ⟨comparison, l3, r3, h3, g3, rfl⟩ := Gate.bind_eq_ok.mp g2
  obtain ⟨_, l4, r4, -, g4, rfl⟩ := Gate.bind_eq_ok.mp g3
  obtain ⟨_, l5, r5, h5, g5, rfl⟩ := Gate.bind_eq_ok.mp g4
  obtain ⟨_, l6, r6, -, g6, rfl⟩ := Gate.bind_eq_ok.mp g5
  obtain ⟨_, l7, r7, -, g7, rfl⟩ := Gate.bind_eq_ok.mp g6
  obtain ⟨us, l8, r8, h8, -, rfl⟩ := Gate.bind_eq_ok.mp g7
  refine ⟨comparison, lift_eq_ok.mp (Gate.ask_eq_ok.mp h3).1, ?_, ?_⟩
  · intro hempty
    have hok := (Gate.ask_eq_ok.mp h5).1
    rw [refuseEmpty, if_pos hempty] at hok
    exact absurd hok (by simp)
  · intro file hfile
    obtain ⟨rs, hrs, -, rfl⟩ := Gate.each_eq_ok.mp h8
    obtain ⟨r, hr, hheld⟩ := Gate.exists_of_forall₂ hrs hfile
    refine ⟨r.2, ?_, hheld⟩
    intro asked hasked
    have hin : asked ∈ rs.flatMap Prod.snd := List.mem_flatMap.mpr ⟨r, hr, hasked⟩
    simp [hin]

theorem row_iff {path : String} {row : Option ChangeFile × Option FileConflict}
    (h : compareFile x j t path = .ok row) :
    (kindAt x j t path = none → row.1 = none) ∧
      (kindAt x j t path ≠ none →
        ∃ lane kind, row.1 = some ⟨path, lane, kind, operationAt t path⟩) := by
  obtain ⟨oursDoc, baseDoc, hours, hbase, hnone, hsome, -⟩ := compareFile_ok h
  rw [document_ok hours, document_ok hbase] at hnone hsome
  constructor
  · intro hk
    rw [hnone hk]
  · intro hk
    obtain ⟨kind, hkind⟩ := Option.ne_none_iff_exists'.mp hk
    obtain ⟨lane, hrow⟩ := hsome kind hkind
    exact ⟨lane, kind, hrow⟩

theorem listed_iff {comparison : Comparison} (h : compareWorkspace x j s = .ok comparison)
    (ht : s.trees = some t) {path : String} (hpath : t.ours.get? path ≠ t.base.get? path) :
    (∃ file ∈ comparison.files, file.path = path ∧ file.operation = operationAt t path) ↔
      kindAt x j t path ≠ none := by
  obtain ⟨rows, hrows, rfl⟩ := compareWorkspace_ok h ht
  constructor
  · intro hlisted hkind
    obtain ⟨file, hfile, hat, -⟩ := hlisted
    obtain ⟨row, hrow, hlist⟩ := List.mem_filterMap.mp hfile
    obtain ⟨path', -, hcompare⟩ := Gate.exists_of_forall₂ hrows.flip hrow
    obtain ⟨hnone, hsome⟩ := row_iff hcompare
    by_cases hk : kindAt x j t path' = none
    · exact absurd ((hnone hk).symm.trans hlist) (by simp)
    · obtain ⟨lane, kind, hsome⟩ := hsome hk
      obtain rfl := Option.some.inj (hsome.symm.trans hlist)
      rw [show path' = path from hat] at hk
      exact hk hkind
  · intro hkind
    obtain ⟨row, hrow, hcompare⟩ := Gate.exists_of_forall₂ hrows (mem_touched.mpr hpath)
    obtain ⟨lane, kind, hfile⟩ := (row_iff hcompare).2 hkind
    exact ⟨_, List.mem_filterMap.mpr ⟨row, hrow, hfile⟩, rfl, rfl⟩

/-- **A bring-back checks what it changes** exactly when every path that differs has a kind. -/
theorem bring_back_checked {change : Proposal} {log : List Asked} {comparison : Comparison}
    (h : propose x j z c via project w s = Gate.ok change log) (ht : s.trees = some t)
    (hc : compareWorkspace x j s = .ok comparison) :
    (∀ path, t.ours.get? path ≠ t.base.get? path →
      Vetted x project t comparison.files log path) ↔
    ∀ path, t.ours.get? path ≠ t.base.get? path → kindAt x j t path ≠ none := by
  obtain ⟨comparison', hc', -, hfiles⟩ := propose_ok h
  cases hc.symm.trans hc'
  rw [ht, Option.getD_some] at hfiles
  refine forall_congr' (fun path => imp_congr_right (fun hpath => ?_))
  rw [← listed_iff hc ht hpath]
  constructor
  · intro hvetted
    obtain ⟨file, hfile, hat, hop, -⟩ := hvetted
    exact ⟨file, hfile, hat, hop⟩
  · intro hlisted
    obtain ⟨file, hfile, rfl, hop⟩ := hlisted
    obtain ⟨fileLog, hsub, hheld⟩ := hfiles file hfile
    obtain ⟨hcheck, hrecheck⟩ := proposeFile_ok hheld
    exact ⟨file, hfile, rfl, hop, hsub hcheck,
      fun doc hkeeps hdoc => hsub (hrecheck doc hkeeps hdoc)⟩

end

/-! ## a dashboard and a note -/

def dashboardTexts : Texts where
  document content := if content = manifestText "Dashboard" "p" "a" then
    some (plainEnvelope "Dashboard" "p" "a").toValue else none
  envelope doc := if doc = (plainEnvelope "Dashboard" "p" "a").toValue then
    some (plainEnvelope "Dashboard" "p" "a") else none
  toText _ := .error "unexpected document"
  format _ := none

def anasWorkspace : Workspace := ⟨"w", none, "ana"⟩

/-- a workspace of an empty `main` that adds these files beside a dashboard -/
def dashboardAnd (others : List (String × Blob)) : Site where
  revision _ := .empty
  head := "r0"
  branch := some (OrdMap.ofList
    ((dashboardPath "a", .text (manifestText "Dashboard" "p" "a")) :: others))
  baseRevision := "r0"

/-- what a bring-back of the dashboard asks -/
def dashboardAsked : List Asked :=
  let doc := (plainEnvelope "Dashboard" "p" "a").toValue
  [.check ⟨"p", "Dashboard", .propose, some doc⟩, .recheck (dashboardPath "a") doc .create]

def dashboardFiles : List ChangeFile := [⟨dashboardPath "a", .green, "Dashboard", .create⟩]

/-- the two trees of such a workspace -/
def dashboardTrees (others : List (String × Blob)) : Trees :=
  ⟨OrdMap.ofList ((dashboardPath "a", .text (manifestText "Dashboard" "p" "a")) :: others), .empty,
    .empty⟩

theorem bring_back_checked_of_dashboard :
    propose dashboardTexts plainJc plainAsks (anaWith ["propose"]) .session "p" anasWorkspace
      (dashboardAnd []) = Gate.ok (proposalOf "p" anasWorkspace (dashboardAnd []) dashboardFiles)
        dashboardAsked ∧
    ∀ path, (dashboardTrees []).ours.get? path ≠ (dashboardTrees []).base.get? path →
      Vetted dashboardTexts "p" (dashboardTrees []) dashboardFiles dashboardAsked path := by
  have hopens : propose dashboardTexts plainJc plainAsks (anaWith ["propose"]) .session "p"
      anasWorkspace (dashboardAnd []) = Gate.ok
        (proposalOf "p" anasWorkspace (dashboardAnd []) dashboardFiles) dashboardAsked := by
    decide +kernel
  have hfiles : compareWorkspace dashboardTexts plainJc (dashboardAnd [])
      = .ok ⟨dashboardFiles, []⟩ := by
    decide +kernel
  have htrees : (dashboardAnd []).trees = some (dashboardTrees []) := rfl
  refine ⟨hopens, (bring_back_checked hopens htrees hfiles).mpr ?_⟩
  intro path hpath
  have hmem := mem_touched.mpr hpath
  rw [show touched (dashboardTrees []) = [dashboardPath "a"] by decide +kernel,
    List.mem_singleton] at hmem
  rw [hmem]
  decide +kernel

def note : List (String × Blob) := [("README.md", .text "about this project")]

/-- **A file without a kind rides along**: the pull request carries it, nothing was asked of it. -/
theorem kindless_rides_along :
    propose dashboardTexts plainJc plainAsks (anaWith ["propose"]) .session "p" anasWorkspace
      (dashboardAnd note)
        = Gate.ok (proposalOf "p" anasWorkspace (dashboardAnd note) dashboardFiles) dashboardAsked ∧
    compareWorkspace dashboardTexts plainJc (dashboardAnd note) = .ok ⟨dashboardFiles, []⟩ ∧
    (dashboardAnd note).trees = some (dashboardTrees note) ∧
    (dashboardTrees note).ours.get? "README.md" ≠ (dashboardTrees note).base.get? "README.md" ∧
    kindAt dashboardTexts plainJc (dashboardTrees note) "README.md" = none ∧
    ¬ Vetted dashboardTexts "p" (dashboardTrees note) dashboardFiles dashboardAsked
      "README.md" := by
  refine ⟨by decide +kernel, by decide +kernel, rfl, by decide +kernel, by decide +kernel, ?_⟩
  intro h
  obtain ⟨file, hfile, hpath, -⟩ := h
  rw [List.mem_singleton.mp hfile] at hpath
  exact absurd hpath (by decide +kernel)

end Workspaces
end Portal
