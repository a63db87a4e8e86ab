import Mathlib.Data.String.Basic
import Portal.Base.Blanks
import Portal.Base.OrdMap
import Portal.Base.Pieces

/-!
# SEARCH/REPLACE blocks (`agents/patch.rs`)

A block names a file, the lines to find there and what to put in their place.  Texts are lists of
characters and positions count them; the two patterns a SEARCH is looked for with are the `regex`
crate's to match.

* `findAll`, `locate`         where a SEARCH is found, plain or between two anchors;
* `applyBlock`, `applyWhere`  one block, and all of them in order;
* `Occurs`, `Located`         what a found region is;
* `Landed`                    what one block does to the files;
* `applyWhere_lands`          **every block lands as its outcome says, where it may**.
-/

namespace Portal

namespace Agents

open Text

/-! ## the source -/

/-- the line that splits an anchored SEARCH into its start and its end -/
def gapLine : List Char := "@@QZXJK@@".toList

structure Block where
  path : String
  search : List Char
  replace : List Char

structure Applied where
  path : String
  how : String
deriving DecidableEq

structure Refused where
  path : String
  reason : String
deriving DecidableEq

abbrev Files := OrdMap String (List Char)

/-- whole lines as they stand, or with any run of whitespace for any other -/
inductive How where
  | exact
  | fuzzy
deriving DecidableEq

def How.label : How → String
  | .exact => "Exact"
  | .fuzzy => "Fuzzy"

/-- `find_iter` of the pattern of a block over a text: the matches, from where to where; none where the
pattern does not compile -/
structure Engine where
  findIter : How → List Char → List Char → List (Nat × Nat)

def trimMatches (p : Char → Bool) (s : List Char) : List Char :=
  ((s.dropWhile p).reverse.dropWhile p).reverse

def isPath (line : List Char) : Bool :=
  let line := trimMatches (fun c => c = '`' || c = '\'' || c = '"') (trim line)
  !line.isEmpty && !line.any isWhitespace && line.any (fun c => c = '/' || c = '.')
    && !(line.getLast? = some '.')

def blank (s : List Char) : Bool := (trim s).isEmpty

/-- the line break a match ends with is not part of the region -/
def region (content : List Char) (m : Nat × Nat) : Nat × Nat :=
  (m.1, m.2 - if (content.take m.2).getLast? = some '\n' then 1 else 0)

section
variable (e : Engine)

def hits (how : How) (content block : List Char) : List (Nat × Nat) :=
  (e.findIter how block content).map (region content)

/-- every region of a block: the exact ones, or else the fuzzy ones -/
def findAll (content block : List Char) : Option How × List (Nat × Nat) :=
  if hits e .exact content block ≠ [] then (some .exact, hits e .exact content block)
  else if hits e .fuzzy content block ≠ [] then (some .fuzzy, hits e .fuzzy content block)
  else (none, [])

def labelOf (how : Option How) : String := (how.map How.label).getD "none"

def anchors (block : List Char) : Option (List Char × List Char) :=
  let lines := split (· = '\n') block
  (lines.findIdx? (fun line => trim line = gapLine)).map
    (fun gap => (['\n'].intercalate (lines.take gap), ['\n'].intercalate (lines.drop (gap + 1))))

def noMatch : String := "No match"

/-- the region a SEARCH names -/
def locate (content block : List Char) : Except String (Nat × Nat × String) :=
  match anchors block with
  | none =>
    match findAll e content block with
    | (_, []) => .error noMatch
    | (how, [(start, stop)]) => .ok (start, stop, labelOf how)
    | (how, many) => .error ("Ambiguous - " ++ toString many.length ++ " " ++
        (labelOf how).toLower ++ " matches")
  | some (head, tail) =>
    if blank head || blank tail then
      .error ("Anchor missing - need lines before and after " ++ String.ofList gapLine)
    else
      match findAll e content head with
      | (_, []) => .error "Start anchor not found"
      | (how, [(start, afterHead)]) =>
        match (findAll e content tail).2.find? (fun m => afterHead ≤ m.1) with
        | none => .error "End anchor not found after start anchor"
        | some (_, stop) => .ok (start, stop, "Anchored/" ++ labelOf how)
      | (_, many) => .error ("Ambiguous start anchor - " ++ toString many.length ++ " matches")

/-- within a tenth of the file's length, in bytes -/
def nearlyWhole (search content : List Char) : Bool :=
  9 * utf8Len content ≤ 10 * utf8Len search && 10 * utf8Len search ≤ 11 * utf8Len content

/-- the file a block is for; `none` where it names none and its SEARCH is not in exactly one -/
def target (files : Files) (block : Block) : Except String String :=
  if !isPath block.path.toList && !blank block.search then
    match (files.toList.filter (fun f => (findAll e f.2 block.search).2 ≠ [])).map Prod.fst with
    | [only] => .ok only
    | found => .error ("no path line before <<<<<<< SEARCH and the SEARCH text is in " ++
        toString found.length ++ " files")
  else .ok block.path

/-- relative and free of `..` -/
def relative (path : String) : Bool :=
  path ≠ "" && !startsWith "/" path && !(split (· = '/') path.toList).any (fun part => part = "..".toList)

/-- a deletion takes the line break with it -/
def stopOf (content replace : List Char) (stop : Nat) : Nat :=
  if replace.isEmpty && (content.drop stop).head? = some '\n' then stop + 1 else stop

def rewrite (files : Files) (path how : String) (replace : List Char) :
    Files × Except Refused Applied :=
  (files.insert path (replace ++ ['\n']), .ok ⟨path, how⟩)

def applyTo (files : Files) (block : Block) (path : String) : Files × Except Refused Applied :=
  if blank block.search then
    rewrite files path (if (files.get? path).isSome then "Replaced" else "Created") block.replace
  else
    match files.get? path with
    | none => (files, .error ⟨path, "file not found (non-empty SEARCH)"⟩)
    | some content =>
      match locate e content block.search with
      | .ok (start, stop, how) =>
        (files.insert path (content.take start ++ block.replace ++
            content.drop (stopOf content block.replace stop)),
          .ok ⟨path, if block.replace.isEmpty then "Deleted" else how⟩)
      | .error reason =>
        if reason = noMatch && nearlyWhole block.search content then
          rewrite files path "Rewrote (SEARCH ~ whole file, no exact match)" block.replace
        else (files, .error ⟨path, reason⟩)

def applyBlock (allowed : String → Bool) (refusal : String) (files : Files) (block : Block) :
    Files × Except Refused Applied :=
  match target e files block with
  | .error reason => (files, .error ⟨block.path, reason⟩)
  | .ok path =>
    if !relative path || !allowed path then (files, .error ⟨block.path, refusal⟩)
    else applyTo e files block path

/-- the files and the two lists, as the loop keeps them -/
structure Patching where
  files : Files
  applied : List Applied
  refused : List Refused

def Patching.push (s : Patching) (step : Files × Except Refused Applied) : Patching :=
  match step.2 with
  | .ok applied => ⟨step.1, s.applied ++ [applied], s.refused⟩
  | .error refused => ⟨step.1, s.applied, s.refused ++ [refused]⟩

def applyWhere (files : Files) (blocks : List Block) (allowed : String → Bool) (refusal : String) :
    Patching :=
  blocks.foldl (fun s block => s.push (applyBlock e allowed refusal s.files block)) ⟨files, [], []⟩

end

/-! ## what a region is -/

def slice (content : List Char) (start stop : Nat) : List Char := (content.drop start).take (stop - start)

/-- what the `regex` crate documents of the two patterns: a match lies in the text, reads as the block
does and stands on whole lines -/
structure Documented (e : Engine) : Prop where
  bounded : ∀ how block content m, m ∈ e.findIter how block content →
    m.1 ≤ m.2 ∧ m.2 ≤ content.length
  words : ∀ how block content m, m ∈ e.findIter how block content →
    splitWhitespace (slice content m.1 m.2) = splitWhitespace block
  literal : ∀ block content m, m ∈ e.findIter .exact block content →
    slice content m.1 m.2 = block ∨ slice content m.1 m.2 = block ++ ['\n']
  lineStart : ∀ how block content m, m ∈ e.findIter how block content →
    m.1 = 0 ∨ content[m.1 - 1]? = some '\n'
  lineEnd : ∀ how block content m, m ∈ e.findIter how block content →
    m.2 = content.length ∨ content[m.2 - 1]? = some '\n'

/-- from `start` to `stop` there is the block, on whole lines; one that ends with a line break may end
with the text instead -/
structure Occurs (content block : List Char) (how : How) (start stop : Nat) : Prop where
  bounded : start ≤ stop ∧ stop ≤ content.length
  words : splitWhitespace (slice content start stop) = splitWhitespace block
  literal : how = .exact → slice content start stop = block ∨
    slice content start stop ++ ['\n'] = block
  lineStart : start = 0 ∨ content[start - 1]? = some '\n'
  lineEnd : stop = content.length ∨ content[stop]? = some '\n'

theorem exists_piece {p : Char → Bool} {c : Char} {s : List Char} (hc : c ∈ s) (hp : p c = false) :
    ∃ w ∈ split p s, c ∈ w := by
  induction s with
  | nil => exact absurd hc List.not_mem_nil
  | cons d s ih =>
    unfold split
    by_cases hd : p d = true
    · rw [if_pos hd]
      rcases List.mem_cons.1 hc with rfl | hc
      · rw [hp] at hd
        exact absurd hd Bool.false_ne_true
      · obtain ⟨w, hw, hcw⟩ := ih hc
        exact ⟨w, List.mem_cons_of_mem _ hw, hcw⟩
    · rw [if_neg hd]
      cases hs : split p s with
      | nil => exact absurd hs (split_ne_nil p s)
      | cons v ws =>
        rcases List.mem_cons.1 hc with rfl | hc
        · exact ⟨c :: v, List.mem_cons_self .., List.mem_cons_self ..⟩
        · obtain ⟨w, hw, hcw⟩ := ih hc
          rw [hs] at hw
          rcases List.mem_cons.1 hw with rfl | hw
          · exact ⟨d :: w, List.mem_cons_self .., List.mem_cons_of_mem d hcw⟩
          · exact ⟨w, List.mem_cons_of_mem _ hw, hcw⟩

theorem words_ne_nil {s : List Char} (h : blank s = false) : splitWhitespace s ≠ [] := by
  have hblank : ¬ Blank s := by
    rw [← trim_eq_nil]
    intro hnil
    rw [blank, hnil] at h
    exact nomatch h
  obtain ⟨c, hc, hword⟩ : ∃ c ∈ s, isWhitespace c = false := by
    simpa [Blank] using hblank
  obtain ⟨w, hw, hcw⟩ := exists_piece hc hword
  have hne : w.isEmpty = false := List.isEmpty_eq_false_iff.2 (List.ne_nil_of_mem hcw)
  exact List.ne_nil_of_mem (List.mem_filter.2 ⟨hw, by rw [hne]; rfl⟩)

theorem words_break (s : List Char) : splitWhitespace (s ++ ['\n']) = splitWhitespace s := by
  unfold splitWhitespace
  rw [split_append_sep (by decide), List.filter_append]
  show _ ++ [] = _
  rw [List.append_nil]

theorem slice_eq (content : List Char) (start stop : Nat) :
    slice content start stop = (content.take stop).drop start := by
  rw [slice, List.drop_take]

theorem slice_concat {content : List Char} {start stop : Nat} (h : start < stop)
    (hle : stop ≤ content.length) (hlast : (content.take stop).getLast? = some '\n') :
    slice content start stop = slice content start (stop - 1) ++ ['\n'] := by
  obtain ⟨ys, hys⟩ := List.getLast?_eq_some_iff.1 hlast
  have hlen : ys.length = stop - 1 := by
    have := congrArg List.length hys
    rw [List.length_take, List.length_append, List.length_singleton] at this
    omega
  have htake : content.take (stop - 1) = ys := by
    have hmin : content.take (stop - 1) = (content.take stop).take (stop - 1) := by
      rw [List.take_take, Nat.min_eq_left (by omega)]
    rw [hmin, hys, ← hlen, List.take_left]
  rw [slice_eq, slice_eq, hys, htake, List.drop_append_of_le_length (by omega)]

theorem getLast?_take {content : List Char} {stop : Nat} (hpos : 0 < stop)
    (hle : stop ≤ content.length) : (content.take stop).getLast? = content[stop - 1]? := by
  rw [List.getLast?_eq_getElem?, List.length_take, Nat.min_eq_left hle,
    List.getElem?_take_of_lt (by omega)]

theorem take_append_slice {content : List Char} {start stop : Nat} (hle : start ≤ stop) :
    content.take start ++ slice content start stop = content.take stop := by
  have htake : content.take start = (content.take stop).take start := by
    rw [List.take_take, Nat.min_eq_left hle]
  rw [slice_eq, htake, List.take_append_drop]

theorem occurs_region {e : Engine} (he : Documented e) {how : How} {content block : List Char}
    (hb : blank block = false) {m : Nat × Nat} (hm : m ∈ e.findIter how block content) :
    Occurs content block how (region content m).1 (region content m).2 := by
  obtain ⟨start, stop⟩ := m
  obtain ⟨hle, hlen⟩ := he.bounded how block content _ hm
  have hwords := he.words how block content _ hm
  have hstart := he.lineStart how block content _ hm
  have hend := he.lineEnd how block content _ hm
  have hlit := he.literal block content (start, stop)
  have hlt : start < stop := by
    by_contra hge
    have hnil : slice content start stop = [] := by
      rw [slice, Nat.sub_eq_zero_of_le (by omega), List.take_zero]
    rw [hnil] at hwords
    exact words_ne_nil hb (hwords.symm.trans rfl)
  unfold region
  by_cases hlast : (content.take stop).getLast? = some '\n'
  · have hslice := slice_concat hlt hlen hlast
    rw [if_pos hlast]
    refine ⟨by dsimp only; omega, ?_, fun hhow => ?_, hstart, Or.inr ?_⟩
    · rw [← words_break, ← hslice]
      exact hwords
    · subst hhow
      rw [hslice] at hlit
      rcases hlit hm with h | h
      · exact Or.inr h
      · exact Or.inl (List.append_cancel_right h)
    · rw [← hlast, getLast?_take (by omega) hlen]
  · rw [if_neg hlast]
    refine ⟨⟨hle, hlen⟩, hwords, fun hhow => ?_, hstart, Or.inl ?_⟩
    · subst hhow
      rcases hlit hm with h | h
      · exact Or.inl h
      · refine absurd ?_ hlast
        rw [← take_append_slice hle, h, ← List.append_assoc, List.getLast?_concat]
    · rcases hend with hend | hend
      · exact hend
      · exact absurd ((getLast?_take (by omega) hlen).trans hend) hlast

theorem occurs_of_findAll {e : Engine} (he : Documented e) {content block : List Char}
    (hb : blank block = false) {how : Option How} {l : List (Nat × Nat)} {m : Nat × Nat}
    (h : findAll e content block = (how, l)) (hm : m ∈ l) :
    ∃ how', how = some how' ∧ Occurs content block how' m.1 m.2 := by
  have hregion : ∀ how', m ∈ hits e how' content block → Occurs content block how' m.1 m.2 := by
    intro how' hmem
    obtain ⟨raw, hraw, rfl⟩ := List.mem_map.1 hmem
    exact occurs_region he hb hraw
  rw [findAll] at h
  split at h
  · obtain ⟨rfl, rfl⟩ := Prod.mk.inj h
    exact ⟨.exact, rfl, hregion _ hm⟩
  · split at h
    · obtain ⟨rfl, rfl⟩ := Prod.mk.inj h
      exact ⟨.fuzzy, rfl, hregion _ hm⟩
    · obtain ⟨rfl, rfl⟩ := Prod.mk.inj h
      exact absurd hm List.not_mem_nil

/-! ## what `locate` finds -/

/-- **the located occurrence**: the one region the SEARCH is in, or what stands from the one region its
lines before the gap are in to the first region after it that its lines after the gap are in -/
inductive Located (e : Engine) (content search : List Char) (start stop : Nat) : Prop
  | plain (how : How) : anchors search = none →
      findAll e content search = (some how, [(start, stop)]) →
      Occurs content search how start stop → Located e content search start stop
  | anchored (head tail : List Char) (how how' : How) (afterHead begins : Nat) :
      anchors search = some (head, tail) →
      findAll e content head = (some how, [(start, afterHead)]) →
      Occurs content head how start afterHead →
      (findAll e content tail).2.find? (fun m => afterHead ≤ m.1) = some (begins, stop) →
      Occurs content tail how' begins stop → Located e content search start stop

theorem located_of_locate {e : Engine} (he : Documented e) {content search : List Char}
    (hs : blank search = false) {start stop : Nat} {how : String}
    (h : locate e content search = .ok (start, stop, how)) : Located e content search start stop := by
  rw [locate] at h
  split at h
  · next hanchors =>
    split at h
    · exact nomatch h
    · next how' start' stop' hfind =>
      obtain ⟨rfl, hrest⟩ := Prod.mk.inj (Except.ok.inj h)
      obtain ⟨rfl, -⟩ := Prod.mk.inj hrest
      obtain ⟨how'', rfl, ho⟩ := occurs_of_findAll he hs hfind (List.mem_singleton_self _)
      exact .plain how'' hanchors hfind ho
    · exact nomatch h
  · next head tail hanchors =>
    split at h
    · exact nomatch h
    · next hblank =>
      rw [Bool.not_eq_true, Bool.or_eq_false_iff] at hblank
      split at h
      · exact nomatch h
      · next how' start' afterHead hfind =>
        split at h
        · exact nomatch h
        · next begins stop' hfound =>
          obtain ⟨rfl, hrest⟩ := Prod.mk.inj (Except.ok.inj h)
          obtain ⟨rfl, -⟩ := Prod.mk.inj hrest
          obtain ⟨how'', rfl, ho⟩ := occurs_of_findAll he hblank.1 hfind (List.mem_singleton_self _)
          obtain ⟨tailHow, -, ho'⟩ := occurs_of_findAll he hblank.2
            (rfl : findAll e content tail = (_, _)) (List.mem_of_find?_eq_some hfound)
          exact .anchored head tail how'' tailHow afterHead begins hanchors hfind ho hfound ho'
      · exact nomatch h

/-! ## what a block does -/

def Writable (allowed : String → Bool) (path : String) : Prop := relative path ∧ allowed path

/-- what an applied block makes of its file -/
inductive Written (e : Engine) (files : Files) (block : Block) (path : String) : List Char → Prop
  /-- an empty SEARCH creates or rewrites the file -/
  | whole : blank block.search → Written e files block path (block.replace ++ ['\n'])
  /-- the located occurrence is replaced; before it and after it the file stays -/
  | replaced (content : List Char) (start stop : Nat) : files.get? path = some content →
      Located e content block.search start stop → block.replace ≠ [] →
      Written e files block path (content.take start ++ block.replace ++ content.drop stop)
  /-- it is deleted, with a line break after it -/
  | deleted (content : List Char) (start stop : Nat) : files.get? path = some content →
      Located e content block.search start stop → block.replace = [] →
      Written e files block path (content.take start ++ content.drop (stopOf content [] stop))
  /-- a SEARCH of about the file's length that is nowhere in it rewrites the file -/
  | rewritten (content : List Char) : files.get? path = some content →
      locate e content block.search = .error noMatch → nearlyWhole block.search content →
      Written e files block path (block.replace ++ ['\n'])

/-- **what one block does**, by its outcome -/
inductive Landed (e : Engine) (allowed : String → Bool) (files : Files) (block : Block) :
    Except Refused Applied → Files → Prop
  | refused (r : Refused) : Landed e allowed files block (.error r) files
  | applied (a : Applied) (files' : Files) (text : List Char) : Writable allowed a.path →
      (∀ path, path ≠ a.path → files'.get? path = files.get? path) →
      files'.get? a.path = some text → Written e files block a.path text →
      Landed e allowed files block (.ok a) files'

theorem get?_insert_self (files : Files) (path : String) (text : List Char) :
    (files.insert path text).get? path = some text := by
  rw [OrdMap.get?_insert, if_pos rfl]

theorem get?_insert_other (files : Files) {path other : String} (text : List Char)
    (h : other ≠ path) : (files.insert path text).get? other = files.get? other := by
  rw [OrdMap.get?_insert, if_neg h]

theorem landed_insert {e : Engine} {allowed : String → Bool} {files : Files} {block : Block}
    {path how : String} {text : List Char} (hpath : Writable allowed path)
    (hw : Written e files block path text) :
    Landed e allowed files block (.ok ⟨path, how⟩) (files.insert path text) :=
  .applied ⟨path, how⟩ _ text hpath (fun _ hne => get?_insert_other files text hne)
    (get?_insert_self files path text) hw

theorem applyTo_lands {e : Engine} (he : Documented e) {allowed : String → Bool} {files : Files}
    {block : Block} {path : String} (hpath : Writable allowed path) :
    Landed e allowed files block (applyTo e files block path).2 (applyTo e files block path).1 := by
  unfold applyTo
  by_cases hs : blank block.search = true
  · rw [if_pos hs]
    exact landed_insert hpath (.whole hs)
  · rw [if_neg hs]
    rw [Bool.not_eq_true] at hs
    cases hget : files.get? path with
    | none => exact .refused _
    | some content =>
      cases hloc : locate e content block.search with
      | ok found =>
        obtain ⟨start, stop, how⟩ := found
        have hl := located_of_locate he hs hloc
        simp only [hloc]
        by_cases hr : block.replace = []
        · rw [hr, List.append_nil]
          exact landed_insert hpath (.deleted content start stop hget hl hr)
        · have hstop : stopOf content block.replace stop = stop := by
            rw [stopOf, List.isEmpty_eq_false_iff.2 hr]
            rfl
          rw [hstop]
          exact landed_insert hpath (.replaced content start stop hget hl hr)
      | error reason =>
        simp only [hloc]
        by_cases hn : (reason = noMatch && nearlyWhole block.search content) = true
        · rw [if_pos hn]
          rw [Bool.and_eq_true, decide_eq_true_eq] at hn
          rw [hn.1] at hloc
          exact landed_insert hpath (.rewritten content hget hloc hn.2)
        · rw [if_neg hn]
          exact .refused _

/-- **Step**: one block lands as its outcome says. -/
theorem applyBlock_lands {e : Engine} (he : Documented e) (allowed : String → Bool)
    (refusal : String) (files : Files) (block : Block) :
    Landed e allowed files block (applyBlock e allowed refusal files block).2
      (applyBlock e allowed refusal files block).1 := by
  unfold applyBlock
  cases target e files block with
  | error reason => exact .refused _
  | ok path =>
    by_cases hpath : (!relative path || !allowed path) = true
    · simp only [hpath, if_true]
      exact .refused _
    · simp only [hpath]
      rw [Bool.not_eq_true, Bool.or_eq_false_iff, Bool.not_eq_false', Bool.not_eq_false'] at hpath
      exact applyTo_lands he hpath

inductive Lands (e : Engine) (allowed : String → Bool) :
    Files → List Block → List (Except Refused Applied) → Files → Prop
  | nil (files : Files) : Lands e allowed files [] [] files
  | cons {files mid files' : Files} {block : Block} {blocks : List Block}
      {outcome : Except Refused Applied} {outcomes : List (Except Refused Applied)} :
      Landed e allowed files block outcome mid → Lands e allowed mid blocks outcomes files' →
      Lands e allowed files (block :: blocks) (outcome :: outcomes) files'

def appliedOf (outcome : Except Refused Applied) : Option Applied :=
  match outcome with
  | .ok a => some a
  | .error _ => none

def refusedOf (outcome : Except Refused Applied) : Option Refused :=
  match outcome with
  | .ok _ => none
  | .error r => some r

theorem Lands.length {e : Engine} {allowed : String → Bool} {files files' : Files}
    {blocks : List Block} {outcomes : List (Except Refused Applied)}
    (h : Lands e allowed files blocks outcomes files') : outcomes.length = blocks.length := by
  induction h with
  | nil => rfl
  | cons _ _ ih => rw [List.length_cons, List.length_cons, ih]

theorem Lands.frame {e : Engine} {allowed : String → Bool} {files files' : Files}
    {blocks : List Block} {outcomes : List (Except Refused Applied)}
    (h : Lands e allowed files blocks outcomes files') :
    (∀ a ∈ outcomes.filterMap appliedOf, Writable allowed a.path) ∧
    ∀ path, path ∉ (outcomes.filterMap appliedOf).map Applied.path →
      files'.get? path = files.get? path := by
  induction h with
  | nil files => exact ⟨fun a ha => absurd ha List.not_mem_nil, fun _ _ => rfl⟩
  | @cons files mid files' block blocks outcome outcomes hstep _ ih =>
    cases hstep with
    | refused r => exact ih
    | applied a _ text hpath hframe _ _ =>
      rw [List.filterMap_cons_some (show appliedOf (.ok a) = some a from rfl)]
      constructor
      · intro b hb
        rcases List.mem_cons.1 hb with rfl | hb
        · exact hpath
        · exact ih.1 b hb
      · intro path hnot
        rw [List.map_cons, List.mem_cons, not_or] at hnot
        rw [ih.2 path hnot.2, hframe path hnot.1]

/-- **Run**: the loop pushes one outcome for each block. -/
theorem foldl_lands {e : Engine} (he : Documented e) (allowed : String → Bool) (refusal : String)
    (blocks : List Block) (s : Patching) :
    ∃ outcomes, Lands e allowed s.files blocks outcomes
        (blocks.foldl (fun s block => s.push (applyBlock e allowed refusal s.files block)) s).files ∧
      (blocks.foldl (fun s block => s.push (applyBlock e allowed refusal s.files block)) s).applied
        = s.applied ++ outcomes.filterMap appliedOf ∧
      (blocks.foldl (fun s block => s.push (applyBlock e allowed refusal s.files block)) s).refused
        = s.refused ++ outcomes.filterMap refusedOf := by
  induction blocks generalizing s with
  | nil => exact ⟨[], .nil s.files, by simp, by simp⟩
  | cons block blocks ih =>
    have hstep := applyBlock_lands he allowed refusal s.files block
    obtain ⟨outcomes, hl, ha, hr⟩ := ih (s.push (applyBlock e allowed refusal s.files block))
    rw [List.foldl_cons]
    cases hout : (applyBlock e allowed refusal s.files block).2 with
    | ok a =>
      rw [hout] at hstep
      have hpush : s.push (applyBlock e allowed refusal s.files block)
          = ⟨(applyBlock e allowed refusal s.files block).1, s.applied ++ [a], s.refused⟩ := by
        unfold Patching.push
        rw [hout]
      refine ⟨.ok a :: outcomes, .cons hstep ?_, ?_, ?_⟩
      · rw [hpush] at hl ⊢
        exact hl
      · rw [ha, hpush, List.filterMap_cons_some (show appliedOf (.ok a) = some a from rfl),
          List.append_assoc]
        rfl
      · rw [hr, hpush, List.filterMap_cons_none (show refusedOf (.ok a) = none from rfl)]
    | error r =>
      rw [hout] at hstep
      have hpush : s.push (applyBlock e allowed refusal s.files block)
          = ⟨(applyBlock e allowed refusal s.files block).1, s.applied, s.refused ++ [r]⟩ := by
        unfold Patching.push
        rw [hout]
      refine ⟨.error r :: outcomes, .cons hstep ?_, ?_, ?_⟩
      · rw [hpush] at hl ⊢
        exact hl
      · rw [ha, hpush, List.filterMap_cons_none (show appliedOf (.error r) = none from rfl)]
      · rw [hr, hpush, List.filterMap_cons_some (show refusedOf (.error r) = some r from rfl),
          List.append_assoc]
        rfl

/-- **Blocks touch what they may**: there is one outcome for each block, in order, and each block lands
as its outcome says; the two lists are the outcomes'; every path that changes is one an applied outcome
names, and those may be written. -/
theorem applyWhere_lands {e : Engine} (he : Documented e) (files : Files) (blocks : List Block)
    (allowed : String → Bool) (refusal : String) :
    ∃ outcomes, Lands e allowed files blocks outcomes
        (applyWhere e files blocks allowed refusal).files ∧
      outcomes.length = blocks.length ∧
      (applyWhere e files blocks allowed refusal).applied = outcomes.filterMap appliedOf ∧
      (applyWhere e files blocks allowed refusal).refused = outcomes.filterMap refusedOf ∧
      (∀ a ∈ (applyWhere e files blocks allowed refusal).applied, Writable allowed a.path) ∧
      ∀ path, path ∉ (applyWhere e files blocks allowed refusal).applied.map Applied.path →
        (applyWhere e files blocks allowed refusal).files.get? path = files.get? path := by
  obtain ⟨outcomes, hl, ha, hr⟩ := foldl_lands he allowed refusal blocks ⟨files, [], []⟩
  have ha' : (applyWhere e files blocks allowed refusal).applied = outcomes.filterMap appliedOf := ha
  refine ⟨outcomes, hl, hl.length, ha', hr, ?_, ?_⟩
  · rw [ha']
    exact hl.frame.1
  · rw [ha']
    exact hl.frame.2

/-! ## where more than the occurrence goes -/

/-- whether a region of the length of the block begins at `i`, and where the match ends -/
def lineAt (block content : List Char) (i : Nat) : Option (Nat × Nat) :=
  if (i = 0 ∨ content[i - 1]? = some '\n') ∧ block <+: content.drop i then
    if content[i + block.length]? = some '\n' then some (i, i + block.length + 1)
    else if i + block.length = content.length then some (i, i + block.length)
    else none
  else none

/-- the exact pattern, on texts where no two occurrences overlap and where the fuzzy one has none -/
def lineScan : Engine where
  findIter
    | .exact, block, content => (List.range (content.length + 1)).filterMap (lineAt block content)
    | .fuzzy, _, _ => []

theorem lineAt_spec {block content : List Char} {i : Nat} {m : Nat × Nat}
    (h : lineAt block content i = some m) :
    (i = 0 ∨ content[i - 1]? = some '\n') ∧ m.1 = i ∧ i + block.length ≤ content.length ∧
      (content.drop i).take block.length = block ∧
      ((content[i + block.length]? = some '\n' ∧ m.2 = i + block.length + 1) ∨
        (i + block.length = content.length ∧ m.2 = i + block.length)) := by
  unfold lineAt at h
  split at h
  · next hc =>
    have htake := List.prefix_iff_eq_take.1 hc.2
    split at h
    · next hbreak =>
      obtain rfl := Option.some.inj h
      obtain ⟨hlt, -⟩ := List.getElem?_eq_some_iff.1 hbreak
      exact ⟨hc.1, rfl, by omega, htake.symm, Or.inl ⟨hbreak, rfl⟩⟩
    · split at h
      · next hend =>
        obtain rfl := Option.some.inj h
        exact ⟨hc.1, rfl, by omega, htake.symm, Or.inr ⟨hend, rfl⟩⟩
      · exact nomatch h
  · exact nomatch h

theorem slice_line {block content : List Char} {i : Nat} {m : Nat × Nat}
    (h : lineAt block content i = some m) :
    slice content m.1 m.2 = block ∨ slice content m.1 m.2 = block ++ ['\n'] := by
  obtain ⟨-, h1, -, htake, ⟨hbreak, h2⟩ | ⟨-, h2⟩⟩ := lineAt_spec h
  · right
    have hlen : i + block.length + 1 - i = block.length + 1 := by omega
    rw [slice, h1, h2, hlen, List.take_add_one, htake, List.getElem?_drop, hbreak]
    rfl
  · left
    have hlen : i + block.length - i = block.length := by omega
    rw [slice, h1, h2, hlen, htake]

theorem lineScan_documented : Documented lineScan := by
  have hmem : ∀ how block content m, m ∈ lineScan.findIter how block content →
      ∃ i, lineAt block content i = some m := by
    intro how block content m hm
    cases how with
    | exact =>
      obtain ⟨i, -, hi⟩ := List.mem_filterMap.1 hm
      exact ⟨i, hi⟩
    | fuzzy => exact absurd hm List.not_mem_nil
  constructor
  · intro how block content m hm
    obtain ⟨i, hi⟩ := hmem how block content m hm
    obtain ⟨-, h1, hle, -, ⟨hbreak, h2⟩ | ⟨-, h2⟩⟩ := lineAt_spec hi
    · obtain ⟨hlt, -⟩ := List.getElem?_eq_some_iff.1 hbreak
      omega
    · omega
  · intro how block content m hm
    obtain ⟨i, hi⟩ := hmem how block content m hm
    rcases slice_line hi with h | h
    · rw [h]
    · rw [h, words_break]
  · intro block content m hm
    obtain ⟨i, hi⟩ := hmem .exact block content m hm
    exact slice_line hi
  · intro how block content m hm
    obtain ⟨i, hi⟩ := hmem how block content m hm
    obtain ⟨hstart, h1, -⟩ := lineAt_spec hi
    rw [h1]
    exact hstart
  · intro how block content m hm
    obtain ⟨i, hi⟩ := hmem how block content m hm
    obtain ⟨-, -, -, -, ⟨hbreak, h2⟩ | ⟨hend, h2⟩⟩ := lineAt_spec hi
    · right
      rw [h2, Nat.add_sub_cancel]
      exact hbreak
    · left
      rw [h2, hend]

theorem applyWhere_lands_of_lines :
    ∃ outcomes, Lands lineScan (fun path => path = "spec.json")
        (OrdMap.empty.insert "spec.json" "a\nb\nc\n".toList)
        [⟨"spec.json", "b".toList, "B".toList⟩, ⟨"../etc/passwd", [], "x".toList⟩] outcomes
        (applyWhere lineScan (OrdMap.empty.insert "spec.json" "a\nb\nc\n".toList)
          [⟨"spec.json", "b".toList, "B".toList⟩, ⟨"../etc/passwd", [], "x".toList⟩]
          (fun path => path = "spec.json") "not a file this run may write").files ∧
      outcomes.length = 2 :=
  (applyWhere_lands lineScan_documented _ _ _ _).imp (fun _ h => ⟨h.1, h.2.1⟩)

/-- an applied block with a SEARCH puts its text in the place of the located occurrence and of nothing
else -/
def OnlyTheOccurrence (e : Engine) (files : Files) (block : Block) : Prop :=
  ∀ a, (applyBlock e (fun _ => true) "" files block).2 = .ok a → blank block.search = false →
    ∃ content start stop, files.get? a.path = some content ∧
      Located e content block.search start stop ∧
      (applyBlock e (fun _ => true) "" files block).1.get? a.path
        = some (content.take start ++ block.replace ++ content.drop stop)

def oneFile (content : String) : Files := OrdMap.empty.insert "spec.json" content.toList

def deleteLine : Block := ⟨"spec.json", "b".toList, []⟩

/-- a SEARCH of the file's length that is not in it -/
def mistyped : Block := ⟨"spec.json", "title: Airs\nviews: 2".toList, "title: Wind".toList⟩

/-- a deletion takes the line break after the occurrence, and a SEARCH that is nowhere in the file
rewrites it -/
theorem more_than_the_occurrence :
    ¬ OnlyTheOccurrence lineScan (oneFile "a\nb\nc\n") deleteLine ∧
    ¬ OnlyTheOccurrence lineScan (oneFile "title: Air\nviews: 2\n") mistyped := by
  constructor
  · intro h
    obtain ⟨content, start, stop, hget, hl, hafter⟩ := h ⟨"spec.json", "Deleted"⟩
      (by decide +kernel) (by decide +kernel)
    have hcontent : (oneFile "a\nb\nc\n").get? "spec.json" = some "a\nb\nc\n".toList := by
      decide +kernel
    obtain rfl := Option.some.inj (hget.symm.trans hcontent)
    have hfind : findAll lineScan "a\nb\nc\n".toList deleteLine.search
        = (some .exact, [(2, 3)]) := by decide +kernel
    cases hl with
    | plain how _ hf _ =>
      rw [hfind] at hf
      obtain ⟨rfl, rfl⟩ : 2 = start ∧ 3 = stop := by
        simpa using (Prod.mk.inj hf).2
      exact absurd hafter (by decide +kernel)
    | anchored head tail how how' afterHead begins ha _ _ _ _ =>
      have hnone : anchors deleteLine.search = none := by decide +kernel
      rw [hnone] at ha
      exact nomatch ha
  · intro h
    obtain ⟨content, start, stop, hget, hl, -⟩ := h
      ⟨"spec.json", "Rewrote (SEARCH ~ whole file, no exact match)"⟩
      (by decide +kernel) (by decide +kernel)
    have hcontent : (oneFile "title: Air\nviews: 2\n").get? "spec.json"
        = some "title: Air\nviews: 2\n".toList := by decide +kernel
    obtain rfl := Option.some.inj (hget.symm.trans hcontent)
    have hfind : findAll lineScan "title: Air\nviews: 2\n".toList mistyped.search = (none, []) := by
      decide +kernel
    cases hl with
    | plain how _ hf _ =>
      rw [hfind] at hf
      exact nomatch hf
    | anchored head tail how how' afterHead begins ha _ _ _ _ =>
      have hnone : anchors mistyped.search = none := by decide +kernel
      rw [hnone] at ha
      exact nomatch ha

end Agents

end Portal
