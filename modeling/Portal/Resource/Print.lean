import Portal.Resource.Filter

/-!
# Printing a filter and reading it back (`resource/filter.rs`: `Filter::parse`)

The printer writes AND, OR and NOT as words, values in quotes with `"` and `\` escaped, and
parentheses only where the grammar needs them: around an AND inside an OR, and around either inside
a NOT.  An AND of ANDs is written flat, so what is read back may lean the other way; it evaluates
to the same.

* `Expr.text`, `Expr.toks`   the characters and the tokens of a tree;
* `lexes_text`     the characters are cut into the tokens;
* `reads_expr`     the tokens are parsed to a tree that evaluates to the same;
* `parse_print`    the round trip.
-/

namespace Portal
namespace Filter

/-! ## the printer -/

def Op.text : Op → List Char
  | .eq => ['=']
  | .ne => ['!', '=']
  | .lt => ['<']
  | .le => ['<', '=']
  | .gt => ['>']
  | .ge => ['>', '=']
  | .has => [':']

/-- how loosely the outermost operator binds: NOT and restrictions tightest, then OR, then AND -/
def Expr.level : Expr → Nat
  | .cmp _ _ _ | .not _ => 0
  | .or _ _ => 1
  | .and _ _ => 2

/-- the parts of a path with dots between them -/
def fieldText : List String → List Char
  | [] => []
  | [part] => part.toList
  | part :: path => part.toList ++ '.' :: fieldText path

def escape (value : List Char) : List Char :=
  value.flatMap (fun c => if c = '"' ∨ c = '\\' then ['\\', c] else [c])

def valueText : Option String → List Char
  | none => ['*']
  | some value => '"' :: (escape value.toList ++ ['"'])

/-- brackets around what binds more loosely than its place allows -/
def group {α : Type} (l r : α) (place : Nat) (e : Expr) (inner : List α) : List α :=
  if place < e.level then l :: (inner ++ [r]) else inner

def Expr.text : Expr → List Char
  | .and a b => a.text ++ [' ', 'A', 'N', 'D', ' '] ++ b.text
  | .or a b => group '(' ')' 1 a a.text ++ [' ', 'O', 'R', ' '] ++ group '(' ')' 1 b b.text
  | .not a => ['N', 'O', 'T', ' '] ++ group '(' ')' 0 a a.text
  | .cmp path op value => fieldText path ++ (op.text ++ valueText value)

def print (e : Expr) : String := String.ofList e.text

/-- the tokens of the printed text -/
def Expr.toks : Expr → List Tok
  | .and a b => a.toks ++ .and :: b.toks
  | .or a b => group .opening .closing 1 a a.toks ++ .or :: group .opening .closing 1 b b.toks
  | .not a => .not :: group .opening .closing 0 a a.toks
  | .cmp path op value => [.word (String.ofList (fieldText path)) false, .op op,
      .word (value.getD "*") value.isSome]

/-- a restriction the grammar admits: a dotted path of the kind that is written as a bare word and
read back as it is, and `*` only after `:` -/
def admitsCmp (schema : Option Value) (path : List String) (op : Op) (value : Option String) :
    Bool :=
  path ≠ [] && path.all (fun part => part ≠ "" && part.toList.all (fun c => isBare c && c ≠ '.'))
    && path.head? ≠ some "labels"
    && !(["AND", "OR", "NOT"].contains (String.ofList (fieldText path)))
    && known schema path && (value.isSome || op = .has)

def admits (schema : Option Value) : Expr → Bool
  | .and a b => admits schema a && admits schema b
  | .or a b => admits schema a && admits schema b
  | .not a => admits schema a
  | .cmp path op value => admitsCmp schema path op value

/-- no parentheses of the printed text stand deeper than the parser goes, NOTs and parentheses
counted alike -/
def fits (depth : Nat) : Expr → Bool
  | .and a b => fits depth a && fits depth b
  | .or a b =>
    (if 1 < a.level then depth + 1 ≤ maxDepth && fits (depth + 1) a else fits depth a) &&
    (if 1 < b.level then depth + 1 ≤ maxDepth && fits (depth + 1) b else fits depth b)
  | .not a => if 0 < a.level then depth + 2 ≤ maxDepth && fits (depth + 2) a else fits (depth + 1) a
  | .cmp _ _ _ => true

/-- the same for a tree at its place, with the parentheses it needs there -/
def fitsAt (place depth : Nat) (e : Expr) : Bool :=
  if place < e.level then depth + 1 ≤ maxDepth && fits (depth + 1) e else fits depth e

theorem fits_or (depth : Nat) (a b : Expr) :
    fits depth (.or a b) = (fitsAt 1 depth a && fitsAt 1 depth b) := rfl

theorem fits_not (depth : Nat) (a : Expr) : fits depth (.not a) = fitsAt 0 (depth + 1) a := rfl

/-! ## the characters are cut into the tokens -/

/-- a text is cut into tokens, whatever the positions of its characters -/
def Lexes (text : List Char) (toks : List Tok) : Prop :=
  ∀ chars : Chars, chars.map Prod.snd = text →
    ∃ ts, tokens chars = .ok ts ∧ ts.map Prod.snd = toks

/-- a bare word before `rest` ends there -/
def Boundary (rest : List Char) : Prop := ∀ c, rest.head? = some c → isBare c = false

theorem lexes_nil : Lexes [] [] := by
  intro chars h
  rw [List.map_eq_nil_iff.mp h]
  exact ⟨[], tokens_nil, rfl⟩

theorem lexes_cons {c : Char} {text rest : List Char} {tok : Option Tok} {toks : List Tok}
    (ht : ∀ pos (chars : Chars), chars.map Prod.snd = text →
      ∃ chars', token pos c chars = .ok (tok, chars') ∧ chars'.map Prod.snd = rest)
    (h : Lexes rest toks) : Lexes (c :: text) (tok.toList ++ toks) := by
  intro chars hc
  obtain ⟨⟨pos, c'⟩, chars, rfl, rfl, hcs⟩ := List.map_eq_cons_iff.mp hc
  obtain ⟨chars', h1, h2⟩ := ht pos chars hcs
  obtain ⟨ts, h3, h4⟩ := h chars' h2
  rw [tokens_cons, h1]
  simp only [h3]
  cases tok with
  | none => exact ⟨ts, rfl, h4⟩
  | some t => exact ⟨(pos, t) :: ts, rfl, by rw [List.map_cons, h4]; rfl⟩

theorem lexes_single (c : Char) (tok : Option Tok)
    (ht : ∀ pos chars, token pos c chars = .ok (tok, chars)) {text : List Char} {toks : List Tok}
    (h : Lexes text toks) : Lexes (c :: text) (tok.toList ++ toks) :=
  lexes_cons (fun pos chars hc => ⟨chars, ht pos chars, hc⟩) h

theorem lexes_blank {text : List Char} {toks : List Tok} (h : Lexes text toks) :
    Lexes (' ' :: text) toks := lexes_single ' ' none (fun _ _ => rfl) h

theorem lexes_opening {text : List Char} {toks : List Tok} (h : Lexes text toks) :
    Lexes ('(' :: text) (.opening :: toks) :=
  lexes_single '(' (some .opening) (fun _ _ => rfl) h

theorem lexes_closing {text : List Char} {toks : List Tok} (h : Lexes text toks) :
    Lexes (')' :: text) (.closing :: toks) :=
  lexes_single ')' (some .closing) (fun _ _ => rfl) h

theorem head?_chars {chars : Chars} {text : List Char} (h : chars.map Prod.snd = text) :
    chars.head?.map Prod.snd = text.head? := by
  rw [← h, List.head?_map]

/-- an operator of two characters takes its `=` along -/
theorem lexes_pair (c : Char) (op : Op)
    (ht : ∀ pos (chars : Chars), chars.head?.map Prod.snd = some '=' →
      token pos c chars = .ok (some (.op op), chars.tail)) {text : List Char} {toks : List Tok}
    (h : Lexes text toks) : Lexes (c :: '=' :: text) (.op op :: toks) := by
  show Lexes _ ((some (Tok.op op)).toList ++ toks)
  refine lexes_cons (fun pos chars hc => ⟨chars.tail, ht pos chars ?_, ?_⟩) h
  · rw [head?_chars hc]
    rfl
  · rw [List.map_tail, hc]
    rfl

/-- an operator of one character, before anything but `=` -/
theorem lexes_one (c : Char) (op : Op)
    (ht : ∀ pos (chars : Chars), chars.head?.map Prod.snd ≠ some '=' →
      token pos c chars = .ok (some (.op op), chars)) {text : List Char} {toks : List Tok}
    (hne : text.head? ≠ some '=') (h : Lexes text toks) :
    Lexes (c :: text) (.op op :: toks) := by
  show Lexes _ ((some (Tok.op op)).toList ++ toks)
  refine lexes_cons (fun pos chars hc => ⟨chars, ht pos chars ?_, hc⟩) h
  rw [head?_chars hc]
  exact hne

theorem lexes_op (op : Op) {text : List Char} {toks : List Tok} (hne : text.head? ≠ some '=')
    (h : Lexes text toks) : Lexes (op.text ++ text) (.op op :: toks) := by
  cases op with
  | eq => exact lexes_one '=' .eq (fun _ _ _ => rfl) hne h
  | has => exact lexes_one ':' .has (fun _ _ _ => rfl) hne h
  | ne => exact lexes_pair '!' .ne (fun _ _ he => by simp [token, Text.isWhitespace, he]) h
  | le => exact lexes_pair '<' .le (fun _ _ he => by simp [token, Text.isWhitespace, he]) h
  | ge => exact lexes_pair '>' .ge (fun _ _ he => by simp [token, Text.isWhitespace, he]) h
  | lt => exact lexes_one '<' .lt (fun _ _ he => by simp [token, Text.isWhitespace, he]) hne h
  | gt => exact lexes_one '>' .gt (fun _ _ he => by simp [token, Text.isWhitespace, he]) hne h

theorem quoted_close (pos p : Nat) (chars : Chars) :
    quoted pos ((p, '"') :: chars) = .ok ([], chars) := by
  rw [quoted.eq_def]
  rfl

theorem quoted_backslash (pos p p' : Nat) (c : Char) (chars : Chars) :
    quoted pos ((p, '\\') :: (p', c) :: chars)
      = (quoted pos chars).map (fun r => (c :: r.1, r.2)) := by
  rw [quoted.eq_def]
  rfl

theorem quoted_plain (pos p : Nat) {c : Char} (hq : c ≠ '"') (hb : c ≠ '\\') (chars : Chars) :
    quoted pos ((p, c) :: chars) = (quoted pos chars).map (fun r => (c :: r.1, r.2)) := by
  rw [quoted.eq_def]
  simp only
  rw [if_neg hq, if_neg hb]

theorem quoted_escape (pos : Nat) (value : List Char) {rest : List Char} (chars : Chars)
    (h : chars.map Prod.snd = escape value ++ '"' :: rest) :
    ∃ chars', quoted pos chars = .ok (value, chars') ∧ chars'.map Prod.snd = rest := by
  induction value generalizing chars with
  | nil =>
    obtain ⟨⟨p, c⟩, chars, rfl, rfl, hcs⟩ := List.map_eq_cons_iff.mp h
    exact ⟨chars, quoted_close pos p chars, hcs⟩
  | cons c value ih =>
    have he : escape (c :: value)
        = (if c = '"' ∨ c = '\\' then ['\\', c] else [c]) ++ escape value := rfl
    rw [he] at h
    by_cases hc : c = '"' ∨ c = '\\'
    · rw [if_pos hc] at h
      obtain ⟨⟨p, b⟩, chars, rfl, rfl, hcs⟩ := List.map_eq_cons_iff.mp h
      obtain ⟨⟨p', c'⟩, chars, rfl, rfl, hcs'⟩ := List.map_eq_cons_iff.mp hcs
      obtain ⟨chars', h1, h2⟩ := ih chars hcs'
      refine ⟨chars', ?_, h2⟩
      rw [quoted_backslash, h1]
      rfl
    · rw [if_neg hc] at h
      obtain ⟨⟨p, c'⟩, chars, rfl, rfl, hcs⟩ := List.map_eq_cons_iff.mp h
      obtain ⟨chars', h1, h2⟩ := ih chars hcs
      refine ⟨chars', ?_, h2⟩
      rw [quoted_plain pos p (fun e => hc (Or.inl e)) (fun e => hc (Or.inr e)), h1]
      rfl

theorem lexes_quoted (value : String) {text : List Char} {toks : List Tok} (h : Lexes text toks) :
    Lexes ('"' :: (escape value.toList ++ '"' :: text)) (.word value true :: toks) := by
  show Lexes _ ((some (Tok.word value true)).toList ++ toks)
  refine lexes_cons (fun pos chars hc => ?_) h
  obtain ⟨chars', h1, h2⟩ := quoted_escape pos value.toList chars hc
  refine ⟨chars', ?_, h2⟩
  show (quoted pos chars).map _ = _
  rw [h1]
  show Except.ok (some (Tok.word (String.ofList value.toList) true), chars') = _
  rw [String.ofList_toList]

theorem bare_of_map {word rest : List Char} (hw : ∀ c ∈ word, isBare c = true)
    (hb : Boundary rest) (chars : Chars) (h : chars.map Prod.snd = word ++ rest) :
    (bare chars).1 = word ∧ (bare chars).2.map Prod.snd = rest := by
  induction word generalizing chars with
  | nil =>
    rw [List.nil_append] at h
    cases chars with
    | nil => exact ⟨rfl, h⟩
    | cons p chars =>
      have hp : isBare p.2 = false := hb p.2 (by rw [← h]; rfl)
      unfold bare
      rw [List.takeWhile_cons_of_neg (by simp [hp]), List.dropWhile_cons_of_neg (by simp [hp])]
      exact ⟨rfl, h⟩
  | cons c word ih =>
    obtain ⟨p, chars, rfl, rfl, hcs⟩ := List.map_eq_cons_iff.mp h
    have hp : isBare p.2 = true := hw p.2 (List.mem_cons_self ..)
    obtain ⟨h1, h2⟩ := ih (fun d hd => hw d (List.mem_cons_of_mem _ hd)) chars hcs
    unfold bare
    rw [List.takeWhile_cons_of_pos (by exact hp), List.dropWhile_cons_of_pos (by exact hp)]
    exact ⟨by rw [List.map_cons]; exact congrArg (p.2 :: ·) h1, h2⟩

theorem lexes_word {word : List Char} (hne : word ≠ []) (hw : ∀ c ∈ word, isBare c = true)
    {text : List Char} {toks : List Tok} (hb : Boundary text) (h : Lexes text toks) :
    Lexes (word ++ text) (keyword (String.ofList word) :: toks) := by
  obtain ⟨c, word, rfl⟩ := List.exists_cons_of_ne_nil hne
  show Lexes (c :: (word ++ text)) ((some (keyword (String.ofList (c :: word)))).toList ++ toks)
  refine lexes_cons (fun pos chars hc => ?_) h
  obtain ⟨h1, h2⟩ := bare_of_map hw hb ((pos, c) :: chars) (by rw [List.map_cons, hc]; rfl)
  refine ⟨(bare ((pos, c) :: chars)).2, ?_, h2⟩
  rw [token_bare pos (hw c (List.mem_cons_self ..)), h1]

/-! ## the field of a restriction -/

section
variable {schema : Option Value} {path : List String} {op : Op} {value : Option String}

theorem admitsCmp_iff : admitsCmp schema path op value = true ↔
    path ≠ [] ∧ (∀ part ∈ path, part ≠ "" ∧ ∀ c ∈ part.toList, isBare c = true ∧ c ≠ '.') ∧
    path.head? ≠ some "labels" ∧ String.ofList (fieldText path) ∉ ["AND", "OR", "NOT"] ∧
    known schema path = true ∧ (value = none → op = .has) := by
  unfold admitsCmp
  cases value <;> simp [and_assoc]

theorem fieldText_cons (part : String) {path : List String} (h : path ≠ []) :
    fieldText (part :: path) = part.toList ++ '.' :: fieldText path := by
  obtain ⟨next, path, rfl⟩ := List.exists_cons_of_ne_nil h
  rfl

theorem fieldText_bare (h : ∀ part ∈ path, ∀ c ∈ part.toList, isBare c = true) :
    ∀ c ∈ fieldText path, isBare c = true := by
  induction path with
  | nil => exact fun c hc => absurd hc List.not_mem_nil
  | cons part path ih =>
    by_cases hn : path = []
    · subst hn
      exact h part (List.mem_cons_self ..)
    · rw [fieldText_cons part hn]
      intro c hc
      rcases List.mem_append.mp hc with hc | hc
      · exact h part (List.mem_cons_self ..) c hc
      · rcases List.mem_cons.mp hc with rfl | hc
        · rfl
        · exact ih (fun q hq => h q (List.mem_cons_of_mem _ hq)) c hc

theorem split_fieldText (hne : path ≠ []) (h : ∀ part ∈ path, ∀ c ∈ part.toList, c ≠ '.') :
    Text.split (· = '.') (fieldText path) = path.map String.toList := by
  induction path with
  | nil => exact absurd rfl hne
  | cons part path ih =>
    have hp : ∀ c ∈ part.toList, decide (c = '.') = false :=
      fun c hc => decide_eq_false (h part (List.mem_cons_self ..) c hc)
    by_cases hn : path = []
    · subst hn
      exact Text.split_of_none hp
    · rw [fieldText_cons part hn, Text.split_append hp (by rfl), List.map_cons,
        ih hn (fun q hq => h q (List.mem_cons_of_mem _ hq))]

theorem fieldText_ne_nil (hne : path ≠ []) (h : ∀ part ∈ path, part ≠ "") :
    fieldText path ≠ [] := by
  obtain ⟨part, path, rfl⟩ := List.exists_cons_of_ne_nil hne
  have hp : part.toList ≠ [] :=
    fun e => h part (List.mem_cons_self ..) (String.toList_eq_nil_iff.mp e)
  by_cases hn : path = []
  · subst hn
    exact hp
  · rw [fieldText_cons part hn]
    exact List.append_ne_nil_of_left_ne_nil hp _

theorem fieldPath_fieldText (hne : path ≠ [])
    (h : ∀ part ∈ path, part ≠ "" ∧ ∀ c ∈ part.toList, isBare c = true ∧ c ≠ '.')
    (hl : path.head? ≠ some "labels") :
    fieldPath (String.ofList (fieldText path)) = some path := by
  have hparts : (Text.split (· = '.') (String.ofList (fieldText path)).toList).map String.ofList
      = path := by
    rw [String.toList_ofList, split_fieldText hne (fun q hq c hc => ((h q hq).2 c hc).2),
      List.map_map]
    refine (List.map_congr_left (fun q _ => ?_)).trans (List.map_id _)
    exact String.ofList_toList
  have hany : path.any (fun part => decide (part = "")) = false := by
    rw [List.any_eq_false]
    exact fun q hq => by simpa using (h q hq).1
  unfold fieldPath
  simp only
  rw [hparts, hany, if_neg (by simp), if_neg hl]

theorem keyword_fieldText (h : String.ofList (fieldText path) ∉ ["AND", "OR", "NOT"]) :
    keyword (String.ofList (fieldText path)) = .word (String.ofList (fieldText path)) false := by
  simp only [List.mem_cons, List.not_mem_nil, or_false, not_or] at h
  unfold keyword
  rw [if_neg h.1, if_neg h.2.1, if_neg h.2.2]

end

/-! ## the tree -/

theorem boundary_of_head {c : Char} (hc : isBare c = false) (text : List Char) :
    Boundary (c :: text) := by
  intro d hd
  cases hd
  exact hc

theorem lexes_value (value : Option String) {text : List Char} {toks : List Tok}
    (hb : Boundary text) (h : Lexes text toks) :
    Lexes (valueText value ++ text) (.word (value.getD "*") value.isSome :: toks) := by
  cases value with
  | none =>
    have hw : ∀ c ∈ ['*'], isBare c = true := List.all_eq_true.mp (by decide)
    exact lexes_word (List.cons_ne_nil _ _) hw hb h
  | some value =>
    have ht : valueText (some value) ++ text = '"' :: (escape value.toList ++ '"' :: text) := by
      simp [valueText]
    rw [ht]
    exact lexes_quoted value h

theorem lexes_group (place : Nat) (e : Expr) {inner : List Char} {innerToks : List Tok}
    (h : ∀ rest toks, Boundary rest → Lexes rest toks →
      Lexes (inner ++ rest) (innerToks ++ toks)) {rest : List Char} {toks : List Tok}
    (hb : Boundary rest) (hr : Lexes rest toks) :
    Lexes (group '(' ')' place e inner ++ rest)
      (group .opening .closing place e innerToks ++ toks) := by
  unfold group
  split
  · have hc := h (')' :: rest) (.closing :: toks) (boundary_of_head (by decide) rest)
      (lexes_closing hr)
    simpa using lexes_opening hc
  · exact h rest toks hb hr

theorem lexes_keyword (word : List Char) (hne : word ≠ []) (hw : ∀ c ∈ word, isBare c = true)
    {text : List Char} {toks : List Tok} (h : Lexes text toks) :
    Lexes (word ++ ' ' :: text) (keyword (String.ofList word) :: toks) :=
  lexes_word hne hw (boundary_of_head (by decide) text) (lexes_blank h)

/-- **The printed text is cut into the tokens of its tree.** -/
theorem lexes_text {schema : Option Value} {e : Expr} (ha : admits schema e = true) :
    ∀ rest toks, Boundary rest → Lexes rest toks → Lexes (e.text ++ rest) (e.toks ++ toks) := by
  induction e with
  | and a b iha ihb =>
    intro rest toks hb hr
    simp only [admits, Bool.and_eq_true] at ha
    have h1 := lexes_keyword ['A', 'N', 'D'] (List.cons_ne_nil _ _)
      (List.all_eq_true.mp (by decide)) (ihb ha.2 rest toks hb hr)
    have h2 := iha ha.1 _ _ (boundary_of_head (by decide) _) (lexes_blank h1)
    simpa [Expr.text, Expr.toks, keyword] using h2
  | or a b iha ihb =>
    intro rest toks hb hr
    simp only [admits, Bool.and_eq_true] at ha
    have h1 := lexes_keyword ['O', 'R'] (List.cons_ne_nil _ _)
      (List.all_eq_true.mp (by decide)) (lexes_group 1 b (ihb ha.2) hb hr)
    have h2 := lexes_group 1 a (iha ha.1) (boundary_of_head (by decide) _) (lexes_blank h1)
    simpa [Expr.text, Expr.toks, keyword] using h2
  | not a ih =>
    intro rest toks hb hr
    have h1 := lexes_keyword ['N', 'O', 'T'] (List.cons_ne_nil _ _)
      (List.all_eq_true.mp (by decide)) (lexes_group 0 a (ih ha) hb hr)
    simpa [Expr.text, Expr.toks, keyword] using h1
  | cmp path op value =>
    intro rest toks hb hr
    obtain ⟨hne, hp, -, hk, -, -⟩ := admitsCmp_iff.mp ha
    have hhead : (valueText value ++ rest).head? ≠ some '=' := by
      cases value <;> simp [valueText]
    have h1 := lexes_op op hhead (lexes_value value hb hr)
    have hop : Boundary (op.text ++ (valueText value ++ rest)) := by
      cases op <;> exact boundary_of_head (by decide) _
    have h2 := lexes_word (fieldText_ne_nil hne (fun q hq => (hp q hq).1))
      (fieldText_bare (fun q hq c hc => ((hp q hq).2 c hc).1)) hop h1
    rw [keyword_fieldText hk] at h2
    simpa [Expr.text, Expr.toks] using h2

/-! ## what the rules of the parser read -/

abbrev Rule := (toks : Toks) → Except FilterError (Parsed toks)
abbrev Loop := (toks : Toks) → Parsed toks → Except FilterError (Parsed toks)

/-- a rule reads `e` of `ts` and leaves `rest` -/
def Reads (rule : Rule) (ts : Toks) (e : Expr) (rest : Toks) : Prop :=
  ∃ h, rule ts = .ok ⟨e, rest, h⟩

/-- a loop that has read `left` and stands before `ts` ends with `e` before `rest` -/
def Loops (loop : Loop) (left : Expr) (ts : Toks) (e : Expr) (rest : Toks) : Prop :=
  ∀ toks h, ∃ h', loop toks ⟨left, ts, h⟩ = .ok ⟨e, rest, h'⟩

/-- two trees evaluate to the same on every document -/
def Agree (e e' : Expr) : Prop := ∀ fl doc, eval fl doc e = eval fl doc e'

theorem Agree.refl (e : Expr) : Agree e e := fun _ _ => rfl

theorem Agree.trans {a b c : Expr} (h : Agree a b) (h' : Agree b c) : Agree a c :=
  fun fl doc => (h fl doc).trans (h' fl doc)

/-- a rule reads the tokens of `e`, before anything that may follow, as a tree that agrees -/
def ReadBy (rule : Rule) (Follow : Toks → Prop) (e : Expr) (ts : List Tok) : Prop :=
  ∀ te rest, te.map Prod.snd = ts → Follow rest →
    ∃ e', Agree e' e ∧ Reads rule (te ++ rest) e' rest

/-! ## chains of one operator -/

/-- units joined by one operator, whichever way the joins lean -/
inductive Chain (tok : Tok) (mk : Expr → Expr → Expr) (unit : Expr → List Tok → Prop) :
    Expr → List Tok → Prop
  | one {e : Expr} {ts : List Tok} (h : unit e ts) : Chain tok mk unit e ts
  | join {a b : Expr} {ta tb : List Tok} (ha : Chain tok mk unit a ta)
      (hb : Chain tok mk unit b tb) : Chain tok mk unit (mk a b) (ta ++ tok :: tb)

/-- a rule that reads a unit and then loops while the operator follows, over an operator whose
trees may be joined either way -/
structure LeftChain (unit rule : Rule) (loop : Loop) (tok : Tok) (mk : Expr → Expr → Expr)
    (Follow : Toks → Prop) : Prop where
  first : ∀ {ts mid r e f}, Reads unit ts e mid → Loops loop e mid f r → Reads rule ts f r
  more : ∀ {p ts mid r left e f}, Reads unit ts e mid → Loops loop (mk left e) mid f r →
    Loops loop left ((p, tok) :: ts) f r
  follow : ∀ p ts, Follow ((p, tok) :: ts)
  congr : ∀ {a a' b b'}, Agree a a' → Agree b b' → Agree (mk a b) (mk a' b')
  assoc : ∀ a b c, Agree (mk (mk a b) c) (mk a (mk b c))

section
variable {unit rule : Rule} {loop : Loop} {tok : Tok} {mk : Expr → Expr → Expr}
  {Follow : Toks → Prop}

theorem LeftChain.reads (hl : LeftChain unit rule loop tok mk Follow) {e : Expr} {ts : List Tok}
    (hc : Chain tok mk (ReadBy unit Follow) e ts) (te rest : Toks) (ht : te.map Prod.snd = ts)
    (hf : Follow rest) :
    (∃ e', Agree e' e ∧ ∀ f r, Loops loop e' rest f r → Reads rule (te ++ rest) f r) ∧
    (∀ left p, ∃ e', Agree e' (mk left e) ∧
      ∀ f r, Loops loop e' rest f r → Loops loop left ((p, tok) :: (te ++ rest)) f r) := by
  induction hc generalizing te rest with
  | one h =>
    rename_i e ts
    obtain ⟨e', ha, hr⟩ := h te rest ht hf
    refine ⟨⟨e', ha, fun f r => hl.first hr⟩, fun left p => ⟨mk left e', ?_, fun f r => hl.more hr⟩⟩
    exact hl.congr (Agree.refl left) ha
  | join ha hb iha ihb =>
    rename_i a b ta tb
    obtain ⟨ea, te', rfl, hta, htb⟩ := List.map_eq_append_iff.mp ht
    obtain ⟨⟨p, tok'⟩, eb, rfl, rfl, hteb⟩ := List.map_eq_cons_iff.mp htb
    obtain ⟨⟨a', haa, hfirst⟩, hmore⟩ := iha ea ((p, tok') :: (eb ++ rest)) hta (hl.follow p _)
    obtain ⟨-, hnext⟩ := ihb eb rest hteb hf
    refine ⟨?_, fun left q => ?_⟩
    · obtain ⟨e', he, hloop⟩ := hnext a' p
      refine ⟨e', he.trans (hl.congr haa (Agree.refl b)), fun f r h => ?_⟩
      rw [List.append_assoc]
      exact hfirst f r (hloop f r h)
    · obtain ⟨l', hl', hla⟩ := hmore left q
      obtain ⟨e', he, hloop⟩ := hnext l' p
      refine ⟨e', (he.trans (hl.congr hl' (Agree.refl b))).trans (hl.assoc left a b),
        fun f r h => ?_⟩
      rw [List.append_assoc]
      exact hla f r (hloop f r h)

theorem LeftChain.readBy (hl : LeftChain unit rule loop tok mk Follow) {Follow' : Toks → Prop}
    (hf : ∀ rest, Follow' rest → Follow rest)
    (hdone : ∀ rest, Follow' rest → ∀ e, Loops loop e rest e rest) {e : Expr} {ts : List Tok}
    (hc : Chain tok mk (ReadBy unit Follow) e ts) : ReadBy rule Follow' e ts := by
  intro te rest ht hr
  obtain ⟨⟨e', ha, h⟩, -⟩ := hl.reads hc te rest ht (hf rest hr)
  exact ⟨e', ha, h e' rest (hdone rest hr e')⟩

end

/-! ## the grammar -/

section
variable (schema : Option Value) (finish depth : Nat)

/-- what may follow an operand of AND: another AND, a closing parenthesis, or nothing -/
def Stops (rest : Toks) : Prop :=
  ∀ t, rest.head?.map Prod.snd = some t → t = .and ∨ t = .closing

/-- what may follow a whole expression -/
def Ends (rest : Toks) : Prop := ∀ t, rest.head?.map Prod.snd = some t → t = .closing

theorem orChain : LeftChain (term schema finish depth) (factor schema finish depth)
    (orLoop schema finish depth) .or .or (fun _ => True) where
  first := by
    rintro ts mid r e f ⟨h, hr⟩ hloop
    obtain ⟨h', hl⟩ := hloop ts h
    refine ⟨h', ?_⟩
    rw [factor, hr]
    exact hl
  more := by
    rintro p ts mid r left e f ⟨h, hr⟩ hloop toks h0
    obtain ⟨h', hl⟩ := hloop toks (h.trans ((Nat.lt_succ_self _).trans h0))
    refine ⟨h', ?_⟩
    rw [orLoop]
    simp only [hr]
    exact hl
  follow := fun _ _ => trivial
  congr := by
    intro a a' b b' ha hb fl doc
    simp only [eval, ha fl doc, hb fl doc]
  assoc := fun a b c fl doc => Bool.or_assoc ..

theorem andChain (hd : depth ≤ maxDepth) : LeftChain (seq schema finish depth)
    (expr schema finish depth) (andLoop schema finish depth) .and .and Stops where
  first := by
    rintro ts mid r e f ⟨h, hr⟩ hloop
    obtain ⟨h', hl⟩ := hloop ts h
    refine ⟨h', ?_⟩
    rw [expr, if_neg (not_lt.mpr hd), hr]
    exact hl
  more := by
    rintro p ts mid r left e f ⟨h, hr⟩ hloop toks h0
    obtain ⟨h', hl⟩ := hloop toks (h.trans ((Nat.lt_succ_self _).trans h0))
    refine ⟨h', ?_⟩
    rw [andLoop]
    simp only [hr]
    exact hl
  follow := by
    rintro p ts t ht
    exact Or.inl (Option.some.inj ht).symm
  congr := by
    intro a a' b b' ha hb fl doc
    simp only [eval, ha fl doc, hb fl doc]
  assoc := fun a b c fl doc => Bool.and_assoc ..

theorem orLoop_done {rest : Toks} (h : Stops rest) (e : Expr) :
    Loops (orLoop schema finish depth) e rest e rest := by
  intro toks h0
  refine ⟨h0, ?_⟩
  rw [orLoop]
  split
  · rename_i p rest' heq
    change rest = _ at heq
    rcases h .or (by rw [heq]; rfl) with h | h <;> exact absurd h (by simp)
  · rfl

theorem andLoop_done {rest : Toks} (h : Ends rest) (e : Expr) :
    Loops (andLoop schema finish depth) e rest e rest := by
  intro toks h0
  refine ⟨h0, ?_⟩
  rw [andLoop]
  split
  · rename_i p rest' heq
    change rest = _ at heq
    exact absurd (h .and (by rw [heq]; rfl)) (by simp)
  · rfl

theorem seqLoop_done {rest : Toks} (h : Stops rest) (e : Expr) :
    Loops (seqLoop schema finish depth) e rest e rest := by
  intro toks h0
  refine ⟨h0, ?_⟩
  rw [seqLoop, if_neg]
  cases hr : rest.head?.map Prod.snd with
  | none => simp [startsFactor]
  | some t => rcases h t hr with rfl | rfl <;> simp [startsFactor]

variable {schema finish depth} {e : Expr} {ts : List Tok}

theorem readBy_seq (hc : Chain .or .or (ReadBy (term schema finish depth) (fun _ => True)) e ts) :
    ReadBy (seq schema finish depth) Stops e ts := by
  have hf : ReadBy (factor schema finish depth) Stops e ts :=
    (orChain schema finish depth).readBy (fun _ _ => trivial)
      (fun rest hr => orLoop_done schema finish depth hr) hc
  intro te rest ht hr
  obtain ⟨e', ha, h, hreads⟩ := hf te rest ht hr
  obtain ⟨h', hl⟩ := seqLoop_done schema finish depth hr e' (te ++ rest) h
  refine ⟨e', ha, h', ?_⟩
  rw [seq, hreads]
  exact hl

theorem readBy_expr (hd : depth ≤ maxDepth)
    (hc : Chain .and .and (ReadBy (seq schema finish depth) Stops) e ts) :
    ReadBy (expr schema finish depth) Ends e ts :=
  (andChain schema finish depth hd).readBy (fun _ hr t ht => Or.inr (hr t ht))
    (fun _ hr => andLoop_done schema finish depth hr) hc

theorem reads_not {p : Nat} {ts rest : Toks}
    (h : Reads (term schema finish (depth + 1)) ts e rest) :
    Reads (term schema finish depth) ((p, .not) :: ts) (.not e) rest := by
  obtain ⟨hlt, hr⟩ := h
  refine ⟨hlt.trans (Nat.lt_succ_self _), ?_⟩
  rw [term]
  simp only [hr]

theorem reads_group {p q : Nat} {ts rest : Toks}
    (h : Reads (expr schema finish (depth + 1)) ts e ((q, .closing) :: rest)) :
    Reads (term schema finish depth) ((p, .opening) :: ts) e rest := by
  obtain ⟨hlt, hr⟩ := h
  refine ⟨((Nat.lt_succ_self _).trans hlt).trans (Nat.lt_succ_self _), ?_⟩
  rw [term]
  simp only [hr]

theorem reads_cmp {path : List String} {op : Op} {value : Option String}
    (h : admitsCmp schema path op value = true) {p q r : Nat} (rest : Toks) :
    Reads (term schema finish depth)
      ((p, .word (String.ofList (fieldText path)) false) :: (q, .op op) ::
        (r, .word (value.getD "*") value.isSome) :: rest) (.cmp path op value) rest := by
  obtain ⟨hne, hp, hl, -, hk, hv⟩ := admitsCmp_iff.mp h
  have hvalue : (if (value.isSome || decide (value.getD "*" ≠ "*")) = true then
      some (value.getD "*") else none) = value := by
    cases value <;> simp
  refine ⟨by simp only [List.length_cons]; omega, ?_⟩
  rw [term, restriction]
  · simp only [hvalue, fieldPath_fieldText hne hp hl, hk, if_true]
    rw [if_neg (fun hc => hc.2 (hv hc.1))]
  all_goals simp

theorem readBy_not (h : ReadBy (term schema finish (depth + 1)) (fun _ => True) e ts) :
    ReadBy (term schema finish depth) (fun _ => True) (.not e) (.not :: ts) := by
  intro te rest ht hr
  obtain ⟨⟨p, t⟩, te, rfl, rfl, hte⟩ := List.map_eq_cons_iff.mp ht
  obtain ⟨e', ha, hreads⟩ := h te rest hte hr
  exact ⟨.not e', fun fl doc => by simp only [eval, ha fl doc], reads_not hreads⟩

theorem readBy_group (h : ReadBy (expr schema finish (depth + 1)) Ends e ts) :
    ReadBy (term schema finish depth) (fun _ => True) e (.opening :: (ts ++ [.closing])) := by
  intro te rest ht hr
  obtain ⟨⟨p, t⟩, te, rfl, rfl, hte⟩ := List.map_eq_cons_iff.mp ht
  obtain ⟨te, tc, rfl, hte', htc⟩ := List.map_eq_append_iff.mp hte
  obtain ⟨⟨q, t⟩, tc', rfl, rfl, htc'⟩ := List.map_eq_cons_iff.mp htc
  rw [List.map_eq_nil_iff] at htc'
  subst htc'
  obtain ⟨e', ha, hreads⟩ := h te ((q, .closing) :: rest) hte'
    (fun t ht => (Option.some.inj ht).symm)
  refine ⟨e', ha, ?_⟩
  rw [List.cons_append, List.append_assoc]
  exact reads_group hreads

end

/-! ## the round trip -/

/-- the tokens of a tree are read in each of the places it may stand in -/
structure Readable (schema : Option Value) (finish : Nat) (e : Expr) : Prop where
  expr : ∀ depth, fits depth e = true →
    Chain .and .and (ReadBy (seq schema finish depth) Stops) e e.toks
  factor : ∀ depth, fitsAt 1 depth e = true →
    Chain .or .or (ReadBy (term schema finish depth) (fun _ => True)) e
      (group .opening .closing 1 e e.toks)
  term : ∀ depth, fitsAt 0 depth e = true →
    ReadBy (term schema finish depth) (fun _ => True) e (group .opening .closing 0 e e.toks)

section
variable {schema : Option Value} {finish : Nat} {e : Expr}

theorem readBy_term_of_group
    (h : ∀ depth, fits depth e = true →
      Chain .and .and (ReadBy (seq schema finish depth) Stops) e e.toks) {place : Nat}
    (hp : place < e.level) (depth : Nat) (hf : fitsAt place depth e = true) :
    ReadBy (term schema finish depth) (fun _ => True) e
      (group .opening .closing place e e.toks) := by
  unfold fitsAt at hf
  rw [if_pos hp, Bool.and_eq_true, decide_eq_true_eq] at hf
  unfold group
  rw [if_pos hp]
  exact readBy_group (readBy_expr hf.1 (h (depth + 1) hf.2))

theorem readable_of_and (hl : e.level = 2)
    (h : ∀ depth, fits depth e = true →
      Chain .and .and (ReadBy (seq schema finish depth) Stops) e e.toks) :
    Readable schema finish e where
  expr := h
  factor := fun depth hf => Chain.one (readBy_term_of_group h (by omega) depth hf)
  term := fun depth hf => readBy_term_of_group h (by omega) depth hf

theorem readable_of_or (hl : e.level = 1)
    (h : ∀ depth, fits depth e = true →
      Chain .or .or (ReadBy (term schema finish depth) (fun _ => True)) e e.toks) :
    Readable schema finish e := by
  have hexpr : ∀ depth, fits depth e = true →
      Chain .and .and (ReadBy (seq schema finish depth) Stops) e e.toks :=
    fun depth hf => Chain.one (readBy_seq (h depth hf))
  refine ⟨hexpr, fun depth hf => ?_, fun depth hf => readBy_term_of_group hexpr (by omega) depth hf⟩
  unfold fitsAt at hf
  unfold group
  rw [if_neg (by omega)] at hf ⊢
  exact h depth hf

theorem readable_of_term (hl : e.level = 0)
    (h : ∀ depth, fits depth e = true →
      ReadBy (term schema finish depth) (fun _ => True) e e.toks) : Readable schema finish e := by
  have hplace : ∀ place depth, fitsAt place depth e = true → ReadBy (term schema finish depth)
      (fun _ => True) e (group .opening .closing place e e.toks) := by
    intro place depth hf
    unfold fitsAt at hf
    unfold group
    rw [if_neg (by omega)] at hf ⊢
    exact h depth hf
  exact ⟨fun depth hf => Chain.one (readBy_seq (Chain.one (h depth hf))),
    fun depth hf => Chain.one (hplace 1 depth hf), hplace 0⟩

end

/-- **The tokens of a tree are read back**, in every place. -/
theorem readable {schema : Option Value} (finish : Nat) {e : Expr} (ha : admits schema e = true) :
    Readable schema finish e := by
  induction e with
  | and a b iha ihb =>
    simp only [admits, Bool.and_eq_true] at ha
    refine readable_of_and rfl (fun depth hf => ?_)
    simp only [fits, Bool.and_eq_true] at hf
    exact Chain.join ((iha ha.1).expr depth hf.1) ((ihb ha.2).expr depth hf.2)
  | or a b iha ihb =>
    simp only [admits, Bool.and_eq_true] at ha
    refine readable_of_or rfl (fun depth hf => ?_)
    rw [fits_or, Bool.and_eq_true] at hf
    exact Chain.join ((iha ha.1).factor depth hf.1) ((ihb ha.2).factor depth hf.2)
  | not a ih =>
    refine readable_of_term rfl (fun depth hf => ?_)
    rw [fits_not] at hf
    exact readBy_not ((ih ha).term (depth + 1) hf)
  | cmp path op value =>
    refine readable_of_term rfl (fun depth _ te rest ht _ => ?_)
    obtain ⟨⟨p, t⟩, te, rfl, rfl, ht1⟩ := List.map_eq_cons_iff.mp ht
    obtain ⟨⟨q, t⟩, te, rfl, rfl, ht2⟩ := List.map_eq_cons_iff.mp ht1
    obtain ⟨⟨r, t⟩, te, rfl, rfl, ht3⟩ := List.map_eq_cons_iff.mp ht2
    rw [List.map_eq_nil_iff] at ht3
    subst ht3
    exact ⟨.cmp path op value, Agree.refl _, reads_cmp ha rest⟩

/-- **A printed filter is read back**: the text of every tree of restrictions the grammar admits,
within the limits, is parsed, to a filter that matches the same documents. -/
theorem parse_print (schema : Option Value) (e : Expr) (ha : admits schema e = true)
    (hl : Text.utf8Len (print e).toList ≤ maxLen) (hd : fits 0 e = true) :
    ∃ f, parse schema (print e) = .ok f ∧ ∀ fl doc, eval fl doc f = eval fl doc e := by
  have hlex := lexes_text ha [] [] (fun c hc => absurd hc (by simp)) lexes_nil
  rw [List.append_nil, List.append_nil] at hlex
  have htext : (print e).toList = e.text := String.toList_ofList
  obtain ⟨ts, htok, hts⟩ := hlex (Text.charIndices 0 e.text) (Text.map_charIndices 0 e.text)
  obtain ⟨f, hf, hreads⟩ := readBy_expr (Nat.zero_le _)
    ((readable (Text.utf8Len e.text) ha).expr 0 hd) ts [] hts (fun t ht => absurd ht (by simp))
  rw [List.append_nil] at hreads
  obtain ⟨h, hr⟩ := hreads
  refine ⟨f, ?_, hf⟩
  have hne : ts.isEmpty = false := by
    cases ts with
    | nil => exact absurd h (by simp)
    | cons t ts => rfl
  unfold parse
  rw [htext] at hl ⊢
  rw [if_neg (not_lt.mpr hl), htok]
  simp only [hne, hr]
  rfl

/-- an AND under a NOT, a value with a quote in it, and a field that is only asked to be present -/
def sample : Expr :=
  .or (.not (.and (.cmp ["spec", "team"] .eq (some "a\"b")) (.cmp ["status"] .has none)))
    (.cmp ["metadata", "labels", "tier"] .ge (some "2"))

example : print sample
    = "NOT (spec.team=\"a\\\"b\" AND status:*) OR metadata.labels.tier>=\"2\"" := by decide

theorem parse_print_sample : ∃ f, parse none (print sample) = .ok f ∧
    ∀ fl doc, eval fl doc f = eval fl doc sample :=
  parse_print none sample (by decide) (by decide) (by decide)

end Filter
end Portal
