import Portal.Base.Gate
import Portal.Resource.Selector

/-!
# What a label selector may say (`resource/selector.rs`)

A selector is a list of requirements, each on a valid key: `key`, `!key`, `key=value`, `key==value`,
`key!=value`, `key in (v,..)` and `key notin (v,..)`, with space between their parts.  The parser takes
any ending `in` or `notin` for the word, keeps parentheses inside a set, and looks for `==` before it
looks for the operator that comes first.

* `Term`, `Spelt`             the requirements and their texts;
* `Glued`, `Odd`, `Shadowed`  the pieces where the parser goes another way;
* `selectors_iff`             **where it reads selectors as they are meant**.
-/

namespace Portal

namespace Selector

open Text

/-! ## the grammar -/

structure Key where
  chars : List Char
  valid : isValidKey chars = true

/-- a value: no space around it, no comma and no parenthesis -/
structure Word where
  chars : List Char
  trimmed : trim chars = chars
  plain : ∀ c ∈ chars, c ≠ '(' ∧ c ≠ ')' ∧ c ≠ ','

def Key.text (k : Key) : String := String.ofList k.chars

def Word.text (v : Word) : String := String.ofList v.chars

inductive Op where
  | single
  | double
  | differs
deriving DecidableEq

def Op.chars : Op → List Char
  | .single => ['=']
  | .double => ['=', '=']
  | .differs => ['!', '=']

def word (within : Bool) : List Char := if within then "in".toList else "notin".toList

inductive Term where
  | has (key : Key)
  | lacks (key : Key)
  | compare (op : Op) (key : Key) (value : Word)
  | member (within : Bool) (key : Key) (values : List Word) (some : values ≠ [])
      (nonempty : ∀ v ∈ values, v.chars ≠ [])

def Term.holds (labels : String → Option String) : Term → Prop
  | .has k => labels k.text ≠ none
  | .lacks k => labels k.text = none
  | .compare .differs k v => labels k.text ≠ some v.text
  | .compare _ k v => labels k.text = some v.text
  | .member true k values _ _ => ∃ v ∈ values, labels k.text = some v.text
  | .member false k values _ _ => ∀ v ∈ values, labels k.text ≠ some v.text

/-- the texts of a requirement; of two operators the longer one is read -/
inductive Spelt : Term → List Char → Prop where
  | has {k : Key} {w w' : List Char} (hw : Blank w) (hw' : Blank w') :
      Spelt (.has k) (w ++ k.chars ++ w')
  | lacks {k : Key} {w w₁ w' : List Char} (hw : Blank w) (hw₁ : Blank w₁) (hw' : Blank w') :
      Spelt (.lacks k) (w ++ '!' :: (w₁ ++ k.chars ++ w'))
  | compare {op : Op} {k : Key} {v : Word} {w w₁ w₂ w' : List Char} (hw : Blank w) (hw₁ : Blank w₁)
      (hw₂ : Blank w₂) (hw' : Blank w')
      (hlongest : op = .single → (w₂ ++ v.chars ++ w').head? ≠ some '=') :
      Spelt (.compare op k v) (w ++ k.chars ++ w₁ ++ (op.chars ++ (w₂ ++ v.chars ++ w')))
  | member {within : Bool} {k : Key} {values : List Word} {some : values ≠ []}
      {nonempty : ∀ v ∈ values, v.chars ≠ []} {items : List (List Char)} {w w₁ w₂ w' : List Char}
      (hw : Blank w) (hw₁ : Blank w₁) (hne : w₁ ≠ []) (hw₂ : Blank w₂) (hw' : Blank w')
      (hitems : items.map trim = values.map Word.chars) :
      Spelt (.member within k values some nonempty)
        (w ++ k.chars ++ w₁ ++ word within ++ w₂ ++ '(' :: ([','].intercalate items ++ ')' :: w'))

/-- a text a selector may be: nothing, or requirements with commas between -/
def Grammatical (s : List Char) : Prop :=
  trim s = [] ∨ ∃ pieces, pieces ≠ [] ∧ trim s = [','].intercalate pieces
    ∧ ∀ p ∈ pieces, ∃ t, Spelt t p

def Term.print : Term → List Char
  | .has k => k.chars
  | .lacks k => '!' :: k.chars
  | .compare op k v =>
    k.chars ++ (op.chars ++ ((if op = .single ∧ v.chars.head? = some '=' then [' '] else []) ++ v.chars))
  | .member within k values _ _ =>
    k.chars ++ ' ' :: (word within ++ ' ' :: '(' :: ([','].intercalate (values.map Word.chars) ++ [')']))

def printed (l : List Term) : String := String.ofList ([','].intercalate (l.map Term.print))

/-! ## where the parser goes another way -/

/-- a word that no space parts from its key; `notin` alone is the word without a key -/
def Glued (start : List Char) : Prop :=
  ∃ (k : Key) (within : Bool), start = k.chars ++ word within ∧ start ≠ word false

def Spaced (start : List Char) : Prop :=
  ∃ (k : Key) (w : List Char) (within : Bool), Blank w ∧ w ≠ [] ∧ start = k.chars ++ w ++ word within

/-- a set whose word is glued to its key, or with a parenthesis among its values -/
def Odd (p : List Char) : Prop :=
  ∃ start inside, trim p = start ++ '(' :: (inside ++ [')'])
    ∧ (∀ v ∈ split (· = ',') inside, ¬ Blank v)
    ∧ (Glued (trim start) ∨ Spaced (trim start) ∧ ('(' ∈ inside ∨ ')' ∈ inside))

/-- a comparison by `=` or `!=` with an operator in its value that is looked for before its own -/
def Shadowed (p : List Char) : Prop :=
  ∃ op k v, Spelt (.compare op k v) p
    ∧ (op ≠ .double ∧ ['=', '='] <:+: trim p ∨ op = .single ∧ ['!', '='] <:+: trim p)

/-- a requirement the parser reads as it is meant -/
def Plain (p : List Char) : Prop := (∃ t, Spelt t p) ∧ ¬ Shadowed p

/-- a selector read as it is meant: none of its pieces is odd, unless another is refused anyway, and none
is shadowed, unless another is no requirement -/
def Undisturbed (s : List Char) : Prop :=
  ∀ pieces, Pieces (trim s) pieces →
    ((∃ p ∈ pieces, Odd p) → ∃ p ∈ pieces, ¬ Plain p ∧ ¬ Odd p)
    ∧ ((∃ p ∈ pieces, Shadowed p) → ∃ p ∈ pieces, ¬ Plain p ∧ ¬ Shadowed p)

/-! ## the characters of a requirement -/

section
variable {k : Key} {v : Word} {c : Char} {p w s : List Char} {t : Term}

theorem isValidKey_iff : isValidKey s = true ↔
    s ≠ [] ∧ ∀ c ∈ s, isWhitespace c = false ∧ c ∉ "=!()[],".toList := by
  unfold isValidKey
  simp [List.any_eq_false, not_or]

theorem Key.ne_nil (k : Key) : k.chars ≠ [] := (isValidKey_iff.mp k.valid).1

theorem Key.space (hc : c ∈ k.chars) : isWhitespace c = false := ((isValidKey_iff.mp k.valid).2 c hc).1

theorem Key.not_mem (hc : c ∈ "=!()[],".toList) : c ∉ k.chars :=
  fun h => ((isValidKey_iff.mp k.valid).2 c h).2 hc

theorem Key.trim (k : Key) : trim k.chars = k.chars := trim_of_all fun _ hc => k.space hc

theorem trim_key {w w' : List Char} (hw : Blank w) (hw' : Blank w') :
    Text.trim (w ++ k.chars ++ w') = k.chars := by
  rw [trim_pad hw hw', k.trim]

theorem trim_word {w w' : List Char} (hw : Blank w) (hw' : Blank w') :
    Text.trim (w ++ v.chars ++ w') = v.chars := by
  rw [trim_pad hw hw', v.trimmed]

theorem scan_blank (hw : Blank w) : scan 0 w = some 0 :=
  scan_of_plain fun c hc => ⟨fun h => hw.not_mem (by decide) (h ▸ hc),
    fun h => hw.not_mem (by decide) (h ▸ hc), fun h => hw.not_mem (by decide) (h ▸ hc)⟩

theorem scan_key : scan 0 k.chars = some 0 :=
  scan_of_plain fun c hc => ⟨fun h => k.not_mem (by decide) (h ▸ hc),
    fun h => k.not_mem (by decide) (h ▸ hc), fun h => k.not_mem (by decide) (h ▸ hc)⟩

theorem scan_word : scan 0 v.chars = some 0 := scan_of_plain v.plain

theorem items_plain {items : List (List Char)} {values : List Word}
    (h : items.map Text.trim = values.map Word.chars) : ∀ item ∈ items, ∀ c ∈ item,
      c ≠ '(' ∧ c ≠ ')' ∧ c ≠ ',' := by
  intro item hitem c hc
  by_cases hspace : isWhitespace c = true
  · refine ⟨?_, ?_, ?_⟩ <;> rintro rfl <;> exact absurd hspace (by decide)
  · have hmem : Text.trim item ∈ values.map Word.chars := h ▸ List.mem_map_of_mem hitem
    obtain ⟨v, -, hv⟩ := List.mem_map.mp hmem
    exact v.plain c (hv ▸ mem_trim hc (by simpa using hspace))

/-- **A requirement is one piece.** -/
theorem scan_spelt (h : Spelt t p) : scan 0 p = some 0 := by
  cases h with
  | has hw hw' => rw [scan_append, scan_append, scan_blank hw, Option.bind_some, scan_key]; exact scan_blank hw'
  | lacks hw hw₁ hw' =>
    rw [scan_append, scan_blank hw, Option.bind_some, scan, if_neg (by decide), if_neg (by decide),
      if_neg (by decide), scan_append, scan_append, scan_blank hw₁, Option.bind_some, scan_key]
    exact scan_blank hw'
  | @compare op _ _ _ _ _ _ hw hw₁ hw₂ hw' _ =>
    have hop : scan 0 op.chars = some 0 := by cases op <;> decide
    rw [scan_append, scan_append, scan_append, scan_blank hw, Option.bind_some, scan_key,
      Option.bind_some, scan_blank hw₁, Option.bind_some, scan_append, hop, Option.bind_some, scan_append,
      scan_append, scan_blank hw₂, Option.bind_some, scan_word]
    exact scan_blank hw'
  | @member within _ _ _ _ items _ _ _ _ hw hw₁ _ hw₂ hw' hitems =>
    have hword : scan 0 (word within) = some 0 := by cases within <;> decide
    have hinside : scan 1 ([','].intercalate items) = some 1 := by
      refine scan_of_inside fun c hc => ?_
      rcases mem_intercalate hc with rfl | ⟨item, hitem, hc⟩
      · decide
      · exact ⟨(items_plain hitems item hitem c hc).1, (items_plain hitems item hitem c hc).2.1⟩
    rw [scan_append, scan_append, scan_append, scan_append, scan_append, scan_blank hw, Option.bind_some,
      scan_key, Option.bind_some, scan_blank hw₁, Option.bind_some, hword, Option.bind_some,
      scan_blank hw₂, Option.bind_some, scan, if_pos rfl, scan_append, hinside, Option.bind_some, scan,
      if_neg (by decide), if_pos rfl, if_neg (by decide)]
    exact scan_blank hw'

theorem plain_spelt (h : Spelt t p) (hset : ∀ within k values some nonempty,
    t ≠ .member within k values some nonempty) : '(' ∉ p := by
  have hspace : ∀ {w}, Blank w → '(' ∉ w := fun hw => hw.not_mem (by decide)
  have hkey : ∀ k : Key, '(' ∉ k.chars := fun k => k.not_mem (by decide)
  cases h with
  | has hw hw' => simp [hspace hw, hspace hw', hkey]
  | lacks hw hw₁ hw' => simp [hspace hw, hspace hw₁, hspace hw', hkey]
  | @compare op _ v _ _ _ _ hw hw₁ hw₂ hw' _ =>
    have hop : '(' ∉ op.chars := by cases op <;> decide
    have hv : '(' ∉ v.chars := fun hc => (v.plain _ hc).1 rfl
    simp [hspace hw, hspace hw₁, hspace hw₂, hspace hw', hkey, hop, hv]
  | member => exact absurd rfl (hset _ _ _ _ _)

end

/-! ## requirements without a set -/

/-- the requirement of the code for one as it is meant -/
def Term.requirement : Term → Requirement
  | .has k => .keyExists k.text
  | .lacks k => .doesNotExist k.text
  | .compare .differs k v => .notEquals k.text v.text
  | .compare _ k v => .equals k.text v.text
  | .member true k values _ _ => .isIn k.text (values.map Word.text)
  | .member false k values _ _ => .notIn k.text (values.map Word.text)

section
variable {p x y : List Char} {r : Requirement} {k : Key} {t : Term}

theorem onKey_eq_ok {key : List Char} {refused : String} {f : String → Requirement} :
    onKey key refused f = .ok r ↔ isValidKey key = true ∧ f (String.ofList key) = r := by
  unfold onKey
  split
  · rename_i h
    simp [h]
  · rename_i h
    simp [h]

theorem onKey_key (refused : String) (f : String → Requirement) : onKey k.chars refused f = .ok (f k.text) :=
  onKey_eq_ok.mpr ⟨k.valid, rfl⟩

theorem parsePart_plain (hne : trim p ≠ []) (hopen : '(' ∉ trim p) : parsePart p = parsePlain (trim p) := by
  unfold parsePart
  simp [hne, hopen]

theorem parsePlain_of_head (h : x.head? ≠ some '!') : parsePlain x =
    match splitOnceAt "==".toList x with
    | some (k, v) => onKey (trim k) ("invalid key in: " ++ String.ofList x) (.equals · (String.ofList (trim v)))
    | none =>
      match splitOnceAt "!=".toList x with
      | some (k, v) =>
        onKey (trim k) ("invalid key in: " ++ String.ofList x) (.notEquals · (String.ofList (trim v)))
      | none =>
        match splitOnce '=' x with
        | some (k, v) =>
          onKey (trim k) ("invalid key in: " ++ String.ofList x) (.equals · (String.ofList (trim v)))
        | none => onKey (trim x) ("invalid key in: " ++ String.ofList x) .keyExists := by
  cases x with
  | nil => rfl
  | cons c x =>
    have hc : c ≠ '!' := by simpa using h
    unfold parsePlain
    split
    · rename_i heq
      exact absurd (List.cons.inj heq).1 hc
    · rfl

/-- a comparison once it is trimmed: its key, its operator and its value, with space between -/
theorem trim_compare {op : Op} {v : Word} (h : Spelt (.compare op k v) p) :
    ∃ x y, trim p = x ++ (op.chars ++ y) ∧ trim x = k.chars ∧ trim y = v.chars ∧ '=' ∉ x ∧ '!' ∉ x
      ∧ (op = .single → y.head? ≠ some '=') := by
  cases h with
  | @compare _ _ _ w w₁ w₂ w' hw hw₁ hw₂ hw' hlongest =>
    have hkey : trim (w ++ k.chars ++ w₁) = k.chars := trim_key hw hw₁
    have hvalue : trim (w₂ ++ v.chars ++ w') = v.chars := trim_word hw₂ hw'
    have hnot : ∀ {c}, isWhitespace c = false → c ∈ "=!()[],".toList → c ∉ w ++ k.chars ++ w₁ := by
      intro c hspace hc
      simp [hw.not_mem hspace, hw₁.not_mem hspace, k.not_mem hc]
    have hsub : ∀ {c}, c ∉ w ++ k.chars ++ w₁ → c ∉ (w ++ k.chars ++ w₁).dropWhile isWhitespace :=
      fun hc hmem => hc ((List.dropWhile_sublist _).subset hmem)
    refine ⟨(w ++ k.chars ++ w₁).dropWhile isWhitespace, (w₂ ++ v.chars ++ w').rdropWhile isWhitespace, ?_,
      by rw [trim_dropWhile, hkey], by rw [trim_rdropWhile, hvalue], hsub (hnot (by decide) (by decide)),
      hsub (hnot (by decide) (by decide)), fun hop => ?_⟩
    · cases op with
      | single => exact trim_around (by decide) _ _
      | double =>
        show trim (w ++ k.chars ++ w₁ ++ '=' :: '=' :: (w₂ ++ v.chars ++ w')) = _
        rw [trim_around (by decide), rdropWhile_cons (by decide)]
        rfl
      | differs =>
        show trim (w ++ k.chars ++ w₁ ++ '!' :: '=' :: (w₂ ++ v.chars ++ w')) = _
        rw [trim_around (by decide), rdropWhile_cons (by decide)]
        rfl
    · have hstart := List.rdropWhile_prefix isWhitespace (l := w₂ ++ v.chars ++ w')
      intro hhead
      obtain ⟨rest, hrest⟩ := hstart
      apply hlongest hop
      rw [← hrest, List.head?_append, hhead]
      rfl

theorem no_infix_of {word s : List Char} {c : Char} (hc : c ∈ word) (h : c ∉ s) : ¬ word <:+: s :=
  fun hin => h (hin.subset hc)

/-- **A requirement without a set is read as it is meant**, unless it is shadowed. -/
theorem parsePart_compare {op : Op} {v : Word} (h : Spelt (.compare op k v) p) (hclear : ¬ Shadowed p) :
    parsePart p = .ok (Term.compare op k v).requirement := by
  obtain ⟨x, y, htrim, hx, hy, heq, hbang, -⟩ := trim_compare h
  have hopen : '(' ∉ trim p := fun hc => plain_spelt h (by simp) (mem_of_mem_trim hc)
  have hxne : x ≠ [] := by
    rintro rfl
    exact k.ne_nil (hx ▸ rfl)
  have hhead : (trim p).head? ≠ some '!' := by
    obtain ⟨c, x, rfl⟩ := List.exists_cons_of_ne_nil hxne
    rw [htrim]
    intro hc
    exact hbang (Option.some.inj hc ▸ List.mem_cons_self)
  rw [parsePart_plain (by simp [htrim, hxne]) hopen, parsePlain_of_head hhead]
  have hclear' : ∀ word : List Char, (op ≠ .double ∧ word = ['=', '='] ∨ op = .single ∧ word = ['!', '=']) →
      splitOnceAt word (trim p) = none := by
    intro word hword
    rcases hword with ⟨hop, rfl⟩ | ⟨hop, rfl⟩
    · exact (splitOnceAt_eq_none (by simp)).mpr fun hin => hclear ⟨op, k, v, h, .inl ⟨hop, hin⟩⟩
    · exact (splitOnceAt_eq_none (by simp)).mpr fun hin => hclear ⟨op, k, v, h, .inr ⟨hop, hin⟩⟩
  cases op with
  | double =>
    have hcut : splitOnceAt "==".toList (trim p) = some (x, y) := by
      rw [htrim, ← List.append_assoc]
      exact splitOnceAt_append heq
    simp only [hcut]
    rw [hx, hy]
    exact onKey_key _ _
  | differs =>
    have hcut : splitOnceAt "!=".toList (trim p) = some (x, y) := by
      rw [htrim, ← List.append_assoc]
      exact splitOnceAt_append hbang
    have hnone : splitOnceAt "==".toList (trim p) = none := hclear' _ (.inl ⟨by simp, rfl⟩)
    simp only [hnone, hcut]
    rw [hx, hy]
    exact onKey_key _ _
  | single =>
    have hcut : splitOnce '=' (trim p) = some (x, y) := splitOnce_eq_some.mpr ⟨htrim, heq⟩
    have hnone : splitOnceAt "==".toList (trim p) = none := hclear' _ (.inl ⟨by simp, rfl⟩)
    have hnone' : splitOnceAt "!=".toList (trim p) = none := hclear' _ (.inr ⟨rfl, rfl⟩)
    simp only [hnone, hnone', hcut]
    rw [hx, hy]
    exact onKey_key _ _

theorem parsePart_has (h : Spelt (.has k) p) : parsePart p = .ok (.keyExists k.text) := by
  have htrim : trim p = k.chars := by
    cases h with
    | has hw hw' => exact trim_key hw hw'
  have hhead : k.chars.head? ≠ some '!' := fun hc => k.not_mem (by decide) (List.mem_of_mem_head? hc)
  have hnone : splitOnceAt "==".toList k.chars = none :=
    (splitOnceAt_eq_none (by simp)).mpr (no_infix_of (c := '=') (by decide) (k.not_mem (by decide)))
  have hnone' : splitOnceAt "!=".toList k.chars = none :=
    (splitOnceAt_eq_none (by simp)).mpr (no_infix_of (c := '=') (by decide) (k.not_mem (by decide)))
  have hcut : splitOnce '=' k.chars = none := splitOnce_eq_none.mpr (k.not_mem (by decide))
  rw [parsePart_plain (htrim ▸ k.ne_nil) (htrim ▸ k.not_mem (by decide)), htrim, parsePlain_of_head hhead]
  simp only [hnone, hnone', hcut]
  rw [k.trim]
  exact onKey_key _ _

theorem parsePart_lacks (h : Spelt (.lacks k) p) : parsePart p = .ok (.doesNotExist k.text) := by
  have hopen : '(' ∉ trim p := fun hc => plain_spelt h (by simp) (mem_of_mem_trim hc)
  have htrim : ∃ y, trim p = '!' :: y ∧ trim y = k.chars := by
    cases h with
    | @lacks _ w w₁ w' hw hw₁ hw' =>
      refine ⟨(w₁ ++ k.chars ++ w').rdropWhile isWhitespace, ?_, by rw [trim_rdropWhile, trim_key hw₁ hw']⟩
      rw [trim_around (by decide), hw.dropWhile]
      rfl
  obtain ⟨y, htrim, hy⟩ := htrim
  rw [parsePart_plain (by simp [htrim]) hopen, htrim]
  unfold parsePlain
  simp only [hy]
  exact onKey_key _ _

theorem not_valid_of_mem {c : Char} (hc : c ∈ "=!()[],".toList) (hspace : isWhitespace c = false)
    (h : c ∈ x) : isValidKey (trim x) = false := by
  rw [← Bool.not_eq_true, isValidKey_iff]
  exact fun hvalid => (hvalid.2 c (mem_trim h hspace)).2 hc

/-- **A shadowed requirement is refused**: what stands before the operator found first is no key. -/
theorem refused_of_shadowed (h : Shadowed p) : parsePart p ≠ .ok r := by
  obtain ⟨op, k, v, hspelt, hshadow⟩ := h
  obtain ⟨x, y, htrim, hx, hy, heq, hbang, hlongest⟩ := trim_compare hspelt
  have hopen : '(' ∉ trim p := fun hc => plain_spelt hspelt (by simp) (mem_of_mem_trim hc)
  have hxne : x ≠ [] := by
    rintro rfl
    exact k.ne_nil (hx ▸ rfl)
  have hhead : (trim p).head? ≠ some '!' := by
    obtain ⟨c, x, rfl⟩ := List.exists_cons_of_ne_nil hxne
    rw [htrim]
    intro hc
    exact hbang (Option.some.inj hc ▸ List.mem_cons_self)
  rw [parsePart_plain (by simp [htrim, hxne]) hopen, parsePlain_of_head hhead]
  -- cut at `==`, what stands before it holds the operator of the requirement
  have hdouble : ∀ a b, splitOnceAt "==".toList (trim p) = some (a, b) → op ≠ .double →
      isValidKey (trim a) = false := by
    intro a b hcut hop
    have hsplit := splitOnceAt_eq_some hcut
    rw [htrim, List.append_assoc] at hsplit
    by_cases hmem : '=' ∈ a
    · exact not_valid_of_mem (by decide) (by decide) hmem
    · cases op with
      | double => exact absurd rfl hop
      | single =>
        obtain ⟨-, hrest⟩ := cut_first heq hmem (show x ++ '=' :: y = a ++ '=' :: ('=' :: b) from hsplit)
        rw [hrest] at hlongest
        exact absurd rfl (hlongest rfl)
      | differs =>
        have hxbang : '=' ∉ x ++ ['!'] := by simp [heq]
        obtain ⟨hstart, -⟩ := cut_first hxbang hmem (show (x ++ ['!']) ++ '=' :: y = a ++ '=' :: ('=' :: b) by
          rw [List.append_assoc]
          exact hsplit)
        have hbang' : '!' ∈ a := hstart ▸ List.mem_append_right x (List.mem_singleton.mpr rfl)
        exact not_valid_of_mem (by decide) (by decide) hbang'
  have hdiffers : ∀ a b, splitOnceAt "!=".toList (trim p) = some (a, b) → op = .single →
      isValidKey (trim a) = false := by
    intro a b hcut hop
    have hsplit := splitOnceAt_eq_some hcut
    subst hop
    rw [htrim, List.append_assoc] at hsplit
    by_cases hmem : '=' ∈ a
    · exact not_valid_of_mem (by decide) (by decide) hmem
    · have habang : '=' ∉ a ++ ['!'] := by simp [hmem]
      obtain ⟨hstart, -⟩ := cut_first heq habang (show x ++ '=' :: y = (a ++ ['!']) ++ '=' :: b by
        rw [List.append_assoc]
        exact hsplit)
      exact absurd (hstart ▸ List.mem_append_right a (List.mem_singleton.mpr rfl)) hbang
  have hop : op ≠ .double := by
    rcases hshadow with ⟨hop, -⟩ | ⟨rfl, -⟩
    · exact hop
    · simp
  cases hcut : splitOnceAt "==".toList (trim p) with
  | some ab =>
    simp only [onKey_eq_ok, ne_eq, hdouble ab.1 ab.2 hcut hop, Bool.false_eq_true, false_and, not_false_iff]
  | none =>
    rcases hshadow with ⟨-, hin⟩ | ⟨hsingle, hin⟩
    · exact absurd hin ((splitOnceAt_eq_none (by simp)).mp hcut)
    · cases hcut' : splitOnceAt "!=".toList (trim p) with
      | some ab =>
        simp only [onKey_eq_ok, ne_eq, hdiffers ab.1 ab.2 hcut' hsingle, Bool.false_eq_true, false_and,
          not_false_iff]
      | none => exact absurd hin ((splitOnceAt_eq_none (by simp)).mp hcut')

theorem exists_key (h : isValidKey (trim x) = true) :
    ∃ (k : Key) (u u' : List Char), Blank u ∧ Blank u' ∧ x = u ++ k.chars ++ u' := by
  obtain ⟨u, u', hu, hu', hx⟩ := exists_trim x
  exact ⟨⟨trim x, h⟩, u, u', hu, hu', hx⟩

theorem exists_word (h : ∀ c ∈ x, c ≠ '(' ∧ c ≠ ')' ∧ c ≠ ',') :
    ∃ (v : Word) (u u' : List Char), Blank u ∧ Blank u' ∧ x = u ++ v.chars ++ u' ∧ v.chars = trim x := by
  obtain ⟨u, u', hu, hu', hx⟩ := exists_trim x
  exact ⟨⟨trim x, trim_trim x, fun c hc => h c (mem_of_mem_trim hc)⟩, u, u', hu, hu', hx, rfl⟩

theorem spelt_compare (op : Op) {a b w w' : List Char} (hw : Blank w) (hw' : Blank w')
    (hp : p = w ++ (a ++ (op.chars ++ b)) ++ w') (hplain : ∀ c ∈ b, c ≠ '(' ∧ c ≠ ')' ∧ c ≠ ',')
    (hkey : isValidKey (trim a) = true) (hlongest : op = .single → (b ++ w').head? ≠ some '=') :
    ∃ t, Spelt t p := by
  obtain ⟨k, u, u', hu, hu', rfl⟩ := exists_key hkey
  obtain ⟨v, z, z', hz, hz', rfl, -⟩ := exists_word hplain
  have heq : p = (w ++ u) ++ k.chars ++ u' ++ (op.chars ++ (z ++ v.chars ++ (z' ++ w'))) := by
    rw [hp]
    simp only [List.append_assoc]
  refine ⟨.compare op k v, heq ▸ .compare (blank_append.mpr ⟨hw, hu⟩) hu' hz (blank_append.mpr ⟨hz', hw'⟩) ?_⟩
  intro hop
  simpa only [List.append_assoc] using hlongest hop

/-- **What is read without a set is a requirement.** -/
theorem spelt_of_parsePlain (h : parsePart p = .ok r) (hopen : '(' ∉ trim p)
    (hplain : ∀ c ∈ trim p, c ≠ '(' ∧ c ≠ ')' ∧ c ≠ ',') : ∃ t, Spelt t p := by
  obtain ⟨w, w', hw, hw', hp⟩ := exists_trim p
  have hne : trim p ≠ [] := by
    intro hnil
    unfold parsePart at h
    simp [hnil] at h
  rw [parsePart_plain hne hopen] at h
  have hsub : ∀ {b : List Char}, b <:+ trim p → ∀ c ∈ b, c ≠ '(' ∧ c ≠ ')' ∧ c ≠ ',' :=
    fun hb c hc => hplain c (hb.subset hc)
  by_cases hbang : (trim p).head? = some '!'
  · obtain ⟨y, hy⟩ : ∃ y, trim p = '!' :: y := by
      cases htrim : trim p with
      | nil => exact absurd htrim hne
      | cons c y =>
        rw [htrim] at hbang
        exact ⟨y, by rw [Option.some.inj hbang]⟩
    rw [hy] at h
    obtain ⟨hkey, -⟩ := onKey_eq_ok.mp h
    obtain ⟨k, u, u', hu, hu', hyk⟩ := exists_key hkey
    have heq : p = w ++ '!' :: (u ++ k.chars ++ (u' ++ w')) := by
      rw [hp, hy, hyk]
      simp
    exact ⟨.lacks k, heq ▸ .lacks hw hu (blank_append.mpr ⟨hu', hw'⟩)⟩
  · rw [parsePlain_of_head hbang] at h
    cases hcut : splitOnceAt "==".toList (trim p) with
    | some ab =>
      obtain ⟨a, b⟩ := ab
      have hsplit := splitOnceAt_eq_some hcut
      simp only [hcut] at h
      refine spelt_compare .double hw hw' (hp.trans ?_) (hsub ⟨a ++ "==".toList, hsplit.symm⟩)
        (onKey_eq_ok.mp h).1 (by simp)
      rw [hsplit, List.append_assoc a]
      rfl
    | none =>
      simp only [hcut] at h
      cases hcut' : splitOnceAt "!=".toList (trim p) with
      | some ab =>
        obtain ⟨a, b⟩ := ab
        have hsplit := splitOnceAt_eq_some hcut'
        simp only [hcut'] at h
        refine spelt_compare .differs hw hw' (hp.trans ?_) (hsub ⟨a ++ "!=".toList, hsplit.symm⟩)
          (onKey_eq_ok.mp h).1 (by simp)
        rw [hsplit, List.append_assoc a]
        rfl
      | none =>
        simp only [hcut'] at h
        cases hcut'' : splitOnce '=' (trim p) with
        | some ab =>
          obtain ⟨a, b⟩ := ab
          obtain ⟨hsplit, -⟩ := splitOnce_eq_some.mp hcut''
          simp only [hcut''] at h
          refine spelt_compare .single hw hw' (hp.trans (by rw [hsplit]; rfl))
            (hsub ⟨a ++ ['='], by rw [hsplit]; simp⟩) (onKey_eq_ok.mp h).1 fun _ hhead => ?_
          cases b with
          | nil =>
            rw [List.nil_append] at hhead
            exact hw'.not_mem (by decide) (List.mem_of_mem_head? hhead)
          | cons c b =>
            obtain rfl := Option.some.inj hhead
            exact (splitOnceAt_eq_none (by simp)).mp hcut ⟨a, b, by rw [hsplit]; simp⟩
        | none =>
          simp only [hcut''] at h
          obtain ⟨hkey, -⟩ := onKey_eq_ok.mp h
          rw [trim_trim] at hkey
          exact ⟨.has ⟨trim p, hkey⟩, by
            conv => arg 2; rw [hp]
            exact .has (k := ⟨trim p, hkey⟩) hw hw'⟩

end

/-! ## sets -/

def setKey (start : List Char) : Option (Bool × List Char) :=
  match stripSuffix "notin".toList start with
  | some key => some (false, trim key)
  | none => (stripSuffix "in".toList start).map (fun key => (true, trim key))

def setOf (within : Bool) (key : String) (values : List String) : Requirement :=
  if within then .isIn key values else .notIn key values

section
variable {p part start inside w : List Char} {r : Requirement} {k : Key} {within : Bool} {t : Term}

theorem parseSet_eq_ok : parseSet part start inside = .ok r ↔
    (∀ v ∈ split (· = ',') inside, ¬ Blank v) ∧ ∃ within key, setKey (trim start) = some (within, key)
      ∧ isValidKey key = true
      ∧ setOf within (String.ofList key) (((split (· = ',') inside).map trim).map String.ofList) = r := by
  have hvalues : (((split (· = ',') inside).map trim).isEmpty
      || ((split (· = ',') inside).map trim).any List.isEmpty) = true
        ↔ ¬ ∀ v ∈ split (· = ',') inside, ¬ Blank v := by
    have hne := split_ne_nil (· = ',') inside
    simp [hne, trim_eq_nil]
  unfold parseSet
  by_cases hblank : ∀ v ∈ split (· = ',') inside, ¬ Blank v
  · rw [if_neg (fun h => hvalues.mp h hblank), and_iff_right hblank]
    unfold setKey
    cases stripSuffix "notin".toList (trim start) with
    | some key => simp [onKey_eq_ok, setOf]
    | none =>
      cases stripSuffix "in".toList (trim start) with
      | some key => simp [onKey_eq_ok, setOf]
      | none => simp
  · rw [if_pos (hvalues.mpr hblank)]
    simp [hblank]

theorem parsePart_set (htrim : trim p = start ++ '(' :: (inside ++ [')'])) (hopen : '(' ∉ start) :
    parsePart p = parseSet (trim p) start inside := by
  have hlast : (trim p).getLast? = some ')' := by
    rw [htrim, ← List.cons_append, ← List.append_assoc, List.getLast?_append]
    rfl
  have hdrop : (trim p).dropLast = start ++ '(' :: inside := by
    rw [htrim, ← List.cons_append, ← List.append_assoc, List.dropLast_concat]
  have hcut : splitOnce '(' (trim p).dropLast = some (start, inside) :=
    splitOnce_eq_some.mpr ⟨hdrop, hopen⟩
  have hne : (trim p).isEmpty = false := by simp [htrim]
  have hcontains : (trim p).contains '(' = true := by simp [htrim]
  unfold parsePart
  simp only [hne, hcontains, hlast, hcut, ne_eq, not_true_eq_false, if_false, if_true, Bool.false_eq_true]

theorem set_of_parsePart (h : parsePart p = .ok r) (hopen : '(' ∈ trim p) : ∃ start inside,
    trim p = start ++ '(' :: (inside ++ [')']) ∧ '(' ∉ start ∧ parseSet (trim p) start inside = .ok r := by
  have hne : (trim p).isEmpty = false := by
    cases htrim : trim p with
    | nil => exact absurd (htrim ▸ hopen) List.not_mem_nil
    | cons c y => rfl
  have hcontains : (trim p).contains '(' = true := by simpa using hopen
  unfold parsePart at h
  simp only [hne, hcontains, if_true, Bool.false_eq_true, if_false] at h
  split at h
  · exact absurd h (by simp)
  · rename_i hlast
    rw [not_not] at hlast
    split at h
    · exact absurd h (by simp)
    · rename_i start inside hcut
      obtain ⟨hdrop, hstart⟩ := splitOnce_eq_some.mp hcut
      refine ⟨start, inside, ?_, hstart, h⟩
      have hconcat := List.dropLast_append_getLast? ')' hlast
      rw [← hconcat, hdrop]
      simp

theorem suffix_word (start : List Char) (within : Bool) :
    stripSuffix (word within) (start ++ word within) = some start :=
  stripSuffix_eq_some.mpr rfl

/-- a text that ends in `in` and in `notin` has a `not` before its `in` -/
theorem not_before_in {y : List Char} (h : start ++ word true = y ++ word false) :
    start = y ++ "not".toList := by
  have hword : word false = "not".toList ++ word true := by decide
  rw [hword, ← List.append_assoc] at h
  exact List.append_cancel_right h

theorem setKey_spaced (hw : Blank w) (hne : w ≠ []) :
    setKey (k.chars ++ w ++ word within) = some (within, k.chars) := by
  have hkey : trim (k.chars ++ w) = k.chars := by rw [trim_append_blank hw, k.trim]
  have hstrip := suffix_word (k.chars ++ w) within
  unfold setKey
  cases within with
  | false =>
    have hstrip' : stripSuffix "notin".toList (k.chars ++ w ++ word false) = some (k.chars ++ w) := hstrip
    simp only [hstrip', hkey]
  | true =>
    have hnone : stripSuffix "notin".toList (k.chars ++ w ++ word true) = none := by
      rw [Option.eq_none_iff_forall_not_mem]
      intro y hy
      have hnot := not_before_in (stripSuffix_eq_some.mp hy)
      have hlast : w.getLast? = some 't' := by
        have hends := congrArg List.getLast? hnot
        rw [List.getLast?_append, List.getLast?_append] at hends
        obtain ⟨c, hc⟩ : ∃ c, w.getLast? = some c := Option.ne_none_iff_exists'.mp (by simpa using hne)
        rw [hc] at hends ⊢
        exact hends
      exact hw.not_mem (by decide) (List.mem_of_mem_getLast? hlast)
    have hstrip' : stripSuffix "in".toList (k.chars ++ w ++ word true) = some (k.chars ++ w) := hstrip
    simp only [hnone, hstrip', Option.map_some, hkey]

/-- **The word before a set is found** where it is parted from its key by space, and where it is glued
to one. -/
theorem setKey_iff (hhead : ∀ c ∈ start.head?, isWhitespace c = false) :
    (∃ within key, setKey start = some (within, key) ∧ isValidKey key = true)
      ↔ Glued start ∨ Spaced start := by
  constructor
  · rintro ⟨within, key, hset, hvalid⟩
    have hfound : ∃ x, start = x ++ word within ∧ key = trim x ∧ start ≠ word false := by
      unfold setKey at hset
      split at hset
      · rename_i x hx
        obtain ⟨rfl, rfl⟩ := Prod.mk.inj (Option.some.inj hset)
        have hstart := stripSuffix_eq_some.mp hx
        refine ⟨x, hstart, rfl, fun hword => ?_⟩
        have hnil : x = [] := List.append_cancel_right (hstart.symm.trans (hword.trans (List.nil_append _).symm))
        rw [hnil] at hvalid
        exact absurd hvalid (by decide)
      · rename_i hnone
        obtain ⟨x, hx, heq⟩ := Option.map_eq_some_iff.mp hset
        obtain ⟨rfl, rfl⟩ := Prod.mk.inj heq
        refine ⟨x, stripSuffix_eq_some.mp hx, rfl, fun hword => ?_⟩
        rw [hword] at hnone
        exact absurd hnone (by decide)
    obtain ⟨x, hstart, rfl, hne⟩ := hfound
    obtain ⟨k, u, u', hu, hu', hx⟩ := exists_key hvalid
    have hunil : u = [] := by
      cases u with
      | nil => rfl
      | cons c u =>
        rw [hstart, hx] at hhead
        exact absurd (hu c List.mem_cons_self) (by simp [hhead c rfl])
    rw [hunil, List.nil_append] at hx
    cases u' with
    | nil => exact .inl ⟨k, within, by rw [hstart, hx, List.append_nil], hne⟩
    | cons c u' => exact .inr ⟨k, c :: u', within, hu', by simp, by rw [hstart, hx]⟩
  · rintro (⟨k, within, hstart, hne⟩ | ⟨k, w, within, hw, hwne, rfl⟩)
    · unfold setKey
      cases hstrip : stripSuffix "notin".toList start with
      | some y =>
        refine ⟨false, trim y, rfl, ?_⟩
        have hy : start = y ++ word false := stripSuffix_eq_some.mp hstrip
        have hyne : y ≠ [] := by
          rintro rfl
          exact hne hy
        have hsub : y ⊆ k.chars := by
          cases within with
          | false => exact (List.append_cancel_right (hstart.symm.trans hy)).symm ▸ List.Subset.refl _
          | true =>
            rw [not_before_in (hstart.symm.trans hy)]
            exact List.subset_append_left _ _
        rw [trim_of_all fun c hc => k.space (hsub hc)]
        exact isValidKey_iff.mpr ⟨hyne, fun c hc => (isValidKey_iff.mp k.valid).2 c (hsub hc)⟩
      | none =>
        cases within with
        | false =>
          have hfound : stripSuffix "notin".toList start = some k.chars := stripSuffix_eq_some.mpr hstart
          exact absurd (hstrip.symm.trans hfound) (by simp)
        | true =>
          have hin : stripSuffix "in".toList start = some k.chars := stripSuffix_eq_some.mpr hstart
          refine ⟨true, k.chars, ?_, k.valid⟩
          show (stripSuffix "in".toList start).map _ = _
          rw [hin, Option.map_some, k.trim]
    · exact ⟨within, k.chars, setKey_spaced hw hwne, k.valid⟩

theorem trim_member {values : List Word} {some : values ≠ []} {nonempty : ∀ v ∈ values, v.chars ≠ []}
    (h : Spelt (.member within k values some nonempty) p) : ∃ start w items,
      trim p = start ++ '(' :: ([','].intercalate items ++ [')']) ∧ Blank w ∧ w ≠ []
      ∧ trim start = k.chars ++ w ++ word within ∧ items.map trim = values.map Word.chars := by
  cases h with
  | @member _ _ _ _ _ items w w₁ w₂ w' hw hw₁ hne hw₂ hw' hitems =>
    have hkey : trim (k.chars ++ w₁ ++ word within) = k.chars ++ w₁ ++ word within := by
      refine trim_of_ends (fun c hc => ?_) (fun c hc => ?_)
      · obtain ⟨d, l, hk⟩ := List.exists_cons_of_ne_nil k.ne_nil
        rw [hk] at hc
        obtain rfl := Option.some.inj hc
        exact k.space (hk ▸ List.mem_cons_self)
      · have hlast : (word within).getLast? = Option.some 'n' := by cases within <;> rfl
        rw [List.getLast?_append, hlast] at hc
        obtain rfl := Option.some.inj hc
        decide
    refine ⟨(w ++ k.chars ++ w₁ ++ word within ++ w₂).dropWhile isWhitespace, w₁, items, ?_, hw₁, hne, ?_,
      hitems⟩
    · rw [trim_around (by decide), rdropWhile_append_cons (by decide), hw'.rdropWhile]
    · have hpad : w ++ k.chars ++ w₁ ++ word within ++ w₂ = w ++ (k.chars ++ w₁ ++ word within) ++ w₂ := by
        simp only [List.append_assoc]
      rw [trim_dropWhile, hpad, trim_pad hw hw₂, hkey]

theorem not_open (h : '(' ∉ trim start) : '(' ∉ start := fun hmem => h (mem_trim hmem (by decide))

theorem not_open_key (hw : Blank w) : '(' ∉ k.chars ++ w ++ word within := by
  have hword : '(' ∉ word within := by cases within <;> decide
  have hkey : '(' ∉ k.chars := k.not_mem (by decide)
  simp [hkey, hw.not_mem (show isWhitespace '(' = false by decide), hword]

theorem not_open_of_found (h : Glued start ∨ Spaced start) : '(' ∉ start := by
  rcases h with ⟨k, within, rfl, -⟩ | ⟨k, w, within, hw, -, rfl⟩
  · have hnone := @not_open_key [] k within (fun c hc => absurd hc List.not_mem_nil)
    rwa [List.append_nil] at hnone
  · exact not_open_key hw

theorem items_ne_nil {values : List Word} {items : List (List Char)} (hne : values ≠ [])
    (h : items.map trim = values.map Word.chars) : items ≠ [] := by
  rintro rfl
  exact hne (List.map_eq_nil_iff.mp h.symm)

theorem split_items {values : List Word} {items : List (List Char)} (hne : values ≠ [])
    (h : items.map trim = values.map Word.chars) :
    split (· = ',') ([','].intercalate items) = items :=
  split_intercalate (items_ne_nil hne h) fun item hitem hc => (items_plain h item hitem _ hc).2.2 rfl

/-- **A set whose word stands apart is read as it is meant.** -/
theorem parsePart_member {values : List Word} {some : values ≠ []} {nonempty : ∀ v ∈ values, v.chars ≠ []}
    (h : Spelt (.member within k values some nonempty) p) :
    parsePart p = .ok (Term.member within k values some nonempty).requirement := by
  obtain ⟨start, w, items, htrim, hw, hne, hstart, hitems⟩ := trim_member h
  have hopen : '(' ∉ start := not_open (hstart ▸ not_open_key hw)
  rw [parsePart_set htrim hopen, parseSet_eq_ok, split_items some hitems]
  refine ⟨fun v hv hblank => ?_, within, k.chars, hstart ▸ setKey_spaced hw hne, k.valid, ?_⟩
  · have hmem : trim v ∈ values.map Word.chars := hitems ▸ List.mem_map_of_mem hv
    obtain ⟨value, hvalue, heq⟩ := List.mem_map.mp hmem
    exact nonempty value hvalue (heq.trans (trim_eq_nil.mpr hblank))
  · rw [hitems, List.map_map]
    cases within <;> rfl

theorem exists_words {items : List (List Char)} (h : ∀ item ∈ items, ∀ c ∈ item, c ≠ '(' ∧ c ≠ ')' ∧ c ≠ ',') :
    ∃ values : List Word, items.map trim = values.map Word.chars := by
  induction items with
  | nil => exact ⟨[], rfl⟩
  | cons item items ih =>
    rw [List.forall_mem_cons] at h
    obtain ⟨values, hvalues⟩ := ih h.2
    obtain ⟨v, -, -, -, -, -, hv⟩ := exists_word h.1
    exact ⟨v :: values, by rw [List.map_cons, List.map_cons, hvalues, hv]⟩

/-- **What is read as a set is one**, or odd. -/
theorem spelt_or_odd (h : parsePart p = .ok r) (hopen : '(' ∈ trim p) : (∃ t, Spelt t p) ∨ Odd p := by
  obtain ⟨start, inside, htrim, hstart, hset⟩ := set_of_parsePart h hopen
  obtain ⟨hvalues, within, key, hkey, hvalid, -⟩ := parseSet_eq_ok.mp hset
  have hfound := (setKey_iff (fun c hc => head?_trim hc)).mp ⟨within, key, hkey, hvalid⟩
  by_cases hinside : '(' ∈ inside ∨ ')' ∈ inside
  · exact .inr ⟨start, inside, htrim, hvalues, hfound.imp_right fun hspaced => ⟨hspaced, hinside⟩⟩
  · rcases hfound with hglued | ⟨k, w₁, within, hw₁, hne, hspaced⟩
    · exact .inr ⟨start, inside, htrim, hvalues, .inl hglued⟩
    · refine .inl ?_
      rw [not_or] at hinside
      have hitems : ∀ item ∈ split (· = ',') inside, ∀ c ∈ item, c ≠ '(' ∧ c ≠ ')' ∧ c ≠ ',' := by
        intro item hitem c hc
        have hmem : c ∈ inside := mem_of_mem_split hitem hc
        exact ⟨fun heq => hinside.1 (heq ▸ hmem), fun heq => hinside.2 (heq ▸ hmem),
          fun heq => not_mem_of_mem_split hitem (heq ▸ hc)⟩
      obtain ⟨values, hwords⟩ := exists_words hitems
      have hsome : values ≠ [] := by
        rintro rfl
        exact split_ne_nil _ _ (List.map_eq_nil_iff.mp hwords)
      have hnonempty : ∀ v ∈ values, v.chars ≠ [] := by
        intro v hv
        have hmem : v.chars ∈ (split (· = ',') inside).map trim := hwords ▸ List.mem_map_of_mem hv
        obtain ⟨item, hitem, heq⟩ := List.mem_map.mp hmem
        exact fun hnil => hvalues item hitem (trim_eq_nil.mp (heq.trans hnil))
      obtain ⟨u, u', hu, hu', hp⟩ := exists_trim p
      obtain ⟨z, z', hz, hz', hs⟩ := exists_trim start
      have heq : p = (u ++ z) ++ k.chars ++ w₁ ++ word within ++ z'
          ++ '(' :: ([','].intercalate (split (· = ',') inside) ++ ')' :: u') := by
        rw [intercalate_split, hp, htrim]
        conv_lhs => rw [hs, hspaced]
        simp only [List.append_assoc, List.cons_append, List.nil_append]
      exact ⟨.member within k values hsome hnonempty,
        heq ▸ .member (blank_append.mpr ⟨hu, hz⟩) hw₁ hne hz' hu' hwords⟩

/-- **An odd piece is read.** -/
theorem read_of_odd (h : Odd p) : ∃ r, parsePart p = .ok r := by
  obtain ⟨start, inside, htrim, hvalues, hfound⟩ := h
  have hfound' : Glued (trim start) ∨ Spaced (trim start) := hfound.imp_right And.left
  obtain ⟨within, key, hkey, hvalid⟩ := (setKey_iff (fun c hc => head?_trim hc)).mpr hfound'
  refine ⟨_, (parsePart_set htrim (not_open (not_open_of_found hfound'))).trans
    (parseSet_eq_ok.mpr ⟨hvalues, within, key, hkey, hvalid, rfl⟩)⟩

/-- **An odd piece is no requirement.** -/
theorem not_spelt_of_odd (h : Odd p) : ¬ Spelt t p := by
  obtain ⟨start, inside, htrim, -, hfound⟩ := h
  have hopen' : '(' ∉ start := not_open (not_open_of_found (hfound.imp_right And.left))
  intro hspelt
  have hopen : '(' ∈ p := mem_of_mem_trim (htrim ▸ List.mem_append_right start List.mem_cons_self)
  by_cases hset : ∀ within k values some nonempty, t ≠ .member within k values some nonempty
  · exact plain_spelt hspelt hset hopen
  · simp only [ne_eq, not_forall, not_not] at hset
    obtain ⟨within, k, values, some, nonempty, rfl⟩ := hset
    obtain ⟨start', w, items, htrim', hw, hne, hstart', hitems⟩ := trim_member hspelt
    have hopen'' : '(' ∉ start' := not_open (hstart' ▸ not_open_key hw)
    obtain ⟨rfl, hinside⟩ := cut_first hopen'' hopen' (htrim'.symm.trans htrim)
    have hinside' : [','].intercalate items = inside := List.append_cancel_right hinside
    rcases hfound with ⟨k', within', hglued, -⟩ | ⟨-, hparen⟩
    · obtain ⟨c, l, rfl⟩ := List.exists_cons_of_ne_nil hne
      have hc : c ∈ k'.chars ++ word within' := by
        rw [← hglued, hstart']
        simp
      rcases List.mem_append.mp hc with hc | hc
      · exact absurd (hw c List.mem_cons_self) (by simp [k'.space hc])
      · have hspace : ∀ d ∈ word within', isWhitespace d = false := by
          cases within' <;> exact forall_of_all (by decide)
        exact absurd (hw c List.mem_cons_self) (by simp [hspace c hc])
    · have hnone : ∀ c, c ∈ inside → c ≠ '(' ∧ c ≠ ')' := by
        intro c hc
        rcases mem_intercalate (hinside' ▸ hc) with rfl | ⟨item, hitem, hc⟩
        · decide
        · exact ⟨(items_plain hitems item hitem c hc).1, (items_plain hitems item hitem c hc).2.1⟩
      rcases hparen with hparen | hparen
      · exact (hnone _ hparen).1 rfl
      · exact (hnone _ hparen).2 rfl

end

/-! ## selectors -/

section
variable {p : List Char} {t : Term} {l : List Term} {pieces : List (List Char)} {r : Requirement}

/-- **A requirement is read as it is meant**, unless it is shadowed. -/
theorem parsePart_spelt (h : Spelt t p) (hclear : ¬ Shadowed p) : parsePart p = .ok t.requirement := by
  cases t with
  | has k => exact parsePart_has h
  | lacks k => exact parsePart_lacks h
  | compare op k v => exact parsePart_compare h hclear
  | member within k values some nonempty => exact parsePart_member h

/-- **The pieces that are read**: the plain ones and the odd ones. -/
theorem read_iff (hwhole : scan 0 p = some 0) : (∃ r, parsePart p = .ok r) ↔ Plain p ∨ Odd p := by
  constructor
  · rintro ⟨r, h⟩
    have hclear : ¬ Shadowed p := fun hshadow => refused_of_shadowed hshadow h
    by_cases hopen : '(' ∈ trim p
    · exact (spelt_or_odd h hopen).imp_left fun hspelt => ⟨hspelt, hclear⟩
    · have hplain := plain_of_scan hwhole fun hmem => hopen (mem_trim hmem (by decide))
      exact .inl ⟨spelt_of_parsePlain h hopen fun c hc => hplain c (mem_of_mem_trim hc), hclear⟩
  · rintro (⟨⟨t, hspelt⟩, hclear⟩ | hodd)
    · exact ⟨t.requirement, parsePart_spelt hspelt hclear⟩
    · exact read_of_odd hodd

theorem spelt_iff : (∃ t, Spelt t p) ↔ Plain p ∨ Shadowed p := by
  constructor
  · intro h
    by_cases hshadow : Shadowed p
    · exact .inr hshadow
    · exact .inl ⟨h, hshadow⟩
  · rintro (h | ⟨op, k, v, h, -⟩)
    · exact h.1
    · exact ⟨_, h⟩

theorem pieces_unique {s : List Char} {pieces' : List (List Char)} (h : Pieces s pieces)
    (h' : Pieces s pieces') : pieces = pieces' :=
  Except.ok.inj ((splitRequirements_eq_ok.mpr h).symm.trans (splitRequirements_eq_ok.mpr h'))

theorem parse_blank {text : String} (h : trim text.toList = []) : parse text = .ok ⟨[]⟩ := by
  unfold parse
  simp [h]

theorem parse_eq_ok {text : String} (hne : trim text.toList ≠ []) {sel : LabelSelector} :
    parse text = .ok sel ↔ ∃ pieces, Pieces (trim text.toList) pieces
      ∧ List.Forall₂ (fun p r => parsePart p = .ok r) pieces sel.requirements := by
  have hparse : parse text
      = ((splitRequirements (trim text.toList)).bind (·.mapM parsePart)).map LabelSelector.mk := by
    unfold parse
    simp [hne]
  rw [hparse]
  cases hcut : splitRequirements (trim text.toList) with
  | error e =>
    simp only [Except.bind, Except.map, reduceCtorEq, false_iff, not_exists, not_and]
    intro pieces hpieces
    exact absurd (hcut.symm.trans (splitRequirements_eq_ok.mpr hpieces)) (by simp)
  | ok pieces =>
    have hpieces := splitRequirements_eq_ok.mp hcut
    show (pieces.mapM parsePart).map LabelSelector.mk = _ ↔ _
    constructor
    · intro h
      cases hread : pieces.mapM parsePart with
      | error e => exact absurd (hread ▸ h) (by simp [Except.map])
      | ok rs =>
        rw [hread] at h
        obtain rfl := Except.ok.inj h
        exact ⟨pieces, hpieces, Gate.mapM_eq_ok.mp hread⟩
    · rintro ⟨pieces', hpieces', hread⟩
      obtain rfl := pieces_unique hpieces hpieces'
      rw [Gate.mapM_eq_ok.mpr hread]
      rfl

theorem forall₂_exists {α β : Type} {R : α → β → Prop} {as : List α} :
    (∃ bs, List.Forall₂ R as bs) ↔ ∀ a ∈ as, ∃ b, R a b := by
  induction as with
  | nil => simp
  | cons a as ih =>
    rw [List.forall_mem_cons, ← ih]
    constructor
    · rintro ⟨bs, h⟩
      cases h with
      | cons hab hrest => exact ⟨⟨_, hab⟩, _, hrest⟩
    · rintro ⟨⟨b, hab⟩, bs, hrest⟩
      exact ⟨b :: bs, .cons hab hrest⟩

/-- **The selectors that are read** are those whose pieces are plain or odd. -/
theorem accepted_iff {text : String} (hpieces : Pieces (trim text.toList) pieces)
    (hne : trim text.toList ≠ []) : (∃ sel, parse text = .ok sel) ↔ ∀ p ∈ pieces, Plain p ∨ Odd p := by
  have hread : (∃ sel, parse text = .ok sel) ↔ ∀ p ∈ pieces, ∃ r, parsePart p = .ok r := by
    rw [← forall₂_exists]
    constructor
    · rintro ⟨sel, h⟩
      obtain ⟨pieces', hpieces', hread⟩ := (parse_eq_ok hne).mp h
      exact ⟨sel.requirements, pieces_unique hpieces' hpieces ▸ hread⟩
    · rintro ⟨rs, h⟩
      exact ⟨⟨rs⟩, (parse_eq_ok hne).mpr ⟨pieces, hpieces, h⟩⟩
  rw [hread]
  exact forall₂_congr fun p hp => read_iff (hpieces.whole p hp)

theorem grammatical_iff {s : List Char} (hpieces : Pieces (trim s) pieces) (hne : trim s ≠ []) :
    Grammatical s ↔ ∀ p ∈ pieces, Plain p ∨ Shadowed p := by
  simp only [← spelt_iff]
  constructor
  · rintro (hnil | ⟨pieces', hsome, hjoined, hspelt⟩)
    · exact absurd hnil hne
    · have hpieces' : Pieces (trim s) pieces' := by
        refine ⟨hjoined, hsome, fun p hp => ?_⟩
        obtain ⟨t, ht⟩ := hspelt p hp
        exact scan_spelt ht
      exact pieces_unique hpieces' hpieces ▸ hspelt
  · exact fun h => .inr ⟨pieces, hpieces.nonempty, hpieces.joined, h⟩

/-! ## selectors printed -/

theorem spelt_print (t : Term) : Spelt t t.print := by
  have hblank : Blank [] := fun c hc => absurd hc List.not_mem_nil
  have hspace : Blank [' '] := fun c hc => by
    rw [List.mem_singleton.mp hc]
    decide
  cases t with
  | has k =>
    have h := @Spelt.has k [] [] hblank hblank
    rwa [List.nil_append, List.append_nil] at h
  | lacks k =>
    have h := @Spelt.lacks k [] [] [] hblank hblank hblank
    rwa [List.nil_append, List.nil_append, List.append_nil] at h
  | compare op k v =>
    rw [Term.print]
    by_cases hfirst : op = .single ∧ v.chars.head? = some '='
    · have h := @Spelt.compare op k v [] [] [' '] [] hblank hblank hspace hblank (by simp)
      rw [if_pos hfirst]
      simpa only [List.nil_append, List.append_nil] using h
    · have h := @Spelt.compare op k v [] [] [] [] hblank hblank hblank hblank
        (by simpa using fun hop hhead => hfirst ⟨hop, hhead⟩)
      rw [if_neg hfirst]
      simpa only [List.nil_append, List.append_nil] using h
  | member within k values hsome hnonempty =>
    have hitems : (values.map Word.chars).map trim = values.map Word.chars := by
      rw [List.map_map]
      exact List.map_congr_left fun v _ => v.trimmed
    have h := @Spelt.member within k values hsome hnonempty (values.map Word.chars) [] [' '] [' '] [] hblank
      hspace (by simp) hspace hblank hitems
    unfold Term.print
    simpa only [List.nil_append, List.append_nil, List.append_assoc, List.cons_append] using h

/-- a text that begins and ends with no space -/
structure Bounded (p : List Char) : Prop where
  ne_nil : p ≠ []
  head : ∀ c ∈ p.head?, isWhitespace c = false
  last : ∀ c ∈ p.getLast?, isWhitespace c = false

theorem Bounded.append {a b : List Char} (ha : Bounded a) (hb : Bounded b) (m : List Char) :
    Bounded (a ++ (m ++ b)) := by
  obtain ⟨c, l, rfl⟩ := List.exists_cons_of_ne_nil ha.ne_nil
  refine ⟨by simp, fun d hd => ha.head d hd, fun d hd => ?_⟩
  obtain ⟨e, he⟩ := Option.ne_none_iff_exists'.mp (show b.getLast? ≠ none by simpa using hb.ne_nil)
  rw [List.getLast?_append, List.getLast?_append, he] at hd
  exact hb.last d (he.trans hd)

theorem bounded_of_all {p : List Char} (hne : p ≠ []) (h : ∀ c ∈ p, isWhitespace c = false) : Bounded p :=
  ⟨hne, fun c hc => h c (List.mem_of_mem_head? hc), fun c hc => h c (List.mem_of_mem_getLast? hc)⟩

theorem bounded_print (t : Term) : Bounded t.print := by
  have hkey : ∀ k : Key, Bounded k.chars := fun k => bounded_of_all k.ne_nil fun _ hc => k.space hc
  cases t with
  | has k => exact hkey k
  | lacks k => exact (@bounded_of_all ['!'] (by simp) (forall_of_all (by decide))).append (hkey k) []
  | compare op k v =>
    have hop : Bounded op.chars := by
      cases op <;> exact bounded_of_all (by decide) (forall_of_all (by decide))
    rw [Term.print]
    cases hv : v.chars with
    | nil =>
      rw [if_neg (by simp), List.nil_append, List.append_nil]
      exact (hkey k).append hop []
    | cons c l =>
      have hword : Bounded v.chars := by
        refine ⟨by simp [hv], fun d hd => head?_trim (v.trimmed.symm ▸ hd), fun d hd => ?_⟩
        exact getLast?_trim (v.trimmed.symm ▸ hd)
      rw [← hv, ← List.append_assoc op.chars]
      exact (hkey k).append hword _
  | member within k values hsome hnonempty =>
    have hclose : Bounded [')'] := bounded_of_all (by simp) (forall_of_all (by decide))
    have h := (hkey k).append hclose
      (' ' :: (word within ++ ' ' :: '(' :: [','].intercalate (values.map Word.chars)))
    simpa only [Term.print, List.append_assoc, List.cons_append] using h

theorem bounded_intercalate (hne : pieces ≠ []) (h : ∀ p ∈ pieces, Bounded p) :
    Bounded ([','].intercalate pieces) := by
  induction pieces with
  | nil => exact absurd rfl hne
  | cons p pieces ih =>
    rw [List.forall_mem_cons] at h
    cases pieces with
    | nil =>
      rw [List.intercalate_singleton]
      exact h.1
    | cons q pieces =>
      rw [List.intercalate_cons_cons, List.append_assoc]
      exact h.1.append (ih (by simp) h.2) [',']

theorem requirement_matches (t : Term) (labels : OrdMap String String) :
    t.requirement.matches labels = true ↔ t.holds labels.get? := by
  cases t with
  | has k => simp [Term.requirement, Requirement.matches, Term.holds, Option.isSome_iff_ne_none]
  | lacks k => simp [Term.requirement, Requirement.matches, Term.holds]
  | compare op k v =>
    cases op <;>
      cases hget : labels.get? k.text <;> simp [Term.requirement, Requirement.matches, Term.holds, hget]
  | member within k values hsome hnonempty =>
    have hcontains : ∀ val, (values.map Word.text).contains val = true
        ↔ ∃ v ∈ values, some val = some v.text := by
      intro val
      rw [List.contains_iff_mem, List.mem_map]
      exact exists_congr fun v => and_congr_right fun _ => by rw [Option.some.injEq, eq_comm]
    cases hget : labels.get? k.text with
    | none => cases within <;> simp [Term.requirement, Requirement.matches, Term.holds, hget]
    | some val =>
      cases within with
      | true =>
        simp only [Term.requirement, Requirement.matches, Term.holds, hget, Option.map_some, Option.getD_some]
        exact hcontains val
      | false =>
        simp only [Term.requirement, Requirement.matches, Term.holds, hget, Option.map_some, Option.getD_some,
          Bool.not_eq_true', ← Bool.not_eq_true, hcontains]
        push Not
        rfl

theorem trim_printed (hne : l ≠ []) : trim (printed l).toList = [','].intercalate (l.map Term.print)
    ∧ [','].intercalate (l.map Term.print) ≠ [] := by
  have hbounded := bounded_intercalate (show l.map Term.print ≠ [] by simpa using hne) fun p hp => by
    obtain ⟨t, -, rfl⟩ := List.mem_map.mp hp
    exact bounded_print t
  refine ⟨?_, hbounded.ne_nil⟩
  unfold printed
  rw [String.toList_ofList]
  exact trim_of_ends hbounded.head hbounded.last

theorem pieces_printed (hne : l ≠ []) : Pieces (trim (printed l).toList) (l.map Term.print) := by
  refine ⟨(trim_printed hne).1, by simpa using hne, fun p hp => ?_⟩
  obtain ⟨t, -, rfl⟩ := List.mem_map.mp hp
  exact scan_spelt (spelt_print t)

theorem parse_printed (hclear : ∀ t ∈ l, ¬ Shadowed t.print) :
    parse (printed l) = .ok ⟨l.map Term.requirement⟩ := by
  by_cases hne : l = []
  · rw [hne]
    exact parse_blank rfl
  · obtain ⟨htrim, hsome⟩ := trim_printed hne
    refine (parse_eq_ok (htrim ▸ hsome)).mpr ⟨l.map Term.print, pieces_printed hne, ?_⟩
    rw [List.forall₂_map_left_iff, List.forall₂_map_right_iff, List.forall₂_same]
    exact fun t ht => parsePart_spelt (spelt_print t) (hclear t ht)

theorem undisturbed_of_blank {s : List Char} (h : trim s = []) : Undisturbed s := by
  intro pieces hpieces
  have hnil : Pieces (trim s) [[]] := by
    rw [h]
    exact ⟨rfl, by simp, by simp [scan]⟩
  obtain rfl := pieces_unique hpieces hnil
  constructor
  · rintro ⟨p, hp, start, inside, htrim, -⟩
    obtain rfl := List.mem_singleton.mp hp
    exact absurd htrim (by simp [Text.trim])
  · rintro ⟨p, hp, op, k, v, hspelt, -⟩
    obtain rfl := List.mem_singleton.mp hp
    obtain ⟨x, y, htrim, -⟩ := trim_compare hspelt
    cases op <;> exact absurd htrim (by simp [Text.trim, Op.chars])

/-- two readings of the pieces agree on the whole unless a piece decides between them -/
theorem agree_iff {α : Type} {l : List α} {P O S : α → Prop} (hapart : ∀ a ∈ l, O a → ¬ P a ∧ ¬ S a)
    (hclear : ∀ a ∈ l, S a → ¬ P a) :
    ((∀ a ∈ l, P a ∨ O a) ↔ ∀ a ∈ l, P a ∨ S a)
      ↔ ((∃ a ∈ l, O a) → ∃ a ∈ l, ¬ P a ∧ ¬ O a) ∧ ((∃ a ∈ l, S a) → ∃ a ∈ l, ¬ P a ∧ ¬ S a) := by
  constructor
  · intro h
    constructor
    · rintro ⟨a, ha, hodd⟩
      by_contra hall
      push Not at hall
      have hread : ∀ a ∈ l, P a ∨ O a := fun b hb => or_iff_not_imp_left.mpr (hall b hb)
      rcases h.mp hread a ha with hplain | hshadow
      · exact (hapart a ha hodd).1 hplain
      · exact (hapart a ha hodd).2 hshadow
    · rintro ⟨a, ha, hshadow⟩
      by_contra hall
      push Not at hall
      have hspelt : ∀ a ∈ l, P a ∨ S a := fun b hb => or_iff_not_imp_left.mpr (hall b hb)
      rcases h.mpr hspelt a ha with hplain | hodd
      · exact hclear a ha hshadow hplain
      · exact (hapart a ha hodd).2 hshadow
  · rintro ⟨hodd, hshadow⟩
    constructor
    · intro h
      by_contra hall
      push Not at hall
      obtain ⟨a, ha, hplain, -⟩ := hall
      obtain ⟨b, hb, hplain', hodd'⟩ := hodd ⟨a, ha, (h a ha).resolve_left hplain⟩
      exact (h b hb).elim hplain' hodd'
    · intro h
      by_contra hall
      push Not at hall
      obtain ⟨a, ha, hplain, -⟩ := hall
      obtain ⟨b, hb, hplain', hshadow'⟩ := hshadow ⟨a, ha, (h a ha).resolve_left hplain⟩
      exact (h b hb).elim hplain' hshadow'

theorem accepted_as_meant_iff (text : String) :
    ((∃ sel, parse text = .ok sel) ↔ Grammatical text.toList) ↔ Undisturbed text.toList := by
  by_cases hblank : trim text.toList = []
  · have hparse : ∃ sel, parse text = .ok sel := ⟨_, parse_blank hblank⟩
    have hgrammar : Grammatical text.toList := .inl hblank
    exact iff_of_true (iff_of_true hparse hgrammar) (undisturbed_of_blank hblank)
  · have hagree : ∀ pieces : List (List Char), _ := fun pieces =>
      @agree_iff _ pieces Plain Odd Shadowed
        (fun p _ hodd => ⟨fun hplain => hplain.1.elim fun t ht => not_spelt_of_odd hodd ht,
          fun ⟨_, _, _, hspelt, _⟩ => not_spelt_of_odd hodd hspelt⟩)
        (fun p _ hshadow hplain => hplain.2 hshadow)
    by_cases hcut : ∃ pieces, Pieces (trim text.toList) pieces
    · obtain ⟨pieces, hpieces⟩ := hcut
      rw [accepted_iff hpieces hblank, grammatical_iff hpieces hblank, hagree]
      constructor
      · intro h pieces' hpieces'
        obtain rfl := pieces_unique hpieces' hpieces
        exact h
      · exact fun h => h pieces hpieces
    · have hrefused : ¬ ∃ sel, parse text = .ok sel := fun ⟨sel, h⟩ =>
        hcut (((parse_eq_ok hblank).mp h).imp fun pieces => And.left)
      have hnot : ¬ Grammatical text.toList := by
        rintro (hnil | ⟨pieces, hne, hjoined, hspelt⟩)
        · exact hblank hnil
        · exact hcut ⟨pieces, hjoined, hne, fun p hp => (hspelt p hp).elim fun t ht => scan_spelt ht⟩
      exact iff_of_true (iff_of_false hrefused hnot) fun pieces hpieces => absurd ⟨pieces, hpieces⟩ hcut

theorem clear_of_printed {sel : LabelSelector} (h : parse (printed l) = .ok sel) :
    ∀ t ∈ l, ¬ Shadowed t.print := by
  by_cases hne : l = []
  · simp [hne]
  · obtain ⟨htrim, hsome⟩ := trim_printed hne
    obtain ⟨pieces, hpieces, hread⟩ := (parse_eq_ok (htrim ▸ hsome)).mp h
    obtain rfl := pieces_unique hpieces (pieces_printed hne)
    intro t ht hshadow
    obtain ⟨r, hr⟩ := forall₂_exists.mp ⟨_, hread⟩ t.print (List.mem_map_of_mem ht)
    exact refused_of_shadowed hshadow hr

/-- **Selectors as they are meant**: a text is read exactly when it is one, and a list printed is read back
with its own meaning, exactly where no requirement is odd or shadowed that decides it. -/
theorem selectors_iff (text : String) (l : List Term) :
    (((∃ sel, parse text = .ok sel) ↔ Grammatical text.toList) ↔ Undisturbed text.toList)
    ∧ ((∃ sel, parse (printed l) = .ok sel
          ∧ ∀ labels, sel.matches labels = true ↔ ∀ t ∈ l, t.holds labels.get?)
        ↔ ∀ t ∈ l, ¬ Shadowed t.print) := by
  refine ⟨accepted_as_meant_iff text, fun ⟨sel, hparse, _⟩ => clear_of_printed hparse, fun hclear => ?_⟩
  refine ⟨_, parse_printed hclear, fun labels => ?_⟩
  unfold LabelSelector.matches
  rw [List.all_eq_true, List.forall_mem_map]
  exact forall₂_congr fun t _ => requirement_matches t labels

/-- **Read as something else**: a key that ends in `in` before a set loses its ending, and a value with an
operator in it is refused. -/
theorem mountain_read_otherwise :
    (¬ ((∃ sel, parse "mountain (a)" = .ok sel) ↔ Grammatical "mountain (a)".toList))
    ∧ ∃ (k : Key) (v : Word), ¬ ∃ sel, parse (printed [.compare .differs k v]) = .ok sel := by
  have hodd : Odd "mountain (a)".toList := by
    refine ⟨"mountain ".toList, ['a'], by decide +kernel, ?_, .inl ⟨⟨"mounta".toList, by decide +kernel⟩, true,
      by decide +kernel, by decide +kernel⟩⟩
    intro v hv
    have hva : v = ['a'] := by simpa [split] using hv
    rw [hva]
    exact fun hblank => absurd (hblank 'a' (by simp)) (by decide)
  refine ⟨fun h => ?_, ⟨"a".toList, by decide⟩,
    ⟨"b==c".toList, by decide, forall_of_all (by decide)⟩, ?_⟩
  · have hread : ∃ sel, parse "mountain (a)" = .ok sel := ⟨⟨[.isIn "mounta" ["a"]]⟩, by decide +kernel⟩
    have htrim : trim "mountain (a)".toList = "mountain (a)".toList := by decide +kernel
    have hpieces : Pieces (trim "mountain (a)".toList) ["mountain (a)".toList] := by
      rw [htrim]
      exact ⟨by decide +kernel, by simp, by decide +kernel⟩
    have hspelt := (grammatical_iff hpieces (by decide +kernel)).mp (h.mp hread) "mountain (a)".toList
      List.mem_cons_self
    obtain ⟨t, ht⟩ := spelt_iff.mpr hspelt
    exact not_spelt_of_odd hodd ht
  · rintro ⟨sel, h⟩
    have herror : (parse (printed [.compare .differs ⟨"a".toList, by decide⟩
        ⟨"b==c".toList, by decide, forall_of_all (by decide)⟩])).isOk = false := by decide +kernel
    rw [h] at herror
    exact absurd herror (by simp [Except.isOk, Except.toBool])

end

end Selector
end Portal
