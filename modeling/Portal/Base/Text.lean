import Mathlib.Algebra.GroupWithZero.Nat
import Mathlib.Data.List.Basic

/-!
# Texts as lists of characters: trimming, splitting and reading numbers

The standard library's string functions that the models read texts with, on `List Char`.

* `split`, `splitOnce`, `splitWhitespace`, `trim`   as `str::split`, `str::split_once`,
  `str::split_whitespace` and `str::trim` cut;
* `charIndices`, `utf8Len`   the characters with their byte positions, the length in bytes;
* `splitLast`         what stands after the last separator;
* `isDigit`, `isAsciiLetter`, `isHexDigit`   characters by kind;
* `after`, `before`, `startsWith`, `endsWith`, `trimmed`   the prefixes and suffixes of a string;
* `parseUnsigned w`   `str::parse` of an unsigned number of `w` bits: decimal digits, one leading
  `+` allowed, nothing that does not fit.
-/

namespace Portal
namespace Text

/-- the characters with the Unicode property White_Space -/
def isWhitespace (c : Char) : Bool :=
  let n := c.toNat
  (9 ≤ n && n ≤ 13) || n == 0x20 || n == 0x85 || n == 0xA0 || n == 0x1680
    || (0x2000 ≤ n && n ≤ 0x200A) || n == 0x2028 || n == 0x2029 || n == 0x202F || n == 0x205F
    || n == 0x3000

def trim (s : List Char) : List Char :=
  ((s.dropWhile isWhitespace).reverse.dropWhile isWhitespace).reverse

/-- cut at every character that satisfies `p`: always at least one piece -/
def split (p : Char → Bool) : List Char → List (List Char)
  | [] => [[]]
  | c :: cs =>
    if p c then [] :: split p cs
    else
      match split p cs with
      | [] => [[c]]
      | w :: ws => (c :: w) :: ws

/-- cut at the first `c` -/
def splitOnce (c : Char) : List Char → Option (List Char × List Char)
  | [] => none
  | x :: xs => if x = c then some ([], xs) else (splitOnce c xs).map (fun p => (x :: p.1, p.2))

def splitWhitespace (s : List Char) : List (List Char) :=
  (split isWhitespace s).filter (fun w => !w.isEmpty)

/-- each character with the position of its first byte, the first one at `pos` -/
def charIndices (pos : Nat) : List Char → List (Nat × Char)
  | [] => []
  | c :: cs => (pos, c) :: charIndices (pos + c.utf8Size) cs

def utf8Len (s : List Char) : Nat := (s.map Char.utf8Size).sum

/-- the last piece of a cut: `rsplit` and its first piece -/
def splitLast (p : Char → Bool) (s : List Char) : List Char := ((split p s).getLast?).getD []

def isDigit (c : Char) : Bool := '0' ≤ c && c ≤ '9'

def isAsciiLetter (c : Char) : Bool := ('a' ≤ c && c ≤ 'z') || ('A' ≤ c && c ≤ 'Z')

def isHexDigit (c : Char) : Bool := isDigit c || ('a' ≤ c && c ≤ 'f') || ('A' ≤ c && c ≤ 'F')

def digitsValue (ds : List Char) : Nat := ds.foldl (fun n c => 10 * n + (c.toNat - '0'.toNat)) 0

/-- the digits of a number, one leading `+` taken off -/
def unsigned : List Char → List Char
  | '+' :: ds => ds
  | ds => ds

def parseUnsigned (w : Nat) (s : List Char) : Option Nat :=
  let ds := unsigned s
  if ds.isEmpty || !ds.all isDigit then none
  else if digitsValue ds < 2 ^ w then some (digitsValue ds)
  else none

/-! ## texts as strings -/

def after (start s : String) : Option String :=
  if start.toList.isPrefixOf s.toList then some (String.ofList (s.toList.drop start.toList.length))
  else none

def before (tail s : String) : Option String :=
  if tail.toList.isSuffixOf s.toList then
    some (String.ofList (s.toList.take (s.toList.length - tail.toList.length)))
  else none

def startsWith (start s : String) : Bool := start.toList.isPrefixOf s.toList

def endsWith (tail s : String) : Bool := tail.toList.isSuffixOf s.toList

/-- a text without its surrounding space -/
def trimmed (s : String) : String := String.ofList (trim s.toList)

/-! ## what the cuts give -/

theorem split_ne_nil (p : Char → Bool) (s : List Char) : split p s ≠ [] := by
  induction s with
  | nil => simp [split]
  | cons c cs ih =>
    unfold split
    split
    · simp
    · split <;> simp

theorem map_charIndices (pos : Nat) (s : List Char) : (charIndices pos s).map Prod.snd = s := by
  induction s generalizing pos with
  | nil => rfl
  | cons c cs ih =>
    unfold charIndices
    rw [List.map_cons, ih]

theorem split_append {p : Char → Bool} {w : List Char} (hw : ∀ c ∈ w, p c = false) {s : Char}
    (hs : p s = true) (rest : List Char) : split p (w ++ s :: rest) = w :: split p rest := by
  induction w with
  | nil => simp [split, hs]
  | cons c w ih =>
    have hc : p c = false := hw c (List.mem_cons_self ..)
    rw [List.cons_append, split, hc, ih (fun d hd => hw d (List.mem_cons_of_mem c hd))]
    rfl

theorem split_of_none {p : Char → Bool} {w : List Char} (hw : ∀ c ∈ w, p c = false) :
    split p w = [w] := by
  induction w with
  | nil => rfl
  | cons c w ih =>
    have hc : p c = false := hw c (List.mem_cons_self ..)
    rw [split, hc, ih (fun d hd => hw d (List.mem_cons_of_mem c hd))]
    rfl

theorem splitOnce_eq_some {c : Char} {s a b : List Char} :
    splitOnce c s = some (a, b) ↔ s = a ++ c :: b ∧ c ∉ a := by
  induction s generalizing a with
  | nil => simp [splitOnce]
  | cons x xs ih =>
    unfold splitOnce
    by_cases h : x = c
    · subst h
      rw [if_pos rfl]
      constructor
      · intro h
        obtain ⟨rfl, rfl⟩ : [] = a ∧ xs = b := by simpa using h
        exact ⟨rfl, List.not_mem_nil⟩
      · rintro ⟨h1, h2⟩
        cases a with
        | nil => simpa using h1
        | cons y ys =>
          rw [List.cons_append, List.cons.injEq] at h1
          exact absurd (h1.1 ▸ List.mem_cons_self ..) h2
    · rw [if_neg h, Option.map_eq_some_iff]
      constructor
      · rintro ⟨⟨a', b'⟩, h1, h2⟩
        obtain ⟨rfl, rfl⟩ : x :: a' = a ∧ b' = b := by simpa using h2
        obtain ⟨h3, h4⟩ := ih.mp h1
        exact ⟨by rw [h3]; rfl, by simp [h4, Ne.symm h]⟩
      · rintro ⟨h1, h2⟩
        cases a with
        | nil => exact absurd (List.cons.inj h1).1 h
        | cons y ys =>
          rw [List.cons_append, List.cons.injEq] at h1
          obtain ⟨rfl, h1⟩ := h1
          rw [List.mem_cons, not_or] at h2
          exact ⟨(ys, b), ih.mpr ⟨h1, h2.2⟩, rfl⟩

theorem splitOnce_eq_none {c : Char} {s : List Char} : splitOnce c s = none ↔ c ∉ s := by
  induction s with
  | nil => simp [splitOnce]
  | cons x xs ih =>
    unfold splitOnce
    by_cases h : x = c
    · subst h; simp
    · rw [if_neg h, Option.map_eq_none_iff, ih, List.mem_cons, not_or]
      exact ⟨fun h' => ⟨Ne.symm h, h'⟩, fun h' => h'.2⟩

/-- a character that is neither a digit nor `+` stands in no number -/
theorem not_mem_of_parseUnsigned {w n : Nat} {s : List Char} {c : Char}
    (h : parseUnsigned w s = some n) (hd : isDigit c = false) (hp : c ≠ '+') : c ∉ s := by
  unfold parseUnsigned at h
  simp only at h
  split at h
  · exact absurd h (by simp)
  · rename_i hc
    have hall : (unsigned s).all isDigit = true := by
      cases h : (unsigned s).all isDigit
      · simp [h] at hc
      · rfl
    have hun : c ∉ unsigned s := by
      intro hm
      have := List.all_eq_true.mp hall c hm
      rw [hd] at this
      exact Bool.false_ne_true this
    unfold unsigned at hun
    split at hun
    · rw [List.mem_cons, not_or]
      exact ⟨hp, hun⟩
    · exact hun

theorem cut_first {c : Char} {l l' r r' : List Char} (hl : c ∉ l) (hl' : c ∉ l')
    (h : l ++ c :: r = l' ++ c :: r') : l = l' ∧ r = r' := by
  induction l generalizing l' with
  | nil =>
    cases l' with
    | nil => exact ⟨rfl, (List.cons.inj h).2⟩
    | cons a l' => exact absurd (List.mem_cons.mpr (Or.inl (List.cons.inj h).1)) hl'
  | cons b l ih =>
    cases l' with
    | nil => exact absurd (List.mem_cons.mpr (Or.inl (List.cons.inj h).1.symm)) hl
    | cons a l' =>
      obtain ⟨hab, htail⟩ := List.cons.inj h
      obtain ⟨hl2, hr⟩ := ih (fun hm => hl (List.mem_cons_of_mem _ hm))
        (fun hm => hl' (List.mem_cons_of_mem _ hm)) htail
      exact ⟨by rw [hab, hl2], hr⟩

end Text
end Portal
