import Mathlib.Tactic.IntervalCases
import Portal.Base.Document

/-!
# The text of a JSON value

The compact text `serde_json::to_string` and `JSON.stringify` write: members in the order they
stand, no space between.  Safe integers are written in decimal; what a language makes of any other
number is its own (`other`).  A text determines its value, the order of members included.

* `Value.All`          a property of every number and of every object's keys;
* `Value.chars`        the text, as characters;
* `unescape_quote`     the text of a string determines it;
* `chars_append_inj`   a text followed by a delimiter determines the value and what follows;
* `chars_inj`          a text determines its value.
-/

namespace Portal

namespace Value

/-! ## values taken apart -/

theorem induction {P : Value → Prop} (null : P .null) (bool : ∀ b, P (.bool b))
    (number : ∀ n, P (.number n)) (string : ∀ text, P (.string text))
    (array : ∀ items : List Value, (∀ v ∈ items, P v) → P (.array items))
    (object : ∀ fields : List (String × Value), (∀ p ∈ fields, P p.2) → P (.object fields))
    (v : Value) : P v := by
  -- by size would do for objects alone; the recursor goes into items and members at once
  refine Value.rec (motive_1 := P) (motive_2 := fun items => ∀ v ∈ items, P v)
    (motive_3 := fun fields => ∀ p ∈ fields, P p.2) (motive_4 := fun p => P p.2)
    null bool number string array object ?_ ?_ ?_ ?_ ?_ v
  · exact fun _ h => absurd h (by simp)
  · intro head tail hhead htail v hv
    rcases List.mem_cons.mp hv with rfl | hv
    · exact hhead
    · exact htail v hv
  · exact fun _ h => absurd h (by simp)
  · intro head tail hhead htail p hp
    rcases List.mem_cons.mp hp with rfl | hp
    · exact hhead
    · exact htail p hp
  · exact fun _ _ h => h

section
variable (N : Number → Prop) (O : List String → Prop)

mutual

def All : Value → Prop
  | .number n => N n
  | .array items => AllItems items
  | .object fields => O (fields.map Prod.fst) ∧ AllFields fields
  | _ => True

def AllItems : List Value → Prop
  | [] => True
  | v :: items => v.All ∧ AllItems items

def AllFields : List (String × Value) → Prop
  | [] => True
  | (_, v) :: fields => v.All ∧ AllFields fields

end

variable {N O}

theorem all_array {items : List Value} : (Value.array items).All N O ↔ ∀ v ∈ items, v.All N O := by
  show AllItems N O items ↔ _
  induction items with
  | nil => simp [AllItems]
  | cons v items ih =>
    unfold AllItems
    rw [ih, List.forall_mem_cons]

theorem all_object {fields : List (String × Value)} : (Value.object fields).All N O ↔
    O (fields.map Prod.fst) ∧ ∀ p ∈ fields, p.2.All N O := by
  have hfields : AllFields N O fields ↔ ∀ p ∈ fields, p.2.All N O := by
    induction fields with
    | nil => simp [AllFields]
    | cons p fields ih =>
      obtain ⟨k, v⟩ := p
      unfold AllFields
      rw [ih, List.forall_mem_cons]
  show O _ ∧ AllFields N O fields ↔ _
  rw [hfields]

end

end Value

/-! ## the text -/

/-- an integer every language holds exactly -/
def Number.IsSafe : Number → Prop
  | .int n => n.natAbs < 2 ^ 53
  | .float _ => False

instance (n : Number) : Decidable n.IsSafe :=
  match n with
  | .int n => inferInstanceAs (Decidable (n.natAbs < 2 ^ 53))
  | .float _ => inferInstanceAs (Decidable False)

section
variable (other : Number → List Char)

def Number.chars : Number → List Char
  | .int n => if n.natAbs < 2 ^ 53 then n.repr.toList else other (.int n)
  | .float q => other (.float q)

namespace Value

mutual

def chars : Value → List Char
  | .null => "null".toList
  | .bool true => "true".toList
  | .bool false => "false".toList
  | .number n => n.chars other
  | .string text => (quote text).toList
  | .array [] => ['[', ']']
  | .array (v :: items) => '[' :: (chars v ++ charsItems items)
  | .object [] => ['\x7b', '\x7d']
  | .object ((key, v) :: fields) =>
    '\x7b' :: ((quote key).toList ++ ':' :: (chars v ++ charsFields fields))

def charsItems : List Value → List Char
  | [] => [']']
  | v :: items => ',' :: (chars v ++ charsItems items)

def charsFields : List (String × Value) → List Char
  | [] => ['\x7d']
  | (key, v) :: fields => ',' :: ((quote key).toList ++ ':' :: (chars v ++ charsFields fields))

end

end Value

end

/-! ## strings -/

/-- the first character of a string's text, and the rest -/
def unescapeChar : List Char → Option (Char × List Char)
  | '\\' :: 'b' :: r => some (Char.ofNat 8, r)
  | '\\' :: 't' :: r => some (Char.ofNat 9, r)
  | '\\' :: 'n' :: r => some (Char.ofNat 10, r)
  | '\\' :: 'f' :: r => some (Char.ofNat 12, r)
  | '\\' :: 'r' :: r => some (Char.ofNat 13, r)
  | '\\' :: 'u' :: '0' :: '0' :: a :: b :: r => some (Char.ofNat (16 * hexValue a + hexValue b), r)
  | '\\' :: c :: r => some (c, r)
  | '"' :: _ => none
  | c :: r => some (c, r)
  | [] => none
where
  hexValue (c : Char) : Nat := if c.toNat < 58 then c.toNat - 48 else c.toNat - 87

theorem hexValue_hexDigit {n : Nat} (h : n < 16) : unescapeChar.hexValue (hexDigit n) = n := by
  interval_cases n <;> decide

theorem unescapeChar_escapeChar (c : Char) (r : List Char) :
    unescapeChar (escapeChar c ++ r) = some (c, r) := by
  have hcode : ∀ n, c.toNat = n → Char.ofNat n = c := fun n h => h ▸ Char.ofNat_toNat c
  unfold escapeChar
  split_ifs with h1 h2 h3 h4 h5 h6 h7 h8
  · subst h1
    rfl
  · subst h2
    rfl
  · exact congrArg (fun d => some (d, r)) (hcode 8 h3)
  · exact congrArg (fun d => some (d, r)) (hcode 9 h4)
  · exact congrArg (fun d => some (d, r)) (hcode 10 h5)
  · exact congrArg (fun d => some (d, r)) (hcode 12 h6)
  · exact congrArg (fun d => some (d, r)) (hcode 13 h7)
  · have hhigh := hexValue_hexDigit (n := c.toNat / 16) (by omega)
    have hlow := hexValue_hexDigit (n := c.toNat % 16) (by omega)
    have hvalue : 16 * (c.toNat / 16) + c.toNat % 16 = c.toNat := by omega
    show some (Char.ofNat (16 * unescapeChar.hexValue (hexDigit (c.toNat / 16))
      + unescapeChar.hexValue (hexDigit (c.toNat % 16))), r) = some (c, r)
    rw [hhigh, hlow, hvalue, Char.ofNat_toNat]
  · rw [List.singleton_append]
    unfold unescapeChar
    split <;> simp_all

theorem quote_append_inj {s t : String} {r r' : List Char}
    (h : (quote s).toList ++ r = (quote t).toList ++ r') : s = t ∧ r = r' := by
  have hchars : ∀ (a b : List Char), a.flatMap escapeChar ++ '"' :: r
      = b.flatMap escapeChar ++ '"' :: r' → a = b ∧ r = r' := by
    intro a
    induction a with
    | nil =>
      intro b hb
      cases b with
      | nil => exact ⟨rfl, (List.cons.inj hb).2⟩
      | cons c b =>
        have hnone := congrArg unescapeChar hb
        rw [List.flatMap_cons, List.append_assoc, unescapeChar_escapeChar] at hnone
        exact absurd hnone (by simp [unescapeChar])
    | cons c a ih =>
      intro b hb
      rw [List.flatMap_cons, List.append_assoc] at hb
      have hfirst := congrArg unescapeChar hb
      rw [unescapeChar_escapeChar] at hfirst
      cases b with
      | nil => exact absurd hfirst (by simp [unescapeChar])
      | cons d b =>
        rw [List.flatMap_cons, List.append_assoc, unescapeChar_escapeChar] at hfirst
        simp only [Option.some.injEq, Prod.mk.injEq] at hfirst
        obtain ⟨rfl, hrest⟩ := hfirst
        obtain ⟨rfl, hr⟩ := ih b hrest
        exact ⟨rfl, hr⟩
  unfold quote at h
  rw [String.toList_ofList, String.toList_ofList, List.cons_append, List.cons_append,
    List.append_assoc, List.append_assoc] at h
  obtain ⟨hlist, hr⟩ := hchars _ _ (List.cons.inj h).2
  exact ⟨String.toList_inj.mp hlist, hr⟩

/-! ## numbers -/

/-- what may follow a value: the end, a comma or a closing bracket -/
def Closed (r : List Char) : Prop := ∀ c ∈ r.head?, c = ',' ∨ c = ']' ∨ c = '\x7d'

theorem append_inj_of_forall {P : Char → Prop} {a b r r' : List Char} (ha : ∀ c ∈ a, P c)
    (hb : ∀ c ∈ b, P c) (hr : ∀ c ∈ r.head?, ¬ P c) (hr' : ∀ c ∈ r'.head?, ¬ P c)
    (h : a ++ r = b ++ r') : a = b ∧ r = r' := by
  induction a generalizing b with
  | nil =>
    cases b with
    | nil => exact ⟨rfl, h⟩
    | cons d b =>
      rw [List.nil_append] at h
      exact absurd (hb d List.mem_cons_self) (hr d (by rw [h]; rfl))
  | cons c a ih =>
    cases b with
    | nil =>
      rw [List.nil_append] at h
      exact absurd (ha c List.mem_cons_self) (hr' c (by rw [← h]; rfl))
    | cons d b =>
      obtain ⟨rfl, hrest⟩ := List.cons.inj h
      obtain ⟨rfl, hr⟩ := ih (fun c hc => ha c (List.mem_cons_of_mem _ hc))
        (fun c hc => hb c (List.mem_cons_of_mem _ hc)) hrest
      exact ⟨rfl, hr⟩

def numeric (c : Char) : Bool := c.isDigit || c = '-'

theorem numeric_repr (n : Int) : ∀ c ∈ n.repr.toList, numeric c = true := by
  have hnat : ∀ (m : Nat), ∀ c ∈ m.repr.toList, numeric c = true := by
    intro m c hc
    have hdigit : c.isDigit = true := by
      have hc' : c ∈ Nat.toDigits 10 m := by simpa using hc
      exact Nat.isDigit_of_mem_toDigits (by omega) (by omega) hc'
    unfold numeric
    rw [hdigit, Bool.true_or]
  intro c hc
  cases n with
  | ofNat m => exact hnat m c hc
  | negSucc m =>
    have hneg : (Int.negSucc m).repr.toList = '-' :: (Nat.succ m).repr.toList := by
      show ("-" ++ Nat.repr (Nat.succ m)).toList = _
      rw [String.toList_append]
      rfl
    rw [hneg] at hc
    rcases List.mem_cons.mp hc with rfl | hc
    · rfl
    · exact hnat _ c hc

theorem intRepr_inj {m n : Int} (h : m.repr = n.repr) : m = n := by
  have hsigned : ∀ a b : Nat, (Int.ofNat a).repr ≠ (Int.negSucc b).repr := by
    intro a b hab
    have hlist := congrArg String.toList hab
    have hneg : (Int.negSucc b).repr.toList = '-' :: (Nat.succ b).repr.toList := by
      show ("-" ++ Nat.repr (Nat.succ b)).toList = _
      rw [String.toList_append]
      rfl
    rw [hneg] at hlist
    have hmem : '-' ∈ Nat.toDigits 10 a := by
      have : '-' ∈ (Int.ofNat a).repr.toList := by rw [hlist]; exact List.mem_cons_self
      simpa using (show '-' ∈ a.repr.toList from this)
    exact absurd (Nat.isDigit_of_mem_toDigits (by omega) (by omega) hmem) (by decide)
  cases m with
  | ofNat a =>
    cases n with
    | ofNat b => rw [natRepr_inj (show a.repr = b.repr from h)]
    | negSucc b => exact absurd h (hsigned a b)
  | negSucc a =>
    cases n with
    | ofNat b => exact absurd h.symm (hsigned b a)
    | negSucc b =>
      have hdigits : (Nat.succ a).repr = (Nat.succ b).repr := by
        have hlist := congrArg String.toList (show "-" ++ Nat.repr (Nat.succ a) = "-" ++ Nat.repr (Nat.succ b) from h)
        rw [String.toList_append, String.toList_append] at hlist
        exact String.toList_injective (List.append_cancel_left hlist)
      rw [Nat.succ.inj (natRepr_inj hdigits)]

theorem repr_ne_nil (n : Int) : n.repr.toList ≠ [] := by
  cases n with
  | ofNat m =>
    intro h
    exact Nat.repr_ne_empty (String.toList_eq_nil_iff.mp h)
  | negSucc m =>
    show ("-" ++ Nat.repr (Nat.succ m)).toList ≠ []
    rw [String.toList_append]
    simp

theorem not_numeric_of_closed {r : List Char} (hr : Closed r) : ∀ c ∈ r.head?, ¬ numeric c = true := by
  intro c hc
  rcases hr c hc with rfl | rfl | rfl <;> decide

/-! ## a text determines its value -/

section
variable (other : Number → List Char)

theorem Number.chars_of_isSafe {n : Number} (h : n.IsSafe) :
    ∃ i, n = .int i ∧ n.chars other = i.repr.toList := by
  cases n with
  | int i => exact ⟨i, rfl, if_pos h⟩
  | float q => exact absurd h (by simp [Number.IsSafe])

namespace Value

/-- the character a value's text begins with, a zero for every number -/
def lead : Value → Char
  | .null => 'n'
  | .bool true => 't'
  | .bool false => 'f'
  | .number _ => '0'
  | .string _ => '"'
  | .array _ => '['
  | .object _ => '\x7b'

abbrev Safe (v : Value) : Prop := v.All Number.IsSafe (fun _ => True)

theorem head?_chars {v : Value} (hv : v.Safe) (r : List Char) :
    (chars other v ++ r).head?.map (fun c => if numeric c then '0' else c) = some v.lead := by
  cases v with
  | null => rfl
  | bool b => cases b <;> rfl
  | number n =>
    obtain ⟨i, -, hchars⟩ := Number.chars_of_isSafe other (show n.IsSafe from hv)
    show ((n.chars other ++ r).head?).map _ = _
    rw [hchars]
    cases hrepr : i.repr.toList with
    | nil => exact absurd hrepr (repr_ne_nil i)
    | cons c rest =>
      have hc := numeric_repr i c (by rw [hrepr]; exact List.mem_cons_self)
      simp [hc, lead]
  | string text =>
    show ((quote text).toList ++ r).head?.map _ = _
    unfold quote
    rw [String.toList_ofList]
    rfl
  | array items => cases items <;> rfl
  | object fields => cases fields <;> rfl

variable {other}

theorem lead_eq {v w : Value} (hv : v.Safe) (hw : w.Safe) {r r' : List Char}
    (h : chars other v ++ r = chars other w ++ r') : v.lead = w.lead := by
  have hheads := head?_chars other hv r
  rw [h, head?_chars other hw r'] at hheads
  exact (Option.some.inj hheads).symm

theorem cons_ne_chars {c : Char} (hc : c = ']' ∨ c = '\x7d') {v : Value} (hv : v.Safe)
    (r r' : List Char) : c :: r ≠ chars other v ++ r' := by
  intro h
  have hhead := head?_chars other hv r'
  rw [← h] at hhead
  have hlead : v.lead = c := by
    rcases hc with rfl | rfl <;> exact (Option.some.inj hhead).symm
  rw [← hlead] at hc
  cases v with
  | bool b => cases b <;> exact absurd hc (by simp [lead])
  | _ => exact absurd hc (by simp [lead])

theorem charsItems_append_inj {items : List Value}
    (ih : ∀ v ∈ items, ∀ w : Value, w.Safe → ∀ r r', Closed r → Closed r' →
      chars other v ++ r = chars other w ++ r' → v = w ∧ r = r')
    {items' : List Value} (hitems' : ∀ w ∈ items', w.Safe) {r r' : List Char}
    (h : charsItems other items ++ r = charsItems other items' ++ r') : items = items' ∧ r = r' := by
  have hclosed : ∀ (items : List Value) (r : List Char), Closed (charsItems other items ++ r) := by
    intro items r
    cases items <;> simp [Closed, charsItems]
  induction items generalizing items' with
  | nil =>
    cases items' with
    | nil => exact ⟨rfl, (List.cons.inj h).2⟩
    | cons w items' => exact absurd (List.cons.inj h).1 (by decide)
  | cons v items ihitems =>
    cases items' with
    | nil => exact absurd (List.cons.inj h).1 (by decide)
    | cons w items' =>
      unfold charsItems at h
      rw [List.cons_append, List.cons_append, List.append_assoc, List.append_assoc] at h
      obtain ⟨rfl, hrest⟩ := ih v List.mem_cons_self w (hitems' w List.mem_cons_self) _ _
        (hclosed items r) (hclosed items' r') (List.cons.inj h).2
      obtain ⟨rfl, hr⟩ := ihitems (fun v hv => ih v (List.mem_cons_of_mem _ hv))
        (fun w hw => hitems' w (List.mem_cons_of_mem _ hw)) hrest
      exact ⟨rfl, hr⟩

theorem charsFields_append_inj {fields : List (String × Value)}
    (ih : ∀ p ∈ fields, ∀ w : Value, w.Safe → ∀ r r', Closed r → Closed r' →
      chars other p.2 ++ r = chars other w ++ r' → p.2 = w ∧ r = r')
    {fields' : List (String × Value)} (hfields' : ∀ p ∈ fields', p.2.Safe) {r r' : List Char}
    (h : charsFields other fields ++ r = charsFields other fields' ++ r') :
    fields = fields' ∧ r = r' := by
  have hclosed : ∀ (fields : List (String × Value)) (r : List Char),
      Closed (charsFields other fields ++ r) := by
    intro fields r
    cases fields <;> simp [Closed, charsFields]
  induction fields generalizing fields' with
  | nil =>
    cases fields' with
    | nil => exact ⟨rfl, (List.cons.inj h).2⟩
    | cons q fields' => exact absurd (List.cons.inj h).1 (by decide)
  | cons p fields ihfields =>
    cases fields' with
    | nil => exact absurd (List.cons.inj h).1 (by decide)
    | cons q fields' =>
      obtain ⟨key, v⟩ := p
      obtain ⟨key', w⟩ := q
      unfold charsFields at h
      rw [List.cons_append, List.cons_append, List.append_assoc, List.append_assoc] at h
      obtain ⟨rfl, hvalue⟩ := quote_append_inj (List.cons.inj h).2
      rw [List.cons_append, List.cons_append, List.append_assoc, List.append_assoc] at hvalue
      obtain ⟨rfl, hrest⟩ := ih (key, v) List.mem_cons_self w (hfields' (key, w) List.mem_cons_self)
        _ _ (hclosed fields r) (hclosed fields' r') (List.cons.inj hvalue).2
      obtain ⟨rfl, hr⟩ := ihfields (fun p hp => ih p (List.mem_cons_of_mem _ hp))
        (fun p hp => hfields' p (List.mem_cons_of_mem _ hp)) hrest
      exact ⟨rfl, hr⟩

/-- **A text followed by a delimiter determines its value and what follows.** -/
theorem chars_append_inj {v : Value} (hv : v.Safe) (w : Value) (hw : w.Safe) (r r' : List Char)
    (hr : Closed r) (hr' : Closed r') (h : chars other v ++ r = chars other w ++ r') :
    v = w ∧ r = r' := by
  have hlead := lead_eq hv hw h
  induction v using Value.induction generalizing w r r' with
  | null =>
    cases w with
    | null => exact ⟨rfl, List.append_cancel_left h⟩
    | bool b => cases b <;> exact absurd hlead (by simp [lead])
    | _ => exact absurd hlead (by simp [lead])
  | bool b =>
    cases w with
    | bool b' =>
      cases b <;> cases b'
      · exact ⟨rfl, List.append_cancel_left h⟩
      · exact absurd hlead (by simp [lead])
      · exact absurd hlead (by simp [lead])
      · exact ⟨rfl, List.append_cancel_left h⟩
    | _ => cases b <;> exact absurd hlead (by simp [lead])
  | number n =>
    cases w with
    | number n' =>
      obtain ⟨i, rfl, hi⟩ := Number.chars_of_isSafe other (show n.IsSafe from hv)
      obtain ⟨j, rfl, hj⟩ := Number.chars_of_isSafe other (show n'.IsSafe from hw)
      have htexts : i.repr.toList ++ r = j.repr.toList ++ r' := by
        rw [← hi, ← hj]
        exact h
      obtain ⟨hrepr, hrest⟩ := append_inj_of_forall (numeric_repr i) (numeric_repr j)
        (not_numeric_of_closed hr) (not_numeric_of_closed hr') htexts
      exact ⟨by rw [intRepr_inj (String.toList_inj.mp hrepr)], hrest⟩
    | bool b => cases b <;> exact absurd hlead (by simp [lead])
    | _ => exact absurd hlead (by simp [lead])
  | string text =>
    cases w with
    | string text' =>
      obtain ⟨rfl, hrest⟩ := quote_append_inj h
      exact ⟨rfl, hrest⟩
    | bool b => cases b <;> exact absurd hlead (by simp [lead])
    | _ => exact absurd hlead (by simp [lead])
  | array items ih =>
    cases w with
    | array items' =>
      have hitems := all_array.mp hv
      have hitems' := all_array.mp hw
      -- as if a comma stood before the first item
      have hrests : charsItems other items ++ r = charsItems other items' ++ r' := by
        cases items with
        | nil =>
          cases items' with
          | nil => exact (List.cons.inj h).2
          | cons w items' =>
            have htail : ']' :: r = chars other w ++ (charsItems other items' ++ r') :=
              (List.cons.inj h).2.trans (List.append_assoc _ _ _)
            exact absurd htail (cons_ne_chars (.inl rfl) (hitems' w List.mem_cons_self) _ _)
        | cons v items =>
          cases items' with
          | nil =>
            have htail : ']' :: r' = chars other v ++ (charsItems other items ++ r) :=
              (List.cons.inj h).2.symm.trans (List.append_assoc _ _ _)
            exact absurd htail (cons_ne_chars (.inl rfl) (hitems v List.mem_cons_self) _ _)
          | cons w items' => exact congrArg (List.cons ',') (List.cons.inj h).2
      obtain ⟨rfl, hrest⟩ := charsItems_append_inj (fun v hvmem w hw r r' hr hr' hvw =>
        ih v hvmem (hitems v hvmem) w hw r r' hr hr' hvw (lead_eq (hitems v hvmem) hw hvw))
        hitems' hrests
      exact ⟨rfl, hrest⟩
    | bool b => cases b <;> exact absurd hlead (by simp [lead])
    | _ => exact absurd hlead (by simp [lead])
  | object fields ih =>
    cases w with
    | object fields' =>
      have hfields := (all_object.mp hv).2
      have hfields' := (all_object.mp hw).2
      -- as if a comma stood before the first member
      have hrests : charsFields other fields ++ r = charsFields other fields' ++ r' := by
        cases fields with
        | nil =>
          cases fields' with
          | nil => exact (List.cons.inj h).2
          | cons q fields' =>
            have htail : '\x7d' :: r = (quote q.1).toList ++ _ :=
              (List.cons.inj h).2.trans (List.append_assoc _ _ _)
            unfold quote at htail
            rw [String.toList_ofList] at htail
            exact absurd (List.cons.inj htail).1 (by decide)
        | cons p fields =>
          cases fields' with
          | nil =>
            have htail : '\x7d' :: r' = (quote p.1).toList ++ _ :=
              (List.cons.inj h).2.symm.trans (List.append_assoc _ _ _)
            unfold quote at htail
            rw [String.toList_ofList] at htail
            exact absurd (List.cons.inj htail).1 (by decide)
          | cons q fields' => exact congrArg (List.cons ',') (List.cons.inj h).2
      obtain ⟨rfl, hrest⟩ := charsFields_append_inj (fun p hp w hw r r' hr hr' hvw =>
        ih p hp (hfields p hp) w hw r r' hr hr' hvw (lead_eq (hfields p hp) hw hvw)) hfields' hrests
      exact ⟨rfl, hrest⟩
    | bool b => cases b <;> exact absurd hlead (by simp [lead])
    | _ => exact absurd hlead (by simp [lead])

/-- **A text determines its value.** -/
theorem chars_inj {v w : Value} (hv : v.Safe) (hw : w.Safe) :
    chars other v = chars other w ↔ v = w := by
  refine ⟨fun h => ?_, fun h => congrArg _ h⟩
  have hends : chars other v ++ [] = chars other w ++ [] := by rw [h]
  exact (chars_append_inj hv w hw [] [] (by simp [Closed]) (by simp [Closed]) hends).1

end Value

end

end Portal
