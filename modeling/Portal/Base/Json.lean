import Mathlib.Data.Rat.Defs
import Portal.Base.Text

/-!
# JSON values

The value type of the documents the Portal renders and compares, with decidable equality (an
object's members are kept in key order, so equal objects are equal lists), the text of a JSON
string and the replacement of a text inside every string of a value.
-/

namespace Portal

/-- a JSON number: an integer, or a finite float by its value -/
inductive Number where
  | int (n : Int)
  | float (q : Rat)
deriving DecidableEq

inductive Value where
  | null
  | bool (b : Bool)
  | number (n : Number)
  | string (text : String)
  | array (items : List Value)
  | object (fields : List (String × Value))

namespace Value

mutual

def decEq : (a b : Value) → Decidable (a = b)
  | .null, b => match b with
    | .null => .isTrue rfl
    | .bool _ | .number _ | .string _ | .array _ | .object _ => .isFalse (by simp)
  | .bool x, b => match b with
    | .bool y => decidable_of_iff (x = y) (by simp)
    | .null | .number _ | .string _ | .array _ | .object _ => .isFalse (by simp)
  | .number x, b => match b with
    | .number y => decidable_of_iff (x = y) (by simp)
    | .null | .bool _ | .string _ | .array _ | .object _ => .isFalse (by simp)
  | .string x, b => match b with
    | .string y => decidable_of_iff (x = y) (by simp)
    | .null | .bool _ | .number _ | .array _ | .object _ => .isFalse (by simp)
  | .array x, b => match b with
    | .array y => @decidable_of_iff _ (x = y) (by simp) (decEqItems x y)
    | .null | .bool _ | .number _ | .string _ | .object _ => .isFalse (by simp)
  | .object x, b => match b with
    | .object y => @decidable_of_iff _ (x = y) (by simp) (decEqFields x y)
    | .null | .bool _ | .number _ | .string _ | .array _ => .isFalse (by simp)

def decEqItems : (a b : List Value) → Decidable (a = b)
  | [], [] => .isTrue rfl
  | [], _ :: _ => .isFalse (by simp)
  | _ :: _, [] => .isFalse (by simp)
  | x :: xs, y :: ys =>
    match decEq x y, decEqItems xs ys with
    | .isTrue h, .isTrue h' => .isTrue (by rw [h, h'])
    | .isFalse h, _ => .isFalse (fun e => h (List.cons.inj e).1)
    | _, .isFalse h => .isFalse (fun e => h (List.cons.inj e).2)

def decEqFields : (a b : List (String × Value)) → Decidable (a = b)
  | [], [] => .isTrue rfl
  | [], _ :: _ => .isFalse (by simp)
  | _ :: _, [] => .isFalse (by simp)
  | (k, x) :: xs, (l, y) :: ys =>
    match decEq x y, decEqFields xs ys with
    | .isTrue h, .isTrue h' => @decidable_of_iff _ (k = l) (by simp [h, h']) inferInstance
    | .isFalse h, _ => .isFalse (fun e => h (Prod.mk.inj (List.cons.inj e).1).2)
    | _, .isFalse h => .isFalse (fun e => h (List.cons.inj e).2)

end

instance : DecidableEq Value := decEq

mutual

/-- every string of a value through `f`, the rest as it is -/
def mapStrings (f : String → String) : Value → Value
  | .null => .null
  | .bool b => .bool b
  | .number n => .number n
  | .string text => .string (f text)
  | .array items => .array (mapItems f items)
  | .object fields => .object (mapFields f fields)

def mapItems (f : String → String) : List Value → List Value
  | [] => []
  | v :: vs => mapStrings f v :: mapItems f vs

def mapFields (f : String → String) : List (String × Value) → List (String × Value)
  | [] => []
  | (k, v) :: fs => (k, mapStrings f v) :: mapFields f fs

end

end Value

/-! ## texts -/

theorem natRepr_inj {a b : Nat} (h : a.repr = b.repr) : a = b := by
  have hdigits : Nat.toDigits 10 a = Nat.toDigits 10 b := by
    simpa using congrArg String.toList h
  have hvalue := congrArg (fun l => Nat.ofDigitChars 10 l 0) hdigits
  simpa [Nat.ofDigitChars_ten_toDigits] using hvalue

def hexDigit (n : Nat) : Char := if n < 10 then Char.ofNat (48 + n) else Char.ofNat (87 + n)

/-- one character inside a JSON string -/
def escapeChar (c : Char) : List Char :=
  if c = '"' then ['\\', '"']
  else if c = '\\' then ['\\', '\\']
  else if c.toNat = 8 then ['\\', 'b']
  else if c.toNat = 9 then ['\\', 't']
  else if c.toNat = 10 then ['\\', 'n']
  else if c.toNat = 12 then ['\\', 'f']
  else if c.toNat = 13 then ['\\', 'r']
  else if c.toNat < 32 then ['\\', 'u', '0', '0', hexDigit (c.toNat / 16), hexDigit (c.toNat % 16)]
  else [c]

def quote (s : String) : String := String.ofList ('"' :: s.toList.flatMap escapeChar ++ ['"'])

/-- every occurrence of `pat` replaced, left to right; `skip` characters of the last one remain -/
def replaceFrom (pat rep : List Char) : Nat → List Char → List Char
  | _, [] => []
  | skip + 1, _ :: cs => replaceFrom pat rep skip cs
  | 0, c :: cs =>
    if pat.isPrefixOf (c :: cs) then rep ++ replaceFrom pat rep (pat.length - 1) cs
    else c :: replaceFrom pat rep 0 cs

/-- `str::replace` for a pattern that is not empty -/
def replaceAll (pat rep s : String) : String :=
  String.ofList (replaceFrom pat.toList rep.toList 0 s.toList)

example : replaceAll "now()" "x" "a now() b now()now() c" = "a x b xx c" := by decide

end Portal
