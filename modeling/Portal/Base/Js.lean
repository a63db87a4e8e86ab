import Mathlib.Algebra.Order.Group.Int
import Mathlib.Data.Nat.Log
import Mathlib.Tactic.Linarith

/-!
# Whole numbers of JavaScript

A number is a double: a sum or product that does not fit fifty-three bits is rounded to one that does.
The bitwise operators read 32 bits of a number and answer a signed number of 32 bits, `>>>` an unsigned
one.

* `double`, `add`, `mul`     arithmetic;
* `word`                     the 32 bits the bitwise operators read;
* `and`, `or`, `xor`, `not`, `shl`, `shr`   the operators, and what they are on words;
* `Within`, `word_add`       sums that stay exact are sums of words.
-/

namespace Portal
namespace Js

/-- the double nearest to a whole number, the even one of two -/
def double (n : ℤ) : ℤ :=
  if n.natAbs ≤ 2 ^ 53 then n
  else
    let unit := 2 ^ (Nat.log2 n.natAbs - 52)
    let q := n.natAbs / unit
    let r := n.natAbs % unit
    let up := unit < 2 * r || (2 * r = unit && q % 2 = 1)
    n.sign * ((if up then q + 1 else q) * unit : ℕ)

def add (a b : ℤ) : ℤ := double (a + b)

def mul (a b : ℤ) : ℤ := double (a * b)

def word (a : ℤ) : BitVec 32 := BitVec.ofInt 32 a

def and (a b : ℤ) : ℤ := (word a &&& word b).toInt

def or (a b : ℤ) : ℤ := (word a ||| word b).toInt

def xor (a b : ℤ) : ℤ := (word a ^^^ word b).toInt

def not (a : ℤ) : ℤ := (~~~word a).toInt

/-- `a << n` -/
def shl (a : ℤ) (n : ℕ) : ℤ := (word a <<< n).toInt

/-- `a >>> n` -/
def shr (a : ℤ) (n : ℕ) : ℤ := (word a >>> n).toNat

example : shr (-1) 0 = 4294967295 ∧ or 1 (shl 1 31) = -2147483647 := by decide

/-! ## the operators on words -/

section
variable (a b : ℤ) (n : ℕ) (x : BitVec 32)

@[simp] theorem word_toInt : word x.toInt = x := BitVec.ofInt_toInt

@[simp] theorem word_toNat : word (x.toNat : ℤ) = x := by
  unfold word
  rw [BitVec.ofInt_natCast, BitVec.ofNat_toNat, BitVec.setWidth_eq]

@[simp] theorem word_and : word (and a b) = word a &&& word b := word_toInt _

@[simp] theorem word_or : word (or a b) = word a ||| word b := word_toInt _

@[simp] theorem word_xor : word (xor a b) = word a ^^^ word b := word_toInt _

@[simp] theorem word_not : word (not a) = ~~~word a := word_toInt _

@[simp] theorem word_shl : word (shl a n) = word a <<< n := word_toInt _

@[simp] theorem word_shr : word (shr a n) = word a >>> n := word_toNat _

/-- `a >>> 0` is the number of the word -/
theorem shr_zero : shr a 0 = (word a).toNat := by
  unfold shr
  rw [BitVec.ushiftRight_zero]

end

/-! ## sums that stay exact -/

/-- a number of at most `k` times 2^32 -/
def Within (k : ℕ) (a : ℤ) : Prop := a.natAbs ≤ k * 2 ^ 32

theorem within_toInt (x : BitVec 32) : Within 1 x.toInt := by
  have hlt := x.toInt_lt
  have hle := x.le_toInt
  unfold Within
  omega

theorem within_toNat (x : BitVec 32) : Within 1 (x.toNat : ℤ) := by
  have hlt := x.isLt
  unfold Within
  omega

section
variable {a b : ℤ} {k l : ℕ}

theorem add_eq (ha : Within k a) (hb : Within l b) (hkl : k + l ≤ 2 ^ 20) : add a b = a + b := by
  unfold Within at ha hb
  unfold add double
  rw [if_pos]
  omega

theorem Within.add (ha : Within k a) (hb : Within l b) (hkl : k + l ≤ 2 ^ 20) :
    Within (k + l) (add a b) := by
  rw [add_eq ha hb hkl]
  unfold Within at ha hb ⊢
  omega

/-- **A sum that stays exact is the sum of the words.** -/
theorem word_add (ha : Within k a) (hb : Within l b) (hkl : k + l ≤ 2 ^ 20) :
    word (Js.add a b) = word a + word b := by
  rw [add_eq ha hb hkl]
  exact BitVec.ofInt_add ..

end

end Js
end Portal
