import Mathlib.Data.List.Induction
import Mathlib.Data.Nat.NthRoot.Defs
import Mathlib.Tactic.Linarith
import Mathlib.Tactic.Ring

/-!
# SHA-256 (FIPS 180-4)

A message of bits is padded to whole blocks of 512, each of which is parsed into sixteen words and
folded into the hash value by sixty-four rounds.

* `bits`, `ofBits`     numbers as bits, the most significant first;
* `pad`, `wordAt`      the padded message, and its words;
* `schedule`, `round`, `compress`   one block;
* `hash`, `sha256`     the hash value of a message, and its hexadecimal text for one of bytes;
* `constants_eq`, `initial_eq`   the constants, which are roots of the first primes, as numbers.
-/

namespace Portal
namespace Sha256

abbrev Word := BitVec 32

/-! ## bits -/

/-- the last `w` bits of a number, the most significant first -/
def bits (w n : ℕ) : List Bool := (List.range w).map (fun i => n.testBit (w - 1 - i))

def ofBits (l : List Bool) : ℕ := l.foldl (fun n b => 2 * n + b.toNat) 0

/-! ## functions and constants (4.1.2, 4.2.2, 5.3.3) -/

def ch (x y z : Word) : Word := (x &&& y) ^^^ (~~~x &&& z)

def maj (x y z : Word) : Word := (x &&& y) ^^^ (x &&& z) ^^^ (y &&& z)

def bigSigma0 (x : Word) : Word := x.rotateRight 2 ^^^ x.rotateRight 13 ^^^ x.rotateRight 22

def bigSigma1 (x : Word) : Word := x.rotateRight 6 ^^^ x.rotateRight 11 ^^^ x.rotateRight 25

def smallSigma0 (x : Word) : Word := x.rotateRight 7 ^^^ x.rotateRight 18 ^^^ x >>> 3

def smallSigma1 (x : Word) : Word := x.rotateRight 17 ^^^ x.rotateRight 19 ^^^ x >>> 10

/-- the primes below `n` -/
def primes (n : ℕ) : List ℕ :=
  (List.range n).filter (fun p => 2 ≤ p && (List.range p).all (fun d => d < 2 || p % d ≠ 0))

/-- the first 32 bits of the fractional part of a `k`th root -/
def rootBits (k p : ℕ) : Word := BitVec.ofNat 32 (Nat.nthRoot k (p * 2 ^ (32 * k)))

/-- from the cube roots of the first 64 primes -/
def constants : List Word := (primes 312).map (rootBits 3)

/-- from the square roots of the first 8 primes -/
def initial : List Word := (primes 20).map (rootBits 2)

/-! ## padding and parsing (5.1.1, 5.2.1) -/

/-- the least number of zeros that leaves 64 bits of the last block -/
def zeros (length : ℕ) : ℕ := (959 - length % 512) % 512

def pad (message : List Bool) : List Bool :=
  message ++ true :: (List.replicate (zeros message.length) false ++ bits 64 message.length)

/-- the `n`th word of a padded message -/
def wordAt (padded : List Bool) (n : ℕ) : Word :=
  BitVec.ofNat 32 (ofBits ((padded.drop (32 * n)).take 32))

/-! ## one block (6.2.2) -/

def schedule (block : ℕ → Word) (t : ℕ) : Word :=
  if t < 16 then block t
  else smallSigma1 (schedule block (t - 2)) + schedule block (t - 7)
    + smallSigma0 (schedule block (t - 15)) + schedule block (t - 16)

/-- the eight working variables, or the eight words of the hash value -/
structure Work where
  a : Word
  b : Word
  c : Word
  d : Word
  e : Word
  f : Word
  g : Word
  h : Word
deriving DecidableEq

def round (s : Work) (k w : Word) : Work :=
  let t₁ := s.h + bigSigma1 s.e + ch s.e s.f s.g + k + w
  let t₂ := bigSigma0 s.a + maj s.a s.b s.c
  { h := s.g, g := s.f, f := s.e, e := s.d + t₁, d := s.c, c := s.b, b := s.a, a := t₁ + t₂ }

def rounds (block : ℕ → Word) (s : Work) (n : ℕ) : Work :=
  (List.range n).foldl (fun s t => round s (constants.getD t 0) (schedule block t)) s

def compress (hash : Work) (block : ℕ → Word) : Work :=
  let s := rounds block hash 64
  { a := hash.a + s.a, b := hash.b + s.b, c := hash.c + s.c, d := hash.d + s.d, e := hash.e + s.e,
    f := hash.f + s.f, g := hash.g + s.g, h := hash.h + s.h }

/-! ## the hash -/

def Work.ofList (l : List Word) : Work :=
  ⟨l.getD 0 0, l.getD 1 0, l.getD 2 0, l.getD 3 0, l.getD 4 0, l.getD 5 0, l.getD 6 0, l.getD 7 0⟩

def Work.toList (s : Work) : List Word := [s.a, s.b, s.c, s.d, s.e, s.f, s.g, s.h]

def hash (message : List Bool) : Work :=
  (List.range ((pad message).length / 512)).foldl
    (fun hash i => compress hash (fun t => wordAt (pad message) (16 * i + t))) (Work.ofList initial)

def message (bytes : List UInt8) : List Bool := bytes.flatMap (fun b => bits 8 b.toNat)

/-- the last `k` hexadecimal digits of a number -/
def hexDigits : ℕ → ℕ → List Char
  | 0, _ => []
  | k + 1, n => hexDigits k (n / 16) ++ [Nat.digitChar (n % 16)]

def sha256 (bytes : List UInt8) : String :=
  String.ofList ((hash (message bytes)).toList.flatMap (fun w => hexDigits 8 w.toNat))

/-! ## lemmas -/

theorem constants_eq : constants =
    [0x428a2f98, 0x71374491, 0xb5c0fbcf, 0xe9b5dba5, 0x3956c25b, 0x59f111f1, 0x923f82a4, 0xab1c5ed5,
      0xd807aa98, 0x12835b01, 0x243185be, 0x550c7dc3, 0x72be5d74, 0x80deb1fe, 0x9bdc06a7, 0xc19bf174,
      0xe49b69c1, 0xefbe4786, 0x0fc19dc6, 0x240ca1cc, 0x2de92c6f, 0x4a7484aa, 0x5cb0a9dc, 0x76f988da,
      0x983e5152, 0xa831c66d, 0xb00327c8, 0xbf597fc7, 0xc6e00bf3, 0xd5a79147, 0x06ca6351, 0x14292967,
      0x27b70a85, 0x2e1b2138, 0x4d2c6dfc, 0x53380d13, 0x650a7354, 0x766a0abb, 0x81c2c92e, 0x92722c85,
      0xa2bfe8a1, 0xa81a664b, 0xc24b8b70, 0xc76c51a3, 0xd192e819, 0xd6990624, 0xf40e3585, 0x106aa070,
      0x19a4c116, 0x1e376c08, 0x2748774c, 0x34b0bcb5, 0x391c0cb3, 0x4ed8aa4a, 0x5b9cca4f, 0x682e6ff3,
      0x748f82ee, 0x78a5636f, 0x84c87814, 0x8cc70208, 0x90befffa, 0xa4506ceb, 0xbef9a3f7, 0xc67178f2] := by
  decide +kernel

theorem initial_eq : initial =
    [0x6a09e667, 0xbb67ae85, 0x3c6ef372, 0xa54ff53a, 0x510e527f, 0x9b05688c, 0x1f83d9ab,
      0x5be0cd19] := by
  decide +kernel

theorem schedule_lt (block : ℕ → Word) {t : ℕ} (h : t < 16) : schedule block t = block t := by
  rw [schedule, if_pos h]

theorem schedule_ge (block : ℕ → Word) {t : ℕ} (h : 16 ≤ t) : schedule block t
    = smallSigma1 (schedule block (t - 2)) + schedule block (t - 7)
      + smallSigma0 (schedule block (t - 15)) + schedule block (t - 16) := by
  rw [schedule, if_neg (not_lt.mpr h)]

@[simp] theorem length_bits (w n : ℕ) : (bits w n).length = w := by
  unfold bits
  rw [List.length_map, List.length_range]

/-- the bits of a number are those of its high part and those of its low part -/
theorem bits_add (v w n : ℕ) : bits (v + w) n = bits v (n / 2 ^ w) ++ bits w n := by
  unfold bits
  rw [List.range_add, List.map_append, List.map_map]
  congr 1
  · refine List.map_congr_left (fun i hi => ?_)
    have hlt := List.mem_range.mp hi
    rw [Nat.testBit_div_two_pow]
    congr 1
    omega
  · refine List.map_congr_left (fun i hi => ?_)
    show n.testBit (v + w - 1 - (v + i)) = n.testBit (w - 1 - i)
    congr 1
    omega

theorem bits_mod (w n : ℕ) : bits w (n % 2 ^ w) = bits w n := by
  unfold bits
  refine List.map_congr_left (fun i hi => ?_)
  have hlt := List.mem_range.mp hi
  rw [Nat.testBit_mod_two_pow, decide_eq_true (by omega), Bool.true_and]

theorem bits_zero (w : ℕ) : bits w 0 = List.replicate w false := by
  unfold bits
  simp only [Nat.zero_testBit, List.map_const', List.length_range]

theorem ofBits_concat (l : List Bool) (b : Bool) : ofBits (l ++ [b]) = 2 * ofBits l + b.toNat := by
  unfold ofBits
  rw [List.foldl_append]
  rfl

theorem ofBits_append (l m : List Bool) : ofBits (l ++ m) = ofBits l * 2 ^ m.length + ofBits m := by
  induction m using List.reverseRecOn with
  | nil => simp [ofBits]
  | append_singleton m b ih =>
    rw [← List.append_assoc, ofBits_concat, ih, ofBits_concat, List.length_append, List.length_singleton]
    ring

theorem ofBits_bits (w n : ℕ) : ofBits (bits w n) = n % 2 ^ w := by
  induction w generalizing n with
  | zero => simp [bits, ofBits, Nat.mod_one]
  | succ w ih =>
    have hone : bits 1 n = [n.testBit 0] := rfl
    rw [bits_add w 1 n, ofBits_append, ih, hone]
    have hbit : ofBits [n.testBit 0] = n % 2 := by
      rw [Nat.testBit_zero]
      rcases Nat.mod_two_eq_zero_or_one n with h | h <;> simp [ofBits, h]
    rw [hbit, List.length_singleton, pow_one, pow_succ', Nat.mod_mul]
    ring

/-! ## messages of bytes -/

/-- bytes as one number, the most significant first -/
def ofBytes (l : List UInt8) : ℕ := l.foldl (fun n b => 256 * n + b.toNat) 0

theorem message_cons (b : UInt8) (l : List UInt8) : message (b :: l) = bits 8 b.toNat ++ message l := rfl

theorem message_append (l m : List UInt8) : message (l ++ m) = message l ++ message m :=
  List.flatMap_append

@[simp] theorem length_message (l : List UInt8) : (message l).length = 8 * l.length := by
  induction l with
  | nil => rfl
  | cons b l ih =>
    rw [message_cons, List.length_append, ih, length_bits, List.length_cons]
    omega

theorem drop_message (n : ℕ) (l : List UInt8) : (message l).drop (8 * n) = message (l.drop n) := by
  induction n generalizing l with
  | zero => rfl
  | succ n ih =>
    cases l with
    | nil => rfl
    | cons b l =>
      have hdrop : 8 * (n + 1) = (bits 8 b.toNat).length + 8 * n := by
        rw [length_bits]
        omega
      rw [message_cons, hdrop, List.drop_append, List.drop_of_length_le (Nat.le_add_right ..),
        Nat.add_sub_cancel_left, ih]
      rfl

theorem take_message (n : ℕ) (l : List UInt8) : (message l).take (8 * n) = message (l.take n) := by
  induction n generalizing l with
  | zero => rfl
  | succ n ih =>
    cases l with
    | nil => rfl
    | cons b l =>
      have htake : 8 * (n + 1) = (bits 8 b.toNat).length + 8 * n := by
        rw [length_bits]
        omega
      rw [message_cons, htake, List.take_append, List.take_of_length_le (Nat.le_add_right ..),
        Nat.add_sub_cancel_left, ih]
      rfl

theorem ofBits_message (l : List UInt8) : ofBits (message l) = ofBytes l := by
  induction l using List.reverseRecOn with
  | nil => rfl
  | append_singleton l b ih =>
    have hlast : message [b] = bits 8 b.toNat := List.append_nil _
    have hlt : b.toNat < 2 ^ 8 := b.toNat_lt
    rw [message_append, ofBits_append, ih, hlast, ofBits_bits, length_bits, Nat.mod_eq_of_lt hlt]
    unfold ofBytes
    rw [List.foldl_append]
    simp only [List.foldl_cons, List.foldl_nil]
    ring

/-- **A word of a padded message of bytes** is four of them, the most significant first. -/
theorem wordAt_message (l : List UInt8) (n : ℕ) :
    wordAt (message l) n = BitVec.ofNat 32 (ofBytes ((l.drop (4 * n)).take 4)) := by
  have hbits : ((message l).drop (32 * n)).take 32 = message ((l.drop (4 * n)).take 4) := by
    rw [show 32 * n = 8 * (4 * n) by ring, drop_message]
    exact take_message 4 _
  unfold wordAt
  rw [hbits, ofBits_message]

end Sha256
end Portal
