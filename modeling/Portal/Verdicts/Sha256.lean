import Portal.Base.Js
import Portal.Base.Sha256

/-!
# The browser's own SHA-256 (`ui/src/api/digest.ts`: `sha256Hex`)

The form hashes what is typed as it is typed, with a SHA-256 of its own over JavaScript's numbers.  Its
typed arrays hold words and bytes, which are read as numbers and written modulo their width.

* `rotr`, `fill`, `extend`, `turn`, `oneBlock`   the loops over one block;
* `padded`         the message with its padding, and its length in two words;
* `sha256Hex`      the hash in hexadecimal;
* `sha256Hex_eq`   it is the hash of FIPS 180-4.
-/

namespace Portal
namespace Verdicts

open Sha256 (Word)

/-! ## typed arrays -/

/-- a word of a `Uint32Array` as a number -/
def read (w : List Word) (i : ℕ) : ℤ := (w.getD i 0).toNat

def write (w : List Word) (i : ℕ) (v : ℤ) : List Word := w.set i (Js.word v)

/-- `DataView.getUint32`, the most significant byte first -/
def getUint32 (view : List UInt8) (offset : ℕ) : ℤ := Sha256.ofBytes ((view.drop offset).take 4)

/-- the four bytes of a word, the most significant first -/
def wordBytes (n : ℕ) : List UInt8 :=
  [UInt8.ofNat (n / 2 ^ 24), UInt8.ofNat (n / 2 ^ 16), UInt8.ofNat (n / 2 ^ 8), UInt8.ofNat n]

/-- `DataView.setUint32` -/
def setUint32 (view : List UInt8) (offset : ℕ) (v : ℤ) : List UInt8 :=
  view.take offset ++ wordBytes (Js.word v).toNat ++ view.drop (offset + 4)

/-! ## one block -/

def K : List Word :=
  [0x428a2f98, 0x71374491, 0xb5c0fbcf, 0xe9b5dba5, 0x3956c25b, 0x59f111f1, 0x923f82a4, 0xab1c5ed5,
    0xd807aa98, 0x12835b01, 0x243185be, 0x550c7dc3, 0x72be5d74, 0x80deb1fe, 0x9bdc06a7, 0xc19bf174,
    0xe49b69c1, 0xefbe4786, 0x0fc19dc6, 0x240ca1cc, 0x2de92c6f, 0x4a7484aa, 0x5cb0a9dc, 0x76f988da,
    0x983e5152, 0xa831c66d, 0xb00327c8, 0xbf597fc7, 0xc6e00bf3, 0xd5a79147, 0x06ca6351, 0x14292967,
    0x27b70a85, 0x2e1b2138, 0x4d2c6dfc, 0x53380d13, 0x650a7354, 0x766a0abb, 0x81c2c92e, 0x92722c85,
    0xa2bfe8a1, 0xa81a664b, 0xc24b8b70, 0xc76c51a3, 0xd192e819, 0xd6990624, 0xf40e3585, 0x106aa070,
    0x19a4c116, 0x1e376c08, 0x2748774c, 0x34b0bcb5, 0x391c0cb3, 0x4ed8aa4a, 0x5b9cca4f, 0x682e6ff3,
    0x748f82ee, 0x78a5636f, 0x84c87814, 0x8cc70208, 0x90befffa, 0xa4506ceb, 0xbef9a3f7, 0xc67178f2]

def rotr (x : ℤ) (n : ℕ) : ℤ := Js.or (Js.shr x n) (Js.shl x (32 - n))

def fill (view : List UInt8) (block : ℕ) (w : List Word) : List Word :=
  (List.range 16).foldl (fun w i => write w i (getUint32 view (block * 64 + i * 4))) w

/-- the word that follows the sixteen before it -/
def next (w : List Word) (i : ℕ) : ℤ :=
  let s0 := Js.xor (Js.xor (rotr (read w (i - 15)) 7) (rotr (read w (i - 15)) 18))
    (Js.shr (read w (i - 15)) 3)
  let s1 := Js.xor (Js.xor (rotr (read w (i - 2)) 17) (rotr (read w (i - 2)) 19))
    (Js.shr (read w (i - 2)) 10)
  Js.shr (Js.add (Js.add (Js.add (read w (i - 16)) s0) (read w (i - 7))) s1) 0

def extend (w : List Word) : List Word :=
  (List.range' 16 48).foldl (fun w i => write w i (next w i)) w

structure Locals where
  a : ℤ
  b : ℤ
  c : ℤ
  d : ℤ
  e : ℤ
  f : ℤ
  g : ℤ
  hh : ℤ
deriving DecidableEq

/-- one pass of the inner loop -/
def turn (w : List Word) (s : Locals) (i : ℕ) : Locals :=
  let s1 := Js.xor (Js.xor (rotr s.e 6) (rotr s.e 11)) (rotr s.e 25)
  let ch := Js.xor (Js.and s.e s.f) (Js.and (Js.not s.e) s.g)
  let t1 := Js.shr (Js.add (Js.add (Js.add (Js.add s.hh s1) ch) (read K i)) (read w i)) 0
  let s0 := Js.xor (Js.xor (rotr s.a 2) (rotr s.a 13)) (rotr s.a 22)
  let maj := Js.xor (Js.xor (Js.and s.a s.b) (Js.and s.a s.c)) (Js.and s.b s.c)
  let t2 := Js.shr (Js.add s0 maj) 0
  { hh := s.g, g := s.f, f := s.e, e := Js.shr (Js.add s.d t1) 0, d := s.c, c := s.b, b := s.a,
    a := Js.shr (Js.add t1 t2) 0 }

def locals (h : List Word) : Locals :=
  ⟨read h 0, read h 1, read h 2, read h 3, read h 4, read h 5, read h 6, read h 7⟩

/-- a word of the hash with a local added to it -/
def addTo (h : List Word) (i : ℕ) (v : ℤ) : List Word := write h i (Js.shr (Js.add (read h i) v) 0)

/-- one pass of the outer loop: the schedule, which is used again, and the hash -/
def oneBlock (view : List UInt8) (st : List Word × List Word) (block : ℕ) : List Word × List Word :=
  let w := extend (fill view block st.1)
  let h := st.2
  let s := (List.range 64).foldl (turn w) (locals h)
  (w, addTo (addTo (addTo (addTo (addTo (addTo (addTo (addTo h 0 s.a) 1 s.b) 2 s.c) 3 s.d) 4 s.e) 5 s.f)
    6 s.g) 7 s.hh)

/-! ## the hash -/

def blocks (bytes : List UInt8) : ℕ := (Js.add (Js.add bytes.length 8 / 64) 1).toNat

/-- the message, its 0x80 terminator and the 64-bit bit length, padded to whole 64-byte blocks -/
def padded (bytes : List UInt8) : List UInt8 :=
  let size := blocks bytes * 64
  let padded := bytes ++ (List.replicate size 0).drop bytes.length
  let padded := padded.set bytes.length 0x80
  let bits := Js.mul bytes.length 8
  let view := setUint32 padded (size - 8) (bits / 0x100000000)
  setUint32 view (size - 4) (Js.shr bits 0)

/-- `word.toString(16).padStart(8, "0")` -/
def hexWord (word : Word) : List Char :=
  let text := Nat.toDigits 16 word.toNat
  List.replicate (8 - text.length) '0' ++ text

def seed : List Word :=
  [0x6a09e667, 0xbb67ae85, 0x3c6ef372, 0xa54ff53a, 0x510e527f, 0x9b05688c, 0x1f83d9ab, 0x5be0cd19]

def sha256Hex (bytes : List UInt8) : String :=
  let h := ((List.range (blocks bytes)).foldl (oneBlock (padded bytes)) (List.replicate 64 0, seed)).2
  String.ofList (h.flatMap hexWord)

/-! ## lemmas -/

open Js Sha256

theorem K_eq : K = constants := constants_eq.symm

theorem word_rotr (x : ℤ) {n : ℕ} (hn : n < 32) : word (rotr x n) = (word x).rotateRight n := by
  unfold rotr
  rw [word_or, word_shr, word_shl, BitVec.rotateRight, BitVec.rotateRightAux, Nat.mod_eq_of_lt hn]

theorem word_read (w : List Word) (i : ℕ) : word (read w i) = w.getD i 0 := word_toNat _

theorem within_read (w : List Word) (i : ℕ) : Js.Within 1 (read w i) := within_toNat _

theorem length_write (w : List Word) (i : ℕ) (v : ℤ) : (write w i v).length = w.length :=
  List.length_set ..

theorem getD_write (w : List Word) {i : ℕ} (hi : i < w.length) (v : ℤ) (t : ℕ) :
    (write w i v).getD t 0 = if t = i then word v else w.getD t 0 := by
  unfold write
  rw [List.getD_eq_getElem?_getD, List.getElem?_set, List.getD_eq_getElem?_getD]
  by_cases h : i = t
  · subst h
    rw [if_pos rfl, if_pos hi, if_pos rfl]
    rfl
  · rw [if_neg h, if_neg (Ne.symm h)]

theorem word_getUint32 (view : List UInt8) (offset : ℕ) : word (getUint32 view offset)
    = BitVec.ofNat 32 (ofBytes ((view.drop offset).take 4)) := BitVec.ofInt_natCast ..

/-! ## the schedule -/

section
variable {view : List UInt8} {block : ℕ → Word} {b : ℕ} {w : List Word}

theorem fill_spec (hview : ∀ t < 16, word (getUint32 view (b * 64 + t * 4)) = block t)
    (hw : w.length = 64) :
    (fill view b w).length = 64 ∧ ∀ t < 16, (fill view b w).getD t 0 = schedule block t := by
  have hloop : ∀ n ≤ 16,
      ((List.range n).foldl (fun w i => write w i (getUint32 view (b * 64 + i * 4))) w).length = 64 ∧
        ∀ t < n, ((List.range n).foldl (fun w i => write w i (getUint32 view (b * 64 + i * 4))) w).getD t 0
          = block t := by
    intro n
    induction n with
    | zero => exact fun _ => ⟨hw, fun t ht => absurd ht (Nat.not_lt_zero t)⟩
    | succ n ih =>
      intro hn
      obtain ⟨hlen, hget⟩ := ih (by omega)
      rw [List.range_succ, List.foldl_append]
      refine ⟨(length_write ..).trans hlen, fun t ht => ?_⟩
      show (write _ n _).getD t 0 = _
      rw [getD_write _ (by omega)]
      by_cases h : t = n
      · rw [if_pos h, h, hview n (by omega)]
      · rw [if_neg h, hget t (by omega)]
  obtain ⟨hlen, hget⟩ := hloop 16 le_rfl
  refine ⟨hlen, fun t ht => ?_⟩
  rw [schedule_lt block ht]
  exact hget t ht

theorem word_next (w : List Word) (i : ℕ) : word (next w i)
    = w.getD (i - 16) 0 + smallSigma0 (w.getD (i - 15) 0) + w.getD (i - 7) 0
      + smallSigma1 (w.getD (i - 2) 0) := by
  have hs0 : Js.Within 1 (Js.xor (Js.xor (rotr (read w (i - 15)) 7) (rotr (read w (i - 15)) 18))
      (Js.shr (read w (i - 15)) 3)) := within_toInt _
  have hs1 : Js.Within 1 (Js.xor (Js.xor (rotr (read w (i - 2)) 17) (rotr (read w (i - 2)) 19))
      (Js.shr (read w (i - 2)) 10)) := within_toInt _
  have h₁ := (within_read w (i - 16)).add hs0 (by decide)
  have h₂ := h₁.add (within_read w (i - 7)) (by decide)
  unfold next
  rw [word_shr, BitVec.ushiftRight_zero, word_add h₂ hs1 (by decide),
    word_add h₁ (within_read w (i - 7)) (by decide), word_add (within_read w (i - 16)) hs0 (by decide)]
  rw [word_xor, word_xor, word_rotr _ (by decide), word_rotr _ (by decide), word_shr, word_xor, word_xor,
    word_rotr _ (by decide), word_rotr _ (by decide), word_shr]
  rw [word_read, word_read, word_read, word_read]
  rfl

/-- **The schedule of a block** is the standard's. -/
theorem extend_spec (hw : w.length = 64) (hget : ∀ t < 16, w.getD t 0 = schedule block t) :
    (extend w).length = 64 ∧ ∀ t < 64, (extend w).getD t 0 = schedule block t := by
  have hloop : ∀ n ≤ 48,
      ((List.range' 16 n).foldl (fun w i => write w i (next w i)) w).length = 64 ∧
        ∀ t < 16 + n, ((List.range' 16 n).foldl (fun w i => write w i (next w i)) w).getD t 0
          = schedule block t := by
    intro n
    induction n with
    | zero => exact fun _ => ⟨hw, hget⟩
    | succ n ih =>
      intro hn
      obtain ⟨hlen, hbefore⟩ := ih (by omega)
      rw [List.range'_concat, List.foldl_append, Nat.one_mul]
      refine ⟨(length_write ..).trans hlen, fun t ht => ?_⟩
      show (write _ (16 + n) _).getD t 0 = _
      rw [getD_write _ (by omega)]
      by_cases h : t = 16 + n
      · rw [if_pos h, h, word_next, schedule_ge block (Nat.le_add_right 16 n), hbefore _ (by omega),
          hbefore _ (by omega), hbefore _ (by omega), hbefore _ (by omega)]
        ac_rfl
      · rw [if_neg h, hbefore t (by omega)]
  exact hloop 48 le_rfl

end

/-! ## the rounds -/

def numbers (s : Work) : Locals :=
  ⟨s.a.toNat, s.b.toNat, s.c.toNat, s.d.toNat, s.e.toNat, s.f.toNat, s.g.toNat, s.h.toNat⟩

/-- **One pass of the inner loop is one round.** -/
theorem turn_numbers (w : List Word) (s : Work) (i : ℕ) :
    turn w (numbers s) i = numbers (Sha256.round s (constants.getD i 0) (w.getD i 0)) := by
  have hs1 : Js.Within 1 (Js.xor (Js.xor (rotr (s.e.toNat : ℤ) 6) (rotr (s.e.toNat : ℤ) 11))
      (rotr (s.e.toNat : ℤ) 25)) := within_toInt _
  have hch : Js.Within 1 (Js.xor (Js.and (s.e.toNat : ℤ) s.f.toNat) (Js.and (Js.not s.e.toNat) s.g.toNat)) :=
    within_toInt _
  have hs0 : Js.Within 1 (Js.xor (Js.xor (rotr (s.a.toNat : ℤ) 2) (rotr (s.a.toNat : ℤ) 13))
      (rotr (s.a.toNat : ℤ) 22)) := within_toInt _
  have hmaj : Js.Within 1 (Js.xor (Js.xor (Js.and (s.a.toNat : ℤ) s.b.toNat) (Js.and s.a.toNat s.c.toNat))
      (Js.and (s.b.toNat : ℤ) s.c.toNat)) := within_toInt _
  have h₁ := (within_toNat s.h).add hs1 (by decide)
  have h₂ := h₁.add hch (by decide)
  have h₃ := h₂.add (within_read K i) (by decide)
  have ht1 : word (Js.add (Js.add (Js.add (Js.add (s.h.toNat : ℤ)
        (Js.xor (Js.xor (rotr (s.e.toNat : ℤ) 6) (rotr (s.e.toNat : ℤ) 11)) (rotr (s.e.toNat : ℤ) 25)))
        (Js.xor (Js.and (s.e.toNat : ℤ) s.f.toNat) (Js.and (Js.not s.e.toNat) s.g.toNat)))
        (read K i)) (read w i))
      = s.h + bigSigma1 s.e + Sha256.ch s.e s.f s.g + constants.getD i 0 + w.getD i 0 := by
    rw [word_add h₃ (within_read w i) (by decide), word_add h₂ (within_read K i) (by decide),
      word_add h₁ hch (by decide), word_add (within_toNat s.h) hs1 (by decide), word_read, word_read, K_eq]
    simp only [word_xor, word_and, word_not, word_rotr _ (show 6 < 32 by decide),
      word_rotr _ (show 11 < 32 by decide), word_rotr _ (show 25 < 32 by decide), word_toNat]
    rfl
  have ht2 : word (Js.add (Js.xor (Js.xor (rotr (s.a.toNat : ℤ) 2) (rotr (s.a.toNat : ℤ) 13))
        (rotr (s.a.toNat : ℤ) 22))
      (Js.xor (Js.xor (Js.and (s.a.toNat : ℤ) s.b.toNat) (Js.and s.a.toNat s.c.toNat))
        (Js.and (s.b.toNat : ℤ) s.c.toNat)))
      = bigSigma0 s.a + Sha256.maj s.a s.b s.c := by
    rw [word_add hs0 hmaj (by decide)]
    simp only [word_xor, word_and, word_rotr _ (show 2 < 32 by decide),
      word_rotr _ (show 13 < 32 by decide), word_rotr _ (show 22 < 32 by decide), word_toNat]
    rfl
  unfold turn numbers Sha256.round
  simp only [shr_zero, ht1, ht2]
  rw [word_add (within_toNat _) (within_toNat _) (by decide),
    word_add (within_toNat _) (within_toNat _) (by decide)]
  simp only [word_toNat]

theorem turns_numbers {block : ℕ → Word} {w : List Word} (hw : ∀ t < 64, w.getD t 0 = schedule block t)
    (s : Work) : ∀ n ≤ 64, (List.range n).foldl (turn w) (numbers s) = numbers (rounds block s n) := by
  intro n
  induction n with
  | zero => exact fun _ => rfl
  | succ n ih =>
    intro hn
    unfold rounds
    rw [List.range_succ, List.foldl_append, List.foldl_append, ih (by omega)]
    show turn w (numbers (rounds block s n)) n = _
    rw [turn_numbers, hw n (by omega)]
    rfl

theorem addTo_toNat (h : List Word) (i : ℕ) (x : Word) :
    addTo h i x.toNat = h.set i (h.getD i 0 + x) := by
  unfold addTo write
  rw [word_shr, BitVec.ushiftRight_zero, word_add (within_read h i) (within_toNat x) (by decide), word_read,
    word_toNat]

theorem addTo_all (hash s : Work) :
    addTo (addTo (addTo (addTo (addTo (addTo (addTo (addTo hash.toList 0 s.a.toNat) 1 s.b.toNat) 2 s.c.toNat)
      3 s.d.toNat) 4 s.e.toNat) 5 s.f.toNat) 6 s.g.toNat) 7 s.h.toNat
      = [hash.a + s.a, hash.b + s.b, hash.c + s.c, hash.d + s.d, hash.e + s.e, hash.f + s.f, hash.g + s.g,
        hash.h + s.h] := by
  simp only [addTo_toNat]
  rfl

theorem oneBlock_fst (view : List UInt8) (w h : List Word) (b : ℕ) :
    (oneBlock view (w, h) b).1 = extend (fill view b w) := by
  simp only [oneBlock]

theorem oneBlock_snd (view : List UInt8) (w h : List Word) (b : ℕ) (s : Work)
    (hs : (List.range 64).foldl (turn (extend (fill view b w))) (locals h) = numbers s) :
    (oneBlock view (w, h) b).2 = addTo (addTo (addTo (addTo (addTo (addTo (addTo (addTo h 0 s.a.toNat) 1
      s.b.toNat) 2 s.c.toNat) 3 s.d.toNat) 4 s.e.toNat) 5 s.f.toNat) 6 s.g.toNat) 7 s.h.toNat := by
  unfold oneBlock
  simp only [hs]
  rfl

/-- **One pass of the outer loop compresses one block.** -/
theorem oneBlock_spec {view : List UInt8} {block : ℕ → Word} {b : ℕ}
    (hview : ∀ t < 16, word (getUint32 view (b * 64 + t * 4)) = block t) {w : List Word}
    (hw : w.length = 64) (hash : Work) :
    ((oneBlock view (w, hash.toList) b).1).length = 64 ∧
      (oneBlock view (w, hash.toList) b).2 = (compress hash block).toList := by
  obtain ⟨hlen, hfill⟩ := fill_spec hview hw
  obtain ⟨hlen', hextend⟩ := extend_spec hlen hfill
  have hturns : (List.range 64).foldl (turn (extend (fill view b w))) (locals hash.toList)
      = numbers (rounds block hash 64) := turns_numbers hextend hash 64 le_rfl
  rw [oneBlock_fst, oneBlock_snd _ _ _ _ _ hturns, addTo_all]
  exact ⟨hlen', rfl⟩

/-! ## the padding -/

theorem bits_byte (n : ℕ) : bits 8 (UInt8.ofNat n).toNat = bits 8 n := by
  rw [UInt8.toNat_ofNat']
  exact bits_mod 8 n

theorem message_wordBytes (n : ℕ) : message (wordBytes n) = bits 32 n := by
  show bits 8 _ ++ (bits 8 _ ++ (bits 8 _ ++ (bits 8 _ ++ []))) = bits 32 n
  rw [bits_byte, bits_byte, bits_byte, bits_byte, bits_add 24 8 n, bits_add 16 8 (n / 2 ^ 8),
    bits_add 8 8 (n / 2 ^ 8 / 2 ^ 8), Nat.div_div_eq_div_mul n, Nat.div_div_eq_div_mul n, List.append_nil,
    List.append_assoc, List.append_assoc]
  rfl

theorem message_zeros (n : ℕ) : message (List.replicate n 0) = List.replicate (8 * n) false := by
  induction n with
  | zero => rfl
  | succ n ih =>
    have hbyte : bits 8 (0 : UInt8).toNat = List.replicate 8 false := bits_zero 8
    rw [List.replicate_succ, message_cons, ih, hbyte, List.replicate_append_replicate]
    congr 1
    omega

theorem setUint32_append (before old after : List UInt8) (hold : old.length = 4) {offset : ℕ}
    (hoffset : offset = before.length) (v : ℤ) :
    setUint32 (before ++ old ++ after) offset v = before ++ wordBytes (word v).toNat ++ after := by
  have hdrop : (before ++ old).length = offset + 4 := by
    rw [List.length_append, hold, hoffset]
  unfold setUint32
  rw [← hdrop, List.drop_left, hoffset, List.append_assoc before, List.take_left]

section
variable {bytes : List UInt8}

theorem blocks_eq (h : 8 * bytes.length < 2 ^ 53) : blocks bytes = (bytes.length + 8) / 64 + 1 := by
  have hsum : Js.add bytes.length 8 = (bytes.length + 8 : ℕ) := if_pos (by omega)
  have hnext : Js.add ((bytes.length + 8 : ℕ) / 64) 1 = ((bytes.length + 8) / 64 + 1 : ℕ) :=
    if_pos (by omega)
  unfold blocks
  rw [hsum, hnext, Int.toNat_natCast]

theorem padded_eq (h : 8 * bytes.length < 2 ^ 53) : padded bytes
    = bytes ++ 0x80 :: List.replicate (blocks bytes * 64 - 9 - bytes.length) 0
      ++ wordBytes (8 * bytes.length / 2 ^ 32) ++ wordBytes (8 * bytes.length % 2 ^ 32) := by
  have hblocks := blocks_eq h
  have hbits : Js.mul bytes.length 8 = (8 * bytes.length : ℕ) := by
    unfold Js.mul Js.double
    rw [if_pos (by omega)]
    omega
  have hset : (bytes ++ (List.replicate (blocks bytes * 64) 0).drop bytes.length).set bytes.length 0x80
      = bytes ++ 0x80 :: List.replicate (blocks bytes * 64 - 9 - bytes.length) 0
        ++ List.replicate 4 0 ++ List.replicate 4 0 := by
    have hroom : blocks bytes * 64 - bytes.length
        = (blocks bytes * 64 - 9 - bytes.length + 8) + 1 := by omega
    have hwords : List.replicate 8 (0 : UInt8) = List.replicate 4 0 ++ List.replicate 4 0 := rfl
    rw [List.set_append_right _ _ le_rfl, Nat.sub_self, List.drop_replicate, hroom, List.replicate_succ,
      List.set_cons_zero, ← List.replicate_append_replicate, hwords, List.append_assoc, List.append_assoc,
      List.cons_append]
  have hhigh : (word (Js.mul bytes.length 8 / 0x100000000)).toNat = 8 * bytes.length / 2 ^ 32 := by
    rw [hbits]
    show (BitVec.ofInt 32 (((8 * bytes.length / 4294967296 : ℕ) : ℤ))).toNat = _
    rw [BitVec.ofInt_natCast, BitVec.toNat_ofNat]
    omega
  have hlow : (word (Js.shr (Js.mul bytes.length 8) 0)).toNat = 8 * bytes.length % 2 ^ 32 := by
    rw [hbits, shr_zero, word_toNat]
    unfold word
    rw [BitVec.ofInt_natCast, BitVec.toNat_ofNat]
  unfold padded
  simp only
  rw [hset, setUint32_append _ _ _ List.length_replicate, hhigh, ← List.append_nil (_ ++ _ ++ _ ++ _),
    setUint32_append _ _ _ List.length_replicate, hlow, List.append_nil]
  · rw [List.length_append, List.length_append, List.length_cons, List.length_replicate]
    show _ = _ + 4
    omega
  · rw [List.length_append, List.length_cons, List.length_replicate]
    omega

/-- **The padding** is the standard's, also where it spills into one more block. -/
theorem message_padded (h : 8 * bytes.length < 2 ^ 53) : message (padded bytes) = pad (message bytes) := by
  have hblocks := blocks_eq h
  have hone : bits 8 (0x80 : UInt8).toNat = true :: List.replicate 7 false := by decide
  have hzeros : zeros (8 * bytes.length) = 7 + 8 * (blocks bytes * 64 - 9 - bytes.length) := by
    unfold zeros
    omega
  have hlength : bits 64 (8 * bytes.length)
      = bits 32 (8 * bytes.length / 2 ^ 32) ++ bits 32 (8 * bytes.length % 2 ^ 32) := by
    rw [bits_mod]
    exact bits_add 32 32 _
  unfold pad
  rw [padded_eq h, message_append, message_append, message_append, message_cons, message_zeros,
    message_wordBytes, message_wordBytes, hone, length_message, hzeros, hlength,
    ← List.replicate_append_replicate]
  simp only [List.append_assoc, List.cons_append]

theorem length_padded (h : 8 * bytes.length < 2 ^ 53) :
    (pad (message bytes)).length / 512 = blocks bytes := by
  have hblocks := blocks_eq h
  unfold pad zeros
  rw [List.length_append, List.length_cons, List.length_append, List.length_replicate, length_bits,
    length_message]
  omega

/-! ## the hash -/

theorem word_view (h : 8 * bytes.length < 2 ^ 53) (b t : ℕ) :
    word (getUint32 (padded bytes) (b * 64 + t * 4)) = wordAt (pad (message bytes)) (16 * b + t) := by
  rw [← message_padded h, wordAt_message, word_getUint32]
  congr 4
  omega

theorem blocks_spec (h : 8 * bytes.length < 2 ^ 53) (n : ℕ) :
    let st := (List.range n).foldl (oneBlock (padded bytes)) (List.replicate 64 0, seed)
    st.1.length = 64 ∧ st.2 = ((List.range n).foldl
      (fun hash i => compress hash (fun t => wordAt (pad (message bytes)) (16 * i + t)))
      (Work.ofList initial)).toList := by
  induction n with
  | zero =>
    refine ⟨List.length_replicate, ?_⟩
    rw [initial_eq]
    rfl
  | succ n ih =>
    obtain ⟨hlen, hhash⟩ := ih
    rw [List.range_succ, List.foldl_append, List.foldl_append]
    generalize (List.range n).foldl (oneBlock (padded bytes)) (List.replicate 64 0, seed) = st at hlen hhash
    obtain ⟨w, hash⟩ := st
    subst hhash
    exact oneBlock_spec (fun t _ => word_view h n t) hlen _

end

theorem padStart_eq (k : ℕ) : ∀ n < 16 ^ (k + 1), List.replicate (k + 1 - (Nat.toDigits 16 n).length) '0'
    ++ Nat.toDigits 16 n = hexDigits (k + 1) n := by
  induction k with
  | zero =>
    intro n hn
    have hlt : n < 16 := hn
    rw [Nat.toDigits_of_lt_base hlt, hexDigits, Nat.mod_eq_of_lt hlt]
    rfl
  | succ k ih =>
    intro n hn
    rw [hexDigits, ← ih (n / 16) (by omega)]
    by_cases hlt : n < 16
    · rw [Nat.toDigits_of_lt_base hlt, Nat.div_eq_of_lt hlt, Nat.mod_eq_of_lt hlt, Nat.toDigits_zero]
      show List.replicate (k + 1) '0' ++ _ = (List.replicate k '0' ++ ['0']) ++ _
      rw [← List.replicate_succ']
    · rw [Nat.toDigits_of_base_le (by decide) (not_lt.mp hlt), List.length_append, List.length_singleton,
        Nat.add_sub_add_right, List.append_assoc]

theorem hexWord_eq (w : Word) : hexWord w = hexDigits 8 w.toNat :=
  padStart_eq 7 w.toNat w.isLt

/-- **The browser's hash is SHA-256**, whatever the length of the message. -/
theorem sha256Hex_eq (bytes : List UInt8) (h : 8 * bytes.length < 2 ^ 53) : sha256Hex bytes = sha256 bytes := by
  have hwords : hexWord = fun w => hexDigits 8 w.toNat := funext hexWord_eq
  obtain ⟨-, hhash⟩ := blocks_spec h (blocks bytes)
  unfold sha256Hex sha256 Sha256.hash
  rw [hwords, length_padded h]
  simp only
  rw [hhash]

/-- the standard's own example -/
theorem sha256Hex_eq_abc : sha256 [0x61, 0x62, 0x63]
    = "ba7816bf8f01cfea414140de5dae2223b00361a396177a9cb410ff61f20015ad" := by
  rw [← sha256Hex_eq [0x61, 0x62, 0x63] (by decide)]
  decide +kernel

end Verdicts
end Portal
