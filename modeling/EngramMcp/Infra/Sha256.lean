import EngramMcp.Infra.Text

/-!
# SHA-256 and HMAC-SHA-256

Executable definitions of the two hash functions, so that results about any hash function can be
read at the ones a program uses.
-/

namespace Infra.Sha256

open Infra

/-- The chaining state: eight words. -/
structure State where
  a : UInt32
  b : UInt32
  c : UInt32
  d : UInt32
  e : UInt32
  f : UInt32
  g : UInt32
  h : UInt32

/-- The initial state. -/
def State.init : State where
  a := 0x6a09e667
  b := 0xbb67ae85
  c := 0x3c6ef372
  d := 0xa54ff53a
  e := 0x510e527f
  f := 0x9b05688c
  g := 0x1f83d9ab
  h := 0x5be0cd19

/-- The round constants. -/
def constants : List UInt32 := [
  0x428a2f98, 0x71374491, 0xb5c0fbcf, 0xe9b5dba5, 0x3956c25b, 0x59f111f1, 0x923f82a4, 0xab1c5ed5,
  0xd807aa98, 0x12835b01, 0x243185be, 0x550c7dc3, 0x72be5d74, 0x80deb1fe, 0x9bdc06a7, 0xc19bf174,
  0xe49b69c1, 0xefbe4786, 0x0fc19dc6, 0x240ca1cc, 0x2de92c6f, 0x4a7484aa, 0x5cb0a9dc, 0x76f988da,
  0x983e5152, 0xa831c66d, 0xb00327c8, 0xbf597fc7, 0xc6e00bf3, 0xd5a79147, 0x06ca6351, 0x14292967,
  0x27b70a85, 0x2e1b2138, 0x4d2c6dfc, 0x53380d13, 0x650a7354, 0x766a0abb, 0x81c2c92e, 0x92722c85,
  0xa2bfe8a1, 0xa81a664b, 0xc24b8b70, 0xc76c51a3, 0xd192e819, 0xd6990624, 0xf40e3585, 0x106aa070,
  0x19a4c116, 0x1e376c08, 0x2748774c, 0x34b0bcb5, 0x391c0cb3, 0x4ed8aa4a, 0x5b9cca4f, 0x682e6ff3,
  0x748f82ee, 0x78a5636f, 0x84c87814, 0x8cc70208, 0x90befffa, 0xa4506ceb, 0xbef9a3f7, 0xc67178f2]

/-- Rotation to the right. -/
def rotr (x n : UInt32) : UInt32 := (x >>> n) ||| (x <<< (32 - n))

/-- One round with the round constant `k` and the schedule word `w`. -/
def round (s : State) (k w : UInt32) : State :=
  let s1 := rotr s.e 6 ^^^ rotr s.e 11 ^^^ rotr s.e 25
  let ch := (s.e &&& s.f) ^^^ (~~~s.e &&& s.g)
  let t1 := s.h + s1 + ch + k + w
  let s0 := rotr s.a 2 ^^^ rotr s.a 13 ^^^ rotr s.a 22
  let maj := (s.a &&& s.b) ^^^ (s.a &&& s.c) ^^^ (s.b &&& s.c)
  ⟨t1 + (s0 + maj), s.a, s.b, s.c, s.d + t1, s.e, s.f, s.g⟩

/-- The schedule word that follows a window of sixteen. -/
def nextWord (window : List UInt32) : UInt32 :=
  let x := window.getD 1 0
  let y := window.getD 14 0
  window.getD 0 0 + (rotr x 7 ^^^ rotr x 18 ^^^ (x >>> 3)) + window.getD 9 0
    + (rotr y 17 ^^^ rotr y 19 ^^^ (y >>> 10))

/-- The rounds; the window holds the next sixteen schedule words. -/
def rounds : List UInt32 → List UInt32 → State → State
  | [], _, s => s
  | k :: ks, window, s =>
    rounds ks (window.tail ++ [nextWord window]) (round s k (window.getD 0 0))

/-- Big-endian words of a byte string. -/
def toWords : Bytes → List UInt32
  | a :: b :: c :: d :: rest =>
    (a.toUInt32 <<< 24 ||| b.toUInt32 <<< 16 ||| c.toUInt32 <<< 8 ||| d.toUInt32) :: toWords rest
  | _ => []

/-- Absorbs one block of sixteen words. -/
def compress (s : State) (block : List UInt32) : State :=
  let t := rounds constants block s
  ⟨s.a + t.a, s.b + t.b, s.c + t.c, s.d + t.d, s.e + t.e, s.f + t.f, s.g + t.g, s.h + t.h⟩

/-- Absorbs `n` blocks. -/
def absorb : Nat → List UInt32 → State → State
  | 0, _, s => s
  | n + 1, words, s => absorb n (words.drop 16) (compress s (words.take 16))

/-- Big-endian bytes of a number. -/
def toBytes : Nat → Nat → Bytes
  | 0, _ => []
  | n + 1, v => toBytes n (v / 256) ++ [UInt8.ofNat (v % 256)]

/-- The message with a one bit, zeros and its length in bits. -/
def pad (m : Bytes) : Bytes :=
  m ++ 0x80 :: (List.replicate ((119 - m.length % 64) % 64) 0 ++ toBytes 8 (8 * m.length))

/-- The bytes of the state. -/
def State.bytes (s : State) : Bytes :=
  [s.a, s.b, s.c, s.d, s.e, s.f, s.g, s.h].flatMap fun w => toBytes 4 w.toNat

/-- SHA-256. -/
def hash (m : Bytes) : Bytes :=
  (absorb ((m.length + 72) / 64) (toWords (pad m)) State.init).bytes

theorem length_toBytes : ∀ n v, (toBytes n v).length = n
  | 0, _ => rfl
  | n + 1, v => by rw [toBytes, List.length_append, length_toBytes n, List.length_singleton]

theorem length_hash (m : Bytes) : (hash m).length = 32 := by
  simp only [hash, State.bytes, List.length_flatMap, length_toBytes]
  rfl

/-- The key of HMAC, brought to the length of a block. -/
def hmacKey (key : Bytes) : Bytes :=
  let k := if key.length > 64 then hash key else key
  k ++ List.replicate (64 - k.length) 0

/-- HMAC-SHA-256. -/
def hmac (key m : Bytes) : Bytes :=
  hash ((hmacKey key).map (· ^^^ 0x5c) ++ hash ((hmacKey key).map (· ^^^ 0x36) ++ m))

theorem length_hmac (key m : Bytes) : (hmac key m).length = 32 := length_hash _

/-- The test vector "abc". -/
example : (hash (utf8 "abc")).take 4 = [0xba, 0x78, 0x16, 0xbf] := by decide +kernel

/-- RFC 4231, test case 2. -/
example : (hmac (utf8 "Jefe") (utf8 "what do ya want for nothing?")).take 4
    = [0x5b, 0xdc, 0xc1, 0x46] := by decide +kernel

end Infra.Sha256
