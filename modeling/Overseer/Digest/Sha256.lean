import Overseer.Bytes

/-!
# SHA-256

The message is filled up to whole blocks of 64 bytes with a one bit, zeros, and its length in bits.
Each block is spread over 64 words and worked into a state of eight words; the state after the last
block is the digest.

    digest m = the big-endian bytes of  foldl compress start (blocks (fill m))
-/

namespace Overseer.Digest.Sha256

/-- Fractional parts of the cube roots of the first 64 primes. -/
def roundConstants : Array UInt32 :=
  #[0x428a2f98, 0x71374491, 0xb5c0fbcf, 0xe9b5dba5, 0x3956c25b, 0x59f111f1, 0x923f82a4, 0xab1c5ed5,
    0xd807aa98, 0x12835b01, 0x243185be, 0x550c7dc3, 0x72be5d74, 0x80deb1fe, 0x9bdc06a7, 0xc19bf174,
    0xe49b69c1, 0xefbe4786, 0x0fc19dc6, 0x240ca1cc, 0x2de92c6f, 0x4a7484aa, 0x5cb0a9dc, 0x76f988da,
    0x983e5152, 0xa831c66d, 0xb00327c8, 0xbf597fc7, 0xc6e00bf3, 0xd5a79147, 0x06ca6351, 0x14292967,
    0x27b70a85, 0x2e1b2138, 0x4d2c6dfc, 0x53380d13, 0x650a7354, 0x766a0abb, 0x81c2c92e, 0x92722c85,
    0xa2bfe8a1, 0xa81a664b, 0xc24b8b70, 0xc76c51a3, 0xd192e819, 0xd6990624, 0xf40e3585, 0x106aa070,
    0x19a4c116, 0x1e376c08, 0x2748774c, 0x34b0bcb5, 0x391c0cb3, 0x4ed8aa4a, 0x5b9cca4f, 0x682e6ff3,
    0x748f82ee, 0x78a5636f, 0x84c87814, 0x8cc70208, 0x90befffa, 0xa4506ceb, 0xbef9a3f7, 0xc67178f2]

/-- A state of eight words. -/
structure State where
  a : UInt32
  b : UInt32
  c : UInt32
  d : UInt32
  e : UInt32
  f : UInt32
  g : UInt32
  h : UInt32
  deriving DecidableEq, Repr

/-- Fractional parts of the square roots of the first eight primes. -/
def start : State :=
  ⟨0x6a09e667, 0xbb67ae85, 0x3c6ef372, 0xa54ff53a, 0x510e527f, 0x9b05688c, 0x1f83d9ab, 0x5be0cd19⟩

def rotr (x : UInt32) (n : UInt32) : UInt32 := (x >>> n) ||| (x <<< (32 - n))

/-- The message followed by its end mark, zeros and its length, a multiple of 64 bytes. -/
def fill (m : Bytes) : Bytes :=
  let zeros := (119 - m.length % 64) % 64
  m ++ (0x80 :: List.replicate zeros 0) ++ (Bytes.ofNat 8 (8 * m.length)).reverse

/-- Words of four bytes each, the first byte most significant. -/
def words : Bytes → List UInt32
  | a :: b :: c :: d :: r =>
    ((a.toUInt32 <<< 24) ||| (b.toUInt32 <<< 16) ||| (c.toUInt32 <<< 8) ||| d.toUInt32) :: words r
  | _ => []

/-- Append the next `n` words of the schedule. -/
def extend : (n : Nat) → Array UInt32 → Array UInt32
  | 0, w => w
  | n + 1, w =>
    let x := w.getD (w.size - 15) 0
    let y := w.getD (w.size - 2) 0
    let s0 := rotr x 7 ^^^ rotr x 18 ^^^ (x >>> 3)
    let s1 := rotr y 17 ^^^ rotr y 19 ^^^ (y >>> 10)
    extend n (w.push (w.getD (w.size - 16) 0 + s0 + w.getD (w.size - 7) 0 + s1))

def round (s : State) (k w : UInt32) : State :=
  let s1 := rotr s.e 6 ^^^ rotr s.e 11 ^^^ rotr s.e 25
  let ch := (s.e &&& s.f) ^^^ (~~~s.e &&& s.g)
  let t1 := s.h + s1 + ch + k + w
  let s0 := rotr s.a 2 ^^^ rotr s.a 13 ^^^ rotr s.a 22
  let maj := (s.a &&& s.b) ^^^ (s.a &&& s.c) ^^^ (s.b &&& s.c)
  ⟨t1 + (s0 + maj), s.a, s.b, s.c, s.d + t1, s.e, s.f, s.g⟩

/-- Work one block of sixteen words into the state. -/
def compress (s : State) (block : List UInt32) : State :=
  let w := extend 48 block.toArray
  let t := (List.range 64).foldl (fun t i => round t (roundConstants.getD i 0) (w.getD i 0)) s
  ⟨s.a + t.a, s.b + t.b, s.c + t.c, s.d + t.d, s.e + t.e, s.f + t.f, s.g + t.g, s.h + t.h⟩

/-- Compress the first `n` blocks of 64 bytes. -/
def compressAll : (n : Nat) → State → Bytes → State
  | 0, s, _ => s
  | n + 1, s, m => compressAll n (compress s (words (m.take 64))) (m.drop 64)

def wordBytes (w : UInt32) : Bytes := (Bytes.ofNat 4 w.toNat).reverse

/-- The 32 bytes of the digest. -/
def digest (m : Bytes) : Bytes :=
  let filled := fill m
  let s := compressAll (filled.length / 64) start filled
  [s.a, s.b, s.c, s.d, s.e, s.f, s.g, s.h].flatMap wordBytes

/-- The digest in lower-case hexadecimal. -/
def hex (m : Bytes) : String := Bytes.hex (digest m)

end Overseer.Digest.Sha256
