import Star9.Base.Bytes

/-!
# SHA-256

The hash function and the keyed hash made from it, on byte lists. Words are natural numbers below
2^32.
-/
namespace Base.Sha256

def word (n : Nat) : Nat := n % 2 ^ 32

def rotateRight (x n : Nat) : Nat := (x >>> n) ||| word (x <<< (32 - n))

def roundConstants : List Nat :=
  [0x428a2f98, 0x71374491, 0xb5c0fbcf, 0xe9b5dba5, 0x3956c25b, 0x59f111f1, 0x923f82a4, 0xab1c5ed5,
    0xd807aa98, 0x12835b01, 0x243185be, 0x550c7dc3, 0x72be5d74, 0x80deb1fe, 0x9bdc06a7, 0xc19bf174,
    0xe49b69c1, 0xefbe4786, 0x0fc19dc6, 0x240ca1cc, 0x2de92c6f, 0x4a7484aa, 0x5cb0a9dc, 0x76f988da,
    0x983e5152, 0xa831c66d, 0xb00327c8, 0xbf597fc7, 0xc6e00bf3, 0xd5a79147, 0x06ca6351, 0x14292967,
    0x27b70a85, 0x2e1b2138, 0x4d2c6dfc, 0x53380d13, 0x650a7354, 0x766a0abb, 0x81c2c92e, 0x92722c85,
    0xa2bfe8a1, 0xa81a664b, 0xc24b8b70, 0xc76c51a3, 0xd192e819, 0xd6990624, 0xf40e3585, 0x106aa070,
    0x19a4c116, 0x1e376c08, 0x2748774c, 0x34b0bcb5, 0x391c0cb3, 0x4ed8aa4a, 0x5b9cca4f, 0x682e6ff3,
    0x748f82ee, 0x78a5636f, 0x84c87814, 0x8cc70208, 0x90befffa, 0xa4506ceb, 0xbef9a3f7, 0xc67178f2]

def initialState : List Nat :=
  [0x6a09e667, 0xbb67ae85, 0x3c6ef372, 0xa54ff53a, 0x510e527f, 0x9b05688c, 0x1f83d9ab, 0x5be0cd19]

/-- The words after the first sixteen; `window` has the last sixteen, oldest first. -/
def extend : Nat → List Nat → List Nat
  | 0, _ => []
  | n + 1, window =>
    let at_ (i : Nat) : Nat := window.getD i 0
    let s0 := rotateRight (at_ 1) 7 ^^^ rotateRight (at_ 1) 18 ^^^ (at_ 1 >>> 3)
    let s1 := rotateRight (at_ 14) 17 ^^^ rotateRight (at_ 14) 19 ^^^ (at_ 14 >>> 10)
    let next := word (at_ 0 + s0 + at_ 9 + s1)
    next :: extend n (window.drop 1 ++ [next])

def round (state : List Nat) (kw : Nat × Nat) : List Nat :=
  match state with
  | [a, b, c, d, e, f, g, h] =>
    let s1 := rotateRight e 6 ^^^ rotateRight e 11 ^^^ rotateRight e 25
    let ch := (e &&& f) ^^^ ((2 ^ 32 - 1 - e) &&& g)
    let t1 := word (h + s1 + ch + kw.1 + kw.2)
    let s0 := rotateRight a 2 ^^^ rotateRight a 13 ^^^ rotateRight a 22
    let maj := (a &&& b) ^^^ (a &&& c) ^^^ (b &&& c)
    [word (t1 + (s0 + maj)), a, b, c, word (d + t1), e, f, g]
  | state => state

def compress (state block : List Nat) : List Nat :=
  let words := block ++ extend 48 block
  (((roundConstants.zip words).foldl round state).zip state).map fun ab => word (ab.1 + ab.2)

/-- Big-endian words of four bytes. -/
def wordsOf : Bytes → List Nat
  | a :: b :: c :: d :: rest => (((a.toNat * 256 + b.toNat) * 256 + c.toNat) * 256 + d.toNat) :: wordsOf rest
  | _ => []

def bigEndian (width n : Nat) : Bytes := (leBytes width n).reverse

def pad (message : Bytes) : Bytes :=
  message ++ [0x80] ++ List.replicate ((119 - message.length % 64) % 64) 0 ++ bigEndian 8 (8 * message.length)

def hashBlocks : Nat → List Nat → List Nat → List Nat
  | 0, state, _ => state
  | n + 1, state, words => hashBlocks n (compress state (words.take 16)) (words.drop 16)

def sha256 (message : Bytes) : Bytes :=
  let words := wordsOf (pad message)
  (hashBlocks (words.length / 16) initialState words).flatMap (bigEndian 4)

example : sha256 [0x61, 0x62, 0x63] =
    [0xba, 0x78, 0x16, 0xbf, 0x8f, 0x01, 0xcf, 0xea, 0x41, 0x41, 0x40, 0xde, 0x5d, 0xae, 0x22, 0x23,
      0xb0, 0x03, 0x61, 0xa3, 0x96, 0x17, 0x7a, 0x9c, 0xb4, 0x10, 0xff, 0x61, 0xf2, 0x00, 0x15, 0xad] := by
  decide +kernel

def hmac (key data : Bytes) : Bytes :=
  let key := if 64 < key.length then sha256 key else key
  let block := key ++ List.replicate (64 - key.length) 0
  sha256 (block.map (· ^^^ 0x5c) ++ sha256 (block.map (· ^^^ 0x36) ++ data))

end Base.Sha256
