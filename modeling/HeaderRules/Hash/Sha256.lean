import HeaderRules.Hash.Words

/-!
# SHA-256

The hash behind block identities, transaction identifiers and the key derivation of scrypt.

The message schedule is kept newest word first, so that each of its words is a fixed position of
the list built so far, and a compression is a plain fold of the sixty-four rounds over the
schedule paired with the round constants. Everything is a fold or a structural recursion over
lists, so a digest of a concrete message can also be computed inside a proof.
-/

namespace HeaderRules.Hash.Sha256

/-- The eight working words. -/
structure State where
  a : UInt32
  b : UInt32
  c : UInt32
  d : UInt32
  e : UInt32
  f : UInt32
  g : UInt32
  h : UInt32
deriving DecidableEq, Repr

/-- The state before the first block: the fractional parts of the square roots of the first
eight primes. -/
def State.initial : State :=
  ⟨0x6a09e667, 0xbb67ae85, 0x3c6ef372, 0xa54ff53a, 0x510e527f, 0x9b05688c, 0x1f83d9ab, 0x5be0cd19⟩

/-- The round constants: the fractional parts of the cube roots of the first sixty-four primes. -/
def roundConstants : List UInt32 := [
  0x428a2f98, 0x71374491, 0xb5c0fbcf, 0xe9b5dba5, 0x3956c25b, 0x59f111f1, 0x923f82a4, 0xab1c5ed5,
  0xd807aa98, 0x12835b01, 0x243185be, 0x550c7dc3, 0x72be5d74, 0x80deb1fe, 0x9bdc06a7, 0xc19bf174,
  0xe49b69c1, 0xefbe4786, 0x0fc19dc6, 0x240ca1cc, 0x2de92c6f, 0x4a7484aa, 0x5cb0a9dc, 0x76f988da,
  0x983e5152, 0xa831c66d, 0xb00327c8, 0xbf597fc7, 0xc6e00bf3, 0xd5a79147, 0x06ca6351, 0x14292967,
  0x27b70a85, 0x2e1b2138, 0x4d2c6dfc, 0x53380d13, 0x650a7354, 0x766a0abb, 0x81c2c92e, 0x92722c85,
  0xa2bfe8a1, 0xa81a664b, 0xc24b8b70, 0xc76c51a3, 0xd192e819, 0xd6990624, 0xf40e3585, 0x106aa070,
  0x19a4c116, 0x1e376c08, 0x2748774c, 0x34b0bcb5, 0x391c0cb3, 0x4ed8aa4a, 0x5b9cca4f, 0x682e6ff3,
  0x748f82ee, 0x78a5636f, 0x84c87814, 0x8cc70208, 0x90befffa, 0xa4506ceb, 0xbef9a3f7, 0xc67178f2]

/-- `n` further words of the message schedule. The words come newest first, so the words 2, 7, 15
and 16 places back stand at positions 1, 6, 14 and 15. -/
def extendSchedule : Nat → List UInt32 → List UInt32
  | 0, ws => ws
  | n + 1, ws =>
    let back2 := ws.getD 1 0
    let back15 := ws.getD 14 0
    let s0 := rotr32 back15 7 ^^^ rotr32 back15 18 ^^^ (back15 >>> 3)
    let s1 := rotr32 back2 17 ^^^ rotr32 back2 19 ^^^ (back2 >>> 10)
    extendSchedule n ((s1 + ws.getD 6 0 + s0 + ws.getD 15 0) :: ws)

/-- The sixty-four schedule words of a sixteen-word block, oldest first. -/
def schedule (block : List UInt32) : List UInt32 :=
  (extendSchedule 48 block.reverse).reverse

/-- One round with its constant and schedule word. -/
def round (s : State) (kw : UInt32 × UInt32) : State :=
  let sum1 := rotr32 s.e 6 ^^^ rotr32 s.e 11 ^^^ rotr32 s.e 25
  let choice := (s.e &&& s.f) ^^^ (~~~s.e &&& s.g)
  let t1 := s.h + sum1 + choice + kw.1 + kw.2
  let sum0 := rotr32 s.a 2 ^^^ rotr32 s.a 13 ^^^ rotr32 s.a 22
  let majority := (s.a &&& s.b) ^^^ (s.a &&& s.c) ^^^ (s.b &&& s.c)
  ⟨t1 + (sum0 + majority), s.a, s.b, s.c, s.d + t1, s.e, s.f, s.g⟩

/-- Absorbs one sixteen-word block. -/
def compress (s : State) (block : List UInt32) : State :=
  let r := (roundConstants.zip (schedule block)).foldl round s
  ⟨s.a + r.a, s.b + r.b, s.c + r.c, s.d + r.d, s.e + r.e, s.f + r.f, s.g + r.g, s.h + r.h⟩

/-- The message followed by a one bit, zeros and its bit length in eight big-endian bytes; the
whole is a multiple of sixty-four bytes. -/
def pad (message : List UInt8) : List UInt8 :=
  message ++ 0x80 :: List.replicate ((119 - message.length % 64) % 64) 0 ++
    bigEndian 8 (8 * message.length)

/-- The eight state words, most significant byte first. -/
def State.bytes (s : State) : List UInt8 :=
  bytesOfBig32 s.a ++ bytesOfBig32 s.b ++ bytesOfBig32 s.c ++ bytesOfBig32 s.d ++
    bytesOfBig32 s.e ++ bytesOfBig32 s.f ++ bytesOfBig32 s.g ++ bytesOfBig32 s.h

/-- The SHA-256 digest of a message, as thirty-two bytes. -/
def hash (message : List UInt8) : List UInt8 :=
  (((pieces 64 (pad message)).map fun block => (pieces 4 block).map bigEndian32).foldl
    compress State.initial).bytes

@[simp] theorem length_hash (message : List UInt8) : (hash message).length = 32 := rfl

/-- SHA-256 applied to its own digest. -/
def hashTwice (message : List UInt8) : List UInt8 := hash (hash message)

@[simp] theorem length_hashTwice (message : List UInt8) : (hashTwice message).length = 32 := rfl

end HeaderRules.Hash.Sha256
