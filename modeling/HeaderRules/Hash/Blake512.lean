import HeaderRules.Hash.Words

/-!
# BLAKE-512

The first X11 stage: a block cipher in the style of ChaCha on sixteen 64-bit words, run for
sixteen rounds on the chaining value, a counter of message bits and a block of sixteen words.
-/

namespace HeaderRules.Hash.Blake512

/-- The chaining value before the first block. -/
def initial : Array UInt64 := #[
  0x6a09e667f3bcc908, 0xbb67ae8584caa73b, 0x3c6ef372fe94f82b, 0xa54ff53a5f1d36f1,
  0x510e527fade682d1, 0x9b05688c2b3e6c1f, 0x1f83d9abfb41bd6b, 0x5be0cd19137e2179]

/-- The first digits of π, in sixteen words. -/
def constants : Array UInt64 := #[
  0x243f6a8885a308d3, 0x13198a2e03707344, 0xa4093822299f31d0, 0x082efa98ec4e6c89,
  0x452821e638d01377, 0xbe5466cf34e90c6c, 0xc0ac29b7c97c50dd, 0x3f84d5b5b5470917,
  0x9216d5d98979fb1b, 0xd1310ba698dfb5ac, 0x2ffd72dbd01adfb7, 0xb8e1afed6a267e96,
  0xba7c9045f12c7f99, 0x24a19947b3916cf7, 0x0801f2e2858efc16, 0x636920d871574e69]

/-- The ten permutations of the message words. -/
def permutations : Array (Array Nat) := #[
  #[0, 1, 2, 3, 4, 5, 6, 7, 8, 9, 10, 11, 12, 13, 14, 15],
  #[14, 10, 4, 8, 9, 15, 13, 6, 1, 12, 0, 2, 11, 7, 5, 3],
  #[11, 8, 12, 0, 5, 2, 15, 13, 10, 14, 3, 6, 7, 1, 9, 4],
  #[7, 9, 3, 1, 13, 12, 11, 14, 2, 6, 5, 10, 4, 0, 15, 8],
  #[9, 0, 5, 7, 2, 4, 10, 15, 14, 1, 11, 12, 6, 8, 3, 13],
  #[2, 12, 6, 10, 0, 11, 8, 3, 4, 13, 7, 5, 15, 14, 1, 9],
  #[12, 5, 1, 15, 14, 13, 4, 10, 0, 7, 6, 3, 9, 2, 8, 11],
  #[13, 11, 7, 14, 12, 1, 3, 9, 5, 0, 15, 4, 8, 6, 2, 10],
  #[6, 15, 14, 9, 11, 3, 0, 8, 12, 2, 13, 7, 1, 4, 10, 5],
  #[10, 2, 8, 4, 7, 6, 1, 5, 15, 11, 9, 14, 3, 12, 13, 0]]

/-- The positions that each of the eight mixing steps of a round touches: first the columns of the
4 × 4 state, then its diagonals. -/
def lanes : List (Nat × Nat × Nat × Nat) := [
  (0, 4, 8, 12), (1, 5, 9, 13), (2, 6, 10, 14), (3, 7, 11, 15),
  (0, 5, 10, 15), (1, 6, 11, 12), (2, 7, 8, 13), (3, 4, 9, 14)]

/-- One mixing step on four positions with the two keyed message words it adds. -/
def mix (v : Array UInt64) (a b c d : Nat) (x y : UInt64) : Array UInt64 :=
  let va := v.getD a 0 + x + v.getD b 0
  let vd := rotr64 (v.getD d 0 ^^^ va) 32
  let vc := v.getD c 0 + vd
  let vb := rotr64 (v.getD b 0 ^^^ vc) 25
  let va := va + y + vb
  let vd := rotr64 (vd ^^^ va) 16
  let vc := vc + vd
  let vb := rotr64 (vb ^^^ vc) 11
  (((v.setIfInBounds a va).setIfInBounds b vb).setIfInBounds c vc).setIfInBounds d vd

/-- One round: eight mixing steps, each with the next two words of the round's permutation. -/
def round (m v : Array UInt64) (r : Nat) : Array UInt64 :=
  let sigma := permutations.getD (r % 10) #[]
  lanes.zipIdx.foldl (fun v ((a, b, c, d), i) =>
    let j := sigma.getD (2 * i) 0
    let k := sigma.getD (2 * i + 1) 0
    mix v a b c d (m.getD j 0 ^^^ constants.getD k 0) (m.getD k 0 ^^^ constants.getD j 0)) v

/-- Absorbs a block of 128 bytes; `bits` counts the message bits up to its end, and is zero for a
block of padding alone. -/
def compress (h : Array UInt64) (block : List UInt8 × Nat) : Array UInt64 :=
  let m := ((pieces 8 block.1).map bigEndian64).toArray
  let low := UInt64.ofNat block.2
  let high := UInt64.ofNat (block.2 >>> 64)
  let c (i : Nat) : UInt64 := constants.getD i 0
  let v := h ++ #[c 0, c 1, c 2, c 3, low ^^^ c 4, low ^^^ c 5, high ^^^ c 6, high ^^^ c 7]
  let v := (List.range 16).foldl (round m) v
  Array.ofFn fun i : Fin 8 => h.getD i 0 ^^^ v.getD i 0 ^^^ v.getD (i.val + 8) 0

/-- The message followed by a one bit, zeros, a second one bit and the bit length in sixteen
big-endian bytes; the whole is a multiple of 128 bytes. -/
def pad (message : List UInt8) : List UInt8 :=
  let zeros := (239 - message.length % 128) % 128
  let marker := if zeros = 0 then [0x81] else 0x80 :: List.replicate (zeros - 1) 0 ++ [0x01]
  message ++ marker ++ bigEndian 16 (8 * message.length)

/-- The padded message in blocks, each with its counter. -/
def blocks (message : List UInt8) : List (List UInt8 × Nat) :=
  (pieces 128 (pad message)).zipIdx.map fun (block, i) =>
    (block, if 128 * i < message.length then 8 * min (128 * (i + 1)) message.length else 0)

/-- The BLAKE-512 digest of a message, as sixty-four bytes. -/
def hash (message : List UInt8) : List UInt8 :=
  ((blocks message).foldl compress initial).toList.flatMap bytesOfBig64

end HeaderRules.Hash.Blake512
