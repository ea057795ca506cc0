import HeaderRules.Hash.Aes

/-!
# SHAvite-3-512

The ninth X11 stage: a Feistel network of fourteen rounds over four AES states, keyed with 112
subkeys that are expanded from a block of 128 bytes and a counter of message bits.

## Shape of the key schedule

Subkeys are produced eight at a time. A nonlinear group passes a rotated earlier subkey through an
AES round and adds the previous subkey; a linear group of eight combines words 32 and 7 places
back. Nonlinear and linear groups alternate, and four of the subkeys also take in the counter, its
words in four different orders with one of them complemented.
-/

namespace HeaderRules.Hash.Shavite512

open Aes (Columns)

/-- The chaining value before the first block. -/
def initial : Array UInt32 := #[
  0x72fccdd8, 0x79ca4727, 0x128a077b, 0x40d55aec, 0xd1901a06, 0x430ae307, 0xb29f5cd1, 0xdf07fbfc,
  0x8e45d73d, 0x681ab538, 0xbde86578, 0xdd577e47, 0xe275eade, 0x502d9fcd, 0xb9357178, 0x022a4b9a]

/-- The four words of a 128-bit counter, the lowest first. -/
structure Counter where
  w0 : UInt32
  w1 : UInt32
  w2 : UInt32
  w3 : UInt32

/-- The counter that stands at `n`. -/
def Counter.ofNat (n : Nat) : Counter :=
  ⟨UInt32.ofNat n, UInt32.ofNat (n >>> 32), UInt32.ofNat (n >>> 64), UInt32.ofNat (n >>> 96)⟩

/-- What the subkey that starts at word `u` takes in from the counter. -/
def Counter.share (c : Counter) (u : Nat) : Columns :=
  if u = 32 then ⟨c.w0, c.w1, c.w2, ~~~c.w3⟩
  else if u = 164 then ⟨c.w3, c.w2, c.w1, ~~~c.w0⟩
  else if u = 316 then ⟨c.w2, c.w3, c.w0, ~~~c.w1⟩
  else if u = 440 then ⟨c.w1, c.w0, c.w3, ~~~c.w2⟩
  else Columns.zero

/-- The four words of the key schedule from word `u` on. -/
def columnsAt (keys : Array UInt32) (u : Nat) : Columns :=
  ⟨keys.getD u 0, keys.getD (u + 1) 0, keys.getD (u + 2) 0, keys.getD (u + 3) 0⟩

/-- Appends a subkey. -/
def append (keys : Array UInt32) (s : Columns) : Array UInt32 :=
  (((keys.push s.c0).push s.c1).push s.c2).push s.c3

/-- The next subkey of a nonlinear group. -/
def nonlinear (c : Counter) (keys : Array UInt32) : Array UInt32 :=
  let u := keys.size
  let old := columnsAt keys (u - 32)
  let mixed := (Aes.keylessRound ⟨old.c1, old.c2, old.c3, old.c0⟩).xor (columnsAt keys (u - 4))
  append keys (mixed.xor (c.share u))

/-- The next subkey of a linear group. -/
def linear (keys : Array UInt32) : Array UInt32 :=
  let u := keys.size
  append keys ((columnsAt keys (u - 32)).xor (columnsAt keys (u - 7)))

/-- All 448 words of the key schedule: the block itself, then seven nonlinear groups with six
linear groups between them. -/
def keySchedule (c : Counter) (block : Array UInt32) : Array UInt32 :=
  let group := Nat.repeat (nonlinear c) 8
  group (Nat.repeat (fun keys => Nat.repeat linear 8 (group keys)) 6 block)

/-- Four keyed AES rounds on one state, with the subkeys from word `u` on; each subkey is added
before its round. -/
def feistel (keys : Array UInt32) (u : Nat) (s : Columns) : Columns :=
  (List.range 4).foldl (fun s i => Aes.keylessRound (s.xor (columnsAt keys (u + 4 * i)))) s

/-- One round: the second state keys a change of the first and the fourth one of the third, then
the states move on by one place. -/
def round (keys : Array UInt32) (s : Columns × Columns × Columns × Columns) (r : Nat) :
    Columns × Columns × Columns × Columns :=
  let (a, b, c, d) := s
  let a := a.xor (feistel keys (32 * r) b)
  let c := c.xor (feistel keys (32 * r + 16) d)
  (d, a, b, c)

/-- Absorbs a block of 128 bytes with its counter. -/
def compress (h : Array UInt32) (block : List UInt8 × Nat) : Array UInt32 :=
  let m := ((pieces 4 block.1).map littleEndian32).toArray
  let keys := keySchedule (Counter.ofNat block.2) m
  let (a, b, c, d) := (List.range 14).foldl (round keys)
    (columnsAt h 0, columnsAt h 4, columnsAt h 8, columnsAt h 12)
  h.zipWith (· ^^^ ·) (append (append (append (append #[] a) b) c) d)

/-- The message followed by a one bit, zeros, its bit length in sixteen little-endian bytes and the
digest length in two; the whole is a multiple of 128 bytes. -/
def pad (message : List UInt8) : List UInt8 :=
  message ++ 0x80 :: List.replicate ((237 - message.length % 128) % 128) 0 ++
    littleEndian 16 (8 * message.length) ++ littleEndian 2 512

/-- The padded message in blocks, each with the count of message bits up to its end, which is zero
for a block of padding alone. -/
def blocks (message : List UInt8) : List (List UInt8 × Nat) :=
  (pieces 128 (pad message)).zipIdx.map fun (block, i) =>
    (block, if 128 * i < message.length then 8 * min (128 * (i + 1)) message.length else 0)

/-- The digest of a message, as sixty-four bytes. -/
def hash (message : List UInt8) : List UInt8 :=
  ((blocks message).foldl compress initial).toList.flatMap bytesOfLittle32

end HeaderRules.Hash.Shavite512
