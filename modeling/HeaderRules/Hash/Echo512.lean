import HeaderRules.Hash.Aes

/-!
# ECHO-512

The last X11 stage: the AES on a larger scale. Sixteen AES states form a 4 × 4 matrix; a round
substitutes each of them by two AES rounds keyed with a counter, rotates the rows of the matrix
and mixes its columns byte by byte.
-/

namespace HeaderRules.Hash.Echo512

open Aes (Columns)

/-- The AES key that holds a number in its 128 bits. -/
def keyOfNat (n : Nat) : Columns :=
  ⟨UInt32.ofNat n, UInt32.ofNat (n >>> 32), UInt32.ofNat (n >>> 64), UInt32.ofNat (n >>> 96)⟩

/-- The substitution of all states: two AES rounds, the first keyed with the counter, which goes
up by one from state to state. -/
def substitute (counter : Nat) (w : Array Columns) : Array Columns :=
  w.mapIdx fun i s => Aes.keylessRound (Aes.round s (keyOfNat (counter + i)))

/-- The rotation of row `r` of the matrix by `r` columns; states are stored column by column. -/
def shiftRows (w : Array Columns) : Array Columns :=
  Array.ofFn fun k : Fin 16 => w.getD ((k.val + 4 * (k.val % 4)) % 16) default

/-- Doubling in GF(2⁸) of the four bytes of a word. -/
def doubleBytes (w : UInt32) : UInt32 :=
  ((w &&& 0x7f7f7f7f) <<< 1) ^^^ (((w >>> 7) &&& 0x01010101) * 0x1b)

/-- One word of a mixed column, from the words of the four states of the column in cyclic order:
the factors are 2, 3, 1, 1. -/
def mixWord (a b c d : UInt32) : UInt32 :=
  doubleBytes (a ^^^ b) ^^^ b ^^^ c ^^^ d

/-- The column mix of four states. -/
def mixStates (a b c d : Columns) : Columns :=
  ⟨mixWord a.c0 b.c0 c.c0 d.c0, mixWord a.c1 b.c1 c.c1 d.c1, mixWord a.c2 b.c2 c.c2 d.c2,
    mixWord a.c3 b.c3 c.c3 d.c3⟩

/-- The mix of all columns of the matrix. -/
def mixColumns (w : Array Columns) : Array Columns :=
  Array.ofFn fun k : Fin 16 =>
    let s (i : Nat) : Columns := w.getD (k.val / 4 * 4 + (k.val + i) % 4) default
    mixStates (s 0) (s 1) (s 2) (s 3)

/-- Ten rounds, from the given value of the counter on. -/
def rounds (counter : Nat) (w : Array Columns) : Array Columns :=
  (List.range 10).foldl
    (fun w r => mixColumns (shiftRows (substitute (counter + 16 * r) w))) w

/-- The chaining value: eight states. -/
abbrev Chain := Vector Columns 8

/-- The chaining value before the first block: the digest length in every state. -/
def initial : Chain := Vector.replicate 8 (keyOfNat 512)

/-- Absorbs a block of 128 bytes with its counter of message bits. -/
def compress (h : Chain) (block : List UInt8 × Nat) : Chain :=
  let m := ((pieces 16 block.1).map fun s =>
    Columns.ofWords ((pieces 4 s).map littleEndian32)).toArray
  let w := rounds block.2 (h.toArray ++ m)
  Vector.ofFn fun i =>
    ((h.get i).xor (m.getD i default)).xor ((w.getD i default).xor (w.getD (i.val + 8) default))

/-- The message followed by a one bit, zeros, the digest length in two little-endian bytes and the
bit length in sixteen; the whole is a multiple of 128 bytes. -/
def pad (message : List UInt8) : List UInt8 :=
  message ++ 0x80 :: List.replicate ((237 - message.length % 128) % 128) 0 ++
    littleEndian 2 512 ++ littleEndian 16 (8 * message.length)

/-- The padded message in blocks, each with the count of message bits up to its end, which is zero
for a block of padding alone. -/
def blocks (message : List UInt8) : List (List UInt8 × Nat) :=
  (pieces 128 (pad message)).zipIdx.map fun (block, i) =>
    (block, if 128 * i < message.length then 8 * min (128 * (i + 1)) message.length else 0)

/-- The sixteen bytes of a state. -/
def stateBytes (s : Columns) : List UInt8 :=
  bytesOfLittle32 s.c0 ++ bytesOfLittle32 s.c1 ++ bytesOfLittle32 s.c2 ++ bytesOfLittle32 s.c3

/-- The digest of a message: the first four states of the chaining value. -/
def hash (message : List UInt8) : List UInt8 :=
  let h := (blocks message).foldl compress initial
  stateBytes h[0] ++ stateBytes h[1] ++ stateBytes h[2] ++ stateBytes h[3]

@[simp] theorem length_hash (message : List UInt8) : (hash message).length = 64 := rfl

end HeaderRules.Hash.Echo512
