import HeaderRules.Hash.Words

/-!
# CubeHash-512

The eighth X11 stage, with sixteen rounds after every block of thirty-two bytes and ten times as
many at either end. The state is a cube of thirty-two words, of which a round touches the two
halves alternately with additions, rotations and exchanges of positions.
-/

namespace HeaderRules.Hash.CubeHash512

/-- Half a round: the front half is added to the back half, rotated by `turn`, rearranged by
flipping the bits `front` of the position, and combined with the back half, which is then
rearranged by flipping the bits `back`. -/
def halfRound (turn : UInt32) (front back : Nat) (x : Array UInt32) : Array UInt32 :=
  let w (i : Nat) : UInt32 := x.getD i 0
  let sum (i : Nat) : UInt32 := w (i + 16) + w i
  Array.ofFn fun k : Fin 32 =>
    if k.val < 16 then rotl32 (w (k.val ^^^ front)) turn ^^^ sum k.val
    else sum ((k.val - 16) ^^^ back)

/-- One round. -/
def round (x : Array UInt32) : Array UInt32 := halfRound 11 4 1 (halfRound 7 8 2 x)

/-- Sixteen rounds. -/
def rounds16 (x : Array UInt32) : Array UInt32 := Nat.repeat round 16 x

/-- The state before the first block, from the parameters alone: the digest length and the block
length in bytes and the rounds for each block. -/
def initial : Array UInt32 := Nat.repeat rounds16 10 (#[64, 32, 16] ++ Array.replicate 29 0)

/-- Absorbs a block of thirty-two bytes. -/
def absorb (x : Array UInt32) (block : List UInt8) : Array UInt32 :=
  let m := ((pieces 4 block).map littleEndian32).toArray
  rounds16 (x.mapIdx fun i w => w ^^^ m.getD i 0)

/-- The message followed by a one bit and zeros, to a multiple of thirty-two bytes. -/
def pad (message : List UInt8) : List UInt8 :=
  message ++ 0x80 :: List.replicate (31 - message.length % 32) 0

/-- The digest of a message, as sixty-four bytes. -/
def hash (message : List UInt8) : List UInt8 :=
  let x := (pieces 32 (pad message)).foldl absorb initial
  let marked := x.mapIdx fun i w => if i = 31 then w ^^^ 1 else w
  ((Nat.repeat rounds16 10 marked).toList.take 16).flatMap bytesOfLittle32

end HeaderRules.Hash.CubeHash512
