import HeaderRules.Hash.Words

/-!
# Skein-512

The fourth X11 stage: the tweakable block cipher Threefish-512 chained in UBI mode, once over a
configuration block, once over the message and once to produce the output. A tweak tells every
application of the cipher its position, its purpose and whether it is the first or last of its
kind.
-/

namespace HeaderRules.Hash.Skein512

/-- What a chained block is for. -/
inductive Purpose where
  | configuration
  | message
  | output

/-- The number that stands for a purpose in the tweak. -/
def Purpose.code : Purpose → UInt64
  | .configuration => 4
  | .message => 48
  | .output => 63

/-- The rotation amounts of the four mixes in each of eight rounds. -/
def rotations : Array (List UInt64) := #[
  [46, 36, 19, 37], [33, 27, 14, 42], [17, 49, 36, 39], [44, 9, 54, 56],
  [39, 30, 34, 24], [13, 50, 10, 17], [25, 29, 39, 43], [8, 35, 56, 22]]

/-- The order in which the eight words go on to the next round. -/
def permutation : List Nat := [2, 1, 4, 7, 6, 5, 0, 3]

/-- One round: neighbouring words are mixed in pairs, and all words change places. -/
def round (v : Array UInt64) (r : Nat) : Array UInt64 :=
  let mixed := ((rotations.getD (r % 8) []).zipIdx.flatMap fun (n, i) =>
    let y := v.getD (2 * i + 1) 0
    let x := v.getD (2 * i) 0 + y
    [x, rotl64 y n ^^^ x]).toArray
  (permutation.map fun i => mixed.getD i 0).toArray

/-- Adds the subkey of step `s` of the key schedule; `key` has nine words and `tweak` three. -/
def addSubkey (key tweak v : Array UInt64) (s : Nat) : Array UInt64 :=
  Array.ofFn fun i : Fin 8 =>
    let k := v.getD i 0 + key.getD ((s + i.val) % 9) 0
    if i.val = 5 then k + tweak.getD (s % 3) 0
    else if i.val = 6 then k + tweak.getD ((s + 1) % 3) 0
    else if i.val = 7 then k + UInt64.ofNat s
    else k

/-- Threefish-512: seventy-two rounds with a subkey before every fourth and after the last. -/
def encrypt (key : Array UInt64) (tweak : UInt64 × UInt64) (block : Array UInt64) :
    Array UInt64 :=
  let key := key.push (key.foldl (· ^^^ ·) 0x1bd11bdaa9fc1a22)
  let tweak := #[tweak.1, tweak.2, tweak.1 ^^^ tweak.2]
  let v := (List.range 18).foldl (fun v s =>
    (List.range 4).foldl (fun v r => round v (4 * s + r)) (addSubkey key tweak v s)) block
  addSubkey key tweak v 18

/-- The blocks of sixty-four bytes a string is chained in: at least one, the last filled up with
zeros. -/
def blocks (message : List UInt8) : List (List UInt8) :=
  let count := max 1 ((message.length + 63) / 64)
  pieces 64 (message ++ List.replicate (64 * count - message.length) 0)

/-- Chains a string into the state. -/
def chain (purpose : Purpose) (state : Array UInt64) (message : List UInt8) : Array UInt64 :=
  let bs := blocks message
  bs.zipIdx.foldl (fun state (block, i) =>
    let position := UInt64.ofNat (min (64 * (i + 1)) message.length)
    let first : UInt64 := if i = 0 then 0x4000000000000000 else 0
    let last : UInt64 := if i + 1 = bs.length then 0x8000000000000000 else 0
    let words := ((pieces 8 block).map littleEndian64).toArray
    (encrypt state (position, (purpose.code <<< 56) ||| first ||| last) words).zipWith
      (· ^^^ ·) words) state

/-- The configuration block: a schema identifier, the version and an output of 512 bits. -/
def configuration : List UInt8 :=
  [0x53, 0x48, 0x41, 0x33, 1, 0, 0, 0] ++ littleEndian 8 512 ++ List.replicate 16 0

/-- The state before the message. -/
def initial : Array UInt64 := chain .configuration (Array.replicate 8 0) configuration

/-- The digest of a message, as sixty-four bytes. -/
def hash (message : List UInt8) : List UInt8 :=
  (chain .output (chain .message initial message) (List.replicate 8 0)).toList.flatMap
    bytesOfLittle64

end HeaderRules.Hash.Skein512
