import HeaderRules.Hash.Words

/-!
# SIMD-512

The tenth X11 stage: a wide-pipe design with a strong message expansion. The 128 bytes of a block
are coefficients of a polynomial over the field with 257 elements, whose values at all 256th roots
of unity form the expanded message. Four rounds of eight Feistel steps consume it, each step on
eight parallel lanes, and four last steps feed the previous chaining value back in.
-/

namespace HeaderRules.Hash.Simd512

/-- The chaining value before the first block. -/
def initial : Array UInt32 := #[
  0x0ba16b95, 0x72f999ad, 0x9fecc2ae, 0xba3264fc, 0x5e894929, 0x8e9f30e5, 0x2f1daa37, 0xf0f2c558,
  0xac506643, 0xa90635a5, 0xe25b878b, 0xaab7878f, 0x88817f7a, 0x0a02892b, 0x559a7550, 0x598f657e,
  0x7eef60a1, 0x6b70e3e8, 0x9c1714d1, 0xb958e2a8, 0xab02675e, 0xed1c014f, 0xcd8d65bb, 0xfdb7a257,
  0x09254899, 0xd699c7bc, 0x9019b6dc, 0x2b9022e4, 0x8fa14956, 0x21bf9bd3, 0xb94d0943, 0x6ffddc22]

/-! ## Message expansion -/

/-- The first `n` powers of `base` modulo 257, from `start` on. -/
def powersFrom (base : Nat) : Nat → Nat → List Nat
  | 0, _ => []
  | n + 1, start => start :: powersFrom base n (start * base % 257)

/-- The powers of 41, which has order 256 modulo 257. -/
def powers : Array Nat := (powersFrom 41 256 1).toArray

/-- The power of 41 with the given exponent. -/
@[inline] def root (e : Nat) : Nat := powers.getD (e % 256) 0

/-- The constant added to value `i`: it keeps the expansion from being linear, and differs for the
last block. -/
def offset (last : Bool) (i : Nat) : Nat :=
  if last then root (255 * i) + root (253 * i) else root (255 * i)

/-- The values of the message polynomial, represented between -128 and 128, as words. -/
def transform (last : Bool) (block : Array UInt8) : Array UInt32 :=
  Array.ofFn fun i : Fin 256 =>
    let sum := block.foldl (fun (acc, j) b => (acc + b.toNat * root (i.val * j), j + 1)) (0, 0)
    let value := (sum.1 + offset last i.val) % 257
    if value ≤ 128 then UInt32.ofNat value else UInt32.ofNat value - 257

/-- The order in which groups of eight words of the expanded message are used. -/
def groups : Array Nat := #[
  4, 6, 0, 2, 7, 5, 3, 1,
  15, 11, 12, 8, 9, 13, 10, 14,
  17, 18, 23, 20, 22, 21, 16, 19,
  30, 24, 25, 31, 27, 29, 28, 26]

/-- Two values times a factor, packed as the low and the high half of a word. -/
def pack (low high factor : UInt32) : UInt32 :=
  ((low * factor) &&& (0xffff : UInt32)) + ((high * factor) <<< (16 : UInt32))

/-- Word `lane` of group `g` of the expanded message. The first sixteen groups pair neighbouring
values; the others pair values half the length apart, with another factor. -/
def expandedWord (q : Array UInt32) (g lane : Nat) : UInt32 :=
  let v := 16 * groups.getD g 0 + 2 * lane
  let value (i : Nat) : UInt32 := q.getD i 0
  if g < 16 then pack (value v) (value (v + 1)) 185
  else if g < 24 then pack (value (v - 256)) (value (v - 128)) 233
  else pack (value (v - 383)) (value (v - 255)) 233

/-! ## Feistel steps -/

/-- Picks `b` where `a` has ones and `c` where it has zeros. -/
def choose (a b c : UInt32) : UInt32 := ((b ^^^ c) &&& a) ^^^ c

/-- The bits that at least two of the three words have. -/
def majority (a b c : UInt32) : UInt32 := (c &&& b) ||| ((c ||| b) &&& a)

/-- Which lane each step exchanges values with: the bits of the lane number that are flipped. -/
def flips : Array Nat := #[1, 6, 2, 3, 5, 7, 4]

/-- One step on eight lanes of four words: `r` and `s` are rotations and `index` is the number of
the step. -/
def step (f : UInt32 → UInt32 → UInt32 → UInt32) (r s : UInt32) (index : Nat)
    (words : Nat → UInt32) (state : Array UInt32) : Array UInt32 :=
  let w (i : Nat) : UInt32 := state.getD i 0
  let flip := flips.getD (index % 7) 0
  let turned : Array UInt32 := Array.ofFn fun n : Fin 8 => rotl32 (w n) r
  let fresh : Array UInt32 := Array.ofFn fun n : Fin 8 =>
    let sum := w (n.val + 24) + words n + f (w n) (w (n.val + 8)) (w (n.val + 16))
    rotl32 sum s + turned.getD (n.val ^^^ flip) 0
  fresh ++ turned ++ state.extract 8 24

/-- The four rotations that the steps of a round cycle through. -/
def rotations : Array (Array UInt32) := #[
  #[3, 23, 17, 27], #[28, 19, 22, 7], #[29, 9, 15, 5], #[4, 13, 10, 25]]

/-- Step `i` of the thirty-two steps that consume the expanded message. -/
def messageStep (q : Array UInt32) (state : Array UInt32) (i : Nat) : Array UInt32 :=
  let turns := rotations.getD (i / 8) #[]
  let f := if i % 8 < 4 then choose else majority
  step f (turns.getD (i % 4) 0) (turns.getD ((i + 1) % 4) 0) i (expandedWord q i) state

/-- The last four steps, whose words are those of the previous chaining value. -/
def feedbackStep (h : Array UInt32) (state : Array UInt32) (i : Nat) : Array UInt32 :=
  let turns := rotations.getD 3 #[]
  step choose (turns.getD (i % 4) 0) (turns.getD ((i + 1) % 4) 0) (32 + i)
    (fun lane => h.getD (8 * i + lane) 0) state

/-- Absorbs a block of 128 bytes. -/
def compress (last : Bool) (h : Array UInt32) (block : List UInt8) : Array UInt32 :=
  let q := transform last block.toArray
  let m := ((pieces 4 block).map littleEndian32).toArray
  let mixed := (List.range 32).foldl (messageStep q) (h.zipWith (· ^^^ ·) m)
  (List.range 4).foldl (feedbackStep h) mixed

/-- The blocks of 128 bytes of a message, the last one filled up with zeros. -/
def blocks (message : List UInt8) : List (List UInt8) :=
  pieces 128 (message ++ List.replicate ((128 - message.length % 128) % 128) 0)

/-- The digest of a message, as sixty-four bytes: its blocks are absorbed, then a last block with
the bit length. -/
def hash (message : List UInt8) : List UInt8 :=
  let h := (blocks message).foldl (compress false) initial
  ((compress true h (littleEndian 128 (8 * message.length))).toList.take 16).flatMap
    bytesOfLittle32

end HeaderRules.Hash.Simd512
