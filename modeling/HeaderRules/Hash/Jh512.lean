import HeaderRules.Hash.Words

/-!
# JH-512

The fifth X11 stage. The bijection `E8` works on 256 four-bit elements, each made of one bit from
each quarter of the 1024-bit state: forty-two rounds of substitution, a linear mix of neighbours
and a permutation. The round constants come from a smaller bijection of the same shape, `R6`, and
the initial state is the compression of an all-zero block under the digest length.
-/

namespace HeaderRules.Hash.Jh512

/-- The two substitutions on four bits; a bit of the round constant picks one of them. -/
def boxes : Array (Array UInt8) := #[
  #[9, 0, 4, 11, 13, 12, 3, 15, 1, 10, 2, 6, 7, 5, 8, 14],
  #[3, 12, 6, 13, 5, 7, 1, 9, 15, 2, 0, 4, 11, 10, 14, 8]]

/-- The substitute of a four-bit element. -/
def substitute (box : Nat) (x : UInt8) : UInt8 := (boxes.getD box #[]).getD x.toNat 0

/-- Doubling in GF(2⁴) modulo `x⁴ + x + 1`. -/
def double (x : UInt8) : UInt8 :=
  ((x <<< 1) ^^^ (x >>> 3) ^^^ ((x >>> 2) &&& 2)) &&& 0xf

/-- The linear mix of each pair of neighbours. -/
def mixPairs (xs : Array UInt8) : Array UInt8 :=
  Array.ofFn fun i : Fin xs.size =>
    let k := i.val / 2 * 2
    let a := xs.getD k 0
    let b := xs.getD (k + 1) 0 ^^^ double a
    if i.val % 2 = 0 then a ^^^ double b else b

/-- The permutation of a layer: in each group of four the last two change places, the even
positions move to the front half, and in the back half neighbours change places. -/
def permute (xs : Array UInt8) : Array UInt8 :=
  let swapped (k : Nat) : UInt8 :=
    xs.getD (if k % 4 = 2 then k + 1 else if k % 4 = 3 then k - 1 else k) 0
  let half := xs.size / 2
  let gathered (k : Nat) : UInt8 :=
    if k < half then swapped (2 * k) else swapped (2 * (k - half) + 1)
  Array.ofFn fun i : Fin xs.size =>
    let k := i.val
    if k < half then gathered k else if k % 2 = 0 then gathered (k + 1) else gathered (k - 1)

/-- The constant of the first round: sixty-four elements, the fractional part of the square root
of two. -/
def firstConstant : Array UInt8 := #[
  0x6, 0xa, 0x0, 0x9, 0xe, 0x6, 0x6, 0x7, 0xf, 0x3, 0xb, 0xc, 0xc, 0x9, 0x0, 0x8,
  0xb, 0x2, 0xf, 0xb, 0x1, 0x3, 0x6, 0x6, 0xe, 0xa, 0x9, 0x5, 0x7, 0xd, 0x3, 0xe,
  0x3, 0xa, 0xd, 0xe, 0xc, 0x1, 0x7, 0x5, 0x1, 0x2, 0x7, 0x7, 0x5, 0x0, 0x9, 0x9,
  0xd, 0xa, 0x2, 0xf, 0x5, 0x9, 0x0, 0xb, 0x0, 0x6, 0x6, 0x7, 0x3, 0x2, 0x2, 0xa]

/-- The constant of the next round. -/
def nextConstant (c : Array UInt8) : Array UInt8 := permute (mixPairs (c.map (substitute 0)))

/-- The constants of `n` successive rounds, from the given one on. -/
def constantsFrom : Nat → Array UInt8 → List (Array UInt8)
  | 0, _ => []
  | n + 1, c => c :: constantsFrom n (nextConstant c)

/-- The constants of the forty-two rounds. -/
def roundConstants : List (Array UInt8) := constantsFrom 42 firstConstant

/-- One round on 256 elements; element `i` is substituted as bit `i` of the constant says. -/
def round (xs c : Array UInt8) : Array UInt8 :=
  permute (mixPairs (Array.ofFn fun k : Fin 256 =>
    let i := k.val
    substitute ((c.getD (i / 4) 0).toNat >>> (3 - i % 4) % 2) (xs.getD i 0)))

/-- Bit `i` of a string, counted from the most significant bit of the first byte. -/
def bit (h : Array UInt8) (i : Nat) : UInt8 := (h.getD (i / 8) 0 >>> UInt8.ofNat (7 - i % 8)) &&& 1

/-- The elements of a state: bit `i` of each quarter, with the lower and upper half of the
positions interleaved. -/
def group (h : Array UInt8) : Array UInt8 :=
  Array.ofFn fun k : Fin 256 =>
    let i := k.val / 2 + 128 * (k.val % 2)
    (bit h i <<< 3) ||| (bit h (i + 256) <<< 2) ||| (bit h (i + 512) <<< 1) ||| bit h (i + 768)

/-- The state with the given elements; the inverse of `group`. -/
def ungroup (xs : Array UInt8) : Array UInt8 :=
  let elementBit (n : Nat) : UInt8 :=
    let i := n % 256
    (xs.getD (2 * (i % 128) + i / 128) 0 >>> UInt8.ofNat (3 - n / 256)) &&& 1
  Array.ofFn fun k : Fin 128 =>
    (List.range 8).foldl (fun acc j => (acc <<< 1) ||| elementBit (8 * k.val + j)) 0

/-- The bijection on states. -/
def e8 (h : Array UInt8) : Array UInt8 := ungroup (roundConstants.foldl round (group h))

/-- Absorbs a block of sixty-four bytes: added to the front half before the bijection and to the
back half after it. -/
def compress (h : Array UInt8) (block : List UInt8) : Array UInt8 :=
  let m := block.toArray
  let mixed := e8 (Array.ofFn fun i : Fin 128 => h.getD i 0 ^^^ m.getD i 0)
  Array.ofFn fun i : Fin 128 => mixed.getD i 0 ^^^ (if i.val < 64 then 0 else m.getD (i.val - 64) 0)

/-- The state before the first block. -/
def initial : Array UInt8 :=
  compress (#[0x02, 0x00] ++ Array.replicate 126 0) (List.replicate 64 0)

/-- The message followed by a one bit, zeros and its bit length in sixteen big-endian bytes; at
least one whole block is added. -/
def pad (message : List UInt8) : List UInt8 :=
  message ++ 0x80 :: List.replicate (47 + (64 - message.length % 64) % 64) 0 ++
    bigEndian 16 (8 * message.length)

/-- The digest of a message: the back half of the state. -/
def hash (message : List UInt8) : List UInt8 :=
  ((pieces 64 (pad message)).foldl compress initial).toList.drop 64

end HeaderRules.Hash.Jh512
