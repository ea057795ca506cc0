import HeaderRules.Hash.Words

/-!
# Blue Midnight Wish, 512 bits

The second X11 stage: a double-pipe design on sixteen 64-bit words. A block and the chaining value
are spread into a quadruple pipe of thirty-two words, which is then folded back into a new double
pipe; a last compression under a fixed chaining value produces the digest.
-/

namespace HeaderRules.Hash.Bmw512

/-- The double pipe before the first block: the bytes counted up from 0x80. -/
def initial : Array UInt64 :=
  Array.ofFn fun i : Fin 16 => 0x8081828384858687 + UInt64.ofNat i * 0x0808080808080808

/-- The chaining value of the finalization. -/
def final : Array UInt64 :=
  Array.ofFn fun i : Fin 16 => 0xaaaaaaaaaaaaaaa0 + UInt64.ofNat i

/-! ## Bijective mixing functions -/

def s0 (x : UInt64) : UInt64 := (x >>> 1) ^^^ (x <<< 3) ^^^ rotl64 x 4 ^^^ rotl64 x 37
def s1 (x : UInt64) : UInt64 := (x >>> 1) ^^^ (x <<< 2) ^^^ rotl64 x 13 ^^^ rotl64 x 43
def s2 (x : UInt64) : UInt64 := (x >>> 2) ^^^ (x <<< 1) ^^^ rotl64 x 19 ^^^ rotl64 x 53
def s3 (x : UInt64) : UInt64 := (x >>> 2) ^^^ (x <<< 2) ^^^ rotl64 x 28 ^^^ rotl64 x 59
def s4 (x : UInt64) : UInt64 := (x >>> 1) ^^^ x
def s5 (x : UInt64) : UInt64 := (x >>> 2) ^^^ x

/-- The word at a position, zero outside of the pipe. -/
@[inline] def word (v : Array UInt64) (i : Nat) : UInt64 := v.getD i 0

/-- A sum of words of a pipe in which each position carries its sign. -/
def signedSum (x : Array UInt64) (terms : List (Bool × Nat)) : UInt64 :=
  terms.foldl (fun acc (plus, i) => if plus then acc + word x i else acc - word x i) 0

/-- The sixteen signed sums of the first expansion. -/
def combinations : List (List (Bool × Nat)) := [
  [(true, 5), (false, 7), (true, 10), (true, 13), (true, 14)],
  [(true, 6), (false, 8), (true, 11), (true, 14), (false, 15)],
  [(true, 0), (true, 7), (true, 9), (false, 12), (true, 15)],
  [(true, 0), (false, 1), (true, 8), (false, 10), (true, 13)],
  [(true, 1), (true, 2), (true, 9), (false, 11), (false, 14)],
  [(true, 3), (false, 2), (true, 10), (false, 12), (true, 15)],
  [(true, 4), (false, 0), (false, 3), (false, 11), (true, 13)],
  [(true, 1), (false, 4), (false, 5), (false, 12), (false, 14)],
  [(true, 2), (false, 5), (false, 6), (true, 13), (false, 15)],
  [(true, 0), (false, 3), (true, 6), (false, 7), (true, 14)],
  [(true, 8), (false, 1), (false, 4), (false, 7), (true, 15)],
  [(true, 8), (false, 0), (false, 2), (false, 5), (true, 9)],
  [(true, 1), (true, 3), (false, 6), (false, 9), (true, 10)],
  [(true, 2), (true, 4), (true, 7), (true, 10), (true, 11)],
  [(true, 3), (false, 5), (true, 8), (false, 11), (false, 12)],
  [(true, 12), (false, 4), (false, 6), (false, 9), (true, 13)]]

/-- The first sixteen words of the quadruple pipe. -/
def firstHalf (m h : Array UInt64) : Array UInt64 :=
  let x := m.zipWith (· ^^^ ·) h
  let ss := #[s0, s1, s2, s3, s4]
  (combinations.zipIdx.map fun (terms, i) =>
    (ss.getD (i % 5) s0) (signedSum x terms) + word h ((i + 1) % 16)).toArray

/-- What the block and the chaining value contribute to word `16 + i` of the quadruple pipe. -/
def addElement (m h : Array UInt64) (i : Nat) : UInt64 :=
  let turned (k : Nat) : UInt64 := rotl64 (word m k) (UInt64.ofNat (k + 1))
  (turned i + turned ((i + 3) % 16) - turned ((i + 10) % 16) +
    UInt64.ofNat (i + 16) * 0x0555555555555555) ^^^ word h ((i + 7) % 16)

/-- The next word of the quadruple pipe with the strong mixing of the first two. -/
def expandStrong (q : Array UInt64) : UInt64 :=
  let ss := #[s1, s2, s3, s0]
  (List.range 16).foldl (fun acc k =>
    acc + (ss.getD (k % 4) s0) (word q (q.size - 16 + k))) 0

/-- The next word of the quadruple pipe with the light mixing of the last fourteen. -/
def expandLight (q : Array UInt64) : UInt64 :=
  let back (k : Nat) : UInt64 := word q (q.size - k)
  back 16 + rotl64 (back 15) 5 + back 14 + rotl64 (back 13) 11 + back 12 + rotl64 (back 11) 27 +
    back 10 + rotl64 (back 9) 32 + back 8 + rotl64 (back 7) 37 + back 6 + rotl64 (back 5) 43 +
    back 4 + rotl64 (back 3) 53 + s4 (back 2) + s5 (back 1)

/-- All thirty-two words of the quadruple pipe. -/
def quadruplePipe (m h : Array UInt64) : Array UInt64 :=
  (List.range 16).foldl (fun q i =>
    q.push ((if i < 2 then expandStrong q else expandLight q) + addElement m h i)) (firstHalf m h)

/-- Folds the quadruple pipe and the block back into a double pipe. -/
def foldPipe (m q : Array UInt64) : Array UInt64 :=
  let low := (List.range 8).foldl (fun acc i => acc ^^^ word q (16 + i)) 0
  let high := (List.range 8).foldl (fun acc i => acc ^^^ word q (24 + i)) low
  let h0 := ((high <<< 5) ^^^ (word q 16 >>> 5) ^^^ word m 0) + (low ^^^ word q 24 ^^^ word q 0)
  let h1 := ((high >>> 7) ^^^ (word q 17 <<< 8) ^^^ word m 1) + (low ^^^ word q 25 ^^^ word q 1)
  let h2 := ((high >>> 5) ^^^ (word q 18 <<< 5) ^^^ word m 2) + (low ^^^ word q 26 ^^^ word q 2)
  let h3 := ((high >>> 1) ^^^ (word q 19 <<< 5) ^^^ word m 3) + (low ^^^ word q 27 ^^^ word q 3)
  let h4 := ((high >>> 3) ^^^ word q 20 ^^^ word m 4) + (low ^^^ word q 28 ^^^ word q 4)
  let h5 := ((high <<< 6) ^^^ (word q 21 >>> 6) ^^^ word m 5) + (low ^^^ word q 29 ^^^ word q 5)
  let h6 := ((high >>> 4) ^^^ (word q 22 <<< 6) ^^^ word m 6) + (low ^^^ word q 30 ^^^ word q 6)
  let h7 := ((high >>> 11) ^^^ (word q 23 <<< 2) ^^^ word m 7) + (low ^^^ word q 31 ^^^ word q 7)
  let h8 :=
    rotl64 h4 9 + (high ^^^ word q 24 ^^^ word m 8) + ((low <<< 8) ^^^ word q 23 ^^^ word q 8)
  let h9 :=
    rotl64 h5 10 + (high ^^^ word q 25 ^^^ word m 9) + ((low >>> 6) ^^^ word q 16 ^^^ word q 9)
  let h10 := rotl64 h6 11 + (high ^^^ word q 26 ^^^ word m 10) +
    ((low <<< 6) ^^^ word q 17 ^^^ word q 10)
  let h11 := rotl64 h7 12 + (high ^^^ word q 27 ^^^ word m 11) +
    ((low <<< 4) ^^^ word q 18 ^^^ word q 11)
  let h12 := rotl64 h0 13 + (high ^^^ word q 28 ^^^ word m 12) +
    ((low >>> 3) ^^^ word q 19 ^^^ word q 12)
  let h13 := rotl64 h1 14 + (high ^^^ word q 29 ^^^ word m 13) +
    ((low >>> 4) ^^^ word q 20 ^^^ word q 13)
  let h14 := rotl64 h2 15 + (high ^^^ word q 30 ^^^ word m 14) +
    ((low >>> 7) ^^^ word q 21 ^^^ word q 14)
  let h15 := rotl64 h3 16 + (high ^^^ word q 31 ^^^ word m 15) +
    ((low >>> 2) ^^^ word q 22 ^^^ word q 15)
  #[h0, h1, h2, h3, h4, h5, h6, h7, h8, h9, h10, h11, h12, h13, h14, h15]

/-- Absorbs a block of sixteen words. -/
def compress (h m : Array UInt64) : Array UInt64 := foldPipe m (quadruplePipe m h)

/-- The message followed by a one bit, zeros and its bit length in eight little-endian bytes; the
whole is a multiple of 128 bytes. -/
def pad (message : List UInt8) : List UInt8 :=
  message ++ 0x80 :: List.replicate ((247 - message.length % 128) % 128) 0 ++
    littleEndian 8 (8 * message.length)

/-- The digest of a message: the upper half of the double pipe after the finalization, as
sixty-four bytes. -/
def hash (message : List UInt8) : List UInt8 :=
  let h := ((pieces 128 (pad message)).map fun block =>
    ((pieces 8 block).map littleEndian64).toArray).foldl compress initial
  ((compress final h).toList.drop 8).flatMap bytesOfLittle64

end HeaderRules.Hash.Bmw512
