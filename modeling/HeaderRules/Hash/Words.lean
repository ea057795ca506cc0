import HeaderRules.Bytes

/-!
# Words and bytes

Hash functions read a byte string as a sequence of machine words and write their state back as
bytes. This module holds both directions for 32-bit and 64-bit words in either byte order, the
rotations, and the cutting of a byte string into pieces of equal length.

All functions are total: a byte string whose length is not a multiple of the word size loses its
incomplete tail, which no caller ever has because messages are padded to whole blocks first.
-/

namespace HeaderRules.Hash

/-- The list cut into consecutive pieces of `n` elements; an incomplete last piece is dropped. -/
def pieces {α : Type} (n : Nat) (xs : List α) : List (List α) :=
  (List.range (xs.length / n)).map fun i => (xs.drop (i * n)).take n

/-! ## Rotations -/

/-- Rotation of a 32-bit word to the left, for amounts from 1 to 31. -/
@[inline] def rotl32 (x n : UInt32) : UInt32 := (x <<< n) ||| (x >>> (32 - n))

/-- Rotation of a 32-bit word to the right, for amounts from 1 to 31. -/
@[inline] def rotr32 (x n : UInt32) : UInt32 := (x >>> n) ||| (x <<< (32 - n))

/-- Rotation of a 64-bit word to the left; an amount of 0 leaves the word unchanged. -/
@[inline] def rotl64 (x n : UInt64) : UInt64 := (x <<< n) ||| (x >>> (64 - n))

/-- Rotation of a 64-bit word to the right; an amount of 0 leaves the word unchanged. -/
@[inline] def rotr64 (x n : UInt64) : UInt64 := (x >>> n) ||| (x <<< (64 - n))

/-! ## Words from bytes -/

/-- The 32-bit word whose most significant byte comes first. -/
def bigEndian32 (bytes : List UInt8) : UInt32 :=
  bytes.foldl (fun acc b => (acc <<< 8) ||| b.toUInt32) 0

/-- The 32-bit word whose least significant byte comes first. -/
def littleEndian32 (bytes : List UInt8) : UInt32 :=
  bytes.foldr (fun b acc => (acc <<< 8) ||| b.toUInt32) 0

/-- The 64-bit word whose most significant byte comes first. -/
def bigEndian64 (bytes : List UInt8) : UInt64 :=
  bytes.foldl (fun acc b => (acc <<< 8) ||| b.toUInt64) 0

/-- The 64-bit word whose least significant byte comes first. -/
def littleEndian64 (bytes : List UInt8) : UInt64 :=
  bytes.foldr (fun b acc => (acc <<< 8) ||| b.toUInt64) 0

/-! ## Bytes from words -/

/-- The four bytes of a word, least significant first. -/
def bytesOfLittle32 (w : UInt32) : List UInt8 :=
  [w.toUInt8, (w >>> 8).toUInt8, (w >>> 16).toUInt8, (w >>> 24).toUInt8]

/-- The four bytes of a word, most significant first. -/
def bytesOfBig32 (w : UInt32) : List UInt8 :=
  [(w >>> 24).toUInt8, (w >>> 16).toUInt8, (w >>> 8).toUInt8, w.toUInt8]

/-- The eight bytes of a word, least significant first. -/
def bytesOfLittle64 (w : UInt64) : List UInt8 :=
  [w.toUInt8, (w >>> 8).toUInt8, (w >>> 16).toUInt8, (w >>> 24).toUInt8,
    (w >>> 32).toUInt8, (w >>> 40).toUInt8, (w >>> 48).toUInt8, (w >>> 56).toUInt8]

/-- The eight bytes of a word, most significant first. -/
def bytesOfBig64 (w : UInt64) : List UInt8 :=
  (bytesOfLittle64 w).reverse

@[simp] theorem length_bytesOfBig32 (w : UInt32) : (bytesOfBig32 w).length = 4 := rfl

@[simp] theorem length_bytesOfLittle32 (w : UInt32) : (bytesOfLittle32 w).length = 4 := rfl

end HeaderRules.Hash
