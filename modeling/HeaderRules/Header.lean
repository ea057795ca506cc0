import HeaderRules.Blank
import HeaderRules.CompactTarget
import HeaderRules.Digest

/-!
# Block headers

A header has six fields and a serialized form of exactly eighty bytes: all integers least
significant byte first, both hashes in internal order. Every eighty bytes are the serialized form
of one header. In text a header is the hexadecimal form of its eighty bytes, with blanks allowed
around it.
-/

namespace HeaderRules

/-- A block header. -/
structure Header where
  version : Int32
  prevBlockHash : BlockHash
  merkleRoot : Hash256
  time : UInt32
  bits : CompactTarget
  nonce : UInt32
deriving DecidableEq, Repr, Inhabited

/-- A text that is not the hexadecimal form of a header, and why. -/
structure HeaderHexError where
  cause : HexError
deriving DecidableEq, Repr

namespace HeaderHexError

/-- What is wrong, in words. -/
def message (e : HeaderHexError) : String := "Invalid header hex: " ++ e.cause.message

end HeaderHexError

namespace Header

/-- The number of bytes of a serialized header. -/
def size : Nat := 80

/-- The serialized form. -/
def bytes (h : Header) : Bytes 80 where
  toList :=
    littleEndian 4 h.version.toUInt32.toNat ++ h.prevBlockHash.internal.toList ++
      h.merkleRoot.internal.toList ++ littleEndian 4 h.time.toNat ++
      littleEndian 4 h.bits.bits.toNat ++ littleEndian 4 h.nonce.toNat
  length_toList := by simp

/-- The 32-bit field at a position. -/
def word (b : Bytes 80) (start : Nat) (h : start + 4 ≤ 80 := by omega) : UInt32 :=
  UInt32.ofNat (ofLittleEndian (b.slice start 4).toList)

/-- The header with the given serialized form. -/
def ofBytes (b : Bytes 80) : Header where
  version := (word b 0).toInt32
  prevBlockHash := ⟨b.slice 4 32⟩
  merkleRoot := ⟨b.slice 36 32⟩
  time := word b 68
  bits := ⟨word b 72⟩
  nonce := word b 76

/-- The hexadecimal form of a header. -/
def hex (h : Header) : String := Hex.encode h.bytes.toList

/-- The header that a text denotes once the blanks around it are dropped. -/
def ofHex (text : String) : Except HeaderHexError Header :=
  match Hex.decodeChars 80 (Blank.trim text.toList) with
  | .ok bytes => .ok (ofBytes bytes)
  | .error e => .error ⟨e⟩

end Header

end HeaderRules
