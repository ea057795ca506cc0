import HeaderRules.Target

/-!
# Digests and byte orders

A hash function emits thirty-two bytes in *internal* order. Block identities and merkle roots are
kept that way and written in the opposite order, the *display* order, in which leading zeros show
the work spent on a block. A proof-of-work digest is kept in display order, because that is the
order in which it is compared with a target, as a number.
-/

namespace HeaderRules

/-- A 256-bit hash in internal byte order, which identifies a block, a transaction or a merkle
tree. -/
structure Hash256 where
  internal : Bytes 32
deriving DecidableEq, Repr, Inhabited, Hashable

/-- The identity of a block. -/
abbrev BlockHash := Hash256

namespace Hash256

/-- The hash with all bytes zero, which stands for "no block". -/
def zero : Hash256 := ⟨Bytes.zero 32⟩

/-- The hash in display order: sixty-four lowercase digits. -/
def text (h : Hash256) : String := Hex.encode h.internal.reverse.toList

/-- The hash written by sixty-four digits in internal order. -/
def ofInternalHex (text : String) : Except HexError Hash256 :=
  (Hex.decodeBytes 32 text).map fun bytes => ⟨bytes⟩

/-- The hash written by sixty-four digits in display order. -/
def ofDisplayHex (text : String) : Except HexError Hash256 :=
  (Hex.decodeBytes 32 text).map fun bytes => ⟨bytes.reverse⟩

end Hash256

/-- A proof-of-work digest, most significant byte first. -/
structure PowHash where
  bigEndian : Bytes 32
deriving DecidableEq, Repr, Inhabited

namespace PowHash

/-- The digest of a hash function, which comes in internal order. -/
def ofInternal (bytes : Bytes 32) : PowHash := ⟨bytes.reverse⟩

/-- The digest as a number, to be compared with a target. -/
def toTarget (h : PowHash) : Target := Target.ofBigEndian h.bigEndian

/-- The digest as the identity of a block. -/
def toBlockHash (h : PowHash) : BlockHash := ⟨h.bigEndian.reverse⟩

/-- The digest in sixty-four lowercase digits. -/
def text (h : PowHash) : String := Hex.encode h.bigEndian.toList

end PowHash

end HeaderRules
