import HeaderRules.Blank
import HeaderRules.CompactTarget
import HeaderRules.Digest
import HeaderRules.Form.Record

/-!
# JSON forms of targets and digests

A target is a string of hexadecimal digits after `0x`, without leading zeros. It is read with or
without `0x`, from one to sixty-four characters that are digits of either case or blanks. The code
of a target is a number, a proof-of-work digest an array of its bytes, and an identity hash a string
in display order.
-/

namespace HeaderRules

namespace Target

/-- The form of a target. -/
def toJson (t : Target) : Json := .str (String.ofList ('0' :: 'x' :: Hex.minimal t.toNat))

/-- The target of a form. Digits are stored in pairs: blanks are passed over, but they count for the
question whether the first digit is half of a pair, so that an odd number of blanks leaves the last
digit without a partner, and it is dropped. -/
def ofJson? : Json → Option Target
  | .str text =>
    let chars := dropRadix text.toList
    let blanks := chars.countP Blank.isPlain
    if chars.isEmpty || chars.length > 64 then none
    else
      (Hex.number? 0 (chars.filter (!Blank.isPlain ·))).map fun n =>
        ofNat (if blanks % 2 = 0 then n else n / 16)
  | _ => none

end Target

namespace CompactTarget

/-- The form of a code. -/
def toJson (c : CompactTarget) : Json := .ofUInt32 c.bits

/-- The code of a form. -/
def ofJson? (j : Json) : Option CompactTarget := j.uint32?.map CompactTarget.mk

end CompactTarget

namespace PowHash

/-- The form of a digest, the most significant byte first. -/
def toJson (h : PowHash) : Json := .arr (h.bigEndian.toList.map fun b => .int b.toNat)

/-- The digest of a form, which has exactly thirty-two bytes. -/
def ofJson? (j : Json) : Option PowHash := do
  let items ← j.arr?
  let bytes ← items.mapM Json.uint8?
  return ⟨← Bytes.ofList? 32 bytes⟩

end PowHash

namespace Hash256

/-- The form of a hash. -/
def toJson (h : Hash256) : Json := .str h.text

/-- The hash of a form, whose digits may have either case. -/
def ofJson? : Json → Option Hash256
  | .str text => (ofDisplayHex text).toOption
  | _ => none

end Hash256

end HeaderRules
