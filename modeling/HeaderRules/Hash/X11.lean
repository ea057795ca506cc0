import HeaderRules.Hash.Blake512
import HeaderRules.Hash.Bmw512
import HeaderRules.Hash.Groestl512
import HeaderRules.Hash.Skein512
import HeaderRules.Hash.Jh512
import HeaderRules.Hash.Keccak512
import HeaderRules.Hash.Luffa512
import HeaderRules.Hash.CubeHash512
import HeaderRules.Hash.Shavite512
import HeaderRules.Hash.Simd512
import HeaderRules.Hash.Echo512

/-!
# The X11 cascade

Eleven 512-bit hash functions applied one after the other: each consumes the whole digest of the
one before it, and the first thirty-two bytes of the last digest are the result.
-/

namespace HeaderRules.Hash.X11

/-- One stage of the cascade. -/
inductive Stage where
  | blake
  | bmw
  | groestl
  | skein
  | jh
  | keccak
  | luffa
  | cubeHash
  | shavite
  | simd
  | echo
deriving DecidableEq, Repr, Inhabited

namespace Stage

/-- The stages in the order in which they are applied. -/
def all : List Stage :=
  [blake, bmw, groestl, skein, jh, keccak, luffa, cubeHash, shavite, simd, echo]

/-- The written name of a stage. -/
def name : Stage → String
  | blake => "Blake"
  | bmw => "Bmw"
  | groestl => "Groestl"
  | skein => "Skein"
  | jh => "Jh"
  | keccak => "Keccak"
  | luffa => "Luffa"
  | cubeHash => "CubeHash"
  | shavite => "Shavite"
  | simd => "Simd"
  | echo => "Echo"

/-- The stage with the given written name, which is matched exactly. -/
def ofName? (s : String) : Option Stage := all.find? fun stage => stage.name = s

/-- The hash function of a stage. -/
def hash : Stage → List UInt8 → List UInt8
  | blake => Blake512.hash
  | bmw => Bmw512.hash
  | groestl => Groestl512.hash
  | skein => Skein512.hash
  | jh => Jh512.hash
  | keccak => Keccak512.hash
  | luffa => Luffa512.hash
  | cubeHash => CubeHash512.hash
  | shavite => Shavite512.hash
  | simd => Simd512.hash
  | echo => Echo512.hash

end Stage

/-- The digest of the whole cascade: thirty-two bytes. -/
def hash (message : List UInt8) : List UInt8 :=
  (Stage.all.foldl (fun data stage => stage.hash data) message).take 32

@[simp] theorem length_hash (message : List UInt8) : (hash message).length = 32 := by
  simp [hash, Stage.all, Stage.hash]

end HeaderRules.Hash.X11
