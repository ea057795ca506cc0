import HeaderRules.Digest
import HeaderRules.Hash.Scrypt
import HeaderRules.Hash.X11

/-!
# Hash pipelines

Every chain hashes the same eighty bytes of a header, but each with its own function. A
`HashPipeline` is one of these functions with its parameters; only scrypt has any. Parameters are
judged by one rule, `ScryptParams.check`, whether a pipeline is validated or run. The derivation of
a digest has one more check, of the length of the digest, which thirty-two bytes pass; so a pipeline
that validates never fails.
-/

namespace HeaderRules

/-- The cost parameters of scrypt. -/
structure ScryptParams where
  /-- The binary logarithm of the cost. -/
  logN : UInt8
  /-- The block size. -/
  r : UInt32
  /-- The parallelism. -/
  p : UInt32
  /-- The length of the digest in bytes. -/
  outputLen : UInt64
deriving DecidableEq, Repr, Inhabited

/-- Why a hash pipeline cannot be run. It is a fault of the configuration, never of a header. -/
inductive HashError where
  /-- The scrypt parameters are out of range. -/
  | scryptParams (params : ScryptParams)
  /-- The digest could not be derived although the parameters were accepted. -/
  | derivation (reason : String)
  /-- The digest would not have thirty-two bytes. -/
  | digestLength (length : UInt64)
deriving DecidableEq, Repr

namespace ScryptParams

/-- Cost 1024 with block size and parallelism 1, as Litecoin and Dogecoin use it. -/
def litecoin : ScryptParams where
  logN := 10
  r := 1
  p := 1
  outputLen := 32

/-- The cost, or zero if it does not fit into 64 bits. -/
def n (params : ScryptParams) : Nat := if params.logN < 64 then 1 <<< params.logN.toNat else 0

/-- The parameters in words. -/
def text (params : ScryptParams) : String :=
  "(N=" ++ toString params.n ++ ", r=" ++ toString params.r ++ ", p=" ++ toString params.p ++
    ", len=" ++ toString params.outputLen ++ ")"

/-- Whether the memory and time that the parameters ask for can be counted in 64 bits and stay
within the bounds of the function: the cost is below `2 ^ (16 r)` and `r · p` below `2 ^ 30`. -/
def inRange (params : ScryptParams) : Bool :=
  let r := params.r.toNat
  let p := params.p.toNat
  let logN := params.logN.toNat
  r ≠ 0 && p ≠ 0 && logN < 64 && r * 128 < UInt64.size && (r * 128) <<< logN < UInt64.size &&
    r * 128 * p < UInt64.size && logN < 16 * r && r * p < 0x40000000

/-- Accepts the parameters with which a digest of thirty-two bytes can be computed. -/
def check (params : ScryptParams) : Except HashError Unit :=
  if params.outputLen ≠ 32 then .error (.digestLength params.outputLen)
  else if params.inRange then .ok ()
  else .error (.scryptParams params)

end ScryptParams

namespace HashError

/-- What is wrong, in words. -/
def message : HashError → String
  | scryptParams params =>
    "Invalid scrypt parameters " ++ params.text ++ ": invalid scrypt parameters"
  | derivation reason => "Scrypt derivation failed: " ++ reason
  | digestLength length => "Digest length " ++ toString length ++ " is not 32 bytes"

end HashError

/-- A function that hashes serialized headers. -/
inductive HashPipeline where
  /-- SHA-256 applied twice. -/
  | sha256d
  /-- Scrypt with the header as password and as salt. -/
  | scrypt (params : ScryptParams)
  /-- The X11 cascade. -/
  | x11
deriving DecidableEq, Repr, Inhabited

namespace HashPipeline

/-- The short name. -/
def name : HashPipeline → String
  | sha256d => "sha256d"
  | scrypt _ => "scrypt"
  | x11 => "x11"

/-- The name, with the parameters of scrypt. -/
def text : HashPipeline → String
  | scrypt params => "scrypt" ++ params.text
  | other => other.name

/-- Checks the parameters without hashing anything. -/
def validate : HashPipeline → Except HashError Unit
  | scrypt params => params.check
  | sha256d => .ok ()
  | x11 => .ok ()

/-- The digest of a serialized header. -/
def hash (pipeline : HashPipeline) (header : Bytes 80) : Except HashError PowHash :=
  match pipeline with
  | sha256d =>
    .ok (.ofInternal ⟨Hash.Sha256.hashTwice header.toList, Hash.Sha256.length_hashTwice _⟩)
  | scrypt params => do
    params.check
    let digest ← (Hash.Scrypt.derive header.toList header.toList params.n params.r.toNat
      params.p.toNat 32).mapError .derivation
    return .ofInternal digest
  | x11 => .ok (.ofInternal ⟨Hash.X11.hash header.toList, Hash.X11.length_hash _⟩)

end HashPipeline

end HeaderRules
