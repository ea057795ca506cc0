import HeaderRules.Hash.Sha256

/-!
# Scrypt

The memory-hard function used as proof of work by the Litecoin family. A password is stretched by
a key derivation with one iteration of HMAC-SHA-256, the result is mixed through a table of `N`
earlier states, and a second key derivation condenses the mixed blocks.

## Shape of the mixing

A `Salsa.Block` is sixteen 32-bit words. One mixing state is an array of `2r` blocks; filling
pushes `N` successive states on a table and `N` further steps each fold in the state of the table
which the last block of the current one selects. `fill` and `fold` recurse on the number of steps
left, so the whole function is total for every cost parameter.
-/

namespace HeaderRules.Hash

/-! ## The Salsa20/8 core -/

namespace Salsa

/-- Sixteen words, the unit of the mixing. -/
structure Block where
  x0 : UInt32
  x1 : UInt32
  x2 : UInt32
  x3 : UInt32
  x4 : UInt32
  x5 : UInt32
  x6 : UInt32
  x7 : UInt32
  x8 : UInt32
  x9 : UInt32
  x10 : UInt32
  x11 : UInt32
  x12 : UInt32
  x13 : UInt32
  x14 : UInt32
  x15 : UInt32
deriving DecidableEq, Repr, Inhabited

/-- Combines two blocks word by word. -/
@[inline] def Block.zipWith (f : UInt32 → UInt32 → UInt32) (a b : Block) : Block :=
  ⟨f a.x0 b.x0, f a.x1 b.x1, f a.x2 b.x2, f a.x3 b.x3, f a.x4 b.x4, f a.x5 b.x5, f a.x6 b.x6,
    f a.x7 b.x7, f a.x8 b.x8, f a.x9 b.x9, f a.x10 b.x10, f a.x11 b.x11, f a.x12 b.x12,
    f a.x13 b.x13, f a.x14 b.x14, f a.x15 b.x15⟩

/-- The bitwise difference of two blocks. -/
def Block.xor (a b : Block) : Block := a.zipWith (· ^^^ ·) b

/-- The sum of two blocks, each word modulo 2³². -/
def Block.add (a b : Block) : Block := a.zipWith (· + ·) b

/-- One column round followed by one row round. -/
def doubleRound (b : Block) : Block :=
  let x0 := b.x0
  let x1 := b.x1
  let x2 := b.x2
  let x3 := b.x3
  let x4 := b.x4
  let x5 := b.x5
  let x6 := b.x6
  let x7 := b.x7
  let x8 := b.x8
  let x9 := b.x9
  let x10 := b.x10
  let x11 := b.x11
  let x12 := b.x12
  let x13 := b.x13
  let x14 := b.x14
  let x15 := b.x15
  let x4 := x4 ^^^ rotl32 (x0 + x12) 7
  let x8 := x8 ^^^ rotl32 (x4 + x0) 9
  let x12 := x12 ^^^ rotl32 (x8 + x4) 13
  let x0 := x0 ^^^ rotl32 (x12 + x8) 18
  let x9 := x9 ^^^ rotl32 (x5 + x1) 7
  let x13 := x13 ^^^ rotl32 (x9 + x5) 9
  let x1 := x1 ^^^ rotl32 (x13 + x9) 13
  let x5 := x5 ^^^ rotl32 (x1 + x13) 18
  let x14 := x14 ^^^ rotl32 (x10 + x6) 7
  let x2 := x2 ^^^ rotl32 (x14 + x10) 9
  let x6 := x6 ^^^ rotl32 (x2 + x14) 13
  let x10 := x10 ^^^ rotl32 (x6 + x2) 18
  let x3 := x3 ^^^ rotl32 (x15 + x11) 7
  let x7 := x7 ^^^ rotl32 (x3 + x15) 9
  let x11 := x11 ^^^ rotl32 (x7 + x3) 13
  let x15 := x15 ^^^ rotl32 (x11 + x7) 18
  let x1 := x1 ^^^ rotl32 (x0 + x3) 7
  let x2 := x2 ^^^ rotl32 (x1 + x0) 9
  let x3 := x3 ^^^ rotl32 (x2 + x1) 13
  let x0 := x0 ^^^ rotl32 (x3 + x2) 18
  let x6 := x6 ^^^ rotl32 (x5 + x4) 7
  let x7 := x7 ^^^ rotl32 (x6 + x5) 9
  let x4 := x4 ^^^ rotl32 (x7 + x6) 13
  let x5 := x5 ^^^ rotl32 (x4 + x7) 18
  let x11 := x11 ^^^ rotl32 (x10 + x9) 7
  let x8 := x8 ^^^ rotl32 (x11 + x10) 9
  let x9 := x9 ^^^ rotl32 (x8 + x11) 13
  let x10 := x10 ^^^ rotl32 (x9 + x8) 18
  let x12 := x12 ^^^ rotl32 (x15 + x14) 7
  let x13 := x13 ^^^ rotl32 (x12 + x15) 9
  let x14 := x14 ^^^ rotl32 (x13 + x12) 13
  let x15 := x15 ^^^ rotl32 (x14 + x13) 18
  ⟨x0, x1, x2, x3, x4, x5, x6, x7, x8, x9, x10, x11, x12, x13, x14, x15⟩

/-- The core with eight rounds: four double rounds, added to the input. -/
def core (b : Block) : Block :=
  b.add (doubleRound (doubleRound (doubleRound (doubleRound b))))

/-- The block of sixty-four bytes read as little-endian words. -/
def Block.ofBytes (bytes : List UInt8) : Block :=
  match (pieces 4 bytes).map littleEndian32 with
  | [x0, x1, x2, x3, x4, x5, x6, x7, x8, x9, x10, x11, x12, x13, x14, x15] =>
    ⟨x0, x1, x2, x3, x4, x5, x6, x7, x8, x9, x10, x11, x12, x13, x14, x15⟩
  | _ => default

/-- The sixty-four little-endian bytes of a block. -/
def Block.bytes (b : Block) : List UInt8 :=
  [b.x0, b.x1, b.x2, b.x3, b.x4, b.x5, b.x6, b.x7, b.x8, b.x9, b.x10, b.x11, b.x12, b.x13, b.x14,
    b.x15].flatMap bytesOfLittle32

end Salsa

/-! ## Key derivation -/

/-- HMAC with SHA-256: a key longer than one block is hashed first, a shorter one is padded with
zeros. -/
def hmacSha256 (key message : List UInt8) : List UInt8 :=
  let key := if key.length > 64 then Sha256.hash key else key
  let key := key ++ List.replicate (64 - key.length) 0
  Sha256.hash (key.map (· ^^^ 0x5c) ++ Sha256.hash (key.map (· ^^^ 0x36) ++ message))

/-- PBKDF2 with HMAC-SHA-256 and a single iteration: block `i` of the key is the authentication
code of the salt followed by `i`, counted from one in four big-endian bytes. -/
def pbkdf2Once (password salt : List UInt8) (length : Nat) : List UInt8 :=
  ((List.range ((length + 31) / 32)).flatMap fun i =>
    hmacSha256 password (salt ++ bigEndian 4 (i + 1))).take length

/-! ## Mixing -/

namespace Scrypt

/-- A mixing state: `2r` blocks. -/
abbrev Mix := Array Salsa.Block

/-- The bitwise difference of two mixing states of the same size. -/
def xorMix (a b : Mix) : Mix := a.zipWith Salsa.Block.xor b

/-- Runs the core along the blocks, each started from the difference of its input and the
previous output; the outputs of even positions come first, those of odd positions after them. -/
def blockMix (mix : Mix) : Mix :=
  let (_, _, evens, odds) := mix.foldl
    (fun (last, even, evens, odds) block =>
      let out := Salsa.core (Salsa.Block.xor last block)
      if even then (out, false, evens.push out, odds) else (out, true, evens, odds.push out))
    (mix.back?.getD default, true, Array.mkEmpty mix.size, Array.mkEmpty (mix.size / 2))
  evens ++ odds

/-- The low 64 bits of the last block, which select an entry of the table. -/
def selector (mix : Mix) : Nat :=
  match mix.back? with
  | some block => block.x0.toNat + block.x1.toNat <<< 32
  | none => 0

/-- Pushes `steps` successive states on the table. -/
def fill : Nat → Mix → Array Mix → Mix × Array Mix
  | 0, mix, table => (mix, table)
  | steps + 1, mix, table => fill steps (blockMix mix) (table.push mix)

/-- Takes `steps` steps which each fold in the state that the selector picks from the table. -/
def fold (table : Array Mix) : Nat → Mix → Mix
  | 0, mix => mix
  | steps + 1, mix =>
    fold table steps (blockMix (xorMix mix (table.getD (selector mix % table.size) #[])))

/-- Sequential memory-hard mixing of one state with a table of `n` entries. -/
def roMix (n : Nat) (mix : Mix) : Mix :=
  let (mix, table) := fill n mix (Array.mkEmpty n)
  fold table n mix

/-- The bytes of one lane, `128 r` of them, mixed with cost `n`. -/
def mixLane (n : Nat) (lane : List UInt8) : List UInt8 :=
  (roMix n ((pieces 64 lane).map Salsa.Block.ofBytes).toArray).toList.flatMap Salsa.Block.bytes

/-- The scrypt digest of `length` bytes with cost `n`, block size `r` and parallelism `p`. -/
def hash (password salt : List UInt8) (n r p length : Nat) : List UInt8 :=
  let lanes := pieces (128 * r) (pbkdf2Once password salt (128 * r * p))
  pbkdf2Once password (lanes.flatMap (mixLane n)) length

end Scrypt

theorem length_hmacSha256 (key message : List UInt8) : (hmacSha256 key message).length = 32 := rfl

/-- The derived key has the length asked for. -/
@[simp] theorem length_pbkdf2Once (password salt : List UInt8) (length : Nat) :
    (pbkdf2Once password salt length).length = length := by
  simp only [pbkdf2Once, List.length_take, List.length_flatMap, length_hmacSha256,
    List.map_const', List.sum_replicate_nat, List.length_range]
  omega

@[simp] theorem Scrypt.length_hash (password salt : List UInt8) (n r p length : Nat) :
    (Scrypt.hash password salt n r p length).length = length := by
  simp [Scrypt.hash]

/-- The scrypt digest, if its length is one that the key derivation can give: at least one byte, and
no more blocks of thirty-two bytes than can be counted in 32 bits. -/
def Scrypt.derive (password salt : List UInt8) (n r p length : Nat) :
    Except String (Bytes length) :=
  if length = 0 ∨ 0xffffffff < length / 32 then .error "invalid output length"
  else .ok ⟨hash password salt n r p length, length_hash ..⟩

end HeaderRules.Hash
