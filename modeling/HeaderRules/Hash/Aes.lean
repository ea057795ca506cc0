import HeaderRules.Hash.Words

/-!
# The AES round

Three of the X11 stages are built on one round of the AES block cipher: byte substitution, a
rotation of the rows and a linear mix of the columns, followed by the addition of a round key. A
`Column` layout is used throughout: four 32-bit words, each a column with its top byte in the
least significant place.

The substitution table is computed from its definition, inversion in GF(2⁸) followed by an affine
map, and the combined table `spread` holds the mixed column of a single substituted byte.
-/

namespace HeaderRules.Hash.Aes

/-- Multiplication by `x` in GF(2⁸) modulo `x⁸ + x⁴ + x³ + x + 1`. -/
def double (b : UInt8) : UInt8 :=
  if b &&& 0x80 = 0 then b <<< 1 else (b <<< 1) ^^^ 0x1b

/-- Multiplication in GF(2⁸) by the factor whose bits are given, least significant bit first. -/
def mulBits (b : UInt8) : List Bool → UInt8
  | [] => 0
  | bit :: bits => (if bit then b else 0) ^^^ mulBits (double b) bits

/-- Multiplication in GF(2⁸). -/
def mul (b c : UInt8) : UInt8 :=
  mulBits b ((List.range 8).map fun i => c.toNat.testBit i)

/-- The inverse in GF(2⁸), as the 254th power; zero is sent to zero. -/
def inverse (b : UInt8) : UInt8 :=
  let b2 := mul b b
  let b4 := mul b2 b2
  let b8 := mul b4 b4
  let b16 := mul b8 b8
  let b32 := mul b16 b16
  let b64 := mul b32 b32
  let b128 := mul b64 b64
  mul b128 (mul b64 (mul b32 (mul b16 (mul b8 (mul b4 b2)))))

/-- The affine map that follows inversion: the sum of a byte's five lowest rotations and 0x63. -/
def affine (b : UInt8) : UInt8 :=
  let rot (n : UInt8) : UInt8 := (b <<< n) ||| (b >>> (8 - n))
  b ^^^ rot 1 ^^^ rot 2 ^^^ rot 3 ^^^ rot 4 ^^^ 0x63

/-- The substitution table. -/
def substitution : Array UInt8 :=
  Array.ofFn fun i : Fin 256 => affine (inverse (UInt8.ofNat i))

/-- The substitute of a byte. -/
def substitute (b : UInt8) : UInt8 := substitution.getD b.toNat 0

/-- For each byte in the top row, the mixed column of its substitute: the factors 2, 1, 1, 3 from
the least significant byte up. -/
def spread : Array UInt32 :=
  Array.ofFn fun i : Fin 256 =>
    let s := substitute (UInt8.ofNat i)
    littleEndian32 [double s, s, s, double s ^^^ s]

/-- The mixed column of the substitute of the low byte of `w`. -/
@[inline] def spreadLow (w : UInt32) : UInt32 := spread.getD (w &&& 0xff).toNat 0

/-- Four columns of four bytes. -/
structure Columns where
  c0 : UInt32
  c1 : UInt32
  c2 : UInt32
  c3 : UInt32
deriving DecidableEq, Repr, Inhabited

/-- The bitwise difference of two states. -/
def Columns.xor (a b : Columns) : Columns :=
  ⟨a.c0 ^^^ b.c0, a.c1 ^^^ b.c1, a.c2 ^^^ b.c2, a.c3 ^^^ b.c3⟩

/-- The state with all bytes zero. -/
def Columns.zero : Columns := ⟨0, 0, 0, 0⟩

/-- The columns given by four words. -/
def Columns.ofWords : List UInt32 → Columns
  | [c0, c1, c2, c3] => ⟨c0, c1, c2, c3⟩
  | _ => Columns.zero

/-- The four words of a state. -/
def Columns.words (s : Columns) : List UInt32 := [s.c0, s.c1, s.c2, s.c3]

/-- One output column: row `r` is taken from the `r`-th of the four columns. -/
@[inline] def mixedColumn (w0 w1 w2 w3 : UInt32) : UInt32 :=
  spreadLow w0 ^^^ rotl32 (spreadLow (w1 >>> 8)) 8 ^^^ rotl32 (spreadLow (w2 >>> 16)) 16 ^^^
    rotl32 (spreadLow (w3 >>> 24)) 24

/-- One AES round without a key: substitution, row rotation, column mix. -/
def keylessRound (s : Columns) : Columns :=
  ⟨mixedColumn s.c0 s.c1 s.c2 s.c3, mixedColumn s.c1 s.c2 s.c3 s.c0,
    mixedColumn s.c2 s.c3 s.c0 s.c1, mixedColumn s.c3 s.c0 s.c1 s.c2⟩

/-- One AES round: a keyless round and the addition of the key. -/
def round (s key : Columns) : Columns := (keylessRound s).xor key

end HeaderRules.Hash.Aes
