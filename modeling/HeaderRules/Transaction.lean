import HeaderRules.Digest
import HeaderRules.Hash.Sha256

/-!
# Transactions

The serialized form of a transaction without witnesses, which is all that the coinbase transaction
of a genesis block needs. Lists and scripts are written after their length, which takes one, three,
five or nine bytes; a push of data onto a script writes the length in one of four forms of its
own. Both encodings name the length before the data, so that no serialized form is the beginning
of another one.
-/

namespace HeaderRules

/-- A length in front of a list or a script: one byte below 0xfd, else a mark and two, four or
eight bytes. -/
def compactSize (n : Nat) : List UInt8 :=
  if n < 0xfd then littleEndian 1 n
  else if n < 0x10000 then 0xfd :: littleEndian 2 n
  else if n < 0x100000000 then 0xfe :: littleEndian 4 n
  else 0xff :: littleEndian 8 n

namespace Script

/-- A length in front of pushed data: up to seventy-five one byte, else a mark and one, two or four
bytes. -/
def pushSize (n : Nat) : List UInt8 :=
  if n ≤ 75 then littleEndian 1 n
  else if n < 0x100 then 0x4c :: littleEndian 1 n
  else if n < 0x10000 then 0x4d :: littleEndian 2 n
  else 0x4e :: littleEndian 4 n

/-- The instruction that pushes data, which has less than `2 ^ 32` bytes. -/
def push (data : List UInt8) : List UInt8 := pushSize data.length ++ data

/-- The instruction that checks a signature. -/
def checkSig : UInt8 := 0xac

/-- The script that pays to a bare key. -/
def payToKey (key : List UInt8) : List UInt8 := push key ++ [checkSig]

end Script

/-- The place of an output: a transaction and a position in it. -/
structure OutPoint where
  transaction : Hash256
  index : UInt32
deriving DecidableEq, Repr

/-- The place that stands for no output, which a coinbase spends. -/
def OutPoint.null : OutPoint := ⟨Hash256.zero, 0xffffffff⟩

/-- An input: what it spends, the script that unlocks it, and a sequence number. -/
structure TxInput where
  previous : OutPoint
  script : List UInt8
  sequence : UInt32
deriving DecidableEq, Repr

/-- An output: an amount and the script that locks it. -/
structure TxOutput where
  amount : UInt64
  script : List UInt8
deriving DecidableEq, Repr

/-- A transaction without witnesses. -/
structure Transaction where
  version : Int32
  inputs : List TxInput
  outputs : List TxOutput
  lockTime : UInt32
deriving DecidableEq, Repr

/-- The serialized form of an input. -/
def TxInput.bytes (input : TxInput) : List UInt8 :=
  input.previous.transaction.internal.toList ++ littleEndian 4 input.previous.index.toNat ++
    compactSize input.script.length ++ input.script ++ littleEndian 4 input.sequence.toNat

/-- The serialized form of an output. -/
def TxOutput.bytes (output : TxOutput) : List UInt8 :=
  littleEndian 8 output.amount.toNat ++ compactSize output.script.length ++ output.script

namespace Transaction

/-- The serialized form. -/
def bytes (tx : Transaction) : List UInt8 :=
  littleEndian 4 tx.version.toUInt32.toNat ++
    compactSize tx.inputs.length ++ tx.inputs.flatMap TxInput.bytes ++
    compactSize tx.outputs.length ++ tx.outputs.flatMap TxOutput.bytes ++
    littleEndian 4 tx.lockTime.toNat

/-- The identifier: the double SHA-256 of the serialized form. -/
def id (tx : Transaction) : Hash256 :=
  ⟨⟨Hash.Sha256.hashTwice tx.bytes, Hash.Sha256.length_hashTwice _⟩⟩

/-- Whether a transaction has the shape of a coinbase: a single input that spends nothing. -/
def isCoinbase (tx : Transaction) : Bool :=
  match tx.inputs with
  | [input] => input.previous = OutPoint.null
  | _ => false

/-- The coinbase transaction with a given input script that pays a reward to a bare key. -/
def coinbase (scriptSig key : List UInt8) (reward : UInt64) : Transaction where
  version := 1
  inputs := [⟨OutPoint.null, scriptSig, 0xffffffff⟩]
  outputs := [⟨reward, Script.payToKey key⟩]
  lockTime := 0

end Transaction

end HeaderRules
