import HeaderRules.Genesis
import HeaderRules.Proofs.HexDigits
import HeaderRules.Proofs.SerializedForm

/-!
# The coinbase of a genesis block

A genesis block is checked by its hash, and its coinbase enters that check through its serialized
form alone. The check says something about the constants because different ones are written
differently: the input script, the key and the reward are all read back from the serialized form
(`Transaction.bytes_coinbase_inj`). This crosses two encodings, the push of the key onto the output
script and the script after its length, which are both prefix codes. The texts themselves are known
up to the case of their letters only.
-/

namespace HeaderRules

open Outcome

variable {script key script' key' : List UInt8} {reward reward' : UInt64}

/-! ## Different constants are written differently -/

theorem Script.length_pushSize_le (n : Nat) : (pushSize n).length ≤ 5 := by
  unfold pushSize
  split_ifs <;> simp [length_littleEndian]

theorem Script.length_payToKey_le (key : List UInt8) : (payToKey key).length ≤ key.length + 6 := by
  have hsize := length_pushSize_le key.length
  rw [payToKey, push, List.length_append, List.length_append, List.length_singleton]
  omega

/-- The key is read back from the script that pays to it. -/
theorem Script.eq_of_payToKey_eq (hkey : key.length < 2 ^ 32) (hkey' : key'.length < 2 ^ 32)
    (h : payToKey key = payToKey key') : key = key' :=
  (isPrefixCode_push hkey hkey' h).1

namespace Transaction

theorem writable_coinbase (hscript : script.length < 2 ^ 32) (hkey : key.length < 2 ^ 32)
    (reward : UInt64) : (coinbase script key reward).Writable := by
  have hone : 1 < 2 ^ 64 := by decide
  have hpay : (Script.payToKey key).length < 2 ^ 64 := by
    have := Script.length_payToKey_le key
    omega
  constructor
  · exact ⟨hone, List.forall_mem_singleton.2 (hscript.trans (by decide))⟩
  · exact ⟨hone, List.forall_mem_singleton.2 hpay⟩

/-- An identifier is the double hash of the serialized form. -/
theorem id_eq_iff {tx : Transaction} {h : Hash256} :
    tx.id = h ↔ h.internal.toList = Hash.Sha256.hash (Hash.Sha256.hash tx.bytes) := by
  constructor
  · rintro rfl
    rfl
  · intro hbytes
    exact congrArg Hash256.mk (Bytes.ext hbytes.symm)

/-- The input script, the key and the reward are known from the serialized form. -/
theorem bytes_coinbase_inj (hscript : script.length < 2 ^ 32) (hkey : key.length < 2 ^ 32)
    (hscript' : script'.length < 2 ^ 32) (hkey' : key'.length < 2 ^ 32) :
    (coinbase script key reward).bytes = (coinbase script' key' reward').bytes ↔
      script = script' ∧ key = key' ∧ reward = reward' := by
  constructor
  · intro h
    have hcoinbase := isPrefixCode_bytes.eq (writable_coinbase hscript hkey reward)
      (writable_coinbase hscript' hkey' reward') h
    obtain ⟨-, hinputs, houtputs, -⟩ := Transaction.mk.inj hcoinbase
    obtain ⟨-, hinput, -⟩ := TxInput.mk.inj (List.singleton_inj.1 hinputs)
    obtain ⟨hreward, hpay⟩ := TxOutput.mk.inj (List.singleton_inj.1 houtputs)
    exact ⟨hinput, Script.eq_of_payToKey_eq hkey hkey' hpay, hreward⟩
  · rintro ⟨rfl, rfl, rfl⟩
    rfl

end Transaction

/-! ## Constants as texts -/

namespace GenesisInfo

variable {info : GenesisInfo} {scriptText keyText scriptText' keyText' : String} {e : HexError}
  {tx : Transaction}

theorem buildCoinbase_eq_ok_iff :
    buildCoinbase scriptText keyText reward = .ok tx ↔
      ∃ script key, Hex.decode scriptText = .ok script ∧ Hex.decode keyText = .ok key ∧
        tx = .coinbase script key reward := by
  simp only [buildCoinbase, bind_eq_ok_iff, pure, Except.pure, Except.ok.injEq]
  constructor
  · rintro ⟨script, hscript, key, hkey, rfl⟩
    exact ⟨script, key, hscript, hkey, rfl⟩
  · rintro ⟨script, key, hscript, hkey, rfl⟩
    exact ⟨script, hscript, key, hkey, rfl⟩

/-- The input script is complained about first. -/
theorem buildCoinbase_eq_error_iff :
    buildCoinbase scriptText keyText reward = .error e ↔
      Hex.decode scriptText = .error e ∨
        ∃ script, Hex.decode scriptText = .ok script ∧ Hex.decode keyText = .error e := by
  simp [buildCoinbase, bind_eq_error_iff, pure, Except.pure]

/-- The case of letters in the texts does not matter. -/
theorem buildCoinbase_eq_ok_iff_of_toLower_eq (hscript : scriptText.toLower = scriptText'.toLower)
    (hkey : keyText.toLower = keyText'.toLower) :
    buildCoinbase scriptText keyText reward = .ok tx ↔
      buildCoinbase scriptText' keyText' reward = .ok tx := by
  simp only [buildCoinbase_eq_ok_iff, Hex.decode_eq_ok_iff_of_toLower_eq hscript,
    Hex.decode_eq_ok_iff_of_toLower_eq hkey]

section Described

variable (h : info.coinbase = .transaction scriptText keyText reward)
include h

theorem coinbaseTransaction_eq_ok_iff {tx? : Option Transaction} :
    info.coinbaseTransaction = .ok tx? ↔
      ∃ tx, buildCoinbase scriptText keyText reward = .ok tx ∧ some tx = tx? := by
  simp only [coinbaseTransaction, h, map_eq_ok_iff]

theorem coinbaseTransaction_eq_ok_some_iff :
    info.coinbaseTransaction = .ok (some tx) ↔
      buildCoinbase scriptText keyText reward = .ok tx := by
  simp only [coinbaseTransaction_eq_ok_iff h, Option.some.injEq, exists_eq_right]

theorem coinbaseTransaction_eq_error_iff :
    info.coinbaseTransaction = .error e ↔ buildCoinbase scriptText keyText reward = .error e := by
  simp only [coinbaseTransaction, h, map_eq_error_iff]

theorem merkleRoot_eq_ok_iff {root : Hash256} :
    info.merkleRoot = .ok root ↔
      ∃ tx, buildCoinbase scriptText keyText reward = .ok tx ∧ tx.id = root := by
  simp only [merkleRoot, h, map_eq_ok_iff]

theorem merkleRoot_eq_error_iff :
    info.merkleRoot = .error e ↔ buildCoinbase scriptText keyText reward = .error e := by
  simp only [merkleRoot, h, map_eq_error_iff]

end Described

/-- The constants describe a coinbase by texts that are read as an input script and a key. -/
def Describes (info : GenesisInfo) (script key : List UInt8) (reward : UInt64) : Prop :=
  ∃ scriptText keyText, info.coinbase = .transaction scriptText keyText reward ∧
    Hex.decode scriptText = .ok script ∧ Hex.decode keyText = .ok key

theorem Describes.coinbaseTransaction_eq (h : info.Describes script key reward) :
    info.coinbaseTransaction = .ok (some (.coinbase script key reward)) := by
  obtain ⟨scriptText, keyText, hinfo, hscript, hkey⟩ := h
  rw [coinbaseTransaction_eq_ok_some_iff hinfo, buildCoinbase_eq_ok_iff]
  exact ⟨script, key, hscript, hkey, rfl⟩

/-- The coinbase of a genesis block is told by its serialized form. Two descriptions by readable
texts, of less than `2 ^ 32` bytes each, both give a transaction, and the serialized forms are the
same exactly if the input scripts, the keys and the rewards are. The transaction and the merkle root
can be computed from the same constants, both fail with the complaint about the input script or,
if that can be read, with the one about the key, and the merkle root is the double SHA-256 of the
serialized form. Texts that differ in the case of letters only give the same transaction. -/
theorem coinbase_is_unambiguous :
    (∀ (info info' : GenesisInfo) (script key script' key' : List UInt8) (reward reward' : UInt64),
      info.Describes script key reward → info'.Describes script' key' reward' →
      script.length < 2 ^ 32 → key.length < 2 ^ 32 → script'.length < 2 ^ 32 →
      key'.length < 2 ^ 32 →
      ∃ tx tx', info.coinbaseTransaction = .ok (some tx) ∧
        info'.coinbaseTransaction = .ok (some tx') ∧
        (tx.bytes = tx'.bytes ↔ script = script' ∧ key = key' ∧ reward = reward')) ∧
    (∀ (info : GenesisInfo) (scriptText keyText : String) (reward : UInt64),
      info.coinbase = .transaction scriptText keyText reward →
      ((∃ tx?, info.coinbaseTransaction = .ok tx?) ↔ ∃ root, info.merkleRoot = .ok root) ∧
      (∀ e, info.merkleRoot = .error e ↔ info.coinbaseTransaction = .error e) ∧
      (∀ e, info.coinbaseTransaction = .error e ↔ Hex.decode scriptText = .error e ∨
        ∃ script, Hex.decode scriptText = .ok script ∧ Hex.decode keyText = .error e) ∧
      ∀ root, info.merkleRoot = .ok root ↔ ∃ tx, info.coinbaseTransaction = .ok (some tx) ∧
        root.internal.toList = Hash.Sha256.hash (Hash.Sha256.hash tx.bytes)) ∧
    ∀ (info info' : GenesisInfo) (scriptText keyText scriptText' keyText' : String)
      (reward : UInt64) (tx : Transaction),
      info.coinbase = .transaction scriptText keyText reward →
      info'.coinbase = .transaction scriptText' keyText' reward →
      scriptText.toLower = scriptText'.toLower → keyText.toLower = keyText'.toLower →
      (info.coinbaseTransaction = .ok (some tx) ↔ info'.coinbaseTransaction = .ok (some tx)) := by
  refine ⟨?_, ?_, ?_⟩
  · intro info info' script key script' key' reward reward' h h' hscript hkey hscript' hkey'
    exact ⟨_, _, h.coinbaseTransaction_eq, h'.coinbaseTransaction_eq,
      Transaction.bytes_coinbase_inj hscript hkey hscript' hkey'⟩
  · intro info scriptText keyText reward h
    refine ⟨?_, fun e => ?_, fun e => ?_, fun root => ?_⟩
    · simp only [coinbaseTransaction_eq_ok_iff h, merkleRoot_eq_ok_iff h]
      constructor
      · rintro ⟨-, tx, htx, -⟩
        exact ⟨tx.id, tx, htx, rfl⟩
      · rintro ⟨-, tx, htx, -⟩
        exact ⟨some tx, tx, htx, rfl⟩
    · rw [merkleRoot_eq_error_iff h, coinbaseTransaction_eq_error_iff h]
    · rw [coinbaseTransaction_eq_error_iff h, buildCoinbase_eq_error_iff]
    · simp only [merkleRoot_eq_ok_iff h, coinbaseTransaction_eq_ok_some_iff h]
      refine exists_congr fun tx => and_congr_right fun _ => ?_
      rw [Transaction.id_eq_iff]
  · intro info info' scriptText keyText scriptText' keyText' reward tx h h' hscript hkey
    rw [coinbaseTransaction_eq_ok_some_iff h, coinbaseTransaction_eq_ok_some_iff h',
      buildCoinbase_eq_ok_iff_of_toLower_eq hscript hkey]

/-- Constants of a coinbase with the input script of Dogecoin that pays to a given key. -/
def payingTo (keyText : String) : GenesisInfo :=
  { dogecoin with
    coinbase := .transaction "04ffff001d0104084e696e746f6e646f" keyText (88 * coin) }

theorem decode_dogecoin_script : Hex.decode "04ffff001d0104084e696e746f6e646f" =
    .ok [0x04, 0xff, 0xff, 0x00, 0x1d, 0x01, 0x04, 0x08, 0x4e, 0x69, 0x6e, 0x74, 0x6f, 0x6e, 0x64,
      0x6f] := by
  decide +kernel

theorem payingTo_describes (keyText : String) (key : List UInt8)
    (hkey : Hex.decode keyText = .ok key) :
    (payingTo keyText).Describes [0x04, 0xff, 0xff, 0x00, 0x1d, 0x01, 0x04, 0x08, 0x4e, 0x69, 0x6e,
      0x74, 0x6f, 0x6e, 0x64, 0x6f] key (88 * coin) :=
  ⟨_, keyText, rfl, decode_dogecoin_script, hkey⟩

/-- No key and a key of one zero byte are both pushed, and are told apart; a text that is no key
leaves neither a transaction nor a merkle root; and a key may be written in either case. -/
theorem no_key_is_not_zero_key :
    (∃ tx tx', (payingTo "").coinbaseTransaction = .ok (some tx) ∧
      (payingTo "00").coinbaseTransaction = .ok (some tx') ∧ tx.bytes ≠ tx'.bytes) ∧
    (payingTo "0g").coinbaseTransaction = .error (.invalidCharacter 0x67 1) ∧
    (payingTo "0g").merkleRoot = .error (.invalidCharacter 0x67 1) ∧
    ∃ tx, (payingTo "aB").coinbaseTransaction = .ok (some tx) ∧
      (payingTo "Ab").coinbaseTransaction = .ok (some tx) := by
  obtain ⟨htold, hbuilt, hcase⟩ := coinbase_is_unambiguous
  have hnone := payingTo_describes "" [] (by decide +kernel)
  have hzero := payingTo_describes "00" [0x00] (by decide +kernel)
  have hmixed := payingTo_describes "aB" [0xab] (by decide +kernel)
  obtain ⟨-, hfails, hcomplaint, -⟩ := hbuilt (payingTo "0g") _ _ _ rfl
  have hinvalid : (payingTo "0g").coinbaseTransaction = .error (.invalidCharacter 0x67 1) :=
    (hcomplaint _).2 (.inr ⟨_, decode_dogecoin_script, by decide +kernel⟩)
  refine ⟨?_, hinvalid, (hfails _).2 hinvalid, _, hmixed.coinbaseTransaction_eq, ?_⟩
  · obtain ⟨tx, tx', htx, htx', hbytes⟩ := htold _ _ _ _ _ _ _ _ hnone hzero
      (by decide) (by decide) (by decide) (by decide)
    exact ⟨tx, tx', htx, htx', fun h => List.cons_ne_nil _ _ (hbytes.1 h).2.1.symm⟩
  · have hletters : "aB".toLower = "Ab".toLower := Hex.toLower_eq_iff.2 (by decide)
    exact (hcase (payingTo "aB") (payingTo "Ab") _ _ _ _ _ _ rfl rfl rfl hletters).1
      hmixed.coinbaseTransaction_eq

end GenesisInfo

end HeaderRules
