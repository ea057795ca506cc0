/-!
# Chains

The six supported chains, their names and the other spellings they answer to.
-/

namespace HeaderRules

/-- A supported chain. -/
inductive Chain where
  | bitcoin
  | bitcoinTestnet2
  | litecoin
  | litecoinTestnet
  | dogecoin
  | darkcoin
deriving DecidableEq, Repr, Inhabited

/-- A text that names no chain. -/
structure ChainNameError where
  text : String
deriving DecidableEq, Repr

namespace ChainNameError

/-- What is wrong, in words. -/
def message (e : ChainNameError) : String := "Invalid chain type: " ++ e.text

end ChainNameError

namespace Chain

/-- The chains in the order in which they are listed. -/
def all : List Chain :=
  [bitcoin, bitcoinTestnet2, litecoin, litecoinTestnet, dogecoin, darkcoin]

/-- The position of a chain in the list of all chains. -/
def index : Chain → Nat
  | bitcoin => 0
  | bitcoinTestnet2 => 1
  | litecoin => 2
  | litecoinTestnet => 3
  | dogecoin => 4
  | darkcoin => 5

theorem getElem?_all_index (c : Chain) : all[c.index]? = some c := by cases c <;> rfl

theorem index_injective {c d : Chain} (h : c.index = d.index) : c = d := by
  have hc := getElem?_all_index c
  rw [h, getElem?_all_index d] at hc
  exact (Option.some.inj hc).symm

/-- Chains are ordered by their position in the list of all chains. -/
instance : Ord Chain := ⟨compareOn index⟩

instance : Std.TransOrd Chain := inferInstanceAs (Std.TransCmp (compareOn index))

theorem compare_eq_lt {c d : Chain} : compare c d = .lt ↔ c.index < d.index := Nat.compare_eq_lt

instance : Std.LawfulEqOrd Chain where
  eq_of_compare h := index_injective (Nat.compare_eq_eq.1 h)

/-- The name of a chain. -/
def name : Chain → String
  | bitcoin => "bitcoin"
  | bitcoinTestnet2 => "bitcoin-testnet2"
  | litecoin => "litecoin"
  | litecoinTestnet => "litecoin-testnet"
  | dogecoin => "dogecoin"
  | darkcoin => "darkcoin"

/-- The identifier of a chain, its domain with the parts in reverse order. -/
def id : Chain → String
  | bitcoin => "org.bitcoin.production"
  | bitcoinTestnet2 => "org.bitcoin.test"
  | litecoin => "org.litecoin.production"
  | litecoinTestnet => "org.litecoin.testnet"
  | dogecoin => "org.dogecoin.production"
  | darkcoin => "org.darkcoin.production"

/-- The short name of a chain, where it has one. -/
def ticker? : Chain → Option String
  | bitcoin => some "btc"
  | bitcoinTestnet2 => some "testnet2"
  | litecoin => some "ltc"
  | litecoinTestnet => none
  | dogecoin => some "doge"
  | darkcoin => some "drk"

/-- The chain with exactly the given name. -/
def ofName? (text : String) : Option Chain := all.find? fun c => c.name = text

/-- Whether a text is one of the spellings of a chain: its name, its identifier or its short
name. -/
def answersTo (c : Chain) (text : String) : Bool :=
  text = c.name || text = c.id || some text = c.ticker?

/-- The chain that a text stands for. -/
def ofText (text : String) : Except ChainNameError Chain :=
  match all.find? fun c => c.answersTo text with
  | some c => .ok c
  | none => .error ⟨text⟩

end Chain

end HeaderRules
