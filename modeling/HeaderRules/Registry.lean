import HeaderRules.ChainParams
import Std.Data.ExtTreeMap

/-!
# The registry of chains

A registry holds the validated parameters of some of the supported chains, each at most once. It is
a sorted map that is filled one chain after the other: a chain that is registered already is not
checked again, and the first chain that is refused ends the filling. The order in which chains are
registered leaves no trace, since two maps with the same entries are equal, and a registry is listed
in the order of the chains.
-/

namespace HeaderRules

/-- Validated parameters for some chains. -/
structure Registry where
  chains : Std.ExtTreeMap Chain ChainParams

namespace Registry

/-- The registry without chains. -/
def empty : Registry := ⟨∅⟩

/-- The parameters of a chain, if it is registered. -/
def get? (r : Registry) (c : Chain) : Option ChainParams := r.chains[c]?

/-- Adds the parameters of a chain, or replaces them. -/
def insert (r : Registry) (c : Chain) (params : ChainParams) : Registry :=
  ⟨r.chains.insert c params⟩

/-- Whether a chain is registered. -/
def contains (r : Registry) (c : Chain) : Bool := r.chains.contains c

/-- Runs a check on a chain and registers what it gives, unless the chain is registered already. -/
def register (check : Chain → Except ParamsError ChainParams) (r : Registry) (c : Chain) :
    Except ParamsError Registry :=
  if r.contains c then .ok r else (check c).map (r.insert c)

/-- The registry of the given chains under a check. -/
def ofChecked (check : Chain → Except ParamsError ChainParams) (chains : List Chain) :
    Except ParamsError Registry :=
  chains.foldlM (register check) empty

/-- The registry of the given chains; the first chain that fails its self-check decides the
error. -/
def ofChains (chains : List Chain) : Except ParamsError Registry :=
  ofChecked ChainParams.ofChain chains

/-- The registry of all supported chains. -/
def ofAll : Except ParamsError Registry := ofChains Chain.all

/-- The registered parameters in the order of the chains. -/
def toList (r : Registry) : List ChainParams := r.chains.toList.map Prod.snd

/-- The number of registered chains. -/
def size (r : Registry) : Nat := r.chains.size

/-- Whether no chain is registered. -/
def isEmpty (r : Registry) : Bool := r.chains.isEmpty

/-! ## What is registered -/

@[ext] theorem ext {r r' : Registry} (h : ∀ c, r.get? c = r'.get? c) : r = r' := by
  cases r
  cases r'
  exact congrArg mk (Std.ExtTreeMap.ext_getElem? h)

@[simp] theorem get?_empty (c : Chain) : empty.get? c = none := Std.ExtTreeMap.getElem?_empty

theorem get?_insert (r : Registry) (c d : Chain) (params : ChainParams) :
    (r.insert c params).get? d = if d = c then some params else r.get? d := by
  simp only [insert, get?, Std.ExtTreeMap.getElem?_insert, Std.compare_eq_iff_eq]
  by_cases h : c = d
  · simp [h]
  · simp [h, Ne.symm h]

theorem contains_eq_isSome (r : Registry) (c : Chain) : r.contains c = (r.get? c).isSome :=
  Std.ExtTreeMap.contains_eq_isSome_getElem?

end Registry

end HeaderRules
