import HeaderRules.Proofs.Outcome
import HeaderRules.Proofs.ValidatedChain
import HeaderRules.Registry
import Mathlib.Data.List.Dedup
import Mathlib.Data.List.Forall2

/-!
# The filling of a registry

A registry is filled one chain after the other, and what comes out shows which chains were given and
nothing else about the way. `Registers` describes the outcome without the filling: every chain
passes its check, and the registry holds what the check gives for the chains of the list and for no
other. Registering one more chain keeps it (`Registers.register`), so a filling that meets no
refusal ends in a registry of this description, and there is only one (`Registers.unique`). A
filling that meets a refusal ends with the first one (`ofChecked_eq_error`).
-/

namespace HeaderRules.Registry

open Outcome

variable {check : Chain → Except ParamsError ChainParams} {chains chains' : List Chain} {c : Chain}
  {params : ChainParams} {e : ParamsError} {r r' : Registry}

/-! ## What a filled registry holds -/

/-- Every chain of the list passes the check. -/
def Passes (check : Chain → Except ParamsError ChainParams) (chains : List Chain) : Prop :=
  ∀ c ∈ chains, ∃ params, check c = .ok params

/-- The registry holds what the check gives for the chains of the list, which all pass, and nothing
for any other chain. -/
structure Registers (check : Chain → Except ParamsError ChainParams) (chains : List Chain)
    (r : Registry) : Prop where
  passes : Passes check chains
  get?_eq_some_iff : ∀ c params, r.get? c = some params ↔ c ∈ chains ∧ check c = .ok params

theorem registers_nil : Registers check [] empty := by
  refine ⟨nofun, fun c params => ?_⟩
  simp

theorem Registers.contains_iff (h : Registers check chains r) (c : Chain) :
    r.contains c = true ↔ c ∈ chains := by
  rw [contains_eq_isSome, Option.isSome_iff_exists]
  constructor
  · rintro ⟨params, hparams⟩
    exact ((h.get?_eq_some_iff c params).1 hparams).1
  · intro hc
    obtain ⟨params, hparams⟩ := h.passes c hc
    exact ⟨params, (h.get?_eq_some_iff c params).2 ⟨hc, hparams⟩⟩

/-- The chains of the list and their check leave no choice. -/
theorem Registers.unique (h : Registers check chains r) (h' : Registers check chains r') :
    r = r' := by
  ext c params
  exact (h.get?_eq_some_iff c params).trans (h'.get?_eq_some_iff c params).symm

/-- Only which chains are in the list matters, neither their order nor how often. -/
theorem Registers.of_mem_iff (h : Registers check chains r)
    (hmem : ∀ c, c ∈ chains' ↔ c ∈ chains) : Registers check chains' r := by
  refine ⟨fun c hc => h.passes c ((hmem c).1 hc), fun c params => ?_⟩
  rw [hmem, h.get?_eq_some_iff]

/-! ## Registering chains -/

/-- A chain that passes is registered, whether it was registered before or not. -/
theorem Registers.register (h : Registers check chains r) (hcheck : check c = .ok params) :
    ∃ r', r.register check c = .ok r' ∧ Registers check (chains ++ [c]) r' := by
  have hpasses : Passes check (chains ++ [c]) := by
    intro d hd
    rcases List.mem_append.1 hd with hd | hd
    · exact h.passes d hd
    · rw [List.mem_singleton.1 hd]
      exact ⟨params, hcheck⟩
  unfold Registry.register
  split_ifs with hcontains
  · refine ⟨r, rfl, h.of_mem_iff fun d => ?_⟩
    have hc := (h.contains_iff c).1 hcontains
    simp only [List.mem_append, List.mem_singleton, or_iff_left_iff_imp]
    rintro rfl
    exact hc
  · refine ⟨r.insert c params, by rw [hcheck]; rfl, hpasses, fun d other => ?_⟩
    rw [get?_insert, List.mem_append, List.mem_singleton]
    split_ifs with hd
    · rw [hd, hcheck, Option.some.injEq, Except.ok.injEq]
      exact (and_iff_right (.inr rfl)).symm
    · rw [h.get?_eq_some_iff, or_iff_left hd]

/-- A chain that is refused ends the filling: none that is registered is refused. -/
theorem Registers.register_eq_error (h : Registers check chains r) (hcheck : check c = .error e) :
    r.register check c = .error e := by
  have hnot : ¬r.contains c = true := by
    rw [h.contains_iff]
    intro hc
    obtain ⟨params, hparams⟩ := h.passes c hc
    exact nomatch hcheck.symm.trans hparams
  rw [Registry.register, if_neg hnot, hcheck]
  rfl

/-- Chains that all pass are registered one after the other. -/
theorem Registers.foldlM (h : Registers check chains r) (hpasses : Passes check chains') :
    ∃ r', chains'.foldlM (Registry.register check) r = .ok r' ∧
      Registers check (chains ++ chains') r' := by
  induction chains' generalizing chains r with
  | nil => exact ⟨r, rfl, by rwa [List.append_nil]⟩
  | cons c chains' ih =>
    obtain ⟨⟨params, hparams⟩, hrest⟩ := List.forall_mem_cons.1 hpasses
    obtain ⟨next, hnext, hregisters⟩ := h.register hparams
    obtain ⟨last, hlast, hall⟩ := ih hregisters hrest
    refine ⟨last, ?_, by rwa [List.append_assoc] at hall⟩
    rw [List.foldlM_cons, hnext, ok_bind, hlast]

theorem exists_registers (hpasses : Passes check chains) :
    ∃ r, ofChecked check chains = .ok r ∧ Registers check chains r :=
  registers_nil.foldlM hpasses

/-- The first refusal is the outcome, whatever comes after it. -/
theorem ofChecked_eq_error (hpasses : Passes check chains) (hcheck : check c = .error e)
    (after : List Chain) : ofChecked check (chains ++ c :: after) = .error e := by
  obtain ⟨r, hr, hregisters⟩ := exists_registers hpasses
  rw [ofChecked] at hr ⊢
  rw [List.foldlM_append, hr, ok_bind, List.foldlM_cons, hregisters.register_eq_error hcheck]
  rfl

/-- Either all chains pass, or there is a first one that is refused. -/
theorem passes_or_first_refused (check : Chain → Except ParamsError ChainParams)
    (chains : List Chain) :
    Passes check chains ∨ ∃ before c after e, chains = before ++ c :: after ∧
      Passes check before ∧ check c = .error e := by
  induction chains with
  | nil => exact .inl nofun
  | cons c chains ih =>
    rcases ok_or_error (check c) with hc | ⟨e, hc⟩
    · rcases ih with hpasses | ⟨before, d, after, e, rfl, hbefore, hd⟩
      · exact .inl (List.forall_mem_cons.2 ⟨hc, hpasses⟩)
      · exact .inr ⟨c :: before, d, after, e, rfl, List.forall_mem_cons.2 ⟨hc, hbefore⟩, hd⟩
    · exact .inr ⟨[], c, chains, e, rfl, nofun, hc⟩

theorem ofChecked_eq_error_iff :
    ofChecked check chains = .error e ↔ ∃ before c after, chains = before ++ c :: after ∧
      Passes check before ∧ check c = .error e := by
  constructor
  · intro h
    rcases passes_or_first_refused check chains with
      hpasses | ⟨before, c, after, e', rfl, hbefore, hc⟩
    · obtain ⟨r, hr, -⟩ := exists_registers hpasses
      exact nomatch h.symm.trans hr
    · obtain rfl := Except.error.inj (h.symm.trans (ofChecked_eq_error hbefore hc after))
      exact ⟨before, c, after, rfl, hbefore, hc⟩
  · rintro ⟨before, c, after, rfl, hbefore, hc⟩
    exact ofChecked_eq_error hbefore hc after

/-! ## The list of a registry -/

theorem Registers.mem_keys_iff (h : Registers check chains r) (c : Chain) :
    c ∈ r.chains.keys ↔ c ∈ chains := by
  rw [Std.ExtTreeMap.mem_keys, Std.ExtTreeMap.mem_iff_contains]
  exact h.contains_iff c

theorem pairwise_keys (r : Registry) : r.chains.keys.Pairwise (·.index < ·.index) :=
  Std.ExtTreeMap.ordered_keys.imp Chain.compare_eq_lt.1

/-- The parameters are listed beside their chains. -/
theorem Registers.forall₂_toList (h : Registers check chains r) :
    List.Forall₂ (fun c params => check c = .ok params) r.chains.keys r.toList := by
  rw [← Std.ExtTreeMap.map_fst_toList_eq_keys, toList, List.forall₂_map_left_iff,
    List.forall₂_map_right_iff, List.forall₂_same]
  rintro ⟨c, params⟩ hmem
  have hget := Std.ExtTreeMap.mem_toList_iff_getElem?_eq_some.1 hmem
  exact ((h.get?_eq_some_iff c params).1 hget).2

/-- A registry has as many entries as there are different chains. -/
theorem Registers.size_eq (h : Registers check chains r) : r.size = chains.dedup.length := by
  have hperm : r.chains.keys.Perm chains.dedup := by
    refine (List.perm_ext_iff_of_nodup Std.ExtTreeMap.nodup_keys chains.nodup_dedup).2 fun c => ?_
    rw [h.mem_keys_iff, List.mem_dedup]
  rw [← hperm.length_eq, Std.ExtTreeMap.length_keys]
  rfl

/-- A filled registry depends on the set of chains alone. If all of them pass their check, it holds
what the check gives for each and nothing else, has as many entries as there are different chains,
and lists them in increasing order; every other list of the same chains, in whatever order and
however often, gives the same registry. If some are refused, the outcome is the refusal of the
first. The check by which `ofChains` fills a registry is the self-check of the chain's constants. -/
theorem filled_registry_depends_on_chains_alone (check : Chain → Except ParamsError ChainParams)
    (chains : List Chain) :
    ((∀ c ∈ chains, ∃ params, check c = .ok params) →
      ∃ r, ofChecked check chains = .ok r ∧
        (∀ c params, r.get? c = some params ↔ c ∈ chains ∧ check c = .ok params) ∧
        r.size = chains.dedup.length ∧
        (∃ listed : List Chain, listed.Pairwise (·.index < ·.index) ∧
          (∀ c, c ∈ listed ↔ c ∈ chains) ∧
          List.Forall₂ (fun c params => check c = .ok params) listed r.toList) ∧
        ∀ chains' : List Chain, (∀ c, c ∈ chains' ↔ c ∈ chains) →
          ofChecked check chains' = .ok r) ∧
    ∀ e, ofChecked check chains = .error e ↔ ∃ before c after, chains = before ++ c :: after ∧
      (∀ d ∈ before, ∃ params, check d = .ok params) ∧ check c = .error e := by
  refine ⟨fun hpasses => ?_, fun e => ofChecked_eq_error_iff⟩
  obtain ⟨r, hr, h⟩ := exists_registers hpasses
  refine ⟨r, hr, h.get?_eq_some_iff, h.size_eq,
    ⟨r.chains.keys, r.pairwise_keys, h.mem_keys_iff, h.forall₂_toList⟩, fun chains' hmem => ?_⟩
  have h' : Registers check chains' r := h.of_mem_iff hmem
  obtain ⟨other, hother, hregisters⟩ := exists_registers h'.passes
  rw [hother, hregisters.unique h']

/-- Litecoin, which is listed before Dogecoin. -/
def litecoin : ChainParams := .ofValidated .litecoin (by decide +kernel)

/-- Dogecoin, Litecoin and Dogecoin once more give the registry of Litecoin and Dogecoin. -/
theorem dogecoin_registered_once_beside_litecoin :
    (∀ c ∈ [Chain.dogecoin, .litecoin, .dogecoin], ∃ params, ChainParams.ofChain c = .ok params) ∧
      (∀ c, c ∈ [Chain.litecoin, .dogecoin] ↔ c ∈ [Chain.dogecoin, .litecoin, .dogecoin]) ∧
      ∃ r, ofChains [.dogecoin, .litecoin, .dogecoin] = .ok r ∧
        ofChains [.litecoin, .dogecoin] = .ok r ∧ r.size = 2 ∧
        r.get? .dogecoin = some .dogecoin ∧ r.get? .litecoin = some litecoin := by
  have hdogecoin : ChainParams.ofChain .dogecoin = .ok .dogecoin :=
    (ChainParams.ofParams_eq_ok_iff _).2 rfl
  have hlitecoin : ChainParams.ofChain .litecoin = .ok litecoin :=
    (ChainParams.ofParams_eq_ok_iff _).2 rfl
  have hpasses : ∀ c ∈ [Chain.dogecoin, .litecoin, .dogecoin],
      ∃ params, ChainParams.ofChain c = .ok params :=
    List.forall_mem_cons.2 ⟨⟨_, hdogecoin⟩, List.forall_mem_cons.2 ⟨⟨_, hlitecoin⟩,
      List.forall_mem_cons.2 ⟨⟨_, hdogecoin⟩, nofun⟩⟩⟩
  have hmem : ∀ c, c ∈ [Chain.litecoin, .dogecoin] ↔
      c ∈ [Chain.dogecoin, .litecoin, .dogecoin] := by
    intro c
    cases c <;> decide
  obtain ⟨r, hr, hget, hsize, -, hsame⟩ :=
    (filled_registry_depends_on_chains_alone ChainParams.ofChain _).1 hpasses
  exact ⟨hpasses, hmem, r, hr, hsame _ hmem, hsize, (hget _ _).2 ⟨by decide, hdogecoin⟩,
    (hget _ _).2 ⟨by decide, hlitecoin⟩⟩

end HeaderRules.Registry
