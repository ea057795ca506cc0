import HeaderRules.HeaderRun
import HeaderRules.Proofs.ValidatedChain
import Mathlib.Data.List.Induction

/-!
# The state of a run

After some headers a run has stored each of them at its height, under its identity. `Reached` says
so without reference to the run: the last header is the tip, and the history is that of the stored
blocks, of which the latest one with an identity is found. The first header of a run reaches such a
state, and every header that passes its tests leads from one to the next.
-/

namespace HeaderRules

open Outcome

/-- The identity of a header on a chain, whose pipeline never fails. -/
def ChainParams.identity (c : ChainParams) (header : Header) : BlockHash :=
  (c.blockHash header).toOption.getD default

theorem ChainParams.blockHash_eq (c : ChainParams) (header : Header) :
    c.blockHash header = .ok (c.identity header) := by
  obtain ⟨hash, hhash⟩ := c.exists_blockHash header
  rw [identity, hhash]
  rfl

namespace HeaderRun

/-! ## Stored blocks -/

/-- The height of the header with index `i`; the heights stop at the greatest one. -/
def heightAt (start : UInt32) (i : Nat) : UInt32 := .ofNat (min (start.toNat + i) 0xffffffff)

theorem toNat_heightAt (start : UInt32) (i : Nat) :
    (heightAt start i).toNat = min (start.toNat + i) 0xffffffff := by
  rw [heightAt, UInt32.toNat_ofNat']
  omega

theorem heightAt_zero (start : UInt32) : heightAt start 0 = start := by
  have := start.toNat_lt
  rw [← UInt32.toNat_inj, toNat_heightAt]
  omega

theorem nextHeight_heightAt (start : UInt32) (i : Nat) :
    nextHeight (heightAt start i) = heightAt start (i + 1) := by
  have hone : (1 : UInt32).toNat = 1 := rfl
  rw [← UInt32.toNat_inj, nextHeight, toNat_satAdd, toNat_heightAt, toNat_heightAt, hone]
  omega

/-- The header with index `i` as a run stores it. -/
def blockAt (c : ChainParams) (start : UInt32) (i : Nat) (header : Header) : StoredBlock :=
  ⟨c.identity header, header, heightAt start i⟩

/-- Headers as a run stores them. -/
def blocks (c : ChainParams) (start : UInt32) (headers : List Header) : List StoredBlock :=
  headers.mapIdx (blockAt c start)

/-- The history of blocks that were stored one after the other: a later block replaces an earlier
one with the same identity. -/
def latest (stored : List StoredBlock) : History := fun hash =>
  stored.reverse.find? fun b => b.hash = hash

section

variable {c : ChainParams} {start : UInt32}

theorem blocks_concat (headers : List Header) (header : Header) :
    blocks c start (headers ++ [header]) =
      blocks c start headers ++ [blockAt c start headers.length header] := by
  simp only [blocks, List.mapIdx_append, List.mapIdx_cons, List.mapIdx_nil, Nat.zero_add]

theorem latest_concat (stored : List StoredBlock) (b : StoredBlock) (hash : BlockHash) :
    latest (stored ++ [b]) hash = if hash = b.hash then some b else latest stored hash := by
  rw [latest, List.reverse_concat, List.find?_cons]
  by_cases h : hash = b.hash
  · rw [if_pos h, h, decide_eq_true rfl]
  · rw [if_neg h, decide_eq_false (Ne.symm h)]
    rfl

theorem history_insert {store : Store} {stored : List StoredBlock}
    (h : store.history = latest stored) (b : StoredBlock) :
    (store.insert b).history = latest (stored ++ [b]) := by
  funext hash
  rw [latest_concat, ← h]
  exact Store.get?_insert store b hash

/-! ## Reached states -/

/-- The state of a run after some headers. -/
structure Reached (c : ChainParams) (start : UInt32) (headers : List Header) (run : HeaderRun) :
    Prop where
  tip : (blocks c start headers).getLast? = some run.tip
  history : run.store.history = latest (blocks c start headers)

/-- The run whose last block is a header on top of a store. -/
def placed (c : ChainParams) (store : Store) (header : Header) (height : UInt32) : HeaderRun :=
  ⟨store.insert ⟨c.identity header, header, height⟩, ⟨c.identity header, header, height⟩⟩

theorem place_eq_ok (c : ChainParams) (store : Store) (header : Header) (height : UInt32) :
    place c store header height = .ok (placed c store header height) := by
  rw [place, c.blockHash_eq]
  rfl

/-- A header stored on top of a history that is known reaches a state. -/
theorem reached_placed {store : Store} {headers : List Header}
    (h : store.history = latest (blocks c start headers)) (header : Header) :
    Reached c start (headers ++ [header])
      (placed c store header (heightAt start headers.length)) := by
  refine ⟨?_, ?_⟩
  · rw [blocks_concat, List.getLast?_concat]
    rfl
  · rw [blocks_concat]
    exact history_insert h _

/-- The first header alone is stored at the height where the run starts. -/
theorem reached_first (c : ChainParams) (start : UInt32) (header : Header) :
    Reached c start [header] (placed c Store.empty header start) := by
  have hempty : Store.empty.history = latest (blocks c start []) := funext Store.get?_empty
  have hfirst := reached_placed hempty header
  rwa [List.length_nil, heightAt_zero] at hfirst

/-- A reached state has at least one header, and its tip is at the height of the last. -/
theorem Reached.tip_height {headers : List Header} {run : HeaderRun}
    (h : Reached c start headers run) :
    nextHeight run.tip.height = heightAt start headers.length := by
  have htip := h.tip
  rcases headers.eq_nil_or_concat with rfl | ⟨earlier, last, rfl⟩
  · exact nomatch htip
  · rw [List.concat_eq_append, blocks_concat, List.getLast?_concat, Option.some.injEq] at htip
    rw [← htip, blockAt, nextHeight_heightAt, List.length_concat]

/-- Storing the next header leads on. -/
theorem Reached.insert {headers : List Header} {run : HeaderRun} (h : Reached c start headers run)
    (header : Header) :
    Reached c start (headers ++ [header])
      (placed c run.store header (nextHeight run.tip.height)) := by
  rw [h.tip_height]
  exact reached_placed h.history header

end

end HeaderRun

end HeaderRules
