import HeaderRules.Store
import Mathlib.Data.Finset.Card

/-!
# The changes of a store

A store is changed by putting blocks in and taking identities out. Which block it holds under an
identity is told by the changes alone: the one that the last change under this identity put in. That
is `LastPut`, which says nothing of tables or of states. One change moves the held blocks and the
last put blocks in step (`Holds.change`), so they agree after every sequence of changes
(`Holds.after`), and a store collected from blocks is that of putting them in one after the other
(`ofList_eq_after`). That a found block has the identity it was looked up by, which every walk back
through the history relies on, is a consequence.
-/

namespace HeaderRules.Store

variable {s : Store} {changes later : List Change} {hash : BlockHash} {b : StoredBlock}

/-! ## Changes -/

/-- A change of a store. -/
inductive Change where
  /-- A block is stored under its identity. -/
  | put (b : StoredBlock)
  /-- The block under an identity is removed. -/
  | take (hash : BlockHash)
deriving DecidableEq, Repr

/-- The identity under which a change stores or removes a block. -/
def Change.identity : Change → BlockHash
  | put b => b.hash
  | take hash => hash

/-- The block that is found under the identity of a change once it is made. -/
def Change.block? : Change → Option StoredBlock
  | put b => some b
  | take _ => none

/-- Makes a change, and hands back the block that it replaces or removes. -/
def change (s : Store) : Change → Option StoredBlock × Store
  | .put b => s.put b
  | .take hash => s.take hash

/-- The store after some changes. -/
def after (s : Store) (changes : List Change) : Store :=
  changes.foldl (fun s c => (s.change c).2) s

/-- A change reaches one identity and leaves the blocks under all others. -/
theorem get?_change (s : Store) (c : Change) (hash : BlockHash) :
    (s.change c).2.get? hash = if hash = c.identity then c.block? else s.get? hash := by
  cases c with
  | put b => exact get?_insert s b hash
  | take h => exact get?_erase s h hash

/-- A change hands back what was found under its identity. -/
theorem fst_change (s : Store) (c : Change) : (s.change c).1 = s.get? c.identity := by
  cases c <;> rfl

/-! ## The last block put in -/

/-- The last of the changes under an identity puts the block in. -/
def LastPut (changes : List Change) (hash : BlockHash) (b : StoredBlock) : Prop :=
  ∃ before after, changes = before ++ .put b :: after ∧ b.hash = hash ∧
    ∀ c ∈ after, c.identity ≠ hash

theorem not_lastPut_nil : ¬LastPut [] hash b := by
  rintro ⟨before, after, h, -⟩
  exact List.append_ne_nil_of_right_ne_nil before (List.cons_ne_nil _ after) h.symm

theorem LastPut.hash_eq (h : LastPut changes hash b) : b.hash = hash := by
  obtain ⟨-, -, -, hhash, -⟩ := h
  exact hhash

/-- One more change decides for its identity and for no other. -/
theorem lastPut_concat_iff (changes : List Change) (c : Change) (hash : BlockHash)
    (b : StoredBlock) :
    LastPut (changes ++ [c]) hash b ↔
      if hash = c.identity then c.block? = some b else LastPut changes hash b := by
  constructor
  · rintro ⟨before, after, h, hhash, hafter⟩
    rcases after.eq_nil_or_concat with rfl | ⟨rest, d, rfl⟩
    · obtain ⟨-, hlast⟩ := List.append_inj' h rfl
      obtain rfl := List.singleton_inj.1 hlast
      exact (if_pos hhash.symm).mpr rfl
    · rw [List.concat_eq_append, ← List.cons_append, ← List.append_assoc] at h
      obtain ⟨rfl, hlast⟩ := List.append_inj' h rfl
      obtain rfl := List.singleton_inj.1 hlast
      rw [List.concat_eq_append, List.forall_mem_append] at hafter
      rw [if_neg (hafter.2 c List.mem_cons_self).symm]
      exact ⟨before, rest, rfl, hhash, hafter.1⟩
  · split_ifs with hc
    · intro hblock
      cases c with
      | put d =>
        obtain rfl := Option.some.inj hblock
        exact ⟨changes, [], rfl, hc.symm, nofun⟩
      | take h => exact nomatch hblock
    · rintro ⟨before, after, rfl, hhash, hafter⟩
      refine ⟨before, after ++ [c], by rw [List.append_assoc]; rfl, hhash, ?_⟩
      exact List.forall_mem_append.2 ⟨hafter, by simpa using Ne.symm hc⟩

/-- The store holds under every identity the block that the changes put in last. -/
def Holds (changes : List Change) (s : Store) : Prop :=
  ∀ hash b, s.get? hash = some b ↔ LastPut changes hash b

theorem holds_nil : Holds [] empty := by
  intro hash b
  rw [get?_empty]
  exact iff_of_false nofun not_lastPut_nil

theorem Holds.change (h : Holds changes s) (c : Change) :
    Holds (changes ++ [c]) (s.change c).2 := by
  intro hash b
  rw [get?_change, lastPut_concat_iff]
  split_ifs
  · exact Iff.rfl
  · exact h hash b

theorem Holds.after (h : Holds changes s) (later : List Change) :
    Holds (changes ++ later) (s.after later) := by
  induction later generalizing changes s with
  | nil => rwa [List.append_nil]
  | cons c later ih =>
    have hrest := ih (h.change c)
    rwa [List.append_assoc] at hrest

/-! ## Collected blocks -/

/-- Blocks are collected as they are put in one after the other. -/
theorem ofList_eq_after (blocks : List StoredBlock) :
    ofList blocks = empty.after (blocks.map .put) := by
  have hmany : ∀ s : Store, mk (s.blocks.insertMany (blocks.map fun b => (b.hash, b))) =
      s.after (blocks.map .put) := by
    induction blocks with
    | nil => exact fun s => rfl
    | cons b blocks ih =>
      intro s
      rw [List.map_cons, Std.HashMap.insertMany_cons]
      exact ih (s.insert b)
  rw [← hmany, ofList, Std.HashMap.ofList_eq_insertMany_empty]
  rfl

theorem holds_after_ofList (blocks : List StoredBlock) (changes : List Change) :
    Holds (blocks.map .put ++ changes) ((ofList blocks).after changes) := by
  rw [ofList_eq_after]
  exact (holds_nil.after (blocks.map .put)).after changes

/-! ## What is present -/

/-- The size of a store is the number of identities under which a block is found. -/
theorem exists_keys (s : Store) :
    ∃ keys : Finset BlockHash, (∀ hash, hash ∈ keys ↔ s.contains hash = true) ∧
      s.size = keys.card := by
  refine ⟨⟨s.blocks.keys, Std.HashMap.nodup_keys⟩, fun hash => ?_, ?_⟩
  · exact Std.HashMap.mem_keys
  · exact Std.HashMap.length_keys.symm

theorem isEmpty_iff (s : Store) : s.isEmpty = true ↔ s.size = 0 := by
  rw [isEmpty, Std.HashMap.isEmpty_eq_size_eq_zero, beq_iff_eq]
  rfl

/-- A store is a finite map from identities to blocks. After any changes to a store collected from
blocks, the empty one among them, a block is found under an identity exactly if the last change
there put it in, where collected blocks count as put in in their order; a found block has the
identity it is looked up by. The size is the number of identities present. Each further change hands
back what was found under its identity just before, and changes nothing under any other. -/
theorem store_is_finite_map :
    ofList [] = empty ∧ ∀ (blocks : List StoredBlock) (changes : List Change),
    ∃ s : Store, s = (ofList blocks).after changes ∧
      (∀ hash b, s.get? hash = some b ↔ LastPut (blocks.map .put ++ changes) hash b) ∧
      (∀ hash b, s.get? hash = some b → b.hash = hash) ∧
      (∀ hash, s.contains hash = true ↔ (s.get? hash).isSome = true) ∧
      (∃ keys : Finset BlockHash, (∀ hash, hash ∈ keys ↔ s.contains hash = true) ∧
        s.size = keys.card) ∧
      (s.isEmpty = true ↔ s.size = 0) ∧
      ∀ c : Change, (s.change c).1 = s.get? c.identity ∧
        ∀ hash, hash ≠ c.identity → (s.change c).2.get? hash = s.get? hash := by
  refine ⟨ofList_eq_after [], fun blocks changes => ?_⟩
  have h := holds_after_ofList blocks changes
  refine ⟨_, rfl, h, fun hash b hb => ((h hash b).1 hb).hash_eq, fun hash => ?_, exists_keys _,
    isEmpty_iff _, fun c => ⟨fst_change _ c, fun hash hne => ?_⟩⟩
  · rw [contains_eq_isSome]
  · rw [get?_change, if_neg hne]

end HeaderRules.Store
