import Mathlib.Data.Finset.Card
import Mathlib.Data.List.Nodup
import Mathlib.Logic.Function.Basic

/-!
# Two-level maps

A root that names nodes, and nodes that hold entries; an entry reads as 0 where the root
names no node. To store an entry where there is no node attaches a new one, whose entries
are 0. New nodes are numbered by a counter, so as long as the nodes of the root are
different and below the counter, storing entries changes the entries stored and no others.
-/

namespace FosKernel

universe u v w

/-- The nodes of a root, their entries, and the number of the next node. -/
structure TwoLevelMap (ι : Type u) (κ : Type v) (ε : Type w) where
  root : ι → Option Nat
  node : Nat → κ → ε
  next : Nat

namespace TwoLevelMap

variable {ι : Type u} {κ : Type v} {ε : Type w}

/-- The nodes of the root are different ones below the counter. -/
structure Sound (map : TwoLevelMap ι κ ε) : Prop where
  separate : ∀ {first second number}, map.root first = some number →
    map.root second = some number → first = second
  below : ∀ {index number}, map.root index = some number → number < map.next

variable [Zero ε]

/-- The entry of two keys. -/
def lookup (map : TwoLevelMap ι κ ε) (index : ι) (key : κ) : ε :=
  match map.root index with
  | none => 0
  | some number => map.node number key

theorem lookup_of_node {map : TwoLevelMap ι κ ε} {index : ι} {key : κ} {number : Nat}
    (held : map.root index = some number) :
    map.lookup index key = map.node number key := by
  rw [lookup, held]

theorem lookup_of_missing {map : TwoLevelMap ι κ ε} {index : ι} {key : κ}
    (missing : map.root index = none) : map.lookup index key = 0 := by
  rw [lookup, missing]

variable [DecidableEq ι]

/-- Attach a new node where the root names none. -/
def attach (map : TwoLevelMap ι κ ε) (index : ι) : TwoLevelMap ι κ ε :=
  match map.root index with
  | some _ => map
  | none =>
      { root := Function.update map.root index (some map.next)
        node := Function.update map.node map.next fun _ => 0
        next := map.next + 1 }

/-- How many of the given indices have no node. -/
def missing (map : TwoLevelMap ι κ ε) (indices : List ι) : Nat :=
  (indices.toFinset.filter fun index => map.root index = none).card

variable [DecidableEq κ]

/-- Change an entry of a node. -/
def write (map : TwoLevelMap ι κ ε) (index : ι) (key : κ) (entry : ε) :
    TwoLevelMap ι κ ε :=
  match map.root index with
  | none => map
  | some number =>
      { map with
        node := Function.update map.node number (Function.update (map.node number) key entry) }

/-- Store an entry, in a new node where there is none. -/
def store (map : TwoLevelMap ι κ ε) (index : ι) (key : κ) (entry : ε) :
    TwoLevelMap ι κ ε :=
  (map.attach index).write index key entry

/-- Store entries one after the other. -/
def storeAll (map : TwoLevelMap ι κ ε) : List (ι × κ × ε) → TwoLevelMap ι κ ε
  | [] => map
  | (index, key, entry) :: entries => (map.store index key entry).storeAll entries

section Attach

omit [DecidableEq κ]

variable {map : TwoLevelMap ι κ ε} {index other : ι} {key : κ} {indices : List ι}

theorem attach_of_node {number : Nat} (held : map.root index = some number) :
    map.attach index = map := by
  rw [attach, held]

/-- Attaching names the next node where there was none. -/
theorem attach_root (map : TwoLevelMap ι κ ε) (index other : ι) :
    (map.attach index).root other =
      if other = index ∧ map.root index = none then some map.next else map.root other := by
  cases held : map.root index with
  | some number =>
      rw [attach_of_node held, if_neg fun both => by cases both.2]
  | none =>
      rw [attach, held]
      dsimp only
      by_cases same : other = index
      · rw [same, Function.update_self, if_pos ⟨rfl, rfl⟩]
      · rw [Function.update_of_ne same, if_neg fun both => same both.1]

theorem attach_next (map : TwoLevelMap ι κ ε) (index : ι) :
    (map.attach index).next = if map.root index = none then map.next + 1 else map.next := by
  cases held : map.root index with
  | some number => rw [attach_of_node held, if_neg (fun same => by cases same)]
  | none => rw [attach, held, if_pos rfl]

theorem Sound.attach (sound : map.Sound) (index : ι) : (map.attach index).Sound := by
  cases held : map.root index with
  | some number => rwa [attach_of_node held]
  | none =>
      have root := attach_root map index
      rw [held] at root
      have next : (map.attach index).next = map.next + 1 := by rw [attach_next, if_pos held]
      refine ⟨fun {first second number} here there => ?_, fun {other number} here => ?_⟩
      · rw [root] at here there
        split at here <;> split at there
        · rename_i same same'
          exact same.1.trans same'.1.symm
        · obtain rfl := Option.some.inj here
          exact absurd (sound.below there) (Nat.lt_irrefl _)
        · obtain rfl := Option.some.inj there
          exact absurd (sound.below here) (Nat.lt_irrefl _)
        · exact sound.separate here there
      · rw [root] at here
        rw [next]
        split at here
        · obtain rfl := Option.some.inj here
          exact Nat.lt_succ_self _
        · exact Nat.lt_succ_of_lt (sound.below here)

/-- Attaching changes no entry. -/
theorem Sound.attach_lookup (sound : map.Sound) (index other : ι) (key : κ) :
    (map.attach index).lookup other key = map.lookup other key := by
  cases held : map.root index with
  | some number => rw [attach_of_node held]
  | none =>
      have root := attach_root map index other
      have node : (map.attach index).node = Function.update map.node map.next fun _ => 0 := by
        rw [TwoLevelMap.attach, held]
      rw [held] at root
      by_cases same : other = index
      · subst same
        rw [if_pos ⟨rfl, rfl⟩] at root
        rw [lookup_of_node root, lookup_of_missing held, node, Function.update_self]
      · rw [if_neg fun both => same both.1] at root
        cases here : map.root other with
        | none =>
            rw [here] at root
            rw [lookup_of_missing root, lookup_of_missing here]
        | some number =>
            rw [here] at root
            have different : number ≠ map.next := Nat.ne_of_lt (sound.below here)
            rw [lookup_of_node root, lookup_of_node here, node, Function.update_of_ne different]

/-- Attaching a node uses up one of the missing ones. -/
theorem attach_missing_le (map : TwoLevelMap ι κ ε) (index : ι) (indices : List ι) :
    (map.attach index).next + (map.attach index).missing indices ≤
      map.next + map.missing (index :: indices) := by
  cases held : map.root index with
  | some number =>
      rw [attach_of_node held]
      refine Nat.add_le_add_left (Finset.card_le_card fun other member => ?_) _
      rw [Finset.mem_filter, List.mem_toFinset] at member ⊢
      exact ⟨List.mem_cons_of_mem _ member.1, member.2⟩
  | none =>
      have root := attach_root map index
      rw [held] at root
      have subset : (indices.toFinset.filter fun other => (map.attach index).root other = none) ⊆
          ((index :: indices).toFinset.filter fun other => map.root other = none).erase index := by
        intro other member
        rw [Finset.mem_filter, List.mem_toFinset, root] at member
        obtain ⟨listed, free⟩ := member
        split at free
        · cases free
        · rename_i different
          rw [Finset.mem_erase, Finset.mem_filter, List.mem_toFinset]
          exact ⟨fun same => different ⟨same, rfl⟩, List.mem_cons_of_mem _ listed, free⟩
      have first : index ∈
          (index :: indices).toFinset.filter fun other => map.root other = none := by
        rw [Finset.mem_filter, List.mem_toFinset]
        exact ⟨List.mem_cons_self .., held⟩
      have fewer := Finset.card_le_card subset
      rw [Finset.card_erase_of_mem first] at fewer
      have positive := Finset.card_pos.mpr ⟨index, first⟩
      rw [attach_next, if_pos held]
      unfold missing
      omega

/-- The node of an index after attaching. -/
theorem exists_attach_root (map : TwoLevelMap ι κ ε) (index : ι) :
    ∃ number, (map.attach index).root index = some number := by
  cases held : map.root index with
  | some number => exact ⟨number, by rw [attach_of_node held, held]⟩
  | none => exact ⟨map.next, by rw [attach_root, if_pos ⟨rfl, held⟩]⟩

end Attach

section Write

variable {map : TwoLevelMap ι κ ε} {index other : ι} {key key' : κ} {entry : ε}

omit [Zero ε] [DecidableEq ι] in
theorem write_root (map : TwoLevelMap ι κ ε) (index : ι) (key : κ) (entry : ε) :
    (map.write index key entry).root = map.root := by
  unfold write
  split <;> rfl

omit [Zero ε] [DecidableEq ι] in
theorem write_next (map : TwoLevelMap ι κ ε) (index : ι) (key : κ) (entry : ε) :
    (map.write index key entry).next = map.next := by
  unfold write
  split <;> rfl

omit [Zero ε] [DecidableEq ι] in
theorem Sound.write (sound : map.Sound) (index : ι) (key : κ) (entry : ε) :
    (map.write index key entry).Sound := by
  refine ⟨fun {first second number} here there => ?_, fun {other number} here => ?_⟩
  · rw [write_root] at here there
    exact sound.separate here there
  · rw [write_root] at here
    rw [write_next]
    exact sound.below here

/-- Writing changes one entry. -/
theorem Sound.write_lookup (sound : map.Sound) {number : Nat}
    (held : map.root index = some number) (key : κ) (entry : ε) (other : ι) (key' : κ) :
    (map.write index key entry).lookup other key' =
      if other = index ∧ key' = key then entry else map.lookup other key' := by
  have root := congrFun (write_root map index key entry) other
  have node : (map.write index key entry).node =
      Function.update map.node number (Function.update (map.node number) key entry) := by
    rw [TwoLevelMap.write, held]
  cases here : map.root other with
  | none =>
      have different : other ≠ index := by
        rintro rfl
        rw [here] at held
        cases held
      rw [here] at root
      rw [lookup_of_missing root, lookup_of_missing here, if_neg fun both => different both.1]
  | some number' =>
      rw [here] at root
      rw [lookup_of_node root, lookup_of_node here, node]
      by_cases same : other = index
      · subst same
        obtain rfl := Option.some.inj (held.symm.trans here)
        rw [Function.update_self]
        by_cases equal : key' = key
        · rw [equal, Function.update_self, if_pos ⟨rfl, rfl⟩]
        · rw [Function.update_of_ne equal, if_neg fun both => equal both.2]
      · have different : number' ≠ number := by
          rintro rfl
          exact same (sound.separate here held)
        rw [Function.update_of_ne different, if_neg fun both => same both.1]

end Write

section Store

variable {map : TwoLevelMap ι κ ε} {index other : ι} {key key' : κ} {entry : ε}
  {entries : List (ι × κ × ε)}

theorem store_root (map : TwoLevelMap ι κ ε) (index : ι) (key : κ) (entry : ε) :
    (map.store index key entry).root = (map.attach index).root := write_root ..

theorem store_next (map : TwoLevelMap ι κ ε) (index : ι) (key : κ) (entry : ε) :
    (map.store index key entry).next = (map.attach index).next := write_next ..

theorem Sound.store (sound : map.Sound) (index : ι) (key : κ) (entry : ε) :
    (map.store index key entry).Sound := (sound.attach index).write index key entry

/-- Storing changes one entry. -/
theorem Sound.store_lookup (sound : map.Sound) (index : ι) (key : κ) (entry : ε) (other : ι)
    (key' : κ) : (map.store index key entry).lookup other key' =
      if other = index ∧ key' = key then entry else map.lookup other key' := by
  obtain ⟨number, held⟩ := exists_attach_root map index
  rw [TwoLevelMap.store, (sound.attach index).write_lookup held, sound.attach_lookup]

/-- Keys that are not stored keep their entries. -/
theorem Sound.storeAll_lookup_of_notMem (sound : map.Sound)
    (unlisted : (other, key') ∉ entries.map fun stored => (stored.1, stored.2.1)) :
    (map.storeAll entries).lookup other key' = map.lookup other key' := by
  induction entries generalizing map with
  | nil => rfl
  | cons first entries ih =>
      rw [List.map_cons, List.mem_cons, not_or] at unlisted
      change ((map.store first.1 first.2.1 first.2.2).storeAll entries).lookup other key' = _
      rw [ih (sound.store ..) unlisted.2, sound.store_lookup,
        if_neg fun both => unlisted.1 (Prod.ext both.1 both.2)]

/-- Entries with different keys are all stored. -/
theorem Sound.storeAll_lookup_of_mem (sound : map.Sound)
    (nodup : (entries.map fun stored => (stored.1, stored.2.1)).Nodup)
    (listed : (other, key', entry) ∈ entries) :
    (map.storeAll entries).lookup other key' = entry := by
  induction entries generalizing map with
  | nil => cases listed
  | cons first entries ih =>
      rw [List.map_cons, List.nodup_cons] at nodup
      change ((map.store first.1 first.2.1 first.2.2).storeAll entries).lookup other key' = _
      rcases List.mem_cons.mp listed with rfl | later
      · rw [(sound.store ..).storeAll_lookup_of_notMem nodup.1, sound.store_lookup,
          if_pos ⟨rfl, rfl⟩]
      · exact ih (sound.store ..) nodup.2 later

/-- Nodes stay where they are. -/
theorem storeAll_root_of_node {number : Nat} (held : map.root other = some number) :
    (map.storeAll entries).root other = some number := by
  induction entries generalizing map with
  | nil => exact held
  | cons first entries ih =>
      refine @ih (map.store first.1 first.2.1 first.2.2) ?_
      rw [store_root, attach_root]
      split
      · rename_i both
        rw [both.1, both.2] at held
        cases held
      · exact held

/-- Indices that are not stored get no node. -/
theorem storeAll_root_of_notMem (unlisted : other ∉ entries.map Prod.fst) :
    (map.storeAll entries).root other = map.root other := by
  induction entries generalizing map with
  | nil => rfl
  | cons first entries ih =>
      rw [List.map_cons, List.mem_cons, not_or] at unlisted
      change ((map.store first.1 first.2.1 first.2.2).storeAll entries).root other = _
      rw [ih unlisted.2, store_root, attach_root, if_neg fun both => unlisted.1 both.1]

/-- An index without a node gets a new one. -/
theorem storeAll_root_of_mem (free : map.root other = none)
    (listed : other ∈ entries.map Prod.fst) :
    ∃ number, (map.storeAll entries).root other = some number ∧ map.next ≤ number := by
  induction entries generalizing map with
  | nil => cases listed
  | cons first entries ih =>
      change ∃ number,
        ((map.store first.1 first.2.1 first.2.2).storeAll entries).root other = some number ∧ _
      by_cases same : other = first.1
      · subst same
        refine ⟨map.next, storeAll_root_of_node ?_, Nat.le_refl _⟩
        rw [store_root, attach_root, if_pos ⟨rfl, free⟩]
      · have free' : (map.store first.1 first.2.1 first.2.2).root other = none := by
          rw [store_root, attach_root, if_neg fun both => same both.1, free]
        rw [List.map_cons, List.mem_cons] at listed
        obtain ⟨number, held, le⟩ := ih free' (listed.resolve_left same)
        refine ⟨number, held, Nat.le_trans ?_ le⟩
        rw [store_next, attach_next]
        split <;> omega

/-- Storing entries attaches no more nodes than are missing. -/
theorem storeAll_next_le_missing (map : TwoLevelMap ι κ ε) (entries : List (ι × κ × ε)) :
    (map.storeAll entries).next ≤ map.next + map.missing (entries.map Prod.fst) := by
  induction entries generalizing map with
  | nil => exact Nat.le_add_right ..
  | cons first entries ih =>
      refine Nat.le_trans (ih (map.store first.1 first.2.1 first.2.2)) ?_
      have same : (map.store first.1 first.2.1 first.2.2).missing (entries.map Prod.fst) =
          (map.attach first.1).missing (entries.map Prod.fst) := by
        unfold missing
        rw [store_root]
      rw [store_next, same]
      exact attach_missing_le ..

end Store

end TwoLevelMap

end FosKernel
