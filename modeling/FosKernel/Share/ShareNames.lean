import Mathlib.Data.List.Forall2
import Mathlib.Data.List.Nodup
import Mathlib.Logic.Relation
import FosKernel.Heap.PageBlocks
import FosKernel.Share.SharedMemory

/-!
# Shares are found by their names

What `find_share` finds over runs of `create_shared_object` and
`get_shared_object`. A creation copies at most 63 characters of the name and
does not write the last byte of the field, while a lookup compares the whole
name; so lookups are right exactly as long as every name fits.
-/

namespace FosKernel

/-- A successful call of `create_shared_object`: the owner, the name, and what the name field
of the fresh memory held. -/
structure ShareCreation where
  ownerId : BitVec 32
  name : List UInt8
  contents : List UInt8
  terminated : 0 ∉ name
  sized : contents.length = shareNameLength

namespace ShareCreation

/-- The owner and the name. -/
def key (creation : ShareCreation) : BitVec 32 × List UInt8 := (creation.ownerId, creation.name)

/-- The name fits into its field with a NUL behind it: the one that `strncpy` pads with, or the
one that the last byte of the field held already. -/
def Fits (creation : ShareCreation) : Prop :=
  creation.name.length < shareNameLength - 1 ∨
    creation.name.length = shareNameLength - 1 ∧
      creation.contents[shareNameLength - 1]? = some 0

/-- The share was made by the creation. -/
def Made (share : Share) (creation : ShareCreation) : Prop :=
  share.ownerId = creation.ownerId ∧
    share.name = strncpy creation.contents creation.name (shareNameLength - 1)

end ShareCreation

theorem cString_append_zero {name : List UInt8} (terminated : 0 ∉ name) (rest : List UInt8) :
    cString (name ++ 0 :: rest) = name := by
  unfold cString
  rw [List.takeWhile_append_of_pos]
  · simp
  · intro byte member
    simpa using fun zero : byte = 0 => terminated (zero ▸ member)

theorem cString_append_byte {name : List UInt8} (terminated : 0 ∉ name) {byte : UInt8}
    (nonzero : byte ≠ 0) (rest : List UInt8) :
    cString (name ++ byte :: rest) = name ++ byte :: cString rest := by
  unfold cString
  rw [List.takeWhile_append_of_pos]
  · simp [nonzero]
  · intro other member
    simpa using fun zero : other = 0 => terminated (zero ▸ member)

namespace ShareCreation

/-- The field behind its first 63 bytes is the byte that the fresh memory held. -/
theorem exists_last (creation : ShareCreation) : ∃ byte,
    creation.contents[shareNameLength - 1]? = some byte ∧
      creation.contents.drop (shareNameLength - 1) = [byte] := by
  have sized : creation.contents.length = 64 := creation.sized
  have inside : 63 < creation.contents.length := by omega
  refine ⟨creation.contents[63], List.getElem?_eq_getElem inside, ?_⟩
  change creation.contents.drop 63 = _
  rw [List.drop_eq_getElem_cons inside, List.drop_eq_nil_of_le (by omega)]

/-- A name is read back from its field, whatever lies behind, exactly when it fits. -/
theorem readsBack_iff (creation : ShareCreation) :
    (∀ overrun, cString (strncpy creation.contents creation.name
      (shareNameLength - 1) ++ overrun) =
      creation.name) ↔ creation.Fits := by
  obtain ⟨byte, last, rest⟩ := creation.exists_last
  have terminated := creation.terminated
  unfold strncpy Fits
  rw [rest, last]
  simp only [shareNameLength, Nat.add_one_sub_one, Option.some.injEq]
  constructor
  · intro readsBack
    by_contra unfit
    rw [not_or, not_and] at unfit
    have long : 63 ≤ creation.name.length := by omega
    have truncated : 0 ∉ creation.name.take 63 := fun member =>
      terminated (List.mem_of_mem_take member)
    have field : ∀ overrun, cString (creation.name.take 63 ++ byte :: overrun) =
        creation.name := by
      intro overrun
      have read := readsBack overrun
      rw [Nat.sub_eq_zero_of_le long, List.replicate_zero, List.append_nil, List.append_assoc]
        at read
      exact read
    by_cases zero : byte = 0
    · subst zero
      have cut := field []
      rw [cString_append_zero truncated] at cut
      have lengths := congrArg List.length cut
      rw [List.length_take] at lengths
      exact unfit.2 (by omega) rfl
    · have short := congrArg List.length (field [])
      have longer := congrArg List.length (field [1])
      rw [cString_append_byte truncated zero] at short longer
      simp [cString] at short longer
      omega
  · intro fits overrun
    rcases fits with short | ⟨full, rfl⟩
    · obtain ⟨pad, padded⟩ := Nat.exists_eq_add_of_lt short
      have count : 63 - creation.name.length = pad + 1 := by omega
      rw [List.take_of_length_le (by omega), count, List.replicate_succ]
      simp only [List.append_assoc, List.cons_append]
      exact cString_append_zero terminated _
    · rw [List.take_of_length_le (by omega), full, Nat.sub_self, List.replicate_zero,
        List.append_nil, List.append_assoc]
      exact cString_append_zero terminated _

end ShareCreation

namespace SharedMemory

variable {β : Type} {D : DynAllocator β} {shared after : SharedMemory β}

section Lists

theorem createPageTable_sharesList {directory va : Nat}
    (created : shared.createPageTable D directory va = .ok after) :
    after.sharesList = shared.sharesList := by
  obtain ⟨⟨table, heap⟩, -, rest⟩ := bind_eq_ok.mp created
  dsimp only at rest
  split at rest
  · cases rest
  · exact Except.ok.inj rest ▸ rfl

theorem mapFrame_sharesList {directory frame va : Nat} {perm : Perm}
    (mapped : shared.mapFrame D directory frame va perm = .ok after) :
    after.sharesList = shared.sharesList := by
  obtain ⟨middle, table, rest⟩ := bind_eq_ok.mp mapped
  have same : middle.sharesList = shared.sharesList := by
    unfold ensurePageTable at table
    split at table
    · exact Except.ok.inj table ▸ rfl
    · exact createPageTable_sharesList table
  split at rest
  · cases rest
  · exact (Except.ok.inj rest ▸ rfl : after.sharesList = middle.sharesList).trans same

theorem placeFrames_sharesList {directory pageAddress index count : Nat}
    {framesStorage framesStorage' : List Nat}
    (placed : shared.placeFrames D directory pageAddress framesStorage index count =
      .ok (framesStorage', after)) : after.sharesList = shared.sharesList := by
  induction count generalizing shared pageAddress framesStorage index with
  | zero => exact (Prod.mk.inj (Except.ok.inj placed)).2 ▸ rfl
  | succ count ih =>
      rw [placeFrames] at placed
      split at placed
      · cases placed
      · obtain ⟨middle, mapped, rest⟩ := bind_eq_ok.mp placed
        exact (ih rest).trans (mapFrame_sharesList mapped :)

theorem mapStorage_sharesList {directory va index count : Nat} {perm : Perm}
    {framesStorage : List Nat}
    (mapped : shared.mapStorage D directory va perm framesStorage index count = .ok after) :
    after.sharesList = shared.sharesList := by
  induction count generalizing shared index with
  | zero => exact Except.ok.inj mapped ▸ rfl
  | succ count ih =>
      rw [mapStorage] at mapped
      split at mapped
      · cases mapped
      · obtain ⟨middle, first, rest⟩ := bind_eq_ok.mp mapped
        exact (ih rest).trans (mapFrame_sharesList first)

end Lists

/-- A share that was allocated has the owner and the copied name. -/
theorem allocShare_fields {heap heap' : KHeap β} {contents : List UInt8} {ownerId : BitVec 32}
    {shareName : List UInt8} {size : Nat} {isWritable : UInt8} {share : Share}
    (allocated : allocShare D heap contents ownerId shareName size isWritable =
      .ok (some share, heap')) :
    share.ownerId = ownerId ∧
      share.name = strncpy contents shareName (shareNameLength - 1) := by
  obtain ⟨⟨va, first⟩, -, rest⟩ := bind_eq_ok.mp allocated
  dsimp only at rest
  split at rest
  · cases rest
  · obtain ⟨⟨storage, second⟩, -, last⟩ := bind_eq_ok.mp rest
    cases storage with
    | none =>
        obtain ⟨third, -, returned⟩ := bind_eq_ok.mp last
        cases returned
    | some framesStorage =>
        obtain ⟨same, -⟩ := Prod.mk.inj (Except.ok.inj last)
        obtain rfl := Option.some.inj same
        exact ⟨rfl, rfl⟩

/-- `create_shared_object` refuses a name that it finds and keeps the state, fails without a new
share, or adds one with the owner and the copied name at the end of the list. -/
theorem createSharedObject_cases {overrun : Nat → List UInt8} {contents : List UInt8}
    {directory : Nat} {ownerId : BitVec 32} {shareName : List UInt8} {size : Nat}
    {isWritable : UInt8} {va : Nat} {result : Int}
    (returned : shared.createSharedObject D overrun contents directory ownerId shareName size
      isWritable va = .ok (result, after)) :
    result < 0 ∧ after.sharesList = shared.sharesList ∨
      0 ≤ result ∧ shared.findShare overrun ownerId shareName = none ∧
        ∃ share, after.sharesList = shared.sharesList ++ [share] ∧ share.ownerId = ownerId ∧
          share.name = strncpy contents shareName (shareNameLength - 1) := by
  unfold createSharedObject at returned
  split at returned
  · obtain ⟨rfl, rfl⟩ := Prod.mk.inj (Except.ok.inj returned)
    exact .inl ⟨by decide, rfl⟩
  · rename_i absent
    obtain ⟨⟨share, heap⟩, allocated, rest⟩ := bind_eq_ok.mp returned
    dsimp only at rest
    cases share with
    | none =>
        obtain ⟨rfl, rfl⟩ := Prod.mk.inj (Except.ok.inj rest)
        exact .inl ⟨by decide, rfl⟩
    | some share =>
        obtain ⟨⟨framesStorage, placed⟩, stored, last⟩ := bind_eq_ok.mp rest
        obtain ⟨rfl, rfl⟩ := Prod.mk.inj (Except.ok.inj last)
        have same := placeFrames_sharesList stored
        obtain ⟨owner, name⟩ := allocShare_fields allocated
        refine .inr ⟨Int.natCast_nonneg _, by simpa using absent,
          { share with framesStorage := framesStorage }, ?_, owner, name⟩
        exact congrArg (· ++ [{ share with framesStorage := framesStorage }]) same

/-- `get_shared_object` changes a share it finds in its references only. -/
theorem getSharedObject_cases {overrun : Nat → List UInt8} {directory : Nat}
    {ownerId : BitVec 32} {shareName : List UInt8} {va : Nat} {result : Int}
    (returned : shared.getSharedObject D overrun directory ownerId shareName va =
      .ok (result, after)) :
    after.sharesList = shared.sharesList ∨
      ∃ index share, shared.findShare overrun ownerId shareName = some index ∧
        shared.sharesList[index]? = some share ∧ result = share.id ∧
          after.sharesList = shared.sharesList.modify index fun share =>
            { share with references := add32 share.references 1 } := by
  unfold getSharedObject at returned
  split at returned
  · obtain ⟨-, rfl⟩ := Prod.mk.inj (Except.ok.inj returned)
    exact .inl rfl
  · rename_i index found
    split at returned
    · obtain ⟨-, rfl⟩ := Prod.mk.inj (Except.ok.inj returned)
      exact .inl rfl
    · rename_i share listed
      obtain ⟨middle, mapped, rest⟩ := bind_eq_ok.mp returned
      obtain ⟨rfl, rfl⟩ := Prod.mk.inj (Except.ok.inj rest)
      refine .inr ⟨index, share, found, listed, rfl, ?_⟩
      dsimp only
      rw [mapStorage_sharesList mapped]

theorem findShareFrom_ne_of_lt {overrun : Nat → List UInt8} {ownerId : BitVec 32}
    {name : List UInt8} {shares : List Share} {index start : Nat} (before : index < start) :
    findShareFrom overrun ownerId name shares start ≠ some index := by
  induction shares generalizing start with
  | nil => simp [findShareFrom]
  | cons share shares ih =>
      unfold findShareFrom
      split
      · intro found
        have same := Option.some.inj found
        omega
      · exact ih (Nat.lt_succ_of_lt before)

/-- With names that fit, a lookup in the list finds the share made by the creation with that
owner and that name, if there is one. -/
theorem findShareFrom_iff {shares : List Share} {created : List ShareCreation}
    (made : List.Forall₂ ShareCreation.Made shares created)
    (fit : ∀ creation ∈ created, creation.Fits)
    (distinct : (created.map ShareCreation.key).Nodup)
    (overrun : Nat → List UInt8) (ownerId : BitVec 32) (name : List UInt8) {index : Nat} :
    ∀ {start : Nat}, findShareFrom overrun ownerId name shares start = some (start + index) ↔
      ∃ creation, created[index]? = some creation ∧ creation.key = (ownerId, name) := by
  induction made generalizing index with
  | nil => simp [findShareFrom]
  | @cons share creation shares created own others ih =>
      intro start
      obtain ⟨owner, field⟩ := own
      have readsBack := creation.readsBack_iff.mpr (fit creation (List.mem_cons_self ..))
      have fit' := fun creation member => fit creation (List.mem_cons_of_mem _ member)
      have later := fun index => @ih fit' (List.nodup_cons.mp distinct).2 index (start + 1)
      have absent := (List.nodup_cons.mp distinct).1
      have test : (share.ownerId = ownerId ∧ name = cString (share.name ++ overrun start)) ↔
          creation.key = (ownerId, name) := by
        rw [owner, field, readsBack, ShareCreation.key, Prod.mk.injEq]
        exact and_congr_right fun _ => eq_comm
      unfold findShareFrom
      by_cases same : creation.key = (ownerId, name)
      · rw [if_pos (test.mpr same)]
        constructor
        · intro first
          have zero : index = 0 := by simpa using (Option.some.inj first).symm
          exact ⟨creation, by rw [zero]; rfl, same⟩
        · intro ⟨other, listed, named⟩
          cases index with
          | zero => rfl
          | succ index =>
              have member : other ∈ created :=
                List.mem_of_getElem? (List.getElem?_cons_succ.symm.trans listed)
              exact absurd (List.mem_map.mpr ⟨other, member, named.trans same.symm⟩) absent
      · rw [if_neg (mt test.mp same)]
        cases index with
        | zero =>
            constructor
            · intro found
              exact absurd found (findShareFrom_ne_of_lt (Nat.lt_succ_self start))
            · intro ⟨other, listed, named⟩
              obtain rfl : creation = other := by simpa using listed
              exact absurd named same
        | succ index =>
            have shifted := later index
            rw [Nat.add_right_comm, Nat.add_assoc] at shifted
            exact shifted

/-- A share that a lookup finds has a field that reads back as the name looked for. -/
theorem readsBack_of_findShareFrom {overrun : List UInt8} {ownerId : BitVec 32}
    {name : List UInt8} {shares : List Share} {created : List ShareCreation}
    (made : List.Forall₂ ShareCreation.Made shares created) {creation : ShareCreation}
    {index start : Nat}
    (found : findShareFrom (fun _ => overrun) ownerId name shares start = some (start + index))
    (listed : created[index]? = some creation) :
    cString (strncpy creation.contents creation.name (shareNameLength - 1) ++ overrun) = name := by
  induction made generalizing index start with
  | nil => simp at listed
  | @cons share first shares created own others ih =>
      unfold findShareFrom at found
      split at found
      · rename_i test
        have zero : index = 0 := by simpa using (Option.some.inj found).symm
        subst zero
        obtain rfl : first = creation := by simpa using listed
        exact own.2 ▸ test.2.symm
      · cases index with
        | zero => exact absurd found (findShareFrom_ne_of_lt (Nat.lt_succ_self start))
        | succ index =>
            refine @ih index (start + 1) ?_ (by simpa using listed)
            rwa [Nat.add_right_comm, Nat.add_assoc]

end SharedMemory

/-- The shared memory with the successful creations, in the order of the list of shares. -/
structure ShareHistory (β : Type) where
  shared : SharedMemory β
  created : List ShareCreation

namespace ShareHistory

variable {β : Type} {D : DynAllocator β} {history next : ShareHistory β}

/-- One call, with whatever lies behind the name fields, or anything that the rest of the kernel
does to its heap and its page tables. -/
inductive Move (D : DynAllocator β) (history : ShareHistory β) : ShareHistory β → Prop where
  | create {overrun : Nat → List UInt8} {creation : ShareCreation} {directory size : Nat}
      {isWritable : UInt8} {va : Nat} {result : Int} {after : SharedMemory β}
      (returned : history.shared.createSharedObject D overrun creation.contents directory
        creation.ownerId creation.name size isWritable va = .ok (result, after)) :
      Move D history ⟨after, if 0 ≤ result then history.created ++ [creation]
        else history.created⟩
  | get {overrun : Nat → List UInt8} {directory : Nat} {ownerId : BitVec 32}
      {shareName : List UInt8} {va : Nat} {result : Int} {after : SharedMemory β}
      (returned : history.shared.getSharedObject D overrun directory ownerId shareName va =
        .ok (result, after)) : Move D history ⟨after, history.created⟩
  | kernel (heap : KHeap β) (nextTable : Nat) :
      Move D history ⟨⟨heap, nextTable, history.shared.sharesList⟩, history.created⟩

/-- The histories reached from an empty list of shares. -/
def Run (D : DynAllocator β) (history : ShareHistory β) : Prop :=
  ∃ start : SharedMemory β, start.sharesList = [] ∧
    Relation.ReflTransGen (Move D) ⟨start, []⟩ history

/-- What the names of shares are for. No two creations succeed for one owner and name; a lookup
finds the share made by the creation with that owner and name, if there is one; so another
creation is refused without any effect, a query returns the size of that share, and
`get_shared_object` maps that share. -/
structure NamesResolve (D : DynAllocator β) (history : ShareHistory β) : Prop where
  distinct : (history.created.map ShareCreation.key).Nodup
  finds : ∀ overrun ownerId name index,
    history.shared.findShare overrun ownerId name = some index ↔
    ∃ creation, history.created[index]? = some creation ∧ creation.key = (ownerId, name)
  refuses : ∀ creation ∈ history.created, ∀ overrun contents directory size isWritable va,
    history.shared.createSharedObject D overrun contents directory creation.ownerId creation.name
      size isWritable va = .ok (eSharedMemExists, history.shared)
  sizes : ∀ (index : Nat) (creation : ShareCreation) (share : Share),
    history.created[index]? = some creation →
    history.shared.sharesList[index]? = some share → ∀ overrun,
      history.shared.sizeOfSharedObject overrun creation.ownerId creation.name =
        toInt32 share.size
  gets : ∀ (index : Nat) (creation : ShareCreation) (share : Share),
    history.created[index]? = some creation →
    history.shared.sharesList[index]? = some share → ∀ overrun directory va result after,
      history.shared.getSharedObject D overrun directory creation.ownerId creation.name va =
        .ok (result, after) →
          result = share.id ∧ after.sharesList = history.shared.sharesList.modify index
            fun share => { share with references := add32 share.references 1 }

theorem forall₂_modify {α γ : Type} {related : α → γ → Prop} {change : α → α}
    (keeps : ∀ left right, related left right → related (change left) right) {lefts : List α}
    {rights : List γ} (all : List.Forall₂ related lefts rights) (index : Nat) :
    List.Forall₂ related (lefts.modify index change) rights := by
  induction all generalizing index with
  | nil => simp
  | cons own others ih =>
      cases index with
      | zero => exact .cons (keeps _ _ own) others
      | succ index => exact .cons own (ih index)

/-- Counting a reference keeps every share with its creation. -/
theorem made_modify {shares : List Share} {created : List ShareCreation}
    (made : List.Forall₂ ShareCreation.Made shares created) (index : Nat) :
    List.Forall₂ ShareCreation.Made (shares.modify index fun share =>
      { share with references := add32 share.references 1 }) created := by
  refine forall₂_modify ?_ made index
  exact fun _ _ own => own

/-- The list holds the shares of the successful creations, in order. -/
theorem Move.made (step : Move D history next)
    (made : List.Forall₂ ShareCreation.Made history.shared.sharesList history.created) :
    List.Forall₂ ShareCreation.Made next.shared.sharesList next.created := by
  cases step with
  | create returned =>
      rcases SharedMemory.createSharedObject_cases returned with
        ⟨negative, same⟩ | ⟨succeeded, -, share, added, owner, name⟩
      · rw [if_neg (Int.not_le.mpr negative)]
        dsimp only
        rwa [same]
      · rw [if_pos succeeded]
        dsimp only
        rw [added]
        exact List.rel_append made (.cons ⟨owner, name⟩ .nil)
  | get returned =>
      dsimp only
      rcases SharedMemory.getSharedObject_cases returned with same | ⟨index, _, _, _, _, same⟩
      · rwa [same]
      · rw [same]
        exact made_modify made index
  | kernel heap nextTable => exact made

theorem made_of_run (run : history.Run D) :
    List.Forall₂ ShareCreation.Made history.shared.sharesList history.created := by
  obtain ⟨start, empty, run⟩ := run
  induction run with
  | refl => exact empty ▸ .nil
  | tail _ step ih => exact step.made ih

/-- As long as the names fit, no two creations succeed for one owner and name. -/
theorem Move.distinct (step : Move D history next)
    (made : List.Forall₂ ShareCreation.Made history.shared.sharesList history.created)
    (before : (∀ creation ∈ history.created, creation.Fits) →
      (history.created.map ShareCreation.key).Nodup)
    (fit : ∀ creation ∈ next.created, creation.Fits) :
    (next.created.map ShareCreation.key).Nodup := by
  cases step with
  | @create overrun creation _ _ _ _ _ _ returned =>
      rcases SharedMemory.createSharedObject_cases returned with
        ⟨negative, -⟩ | ⟨succeeded, absent, -⟩
      · rw [if_neg (Int.not_le.mpr negative)] at fit ⊢
        exact before fit
      · rw [if_pos succeeded] at fit ⊢
        have older := fun creation member => fit creation (List.mem_append_left _ member)
        rw [List.map_append]
        refine List.Nodup.append (before older) (List.nodup_singleton _) fun key old new => ?_
        obtain ⟨other, member, named⟩ := List.mem_map.mp old
        obtain ⟨index, listed⟩ := List.mem_iff_getElem?.mp member
        have same : other.key = creation.key := named.trans (List.mem_singleton.mp new)
        have found : SharedMemory.findShareFrom overrun creation.ownerId creation.name _ 0 =
            some (0 + index) :=
          (SharedMemory.findShareFrom_iff made older (before older) overrun ..).mpr
            ⟨other, listed, same⟩
        rw [Nat.zero_add] at found
        exact absurd (absent.symm.trans found) (by simp)
  | get returned => exact before fit
  | kernel heap nextTable => exact before fit

theorem distinct_of_run (run : history.Run D)
    (fit : ∀ creation ∈ history.created, creation.Fits) :
    (history.created.map ShareCreation.key).Nodup := by
  obtain ⟨start, empty, run⟩ := run
  induction run with
  | refl => exact List.nodup_nil
  | tail earlier step ih =>
      exact step.distinct (made_of_run ⟨start, empty, earlier⟩) ih fit

/-- A lookup that finds what was created makes the three calls right. -/
theorem NamesResolve.of_finds
    (distinct : (history.created.map ShareCreation.key).Nodup)
    (finds : ∀ overrun ownerId name index,
      history.shared.findShare overrun ownerId name = some index ↔
        ∃ creation, history.created[index]? = some creation ∧ creation.key = (ownerId, name)) :
    history.NamesResolve D where
  distinct := distinct
  finds := finds
  refuses creation member overrun contents directory size isWritable va := by
    obtain ⟨index, listed⟩ := List.mem_iff_getElem?.mp member
    have found := (finds overrun creation.ownerId creation.name index).mpr
      ⟨creation, listed, rfl⟩
    unfold SharedMemory.createSharedObject
    rw [if_pos (by rw [found]; rfl)]
  sizes index creation share listed stored overrun := by
    have found := (finds overrun creation.ownerId creation.name index).mpr
      ⟨creation, listed, rfl⟩
    unfold SharedMemory.sizeOfSharedObject
    rw [found]
    dsimp only
    rw [stored]
  gets index creation share listed stored overrun directory va result after returned := by
    have found := (finds overrun creation.ownerId creation.name index).mpr
      ⟨creation, listed, rfl⟩
    unfold SharedMemory.getSharedObject at returned
    rw [found] at returned
    dsimp only at returned
    rw [stored] at returned
    obtain ⟨middle, mapped, rest⟩ := bind_eq_ok.mp returned
    obtain ⟨rfl, rfl⟩ := Prod.mk.inj (Except.ok.inj rest)
    refine ⟨rfl, ?_⟩
    dsimp only
    rw [SharedMemory.mapStorage_sharesList mapped]

/-- **Shares are found by their names exactly as long as the names fit.** In every state of every
run, the names resolve if and only if every share was created with a name that fits into its
field with a NUL behind it. -/
theorem namesResolve_iff_of_run (run : history.Run D) :
    history.NamesResolve D ↔ ∀ creation ∈ history.created, creation.Fits := by
  have made := made_of_run run
  constructor
  · intro resolve creation member
    obtain ⟨index, listed⟩ := List.mem_iff_getElem?.mp member
    refine creation.readsBack_iff.mp fun overrun => ?_
    have found := (resolve.finds (fun _ => overrun) creation.ownerId creation.name index).mpr
      ⟨creation, listed, rfl⟩
    exact SharedMemory.readsBack_of_findShareFrom made (by rwa [Nat.zero_add]) listed
  · intro fit
    have distinct := distinct_of_run run fit
    refine .of_finds distinct fun overrun ownerId name index => ?_
    have found := @SharedMemory.findShareFrom_iff _ _ made fit distinct overrun ownerId name index 0
    rwa [Nat.zero_add] at found

/-- The shared memory of a blank machine. -/
def blankShared : SharedMemory (List Nat) := ⟨PageBlocks.blankHeap, 1024, []⟩

/-- The result of a first creation, of an object of one page at the start of the user heap. -/
def firstResult (creation : ShareCreation) : Except Halt Int :=
  (blankShared.createSharedObject PageBlocks.allocator (fun _ => []) creation.contents 1
    creation.ownerId creation.name pageSize 1 userHeapStart).map Prod.fst

theorem exists_run_of_firstResult {creation : ShareCreation} {result : Nat}
    (returned : firstResult creation = .ok (result : Int)) : ∃ after : SharedMemory (List Nat),
      Run PageBlocks.allocator ⟨after, [creation]⟩ := by
  unfold firstResult at returned
  cases called : blankShared.createSharedObject PageBlocks.allocator (fun _ => [])
      creation.contents 1 creation.ownerId creation.name pageSize 1 userHeapStart with
  | error halt =>
      rw [called] at returned
      cases returned
  | ok value =>
      obtain ⟨value, after⟩ := value
      rw [called] at returned
      obtain rfl : value = result := Except.ok.inj returned
      have step := @Move.create _ PageBlocks.allocator ⟨blankShared, []⟩ _ _ _ _ _ _ _ _ called
      rw [if_pos (Int.natCast_nonneg _)] at step
      exact ⟨after, blankShared, rfl, .single step⟩

/-- A name of 64 characters in a field that held zeros, and a name of one. -/
def longCreation : ShareCreation where
  ownerId := 2048
  name := List.replicate 64 97
  contents := List.replicate 64 0
  terminated := by decide
  sized := by decide

def shortCreation : ShareCreation where
  ownerId := 2048
  name := [97]
  contents := List.replicate 64 0
  terminated := by decide
  sized := by decide

/-- A share created with a name of 64 characters is not found under that name. -/
theorem longName_notExists : ∃ history : ShareHistory (List Nat),
    history.Run PageBlocks.allocator ∧ longCreation ∈ history.created ∧
      ∀ overrun, history.shared.sizeOfSharedObject overrun longCreation.ownerId
        longCreation.name = eSharedMemNotExists := by
  have returned : firstResult longCreation =
      .ok ((kernelHeapStart + 8191 * pageSize) % 2 ^ 28 : Nat) := by decide +kernel
  obtain ⟨after, run⟩ := exists_run_of_firstResult returned
  refine ⟨_, run, List.mem_singleton_self _, fun overrun => ?_⟩
  obtain ⟨share, rest, ⟨owner, field⟩, others, listed⟩ :=
    List.forall₂_cons_right_iff.mp (made_of_run run)
  obtain rfl := List.forall₂_nil_right_iff.mp others
  have truncated : cString (share.name ++ overrun 0) = List.replicate 63 97 := by
    have name : (0 : UInt8) ∉ List.replicate 63 97 := by decide
    rw [field]
    exact cString_append_zero name (overrun 0)
  have absent : after.findShare overrun longCreation.ownerId longCreation.name = none := by
    unfold SharedMemory.findShare
    rw [show after.sharesList = [share] from listed]
    unfold SharedMemory.findShareFrom
    rw [truncated, if_neg fun same => absurd same.2 (by decide)]
    rfl
  unfold SharedMemory.sizeOfSharedObject
  rw [absent]

/-- The theorem after a creation with a short name. -/
theorem namesResolve_iff_of_run_short : ∃ history : ShareHistory (List Nat),
    history.Run PageBlocks.allocator ∧ shortCreation ∈ history.created ∧
      history.NamesResolve PageBlocks.allocator := by
  have returned : firstResult shortCreation =
      .ok ((kernelHeapStart + 8191 * pageSize) % 2 ^ 28 : Nat) := by decide +kernel
  obtain ⟨after, run⟩ := exists_run_of_firstResult returned
  refine ⟨_, run, List.mem_singleton_self _, (namesResolve_iff_of_run run).mpr ?_⟩
  intro creation member
  obtain rfl := List.mem_singleton.mp member
  exact .inl (by decide)

end ShareHistory

end FosKernel
