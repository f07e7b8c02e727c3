import Mathlib.Data.Set.Basic
import Mathlib.Data.List.Nodup
import Mathlib.Logic.Function.Basic
import Mathlib.Tactic.Tauto

/-!
# Pools of frames

Keys hold frames of a pool, and the other frames are on a free list. A key that takes
the first free frame, writes to its frame or drops it keeps every managed frame either
free or held by exactly one key, and each key reads what was last written for it.
-/

namespace FosKernel

universe u v w

/-- The frames that keys hold, their contents and the free frames. -/
@[ext]
structure FramePool (κ : Type u) (φ : Type v) (α : Type w) where
  holder : κ → Option φ
  content : φ → α
  free : List φ

namespace FramePool

variable {κ : Type u} {φ : Type v} {α : Type w}

/-- Every managed frame is free or held, once, and no other frame is. -/
structure Accounts (pool : FramePool κ φ α) (managed : Set φ) : Prop where
  nodup : pool.free.Nodup
  unique : ∀ key key' frame, pool.holder key = some frame →
    pool.holder key' = some frame → key = key'
  apart : ∀ key frame, pool.holder key = some frame → frame ∉ pool.free
  exact : ∀ frame, frame ∈ managed ↔ frame ∈ pool.free ∨ ∃ key,
    pool.holder key = some frame

/-- The keys that hold a frame are the known ones, and a frame has the contents that are known for
its key. -/
structure Records (pool : FramePool κ φ α) (known : κ → Option (Option α)) : Prop where
  held : ∀ key, (known key).isSome = (pool.holder key).isSome
  content : ∀ key frame value, pool.holder key = some frame → known key = some (some value) →
    pool.content frame = value

/-- Change the contents of the frame of a key. -/
def write [DecidableEq φ] (pool : FramePool κ φ α) (key : κ) (value : α) :
    FramePool κ φ α :=
  match pool.holder key with
  | none => pool
  | some frame => { pool with content := Function.update pool.content frame value }

variable [DecidableEq κ]

/-- The key takes the given frame, which leaves the given frames free. -/
def take (pool : FramePool κ φ α) (key : κ) (frame : φ) (rest : List φ) :
    FramePool κ φ α where
  holder := Function.update pool.holder key (some frame)
  content := pool.content
  free := rest

/-- The key drops its frame. -/
def drop (pool : FramePool κ φ α) (key : κ) : FramePool κ φ α :=
  match pool.holder key with
  | none => pool
  | some frame =>
      { holder := Function.update pool.holder key none
        content := pool.content
        free := frame :: pool.free }

variable {pool : FramePool κ φ α} {managed : Set φ}
  {known : κ → Option (Option α)} {key : κ}
  {frame : φ} {rest : List φ}

theorem holder_drop (pool : FramePool κ φ α) (key : κ) :
    (pool.drop key).holder = Function.update pool.holder key none := by
  unfold drop
  split
  · rename_i empty
    rw [← empty, Function.update_eq_self]
  · rfl

theorem content_drop (pool : FramePool κ φ α) (key : κ) :
    (pool.drop key).content = pool.content := by
  unfold drop
  split <;> rfl

/-- A key without a frame takes the first free one. -/
theorem Accounts.take (accounts : pool.Accounts managed) (free : pool.free = frame :: rest)
    (empty : pool.holder key = none) : (pool.take key frame rest).Accounts managed where
  nodup := by
    have nodup := accounts.nodup
    rw [free] at nodup
    exact (List.nodup_cons.mp nodup).2
  unique first second held := by
    have fresh : ∀ other, pool.holder other ≠ some frame := fun other holds =>
      accounts.apart other frame holds (free ▸ List.mem_cons_self ..)
    intro first' second'
    simp only [FramePool.take, Function.update_apply] at first' second'
    split at first'
    · rename_i same
      split at second'
      · rename_i same'
        rw [same, same']
      · rw [← Option.some.inj first'] at second'
        exact absurd second' (fresh second)
    · split at second'
      · rw [← Option.some.inj second'] at first'
        exact absurd first' (fresh first)
      · exact accounts.unique first second held first' second'
  apart other held holds listed := by
    have nodup := accounts.nodup
    rw [free] at nodup
    simp only [FramePool.take, Function.update_apply] at holds
    split at holds
    · rw [← Option.some.inj holds] at listed
      exact (List.nodup_cons.mp nodup).1 listed
    · exact accounts.apart other held holds (free ▸ List.mem_cons_of_mem _ listed)
  exact other := by
    have others : (∃ holder, (pool.take key frame rest).holder holder = some other) ↔
        other = frame ∨ ∃ holder, pool.holder holder = some other := by
      constructor
      · rintro ⟨holder, holds⟩
        simp only [FramePool.take, Function.update_apply] at holds
        split at holds
        · exact .inl (Option.some.inj holds).symm
        · exact .inr ⟨holder, holds⟩
      · rintro (rfl | ⟨holder, holds⟩)
        · exact ⟨key, Function.update_self ..⟩
        · have different : holder ≠ key := by
            rintro rfl
            rw [empty] at holds
            cases holds
          exact ⟨holder, (Function.update_of_ne different ..).trans holds⟩
    rw [accounts.exact, others, free, List.mem_cons]
    tauto

/-- What a key drops becomes free. -/
theorem Accounts.drop (accounts : pool.Accounts managed) (key : κ) :
    (pool.drop key).Accounts managed := by
  cases holds : pool.holder key with
  | none =>
      have same : pool.drop key = pool := by
        unfold FramePool.drop
        rw [holds]
      rwa [same]
  | some frame =>
      have free : (pool.drop key).free = frame :: pool.free := by
        unfold FramePool.drop
        rw [holds]
      have kept : ∀ other held, (pool.drop key).holder other = some held ↔
          other ≠ key ∧ pool.holder other = some held := by
        intro other held
        rw [holder_drop, Function.update_apply]
        split
        · rename_i same
          exact ⟨nofun, fun ⟨different, _⟩ => absurd same different⟩
        · rename_i different
          exact ⟨fun held => ⟨different, held⟩, fun ⟨_, held⟩ => held⟩
      refine ⟨?_, fun first second held first' second' => ?_, fun other held holder => ?_,
        fun other => ?_⟩
      · rw [free]
        exact List.nodup_cons.mpr ⟨accounts.apart key frame holds, accounts.nodup⟩
      · exact accounts.unique first second held ((kept ..).mp first').2 ((kept ..).mp second').2
      · obtain ⟨different, holder⟩ := (kept other held).mp holder
        rw [free, List.mem_cons, not_or]
        refine ⟨?_, accounts.apart other held holder⟩
        rintro rfl
        exact different (accounts.unique other key held holder holds)
      · have others : (∃ holder, pool.holder holder = some other) ↔
            other = frame ∨ ∃ holder, (pool.drop key).holder holder = some other := by
          constructor
          · rintro ⟨holder, held⟩
            by_cases same : holder = key
            · rw [same, holds] at held
              exact .inl (Option.some.inj held).symm
            · exact .inr ⟨holder, (kept ..).mpr ⟨same, held⟩⟩
          · rintro (rfl | ⟨holder, held⟩)
            · exact ⟨key, holds⟩
            · exact ⟨holder, ((kept ..).mp held).2⟩
        rw [accounts.exact, others, free, List.mem_cons]
        tauto

/-- Dropping the frames of several keys. -/
theorem Accounts.dropAll (keys : List κ) : ∀ {pool : FramePool κ φ α},
    pool.Accounts managed →
    (keys.foldl FramePool.drop pool).Accounts managed := by
  induction keys with
  | nil => exact id
  | cons key keys ih => exact fun accounts => ih (accounts.drop key)

theorem holder_dropAll (keys : List κ) : ∀ (pool : FramePool κ φ α) (key : κ),
    (keys.foldl drop pool).holder key = if key ∈ keys then none else pool.holder key := by
  induction keys with
  | nil => exact fun pool key => (if_neg List.not_mem_nil).symm
  | cons head keys ih =>
      intro pool key
      rw [List.foldl_cons, ih, holder_drop, Function.update_apply]
      by_cases listed : key ∈ keys
      · rw [if_pos listed, if_pos (List.mem_cons_of_mem _ listed)]
      · rw [if_neg listed]
        simp only [List.mem_cons, listed, or_false]

theorem content_dropAll (keys : List κ) : ∀ pool : FramePool κ φ α,
    (keys.foldl drop pool).content = pool.content := by
  induction keys with
  | nil => exact fun _ => rfl
  | cons key keys ih => exact fun pool => (ih (pool.drop key)).trans (content_drop pool key)

/-- A key that takes a frame is known, but its contents are not. -/
theorem Records.take (records : pool.Records known) (key : κ) (frame : φ) (rest : List φ) :
    (pool.take key frame rest).Records (Function.update known key (some none)) where
  held other := by
    simp only [FramePool.take, Function.update_apply]
    split
    · rfl
    · exact records.held other
  content other held value holds is := by
    simp only [FramePool.take, Function.update_apply] at holds is
    split at is
    · cases is
    · rename_i different
      rw [if_neg different] at holds
      exact records.content other held value holds is

/-- A key that drops its frame is not known. -/
theorem Records.drop (records : pool.Records known) (key : κ) :
    (pool.drop key).Records (Function.update known key none) where
  held other := by
    rw [holder_drop, Function.update_apply, Function.update_apply]
    split
    · rfl
    · exact records.held other
  content other held value holds is := by
    rw [holder_drop, Function.update_apply] at holds
    rw [Function.update_apply] at is
    rw [content_drop]
    split at is
    · cases is
    · rename_i different
      rw [if_neg different] at holds
      exact records.content other held value holds is

/-- Keys that drop their frames are not known. -/
theorem Records.dropAll (records : pool.Records known) (keys : List κ) :
    (keys.foldl FramePool.drop pool).Records fun key => if key ∈ keys then none else
        known key where
  held key := by
    rw [holder_dropAll]
    split
    · rfl
    · exact records.held key
  content key frame value holds is := by
    rw [holder_dropAll] at holds
    rw [content_dropAll]
    split at is
    · cases is
    · rename_i outside
      rw [if_neg outside] at holds
      exact records.content key frame value holds is

section Write

variable [DecidableEq φ] {value : α}

omit [DecidableEq κ] in
theorem write_eq (holds : pool.holder key = some frame) : pool.write key value =
    { pool with content := Function.update pool.content frame value } := by
  unfold write
  rw [holds]

/-- What a key writes is known. -/
theorem Records.write (accounts : pool.Accounts managed) (records : pool.Records known)
    (holds : pool.holder key = some frame) :
    (pool.write key value).Records (Function.update known key (some (some value))) := by
  rw [write_eq holds]
  refine ⟨fun other => ?_, fun other held value' holds' is => ?_⟩
  · rw [Function.update_apply]
    split
    · rename_i same
      rw [same, holds]
      rfl
    · exact records.held other
  · rw [Function.update_apply] at is
    change Function.update pool.content frame value held = value'
    split at is
    · rename_i same
      obtain rfl : frame = held := by
        rw [same] at holds'
        exact Option.some.inj (holds.symm.trans holds')
      rw [Function.update_self]
      exact Option.some.inj (Option.some.inj is)
    · rename_i different
      have elsewhere : held ≠ frame := by
        rintro rfl
        exact different (accounts.unique other key held holds' holds)
      rw [Function.update_of_ne elsewhere]
      exact records.content other held value' holds' is

omit [DecidableEq κ] in
theorem Accounts.write (accounts : pool.Accounts managed) (holds : pool.holder key = some frame) :
    (pool.write key value).Accounts managed := by
  rw [write_eq holds]
  exact ⟨accounts.nodup, accounts.unique, accounts.apart, accounts.exact⟩

end Write

end FramePool

end FosKernel
