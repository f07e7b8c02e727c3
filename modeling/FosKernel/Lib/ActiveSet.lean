import Mathlib.Data.Set.Insert
import Mathlib.Data.List.Chain
import Mathlib.Data.List.Nodup

/-!
# Active sets

A list of active pages that is emptied when it is full and another page enters. The
pages of an emptied list are not present any more, but stay resident. Pages that
enter are recorded in a stream. When the present pages are the active ones, every page
that enters was not active before, and no two successive entries of the stream are
the same.
-/

namespace FosKernel

universe u

/-- The active pages, the present and the resident ones, and the stream of those that entered. -/
@[ext]
structure ActiveSet (α : Type u) where
  active : List α
  present : Set α
  resident : Set α
  stream : List α

namespace ActiveSet

variable {α : Type u}

/-- The present pages are the active ones, which are distinct and not too many. -/
structure Synced (state : ActiveSet α) (size : Nat) : Prop where
  nodup : state.active.Nodup
  bounded : state.active.length ≤ size
  present : ∀ page, page ∈ state.present ↔ page ∈ state.active

/-- No two successive pages of the stream are the same, and the last one is active. -/
structure Alternates (state : ActiveSet α) : Prop where
  chain : state.stream.IsChain (· ≠ ·)
  last : ∀ page ∈ state.stream.getLast?, page ∈ state.active

/-- A page that is not present is not active. -/
theorem Synced.inactive {state : ActiveSet α} {size : Nat} {page : α} (synced : state.Synced size)
    (absent : page ∉ state.present) : page ∉ state.active := fun active =>
  absent ((synced.present page).mpr active)

variable [DecidableEq α]

/-- The page becomes present and resident. Unless it is active already, it enters: the active pages
are dropped first if there are as many as the size allows. -/
def enter (state : ActiveSet α) (size : Nat) (page : α) : ActiveSet α :=
  if page ∈ state.active then
    { state with
      present := insert page state.present
      resident := insert page state.resident }
  else if state.active.length = size then
    { active := [page]
      present := insert page (state.present \ {other | other ∈ state.active})
      resident := insert page state.resident
      stream := state.stream ++ [page] }
  else
    { active := state.active ++ [page]
      present := insert page state.present
      resident := insert page state.resident
      stream := state.stream ++ [page] }

variable {state : ActiveSet α} {size : Nat} {page : α}

@[simp] theorem enter_resident : (state.enter size page).resident = insert page state.resident := by
  unfold enter
  split
  · rfl
  · split <;> rfl

/-- A page that enters is present. -/
theorem mem_enter_present : page ∈ (state.enter size page).present := by
  unfold enter
  split
  · exact Set.mem_insert ..
  · split <;> exact Set.mem_insert ..

/-- A page that enters is active. -/
theorem mem_enter_active : page ∈ (state.enter size page).active := by
  unfold enter
  split
  · assumption
  · split <;> simp

theorem enter_stream (inactive : page ∉ state.active) :
    (state.enter size page).stream = state.stream ++ [page] := by
  unfold enter
  rw [if_neg inactive]
  split <;> rfl

/-- When a page that is not present enters, the present pages stay the active ones. -/
theorem Synced.enter (synced : state.Synced size) (positive : 0 < size)
    (absent : page ∉ state.present) : (state.enter size page).Synced size := by
  have inactive := synced.inactive absent
  have bounded := synced.bounded
  unfold ActiveSet.enter
  rw [if_neg inactive]
  split
  · refine ⟨List.nodup_singleton page, positive, fun other => ?_⟩
    have dropped : other ∉ state.present \ {other | other ∈ state.active} := fun kept =>
      kept.2 ((synced.present other).mp kept.1)
    simp only [Set.mem_insert_iff, dropped, or_false, List.mem_singleton]
  · rename_i room
    refine ⟨?_, ?_, fun other => ?_⟩
    · refine List.nodup_append.mpr ⟨synced.nodup, List.nodup_singleton page, ?_⟩
      rintro other listed next new rfl
      exact inactive (List.mem_singleton.mp new ▸ listed)
    · rw [List.length_append, List.length_singleton]
      omega
    · rw [Set.mem_insert_iff, synced.present, List.mem_append, List.mem_singleton, or_comm]

/-- The stream keeps alternating. -/
theorem Alternates.enter (alternates : state.Alternates) (inactive : page ∉ state.active) :
    (state.enter size page).Alternates := by
  refine ⟨?_, fun last recorded => ?_⟩
  · rw [enter_stream inactive, List.isChain_append]
    refine ⟨alternates.chain, List.isChain_singleton page, fun last recorded next new => ?_⟩
    rw [List.head?_cons, Option.mem_some_iff] at new
    rintro rfl
    exact inactive (new ▸ alternates.last last recorded)
  · rw [enter_stream inactive, List.getLast?_concat, Option.mem_some_iff] at recorded
    rw [← recorded]
    exact mem_enter_active

end ActiveSet

end FosKernel
