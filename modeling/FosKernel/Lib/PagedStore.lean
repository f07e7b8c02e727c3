import Mathlib.Logic.Relation
import Mathlib.Logic.Function.Basic

/-!
# Paged stores with write-back

Pages reside in memory, are kept in a backing store, or both. Evicting a page writes
it back when it is modified; loading a page takes its stored contents, or any
contents when none are stored. No contents are lost that were stored once or
written: a page that is backed keeps its value through evictions and loads.
-/

namespace FosKernel

universe u v w

/-- The contents of pages in memory, with a modified bit, and in the backing store. -/
@[ext]
structure PagedStore (π : Type u) (κ : Type v) where
  resident : π → Option κ
  modified : π → Bool
  stored : π → Option κ

namespace PagedStore

variable {π : Type u} {κ : Type v}

/-- The contents of a page: those in memory, else those in the backing store. -/
def value (store : PagedStore π κ) (page : π) : Option κ :=
  (store.resident page).or (store.stored page)

/-- The contents of the page survive its eviction. -/
def Backed (store : PagedStore π κ) (page : π) : Prop :=
  (store.stored page).isSome = true ∨
    (store.resident page).isSome = true ∧ store.modified page = true

/-- A page that is not modified has its stored contents in memory. -/
def Clean (store : PagedStore π κ) : Prop :=
  ∀ page content old, store.resident page = some content → store.modified page = false →
    store.stored page = some old → content = old

section Operations

variable [DecidableEq π]

/-- Write a page back if it is modified, and drop it from memory. -/
def evict (store : PagedStore π κ) (page : π) : PagedStore π κ where
  resident := Function.update store.resident page none
  modified := Function.update store.modified page false
  stored :=
    if store.modified page then Function.update store.stored page (store.resident page)
    else store.stored

/-- Bring a page into memory. -/
def load (store : PagedStore π κ) (page : π) (content : κ) : PagedStore π κ where
  resident := Function.update store.resident page (some content)
  modified := Function.update store.modified page false
  stored := store.stored

/-- Change the contents of a page in memory. -/
def write (store : PagedStore π κ) (page : π) (content : κ) : PagedStore π κ where
  resident := Function.update store.resident page (some content)
  modified := Function.update store.modified page true
  stored := store.stored

/-- What moves pages: the eviction of a page in memory, and the load of a page that is not. -/
inductive Move (store : PagedStore π κ) : PagedStore π κ → Prop
  | evict (page : π) (resident : (store.resident page).isSome = true) :
      Move store (store.evict page)
  | load (page : π) (content : κ) (absent : store.resident page = none)
      (same : ∀ old, store.stored page = some old → content = old) :
      Move store (store.load page content)

/-- Serving a page that is not in memory: it is loaded, after an eviction if need be. -/
inductive Serves (store : PagedStore π κ) (page : π) : PagedStore π κ → Prop
  | place (content : κ) (absent : store.resident page = none)
      (same : ∀ old, store.stored page = some old → content = old) :
      Serves store page (store.load page content)
  | replace (victim : π) (content : κ) (resident : (store.resident victim).isSome = true)
      (absent : (store.evict victim).resident page = none)
      (same : ∀ old, (store.evict victim).stored page = some old → content = old) :
      Serves store page ((store.evict victim).load page content)

variable {store next : PagedStore π κ} {page other : π} {content : κ}

theorem Serves.moves (serves : Serves store page next) :
    Relation.ReflTransGen Move store next := by
  cases serves with
  | place content absent same => exact .single (.load page content absent same)
  | replace victim content resident absent same =>
      exact (Relation.ReflTransGen.single (.evict victim resident)).tail
        (.load page content absent same)

theorem Serves.resident (serves : Serves store page next) :
    (next.resident page).isSome = true := by
  cases serves with
  | place => simp [PagedStore.load]
  | replace => simp [PagedStore.load]

/-- Every page in memory can be written back: it is stored, or its kind allows it to be. -/
def Covered (store : PagedStore π κ) (allowed : π → Prop) : Prop :=
  ∀ page, (store.resident page).isSome = true →
    (store.stored page).isSome = true ∨ allowed page

/-- An eviction takes no page out of the backing store. -/
theorem evict_stored (store : PagedStore π κ) (victim : π)
    (resident : (store.resident victim).isSome = true)
    (stored : (store.stored other).isSome = true) :
    ((store.evict victim).stored other).isSome = true := by
  unfold PagedStore.evict
  dsimp only
  split
  · by_cases same : other = victim
    · rw [same, Function.update_self]
      exact resident
    · rwa [Function.update_of_ne same]
  · exact stored

/-- Serving a page that can be written back keeps every page in memory one that can be. -/
theorem Serves.covered {allowed : π → Prop} (serves : Serves store page next)
    (covered : store.Covered allowed)
    (legal : (store.stored page).isSome = true ∨ allowed page) : next.Covered allowed := by
  intro other held
  cases serves with
  | place content absent same =>
      by_cases here : other = page
      · rw [here]
        exact legal
      · simp only [PagedStore.load, Function.update_of_ne here] at held ⊢
        exact covered other held
  | replace victim content resident absent same =>
      have stays : ∀ page, (store.stored page).isSome = true ∨ allowed page →
          ((store.evict victim).stored page).isSome = true ∨ allowed page :=
        fun page either => either.imp_left (store.evict_stored victim resident)
      by_cases here : other = page
      · rw [here]
        exact stays page legal
      · simp only [PagedStore.load, Function.update_of_ne here] at held ⊢
        apply stays other (covered other _)
        by_cases gone : other = victim
        · simp [PagedStore.evict, gone] at held
        · simpa only [PagedStore.evict, Function.update_of_ne gone] using held

/-- Moving pages keeps unmodified pages the same as the stored ones. -/
theorem Move.clean (move : Move store next) (clean : store.Clean) : next.Clean := by
  cases move with
  | evict page resident =>
      intro other content old held unmodified stored
      by_cases same : other = page
      · subst same
        simp [PagedStore.evict] at held
      · simp only [PagedStore.evict, Function.update_of_ne same] at held unmodified stored
        refine clean other content old held unmodified ?_
        cases modified : store.modified page with
        | false => simpa [modified] using stored
        | true => simpa [modified, same] using stored
  | load page content absent agrees =>
      intro other held old resident unmodified stored
      by_cases same : other = page
      · subst same
        simp only [PagedStore.load, Function.update_self, Option.some.injEq] at resident
        rw [← resident]
        exact agrees old stored
      · simp only [PagedStore.load, Function.update_of_ne same] at resident unmodified
        exact clean other held old resident unmodified stored

/-- Moving pages keeps every backed page backed, with its value. -/
theorem Move.keeps (move : Move store next) (clean : store.Clean) (backed : store.Backed other) :
    next.Backed other ∧ next.value other = store.value other := by
  cases move with
  | evict page resident =>
      by_cases same : other = page
      · subst same
        obtain ⟨content, held⟩ := Option.isSome_iff_exists.mp resident
        cases modified : store.modified other with
        | true => simp [Backed, value, PagedStore.evict, modified, held]
        | false =>
            rcases backed with stored | ⟨-, set⟩
            · obtain ⟨old, stored⟩ := Option.isSome_iff_exists.mp stored
              have agrees := clean other content old held modified stored
              simp [Backed, value, PagedStore.evict, modified, held, stored, agrees]
            · rw [modified] at set
              cases set
      · cases modified : store.modified page with
        | true => simpa [Backed, value, PagedStore.evict, modified, same] using backed
        | false => simpa [Backed, value, PagedStore.evict, modified, same] using backed
  | load page content absent agrees =>
      by_cases same : other = page
      · subst same
        rcases backed with stored | ⟨resident, -⟩
        · obtain ⟨old, stored⟩ := Option.isSome_iff_exists.mp stored
          simp [Backed, value, PagedStore.load, stored, absent, agrees old stored]
        · rw [absent] at resident
          cases resident
      · simpa [Backed, value, PagedStore.load, same] using backed

/-- A write changes the value of its page, which is backed from then on. -/
theorem write_self (store : PagedStore π κ) (page : π) (content : κ) :
    (store.write page content).Backed page ∧
        (store.write page content).value page = some content := by
  simp [Backed, value, write]

theorem write_other (store : PagedStore π κ) (content : κ) (different : other ≠ page) :
    ((store.write page content).Backed other ↔ store.Backed other) ∧
      (store.write page content).value other = store.value other := by
  simp [Backed, value, write, different]

theorem write_clean (clean : store.Clean) : (store.write page content).Clean := by
  intro other held old resident unmodified stored
  by_cases same : other = page
  · subst same
    simp [write] at unmodified
  · simp only [write, Function.update_of_ne same] at resident unmodified
    exact clean other held old resident unmodified stored

end Operations

section Locations

variable {ι : Type w} {β : Type v} {store next : PagedStore π (ι → β)}
  {known : π → ι → Option β}

/-- Every location whose value is known is in a backed page and holds that value. -/
def Holds (store : PagedStore π (ι → β)) (known : π → ι → Option β) : Prop :=
  ∀ page index value, known page index = some value →
    store.Backed page ∧ ∀ content, store.value page = some content → content index = value

/-- A page that is not modified has its stored contents in memory wherever they are known. -/
def CleanAt (store : PagedStore π (ι → β)) (known : π → ι → Option β) : Prop :=
  ∀ page index content old, (known page index).isSome = true →
    store.resident page = some content →
    store.modified page = false → store.stored page = some old → content index = old index

/-- A read of a page in memory returns the known value. -/
theorem Holds.read {page : π} {content : ι → β} (holds : store.Holds known)
    (resident : store.resident page = some content) {index : ι} {value : β}
    (expected : known page index = some value) : content index = value := by
  refine (holds page index value expected).2 content ?_
  simp [PagedStore.value, resident]

variable [DecidableEq π]

/-- Moving pages loses no known value. -/
theorem Holds.of_moves (holds : store.Holds known) (clean : store.Clean)
    (moves : Relation.ReflTransGen Move store next) : next.Holds known ∧ next.Clean := by
  induction moves with
  | refl => exact ⟨holds, clean⟩
  | tail _ move ih =>
      obtain ⟨holds, clean⟩ := ih
      refine ⟨fun page index value expected => ?_, move.clean clean⟩
      obtain ⟨backed, same⟩ := holds page index value expected
      obtain ⟨backed', kept⟩ := move.keeps clean backed
      rw [kept]
      exact ⟨backed', same⟩

/-- Moving pages keeps unmodified pages the same as the stored ones where these are known. -/
theorem Move.cleanAt (move : Move store next) (clean : store.CleanAt known) :
    next.CleanAt known := by
  intro other index content old located held unmodified stored
  cases move with
  | evict page resident =>
      by_cases same : other = page
      · subst same
        simp [PagedStore.evict] at held
      · simp only [PagedStore.evict, Function.update_of_ne same] at held unmodified stored
        refine clean other index content old located held unmodified ?_
        cases modified : store.modified page with
        | false => simpa [modified] using stored
        | true => simpa [modified, same] using stored
  | load page loaded absent agrees =>
      by_cases same : other = page
      · subst same
        simp only [PagedStore.load, Function.update_self, Option.some.injEq] at held
        rw [← held, agrees old stored]
      · simp only [PagedStore.load, Function.update_of_ne same] at held unmodified
        exact clean other index content old located held unmodified stored

/-- Moving a page loses no known value where unmodified pages agree with the stored ones. -/
theorem Move.holds (move : Move store next) (holds : store.Holds known)
    (clean : store.CleanAt known) :
    next.Holds known := by
  intro other index value expected
  have located : (known other index).isSome = true := by rw [expected, Option.isSome_some]
  obtain ⟨backed, same⟩ := holds other index value expected
  have both := And.intro backed same
  cases move with
  | evict page resident =>
      by_cases here : other = page
      · subst here
        obtain ⟨content, held⟩ := Option.isSome_iff_exists.mp resident
        have value := same content (by simp [PagedStore.value, held])
        cases modified : store.modified other with
        | true => simpa [Backed, PagedStore.value, PagedStore.evict, modified, held] using value
        | false =>
            rcases backed with stored | ⟨-, set⟩
            · obtain ⟨old, stored⟩ := Option.isSome_iff_exists.mp stored
              have agrees := clean other index content old located held modified stored
              simpa [Backed, PagedStore.value, PagedStore.evict, modified, stored,
                ← agrees] using value
            · rw [modified] at set
              cases set
      · cases modified : store.modified page with
        | true => simpa [Backed, PagedStore.value, PagedStore.evict, modified, here] using both
        | false => simpa [Backed, PagedStore.value, PagedStore.evict, modified, here] using both
  | load page content absent agrees =>
      by_cases here : other = page
      · subst here
        rcases backed with stored | ⟨resident, -⟩
        · obtain ⟨old, stored⟩ := Option.isSome_iff_exists.mp stored
          have value := same old (by simp [PagedStore.value, absent, stored])
          simpa [Backed, PagedStore.value, PagedStore.load, stored, agrees old stored] using value
        · rw [absent] at resident
          cases resident
      · simpa [Backed, PagedStore.value, PagedStore.load, here] using both

/-- Moving pages loses no known value where unmodified pages agree with the stored ones. -/
theorem Holds.of_moves_at (holds : store.Holds known) (clean : store.CleanAt known)
    (moves : Relation.ReflTransGen Move store next) : next.Holds known ∧ next.CleanAt known := by
  induction moves with
  | refl => exact ⟨holds, clean⟩
  | tail _ move ih => exact ⟨move.holds ih.1 ih.2, move.cleanAt ih.2⟩

variable [DecidableEq ι]

/-- A written page is modified, and the others are as they were. -/
theorem CleanAt.write (clean : store.CleanAt known) (page : π) (content : ι → β) (index : ι)
    (value : β) : (store.write page content).CleanAt
      (Function.update known page (Function.update (known page) index (some value))) := by
  intro other index' held old located resident unmodified stored
  by_cases same : other = page
  · subst same
    simp [PagedStore.write] at unmodified
  · rw [Function.update_of_ne same] at located
    simp only [PagedStore.write, Function.update_of_ne same] at resident unmodified
    exact clean other index' held old located resident unmodified stored

/-- A write makes the value of its location known and loses no other. -/
theorem Holds.write {page : π} {content : ι → β} (holds : store.Holds known)
    (resident : store.resident page = some content) (index : ι) (value : β) :
    (store.write page (Function.update content index value)).Holds
      (Function.update known page (Function.update (known page) index (some value))) := by
  intro other index' expected is
  by_cases same : other = page
  · subst same
    obtain ⟨backed, written⟩ := store.write_self other (Function.update content index value)
    refine ⟨backed, fun content' held => ?_⟩
    rw [written, Option.some.injEq] at held
    rw [Function.update_self] at is
    subst held
    by_cases here : index' = index
    · subst here
      rw [Function.update_self, Option.some.injEq] at is
      rw [Function.update_self, is]
    · rw [Function.update_of_ne here] at is ⊢
      exact holds.read resident is
  · rw [Function.update_of_ne same] at is
    obtain ⟨backed, kept⟩ := store.write_other (Function.update content index value) same
    rw [backed, kept]
    exact holds other index' expected is

end Locations

end PagedStore

end FosKernel
