import FosKernel.Trap.TimeStamps

/-!
# No write is lost

Runs of user reads and writes of one environment under CLOCK, LRU or Modified
CLOCK. An access faults until its page is present; every read returns the last
value written to its location, or else the initial contents of the page file. LRU
finds no victim when every page was used whenever the time stamps were updated.
-/

namespace FosKernel

namespace Kernel

variable {kernel before after : Kernel} {env va fuel : Nat} {free : List Nat}

theorem appended_store (kernel : Kernel) (env va : Nat) :
    (kernel.appended env va).store env = kernel.store env := by
  have entries : ∀ page, (kernel.appended env va).pageEntry env page =
      kernel.pageEntry env page := by
    intro page
    apply pageEntry_congr
    · rfl
    · rfl
    · exact appended_directory ..
  refine store_congr (fun page => ?_) rfl ?_ rfl
  · rw [entries]
    exact ⟨rfl, rfl, rfl⟩
  · rw [appended_self]

/-- The kernels have the same pages and the same page file. -/
structure SamePages (env : Nat) (before after : Kernel) : Prop where
  store : after.store env = before.store env
  disk : after.disk = before.disk
  directory : (after.envs env).diskEnvPgdir = (before.envs env).diskEnvPgdir

theorem placed_samePages (kernel : Kernel) (env va : Nat) :
    SamePages env kernel (kernel.placed env va) where
  store := (Searched.setHand (kernel.appended env va) env _).store.trans
    (appended_store kernel env va)
  disk := rfl
  directory := by rw [placed_self]

theorem served_samePages (kernel : Kernel) (env va : Nat) :
    SamePages env kernel (kernel.served env va) := by
  unfold served
  split
  · exact ⟨appended_store kernel env va, rfl, by rw [appended_self]⟩
  · exact placed_samePages kernel env va

/-- The ownership of disk frames depends on the disk directory only. -/
theorem DiskOwned.congr {disk : Disk} {old new : Env} (owned : DiskOwned disk old free)
    (same : new.diskEnvPgdir = old.diskEnvPgdir) : DiskOwned disk new free := by
  have diskFrames := Env.diskFrame_congr same
  refine ⟨owned.represents, owned.nonzero, fun page page' => ?_, fun page => ?_⟩
  · rw [diskFrames, diskFrames]
    exact owned.owns page page'
  · rw [diskFrames]
    exact owned.apart page

/-- A new element has the stamp 0, and the others keep theirs. -/
def KeepsStamps (before after : Kernel) : Prop :=
  ∀ element, after.elements element = before.elements element ∨
    (after.elements element).timeStamp = 0

theorem placed_keepsStamps (kernel : Kernel) (env va : Nat) :
    KeepsStamps kernel (kernel.placed env va) := by
  intro element
  by_cases new : element = kernel.nextElement
  · subst new
    exact .inr (congrArg WorkingSetElement.timeStamp
      (Function.update_self kernel.nextElement _ kernel.elements))
  · exact .inl (Function.update_of_ne new ..)

theorem served_keepsStamps (kernel : Kernel) (env va : Nat) :
    KeepsStamps kernel (kernel.served env va) := by
  unfold served
  split
  · exact placed_keepsStamps kernel env va
  · exact placed_keepsStamps kernel env va

/-- Memory or the page file runs out. -/
def Exhausted (halt : Stop) : Prop := halt = .outOfMemory ∨ halt = .outOfPageFile

/-- The page can be written back where it is not stored. -/
def Unbacked (page : UserPage) : Prop := inHeapOrStack page = true

/-- What a fault of a page that may be loaded ends with. -/
theorem LoadStops.exhausted {loading : Kernel} {halt : Stop}
    (located : (loading.memory.slot (loading.directory env) va).isSome = true)
    (legal : (loading.envs env).diskFrame va ≠ 0 ∨ inHeapOrStack va = true)
    (stops : loading.LoadStops env va halt) : Exhausted halt := by
  rcases stops with same | ⟨missing, -⟩ | ⟨unstored, outside, -⟩
  · exact .inl same
  · rw [missing] at located
    cases located
  · rcases legal with stored | inside
    · exact absurd unstored stored
    · rw [outside] at inside
      cases inside

/-- A handled fault of a page that may be loaded serves the page in the store. It stops only when
memory or the page file runs out. -/
theorem pageFaultHandler_serves (fuel : Nat) {dfree : List Nat} (ws : WorkingSet kernel env free)
    (owned : DiskOwned kernel.disk (kernel.envs env) dfree)
    (covered : (kernel.store env).Covered Unbacked)
    (replaces : kernel.pageRepAlgoType.Replaces)
    (handles : ¬ kernel.Skips env va)
    (hasVictim : (kernel.envs env).pageWsList.length = (kernel.envs env).pageWsMaxSize →
      kernel.HasVictim env)
    (user : va < userTop) (absent : kernel.pagePresent env va = false)
    (located : (kernel.memory.slot (kernel.directory env) va).isSome = true)
    (legal : (kernel.envs env).diskFrame va ≠ 0 ∨ inHeapOrStack va = true) :
    Ends (kernel.pageFaultHandler env va (fuel + 2))
      (fun after => (kernel.store env).Serves (.of va user) (after.store env) ∧
        KeepsStamps kernel after ∧ ∃ free', DiskOwned after.disk (after.envs env) free')
      Exhausted := by
  by_cases room : (kernel.envs env).pageWsList.length < (kernel.envs env).pageWsMaxSize
  · rw [pageFaultHandler_of_room (fuel + 1) replaces room]
    apply (placement_returns user absent).mono
    · rintro after ⟨slot, frame, memory, loads, rfl⟩
      obtain ⟨nonresident, same, loaded⟩ := loads.store ws user (by decide)
      have pages := placed_samePages ({ kernel with memory := memory } : Kernel) env va
      refine ⟨?_, placed_keepsStamps _ env va, dfree, ?_⟩
      · rw [pages.store, loaded]
        exact .place _ nonresident same
      · rw [pages.disk]
        exact owned.congr pages.directory
    · exact fun halt stops => stops.exhausted located legal
  · have full := Nat.le_antisymm ws.fits (Nat.le_of_not_lt room)
    obtain ⟨searched, victim, front, back, list, chosen, handled⟩ :=
      pageFaultHandler_of_full fuel replaces ws handles full (hasVictim full)
    rw [handled]
    have search := chosen.search.withdraws
    have ws' := ws.of_searched chosen.search
    have member := chosen.mem
    have diskFrames := Env.diskFrame_congr chosen.search.disk.2
    have owned' : DiskOwned searched.disk (searched.envs env) dfree := by
      rw [chosen.search.disk.1]
      exact owned.congr chosen.search.disk.2
    apply (replace_returns ws'.resident member user (search.absent absent)).mono
    · rintro after ⟨evicted, evicts, perm, slot, frame, memory, unmodified, loads, rfl⟩
      obtain ⟨page, same, evictedStore, dfree', owned''⟩ := evicts.store ws' member owned'
      have resident : ((searched.store env).resident page).isSome = true := by
        simp [Kernel.store, same, ws'.pagePresent member]
      have elements : evicted.elements = kernel.elements :=
        (search.trans (evicts.withdraws chosen.members)).elements
      obtain ⟨slot', disk, directory, -, -, evictedEq⟩ := evicts
      obtain ⟨free', ws'', -⟩ := ws'.of_evicted disk directory
        (chosen.search.pageWsList.trans chosen.split) chosen.perm
      rw [← evictedEq] at ws''
      obtain ⟨nonresident, agrees, loaded⟩ := loads.store ws'' user unmodified
      have pages := served_samePages ({ evicted with memory := memory } : Kernel) env va
      have stamps := served_keepsStamps ({ evicted with memory := memory } : Kernel) env va
      refine ⟨?_, by rwa [KeepsStamps, ← elements], dfree', ?_⟩
      · rw [pages.store, loaded]
        rw [evictedStore] at nonresident agrees ⊢
        rw [chosen.search.store] at resident nonresident agrees ⊢
        exact .replace page _ resident nonresident agrees
      · rw [pages.disk]
        exact owned''.congr pages.directory
    · rintro halt ((same | ⟨-, lacking, outside⟩) | ⟨evicted, evicts, stops⟩)
      · exact .inr same
      · rcases covered ⟨searched.elementVa victim, ws'.user member⟩ (by
          rw [← chosen.search.store]
          simp [Kernel.store, ws'.pagePresent member]) with stored | inside
        · rw [diskFrames] at lacking
          simp [Kernel.store, lacking] at stored
        · rw [Unbacked, outside] at inside
          cases inside
      · have withdraws := search.trans (evicts.withdraws chosen.members)
        refine stops.exhausted ?_ ?_
        · rwa [withdraws.directory, Memory.slot_congr withdraws.directories]
        · rwa [evicts.diskFrame_of_absent ws'.resident member user (search.absent absent),
            diskFrames]

end Kernel

end FosKernel
