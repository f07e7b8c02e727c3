import FosKernel.Share.AddressSpaces

/-!
# System calls stay below `USER_TOP`

When a system call on user-supplied addresses changes only user pages of the calling
environment and stores only below `USER_TOP`. `SYS_allocate_page` and
`SYS_unmap_frame` check their address. `create_shared_object`, `get_shared_object` and
`SYS_get_virtual_time` check nothing, so they do exactly as long as the caller passes
addresses below `USER_TOP`.
-/

namespace FosKernel

/-- The address of a page of a shared object at an address. -/
def sharePage (va index : Nat) : Nat := add32 va (index * pageSize)

theorem sharePage_lt (va index : Nat) : sharePage va index < 2 ^ 32 :=
  Nat.mod_lt _ (by decide)

theorem sharePage_succ (va index : Nat) :
    add32 (sharePage va index) pageSize = sharePage va (index + 1) := by
  unfold sharePage add32 pageSize
  omega

theorem sharePage_zero {va : Nat} (word : va < 2 ^ 32) : sharePage va 0 = va := by
  unfold sharePage add32
  omega

/-- The pages of an object are different as long as they fit into the address space. -/
theorem sharePage_inj {va first second : Nat} (fits : first < 2 ^ 20) (fits' : second < 2 ^ 20)
    (table : pdx (sharePage va first) = pdx (sharePage va second))
    (index : ptx (sharePage va first) = ptx (sharePage va second)) : first = second := by
  have same := page_eq_of_indices (sharePage_lt ..) (sharePage_lt ..) table index
  unfold sharePage add32 pageSize at same
  omega

namespace SharedMemory

variable {β : Type} {D : DynAllocator β} {managed pending : Finset Nat}
  {shared middle after : SharedMemory β} {directory frame va va' index count : Nat} {perm : Perm}
  {framesStorage framesStorage' : List Nat} {entry : PageTableEntry} {memory : Memory}

theorem Layout.allocateFrame (layout : shared.Layout)
    (allocated : shared.heap.memory.allocateFrame = some (frame, memory)) (directory : Nat) :
    (shared.setMemory memory).Layout ∧ KeepsOthers directory shared
        (shared.setMemory memory) := by
  obtain ⟨tables, directories, -⟩ := Memory.allocateFrame_spec allocated
  obtain ⟨layout', kept⟩ := @Layout.setMemory _ shared directory 0 memory layout directories
    fun slot _ => congrFun tables slot
  exact ⟨layout', kept (by decide)⟩

theorem allocateFrame_entry (allocated : shared.heap.memory.allocateFrame = some (frame, memory))
    (directory va : Nat) :
    (shared.setMemory memory).heap.memory.entry directory va =
      shared.heap.memory.entry directory va := by
  obtain ⟨tables, directories, -⟩ := Memory.allocateFrame_spec allocated
  rw [Memory.entry_eq_map, Memory.entry_eq_map]
  change (memory.slot directory va).map memory.tables = _
  rw [Memory.slot_congr directories, tables]

/-- `map_frame` leaves a page that maps the frame alone. -/
theorem mapFrame_of_maps (maps : shared.heap.memory.Maps directory va frame)
    (mapped : shared.mapFrame D directory frame va perm = .ok after) : after = shared := by
  obtain ⟨ready, table, rest⟩ := bind_eq_ok.mp mapped
  have ⟨entry, here, _⟩ := maps
  obtain ⟨slot, located, -⟩ := Option.map_eq_some_iff.mp here
  obtain ⟨linked, -⟩ := Memory.slot_eq_some located
  unfold SharedMemory.ensurePageTable at table
  rw [linked] at table
  obtain rfl := Except.ok.inj table
  cases installed : shared.heap.memory.mapFrame directory frame va perm with
  | none =>
      rw [installed] at rest
      cases rest
  | some memory =>
      rw [installed] at rest
      obtain rfl := Except.ok.inj rest
      obtain rfl := Memory.mapFrame_of_maps maps installed
      rfl

/-- A frame that was just allocated is mapped with the permissions of the call. -/
theorem mapFrame_installs (kept : shared.Kept managed pending) (accessing : D.Accessing)
    (member : frame ∈ pending) (mapped : shared.mapFrame D directory frame va perm = .ok after) :
    ∃ available, after.heap.memory.entry directory va =
      some ⟨frame, available &&& permAvailable ||| perm ||| permPresent⟩ := by
  obtain ⟨ready, table, rest⟩ := bind_eq_ok.mp mapped
  obtain ⟨free, invariant⟩ := (kept.ensurePageTable accessing table).counted.counted
  have unmapped : ¬ ready.heap.memory.Maps directory va frame := by
    rintro ⟨entry, here, present, same⟩
    obtain ⟨slot, -, held⟩ := Option.map_eq_some_iff.mp here
    have mapper : slot ∈ mappers ready.heap.memory.tables frame := by
      refine ⟨?_, ?_⟩ <;> rw [held]
      · exact present
      · exact same
    rw [(invariant.handedOut frame member).2] at mapper
    exact mapper
  cases installed : ready.heap.memory.mapFrame directory frame va perm with
  | none =>
      rw [installed] at rest
      cases rest
  | some memory =>
      rw [installed] at rest
      obtain rfl := Except.ok.inj rest
      exact Memory.installed_of_mapFrame unmapped installed

section Loops

/-- The loop of `create_shared_object`. -/
theorem Layout.placeFrames (accessing : D.Accessing) (layout : shared.Layout)
    (placed : shared.placeFrames D directory (sharePage va index) framesStorage index count =
      .ok (framesStorage', after)) :
    after.Layout ∧
      ((∀ page, index ≤ page → page < index + count → sharePage va page < userTop) →
        KeepsOthers directory shared after) := by
  induction count generalizing shared index framesStorage with
  | zero =>
      obtain ⟨-, rfl⟩ := Prod.mk.inj (Except.ok.inj placed)
      exact ⟨layout, fun _ => .refl ..⟩
  | succ count ih =>
      rw [SharedMemory.placeFrames] at placed
      split at placed
      · cases placed
      · rename_i frame memory allocated
        obtain ⟨middle, mapped, rest⟩ := bind_eq_ok.mp placed
        rw [sharePage_succ] at rest
        obtain ⟨taken, kept⟩ := layout.allocateFrame allocated directory
        obtain ⟨layout', kept'⟩ := taken.mapFrame accessing mapped
        obtain ⟨layout'', kept''⟩ := ih layout' rest
        refine ⟨layout'', fun user => ?_⟩
        exact (kept.trans (kept' (user index (Nat.le_refl _) (by omega)))).trans
          (kept'' fun page lower upper => user page (by omega) (by omega))

/-- The loop leaves present pages alone that it does not map. -/
theorem Layout.placeFrames_entry (accessing : D.Accessing) (layout : shared.Layout)
    (placed : shared.placeFrames D directory (sharePage va index) framesStorage index count =
      .ok (framesStorage', after))
    (here : shared.heap.memory.entry directory va' = some entry) (present : entry.present = true)
    (apart : ∀ page, index ≤ page → page < index + count →
      pdx va' = pdx (sharePage va page) → ptx va' ≠ ptx (sharePage va page)) :
    after.heap.memory.entry directory va' = some entry := by
  induction count generalizing shared index framesStorage with
  | zero =>
      obtain ⟨-, rfl⟩ := Prod.mk.inj (Except.ok.inj placed)
      exact here
  | succ count ih =>
      rw [SharedMemory.placeFrames] at placed
      split at placed
      · cases placed
      · rename_i frame memory allocated
        obtain ⟨middle, mapped, rest⟩ := bind_eq_ok.mp placed
        rw [sharePage_succ] at rest
        obtain ⟨taken, -⟩ := layout.allocateFrame allocated directory
        have kept := taken.mapFrame_entry accessing mapped
          ((allocateFrame_entry allocated ..).trans here) present
          fun table same => absurd same (apart index (Nat.le_refl _) (by omega) table)
        obtain ⟨layout', -⟩ := taken.mapFrame accessing mapped
        exact ih layout' rest kept fun page lower upper => apart page (by omega) (by omega)

/-- Every page of the loop is mapped for the user. -/
theorem placeFrames_installs (accessing : D.Accessing) (layout : shared.Layout)
    (kept : shared.Kept managed ∅) (fits : index + count ≤ 2 ^ 20)
    (placed : shared.placeFrames D directory (sharePage va index) framesStorage index count =
      .ok (framesStorage', after))
    {page : Nat} (lower : index ≤ page) (upper : page < index + count) :
    ∃ entry, after.heap.memory.entry directory (sharePage va page) = some entry ∧
      entry.present = true ∧ Perm.has entry.perm permUser = true ∧
        Perm.has entry.perm permWriteable = true := by
  induction count generalizing shared index framesStorage with
  | zero => omega
  | succ count ih =>
      rw [SharedMemory.placeFrames] at placed
      split at placed
      · cases placed
      · rename_i frame memory allocated
        obtain ⟨middle, mapped, rest⟩ := bind_eq_ok.mp placed
        rw [sharePage_succ] at rest
        obtain ⟨taken, -⟩ := layout.allocateFrame allocated directory
        obtain ⟨layout', -⟩ := taken.mapFrame accessing mapped
        have counted := kept.setMemory (kept.counted.allocateFrame allocated)
        by_cases first : page = index
        · subst first
          obtain ⟨available, here⟩ := mapFrame_installs counted accessing
            (Finset.mem_insert_self ..) mapped
          refine ⟨_, layout'.placeFrames_entry accessing rest here ?_ ?_, ?_, ?_, ?_⟩
          · simp only [PageTableEntry.present, Perm.has_or]
            simp [show Perm.has permPresent permPresent = true by decide]
          · intro later lower upper table index
            have same := sharePage_inj (by omega) (by omega) table index
            omega
          · simp only [PageTableEntry.present, Perm.has_or]
            simp [show Perm.has permPresent permPresent = true by decide]
          · simp only [Perm.has_or]
            simp [show Perm.has permUser permUser = true by decide]
          · simp only [Perm.has_or]
            simp [show Perm.has permWriteable permWriteable = true by decide]
        · have kept' := counted.mapFrame accessing (by decide)
            (fun ready table => mayMap_of_pending (counted.ensurePageTable accessing table)
              (Finset.mem_insert_self ..)) mapped
          rw [Finset.erase_insert (Finset.notMem_empty frame)] at kept'
          exact ih layout' kept' (by omega) rest (by omega) (by omega)

/-- The loop of `get_shared_object`. Pages at or above `USER_TOP` are left alone if they map the
recorded frame already. -/
theorem Layout.mapStorage (accessing : D.Accessing) (layout : shared.Layout)
    (fits : index + count ≤ 2 ^ 20)
    (settled : ∀ page, index ≤ page → page < index + count → ∀ frame,
      framesStorage[page]? = some frame → sharePage va page < userTop ∨
        shared.heap.memory.Maps directory (sharePage va page) frame)
    (mapped : shared.mapStorage D directory va perm framesStorage index count = .ok after) :
    after.Layout ∧ KeepsOthers directory shared after := by
  induction count generalizing shared index with
  | zero => exact Except.ok.inj mapped ▸ ⟨layout, .refl ..⟩
  | succ count ih =>
      rw [SharedMemory.mapStorage] at mapped
      split at mapped
      · cases mapped
      · rename_i frame recorded
        obtain ⟨middle, first, rest⟩ := bind_eq_ok.mp mapped
        obtain ⟨layout', kept⟩ := layout.mapFrame accessing first
        have kept : KeepsOthers directory shared middle := by
          rcases settled index (Nat.le_refl _) (by omega) frame recorded with user | maps
          · exact kept user
          · obtain rfl := mapFrame_of_maps maps first
            exact .refl ..
        obtain ⟨layout'', kept'⟩ :=
            ih layout' (by omega) (fun page lower upper other found => by
          rcases settled page (by omega) (by omega) other found with
            user | ⟨entry, here, present, same⟩
          · exact .inl user
          · refine .inr ⟨entry, layout.mapFrame_entry accessing first here present ?_,
              present, same⟩
            intro table place
            have equal := sharePage_inj (by omega) (by omega) table place
            omega) rest
        exact ⟨layout'', kept.trans kept'⟩

/-- The loop leaves present pages alone that it does not map, or that map the recorded frame. -/
theorem Layout.mapStorage_entry (accessing : D.Accessing) (layout : shared.Layout)
    (mapped : shared.mapStorage D directory va perm framesStorage index count = .ok after)
    (here : shared.heap.memory.entry directory va' = some entry) (present : entry.present = true)
    (apart : ∀ page, index ≤ page → page < index + count →
      pdx va' = pdx (sharePage va page) → ptx va' = ptx (sharePage va page) →
        framesStorage[page]? = some entry.frame) :
    after.heap.memory.entry directory va' = some entry := by
  induction count generalizing shared index with
  | zero => exact Except.ok.inj mapped ▸ here
  | succ count ih =>
      rw [SharedMemory.mapStorage] at mapped
      split at mapped
      · cases mapped
      · rename_i frame recorded
        obtain ⟨middle, first, rest⟩ := bind_eq_ok.mp mapped
        obtain ⟨layout', -⟩ := layout.mapFrame accessing first
        have kept := layout.mapFrame_entry accessing first here present fun table place =>
          Option.some.inj ((apart index (Nat.le_refl _) (by omega) table place).symm.trans recorded)
        exact ih layout' rest kept fun page lower upper => apart page (by omega) (by omega)

/-- Every page of the loop maps the recorded frame. -/
theorem mapStorage_maps (accessing : D.Accessing) (layout : shared.Layout)
    (fits : index + count ≤ 2 ^ 20)
    (mapped : shared.mapStorage D directory va perm framesStorage index count = .ok after)
    {page : Nat} (lower : index ≤ page) (upper : page < index + count)
    (recorded : framesStorage[page]? = some frame) :
    after.heap.memory.Maps directory (sharePage va page) frame := by
  induction count generalizing shared index with
  | zero => omega
  | succ count ih =>
      rw [SharedMemory.mapStorage] at mapped
      split at mapped
      · cases mapped
      · rename_i found stored
        obtain ⟨middle, first, rest⟩ := bind_eq_ok.mp mapped
        obtain ⟨layout', -⟩ := layout.mapFrame accessing first
        by_cases same : page = index
        · subst same
          obtain rfl := Option.some.inj (stored.symm.trans recorded)
          obtain ⟨entry, here, present, frame⟩ := mapFrame_maps first
          refine ⟨entry, layout'.mapStorage_entry accessing rest here present ?_,
            present, frame⟩
          intro later lower upper table place
          have equal := sharePage_inj (by omega) (by omega) table place
          omega
        · exact ih layout' (by omega) rest (by omega) (by omega)

/-- The loop reads one recorded frame for each page. -/
theorem mapStorage_count
    (mapped : shared.mapStorage D directory va perm framesStorage index count = .ok after) :
    count = 0 ∨ index + count ≤ framesStorage.length := by
  induction count generalizing shared index with
  | zero => exact .inl rfl
  | succ count ih =>
      rw [SharedMemory.mapStorage] at mapped
      split at mapped
      · cases mapped
      · rename_i frame recorded
        obtain ⟨middle, -, rest⟩ := bind_eq_ok.mp mapped
        obtain ⟨inside, -⟩ := List.getElem?_eq_some_iff.mp recorded
        refine .inr ?_
        rcases ih rest with none | upper <;> omega

end Loops

end SharedMemory

end FosKernel
