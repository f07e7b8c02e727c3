import FosKernel.Disk.PageFileManager
import FosKernel.Lib.FramePool
import FosKernel.Trap.StoredPages

/-!
# The page file as a map

The operations of the page file manager change a pool of disk frames, which the pages
of all environments hold, as the operations of a finite map from environments and
pages to contents do. Every managed disk frame is free or belongs to one entry.
-/

namespace FosKernel

/-- The pages in the page file with their contents, which may not be known. -/
abbrev PageMap : Type := Nat × UserPage → Option (Option (Nat → UInt8))

namespace PageMap

/-- A page without contents is added, unless it is there. -/
def addEmpty (map : PageMap) (key : Nat × UserPage) : PageMap :=
  if (map key).isSome then map else Function.update map key (some none)

/-- A page is added, or its contents are replaced. -/
def add (map : PageMap) (key : Nat × UserPage) (content : Nat → UInt8) : PageMap :=
  Function.update map key (some (some content))

/-- A page is removed. -/
def remove (map : PageMap) (key : Nat × UserPage) : PageMap := Function.update map key none

/-- All pages of an environment are removed. -/
def free (map : PageMap) (env : Nat) : PageMap := fun key => if key.1 = env then none else map key

end PageMap

/-- The page at an index of a disk directory and an index of its table. -/
def userPageAt (pdeno : Fin (pdx userTop)) (pteno : Fin 1024) : UserPage :=
  ⟨pdeno * 2 ^ 22 + pteno * pageSize, by
    have bound : pdeno.1 < 955 := pdeno.2
    have bound' := pteno.2
    unfold IsUserPage userTop pageSize
    omega⟩

theorem pdx_userPageAt (pdeno : Fin (pdx userTop)) (pteno : Fin 1024) :
    pdx (userPageAt pdeno pteno) = pdeno := by
  have bound : pdeno.1 < 955 := pdeno.2
  have bound' := pteno.2
  unfold pdx userPageAt pageSize
  dsimp only
  omega

theorem ptx_userPageAt (pdeno : Fin (pdx userTop)) (pteno : Fin 1024) :
    ptx (userPageAt pdeno pteno) = pteno := by
  have bound' := pteno.2
  unfold ptx userPageAt pageSize
  dsimp only
  omega

/-- The pages of an address space, in the order of the disk tables. -/
def userPages : List UserPage :=
  (List.finRange (pdx userTop)).flatMap fun pdeno =>
    (List.finRange 1024).map fun pteno => userPageAt pdeno pteno

theorem mem_userPages (page : UserPage) : page ∈ userPages := by
  obtain ⟨va, aligned, user⟩ := page
  have bound : pdx va < pdx userTop := by
    unfold pdx
    unfold userTop at user ⊢
    omega
  have bound' : ptx va < 1024 := Nat.mod_lt _ (by decide)
  refine List.mem_flatMap.mpr ⟨⟨pdx va, bound⟩, List.mem_finRange _, List.mem_map.mpr
    ⟨⟨ptx va, bound'⟩, List.mem_finRange _, Subtype.ext ?_⟩⟩
  change pdx va * 2 ^ 22 + ptx va * pageSize = va
  unfold pdx ptx pageSize
  unfold userTop at user
  unfold pageSize at aligned
  omega

theorem nodup_userPages : userPages.Nodup := by
  refine List.nodup_flatMap.mpr ⟨fun pdeno _ => (List.nodup_finRange _).map
    fun pteno pteno' same => ?_,
    (List.nodup_finRange _).imp fun different => ?_⟩
  · have index := congrArg (fun page : UserPage => ptx page) same
    simp only [ptx_userPageAt] at index
    exact Fin.ext index
  · rename_i pdeno pdeno'
    intro page listed listed'
    obtain ⟨pteno, -, rfl⟩ := List.mem_map.mp listed
    obtain ⟨pteno', -, same⟩ := List.mem_map.mp listed'
    have region := congrArg (fun page : UserPage => pdx page) same
    simp only [pdx_userPageAt] at region
    exact different (Fin.ext region.symm)

@[simp] theorem Disk.freeDiskFrame_frames (disk : Disk) (dfn : Nat) :
    (disk.freeDiskFrame dfn).frames = disk.frames := by
  unfold freeDiskFrame
  split <;> rfl

namespace Kernel

variable {kernel before after : Kernel} {env va : Nat} {free : List Nat} {managed : Set Nat}
  {map : PageMap}

/-- The disk frame of a page, if it has one. -/
def heldFrame (kernel : Kernel) (key : Nat × UserPage) : Option Nat :=
  if (kernel.envs key.1).diskFrame key.2 = 0 then none
  else some ((kernel.envs key.1).diskFrame key.2)

/-- The disk frames, held by the pages of all environments. -/
def pagePool (kernel : Kernel) (free : List Nat) :
    FramePool (Nat × UserPage) Nat (Nat → UInt8) where
  holder := kernel.heldFrame
  content := kernel.disk.frames
  free := free

/-- The page file holds the pages of a map, and every managed disk frame is free or belongs to one
page. -/
structure Stores (kernel : Kernel) (managed : Set Nat) (free : List Nat) (map : PageMap) :
    Prop where
  represents : kernel.disk.freeFrameList.Represents free
  accounts : (kernel.pagePool free).Accounts managed
  records : (kernel.pagePool free).Records map

theorem heldFrame_eq_none (kernel : Kernel) (key : Nat × UserPage) :
    kernel.heldFrame key = none ↔ (kernel.envs key.1).diskFrame key.2 = 0 := by
  unfold heldFrame
  split
  · rename_i none
    exact ⟨fun _ => none, fun _ => rfl⟩
  · rename_i some
    exact ⟨nofun, fun none => absurd none some⟩

theorem heldFrame_eq_some {dfn : Nat} {key : Nat × UserPage}
    (held : kernel.heldFrame key = some dfn) : (kernel.envs key.1).diskFrame key.2 = dfn := by
  unfold heldFrame at held
  split at held
  · cases held
  · exact Option.some.inj held

/-- Storing a disk frame number changes the entry of one page. -/
theorem heldFrame_setDiskFrame {page : UserPage} {dfn : Nat}
    (envs : after.envs =
      Function.update before.envs env ((before.envs env).setDiskFrame page dfn)) :
    after.heldFrame =
      Function.update before.heldFrame (env, page) (if dfn = 0 then none else some dfn) := by
  funext ⟨env', page'⟩
  rw [Function.update_apply]
  unfold heldFrame
  rw [envs]
  dsimp only
  by_cases here : env' = env
  · subst here
    rw [Function.update_self]
    by_cases there : page' = page
    · rw [if_pos (congrArg _ there), there, Env.diskFrame_setDiskFrame]
    · have different : roundDown page'.1 pageSize ≠ roundDown page.1 pageSize := by
        rw [page'.2.roundDown_eq, page.2.roundDown_eq]
        exact fun equal => there (Subtype.ext equal)
      rw [if_neg fun equal => there (congrArg Prod.snd equal),
        Env.diskFrame_setDiskFrame_of_ne _ _ different page'.2.lt page.2.lt]
  · rw [if_neg fun equal => here (congrArg Prod.fst equal), Function.update_of_ne here]

/-- A new disk table changes no entry. -/
theorem heldFrame_createDiskTable (kernel : Kernel) (env va : Nat) :
    (kernel.setEnv env ((kernel.envs env).createDiskTable va)).heldFrame = kernel.heldFrame := by
  funext ⟨env', page⟩
  unfold heldFrame
  by_cases here : env' = env
  · subst here
    rw [setEnv_self, Env.diskFrame_createDiskTable]
  · rw [setEnv_of_ne _ _ _ here]

/-- What taking a disk frame for a page does. -/
structure Reserved (before : Kernel) (managed : Set Nat) (map : PageMap) (key : Nat × UserPage)
    (after : Kernel) : Prop where
  stores : ∃ free, Stores after managed free (map.addEmpty key)
  held : (after.heldFrame key).isSome = true
  memory : after.memory = before.memory
  directory : ∀ env, after.directory env = before.directory env

/-- Page directories stay when an environment keeps its own. -/
theorem directory_of_update {value : Env} (envs :
    after.envs = Function.update before.envs env value)
    (same : value.envPageDirectory = before.directory env) (other : Nat) :
    after.directory other = before.directory other := by
  unfold directory at same ⊢
  rw [envs]
  by_cases here : other = env
  · rw [here, Function.update_self, same]
  · rw [Function.update_of_ne here]

/-- A page without a disk frame takes the first free one, if there is one. -/
theorem addDiskFrame_spec (stores : Stores kernel managed free map) (nonzero : 0 ∉ managed)
    (env : Nat) (page : UserPage) :
    Ends (kernel.addDiskFrame env page)
      (fun (added, after) =>
        (added = true ∧ Reserved kernel managed map (env, page) after) ∨
          (added = false ∧ free = [] ∧ Stores after managed free map))
      fun _ => False := by
  have below : ¬ kernelBase ≤ page.1 := by
    have user := page.2.2
    unfold userTop at user
    unfold kernelBase
    omega
  have created := heldFrame_createDiskTable kernel env page
  have pool : (kernel.setEnv env ((kernel.envs env).createDiskTable page)).pagePool free =
      kernel.pagePool free := FramePool.ext created rfl rfl
  have stores' : Stores (kernel.setEnv env ((kernel.envs env).createDiskTable page)) managed free
      map := ⟨stores.represents, pool ▸ stores.accounts, pool ▸ stores.records⟩
  unfold addDiskFrame
  rw [if_neg below]
  dsimp only
  rw [setEnv_self, Env.diskFrame_createDiskTable]
  by_cases unstored : (kernel.envs env).diskFrame page = 0
  · rw [if_pos unstored]
    have empty : kernel.heldFrame (env, page) = none := (heldFrame_eq_none ..).mpr unstored
    have unknown : map (env, page) = none := by
      have held := stores.records.held (env, page)
      rwa [show (kernel.pagePool free).holder (env, page) = none from empty, Option.isSome_none,
        Option.isSome_eq_false_iff, Option.isNone_iff_eq_none] at held
    have disk : (kernel.setEnv env ((kernel.envs env).createDiskTable page)).disk =
      kernel.disk := rfl
    rw [disk]
    cases allocated : kernel.disk.allocateDiskFrame with
    | none =>
        refine .ok (.inr ⟨rfl, ?_, stores'⟩)
        cases free with
        | nil => rfl
        | cons head rest =>
            have first := stores.represents.first_eq
            rw [List.head?_cons] at first
            simp [Disk.allocateDiskFrame, first] at allocated
    | some result =>
        obtain ⟨dfn, disk⟩ := result
        obtain ⟨rest, rfl, represents, frames⟩ :=
          Disk.allocateDiskFrame_cases stores.represents allocated
        have member : dfn ∈ managed :=
          (stores.accounts.exact dfn).mpr (.inl (List.mem_cons_self ..))
        have set : dfn ≠ 0 := fun zero => nonzero (zero ▸ member)
        dsimp only
        rw [Env.setDiskFrame_createDiskTable]
        generalize shape : (({ kernel.setEnv env ((kernel.envs env).createDiskTable page) with
          disk := disk } : Kernel).setEnv env ((kernel.envs env).setDiskFrame page dfn)) = after
        have envs : after.envs =
            Function.update kernel.envs env ((kernel.envs env).setDiskFrame page dfn) := by
          rw [← shape]
          exact Function.update_idem ..
        have held : after.heldFrame =
            Function.update kernel.heldFrame (env, page) (some dfn) := by
          rw [heldFrame_setDiskFrame envs, if_neg set]
        have took : after.pagePool rest = (kernel.pagePool (dfn :: rest)).take
            (env, page) dfn rest := by
          refine FramePool.ext held ?_ rfl
          rw [← shape]
          exact frames
        refine .ok (.inl ⟨rfl, ⟨rest, ?_, ?_, ?_⟩, ?_, ?_, directory_of_update envs rfl⟩)
        · rw [← shape]
          exact represents
        · rw [took]
          exact stores.accounts.take rfl empty
        · rw [took, PageMap.addEmpty, unknown, Option.isSome_none, if_neg Bool.false_ne_true]
          exact stores.records.take (env, page) dfn rest
        · rw [held, Function.update_self, Option.isSome_some]
        · rw [← shape]
          rfl
  · rw [if_neg unstored]
    have held : (kernel.heldFrame (env, page)).isSome = true := by
      unfold heldFrame
      rw [if_neg unstored, Option.isSome_some]
    have known : (map (env, page)).isSome = true := (stores.records.held (env, page)).trans held
    refine .ok (.inl ⟨rfl, ⟨free, ?_⟩, ?_, rfl, directory_of_update rfl rfl⟩)
    · rw [PageMap.addEmpty, if_pos known]
      exact stores'
    · rw [created]
      exact held

/-- Writing the disk frame of a page. -/
theorem Stores.write (stores : Stores before managed free map) {key : Nat × UserPage}
    {content : Nat → UInt8} (held : (before.heldFrame key).isSome = true)
    (envs : after.envs = before.envs)
    (disk : after.disk = { before.disk with
      frames := Function.update before.disk.frames
        ((before.envs key.1).diskFrame key.2) content }) :
    Stores after managed free (Function.update map key (some (some content))) := by
  obtain ⟨dfn, holds⟩ := Option.isSome_iff_exists.mp held
  have wrote : after.pagePool free = (before.pagePool free).write key content := by
    rw [FramePool.write_eq holds]
    refine FramePool.ext ?_ ?_ rfl
    · funext other
      change after.heldFrame other = before.heldFrame other
      unfold heldFrame
      rw [envs]
    · change after.disk.frames = Function.update before.disk.frames dfn content
      rw [disk, heldFrame_eq_some holds]
  refine ⟨?_, ?_, ?_⟩
  · rw [disk]
    exact stores.represents
  · rw [wrote]
    exact stores.accounts.write holds
  · rw [wrote]
    exact stores.records.write stores.accounts holds

/-- `pf_add_env_page` adds the page, unless there is no disk frame for it. -/
theorem pfAddEnvPage_spec (stores : Stores kernel managed free map) (nonzero : 0 ∉ managed)
    (env : Nat) (page : UserPage) (dataSrc : Nat → UInt8) :
    Ends (kernel.pfAddEnvPage env page dataSrc)
      (fun (added, after) =>
        (added = true ∧ ∃ free', Stores after managed free' (map.add (env, page) dataSrc)) ∨
          (added = false ∧ free = [] ∧ Stores after managed free map))
      fun _ => False := by
  unfold pfAddEnvPage
  apply (addDiskFrame_spec stores nonzero env page).bind
  rintro ⟨added, reserved⟩ (⟨rfl, ⟨⟨free', stores'⟩, held, -, -⟩⟩ | ⟨rfl,
    full, stores'⟩)
  · refine .ok (.inl ⟨rfl, free', ?_⟩)
    have wrote : Stores { reserved with
        disk := { reserved.disk with
          frames := Function.update reserved.disk.frames ((reserved.envs env).diskFrame page)
            dataSrc } } managed free'
        (Function.update (map.addEmpty (env, page)) (env, page) (some (some dataSrc))) :=
      stores'.write held rfl rfl
    have same : Function.update (map.addEmpty (env, page)) (env, page) (some (some dataSrc)) =
        map.add (env, page) dataSrc := by
      unfold PageMap.addEmpty PageMap.add
      split
      · rfl
      · exact Function.update_idem ..
    rw [same] at wrote
    exact wrote
  · exact .ok (.inr ⟨rfl, full, stores'⟩)

/-- `pf_add_empty_env_page`. -/
theorem pfAddEmptyEnvPageWith_spec (stores : Stores kernel managed free map)
    (nonzero : 0 ∉ managed)
    (env : Nat) (page : UserPage) (initializeByZero : Bool) :
    Ends (kernel.pfAddEmptyEnvPageWith env page initializeByZero)
      (fun (added, after) =>
        (added = true ∧ ∃ free', Stores after managed free'
            (if initializeByZero then map.add (env, page) fun _ => 0 else
              map.addEmpty (env, page))) ∨
          (added = false ∧ free = [] ∧ Stores after managed free map))
      fun _ => False := by
  unfold pfAddEmptyEnvPageWith
  cases initializeByZero with
  | true => exact pfAddEnvPage_spec stores nonzero env page _
  | false =>
      apply (addDiskFrame_spec stores nonzero env page).mono _ fun _ never => never
      rintro ⟨added, after⟩ (⟨rfl, reserved⟩ | full)
      · exact .inl ⟨rfl, reserved.stores⟩
      · exact .inr full

/-- Freeing the disk frame of a key drops it. -/
theorem freeDiskFrame_represents {pool : FramePool (Nat × UserPage) Nat (Nat → UInt8)}
    {disk : Disk}
    {key : Nat × UserPage} {dfn : Nat} (represents : disk.freeFrameList.Represents pool.free)
    (accounts : pool.Accounts managed) (holds : pool.holder key = if dfn = 0 then
      none else some dfn) :
    (disk.freeDiskFrame dfn).freeFrameList.Represents (pool.drop key).free := by
  unfold Disk.freeDiskFrame FramePool.drop
  split at holds
  · rename_i zero
    rw [if_pos zero, holds]
    exact represents
  · rename_i set
    rw [if_neg set, holds]
    exact represents.insertHead (accounts.apart key dfn holds)

/-- `pf_remove_env_page` drops the disk frame of the page. -/
theorem pfRemoveEnvPage_spec (stores : Stores kernel managed free map) (env : Nat)
    (page : UserPage) :
    ∃ free', Stores (kernel.pfRemoveEnvPage env page) managed free' (map.remove (env, page)) := by
  have dropped : ((kernel.pagePool free).drop (env, page)).Records (map.remove (env, page)) :=
    stores.records.drop (env, page)
  have empty : (kernel.envs env).diskFrame page = 0 →
      Stores kernel managed free (map.remove (env, page)) := by
    intro unstored
    have same : (kernel.pagePool free).drop (env, page) = kernel.pagePool free := by
      unfold FramePool.drop
      rw [show (kernel.pagePool free).holder (env, page) = none from
        (heldFrame_eq_none ..).mpr unstored]
    rw [same] at dropped
    exact ⟨stores.represents, stores.accounts, dropped⟩
  unfold pfRemoveEnvPage
  cases directory : (kernel.envs env).diskEnvPgdir with
  | none =>
      refine ⟨free, empty ?_⟩
      unfold Env.diskFrame
      rw [directory]
  | some tables =>
      cases table : tables (pdx page) with
      | none =>
          refine ⟨free, ?_⟩
          simp only [table]
          refine empty ?_
          unfold Env.diskFrame
          rw [directory]
          simp only [table]
      | some entries =>
          simp only [table]
          have stored : (kernel.envs env).diskFrame page = entries (ptx page) := by
            unfold Env.diskFrame
            rw [directory]
            simp only [table]
          rw [← stored]
          generalize shape : (({ kernel with
            disk := kernel.disk.freeDiskFrame ((kernel.envs env).diskFrame page) } :
              Kernel).setEnv env
              ((kernel.envs env).setDiskFrame page 0)) = after
          have envs : after.envs =
              Function.update kernel.envs env ((kernel.envs env).setDiskFrame page 0) := by
            rw [← shape]
            rfl
          have disk : after.disk = kernel.disk.freeDiskFrame
              ((kernel.envs env).diskFrame page) := by
            rw [← shape]
            rfl
          have same : after.pagePool ((kernel.pagePool free).drop (env, page)).free =
              (kernel.pagePool free).drop (env, page) := by
            refine FramePool.ext ?_ ?_ rfl
            · rw [FramePool.holder_drop]
              exact (heldFrame_setDiskFrame envs).trans (by rw [if_pos rfl]; rfl)
            · rw [FramePool.content_drop]
              exact (congrArg Disk.frames disk).trans (Disk.freeDiskFrame_frames ..)
          refine ⟨_, ?_, same ▸ stores.accounts.drop (env, page), same ▸ dropped⟩
          rw [disk]
          exact freeDiskFrame_represents stores.represents stores.accounts rfl

/-- Freeing the disk frames of several pages of an environment. -/
theorem freeDiskFrames_represents (env : Nat) (pages : List UserPage) :
    ∀ (pool : FramePool (Nat × UserPage) Nat (Nat → UInt8)) (disk : Disk)
      (dfn : UserPage → Nat),
      pages.Nodup → disk.freeFrameList.Represents pool.free → pool.Accounts managed →
      (∀ page ∈ pages, pool.holder (env, page) =
        if dfn page = 0 then none else some (dfn page)) →
      (pages.foldl (fun disk page => disk.freeDiskFrame (dfn page)) disk).freeFrameList.Represents
        ((pages.map fun page => (env, page)).foldl FramePool.drop pool).free := by
  induction pages with
  | nil => exact fun _ _ _ _ represents _ _ => represents
  | cons page pages ih =>
      intro pool disk dfn nodup represents accounts holds
      obtain ⟨fresh, nodup⟩ := List.nodup_cons.mp nodup
      rw [List.foldl_cons, List.map_cons, List.foldl_cons]
      refine ih _ _ dfn nodup (freeDiskFrame_represents represents accounts
        (holds page (List.mem_cons_self ..))) (accounts.drop _) fun other listed => ?_
      have different : (env, other) ≠ (env, page) := by
        intro same
        have here : other = page := congrArg Prod.snd same
        rw [here] at listed
        exact fresh listed
      rw [FramePool.holder_drop, Function.update_of_ne different]
      exact holds other (List.mem_cons_of_mem _ listed)

theorem freeDiskFrames_frames (dfn : UserPage → Nat) (pages : List UserPage) : ∀ disk : Disk,
    (pages.foldl (fun disk page => disk.freeDiskFrame (dfn page)) disk).frames = disk.frames := by
  induction pages with
  | nil => exact fun _ => rfl
  | cons page pages ih =>
      intro disk
      rw [List.foldl_cons, ih, Disk.freeDiskFrame_frames]

/-- The loops of `pf_free_env` visit the user pages. -/
theorem pfFreeEnv_eq (stored : (kernel.envs env).diskEnvPgdir.isSome = true) :
    kernel.pfFreeEnv env = .ok
      (({ kernel with
          disk := userPages.foldl
            (fun disk (page : UserPage) => disk.freeDiskFrame ((kernel.envs env).diskFrame page))
            kernel.disk } : Kernel).setEnv env
        { kernel.envs env with diskEnvPgdir := none }) := by
  obtain ⟨tables, directory⟩ := Option.isSome_iff_exists.mp stored
  have region : ∀ (disk : Disk) (pdeno : Fin (pdx userTop)),
      disk.freeDiskTable (tables pdeno) =
      ((List.finRange 1024).map fun pteno => userPageAt pdeno pteno).foldl
        (fun disk (page : UserPage) => disk.freeDiskFrame ((kernel.envs env).diskFrame page))
            disk := by
    intro disk pdeno
    have entry : ∀ pteno, (kernel.envs env).diskFrame (userPageAt pdeno pteno) =
        (tables pdeno).elim 0 fun pt => pt pteno := by
      intro pteno
      cases table : tables pdeno with
      | none =>
          simp only [Env.diskFrame, directory, pdx_userPageAt, table, Option.elim]
      | some pt =>
          simp only [Env.diskFrame, directory, pdx_userPageAt, ptx_userPageAt, table, Option.elim]
    simp only [List.foldl_map, entry]
    unfold Disk.freeDiskTable
    cases tables pdeno with
    | none =>
        dsimp only [Option.elim]
        exact (List.foldl_fixed _).symm
    | some pt =>
        dsimp only [Option.elim]
        rw [← List.map_coe_finRange_eq_range, List.foldl_map]
  have regions : List.range (pdx userTop) = (List.finRange (pdx userTop)).map
      fun pdeno => pdeno.1 :=
    List.map_coe_finRange_eq_range.symm
  unfold pfFreeEnv userPages
  rw [directory]
  dsimp only
  rw [List.foldl_flatMap, regions, List.foldl_map]
  simp only [region]

/-- Freeing the disk frames of all pages of an environment removes its pages. -/
theorem Stores.freePages {pages : List UserPage} (stores : Stores before managed free map)
    (nodup : pages.Nodup) (all : ∀ page, page ∈ pages)
    (disk : after.disk = pages.foldl
      (fun disk (page : UserPage) => disk.freeDiskFrame ((before.envs env).diskFrame page))
        before.disk)
    (envs : after.envs =
      Function.update before.envs env { before.envs env with diskEnvPgdir := none }) :
    ∃ free', Stores after managed free' (map.free env) := by
  have listed : ∀ key : Nat × UserPage, key ∈ pages.map (fun page => (env, page)) ↔
      key.1 = env := by
    intro key
    constructor
    · intro member
      obtain ⟨page, -, rfl⟩ := List.mem_map.mp member
      rfl
    · rintro rfl
      exact List.mem_map.mpr ⟨key.2, all key.2, rfl⟩
  have same : after.pagePool ((pages.map fun page => (env, page)).foldl FramePool.drop
      (before.pagePool free)).free =
      (pages.map fun page => (env, page)).foldl FramePool.drop (before.pagePool free) := by
    refine FramePool.ext ?_ ?_ rfl
    · funext key
      rw [FramePool.holder_dropAll]
      simp only [listed]
      change after.heldFrame key = if key.1 = env then none else before.heldFrame key
      unfold heldFrame
      rw [envs, Function.update_apply]
      split
      · exact if_pos rfl
      · rfl
    · rw [FramePool.content_dropAll]
      exact (congrArg Disk.frames disk).trans (freeDiskFrames_frames ..)
  refine ⟨_, ?_, same ▸ stores.accounts.dropAll _, ?_⟩
  · rw [disk]
    exact freeDiskFrames_represents env pages (before.pagePool free) before.disk _ nodup
      stores.represents stores.accounts fun page _ => rfl
  · rw [same]
    have dropped := stores.records.dropAll (pages.map fun page => (env, page))
    simp only [listed] at dropped
    exact dropped

/-- `pf_free_env` drops the disk frames of all pages of an environment. -/
theorem pfFreeEnv_spec (stores : Stores kernel managed free map)
    (stored : (kernel.envs env).diskEnvPgdir.isSome = true) :
    Ends (kernel.pfFreeEnv env)
      (fun after => ∃ free', Stores after managed free' (map.free env)) fun _ => False := by
  have nodup := nodup_userPages
  have all := mem_userPages
  rw [pfFreeEnv_eq stored]
  generalize userPages = pages at nodup all ⊢
  exact .ok (stores.freePages nodup all rfl rfl)

/-- The contents of a page in memory. -/
def pageBytes (kernel : Kernel) (env va : Nat) : Nat → UInt8 :=
  kernel.memory.bytes (kernel.pageEntry env va).frame

/-- `pf_update_env_page` stores the contents that the page has in memory. -/
theorem pfUpdateEnvPage_spec (stores : Stores kernel managed free map) (nonzero : 0 ∉ managed)
    (env : Nat) (page : UserPage) :
    Ends (kernel.pfUpdateEnvPage env page)
      (fun after => ∃ free',
        Stores after managed free' (map.add (env, page) (kernel.pageBytes env page)))
      (fun _ => kernel.memory.slot (kernel.directory env) page = none ∨
        map (env, page) = none ∧ (free = [] ∨ inHeapOrStack page = false)) := by
  have below : ¬ kernelBase ≤ page.1 := by
    have user := page.2.2
    unfold userTop at user
    unfold kernelBase
    omega
  have writes : ∀ reserved : Kernel, Reserved kernel managed map (env, page) reserved →
      Ends (reserved.writeDiskPage env page)
        (fun after => ∃ free',
          Stores after managed free' (map.add (env, page) (kernel.pageBytes env page)))
        (fun _ => kernel.memory.slot (kernel.directory env) page = none ∨
          map (env, page) = none ∧ (free = [] ∨ inHeapOrStack page = false)) := by
    rintro reserved ⟨⟨free', stores'⟩, held, memory, directory⟩
    unfold writeDiskPage
    rw [memory, directory]
    cases located : kernel.memory.slot (kernel.directory env) page with
    | none => exact .error (.inl rfl)
    | some slot =>
        refine .ok ⟨free', ?_⟩
        have same : Function.update (map.addEmpty (env, page)) (env, page)
            (some (some (kernel.pageBytes env page))) =
              map.add (env, page) (kernel.pageBytes env page) := by
          unfold PageMap.addEmpty PageMap.add
          split
          · rfl
          · exact Function.update_idem ..
        rw [← same]
        refine stores'.write held rfl ?_
        rw [pageBytes, pageEntry_eq located]
  have unknown : (kernel.envs env).diskFrame page = 0 → map (env, page) = none := by
    intro unstored
    have held := stores.records.held (env, page)
    rwa [show (kernel.pagePool free).holder (env, page) = none from
      (heldFrame_eq_none ..).mpr unstored, Option.isSome_none, Option.isSome_eq_false_iff,
      Option.isNone_iff_eq_none] at held
  unfold pfUpdateEnvPage
  rw [if_neg below]
  by_cases unstored : (kernel.envs env).diskFrame page = 0
  · rw [if_pos unstored]
    cases inside : inHeapOrStack page with
    | false => exact .error (.inr ⟨unknown unstored, .inr rfl⟩)
    | true =>
        rw [if_pos rfl, pfAddEmptyEnvPage_eq_with]
        have added := addDiskFrame_spec stores nonzero env page
        cases returned : kernel.addDiskFrame env page with
        | error halt =>
            rw [returned] at added
            exact added.elim
        | ok result =>
            obtain ⟨found, reserved⟩ := result
            rw [returned] at added
            rw [pfAddEmptyEnvPageWith, if_neg Bool.false_ne_true, returned]
            rcases added with ⟨rfl, reserves⟩ | ⟨rfl, full, -⟩
            · have wrote := writes reserved reserves
              rw [inside] at wrote
              exact wrote
            · exact .error (.inr ⟨unknown unstored, .inl full⟩)
  · rw [if_neg unstored]
    have held : (kernel.heldFrame (env, page)).isSome = true := by
      unfold heldFrame
      rw [if_neg unstored, Option.isSome_some]
    have known : (map (env, page)).isSome = true := (stores.records.held (env, page)).trans held
    refine writes kernel ⟨⟨free, ?_⟩, held, rfl, fun _ => rfl⟩
    rwa [PageMap.addEmpty, if_pos known]

/-- A page that is not translated is not present. -/
theorem translate_eq_none (kernel : Kernel) (env va : Nat) :
    kernel.memory.translate (kernel.directory env) va = none ↔
        kernel.pagePresent env va = false := by
  unfold Memory.translate pagePresent
  cases kernel.memory.entry (kernel.directory env) va with
  | none => exact ⟨fun _ => rfl, fun _ => rfl⟩
  | some entry => cases present : entry.present <;> simp [present]

/-- `pf_read_env_page` brings the contents of a present page into memory. -/
theorem pfReadEnvPage_spec (stores : Stores kernel managed free map) (env : Nat) (page : UserPage) :
    Ends (kernel.pfReadEnvPage env page)
      (fun (found, after) => found = (map (env, page)).isSome ∧
        (found = false → after = kernel) ∧
        (∀ content, map (env, page) = some (some content) →
          after.pageBytes env page = content) ∧
        Stores after managed free map)
      (fun _ => kernel.pagePresent env page = false) := by
  have known := stores.records.held (env, page)
  by_cases unstored : (kernel.envs env).diskFrame page = 0
  · have empty : (kernel.pagePool free).holder (env, page) = none :=
      (heldFrame_eq_none ..).mpr unstored
    rw [empty, Option.isSome_none] at known
    rw [show kernel.pfReadEnvPage env page = .ok (false, kernel) from
      pfReadEnvPage_of_unstored unstored kernel.memory]
    refine .ok ⟨known.symm, fun _ => rfl, fun content is => ?_, stores⟩
    rw [is] at known
    cases known
  · have held : (kernel.pagePool free).holder (env, page) =
        some ((kernel.envs env).diskFrame page) := if_neg unstored
    cases present : kernel.pagePresent env page with
    | false =>
        unfold pfReadEnvPage
        rw [page.2.roundDown_eq, if_neg unstored]
        dsimp only
        rw [(translate_eq_none ..).mpr present]
        exact .error rfl
    | true =>
        obtain ⟨slot, located⟩ := exists_slot present
        rw [pagePresent_eq located] at present
        rw [kernel.pfReadEnvPage_of_stored located present unstored]
        rw [held, Option.isSome_some] at known
        refine .ok ⟨known.symm, nofun, fun content is => ?_, stores.represents, stores.accounts,
          stores.records⟩
        have bytes : ∀ after : Kernel, ∀ entry : PageTableEntry,
            after.memory.slot (after.directory env) page = some slot →
              after.memory.tables slot = entry →
              entry.frame = (kernel.memory.tables slot).frame →
              after.memory.bytes = Function.update kernel.memory.bytes
                (kernel.memory.tables slot).frame
                (kernel.disk.frames ((kernel.envs env).diskFrame page)) →
              after.pageBytes env page = content := by
          intro after entry located' same frame bytes
          rw [pageBytes, pageEntry_eq located', same, frame, bytes, Function.update_self]
          exact stores.records.content _ _ content held is
        exact bytes _ _ located (Function.update_self ..) (PageTableEntry.setPerms_frame ..) rfl

section Rounding

variable (kernel : Kernel) (env va : Nat)

theorem createDiskTable_roundDown (value : Env) :
    value.createDiskTable (roundDown va pageSize) = value.createDiskTable va := by
  unfold Env.createDiskTable
  rw [pdx_roundDown]

theorem setDiskFrame_roundDown (value : Env) (dfn : Nat) :
    value.setDiskFrame (roundDown va pageSize) dfn = value.setDiskFrame va dfn := by
  unfold Env.setDiskFrame
  rw [pdx_roundDown, ptx_roundDown]

/-- The page file operations depend on the page of an address only. -/
theorem addDiskFrame_roundDown :
    kernel.addDiskFrame env (roundDown va pageSize) = kernel.addDiskFrame env va := by
  unfold addDiskFrame
  simp only [le_roundDown_iff (show kernelBase % pageSize = 0 by decide), createDiskTable_roundDown,
    Env.diskFrame_roundDown, setDiskFrame_roundDown]

theorem pfAddEnvPage_roundDown (dataSrc : Nat → UInt8) :
    kernel.pfAddEnvPage env (roundDown va pageSize) dataSrc =
        kernel.pfAddEnvPage env va dataSrc := by
  unfold pfAddEnvPage
  simp only [addDiskFrame_roundDown, Env.diskFrame_roundDown]

theorem pfAddEmptyEnvPageWith_roundDown (initializeByZero : Bool) :
    kernel.pfAddEmptyEnvPageWith env (roundDown va pageSize) initializeByZero =
      kernel.pfAddEmptyEnvPageWith env va initializeByZero := by
  unfold pfAddEmptyEnvPageWith
  rw [addDiskFrame_roundDown, pfAddEnvPage_roundDown]

theorem pfUpdateEnvPage_roundDown :
    kernel.pfUpdateEnvPage env (roundDown va pageSize) = kernel.pfUpdateEnvPage env va := by
  unfold pfUpdateEnvPage pfAddEmptyEnvPage writeDiskPage
  simp only [le_roundDown_iff (show kernelBase % pageSize = 0 by decide), Env.diskFrame_roundDown,
    setDiskFrame_roundDown, Memory.slot_roundDown, inHeapOrStack_roundDown]

theorem pfReadEnvPage_roundDown :
    kernel.pfReadEnvPage env (roundDown va pageSize) = kernel.pfReadEnvPage env va := by
  have idem : roundDown (roundDown va pageSize) pageSize = roundDown va pageSize := by
    unfold roundDown pageSize
    omega
  unfold pfReadEnvPage
  rw [idem]

theorem pfRemoveEnvPage_roundDown :
    kernel.pfRemoveEnvPage env (roundDown va pageSize) = kernel.pfRemoveEnvPage env va := by
  unfold pfRemoveEnvPage
  rw [pdx_roundDown, ptx_roundDown, setDiskFrame_roundDown]

end Rounding

/-- A call of the page file manager on a user address, with what it does to the map; or anything
that leaves the page file alone. -/
inductive PageFileMove (before : Kernel × PageMap) : Kernel × PageMap → Prop
  | addEmpty {added : Bool} {after : Kernel} (env va : Nat) (user : va < userTop)
      (initializeByZero : Bool)
      (returned : before.1.pfAddEmptyEnvPageWith env va initializeByZero = .ok (added, after)) :
      PageFileMove before (after,
        if added then
          if initializeByZero then before.2.add (env, .of va user) fun _ => 0
          else before.2.addEmpty (env, .of va user)
        else before.2)
  | add {added : Bool} {after : Kernel} (env va : Nat) (user : va < userTop)
    (dataSrc : Nat → UInt8)
      (returned : before.1.pfAddEnvPage env va dataSrc = .ok (added, after)) :
      PageFileMove before
        (after, if added then before.2.add (env, .of va user) dataSrc else before.2)
  | update {after : Kernel} (env va : Nat) (user : va < userTop)
      (returned : before.1.pfUpdateEnvPage env va = .ok after) :
      PageFileMove before (after, before.2.add (env, .of va user) (before.1.pageBytes env va))
  | read {found : Bool} {after : Kernel} (env va : Nat) (user : va < userTop)
      (returned : before.1.pfReadEnvPage env va = .ok (found, after)) :
      PageFileMove before (after, before.2)
  | remove (env va : Nat) (user : va < userTop) :
      PageFileMove before (before.1.pfRemoveEnvPage env va, before.2.remove (env, .of va user))
  | free {after : Kernel} (env : Nat)
      (stored : (before.1.envs env).diskEnvPgdir.isSome = true)
      (returned : before.1.pfFreeEnv env = .ok after) :
      PageFileMove before (after, before.2.free env)
  | others {after : Kernel} (disk : after.disk = before.1.disk)
      (directories : ∀ env, (after.envs env).diskEnvPgdir = (before.1.envs env).diskEnvPgdir) :
      PageFileMove before (after, before.2)

theorem pageBytes_roundDown (kernel : Kernel) (env va : Nat) :
    kernel.pageBytes env (roundDown va pageSize) = kernel.pageBytes env va := by
  unfold pageBytes
  rw [pageEntry_roundDown]

/-- Every call keeps the page file in step with the map. -/
theorem PageFileMove.stores {before after : Kernel × PageMap} (move : PageFileMove before after)
    (nonzero : 0 ∉ managed) (stores : ∃ free, Stores before.1 managed free before.2) :
    ∃ free, Stores after.1 managed free after.2 := by
  obtain ⟨free, stores⟩ := stores
  cases move with
  | addEmpty env va user initializeByZero returned =>
      rw [← pfAddEmptyEnvPageWith_roundDown] at returned
      rcases (pfAddEmptyEnvPageWith_spec stores nonzero env (.of va user) initializeByZero).of_ok
        returned with ⟨rfl, stores⟩ | ⟨rfl, -, stores⟩
      · exact stores
      · exact ⟨free, stores⟩
  | add env va user dataSrc returned =>
      rw [← pfAddEnvPage_roundDown] at returned
      rcases (pfAddEnvPage_spec stores nonzero env (.of va user) dataSrc).of_ok returned with
        ⟨rfl, stores⟩ | ⟨rfl, -, stores⟩
      · exact stores
      · exact ⟨free, stores⟩
  | update env va user returned =>
      rw [← pfUpdateEnvPage_roundDown] at returned
      have stores := (pfUpdateEnvPage_spec stores nonzero env (.of va user)).of_ok returned
      rwa [UserPage.of, pageBytes_roundDown] at stores
  | read env va user returned =>
      rw [← pfReadEnvPage_roundDown] at returned
      exact ⟨free, ((pfReadEnvPage_spec stores env (.of va user)).of_ok returned).2.2.2⟩
  | remove env va user =>
      rw [← pfRemoveEnvPage_roundDown]
      exact pfRemoveEnvPage_spec stores env (.of va user)
  | free env stored returned => exact (pfFreeEnv_spec stores stored).of_ok returned
  | @others next disk directories =>
      refine ⟨free, ?_⟩
      have same : next.pagePool free = before.1.pagePool free := by
        refine FramePool.ext ?_ (congrArg Disk.frames disk) rfl
        funext key
        change heldFrame _ key = heldFrame _ key
        unfold heldFrame
        rw [Env.diskFrame_congr (directories key.1)]
      exact ⟨disk ▸ stores.represents, same ▸ stores.accounts, same ▸ stores.records⟩

/-- What the page file is for its users: every managed disk frame is free or belongs to one page;
reads return the last contents added or updated; an add that fails found no free disk frame and
leaves the map as it is; and no call on a present page, or that need not add one, stops. -/
structure PageFileHolds (managed : Set Nat) (kernel : Kernel) (map : PageMap) : Prop where
  accounted : ∃ free, kernel.disk.freeFrameList.Represents free ∧
    (kernel.pagePool free).Accounts managed
  reads : ∀ env va, ∀ user : va < userTop, Ends (kernel.pfReadEnvPage env va)
    (fun (found, after) => found = (map (env, .of va user)).isSome ∧
      (found = false → after = kernel) ∧
      ∀ content, map (env, .of va user) = some (some content) →
        after.pageBytes env va = content)
    (fun _ => kernel.pagePresent env va = false)
  adds : ∀ env va, va < userTop → ∀ dataSrc, Ends (kernel.pfAddEnvPage env va dataSrc)
    (fun (added, after) => added = false → kernel.disk.freeFrameList.first = none ∧
      ∃ free, Stores after managed free map)
    (fun _ => False)
  addsEmpty : ∀ env va, va < userTop → ∀ zero, Ends (kernel.pfAddEmptyEnvPageWith env va zero)
    (fun (added, after) => added = false → kernel.disk.freeFrameList.first = none ∧
      ∃ free, Stores after managed free map)
    (fun _ => False)
  updates : ∀ env va, ∀ user : va < userTop, Ends (kernel.pfUpdateEnvPage env va)
    (fun _ => True)
    (fun _ => kernel.memory.slot (kernel.directory env) va = none ∨
      map (env, .of va user) = none ∧
        (kernel.disk.freeFrameList.first = none ∨ inHeapOrStack va = false))

theorem Stores.holds (stores : Stores kernel managed free map) (nonzero : 0 ∉ managed) :
    PageFileHolds managed kernel map := by
  have full : free = [] → kernel.disk.freeFrameList.first = none := by
    rintro rfl
    exact stores.represents.first_eq
  refine ⟨⟨free, stores.represents, stores.accounts⟩, fun env va user => ?_,
    fun env va user dataSrc => ?_, fun env va user zero => ?_, fun env va user => ?_⟩
  · rw [← pfReadEnvPage_roundDown, ← pagePresent_roundDown]
    apply (pfReadEnvPage_spec stores env (.of va user)).mono _ fun _ absent => absent
    rintro ⟨found, after⟩ ⟨same, missing, holds, -⟩
    refine ⟨same, missing, fun content is => ?_⟩
    rw [← pageBytes_roundDown]
    exact holds content is
  · rw [← pfAddEnvPage_roundDown]
    apply (pfAddEnvPage_spec stores nonzero env (.of va user) dataSrc).mono _ fun _ never => never
    rintro ⟨added, after⟩ (⟨rfl, -⟩ | ⟨-, none, stores'⟩)
    · exact nofun
    · exact fun _ => ⟨full none, free, stores'⟩
  · rw [← pfAddEmptyEnvPageWith_roundDown]
    apply (pfAddEmptyEnvPageWith_spec stores nonzero env (.of va user) zero).mono _ fun _ never =>
      never
    rintro ⟨added, after⟩ (⟨rfl, -⟩ | ⟨-, none, stores'⟩)
    · exact nofun
    · exact fun _ => ⟨full none, free, stores'⟩
  · rw [← pfUpdateEnvPage_roundDown, ← Memory.slot_roundDown, ← inHeapOrStack_roundDown]
    apply (pfUpdateEnvPage_spec stores nonzero env (.of va user)).mono fun _ _ => trivial
    rintro halt (missing | ⟨unknown, reason⟩)
    · exact .inl missing
    · exact .inr ⟨unknown, reason.imp_left full⟩

/-- Inserting new nodes one after the other. -/
theorem foldl_insertHead_represents (nodes : List Nat) :
    ∀ (list : IntrusiveList Nat) (listed : List Nat),
    list.Represents listed → nodes.Nodup → (∀ node ∈ nodes, node ∉ listed) →
      (nodes.foldl IntrusiveList.insertHead list).Represents (nodes.reverse ++ listed) := by
  induction nodes with
  | nil => exact fun _ _ represents _ _ => represents
  | cons node nodes ih =>
      intro list listed represents nodup fresh
      obtain ⟨outside, nodup⟩ := List.nodup_cons.mp nodup
      rw [List.foldl_cons, List.reverse_cons, List.append_assoc, List.singleton_append]
      refine ih _ _ (represents.insertHead (fresh node (List.mem_cons_self ..))) nodup
        fun other member listed' => ?_
      rcases List.mem_cons.mp listed' with rfl | old
      · exact outside member
      · exact fresh other (List.mem_cons_of_mem _ member) old

/-- After the initialization all disk frames but 0 are free. -/
theorem initializeDiskPageFile_represents (pages : Nat) :
    ∃ free, (initializeDiskPageFile pages).Represents free ∧
      ∀ dfn, dfn ∈ free ↔ 1 ≤ dfn ∧ dfn < pages := by
  have represents := foldl_insertHead_represents (List.range' 1 (pages - 1))
    ⟨none, none, 0, fun _ => none, fun _ => none⟩ []
      ⟨List.nodup_nil, rfl, rfl, rfl, trivial⟩
    List.nodup_range' fun _ _ => List.not_mem_nil
  refine ⟨_, represents, fun dfn => ?_⟩
  rw [List.append_nil, List.mem_reverse, List.mem_range'_1]
  omega

/-- In every run of page file calls by any environments, from a page file without pages, the page
file is the map that the calls make, and it loses no disk frame. -/
theorem pageFile_of_run (start kernel : Kernel) (pages : Nat) (map : PageMap)
    (initialized : start.disk.freeFrameList = initializeDiskPageFile pages)
    (empty : ∀ env va, (start.envs env).diskFrame va = 0)
    (run : Relation.ReflTransGen PageFileMove (start, fun _ => none) (kernel, map)) :
    PageFileHolds {dfn | 1 ≤ dfn ∧ dfn < pages} kernel map := by
  have nonzero : (0 : Nat) ∉ {dfn | 1 ≤ dfn ∧ dfn < pages} := fun listed =>
    Nat.not_succ_le_zero 0 listed.1
  obtain ⟨free, represents, mem⟩ := initializeDiskPageFile_represents pages
  have unheld : ∀ key, start.heldFrame key = none := fun key =>
    (heldFrame_eq_none ..).mpr (empty key.1 key.2)
  have initial : Stores start {dfn | 1 ≤ dfn ∧ dfn < pages} free fun _ => none := by
    refine ⟨initialized ▸ represents,
      ⟨represents.nodup, fun key _ _ held => ?_, fun key _ held => ?_,
      fun dfn => ?_⟩, ⟨fun key => ?_, fun _ _ _ _ => nofun⟩⟩
    · cases (unheld key).symm.trans held
    · cases (unheld key).symm.trans held
    · refine (mem dfn).symm.trans ⟨.inl, fun either => either.resolve_right ?_⟩
      rintro ⟨key, held⟩
      cases (unheld key).symm.trans held
    · exact congrArg Option.isSome (unheld key).symm
  have reached : ∀ state : Kernel × PageMap,
      Relation.ReflTransGen PageFileMove (start, fun _ => none) state →
        ∃ free, Stores state.1 {dfn | 1 ≤ dfn ∧ dfn < pages} free state.2 := by
    intro state run
    induction run with
    | refl => exact ⟨free, initial⟩
    | tail _ move ih => exact move.stores nonzero ih
  obtain ⟨_, stores⟩ := reached _ run
  exact stores.holds nonzero

/-- A page is added, and the pages of its environment are removed. -/
theorem pageFile_of_run_blank : ∃ added removed,
    (blank .clock 1).pfAddEnvPage 0 0x800000 (fun _ => 7) = .ok (true, added) ∧
      added.pfRemoveEnvPage 0 0x800000 = removed ∧
      PageFileHolds {dfn | 1 ≤ dfn ∧ dfn < 4} removed
        (PageMap.remove (PageMap.add (fun _ => none) (0, .of 0x800000 (by decide)) fun _ => 7)
          (0, .of 0x800000 (by decide))) := by
  obtain ⟨⟨found, added⟩, returned, success⟩ := Returns.exists (show Returns
    ((blank .clock 1).pfAddEnvPage 0 0x800000 fun _ => 7) (fun (added, _) => added) = true by
      decide +kernel)
  obtain rfl : found = true := success
  have run : Relation.ReflTransGen PageFileMove (blank .clock 1, fun _ => none) (added,
      if true then PageMap.add (fun _ => none) (0, .of 0x800000 (by decide)) fun _ => 7
      else fun _ => none) := .single (.add 0 0x800000 (by decide) _ returned)
  exact ⟨added, _, returned, rfl, pageFile_of_run (blank .clock 1) _ 4 _ rfl (fun _ _ => rfl)
    (run.tail (.remove 0 0x800000 (by decide)))⟩

end Kernel

end FosKernel
