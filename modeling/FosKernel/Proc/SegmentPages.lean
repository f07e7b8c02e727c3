import FosKernel.Proc.SegmentMemory

/-!
# The pages of a segment in the page file

The steps 7.2 to 7.5 of `env_create` write every page of a segment to the page file.
Where several steps write one page, the last one counts: the page in which the file
ends is written again after the first page, from a source pointer that is past the
data of the first page.
-/

namespace FosKernel

namespace PageMap

variable {map : PageMap} {env : Nat} {pages pages' : Nat → Option (Nat → UInt8)}

/-- Pages of an environment are added, or their contents are replaced. -/
def addAll (map : PageMap) (env : Nat) (pages : Nat → Option (Nat → UInt8)) : PageMap :=
  fun key => if key.1 = env then ((pages key.2).map some).or (map key) else map key

theorem addAll_none (map : PageMap) (env : Nat) : map.addAll env (fun _ => none) = map := by
  funext key
  simp [addAll]

/-- Only user pages matter. -/
theorem addAll_congr (same : ∀ page : UserPage, pages page = pages' page) :
    map.addAll env pages = map.addAll env pages' := by
  funext key
  simp only [addAll, same]

/-- The contents added last count. -/
theorem addAll_add (map : PageMap) (env : Nat) (pages : Nat → Option (Nat → UInt8))
    (page : UserPage)
    (content : Nat → UInt8) : (map.addAll env pages).add (env, page) content =
      map.addAll env (Function.update pages page (some content)) := by
  funext key
  obtain ⟨env', page'⟩ := key
  simp only [add, addAll, Function.update_apply, Prod.mk.injEq]
  by_cases here : env' = env
  · by_cases there : page' = page
    · simp [here, there]
    · have different : page'.1 ≠ page.1 := fun equal => there (Subtype.ext equal)
      simp [here, there, different]
  · simp [here]

end PageMap

theorem roundDown_spec (va : Nat) : roundDown va pageSize % 4096 = 0 ∧
    roundDown va pageSize ≤ va ∧ va < roundDown va pageSize + 4096 := by
  unfold roundDown pageSize
  omega

theorem roundUp_spec {va : Nat} (user : va ≤ userTop) : roundUp va pageSize % 4096 = 0 ∧
    va ≤ roundUp va pageSize ∧ roundUp va pageSize < va + 4096 := by
  unfold roundUp add32 roundDown pageSize
  unfold userTop at user
  omega

namespace ProgramSegment

/-- The contents that the steps 7.2 to 7.5 leave for a page. -/
def storedPage (seg : ProgramSegment) (page : Nat) : Option (Nat → UInt8) :=
  let first := roundDown seg.virtualAddress pageSize
  let last := roundDown (seg.virtualAddress + seg.sizeInFile) pageSize
  if last < page then
    if page < seg.virtualAddress + seg.sizeInMemory then some fun _ => 0 else none
  else if page = last then
    let srcPtr := if first = last ∧ first < seg.virtualAddress then
      first + pageSize - seg.virtualAddress
      else last - seg.virtualAddress
    some fun index =>
      if index < seg.virtualAddress + seg.sizeInFile - last then
        seg.ptrStart (srcPtr + index) else 0
  else if seg.virtualAddress ≤ page then
    some fun index => seg.ptrStart (page - seg.virtualAddress + index)
  else if page = first then
    some fun index =>
      if seg.virtualAddress ≤ page + index ∧ index < pageSize then
        seg.ptrStart (page + index - seg.virtualAddress)
      else 0
  else none

/-- The segment starts with a page, or its file part reaches its second page, or nobody can tell the
data from that which follows it a page later. -/
def Sound (seg : ProgramSegment) : Prop :=
  seg.virtualAddress % pageSize = 0 ∨
    pageSize ≤ seg.virtualAddress % pageSize + seg.sizeInFile ∨
      ∀ index < seg.sizeInFile, seg.ptrStart (pageSize + index) = seg.ptrStart index

/-- The pages that the segment is in. -/
def Covers (seg : ProgramSegment) (page : Nat) : Prop :=
  roundDown seg.virtualAddress pageSize ≤ page ∧ page < seg.virtualAddress + seg.sizeInMemory

/-- The contents of a page agree with the segment from its start on. -/
def Agrees (seg : ProgramSegment) (page : Nat) (content : Nat → UInt8) : Prop :=
  ∀ index < pageSize, seg.virtualAddress ≤ page + index →
    content index = seg.byteAt (page + index)

variable {seg : ProgramSegment} {page : Nat}

/-- The page in which the file ends has its part of the file when the source pointer is right. -/
theorem agrees_last {content : Nat → UInt8} {srcPtr : Nat}
    (last : page = roundDown (seg.virtualAddress + seg.sizeInFile) pageSize)
    (holds : ∀ index, content index =
      if index < seg.virtualAddress + seg.sizeInFile - page then
        seg.ptrStart (srcPtr + index) else 0)
    (source : ∀ index, seg.virtualAddress ≤ page + index →
      page + index < seg.virtualAddress + seg.sizeInFile →
        seg.ptrStart (srcPtr + index) = seg.ptrStart (page + index - seg.virtualAddress)) :
    seg.Agrees page content := by
  intro index _ started
  have below := (roundDown_spec (seg.virtualAddress + seg.sizeInFile)).2.1
  rw [holds]
  unfold byteAt
  by_cases file : page + index < seg.virtualAddress + seg.sizeInFile
  · rw [if_pos (by omega), if_pos file]
    exact source index started file
  · rw [if_neg (by omega), if_neg file]

/-- A page of the segment apart from the one in which the file ends, or a page in which the file
ends and that is not written for the second time, is stored with the segment in it. -/
theorem stored_of_ne (aligned : page % pageSize = 0) (covers : seg.Covers page)
    (apart : page ≠ roundDown (seg.virtualAddress + seg.sizeInFile) pageSize ∨
      seg.virtualAddress ≤ page) :
    ∃ content, seg.storedPage page = some content ∧ seg.Agrees page content := by
  obtain ⟨lower, upper⟩ := covers
  obtain ⟨firstAligned, firstLower, firstUpper⟩ := roundDown_spec seg.virtualAddress
  obtain ⟨lastAligned, lastLower, lastUpper⟩ :=
    roundDown_spec (seg.virtualAddress + seg.sizeInFile)
  have size : pageSize = 4096 := rfl
  rw [size] at aligned
  unfold storedPage
  dsimp only
  by_cases zeros : roundDown (seg.virtualAddress + seg.sizeInFile) pageSize < page
  · rw [if_pos zeros, if_pos upper]
    refine ⟨_, rfl, fun index less _ => ?_⟩
    unfold byteAt
    rw [if_neg]
    omega
  · rw [if_neg zeros]
    by_cases last : page = roundDown (seg.virtualAddress + seg.sizeInFile) pageSize
    · have started := apart.resolve_left fun different => different last
      rw [if_pos last, ← last, if_neg (by omega)]
      refine ⟨_, rfl, agrees_last last (fun index => rfl) fun index _ _ => ?_⟩
      rw [show page - seg.virtualAddress + index = page + index - seg.virtualAddress by omega]
    · rw [if_neg last]
      by_cases started : seg.virtualAddress ≤ page
      · rw [if_pos started]
        refine ⟨_, rfl, fun index less _ => ?_⟩
        unfold byteAt
        rw [if_pos (by omega), show page - seg.virtualAddress + index =
          page + index - seg.virtualAddress by omega]
      · rw [if_neg started, if_pos (by omega)]
        refine ⟨_, rfl, fun index less started' => ?_⟩
        unfold byteAt
        rw [if_pos ⟨started', less⟩, if_pos (by omega)]

/-- All pages of a segment are stored with the segment in them exactly when the segment is sound. -/
theorem stored_iff_sound (seg : ProgramSegment) (file : seg.sizeInFile ≤ seg.sizeInMemory) :
    (∀ page, page % pageSize = 0 → seg.Covers page →
      ∃ content, seg.storedPage page = some content ∧ seg.Agrees page content) ↔
          seg.Sound := by
  obtain ⟨firstAligned, firstLower, firstUpper⟩ := roundDown_spec seg.virtualAddress
  obtain ⟨lastAligned, lastLower, lastUpper⟩ :=
    roundDown_spec (seg.virtualAddress + seg.sizeInFile)
  have size : pageSize = 4096 := rfl
  have offset : seg.virtualAddress % pageSize =
      seg.virtualAddress - roundDown seg.virtualAddress pageSize := by
    unfold roundDown pageSize
    omega
  -- the page that is written twice
  have twice : ¬ seg.virtualAddress % pageSize = 0 →
      ¬ pageSize ≤ seg.virtualAddress % pageSize + seg.sizeInFile →
      roundDown (seg.virtualAddress + seg.sizeInFile) pageSize =
        roundDown seg.virtualAddress pageSize ∧
      seg.storedPage (roundDown seg.virtualAddress pageSize) = some fun index =>
        if index < seg.virtualAddress + seg.sizeInFile - roundDown seg.virtualAddress pageSize then
          seg.ptrStart (roundDown seg.virtualAddress pageSize +
            pageSize - seg.virtualAddress + index)
        else 0 := by
    intro unaligned short
    have same : roundDown (seg.virtualAddress + seg.sizeInFile) pageSize =
        roundDown seg.virtualAddress pageSize := by omega
    refine ⟨same, ?_⟩
    unfold storedPage
    dsimp only
    rw [same, if_neg (Nat.lt_irrefl _), if_pos rfl, if_pos ⟨rfl, by omega⟩]
  constructor
  · intro stored
    by_contra unsound
    simp only [Sound, not_or] at unsound
    obtain ⟨unaligned, short, differ⟩ := unsound
    refine differ fun index less => ?_
    obtain ⟨-, written⟩ := twice unaligned short
    obtain ⟨content, held, agrees⟩ := stored _ firstAligned ⟨Nat.le_refl _, by omega⟩
    rw [written, Option.some.injEq] at held
    have equal := agrees (seg.virtualAddress - roundDown seg.virtualAddress pageSize + index)
      (by omega) (by omega)
    rw [← held] at equal
    unfold byteAt at equal
    dsimp only at equal
    rw [if_pos (by omega), if_pos (by omega)] at equal
    rw [show pageSize + index = roundDown seg.virtualAddress pageSize +
      pageSize - seg.virtualAddress +
      (seg.virtualAddress - roundDown seg.virtualAddress pageSize + index) by omega, equal]
    congr 1
    omega
  · intro sound page aligned covers
    have aligned' : page % 4096 = 0 := aligned
    by_cases apart : page ≠ roundDown (seg.virtualAddress + seg.sizeInFile) pageSize ∨
        seg.virtualAddress ≤ page
    · exact stored_of_ne aligned covers apart
    · obtain ⟨last, before⟩ := not_or.mp apart
      have last := not_not.mp last
      have first : page = roundDown seg.virtualAddress pageSize := by
        obtain ⟨lower, upper⟩ := covers
        omega
      obtain ⟨same, written⟩ := twice (by omega) (by omega)
      refine ⟨_, first ▸ written, agrees_last last (fun index => by rw [first])
          fun index started file =>
        ?_⟩
      have equal := (sound.resolve_left (by omega)).resolve_left (by omega)
        (page + index - seg.virtualAddress) (by omega)
      rw [← equal]
      congr 1
      omega

end ProgramSegment

namespace Kernel

variable {kernel before middle after : Kernel} {env : Nat} {free : List Nat} {managed : Set Nat}
  {map : PageMap} {pages pages' : Nat → Option (Nat → UInt8)}

/-- Nothing but the page file and the disk tables of an environment changed. -/
def OnDisk (env : Nat) (before after : Kernel) : Prop :=
  ∃ disk directory, after = before.withDisk env disk directory

theorem OnDisk.refl (env : Nat) (kernel : Kernel) : OnDisk env kernel kernel :=
  ⟨_, _, (withDisk_eq_self ..).symm⟩

theorem OnDisk.trans (first : OnDisk env before middle) (second : OnDisk env middle after) :
    OnDisk env before after := by
  obtain ⟨disk, directory, rfl⟩ := first
  obtain ⟨disk', directory', rfl⟩ := second
  exact ⟨disk', directory', by simp [withDisk, setEnv]⟩

theorem addDiskFrame_onDisk (kernel : Kernel) (env va : Nat) :
    Ends (kernel.addDiskFrame env va) (fun (_, after) => OnDisk env kernel after)
        fun _ => True := by
  have created : OnDisk env kernel (kernel.setEnv env ((kernel.envs env).createDiskTable va)) :=
    ⟨kernel.disk, ((kernel.envs env).createDiskTable va).diskEnvPgdir, rfl⟩
  unfold addDiskFrame
  split
  · exact .error trivial
  · dsimp only
    have disk : (kernel.setEnv env ((kernel.envs env).createDiskTable va)).disk = kernel.disk := rfl
    split
    · rw [disk]
      cases kernel.disk.allocateDiskFrame with
      | none => exact .ok created
      | some result =>
          obtain ⟨dfn, disk⟩ := result
          refine .ok (created.trans ⟨disk, ((kernel.setEnv env
            ((kernel.envs env).createDiskTable va)).envs env |>.setDiskFrame va dfn).diskEnvPgdir,
              rfl⟩)
    · exact .ok created

theorem pfAddEnvPage_onDisk (kernel : Kernel) (env va : Nat) (dataSrc : Nat → UInt8) :
    Ends (kernel.pfAddEnvPage env va dataSrc) (fun (_, after) => OnDisk env kernel after)
      fun _ => True := by
  unfold pfAddEnvPage
  apply (addDiskFrame_onDisk kernel env va).bind
  rintro ⟨added, reserved⟩ onDisk
  dsimp only
  split
  · refine .ok (onDisk.trans ⟨⟨Function.update reserved.disk.frames
      ((reserved.envs env).diskFrame va) dataSrc, reserved.disk.freeFrameList⟩,
      (reserved.envs env).diskEnvPgdir, ?_⟩)
    simp [withDisk, setEnv]
  · exact .ok onDisk

/-- What writing pages of an environment to the page file does. -/
structure Written (env : Nat) (managed : Set Nat) (map : PageMap) (before : Kernel)
    (pages : Nat → Option (Nat → UInt8)) (after : Kernel) : Prop where
  stores : ∃ free, Stores after managed free (map.addAll env pages)
  onDisk : OnDisk env before after

namespace Written

theorem refl (stores : Stores kernel managed free map) (env : Nat) :
    Written env managed map kernel (fun _ => none) kernel where
  stores := ⟨free, by rwa [PageMap.addAll_none]⟩
  onDisk := .refl env kernel

theorem congr (written : Written env managed map before pages after)
    (same : ∀ page : UserPage, pages page = pages' page) :
    Written env managed map before pages' after where
  stores := by
    rw [← PageMap.addAll_congr same]
    exact written.stores
  onDisk := written.onDisk

/-- Adding one more page, which replaces its contents. -/
theorem addPage (written : Written env managed map before pages middle) (nonzero : 0 ∉ managed)
    (page : UserPage) (content : Nat → UInt8) :
    Ends (middle.addPage env page content)
      (Written env managed map before (Function.update pages page (some content)))
      fun halt => halt = .outOfPageFile := by
  obtain ⟨free, stores⟩ := written.stores
  have added := (pfAddEnvPage_spec stores nonzero env page content).and
    (pfAddEnvPage_onDisk middle env page content)
  unfold Kernel.addPage
  refine (added.mono (fun _ both => both) fun _ stopped => absurd stopped.1 id).bind ?_
  rintro ⟨found, after⟩ ⟨⟨rfl, stores'⟩ | ⟨rfl, -, -⟩, onDisk⟩
  · refine .ok ⟨?_, written.onDisk.trans onDisk⟩
    rwa [PageMap.addAll_add] at stores'
  · exact .error rfl

/-- A loop that adds pages one after the other. -/
theorem addPages {round : Kernel → Nat → Except Stop Kernel} {base count : Nat}
    (written : Written env managed map before pages middle) (nonzero : 0 ∉ managed)
    (aligned : base % pageSize = 0) (fits : base + count * pageSize ≤ userTop)
    (content : Nat → Nat → UInt8)
    (rounds : ∀ kernel, ∀ index < count, round kernel index =
      kernel.addPage env (base + index * pageSize) (content (base + index * pageSize))) :
    Ends ((List.range count).foldlM round middle)
      (Written env managed map before fun page =>
        if base ≤ page ∧ page < base + count * pageSize then
          some (content page) else pages page)
      fun halt => halt = .outOfPageFile := by
  refine Ends.foldlM_range (fun index => Written env managed map before fun page =>
      if base ≤ page ∧ page < base + index * pageSize then some (content page) else pages page)
    (fun index less kernel soFar => ?_) middle (written.congr fun page => (if_neg (by omega)).symm)
  have aligned' : base % 4096 = 0 := aligned
  have size : pageSize = 4096 := rfl
  have user : IsUserPage (base + index * pageSize) := by
    unfold IsUserPage
    unfold pageSize at fits ⊢
    omega
  rw [rounds kernel index less]
  apply (soFar.addPage nonzero ⟨_, user⟩ (content (base + index * pageSize))).mono
    _ fun _ full => full
  intro after added
  refine added.congr fun page => ?_
  have start : page.1 % 4096 = 0 := page.2.1
  rw [Function.update_apply]
  by_cases here : page.1 = base + index * pageSize
  · rw [if_pos here, if_pos (by rw [size] at *; omega), here]
  · rw [if_neg here]
    exact if_congr (by rw [size] at *; omega) rfl rfl

end Written

/-- The step 7.2 of `env_create` adds the first page of a segment that does not start with a
page. -/
theorem writeFirstPage_ends {seg : ProgramSegment} (stores : Stores kernel managed free map)
    (nonzero : 0 ∉ managed) (user : seg.virtualAddress < userTop) :
    Ends (kernel.writeFirstPage env seg)
      (Written env managed map kernel fun page =>
        if page = roundDown seg.virtualAddress pageSize ∧ page < seg.virtualAddress then
          some fun index =>
            if seg.virtualAddress ≤ page + index ∧ index < pageSize then
              seg.ptrStart (page + index - seg.virtualAddress)
            else 0
        else none)
      fun halt => halt = .outOfPageFile := by
  have size : pageSize = 4096 := rfl
  obtain ⟨firstAligned, firstLower, firstUpper⟩ := roundDown_spec seg.virtualAddress
  obtain ⟨secondAligned, secondLower, secondUpper⟩ := roundUp_spec (Nat.le_of_lt user)
  unfold writeFirstPage
  dsimp only
  split
  · rename_i unaligned
    have page : IsUserPage (roundDown seg.virtualAddress pageSize) := ⟨firstAligned, by omega⟩
    refine ((Written.refl stores env).addPage nonzero ⟨_, page⟩ _).mono ?_ fun _ full => full
    intro after added
    refine added.congr fun page => ?_
    rw [Function.update_apply]
    by_cases here : page.1 = roundDown seg.virtualAddress pageSize
    · rw [if_pos here, if_pos ⟨here, by omega⟩]
      refine congrArg some (funext fun index => ?_)
      exact if_congr (by omega) (congrArg seg.ptrStart (by omega)) rfl
    · rw [if_neg here, if_neg fun both => here both.1]
  · exact .ok ((Written.refl stores env).congr fun page => (if_neg (by omega)).symm)

/-- The steps 7.2 to 7.5 of `env_create` add the pages of the segment to the page file. -/
theorem writeSegment_ends {seg : ProgramSegment} (stores : Stores kernel managed free map)
    (nonzero : 0 ∉ managed) (user : seg.virtualAddress + seg.sizeInMemory < userTop)
    (file : seg.sizeInFile ≤ seg.sizeInMemory) :
    Ends (kernel.writeSegment env seg) (Written env managed map kernel seg.storedPage)
      fun halt => halt = .outOfPageFile := by
  have word : userTop < 2 ^ 32 - 4096 := by decide
  have size : pageSize = 4096 := rfl
  have top : userTop % 4096 = 0 := by decide
  obtain ⟨firstAligned, firstLower, firstUpper⟩ := roundDown_spec seg.virtualAddress
  obtain ⟨secondAligned, secondLower, secondUpper⟩ :=
    roundUp_spec (show seg.virtualAddress ≤ userTop by omega)
  obtain ⟨lastAligned, lastLower, lastUpper⟩ :=
    roundDown_spec (seg.virtualAddress + seg.sizeInFile)
  obtain ⟨restAligned, restLower, restUpper⟩ :=
    roundUp_spec (show seg.virtualAddress + seg.sizeInFile ≤ userTop by omega)
  have endOfFile : add32 seg.virtualAddress seg.sizeInFile = seg.virtualAddress + seg.sizeInFile :=
    Nat.mod_eq_of_lt (by omega)
  have endOfSegment : add32 seg.virtualAddress seg.sizeInMemory =
      seg.virtualAddress + seg.sizeInMemory := Nat.mod_eq_of_lt (by omega)
  have remaining : (roundUp (sub32 (seg.virtualAddress + seg.sizeInMemory)
      (roundUp (seg.virtualAddress + seg.sizeInFile) pageSize)) pageSize + (pageSize - 1)) /
        pageSize =
      (seg.virtualAddress + seg.sizeInMemory -
        roundUp (seg.virtualAddress + seg.sizeInFile) pageSize + 4095) / 4096 := by
    generalize roundUp (seg.virtualAddress + seg.sizeInFile) pageSize = rest at *
    unfold roundUp add32 sub32 roundDown pageSize
    omega
  unfold writeSegment
  dsimp only
  rw [endOfFile, endOfSegment, remaining]
  refine (writeFirstPage_ends stores nonzero (by omega)).bind fun kernel₁ written₁ => ?_
  unfold ProgramSegment.storedPage
  dsimp only
  generalize roundDown seg.virtualAddress pageSize = first at *
  generalize roundUp seg.virtualAddress pageSize = second at *
  generalize roundDown (seg.virtualAddress + seg.sizeInFile) pageSize = last at *
  generalize roundUp (seg.virtualAddress + seg.sizeInFile) pageSize = rest at *
  -- the pages before the last one
  refine (written₁.addPages nonzero secondAligned (by rw [size]; omega)
    (fun page offset => seg.ptrStart (page - seg.virtualAddress + offset))
    (fun kernel index less => ?_)).bind fun kernel₂ written₂ => ?_
  · refine congrArg (kernel.addPage env _) (funext fun offset => congrArg seg.ptrStart ?_)
    rw [size]
    split <;> omega
  -- the last page
  refine (written₂.addPage nonzero ⟨last, lastAligned, by omega⟩ _).bind
    fun kernel₃ written₃ => ?_
  -- the pages that are not in the file
  refine (written₃.addPages nonzero restAligned (by rw [size]; omega) (fun _ _ => 0)
    (fun kernel index less => ?_)).mono ?_ fun _ full => full
  · rw [show add32 rest (index * pageSize) = rest + index * pageSize from
      Nat.mod_eq_of_lt (by rw [size]; omega)]
    rfl
  · intro after written
    refine written.congr fun page => ?_
    have aligned : page.1 % 4096 = 0 := page.2.1
    rw [Function.update_apply]
    unfold pageSize
    dsimp only
    by_cases zeros : last < page.1
    · rw [if_pos zeros]
      by_cases upper : page.1 < seg.virtualAddress + seg.sizeInMemory
      · rw [if_pos upper, if_pos (by omega)]
      · rw [if_neg upper, if_neg (by omega), if_neg (by omega), if_neg (by omega),
          if_neg (by omega)]
    · rw [if_neg zeros]
      by_cases here : page.1 = last
      · rw [if_pos here, if_pos here]
        by_cases added : rest ≤ page.1 ∧ page.1 < rest +
            (seg.virtualAddress + seg.sizeInMemory - rest + 4095) / 4096 * 4096
        · rw [if_pos added]
          exact congrArg some (funext fun index => (if_neg (by omega)).symm)
        · rw [if_neg added]
          refine congrArg some (funext fun index => if_congr Iff.rfl (congrArg seg.ptrStart ?_) rfl)
          split <;> split <;> omega
      · rw [if_neg (by omega), if_neg here, if_neg here]
        by_cases started : seg.virtualAddress ≤ page.1
        · rw [if_pos started, if_pos (by omega)]
        · rw [if_neg started, if_neg (by omega)]
          exact if_congr (by omega) rfl rfl

/-- Changing the page file leaves the pages in memory alone. -/
theorem Places.onDisk {free rest pages : List Nat}
    (places : Places env before free pages middle rest)
    (onDisk : OnDisk env middle after) : Places env before free pages after rest := by
  obtain ⟨disk, directory, rfl⟩ := onDisk
  have directories := withDisk_directory middle env disk directory
  have entries : ∀ va, (middle.withDisk env disk directory).pageEntry env va =
      middle.pageEntry env va := by
    intro va
    apply pageEntry_congr
    · rfl
    · rfl
    · exact directories env
  have value := withDisk_self middle env disk directory
  refine ⟨?_, ?_, ?_, places.taken, fun page member => ?_, fun page member => ?_,
    fun valid => ?_, ?_⟩
  · have settles : Settles middle (middle.withDisk env disk directory) :=
      { Settles.refl middle with directory := directories }
    exact settles.orderly places.orderly
  · exact places.workingSet.congr (by rw [value]) (by rw [value]) rfl rfl rfl (directories env) rfl
      fun _ => ⟨rfl, rfl⟩
  · rw [← places.wsPages, Kernel.wsPages, value]
    rfl
  · rw [entries]
    exact places.entries page member
  · rw [entries]
    exact places.kept page member
  · have valid' := places.hand valid
    unfold HandValid HandListed at valid' ⊢
    rwa [value]
  · have leaves := places.leaves
    refine ⟨fun other different => ?_, (directories env).trans leaves.directory, ?_,
      leaves.algorithm,
      leaves.active, { leaves.guard with }, leaves.stamps,
      leaves.foreign.trans (.of_same env rfl rfl directories), leaves.elements⟩
    · rw [withDisk, setEnv_of_ne _ _ _ different]
      exact leaves.others other different
    · rw [value]
      exact leaves.size

/-- The page file depends on the disk and the disk tables only. -/
theorem Stores.of_sameDisk (stores : Stores before managed free map)
    (same : SameDisk before after) :
    Stores after managed free map := by
  have pool : after.pagePool free = before.pagePool free := by
    refine FramePool.ext ?_ (congrArg Disk.frames same.1) rfl
    funext key
    change heldFrame _ key = heldFrame _ key
    unfold heldFrame
    rw [Env.diskFrame_congr (same.2 key.1)]
  exact ⟨same.1 ▸ stores.represents, pool ▸ stores.accounts, pool ▸ stores.records⟩

/-- The contents that are known for a page are its stored ones. -/
theorem Stores.stored_eq (stores : Stores kernel managed free map) {page : UserPage}
    {content : Nat → UInt8} (known : map (env, page) = some (some content)) :
    (kernel.store env).stored page = some content := by
  have held := stores.records.held (env, page)
  rw [known, Option.isSome_some] at held
  obtain ⟨dfn, holds⟩ := Option.isSome_iff_exists.mp held.symm
  have holds' : kernel.heldFrame (env, page) = some dfn := holds
  have nonzero : (kernel.envs env).diskFrame page ≠ 0 := by
    intro zero
    rw [(heldFrame_eq_none kernel (env, page)).mpr zero] at holds'
    cases holds'
  have frame := heldFrame_eq_some holds'
  simp only [store]
  rw [if_neg nonzero, frame]
  exact congrArg some (stores.records.content _ _ _ holds known)

/-- Every environment owns the disk frames of its pages. -/
theorem Stores.diskOwned (stores : Stores kernel managed free map) (nonzero : 0 ∉ managed)
    (env : Nat) : DiskOwned kernel.disk (kernel.envs env) free := by
  have holds : ∀ page : UserPage, (kernel.envs env).diskFrame page ≠ 0 →
      (kernel.pagePool free).holder (env, page) = some ((kernel.envs env).diskFrame page) :=
    fun page stored => if_neg stored
  have outside : 0 ∉ free := fun listed => nonzero ((stores.accounts.exact 0).mpr (.inl listed))
  refine ⟨stores.represents, outside, fun page page' stored same => ?_, fun page listed => ?_⟩
  · have key := stores.accounts.unique (env, page) (env, page') _ (holds page stored)
      (by rw [same]; exact holds page' (same ▸ stored))
    exact congrArg Prod.snd key
  · by_cases unstored : (kernel.envs env).diskFrame page = 0
    · rw [unstored] at listed
      exact outside listed
    · exact stores.accounts.apart _ _ (holds page unstored) listed

end Kernel

end FosKernel
