import FosKernel.Trap.FaultHandler

/-!
# What the search for a victim and its eviction change

The searches clear used bits and move the hand. Everything that replacement does
before it loads a page makes no page present and puts no element anywhere.
-/

namespace FosKernel

/-- The stop is no rejection of the address by `env_exit`. A panic ends the environment as well. -/
def Stop.Unrejected : Stop → Prop
  | .envExit _ => False
  | _ => True

/-- The address is the start of a user page. -/
def IsUserPage (va : Nat) : Prop := va % pageSize = 0 ∧ va < userTop

namespace Kernel

/-- Only used bits were cleared and the hand of the environment moved. -/
structure Searched (env : Nat) (before after : Kernel) : Prop where
  moved : ∃ tables hand, after =
    ({ before with memory := { before.memory with tables := tables } } : Kernel).setHand env hand
  entries : ∀ slot, after.memory.tables slot = before.memory.tables slot ∨
    after.memory.tables slot = (before.memory.tables slot).setPerms 0 permUsed

/-- No page became present, and no element came to a working set, the active working set or a
reference stream. -/
structure Withdraws (before after : Kernel) : Prop where
  directories : after.memory.directories = before.memory.directories
  present : ∀ slot, (after.memory.tables slot).present = true →
    (before.memory.tables slot).present = true
  directory : ∀ env, after.directory env = before.directory env
  nextTable : after.nextTable = before.nextTable
  algorithm : after.pageRepAlgoType = before.pageRepAlgoType
  active : after.pageActiveWsList = before.pageActiveWsList
  elements : after.elements = before.elements
  stream : ∀ env, (after.envs env).referenceStreamList = (before.envs env).referenceStreamList
  members : ∀ env, ∀ element ∈ (after.envs env).pageWsList,
    element ∈ (before.envs env).pageWsList

/-- The elements of the active working set stand for user pages. -/
def ActivePages (kernel : Kernel) : Prop :=
  ∀ element ∈ kernel.pageActiveWsList, IsUserPage (kernel.elementVa element)

/-- The page directories and the algorithm are the same, and the active working set still holds
user pages. -/
structure Settles (before after : Kernel) : Prop where
  directories : after.memory.directories = before.memory.directories
  directory : ∀ env, after.directory env = before.directory env
  nextTable : after.nextTable = before.nextTable
  algorithm : after.pageRepAlgoType = before.pageRepAlgoType
  activePages : before.ActivePages → after.ActivePages

end Kernel

namespace Kernel

variable {before middle after kernel : Kernel} {env va victim : Nat}

section Fields

variable (kernel : Kernel) (env : Nat) (value : Env) (hand : Option Nat)

@[simp] theorem setEnv_memory : (kernel.setEnv env value).memory = kernel.memory := rfl

@[simp] theorem setEnv_elements : (kernel.setEnv env value).elements = kernel.elements := rfl

@[simp] theorem setEnv_self : (kernel.setEnv env value).envs env = value :=
  Function.update_self ..

theorem setEnv_of_ne {other : Nat} (different : other ≠ env) :
    (kernel.setEnv env value).envs other = kernel.envs other :=
  Function.update_of_ne different ..

/-- A relation to the old environments that the changed one and all others have. -/
theorem setEnv_envs (property : Env → Env → Prop) (changed : property value (kernel.envs env))
    (kept : ∀ env, property (kernel.envs env) (kernel.envs env)) (other : Nat) :
    property ((kernel.setEnv env value).envs other) (kernel.envs other) := by
  by_cases same : other = env
  · subst same
    rwa [setEnv_self]
  · rw [setEnv_of_ne _ _ _ same]
    exact kept other

@[simp] theorem setHand_memory : (kernel.setHand env hand).memory = kernel.memory := rfl

theorem setHand_setHand (hand' : Option Nat) :
    (kernel.setHand env hand).setHand env hand' = kernel.setHand env hand' := by
  simp [setHand, setEnv]

theorem setHand_eq_self : kernel.setHand env (kernel.envs env).pageLastWsElement = kernel := by
  simp [setHand, setEnv]

end Fields

namespace Searched

theorem refl (kernel : Kernel) (env : Nat) : Searched env kernel kernel where
  moved := ⟨kernel.memory.tables, (kernel.envs env).pageLastWsElement,
    (kernel.setHand_eq_self env).symm⟩
  entries _ := .inl rfl

theorem trans (first : Searched env before middle) (second : Searched env middle after) :
    Searched env before after := by
  obtain ⟨⟨tables, hand, rfl⟩, entries⟩ := first
  obtain ⟨⟨tables', hand', rfl⟩, entries'⟩ := second
  refine ⟨⟨tables', hand', ?_⟩, fun slot => ?_⟩
  · exact setHand_setHand { before with memory := { before.memory with tables := tables' } } ..
  · rcases entries' slot with same | cleared
    · rw [same]
      exact entries slot
    · rw [cleared]
      rcases entries slot with same | cleared'
      · exact .inr (by rw [same])
      · exact .inr (by rw [cleared', PageTableEntry.setPerms_clear_clear])

/-- Moving the hand is a search. -/
theorem setHand (kernel : Kernel) (env : Nat) (hand : Option Nat) :
    Searched env kernel (kernel.setHand env hand) where
  moved := ⟨kernel.memory.tables, hand, rfl⟩
  entries _ := .inl rfl

/-- Clearing a used bit is a search. -/
theorem setPagePermissions (kernel : Kernel) (env va : Nat) :
    Ends (kernel.setPagePermissions env va 0 permUsed) (Searched env kernel) Stop.Unrejected := by
  unfold Kernel.setPagePermissions Memory.ptSetPagePermissions
  cases kernel.memory.slot (kernel.directory env) va with
  | none => exact .error trivial
  | some slot =>
      refine .ok ⟨⟨_, (kernel.envs env).pageLastWsElement, (setHand_eq_self ..).symm⟩,
        fun other => ?_⟩
      by_cases same : other = slot
      · subst same
        exact .inr (Function.update_self ..)
      · exact .inl (Function.update_of_ne same ..)

end Searched

/-- The CLOCK search ends with a victim or stops, after nothing but a search. -/
theorem clockVictim_searched (env fuel : Nat) :
    ∀ kernel : Kernel, Ends (kernel.clockVictim env fuel)
      (fun (_, after) => Searched env kernel after) Stop.Unrejected := by
  induction fuel with
  | zero => exact fun _ => .error trivial
  | succ fuel ih =>
      intro kernel
      unfold clockVictim
      split
      · exact .error trivial
      · rename_i hand _
        dsimp only
        split
        · apply (Searched.setPagePermissions kernel env (kernel.elementVa hand)).bind
          intro cleared searched
          apply (ih _).mono _ fun _ unrejected => unrejected
          intro (_, after) rest
          exact (searched.trans (.setHand ..)).trans rest
        · exact .ok (.refl kernel env)

theorem tryUnmodified_searched (env count : Nat) :
    ∀ kernel : Kernel, Ends (kernel.tryUnmodified env count)
      (fun (_, after) => Searched env kernel after) Stop.Unrejected := by
  induction count with
  | zero => exact fun kernel => .ok (.refl kernel env)
  | succ count ih =>
      intro kernel
      unfold tryUnmodified
      split
      · exact .error trivial
      · dsimp only
        split
        · exact .ok (.refl kernel env)
        · apply (ih _).mono _ fun _ unrejected => unrejected
          intro (_, after) rest
          exact (Searched.setHand ..).trans rest

theorem tryUnused_searched (env count : Nat) :
    ∀ kernel : Kernel, Ends (kernel.tryUnused env count)
      (fun (_, after) => Searched env kernel after) Stop.Unrejected := by
  induction count with
  | zero => exact fun kernel => .ok (.refl kernel env)
  | succ count ih =>
      intro kernel
      unfold tryUnused
      split
      · exact .error trivial
      · rename_i hand _
        dsimp only
        split
        · apply (Searched.setPagePermissions kernel env (kernel.elementVa hand)).bind
          intro cleared searched
          apply (ih _).mono _ fun _ unrejected => unrejected
          intro (_, after) rest
          exact (searched.trans (.setHand ..)).trans rest
        · exact .ok (.refl kernel env)

theorem modifiedClockVictim_searched (env fuel : Nat) :
    ∀ kernel : Kernel, Ends (kernel.modifiedClockVictim env fuel)
      (fun (_, after) => Searched env kernel after) Stop.Unrejected := by
  induction fuel with
  | zero => exact fun _ => .error trivial
  | succ fuel ih =>
      intro kernel
      unfold modifiedClockVictim
      apply (tryUnmodified_searched env _ kernel).bind
      intro (unmodified, middle) first
      cases unmodified with
      | some victim => exact .ok first
      | none =>
          apply (tryUnused_searched env _ middle).bind
          intro (unused, last) second
          cases unused with
          | some victim => exact .ok (first.trans second)
          | none =>
              apply (ih last).mono _ fun _ unrejected => unrejected
              intro (_, after) rest
              exact (first.trans second).trans rest

namespace Withdraws

theorem refl (kernel : Kernel) : Withdraws kernel kernel where
  directories := rfl
  present _ present := present
  directory _ := rfl
  nextTable := rfl
  algorithm := rfl
  active := rfl
  elements := rfl
  stream _ := rfl
  members _ _ member := member

theorem trans (first : Withdraws before middle) (second : Withdraws middle after) :
    Withdraws before after where
  directories := second.directories.trans first.directories
  present slot present := first.present slot (second.present slot present)
  directory env := (second.directory env).trans (first.directory env)
  nextTable := second.nextTable.trans first.nextTable
  algorithm := second.algorithm.trans first.algorithm
  active := second.active.trans first.active
  elements := second.elements.trans first.elements
  stream env := (second.stream env).trans (first.stream env)
  members env element member := first.members env element (second.members env element member)

/-- A change of memory alone that makes no entry present. -/
theorem of_memory {memory : Memory} (directories : memory.directories = kernel.memory.directories)
    (present : ∀ slot, (memory.tables slot).present = true →
      (kernel.memory.tables slot).present = true) :
    Withdraws kernel { kernel with memory := memory } :=
  { refl kernel with directories := directories, present := present }

/-- A change of one environment that keeps its page directory and its reference stream and adds
no element. -/
theorem of_setEnv {value : Env}
    (directory : value.envPageDirectory = (kernel.envs env).envPageDirectory)
    (stream : value.referenceStreamList = (kernel.envs env).referenceStreamList)
    (members : ∀ element ∈ value.pageWsList, element ∈ (kernel.envs env).pageWsList) :
    Withdraws kernel (kernel.setEnv env value) := by
  refine { refl kernel with directory := ?_, stream := ?_, members := ?_ }
  · exact kernel.setEnv_envs env value
      (fun changed old => changed.envPageDirectory = old.envPageDirectory) directory fun _ => rfl
  · exact kernel.setEnv_envs env value
      (fun changed old => changed.referenceStreamList = old.referenceStreamList) stream fun _ => rfl
  · exact kernel.setEnv_envs env value
      (fun changed old => ∀ element ∈ changed.pageWsList, element ∈ old.pageWsList) members
      fun _ _ member => member

theorem setHand (kernel : Kernel) (env : Nat) (hand : Option Nat) :
    Withdraws kernel (kernel.setHand env hand) :=
  of_setEnv rfl rfl fun _ member => member

theorem settles (withdraws : Withdraws before after) : Settles before after where
  directories := withdraws.directories
  directory := withdraws.directory
  nextTable := withdraws.nextTable
  algorithm := withdraws.algorithm
  activePages pages element member := by
    unfold elementVa
    rw [withdraws.elements]
    exact pages element (by rwa [← withdraws.active])

end Withdraws

namespace Settles

theorem refl (kernel : Kernel) : Settles kernel kernel := (Withdraws.refl kernel).settles

theorem trans (first : Settles before middle) (second : Settles middle after) :
    Settles before after where
  directories := second.directories.trans first.directories
  directory env := (second.directory env).trans (first.directory env)
  nextTable := second.nextTable.trans first.nextTable
  algorithm := second.algorithm.trans first.algorithm
  activePages pages := second.activePages (first.activePages pages)

/-- A change of memory alone that keeps the page directories. -/
theorem of_memory {memory : Memory} (directories : memory.directories = kernel.memory.directories) :
    Settles kernel { kernel with memory := memory } :=
  { refl kernel with directories := directories }

/-- A change of one environment that keeps its page directory. -/
theorem of_setEnv {value : Env}
    (directory : value.envPageDirectory = (kernel.envs env).envPageDirectory) :
    Settles kernel (kernel.setEnv env value) :=
  { refl kernel with
    directory := kernel.setEnv_envs env value
      (fun changed old => changed.envPageDirectory = old.envPageDirectory) directory fun _ => rfl }

end Settles

/-- A search withdraws nothing but used bits. -/
theorem Searched.withdraws (searched : Searched env before after) : Withdraws before after := by
  obtain ⟨⟨tables, hand, rfl⟩, entries⟩ := searched
  have cleared : Withdraws before { before with
      memory := { before.memory with tables := tables } } := by
    refine .of_memory rfl fun slot present => ?_
    rcases entries slot with same | cleared
    · exact (congrArg PageTableEntry.present same).symm.trans present
    · exact PageTableEntry.present_of_clear
        ((congrArg PageTableEntry.present cleared).symm.trans present)
  exact cleared.trans (.setHand _ env hand)

theorem unmapFrame_withdraws (kernel : Kernel) (env va : Nat) : Withdraws kernel
    { kernel with memory := kernel.memory.unmapFrame (kernel.directory env) va } := by
  refine .of_memory (Memory.unmapFrame_directories ..) fun other present => ?_
  cases located : kernel.memory.slot (kernel.directory env) va with
  | none => rwa [Memory.unmapFrame_of_not_located located] at present
  | some slot =>
      rw [Memory.unmapFrame_tables located] at present
      by_cases same : other = slot
      · subst same
        rw [Function.update_self] at present
        split at present
        · rw [PageTableEntry.unmapped_not_present] at present
          exact absurd present Bool.false_ne_true
        · exact present
      · rwa [Function.update_of_ne same] at present

theorem writeDiskPage_withdraws (kernel : Kernel) (env va : Nat) :
    Ends (kernel.writeDiskPage env va) (Withdraws kernel) Stop.Unrejected := by
  unfold writeDiskPage
  split
  · exact .error trivial
  · rename_i slot _
    refine .ok { Withdraws.refl kernel with present := fun other present => ?_ }
    change (Function.update kernel.memory.tables slot _ other).present = true at present
    by_cases same : other = slot
    · subst same
      rw [Function.update_self] at present
      exact PageTableEntry.present_of_clear present
    · rwa [Function.update_of_ne same] at present

theorem pfAddEmptyEnvPage_withdraws (kernel : Kernel) (env va : Nat) :
    Ends (kernel.pfAddEmptyEnvPage env va) (Withdraws kernel) Stop.Unrejected := by
  unfold pfAddEmptyEnvPage
  split
  · exact .error trivial
  · split
    · split
      · exact .error trivial
      · rename_i dfn disk _
        have kept : Withdraws kernel { kernel with disk := disk } := { Withdraws.refl kernel with }
        exact .ok (kept.trans (.of_setEnv rfl rfl fun _ member => member))
    · exact .ok (.refl kernel)

theorem pfUpdateEnvPage_withdraws (kernel : Kernel) (env va : Nat) :
    Ends (kernel.pfUpdateEnvPage env va) (Withdraws kernel) Stop.Unrejected := by
  unfold pfUpdateEnvPage
  split
  · exact .error trivial
  · split
    · split
      · apply (pfAddEmptyEnvPage_withdraws kernel env va).bind
        intro added first
        exact (writeDiskPage_withdraws added env va).mono (fun _ second => first.trans second)
          fun _ unrejected => unrejected
      · exact .error trivial
    · exact writeDiskPage_withdraws kernel env va

theorem evict_withdraws (kernel : Kernel) (env victim : Nat) :
    Ends (kernel.evict env victim) (Withdraws kernel) Stop.Unrejected := by
  have wrote : Ends (kernel.writeBack env victim) (Withdraws kernel) Stop.Unrejected := by
    unfold writeBack
    dsimp only
    split
    · exact pfUpdateEnvPage_withdraws kernel env _
    · exact .ok (.refl kernel)
  exact wrote.bind fun written first => .ok (first.trans (unmapFrame_withdraws written env _))

/-- Rotating a list and removing an element leaves elements of the list. -/
theorem rotateTo_mem (victim fuel : Nat) : ∀ list : List Nat, Ends (rotateTo victim list fuel)
    (fun rest => ∀ element ∈ rest, element ∈ list) Stop.Unrejected := by
  induction fuel with
  | zero => exact fun _ => .error trivial
  | succ fuel ih =>
      intro list
      cases list with
      | nil => exact .error trivial
      | cons curr rest =>
          unfold rotateTo
          split
          · exact .ok fun element member => List.mem_cons_of_mem _ member
          · apply (ih (rest ++ [curr])).mono _ fun _ unrejected => unrejected
            intro removed members element member
            simpa [or_comm] using members element member

theorem removeRotated_withdraws (kernel : Kernel) (env victim : Nat) :
    Ends (kernel.removeRotated env victim) (Withdraws kernel) Stop.Unrejected := by
  unfold removeRotated
  apply (rotateTo_mem victim _ (kernel.envs env).pageWsList).bind
  intro list members
  exact .ok (.of_setEnv rfl rfl members)

end Kernel

end FosKernel
