import FosKernel.Disk.PageFile

/-!
# The fault handler

`fault_handler` for faults in user mode and `page_fault_handler` of
`fault_handler.c`, with the replacement algorithms OPTIMAL, CLOCK, LRU by time
stamps and Modified CLOCK. The other algorithms have no branch in the source.

A list is the sequence of its elements' addresses. The recursion of
`page_fault_handler` and its loops count their rounds down; a loop that is not
done after one round for every element goes around forever.
-/

namespace FosKernel

namespace Kernel

/-- Allocate a frame, map it at the faulted address and read the page from the page file. A page
that is in neither the page file, the heap nor the stack is unmapped, its frame freed and the
environment ended. The placement and the LRU branch share these steps. -/
def loadPage (kernel : Kernel) (env va : Nat) (perm : Perm) : Except Stop Kernel :=
  match kernel.memory.allocateFrame with
  | none => .error .outOfMemory
  | some (frame, memory) =>
      match memory.mapFrame (kernel.directory env) frame va perm with
      | none => .error .panic
      | some memory => do
          let (found, kernel) ← { kernel with memory := memory }.pfReadEnvPage env va
          if found ∨ inHeapOrStack va then return kernel
          else
            let memory := kernel.memory.unmapFrame (kernel.directory env) va
            let memory := memory.freeFrame frame
            throw (.envExit { kernel with memory := memory })

/-- Create the element of the faulted page and append it to the working set. -/
def appendElement (kernel : Kernel) (env va : Nat) : Except Stop Kernel := do
  let (element, kernel) ← kernel.createElement va
  let faultedEnv := kernel.envs env
  return kernel.setEnv env { faultedEnv with pageWsList := faultedEnv.pageWsList ++ [element] }

/-- The placement branch. -/
def placement (kernel : Kernel) (env va : Nat) : Except Stop Kernel := do
  let kernel ← kernel.loadPage env va (permUser ||| permPresent ||| permWriteable)
  let kernel ← kernel.appendElement env va
  let faultedEnv := kernel.envs env
  return kernel.setEnv env
    { faultedEnv with
      pageLastWsElement :=
        if faultedEnv.pageWsList.length = faultedEnv.pageWsMaxSize then
          faultedEnv.pageWsList.head?
        else none }

/-- Write a modified victim back to the page file. -/
def writeBack (kernel : Kernel) (env victim : Nat) : Except Stop Kernel :=
  let va := kernel.elementVa victim
  if Perm.has (kernel.pagePermissions env va) permModified then kernel.pfUpdateEnvPage env va
  else .ok kernel

/-- Write a victim back and unmap it. -/
def evict (kernel : Kernel) (env victim : Nat) : Except Stop Kernel := do
  let kernel ← kernel.writeBack env victim
  return { kernel with
    memory := kernel.memory.unmapFrame (kernel.directory env) (kernel.elementVa victim) }

/-- Rotate a list until the victim is first, and remove it. -/
def rotateTo (victim : Nat) : List Nat → Nat → Except Stop (List Nat)
  | _, 0 => .error .hang
  | [], _ + 1 => .error .panic
  | curr :: rest, fuel + 1 =>
      if curr = victim then .ok rest else rotateTo victim (rest ++ [curr]) fuel

/-- Remove a victim from the working set, with the elements after it first. -/
def removeRotated (kernel : Kernel) (env victim : Nat) : Except Stop Kernel := do
  let faultedEnv := kernel.envs env
  let list ← rotateTo victim faultedEnv.pageWsList (faultedEnv.pageWsList.length + 1)
  return kernel.setEnv env { faultedEnv with pageWsList := list }

/-- Move the hand to an element. -/
def setHand (kernel : Kernel) (env : Nat) (hand : Option Nat) : Kernel :=
  kernel.setEnv env { kernel.envs env with pageLastWsElement := hand }

/-- The loop of CLOCK: clear used bits from the hand on until a page is not used. -/
def clockVictim (kernel : Kernel) (env : Nat) : Nat → Except Stop (Nat × Kernel)
  | 0 => .error .hang
  | fuel + 1 =>
      match (kernel.envs env).pageLastWsElement with
      | none => .error .nullPointer
      | some hand =>
          let va := kernel.elementVa hand
          if Perm.has (kernel.pagePermissions env va) permUsed then do
            let kernel ← kernel.setPagePermissions env va 0 permUsed
            let list := (kernel.envs env).pageWsList
            let next := if list.getLast? = some hand then list.head? else listNext list hand
            (kernel.setHand env next).clockVictim env fuel
          else .ok (hand, kernel)

/-- The first element of the least time stamp below `UINT_MAX`. -/
def lruVictim (kernel : Kernel) (env : Nat) : Option Nat :=
  ((kernel.envs env).pageWsList.foldl
    (fun (minTimeStamp, victim) element =>
      let timeStamp := (kernel.elements element).timeStamp
      if timeStamp < minTimeStamp then (timeStamp, some element) else (minTimeStamp, victim))
    (2 ^ 32 - 1, none)).2

/-- `LIST_NEXT` with a return to the first element. -/
def nextOrFirst (list : List Nat) (element : Nat) : Option Nat :=
  match listNext list element with
  | none => list.head?
  | some next => some next

/-- Try 1 of Modified CLOCK: move the hand to a page that is neither used nor modified. -/
def tryUnmodified (kernel : Kernel) (env : Nat) : Nat → Except Stop (Option Nat × Kernel)
  | 0 => .ok (none, kernel)
  | count + 1 =>
      match (kernel.envs env).pageLastWsElement with
      | none => .error .nullPointer
      | some hand =>
          let perms := kernel.pagePermissions env (kernel.elementVa hand)
          if ¬ Perm.has perms permUsed ∧ ¬ Perm.has perms permModified then
            .ok (some hand, kernel)
          else
            (kernel.setHand env (nextOrFirst (kernel.envs env).pageWsList hand)).tryUnmodified
              env count

/-- Try 2 of Modified CLOCK: clear used bits from the hand on until a page is not used. -/
def tryUnused (kernel : Kernel) (env : Nat) : Nat → Except Stop (Option Nat × Kernel)
  | 0 => .ok (none, kernel)
  | count + 1 =>
      match (kernel.envs env).pageLastWsElement with
      | none => .error .nullPointer
      | some hand =>
          let va := kernel.elementVa hand
          if Perm.has (kernel.pagePermissions env va) permUsed then do
            let kernel ← kernel.setPagePermissions env va 0 permUsed
            (kernel.setHand env (nextOrFirst (kernel.envs env).pageWsList hand)).tryUnused env count
          else .ok (some hand, kernel)

/-- The search of Modified CLOCK, which repeats both tries. -/
def modifiedClockVictim (kernel : Kernel) (env : Nat) : Nat → Except Stop (Nat × Kernel)
  | 0 => .error .hang
  | fuel + 1 => do
      let size := (kernel.envs env).pageWsMaxSize
      let (victim, kernel) ← kernel.tryUnmodified env size
      match victim with
      | some victim => return (victim, kernel)
      | none =>
          let (victim, kernel) ← kernel.tryUnused env size
          match victim with
          | some victim => return (victim, kernel)
          | none => kernel.modifiedClockVictim env fuel

/-- The LRU branch. -/
def lruReplacement (kernel : Kernel) (env va : Nat) : Except Stop Kernel :=
  match kernel.lruVictim env with
  | none => .error .nullPointer
  | some victim => do
      let kernel ← kernel.evict env victim
      let faultedEnv := kernel.envs env
      let kernel := kernel.setEnv env
        { faultedEnv with pageWsList := faultedEnv.pageWsList.erase victim }
      let kernel ← kernel.loadPage env va
        (permUser ||| permPresent ||| permWriteable ||| permUsed)
      kernel.appendElement env va

/-- What CLOCK and Modified CLOCK do when the page is in the active working set: mark the page
at the hand as used. -/
def touchHand (kernel : Kernel) (env : Nat) : Except Stop Kernel :=
  match (kernel.envs env).pageLastWsElement with
  | none => .error .nullPointer
  | some hand => kernel.setPagePermissions env (kernel.elementVa hand) permUsed 0

/-- The start of the OPTIMAL branch: at its first execution, copy the working set to the active
one. -/
def initializeActive (kernel : Kernel) (env : Nat) : Except Stop Kernel :=
  if kernel.optimalInitialized then .ok kernel
  else
    (kernel.envs env).pageWsList.foldlM
      (fun kernel element => do
        let (copy, kernel) ← kernel.createElement (kernel.elementVa element)
        return { kernel with pageActiveWsList := kernel.pageActiveWsList ++ [copy] })
      { kernel with optimalInitialized := true, pageActiveWsList := [] }

/-- The part of the OPTIMAL branch that makes the page present: from the page file into a new
frame, or by its present bit. -/
def makePresent (kernel : Kernel) (env va : Nat) : Except Stop Kernel :=
  let pageVa := roundDown va pageSize
  if Perm.has (kernel.pagePermissions env va) permPresent then .ok kernel
  else
    match kernel.memory.getFrameInfo (kernel.directory env) pageVa with
    | some _ => kernel.setPagePermissions env pageVa permPresent 0
    | none =>
        match kernel.memory.allocateFrame with
        | none => .error .outOfMemory
        | some (frame, memory) =>
            match memory.mapFrame (kernel.directory env) frame va
              (permUser ||| permPresent ||| permWriteable) with
            | none => .error .panic
            | some memory => do
                let (_, kernel) ← { kernel with memory := memory }.pfReadEnvPage env va
                return kernel

/-- Reset the present bits of the active working set and empty it. -/
def clearActive (kernel : Kernel) (env : Nat) : Except Stop Kernel := do
  let kernel ← kernel.pageActiveWsList.foldlM
    (fun kernel element => kernel.setPagePermissions env (kernel.elementVa element) 0 permPresent)
    kernel
  return { kernel with pageActiveWsList := [] }

/-- The OPTIMAL branch. -/
def optimalReplacement (kernel : Kernel) (env va : Nat) : Except Stop Kernel := do
  let kernel ← kernel.initializeActive env
  let pageVa := roundDown va pageSize
  let kernel ← kernel.makePresent env va
  if kernel.isPageInWs kernel.pageActiveWsList pageVa then return kernel
  else
    let kernel ←
      if kernel.pageActiveWsList.length = (kernel.envs env).pageWsMaxSize then
        kernel.clearActive env
      else .ok kernel
    let (element, kernel) ← kernel.createElement va
    let kernel := { kernel with pageActiveWsList := kernel.pageActiveWsList ++ [element] }
    let faultedEnv := kernel.envs env
    let ref : PageRefElement := ⟨pageVa⟩
    return kernel.setEnv env
      { faultedEnv with referenceStreamList := faultedEnv.referenceStreamList ++ [ref] }

/-- `page_fault_handler`. -/
def pageFaultHandler (kernel : Kernel) (env va : Nat) : Nat → Except Stop Kernel
  | 0 => .error .hang
  | fuel + 1 =>
      let faultedEnv := kernel.envs env
      let pageVa := roundDown va pageSize
      let hit := kernel.isPageInWs kernel.pageActiveWsList pageVa
      if kernel.pageRepAlgoType = .optimal then kernel.optimalReplacement env va
      else if faultedEnv.pageWsList.length < faultedEnv.pageWsMaxSize then kernel.placement env va
      else
        match kernel.pageRepAlgoType with
        | .clock =>
            if hit then kernel.touchHand env
            else do
              let (victim, kernel) ← kernel.clockVictim env (faultedEnv.pageWsList.length + 2)
              let kernel ← kernel.evict env victim
              let kernel ← kernel.removeRotated env victim
              kernel.pageFaultHandler env va fuel
        | .lruTimeApprox => kernel.lruReplacement env va
        | .modifiedClock =>
            if hit then kernel.touchHand env
            else do
              let (victim, kernel) ←
                kernel.modifiedClockVictim env (faultedEnv.pageWsList.length + 2)
              let kernel := kernel.setHand env
                (nextOrFirst (kernel.envs env).pageWsList victim)
              let kernel ← kernel.evict env victim
              let kernel ← kernel.removeRotated env victim
              kernel.pageFaultHandler env va fuel
        | _ => .ok kernel

/-- `fault_handler` for a fault of an environment in user mode. -/
def faultHandler (kernel : Kernel) (env va fuel : Nat) : Except Stop Kernel :=
  let repeated := kernel.lastFaultVa = va ∧ kernel.lastFaultedEnv = some env
  let numRepeatedFault := if repeated then kernel.numRepeatedFault + 1 else 0
  if repeated ∧ numRepeatedFault = 3 then .error .panic
  else
    let kernel := { kernel with
      numRepeatedFault := numRepeatedFault
      lastFaultVa := va
      lastFaultedEnv := some env }
    if uStackTop ≤ va ∧ va < userTop then .error .panic
    else
      match kernel.memory.getPageTable (kernel.directory env) va with
      | none => .ok (kernel.createPageTable env va)
      | some _ =>
          let perms := kernel.pagePermissions env va
          if uStackTop ≤ va then .error (.envExit kernel)
          else if ¬ Perm.has perms permUHPage ∧ userHeapStart ≤ va ∧ va < userHeapMax then
            .error (.envExit kernel)
          else if Perm.has perms permPresent ∧ ¬ Perm.has perms permWriteable then
            .error (.envExit kernel)
          else if Perm.has perms permPresent then .error .panic
          else if kernel.enableBuffering then .error .panic
          else kernel.pageFaultHandler env va fuel

/-- `update_WS_time_stamps` for the running environment. -/
def updateWsTimeStamps (kernel : Kernel) (env : Nat) : Except Stop Kernel :=
  (kernel.envs env).pageWsList.foldlM
    (fun kernel element =>
      let stamped := kernel.elements element
      if Perm.has (kernel.pagePermissions env stamped.virtualAddress) permUsed then
        { kernel with
          elements := Function.update kernel.elements element
            { stamped with timeStamp := stamped.timeStamp / 2 ||| 2 ^ 31 } }.setPagePermissions env
              stamped.virtualAddress 0 permUsed
      else
        .ok { kernel with
          elements := Function.update kernel.elements element
            { stamped with timeStamp := stamped.timeStamp / 2 } })
    kernel

end Kernel

end FosKernel
