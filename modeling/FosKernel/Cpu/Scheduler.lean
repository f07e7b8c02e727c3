import FosKernel.Cpu.Queues
import FosKernel.Inc.Layout

/-!
# The scheduler

`fos_scheduler` with its policies, `yield`, `sched`, the clock interrupt, the sleep
channels, and the functions of `sched_helpers.c` that enter the scheduler.

What the scheduler does between two processes is one step: it starts where a process
has switched to it and ends where it has switched to the next process, where it waits
for a blocked one with `qlock` free, or in the command prompt.
-/

namespace FosKernel

namespace Scheduler

variable {sizeofEnv : Nat}

/-- `fos_scheduler_RR`. -/
def fosSchedulerRR (sched : Scheduler sizeofEnv) :
    Except SchedStop (Option Nat × Scheduler sizeofEnv) := do
  let queue ← sched.readyQueue 0
  let sched :=
    match sched.proc with
    | none => sched
    | some curEnv => sched.enqueue queue curEnv
  return sched.dequeue queue

/-- The first step of `fos_scheduler_PRIRR`: a process on the CPU goes to the ready queue of its
priority. -/
def enqueueCurrent (sched : Scheduler sizeofEnv) : Except SchedStop (Scheduler sizeofEnv) :=
  match sched.proc with
  | none => .ok sched
  | some curEnv => do
      let queue ← sched.readyQueue (sched.envs curEnv).priority
      return sched.enqueue queue curEnv

/-- `fos_scheduler_PRIRR`. -/
def fosSchedulerPRIRR (sched : Scheduler sizeofEnv) :
    Except SchedStop (Option Nat × Scheduler sizeofEnv) := do
  let sched ← sched.enqueueCurrent
  let level := (List.range sched.numOfReadyQueues).find? fun i =>
    (sched.queue (.ready i)).size ≠ 0
  return match level with
    | none => (none, sched)
    | some i => sched.dequeue (.ready i)

/-- The entry of `sched_next` for the current policy. -/
def schedNext (sched : Scheduler sizeofEnv) :
    Except SchedStop (Option Nat × Scheduler sizeofEnv) :=
  match sched.schedulerMethod with
  | .rr => sched.fosSchedulerRR
  | .prirr => sched.fosSchedulerPRIRR

/-- `get_into_prompt`. -/
def getIntoPrompt (sched : Scheduler sizeofEnv) : Scheduler sizeofEnv :=
  { sched with proc := none, started := false }

/-- A round of `fos_scheduler`: switch to the next process, wait for a blocked one, or return to
the prompt. -/
def dispatch (sched : Scheduler sizeofEnv) : Except SchedStop (Scheduler sizeofEnv) := do
  let (nextEnv, sched) ← sched.schedNext
  match nextEnv with
  | some env =>
      let sched := { sched with proc := some env }
      return sched.setEnv env { sched.envs env with envStatus := .running }
  | none =>
      let isAnyBlocked := (List.range (nenv sizeofEnv)).any fun i =>
        (sched.envs i).envStatus = .blocked
      return if isAnyBlocked then sched else sched.getIntoPrompt

/-- `fos_scheduler`. -/
def fosScheduler (sched : Scheduler sizeofEnv) : Except SchedStop (Scheduler sizeofEnv) :=
  dispatch { sched with proc := none, started := true }

/-- `fos_scheduler` after a process has switched back to it. -/
def resumeScheduler (sched : Scheduler sizeofEnv) : Except SchedStop (Scheduler sizeofEnv) :=
  match sched.proc with
  | none => .error .nullPointer
  | some env =>
      match (sched.envs env).envStatus with
      | .running => .error .panic
      | .ready => sched.dispatch
      | _ => dispatch { sched with proc := none }

/-- `sched`. -/
def sched (sched : Scheduler sizeofEnv) : Except SchedStop (Scheduler sizeofEnv) :=
  match sched.proc with
  | none => .error .panic
  | some env =>
      if (sched.envs env).envStatus = .running then .error .panic else sched.resumeScheduler

/-- `yield`. -/
def yield (sched : Scheduler sizeofEnv) : Except SchedStop (Scheduler sizeofEnv) :=
  match sched.proc with
  | none => .error .panic
  | some env => (sched.setEnv env { sched.envs env with envStatus := .ready }).sched

/-- `sleep`, as far as the queues are concerned. -/
def sleep (sched : Scheduler sizeofEnv) (chan : Nat) : Except SchedStop (Scheduler sizeofEnv) :=
  match sched.proc with
  | none => .error .nullPointer
  | some block =>
      let sched := sched.setEnv block { sched.envs block with envStatus := .blocked }
      (sched.enqueue (.channel chan) block).sched

/-- `wakeup_one`. -/
def wakeupOne (sched : Scheduler sizeofEnv) (chan : Nat) :
    Except SchedStop (Scheduler sizeofEnv) :=
  if 0 < (sched.queue (.channel chan)).size then
    let (block, sched) := sched.dequeue (.channel chan)
    sched.schedInsertReady block
  else .ok sched

/-- The loops of `wakeup_all` and `sched_run_all`: move environments from the end of a queue to
the ready queues. -/
def moveToReady (name : QueueName) : Nat → Scheduler sizeofEnv →
    Except SchedStop (Scheduler sizeofEnv)
  | 0, sched => .ok sched
  | count + 1, sched => do
      let (env, sched) := sched.dequeue name
      let sched ← sched.schedInsertReady env
      moveToReady name count sched

/-- `wakeup_all`. -/
def wakeupAll (sched : Scheduler sizeofEnv) (chan : Nat) :
    Except SchedStop (Scheduler sizeofEnv) :=
  sched.moveToReady (.channel chan) (sched.queue (.channel chan)).size

/-- The body of the loops of `clock_interrupt_handler`. -/
def tickEnv (sched : Scheduler sizeofEnv) (env : Nat) :
    Except SchedStop (Scheduler sizeofEnv) :=
  if (sched.envs env).priority = 0 then .ok sched
  else if (sched.envs env).nTicks > sched.starvationThreshold then do
    let queue ← sched.readyQueue (sched.envs env).priority
    let sched := sched.removeFromQueue queue env
    let sched := sched.setEnv env
      { sched.envs env with priority := (sched.envs env).priority - 1 }
    let sched ← sched.schedInsertReady (some env)
    return sched.setEnv env { sched.envs env with nTicks := 0 }
  else
    .ok (sched.setEnv env { sched.envs env with nTicks := add32 (sched.envs env).nTicks 1 })

/-- The inner loop of `clock_interrupt_handler`. The next environment is read before the body. -/
def tickFrom : Nat → Option Nat → Scheduler sizeofEnv → Except SchedStop (Scheduler sizeofEnv)
  | _, none, sched => .ok sched
  | 0, some _, _ => .error .hang
  | rounds + 1, some env, sched => do
      let next := sched.queues.next env
      let sched ← sched.tickEnv env
      tickFrom rounds next sched

/-- The loop of `clock_interrupt_handler` over the levels. -/
def tickLevels (levels : List Nat) (sched : Scheduler sizeofEnv) :
    Except SchedStop (Scheduler sizeofEnv) :=
  levels.foldlM
    (fun sched i => do
      let queue ← sched.readyQueue i
      tickFrom (nenv sizeofEnv) (sched.queue queue).first sched)
    sched

/-- The part of `clock_interrupt_handler` for the priority policy. -/
def promoteStarved (sched : Scheduler sizeofEnv) : Except SchedStop (Scheduler sizeofEnv) :=
  match sched.schedulerMethod with
  | .rr => .ok sched
  | .prirr => tickLevels (List.range sched.numOfReadyQueues) sched

/-- `clock_interrupt_handler`. -/
def clockInterruptHandler (sched : Scheduler sizeofEnv) :
    Except SchedStop (Scheduler sizeofEnv) := do
  let sched ← sched.promoteStarved
  match sched.proc with
  | none => return sched
  | some _ => sched.yield

/-- The loop of `sched_run_env`. -/
def runFrom (sched : Scheduler sizeofEnv) (envId : BitVec 32) :
    Nat → Option Nat → Except SchedStop (Scheduler sizeofEnv)
  | _, none => .ok sched
  | 0, some _ => .error .hang
  | rounds + 1, some env =>
      if (sched.envs env).envId = envId then do
        let sched ← sched.schedRemoveNew (some env)
        let sched ← sched.schedInsertReady (some env)
        if sched.started then return sched else sched.fosScheduler
      else sched.runFrom envId rounds (sched.queues.next env)

/-- `sched_run_env`. -/
def schedRunEnv (sched : Scheduler sizeofEnv) (envId : BitVec 32) :
    Except SchedStop (Scheduler sizeofEnv) :=
  sched.runFrom envId (nenv sizeofEnv) (sched.queue .new).first

/-- `sched_run_all`. -/
def schedRunAll (sched : Scheduler sizeofEnv) : Except SchedStop (Scheduler sizeofEnv) := do
  let sched ← sched.moveToReady .new (sched.queue .new).size
  if sched.started then throw .panic else sched.fosScheduler

/-- The search of `sched_exit_env` in the new queue, which goes on after it has found the
environment. -/
def exitFromNew (envId : BitVec 32) : Nat → Option Nat → Bool → Scheduler sizeofEnv →
    Except SchedStop (Bool × Scheduler sizeofEnv)
  | _, none, found, sched => .ok (found, sched)
  | 0, some _, _, _ => .error .hang
  | rounds + 1, some env, found, sched =>
      let next := sched.queues.next env
      if (sched.envs env).envId = envId then do
        let sched ← sched.schedRemoveNew (some env)
        exitFromNew envId rounds next true sched
      else exitFromNew envId rounds next found sched

/-- The search of `sched_exit_env` in the ready queues. -/
def exitFromReady (sched : Scheduler sizeofEnv) (envId : BitVec 32) :
    List Nat → Except SchedStop (Option Nat × Scheduler sizeofEnv)
  | [] => .ok (none, sched)
  | i :: rest => do
      let queue ← sched.readyQueue i
      match ← sched.findEnvInQueue queue envId with
      | some env => return (some env, sched.removeFromQueue queue env)
      | none => sched.exitFromReady envId rest

/-- `sched_exit_env` up to its call of `sched`, and whether it makes that call. -/
def schedExitEnv (sched : Scheduler sizeofEnv) (envId : BitVec 32) :
    Except SchedStop (Bool × Scheduler sizeofEnv) := do
  let (found, sched) ← exitFromNew envId (nenv sizeofEnv) (sched.queue .new).first false sched
  -- the search in the new queue ends with a null pointer, whether it found the environment or not
  let (found, ptrEnv, sched) ←
    if found then .ok (true, none, sched)
    else do
      let (ptrEnv, sched) ← sched.exitFromReady envId (List.range sched.numOfReadyQueues)
      .ok (ptrEnv.isSome, ptrEnv, sched)
  let curEnv ← assertNotNull sched.proc
  let isCur := (sched.envs curEnv).envId = envId
  if found then do
    let sched ← sched.schedInsertExit ptrEnv
    return (decide isCur, sched)
  else if isCur then do
    let sched ← sched.schedInsertExit (some curEnv)
    return (true, sched)
  else return (false, sched)

/-- `env_exit`. -/
def envExit (sched : Scheduler sizeofEnv) : Except SchedStop (Scheduler sizeofEnv) := do
  let curEnv ← assertNotNull sched.proc
  let (last, sched) ← sched.schedExitEnv (sched.envs curEnv).envId
  if last then sched.sched else return sched

/-- The state after `env_init` and `sched_init`. -/
def boot (sizeofEnv : Nat) : Scheduler sizeofEnv where
  queues := (List.range (nenv sizeofEnv)).foldr (fun env lists => lists.insertHead .free env)
    ⟨fun _ => ⟨none, none, 0⟩, fun _ => none, fun _ => none⟩
  envs := fun _ => ⟨0, .free, 0, 0⟩
  proc := none
  started := false
  schedulerMethod := .rr
  numOfReadyQueues := 1
  starvationThreshold := 0

/-- `sched_init_RR`. The queues of the other levels are gone. -/
def schedInitRR (sched : Scheduler sizeofEnv) : Scheduler sizeofEnv :=
  { sched with
    numOfReadyQueues := 1
    queues := sched.queues.init (.ready 0)
    started := false
    schedulerMethod := .rr }

/-- `sched_init_PRIRR`. -/
def schedInitPRIRR (sched : Scheduler sizeofEnv) (numOfPriorities : UInt8)
    (starvThresh : UInt32) : Scheduler sizeofEnv :=
  { sched with
    numOfReadyQueues := numOfPriorities.toNat
    starvationThreshold := starvThresh.toNat
    queues := (List.range numOfPriorities.toNat).foldl (fun lists i => lists.init (.ready i))
      sched.queues
    started := false
    schedulerMethod := .prirr }

end Scheduler

end FosKernel
