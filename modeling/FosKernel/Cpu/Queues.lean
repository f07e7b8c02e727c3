import FosKernel.Lib.Calls
import FosKernel.Lib.SharedLists
import FosKernel.Proc.EnvIds

/-!
# The queues of environments

The state of the scheduler and the functions of `sched_helpers.c` that move
environments between its queues. All queues, those of the channels and
`env_free_list` use the same link fields of `struct Env`.

The functions run with `qlock` held. An access to `env_ready_queues` at an index that
is not below `num_of_ready_queues` stops the model, as the array has no such queue. A
loop over a queue that is not done after `NENV` rounds goes around forever. Quanta,
clocks and buffered pages are left out.
-/

namespace FosKernel

/-- The lists that an environment can be linked into. -/
inductive QueueName where
  | free
  | new
  | exit
  | ready (level : Nat)
  | channel (number : Nat)
  deriving DecidableEq, Repr

/-- The values of `scheduler_method` with an implementation. -/
inductive SchedMethod where
  | rr
  | prirr
  deriving DecidableEq, Repr

/-- The fields of `struct Env` that the scheduler uses. -/
structure SchedEnv where
  envId : BitVec 32
  envStatus : EnvStatus
  priority : Nat
  nTicks : Nat
  deriving DecidableEq

/-- The scheduler's state on one CPU. It is started or stopped, and a process may be on the CPU. -/
structure Scheduler (sizeofEnv : Nat) where
  queues : SharedLists QueueName Nat
  envs : Nat → SchedEnv
  proc : Option Nat
  started : Bool
  schedulerMethod : SchedMethod
  numOfReadyQueues : Nat
  starvationThreshold : Nat

/-- How a function of the scheduler ends when it does not return. -/
inductive SchedStop where
  | panic
  | nullPointer
  | outOfRange (index : Nat)
  | hang
  deriving DecidableEq, Repr

namespace Scheduler

variable {sizeofEnv : Nat}

/-- Change the fields of an environment. -/
def setEnv (sched : Scheduler sizeofEnv) (env : Nat) (value : SchedEnv) : Scheduler sizeofEnv :=
  { sched with envs := Function.update sched.envs env value }

/-- The header of a queue. -/
def queue (sched : Scheduler sizeofEnv) (name : QueueName) : ListHeader Nat :=
    sched.queues.heads name

/-- An element of `env_ready_queues`. -/
def readyQueue (sched : Scheduler sizeofEnv) (index : Nat) : Except SchedStop QueueName :=
  if index < sched.numOfReadyQueues then .ok (.ready index) else .error (.outOfRange index)

/-- `enqueue`. -/
def enqueue (sched : Scheduler sizeofEnv) (name : QueueName) (env : Nat) : Scheduler sizeofEnv :=
  { sched with queues := sched.queues.insertHead name env }

/-- `remove_from_queue`. -/
def removeFromQueue (sched : Scheduler sizeofEnv) (name : QueueName) (env : Nat) :
    Scheduler sizeofEnv :=
  { sched with queues := sched.queues.remove name env }

/-- `dequeue`. -/
def dequeue (sched : Scheduler sizeofEnv) (name : QueueName) :
    Option Nat × Scheduler sizeofEnv :=
  match (sched.queue name).last with
  | none => (none, sched)
  | some envItem => (some envItem, sched.removeFromQueue name envItem)

/-- The loop of `find_env_in_queue`. -/
def findFrom (sched : Scheduler sizeofEnv) (envID : BitVec 32) :
    Nat → Option Nat → Except SchedStop (Option Nat)
  | _, none => .ok none
  | 0, some _ => .error .hang
  | rounds + 1, some env =>
      if (sched.envs env).envId = envID then .ok (some env)
      else sched.findFrom envID rounds (sched.queues.next env)

/-- `find_env_in_queue`. -/
def findEnvInQueue (sched : Scheduler sizeofEnv) (name : QueueName) (envID : BitVec 32) :
    Except SchedStop (Option Nat) :=
  sched.findFrom envID (nenv sizeofEnv) (sched.queue name).first

/-- `assert(env != NULL)`. -/
def assertNotNull : Option Nat → Except SchedStop Nat
  | none => .error .panic
  | some env => .ok env

/-- `sched_insert_ready`. -/
def schedInsertReady (sched : Scheduler sizeofEnv) (env : Option Nat) :
    Except SchedStop (Scheduler sizeofEnv) := do
  let env ← assertNotNull env
  let sched := sched.setEnv env { sched.envs env with nTicks := 0, envStatus := .ready }
  let queue ← sched.readyQueue (sched.envs env).priority
  return sched.enqueue queue env

/-- The loop of `sched_remove_ready`. -/
def removeReadyFrom (sched : Scheduler sizeofEnv) (env : Nat) :
    List Nat → Except SchedStop (Scheduler sizeofEnv)
  | [] => .ok sched
  | i :: rest => do
      let queue ← sched.readyQueue i
      match ← sched.findEnvInQueue queue (sched.envs env).envId with
      | some _ =>
          let sched := sched.removeFromQueue queue env
          return sched.setEnv env { sched.envs env with envStatus := .unknown }
      | none => sched.removeReadyFrom env rest

/-- `sched_remove_ready`. -/
def schedRemoveReady (sched : Scheduler sizeofEnv) (env : Option Nat) :
    Except SchedStop (Scheduler sizeofEnv) := do
  let env ← assertNotNull env
  if (sched.envs env).envStatus = .ready then
    sched.removeReadyFrom env (List.range sched.numOfReadyQueues)
  else throw .panic

/-- `sched_insert_new`. -/
def schedInsertNew (sched : Scheduler sizeofEnv) (env : Option Nat) :
    Except SchedStop (Scheduler sizeofEnv) := do
  let env ← assertNotNull env
  let sched := sched.setEnv env { sched.envs env with envStatus := .new }
  return sched.enqueue .new env

/-- `sched_remove_new`. -/
def schedRemoveNew (sched : Scheduler sizeofEnv) (env : Option Nat) :
    Except SchedStop (Scheduler sizeofEnv) := do
  let env ← assertNotNull env
  if (sched.envs env).envStatus = .new then
    let sched := sched.removeFromQueue .new env
    return sched.setEnv env { sched.envs env with envStatus := .unknown }
  else throw .panic

/-- `sched_insert_exit`. -/
def schedInsertExit (sched : Scheduler sizeofEnv) (env : Option Nat) :
    Except SchedStop (Scheduler sizeofEnv) := do
  let env ← assertNotNull env
  let sched := sched.setEnv env { sched.envs env with envStatus := .exit }
  return sched.enqueue .exit env

/-- `sched_new_env`. -/
def schedNewEnv (sched : Scheduler sizeofEnv) (env : Nat) :
    Except SchedStop (Scheduler sizeofEnv) :=
  sched.schedInsertNew (some env)

/-- The steps of `env_create` on the first free environment, as far as the scheduler sees them:
`allocate_environment` and `complete_environment_initialization`. -/
def envCreate (sched : Scheduler sizeofEnv) : Option (Nat × Scheduler sizeofEnv) :=
  (sched.queue .free).first.map fun env =>
    let created := { sched.envs env with
      envId := nextEnvId sizeofEnv (sched.envs env).envId env
      envStatus := .new }
    (env, (sched.setEnv env created).removeFromQueue .free env)

/-- `envid2env` without a check of permissions, or `none` for `E_BAD_ENV`. The current environment
may be `NULL`. -/
def envid2env (sched : Scheduler sizeofEnv) (envid : BitVec 32) : Option (Option Nat) :=
  if envid = 0 then some sched.proc
  else
    let env := envx sizeofEnv envid
    if (sched.envs env).envStatus = .free ∨ (sched.envs env).envId ≠ envid then none
    else some (some env)

/-- `env_set_priority`. -/
def envSetPriority (sched : Scheduler sizeofEnv) (envID : BitVec 32) (priority : Int) :
    Except SchedStop (Scheduler sizeofEnv) :=
  if priority < 0 ∨ (sched.numOfReadyQueues : Int) ≤ priority then .error .panic
  else
    match sched.envid2env envID with
    | none => .ok sched
    | some none => .error .nullPointer
    | some (some env) =>
        if (sched.envs env).envStatus = .ready then do
          let queue ← sched.readyQueue (sched.envs env).priority
          let sched := sched.removeFromQueue queue env
          let sched := sched.setEnv env { sched.envs env with priority := priority.toNat }
          sched.schedInsertReady (some env)
        else
          .ok (sched.setEnv env { sched.envs env with priority := priority.toNat })

/-- `sched_set_starv_thresh`. -/
def schedSetStarvThresh (sched : Scheduler sizeofEnv) (starvThresh : UInt32) :
    Scheduler sizeofEnv :=
  { sched with starvationThreshold := starvThresh.toNat }

end Scheduler

end FosKernel
