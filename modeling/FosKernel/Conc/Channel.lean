import Mathlib.Logic.Function.Basic
import Mathlib.Logic.Relation

/-!
# Spinlocks and channels on one CPU

The kernel code that processes run on an object with a spinlock and a channel,
statement by statement: `kspinlock.c`, `channel.c`, and `yield` and `sched` with
the part of the scheduler that gives the CPU to a ready process. The object's
own data is a parameter, which its functions test and assign. A clock interrupt
arrives only while no spinlock is held, since holding one disables interrupts.
-/

namespace FosKernel

/-- The spinlock of the object, and `ProcessQueues.qlock`. -/
inductive Spinlock where
  | lk
  | qlock
  deriving DecidableEq, Repr

/-- What a call does to the object: `acquire_sleeplock` and `wait_ksemaphore` take, and
`release_sleeplock` and `signal_ksemaphore` give. -/
inductive ObjectEvent where
  | take
  | give
  deriving DecidableEq, Repr

/-- A process calls a function of the object, or returns from it. -/
inductive CallEvent where
  | call (event : ObjectEvent)
  | ret (event : ObjectEvent)
  deriving DecidableEq, Repr

/-- The statements of the functions. -/
inductive Statement (σ : Type) where
  /-- `acquire_kspinlock` -/
  | acquire (lock : Spinlock)
  /-- `release_kspinlock` -/
  | release (lock : Spinlock)
  /-- `while (test) sleep(chan, lk)` -/
  | sleepWhile (test : σ → Bool)
  /-- an assignment to the data of the object -/
  | assign (value : σ → σ)
  /-- `env_status = ENV_READY` -/
  | setReady
  /-- `env_status = ENV_BLOCKED` -/
  | setBlocked
  /-- `enqueue(&(chan->queue), block)` -/
  | enqueue
  /-- `sched()` -/
  | sched
  /-- `if (queue_size(&(chan->queue)) > 0) wakeup_all(chan)` -/
  | wakeIfQueued
  /-- `int size = queue_size(&(chan->queue))` and the loop of `wakeup_all` -/
  | wakeQueued
  /-- the rounds that this loop has left -/
  | wakeRounds (count : Nat)

/-- The values of `env_status` that matter here. -/
inductive RunStatus where
  | ready
  | running
  | blocked
  deriving DecidableEq, Repr

variable {ν σ : Type}

/-- `sleep`. -/
def sleep : List (Statement σ) :=
  [.acquire .qlock, .release .lk, .setBlocked, .enqueue, .sched, .acquire .lk, .release .qlock]

/-- `wakeup_all`. -/
def wakeupAll : List (Statement σ) := [.acquire .qlock, .wakeQueued, .release .qlock]

/-- `yield`, after the clock interrupt has entered it and acquired `qlock`. -/
def yieldRest : List (Statement σ) := [.setReady, .sched, .release .qlock]

/-- `env_start`, where a new process begins. -/
def envStart : List (Statement σ) := [.release .qlock]

/-- The calls that have returned, latest first. -/
def returned : List (CallEvent × ν) → List (ObjectEvent × ν)
  | [] => []
  | (.call _, _) :: history => returned history
  | (.ret event, env) :: history => (event, env) :: returned history

/-- The call that a process is in. -/
def calling [DecidableEq ν] : List (CallEvent × ν) → ν → Option ObjectEvent
  | [], _ => none
  | (.call event, caller) :: history, env =>
      if caller = env then some event else calling history env
  | (.ret _, caller) :: history, env => if caller = env then none else calling history env

/-- The CPU with the processes, what each still has to execute, the queue of the channel (its
head first) and the data of the object. The history has the calls and returns so far, latest
first. -/
structure Cpu (ν σ : Type) where
  code : ν → List (Statement σ)
  status : ν → RunStatus
  current : Option ν
  holding : Spinlock → Bool
  queue : List ν
  data : σ
  history : List (CallEvent × ν)

namespace Cpu

variable [DecidableEq ν]

/-- All processes are ready to start, and the object is new. -/
def boot (data : σ) : Cpu ν σ where
  code _ := envStart
  status _ := .ready
  current := none
  holding _ := false
  queue := []
  data := data
  history := []

/-- Replace what a process still has to execute. -/
def setCode (cpu : Cpu ν σ) (env : ν) (code : List (Statement σ)) : Cpu ν σ :=
  { cpu with code := Function.update cpu.code env code }

/-- Take or drop a spinlock. -/
def setHolding (cpu : Cpu ν σ) (lock : Spinlock) (held : Bool) : Cpu ν σ :=
  { cpu with holding := Function.update cpu.holding lock held }

/-- Store the status of a process. -/
def setStatus (cpu : Cpu ν σ) (env : ν) (status : RunStatus) : Cpu ν σ :=
  { cpu with status := Function.update cpu.status env status }

/-- Execute a statement of the current process with the given rest of its code; `none` is a
kernel panic. -/
def exec (cpu : Cpu ν σ) (env : ν) (rest : List (Statement σ)) :
    Statement σ → Option (Cpu ν σ)
  | .acquire lock =>
      if cpu.holding lock then none else some ((cpu.setHolding lock true).setCode env rest)
  | .release lock =>
      if cpu.holding lock then some ((cpu.setHolding lock false).setCode env rest) else none
  | .sleepWhile test =>
      if test cpu.data then some (cpu.setCode env (sleep ++ .sleepWhile test :: rest))
      else some (cpu.setCode env rest)
  | .assign value => some { cpu.setCode env rest with data := value cpu.data }
  | .setReady => some ((cpu.setStatus env .ready).setCode env rest)
  | .setBlocked => some ((cpu.setStatus env .blocked).setCode env rest)
  | .enqueue => some { cpu.setCode env rest with queue := env :: cpu.queue }
  | .sched =>
      -- `qlock` is held, and it is the only one: `ncli` is 1
      if cpu.holding .qlock ∧ cpu.holding .lk = false ∧ cpu.status env ≠ .running then
        some { cpu.setCode env rest with current := none }
      else none
  | .wakeIfQueued =>
      some (cpu.setCode env (if 0 < cpu.queue.length then wakeupAll ++ rest else rest))
  | .wakeQueued => some (cpu.setCode env (.wakeRounds cpu.queue.length :: rest))
  | .wakeRounds 0 => some (cpu.setCode env rest)
  | .wakeRounds (count + 1) =>
      match cpu.queue.getLast? with
      | none => none
      | some block =>
          if cpu.holding .qlock then
            some { (cpu.setStatus block .ready).setCode env (.wakeRounds count :: rest) with
              queue := cpu.queue.dropLast }
          else none

/-- Record a call. -/
def called (cpu : Cpu ν σ) (env : ν) (event : ObjectEvent) : Cpu ν σ :=
  { cpu with history := (.call event, env) :: cpu.history }

/-- Record the return of a process that has executed the last statement of its call. -/
def returns (cpu : Cpu ν σ) (env : ν) : Cpu ν σ :=
  match cpu.code env, calling cpu.history env with
  | [], some event => { cpu with history := (.ret event, env) :: cpu.history }
  | _, _ => cpu

/-- No spinlock is held. -/
def Unlocked (cpu : Cpu ν σ) : Prop := ∀ lock, cpu.holding lock = false

/-- The running process is the one on the CPU, and the blocked ones are those in the queue. -/
def Settled (cpu : Cpu ν σ) : Prop := ∀ env,
  (cpu.status env = .running ↔ cpu.current = some env) ∧
    (cpu.status env = .blocked ↔ env ∈ cpu.queue)

/-- The next statement of the running process is no panic. -/
def Safe (cpu : Cpu ν σ) : Prop := ∀ env statement rest, cpu.current = some env →
  cpu.code env = statement :: rest → (cpu.exec env rest statement).isSome = true

/-- The calls that have had their effect: those that have returned, and perhaps the one that the
running process is in while it holds the spinlock of the object. -/
def Effective (cpu : Cpu ν σ) (calls : List (ObjectEvent × ν)) : Prop :=
  calls = returned cpu.history ∨ cpu.holding .lk = true ∧ ∃ event env,
    cpu.current = some env ∧
    calling cpu.history env = some event ∧ calls = (event, env) :: returned cpu.history

/-- One step: the current process calls a function of the object, as far as it may, and executes
its first statement, or it executes another statement, with the return after the last one; a
clock interrupt enters `yield`; the scheduler gives the CPU to a ready process, releases `qlock`
when there is none, and tries again. -/
inductive Step (body : ObjectEvent → List (Statement σ))
    (may : List (ObjectEvent × ν) → ν → ObjectEvent → Prop) (cpu : Cpu ν σ) :
    Cpu ν σ → Prop where
  | call {env : ν} {statement : Statement σ} {rest : List (Statement σ)} {next : Cpu ν σ}
      (event : ObjectEvent) (running : cpu.current = some env) (outside : cpu.code env = [])
      (allowed : may (returned cpu.history) env event) (code : body event = statement :: rest)
      (executed : cpu.exec env rest statement = some next) :
      Step body may cpu (next.called env event)
  | exec {env : ν} {statement : Statement σ} {rest : List (Statement σ)} {next : Cpu ν σ}
      (running : cpu.current = some env) (code : cpu.code env = statement :: rest)
      (executed : cpu.exec env rest statement = some next) :
      Step body may cpu (next.returns env)
  | interrupt {env : ν} (running : cpu.current = some env) (unlocked : cpu.Unlocked) :
      Step body may cpu ((cpu.setHolding .qlock true).setCode env (yieldRest ++ cpu.code env))
  | dispatch {env : ν} (idle : cpu.current = none) (locked : cpu.holding .qlock = true)
      (ready : cpu.status env = .ready) :
      Step body may cpu { cpu.setStatus env .running with current := some env }
  | idle (idle : cpu.current = none) (locked : cpu.holding .qlock = true)
      (noReady : ∀ env, cpu.status env ≠ .ready) :
      Step body may cpu (cpu.setHolding .qlock false)
  | poll (idle : cpu.current = none) (unlocked : cpu.holding .qlock = false) :
      Step body may cpu (cpu.setHolding .qlock true)

/-- The states that processes reach from boot in any order of steps. -/
abbrev Run (body : ObjectEvent → List (Statement σ))
    (may : List (ObjectEvent × ν) → ν → ObjectEvent → Prop) (data : σ) (cpu : Cpu ν σ) :
        Prop :=
  Relation.ReflTransGen (Step body may) (boot data) cpu

end Cpu

end FosKernel
