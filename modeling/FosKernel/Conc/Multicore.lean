import FosKernel.Conc.KSemaphore
import FosKernel.Conc.SleepLock

/-!
# Processes on several CPUs

The functions of sleep locks and semaphores as processes on any number of CPUs run
them on any number of objects, one statement after the other. `mycpu()` is the CPU
that executes the statement. A CPU that acquires a spinlock of another CPU waits
until it is free; acquiring a spinlock twice, or releasing that of another CPU,
is a panic. Interrupts are off while `ncli` is not 0.
-/

namespace FosKernel

/-- The spinlock of an object, and `ProcessQueues.qlock`. -/
inductive LockName (ι : Type) where
  | own (object : ι)
  | qlock
  deriving DecidableEq

/-- The objects that processes share. -/
inductive ObjectKind where
  | sleepLock
  | semaphore
  deriving DecidableEq, Repr

/-- The function that takes and the function that gives. -/
def ObjectKind.body : ObjectKind → ObjectEvent → List (Statement Int)
  | .sleepLock => SleepLock.body
  | .semaphore => KSemaphore.body

/-- The statements, with the object that they are about. -/
inductive Instruction (ι : Type) where
  | acquire (lock : LockName ι)
  | release (lock : LockName ι)
  | sleepWhile (object : ι) (test : Int → Bool)
  | assign (object : ι) (value : Int → Int)
  | setReady
  | setBlocked
  | enqueue (object : ι)
  | sched
  | wakeIfQueued (object : ι)
  | wakeQueued (object : ι)
  | wakeRounds (object : ι) (count : Nat)
  /-- `r = lk->locked && (lk->pid == get_cpu_proc()->env_id)` -/
  | testHolding (object : ι)
  /-- the return of a call -/
  | ret (object : ι) (event : ObjectEvent)

/-- What happens to an object: a call that takes or gives it returns, or `holding_sleeplock` finds
its result. -/
inductive LockEvent where
  | ret (event : ObjectEvent)
  | result (holds : Bool)
  deriving DecidableEq, Repr

/-- An event with its object and its process. -/
structure LogEntry (ι ν : Type) where
  object : ι
  env : ν
  event : LockEvent

variable {κ ν ι : Type}

/-- The spinlock that a statement about an object names. -/
def Spinlock.of (object : ι) : Spinlock → LockName ι
  | .lk => .own object
  | .qlock => .qlock

/-- A statement about an object. -/
def Statement.on (object : ι) : Statement Int → Instruction ι
  | .acquire lock => .acquire (lock.of object)
  | .release lock => .release (lock.of object)
  | .sleepWhile test => .sleepWhile object test
  | .assign value => .assign object value
  | .setReady => .setReady
  | .setBlocked => .setBlocked
  | .enqueue => .enqueue object
  | .sched => .sched
  | .wakeIfQueued => .wakeIfQueued object
  | .wakeQueued => .wakeQueued object
  | .wakeRounds count => .wakeRounds object count

/-- Statements about an object. -/
def callOn (object : ι) (body : List (Statement Int)) : List (Instruction ι) :=
  body.map (Statement.on object)

/-- A call of a function of an object. -/
def ObjectKind.callOn (kind : ObjectKind) (object : ι) (event : ObjectEvent) :
    List (Instruction ι) :=
  FosKernel.callOn object (kind.body event) ++ [.ret object event]

/-- `holding_sleeplock`. -/
def holdingSleeplock (object : ι) : List (Instruction ι) :=
  [.acquire (.own object), .testHolding object, .release (.own object)]

/-- `yield`. -/
def yieldCode : List (Instruction ι) := [.acquire .qlock, .setReady, .sched, .release .qlock]

/-- The CPUs with their processes, the holders of the spinlocks, and the fields of the objects.
`data` is `locked` of a sleep lock and `count` of a semaphore. -/
structure Multicore (κ ν ι : Type) where
  code : ν → List (Instruction ι)
  status : ν → RunStatus
  current : κ → Option ν
  ncli : κ → Nat
  holder : LockName ι → Option κ
  queue : ι → List ν
  data : ι → Int
  pid : ι → Int
  log : List (LogEntry ι ν)

namespace Multicore

/-- All processes are ready to start, and all objects are new. -/
def boot (data : ι → Int) : Multicore κ ν ι where
  code _ := [.release .qlock]
  status _ := .ready
  current _ := none
  ncli _ := 0
  holder _ := none
  queue _ := []
  data := data
  pid _ := 0
  log := []

variable [DecidableEq κ] [DecidableEq ν] [DecidableEq ι]

/-- Replace what a process still has to execute. -/
def setCode (machine : Multicore κ ν ι) (env : ν) (code : List (Instruction ι)) :
    Multicore κ ν ι :=
  { machine with code := Function.update machine.code env code }

/-- Store the status of a process. -/
def setStatus (machine : Multicore κ ν ι) (env : ν) (status : RunStatus) : Multicore κ ν ι :=
  { machine with status := Function.update machine.status env status }

/-- `acquire_kspinlock` of a free spinlock, with `pushcli`. -/
def lock (machine : Multicore κ ν ι) (cpu : κ) (lock : LockName ι) : Multicore κ ν ι :=
  { machine with
    holder := Function.update machine.holder lock (some cpu)
    ncli := Function.update machine.ncli cpu (machine.ncli cpu + 1) }

/-- `release_kspinlock`, with `popcli`. -/
def unlock (machine : Multicore κ ν ι) (cpu : κ) (lock : LockName ι) : Multicore κ ν ι :=
  { machine with
    holder := Function.update machine.holder lock none
    ncli := Function.update machine.ncli cpu (machine.ncli cpu - 1) }

/-- What `holding_sleeplock` finds for a process. -/
def holdsFor (machine : Multicore κ ν ι) (id : ν → Int) (object : ι) (env : ν) : Bool :=
  machine.data object ≠ 0 ∧ machine.pid object = id env

/-- Execute a statement of a CPU's process with the given rest of its code. `none` is a kernel
panic, or the wait for a spinlock. -/
def exec (machine : Multicore κ ν ι) (id : ν → Int) (cpu : κ) (env : ν)
    (rest : List (Instruction ι)) : Instruction ι → Option (Multicore κ ν ι)
  | .acquire lock =>
      if machine.holder lock = none then some ((machine.lock cpu lock).setCode env rest) else none
  | .release lock =>
      if machine.holder lock = some cpu then some ((machine.unlock cpu lock).setCode env rest)
      else none
  | .sleepWhile object test =>
      some (machine.setCode env (if test (machine.data object) then
        callOn object sleep ++ .sleepWhile object test :: rest else rest))
  | .assign object value =>
      some { machine.setCode env rest with
        data := Function.update machine.data object (value (machine.data object)) }
  | .setReady => some ((machine.setStatus env .ready).setCode env rest)
  | .setBlocked => some ((machine.setStatus env .blocked).setCode env rest)
  | .enqueue object =>
      some { machine.setCode env rest with
        queue := Function.update machine.queue object (env :: machine.queue object) }
  | .sched =>
      if machine.holder .qlock = some cpu ∧ machine.ncli cpu = 1 ∧
        machine.status env ≠ .running then
        some { machine.setCode env rest with current := Function.update machine.current cpu none }
      else none
  | .wakeIfQueued object =>
      some (machine.setCode env (if 0 < (machine.queue object).length then
        callOn object wakeupAll ++ rest else rest))
  | .wakeQueued object =>
      some (machine.setCode env (.wakeRounds object (machine.queue object).length :: rest))
  | .wakeRounds _ 0 => some (machine.setCode env rest)
  | .wakeRounds object (count + 1) =>
      match (machine.queue object).getLast? with
      | none => none
      | some block =>
          if machine.holder .qlock = some cpu then
            some { (machine.setStatus block .ready).setCode env
                (.wakeRounds object count :: rest) with
              queue := Function.update machine.queue object (machine.queue object).dropLast }
          else none
  | .testHolding object =>
      some { machine.setCode env rest with
        log := ⟨object, env, .result (machine.holdsFor id object env)⟩ :: machine.log }
  | .ret object event =>
      some { machine.setCode env rest with log := ⟨object, env, .ret event⟩ :: machine.log }

/-- One step of one CPU: its process calls a function of an object or executes a statement; a
clock interrupt makes the process call `yield`; the scheduler gives the CPU to a ready process,
releases `qlock` when there is none, and acquires it again. -/
inductive Step (kind : ι → ObjectKind) (id : ν → Int) (machine : Multicore κ ν ι) :
    Multicore κ ν ι → Prop where
  | call {cpu : κ} {env : ν} (object : ι) (event : ObjectEvent)
      (running : machine.current cpu = some env) (outside : machine.code env = []) :
      Step kind id machine (machine.setCode env ((kind object).callOn object event))
  | callHolding {cpu : κ} {env : ν} (object : ι) (sleepLock : kind object = .sleepLock)
      (running : machine.current cpu = some env) (outside : machine.code env = []) :
      Step kind id machine (machine.setCode env (holdingSleeplock object))
  | exec {cpu : κ} {env : ν} {instruction : Instruction ι} {rest : List (Instruction ι)}
      {next : Multicore κ ν ι} (running : machine.current cpu = some env)
      (code : machine.code env = instruction :: rest)
      (executed : machine.exec id cpu env rest instruction = some next) : Step kind id machine next
  | interrupt {cpu : κ} {env : ν} (running : machine.current cpu = some env)
      (enabled : machine.ncli cpu = 0)
      (outside : (machine.code env).head? ≠ some (.acquire .qlock)) :
      Step kind id machine (machine.setCode env (yieldCode ++ machine.code env))
  | dispatch {cpu : κ} {env : ν} (idle : machine.current cpu = none)
      (locked : machine.holder .qlock = some cpu) (ready : machine.status env = .ready) :
      Step kind id machine { machine.setStatus env .running with
        current := Function.update machine.current cpu (some env) }
  | idle {cpu : κ} (idle : machine.current cpu = none)
      (locked : machine.holder .qlock = some cpu)
        (noReady : ∀ env, machine.status env ≠ .ready) :
      Step kind id machine (machine.unlock cpu .qlock)
  | poll {cpu : κ} (idle : machine.current cpu = none) (free : machine.holder .qlock = none) :
      Step kind id machine (machine.lock cpu .qlock)

/-- The states that the CPUs reach from boot in any order of steps. -/
abbrev Run (kind : ι → ObjectKind) (id : ν → Int) (data : ι → Int)
    (machine : Multicore κ ν ι) :
    Prop :=
  Relation.ReflTransGen (Step kind id) (boot data) machine

namespace Run

variable {kind : ι → ObjectKind} {id : ν → Int} {data : ι → Int}
  {machine next : Multicore κ ν ι}
  {env : ν} {instruction : Instruction ι} {rest : List (Instruction ι)}

theorem exec (run : machine.Run kind id data) (cpu : κ) (running : machine.current cpu = some env)
    (code : machine.code env = instruction :: rest)
    (executed : machine.exec id cpu env rest instruction = some next) : next.Run kind id data :=
  run.tail (.exec running code executed)

theorem call (run : machine.Run kind id data) (cpu : κ) (object : ι) (event : ObjectEvent)
    (running : machine.current cpu = some env) (outside : machine.code env = []) :
    (machine.setCode env ((kind object).callOn object event)).Run kind id data :=
  run.tail (.call object event running outside)

theorem callHolding (run : machine.Run kind id data) (cpu : κ) (object : ι)
    (sleepLock : kind object = .sleepLock) (running : machine.current cpu = some env)
    (outside : machine.code env = []) :
    (machine.setCode env (holdingSleeplock object)).Run kind id data :=
  run.tail (.callHolding object sleepLock running outside)

/-- The scheduler of a CPU acquires `qlock` and gives the CPU to a ready process. -/
theorem schedule (run : machine.Run kind id data) (cpu : κ) (env : ν)
    (idle : machine.current cpu = none) (free : machine.holder .qlock = none)
    (ready : machine.status env = .ready) :
    ({ (machine.lock cpu .qlock).setStatus env .running with
      current := Function.update machine.current cpu (some env) } : Multicore κ ν ι).Run
        kind id data := by
  have locked : (machine.lock cpu .qlock).holder .qlock = some cpu := by
    simp only [lock, Function.update_self]
  exact (run.tail (.poll idle free)).tail (.dispatch idle locked ready)

/-- The scheduler of a CPU finds no ready process. -/
theorem unschedule (run : machine.Run kind id data) (cpu : κ) (idle : machine.current cpu = none)
    (locked : machine.holder .qlock = some cpu) (noReady : ∀ env, machine.status env ≠ .ready) :
    (machine.unlock cpu .qlock).Run kind id data :=
  run.tail (.idle idle locked noReady)

end Run

end Multicore

end FosKernel
