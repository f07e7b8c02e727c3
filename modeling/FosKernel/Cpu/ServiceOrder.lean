import FosKernel.Cpu.Promotion
import FosKernel.Cpu.Rotation

/-!
# The order of service in the first ready queue

Environments enter a ready queue at its head and are served from its end. While an
environment stays in the first ready queue, no call puts another one before it, and
every round of the scheduler takes one away that was before it.
-/

namespace FosKernel

namespace Scheduler

variable {sizeofEnv : Nat} {sched middle after : Scheduler sizeofEnv}
  {contents : QueueName → List Nat} {adding loose : List Nat} {env other number level chan : Nat}
  {name : QueueName} {front back : List Nat}

/-- The environment is in the first ready queue, and at most so many are served before it. -/
def Ahead (sched : Scheduler sizeofEnv) (env number : Nat) : Prop :=
  ∃ contents front back, sched.queues.Holds contents ∧
    contents (.ready 0) = front ++ env :: back ∧ back.length ≤ number

theorem Ahead.split (ahead : sched.Ahead env number) (holds : sched.queues.Holds contents) :
    ∃ front back, contents (.ready 0) = front ++ env :: back ∧ back.length ≤ number := by
  obtain ⟨contents', front, back, holds', split, fewer⟩ := ahead
  rw [holds'.unique holds] at split
  exact ⟨front, back, split, fewer⟩

theorem Ahead.mem (ahead : sched.Ahead env number) (holds : sched.queues.Holds contents) :
    env ∈ contents (.ready 0) := by
  obtain ⟨front, back, split, -⟩ := ahead.split holds
  simp [split]

theorem Ahead.congr (ahead : sched.Ahead env number) (same : after.queues = sched.queues) :
    after.Ahead env number := by
  obtain ⟨contents, front, back, holds, split, fewer⟩ := ahead
  exact ⟨contents, front, back, same ▸ holds, split, fewer⟩

/-- Another environment enters a queue. -/
theorem Ahead.enqueue (ahead : sched.Ahead env number) (holds : sched.queues.Holds contents)
    (outside : Outside contents other) (name : QueueName) :
    (sched.enqueue name other).Ahead env number := by
  obtain ⟨front, back, split, fewer⟩ := ahead.split holds
  have entered : (sched.queues.insertHead name other).Holds
      (Function.update contents name (other :: contents name)) := holds.insertHead outside
  by_cases first : .ready 0 = name
  · subst first
    refine ⟨_, other :: front, back, entered, ?_, fewer⟩
    rw [Function.update_self, split]
    rfl
  · refine ⟨_, front, back, entered, ?_, fewer⟩
    rw [Function.update_of_ne first, split]

/-- Another environment leaves its queue. -/
theorem Ahead.remove (ahead : sched.Ahead env number) (holds : sched.queues.Holds contents)
    (split : contents name = front ++ other :: back) (different : other ≠ env) :
    (sched.removeFromQueue name other).Ahead env number := by
  obtain ⟨front', back', split', fewer⟩ := ahead.split holds
  by_cases first : .ready 0 = name
  · subst first
    obtain ⟨front'', back'', rest, fewer'⟩ :=
      SharedLists.exists_split_of_remove (split.symm.trans split') different
    refine ⟨_, front'', back'', holds.remove split, ?_, fewer'.trans fewer⟩
    rw [Function.update_self, rest]
  · refine ⟨_, front', back', holds.remove split, ?_, fewer⟩
    rw [Function.update_of_ne first, split']

/-- An environment at the top is ready and has the priority 0. -/
theorem Ahead.suits (ahead : sched.Ahead env number) (placed : sched.Placed contents loose) :
    (sched.envs env).envStatus = .ready ∧ (sched.envs env).priority = 0 := by
  obtain ⟨ready, priority, -⟩ := placed.suits _ env (ahead.mem placed.holds)
  exact ⟨ready, priority⟩

/-- Where the scheduler looks for the next environment, the queues are as the policies need them. -/
theorem Switching.queued (switching : sched.Switching contents adding) : sched.Queued contents where
  holds := switching.placed.holds
  outside env current := (switching.current env current).1
  valid env current := by
    obtain ⟨-, -, below⟩ := switching.current env current
    unfold levelOf
    cases sched.schedulerMethod with
    | rr => exact Nat.lt_of_le_of_lt (Nat.zero_le _) below
    | prirr => exact below
  single := switching.placed.single

/-- **A round of the scheduler.** An environment of the first ready queue that is not served moves
up. -/
theorem Ahead.dispatch (ahead : sched.Ahead env number)
    (switching : sched.Switching contents adding) (called : sched.dispatch = .ok after)
    (ready : (after.envs env).envStatus = .ready) : ∃ less < number, after.Ahead env less := by
  obtain ⟨front, back, split, fewer⟩ := ahead.split switching.placed.holds
  have below := switching.placed.level_lt (ahead.mem switching.placed.holds)
  obtain ⟨next, middle, contents', chosen, chooses⟩ := switching.queued.schedNext
  -- the process on the CPU, if it is put back here, is last in the order of service
  obtain ⟨last, waits⟩ : ∃ last, sched.waiting contents 0 =
      back.reverse ++ env :: (front.reverse ++ last) := by
    have first : fifo contents 0 = back.reverse ++ env :: front.reverse := by
      rw [fifo, split, List.reverse_append, List.reverse_cons, List.append_assoc]
      rfl
    unfold waiting
    cases sched.proc with
    | none => exact ⟨[], by rw [List.append_nil, ← first]; rfl⟩
    | some current =>
        rw [RoundRobin.requeue_some]
        by_cases here : 0 = sched.levelOf current
        · refine ⟨[current], ?_⟩
          rw [← here, Function.update_self, first]
          simp
        · exact ⟨[], by rw [Function.update_of_ne here, first, List.append_nil]⟩
  have found : RoundRobin.Best sched.numOfReadyQueues (sched.waiting contents) 0
      (back.reverse ++ env :: (front.reverse ++ last)) :=
    ⟨below, fun lower less => absurd less (Nat.not_lt_zero _), waits, by simp⟩
  obtain ⟨first, rest, ring, rfl, left⟩ := found.served chooses.served
  rw [dispatch_eq chosen] at called
  obtain rfl := Except.ok.inj called
  cases served : back.reverse with
  | nil =>
      rw [served] at ring
      obtain ⟨rfl, -⟩ := List.cons.inj ring
      rw [switchedTo, setEnv_self] at ready
      cases ready
  | cons head tail =>
      rw [served] at ring
      obtain ⟨-, rfl⟩ := List.cons.inj ring
      have remaining : contents' (.ready 0) =
          (front.reverse ++ last).reverse ++ env :: tail.reverse := by
        have here := congrFun left 0
        rw [Function.update_self] at here
        rw [← List.reverse_reverse (contents' (.ready 0)),
          show (contents' (.ready 0)).reverse = _ from here]
        simp
      have counted : back.length = tail.length + 1 := by
        rw [← List.length_reverse, served, List.length_cons]
      refine ⟨tail.length, by omega, contents', _, _, chooses.holds, remaining, ?_⟩
      rw [List.length_reverse]

/-- `yield` hands the CPU to the scheduler. -/
theorem Settled.switching_of_yield (settled : sched.Settled contents adding)
    (on : sched.proc = some other) :
    (sched.setEnv other { sched.envs other with envStatus := .ready }).Switching
        contents adding := by
  obtain ⟨outside, running, level⟩ := settled.running other on
  have value := setEnv_self sched other { sched.envs other with envStatus := .ready }
  refine ⟨settled.placed.setOutside _ outside
    (settled.placed.ids other (by rw [running]; decide)),
    fun current same => ?_, fun new member => ?_, settled.started on⟩
  · obtain rfl := Option.some.inj (on.symm.trans same)
    rw [value]
    exact ⟨outside, rfl, level⟩
  · obtain ⟨apart, status⟩ := settled.added new member
    refine ⟨apart, ?_⟩
    rw [setEnv_of_ne]
    · exact status
    · rintro rfl
      rw [running] at status
      cases status

/-- `yield`. -/
theorem Ahead.yield (ahead : sched.Ahead env number) (settled : sched.Settled contents adding)
    (called : sched.yield = .ok after) (ready : (after.envs env).envStatus = .ready) :
    ∃ less < number, after.Ahead env less := by
  unfold Scheduler.yield at called
  cases on : sched.proc with
  | none =>
      rw [on] at called
      cases called
  | some current =>
      rw [on] at called
      dsimp only at called
      rw [sched_of_ready (sched.setEnv _ _) on (by rw [setEnv_self])] at called
      have kept : (sched.setEnv current { sched.envs current with envStatus := .ready }).Ahead env
          number := ahead.congr rfl
      exact kept.dispatch (settled.switching_of_yield on) called ready

/-- A process leaves the CPU for a queue. -/
theorem Ahead.leave (ahead : sched.Ahead env number) (settled : sched.Settled contents adding)
    (on : sched.proc = some other) {value : SchedEnv} (id : value.envId = (sched.envs other).envId)
    (suits : value.Suits sched.numOfReadyQueues name) (running : value.envStatus ≠ .running)
    (unready : value.envStatus ≠ .ready)
    (called : ((sched.setEnv other value).enqueue name other).sched = .ok after)
    (ready : (after.envs env).envStatus = .ready) : ∃ less < number, after.Ahead env less := by
  obtain ⟨outside, status, -⟩ := settled.running other on
  have ids := settled.placed.ids other (by rw [status]; decide)
  have loosened := (settled.toArranged.vacate on).setEnv value ⟨ids.1, id.trans ids.2⟩
  have arranged := loosened.enqueue name ids.1 (by rwa [setEnv_self])
  have entered : ((sched.setEnv other value).enqueue name other).Ahead env number :=
    Ahead.enqueue (ahead.congr rfl) settled.placed.holds outside name
  rw [sched_of_gone ((sched.setEnv other value).enqueue name other) on] at called
  · have left : Ahead { (sched.setEnv other value).enqueue name other with
        proc := none } env number :=
      entered.congr rfl
    exact left.dispatch (arranged.switching rfl (settled.started on)) called ready
  · exact (setEnv_self sched other value).symm ▸ running
  · exact (setEnv_self sched other value).symm ▸ unready

end Scheduler

end FosKernel
