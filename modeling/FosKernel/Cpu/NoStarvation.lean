import FosKernel.Cpu.ServiceOrder

/-!
# No environment starves

An environment that stays ready climbs to the first ready queue, where it moves up with
every round of the scheduler. So it gets the CPU after a number of clock ticks that is
known in advance.
-/

namespace FosKernel

namespace Scheduler

variable {sizeofEnv : Nat} {sched middle after : Scheduler sizeofEnv}
  {contents : QueueName → List Nat} {adding loose : List Nat} {env other number level chan : Nat}
  {name : QueueName} {front back : List Nat}

/-- The visit of another environment by a clock tick. -/
theorem Ahead.tickEnv (ahead : sched.Ahead env number) (placed : sched.Placed contents loose)
    (split : contents (.ready level) = front ++ other :: back)
    (called : sched.tickEnv other = .ok after) : after.Ahead env number := by
  unfold Scheduler.tickEnv at called
  split at called
  · obtain rfl := Except.ok.inj called
    exact ahead
  · rename_i above
    have different : other ≠ env := by
      rintro rfl
      exact above (ahead.suits placed).2
    split at called
    · obtain ⟨ready, priority, below⟩ := placed.suits (.ready level) other (by simp [split])
      unfold readyQueue at called
      rw [if_pos (priority ▸ below), priority] at called
      change (Scheduler.schedInsertReady _ (some other) >>= _) = _ at called
      rw [schedInsertReady_eq] at called
      split at called
      · obtain rfl := Except.ok.inj called
        have removed : (sched.removeFromQueue (.ready level) other).Ahead env number :=
          ahead.remove placed.holds split different
        have entered := Ahead.enqueue removed (placed.holds.remove split)
          (placed.holds.removed split)
        exact (entered _).congr rfl
      · cases called
    · obtain rfl := Except.ok.inj called
      exact ahead.congr rfl

/-- The visits of the rest of a level. -/
theorem Ahead.tickFrom (ahead : sched.Ahead env number) (placed : sched.Placed contents loose)
    {rounds : Nat} (split : contents (.ready level) = front ++ back)
    (called : tickFrom rounds back.head? sched = .ok after) : after.Ahead env number := by
  induction back generalizing sched contents front rounds with
  | nil =>
      cases rounds with
      | zero =>
          obtain rfl := Except.ok.inj called
          exact ahead
      | succ rounds =>
          obtain rfl := Except.ok.inj called
          exact ahead
  | cons other back ih =>
      cases rounds with
      | zero => cases called
      | succ rounds =>
          obtain ⟨middle, contents₁, front₁, visited, placed₁, split₁, -⟩ :=
            placed.tickEnv split
          unfold Scheduler.tickFrom at called
          dsimp only [List.head?_cons] at called
          rw [placed.next_eq split, visited] at called
          exact ih (ahead.tickEnv placed split visited) placed₁ split₁ called

/-- The visits of some levels. -/
theorem Ahead.tickLevels (ahead : sched.Ahead env number) (placed : sched.Placed contents loose)
    {levels : Nat} (le : levels ≤ sched.numOfReadyQueues)
    (called : tickLevels (List.range levels) sched = .ok after) : after.Ahead env number := by
  induction levels generalizing after with
  | zero =>
      obtain rfl := Except.ok.inj called
      exact ahead
  | succ level ih =>
      obtain ⟨middle, contents₁, visited, placed₁, done⟩ :=
        placed.tickLevels (Nat.le_of_succ_le le)
      have inside : level < middle.numOfReadyQueues := by
        rw [done.same]
        exact le
      rw [tickLevels_succ, visited] at called
      change (middle.readyQueue level >>= _) = _ at called
      unfold readyQueue at called
      rw [if_pos inside] at called
      change Scheduler.tickFrom _ (middle.queue (.ready level)).first middle = _ at called
      rw [placed₁.first_eq] at called
      exact (ih (Nat.le_of_succ_le le) visited).tickFrom placed₁ (List.nil_append _).symm called

/-- A clock tick changes nothing before an environment of the first ready queue but by the round of
the scheduler that follows. -/
theorem Ahead.clockInterruptHandler (ahead : sched.Ahead env number)
    (settled : sched.Settled contents adding) (called : sched.clockInterruptHandler = .ok after)
    (ready : (after.envs env).envStatus = .ready) :
    after.Ahead env number ∧ sched.proc = none ∨ ∃ less < number, after.Ahead env less := by
  obtain ⟨middle, contents', visited, promoted, settled', visits, -⟩ := settled.promoteStarved
  have proc : middle.proc = sched.proc := by rw [visits.same]
  have kept : middle.Ahead env number := by
    unfold Scheduler.promoteStarved at promoted
    cases method : sched.schedulerMethod with
    | rr =>
        rw [method] at promoted
        obtain rfl := Except.ok.inj promoted
        exact ahead
    | prirr =>
        rw [method] at promoted
        exact ahead.tickLevels settled.placed (Nat.le_refl _) promoted
  unfold Scheduler.clockInterruptHandler at called
  simp only [promoted, bind, Except.bind] at called
  cases running : middle.proc with
  | none =>
      rw [running] at called
      obtain rfl := Except.ok.inj called
      exact .inl ⟨kept, proc ▸ running⟩
  | some current =>
      rw [running] at called
      exact .inr (kept.yield settled' called ready)

/-- An environment that is not ready becomes so. -/
theorem Ahead.readied (ahead : sched.Ahead env number) (holds : sched.queues.Holds contents)
    (outside : Outside contents other) : (sched.readied other).Ahead env number :=
  Ahead.enqueue (ahead.congr rfl) holds outside _

theorem Ahead.schedInsertReady (ahead : sched.Ahead env number)
    (holds : sched.queues.Holds contents)
    (outside : Outside contents other) (called : sched.schedInsertReady (some other) = .ok after) :
    after.Ahead env number := by
  rw [schedInsertReady_eq] at called
  split at called
  · obtain rfl := Except.ok.inj called
    exact ahead.readied holds outside
  · cases called

/-- The last environment of a waiting queue becomes ready. -/
theorem Ahead.readyLast (ahead : sched.Ahead env number) (waiting : Waiting name)
    (arranged : sched.Arranged contents adding) (split : contents name = front ++ [other])
    (called : (sched.removeFromQueue name other).schedInsertReady (some other) = .ok after) :
    after.Ahead env number := by
  have different : other ≠ env := by
    rintro rfl
    exact waiting.unready arranged (show other ∈ contents name by simp [split])
      (ahead.suits arranged.placed).1
  have removed := ahead.remove arranged.placed.holds split different
  exact removed.schedInsertReady (arranged.placed.holds.remove split)
    (arranged.placed.holds.removed split) called

/-- All environments of a waiting queue become ready. -/
theorem Ahead.moveToReady (ahead : sched.Ahead env number) (waiting : Waiting name)
    (arranged : sched.Arranged contents adding)
    (called : Scheduler.moveToReady name (contents name).length sched = .ok after) :
    after.Ahead env number := by
  generalize size : (contents name).length = count at called
  induction count generalizing sched contents with
  | zero =>
      obtain rfl := Except.ok.inj called
      exact ahead
  | succ count ih =>
      unfold Scheduler.moveToReady at called
      rcases arranged.placed.dequeue_cases name with
        ⟨empty, -⟩ | ⟨front, other, split, dequeued⟩
      · rw [empty] at size
        cases size
      · rw [dequeued] at called
        obtain ⟨next, joined, rest⟩ := bind_eq_ok.mp called
        obtain ⟨contents₁, arranged₁, front_eq, -⟩ :=
          (arranged.readyLast waiting (.refl 0 false sched) split).of_ok joined
        rw [split, List.length_append] at size
        exact ih (ahead.readyLast waiting arranged split joined) arranged₁
          (by rw [front_eq]; simpa using size) rest

/-- `wakeup_one`. -/
theorem Ahead.wakeupOne (ahead : sched.Ahead env number) (settled : sched.Settled contents adding)
    (called : sched.wakeupOne chan = .ok after) : after.Ahead env number := by
  unfold Scheduler.wakeupOne at called
  split at called
  · rcases settled.placed.dequeue_cases (.channel chan) with ⟨empty, dequeued⟩ |
      ⟨front, other, split, dequeued⟩
    · rw [dequeued] at called
      cases called
    · rw [dequeued] at called
      exact ahead.readyLast (.inr rfl) settled.toArranged split called
  · obtain rfl := Except.ok.inj called
    exact ahead

/-- `wakeup_all`. -/
theorem Ahead.wakeupAll (ahead : sched.Ahead env number) (settled : sched.Settled contents adding)
    (called : sched.wakeupAll chan = .ok after) : after.Ahead env number := by
  unfold Scheduler.wakeupAll at called
  rw [settled.placed.size_eq] at called
  exact ahead.moveToReady (.inr rfl) settled.toArranged called

/-- The loop of `sched_run_env`, while the scheduler runs. -/
theorem Ahead.runFrom (ahead : sched.Ahead env number) (settled : sched.Settled contents adding)
    {envId : BitVec 32} {rounds : Nat} (split : contents .new = front ++ back)
    (called : sched.runFrom envId rounds back.head? = .ok after) (started : sched.started = true) :
    after.Ahead env number := by
  induction back generalizing front rounds with
  | nil =>
      cases rounds with
      | zero =>
          obtain rfl := Except.ok.inj called
          exact ahead
      | succ rounds =>
          obtain rfl := Except.ok.inj called
          exact ahead
  | cons other back ih =>
      cases rounds with
      | zero => cases called
      | succ rounds =>
          unfold Scheduler.runFrom at called
          dsimp only [List.head?_cons] at called
          split at called
          · have new : (sched.envs other).envStatus = .new :=
              settled.placed.suits .new other (by simp [split])
            have different : other ≠ env := by
              rintro rfl
              have ready := (ahead.suits settled.placed).1
              rw [new] at ready
              cases ready
            obtain ⟨removed, left, rest⟩ := bind_eq_ok.mp called
            obtain ⟨joined, inserted, last⟩ := bind_eq_ok.mp rest
            have whole : sched.schedRemoveNew (some other) =
                .ok ((sched.removeFromQueue .new other).setEnv other
                  { sched.envs other with envStatus := .unknown }) := if_pos new
            rw [whole] at left
            obtain rfl := Except.ok.inj left
            have gone := (ahead.remove settled.placed.holds split different).congr
              (show ((sched.removeFromQueue .new other).setEnv other
                { sched.envs other with envStatus := .unknown }).queues = _ from rfl)
            have entered := gone.schedInsertReady (settled.placed.holds.remove split)
              (settled.placed.holds.removed split) inserted
            have running : joined.started = true := by
              rw [schedInsertReady_eq] at inserted
              split at inserted
              · obtain rfl := Except.ok.inj inserted
                exact started
              · cases inserted
            rw [if_pos running] at last
            obtain rfl := Except.ok.inj last
            exact entered
          · rw [settled.placed.next_eq split] at called
            exact ih (by rw [split, List.append_cons]) called

/-- `env_set_priority` on another environment. -/
theorem Ahead.envSetPriority (ahead : sched.Ahead env number)
    (settled : sched.Settled contents adding) {envID : BitVec 32} {priority : Int}
    (spares : sched.envid2env envID ≠ some (some env))
    (called : sched.envSetPriority envID priority = .ok after) : after.Ahead env number := by
  unfold Scheduler.envSetPriority at called
  split at called
  · cases called
  · split at called
    · obtain rfl := Except.ok.inj called
      exact ahead
    · cases called
    · rename_i target found
      have different : target ≠ env := by
        rintro rfl
        exact spares found
      split at called
      · rename_i ready
        obtain ⟨front, back, split⟩ := List.mem_iff_append.mp (settled.mem_ready ready)
        have level := settled.placed.level_lt (settled.mem_ready ready)
        unfold readyQueue at called
        rw [if_pos level] at called
        have removed := ahead.remove settled.placed.holds split different
        have changed := removed.congr (show ((sched.removeFromQueue
          (.ready (sched.envs target).priority) target).setEnv target
            { sched.envs target with priority := priority.toNat }).queues = _ from rfl)
        exact changed.schedInsertReady (settled.placed.holds.remove split)
          (settled.placed.holds.removed split) called
      · obtain rfl := Except.ok.inj called
        exact ahead.congr rfl

/-- `env_exit`. -/
theorem Ahead.envExit (ahead : sched.Ahead env number) (settled : sched.Settled contents adding)
    (called : sched.envExit = .ok after) (ready : (after.envs env).envStatus = .ready) :
    ∃ less < number, after.Ahead env less := by
  unfold Scheduler.envExit at called
  cases on : sched.proc with
  | none =>
      rw [on] at called
      cases called
  | some current =>
      rw [on] at called
      obtain ⟨outside, running, -⟩ := settled.running current on
      have nowhere : ((List.range sched.numOfReadyQueues).find? fun level =>
          current ∈ contents (.ready level)) = none :=
        List.find?_eq_none.mpr fun level _ => by simpa using outside (.ready level)
      change (sched.schedExitEnv (sched.envs current).envId >>= _) = _ at called
      rw [settled.schedExitEnv on (by rw [running]; decide) (outside .new), nowhere] at called
      dsimp only at called
      rw [if_pos rfl] at called
      refine ahead.leave settled on ?_ ?_ ?_ ?_ called ready
      · rfl
      · exact (rfl : EnvStatus.exit = .exit)
      · exact (by decide : EnvStatus.exit ≠ .running)
      · exact (by decide : EnvStatus.exit ≠ .ready)

end Scheduler

namespace SchedMachine

open Scheduler

variable {sizeofEnv : Nat} {machine before middle after : SchedMachine sizeofEnv}
  {call : SchedCall} {env number count : Nat}

/-- The clock ticks of a call, counted while a process is on the CPU. -/
def busyTicks (machine : SchedMachine sizeofEnv) (call : SchedCall) : Nat :=
  if machine.sched.proc.isSome then call.ticks else 0

/-- **No call overtakes an environment of the first ready queue**, and it moves up at every clock
tick with a process on the CPU. -/
theorem Settled.ahead_of_perform (settled : machine.Settled) (enabled : machine.Enabled call)
    (spares : machine.SparesPriority env call) (performed : machine.perform call = .ok after)
    (ready : (after.sched.envs env).envStatus = .ready) (ahead : machine.sched.Ahead env number) :
    ∃ less, after.sched.Ahead env less ∧ less + machine.busyTicks call ≤ number := by
  obtain ⟨contents, settled⟩ := settled
  have was := (ahead.suits settled.placed).1
  have started : machine.sched.started = true := by
    by_contra stopped
    exact ((settled.stopped (Bool.not_eq_true _ ▸ stopped)).2 env).1 was
  have stays (kept : after.sched.Ahead env number) (quiet : call.ticks = 0) :
      ∃ less, after.sched.Ahead env less ∧ less + machine.busyTicks call ≤ number := by
    refine ⟨number, kept, ?_⟩
    unfold busyTicks
    rw [quiet, ite_self]
    exact Nat.le_refl _
  have moves (kept : ∃ less < number, after.sched.Ahead env less) :
      ∃ less, after.sched.Ahead env less ∧ less + machine.busyTicks call ≤ number := by
    obtain ⟨less, fewer, kept⟩ := kept
    have one : call.ticks ≤ 1 := by
      cases call with
      | clockInterrupt => exact Nat.le_refl 1
      | _ => exact Nat.zero_le 1
    refine ⟨less, kept, ?_⟩
    unfold busyTicks
    split
    · omega
    · omega
  have lifted {adding : List Nat} {result : Except SchedStop (Scheduler sizeofEnv)}
      (performed : lift ⟨machine.sched, adding⟩ result = .ok after) :
          result = .ok after.sched := by
    obtain ⟨sched, returned, rest⟩ := bind_eq_ok.mp performed
    obtain rfl := Except.ok.inj rest
    exact returned
  cases call with
  | envCreate =>
      refine stays ?_ rfl
      unfold SchedMachine.perform at performed
      dsimp only at performed
      cases created : machine.sched.envCreate with
      | none =>
          rw [created] at performed
          obtain rfl := Except.ok.inj performed
          exact ahead
      | some result =>
          rw [created] at performed
          obtain rfl := Except.ok.inj performed
          obtain ⟨slot, first, rfl⟩ := Option.map_eq_some_iff.mp created
          rw [settled.placed.first_eq] at first
          have split : contents .free = [] ++ slot :: (contents .free).tail :=
            (List.cons_head?_tail (Option.mem_def.mpr first)).symm
          have free := (settled.placed.suits .free slot (by rw [split]; simp)).status
          have different : slot ≠ env := by
            rintro rfl
            rw [was] at free
            cases free
          exact (ahead.remove settled.placed.holds split different).congr rfl
  | schedNewEnv slot =>
      refine stays ?_ rfl
      rw [← Except.ok.inj (lifted performed)]
      exact Ahead.enqueue (ahead.congr rfl) settled.placed.holds (settled.added slot enabled).1 .new
  | schedRunEnv envId =>
      refine stays ?_ rfl
      have called := lifted performed
      unfold Scheduler.schedRunEnv at called
      rw [settled.placed.first_eq] at called
      exact ahead.runFrom settled (List.nil_append _).symm called started
  | schedRunAll =>
      rw [show machine.sched.started = false from enabled] at started
      cases started
  | poll =>
      exact moves (ahead.dispatch (settled.toArranged.switching enabled.2 enabled.1)
        (lifted performed) ready)
  | yield => exact moves (ahead.yield settled (lifted performed) ready)
  | clockInterrupt =>
      rcases ahead.clockInterruptHandler settled (lifted performed) ready with
        ⟨kept, idle⟩ | kept
      · refine ⟨number, kept, ?_⟩
        unfold busyTicks
        rw [idle]
        exact Nat.le_refl _
      · exact moves kept
  | sleep chan =>
      refine moves ?_
      have called := lifted performed
      unfold Scheduler.sleep at called
      cases on : machine.sched.proc with
      | none =>
          rw [on] at called
          cases called
      | some current =>
          rw [on] at called
          refine ahead.leave settled on ?_ ?_ ?_ ?_ called ready
          · rfl
          · exact (rfl : EnvStatus.blocked = .blocked)
          · exact (by decide : EnvStatus.blocked ≠ .running)
          · exact (by decide : EnvStatus.blocked ≠ .ready)
  | wakeupOne chan => exact stays (ahead.wakeupOne settled (lifted performed)) rfl
  | wakeupAll chan => exact stays (ahead.wakeupAll settled (lifted performed)) rfl
  | envSetPriority envID priority =>
      exact stays (ahead.envSetPriority settled spares (lifted performed)) rfl
  | envExit => exact moves (ahead.envExit settled (lifted performed) ready)
  | schedInitRR =>
      rw [show machine.sched.started = false from enabled] at started
      cases started
  | schedInitPRIRR numOfPriorities starvThresh =>
      rw [show machine.sched.started = false from enabled] at started
      cases started
  | schedSetStarvThresh starvThresh =>
      refine stays ?_ rfl
      obtain rfl := Except.ok.inj performed
      exact ahead.congr rfl

/-- An environment is in a ready queue before and after each of some calls, which count the clock
ticks that meet a process on the CPU. -/
inductive Passed (env : Nat) (before : SchedMachine sizeofEnv) :
    Nat → SchedMachine sizeofEnv → Prop
  | start (ready : (before.sched.envs env).envStatus = .ready) : Passed env before 0 before
  | call {count : Nat} {middle after : SchedMachine sizeofEnv} {call : SchedCall}
      (earlier : Passed env before count middle) (enabled : middle.Enabled call)
      (performed : middle.perform call = .ok after)
      (ready : (after.sched.envs env).envStatus = .ready)
      (policy : SamePolicy middle.sched after.sched) (spares : middle.SparesPriority env call) :
      Passed env before (count + middle.busyTicks call) after

theorem busyTicks_le (machine : SchedMachine sizeofEnv) (call : SchedCall) :
    machine.busyTicks call ≤ call.ticks := by
  unfold busyTicks
  split
  · exact Nat.le_refl _
  · exact Nat.zero_le _

theorem ticks_le_one (call : SchedCall) : call.ticks ≤ 1 := by
  cases call with
  | clockInterrupt => exact Nat.le_refl 1
  | _ => exact Nat.zero_le 1

/-- The law of promotion counts every tick. -/
theorem Passed.staysReady (passed : Passed env before count after) :
    ∃ all, count ≤ all ∧ StaysReady env before all after := by
  induction passed with
  | start ready => exact ⟨0, Nat.le_refl 0, .start ready⟩
  | @call count middle after call earlier enabled performed ready policy spares ih =>
      obtain ⟨all, fewer, stays⟩ := ih
      exact ⟨all + call.ticks, Nat.add_le_add fewer (middle.busyTicks_le call),
        stays.call enabled performed ready policy spares⟩

/-- An environment that arrives in the first ready queue has at most the others before it. -/
theorem Settled.ahead (settled : machine.Settled)
    (ready : (machine.sched.envs env).envStatus = .ready)
    (top : (machine.sched.envs env).priority = 0) :
        machine.sched.Ahead env (nenv sizeofEnv - 1) := by
  obtain ⟨contents, settled⟩ := settled
  have member := settled.mem_ready ready
  rw [top] at member
  obtain ⟨front, back, split⟩ := List.mem_iff_append.mp member
  have fits := settled.placed.length_le (.ready 0)
  rw [split, List.length_append, List.length_cons] at fits
  exact ⟨contents, front, back, settled.placed.holds, split, by omega⟩

/-- Under the round robin policy, there is no priority but the first. -/
theorem Settled.top_of_rr (settled : machine.Settled) (method : machine.sched.schedulerMethod = .rr)
    (ready : (machine.sched.envs env).envStatus = .ready) :
    (machine.sched.envs env).priority = 0 := by
  obtain ⟨contents, settled⟩ := settled
  have below := settled.placed.level_lt (settled.mem_ready ready)
  rw [settled.placed.single method] at below
  exact Nat.lt_one_iff.mp below

/-- Below the first ready queue, the law of promotion bounds the ticks. -/
theorem Passed.climbing (passed : Passed env before count after) (settled : before.Settled)
    (counters : before.sched.schedulerMethod = .prirr →
      (before.sched.envs env).nTicks ≤ before.sched.starvationThreshold + 1 ∧
        before.sched.starvationThreshold < 2 ^ 32 - 1)
    (below : (after.sched.envs env).priority ≠ 0) :
    count < (before.sched.envs env).priority * (before.sched.starvationThreshold + 2) := by
  obtain ⟨all, fewer, stays⟩ := passed.staysReady
  obtain ⟨settled', ready, same⟩ := stays.settled settled
  cases method : before.sched.schedulerMethod with
  | rr => exact absurd (settled'.top_of_rr (same.method.trans method) ready) below
  | prirr =>
      obtain ⟨counted, word⟩ := counters method
      have climbed := (stays.climbed settled method counted (by omega)).1
      have levels : (all + (before.sched.envs env).nTicks) /
          (before.sched.starvationThreshold + 2) < (before.sched.envs env).priority := by omega
      have ticks := (Nat.div_lt_iff_lt_mul (by omega)).mp levels
      omega

/-- In the first ready queue, every tick takes one away that is served before. -/
theorem Passed.topped (passed : Passed env before count after) (settled : before.Settled)
    (counters : before.sched.schedulerMethod = .prirr →
      (before.sched.envs env).nTicks ≤ before.sched.starvationThreshold + 1 ∧
        before.sched.starvationThreshold < 2 ^ 32 - 1)
    (top : (after.sched.envs env).priority = 0) :
    ∃ number, after.sched.Ahead env number ∧ count + number ≤
      (before.sched.envs env).priority * (before.sched.starvationThreshold + 2) +
        (nenv sizeofEnv - 1) := by
  induction passed with
  | start ready => exact ⟨_, settled.ahead ready top, by omega⟩
  | @call count middle after call earlier enabled performed ready policy spares ih =>
      obtain ⟨all, -, stays⟩ := earlier.staysReady
      obtain ⟨settled', -, -⟩ := stays.settled settled
      by_cases was : (middle.sched.envs env).priority = 0
      · obtain ⟨number, ahead, bound⟩ := ih was
        obtain ⟨less, ahead', moved⟩ :=
          settled'.ahead_of_perform enabled spares performed ready ahead
        exact ⟨less, ahead', by omega⟩
      · have climbing := earlier.climbing settled counters was
        have busy := (middle.busyTicks_le call).trans (ticks_le_one call)
        have settled'' := ((settled'.perform enabled).of_ok performed).1
        exact ⟨_, settled''.ahead ready top, by omega⟩

/-- **No starvation.** As long as an environment waits in the ready queues, the clock ticks that
take the CPU from another process are bounded by its priority, the threshold and the number of
environments. -/
theorem no_starvation (settled : before.Settled)
    (counters : before.sched.schedulerMethod = .prirr →
      (before.sched.envs env).nTicks ≤ before.sched.starvationThreshold + 1 ∧
        before.sched.starvationThreshold < 2 ^ 32 - 1)
    (passed : Passed env before count after) :
    count ≤ (before.sched.envs env).priority * (before.sched.starvationThreshold + 2) +
      (nenv sizeofEnv - 1) := by
  by_cases top : (after.sched.envs env).priority = 0
  · obtain ⟨number, -, bound⟩ := passed.topped settled counters top
    omega
  · have climbing := passed.climbing settled counters top
    omega

/-- An environment of the level 2 that a clock tick passes by. -/
theorem no_starvation_tick : ∃ before after : SchedMachine 1480, Passed 1 before 1 after ∧
    1 ≤ 2 * (1 + 2) + (nenv 1480 - 1) := by
  have found : ((follow (fun _ _ => True) (boot 1480) [.schedInitPRIRR 3 1, .envCreate,
      .schedNewEnv 0, .envCreate, .envSetPriority (firstEnvId 1480 1) 2, .schedNewEnv 1,
      .schedRunAll]).any fun before =>
        decide ((before.sched.envs 1).envStatus = .ready ∧ (before.sched.envs 1).priority = 2 ∧
          (before.sched.envs 1).nTicks = 0 ∧ before.sched.starvationThreshold = 1 ∧
            before.sched.proc = some 0) &&
          Returns (before.perform .clockInterrupt) fun after =>
            decide ((after.sched.envs 1).envStatus = .ready ∧
              after.sched.schedulerMethod = before.sched.schedulerMethod ∧
                after.sched.numOfReadyQueues = before.sched.numOfReadyQueues ∧
                  after.sched.starvationThreshold = before.sched.starvationThreshold)) = true := by
    decide +kernel
  obtain ⟨before, followed, checks⟩ := (Option.any_eq_true ..).mp found
  rw [Bool.and_eq_true, decide_eq_true_eq] at checks
  obtain ⟨⟨ready, priority, counted, threshold, running⟩, returns⟩ := checks
  obtain ⟨after, performed, kept⟩ := Returns.exists returns
  obtain ⟨ready', same⟩ := of_decide_eq_true kept
  have settled := settled_of_run (run_of_follow .refl _ followed)
  have enabled : before.Enabled .clockInterrupt := trivial
  have busy : before.busyTicks .clockInterrupt = 1 := by
    unfold busyTicks
    rw [running]
    rfl
  have passed : Passed 1 before (0 + before.busyTicks .clockInterrupt) after :=
    .call (.start ready) enabled performed ready' ⟨same.1, same.2.1, same.2.2⟩ trivial
  rw [busy] at passed
  have bound := no_starvation settled (fun _ => ⟨by omega, by omega⟩) passed
  rw [priority, threshold] at bound
  exact ⟨before, after, passed, bound⟩

end SchedMachine

end FosKernel
