import FosKernel.Cpu.Placement
import FosKernel.Lib.RoundRobin

/-!
# Rotation of the ready queues

Both policies put the process on the CPU last in a ready queue and take the first
environment of the lowest level that has one. As long as the processes only yield the
CPU, the environments of that level take turns.
-/

namespace FosKernel

namespace Scheduler

variable {sizeofEnv : Nat} {sched after : Scheduler sizeofEnv}
  {contents contents' : QueueName → List Nat} {level best count env : Nat} {next : Option Nat}

/-- The level of the ready queue that the current policy puts a process back into. -/
def levelOf (sched : Scheduler sizeofEnv) (env : Nat) : Nat :=
  match sched.schedulerMethod with
  | .rr => 0
  | .prirr => (sched.envs env).priority

/-- The ready queues in the order of service. Environments enter at the head and leave at the
end. -/
def fifo (contents : QueueName → List Nat) (level : Nat) : List Nat :=
  (contents (.ready level)).reverse

/-- The ready queues with the process on the CPU, if there is one, put back. -/
def waiting (sched : Scheduler sizeofEnv) (contents : QueueName → List Nat) : Nat → List Nat :=
  RoundRobin.requeue sched.levelOf sched.proc (fifo contents)

/-- The queues hold their contents, and a process on the CPU is in none of them and has a valid
level. -/
structure Queued (sched : Scheduler sizeofEnv) (contents : QueueName → List Nat) : Prop where
  holds : sched.queues.Holds contents
  outside : ∀ env ∈ sched.proc, Outside contents env
  valid : ∀ env ∈ sched.proc, sched.levelOf env < sched.numOfReadyQueues
  single : sched.schedulerMethod = .rr → sched.numOfReadyQueues = 1

/-- What a policy does: the process on the CPU is put back, and the first environment of the lowest
level that has one leaves its queue. -/
structure Chooses (sched : Scheduler sizeofEnv) (contents : QueueName → List Nat)
    (next : Option Nat) (after : Scheduler sizeofEnv) (contents' : QueueName → List Nat) :
    Prop where
  same : after = { sched with queues := after.queues }
  holds : after.queues.Holds contents'
  served : RoundRobin.Served sched.numOfReadyQueues (sched.waiting contents) next (fifo contents')
  others : ∀ name, (∀ level, name ≠ .ready level) → contents' name = contents name
  outside : ∀ env ∈ next, Outside contents' env

/-- A round of `fos_scheduler` after another one. The process on the CPU, if there is one, yields
it. -/
def redispatch (sched : Scheduler sizeofEnv) : Except SchedStop (Scheduler sizeofEnv) :=
  match sched.proc with
  | none => sched.dispatch
  | some _ => sched.yield

/-- Consecutive rounds, and the environments that they put on the CPU. -/
def redispatches (sched : Scheduler sizeofEnv) :
    Nat → Except SchedStop (List Nat × Scheduler sizeofEnv)
  | 0 => .ok ([], sched)
  | count + 1 => do
      let (served, sched) ← sched.redispatches count
      let sched ← sched.redispatch
      return (served ++ sched.proc.toList, sched)

theorem fifo_update (contents : QueueName → List Nat) (level : Nat) (envs : List Nat) :
    fifo (Function.update contents (.ready level) envs) =
      Function.update (fifo contents) level envs.reverse := by
  funext other
  unfold fifo
  by_cases same : other = level
  · subst same
    rw [Function.update_self, Function.update_self]
  · rw [Function.update_of_ne same, Function.update_of_ne]
    rintro ⟨⟩
    exact same rfl

theorem update_others (contents : QueueName → List Nat) (level : Nat) (envs : List Nat)
    {name : QueueName} (apart : ∀ level, name ≠ .ready level) :
    Function.update contents (.ready level) envs name = contents name :=
  Function.update_of_ne (apart level) ..

/-- The state in which a policy looks for the next environment. -/
def putBack (sched : Scheduler sizeofEnv) : Scheduler sizeofEnv :=
  match sched.proc with
  | none => sched
  | some env => sched.enqueue (.ready (sched.levelOf env)) env

theorem putBack_same (sched : Scheduler sizeofEnv) :
    sched.putBack = { sched with queues := sched.putBack.queues } := by
  unfold putBack
  split <;> rfl

/-- The process on the CPU enters its queue. -/
theorem Queued.putBack (queued : sched.Queued contents) :
    ∃ contents₁, sched.putBack.queues.Holds contents₁ ∧
      fifo contents₁ = sched.waiting contents ∧
      ∀ name, (∀ level, name ≠ .ready level) → contents₁ name = contents name := by
  unfold Scheduler.putBack waiting
  cases running : sched.proc with
  | none => exact ⟨contents, queued.holds, rfl, fun _ _ => rfl⟩
  | some env =>
      refine ⟨_, queued.holds.insertHead (queued.outside env running), ?_,
        fun name apart => update_others contents _ _ apart⟩
      rw [fifo_update, List.reverse_cons, RoundRobin.requeue_some]
      rfl

/-- The environment that leaves a queue is the first one in the order of service. -/
theorem chooses_first {middle : Scheduler sizeofEnv} {contents₁ : QueueName → List Nat}
    {front : List Nat} (holds : middle.queues.Holds contents₁)
    (waits : fifo contents₁ = sched.waiting contents)
    (same : middle = { sched with queues := middle.queues })
    (others : ∀ name, (∀ level, name ≠ .ready level) → contents₁ name = contents name)
    (below : level < sched.numOfReadyQueues) (lower : ∀ lower < level,
      contents₁ (.ready lower) = [])
    (split : contents₁ (.ready level) = front ++ [env]) :
    ∃ contents', sched.Chooses contents (some env)
      (middle.removeFromQueue (.ready level) env) contents' := by
  refine ⟨_, ?_, holds.remove split, ?_, ?_, ?_⟩
  · rw [same]
    rfl
  · rw [fifo_update, ← waits, List.append_nil]
    refine .first below (fun other less => ?_) ?_
    · rw [fifo, lower other less, List.reverse_nil]
    · rw [fifo, split, List.reverse_concat]
  · intro name apart
    rw [update_others contents₁ _ _ apart, others name apart]
  · rintro _ ⟨⟩
    exact holds.removed split

/-- No ready queue has an environment. -/
theorem chooses_none {middle : Scheduler sizeofEnv} {contents₁ : QueueName → List Nat}
    (holds : middle.queues.Holds contents₁) (waits : fifo contents₁ = sched.waiting contents)
    (same : middle = { sched with queues := middle.queues })
    (others : ∀ name, (∀ level, name ≠ .ready level) → contents₁ name = contents name)
    (empty : ∀ level < sched.numOfReadyQueues, contents₁ (.ready level) = []) :
    sched.Chooses contents none middle contents₁ where
  same := same
  holds := holds
  served := by
    rw [← waits]
    exact .none fun level below => by rw [fifo, empty level below, List.reverse_nil]
  others := others
  outside _ absent := by cases absent

theorem fosSchedulerRR_eq (method : sched.schedulerMethod = .rr)
    (single : sched.numOfReadyQueues = 1) :
    sched.fosSchedulerRR = .ok (sched.putBack.dequeue (.ready 0)) := by
  unfold fosSchedulerRR readyQueue Scheduler.putBack levelOf
  rw [if_pos (by omega), method]
  rfl

theorem enqueueCurrent_eq (method : sched.schedulerMethod = .prirr)
    (queued : sched.Queued contents) : sched.enqueueCurrent = .ok sched.putBack := by
  unfold enqueueCurrent Scheduler.putBack
  cases running : sched.proc with
  | none => rfl
  | some env =>
      have valid := queued.valid env running
      unfold levelOf at valid ⊢
      rw [method] at valid ⊢
      dsimp only at valid ⊢
      unfold readyQueue
      rw [if_pos valid]
      rfl

/-- **One call of the current policy.** -/
theorem Queued.schedNext (queued : sched.Queued contents) :
    ∃ next after contents', sched.schedNext = .ok (next, after) ∧
      sched.Chooses contents next after contents' := by
  obtain ⟨contents₁, holds, waits, others⟩ := queued.putBack
  have same := sched.putBack_same
  unfold Scheduler.schedNext
  cases method : sched.schedulerMethod with
  | rr =>
      have single := queued.single method
      dsimp only
      rw [fosSchedulerRR_eq method single]
      rcases dequeue_of_holds holds (.ready 0) with
        ⟨empty, nothing⟩ | ⟨front, env, split, taken⟩
      · rw [nothing]
        refine ⟨_, _, _, rfl, chooses_none holds waits same others fun level below => ?_⟩
        obtain rfl : level = 0 := by omega
        exact empty
      · rw [taken]
        obtain ⟨contents', chooses⟩ := chooses_first holds waits same others
          (single ▸ Nat.one_pos) (fun lower less => absurd less (Nat.not_lt_zero lower)) split
        exact ⟨_, _, contents', rfl, chooses⟩
  | prirr =>
      have levels : sched.putBack.numOfReadyQueues = sched.numOfReadyQueues := by rw [same]
      have size (i : Nat) : (sched.putBack.queue (.ready i)).size =
          (contents₁ (.ready i)).length :=
        (holds.represents (.ready i)).size_eq
      unfold fosSchedulerPRIRR
      simp only [enqueueCurrent_eq method queued, levels, size, bind, Except.bind]
      cases found : (List.range sched.numOfReadyQueues).find? fun i =>
          decide ((contents₁ (.ready i)).length ≠ 0) with
      | none =>
          refine ⟨_, _, _, rfl, chooses_none holds waits same others fun level below => ?_⟩
          have skipped := List.find?_eq_none.mp found level (List.mem_range.mpr below)
          simpa using skipped
      | some i =>
          obtain ⟨filled, below, lower⟩ := List.find?_range_eq_some.mp found
          rcases dequeue_of_holds holds (.ready i) with
            ⟨empty, -⟩ | ⟨front, env, split, taken⟩
          · simp [empty] at filled
          · obtain ⟨contents', chooses⟩ := chooses_first holds waits same others
              (List.mem_range.mp below) (fun j less => by simpa using lower j less) split
            exact ⟨_, _, contents', congrArg Except.ok taken, chooses⟩

theorem levelOf_setEnv (sched : Scheduler sizeofEnv) (env : Nat) {value : SchedEnv}
    (priority : value.priority = (sched.envs env).priority) :
    (sched.setEnv env value).levelOf = sched.levelOf := by
  funext other
  unfold levelOf
  change (match sched.schedulerMethod with | .rr => 0 | .prirr => _) = _
  by_cases same : other = env
  · subst same
    rw [setEnv_self, priority]
  · rw [setEnv_of_ne _ _ same]

/-- The process on the CPU is ready. -/
def yielded (sched : Scheduler sizeofEnv) : Scheduler sizeofEnv :=
  match sched.proc with
  | none => sched
  | some env => sched.setEnv env { sched.envs env with envStatus := .ready }

theorem yielded_same (sched : Scheduler sizeofEnv) :
    sched.yielded = { sched with envs := sched.yielded.envs } := by
  unfold yielded
  split <;> rfl

theorem levelOf_yielded (sched : Scheduler sizeofEnv) :
    sched.yielded.levelOf = sched.levelOf := by
  unfold yielded
  split
  · rfl
  · exact levelOf_setEnv sched _ rfl

theorem redispatch_eq (sched : Scheduler sizeofEnv) :
    sched.redispatch = sched.yielded.dispatch := by
  unfold redispatch yielded
  cases running : sched.proc with
  | none => rfl
  | some env =>
      unfold yield
      rw [running]
      change ((sched.setEnv env _).sched) = _
      have proc : (sched.setEnv env { sched.envs env with envStatus := .ready }).proc = some env :=
        running
      unfold Scheduler.sched resumeScheduler
      rw [proc]
      simp only [setEnv_self]
      rfl

/-- A process has switched to the environment that the policy has chosen. -/
def switchedTo (sched : Scheduler sizeofEnv) (env : Nat) : Scheduler sizeofEnv :=
  { sched with proc := some env }.setEnv env { sched.envs env with envStatus := .running }

theorem levelOf_switchedTo (sched : Scheduler sizeofEnv) (env : Nat) :
    (sched.switchedTo env).levelOf = sched.levelOf :=
  levelOf_setEnv { sched with proc := some env } env rfl

theorem dispatch_eq (chosen : sched.schedNext = .ok (some env, after)) :
    sched.dispatch = .ok (after.switchedTo env) := by
  unfold dispatch
  rw [chosen]
  rfl

/-- The ready queues after some turns of their best level. -/
structure Rotating (levelOf : Nat → Nat) (levels : Nat) (queues : Nat → List Nat) (best : Nat)
    (ring : List Nat) (count : Nat) (sched : Scheduler sizeofEnv) : Prop where
  queued : ∃ contents, sched.Queued contents ∧
    sched.waiting contents = Function.update queues best (ring.rotate count)
  level : sched.levelOf = levelOf
  number : sched.numOfReadyQueues = levels

variable {levelOf : Nat → Nat} {levels start : Nat} {queues : Nat → List Nat} {ring : List Nat}

/-- **One round.** The first environment of the best level gets the CPU, and the level rotates. -/
theorem Rotating.redispatch (found : RoundRobin.Best levels queues best ring)
    (leveled : ∀ env ∈ ring, levelOf env = best)
    (rotating : Rotating levelOf levels queues best ring count sched) :
    ∃ after, sched.redispatch = .ok after ∧ (ring.rotate count).head? = after.proc ∧
      Rotating levelOf levels queues best ring (count + 1) after := by
  obtain ⟨⟨contents, queued, rotated⟩, level, number⟩ := rotating
  have same := sched.yielded_same
  have ready : sched.yielded.Queued contents := by
    refine ⟨?_, ?_, ?_, ?_⟩
    · rw [same]
      exact queued.holds
    · rw [same]
      exact queued.outside
    · rw [levelOf_yielded, same]
      exact queued.valid
    · rw [same]
      exact queued.single
  obtain ⟨next, after, contents', chosen, chooses⟩ := ready.schedNext
  have waits : sched.yielded.waiting contents = sched.waiting contents := by
    unfold waiting
    rw [levelOf_yielded, same]
  have served := chooses.served
  rw [waits, rotated, same, number] at served
  have turn := found.turn leveled rfl served
  obtain ⟨env, rest, split, rfl, -⟩ := (found.rotate count).served served
  have member : env ∈ ring := List.mem_rotate.mp (by rw [split]; exact List.mem_cons_self)
  have levelAfter : (after.switchedTo env).levelOf = levelOf := by
    rw [levelOf_switchedTo, chooses.same]
    exact (levelOf_yielded sched).trans level
  have numberAfter : (after.switchedTo env).numOfReadyQueues = levels := by
    rw [← number, switchedTo, chooses.same, same]
    rfl
  have methodAfter : (after.switchedTo env).schedulerMethod = sched.schedulerMethod := by
    rw [switchedTo, chooses.same, same]
    rfl
  refine ⟨after.switchedTo env, ?_, turn.1,
    ⟨contents', ⟨chooses.holds, chooses.outside, ?_, ?_⟩,
    ?_⟩, levelAfter, numberAfter⟩
  · rw [redispatch_eq, dispatch_eq chosen]
  · rintro _ ⟨⟩
    rw [levelAfter, numberAfter, leveled env member]
    exact found.below
  · rw [methodAfter, numberAfter, ← number]
    exact queued.single
  · rw [waiting, levelAfter]
    exact turn.2

/-- **Some rounds.** They put the next environments of the ring on the CPU. -/
theorem Rotating.redispatches (found : RoundRobin.Best levels queues best ring)
    (leveled : ∀ env ∈ ring, levelOf env = best)
    (rotating : Rotating levelOf levels queues best ring start sched) (count : Nat) :
    ∃ served after, sched.redispatches count = .ok (served, after) ∧
      Rotating levelOf levels queues best ring (start + count) after ∧
        (count ≤ ring.length → served = (ring.rotate start).take count) := by
  induction count with
  | zero => exact ⟨[], sched, rfl, rotating, fun _ => rfl⟩
  | succ count ih =>
      obtain ⟨served, middle, early, rotating', prefixes⟩ := ih
      obtain ⟨after, late, first, rotating''⟩ := rotating'.redispatch found leveled
      refine ⟨served ++ after.proc.toList, after, ?_, rotating'', fun le => ?_⟩
      · unfold Scheduler.redispatches
        rw [early]
        change (middle.redispatch >>= fun _ => _) = _
        rw [late]
        rfl
      · rw [prefixes (Nat.le_of_succ_le le), ← first, RoundRobin.take_rotate_succ ring start le]

/-- A process on the CPU and those of its level in the queues are different. -/
theorem Queued.nodup (queued : sched.Queued contents) (level : Nat) :
    (sched.waiting contents level).Nodup := by
  obtain ⟨contents₁, holds, waits, -⟩ := queued.putBack
  rw [← waits]
  exact List.nodup_reverse.mpr (holds.represents (.ready level)).nodup

/-- Environments wait in the queue of their level. -/
def InLevels (sched : Scheduler sizeofEnv) (contents : QueueName → List Nat) : Prop :=
  ∀ level, ∀ env ∈ contents (.ready level), sched.levelOf env = level

theorem InLevels.waiting (inLevels : sched.InLevels contents) {level env : Nat}
    (member : env ∈ sched.waiting contents level) : sched.levelOf env = level := by
  unfold Scheduler.waiting at member
  cases running : sched.proc with
  | none =>
      rw [running] at member
      exact inLevels level env (List.mem_reverse.mp member)
  | some current =>
      rw [running, RoundRobin.requeue_some] at member
      by_cases same : level = sched.levelOf current
      · rw [same, Function.update_self, List.mem_append, List.mem_singleton] at member
        rcases member with queued | rfl
        · exact same ▸ inLevels _ env (List.mem_reverse.mp queued)
        · exact same.symm
      · rw [Function.update_of_ne same] at member
        exact inLevels level env (List.mem_reverse.mp member)

/-- **Priority round robin.** A call of the current policy puts the process on the CPU last in the
queue of its level and takes the first environment of the lowest level that has one. Over
consecutive rounds, the environments of that level take turns in one order. -/
theorem Queued.roundRobin (queued : sched.Queued contents) :
    (∃ next after contents', sched.schedNext = .ok (next, after) ∧
      sched.Chooses contents next after contents') ∧
    (sched.InLevels contents → ∀ best ring,
      RoundRobin.Best sched.numOfReadyQueues (sched.waiting contents) best ring →
        ring.Nodup ∧ ∀ start, ∃ served middle after,
          sched.redispatches start = .ok (served, middle) ∧
            middle.redispatches ring.length = .ok (ring.rotate start, after)) := by
  refine ⟨queued.schedNext, fun inLevels best ring found => ?_⟩
  have leveled : ∀ env ∈ ring, sched.levelOf env = best := fun env member =>
    inLevels.waiting (found.here ▸ member)
  refine ⟨found.here ▸ queued.nodup best, fun start => ?_⟩
  have rotating : Rotating sched.levelOf sched.numOfReadyQueues (sched.waiting contents) best ring
      0 sched := by
    refine ⟨⟨contents, queued, ?_⟩, rfl, rfl⟩
    rw [List.rotate_zero, ← found.here, Function.update_eq_self]
  obtain ⟨served, middle, early, rotating', -⟩ := rotating.redispatches found leveled start
  obtain ⟨turns, after, late, -, whole⟩ := rotating'.redispatches found leveled ring.length
  refine ⟨served, middle, after, early, ?_⟩
  rw [late, whole (Nat.le_refl _), Nat.zero_add, List.take_of_length_le]
  rw [List.length_rotate]

/-- Three environments of level 1. The last one is on the CPU. -/
def threeInTurn : Scheduler 1480 where
  queues := (SharedLists.insertHead (SharedLists.insertHead
    ⟨fun _ => ⟨none, none, 0⟩, fun _ => none, fun _ => none⟩ (.ready 1) 0) (.ready 1) 1)
  envs := fun env => ⟨firstEnvId 1480 env, if env = 2 then .running else .ready, 1, 0⟩
  proc := some 2
  started := true
  schedulerMethod := .prirr
  numOfReadyQueues := 3
  starvationThreshold := 0

/-- The queues of `threeInTurn`. -/
def threeContents : QueueName → List Nat := Function.update (fun _ => []) (.ready 1) [1, 0]

theorem mem_threeContents {name : QueueName} (member : env ∈ threeContents name) :
    name = .ready 1 ∧ env < 2 := by
  unfold threeContents at member
  by_cases same : name = .ready 1
  · rw [same, Function.update_self] at member
    refine ⟨same, ?_⟩
    rcases List.mem_pair.mp member with rfl | rfl <;> decide
  · rw [Function.update_of_ne same] at member
    cases member

theorem threeInTurn_queued : threeInTurn.Queued threeContents := by
  have empty : (SharedLists.mk (fun _ : QueueName => (⟨none, none, 0⟩ : ListHeader Nat))
      (fun _ => none) fun _ => none).Holds fun _ => [] :=
    ⟨fun _ => ⟨List.nodup_nil, rfl, rfl, rfl, trivial⟩,
      fun _ _ _ => List.disjoint_nil_left _⟩
  have one : (SharedLists.insertHead _ (QueueName.ready 1) 0).Holds
      (Function.update _ (.ready 1) [0]) :=
    empty.insertHead fun _ => List.not_mem_nil
  have two : (SharedLists.insertHead _ (QueueName.ready 1) 1).Holds
      (Function.update _ (.ready 1) [1, 0]) :=
    one.insertHead fun other member => by
      have found := SharedLists.mem_insert.mp member
      simp at found
  rw [Function.update_idem] at two
  refine ⟨two, ?_, ?_, fun method => by cases method⟩
  · rintro _ ⟨⟩ name member
    exact absurd (mem_threeContents member).2 (by decide)
  · rintro _ ⟨⟩
    decide

/-- The theorem after one of the three has got the CPU. -/
theorem roundRobin_three : ∃ served middle after,
    threeInTurn.redispatches 1 = .ok (served, middle) ∧
      middle.redispatches 3 = .ok ([1, 2, 0], after) := by
  have inLevels : threeInTurn.InLevels threeContents := by
    intro level env member
    obtain ⟨same, -⟩ := mem_threeContents member
    cases same
    rfl
  have best : RoundRobin.Best threeInTurn.numOfReadyQueues (threeInTurn.waiting threeContents) 1
      [0, 1, 2] := by
    refine ⟨by decide, fun lower less => ?_, by decide, by simp⟩
    obtain rfl := Nat.lt_one_iff.mp less
    decide
  exact (threeInTurn_queued.roundRobin.2 inLevels 1 [0, 1, 2] best).2 1

end Scheduler

end FosKernel
