import FosKernel.Cpu.Placement

/-!
# Clock ticks

`clock_interrupt_handler` visits every environment of the ready queues once: it counts
a tick, or moves the environment one level up when it has counted more than the
threshold.
-/

namespace FosKernel

/-- The environment one level up. -/
def SchedEnv.raised (env : SchedEnv) : SchedEnv := { env with priority := env.priority - 1 }

/-- What a visit of `clock_interrupt_handler` makes of a ready environment. -/
def SchedEnv.ticked (starvationThreshold : Nat) (env : SchedEnv) : SchedEnv :=
  if env.priority = 0 then env
  else if env.nTicks > starvationThreshold then
    { env.raised with nTicks := 0 }
  else { env with nTicks := add32 env.nTicks 1 }

theorem SchedEnv.ticked_status (starvationThreshold : Nat) (env : SchedEnv) :
    (env.ticked starvationThreshold).envStatus = env.envStatus := by
  unfold SchedEnv.ticked
  split
  · rfl
  · split <;> rfl

theorem SchedEnv.ticked_priority_le (starvationThreshold : Nat) (env : SchedEnv) :
    (env.ticked starvationThreshold).priority ≤ env.priority := by
  unfold SchedEnv.ticked
  split
  · exact Nat.le_refl _
  · split
    · exact Nat.sub_le ..
    · exact Nat.le_refl _

/-- A visit counts one tick at most. -/
theorem SchedEnv.ticked_nTicks_le (starvationThreshold : Nat) (env : SchedEnv) :
    (env.ticked starvationThreshold).nTicks ≤ env.nTicks + 1 := by
  unfold SchedEnv.ticked
  split
  · exact Nat.le_succ _
  · split
    · exact Nat.zero_le _
    · exact Nat.mod_le ..

/-- Only an environment that has counted more ticks than the threshold is raised. -/
theorem SchedEnv.ticked_raised {starvationThreshold : Nat} {env : SchedEnv}
    (raised : (env.ticked starvationThreshold).priority < env.priority) :
    starvationThreshold < env.nTicks := by
  unfold SchedEnv.ticked at raised
  split at raised
  · exact absurd raised (Nat.lt_irrefl _)
  · split at raised
    · assumption
    · exact absurd raised (Nat.lt_irrefl _)

namespace Scheduler

variable {sizeofEnv : Nat} {sched after : Scheduler sizeofEnv}
  {contents contents' : QueueName → List Nat}
  {loose : List Nat} {env level : Nat} {front back visited : List Nat}

/-- The visits of some environments below a level are done. -/
structure Visited (sched : Scheduler sizeofEnv) (contents : QueueName → List Nat) (level : Nat)
    (visited : List Nat) (after : Scheduler sizeofEnv) (contents' : QueueName → List Nat) :
    Prop where
  same : after = { sched with
    queues := after.queues
    envs := after.envs }
  ticked : ∀ env ∈ visited, after.envs env = (sched.envs env).ticked sched.starvationThreshold
  rest : ∀ env, env ∉ visited → after.envs env = sched.envs env
  others : ∀ name, (∀ lower < level, name ≠ .ready lower) → contents' name = contents name
  outside : ∀ env, Outside contents env → Outside contents' env

theorem Visited.none (sched : Scheduler sizeofEnv) (contents : QueueName → List Nat)
    (level : Nat) :
    Visited sched contents level [] sched contents where
  same := rfl
  ticked _ member := absurd member List.not_mem_nil
  rest _ _ := rfl
  others _ _ := rfl
  outside _ := id

/-- Visits of other environments follow. -/
theorem Visited.trans {middle : Scheduler sizeofEnv} {contents₁ : QueueName → List Nat}
    {first second : List Nat} {level' : Nat}
    (done : Visited sched contents level first middle contents₁)
    (next : Visited middle contents₁ level' second after contents')
    (le : level ≤ level') (apart : List.Disjoint first second) :
    Visited sched contents level' (first ++ second) after contents' where
  same := by
    have equal := next.same
    rw [done.same] at equal
    exact equal
  ticked env member := by
    have threshold : middle.starvationThreshold = sched.starvationThreshold := by rw [done.same]
    rcases List.mem_append.mp member with early | late
    · rw [next.rest env (apart early), done.ticked env early]
    · rw [next.ticked env late, done.rest env fun early => apart early late, threshold]
  rest env absent := by
    rw [List.mem_append, not_or] at absent
    rw [next.rest env absent.2, done.rest env absent.1]
  others name apart := by
    rw [next.others name apart]
    exact done.others name fun lower below => apart lower (below.trans_le le)
  outside env out := next.outside env (done.outside env out)

/-- One environment has got another value. -/
theorem Visited.single (value : SchedEnv)
    (same : after = { sched with
      queues := after.queues
      envs := after.envs })
    (envs : after.envs = Function.update sched.envs env value)
    (ticked : value = (sched.envs env).ticked sched.starvationThreshold)
    (others : ∀ name, (∀ lower < level, name ≠ .ready lower) →
      contents' name = contents name)
    (outside : ∀ env, Outside contents env → Outside contents' env) :
    Visited sched contents level [env] after contents' where
  same := same
  ticked other member := by
    obtain rfl := List.mem_singleton.mp member
    rw [envs]
    exact (Function.update_self ..).trans ticked
  rest other absent := by
    rw [envs]
    exact Function.update_of_ne (fun equal => absent (List.mem_singleton.mpr equal)) ..
  others := others
  outside := outside

/-- The visit of an environment that has counted more ticks than the threshold. -/
theorem Placed.promote (placed : sched.Placed contents loose)
    (split : contents (.ready level) = front ++ env :: back)
    (above : (sched.envs env).priority ≠ 0)
    (starved : sched.starvationThreshold < (sched.envs env).nTicks) :
    ∃ after contents', sched.tickEnv env = .ok after ∧ after.Placed contents' loose ∧
      contents' (.ready level) = front ++ back ∧
        Visited sched contents (level + 1) [env] after contents' := by
  obtain ⟨ready, priority, below⟩ := placed.suits (.ready level) env (by simp [split])
  have outside := placed.holds.removed split
  obtain ⟨lowered, lowered_eq⟩ : ∃ lowered, lowered =
    (sched.removeFromQueue (.ready level) env).setEnv env (sched.envs env).raised := ⟨_, rfl⟩
  have value : lowered.envs env = (sched.envs env).raised := by rw [lowered_eq, setEnv_self]
  have same : (lowered.envs env).priority = level - 1 := by
    rw [value, ← priority]
    rfl
  have levels : (lowered.envs env).priority < lowered.numOfReadyQueues := by
    rw [same, lowered_eq]
    exact Nat.lt_of_le_of_lt (Nat.sub_le ..) below
  have loosened : lowered.Placed (Function.update contents (.ready level) (front ++ back))
      (env :: loose) := by
    rw [lowered_eq]
    exact (placed.remove split).setOutside _ outside (placed.ids env (by rw [ready]; nofun))
  have moved := loosened.readied outside (by rw [value]; exact ready ▸ nofun) levels
  rw [same] at moved
  refine ⟨_, _, ?_, moved.setTicks env 0, ?_,
    .single { (sched.envs env).raised with nTicks := 0 } ?_ ?_ ?_ ?_ ?_⟩
  · unfold Scheduler.tickEnv readyQueue
    rw [if_neg above, if_pos starved, if_pos (priority ▸ below), priority]
    change (((sched.removeFromQueue (.ready level) env).setEnv env
      (sched.envs env).raised).schedInsertReady (some env) >>= _) = _
    rw [← lowered_eq, schedInsertReady_eq, if_pos levels]
    rfl
  · rw [Function.update_of_ne (by simp; omega), Function.update_self]
  · rw [lowered_eq]
    rfl
  · have final : (lowered.readied env).envs env =
        { (sched.envs env).raised with nTicks := 0 } := by
      rw [readied_envs, Function.update_self, value]
      exact congrArg (fun status => ({ (sched.envs env).raised with
        nTicks := 0
        envStatus := status } : SchedEnv)) ready.symm
    change Function.update (lowered.readied env).envs env _ = _
    rw [final, readied_envs, Function.update_idem, lowered_eq]
    exact Function.update_idem ..
  · rw [SchedEnv.ticked, if_neg above, if_pos starved]
  · intro name apart
    rw [Function.update_of_ne (apart _ (Nat.lt_succ_of_le (Nat.sub_le ..))),
      Function.update_of_ne (apart _ (Nat.lt_succ_self _))]
  · intro other out name listed
    rcases SharedLists.mem_insert.mp listed with old | ⟨rfl, -⟩
    · exact out name ((placed.holds.mem_remove split).mp old).1
    · exact out (.ready level) (by simp [split])

/-- The visit of one environment. -/
theorem Placed.tickEnv (placed : sched.Placed contents loose)
    (split : contents (.ready level) = front ++ env :: back) :
    ∃ after contents' front', sched.tickEnv env = .ok after ∧ after.Placed contents' loose ∧
      contents' (.ready level) = front' ++ back ∧
        Visited sched contents (level + 1) [env] after contents' := by
  by_cases top : (sched.envs env).priority = 0
  · refine ⟨sched, contents, front ++ [env], if_pos top, placed, by rw [split, List.append_cons],
      .single (sched.envs env) rfl ?_ ?_ (fun _ _ => rfl) fun _ => id⟩
    · rw [Function.update_eq_self]
    · rw [SchedEnv.ticked, if_pos top]
  · by_cases starved : sched.starvationThreshold < (sched.envs env).nTicks
    · obtain ⟨after, contents', called, rest⟩ := placed.promote split top starved
      exact ⟨after, contents', front, called, rest⟩
    · refine ⟨_, contents, front ++ [env], (if_neg top).trans (if_neg starved),
        placed.setTicks env _, by rw [split, List.append_cons],
        .single _ rfl rfl ?_ (fun _ _ => rfl) fun _ => id⟩
      rw [SchedEnv.ticked, if_neg top, if_neg starved]

/-- The inner loop visits the rest of a level. -/
theorem Placed.tickFrom (placed : sched.Placed contents loose) {rounds : Nat}
    (split : contents (.ready level) = front ++ back) (fuel : back.length ≤ rounds) :
    ∃ after contents', tickFrom rounds back.head? sched = .ok after ∧
      after.Placed contents' loose ∧ Visited sched contents (level + 1) back after contents' := by
  induction back generalizing sched contents front rounds with
  | nil =>
      refine ⟨sched, contents, ?_, placed, .none ..⟩
      cases rounds <;> rfl
  | cons env back ih =>
      obtain _ | rounds := rounds
      · simp at fuel
      obtain ⟨middle, contents₁, front₁, visited, placed₁, split₁, done⟩ :=
        placed.tickEnv split
      obtain ⟨after, contents', rest, placed', next⟩ :=
        ih placed₁ split₁ (by simpa using fuel)
      have nodup := (placed.holds.represents (.ready level)).nodup
      rw [split] at nodup
      refine ⟨after, contents', ?_, placed', done.trans next (Nat.le_refl _) ?_⟩
      · unfold Scheduler.tickFrom
        dsimp only [List.head?_cons]
        rw [placed.next_eq split, visited]
        exact rest
      · have fresh := (List.nodup_cons.mp (List.nodup_append.mp nodup).2.1).1
        simpa using fresh

/-- The environments in the lowest levels. -/
def readyBelow (contents : QueueName → List Nat) (levels : Nat) : List Nat :=
  (List.range levels).flatMap fun level => contents (.ready level)

theorem tickLevels_succ (sched : Scheduler sizeofEnv) (level : Nat) :
    tickLevels (List.range (level + 1)) sched =
      tickLevels (List.range level) sched >>= fun middle =>
        middle.readyQueue level >>= fun queue =>
          tickFrom (nenv sizeofEnv) (middle.queue queue).first middle := by
  unfold tickLevels
  simp only [List.range_succ, List.foldlM_append, List.foldlM_cons, List.foldlM_nil, bind_pure]

/-- The outer loop visits every environment of some levels. -/
theorem Placed.tickLevels (placed : sched.Placed contents loose) {levels : Nat}
    (le : levels ≤ sched.numOfReadyQueues) :
    ∃ after contents', tickLevels (List.range levels) sched = .ok after ∧
      after.Placed contents' loose ∧
        Visited sched contents levels (readyBelow contents levels) after contents' := by
  induction levels with
  | zero => exact ⟨sched, contents, rfl, placed, .none ..⟩
  | succ level ih =>
      obtain ⟨middle, contents₁, visited, placed₁, done⟩ := ih (by omega)
      have same : contents₁ (.ready level) = contents (.ready level) :=
        done.others _ fun lower below equal => by cases equal; omega
      have inside : level < middle.numOfReadyQueues := by
        rw [done.same]
        exact le
      have whole : contents₁ (.ready level) = [] ++ contents₁ (.ready level) := rfl
      obtain ⟨after, contents', rest, placed', next⟩ :=
        placed₁.tickFrom whole (placed₁.length_le (.ready level))
      refine ⟨after, contents', ?_, placed', ?_⟩
      · rw [tickLevels_succ, visited]
        change (middle.readyQueue level >>= fun queue =>
          Scheduler.tickFrom (nenv sizeofEnv) (middle.queue queue).first middle) = _
        unfold readyQueue
        rw [if_pos inside]
        change Scheduler.tickFrom _ (middle.queue (.ready level)).first middle = _
        rwa [placed₁.first_eq]
      · rw [same] at next
        have visits := done.trans next (Nat.le_succ _) ?_
        · rwa [readyBelow, List.range_succ, List.flatMap_append, List.flatMap_singleton]
        · intro env early late
          obtain ⟨lower, below, member⟩ := List.mem_flatMap.mp early
          refine placed.holds.disjoint (.ready lower) (.ready level) ?_ member late
          rintro ⟨⟩
          simp at below

/-- **What a clock tick does to the ready queues.** Under the priority policy every environment
in them is visited once. -/
theorem Placed.promoteStarved (placed : sched.Placed contents loose) :
    ∃ after contents' visited, sched.promoteStarved = .ok after ∧
      after.Placed contents' loose ∧
      Visited sched contents sched.numOfReadyQueues visited after contents' ∧
        ∀ env ∈ visited, ∃ level, env ∈ contents (.ready level) := by
  unfold Scheduler.promoteStarved
  cases sched.schedulerMethod with
  | rr => exact ⟨sched, contents, [], rfl, placed, .none .., fun _ => nofun⟩
  | prirr =>
      obtain ⟨after, contents', called, placed', visited⟩ := placed.tickLevels (Nat.le_refl _)
      refine ⟨after, contents', _, called, placed', visited, fun env member => ?_⟩
      obtain ⟨level, -, inside⟩ := List.mem_flatMap.mp member
      exact ⟨level, inside⟩

end Scheduler

end FosKernel
