import FosKernel.Cpu.SchedRuns

/-!
# Ready environments between clock ticks

A call first lets environments become ready, and then takes some away from the ready
queues. An environment that is ready before and after it has not changed, except by a
clock tick or by `env_set_priority` on itself.
-/

namespace FosKernel

namespace Scheduler

variable {sizeofEnv : Nat} {sched middle after : Scheduler sizeofEnv}
  {contents : QueueName → List Nat} {adding : List Nat} {env chan : Nat} {name : QueueName}
  {front : List Nat}

/-- Environments that are ready stay as they are. -/
def Admits (sched after : Scheduler sizeofEnv) : Prop :=
  ∀ env, (sched.envs env).envStatus = .ready → after.envs env = sched.envs env

/-- An environment that has changed is not ready. -/
def Withdraws (sched after : Scheduler sizeofEnv) : Prop :=
  ∀ env, after.envs env = sched.envs env ∨ (after.envs env).envStatus ≠ .ready

/-- An environment that is ready before and after has not changed. -/
def Undisturbed (sched after : Scheduler sizeofEnv) : Prop :=
  ∀ env, (sched.envs env).envStatus = .ready → (after.envs env).envStatus = .ready →
    after.envs env = sched.envs env

theorem Admits.refl (sched : Scheduler sizeofEnv) : sched.Admits sched := fun _ _ => rfl

theorem Admits.trans (first : sched.Admits middle) (second : middle.Admits after) :
    sched.Admits after := by
  intro env ready
  have same := first env ready
  exact (second env (same ▸ ready)).trans same

theorem Withdraws.of_envs (same : after.envs = sched.envs) : sched.Withdraws after :=
  fun env => .inl (congrFun same env)

theorem Withdraws.trans (first : sched.Withdraws middle) (second : middle.Withdraws after) :
    sched.Withdraws after := by
  intro env
  rcases second env with same | gone
  · rw [same]
    exact first env
  · exact .inr gone

theorem Admits.undisturbed (admits : sched.Admits middle) (withdraws : middle.Withdraws after) :
    sched.Undisturbed after := by
  intro env ready ready'
  rcases withdraws env with same | gone
  · exact same.trans (admits env ready)
  · exact absurd ready' gone

theorem Withdraws.undisturbed (withdraws : sched.Withdraws after) : sched.Undisturbed after :=
  (Admits.refl sched).undisturbed withdraws

/-- An environment that was not ready has got another value. -/
theorem Admits.of_update {value : SchedEnv} (unready : (sched.envs env).envStatus ≠ .ready)
    (envs : after.envs = Function.update sched.envs env value) : sched.Admits after := by
  intro other ready
  rw [envs, Function.update_of_ne]
  rintro rfl
  exact unready ready

/-- An environment has got a value that is not ready. -/
theorem Withdraws.of_update {value : SchedEnv} (status : EnvStatus)
    (given : value.envStatus = status) (unready : status ≠ .ready)
    (envs : after.envs = Function.update sched.envs env value) : sched.Withdraws after := by
  intro other
  rw [envs]
  by_cases same : other = env
  · subst same
    rw [Function.update_self, given]
    exact .inr unready
  · rw [Function.update_of_ne same]
    exact .inl rfl

theorem dequeue_envs (sched : Scheduler sizeofEnv) (name : QueueName) :
    (sched.dequeue name).2.envs = sched.envs := by
  unfold dequeue
  split <;> rfl

/-- The policies change only the queues. -/
theorem schedNext_envs {next : Option Nat} (chosen : sched.schedNext = .ok (next, after)) :
    after.envs = sched.envs := by
  unfold schedNext at chosen
  cases method : sched.schedulerMethod with
  | rr =>
      rw [method] at chosen
      obtain ⟨queue, -, taken⟩ := bind_eq_ok.mp chosen
      have result := congrArg (fun pair => pair.2.envs) (Except.ok.inj taken)
      dsimp only at result
      rw [← result, dequeue_envs]
      split <;> rfl
  | prirr =>
      rw [method] at chosen
      obtain ⟨entered, enqueued, taken⟩ := bind_eq_ok.mp chosen
      have same : entered.envs = sched.envs := by
        unfold enqueueCurrent at enqueued
        split at enqueued
        · obtain rfl := Except.ok.inj enqueued
          rfl
        · obtain ⟨queue, -, rest⟩ := bind_eq_ok.mp enqueued
          obtain rfl := Except.ok.inj rest
          rfl
      have result := congrArg (fun pair => pair.2.envs) (Except.ok.inj taken)
      dsimp only at result
      rw [← result, ← same]
      split
      · rfl
      · exact dequeue_envs ..

/-- A round of the scheduler may take one environment out of the ready queues. -/
theorem withdraws_of_dispatch (called : sched.dispatch = .ok after) : sched.Withdraws after := by
  obtain ⟨⟨next, middle⟩, chosen, rest⟩ := bind_eq_ok.mp called
  have same := schedNext_envs chosen
  cases next with
  | none =>
      rw [← Except.ok.inj rest]
      split
      · exact .of_envs same
      · exact .of_envs same
  | some env =>
      rw [← Except.ok.inj rest]
      exact (Withdraws.of_envs same).trans (.of_update .running rfl (by decide) rfl)

/-- The process on the CPU goes back to the scheduler. -/
theorem withdraws_of_sched (called : sched.sched = .ok after) : sched.Withdraws after := by
  unfold Scheduler.sched resumeScheduler at called
  split at called
  · cases called
  · split at called
    · cases called
    · split at called
      · cases called
      · split at called
        · cases called
        · exact withdraws_of_dispatch called
        · have withdraws := withdraws_of_dispatch called
          exact withdraws

/-- `yield`. -/
theorem Settled.yield_undisturbed (settled : sched.Settled contents adding)
    (called : sched.yield = .ok after) : sched.Undisturbed after := by
  unfold Scheduler.yield at called
  cases on : sched.proc with
  | none =>
      rw [on] at called
      cases called
  | some env =>
      rw [on] at called
      have running := (settled.running env on).2.1
      have admits : sched.Admits
          (sched.setEnv env { sched.envs env with envStatus := .ready }) :=
        .of_update (by rw [running]; decide) rfl
      exact admits.undisturbed (withdraws_of_sched called)

/-- `sleep`. -/
theorem sleep_undisturbed (called : sched.sleep chan = .ok after) : sched.Undisturbed after := by
  unfold Scheduler.sleep at called
  cases on : sched.proc with
  | none =>
      rw [on] at called
      cases called
  | some env =>
      rw [on] at called
      have blocks : sched.Withdraws ((sched.setEnv env
          { sched.envs env with envStatus := .blocked }).enqueue (.channel chan) env) :=
        .of_update .blocked rfl (by decide) rfl
      exact (blocks.trans (withdraws_of_sched called)).undisturbed

/-- `sched_insert_ready` on an environment that was not ready. -/
theorem admits_of_schedInsertReady (unready : (sched.envs env).envStatus ≠ .ready)
    (called : sched.schedInsertReady (some env) = .ok after) : sched.Admits after := by
  rw [schedInsertReady_eq] at called
  split at called
  · obtain rfl := Except.ok.inj called
    exact .of_update unready (readied_envs sched env)
  · cases called

theorem Waiting.unready (waiting : Waiting name) (arranged : sched.Arranged contents adding)
    (member : env ∈ contents name) : (sched.envs env).envStatus ≠ .ready := by
  rw [(arranged.placed.suits name env member).status]
  rcases waiting with equal | equal
  · rw [equal]
    decide
  · rw [equal]
    decide

/-- All environments of a waiting queue become ready. -/
theorem Arranged.admits_moveToReady (waiting : Waiting name)
    (arranged : sched.Arranged contents adding)
    (called : Scheduler.moveToReady name (contents name).length sched = .ok after) :
        sched.Admits after := by
  generalize size : (contents name).length = count at called
  induction count generalizing sched contents with
  | zero =>
      obtain rfl := Except.ok.inj called
      exact .refl sched
  | succ count ih =>
      unfold Scheduler.moveToReady at called
      rcases arranged.placed.dequeue_cases name with
        ⟨empty, -⟩ | ⟨front, env, split, dequeued⟩
      · rw [empty] at size
        cases size
      · rw [dequeued] at called
        obtain ⟨next, joined, rest⟩ := bind_eq_ok.mp called
        have unready : (sched.envs env).envStatus ≠ .ready :=
          waiting.unready arranged (show env ∈ contents name by simp [split])
        have removed : sched.Admits (sched.removeFromQueue name env) := fun _ _ => rfl
        have admits := removed.trans (admits_of_schedInsertReady unready joined)
        obtain ⟨contents₁, arranged₁, front_eq, -⟩ :=
          (arranged.readyLast waiting (.refl 0 false sched) split).of_ok joined
        rw [split, List.length_append] at size
        exact admits.trans (ih arranged₁ (by rw [front_eq]; simpa using size) rest)

/-- `wakeup_one`. -/
theorem Settled.wakeupOne_admits (settled : sched.Settled contents adding)
    (called : sched.wakeupOne chan = .ok after) : sched.Admits after := by
  unfold Scheduler.wakeupOne at called
  split at called
  · rcases settled.placed.dequeue_cases (.channel chan) with
      ⟨empty, dequeued⟩ | ⟨front, env, split, dequeued⟩
    · rw [dequeued] at called
      cases called
    · rw [dequeued] at called
      have unready : (sched.envs env).envStatus ≠ .ready :=
        Waiting.unready (.inr rfl) settled.toArranged
          (show env ∈ contents (.channel chan) by simp [split])
      have removed : sched.Admits (sched.removeFromQueue (.channel chan) env) := fun _ _ => rfl
      exact removed.trans (admits_of_schedInsertReady unready called)
  · obtain rfl := Except.ok.inj called
    exact .refl sched

/-- `wakeup_all`. -/
theorem Settled.wakeupAll_admits (settled : sched.Settled contents adding)
    (called : sched.wakeupAll chan = .ok after) : sched.Admits after := by
  unfold Scheduler.wakeupAll at called
  rw [settled.placed.size_eq] at called
  exact settled.toArranged.admits_moveToReady (.inr rfl) called

/-- `fos_scheduler`, entered from the prompt. -/
theorem withdraws_of_fosScheduler (called : sched.fosScheduler = .ok after) :
    sched.Withdraws after := by
  have withdraws := withdraws_of_dispatch called
  exact withdraws

/-- `sched_run_all`. -/
theorem Settled.schedRunAll_undisturbed (settled : sched.Settled contents adding)
    (called : sched.schedRunAll = .ok after) : sched.Undisturbed after := by
  unfold Scheduler.schedRunAll at called
  rw [settled.placed.size_eq] at called
  obtain ⟨middle, moved, rest⟩ := bind_eq_ok.mp called
  have admits := settled.toArranged.admits_moveToReady (.inl rfl) moved
  split at rest
  · cases rest
  · exact admits.undisturbed (withdraws_of_fosScheduler rest)

/-- `sched_run_env`. -/
theorem runFrom_undisturbed {envId : BitVec 32} {rounds : Nat} {cursor : Option Nat}
    (called : sched.runFrom envId rounds cursor = .ok after) : sched.Undisturbed after := by
  induction rounds generalizing cursor with
  | zero =>
      cases cursor with
      | none =>
          obtain rfl := Except.ok.inj called
          exact (Withdraws.of_envs rfl).undisturbed
      | some env => cases called
  | succ rounds ih =>
      cases cursor with
      | none =>
          obtain rfl := Except.ok.inj called
          exact (Withdraws.of_envs rfl).undisturbed
      | some env =>
          unfold Scheduler.runFrom at called
          split at called
          · obtain ⟨removed, left, rest⟩ := bind_eq_ok.mp called
            obtain ⟨middle, joined, last⟩ := bind_eq_ok.mp rest
            have new : (sched.envs env).envStatus = .new ∧ removed.envs =
                Function.update sched.envs env { sched.envs env with envStatus := .unknown } := by
              change (if (sched.envs env).envStatus = .new then _ else _) = _ at left
              split at left
              · rename_i new
                exact ⟨new, by rw [← Except.ok.inj left]; rfl⟩
              · cases left
            have unready : (removed.envs env).envStatus ≠ .ready := by
              rw [new.2, Function.update_self]
              exact (by decide : EnvStatus.unknown ≠ .ready)
            have admits : sched.Admits middle :=
              (Admits.of_update (by rw [new.1]; decide) new.2).trans
                (admits_of_schedInsertReady unready joined)
            split at last
            · obtain rfl := Except.ok.inj last
              exact admits.undisturbed (.of_envs rfl)
            · exact admits.undisturbed (withdraws_of_fosScheduler last)
          · exact ih called

/-- `env_exit`. -/
theorem Settled.envExit_undisturbed (settled : sched.Settled contents adding)
    (called : sched.envExit = .ok after) : sched.Undisturbed after := by
  unfold Scheduler.envExit at called
  cases on : sched.proc with
  | none =>
      rw [on] at called
      cases called
  | some env =>
      rw [on] at called
      obtain ⟨outside, running, -⟩ := settled.running env on
      have nowhere : ((List.range sched.numOfReadyQueues).find? fun level =>
          env ∈ contents (.ready level)) = none :=
        List.find?_eq_none.mpr fun level _ => by simpa using outside (.ready level)
      change (sched.schedExitEnv (sched.envs env).envId >>= _) = _ at called
      rw [settled.schedExitEnv on (by rw [running]; decide) (outside .new), nowhere] at called
      dsimp only at called
      rw [if_pos rfl] at called
      have exits : sched.Withdraws (sched.exited env) :=
        .of_update .exit rfl (by decide) rfl
      exact (exits.trans (withdraws_of_sched called)).undisturbed

/-- `env_set_priority` changes one environment. -/
theorem envSetPriority_envs {envID : BitVec 32} {priority : Int}
    (called : sched.envSetPriority envID priority = .ok after)
    (other : sched.envid2env envID ≠ some (some env)) : after.envs env = sched.envs env := by
  unfold Scheduler.envSetPriority at called
  split at called
  · cases called
  · split at called
    · obtain rfl := Except.ok.inj called
      rfl
    · cases called
    · rename_i target found
      have different : env ≠ target := by
        rintro rfl
        exact other found
      split at called
      · obtain ⟨queue, -, rest⟩ := bind_eq_ok.mp called
        dsimp only at rest
        rw [schedInsertReady_eq] at rest
        split at rest
        · rw [← Except.ok.inj rest, readied_envs, Function.update_of_ne different]
          exact setEnv_of_ne _ _ different
        · cases rest
      · rw [← Except.ok.inj called]
        exact setEnv_of_ne _ _ different

end Scheduler

end FosKernel
