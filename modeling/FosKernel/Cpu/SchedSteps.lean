import FosKernel.Cpu.SchedCalls

/-!
# Calls settle

One lemma for each function that enters the scheduler or moves environments between the
queues.
-/

namespace FosKernel

namespace Scheduler

variable {sizeofEnv : Nat} {sched middle after : Scheduler sizeofEnv}
  {contents contents' : QueueName → List Nat} {adding : List Nat} {env ticks chan : Nat}
  {leaves : Bool} {front back : List Nat} {name : QueueName}

/-- One environment has got another value. -/
theorem Changes.of_update {value : SchedEnv} (policy : SamePolicy sched after)
    (envs : after.envs = Function.update sched.envs env value)
    (changed : (sched.envs env).Changed sched.numOfReadyQueues ticks leaves value) :
    Changes ticks leaves sched after where
  policy := policy
  envs other := by
    by_cases same : other = env
    · subst same
      rwa [envs, Function.update_self]
    · rw [envs, Function.update_of_ne same]
      exact .refl _ _ _ _

theorem Changes.of_envs (policy : SamePolicy sched after) (envs : after.envs = sched.envs) :
    Changes ticks leaves sched after where
  policy := policy
  envs other := by
    rw [envs]
    exact .refl _ _ _ _

/-- Without a process on the CPU, the scheduler looks for one. -/
theorem Arranged.switching (arranged : sched.Arranged contents adding) (idle : sched.proc = none)
    (started : sched.started = true) : sched.Switching contents adding where
  placed := arranged.placed
  current := by
    rw [idle]
    nofun
  added := arranged.added
  started := started

/-- While a process is on the CPU, the scheduler is started. -/
theorem Settled.started (settled : sched.Settled contents adding) (on : sched.proc = some env) :
    sched.started = true := by
  by_contra stopped
  have idle := (settled.stopped (Bool.not_eq_true _ ▸ stopped)).1
  rw [on] at idle
  nomatch idle

theorem sched_of_ready (sched : Scheduler sizeofEnv) (on : sched.proc = some env)
    (ready : (sched.envs env).envStatus = .ready) :
    sched.sched = sched.dispatch := by
  unfold Scheduler.sched resumeScheduler
  rw [on]
  dsimp only
  rw [ready, if_neg nofun]

/-- A process that does not stay ready is off the CPU. -/
theorem sched_of_gone (sched : Scheduler sizeofEnv) (on : sched.proc = some env)
    (running : (sched.envs env).envStatus ≠ .running)
    (ready : (sched.envs env).envStatus ≠ .ready) :
    sched.sched = dispatch { sched with proc := none } := by
  unfold Scheduler.sched resumeScheduler
  rw [on]
  dsimp only
  rw [if_neg running]
  cases status : (sched.envs env).envStatus with
  | running => exact absurd status running
  | ready => exact absurd status ready
  | _ => rfl

/-- `yield`. -/
theorem Settled.yield (settled : sched.Settled contents adding) :
    Settles sched ticks true adding sched.yield := by
  unfold Scheduler.yield
  cases on : sched.proc with
  | none => exact .panic
  | some env =>
      obtain ⟨outside, running, level⟩ := settled.running env on
      have placed := settled.placed.setOutside { sched.envs env with envStatus := .ready } outside
        (settled.placed.ids env (by rw [running]; nofun))
      have value := setEnv_self sched env { sched.envs env with envStatus := .ready }
      have switching :
          (sched.setEnv env { sched.envs env with envStatus := .ready }).Switching
              contents adding := by
        refine ⟨placed, ?_, ?_, settled.started on⟩
        · intro other current
          obtain rfl := Option.some.inj (on.symm.trans current)
          rw [value]
          exact ⟨outside, rfl, level⟩
        · intro other member
          obtain ⟨apart, new⟩ := settled.added other member
          refine ⟨apart, ?_⟩
          rw [setEnv_of_ne]
          · exact new
          · rintro rfl
            rw [running] at new
            nomatch new
      dsimp only
      rw [sched_of_ready (sched.setEnv _ _) on (by rw [value])]
      refine Changes.dispatch (.of_update ⟨rfl, rfl, rfl⟩ rfl ⟨?_, nofun, ?_⟩) switching
      · exact fun _ => .inl level
      · exact fun _ => .inr (.inr ⟨rfl, running, Nat.le_refl _⟩)

/-- A process leaves the CPU for a queue. -/
theorem Settled.leave (settled : sched.Settled contents adding) (on : sched.proc = some env)
    {value : SchedEnv} (id : value.envId = (sched.envs env).envId)
    (level : value.priority = (sched.envs env).priority)
    (suits : value.Suits sched.numOfReadyQueues name)
    (running : value.envStatus ≠ .running) (ready : value.envStatus ≠ .ready) :
    Settles sched ticks leaves adding ((sched.setEnv env value).enqueue name env).sched := by
  obtain ⟨outside, status, below⟩ := settled.running env on
  have ids := settled.placed.ids env (by rw [status]; nofun)
  have loosened := (settled.toArranged.vacate on).setEnv value ⟨ids.1, id.trans ids.2⟩
  have arranged := loosened.enqueue name ids.1 (by rwa [setEnv_self])
  rw [sched_of_gone ((sched.setEnv env value).enqueue name env) on]
  · refine Changes.dispatch (.of_update ⟨rfl, rfl, rfl⟩ rfl ⟨?_, ?_, ?_⟩)
      (arranged.switching rfl (settled.started on))
    · exact fun _ => .inl (level ▸ below)
    · exact fun on => absurd on running
    · exact fun on => absurd on ready
  · exact (setEnv_self sched env value).symm ▸ running
  · exact (setEnv_self sched env value).symm ▸ ready

/-- `sleep`. -/
theorem Settled.sleep (settled : sched.Settled contents adding) (chan : Nat) :
    Settles sched ticks leaves adding (sched.sleep chan) := by
  unfold Scheduler.sleep
  cases on : sched.proc with
  | none => exact .nullPointer
  | some env => exact settled.leave on rfl rfl rfl nofun nofun

/-- A tick raises ready environments, or counts for them. -/
theorem Visited.changes {level : Nat} {visited : List Nat}
    (visits : Visited sched contents level visited after contents')
    (ready : ∀ env ∈ visited, (sched.envs env).envStatus = .ready) :
    Changes 1 leaves sched after where
  policy := by
    rw [visits.same]
    exact ⟨rfl, rfl, rfl⟩
  envs env := by
    by_cases member : env ∈ visited
    · rw [visits.ticked env member]
      refine ⟨fun alive => .inr ⟨?_, SchedEnv.ticked_priority_le ..⟩,
        fun on => ?_, fun _ => ?_⟩
      · rwa [SchedEnv.ticked_status] at alive
      · rw [SchedEnv.ticked_status, ready env member] at on
        nomatch on
      · exact .inr (.inl ⟨ready env member, SchedEnv.ticked_nTicks_le ..⟩)
    · rw [visits.rest env member]
      exact .refl _ _ _ _

theorem Visited.status {level : Nat} {visited : List Nat}
    (visits : Visited sched contents level visited after contents') (env : Nat) :
    (after.envs env).envStatus = (sched.envs env).envStatus := by
  by_cases member : env ∈ visited
  · rw [visits.ticked env member, SchedEnv.ticked_status]
  · rw [visits.rest env member]

/-- What a clock tick does before the process on the CPU yields. -/
theorem Settled.promoteStarved (settled : sched.Settled contents adding) :
    ∃ after contents' visited, sched.promoteStarved = .ok after ∧
      after.Settled contents' adding ∧
      Visited sched contents sched.numOfReadyQueues visited after contents' ∧
        ∀ env ∈ visited, (sched.envs env).envStatus = .ready := by
  obtain ⟨after, contents', visited, called, placed, visits, listed⟩ :=
    settled.placed.promoteStarved
  have ready : ∀ env ∈ visited, (sched.envs env).envStatus = .ready := by
    intro env member
    obtain ⟨level, inside⟩ := listed env member
    exact (settled.placed.suits _ env inside).status
  have proc : after.proc = sched.proc := by rw [visits.same]
  have started : after.started = sched.started := by rw [visits.same]
  have levels : after.numOfReadyQueues = sched.numOfReadyQueues := by rw [visits.same]
  refine ⟨after, contents', visited, called, ⟨⟨?_, ?_, ?_⟩, ?_⟩, visits, ready⟩
  · rwa [proc]
  · intro env on
    obtain ⟨outside, running, level⟩ := settled.running env (proc ▸ on)
    have unvisited : env ∉ visited := fun member => by
      rw [ready env member] at running
      nomatch running
    rw [visits.rest env unvisited, levels]
    exact ⟨visits.outside env outside, running, level⟩
  · refine settled.added.congr fun env outside new => ⟨visits.outside env outside, ?_⟩
    rwa [visits.status]
  · intro stopped
    obtain ⟨idle, calm⟩ := settled.stopped (started ▸ stopped)
    refine ⟨proc.trans idle, fun env => ?_⟩
    rw [visits.status]
    exact calm env

/-- `clock_interrupt_handler`. -/
theorem Settled.clockInterruptHandler (settled : sched.Settled contents adding) :
    Settles sched 1 true adding sched.clockInterruptHandler := by
  obtain ⟨after, contents', visited, called, settled', visits, ready⟩ := settled.promoteStarved
  unfold Scheduler.clockInterruptHandler
  rw [called]
  dsimp only [bind, Except.bind]
  cases after.proc with
  | none => exact (visits.changes ready).settles settled'
  | some env => exact (visits.changes ready).settles_trans settled'.yield

/-- `schedInsertReady` on a loose environment. -/
theorem schedInsertReady_ends (loosened : middle.Loosened contents adding env)
    (changes : Changes 0 leaves sched middle) (alive : (middle.envs env).envStatus ≠ .free)
    (live : (middle.envs env).envStatus ≠ .exit) :
    Ends (middle.schedInsertReady (some env))
      (fun after => after = middle.readied env ∧ Changes 0 leaves sched after ∧
        after.Arranged (Function.update contents (.ready (middle.envs env).priority)
          (env :: contents (.ready (middle.envs env).priority))) adding)
      fun stop => stop ≠ .hang ∧ ∀ index, stop = .outOfRange index → ¬ sched.Leveled := by
  rw [schedInsertReady_eq]
  by_cases level : (middle.envs env).priority < middle.numOfReadyQueues
  · rw [if_pos level]
    refine ⟨rfl, changes.trans (.of_update ⟨rfl, rfl, rfl⟩ rfl ⟨?_, nofun, ?_⟩),
      loosened.readied alive level⟩
    · exact fun _ => .inl level
    · exact fun _ => .inl rfl
  · rw [if_neg level]
    refine ⟨nofun, fun _ _ leveled => level ?_⟩
    exact (changes.leveled leveled).2 env (loosened.placed.ids env alive).1 live

/-- The queues that environments leave when they become ready. -/
def Waiting (name : QueueName) : Prop := name.status = .new ∨ name.status = .blocked

theorem Waiting.ne_ready (waiting : Waiting name) (level : Nat) : name ≠ .ready level := by
  rintro rfl
  rcases waiting with status | status <;> nomatch status

/-- The environments of a waiting queue can become ready. -/
theorem Waiting.alive (waiting : Waiting name) (arranged : sched.Arranged contents adding)
    (member : env ∈ contents name) :
    (sched.envs env).envStatus ≠ .free ∧ (sched.envs env).envStatus ≠ .exit := by
  have status := (arranged.placed.suits name env member).status
  rw [status]
  rcases waiting with equal | equal <;> rw [equal] <;> exact ⟨nofun, nofun⟩

/-- The last environment of a waiting queue becomes ready. -/
theorem Arranged.readyLast (waiting : Waiting name) (arranged : middle.Arranged contents adding)
    (changes : Changes 0 leaves sched middle) (split : contents name = front ++ [env]) :
    Ends ((middle.removeFromQueue name env).schedInsertReady (some env))
      (fun after => ∃ contents', after.Arranged contents' adding ∧ contents' name = front ∧
        Changes 0 leaves sched after ∧ after.proc = middle.proc ∧
          after.started = middle.started)
      fun stop => stop ≠ .hang ∧ ∀ index, stop = .outOfRange index → ¬ sched.Leveled := by
  have alive := waiting.alive arranged (show env ∈ contents name by simp [split])
  refine (schedInsertReady_ends (arranged.loosen split)
    (changes.trans (.of_envs ⟨rfl, rfl, rfl⟩ rfl)) alive.1 alive.2).mono ?_ fun _ => id
  rintro after ⟨rfl, changes', arranged'⟩
  refine ⟨_, arranged', ?_, changes', rfl, rfl⟩
  rw [Function.update_of_ne (waiting.ne_ready _), Function.update_self, List.append_nil]

/-- All environments of a waiting queue become ready. -/
theorem Arranged.moveToReady (waiting : Waiting name) (arranged : middle.Arranged contents adding)
    (changes : Changes 0 leaves sched middle) :
    Ends (moveToReady name (contents name).length middle)
      (fun after => ∃ contents', after.Arranged contents' adding ∧
        Changes 0 leaves sched after ∧
        after.proc = middle.proc ∧ after.started = middle.started)
      fun stop => stop ≠ .hang ∧ ∀ index, stop = .outOfRange index → ¬ sched.Leveled := by
  generalize size : (contents name).length = count
  induction count generalizing middle contents with
  | zero => exact ⟨contents, arranged, changes, rfl, rfl⟩
  | succ count ih =>
      unfold Scheduler.moveToReady
      rcases arranged.placed.dequeue_cases name with
        ⟨empty, -⟩ | ⟨front, env, split, dequeued⟩
      · rw [empty] at size
        nomatch size
      · rw [dequeued]
        refine (arranged.readyLast waiting changes split).bind ?_
        rintro next ⟨contents₁, arranged₁, rest, changes₁, proc, started⟩
        rw [split, List.length_append] at size
        refine (ih arranged₁ changes₁ (by rw [rest]; simpa using size)).mono ?_ fun _ => id
        rintro after ⟨contents', arranged', changes', proc', started'⟩
        exact ⟨contents', arranged', changes', proc'.trans proc, started'.trans started⟩

/-- While the scheduler is stopped, nobody waits on a channel. -/
theorem Settled.channel_eq_nil (settled : sched.Settled contents adding)
    (stopped : sched.started = false) : contents (.channel chan) = [] := by
  rw [List.eq_nil_iff_forall_not_mem]
  intro env member
  exact ((settled.stopped stopped).2 env).2 (settled.placed.suits _ env member).status

/-- `wakeup_one`. -/
theorem Settled.wakeupOne (settled : sched.Settled contents adding) (chan : Nat) :
    Settles sched 0 leaves adding (sched.wakeupOne chan) := by
  unfold Scheduler.wakeupOne
  rw [settled.placed.size_eq]
  rcases settled.placed.dequeue_cases (.channel chan) with
    ⟨empty, -⟩ | ⟨front, env, split, dequeued⟩
  · rw [empty, if_neg (by simp)]
    exact (Changes.refl 0 leaves sched).settles settled
  · rw [if_pos (by rw [split]; simp), dequeued]
    refine (settled.toArranged.readyLast (.inr rfl) (.refl 0 leaves sched) split).mono ?_
      fun _ => id
    rintro after ⟨contents', arranged, -, changes, -, started⟩
    refine ⟨⟨contents', arranged, fun stopped => ?_⟩, changes.moved⟩
    rw [settled.channel_eq_nil (started ▸ stopped)] at split
    simp at split

/-- `wakeup_all`. -/
theorem Settled.wakeupAll (settled : sched.Settled contents adding) (chan : Nat) :
    Settles sched 0 leaves adding (sched.wakeupAll chan) := by
  unfold Scheduler.wakeupAll
  rw [settled.placed.size_eq]
  cases running : sched.started with
  | false =>
      rw [settled.channel_eq_nil running]
      exact (Changes.refl 0 leaves sched).settles settled
  | true =>
      refine (settled.toArranged.moveToReady (.inr rfl) (.refl 0 leaves sched)).mono ?_ fun _ => id
      rintro after ⟨contents', arranged, changes, -, started⟩
      refine ⟨⟨contents', arranged, fun stopped => ?_⟩, changes.moved⟩
      rw [started, running] at stopped
      nomatch stopped

/-- `fos_scheduler`, entered from the prompt. -/
theorem Changes.fosScheduler (changes : Changes ticks leaves sched middle)
    (arranged : middle.Arranged contents adding) (idle : middle.proc = none) :
    Settles sched ticks leaves adding middle.fosScheduler := by
  have placed := arranged.placed
  rw [idle] at placed
  exact Changes.dispatch (changes.trans (.of_envs ⟨rfl, rfl, rfl⟩ rfl))
    ⟨placed.setCpu none true, nofun, arranged.added, rfl⟩

/-- `sched_run_all`. -/
theorem Settled.schedRunAll (settled : sched.Settled contents adding)
    (stopped : sched.started = false) : Settles sched 0 leaves adding sched.schedRunAll := by
  unfold Scheduler.schedRunAll
  rw [settled.placed.size_eq]
  refine Ends.bind (settled.toArranged.moveToReady (.inl rfl) (.refl 0 leaves sched)) ?_
  rintro middle ⟨contents', arranged, changes, proc, started⟩
  rw [started, stopped]
  exact changes.fosScheduler arranged (proc.trans (settled.stopped stopped).1)

/-- `sched_remove_new` takes an environment out of the NEW queue. -/
theorem Arranged.schedRemoveNew (arranged : sched.Arranged contents adding) (leaves : Bool)
    (split : contents .new = front ++ env :: back) :
    ∃ middle, sched.schedRemoveNew (some env) = .ok middle ∧
      middle.Loosened (Function.update contents .new (front ++ back)) adding env ∧
        Changes 0 leaves sched middle ∧ (middle.envs env).envStatus = .unknown ∧
          middle.proc = sched.proc ∧ middle.started = sched.started := by
  have new : (sched.envs env).envStatus = .new :=
    arranged.placed.suits .new env (by simp [split])
  refine ⟨_, if_pos new, (arranged.loosen split).setEnv
    _ (arranged.placed.ids env (new ▸ nofun)),
    .of_update ⟨rfl, rfl, rfl⟩ rfl ⟨fun _ =>
      .inr ⟨new ▸ nofun, Nat.le_refl _⟩, nofun, nofun⟩,
    ?_, rfl, rfl⟩
  rw [setEnv_self]

/-- The loop of `sched_run_env`. -/
theorem Settled.runFrom (settled : sched.Settled contents adding) {envId : BitVec 32}
    {rounds : Nat} (split : contents .new = front ++ back) (fuel : back.length ≤ rounds) :
    Settles sched 0 leaves adding (sched.runFrom envId rounds back.head?) := by
  induction back generalizing front rounds with
  | nil => cases rounds <;> exact (Changes.refl 0 leaves sched).settles settled
  | cons env back ih =>
      obtain _ | rounds := rounds
      · simp at fuel
      unfold Scheduler.runFrom
      dsimp only [List.head?_cons]
      by_cases found : (sched.envs env).envId = envId
      · obtain ⟨middle, removed, loosened, changes, unknown, proc, started⟩ :=
          settled.toArranged.schedRemoveNew leaves split
        rw [if_pos found, removed]
        change Ends (middle.schedInsertReady (some env) >>= _) _ _
        refine Ends.bind (schedInsertReady_ends loosened changes ?_ ?_) ?_
        · exact unknown ▸ nofun
        · exact unknown ▸ nofun
        · rintro after ⟨rfl, changes', arranged⟩
          change Settles sched 0 leaves adding (if middle.started then .ok (middle.readied env)
            else (middle.readied env).fosScheduler)
          rw [started]
          cases running : sched.started with
          | true =>
              refine changes'.settles ⟨arranged, fun stopped => ?_⟩
              rw [show middle.started = false from stopped, running] at started
              nomatch started
          | false =>
              exact changes'.fosScheduler arranged (proc.trans (settled.stopped running).1)
      · rw [if_neg found, settled.placed.next_eq split]
        exact ih (by rw [split, List.append_cons]) (by simpa using fuel)

/-- `sched_run_env`. -/
theorem Settled.schedRunEnv (settled : sched.Settled contents adding) (envId : BitVec 32) :
    Settles sched 0 leaves adding (sched.schedRunEnv envId) := by
  unfold Scheduler.schedRunEnv
  rw [settled.placed.first_eq]
  exact settled.runFrom (List.nil_append _).symm (settled.placed.length_le _)

/-- A ready environment is in the ready queue of its priority. -/
theorem Arranged.mem_ready (arranged : sched.Arranged contents adding)
    (ready : (sched.envs env).envStatus = .ready) :
    env ∈ contents (.ready (sched.envs env).priority) := by
  rcases arranged.placed.covers env (arranged.placed.ids env (ready ▸ nofun)).1 with
    loose | ⟨name, member⟩
  · rcases List.mem_append.mp loose with on | new
    · have running := (arranged.running env (Option.mem_toList.mp on)).2.1
      rw [ready] at running
      nomatch running
    · have fresh := (arranged.added env new).2
      rw [ready] at fresh
      nomatch fresh
  · have suits := arranged.placed.suits name env member
    have status := suits.status
    rw [ready] at status
    cases name with
    | ready level => exact suits.2.1 ▸ member
    | _ => nomatch status

/-- Only the environment on the CPU is running. -/
theorem Arranged.proc_of_running (arranged : sched.Arranged contents adding)
    (running : (sched.envs env).envStatus = .running) : sched.proc = some env := by
  rcases arranged.placed.covers env (arranged.placed.ids env (running ▸ nofun)).1 with
    loose | ⟨name, member⟩
  · rcases List.mem_append.mp loose with on | new
    · exact Option.mem_toList.mp on
    · have fresh := (arranged.added env new).2
      rw [running] at fresh
      nomatch fresh
  · have status := (arranged.placed.suits name env member).status
    rw [running] at status
    cases name <;> nomatch status

/-- `envid2env` finds environments that are in use. -/
theorem Arranged.envid2env_ne_free (arranged : sched.Arranged contents adding) {envID : BitVec 32}
    (found : sched.envid2env envID = some (some env)) : (sched.envs env).envStatus ≠ .free := by
  unfold envid2env at found
  split at found
  · rw [(arranged.running env (Option.some.inj found)).2.1]
    nofun
  · dsimp only at found
    split at found
    · nomatch found
    · rename_i used
      obtain rfl := Option.some.inj (Option.some.inj found)
      exact fun free => used (.inl free)

/-- While the scheduler is stopped, an environment gets a value that is not ready and does not
wait. -/
theorem Settled.stopped_update (settled : sched.Settled contents adding) {value : SchedEnv}
    (envs : after.envs = Function.update sched.envs env value)
    (calm : value.envStatus ≠ .ready ∧ value.envStatus ≠ .blocked)
    (stopped : sched.started = false) : sched.proc = none ∧
      ∀ env, (after.envs env).envStatus ≠ .ready ∧
          (after.envs env).envStatus ≠ .blocked := by
  refine ⟨(settled.stopped stopped).1, fun other => ?_⟩
  rw [envs]
  by_cases same : other = env
  · subst same
    rwa [Function.update_self]
  · rw [Function.update_of_ne same]
    exact (settled.stopped stopped).2 other

/-- The priority of an environment that is not ready changes. -/
theorem Settled.setPriority (settled : sched.Settled contents adding) {level : Nat}
    (ready : (sched.envs env).envStatus ≠ .ready) (used : (sched.envs env).envStatus ≠ .free)
    (below : level < sched.numOfReadyQueues) :
    (sched.setEnv env { sched.envs env with priority := level }).Settled contents adding where
  placed := settled.placed.adjust rfl rfl (.inr ⟨ready, used⟩)
  running other on := by
    obtain ⟨outside, running, level⟩ := settled.running other on
    by_cases same : other = env
    · subst same
      rw [setEnv_self]
      exact ⟨outside, running, below⟩
    · rw [setEnv_of_ne _ _ same]
      exact ⟨outside, running, level⟩
  added other member := by
    obtain ⟨outside, new⟩ := settled.added other member
    refine ⟨outside, ?_⟩
    by_cases same : other = env
    · subst same
      rwa [setEnv_self]
    · rwa [setEnv_of_ne _ _ same]
  stopped stopped := settled.stopped_update rfl ((settled.stopped stopped).2 env) stopped

/-- `env_set_priority`. -/
theorem Settled.envSetPriority (settled : sched.Settled contents adding) (envID : BitVec 32)
    (priority : Int) : Settles sched 0 leaves adding (sched.envSetPriority envID priority) := by
  unfold Scheduler.envSetPriority
  by_cases bad : priority < 0 ∨ (sched.numOfReadyQueues : Int) ≤ priority
  · rw [if_pos bad]
    exact .panic
  rw [if_neg bad]
  have below : priority.toNat < sched.numOfReadyQueues := by omega
  cases found : sched.envid2env envID with
  | none => exact (Changes.refl 0 leaves sched).settles settled
  | some env =>
      cases env with
      | none => exact .nullPointer
      | some env =>
          have used := settled.envid2env_ne_free found
          dsimp only
          by_cases ready : (sched.envs env).envStatus = .ready
          · obtain ⟨front, back, split⟩ := List.mem_iff_append.mp (settled.mem_ready ready)
            have level := settled.placed.level_lt (settled.mem_ready ready)
            have loosened := (settled.toArranged.loosen split).setEnv
              { sched.envs env with priority := priority.toNat } (settled.placed.ids env used)
            have changes : Changes 0 leaves sched ((sched.removeFromQueue
                (.ready (sched.envs env).priority) env).setEnv env
                  { sched.envs env with priority := priority.toNat }) :=
              .of_update ⟨rfl, rfl, rfl⟩ rfl ⟨fun _ => .inl below,
                fun on => ⟨on, Nat.le_refl _⟩, fun on => .inr (.inl ⟨on, Nat.le_refl _⟩)⟩
            rw [if_pos ready]
            unfold readyQueue
            rw [if_pos level]
            refine (schedInsertReady_ends loosened changes ?_ ?_).mono ?_ fun _ => id
            · rw [setEnv_self]
              exact used
            · rw [setEnv_self]
              exact ready ▸ nofun
            · rintro after ⟨rfl, changes, arranged⟩
              exact ⟨⟨_, arranged, fun stopped =>
                absurd ready ((settled.stopped stopped).2 env).1⟩, changes.moved⟩
          · rw [if_neg ready]
            refine Changes.settles (.of_update ⟨rfl, rfl, rfl⟩ rfl
              ⟨fun _ => .inl below, ?_, ?_⟩)
              (settled.setPriority ready used below)
            · exact fun on => ⟨on, Nat.le_refl _⟩
            · exact fun on => absurd on ready

/-- `env_create` takes the first free environment. -/
theorem Settled.envCreate (settled : sched.Settled contents adding) (leaves : Bool)
    (created : sched.envCreate = some (env, after)) :
    (∃ contents', after.Settled contents' (env :: adding)) ∧ Changes 0 leaves sched after := by
  unfold Scheduler.envCreate at created
  obtain ⟨slot, first, equal⟩ := Option.map_eq_some_iff.mp created
  obtain ⟨rfl, rfl⟩ := Prod.mk.inj equal
  rw [settled.placed.first_eq] at first
  obtain ⟨rest, split⟩ : ∃ rest, contents .free = [] ++ slot :: rest :=
    ⟨_, (List.cons_head?_tail (Option.mem_def.mpr first)).symm⟩
  obtain ⟨free, top, zero⟩ := settled.placed.suits .free slot (by simp [split])
  have bound := settled.placed.inside .free slot (by simp [split])
  have id : nextEnvId sizeofEnv (sched.envs slot).envId slot = firstEnvId sizeofEnv slot := by
    rw [zero, nextEnvId_zero]
  have loosened := (settled.toArranged.loosen split).setEnv
    { sched.envs slot with
      envId := nextEnvId sizeofEnv (sched.envs slot).envId slot
      envStatus := .new } ⟨bound, id⟩
  constructor
  · refine ⟨_, ⟨⟨loosened.placed.mono ?_,
      fun other on => (loosened.running other on).2, ?_⟩, ?_⟩⟩
    · intro other loose
      rw [List.mem_cons] at loose
      rw [List.mem_append, List.mem_cons]
      rcases loose with same | rest
      · exact .inr (.inl same)
      · exact (List.mem_append.mp rest).imp_right .inr
    · intro other member
      rcases List.mem_cons.mp member with rfl | old
      · exact ⟨loosened.outside, congrArg SchedEnv.envStatus (setEnv_self sched ..)⟩
      · exact (loosened.added other old).2
    · exact settled.stopped_update rfl ⟨nofun, nofun⟩
  · exact .of_update ⟨rfl, rfl, rfl⟩ rfl
      ⟨fun _ => .inr ⟨free ▸ nofun, Nat.le_refl _⟩, nofun, nofun⟩

/-- `sched_new_env`, on an environment that is new. -/
theorem Settled.schedNewEnv (settled : sched.Settled contents adding) (member : env ∈ adding) :
    Settles sched 0 leaves (adding.filter (· ≠ env)) (sched.schedNewEnv env) := by
  obtain ⟨outside, new⟩ := settled.added env member
  have ids := settled.placed.ids env (by rw [new]; nofun)
  have loosened := (settled.toArranged.take member).setEnv
    { sched.envs env with envStatus := .new } ids
  refine Changes.settles (.of_update ⟨rfl, rfl, rfl⟩ rfl ⟨?_, nofun, nofun⟩)
    ⟨loosened.enqueue .new ids.1 (by rw [setEnv_self]; exact (rfl : EnvStatus.new = .new)), ?_⟩
  · exact fun _ => .inr ⟨new ▸ nofun, Nat.le_refl _⟩
  · exact settled.stopped_update rfl ⟨nofun, nofun⟩

/-- The scheduler finds an environment that became ready while it waited. -/
theorem Settled.poll (settled : sched.Settled contents adding) (started : sched.started = true)
    (idle : sched.proc = none) : Settles sched ticks leaves adding sched.dispatch :=
  (Changes.refl ticks leaves sched).dispatch (settled.toArranged.switching idle started)

end Scheduler

end FosKernel
