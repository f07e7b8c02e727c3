import FosKernel.Cpu.SchedSteps

/-!
# Exits

The search of `sched_exit_env` for an environment, and where it moves the environment.
-/

namespace FosKernel

namespace Scheduler

variable {sizeofEnv : Nat} {sched after : Scheduler sizeofEnv}
  {contents : QueueName → List Nat} {loose adding : List Nat} {env ticks : Nat}
  {leaves : Bool} {front back : List Nat} {name : QueueName}

/-- Environments in use have different ids. -/
theorem Placed.eq_of_id (placed : sched.Placed contents loose) {other : Nat}
    (used : (sched.envs env).envStatus ≠ .free) (used' : (sched.envs other).envStatus ≠ .free)
    (same : (sched.envs other).envId = (sched.envs env).envId) : other = env := by
  obtain ⟨bound, id⟩ := placed.ids env used
  obtain ⟨bound', id'⟩ := placed.ids other used'
  rw [id, id'] at same
  rw [← (envx_firstEnvId bound).1, ← (envx_firstEnvId bound').1, same]

/-- An id names at most one environment of a queue. -/
theorem Placed.id_eq_iff (placed : sched.Placed contents loose)
    (used : (sched.envs env).envStatus ≠ .free) (apart : name.status ≠ .free) {other : Nat}
    (member : other ∈ contents name) :
    (sched.envs other).envId = (sched.envs env).envId ↔ other = env := by
  refine ⟨placed.eq_of_id used ?_, fun same => same ▸ rfl⟩
  rwa [(placed.suits name other member).status]

/-- The loop of `find_env_in_queue` on the rest of a queue. -/
theorem Placed.findFrom (placed : sched.Placed contents loose)
    (used : (sched.envs env).envStatus ≠ .free) (apart : name.status ≠ .free) {rounds : Nat}
    (split : contents name = front ++ back) (fuel : back.length ≤ rounds) :
    sched.findFrom (sched.envs env).envId rounds back.head? =
      .ok (if env ∈ back then some env else none) := by
  induction back generalizing front rounds with
  | nil => cases rounds <;> rfl
  | cons other back ih =>
      obtain _ | rounds := rounds
      · simp at fuel
      have member : other ∈ contents name := by simp [split]
      unfold Scheduler.findFrom
      dsimp only [List.head?_cons]
      by_cases same : other = env
      · subst same
        rw [if_pos rfl, if_pos (List.mem_cons_self ..)]
      · rw [if_neg fun equal => same ((placed.id_eq_iff used apart member).mp equal),
          placed.next_eq split, ih (by rw [split, List.append_cons]) (by simpa using fuel)]
        simp only [List.mem_cons, Ne.symm same, false_or]

/-- `find_env_in_queue` finds an environment by its id. -/
theorem Placed.findEnvInQueue (placed : sched.Placed contents loose)
    (used : (sched.envs env).envStatus ≠ .free) (apart : name.status ≠ .free) :
    sched.findEnvInQueue name (sched.envs env).envId =
      .ok (if env ∈ contents name then some env else none) := by
  unfold Scheduler.findEnvInQueue
  rw [placed.first_eq]
  exact placed.findFrom used apart (List.nil_append _).symm (placed.length_le name)

/-- The search in the ready queues. -/
theorem Placed.exitFromReady (placed : sched.Placed contents loose)
    (used : (sched.envs env).envStatus ≠ .free) (levels : List Nat)
    (below : ∀ level ∈ levels, level < sched.numOfReadyQueues) :
    sched.exitFromReady (sched.envs env).envId levels =
      .ok (match levels.find? fun level => env ∈ contents (.ready level) with
        | none => (none, sched)
        | some level => (some env, sched.removeFromQueue (.ready level) env)) := by
  induction levels with
  | nil => rfl
  | cons level levels ih =>
      unfold Scheduler.exitFromReady readyQueue
      rw [if_pos (below level (List.mem_cons_self ..))]
      change (sched.findEnvInQueue (.ready level) _ >>= _) = _
      rw [placed.findEnvInQueue used (by nofun), List.find?_cons]
      by_cases member : env ∈ contents (.ready level)
      · simp only [member, if_true, decide_true]
        rfl
      · simp only [member, if_false, decide_false]
        exact ih fun level inside => below level (List.mem_cons_of_mem _ inside)

/-- The search in the NEW queue does not find an environment that is not there. -/
theorem Placed.exitFromNew (placed : sched.Placed contents loose)
    (used : (sched.envs env).envStatus ≠ .free) {rounds : Nat}
    (split : contents .new = front ++ back) (fuel : back.length ≤ rounds)
    (absent : env ∉ back) :
    exitFromNew (sched.envs env).envId rounds back.head? false sched = .ok (false, sched) := by
  induction back generalizing front rounds with
  | nil => cases rounds <;> rfl
  | cons other back ih =>
      obtain _ | rounds := rounds
      · simp at fuel
      have member : other ∈ contents .new := by simp [split]
      rw [List.mem_cons, not_or] at absent
      unfold Scheduler.exitFromNew
      dsimp only [List.head?_cons]
      rw [if_neg fun equal => absent.1 ((placed.id_eq_iff used (by nofun) member).mp equal).symm,
        placed.next_eq split]
      exact ih (by rw [split, List.append_cons]) (by simpa using fuel) absent.2

/-- Once it has found an environment, the search in the NEW queue goes on, and ends as if it
had come to the end of the queue. -/
theorem exitFromNew_found (envId : BitVec 32) (rounds : Nat) (cursor : Option Nat)
    (sched : Scheduler sizeofEnv) :
    Ends (exitFromNew envId rounds cursor true sched) (fun result => result.1 = true)
      fun _ => True := by
  induction rounds generalizing cursor sched with
  | zero => cases cursor <;> trivial
  | succ rounds ih =>
      cases cursor with
      | none => exact rfl
      | some env =>
          unfold Scheduler.exitFromNew
          dsimp only
          split
          · exact Ends.bind (Ends.of_returns fun _ _ => trivial) fun removed _ => ih _ removed
          · exact ih _ sched

/-- The search in the NEW queue finds an environment that is there. -/
theorem Placed.exitFromNew_found (placed : sched.Placed contents loose)
    (used : (sched.envs env).envStatus ≠ .free) (rounds : Nat)
    (split : contents .new = front ++ back) (member : env ∈ back) :
    Ends (Scheduler.exitFromNew (sched.envs env).envId rounds back.head? false sched)
      (fun result => result.1 = true) fun _ => True := by
  induction back generalizing front rounds with
  | nil => cases member
  | cons other back ih =>
      obtain _ | rounds := rounds
      · trivial
      have listed : other ∈ contents .new := by simp [split]
      unfold Scheduler.exitFromNew
      dsimp only [List.head?_cons]
      by_cases same : other = env
      · subst same
        rw [if_pos rfl]
        exact Ends.bind (Ends.of_returns fun _ _ => trivial) fun removed _ =>
          Scheduler.exitFromNew_found _ _ _ removed
      · rw [if_neg fun equal => same ((placed.id_eq_iff used (by nofun) listed).mp equal),
          placed.next_eq split]
        exact ih rounds (by rw [split, List.append_cons])
          ((List.mem_cons.mp member).resolve_left (Ne.symm same))

/-- What `sched_insert_exit` does. -/
def exited (sched : Scheduler sizeofEnv) (env : Nat) : Scheduler sizeofEnv :=
  (sched.setEnv env { sched.envs env with envStatus := .exit }).enqueue .exit env

/-- Outside the NEW queue, `sched_exit_env` takes the environment from its ready queue, or finds it
on the CPU. -/
theorem Settled.schedExitEnv (settled : sched.Settled contents adding) {curEnv : Nat}
    (on : sched.proc = some curEnv) (used : (sched.envs env).envStatus ≠ .free)
    (absent : env ∉ contents .new) :
    sched.schedExitEnv (sched.envs env).envId =
      .ok (match (List.range sched.numOfReadyQueues).find? fun level =>
          env ∈ contents (.ready level) with
        | none =>
            if curEnv = env then (true, sched.exited env) else (false, sched)
        | some level =>
            (decide (curEnv = env), (sched.removeFromQueue (.ready level) env).exited env)) := by
  have ready := settled.placed.exitFromReady used (List.range sched.numOfReadyQueues)
    fun level member => List.mem_range.mp member
  have running : (sched.envs curEnv).envStatus ≠ .free := by
    rw [(settled.running curEnv on).2.1]
    nofun
  have current : (sched.envs curEnv).envId = (sched.envs env).envId ↔ curEnv = env :=
    ⟨settled.placed.eq_of_id used running, fun same => same ▸ rfl⟩
  unfold Scheduler.schedExitEnv
  rw [settled.placed.first_eq, settled.placed.exitFromNew used (List.nil_append _).symm
    (settled.placed.length_le .new) absent]
  simp only [bind, Except.bind, Bool.false_eq_true, if_false]
  rw [ready]
  cases (List.range sched.numOfReadyQueues).find? fun level => env ∈ contents (.ready level) with
  | none =>
      simp only [on, assertNotNull, Option.isSome_none, Bool.false_eq_true, if_false]
      by_cases same : curEnv = env
      · rw [if_pos (current.mpr same), if_pos same, same]
        rfl
      · rw [if_neg fun equal => same (current.mp equal), if_neg same]
        rfl
  | some level =>
      simp only [removeFromQueue, on, assertNotNull, Option.isSome_some, if_true]
      simp only [current]
      rfl

/-- `env_exit`. -/
theorem Settled.envExit (settled : sched.Settled contents adding) :
    Settles sched ticks leaves adding sched.envExit := by
  unfold Scheduler.envExit
  cases on : sched.proc with
  | none => exact .panic
  | some env =>
      obtain ⟨outside, running, -⟩ := settled.running env on
      have nowhere : ((List.range sched.numOfReadyQueues).find? fun level =>
          env ∈ contents (.ready level)) = none :=
        List.find?_eq_none.mpr fun level _ => by simpa using outside (.ready level)
      change Settles sched ticks leaves adding (sched.schedExitEnv (sched.envs env).envId >>= _)
      rw [settled.schedExitEnv on (by rw [running]; nofun) (outside .new), nowhere]
      dsimp only
      rw [if_pos rfl]
      exact settled.leave on rfl rfl (rfl : EnvStatus.exit = .exit) nofun nofun

/-- An environment has moved to the EXIT queue, and nothing else has changed. -/
structure MovedToExit (sched : Scheduler sizeofEnv) (contents : QueueName → List Nat) (env : Nat)
    (after : Scheduler sizeofEnv) (contents' : QueueName → List Nat) : Prop where
  holds : after.queues.Holds contents'
  place : ∀ name, env ∈ contents' name ↔ name = .exit
  status : (after.envs env).envStatus = .exit
  places : ∀ other ≠ env, ∀ name, other ∈ contents' name ↔ other ∈ contents name
  envs : ∀ other ≠ env, after.envs other = sched.envs other
  proc : after.proc = sched.proc

/-- `sched_insert_exit` on an environment that is in no queue. -/
theorem movedToExit (holds : sched.queues.Holds contents) (outside : Outside contents env) :
    MovedToExit sched contents env (sched.exited env)
      (Function.update contents .exit (env :: contents .exit)) where
  holds := holds.insertHead outside
  place name := by
    rw [SharedLists.mem_insert, and_iff_right rfl, or_iff_right (outside name)]
  status := by
    change ((sched.setEnv env _).envs env).envStatus = _
    rw [setEnv_self]
  places other different name := by
    rw [SharedLists.mem_insert, or_iff_left fun same => different same.1]
  envs other different := setEnv_of_ne sched _ different
  proc := rfl

/-- `sched_exit_env` moves exactly one environment to the EXIT queue, and says whether it was the
one on the CPU. -/
def ExitsAlone (sched : Scheduler sizeofEnv) (contents : QueueName → List Nat) (env : Nat) :
    Prop :=
  ∃ after contents', sched.schedExitEnv (sched.envs env).envId =
    .ok (decide (sched.proc = some env), after) ∧ MovedToExit sched contents env after contents'

/-- An environment of the NEW queue does not exit: the search in that queue ends at its end, so
that a null pointer is inserted into the EXIT queue. -/
theorem Settled.not_exitsAlone (settled : sched.Settled contents adding)
    (member : env ∈ contents .new) : ¬ ExitsAlone sched contents env := by
  rintro ⟨after, contents', called, -⟩
  have new := settled.placed.suits .new env member
  have found := settled.placed.exitFromNew_found (new.symm ▸ nofun) (nenv sizeofEnv)
    (List.nil_append _).symm member
  unfold Scheduler.schedExitEnv at called
  rw [settled.placed.first_eq] at called
  obtain ⟨⟨flag, middle⟩, searched, rest⟩ := bind_eq_ok.mp called
  obtain rfl : flag = true := found.of_ok searched
  obtain ⟨_, same, rest⟩ := bind_eq_ok.mp rest
  obtain rfl := Except.ok.inj same
  obtain ⟨curEnv, -, inserted⟩ := bind_eq_ok.mp rest
  obtain ⟨_, stopped, -⟩ := bind_eq_ok.mp inserted
  nomatch stopped

/-- **Who can exit.** For the environment on the CPU and those in the NEW and ready queues,
`sched_exit_env` does what it should exactly when the environment is not in the NEW queue. -/
theorem Settled.exitsAlone_iff (settled : sched.Settled contents adding) {curEnv : Nat}
    (on : sched.proc = some curEnv) (candidate : sched.proc = some env ∨ env ∈ contents .new ∨
      ∃ level, env ∈ contents (.ready level)) :
    ExitsAlone sched contents env ↔ env ∉ contents .new := by
  refine ⟨fun exits member => settled.not_exitsAlone member exits, fun absent => ?_⟩
  unfold ExitsAlone
  rcases candidate with current | new | ⟨level, ready⟩
  · have running := (settled.running env current).2.1
    have outside := (settled.running env current).1
    have nowhere : ((List.range sched.numOfReadyQueues).find? fun level =>
        env ∈ contents (.ready level)) = none :=
      List.find?_eq_none.mpr fun level _ => by simpa using outside (.ready level)
    obtain rfl := Option.some.inj (on.symm.trans current)
    rw [settled.schedExitEnv on (by rw [running]; nofun) absent, nowhere]
    dsimp only
    rw [if_pos rfl, decide_eq_true on]
    exact ⟨_, _, rfl, movedToExit settled.placed.holds outside⟩
  · exact absurd new absent
  · obtain ⟨status, -, below⟩ := settled.placed.suits (.ready level) env ready
    obtain ⟨front, back, split⟩ := List.mem_iff_append.mp ready
    have different : curEnv ≠ env := by
      rintro rfl
      exact (settled.running curEnv on).1 _ ready
    have found : ((List.range sched.numOfReadyQueues).find? fun level =>
        env ∈ contents (.ready level)) = some level := by
      cases search : (List.range sched.numOfReadyQueues).find? fun level =>
          env ∈ contents (.ready level) with
      | none =>
          have absent := List.find?_eq_none.mp search level (List.mem_range.mpr below)
          simp [ready] at absent
      | some other =>
          have inside : env ∈ contents (.ready other) := by simpa using List.find?_some search
          have same := (settled.placed.suits (.ready other) env inside).2.1
          rw [← same, (settled.placed.suits (.ready level) env ready).2.1]
    rw [settled.schedExitEnv on (by rw [status]; nofun) absent, found]
    dsimp only
    rw [on, decide_eq_false different, decide_eq_false fun same => different (Option.some.inj same)]
    have moved : MovedToExit (sched.removeFromQueue (.ready level) env) _ env _ _ :=
      movedToExit (settled.placed.holds.remove split) (settled.placed.holds.removed split)
    refine ⟨_, _, rfl, moved.holds, moved.place, moved.status, fun other apart name => ?_,
      moved.envs, on ▸ moved.proc⟩
    rw [moved.places other apart, settled.placed.holds.mem_remove split, and_iff_left apart]

end Scheduler

end FosKernel
