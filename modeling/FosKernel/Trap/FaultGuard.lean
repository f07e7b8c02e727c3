import FosKernel.Lib.RepeatGuard
import FosKernel.Trap.KeptMarks

/-!
# The repeated-fault guard

`fault_handler` panics at the fourth successive fault of an environment at one
address, whether the faults before were resolved or not. A process that frees a page,
allocates it again and accesses it faults at the same address each time.
-/

namespace FosKernel

namespace Kernel

variable {kernel before middle after : Kernel} {env va fuel : Nat}

/-- The guard of `fault_handler`. -/
def faultGuard (kernel : Kernel) : RepeatGuard FaultRecord where
  last := kernel.lastFaultedEnv.map fun env => (env, kernel.lastFaultVa)
  repetitions := kernel.numRepeatedFault

theorem faultGuard_last_iff : kernel.faultGuard.last = some (env, va) ↔
    kernel.lastFaultVa = va ∧ kernel.lastFaultedEnv = some env := by
  simp [faultGuard, and_comm]

theorem repeatedThrice_iff : kernel.RepeatedThrice env va ↔
    kernel.faultGuard.Trips 3 (env, va) := by
  unfold RepeatedThrice RepeatGuard.Trips
  rw [faultGuard_last_iff, and_assoc]
  simp [faultGuard]

theorem notedFault_faultGuard (kernel : Kernel) (env va : Nat) :
    (kernel.notedFault env va).faultGuard = kernel.faultGuard.note (env, va) := by
  unfold RepeatGuard.note
  rw [if_congr faultGuard_last_iff rfl rfl]
  rfl

theorem SameGuard.faultGuard (same : SameGuard before after) :
    after.faultGuard = before.faultGuard := by
  unfold Kernel.faultGuard
  rw [same.va, same.faulted, same.repeated]

/-- Where a call returns, it has left the guard alone. -/
def Spares (kernel : Kernel) (call : Except Stop Kernel) : Prop :=
  Ends call (SameGuard kernel) fun _ => True

namespace Spares

variable {call : Except Stop Kernel}

theorem ok (same : SameGuard kernel after) : Spares kernel (.ok after) := same

theorem error (halt : Stop) : Spares kernel (.error halt) := trivial

theorem trans (same : SameGuard before middle) (spares : Spares middle call) :
    Spares before call :=
  spares.mono (fun _ same' => same.trans same') fun _ _ => trivial

theorem foldlM {α : Type} {round : Kernel → α → Except Stop Kernel}
    (step : ∀ middle item, Spares middle (round middle item)) (items : List α) (start : Kernel) :
    Spares start (items.foldlM round start) :=
  Ends.foldlM (SameGuard start) (fun middle item _ same => trans same (step middle item)) start
    (.refl start)

end Spares

theorem setPagePermissions_spares (kernel : Kernel) (env va : Nat) (set clear : Perm) :
    Spares kernel (kernel.setPagePermissions env va set clear) := by
  unfold setPagePermissions
  split
  · exact .error _
  · exact .ok ⟨rfl, rfl, rfl, rfl⟩

/-- Calls that keep the marks spare the guard. -/
theorem MarksKept.spares {call : Except Stop Kernel} (kept : MarksKept va kernel call) :
    Spares kernel call :=
  kept.mono (fun _ keeps => keeps.guard) fun _ _ => trivial

/-- Handling a page leaves the guard alone. -/
theorem pageFaultHandler_spares (env va fuel : Nat) (kernel : Kernel) :
    Spares kernel (kernel.pageFaultHandler env va fuel) :=
  (pageFaultHandler_marksKept env va fuel kernel).spares

theorem stampLru_spares (kernel : Kernel) (env : Nat) : Spares kernel (kernel.stampLru env) :=
  (stampLru_marksKept kernel env 0).spares

theorem sysAllocateUserMem_spares (kernel : Kernel) (env va size : Nat) :
    Spares kernel (kernel.sysAllocateUserMem env va size) := by
  unfold sysAllocateUserMem allocateUserMem
  split
  · exact .error _
  · split
    · exact .ok (.refl kernel)
    · refine .foldlM (fun marked curr => ?_) _ kernel
      dsimp only
      refine .trans ?_ (setPagePermissions_spares _ env curr permUHPage permPresent)
      split
      · exact ⟨rfl, rfl, rfl, rfl⟩
      · exact .refl marked

theorem dropUserPage_spares (kernel : Kernel) (env curr : Nat) :
    Spares kernel (kernel.dropUserPage env curr) :=
  (dropUserPage_marksKept kernel env curr 0).spares

theorem kernelFaultHandler_of_repeated (repeated : kernel.RepeatedThrice env va) (fuel : Nat) :
    kernel.kernelFaultHandler env va fuel = .error .panic := by
  obtain ⟨address, faulted, count⟩ := repeated
  unfold kernelFaultHandler
  simp only [address, faulted, count, and_self, ↓reduceIte]

theorem kernelFaultHandler_eq (calm : ¬ kernel.RepeatedThrice env va) (fuel : Nat) :
    kernel.kernelFaultHandler env va fuel =
      match kernel.memory.getPageTable (kernel.directory env) va with
      | none => .ok ((kernel.notedFault env va).createPageTable env va)
      | some _ =>
          if Perm.has ((kernel.notedFault env va).pagePermissions env va) permPresent then
            .error .panic
          else if kernel.enableBuffering then .error .panic
          else (kernel.notedFault env va).pageFaultHandler env va fuel := by
  unfold kernelFaultHandler
  dsimp only
  rw [if_neg (not_third_of_calm calm)]
  rfl

/-- A fault that does not trip the guard is noted. -/
theorem kernelFaultHandler_sameGuard (kernel : Kernel) (env va fuel : Nat) :
    Ends (kernel.kernelFaultHandler env va fuel) (SameGuard (kernel.notedFault env va))
      fun _ => True := by
  by_cases repeated : kernel.RepeatedThrice env va
  · rw [kernelFaultHandler_of_repeated repeated]
    exact .error trivial
  · rw [kernelFaultHandler_eq repeated]
    split
    · exact .ok ⟨rfl, rfl, rfl, rfl⟩
    · split
      · exact .error trivial
      · split
        · exact .error trivial
        · exact pageFaultHandler_spares env va fuel (kernel.notedFault env va)

theorem faultHandler_sameGuard (kernel : Kernel) (env va fuel : Nat) :
    Ends (kernel.faultHandler env va fuel) (SameGuard (kernel.notedFault env va))
      fun _ => True :=
  faultHandler_ends kernel env va fuel trivial trivial (fun _ => ⟨rfl, rfl, rfl, rfl⟩)
    fun _ _ _ => pageFaultHandler_spares env va fuel _

/-- Where the guard trips, the handler panics. -/
theorem faultHandlerFrom_of_repeated (userTrap : Bool) (repeated : kernel.RepeatedThrice env va)
    (fuel : Nat) : faultHandlerFrom userTrap kernel env va fuel = .error .panic := by
  unfold faultHandlerFrom
  split
  · exact faultHandler_of_repeated repeated fuel
  · exact kernelFaultHandler_of_repeated repeated fuel

theorem faultHandlerFrom_faultGuard (userTrap : Bool) (kernel : Kernel) (env va fuel : Nat) :
    Ends (faultHandlerFrom userTrap kernel env va fuel)
      (fun after => after.faultGuard = kernel.faultGuard.note (env, va)) fun _ => True := by
  rw [← notedFault_faultGuard]
  unfold faultHandlerFrom
  split
  · exact (faultHandler_sameGuard kernel env va fuel).mono (fun _ same => same.faultGuard)
      fun _ _ => trivial
  · exact (kernelFaultHandler_sameGuard kernel env va fuel).mono (fun _ same => same.faultGuard)
      fun _ _ => trivial

instance (kernel : Kernel) (env va : Nat) : Decidable (kernel.Accessible env va) :=
  decidable_of_iff
    (va < uStackTop ∧ (userHeapStart ≤ va → va < userHeapMax →
      Perm.has (kernel.pageEntry env va).perm permUHPage = true) ∧
      ((kernel.envs env).diskFrame va ≠ 0 ∨ inHeapOrStack va = true))
    ⟨fun ⟨below, marked, loadable⟩ => ⟨below, marked, loadable⟩,
      fun ⟨below, marked, loadable⟩ => ⟨below, marked, loadable⟩⟩

end Kernel

open RepeatGuard

/-- The handler panics because of the guard. -/
def GuardPanics (result : Except FaultHalt FaultLog) : Prop :=
  ∃ faults, result = .error (.repeated faults)

/-- The faults that the handler has got. -/
def faultsOf : Except FaultHalt FaultLog → List FaultRecord
  | .ok log => log.faults
  | .error (.repeated faults) => faults
  | .error (.stopped _ faults) => faults

/-- An access is to an accessible page. -/
def UserCall.Legal (kernel : Kernel) (env : Nat) : UserCall → Prop
  | .access va => kernel.Accessible env va
  | _ => True

instance (kernel : Kernel) (env : Nat) (call : UserCall) : Decidable (call.Legal kernel env) := by
  cases call <;> unfold UserCall.Legal <;> infer_instance

namespace FaultLog

variable {log : FaultLog} {env fuel rounds : Nat}

/-- A call of a process that accesses legal pages only. With a limit of two rounds, every fault is
resolved: the page is present when the handler returns. -/
def LegalCall (env fuel rounds : Nat) (before after : FaultLog) : Prop :=
  ∃ call : UserCall, call.Legal before.kernel env ∧ before.call env fuel rounds call = .ok after

/-- The guard has noted the faults, and no address has faulted four times in a row. -/
structure Guarded (log : FaultLog) : Prop where
  noted : log.kernel.faultGuard.Noted log.faults
  calm : ¬ Successive 4 log.faults

/-- The guard trips exactly where an address has faulted four times in a row. -/
def Tripped : FaultHalt → Prop
  | .repeated faults => Successive 4 faults
  | .stopped _ faults => ¬ Successive 4 faults

/-- A call of the kernel that leaves the guard alone. -/
theorem Guarded.lift (guarded : log.Guarded) {call : Except Stop Kernel}
    (spares : log.kernel.Spares call) : Ends (log.lift call) Guarded Tripped := by
  unfold FaultLog.lift
  cases call with
  | error stop => exact .error guarded.calm
  | ok kernel =>
      refine .ok ⟨?_, guarded.calm⟩
      change kernel.faultGuard.Noted log.faults
      rw [(spares.of_ok rfl).faultGuard]
      exact guarded.noted

/-- A fault trips the guard exactly where it is the fourth one in a row. -/
theorem Guarded.fault (guarded : log.Guarded) (userTrap : Bool) (env va fuel : Nat) :
    Ends (log.fault userTrap env va fuel) Guarded Tripped := by
  unfold FaultLog.fault
  refine (guarded.lift (Kernel.stampLru_spares log.kernel env)).bind fun log guarded => ?_
  have trips : log.kernel.RepeatedThrice env va ↔ Successive 4 ((env, va) :: log.faults) :=
    Kernel.repeatedThrice_iff.trans (guarded.noted.trips_iff (by decide) guarded.calm)
  dsimp only
  cases handled : log.kernel.faultHandlerFrom userTrap env va fuel with
  | error stop =>
      refine .error ?_
      split
      · rename_i repeated
        exact trips.mp repeated
      · rename_i unrepeated
        exact fun row => unrepeated (trips.mpr row)
  | ok kernel =>
      have unrepeated : ¬ log.kernel.RepeatedThrice env va := by
        intro repeated
        rw [Kernel.faultHandlerFrom_of_repeated userTrap repeated] at handled
        cases handled
      refine .ok ⟨?_, fun row => unrepeated (trips.mpr row)⟩
      change kernel.faultGuard.Noted ((env, va) :: log.faults)
      rw [(Kernel.faultHandlerFrom_faultGuard userTrap log.kernel env va fuel).of_ok handled]
      exact guarded.noted.note (env, va)

theorem Guarded.touch (userTrap : Bool) (env va fuel rounds : Nat) : ∀ {log : FaultLog},
    log.Guarded → Ends (touch userTrap env va fuel rounds log) Guarded Tripped := by
  induction rounds with
  | zero => exact fun guarded => .error guarded.calm
  | succ rounds ih =>
      intro log guarded
      unfold FaultLog.touch
      split
      · exact .ok guarded
      · exact (guarded.fault userTrap env va fuel).bind fun _ guarded => ih guarded

theorem Guarded.freeUserPage (guarded : log.Guarded) (env fuel rounds curr : Nat) :
    Ends (log.freeUserPage env fuel rounds curr) Guarded Tripped := by
  unfold FaultLog.freeUserPage
  refine (guarded.lift (Kernel.setPagePermissions_spares log.kernel env curr 0 permUHPage)).bind
    fun log guarded => ?_
  dsimp only
  split
  · exact guarded.lift (Kernel.dropUserPage_spares log.kernel env curr)
  · exact (Guarded.touch false env _ fuel rounds guarded).bind fun log guarded =>
      guarded.lift (Kernel.dropUserPage_spares log.kernel env curr)

/-- The step lemma of the guard. -/
theorem Guarded.call (guarded : log.Guarded) (env fuel rounds : Nat) (call : UserCall) :
    Ends (log.call env fuel rounds call) Guarded Tripped := by
  cases call with
  | access va => exact Guarded.touch true env va fuel rounds guarded
  | allocate va size => exact guarded.lift (Kernel.sysAllocateUserMem_spares log.kernel env va size)
  | free va size =>
      change Ends (log.sysFreeUserMem env fuel rounds va size) Guarded Tripped
      unfold sysFreeUserMem
      split
      · exact .error guarded.calm
      · split
        · exact .error guarded.calm
        · exact Ends.foldlM Guarded (fun log curr _ guarded =>
            guarded.freeUserPage env fuel rounds curr) log guarded
  | clockInterrupt => exact guarded.lift (Kernel.stampLru_spares log.kernel env)

/-- The guard has noted all faults of every run. -/
theorem Guarded.of_run {start : FaultLog} (guarded : start.Guarded)
    (run : Relation.ReflTransGen (LegalCall env fuel rounds) start log) : log.Guarded := by
  induction run with
  | refl => exact guarded
  | tail _ step ih =>
      obtain ⟨call, _, returned⟩ := step
      exact (ih.call env fuel rounds call).of_ok returned

theorem guarded_of_fresh {start : Kernel} (fresh : start.lastFaultedEnv = none) :
    (FaultLog.mk start []).Guarded where
  noted := noted_nil (by rw [Kernel.faultGuard, fresh, Option.map_none])
  calm := not_successive_nil 3

/-- In every run of a process, the next call reaches the panic of the guard exactly when an address
faults four times in a row. -/
theorem guardPanics_iff_of_run (start : Kernel) (env fuel rounds : Nat) (log : FaultLog)
    (fresh : start.lastFaultedEnv = none)
    (run : Relation.ReflTransGen (LegalCall env fuel rounds) ⟨start, []⟩ log)
    (call : UserCall) :
    GuardPanics (log.call env fuel rounds call) ↔
      Successive 4 (faultsOf (log.call env fuel rounds call)) := by
  have ends := ((guarded_of_fresh fresh).of_run run).call env fuel rounds call
  cases result : log.call env fuel rounds call with
  | ok after =>
      rw [result] at ends
      exact ⟨fun ⟨_, same⟩ => (nomatch same), fun row => absurd row (ends.of_ok rfl).calm⟩
  | error halt =>
      rw [result] at ends
      cases halt with
      | repeated faults => exact ⟨fun _ => ends, fun _ => ⟨faults, rfl⟩⟩
      | stopped stop faults => exact ⟨fun ⟨_, same⟩ => (nomatch same),
        fun row => absurd row ends⟩

/-- Legal calls one after the other. -/
def legalRun (env fuel rounds : Nat) : List UserCall → FaultLog → Option FaultLog
  | [], log => some log
  | call :: rest, log =>
      if call.Legal log.kernel env then
        match log.call env fuel rounds call with
        | .ok after => legalRun env fuel rounds rest after
        | .error _ => none
      else none

theorem legalRun_run (calls : List UserCall) : ∀ {start : FaultLog},
    legalRun env fuel rounds calls start = some log →
      Relation.ReflTransGen (LegalCall env fuel rounds) start log := by
  induction calls with
  | nil =>
      intro start done
      obtain rfl := Option.some.inj done
      exact .refl
  | cons call rest ih =>
      intro start done
      unfold legalRun at done
      split at done
      · rename_i legal
        split at done
        · rename_i after returned
          exact .head ⟨call, legal, returned⟩ (ih done)
        · cases done
      · cases done

/-- The third access to a page of the heap that was freed and allocated again after each access. -/
theorem guardPanics_iff_of_run_reuse : ∃ log : FaultLog,
    log.faults.length = 2 ∧
      (GuardPanics (log.call 0 1 2 (.access 0x80000000)) ↔
        Successive 4 (faultsOf (log.call 0 1 2 (.access 0x80000000)))) := by
  have reuses : ((legalRun 0 1 2 [.allocate 0x80000000 4096, .access 0x80000000,
      .free 0x80000000 4096, .allocate 0x80000000 4096, .access 0x80000000,
      .free 0x80000000 4096, .allocate 0x80000000 4096] ⟨Kernel.blank .clock 1, []⟩).any
    fun log => decide (log.faults.length = 2)) = true := by
    decide +kernel
  obtain ⟨log, done, faulted⟩ := (Option.any_eq_true ..).mp reuses
  exact ⟨log, of_decide_eq_true faulted,
    guardPanics_iff_of_run (Kernel.blank .clock 1) 0 1 2 log rfl (legalRun_run _ done) _⟩

/-- A process allocates a page, accesses it and frees it three times. Each of its faults is resolved
by the first run of the handler. When it has allocated the page again, the access panics. -/
theorem guardPanics_after_reuse : ∃ log : FaultLog,
    Relation.ReflTransGen (LegalCall 0 1 2) ⟨Kernel.blank .clock 1, []⟩ log ∧
      (UserCall.access 0x80000000).Legal log.kernel 0 ∧
      GuardPanics (log.call 0 1 2 (.access 0x80000000)) := by
  have panics : ((legalRun 0 1 2 [.allocate 0x80000000 4096, .access 0x80000000,
      .free 0x80000000 4096, .allocate 0x80000000 4096, .access 0x80000000,
      .free 0x80000000 4096, .allocate 0x80000000 4096, .access 0x80000000,
      .free 0x80000000 4096, .allocate 0x80000000 4096] ⟨Kernel.blank .clock 1, []⟩).any
    fun log => decide ((UserCall.access 0x80000000).Legal log.kernel 0) &&
      Stops (log.call 0 1 2 (.access 0x80000000)) fun halt =>
        match halt with
        | .repeated _ => true
        | .stopped _ _ => false) = true := by
    decide +kernel
  obtain ⟨log, done, observed⟩ := (Option.any_eq_true ..).mp panics
  obtain ⟨legal, stops⟩ := Bool.and_eq_true_iff.mp observed
  obtain ⟨halt, stopped, tripped⟩ := Stops.exists stops
  refine ⟨log, legalRun_run _ done, of_decide_eq_true legal, ?_⟩
  cases halt with
  | repeated faults => exact ⟨faults, stopped⟩
  | stopped stop faults => cases tripped

end FaultLog

end FosKernel
