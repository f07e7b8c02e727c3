import FosKernel.Trap.PrivateMemory
import Mathlib.Data.Set.Insert

/-!
# Runs of several programs

Programs are loaded at any time, and the page faults, reads, writes and clock interrupts
of all loaded programs interleave. Every page of every program keeps what the program
wrote last, in memory or in the page file, and no two programs get one frame.
-/

namespace FosKernel

namespace Kernel

variable {kernel before after : Kernel} {env va fuel : Nat} {live : Set Nat} {known : Contents}

theorem Quiet.congr (quiet : before.Quiet env) (guard : SameGuard before after)
    (present : ∀ va, after.pagePresent env va = before.pagePresent env va)
    (slot : ∀ va, after.memory.slot (after.directory env) va =
      before.memory.slot (before.directory env) va) : after.Quiet env := by
  intro faulted
  rw [guard.va, guard.repeated, present, slot]
  exact quiet (guard.faulted.symm.trans faulted)

/-- What a step of an environment does to its own memory, and to nothing else. -/
structure Advances (env : Nat) (before after : Kernel) : Prop where
  confined : Confined env before after
  storing : Storing after env
  quiet : after.Quiet env

/-- A clock interrupt. -/
theorem Storing.stampLru_advances (storing : Storing kernel env) (quiet : kernel.Quiet env)
    (stamped : kernel.stampLru env = .ok after) :
    Advances env kernel after ∧ after.store env = kernel.store env := by
  obtain ⟨storing', ticked, -⟩ := storing.stampLru_ends.of_ok stamped
  refine ⟨⟨.of_ticked ticked env, storing', ?_⟩, ticked.store env⟩
  exact quiet.congr ticked.sameGuard (ticked.pagePresent env) (ticked.slot_eq env)

/-- A page fault moves pages, or it creates a page table for the next fault. -/
theorem Storing.trapDispatch_advances (storing : Storing kernel env) (quiet : kernel.Quiet env)
    (accessible : kernel.Accessible env va) (absent : kernel.pagePresent env va = false)
    (leaves : kernel.LeavesVictim env va)
    (returned : kernel.trapDispatch env va (fuel + 2) = .ok after) :
    Advances env kernel after ∧
      Relation.ReflTransGen PagedStore.Move (kernel.store env) (after.store env) := by
  obtain ⟨middle, stamped, storing', ticked, -⟩ := storing.stampLru_ends.exists_ok
  have handled : middle.faultHandler env va (fuel + 2) = .ok after := by
    rw [trapDispatch, stamped] at returned
    exact returned
  obtain ⟨confined, guard⟩ := Confined.of_faultHandler storing'.running
    (fun lru full => (storing'.hand lru).listed full) handled
  have confined := (Confined.of_ticked ticked env).trans confined
  have pending := quiet.calm.pending absent
  cases located : kernel.memory.slot (kernel.directory env) va with
  | some slot =>
      have resolved := (storing.trapDispatch_serves (fun faulted same =>
        Nat.le_succ_of_le (pending faulted same)) absent accessible
          (by rw [located, Option.isSome_some]) leaves fuel).of_ok returned
      refine ⟨⟨confined, resolved.storing, fun _ => .inl ?_⟩, resolved.moves⟩
      rw [guard.va]
      exact resolved.present
  | none =>
      obtain ⟨created, dispatched, storing'', store, -, -, -, table, -⟩ :=
        storing.trapDispatch_creates pending absent accessible located (fuel + 2)
      rw [dispatched, Except.ok.injEq] at returned
      rw [returned] at storing'' store table
      have first : ¬ (middle.lastFaultVa = va ∧ middle.lastFaultedEnv = some env) := by
        intro repeated
        have guard' := ticked.sameGuard
        have faulted := quiet (guard'.faulted.symm.trans repeated.2)
        rw [← guard'.va, repeated.1, absent, located] at faulted
        simp at faulted
      refine ⟨⟨confined, storing'', fun _ => .inr ⟨?_, ?_⟩⟩, ?_⟩
      · rw [guard.repeated]
        exact if_neg first
      · rw [guard.va]
        exact table
      · rw [store]

/-- The processor sets the used and modified bits of a present page. -/
theorem Storing.mark_advances (storing : Storing kernel env) (quiet : kernel.Quiet env)
    (user : va < userTop) (present : kernel.pagePresent env va = true) {set : Perm}
    (unset : set &&& permPresent = 0#12)
    (changed : kernel.setPagePermissions env va set 0 = .ok after) :
    Advances env kernel after ∧ after.pagePresent env va = true ∧
      after.store env = { kernel.store env with
        modified := fun page => (kernel.store env).modified page ||
          decide (page = .of va user) && Perm.has set permModified } := by
  obtain ⟨marked, changed', storing', -, present', store⟩ :=
    storing.mark quiet.calm user present unset
  obtain rfl := Except.ok.inj (changed'.symm.trans changed)
  refine ⟨⟨.of_setPagePermissions unset (by decide) changed, storing', ?_⟩, present', store⟩
  have presence := ((setPagePermissions_present kernel env va unset (by decide)).of_ok changed).1
    env
  obtain ⟨slot, located⟩ := exists_slot present
  rw [setPagePermissions_eq kernel located, Except.ok.injEq] at changed
  subst changed
  exact quiet.congr ⟨rfl, rfl, rfl, rfl⟩ presence fun _ => rfl

/-- A read of a present page changes nothing that is stored. -/
theorem Storing.read_advances (storing : Storing kernel env) (quiet : kernel.Quiet env)
    (user : va < userTop) (present : kernel.pagePresent env va = true)
    (changed : kernel.setPagePermissions env va permUsed 0 = .ok after) :
    Advances env kernel after ∧ after.store env = kernel.store env := by
  obtain ⟨advances, -, store⟩ := storing.mark_advances quiet user present (by decide) changed
  refine ⟨advances, ?_⟩
  rw [store]
  refine PagedStore.ext rfl (funext fun page => ?_) rfl
  simp [show Perm.has permUsed permModified = false by decide]

/-- The processor writes to a present page. -/
def storeByte (kernel : Kernel) (env va : Nat) (value : UInt8) : Except Stop Kernel := do
  let kernel ← kernel.setPagePermissions env va (permUsed ||| permModified) 0
  return kernel.writeByte (kernel.pageEntry env va).frame (pgoff va) value

/-- A write of a present page changes one byte of it, and the page is modified. -/
theorem Storing.storeByte_advances (storing : Storing kernel env) (quiet : kernel.Quiet env)
    (user : va < userTop) (present : kernel.pagePresent env va = true) {value : UInt8}
    (stored : kernel.storeByte env va value = .ok after) :
    Advances env kernel after ∧
      ∃ content, (kernel.store env).resident (.of va user) = some content ∧
        after.store env = (kernel.store env).write (.of va user)
          (Function.update content (pgoff va) value) := by
  obtain ⟨marked, changed, last⟩ := bind_eq_ok.mp stored
  obtain rfl := Except.ok.inj last
  obtain ⟨advances, present', store⟩ :=
    storing.mark_advances quiet user present (by decide) changed
  obtain ⟨free, ws⟩ := advances.storing.running.workingSet
  have here : marked.pageEntry env (UserPage.of va user).1 = marked.pageEntry env va :=
    pageEntry_roundDown ..
  have present'' : marked.pagePresent env (UserPage.of va user).1 = true :=
    (pagePresent_roundDown ..).trans present'
  have modified : Perm.has (marked.pageEntry env va).perm permModified = true := by
    have bit := congrFun (congrArg PagedStore.modified store) (.of va user)
    change Perm.has (marked.pageEntry env (UserPage.of va user).1).perm permModified =
      (_ || decide _ && Perm.has (permUsed ||| permModified) permModified) at bit
    rw [here] at bit
    simp [bit, show Perm.has permModified permModified = true by decide]
  have written := Confined.of_writeByte (UserPage.of va user) present'' (pgoff va) value
  rw [here] at written
  refine ⟨⟨advances.confined.trans written, advances.storing.writeByte .., advances.quiet⟩,
    marked.memory.bytes (marked.pageEntry env va).frame, ?_, ?_⟩
  · have resident := congrFun (congrArg PagedStore.resident store) (.of va user)
    rw [← resident]
    simp only [Kernel.store]
    rw [if_pos present'', here]
  · rw [writeByte_store ws user present' modified, store]
    refine PagedStore.ext rfl (funext fun page => ?_) rfl
    simp only [PagedStore.write]
    by_cases same : page = .of va user
    · rw [same, Function.update_self, Function.update_self]
    · rw [Function.update_of_ne same, Function.update_of_ne same, decide_eq_false same,
        Bool.false_and, Bool.or_false]

end Kernel

open Kernel

/-- The kernel, the environments whose programs are loaded, and what each program knows of its
memory. -/
structure Programs where
  kernel : Kernel
  live : Set Nat
  known : Nat → Contents

/-- A program is loaded into an empty environment with page tables of its own, or a loaded program
faults, reads or writes, or the clock interrupts it. -/
inductive ProgramMove (before : Programs) : Programs → Prop
  | load {next : Loading} (env activeListSize : Nat) (progName : String)
      (segments : List ProgramSegment) (new : env ∉ before.live) (fresh : Fresh before.kernel env)
      (apart : ∀ other ∈ before.live, before.kernel.TablesApart env other)
      (loadable : ProgramSegment.Loadable segments) (sound : ∀ seg ∈ segments, seg.Sound)
      (returned : before.kernel.loadProgram env activeListSize progName segments = .ok next) :
      ProgramMove before ⟨next.kernel, insert env before.live,
        Function.update before.known env (programContents segments)⟩
  | pageFault {after : Kernel} (env va fuel : Nat) (member : env ∈ before.live)
      (accessible : before.kernel.Accessible env va)
      (absent : before.kernel.pagePresent env va = false)
      (leaves : before.kernel.LeavesVictim env va)
      (returned : before.kernel.trapDispatch env va (fuel + 2) = .ok after) :
      ProgramMove before ⟨after, before.live, before.known⟩
  | read {after : Kernel} (env va : Nat) (member : env ∈ before.live) (user : va < userTop)
      (present : before.kernel.pagePresent env va = true)
      (changed : before.kernel.setPagePermissions env va permUsed 0 = .ok after) :
      ProgramMove before ⟨after, before.live, before.known⟩
  | write {after : Kernel} (env va : Nat) (value : UInt8) (member : env ∈ before.live)
      (user : va < userTop) (present : before.kernel.pagePresent env va = true)
      (stored : before.kernel.storeByte env va value = .ok after) :
      ProgramMove before ⟨after, before.live,
        Function.update before.known env
          ((before.known env).write (.of va user) (pgoff va) value)⟩
  | clockInterrupt {after : Kernel} (env : Nat) (member : env ∈ before.live)
      (stamped : before.kernel.stampLru env = .ok after) :
      ProgramMove before ⟨after, before.live, before.known⟩

namespace Programs

variable {programs : Programs} {after : Kernel} {env : Nat} {known : Contents}

/-- The programs coexist, and the memory of each one holds what it knows. -/
structure Intact (programs : Programs) : Prop where
  coexist : programs.kernel.Coexist programs.live
  clean : ∀ env ∈ programs.live, (programs.kernel.store env).CleanAt (programs.known env)
  holds : ∀ env ∈ programs.live, (programs.kernel.store env).Holds (programs.known env)

/-- The other programs keep what they know. -/
theorem Intact.advance_new (intact : programs.Intact)
    (advances : Advances env programs.kernel after)
    (separate : ∀ other ∈ programs.live, other ≠ env → programs.kernel.Separate env other)
    (clean : (after.store env).CleanAt known) (holds : (after.store env).Holds known) :
    Intact ⟨after, insert env programs.live, Function.update programs.known env known⟩ := by
  have store : ∀ other ∈ insert env programs.live, other ≠ env → other ∈ programs.live ∧
      after.store other = programs.kernel.store other := by
    intro other member different
    have held := member.resolve_left different
    exact ⟨held, advances.confined.store intact.coexist.stores (separate other held different)
      different⟩
  refine ⟨advances.confined.coexist intact.coexist separate advances.storing advances.quiet,
    fun other member => ?_, fun other member => ?_⟩
  · dsimp only
    by_cases own : other = env
    · rw [own, Function.update_self]
      exact clean
    · obtain ⟨held, same⟩ := store other member own
      rw [Function.update_of_ne own, same]
      exact intact.clean other held
  · dsimp only
    by_cases own : other = env
    · rw [own, Function.update_self]
      exact holds
    · obtain ⟨held, same⟩ := store other member own
      rw [Function.update_of_ne own, same]
      exact intact.holds other held

theorem Intact.advance (intact : programs.Intact) (member : env ∈ programs.live)
    (advances : Advances env programs.kernel after)
    (clean : (after.store env).CleanAt known) (holds : (after.store env).Holds known) :
    Intact ⟨after, programs.live, Function.update programs.known env known⟩ := by
  have intact' := intact.advance_new advances
    (fun other => intact.coexist.separate env member other)
    clean holds
  rwa [Set.insert_eq_of_mem member] at intact'

/-- A step that only moves pages. -/
theorem Intact.moved (intact : programs.Intact) (member : env ∈ programs.live)
    (advances : Advances env programs.kernel after)
    (moves : Relation.ReflTransGen PagedStore.Move (programs.kernel.store env) (after.store env)) :
    Intact ⟨after, programs.live, programs.known⟩ := by
  obtain ⟨holds, clean⟩ := (intact.holds env member).of_moves_at (intact.clean env member) moves
  have intact' := intact.advance member advances clean holds
  rwa [Function.update_eq_self] at intact'

end Programs

/-- Every step keeps the memory of all programs. -/
theorem ProgramMove.intact {before after : Programs} (intact : before.Intact)
    (move : ProgramMove before after) : after.Intact := by
  have coexist := intact.coexist
  cases move with
  | @load next env activeListSize progName segments new fresh apart loadable sound returned =>
      obtain ⟨storing, calm, clean, holds⟩ := fresh.keepsAt loadable sound returned
      obtain ⟨confined, guard⟩ := Confined.of_loadProgram fresh loadable returned
      have unfaulted : next.kernel.lastFaultedEnv ≠ some env := by
        rw [guard.faulted]
        exact fun faulted => new (coexist.faulted env faulted)
      refine intact.advance_new ⟨confined, storing, fun faulted => absurd faulted unfaulted⟩
        (fun other member _ => ?_) clean holds
      exact fresh.separate (coexist.storing other member).running (apart other member)
  | pageFault env va fuel member accessible absent leaves returned =>
      obtain ⟨advances, moves⟩ := (coexist.storing env member).trapDispatch_advances
        (coexist.quiet env member) accessible absent leaves returned
      exact intact.moved member advances moves
  | read env va member user present changed =>
      obtain ⟨advances, store⟩ := (coexist.storing env member).read_advances
        (coexist.quiet env member) user present changed
      exact intact.moved member advances (by rw [store])
  | write env va value member user present stored =>
      obtain ⟨advances, content, resident, store⟩ :=
        (coexist.storing env member).storeByte_advances
        (coexist.quiet env member) user present stored
      refine intact.advance member advances ?_ ?_
      · rw [store]
        exact (intact.clean env member).write _ _ _ _
      · rw [store]
        exact (intact.holds env member).write resident (pgoff va) value
  | clockInterrupt env member stamped =>
      obtain ⟨advances, store⟩ := (coexist.storing env member).stampLru_advances
        (coexist.quiet env member) stamped
      exact intact.moved member advances (by rw [store])

/-- Every run keeps the memory of all programs. -/
theorem Programs.Intact.of_run {kernel : Kernel} {live : Set Nat} {programs : Programs}
    (coexist : kernel.Coexist live) (faithful : ∀ env ∈ live, kernel.Faithful env)
    (run : Relation.ReflTransGen ProgramMove ⟨kernel, live, kernel.storedContents⟩ programs) :
    programs.Intact := by
  induction run with
  | refl =>
      have keeps : ∀ env ∈ live, Keeps kernel env (kernel.storedContents env) :=
          fun env member =>
        .of_faithful (coexist.storing env member) (coexist.quiet env member).calm
          (faithful env member)
      refine ⟨coexist, fun env member page index content old _ held unmodified stored => ?_,
        fun env member => (keeps env member).holds⟩
      rw [(keeps env member).clean page content old held unmodified stored]
  | tail _ move ih => exact move.intact ih

/-- No frame belongs to two programs. -/
theorem Kernel.Coexist.frame_ne {kernel : Kernel} {live : Set Nat} {env other : Nat}
    (coexist : kernel.Coexist live) (member : env ∈ live) (member' : other ∈ live)
    (different : other ≠ env) {page page' : UserPage}
    (present : kernel.pagePresent env page = true)
    (present' : kernel.pagePresent other page' = true) :
    (kernel.pageEntry env page).frame ≠ (kernel.pageEntry other page').frame :=
  ((coexist.separate env member other member' different).frames page' present').unmapped page
    present

end FosKernel
