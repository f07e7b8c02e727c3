import FosKernel.Lib.RingBuffer

/-!
# The console input buffer

`cons_intr`, `cons_getc` and `cons_getc2` of `console.c`. A device procedure is the list of
8-bit characters that it returns before -1; 0 stands for no character. While at most 511
characters are unread, the buffer is a queue.
-/

namespace FosKernel

/-- `CONSBUFSIZE`. -/
def consBufSize : Nat := 512

/-- `cons`. -/
abbrev ConsoleBuffer := RingBuffer (BitVec 8)

/-- The body of the loop in `cons_intr`. -/
def consStash (cons : ConsoleBuffer) (c : BitVec 8) : ConsoleBuffer :=
  if c = 0 then cons else cons.put consBufSize c

/-- `cons_intr`. -/
def consIntr (cons : ConsoleBuffer) (proc : List (BitVec 8)) : ConsoleBuffer :=
  proc.foldl consStash cons

/-- `cons_getc2`. -/
def consGetc2 (cons : ConsoleBuffer) : BitVec 8 × ConsoleBuffer :=
  match cons.get consBufSize with
  | some (c, cons) => (c, cons)
  | none => (0, cons)

/-- `serial_intr`. -/
def serialIntr (serialExists : Bool) (cons : ConsoleBuffer) (serial : List (BitVec 8)) :
    ConsoleBuffer :=
  if serialExists then consIntr cons serial else cons

/-- `kbd_intr`. -/
def kbdIntr (cons : ConsoleBuffer) (kbd : List (BitVec 8)) : ConsoleBuffer := consIntr cons kbd

/-- `cons_getc`, which polls both devices first. -/
def consGetc (serialExists : Bool) (cons : ConsoleBuffer) (serial kbd : List (BitVec 8)) :
    BitVec 8 × ConsoleBuffer :=
  consGetc2 (kbdIntr (serialIntr serialExists cons serial) kbd)

/-- A call on the console buffer, with what the device procedures return during it. -/
inductive ConsoleCall where
  | intr (proc : List (BitVec 8))
  | getc (serial kbd : List (BitVec 8))
  | getc2

/-- The characters of a list that are not 0. -/
def nonzero (characters : List (BitVec 8)) : List (BitVec 8) := characters.filter (· ≠ 0)

/-- The console buffer, the characters that were delivered and the results of the reads. -/
structure ConsoleLog where
  cons : ConsoleBuffer
  delivered : List (BitVec 8)
  reads : List (BitVec 8)

namespace ConsoleLog

/-- The cleared buffer. -/
def boot : ConsoleLog := ⟨⟨fun _ => 0, 0, 0⟩, [], []⟩

variable (serialExists : Bool)

/-- The characters that a call delivers. -/
def received : ConsoleCall → List (BitVec 8)
  | .intr proc => proc
  | .getc serial kbd => (if serialExists then serial else []) ++ kbd
  | .getc2 => []

/-- A call is made. -/
def perform (log : ConsoleLog) (call : ConsoleCall) : ConsoleLog :=
  let delivered := log.delivered ++ nonzero (received serialExists call)
  match call with
  | .intr proc => ⟨consIntr log.cons proc, delivered, log.reads⟩
  | .getc serial kbd =>
      let (c, cons) := consGetc serialExists log.cons serial kbd
      ⟨cons, delivered, log.reads ++ [c]⟩
  | .getc2 =>
      let (c, cons) := consGetc2 log.cons
      ⟨cons, delivered, log.reads ++ [c]⟩

/-- The characters that the reads returned. -/
def returned (log : ConsoleLog) : List (BitVec 8) := nonzero log.reads

/-- At most 511 characters are unread at any time: after every delivery and before the next read. -/
def Fits : ConsoleLog → List ConsoleCall → Prop
  | _, [] => True
  | log, call :: calls =>
      log.delivered.length + (nonzero (received serialExists call)).length ≤
          log.returned.length + 511 ∧
        Fits (log.perform serialExists call) calls

/-- What the reads return when the unread characters are a queue. -/
def queueReads : List (BitVec 8) → List ConsoleCall → List (BitVec 8)
  | _, [] => []
  | queue, call :: calls =>
      let queue := queue ++ nonzero (received serialExists call)
      match call with
      | .intr _ => queueReads queue calls
      | .getc _ _ | .getc2 => queue.headD 0 :: queueReads queue.tail calls

/-- The delivered characters are those returned so far and then those in the buffer. -/
structure Queued (log : ConsoleLog) (unread : List (BitVec 8)) : Prop where
  holds : log.cons.Holds consBufSize unread
  split : log.delivered = log.returned ++ unread
  characters : ∀ c ∈ unread, c ≠ 0

variable {serialExists} {log : ConsoleLog} {unread : List (BitVec 8)} {cons : ConsoleBuffer}

theorem queued_boot : boot.Queued [] where
  holds := ⟨by decide, by decide, rfl, fun offset within => by cases within⟩
  split := rfl
  characters _ member := by cases member

/-- A delivery appends its characters to the queue. -/
theorem holds_consIntr {proc : List (BitVec 8)} (holds : cons.Holds consBufSize unread)
    (room : unread.length + (nonzero proc).length ≤ 511) :
    (consIntr cons proc).Holds consBufSize (unread ++ nonzero proc) := by
  induction proc generalizing cons unread with
  | nil =>
      rw [nonzero, List.filter_nil, List.append_nil]
      exact holds
  | cons c proc ih =>
      change (consIntr (consStash cons c) proc).Holds _ _
      by_cases zero : c = 0
      · have skipped : nonzero (c :: proc) = nonzero proc :=
          List.filter_cons_of_neg fun kept => of_decide_eq_true kept zero
        rw [skipped] at room ⊢
        rw [consStash, if_pos zero]
        exact ih holds room
      · have kept : nonzero (c :: proc) = c :: nonzero proc :=
          List.filter_cons_of_pos (decide_eq_true zero)
        rw [kept, List.length_cons] at room
        rw [kept, consStash, if_neg zero, List.append_cons]
        refine ih (holds.put (by unfold consBufSize; omega) c) ?_
        rw [List.length_append, List.length_singleton]
        omega

theorem holds_consIntr_append {first second : List (BitVec 8)}
    (holds : cons.Holds consBufSize unread)
    (room : unread.length + (nonzero (first ++ second)).length ≤ 511) :
    (consIntr (consIntr cons first) second).Holds consBufSize
      (unread ++ nonzero (first ++ second)) := by
  have split : consIntr (consIntr cons first) second = consIntr cons (first ++ second) :=
    List.foldl_append.symm
  rw [split]
  exact holds_consIntr holds room

/-- A read takes the first unread character, or returns 0. -/
theorem consGetc2_spec (holds : cons.Holds consBufSize unread) :
    (consGetc2 cons).1 = unread.headD 0 ∧
      (consGetc2 cons).2.Holds consBufSize unread.tail := by
  unfold consGetc2
  cases unread with
  | nil =>
      rw [holds.get_nil]
      exact ⟨rfl, holds⟩
  | cons c unread =>
      obtain ⟨rest, found, holds'⟩ := holds.get_cons
      rw [found]
      exact ⟨rfl, holds'⟩

theorem nonzero_append_singleton (characters : List (BitVec 8)) (c : BitVec 8) :
    nonzero (characters ++ [c]) = if c = 0 then nonzero characters else
        nonzero characters ++ [c] := by
  unfold nonzero
  by_cases zero : c = 0
  · rw [if_pos zero, List.filter_append, zero]
    simp
  · have kept : [c].filter (· ≠ 0) = [c] := List.filter_cons_of_pos (decide_eq_true zero)
    rw [if_neg zero, List.filter_append, kept]

/-- A read moves the first unread character to those returned. -/
theorem returned_read (characters : ∀ c ∈ unread, c ≠ 0) (reads : List (BitVec 8)) :
    nonzero reads ++ unread = nonzero (reads ++ [unread.headD 0]) ++ unread.tail := by
  rw [nonzero_append_singleton]
  cases unread with
  | nil =>
      rw [List.headD_nil, if_pos rfl]
      rfl
  | cons c unread =>
      rw [List.headD_cons, if_neg (characters c (List.mem_cons_self ..)), List.append_assoc]
      rfl

/-- **One call.** The buffer stays a queue, and a read returns what the queue gives. -/
theorem Queued.perform (queued : log.Queued unread) (call : ConsoleCall)
    (room : log.delivered.length + (nonzero (received serialExists call)).length ≤
      log.returned.length + 511) :
    ∃ unread', (log.perform serialExists call).Queued unread' ∧
      ∀ calls, (log.perform serialExists call).reads ++ queueReads serialExists unread' calls =
        log.reads ++ queueReads serialExists unread (call :: calls) := by
  have count := congrArg List.length queued.split
  rw [List.length_append] at count
  have fits : unread.length + (nonzero (received serialExists call)).length ≤ 511 := by omega
  have characters : ∀ c ∈ unread ++ nonzero (received serialExists call), c ≠ 0 := by
    intro c member
    rcases List.mem_append.mp member with old | new
    · exact queued.characters c old
    · exact of_decide_eq_true (List.mem_filter.mp new).2
  have split : log.delivered ++ nonzero (received serialExists call) =
      log.returned ++ (unread ++ nonzero (received serialExists call)) := by
    rw [queued.split, List.append_assoc]
  have tail : ∀ c ∈ (unread ++ nonzero (received serialExists call)).tail, c ≠ 0 :=
    fun c member => characters c (List.mem_of_mem_tail member)
  cases call with
  | intr proc => exact ⟨_, ⟨holds_consIntr queued.holds fits, split, characters⟩,
    fun calls => rfl⟩
  | getc serial kbd =>
      have polled : (kbdIntr (serialIntr serialExists log.cons serial) kbd).Holds consBufSize
          (unread ++ nonzero (received serialExists (.getc serial kbd))) := by
        unfold kbdIntr serialIntr
        unfold received at fits ⊢
        cases serialExists with
        | true => exact holds_consIntr_append queued.holds fits
        | false => exact holds_consIntr queued.holds fits
      obtain ⟨value, holds⟩ := consGetc2_spec polled
      refine ⟨_, ⟨holds, ?_, tail⟩, fun calls => ?_⟩
      · refine split.trans ((returned_read characters log.reads).trans ?_)
        rw [← value]
        rfl
      · change (log.reads ++ [_]) ++ _ = _
        rw [List.append_assoc, queueReads, ← value]
        rfl
  | getc2 =>
      have same : unread ++ nonzero (received serialExists .getc2) = unread := List.append_nil _
      rw [same] at split characters tail
      obtain ⟨value, holds⟩ := consGetc2_spec queued.holds
      refine ⟨_, ⟨holds, ?_, tail⟩, fun calls => ?_⟩
      · refine split.trans ((returned_read characters log.reads).trans ?_)
        rw [← value]
        rfl
      · change (log.reads ++ [_]) ++ _ = _
        rw [List.append_assoc, queueReads, same, ← value]
        rfl

/-- **A run of calls.** -/
theorem Queued.run {calls : List ConsoleCall} (queued : log.Queued unread)
    (fits : Fits serialExists log calls) :
    ∃ unread', (calls.foldl (ConsoleLog.perform serialExists) log).Queued unread' ∧
      (calls.foldl (ConsoleLog.perform serialExists) log).reads =
        log.reads ++ queueReads serialExists unread calls := by
  induction calls generalizing log unread with
  | nil => exact ⟨unread, queued, (List.append_nil _).symm⟩
  | cons call calls ih =>
      obtain ⟨unread', queued', step⟩ := queued.perform call fits.1
      obtain ⟨last, queued'', reads⟩ := ih queued' fits.2
      exact ⟨last, queued'', reads.trans (step calls)⟩

/-- **The console buffer is a queue.** In every run in which at most 511 characters are unread at
any time, the reads return what a queue gives: the characters returned and those left are the ones
delivered, in order, and the positions stay in the buffer. -/
theorem console_queue {calls : List ConsoleCall} (fits : Fits serialExists boot calls) :
    let log := calls.foldl (perform serialExists) boot
    log.reads = queueReads serialExists [] calls ∧
      (∃ unread, log.delivered = nonzero log.reads ++ unread ∧ unread.length ≤ 511 ∧
        log.cons.Holds consBufSize unread) ∧
      log.cons.rpos < consBufSize ∧ log.cons.wpos < consBufSize := by
  obtain ⟨unread, queued, reads⟩ := queued_boot.run fits
  have short := queued.holds.short
  refine ⟨reads, ⟨unread, queued.split, ?_, queued.holds⟩, queued.holds.inside,
    queued.holds.write_lt⟩
  unfold consBufSize at short
  omega

/-- Two interrupts with a read between them, and two reads after them. -/
theorem console_queue_two :
    let calls := [.intr [104, 0, 105], .getc [] [33], .intr [10], .getc2, .getc2]
    (calls.foldl (perform true) boot).reads = [104, 105, 33] ∧
      (calls.foldl (perform true) boot).cons.rpos < consBufSize :=
  have fits : Fits true boot [.intr [104, 0, 105], .getc [] [33], .intr [10], .getc2, .getc2] :=
    ⟨by decide, by decide, by decide, by decide, by decide, trivial⟩
  have queue := console_queue fits
  ⟨queue.1.trans (by decide), queue.2.2.1⟩

end ConsoleLog

end FosKernel
