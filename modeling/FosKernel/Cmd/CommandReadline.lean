import Mathlib.Logic.Function.Basic
import Mathlib.Data.List.Basic

/-!
# Reading a command line

`command_prompt_readline` of `command_readline.c` for every key but the tabulator: the two
cursors in the line, the position in the command history, and the history itself. Every key
press reports the elements of `buf` and `command_history` that it accesses. Rows outside the
history stand for the memory around it.
-/

namespace FosKernel

/-- `BUFLEN`. -/
def bufLen : Nat := 1024

/-- `HISTORY_MAX`. -/
def historyMax : Int := 19

/-- `command_history` and `last_command_idx`. -/
structure CommandHistory where
  rows : Int → Nat → BitVec 8
  lastCommandIdx : Int

/-- `buf` and the local variables of a line. -/
structure Readline where
  history : CommandHistory
  commandidx : Int
  buf : Nat → BitVec 8
  i : Nat
  lastIndex : Nat

/-- An access to an element of `buf` or of a row of `command_history`. -/
inductive LineAccess where
  | buf (index : Nat)
  | history (row : Int) (column : Nat)
  deriving DecidableEq

/-- The element is one of the array. -/
def LineAccess.Inside : LineAccess → Prop
  | buf index => index < bufLen
  | history row column => 0 ≤ row ∧ row ≤ historyMax ∧ column < bufLen

/-- The first index at which a test succeeds, or `BUFLEN`. -/
def firstIndex (test : Nat → Bool) : Nat := ((List.range bufLen).find? test).getD bufLen

/-- `strlen` of a row: `BUFLEN` when it has no end. -/
def strlen (text : Nat → BitVec 8) : Nat := firstIndex fun place => text place = 0

/-- Where `strcmp` stops. -/
def strcmpEnd (left right : Nat → BitVec 8) : Nat :=
  firstIndex fun place => left place ≠ right place ∨ right place = 0

/-- The elements of a row, or of `buf`, below a column. -/
def rowAccesses (row : Int) (columns : Nat) : List LineAccess :=
  (List.range columns).map (.history row)

def bufAccesses (indices : Nat) : List LineAccess := (List.range indices).map .buf

/-- The keys of a line. -/
inductive LineKey where
  | printable (c : Nat) (visible : 0x20 ≤ c ∧ c < 0x7F)
  | backspace
  | delete
  | left
  | right
  | up
  | down

/-- The character that `getchar` returns for a key. -/
def LineKey.code : LineKey → Nat
  | printable c _ => c
  | backspace => 8
  | delete => 0xE9
  | left => 228
  | right => 229
  | up => 226
  | down => 227

namespace Readline

/-- `clearandwritecommand`. -/
def clearAndWriteCommand (line : Readline) : Readline × List LineAccess :=
  let len := strlen (line.history.rows line.commandidx)
  ({ line with
      buf := fun place =>
        if place < len then line.history.rows line.commandidx place
        else if place < bufLen then 0 else line.buf place
      i := len
      lastIndex := len },
    rowAccesses line.commandidx (len + 1) ++ bufAccesses bufLen ++ bufAccesses len)

/-- The end of the line is at least the insertion point. -/
def adjust (line : Readline) : Readline :=
  if line.lastIndex < line.i then { line with lastIndex := line.i } else line

/-- A key press other than the tabulator and the end of the line. -/
def pressKey (line : Readline) (c : Nat) : Readline × List LineAccess :=
  let line := line.adjust
  if c = 226 then
    clearAndWriteCommand { line with
      commandidx := if line.commandidx ≠ 0 then line.commandidx - 1 else line.commandidx }
  else if c = 227 then
    let line := { line with
      commandidx :=
        if line.commandidx < line.history.lastCommandIdx then line.commandidx + 1
        else line.commandidx }
    if 0 ≤ line.history.lastCommandIdx then line.clearAndWriteCommand else (line, [])
  else if c = 228 then ({ line with i := if 0 < line.i then line.i - 1 else line.i }, [])
  else if c = 229 then
    ({ line with i := if line.i < line.lastIndex then line.i + 1 else line.i }, [])
  else if c = 0xE9 ∧ 0 < line.i then
    ({ line with
        buf := fun place =>
          if line.i ≤ place ∧ place ≤ line.lastIndex then
            line.buf (place + 1) else line.buf place
        lastIndex := line.lastIndex - 1 },
      (List.range (line.lastIndex + 1 - line.i)).flatMap fun offset =>
        [.buf (line.i + offset + 1), .buf (line.i + offset)])
  else if 0x20 ≤ c ∧ line.i < bufLen - 1 then
    ({ line with
        buf := Function.update line.buf line.i (BitVec.ofNat 8 c)
        i := line.i + 1
        lastIndex := line.lastIndex + 1 },
      [.buf line.i])
  else if c = 8 ∧ 0 < line.i then
    ({ line with
        buf := Function.update line.buf (line.i - 1) (line.buf line.i)
        i := line.i - 1 },
      [.buf line.i, .buf (line.i - 1)])
  else (line, [])

/-- The end of a line: `buf` is closed and added to the history. -/
def pressEnter (line : Readline) : Readline × List LineAccess :=
  let line := line.adjust
  let line := { line with buf := Function.update line.buf line.lastIndex 0 }
  let rows := line.history.rows
  let last := line.history.lastCommandIdx
  if last = historyMax then
    ({ line with
        history :=
          { rows := fun row =>
              if 0 ≤ row ∧ row < historyMax then rows (row + 1)
              else if row = historyMax then line.buf else rows row
            lastCommandIdx := last } },
      .buf line.lastIndex ::
        (List.range 19).flatMap (fun row : Nat =>
          rowAccesses (row + 1) bufLen ++ rowAccesses row bufLen) ++
        bufAccesses bufLen ++ rowAccesses historyMax bufLen)
  else
    let stop := strcmpEnd (rows last) line.buf
    let compared := .buf line.lastIndex :: rowAccesses last (stop + 1) ++ bufAccesses (stop + 1)
    if rows last stop ≠ line.buf stop then
      ({ line with
          history := ⟨Function.update rows (last + 1) line.buf, last + 1⟩ },
        compared ++ bufAccesses bufLen ++ rowAccesses (last + 1) bufLen)
    else (line, compared)

/-- A new line on a history. -/
def start (history : CommandHistory) (buf : Nat → BitVec 8) : Readline :=
  ⟨history, history.lastCommandIdx + 1, buf, 0, 0⟩

/-- `command_prompt_readline` on a sequence of keys that the end of the line follows. -/
def read (line : Readline) : List LineKey → Readline × List LineAccess
  | [] => line.pressEnter
  | key :: keys =>
      let pressed := line.pressKey key.code
      let rest := pressed.1.read keys
      (rest.1, pressed.2 ++ rest.2)

/-- No character is typed before the end of a full line. The delete key types one at the start. -/
def Fits (line : Readline) : LineKey → Prop
  | .printable _ _ => line.adjust.i < bufLen - 1 → line.adjust.lastIndex < bufLen - 1
  | .delete => line.adjust.i = 0 → line.adjust.lastIndex < bufLen - 1
  | _ => True

/-- Nothing is deleted from a full line, and the down arrow is not pressed behind the last row of a
full history. -/
def Careful (line : Readline) : LineKey → Prop
  | .delete => 0 < line.adjust.i → line.adjust.lastIndex < bufLen - 1
  | .down => line.commandidx ≤ historyMax
  | _ => True

/-- A condition holds before every key press of a line. -/
def Along (condition : Readline → LineKey → Prop) (line : Readline) : List LineKey → Prop
  | [] => True
  | key :: keys => condition line key ∧ (line.pressKey key.code).1.Along condition keys

/-- The text has an end. -/
def Terminated (text : Nat → BitVec 8) : Prop := ∃ place < bufLen, text place = 0

/-- The history holds lines that have an end. -/
structure SoundHistory (history : CommandHistory) : Prop where
  lower : -1 ≤ history.lastCommandIdx
  upper : history.lastCommandIdx ≤ historyMax
  lines : ∀ row, 0 ≤ row → row ≤ historyMax → Terminated (history.rows row)

/-- The cursors are in the line, and the position is in the history or behind its last line. -/
structure InBounds (line : Readline) : Prop where
  history : SoundHistory line.history
  insertion : line.i < bufLen
  ending : line.lastIndex < bufLen
  first : 0 ≤ line.commandidx
  behind : line.commandidx ≤ line.history.lastCommandIdx + 1

section Bounds

variable {line : Readline} {text : Nat → BitVec 8} {row : Int} {columns : Nat}

theorem firstIndex_lt {test : Nat → Bool} {place : Nat} (inside : place < bufLen)
    (found : test place = true) : firstIndex test < bufLen := by
  unfold firstIndex
  cases stop : (List.range bufLen).find? test with
  | none =>
      have never := List.find?_eq_none.mp stop place (List.mem_range.mpr inside)
      exact absurd found never
  | some stop' =>
      exact List.mem_range.mp (List.mem_of_find?_eq_some stop)

theorem strlen_lt (terminated : Terminated text) : strlen text < bufLen := by
  obtain ⟨place, inside, zero⟩ := terminated
  exact firstIndex_lt inside (decide_eq_true zero)

theorem strcmpEnd_lt (left : Nat → BitVec 8) (terminated : Terminated text) :
    strcmpEnd left text < bufLen := by
  obtain ⟨place, inside, zero⟩ := terminated
  exact firstIndex_lt inside (decide_eq_true (.inr zero))

theorem inside_bufAccesses (short : columns ≤ bufLen) :
    ∀ access ∈ bufAccesses columns, access.Inside := by
  intro access member
  obtain ⟨index, below, rfl⟩ := List.mem_map.mp member
  exact Nat.lt_of_lt_of_le (List.mem_range.mp below) short

theorem inside_rowAccesses (first : 0 ≤ row) (last : row ≤ historyMax)
    (short : columns ≤ bufLen) :
    ∀ access ∈ rowAccesses row columns, access.Inside := by
  intro access member
  obtain ⟨column, below, rfl⟩ := List.mem_map.mp member
  exact ⟨first, last, Nat.lt_of_lt_of_le (List.mem_range.mp below) short⟩

theorem inside_append {first second : List LineAccess}
    (left : ∀ access ∈ first, access.Inside) (right : ∀ access ∈ second, access.Inside) :
    ∀ access ∈ first ++ second, access.Inside := by
  intro access member
  exact (List.mem_append.mp member).elim (left access) (right access)

theorem InBounds.adjust (bounds : line.InBounds) : line.adjust.InBounds := by
  unfold Readline.adjust
  split
  · exact { bounds with ending := bounds.insertion }
  · exact bounds

theorem adjust_le (line : Readline) : line.adjust.i ≤ line.adjust.lastIndex := by
  unfold Readline.adjust
  split
  · exact Nat.le_refl _
  · rename_i reached
    exact Nat.not_lt.mp reached

theorem adjust_commandidx (line : Readline) : line.adjust.commandidx = line.commandidx := by
  unfold Readline.adjust
  split <;> rfl

theorem adjust_history (line : Readline) : line.adjust.history = line.history := by
  unfold Readline.adjust
  split <;> rfl

/-- A command of the history replaces the line. -/
theorem InBounds.clearAndWriteCommand (bounds : line.InBounds)
    (inside : line.commandidx ≤ historyMax) :
    line.clearAndWriteCommand.1.InBounds ∧
      ∀ access ∈ line.clearAndWriteCommand.2, access.Inside := by
  have short := strlen_lt (bounds.history.lines line.commandidx bounds.first inside)
  unfold Readline.clearAndWriteCommand
  dsimp only
  generalize strlen (line.history.rows line.commandidx) = len at short
  refine ⟨⟨bounds.history, short, short, bounds.first, bounds.behind⟩,
    inside_append (inside_append ?_ ?_) ?_⟩
  · exact inside_rowAccesses bounds.first inside short
  · exact inside_bufAccesses (Nat.le_refl bufLen)
  · exact inside_bufAccesses (Nat.le_of_lt short)

theorem clearAndWriteCommand_history (line : Readline) :
    line.clearAndWriteCommand.1.history = line.history := by
  rw [clearAndWriteCommand]

/-- Keys leave the history alone. -/
theorem pressKey_history (line : Readline) (c : Nat) :
    (line.pressKey c).1.history = line.history := by
  rw [← line.adjust_history]
  unfold Readline.pressKey
  dsimp only
  split
  · exact clearAndWriteCommand_history _
  split
  · split
    · exact clearAndWriteCommand_history _
    · dsimp only
  split
  · dsimp only
  split
  · dsimp only
  split
  · dsimp only
  split
  · dsimp only
  split
  · dsimp only
  · dsimp only

/-- A character is typed at the insertion point. -/
theorem InBounds.insert (bounds : line.InBounds) (c : Nat) (room : line.i < bufLen - 1)
    (short : line.lastIndex < bufLen - 1) :
    ({ line with
        buf := Function.update line.buf line.i (BitVec.ofNat 8 c)
        i := line.i + 1
        lastIndex := line.lastIndex + 1 } : Readline).InBounds ∧
      ∀ access ∈ [LineAccess.buf line.i], access.Inside := by
  refine ⟨⟨bounds.history, ?_, ?_, bounds.first, bounds.behind⟩, fun access member => ?_⟩
  · dsimp only
    omega
  · dsimp only
    omega
  · obtain rfl := List.mem_singleton.mp member
    exact bounds.insertion

/-- A careful key press keeps the bounds and accesses elements of the arrays only. -/
theorem InBounds.pressKey (bounds : line.InBounds) {key : LineKey} (fits : line.Fits key)
    (careful : line.Careful key) :
    (line.pressKey key.code).1.InBounds ∧
      ∀ access ∈ (line.pressKey key.code).2, access.Inside := by
  have adjusted := bounds.adjust
  have position := line.adjust_commandidx
  have first := adjusted.first
  have behind := adjusted.behind
  have insertion := adjusted.insertion
  have ending := adjusted.ending
  have upper := adjusted.history.upper
  obtain ⟨c, code⟩ : ∃ c, c = key.code := ⟨_, rfl⟩
  rw [← code]
  unfold Readline.pressKey
  dsimp only
  cases key with
  | up =>
      change c = 226 at code
      rw [if_pos code]
      refine InBounds.clearAndWriteCommand
        ⟨adjusted.history, insertion, ending, ?_, ?_⟩ ?_ <;> dsimp only <;> split <;>
          unfold historyMax at * <;> omega
  | down =>
      change c = 227 at code
      rw [if_neg (by omega), if_pos code]
      have careful : line.commandidx ≤ historyMax := careful
      have moved : ({ line.adjust with
          commandidx :=
            if line.adjust.commandidx < line.adjust.history.lastCommandIdx then
              line.adjust.commandidx + 1
            else line.adjust.commandidx } : Readline).InBounds := by
        refine ⟨adjusted.history, insertion, ending, ?_, ?_⟩ <;> dsimp only <;> split <;> omega
      split
      · refine moved.clearAndWriteCommand ?_
        dsimp only
        split <;> omega
      · exact ⟨moved, fun access member => by cases member⟩
  | left =>
      change c = 228 at code
      rw [if_neg (by omega), if_neg (by omega), if_pos code]
      refine ⟨⟨adjusted.history, ?_, ending, first, behind⟩,
        fun access member => by cases member⟩
      dsimp only
      split <;> omega
  | right =>
      change c = 229 at code
      rw [if_neg (by omega), if_neg (by omega), if_neg (by omega),
        if_pos code]
      refine ⟨⟨adjusted.history, ?_, ending, first, behind⟩,
        fun access member => by cases member⟩
      dsimp only
      split <;> omega
  | delete =>
      change c = 0xE9 at code
      have fits : line.adjust.i = 0 → line.adjust.lastIndex < bufLen - 1 := fits
      have careful : 0 < line.adjust.i → line.adjust.lastIndex < bufLen - 1 := careful
      rw [if_neg (by omega), if_neg (by omega), if_neg (by omega), if_neg (by omega)]
      by_cases inner : 0 < line.adjust.i
      · have short := careful inner
        rw [if_pos ⟨code, inner⟩]
        refine ⟨⟨adjusted.history, insertion, ?_, first, behind⟩, fun access member => ?_⟩
        · dsimp only
          omega
        · obtain ⟨offset, below, member⟩ := List.mem_flatMap.mp member
          have below := List.mem_range.mp below
          rcases List.mem_cons.mp member with rfl | member
          · change line.adjust.i + offset + 1 < bufLen
            omega
          · obtain rfl := List.mem_singleton.mp member
            change line.adjust.i + offset < bufLen
            omega
      · rw [if_neg fun both => inner both.2]
        by_cases room : line.adjust.i < bufLen - 1
        · rw [if_pos ⟨by omega, room⟩]
          exact adjusted.insert c room (fits (by omega))
        · rw [if_neg fun both => room both.2, if_neg fun both => inner both.2]
          exact ⟨adjusted, fun access member => by cases member⟩
  | backspace =>
      change c = 8 at code
      rw [if_neg (by omega), if_neg (by omega), if_neg (by omega), if_neg (by omega),
        if_neg fun both => absurd both.1 (by omega), if_neg fun both => absurd both.1 (by omega)]
      by_cases inner : 0 < line.adjust.i
      · rw [if_pos ⟨code, inner⟩]
        refine ⟨⟨adjusted.history, ?_, ending, first, behind⟩, fun access member => ?_⟩
        · dsimp only
          omega
        · rcases List.mem_cons.mp member with rfl | member
          · exact insertion
          · obtain rfl := List.mem_singleton.mp member
            exact Nat.lt_of_le_of_lt (Nat.sub_le ..) insertion
      · rw [if_neg fun both => inner both.2]
        exact ⟨adjusted, fun access member => by cases member⟩
  | printable c' visible =>
      change c = c' at code
      rw [if_neg (by omega), if_neg (by omega), if_neg (by omega), if_neg (by omega),
        if_neg fun both => by omega]
      by_cases room : line.adjust.i < bufLen - 1
      · rw [if_pos ⟨by omega, room⟩]
        exact adjusted.insert c room (fits room)
      · rw [if_neg fun both => room both.2, if_neg fun both => by omega]
        exact ⟨adjusted, fun access member => by cases member⟩

/-- A key press that accesses elements of the arrays only is careful. -/
theorem InBounds.careful_of_inside (bounds : line.InBounds) {key : LineKey}
    (inside : ∀ access ∈ (line.pressKey key.code).2, access.Inside) : line.Careful key := by
  have adjusted := bounds.adjust
  have ending := adjusted.ending
  obtain ⟨c, code⟩ : ∃ c, c = key.code := ⟨_, rfl⟩
  rw [← code] at inside
  unfold Readline.pressKey at inside
  dsimp only at inside
  cases key with
  | delete =>
      change c = 0xE9 at code
      intro inner
      rw [if_neg (by omega), if_neg (by omega), if_neg (by omega), if_neg (by omega),
        if_pos ⟨code, inner⟩] at inside
      have reached := line.adjust_le
      have last := inside (.buf (line.adjust.i + (line.adjust.lastIndex - line.adjust.i) + 1))
        (List.mem_flatMap.mpr ⟨line.adjust.lastIndex - line.adjust.i,
          List.mem_range.mpr (by omega), List.mem_cons_self ..⟩)
      change line.adjust.i + (line.adjust.lastIndex - line.adjust.i) + 1 < bufLen at last
      omega
  | down =>
      change c = 227 at code
      rw [if_neg (by omega), if_pos code] at inside
      change line.commandidx ≤ historyMax
      rw [← line.adjust_commandidx]
      by_cases nonempty : 0 ≤ line.adjust.history.lastCommandIdx
      · rw [if_pos nonempty] at inside
        have row := inside (.history _ 0) (List.mem_append_left _ (List.mem_append_left _
          (List.mem_map.mpr ⟨0, List.mem_range.mpr (Nat.succ_pos _), rfl⟩)))
        have upper := row.2.1
        dsimp only at upper
        split at upper <;> omega
      · have behind := adjusted.behind
        unfold historyMax
        omega
  | _ => trivial

/-- The end of a line leaves a text with an end. -/
theorem InBounds.pressEnter_terminated (bounds : line.InBounds) :
    Terminated line.pressEnter.1.buf := by
  refine ⟨line.adjust.lastIndex, bounds.adjust.ending, ?_⟩
  unfold Readline.pressEnter
  dsimp only
  split
  · exact Function.update_self ..
  · split <;> exact Function.update_self ..

/-- The end of a line keeps the history sound. -/
theorem InBounds.pressEnter_history (bounds : line.InBounds) :
    SoundHistory line.pressEnter.1.history := by
  have terminated := bounds.pressEnter_terminated
  have sound := bounds.adjust.history
  unfold Readline.pressEnter at terminated ⊢
  dsimp only at terminated ⊢
  split
  · rename_i full
    rw [if_pos full] at terminated
    refine ⟨sound.lower, sound.upper, fun row first last => ?_⟩
    dsimp only
    split
    · exact sound.lines (row + 1) (by omega) (by omega)
    · rw [if_pos (by omega)]
      exact terminated
  · rename_i space
    rw [if_neg space] at terminated
    have lower := sound.lower
    have upper := sound.upper
    split
    · rename_i different
      rw [if_pos different] at terminated
      refine ⟨by dsimp only; omega, by dsimp only; omega, fun row first last => ?_⟩
      dsimp only
      by_cases same : row = line.adjust.history.lastCommandIdx + 1
      · rw [same, Function.update_self]
        exact terminated
      · rw [Function.update_of_ne same]
        exact sound.lines row first last
    · exact sound

/-- On a history with a line, the end of a line accesses elements of the arrays only. -/
theorem InBounds.pressEnter_inside (bounds : line.InBounds)
    (nonempty : 0 ≤ line.history.lastCommandIdx) :
    ∀ access ∈ line.pressEnter.2, access.Inside := by
  have adjusted := bounds.adjust
  have upper := adjusted.history.upper
  rw [← line.adjust_history] at nonempty
  have closed : (LineAccess.buf line.adjust.lastIndex).Inside := adjusted.ending
  have terminated : Terminated (Function.update line.adjust.buf line.adjust.lastIndex 0) :=
    ⟨line.adjust.lastIndex, adjusted.ending, Function.update_self ..⟩
  unfold Readline.pressEnter
  dsimp only
  split
  · refine List.forall_mem_cons.mpr ⟨closed, inside_append (inside_append ?_ ?_) ?_⟩
    · intro access member
      obtain ⟨row, below, member⟩ := List.mem_flatMap.mp member
      have below := List.mem_range.mp below
      unfold historyMax at *
      refine inside_append ?_ ?_ access member
      · exact inside_rowAccesses (by omega) (by unfold historyMax; omega) (Nat.le_refl _)
      · exact inside_rowAccesses (by omega) (by unfold historyMax; omega) (Nat.le_refl _)
    · exact inside_bufAccesses (Nat.le_refl _)
    · exact inside_rowAccesses (by decide) (Int.le_refl _) (Nat.le_refl _)
  · rename_i space
    have stop := strcmpEnd_lt (line.adjust.history.rows line.adjust.history.lastCommandIdx)
      terminated
    have compared : ∀ access ∈ LineAccess.buf line.adjust.lastIndex ::
        rowAccesses line.adjust.history.lastCommandIdx
          (strcmpEnd (line.adjust.history.rows line.adjust.history.lastCommandIdx)
            (Function.update line.adjust.buf line.adjust.lastIndex 0) + 1) ++
          bufAccesses (strcmpEnd (line.adjust.history.rows line.adjust.history.lastCommandIdx)
            (Function.update line.adjust.buf line.adjust.lastIndex 0) + 1), access.Inside :=
      inside_append (List.forall_mem_cons.mpr ⟨closed, inside_rowAccesses nonempty upper stop⟩)
        (inside_bufAccesses stop)
    split
    · exact inside_append (inside_append compared (inside_bufAccesses (Nat.le_refl _)))
        (inside_rowAccesses (by omega) (by omega) (Nat.le_refl _))
    · exact compared

/-- A careful line leaves a text with an end and a sound history, and accesses elements of the
arrays only when the history has a line. -/
theorem InBounds.read (bounds : line.InBounds) {keys : List LineKey}
    (fits : line.Along Fits keys) (careful : line.Along Careful keys) :
    Terminated (line.read keys).1.buf ∧ SoundHistory (line.read keys).1.history ∧
      (0 ≤ line.history.lastCommandIdx → ∀ access ∈ (line.read keys).2, access.Inside) := by
  induction keys generalizing line with
  | nil =>
      exact ⟨bounds.pressEnter_terminated, bounds.pressEnter_history, bounds.pressEnter_inside⟩
  | cons key keys ih =>
      obtain ⟨bounds', inside⟩ := bounds.pressKey fits.1 careful.1
      obtain ⟨terminated, sound, rest⟩ := ih bounds' fits.2 careful.2
      refine ⟨terminated, sound, fun nonempty => inside_append inside (rest ?_)⟩
      rw [line.pressKey_history]
      exact nonempty

/-- A line that accesses elements of the arrays only is careful. -/
theorem InBounds.careful_of_read (bounds : line.InBounds) {keys : List LineKey}
    (fits : line.Along Fits keys) (inside : ∀ access ∈ (line.read keys).2, access.Inside) :
    line.Along Careful keys := by
  induction keys generalizing line with
  | nil => trivial
  | cons key keys ih =>
      have careful := bounds.careful_of_inside fun access member =>
        inside access (List.mem_append_left _ member)
      exact ⟨careful, ih (bounds.pressKey fits.1 careful).1 fits.2 fun access member =>
        inside access (List.mem_append_right _ member)⟩

/-- The line starts inside. -/
theorem start_inBounds {history : CommandHistory} (sound : SoundHistory history)
    (buf : Nat → BitVec 8) : (start history buf).InBounds where
  history := sound
  insertion := (by decide : 0 < bufLen)
  ending := (by decide : 0 < bufLen)
  first := by
    have lower := sound.lower
    change 0 ≤ history.lastCommandIdx + 1
    omega
  behind := Int.le_refl _

end Bounds

/-- The histories that careful lines build, from the cleared array. -/
inductive Built : CommandHistory → Prop where
  | cleared (memory : Int → Nat → BitVec 8)
      (zero : ∀ row, 0 ≤ row → row ≤ historyMax → ∀ column, memory row column = 0) :
      Built ⟨memory, -1⟩
  | line {history : CommandHistory} (built : Built history) (buf : Nat → BitVec 8)
      (keys : List LineKey) (fits : (start history buf).Along Fits keys)
      (careful : (start history buf).Along Careful keys) :
      Built ((start history buf).read keys).1.history

theorem Built.sound {history : CommandHistory} (built : Built history) : SoundHistory history := by
  induction built with
  | cleared memory zero =>
      exact ⟨Int.le_refl _, (by decide : (-1 : Int) ≤ historyMax), fun row first last =>
        ⟨0, by decide, zero row first last 0⟩⟩
  | line built buf keys fits careful ih =>
      exact ((start_inBounds ih buf).read fits careful).2.1

/-- What the accesses and the text of a line are to be. -/
def Safe (history : CommandHistory) (buf : Nat → BitVec 8) (keys : List LineKey) : Prop :=
  (∀ access ∈ ((start history buf).read keys).2, access.Inside) ∧
    Terminated ((start history buf).read keys).1.buf

/-- With no line in the history, the end of a line compares with the row before the first. -/
theorem not_inside_of_empty {line : Readline} (empty : line.history.lastCommandIdx = -1)
    (keys : List LineKey) : ∃ access ∈ (line.read keys).2, ¬ access.Inside := by
  induction keys generalizing line with
  | nil =>
      rw [← line.adjust_history] at empty
      have space : line.adjust.history.lastCommandIdx ≠ historyMax := by
        rw [empty]
        decide
      refine ⟨.history line.adjust.history.lastCommandIdx 0, ?_, fun inside => ?_⟩
      · have first : ∀ columns, LineAccess.history line.adjust.history.lastCommandIdx 0 ∈
            rowAccesses line.adjust.history.lastCommandIdx (columns + 1) :=
          fun columns => List.mem_map.mpr ⟨0, List.mem_range.mpr (Nat.succ_pos _), rfl⟩
        change _ ∈ line.pressEnter.2
        unfold Readline.pressEnter
        dsimp only
        rw [if_neg space]
        split
        · refine List.mem_append_left _ (List.mem_append_left _ (List.mem_append_left _ ?_))
          exact List.mem_cons_of_mem _ (first _)
        · exact List.mem_append_left _ (List.mem_cons_of_mem _ (first _))
      · have negative := inside.1
        omega
  | cons key keys ih =>
      obtain ⟨access, member, outside⟩ := @ih (line.pressKey key.code).1
        ((congrArg _ (line.pressKey_history key.code)).trans empty)
      exact ⟨access, List.mem_append_right _ member, outside⟩

/-- **Reading a line is safe exactly when the history has a line and the keys are careful**, as long
as no character is typed before the end of a full line. -/
theorem safe_iff {history : CommandHistory} (built : Built history) (buf : Nat → BitVec 8)
    {keys : List LineKey} (fits : (start history buf).Along Fits keys) :
    Safe history buf keys ↔
      0 ≤ history.lastCommandIdx ∧ (start history buf).Along Careful keys := by
  have sound := built.sound
  have bounds := start_inBounds sound buf
  constructor
  · intro safe
    refine ⟨?_, bounds.careful_of_read fits safe.1⟩
    by_contra negative
    have lower := sound.lower
    have empty : (start history buf).history.lastCommandIdx = -1 := by
      change history.lastCommandIdx = -1
      omega
    obtain ⟨access, member, outside⟩ := not_inside_of_empty empty keys
    exact outside (safe.1 access member)
  · rintro ⟨nonempty, careful⟩
    obtain ⟨terminated, -, inside⟩ := bounds.read fits careful
    exact ⟨inside nonempty, terminated⟩

/-- The cleared history and an empty buffer. -/
def clearedHistory : CommandHistory := ⟨fun _ _ => 0, -1⟩

theorem built_clearedHistory : Built clearedHistory := .cleared _ fun _ _ _ _ => rfl

/-- The second line of a prompt. -/
theorem safe_iff_second : ∃ history, Built history ∧ history.lastCommandIdx = 0 ∧
    Safe history (fun _ => 0) [.printable 98 (by decide), .left, .delete] := by
  have entered : ((start clearedHistory fun _ => 0).read
      [.printable 97 (by decide)]).1.history.lastCommandIdx = 0 := by decide +kernel
  have built : Built ((start clearedHistory fun _ => 0).read
      [.printable 97 (by decide)]).1.history :=
    .line built_clearedHistory _ _ ⟨fun _ => by decide +kernel, trivial⟩ ⟨trivial, trivial⟩
  refine ⟨_, built, entered, (safe_iff built _ ?_).mpr ⟨Int.le_of_eq entered.symm, ?_⟩⟩
  · exact ⟨fun _ => by decide +kernel, trivial, fun _ => by decide +kernel, trivial⟩
  · exact ⟨trivial, trivial, fun _ => by decide +kernel, trivial⟩

/-- The first line of a prompt compares with the row before the history. -/
theorem not_safe_first : Built clearedHistory ∧ ¬ Safe clearedHistory (fun _ => 0) [] := by
  refine ⟨built_clearedHistory, fun safe => ?_⟩
  have empty : (start clearedHistory fun _ => 0).history.lastCommandIdx = -1 := rfl
  obtain ⟨access, member, outside⟩ := not_inside_of_empty empty []
  exact outside (safe.1 access member)

end Readline

end FosKernel
