import FosKernel.Proc.ProgramSegment

/-!
# The segments of a binary

`PROGRAM_SEGMENT_FIRST` and `PROGRAM_SEGMENT_NEXT` in `user_environment.c` look for the
next program header that is to be loaded. `PROGRAM_SEGMENT_FOREACH` visits each of
them once, in the order of the table.

Offsets count from the start of the binary.
-/

namespace FosKernel

/-- The bytes of an ELF binary. -/
abbrev Binary : Type := Nat → UInt8

/-- `ELF_MAGIC`. -/
def elfMagic : Nat := 0x464C457F

/-- `ELF_PROG_LOAD`. -/
def elfProgLoad : Nat := 1

/-- The fields of `struct Proghdr` that are read. -/
structure Proghdr where
  pType : Nat
  pOffset : Nat
  pVa : Nat
  pFilesz : Nat
  pMemsz : Nat

namespace Binary

variable (binary : Binary)

/-- A little-endian `uint16`. -/
def half (offset : Nat) : Nat := (binary offset).toNat + 2 ^ 8 * (binary (add32 offset 1)).toNat

/-- A little-endian `uint32`. -/
def word (offset : Nat) : Nat := binary.half offset + 2 ^ 16 * binary.half (add32 offset 2)

def eMagic : Nat := binary.word 0

def ePhoff : Nat := binary.word 28

def ePhnum : Nat := binary.half 44

/-- A program header, which has 32 bytes. -/
def proghdr (index : Nat) : Proghdr :=
  let ph := add32 binary.ePhoff (32 * index)
  { pType := binary.word ph
    pOffset := binary.word (add32 ph 4)
    pVa := binary.word (add32 ph 8)
    pFilesz := binary.word (add32 ph 16)
    pMemsz := binary.word (add32 ph 20) }

/-- The segment of a program header. -/
def segment (index : Nat) : ProgramSegment where
  ptrStart offset := binary (add32 (binary.proghdr index).pOffset offset)
  sizeInFile := (binary.proghdr index).pFilesz
  sizeInMemory := (binary.proghdr index).pMemsz
  virtualAddress := (binary.proghdr index).pVa

/-- The loop that both functions skip headers with. It reads the type before it compares the
index. -/
def skipHeaders (segmentId : Nat) : Nat :=
  if (binary.proghdr segmentId).pType ≠ elfProgLoad ∧ segmentId < binary.ePhnum then
    skipHeaders (segmentId + 1)
  else segmentId
termination_by binary.ePhnum - segmentId

/-- The segment that the search finds from a header on, with its `segment_id`. -/
def programSegmentFrom (segmentId : Nat) : Except Stop (Option (Nat × ProgramSegment)) :=
  if binary.eMagic ≠ elfMagic then .error .panic
  else
    let index := binary.skipHeaders segmentId
    .ok (if index < binary.ePhnum then some (index, binary.segment index) else none)

/-- `PROGRAM_SEGMENT_FIRST`. -/
def programSegmentFirst : Except Stop (Option (Nat × ProgramSegment)) :=
    binary.programSegmentFrom 0

/-- `PROGRAM_SEGMENT_NEXT`. -/
def programSegmentNext (segmentId : Nat) : Except Stop (Option (Nat × ProgramSegment)) :=
  binary.programSegmentFrom (segmentId + 1)

variable {σ : Type} (body : σ → ProgramSegment → Except Stop σ)

/-- The rounds of `PROGRAM_SEGMENT_FOREACH`. -/
def foreachRounds : Nat → Option (Nat × ProgramSegment) → σ → Except Stop σ
  | 0, _, _ => .error .hang
  | _ + 1, none, state => .ok state
  | rounds + 1, some (segmentId, seg), state => do
      let state ← body state seg
      let next ← binary.programSegmentNext segmentId
      foreachRounds rounds next state

/-- `PROGRAM_SEGMENT_FOREACH`. -/
def programSegmentForeach (rounds : Nat) (state : σ) : Except Stop σ := do
  let first ← binary.programSegmentFirst
  binary.foreachRounds body rounds first state

/-- The segments that are to be loaded, from a header on. -/
def loadedFrom (start : Nat) : List ProgramSegment :=
  ((List.range' start (binary.ePhnum - start)).filter fun index =>
    (binary.proghdr index).pType = elfProgLoad).map binary.segment

theorem skipHeaders_of_skips {start : Nat}
    (skips : (binary.proghdr start).pType ≠ elfProgLoad ∧ start < binary.ePhnum) :
    binary.skipHeaders start = binary.skipHeaders (start + 1) := by
  rw [skipHeaders, if_pos skips]

theorem skipHeaders_of_stays {start : Nat}
    (stays : ¬ ((binary.proghdr start).pType ≠ elfProgLoad ∧ start < binary.ePhnum)) :
    binary.skipHeaders start = start := by
  rw [skipHeaders, if_neg stays]

/-- The search finds the first segment that is to be loaded. -/
theorem loadedFrom_eq (start : Nat) : binary.loadedFrom start =
    if binary.skipHeaders start < binary.ePhnum then
      binary.segment (binary.skipHeaders start) :: binary.loadedFrom (binary.skipHeaders start + 1)
    else [] := by
  induction start using skipHeaders.induct binary with
  | case1 start skips ih =>
      obtain ⟨other, less⟩ := skips
      have headers : List.range' start (binary.ePhnum - start) =
          start :: List.range' (start + 1) (binary.ePhnum - (start + 1)) := by
        rw [show binary.ePhnum - start = binary.ePhnum - (start + 1) + 1 by omega, List.range'_succ]
      rw [skipHeaders_of_skips binary ⟨other, less⟩, ← ih, loadedFrom, headers,
        List.filter_cons_of_neg (by simpa using other)]
      rfl
  | case2 start stays =>
      rw [skipHeaders_of_stays binary stays]
      by_cases less : start < binary.ePhnum
      · have load : (binary.proghdr start).pType = elfProgLoad := by
          by_contra other
          exact stays ⟨other, less⟩
        have headers : List.range' start (binary.ePhnum - start) =
            start :: List.range' (start + 1) (binary.ePhnum - (start + 1)) := by
          rw [show binary.ePhnum - start = binary.ePhnum - (start + 1) +
            1 by omega, List.range'_succ]
        rw [if_pos less, loadedFrom, headers, List.filter_cons_of_pos (by simpa using load)]
        rfl
      · rw [if_neg less, loadedFrom, show binary.ePhnum - start = 0 by omega]
        rfl

theorem le_skipHeaders (start : Nat) : start ≤ binary.skipHeaders start := by
  induction start using skipHeaders.induct binary with
  | case1 start skips ih =>
      rw [skipHeaders_of_skips binary skips]
      omega
  | case2 start stays => exact Nat.le_of_eq (skipHeaders_of_stays binary stays).symm

/-- The loop runs its body on the segments that are left. -/
theorem foreachRounds_eq (magic : binary.eMagic = elfMagic) (rounds : Nat) :
    ∀ (start : Nat) (state : σ), binary.ePhnum - start < rounds →
      (binary.programSegmentFrom start >>= fun next =>
        binary.foreachRounds body rounds next state) =
        (binary.loadedFrom start).foldlM body state := by
  induction rounds with
  | zero => exact fun _ _ less => absurd less (Nat.not_lt_zero _)
  | succ rounds ih =>
      intro start state enough
      have above := binary.le_skipHeaders start
      rw [programSegmentFrom, if_neg (not_not_intro magic), loadedFrom_eq]
      by_cases less : binary.skipHeaders start < binary.ePhnum
      · simp only [if_pos less, List.foldlM_cons]
        change body state _ >>= (fun state => binary.programSegmentNext _ >>= fun next =>
          binary.foreachRounds body rounds next state) = _
        congr 1
        funext state
        exact ih _ state (by omega)
      · simp only [if_neg less]
        rfl

/-- In enough rounds the loop runs its body on the segments that are to be loaded, each once and in
the order of the table; a file of another kind is refused before. -/
theorem programSegmentForeach_eq (binary : Binary) {σ : Type}
    (body : σ → ProgramSegment → Except Stop σ) (rounds : Nat) (state : σ)
    (enough : binary.ePhnum < rounds) : binary.programSegmentForeach body rounds state =
      if binary.eMagic = elfMagic then
        (((List.range binary.ePhnum).filter fun index =>
          (binary.proghdr index).pType = elfProgLoad).map binary.segment).foldlM body state
      else .error .panic := by
  by_cases magic : binary.eMagic = elfMagic
  · rw [if_pos magic, List.range_eq_range']
    exact binary.foreachRounds_eq body magic rounds 0 state enough
  · rw [if_neg magic, programSegmentForeach, programSegmentFirst, programSegmentFrom, if_pos magic]
    rfl

/-- The start of a binary with two program headers, of which the second one is to be loaded. -/
def twoHeaders : Binary := fun offset =>
  if offset = 0 then 0x7F
  else if offset = 1 then 0x45
  else if offset = 2 then 0x4C
  else if offset = 3 then 0x46
  else if offset = 28 then 52
  else if offset = 44 then 2
  else if offset = 52 then 2
  else if offset = 84 then 1
  else 0

/-- Counting the segments of the two headers. -/
theorem programSegmentForeach_eq_twoHeaders :
    twoHeaders.programSegmentForeach (fun count _ => .ok (count + 1)) 3 0 = .ok 1 := by
  have loads : ((List.range twoHeaders.ePhnum).filter fun index =>
      (twoHeaders.proghdr index).pType = elfProgLoad) = [1] := by decide +kernel
  rw [programSegmentForeach_eq twoHeaders _ 3 0 (by decide +kernel),
    if_pos (by decide +kernel), loads]
  rfl

end Binary

end FosKernel
