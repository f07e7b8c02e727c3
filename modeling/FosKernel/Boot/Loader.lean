import FosKernel.Proc.ProgramHeaders

/-!
# The boot loader

`cmain` in `boot/main.c` loads the kernel from the disk in whole sectors. It reads more
than a segment where that does not start or end at a sector. When the segments come in
increasing order and lie in the file as they lie in memory, each one is whole at the
end.
-/

namespace FosKernel

/-- The sectors of a disk. -/
abbrev Sectors : Type := Nat → Nat → UInt8

/-- `SECTSIZE`. -/
def sectSize : Nat := 512

/-- `ELFHDR`. -/
def elfhdr : Nat := 0x10000

/-- `readsect`. -/
def readsect (disk : Sectors) (memory : Binary) (dst offset : Nat) : Binary := fun address =>
  if dst ≤ address ∧ address < dst + sectSize then disk (offset % 2 ^ 28) (address - dst)
  else memory address

/-- The loop of `readseg`. -/
def readSectors (disk : Sectors) : Nat → Nat → Nat → Nat → Binary → Except Stop Binary
  | 0, _, _, _, _ => .error .hang
  | rounds + 1, va, endVa, offset, memory =>
      if va < endVa then
        readSectors disk rounds (add32 va sectSize) endVa (add32 offset 1)
          (readsect disk memory va offset)
      else .ok memory

/-- `readseg`. -/
def readseg (disk : Sectors) (rounds : Nat) (memory : Binary) (va count offset : Nat) :
    Except Stop Binary :=
  let va := va % 2 ^ 24
  let endVa := add32 va count
  readSectors disk rounds (va - va % sectSize) endVa (offset / sectSize + 1) memory

/-- The loop of `cmain` over the program headers, which it reads from memory. -/
def readHeaders (disk : Sectors) (rounds : Nat) : Nat → Nat → Nat → Binary →
    Except Stop Binary
  | 0, _, _, _ => .error .hang
  | headers + 1, ph, eph, memory =>
      if ph < eph then do
        let header : Binary := fun offset => memory (add32 ph offset)
        let memory ← readseg disk rounds memory (header.word 8) (header.word 20) (header.word 4)
        readHeaders disk rounds headers (add32 ph 32) eph memory
      else .ok memory

/-- `cmain`, up to its jump: the entry point and the memory. It loops forever on another file. -/
def cmain (disk : Sectors) (rounds headers : Nat) (memory : Binary) :
    Except Stop (Nat × Binary) := do
  let memory ← readseg disk rounds memory elfhdr (sectSize * 8) 0
  let elf : Binary := fun offset => memory (add32 elfhdr offset)
  if elf.eMagic ≠ elfMagic then .error .hang
  else do
    let ph := add32 elfhdr elf.ePhoff
    let memory ← readHeaders disk rounds headers ph (add32 ph (32 * elf.ePhnum)) memory
    let elf : Binary := fun offset => memory (add32 elfhdr offset)
    return (elf.word 24 % 2 ^ 24, memory)

/-- The kernel image starts at the second sector. -/
def Sectors.image (disk : Sectors) : Binary := fun offset =>
  disk (offset / sectSize + 1) (offset % sectSize)

namespace Proghdr

variable (header : Proghdr)

/-- The physical address of a segment. -/
def start : Nat := header.pVa % 2 ^ 24

def stop : Nat := header.start + header.pMemsz

/-- The start of the first sector of a segment. -/
def floor : Nat := header.start - header.start % sectSize

/-- The end of the last sector of a segment. -/
def ceiling : Nat := header.floor + (header.stop - header.floor + (sectSize - 1)) /
    sectSize * sectSize

/-- What the memory is after a segment was read. -/
def overlay (disk : Sectors) (memory : Binary) : Binary := fun address =>
  if header.floor ≤ address ∧ address < header.ceiling then
    disk.image (header.pOffset / sectSize * sectSize + (address - header.floor))
  else memory address

end Proghdr

variable {disk : Sectors}

/-- Reading a number of sectors. -/
theorem readSectors_eq (disk : Sectors) (count : Nat) : ∀ (rounds va endVa sector : Nat)
    (memory : Binary), count < rounds → endVa ≤ 2 ^ 32 - sectSize →
      sector + count < 2 ^ 28 →
    (endVa - va + (sectSize - 1)) / sectSize = count →
    readSectors disk rounds va endVa sector memory = .ok fun address =>
      if va ≤ address ∧ address < va + count * sectSize then
        disk (sector + (address - va) / sectSize) ((address - va) % sectSize)
      else memory address := by
  induction count with
  | zero =>
      intro rounds va endVa sector memory enough bound small number
      obtain ⟨rounds, rfl⟩ : ∃ more, rounds = more + 1 := ⟨rounds - 1, by omega⟩
      have done : ¬ va < endVa := by
        unfold sectSize at number
        omega
      rw [readSectors, if_neg done]
      refine congrArg Except.ok (funext fun address => ?_)
      rw [if_neg (by omega)]
  | succ count ih =>
      intro rounds va endVa sector memory enough bound small number
      obtain ⟨rounds, rfl⟩ : ∃ more, rounds = more + 1 := ⟨rounds - 1, by omega⟩
      have more : va < endVa := by
        by_contra done
        unfold sectSize at number
        omega
      have next : add32 va sectSize = va + sectSize := by
        unfold add32 sectSize at *
        omega
      have next' : add32 sector 1 = sector + 1 := by
        unfold add32
        omega
      rw [readSectors, if_pos more, next, next', ih rounds (va + sectSize) endVa (sector + 1) _
        (by omega) bound (by omega) (by unfold sectSize at *; omega)]
      refine congrArg Except.ok (funext fun address => ?_)
      by_cases later : va + sectSize ≤ address
      · have apart : ¬ (va ≤ address ∧ address < va + sectSize) := by omega
        have quotient : sector + 1 + (address - (va + sectSize)) / sectSize =
            sector + (address - va) / sectSize := by
          unfold sectSize at *
          omega
        have remainder : (address - (va + sectSize)) % sectSize = (address - va) % sectSize := by
          unfold sectSize at *
          omega
        simp only [readsect, if_neg apart, quotient, remainder]
        refine if_congr ?_ rfl rfl
        unfold sectSize at *
        omega
      · rw [if_neg (by omega)]
        by_cases first : va ≤ address
        · have inside : va ≤ address ∧ address < va + sectSize := by omega
          have inside' : va ≤ address ∧ address < va + (count + 1) * sectSize := by
            unfold sectSize at *
            omega
          have quotient : (address - va) / sectSize = 0 := by
            unfold sectSize at *
            omega
          have remainder : (address - va) % sectSize = address - va := by
            unfold sectSize at *
            omega
          rw [readsect, if_pos inside, if_pos inside', quotient, remainder, Nat.add_zero,
            Nat.mod_eq_of_lt (by omega)]
        · rw [readsect, if_neg fun inside => first inside.1, if_neg fun inside => first inside.1]

/-- Reading a segment of the image. -/
theorem readseg_eq (disk : Sectors) (header : Proghdr) (memory : Binary) {rounds : Nat}
    (enough : 2 ^ 23 + 1 < rounds) (fits : header.stop ≤ 2 ^ 32 - sectSize)
    (word : header.pOffset < 2 ^ 32) :
    readseg disk rounds memory header.pVa header.pMemsz header.pOffset =
      .ok (header.overlay disk memory) := by
  have endVa : add32 header.start header.pMemsz = header.stop :=
    Nat.mod_eq_of_lt (by unfold Proghdr.stop sectSize at *; omega)
  have below : header.start < 2 ^ 24 := Nat.mod_lt _ (by decide)
  have read := readSectors_eq disk _ rounds header.floor header.stop (header.pOffset / sectSize + 1)
    memory (by unfold sectSize at *; omega) fits (by unfold sectSize at *; omega) rfl
  unfold readseg
  dsimp only
  change readSectors disk rounds header.floor (add32 header.start header.pMemsz) _ memory = _
  rw [endVa, read]
  refine congrArg Except.ok (funext fun address => ?_)
  unfold Proghdr.overlay Sectors.image
  refine if_congr Iff.rfl ?_ rfl
  congr 1
  · unfold sectSize
    omega
  · unfold sectSize
    omega

namespace Binary

variable {first second : Binary} {offset offset' : Nat}

theorem half_congr (small : offset + 2 ≤ 2 ^ 32) (small' : offset' + 2 ≤ 2 ^ 32)
    (same : ∀ index < 2, first (offset + index) = second (offset' + index)) :
    first.half offset = second.half offset' := by
  have next : add32 offset 1 = offset + 1 := Nat.mod_eq_of_lt (by omega)
  have next' : add32 offset' 1 = offset' + 1 := Nat.mod_eq_of_lt (by omega)
  rw [half, half, next, next', same 1 (by decide)]
  exact congrArg (fun byte : UInt8 => byte.toNat + _) (same 0 (by decide))

theorem word_congr (small : offset + 4 ≤ 2 ^ 32) (small' : offset' + 4 ≤ 2 ^ 32)
    (same : ∀ index < 4, first (offset + index) = second (offset' + index)) :
    first.word offset = second.word offset' := by
  have next : add32 offset 2 = offset + 2 := Nat.mod_eq_of_lt (by omega)
  have next' : add32 offset' 2 = offset' + 2 := Nat.mod_eq_of_lt (by omega)
  have low : first.half offset = second.half offset' :=
    half_congr (by omega) (by omega) fun index less => same index (by omega)
  have high : first.half (offset + 2) = second.half (offset' + 2) := by
    refine half_congr (by omega) (by omega) fun index less => ?_
    rw [Nat.add_assoc, Nat.add_assoc]
    exact same (2 + index) (by omega)
  rw [word, word, next, next', low, high]

/-- A kernel that `cmain` can read: its program headers are in the first eight sectors, and no
segment comes where these are read to. -/
structure Bootable (image : Binary) : Prop where
  magic : image.eMagic = elfMagic
  table : image.ePhoff + 32 * image.ePhnum ≤ sectSize * 8
  fits : ∀ index < image.ePhnum, (image.proghdr index).stop ≤ 2 ^ 32 - sectSize
  clear : ∀ index < image.ePhnum, (image.proghdr index).ceiling ≤ elfhdr ∨
    elfhdr + sectSize * 8 ≤ (image.proghdr index).floor

/-- Segments in increasing order that lie in their sectors of the file as in those of the memory.
Two segments share a sector only where they are as far apart in the file as in memory. -/
structure Linked (image : Binary) : Prop where
  aligned : ∀ index < image.ePhnum,
    (image.proghdr index).start % sectSize = (image.proghdr index).pOffset % sectSize
  ordered : ∀ earlier later, earlier < later → later < image.ePhnum →
    (image.proghdr earlier).stop ≤ (image.proghdr later).start
  seamless : ∀ earlier later, earlier < later → later < image.ePhnum →
    (image.proghdr later).floor < (image.proghdr earlier).stop →
      (image.proghdr later).pOffset + (image.proghdr earlier).start =
        (image.proghdr earlier).pOffset + (image.proghdr later).start

/-- The memory after the first segments were read. -/
def segmentsRead (disk : Sectors) (memory : Binary) (count : Nat) : Binary :=
  (List.range count).foldl (fun memory index => (disk.image.proghdr index).overlay disk memory)
    memory

theorem segmentsRead_succ (disk : Sectors) (memory : Binary) (count : Nat) :
    segmentsRead disk memory (count + 1) =
      (disk.image.proghdr count).overlay disk (segmentsRead disk memory count) := by
  rw [segmentsRead, List.range_succ, List.foldl_append]
  rfl

/-- The sectors of no segment are left alone. -/
theorem segmentsRead_of_outside (disk : Sectors) (memory : Binary) {address : Nat} (count : Nat)
    (outside : ∀ index < count, ¬ ((disk.image.proghdr index).floor ≤ address ∧
      address < (disk.image.proghdr index).ceiling)) :
    segmentsRead disk memory count address = memory address := by
  induction count with
  | zero => rfl
  | succ count ih =>
      rw [segmentsRead_succ, Proghdr.overlay, if_neg (outside count (Nat.lt_succ_self _))]
      exact ih fun index less => outside index (Nat.lt_succ_of_lt less)

/-- The segments that were read are whole. -/
theorem Linked.segmentsRead (linked : disk.image.Linked) (memory : Binary) (count : Nat) :
    count ≤ disk.image.ePhnum → ∀ index < count, ∀ byte < (disk.image.proghdr index).pMemsz,
      Binary.segmentsRead disk memory count ((disk.image.proghdr index).start + byte) =
        disk.image ((disk.image.proghdr index).pOffset + byte) := by
  induction count with
  | zero => exact fun _ index less => absurd less (Nat.not_lt_zero index)
  | succ count ih =>
      intro bound index less byte inside
      have aligned := linked.aligned count bound
      rw [segmentsRead_succ, Proghdr.overlay]
      by_cases last : index = count
      · have covered : (disk.image.proghdr count).floor ≤
          (disk.image.proghdr count).start + byte ∧
            (disk.image.proghdr count).start + byte < (disk.image.proghdr count).ceiling := by
          rw [last] at inside
          unfold Proghdr.ceiling Proghdr.stop Proghdr.floor
          unfold sectSize
          omega
        rw [last, if_pos covered]
        congr 1
        unfold Proghdr.floor
        unfold sectSize at *
        omega
      · have earlier : index < count := Nat.lt_of_le_of_ne (Nat.le_of_lt_succ less) last
        have whole := ih (Nat.le_of_succ_le bound) index earlier byte inside
        by_cases covered : (disk.image.proghdr count).floor ≤
          (disk.image.proghdr index).start + byte ∧
            (disk.image.proghdr index).start + byte < (disk.image.proghdr count).ceiling
        · have ordered := linked.ordered index count earlier bound
          have seamless := linked.seamless index count earlier bound (by
            have stop : (disk.image.proghdr index).stop = (disk.image.proghdr index).start +
                (disk.image.proghdr index).pMemsz := rfl
            omega)
          rw [if_pos covered]
          have lower := covered.1
          congr 1
          unfold Proghdr.floor at lower ⊢
          unfold Proghdr.stop at ordered
          unfold sectSize at *
          omega
        · rw [if_neg covered, whole]

theorem word_lt (binary : Binary) (offset : Nat) : binary.word offset < 2 ^ 32 := by
  have byte : ∀ offset, (binary offset).toNat < 2 ^ 8 := fun offset => (binary offset).toNat_lt
  have half : ∀ offset, binary.half offset < 2 ^ 16 := by
    intro offset
    have low := byte offset
    have high := byte (add32 offset 1)
    unfold Binary.half
    omega
  have low := half offset
  have high := half (add32 offset 2)
  unfold word
  omega

end Binary

/-- The memory holds the start of the image where `cmain` reads its headers. -/
def HoldsHeaders (disk : Sectors) (memory : Binary) : Prop :=
  ∀ offset < sectSize * 8, memory (elfhdr + offset) = disk.image offset

/-- A word of the headers. -/
theorem HoldsHeaders.word {memory : Binary} {base field : Nat} (holds : HoldsHeaders disk memory)
    (inside : base + field + 4 ≤ sectSize * 8) :
    Binary.word (fun offset => memory (add32 (elfhdr + base) offset)) field =
      disk.image.word (base + field) := by
  unfold sectSize at inside
  refine Binary.word_congr (by omega) (by omega) fun index less => ?_
  have address : add32 (elfhdr + base) (field + index) = elfhdr + (base + field + index) := by
    unfold add32 elfhdr
    omega
  rw [address]
  exact holds _ (by unfold sectSize; omega)

theorem HoldsHeaders.overlay {memory : Binary} {header : Proghdr} (holds : HoldsHeaders disk memory)
    (clear : header.ceiling ≤ elfhdr ∨ elfhdr + sectSize * 8 ≤ header.floor) :
    HoldsHeaders disk (header.overlay disk memory) := by
  intro offset less
  rw [Proghdr.overlay, if_neg (by omega)]
  exact holds offset less

/-- The loop over the program headers reads the segments one after the other. -/
theorem readHeaders_eq (bootable : disk.image.Bootable) {rounds : Nat}
    (enough : 2 ^ 23 + 1 < rounds)
    (memory : Binary) (left : Nat) : ∀ done headers,
      done + left = disk.image.ePhnum → left < headers →
      HoldsHeaders disk (Binary.segmentsRead disk memory done) →
      readHeaders disk rounds headers (elfhdr + (disk.image.ePhoff + 32 * done))
          (elfhdr + (disk.image.ePhoff + 32 * disk.image.ePhnum))
          (Binary.segmentsRead disk memory done) =
        .ok (Binary.segmentsRead disk memory disk.image.ePhnum) ∧
      HoldsHeaders disk (Binary.segmentsRead disk memory disk.image.ePhnum) := by
  induction left with
  | zero =>
      intro done headers all more holds
      obtain ⟨headers, rfl⟩ : ∃ less, headers = less + 1 := ⟨headers - 1, by omega⟩
      obtain rfl : done = disk.image.ePhnum := all
      rw [readHeaders, if_neg (Nat.lt_irrefl _)]
      exact ⟨rfl, holds⟩
  | succ left ih =>
      intro done headers all more holds
      obtain ⟨headers, rfl⟩ : ∃ less, headers = less + 1 := ⟨headers - 1, by omega⟩
      have less : done < disk.image.ePhnum := by omega
      have table := bootable.table
      unfold sectSize at table
      have base : add32 disk.image.ePhoff (32 * done) = disk.image.ePhoff + 32 * done :=
        Nat.mod_eq_of_lt (by omega)
      have field : ∀ field, field + 4 ≤ 32 → Binary.word (fun offset =>
          Binary.segmentsRead disk memory done
            (add32 (elfhdr + (disk.image.ePhoff + 32 * done)) offset)) field =
          disk.image.word (add32 (add32 disk.image.ePhoff (32 * done)) field) := by
        intro field bound
        rw [holds.word (by unfold sectSize; omega), base]
        exact congrArg _ (Nat.mod_eq_of_lt (by omega)).symm
      have next : add32 (elfhdr + (disk.image.ePhoff + 32 * done)) 32 =
          elfhdr + (disk.image.ePhoff + 32 * (done + 1)) := by
        unfold add32 elfhdr
        omega
      have read := readseg_eq disk (disk.image.proghdr done) (Binary.segmentsRead disk memory done)
        enough (bootable.fits done less) (Binary.word_lt ..)
      rw [readHeaders, if_pos (by omega)]
      dsimp only
      rw [field 8 (by decide), field 20 (by decide), field 4 (by decide), next]
      change (readseg disk rounds _ (disk.image.proghdr done).pVa (disk.image.proghdr done).pMemsz
        (disk.image.proghdr done).pOffset >>= _) = _ ∧ _
      rw [read, ← Binary.segmentsRead_succ]
      refine ih (done + 1) headers (by omega) (by omega) ?_
      rw [Binary.segmentsRead_succ]
      exact holds.overlay (bootable.clear done less)

/-- `cmain` reads the first eight sectors like a segment. -/
def firstSectors : Proghdr := ⟨0, 0, elfhdr, 0, sectSize * 8⟩

/-- When the segments are linked in increasing order, the boot loader returns the entry point with
every segment whole in memory. Besides the sectors of the segments it writes only where it reads the
headers to. -/
theorem cmain_loads (disk : Sectors) (memory : Binary) (rounds headers : Nat)
    (bootable : disk.image.Bootable) (linked : disk.image.Linked) (enough : 2 ^ 23 + 1 < rounds)
    (enough' : disk.image.ePhnum < headers) :
    ∃ after, cmain disk rounds headers memory = .ok (disk.image.word 24 % 2 ^ 24, after) ∧
      (∀ index < disk.image.ePhnum, ∀ byte < (disk.image.proghdr index).pMemsz,
        after ((disk.image.proghdr index).start + byte) =
          disk.image ((disk.image.proghdr index).pOffset + byte)) ∧
      ∀ address, address < elfhdr ∨ elfhdr + sectSize * 8 ≤ address →
        (∀ index < disk.image.ePhnum, ¬ ((disk.image.proghdr index).floor ≤ address ∧
          address < (disk.image.proghdr index).ceiling)) → after address = memory address := by
  have read : readseg disk rounds memory elfhdr (sectSize * 8) 0 =
      .ok (firstSectors.overlay disk memory) :=
    readseg_eq disk firstSectors memory enough (by decide) (by decide)
  have floor : firstSectors.floor = elfhdr := by decide
  have ceiling : firstSectors.ceiling = elfhdr + sectSize * 8 := by decide
  have holds : HoldsHeaders disk (firstSectors.overlay disk memory) := by
    intro offset less
    rw [Proghdr.overlay, floor, ceiling, if_pos (by omega), Nat.add_sub_cancel_left]
    exact congrArg disk.image (Nat.zero_add offset)
  have table := bootable.table
  have word : ∀ {memory : Binary}, HoldsHeaders disk memory → ∀ field, field + 4 ≤ 4096 →
      Binary.word (fun offset => memory (add32 elfhdr offset)) field = disk.image.word field := by
    intro memory holds field bound
    have same : elfhdr + 0 = elfhdr := rfl
    rw [← same, holds.word (by unfold sectSize; omega), Nat.zero_add]
  have phnum : Binary.ePhnum (fun offset =>
    firstSectors.overlay disk memory (add32 elfhdr offset)) =
      disk.image.ePhnum := by
    refine Binary.half_congr (by decide) (by decide) fun index less => ?_
    have address : add32 elfhdr (44 + index) = elfhdr + (44 + index) := by
      unfold add32 elfhdr
      omega
    rw [address]
    exact holds _ (by unfold sectSize; omega)
  have ph : add32 elfhdr disk.image.ePhoff = elfhdr + (disk.image.ePhoff + 32 * 0) := by
    unfold add32 elfhdr sectSize at *
    omega
  have eph : add32 (elfhdr + (disk.image.ePhoff + 32 * 0)) (32 * disk.image.ePhnum) =
      elfhdr + (disk.image.ePhoff + 32 * disk.image.ePhnum) := by
    unfold add32 elfhdr sectSize at *
    omega
  obtain ⟨loaded, holds'⟩ := readHeaders_eq bootable enough (firstSectors.overlay disk memory)
    disk.image.ePhnum 0 headers (Nat.zero_add _) enough' holds
  refine ⟨Binary.segmentsRead disk (firstSectors.overlay disk memory) disk.image.ePhnum, ?_,
    linked.segmentsRead _ _ (Nat.le_refl _), fun address elsewhere outside => ?_⟩
  · have magic : Binary.eMagic (fun offset =>
      firstSectors.overlay disk memory (add32 elfhdr offset)) =
        elfMagic := (word holds 0 (by decide)).trans bootable.magic
    have phoff : Binary.ePhoff (fun offset =>
      firstSectors.overlay disk memory (add32 elfhdr offset)) =
        disk.image.ePhoff := word holds 28 (by decide)
    rw [cmain, read]
    change (if Binary.eMagic (fun offset =>
      firstSectors.overlay disk memory (add32 elfhdr offset)) ≠
      elfMagic then _ else _) = _
    rw [if_neg (not_not_intro magic), phoff, phnum, ph, eph]
    refine bind_eq_ok.mpr ⟨_, loaded, ?_⟩
    exact congrArg (fun entry => Except.ok (entry % 2 ^ 24, _)) (word holds' 24 (by decide))
  · rw [Binary.segmentsRead_of_outside disk _ _ outside, Proghdr.overlay, floor, ceiling,
      if_neg (by omega)]

/-- A disk with a kernel of two segments that share a sector. -/
def kernelDisk : Sectors := fun sector byte =>
  (([127, 69, 76, 70, 0, 0, 0, 0, 0, 0, 0, 0, 0, 0, 0, 0, 2, 0, 3, 0, 1, 0, 0, 0, 12,
    0, 16, 240, 52,
    0, 0, 0, 0, 0, 0, 0, 0, 0, 0, 0, 52, 0, 32, 0, 2, 0, 0, 0, 0, 0, 0, 0, 1, 0, 0, 0, 0, 16, 0, 0,
    0, 0, 16, 240, 0, 0, 16, 240, 188, 2, 0, 0, 188, 2, 0, 0, 5, 0, 0, 0, 0, 16, 0, 0, 1, 0, 0, 0,
    188, 18, 0, 0, 188, 2, 16, 240, 188, 2, 16, 240, 44, 1, 0, 0, 44, 1, 0, 0, 5, 0, 0, 0, 0, 16, 0,
    0] : List UInt8)[(sector - 1) * sectSize + byte]?).getD (UInt8.ofNat (sector + byte))

theorem kernelDisk_bootable : kernelDisk.image.Bootable :=
  ⟨by decide +kernel, by decide +kernel, by decide +kernel, by decide +kernel⟩

theorem kernelDisk_linked : kernelDisk.image.Linked := by
  have two : kernelDisk.image.ePhnum = 2 := by decide +kernel
  have pair : ∀ earlier later, earlier < later → later < kernelDisk.image.ePhnum →
      earlier = 0 ∧ later = 1 := by omega
  refine ⟨by decide +kernel,
    fun earlier later before less => ?_, fun earlier later before less _ => ?_⟩
  · obtain ⟨rfl, rfl⟩ := pair earlier later before less
    decide +kernel
  · obtain ⟨rfl, rfl⟩ := pair earlier later before less
    decide +kernel

theorem cmain_loads_kernelDisk : ∃ after,
    cmain kernelDisk (2 ^ 23 + 2) 3 (fun _ => 0) =
      .ok (kernelDisk.image.word 24 % 2 ^ 24, after) ∧
      (∀ index < kernelDisk.image.ePhnum, ∀ byte < (kernelDisk.image.proghdr index).pMemsz,
        after ((kernelDisk.image.proghdr index).start + byte) =
          kernelDisk.image ((kernelDisk.image.proghdr index).pOffset + byte)) ∧
      ∀ address, address < elfhdr ∨ elfhdr + sectSize * 8 ≤ address →
        (∀ index < kernelDisk.image.ePhnum,
          ¬ ((kernelDisk.image.proghdr index).floor ≤ address ∧
          address < (kernelDisk.image.proghdr index).ceiling)) → after address = 0 :=
  cmain_loads kernelDisk (fun _ => 0) _ _ kernelDisk_bootable kernelDisk_linked (Nat.lt_succ_self _)
    (by decide +kernel)

end FosKernel
