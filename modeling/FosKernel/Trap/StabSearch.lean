import Mathlib.Order.Bounds.Basic
import Mathlib.Order.Interval.Set.Defs
import FosKernel.Inc.Layout

/-!
# The search in the stabs table

`stab_binsearch` of `kdebug.c`: a binary search over entries of mixed types that probes the
nearest entry of the searched type on the left. After an exact match it searches on for the
next address, but the address is a pointer to words, so `addr++` moves it by four bytes.

Positions are the nonnegative `int`s of a table small enough that `l + r` does not overflow.
-/

namespace FosKernel

/-- `struct Stab`, with the fields the search reads. -/
structure Stab where
  nType : Nat
  nValue : Nat

/-- The variables of `stab_binsearch`. -/
structure StabSearch where
  l : Int
  r : Int
  regionLeft : Int
  regionRight : Int
  anyMatches : Bool
  addr : Nat

/-- `while (m >= l && stabs[m].n_type != type) m--`. -/
def skipLeft (stabs : Int → Stab) (type : Nat) (l m : Int) : Int :=
  if l ≤ m ∧ (stabs m).nType ≠ type then skipLeft stabs type l (m - 1) else m
termination_by (m + 1 - l).toNat
decreasing_by omega

/-- What the skipping loop leaves behind it, and where it stops. -/
theorem skipLeft_spec (stabs : Int → Stab) (type : Nat) (l m : Int) :
    skipLeft stabs type l m ≤ m ∧ (l ≤ m + 1 → l ≤ skipLeft stabs type l m + 1) ∧
      (l ≤ skipLeft stabs type l m → (stabs (skipLeft stabs type l m)).nType = type) ∧
      ∀ i, skipLeft stabs type l m < i → i ≤ m → (stabs i).nType ≠ type := by
  induction m using skipLeft.induct stabs type l with
  | case1 m skipped ih =>
      rw [skipLeft, if_pos skipped]
      obtain ⟨below, reach, typed, others⟩ := ih
      refine ⟨by omega, fun _ => reach (by omega), typed, fun i above le => ?_⟩
      by_cases same : i = m
      · exact same ▸ skipped.2
      · exact others i above (by omega)
  | case2 m stop =>
      rw [skipLeft, if_neg stop]
      refine ⟨Int.le_refl _, fun start => start, fun start => ?_, fun i above le => by omega⟩
      by_contra other
      exact stop ⟨start, other⟩

namespace StabSearch

variable {stabs : Int → Stab} {type : Nat}

/-- A round of the search. -/
def round (stabs : Int → Stab) (type : Nat) (search : StabSearch) : StabSearch :=
  let trueM := (search.l + search.r) / 2
  let m := skipLeft stabs type search.l trueM
  if m < search.l then { search with l := trueM + 1 }
  else if (stabs m).nValue < search.addr then
    { search with
      regionLeft := m
      l := trueM + 1
      anyMatches := true }
  else if search.addr < (stabs m).nValue then
    { search with
      regionRight := m - 1
      r := m - 1
      anyMatches := true }
  else
    { search with
      regionLeft := m
      l := m
      addr := add32 search.addr 4
      anyMatches := true }

/-- Twice the length of the interval, and one more before an exact match at its left end. -/
def remaining (stabs : Int → Stab) (search : StabSearch) : Nat :=
  2 * (search.r + 1 - search.l).toNat + if (stabs search.l).nValue = search.addr then 1 else 0

/-- What a round finds and does: no entry of the type left of the middle, or the nearest one, whose
address is compared. -/
inductive Probes (stabs : Int → Stab) (type : Nat) (search : StabSearch) :
    StabSearch → Prop where
  | missed {trueM : Int} (lower : search.l ≤ trueM) (upper : trueM ≤ search.r)
      (others : ∀ i, search.l ≤ i → i ≤ trueM → (stabs i).nType ≠ type) :
      Probes stabs type search { search with l := trueM + 1 }
  | less {trueM m : Int} (upper : trueM ≤ search.r) (lower : search.l ≤ m) (below : m ≤ trueM)
      (typed : (stabs m).nType = type)
      (others : ∀ i, m < i → i ≤ trueM → (stabs i).nType ≠ type)
      (before : (stabs m).nValue < search.addr) :
      Probes stabs type search
        { search with
          regionLeft := m
          l := trueM + 1
          anyMatches := true }
  | greater {m : Int} (lower : search.l ≤ m) (upper : m ≤ search.r)
      (typed : (stabs m).nType = type) (after : search.addr < (stabs m).nValue) :
      Probes stabs type search
        { search with
          regionRight := m - 1
          r := m - 1
          anyMatches := true }
  | same {m : Int} (lower : search.l ≤ m) (upper : m ≤ search.r)
    (typed : (stabs m).nType = type)
      (equal : (stabs m).nValue = search.addr) :
      Probes stabs type search
        { search with
          regionLeft := m
          l := m
          addr := add32 search.addr 4
          anyMatches := true }

theorem probes_round {search : StabSearch} (inside : search.l ≤ search.r) :
    Probes stabs type search (search.round stabs type) := by
  obtain ⟨below, reach, typed, others⟩ :=
    skipLeft_spec stabs type search.l ((search.l + search.r) / 2)
  have lower : search.l ≤ (search.l + search.r) / 2 := by omega
  have upper : (search.l + search.r) / 2 ≤ search.r := by omega
  unfold round
  dsimp only
  by_cases missed : skipLeft stabs type search.l ((search.l + search.r) / 2) < search.l
  · rw [if_pos missed]
    exact .missed lower upper fun i start => others i (by omega)
  rw [if_neg missed]
  have found := typed (by omega)
  by_cases less : (stabs (skipLeft stabs type search.l ((search.l + search.r) / 2))).nValue <
      search.addr
  · rw [if_pos less]
    exact .less upper (by omega) below found others less
  rw [if_neg less]
  by_cases greater : search.addr <
      (stabs (skipLeft stabs type search.l ((search.l + search.r) / 2))).nValue
  · rw [if_pos greater]
    exact .greater (by omega) (by omega) found greater
  · rw [if_neg greater]
    exact .same (by omega) (by omega) found (by omega)

/-- Every round comes closer to the end: an exact match at the left end is not met twice. -/
theorem Probes.remaining_lt {search next : StabSearch} (probes : Probes stabs type search next) :
    next.remaining stabs < search.remaining stabs := by
  unfold remaining
  cases probes with
  | missed lower upper others =>
      dsimp only
      split <;> split <;> omega
  | less upper lower below typed others before =>
      dsimp only
      split <;> split <;> omega
  | greater lower upper typed after =>
      dsimp only
      split <;> omega
  | @same m lower upper typed equal =>
      have moved : (stabs m).nValue ≠ add32 search.addr 4 := by
        unfold add32
        omega
      dsimp only
      rw [if_neg moved]
      by_cases left : m = search.l
      · subst left
        rw [if_pos equal]
        omega
      · split <;> omega

/-- The loop of `stab_binsearch`. -/
def loop (stabs : Int → Stab) (type : Nat) (search : StabSearch) : StabSearch :=
  if search.l ≤ search.r then loop stabs type (search.round stabs type) else search
termination_by search.remaining stabs
decreasing_by exact (probes_round ‹_›).remaining_lt

/-- What every round keeps holds when the loop ends. -/
theorem loop_inv {motive : StabSearch → Prop}
    (step : ∀ search next, motive search → Probes stabs type search next → motive next)
    (search : StabSearch) (start : motive search) :
    motive (search.loop stabs type) ∧
      (search.loop stabs type).r < (search.loop stabs type).l := by
  induction search using loop.induct stabs type with
  | case1 search inside ih =>
      rw [loop, if_pos inside]
      exact ih (step search _ start (probes_round inside))
  | case2 search outside =>
      rw [loop, if_neg outside]
      exact ⟨start, Int.not_le.mp outside⟩

end StabSearch

/-- `stab_binsearch`: the region that it leaves. -/
def stabBinsearch (stabs : Int → Stab) (regionLeft regionRight : Int) (type addr : Nat) :
    Int × Int :=
  let search : StabSearch := ⟨regionLeft, regionRight, regionLeft, regionRight, false, addr⟩
  let search := search.loop stabs type
  if search.anyMatches then
    -- the last loop stops at `*region_left` whatever its type is
    (skipLeft stabs type (search.regionLeft + 1) search.regionRight, search.regionRight)
  else (search.regionLeft, search.regionLeft - 1)

/-- The entries of a type in a region. -/
def regionEntries (stabs : Int → Stab) (type : Nat) (left right : Int) : Set Int :=
  {i | left ≤ i ∧ i ≤ right ∧ (stabs i).nType = type}

/-- The entries of the type have non-decreasing addresses. -/
def Ascending (stabs : Int → Stab) (type : Nat) (left right : Int) : Prop :=
  ∀ i ∈ regionEntries stabs type left right,
    ∀ j ∈ regionEntries stabs type left right, i ≤ j →
    (stabs i).nValue ≤ (stabs j).nValue

/-- No entry of the type follows one at the address within the four bytes that `addr++` skips. -/
def Apart (stabs : Int → Stab) (type : Nat) (left right : Int) (addr : Nat) : Prop :=
  (∃ i ∈ regionEntries stabs type left right, (stabs i).nValue = addr) →
    addr + 4 < 2 ^ 32 ∧ ∀ i ∈ regionEntries stabs type left right,
      (stabs i).nValue ≤ addr ∨ addr + 4 < (stabs i).nValue

/-- What the search leaves: the last entry at or below the address, and the position before the
next entry. -/
structure Brackets (stabs : Int → Stab) (type : Nat) (left right : Int) (addr : Nat)
    (result : Int × Int) : Prop where
  found : (∃ i ∈ regionEntries stabs type left right, (stabs i).nValue ≤ addr) →
    IsGreatest {i ∈ regionEntries stabs type left right | (stabs i).nValue ≤ addr} result.1 ∧
      (∀ i ∈ regionEntries stabs type left right, result.1 < i → result.2 < i) ∧
      (result.2 = right ∨ result.2 + 1 ∈ regionEntries stabs type left right)
  crossed : result.2 < result.1 →
    ¬ ∃ i ∈ regionEntries stabs type left right, (stabs i).nValue ≤ addr

/-- In every round, the entries left of the interval are at or below the address and those right of
it above; the region follows the interval. -/
structure Narrows (stabs : Int → Stab) (type : Nat) (left right : Int) (addr : Nat)
    (search : StabSearch) : Prop where
  start : left ≤ search.l
  stop : search.r ≤ right
  below : ∀ i ∈ regionEntries stabs type left right, i < search.l → (stabs i).nValue ≤ addr
  above : ∀ i ∈ regionEntries stabs type left right, search.r < i → addr < (stabs i).nValue
  edge : search.regionRight = search.r
  next : search.r = right ∨ search.r + 1 ∈ regionEntries stabs type left right
  last : (∀ i ∈ regionEntries stabs type left right, search.l ≤ i) ∨
    search.regionLeft ∈ regionEntries stabs type left right ∧
      (stabs search.regionLeft).nValue ≤ addr ∧
        ∀ i ∈ regionEntries stabs type left right, i < search.l → i ≤ search.regionLeft
  unmatched : search.anyMatches = false →
    ∀ i ∈ regionEntries stabs type left right, search.l ≤ i ∧ i ≤ search.r
  moved : search.addr = addr ∨ search.addr = addr + 4 ∧
    ∀ i ∈ regionEntries stabs type left right,
      (stabs i).nValue ≤ addr ∨ addr + 4 < (stabs i).nValue

section Region

variable {stabs : Int → Stab} {type addr : Nat} {left right : Int} {search next : StabSearch}

/-- The variables at the start of the search. -/
theorem narrows_start : Narrows stabs type left right addr
    ⟨left, right, left, right, false, addr⟩ where
  start := Int.le_refl _
  stop := Int.le_refl _
  below _ member before := absurd before (Int.not_lt.mpr member.1)
  above _ member after := absurd after (Int.not_lt.mpr member.2.1)
  edge := rfl
  next := .inl rfl
  last := .inl fun _ member => member.1
  unmatched _ _ member := ⟨member.1, member.2.1⟩
  moved := .inl rfl

/-- A round narrows the interval when the entries are far enough apart. -/
theorem Narrows.round (narrows : Narrows stabs type left right addr search)
    (ascending : Ascending stabs type left right) (apart : Apart stabs type left right addr)
    (probes : StabSearch.Probes stabs type search next) :
    Narrows stabs type left right addr next := by
  have start := narrows.start
  have stop := narrows.stop
  cases probes with
  | @missed trueM lower upper others =>
      have settled : ∀ i ∈ regionEntries stabs type left right,
          i < trueM + 1 → i < search.l := by
        intro i member before
        by_contra reached
        exact others i (by omega) (by omega) member.2.2
      refine ⟨by dsimp only; omega, stop, fun i member before =>
        narrows.below i member (settled i member before), narrows.above, narrows.edge,
        narrows.next, ?_, fun unmatched i member => ?_, narrows.moved⟩
      · rcases narrows.last with none_ | ⟨member, le, last⟩
        · refine .inl fun i member => ?_
          by_contra before
          have reached := settled i member (Int.not_le.mp before)
          exact absurd reached (Int.not_lt.mpr (none_ i member))
        · exact .inr ⟨member, le, fun i inside before =>
            last i inside (settled i inside before)⟩
      · obtain ⟨reached, within⟩ := narrows.unmatched unmatched i member
        refine ⟨?_, within⟩
        by_contra before
        exact absurd (settled i member (Int.not_le.mp before)) (Int.not_lt.mpr reached)
  | @less trueM m upper lower below typed others before =>
      have member : m ∈ regionEntries stabs type left right := ⟨by omega, by omega, typed⟩
      have low : (stabs m).nValue ≤ addr := by
        rcases narrows.moved with same | ⟨moved, free⟩
        · omega
        · rcases free m member with le | far <;> omega
      have settled : ∀ i ∈ regionEntries stabs type left right, i < trueM + 1 → i ≤ m := by
        intro i inside left_
        by_contra reached
        exact others i (by omega) (by omega) inside.2.2
      refine ⟨by dsimp only; omega, stop, fun i inside left_ =>
        Nat.le_trans (ascending i inside m member (settled i inside left_)) low, narrows.above,
        narrows.edge, narrows.next, .inr ⟨member, low, settled⟩,
          (fun unmatched => by cases unmatched),
        narrows.moved⟩
  | @greater m lower upper typed after =>
      have member : m ∈ regionEntries stabs type left right := ⟨by omega, by omega, typed⟩
      have high : addr < (stabs m).nValue := by
        rcases narrows.moved with same | ⟨moved, free⟩ <;> omega
      refine ⟨start, by dsimp only; omega, narrows.below, fun i inside right_ => ?_, rfl, .inr ?_,
        narrows.last, (fun unmatched => by cases unmatched), narrows.moved⟩
      · exact Nat.lt_of_lt_of_le high
          (ascending m member i inside (by dsimp only at right_; omega))
      · dsimp only
        rwa [Int.sub_add_cancel]
  | @same m lower upper typed equal =>
      have member : m ∈ regionEntries stabs type left right := ⟨by omega, by omega, typed⟩
      have exact_ : search.addr = addr := by
        rcases narrows.moved with same | ⟨moved, free⟩
        · exact same
        · rcases free m member with le | far <;> omega
      have matched : (stabs m).nValue = addr := equal.trans exact_
      obtain ⟨room, free⟩ := apart ⟨m, member, matched⟩
      refine ⟨by dsimp only; omega, stop, fun i inside left_ => ?_, narrows.above, narrows.edge,
        narrows.next, .inr ⟨member, Nat.le_of_eq matched, fun i _ left_ => Int.le_of_lt left_⟩,
        (fun unmatched => by cases unmatched), .inr ⟨?_, free⟩⟩
      · rw [← matched]
        exact ascending i inside m member (Int.le_of_lt left_)
      · dsimp only
        rw [exact_, add32, Nat.mod_eq_of_lt room]

/-- When the interval is empty, the region brackets the address. -/
theorem Narrows.brackets (narrows : Narrows stabs type left right addr search)
    (stopped : search.r < search.l) :
    Brackets stabs type left right addr
      (if search.anyMatches then
        (skipLeft stabs type (search.regionLeft + 1) search.regionRight, search.regionRight)
      else (search.regionLeft, search.regionLeft - 1)) := by
  cases matched : search.anyMatches with
  | false =>
      have empty : ¬ ∃ i ∈ regionEntries stabs type left right, (stabs i).nValue ≤ addr := by
        rintro ⟨i, member, -⟩
        obtain ⟨reached, within⟩ := narrows.unmatched matched i member
        omega
      exact ⟨fun some_ => absurd some_ empty, fun _ => empty⟩
  | true =>
      rw [if_pos rfl, narrows.edge]
      by_cases some_ : ∃ i ∈ regionEntries stabs type left right, (stabs i).nValue ≤ addr
      · obtain ⟨i, member, low⟩ := some_
        have within : ∀ j ∈ regionEntries stabs type left right, (stabs j).nValue ≤ addr →
            j ≤ search.r := by
          intro j inside le
          by_contra after
          have high := narrows.above j inside (Int.not_le.mp after)
          omega
        rcases narrows.last with none_ | ⟨last, le, greatest⟩
        · have reached := none_ i member
          have stays := within i member low
          omega
        have stays := within _ last le
        obtain ⟨below, reach, typed, others⟩ :=
          skipLeft_spec stabs type (search.regionLeft + 1) search.r
        have found : skipLeft stabs type (search.regionLeft + 1) search.r = search.regionLeft := by
          refine Int.le_antisymm (Int.not_lt.mp fun beyond => ?_) (by omega)
          have inside : skipLeft stabs type (search.regionLeft + 1) search.r ∈
              regionEntries stabs type left right :=
            ⟨by have := last.1; omega, by have := narrows.stop; omega, typed (by omega)⟩
          have settled := greatest _ inside (by omega)
          omega
        rw [found]
        refine ⟨fun _ => ⟨⟨⟨last, le⟩, fun j lower => ?_⟩, fun j inside after =>
          ?_, narrows.next⟩,
          fun crossed => absurd stays (Int.not_le.mpr crossed)⟩
        · have before := within j lower.1 lower.2
          exact greatest j lower.1 (by omega)
        · by_contra before
          have settled := greatest j inside (by omega)
          exact absurd after (Int.not_lt.mpr settled)
      · exact ⟨fun found => absurd found some_, fun _ => some_⟩

/-- The search brackets the address when the entries are far enough apart. -/
theorem stabBinsearch_brackets (ascending : Ascending stabs type left right)
    (apart : Apart stabs type left right addr) :
    Brackets stabs type left right addr (stabBinsearch stabs left right type addr) := by
  obtain ⟨narrows, stopped⟩ := StabSearch.loop_inv
    (motive := Narrows stabs type left right addr)
    (fun _ _ narrows probes => narrows.round ascending apart probes) _ narrows_start
  exact narrows.brackets stopped

theorem Ascending.mono {left' right' : Int} (ascending : Ascending stabs type left right)
    (lower : left ≤ left') (upper : right' ≤ right) : Ascending stabs type left' right' := by
  intro i inside j inside' le
  exact ascending i ⟨by have := inside.1; omega, by have := inside.2.1; omega, inside.2.2⟩ j
    ⟨by have := inside'.1; omega, by have := inside'.2.1; omega, inside'.2.2⟩ le

/-- The first round finds an exact match at the left end when nothing else of the type comes before
the right end. -/
theorem round_left (before : left ≤ right) (typed : (stabs left).nType = type)
    (others : ∀ i, left < i → i < right → (stabs i).nType ≠ type)
    (equal : (stabs left).nValue = addr) :
    StabSearch.round stabs type ⟨left, right, left, right, false, addr⟩ =
      ⟨left, right, left, right, true, add32 addr 4⟩ := by
  obtain ⟨below, reach, typed', others'⟩ :=
    skipLeft_spec stabs type left ((left + right) / 2)
  have found : skipLeft stabs type left ((left + right) / 2) = left := by
    have reached := reach (by omega)
    by_contra different
    by_cases beyond : left < skipLeft stabs type left ((left + right) / 2)
    · exact others _ beyond (by omega) (typed' (by omega))
    · exact others' left (by omega) (by omega) typed
  unfold StabSearch.round
  dsimp only
  rw [found, if_neg (Int.lt_irrefl _), equal, if_neg (Nat.lt_irrefl _), if_neg (Nat.lt_irrefl _)]

/-- An entry at the address and the next one within four bytes: their region is searched for the
address four bytes on. -/
theorem not_brackets_close (ascending : Ascending stabs type left right) (before : left < right)
    (typed : (stabs left).nType = type) (typed' : (stabs right).nType = type)
    (others : ∀ i, left < i → i < right → (stabs i).nType ≠ type)
    (equal : (stabs left).nValue = addr) (above : addr < (stabs right).nValue)
    (close : (stabs right).nValue ≤ addr + 4) (room : addr + 8 < 2 ^ 32) :
    ¬ Brackets stabs type left right addr (stabBinsearch stabs left right type addr) := by
  have moved : add32 addr 4 = addr + 4 := Nat.mod_eq_of_lt (by omega)
  have first := round_left (Int.le_of_lt before) typed others equal
  rw [moved] at first
  have member : left ∈ regionEntries stabs type left right := ⟨Int.le_refl _, by omega, typed⟩
  have member' : right ∈ regionEntries stabs type left right :=
    ⟨by omega, Int.le_refl _, typed'⟩
  have low : ∀ i ∈ regionEntries stabs type left right, (stabs i).nValue ≤ addr + 4 :=
    fun i inside => Nat.le_trans (ascending i inside right member' inside.2.1) close
  have narrows : Narrows stabs type left right (addr + 4)
      ⟨left, right, left, right, true, addr + 4⟩ :=
    ⟨Int.le_refl _, Int.le_refl _, fun i inside _ => low i inside,
      fun i inside after => absurd after (Int.not_lt.mpr inside.2.1), rfl, .inl rfl,
      .inr ⟨member, low left member, fun i _ left_ => Int.le_of_lt left_⟩,
      (fun unmatched => by cases unmatched), .inl rfl⟩
  have apart : Apart stabs type left right (addr + 4) :=
    fun _ => ⟨by omega, fun i inside => .inl (low i inside)⟩
  have brackets : Brackets stabs type left right (addr + 4)
      (stabBinsearch stabs left right type addr) := by
    obtain ⟨narrows', stopped⟩ := StabSearch.loop_inv
      (motive := Narrows stabs type left right (addr + 4))
      (fun _ _ narrows probes => narrows.round ascending apart probes) _ narrows
    unfold stabBinsearch
    dsimp only
    rw [StabSearch.loop, if_pos (Int.le_of_lt before), first]
    exact narrows'.brackets stopped
  intro exact_
  have last := (brackets.found ⟨right, member', close⟩).1.2 ⟨member', close⟩
  have greatest := (exact_.found ⟨left, member, Nat.le_of_eq equal⟩).1.1
  have same := Int.le_antisymm greatest.1.2.1 last
  rw [same] at greatest
  exact absurd greatest.2 (Nat.not_le.mpr above)

/-- At the top of the address space `addr++` wraps, and the search ends left of the match. -/
theorem not_brackets_wrap (typed : (stabs left).nType = type)
    (equal : (stabs left).nValue = addr) (word : addr < 2 ^ 32) (wraps : 2 ^ 32 ≤ addr + 4) :
    ¬ Brackets stabs type left left addr (stabBinsearch stabs left left type addr) := by
  have moved : add32 addr 4 < addr := by
    unfold add32
    omega
  have first := round_left (Int.le_refl left) typed (fun i after before => by omega) equal
  have found : skipLeft stabs type left ((left + left) / 2) = left := by
    have middle : (left + left) / 2 = left := by omega
    rw [middle, skipLeft, if_neg fun skipped => skipped.2 typed]
  have second : StabSearch.round stabs type ⟨left, left, left, left, true, add32 addr 4⟩ =
      ⟨left, left - 1, left, left - 1, true, add32 addr 4⟩ := by
    unfold StabSearch.round
    dsimp only
    rw [found, if_neg (Int.lt_irrefl _), equal, if_neg (Nat.lt_asymm moved), if_pos moved]
  have result : stabBinsearch stabs left left type addr = (left - 1, left - 1) := by
    unfold stabBinsearch
    dsimp only
    rw [StabSearch.loop, if_pos (Int.le_refl _), first, StabSearch.loop, if_pos (Int.le_refl _),
      second, StabSearch.loop, if_neg (show ¬ left ≤ left - 1 by omega)]
    dsimp only
    rw [if_pos rfl, skipLeft, if_neg fun skipped => absurd skipped.1 (by omega)]
  rw [result]
  intro brackets
  have greatest := (brackets.found ⟨left, ⟨Int.le_refl _, Int.le_refl _, typed⟩,
    Nat.le_of_eq equal⟩).1.1
  have inside := greatest.1.1
  dsimp only at inside
  omega

/-- An entry and a later one of larger address have two neighbours between them: the last entry at
or below the address, and the next one. -/
theorem exists_neighbours {first later : Int} (before : first < later)
    (typed : (stabs first).nType = type) (typed' : (stabs later).nType = type)
    (low : (stabs first).nValue ≤ addr) (high : addr < (stabs later).nValue) :
    ∃ p n, first ≤ p ∧ p < n ∧ n ≤ later ∧ (stabs p).nType = type ∧
      (stabs n).nType = type ∧
      (stabs p).nValue ≤ addr ∧ addr < (stabs n).nValue ∧
        ∀ i, p < i → i < n → (stabs i).nType ≠ type := by
  induction distance : (later - first).toNat using Nat.strong_induction_on generalizing later with
  | h distance ih =>
      obtain ⟨below, reach, found, others⟩ := skipLeft_spec stabs type first (later - 1)
      generalize skipLeft stabs type first (later - 1) = m at below reach found others
      have reached := reach (by omega)
      have inside : first ≤ m := by
        by_contra outside
        exact others first (by omega) (by omega) typed
      by_cases near : (stabs m).nValue ≤ addr
      · exact ⟨m, later, inside, by omega, Int.le_refl _, found inside, typed', near, high,
          fun i after before => others i after (by omega)⟩
      · have different : first ≠ m := by
          rintro rfl
          exact near low
        obtain ⟨p, n, lower, apart, upper, rest⟩ := ih (m - first).toNat (by omega)
          (by omega) (found inside) (Nat.not_le.mp near) rfl
        exact ⟨p, n, lower, apart, by omega, rest⟩

/-- **The search brackets an address in every region exactly when no entry follows one at the
address within four bytes.** The last two words of the address space, from where `addr++` wraps to
0, are left out where they could make up for it. -/
theorem stabBinsearch_iff {count : Int} (ascending : Ascending stabs type 0 (count - 1))
    (word : addr < 2 ^ 32) :
    (Apart stabs type 0 (count - 1) addr → ∀ left right, 0 ≤ left → right < count →
      Brackets stabs type left right addr (stabBinsearch stabs left right type addr)) ∧
    (addr + 8 < 2 ^ 32 ∨ 2 ^ 32 ≤ addr + 4 → (∀ left right, 0 ≤ left → right < count →
      Brackets stabs type left right addr (stabBinsearch stabs left right type addr)) →
        Apart stabs type 0 (count - 1) addr) := by
  constructor
  · intro apart left right lower upper
    have inside : ∀ i ∈ regionEntries stabs type left right,
        i ∈ regionEntries stabs type 0 (count - 1) := fun i member =>
      ⟨by have := member.1; omega, by have := member.2.1; omega, member.2.2⟩
    refine stabBinsearch_brackets (ascending.mono lower (by omega)) ?_
    rintro ⟨i, member, equal⟩
    obtain ⟨room, free⟩ := apart ⟨i, inside i member, equal⟩
    exact ⟨room, fun j member' => free j (inside j member')⟩
  · rintro top brackets ⟨first, member, equal⟩
    by_cases wraps : 2 ^ 32 ≤ addr + 4
    · have within := member.2.1
      exact absurd (brackets first first member.1 (by omega))
        (not_brackets_wrap member.2.2 equal word wraps)
    refine ⟨by omega, fun later member' => ?_⟩
    by_contra close
    rw [not_or, Nat.not_le, Nat.not_lt] at close
    have before : first < later := by
      by_contra after
      have le := ascending later member' first member (Int.not_lt.mp after)
      omega
    obtain ⟨p, n, lower, apart, upper, typed, typed', low, high, others⟩ :=
      exists_neighbours before member.2.2 member'.2.2 (Nat.le_of_eq equal) close.1
    have start := member.1
    have stop := member'.2.1
    have inside : p ∈ regionEntries stabs type 0 (count - 1) := ⟨by omega, by omega, typed⟩
    have inside' : n ∈ regionEntries stabs type 0 (count - 1) := ⟨by omega, by omega, typed'⟩
    have matched : (stabs p).nValue = addr :=
      Nat.le_antisymm low (equal ▸ ascending first member p inside lower)
    have near : (stabs n).nValue ≤ addr + 4 :=
      Nat.le_trans (ascending n inside' later member' upper) close.2
    exact not_brackets_close (ascending.mono inside.1 inside'.2.1) apart typed typed' others matched
      high near (by omega) (brackets p n inside.1 (by omega))

/-- Two functions 16 bytes apart, with an entry of another type between them. -/
def sparseStabs (i : Int) : Stab :=
  ⟨if i = 1 then 0x44 else 0x24, if i ≤ 0 then 0xF0100000 else 0xF0100010⟩

theorem sparseStabs_ascending : Ascending sparseStabs 0x24 0 2 := by
  intro i _ j _ le
  unfold sparseStabs
  dsimp only
  split <;> split <;> omega

/-- The search for the first function among two. -/
theorem stabBinsearch_iff_sparse :
    Apart sparseStabs 0x24 0 2 0xF0100000 ∧
      Brackets sparseStabs 0x24 0 2 0xF0100000 (stabBinsearch sparseStabs 0 2 0x24 0xF0100000) := by
  have apart : Apart sparseStabs 0x24 0 2 0xF0100000 := by
    refine fun _ => ⟨by decide, fun i _ => ?_⟩
    unfold sparseStabs
    dsimp only
    split
    · exact .inl (by decide)
    · exact .inr (by decide)
  exact ⟨apart, (@stabBinsearch_iff _ _ _ 3 sparseStabs_ascending (by decide)).1 apart 0 2
    (by decide) (by decide)⟩

/-- Two functions four bytes apart. -/
def closeStabs (i : Int) : Stab := ⟨0x24, if i ≤ 0 then 0xF0100000 else 0xF0100004⟩

theorem closeStabs_ascending : Ascending closeStabs 0x24 0 1 := by
  intro i _ j _ le
  unfold closeStabs
  dsimp only
  split <;> split <;> omega

/-- The search for the first of the two misses it. -/
theorem not_brackets_closeStabs : Ascending closeStabs 0x24 0 1 ∧
    ¬ Brackets closeStabs 0x24 0 1 0xF0100000 (stabBinsearch closeStabs 0 1 0x24 0xF0100000) :=
  ⟨closeStabs_ascending, not_brackets_close closeStabs_ascending (by decide) rfl rfl
    (fun i _ _ => by omega) (by decide) (by decide) (by decide) (by decide)⟩

end Region

end FosKernel
