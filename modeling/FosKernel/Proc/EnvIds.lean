import Mathlib.Algebra.Group.Nat.Defs
import FosKernel.Inc.Environment
import FosKernel.Lib.IntrusiveList
import Mathlib.Data.List.Range
import Mathlib.Logic.Relation

/-!
# Environment ids

The array `envs` with the ids, parents and status of its slots, the list of free
slots, and the functions of `user_environment.c` that hand out slots, take them
back and look an id up. The number of slots depends on the size of
`struct Env`, which differs between the builds, so it is a parameter.
-/

namespace FosKernel

/-- The values of `env_status`. -/
inductive EnvStatus where
  | free
  | ready
  | running
  | blocked
  | new
  | exit
  | killed
  | unknown
  deriving DecidableEq, Repr

/-- The fields of `struct Env` that identify an environment. -/
structure EnvSlot where
  envId : BitVec 32
  envParentId : BitVec 32
  envStatus : EnvStatus
  deriving DecidableEq

/-- `envs` and `env_free_list`. -/
structure EnvTable (sizeofEnv : Nat) where
  envs : Nat → EnvSlot
  envFreeList : IntrusiveList Nat

/-- What `envid2env` reports. The lookup dereferences the current environment without a test
when permissions are checked. -/
inductive EnvLookup where
  | found (env : Option Nat)
  | badEnv
  | nullPointer
  deriving DecidableEq, Repr

/-- How often the loops of `nearest_pow2_ceil` and `log2_ceil` run on `x - 1`. -/
def pow2CeilRounds (x : Nat) : Nat := Nat.log2 (x - 1)

/-- `nearest_pow2_ceil`. -/
def nearestPow2Ceil (x : Nat) : Nat := if x ≤ 1 then 1 else 2 * 2 ^ pow2CeilRounds x

/-- `log2_ceil`, which counts one bit more than the exponent of `nearest_pow2_ceil`. -/
def log2Ceil (x : Nat) : Nat := if x ≤ 1 then 1 else 2 + pow2CeilRounds x

/-- `NENV`. -/
def nenv (sizeofEnv : Nat) : Nat := 2 ^ 22 / 4 / sizeofEnv

/-- `NEARPOW2NENV`. -/
def nearPow2Nenv (sizeofEnv : Nat) : Nat := nearestPow2Ceil (nenv sizeofEnv)

/-- `ENVGENSHIFT`. -/
def envGenShift (sizeofEnv : Nat) : Nat := log2Ceil (nenv sizeofEnv)

/-- `ENVX`. -/
def envx (sizeofEnv : Nat) (envid : BitVec 32) : Nat :=
  (envid &&& BitVec.ofNat 32 (nearPow2Nenv sizeofEnv - 1)).toNat

/-- The id that `complete_environment_initialization` derives from the one left in a slot. -/
def nextEnvId (sizeofEnv : Nat) (envId : BitVec 32) (env : Nat) : BitVec 32 :=
  let step := 1#32 <<< envGenShift sizeofEnv
  let generation := (envId + step) &&& ~~~ BitVec.ofNat 32 (nearPow2Nenv sizeofEnv - 1)
  (if generation.sle 0 then step else generation) ||| BitVec.ofNat 32 env

/-- `NEARPOW2NENV` is a power of two below `1 << ENVGENSHIFT` that all slots fit in. -/
theorem nearPow2Nenv_spec (sizeofEnv : Nat) : ∃ exponent,
    nearPow2Nenv sizeofEnv = 2 ^ exponent ∧
    nenv sizeofEnv ≤ 2 ^ exponent ∧ exponent < envGenShift sizeofEnv ∧
      envGenShift sizeofEnv ≤ 21 := by
  have bound : nenv sizeofEnv ≤ 2 ^ 20 := Nat.div_le_self ..
  unfold nearPow2Nenv envGenShift nearestPow2Ceil log2Ceil pow2CeilRounds
  by_cases small : nenv sizeofEnv ≤ 1
  · refine ⟨0, ?_⟩
    rw [if_pos small, if_pos small]
    exact ⟨rfl, small, by decide, by decide⟩
  · refine ⟨Nat.log2 (nenv sizeofEnv - 1) + 1, ?_⟩
    simp only [small, if_false]
    have above : nenv sizeofEnv - 1 < 2 ^ (Nat.log2 (nenv sizeofEnv - 1) + 1) := Nat.lt_log2_self
    have below : Nat.log2 (nenv sizeofEnv - 1) < 20 := (Nat.log2_lt (by omega)).mpr (by omega)
    refine ⟨(Nat.pow_succ' ..).symm, ?_, ?_, ?_⟩ <;> omega

theorem getLsbD_step {shift : Nat} (small : shift ≤ 21) (bit : Nat) :
    (1#32 <<< shift).getLsbD bit = decide (bit = shift) := by
  have power := BitVec.getLsbD_twoPow (w := 32) (i := shift) (j := bit)
  rw [BitVec.twoPow] at power
  grind

theorem getLsbD_mask (exponent bit : Nat) :
    (BitVec.ofNat 32 (2 ^ exponent - 1)).getLsbD bit =
      (decide (bit < 32) && decide (bit < exponent)) := by
  rw [BitVec.getLsbD_ofNat, Nat.testBit_two_pow_sub_one]

/-- The id of the first environment in a slot. -/
def firstEnvId (sizeofEnv env : Nat) : BitVec 32 :=
  1#32 <<< envGenShift sizeofEnv ||| BitVec.ofNat 32 env

/-- A cleared slot starts with the first generation again. -/
theorem nextEnvId_zero (sizeofEnv env : Nat) :
    nextEnvId sizeofEnv 0 env = firstEnvId sizeofEnv env := by
  obtain ⟨exponent, power, -, below, small⟩ := nearPow2Nenv_spec sizeofEnv
  have masked : (1#32 <<< envGenShift sizeofEnv) &&& ~~~ BitVec.ofNat 32 (2 ^ exponent - 1) =
      1#32 <<< envGenShift sizeofEnv := by
    refine BitVec.eq_of_getLsbD_eq fun bit inside => ?_
    rw [BitVec.getLsbD_and, BitVec.getLsbD_not, getLsbD_mask, getLsbD_step small]
    by_cases same : bit = envGenShift sizeofEnv
    · simp only [same, decide_true, Bool.true_and]
      simp; omega
    · simp [same]
  have positive : ∀ shift : Fin 22, (1#32 <<< shift.val).sle 0 = false := by decide
  have sign := positive ⟨envGenShift sizeofEnv, by omega⟩
  unfold nextEnvId firstEnvId
  simp only [power]
  rw [show (0 : BitVec 32) + 1#32 <<< envGenShift sizeofEnv = 1#32 <<< envGenShift sizeofEnv from
    BitVec.zero_add _, masked, sign]
  rfl

/-- `ENVX` recovers the slot from an id of the first generation, which is not 0. -/
theorem envx_firstEnvId {sizeofEnv env : Nat} (inside : env < nenv sizeofEnv) :
    envx sizeofEnv (firstEnvId sizeofEnv env) = env ∧
      firstEnvId sizeofEnv env ≠ 0 := by
  obtain ⟨exponent, power, fits, below, small⟩ := nearPow2Nenv_spec sizeofEnv
  constructor
  · have index : (firstEnvId sizeofEnv env) &&&
        BitVec.ofNat 32 (2 ^ exponent - 1) = BitVec.ofNat 32 env := by
      refine BitVec.eq_of_getLsbD_eq fun bit word => ?_
      rw [firstEnvId, BitVec.getLsbD_and, BitVec.getLsbD_or, getLsbD_mask, getLsbD_step small,
        BitVec.getLsbD_ofNat]
      by_cases low : bit < exponent
      · have different : bit ≠ envGenShift sizeofEnv := by omega
        simp [low, word, different]
      · have bound : env < 2 ^ bit := by
          have := Nat.pow_le_pow_right (by decide : 0 < 2) (Nat.le_of_not_lt low)
          omega
        simp [low, Nat.testBit_lt_two_pow bound]
    unfold envx
    rw [power, index, BitVec.toNat_ofNat]
    have bound : nenv sizeofEnv ≤ 2 ^ 20 := Nat.div_le_self ..
    omega
  · intro zero
    have bit := congrArg (fun word => word.getLsbD (envGenShift sizeofEnv)) zero
    simp only [firstEnvId, BitVec.getLsbD_or, getLsbD_step small, decide_true, Bool.true_or] at bit
    simp at bit

namespace EnvTable

variable {sizeofEnv : Nat}

/-- The table after `env_init`, which inserts the slots in reverse order. -/
def envInit (sizeofEnv : Nat) : EnvTable sizeofEnv where
  envs := fun _ => ⟨0, 0, .free⟩
  envFreeList := (List.range (nenv sizeofEnv)).foldr (fun env list => list.insertHead env)
    ⟨none, none, 0, fun _ => none, fun _ => none⟩

/-- `allocate_environment`: the slot stays on the free list. -/
def allocateEnvironment (table : EnvTable sizeofEnv) : Option (Nat × EnvTable sizeofEnv) :=
  table.envFreeList.first.map fun env =>
    (env, { table with
      envs := Function.update table.envs env { table.envs env with envStatus := .unknown } })

/-- `complete_environment_initialization`. -/
def completeEnvironmentInitialization (table : EnvTable sizeofEnv) (current : Option Nat)
    (env : Nat) : EnvTable sizeofEnv where
  envs := Function.update table.envs env
    { envId := nextEnvId sizeofEnv (table.envs env).envId env
      envParentId := match current with
        | none => 0
        | some parent => (table.envs parent).envId
      envStatus := .new }
  envFreeList := table.envFreeList.remove env

/-- The steps of `env_create` on the table. -/
def createEnvironment (table : EnvTable sizeofEnv) (current : Option Nat) :
    Option (Nat × EnvTable sizeofEnv) :=
  table.allocateEnvironment.map fun allocated =>
    (allocated.1, allocated.2.completeEnvironmentInitialization current allocated.1)

/-- `free_environment`: the whole slot is cleared, its id and links included. -/
def freeEnvironment (table : EnvTable sizeofEnv) (env : Nat) : EnvTable sizeofEnv where
  envs := Function.update table.envs env ⟨0, 0, .free⟩
  envFreeList := (table.envFreeList.clearLinks env).insertHead env

/-- The scheduler gives an environment another status. -/
def setStatus (table : EnvTable sizeofEnv) (env : Nat) (status : EnvStatus) :
    EnvTable sizeofEnv :=
  { table with envs := Function.update table.envs env { table.envs env with envStatus := status } }

/-- `envid2env`. -/
def envid2env (table : EnvTable sizeofEnv) (current : Option Nat) (envid : BitVec 32)
    (checkperm : Bool) : EnvLookup :=
  if envid = 0 then .found current
  else
    let env := envx sizeofEnv envid
    if (table.envs env).envStatus = .free ∨ (table.envs env).envId ≠ envid then .badEnv
    else if checkperm && current != some env then
      match current with
      | none => .nullPointer
      | some parent =>
          if (table.envs env).envParentId ≠ (table.envs parent).envId then .badEnv
          else .found (some env)
    else .found (some env)

end EnvTable

/-- An environment of a run: its slot and the id it was given. -/
abbrev IssuedId := Nat × BitVec 32

/-- The table with the environments created so far, latest first, those that live and those that
were freed. -/
structure EnvHistory (sizeofEnv : Nat) where
  table : EnvTable sizeofEnv
  issued : List IssuedId
  live : List IssuedId
  freed : List IssuedId

namespace EnvHistory

variable {sizeofEnv : Nat}

/-- Nothing was created yet. -/
def boot (sizeofEnv : Nat) : EnvHistory sizeofEnv := ⟨.envInit sizeofEnv, [], [], []⟩

/-- One operation: a creation that completes or that stops after its allocation, a change of
the status by the scheduler, or the release of an environment. -/
inductive Move : EnvHistory sizeofEnv → EnvHistory sizeofEnv → Prop where
  | create {history : EnvHistory sizeofEnv} (current : Option Nat) {env : Nat}
      {table : EnvTable sizeofEnv}
      (created : history.table.createEnvironment current = some (env, table)) :
      Move history ⟨table, (env, (table.envs env).envId) :: history.issued,
        (env, (table.envs env).envId) :: history.live, history.freed⟩
  | abandon {history : EnvHistory sizeofEnv} {env : Nat} {table : EnvTable sizeofEnv}
      (allocated : history.table.allocateEnvironment = some (env, table)) :
      Move history { history with table := table }
  | schedule {history : EnvHistory sizeofEnv} {environment : IssuedId} (status : EnvStatus)
      (member : environment ∈ history.live) (used : status ≠ .free) :
      Move history { history with table := history.table.setStatus environment.1 status }
  | release {history : EnvHistory sizeofEnv} {environment : IssuedId}
      (member : environment ∈ history.live) :
      Move history ⟨history.table.freeEnvironment environment.1, history.issued,
        history.live.erase environment, environment :: history.freed⟩

/-- The histories that a sequence of operations leads to. -/
abbrev Run (history : EnvHistory sizeofEnv) : Prop :=
  Relation.ReflTransGen Move (boot sizeofEnv) history

/-- An environment lives in a slot. -/
def Occupied (history : EnvHistory sizeofEnv) (env : Nat) : Prop :=
  ∃ id, (env, id) ∈ history.live

/-- The ids that were issued for a slot. -/
def issuedFor (history : EnvHistory sizeofEnv) (env : Nat) : List (BitVec 32) :=
  (history.issued.filter (·.1 = env)).map Prod.snd

/-- In every state of a run, the free slots are cleared, every live environment stands in a slot
of its own under its id, and every id is one of the first generation. -/
structure Good (history : EnvHistory sizeofEnv) (slots : List Nat) : Prop where
  represents : history.table.envFreeList.Represents slots
  cleared : ∀ env ∈ slots, env < nenv sizeofEnv ∧ (history.table.envs env).envId = 0
  named : ∀ environment ∈ history.live, environment.1 ∉ slots ∧
    (history.table.envs environment.1).envStatus ≠ .free ∧
      (history.table.envs environment.1).envId = environment.2
  apart : (history.live.map Prod.fst).Nodup
  first : ∀ environment ∈ history.issued,
    environment.1 < nenv sizeofEnv ∧ environment.2 = firstEnvId sizeofEnv environment.1
  live_subset : history.live ⊆ history.issued
  freed_subset : history.freed ⊆ history.issued
  settled : ∀ environment ∈ history.freed,
    environment.1 ∈ slots ∨ history.Occupied environment.1

theorem foldr_insertHead_represents (slots : List Nat) (distinct : slots.Nodup) :
    (slots.foldr (fun env (list : IntrusiveList Nat) => list.insertHead env)
      ⟨none, none, 0, fun _ => none, fun _ => none⟩).Represents slots := by
  induction slots with
  | nil => exact ⟨List.nodup_nil, rfl, rfl, rfl, trivial⟩
  | cons env slots ih =>
      obtain ⟨fresh, distinct⟩ := List.nodup_cons.mp distinct
      exact (ih distinct).insertHead fresh

theorem boot_good : (boot sizeofEnv).Good (List.range (nenv sizeofEnv)) where
  represents := foldr_insertHead_represents _ List.nodup_range
  cleared _ member := ⟨List.mem_range.mp member, rfl⟩
  named _ member := nomatch member
  apart := List.nodup_nil
  first _ member := nomatch member
  live_subset := List.nil_subset _
  freed_subset := List.nil_subset _
  settled _ member := nomatch member

/-- Slot 0 is the first free one at boot. -/
theorem exists_boot_good (some_slot : 0 < nenv sizeofEnv) :
    ∃ rest, (boot sizeofEnv).Good (0 :: rest) := by
  obtain ⟨count, slots⟩ := Nat.exists_eq_add_of_lt some_slot
  have good : (boot sizeofEnv).Good _ := boot_good
  rw [slots, List.range_succ_eq_map] at good
  exact ⟨_, good⟩

/-- A slot is allocated from the head of the free list and changes in its status only. -/
theorem allocateEnvironment_spec {table after : EnvTable sizeofEnv} {slots : List Nat} {env : Nat}
    (represents : table.envFreeList.Represents slots)
    (allocated : table.allocateEnvironment = some (env, after)) :
    ∃ rest, slots = env :: rest ∧ after.envFreeList = table.envFreeList ∧
      (∀ other, (after.envs other).envId = (table.envs other).envId) ∧
      ∀ other, other ≠ env → after.envs other = table.envs other := by
  unfold EnvTable.allocateEnvironment at allocated
  rw [represents.first_eq] at allocated
  cases slots with
  | nil => simp at allocated
  | cons head rest =>
      simp only [List.head?_cons, Option.map_some, Option.some.injEq, Prod.mk.injEq] at allocated
      obtain ⟨rfl, rfl⟩ := allocated
      refine ⟨rest, rfl, rfl, fun other => ?_, fun other different =>
        Function.update_of_ne different ..⟩
      by_cases same : other = head
      · subst same
        simp only [Function.update_self]
      · simp only [Function.update_of_ne same]

/-- A creation takes the head of the free list. Since that slot is cleared, the id is the first
one of the slot. -/
theorem createEnvironment_spec {history : EnvHistory sizeofEnv} {slots : List Nat}
    (good : history.Good slots) {current : Option Nat} {env : Nat} {table : EnvTable sizeofEnv}
    (created : history.table.createEnvironment current = some (env, table)) :
    ∃ rest, slots = env :: rest ∧ table.envFreeList.Represents rest ∧
      (table.envs env).envId = firstEnvId sizeofEnv env ∧ (table.envs env).envStatus = .new ∧
      ∀ other, other ≠ env → table.envs other = history.table.envs other := by
  unfold EnvTable.createEnvironment at created
  obtain ⟨⟨slot, middle⟩, allocated, completed⟩ := Option.map_eq_some_iff.mp created
  obtain ⟨rfl, rfl⟩ := Prod.mk.inj completed
  obtain ⟨rest, rfl, list, ids, others⟩ := allocateEnvironment_spec good.represents allocated
  have empty : (middle.envs slot).envId = 0 :=
    (ids slot).trans (good.cleared slot (List.mem_cons_self ..)).2
  refine ⟨rest, rfl, ?_, ?_, ?_, fun other different => ?_⟩
  · change (middle.envFreeList.remove slot).Represents rest
    rw [list]
    exact @IntrusiveList.Represents.remove _ _ _ _ [] _ good.represents
  · simp only [EnvTable.completeEnvironmentInitialization, Function.update_self, empty,
      nextEnvId_zero]
  · simp only [EnvTable.completeEnvironmentInitialization, Function.update_self]
  · exact (Function.update_of_ne different ..).trans (others other different)

/-- A creation keeps the table in order. -/
theorem Good.create {history : EnvHistory sizeofEnv} {slots : List Nat}
    (good : history.Good slots) {current : Option Nat} {env : Nat} {table : EnvTable sizeofEnv}
    (created : history.table.createEnvironment current = some (env, table)) :
    ∃ rest, Good ⟨table, (env, (table.envs env).envId) :: history.issued,
      (env, (table.envs env).envId) :: history.live, history.freed⟩ rest := by
  obtain ⟨rest, rfl, represents, id, status, others⟩ := createEnvironment_spec good created
  have fresh : env ∉ rest := (List.nodup_cons.mp good.represents.nodup).1
  have elsewhere : ∀ environment ∈ history.live, environment.1 ≠ env :=
      fun environment member same =>
    (good.named environment member).1 (same ▸ List.mem_cons_self ..)
  refine ⟨rest, represents, ?_, ?_, ?_, ?_, ?_, ?_, ?_⟩
  · intro other member
    have different : other ≠ env := fun same => fresh (same ▸ member)
    rw [others other different]
    exact good.cleared other (List.mem_cons_of_mem _ member)
  · intro environment member
    rcases List.mem_cons.mp member with rfl | older
    · exact ⟨fresh, by rw [status]; decide, rfl⟩
    · rw [others environment.1 (elsewhere environment older)]
      obtain ⟨outside, used⟩ := good.named environment older
      exact ⟨fun inside => outside (List.mem_cons_of_mem _ inside), used⟩
  · refine List.nodup_cons.mpr ⟨fun member => ?_, good.apart⟩
    obtain ⟨environment, older, same⟩ := List.mem_map.mp member
    exact elsewhere environment older same
  · intro environment member
    rcases List.mem_cons.mp member with rfl | older
    · exact ⟨(good.cleared env (List.mem_cons_self ..)).1, id⟩
    · exact good.first environment older
  · exact List.cons_subset_cons _ good.live_subset
  · exact fun environment member => List.mem_cons_of_mem _ (good.freed_subset member)
  · intro environment member
    rcases good.settled environment member with free | ⟨other, lives⟩
    · rcases List.mem_cons.mp free with same | older
      · exact .inr ⟨(table.envs env).envId, same ▸ List.mem_cons_self ..⟩
      · exact .inl older
    · exact .inr ⟨other, List.mem_cons_of_mem _ lives⟩

/-- Changing the status of a slot, but not to that of a free one, keeps the table in order. -/
theorem Good.setTable {history : EnvHistory sizeofEnv} {slots : List Nat}
    (good : history.Good slots) {table : EnvTable sizeofEnv}
    (list : table.envFreeList = history.table.envFreeList)
    (ids : ∀ env, (table.envs env).envId = (history.table.envs env).envId)
    (used : ∀ env, env ∉ slots → (history.table.envs env).envStatus ≠ .free →
      (table.envs env).envStatus ≠ .free) :
    ({ history with table := table } : EnvHistory sizeofEnv).Good slots where
  represents := list ▸ good.represents
  cleared env member := ⟨(good.cleared env member).1,
    (ids env).trans (good.cleared env member).2⟩
  named environment member := by
    obtain ⟨outside, status, id⟩ := good.named environment member
    exact ⟨outside, used _ outside status, (ids _).trans id⟩
  apart := good.apart
  first := good.first
  live_subset := good.live_subset
  freed_subset := good.freed_subset
  settled := good.settled

/-- A freed slot returns to the free list with its id cleared. -/
theorem Good.release {history : EnvHistory sizeofEnv} {slots : List Nat}
    (good : history.Good slots) {environment : IssuedId} (member : environment ∈ history.live) :
    Good ⟨history.table.freeEnvironment environment.1, history.issued,
      history.live.erase environment, environment :: history.freed⟩ (environment.1 :: slots) := by
  obtain ⟨outside, -, -⟩ := good.named environment member
  have distinct : history.live.Nodup := good.apart.of_map _
  have elsewhere : ∀ other ∈ history.live.erase environment, other.1 ≠ environment.1 := by
    intro other remaining same
    obtain ⟨different, lives⟩ := distinct.mem_erase_iff.mp remaining
    exact different (List.inj_on_of_nodup_map good.apart lives member same)
  constructor
  · exact (good.represents.clearLinks outside).insertHead outside
  · intro env inside
    by_cases same : env = environment.1
    · subst same
      simp only [EnvTable.freeEnvironment, Function.update_self, and_true]
      exact (good.first environment (good.live_subset member)).1
    · simp only [EnvTable.freeEnvironment, Function.update_of_ne same]
      exact good.cleared env ((List.mem_cons.mp inside).resolve_left same)
  · intro other remaining
    have different := elsewhere other remaining
    simp only [EnvTable.freeEnvironment, Function.update_of_ne different]
    obtain ⟨free, used⟩ := good.named other (List.mem_of_mem_erase remaining)
    exact ⟨fun inside => free ((List.mem_cons.mp inside).resolve_left different), used⟩
  · exact good.apart.sublist (List.erase_sublist.map _)
  · exact good.first
  · exact fun other remaining => good.live_subset (List.mem_of_mem_erase remaining)
  · exact List.cons_subset.mpr ⟨good.live_subset member, good.freed_subset⟩
  · intro other freed
    by_cases same : other.1 = environment.1
    · exact .inl (same ▸ List.mem_cons_self ..)
    · have older : other ∈ history.freed :=
        (List.mem_cons.mp freed).resolve_left fun equal => same (congrArg Prod.fst equal)
      rcases good.settled other older with free | ⟨id, lives⟩
      · exact .inl (List.mem_cons_of_mem _ free)
      · refine .inr ⟨id, distinct.mem_erase_iff.mpr ⟨fun equal => same ?_, lives⟩⟩
        exact (congrArg Prod.fst equal :)

/-- Every operation keeps the table in order. -/
theorem Good.move {history after : EnvHistory sizeofEnv} {slots : List Nat}
    (good : history.Good slots) (step : Move history after) : ∃ slots', after.Good slots' := by
  cases step with
  | create current created => exact good.create created
  | abandon allocated =>
      obtain ⟨rest, rfl, list, ids, others⟩ :=
        allocateEnvironment_spec good.represents allocated
      refine ⟨_, good.setTable list ids fun env outside used => ?_⟩
      rwa [others env fun same => outside (same ▸ List.mem_cons_self ..)]
  | @schedule environment status member used =>
      refine ⟨slots, good.setTable rfl (fun env => ?_) fun env outside before => ?_⟩
      · by_cases same : env = environment.1
        · subst same
          simp only [EnvTable.setStatus, Function.update_self]
        · simp only [EnvTable.setStatus, Function.update_of_ne same]
      · by_cases same : env = environment.1
        · subst same
          simpa only [EnvTable.setStatus, Function.update_self] using used
        · simpa only [EnvTable.setStatus, Function.update_of_ne same] using before
  | release member => exact ⟨_, good.release member⟩

theorem good_of_run {history : EnvHistory sizeofEnv} (run : history.Run) :
    ∃ slots, history.Good slots := by
  induction run with
  | refl => exact ⟨_, boot_good⟩
  | tail _ step ih =>
      obtain ⟨slots, good⟩ := ih
      exact good.move step

/-- A live environment is found under its id. -/
theorem Good.lookup_live {history : EnvHistory sizeofEnv} {slots : List Nat}
    (good : history.Good slots) {environment : IssuedId} (lives : environment ∈ history.live) :
    history.table.envid2env none environment.2 false = .found (some environment.1) := by
  obtain ⟨inside, first⟩ := good.first environment (good.live_subset lives)
  obtain ⟨index, nonzero⟩ := envx_firstEnvId inside
  rw [← first] at index nonzero
  obtain ⟨-, used, named⟩ := good.named environment lives
  simp only [EnvTable.envid2env, nonzero, if_false, index, used, named, ne_eq, not_true_eq_false,
    or_self, Bool.false_and, Bool.false_eq_true]

/-- The id of an environment that was freed is rejected exactly while its slot is free. -/
theorem Good.rejects_iff {history : EnvHistory sizeofEnv} {slots : List Nat}
    (good : history.Good slots) {environment : IssuedId} (freed : environment ∈ history.freed) :
    (∀ current checkperm,
      history.table.envid2env current environment.2 checkperm = .badEnv) ↔
        ¬ history.Occupied environment.1 := by
  obtain ⟨inside, first⟩ := good.first environment (good.freed_subset freed)
  obtain ⟨index, nonzero⟩ := envx_firstEnvId inside
  rw [← first] at index nonzero
  constructor
  · intro rejected ⟨id, lives⟩
    have same : id = environment.2 :=
      (good.first _ (good.live_subset lives)).2.trans first.symm
    have found := good.lookup_live lives
    rw [same, rejected none false] at found
    nomatch found
  · intro vacant current checkperm
    have free := (good.settled environment freed).resolve_right vacant
    have stale : (history.table.envs environment.1).envId ≠ environment.2 := by
      rw [(good.cleared _ free).2]
      exact Ne.symm nonzero
    simp only [EnvTable.envid2env, nonzero, index, stale, if_false, or_true, if_true, ne_eq,
      not_false_eq_true]

/-- The ids issued for one slot are all the same. -/
theorem Good.issuedFor_eq {history : EnvHistory sizeofEnv} {slots : List Nat}
    (good : history.Good slots) (env : Nat) :
    history.issuedFor env =
      List.replicate (history.issuedFor env).length (firstEnvId sizeofEnv env) := by
  refine List.eq_replicate_of_mem fun id member => ?_
  obtain ⟨environment, issued, rfl⟩ := List.mem_map.mp member
  obtain ⟨recorded, slot⟩ := List.mem_filter.mp issued
  rw [(good.first environment recorded).2, of_decide_eq_true slot]

/-- **A freed slot starts again with the same id.** In every state of every run, the id of an
environment that has been freed is rejected by every lookup exactly when no later environment
lives in its slot, and the ids issued for a slot are distinct exactly when the slot has been
given out once at most. -/
theorem staleIds_of_run {history : EnvHistory sizeofEnv} (run : history.Run) :
    (∀ environment ∈ history.freed,
      (∀ current checkperm,
        history.table.envid2env current environment.2 checkperm = .badEnv) ↔
          ¬ history.Occupied environment.1) ∧
      ∀ env, (history.issuedFor env).Nodup ↔ (history.issuedFor env).length ≤ 1 := by
  obtain ⟨slots, good⟩ := good_of_run run
  refine ⟨fun environment freed => good.rejects_iff freed, fun env => ?_⟩
  rw [good.issuedFor_eq env, List.nodup_replicate, List.length_replicate]

/-- While a slot is free, a creation succeeds in the first free one. -/
theorem Good.exists_create {history : EnvHistory sizeofEnv} {env : Nat} {rest : List Nat}
    (good : history.Good (env :: rest)) :
    ∃ table, history.table.createEnvironment none = some (env, table) := by
  unfold EnvTable.createEnvironment EnvTable.allocateEnvironment
  rw [good.represents.first_eq]
  exact ⟨_, rfl⟩

/-- An environment is created, freed, and its slot given to another one. -/
theorem exists_reused {rest : List Nat} (free : (boot sizeofEnv).Good (0 :: rest)) :
    ∃ history : EnvHistory sizeofEnv, history.Run ∧
      (0, firstEnvId sizeofEnv 0) ∈ history.freed ∧
        (0, firstEnvId sizeofEnv 0) ∈ history.live ∧
        history.issuedFor 0 = [firstEnvId sizeofEnv 0, firstEnvId sizeofEnv 0] := by
  obtain ⟨first, created⟩ := free.exists_create
  obtain ⟨_, split, -, id, -⟩ := createEnvironment_spec free created
  obtain ⟨_, good⟩ := free.create created
  have released := good.release (List.mem_cons_self ..)
  obtain ⟨second, recreated⟩ := released.exists_create
  obtain ⟨_, -, -, again, -⟩ := createEnvironment_spec released recreated
  refine ⟨_, .tail (.tail (.tail .refl (.create none created))
    (.release (List.mem_cons_self ..))) (.create none recreated), ?_, ?_, ?_⟩
  · rw [id]
    exact List.mem_cons_self ..
  · rw [← again]
    exact List.mem_cons_self ..
  · simp [issuedFor, boot, id, again]

/-- With `struct Env` as large as in the build with the kernel heap, the id of a freed
environment leads to the next one in its slot, which was given the same id. -/
theorem staleId_resolves : ∃ history : EnvHistory 1480, history.Run ∧
    ∃ environment ∈ history.freed,
      history.table.envid2env none environment.2 false = .found (some environment.1) ∧
        ¬ (history.issuedFor environment.1).Nodup := by
  obtain ⟨rest, free⟩ := exists_boot_good (show 0 < nenv 1480 by decide)
  obtain ⟨history, run, freed, lives, issued⟩ := exists_reused free
  obtain ⟨_, good⟩ := good_of_run run
  refine ⟨history, run, _, freed, good.lookup_live lives, ?_⟩
  rw [issued]
  simp

/-- The theorem after one environment has been created and freed. -/
theorem staleIds_of_run_once : ∃ history : EnvHistory 1480, history.Run ∧
    (0, firstEnvId 1480 0) ∈ history.freed ∧
      ∀ current checkperm,
        history.table.envid2env current (firstEnvId 1480 0) checkperm = .badEnv := by
  obtain ⟨rest, free⟩ := exists_boot_good (show 0 < nenv 1480 by decide)
  obtain ⟨first, created⟩ := free.exists_create
  obtain ⟨_, -, -, id, -⟩ := createEnvironment_spec free created
  have run : EnvHistory.Run _ := .tail (.tail .refl (.create none created))
    (.release (List.mem_cons_self ..))
  rw [id] at run
  refine ⟨_, run, List.mem_cons_self .., ?_⟩
  refine ((staleIds_of_run run).1 _ (List.mem_cons_self ..)).mpr ?_
  rintro ⟨other, lives⟩
  simp [boot] at lives

end EnvHistory

end FosKernel
