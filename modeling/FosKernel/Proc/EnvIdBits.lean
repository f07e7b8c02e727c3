import Mathlib.Data.Nat.Log
import Mathlib.Order.Bounds.Basic
import FosKernel.Inc.Layout
import FosKernel.Proc.EnvIds

/-!
# The bits of an environment id

The shift loops of `utilities.c` from which the layout of environment ids is computed, and
the index that `envid2env` takes out of an id. `log2_ceil` counts one bit more than the
exponent of `nearest_pow2_ceil`, and the mask of `ENVX` reaches past the slots where their
number is not a power of two.
-/

namespace FosKernel

namespace Utilities

/-- `while (x >>= 1)`. -/
def whileShift {α : Type} (body : α → α) (x : Nat) (value : α) : α :=
  if x / 2 = 0 then value else whileShift body (x / 2) (body value)
termination_by x
decreasing_by omega

/-- `nearest_pow2_ceil`. -/
def nearestPow2Ceil (x : Nat) : Nat :=
  if x ≤ 1 then 1 else whileShift (fun power => power * 2 % 2 ^ 32) (x - 1) 2

/-- `log2_ceil`. -/
def log2Ceil (x : Nat) : Nat :=
  if x ≤ 1 then 1 else whileShift (fun bitsCnt => bitsCnt + 1) (x - 1) 2

/-- The loop runs once for every bit of `x` but the first. -/
theorem whileShift_eq {α : Type} (body : α → α) (x : Nat) (value : α) :
    whileShift body x value = body^[Nat.log2 x] value := by
  induction x using Nat.strong_induction_on generalizing value with
  | h x ih =>
      rw [whileShift, Nat.log2_def]
      by_cases small : x / 2 = 0
      · have stop : ¬ 2 ≤ x := by omega
        rw [if_pos small, if_neg stop]
        rfl
      · have again : 2 ≤ x := by omega
        rw [if_neg small, if_pos again, ih (x / 2) (by omega), Function.iterate_succ_apply]

/-- Doubling a word stays exact up to the highest bit. -/
theorem double_iterate {rounds : Nat} (small : rounds ≤ 30) :
    (fun power => power * 2 % 2 ^ 32)^[rounds] 2 = 2 * 2 ^ rounds := by
  induction rounds with
  | zero => rfl
  | succ rounds ih =>
      have fits : 2 ^ rounds ≤ 2 ^ 29 := Nat.pow_le_pow_right (by decide) (by omega)
      rw [Function.iterate_succ_apply', ih (by omega), Nat.pow_succ]
      omega

theorem nearestPow2Ceil_eq {x : Nat} (upper : x ≤ 2 ^ 31) :
    nearestPow2Ceil x = FosKernel.nearestPow2Ceil x := by
  unfold nearestPow2Ceil FosKernel.nearestPow2Ceil pow2CeilRounds
  by_cases small : x ≤ 1
  · rw [if_pos small, if_pos small]
  · have rounds : Nat.log2 (x - 1) < 31 := (Nat.log2_lt (by omega)).mpr (by omega)
    rw [if_neg small, if_neg small, whileShift_eq, double_iterate (by omega)]

theorem log2Ceil_eq (x : Nat) : log2Ceil x = FosKernel.log2Ceil x := by
  unfold log2Ceil FosKernel.log2Ceil pow2CeilRounds
  have count : ∀ rounds, (fun bitsCnt => bitsCnt + 1)^[rounds] 2 = 2 + rounds := by
    intro rounds
    induction rounds with
    | zero => rfl
    | succ rounds ih => rw [Function.iterate_succ_apply', ih, Nat.add_assoc]
  by_cases small : x ≤ 1
  · rw [if_pos small, if_pos small]
  · rw [if_neg small, if_neg small, whileShift_eq, count]

end Utilities

/-- The rounds of the loops and one more are the logarithm rounded up. -/
theorem pow2CeilRounds_succ {x : Nat} (large : 2 ≤ x) :
    pow2CeilRounds x + 1 = Nat.clog 2 x := by
  unfold pow2CeilRounds
  refine Nat.le_antisymm ?_ ?_
  · refine (Nat.lt_clog_iff_pow_lt (by decide)).mpr ?_
    have below := Nat.log2_self_le (n := x - 1) (by omega)
    omega
  · refine (Nat.clog_le_iff_le_pow (by decide)).mpr ?_
    have above := Nat.lt_log2_self (n := x - 1)
    omega

theorem nearestPow2Ceil_eq_clog (x : Nat) : nearestPow2Ceil x = 2 ^ Nat.clog 2 x := by
  unfold nearestPow2Ceil
  by_cases small : x ≤ 1
  · rw [if_pos small, Nat.clog_of_right_le_one small]
    rfl
  · rw [if_neg small, ← pow2CeilRounds_succ (by omega), Nat.pow_succ']

theorem log2Ceil_eq_clog (x : Nat) : log2Ceil x = Nat.clog 2 x + 1 := by
  unfold log2Ceil
  by_cases small : x ≤ 1
  · rw [if_pos small, Nat.clog_of_right_le_one small]
  · rw [if_neg small, ← pow2CeilRounds_succ (by omega)]
    omega

/-- What the layout of environment ids expects of the two loops: the least exponent, the least
power of two, and that they belong together. -/
structure CeilsAgree (x : Nat) : Prop where
  exponent : IsLeast {k | x ≤ 2 ^ k} (Utilities.log2Ceil x)
  power : IsLeast {p | x ≤ p ∧ ∃ k, p = 2 ^ k} (Utilities.nearestPow2Ceil x)
  together : 1 <<< Utilities.log2Ceil x = Utilities.nearestPow2Ceil x

/-- The logarithm rounded up is the least exponent of a power that reaches the number. -/
theorem isLeast_clog (x : Nat) : IsLeast {k | x ≤ 2 ^ k} (Nat.clog 2 x) :=
  ⟨Nat.le_pow_clog (by decide) x, fun _ reaches => Nat.clog_le_of_le_pow reaches⟩

theorem isLeast_nearestPow2Ceil {x : Nat} (upper : x ≤ 2 ^ 31) :
    IsLeast {p | x ≤ p ∧ ∃ k, p = 2 ^ k} (Utilities.nearestPow2Ceil x) := by
  rw [Utilities.nearestPow2Ceil_eq upper, nearestPow2Ceil_eq_clog]
  refine ⟨⟨Nat.le_pow_clog (by decide) x, _, rfl⟩, ?_⟩
  rintro _ ⟨reaches, k, rfl⟩
  exact Nat.pow_le_pow_right (by decide) (Nat.clog_le_of_le_pow reaches)

/-- The exponents differ by one for every number. -/
theorem not_isLeast_log2Ceil (x : Nat) : ¬ IsLeast {k | x ≤ 2 ^ k} (Utilities.log2Ceil x) := by
  intro least
  have same := least.unique (isLeast_clog x)
  rw [Utilities.log2Ceil_eq, log2Ceil_eq_clog] at same
  omega

/-- `nearest_pow2_ceil` is right and `log2_ceil` one too large, for every number. -/
theorem ceils_differ {x : Nat} (upper : x ≤ 2 ^ 31) :
    IsLeast {p | x ≤ p ∧ ∃ k, p = 2 ^ k} (Utilities.nearestPow2Ceil x) ∧
      Utilities.nearestPow2Ceil x = 2 ^ Nat.clog 2 x ∧
      Utilities.log2Ceil x = Nat.clog 2 x + 1 ∧ ¬ CeilsAgree x := by
  refine ⟨isLeast_nearestPow2Ceil upper, ?_, ?_, fun agree =>
    not_isLeast_log2Ceil x agree.exponent⟩
  · rw [Utilities.nearestPow2Ceil_eq upper, nearestPow2Ceil_eq_clog]
  · rw [Utilities.log2Ceil_eq, log2Ceil_eq_clog]

/-- At the top of the range. -/
theorem ceils_differ_top : IsLeast {p | 2 ^ 31 ≤ p ∧ ∃ k, p = 2 ^ k}
      (Utilities.nearestPow2Ceil (2 ^ 31)) ∧
    Utilities.nearestPow2Ceil (2 ^ 31) = 2 ^ Nat.clog 2 (2 ^ 31) ∧
    Utilities.log2Ceil (2 ^ 31) = Nat.clog 2 (2 ^ 31) + 1 ∧ ¬ CeilsAgree (2 ^ 31) :=
  ceils_differ (by decide)

/-- 2 has an exact power, but `log2_ceil` returns 2. -/
theorem not_ceilsAgree_two : Utilities.log2Ceil 2 = 2 ∧ 2 ≤ 2 ^ 1 ∧ ¬ CeilsAgree 2 := by
  refine ⟨?_, by decide, fun agree => not_isLeast_log2Ceil 2 agree.exponent⟩
  rw [Utilities.log2Ceil_eq]
  decide

/-- `sizeof(struct Env)`: the fields before the page working set, the working set of the build,
the table working set, and the fields after it. -/
def sizeofEnv (useKheap : Bool) : Nat :=
  136 + (if useKheap then 44 else 5000 * sizeofWorkingSetElement + 20) +
    (50 * sizeofWorkingSetElement + 4) + 96

namespace EnvTable

variable {sizeofEnv : Nat}

/-- The entries of `envs` that `envid2env` reads, in order. -/
def envid2envReads (table : EnvTable sizeofEnv) (current : Option Nat) (envid : BitVec 32)
    (checkperm : Bool) : List Nat :=
  if envid = 0 then []
  else
    let env := envx sizeofEnv envid
    if (table.envs env).envStatus = .free ∨ (table.envs env).envId ≠ envid then [env]
    else if checkperm && current != some env then
      match current with
      | none => [env]
      | some parent => [env, env, parent]
    else [env]

/-- What a lookup promises: it reads entries of the array only, and reports the environment of the
id, the current one for 0, or an error. -/
def LooksUp (table : EnvTable sizeofEnv) (current : Nat) (envid : BitVec 32)
    (checkperm : Bool) : Prop :=
  (∀ env ∈ table.envid2envReads (some current) envid checkperm, env < nenv sizeofEnv) ∧
    (table.envid2env (some current) envid checkperm = .badEnv ∨
      ∃ env, table.envid2env (some current) envid checkperm = .found (some env) ∧
        (envid = 0 ∧ env = current ∨ envid ≠ 0 ∧ (table.envs env).envId = envid))

/-- The first entry that a lookup reads is the one of the index. -/
theorem envx_mem_reads (table : EnvTable sizeofEnv) (current : Option Nat) {envid : BitVec 32}
    (nonzero : envid ≠ 0) (checkperm : Bool) :
    envx sizeofEnv envid ∈ table.envid2envReads current envid checkperm := by
  unfold envid2envReads
  rw [if_neg nonzero]
  dsimp only
  split
  · exact List.mem_cons_self ..
  · split
    · split <;> exact List.mem_cons_self ..
    · exact List.mem_cons_self ..

theorem looksUp_of_index (table : EnvTable sizeofEnv) {current : Nat}
    (running : current < nenv sizeofEnv) {envid : BitVec 32} (checkperm : Bool)
    (condition : envid = 0 ∨ envx sizeofEnv envid < nenv sizeofEnv) :
    table.LooksUp current envid checkperm := by
  by_cases zero : envid = 0
  · subst zero
    refine ⟨fun env member => ?_, .inr ⟨current, rfl, .inl ⟨rfl, rfl⟩⟩⟩
    cases member
  have index := condition.resolve_left zero
  unfold LooksUp envid2envReads envid2env
  rw [if_neg zero, if_neg zero]
  dsimp only
  by_cases stale : (table.envs (envx sizeofEnv envid)).envStatus = .free ∨
      (table.envs (envx sizeofEnv envid)).envId ≠ envid
  · rw [if_pos stale, if_pos stale]
    exact ⟨by simpa using index, .inl rfl⟩
  rw [if_neg stale, if_neg stale]
  have named : (table.envs (envx sizeofEnv envid)).envId = envid :=
    not_not.mp fun other => stale (.inr other)
  by_cases asked : (checkperm && some current != some (envx sizeofEnv envid)) = true
  · rw [if_pos asked, if_pos asked]
    refine ⟨by simpa using ⟨index, running⟩, ?_⟩
    by_cases foreign : (table.envs (envx sizeofEnv envid)).envParentId ≠
        (table.envs current).envId
    · exact .inl (if_pos foreign)
    · exact .inr ⟨_, if_neg foreign, .inr ⟨zero, named⟩⟩
  · rw [if_neg asked, if_neg asked]
    exact ⟨by simpa using index, .inr ⟨_, rfl, .inr ⟨zero, named⟩⟩⟩

/-- **A lookup stays inside the array exactly for the ids whose index is a slot.** -/
theorem looksUp_iff (table : EnvTable sizeofEnv) {current : Nat}
    (running : current < nenv sizeofEnv) (envid : BitVec 32) (checkperm : Bool) :
    table.LooksUp current envid checkperm ↔
      envid = 0 ∨ envx sizeofEnv envid < nenv sizeofEnv := by
  constructor
  · rintro ⟨inside, -⟩
    by_cases zero : envid = 0
    · exact .inl zero
    · exact .inr (inside _ (table.envx_mem_reads (some current) zero checkperm))
  · exact table.looksUp_of_index running checkperm

/-- The lookup of the last slot of the build with the kernel heap stays inside. -/
theorem looksUp_iff_last : nenv (FosKernel.sizeofEnv true) = 708 ∧
    (envInit (FosKernel.sizeofEnv true)).LooksUp 0 707 false :=
  ⟨by decide, (looksUp_iff _ (by decide) 707 false).mpr (.inr (by decide))⟩

/-- The index behind the last slot: the mask lets it through. -/
theorem not_looksUp_behind :
    (envInit (FosKernel.sizeofEnv true)).envid2envReads (some 0) 708 false = [708] ∧
      nenv (FosKernel.sizeofEnv true) = 708 ∧
      ¬ (envInit (FosKernel.sizeofEnv true)).LooksUp 0 708 false := by
  have reads : (envInit (FosKernel.sizeofEnv true)).envid2envReads (some 0) 708 false = [708] := by
    decide
  refine ⟨reads, by decide, fun looks => ?_⟩
  have inside := looks.1 708 (by rw [reads]; exact List.mem_cons_self ..)
  exact absurd inside (by decide)

/-- Where the number of slots is a power of two, every index is one of a slot. -/
theorem envx_lt_of_pow2 {exponent : Nat} (power : nenv sizeofEnv = 2 ^ exponent)
    (envid : BitVec 32) : envx sizeofEnv envid < nenv sizeofEnv := by
  have masked : nearPow2Nenv sizeofEnv = 2 ^ exponent := by
    rw [nearPow2Nenv, nearestPow2Ceil_eq_clog, power, Nat.clog_pow 2 exponent (by decide)]
  have small : nenv sizeofEnv ≤ 2 ^ 20 := Nat.div_le_self ..
  have positive := Nat.two_pow_pos exponent
  unfold envx
  rw [masked, BitVec.toNat_and, BitVec.toNat_ofNat]
  have le := Nat.and_le_right (n := envid.toNat) (m := (2 ^ exponent - 1) % 2 ^ 32)
  omega

/-- Without the kernel heap there are 8 slots, and every lookup stays inside. -/
theorem looksUp_withoutKheap (table : EnvTable (FosKernel.sizeofEnv false)) {current : Nat}
    (running : current < nenv (FosKernel.sizeofEnv false)) (envid : BitVec 32)
    (checkperm : Bool) : table.LooksUp current envid checkperm := by
  have slots : nenv (FosKernel.sizeofEnv false) = 2 ^ 3 := by decide
  exact table.looksUp_of_index running checkperm (.inr (envx_lt_of_pow2 slots envid))

end EnvTable

end FosKernel
