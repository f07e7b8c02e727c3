import Mathlib.Data.Finset.Card
import Mathlib.Data.Finset.SDiff
import Mathlib.Order.Bounds.Defs

/-!
# Demand paging and farthest-future replacement

A demand-paging schedule serves a reference stream with a bounded number of page
slots: a hit changes nothing, and a fault loads the referenced page and may drop
resident pages. Evicting a page whose next use lies farthest in the future
minimises the number of faults over all such schedules.

The proof compares optimal costs of two resident sets. A resident set is at most
as expensive as another one plus the number of pages it lacks
(`Schedule.lipschitz`), and exchanging a page for one that is used sooner never
costs more (`Schedule.exchange`).
-/

namespace DemandPaging

variable {π : Type*} [DecidableEq π]

/-- Serving one reference with a number of page slots. The last index counts the fault. -/
inductive Step (slots : Nat) (page : π) : Finset π → Finset π → Nat → Prop
  | hit {resident : Finset π} (member : page ∈ resident) : Step slots page resident resident 0
  | fault {resident next : Finset π} (absent : page ∉ resident) (loaded : page ∈ next)
      (demand : next ⊆ insert page resident) (fits : next.card ≤ slots) :
      Step slots page resident next 1

/-- A demand-paging schedule of a reference stream, with its number of faults. -/
inductive Schedule (slots : Nat) : Finset π → List π → Nat → Prop
  | nil (resident : Finset π) : Schedule slots resident [] 0
  | cons {page : π} {resident next : Finset π} {cost faults : Nat} {refs : List π}
      (step : Step slots page resident next cost) (rest : Schedule slots next refs faults) :
      Schedule slots resident (page :: refs) (cost + faults)

/-- Every use of the second page in the stream comes after a use of the first. -/
def UsedSooner (sooner later : π) : List π → Prop
  | [] => True
  | page :: refs => page = sooner ∨ page ≠ later ∧ UsedSooner sooner later refs

/-- The farthest-future policy: fill free slots first, then evict a page before
whose next use every other resident page is used. -/
inductive Farthest (slots : Nat) : Finset π → List π → Nat → Prop
  | nil (resident : Finset π) : Farthest slots resident [] 0
  | hit {page : π} {resident : Finset π} {faults : Nat} {refs : List π}
      (member : page ∈ resident) (rest : Farthest slots resident refs faults) :
      Farthest slots resident (page :: refs) faults
  | fill {page : π} {resident : Finset π} {faults : Nat} {refs : List π}
      (absent : page ∉ resident) (room : resident.card < slots)
      (rest : Farthest slots (insert page resident) refs faults) :
      Farthest slots resident (page :: refs) (faults + 1)
  | evict {page victim : π} {resident : Finset π} {faults : Nat} {refs : List π}
      (absent : page ∉ resident) (full : resident.card = slots) (member : victim ∈ resident)
      (farthest : ∀ other ∈ resident, UsedSooner other victim refs)
      (rest : Farthest slots (insert page (resident.erase victim)) refs faults) :
      Farthest slots resident (page :: refs) (faults + 1)

variable {slots : Nat}

/-- A page can be loaded into a resident set that fits, dropping only a page of
that set which a given bounded set does not need. -/
theorem exists_loaded {page : π} {resident wanted : Finset π} (absent : page ∉ resident)
    (fits : resident.card ≤ slots) (wantedFits : wanted.card ≤ slots)
    (needed : page ∈ wanted) :
    ∃ next, page ∈ next ∧ next ⊆ insert page resident ∧ next.card ≤ slots ∧
      wanted \ next ⊆ (wanted \ resident).erase page := by
  by_cases room : resident.card < slots
  · refine ⟨insert page resident, Finset.mem_insert_self .., subset_rfl, ?_, ?_⟩
    · rw [Finset.card_insert_of_notMem absent]
      exact room
    · intro other member
      simp only [Finset.mem_sdiff, Finset.mem_insert, not_or, Finset.mem_erase] at member ⊢
      exact ⟨member.2.1, member.1, member.2.2⟩
  · -- A full set cannot lie inside the wanted one, which also holds the loaded page.
    have spare : ∃ victim ∈ resident, victim ∉ wanted := by
      by_contra none
      push Not at none
      have larger := Finset.card_le_card (Finset.insert_subset needed none)
      rw [Finset.card_insert_of_notMem absent] at larger
      omega
    obtain ⟨victim, held, unwanted⟩ := spare
    refine ⟨insert page (resident.erase victim), Finset.mem_insert_self .., ?_, ?_, ?_⟩
    · exact Finset.insert_subset_insert _ (Finset.erase_subset ..)
    · rw [Finset.card_insert_of_notMem fun member => absent (Finset.mem_of_mem_erase member),
        Finset.card_erase_of_mem held]
      have := Finset.card_pos.mpr ⟨victim, held⟩
      omega
    · intro other member
      simp only [Finset.mem_sdiff, Finset.mem_insert, Finset.mem_erase, not_or,
        not_and] at member ⊢
      refine ⟨member.2.1, member.1, member.2.2 ?_⟩
      rintro rfl
      exact unwanted member.1

/-- A resident set serves a stream with at most one extra fault for each page
that a competing resident set has and it lacks. -/
theorem Schedule.lipschitz {refs : List π} {resident : Finset π} {faults : Nat}
    (schedule : Schedule slots resident refs faults) :
    ∀ {other : Finset π}, resident.card ≤ slots → other.card ≤ slots →
      ∃ count, Schedule slots other refs count ∧
          count ≤ faults + (resident \ other).card := by
  induction schedule with
  | nil resident => exact fun _ _ => ⟨0, .nil _, Nat.zero_le _⟩
  | @cons page resident next cost faults refs step rest ih =>
      intro other fits otherFits
      cases step with
      | hit member =>
          by_cases held : page ∈ other
          · obtain ⟨count, served, bound⟩ := ih fits otherFits
            exact ⟨0 + count, .cons (.hit held) served, by omega⟩
          · obtain ⟨loaded, inside, demand, loadedFits, lacking⟩ :=
              exists_loaded held otherFits fits member
            obtain ⟨count, served, bound⟩ := ih fits loadedFits
            refine ⟨1 + count, .cons (.fault held inside demand loadedFits) served, ?_⟩
            have fewer := Finset.card_le_card lacking
            have lacked : page ∈ resident \ other := Finset.mem_sdiff.mpr ⟨member, held⟩
            rw [Finset.card_erase_of_mem lacked] at fewer
            have := Finset.card_pos.mpr ⟨page, lacked⟩
            omega
      | fault absent inNext nextDemand nextFits =>
          by_cases held : page ∈ other
          · obtain ⟨count, served, bound⟩ := ih nextFits otherFits
            refine ⟨0 + count, .cons (.hit held) served, ?_⟩
            have fewer : (next \ other).card ≤ (resident \ other).card := by
              apply Finset.card_le_card
              intro query member
              obtain ⟨inside, outside⟩ := Finset.mem_sdiff.mp member
              rcases Finset.mem_insert.mp (nextDemand inside) with rfl | old
              · exact (outside held).elim
              · exact Finset.mem_sdiff.mpr ⟨old, outside⟩
            omega
          · obtain ⟨loaded, inside, demand, loadedFits, lacking⟩ :=
              exists_loaded held otherFits nextFits inNext
            obtain ⟨count, served, bound⟩ := ih nextFits loadedFits
            refine ⟨1 + count, .cons (.fault held inside demand loadedFits) served, ?_⟩
            have fewer : (next \ loaded).card ≤ (resident \ other).card := by
              apply Finset.card_le_card
              intro query member
              obtain ⟨different, lacked⟩ := Finset.mem_erase.mp (lacking member)
              obtain ⟨inNext, outside⟩ := Finset.mem_sdiff.mp lacked
              exact Finset.mem_sdiff.mpr
                ⟨(Finset.mem_insert.mp (nextDemand inNext)).resolve_left different, outside⟩
            omega

/-- A larger resident set is never more expensive. -/
theorem Schedule.mono {refs : List π} {resident other : Finset π} {faults : Nat}
    (schedule : Schedule slots resident refs faults) (subset : resident ⊆ other)
    (fits : other.card ≤ slots) : ∃ count ≤ faults, Schedule slots other refs count := by
  obtain ⟨count, served, bound⟩ :=
    schedule.lipschitz ((Finset.card_le_card subset).trans fits) fits
  rw [Finset.sdiff_eq_empty_iff_subset.mpr subset, Finset.card_empty] at bound
  exact ⟨count, bound, served⟩

/-- Holding a page that is used sooner in place of another one never costs more. -/
theorem Schedule.exchange {refs : List π} :
    ∀ {shared : Finset π} {sooner later : π} {faults : Nat}, UsedSooner sooner later refs →
      sooner ∉ shared → later ∉ shared → shared.card < slots →
      Schedule slots (insert later shared) refs faults →
        ∃ count ≤ faults, Schedule slots (insert sooner shared) refs count := by
  induction refs with
  | nil =>
      intro shared sooner later faults _ _ _ _ schedule
      exact ⟨0, Nat.zero_le _, .nil _⟩
  | cons page refs ih =>
      intro shared sooner later faults used notSooner notLater room schedule
      by_cases same : sooner = later
      · subst same
        exact ⟨faults, le_rfl, schedule⟩
      have soonerFits : (insert sooner shared).card ≤ slots := by
        rw [Finset.card_insert_of_notMem notSooner]
        exact room
      have laterFits : (insert later shared).card ≤ slots := by
        rw [Finset.card_insert_of_notMem notLater]
        exact room
      cases schedule with
      | @cons _ _ next cost faults _ step rest =>
          by_cases now : page = sooner
          · -- The sooner page is referenced now: a hit here, a fault there.
            subst now
            cases step with
            | hit member =>
                rcases Finset.mem_insert.mp member with equal | inside
                · exact (same equal).elim
                · exact (notSooner inside).elim
            | fault absent loaded demand fits =>
                obtain ⟨count, served, bound⟩ := rest.lipschitz fits soonerFits
                refine ⟨0 + count, ?_, .cons (.hit (Finset.mem_insert_self ..)) served⟩
                have lacking : next \ insert page shared ⊆ {later} := by
                  intro query member
                  obtain ⟨inside, outside⟩ := Finset.mem_sdiff.mp member
                  have := demand inside
                  simp only [Finset.mem_insert, Finset.mem_singleton] at this outside ⊢
                  tauto
                have := Finset.card_le_card lacking
                rw [Finset.card_singleton] at this
                omega
          · obtain ⟨notUsed, used⟩ := used.resolve_left now
            cases step with
            | hit member =>
                have inside := (Finset.mem_insert.mp member).resolve_left notUsed
                obtain ⟨count, bound, served⟩ := ih used notSooner notLater room rest
                exact ⟨0 + count, by omega,
                  .cons (.hit (Finset.mem_insert_of_mem inside)) served⟩
            | fault absent loaded demand fits =>
                have outside : page ∉ shared := fun inside =>
                  absent (Finset.mem_insert_of_mem inside)
                have soonerAbsent : page ∉ insert sooner shared := by
                  simp [now, outside]
                by_cases kept : later ∈ next
                · -- Keep the sooner page wherever the competitor keeps the later one.
                  have split : next = insert later (next.erase later) :=
                    (Finset.insert_erase kept).symm
                  have notIn : sooner ∉ next.erase later := by
                    intro member
                    have := demand (Finset.mem_of_mem_erase member)
                    simp only [Finset.mem_insert] at this
                    rcases this with equal | equal | inside
                    · exact now equal.symm
                    · exact same equal
                    · exact notSooner inside
                  have small : (next.erase later).card < slots := by
                    rw [Finset.card_erase_of_mem kept]
                    have := Finset.card_pos.mpr ⟨later, kept⟩
                    omega
                  rw [split] at rest
                  obtain ⟨count, bound, served⟩ :=
                    ih used notIn (Finset.notMem_erase later next) small rest
                  refine ⟨1 + count, by omega, .cons (.fault soonerAbsent ?_ ?_ ?_) served⟩
                  · exact Finset.mem_insert_of_mem (Finset.mem_erase.mpr ⟨notUsed, loaded⟩)
                  · intro query member
                    rcases Finset.mem_insert.mp member with rfl | member
                    · simp
                    · obtain ⟨different, inside⟩ := Finset.mem_erase.mp member
                      have := demand inside
                      simp only [Finset.mem_insert] at this ⊢
                      tauto
                  · rw [Finset.card_insert_of_notMem notIn]
                    exact small
                · refine ⟨1 + faults, le_rfl, .cons (.fault soonerAbsent loaded ?_ fits) rest⟩
                  intro query member
                  have := demand member
                  simp only [Finset.mem_insert] at this ⊢
                  rcases this with equal | rfl | inside
                  · exact .inl equal
                  · exact (kept member).elim
                  · exact .inr (.inr inside)

/-- The farthest-future policy is a demand-paging schedule. -/
theorem Farthest.schedule {refs : List π} {resident : Finset π} {faults : Nat}
    (run : Farthest slots resident refs faults) (fits : resident.card ≤ slots) :
    Schedule slots resident refs faults := by
  induction run with
  | nil resident => exact .nil resident
  | @hit page resident faults refs member rest ih =>
      have served := Schedule.cons (.hit member) (ih fits)
      rwa [Nat.zero_add] at served
  | @fill page resident faults refs absent room rest ih =>
      have fits' : (insert page resident).card ≤ slots := by
        rw [Finset.card_insert_of_notMem absent]
        exact room
      rw [Nat.add_comm]
      exact .cons (.fault absent (Finset.mem_insert_self ..) subset_rfl fits') (ih fits')
  | @evict page victim resident faults refs absent full member farthest rest ih =>
      have fits' : (insert page (resident.erase victim)).card ≤ slots := by
        rw [Finset.card_insert_of_notMem fun inside => absent (Finset.mem_of_mem_erase inside),
          Finset.card_erase_of_mem member]
        have := Finset.card_pos.mpr ⟨victim, member⟩
        omega
      rw [Nat.add_comm]
      exact .cons (.fault absent (Finset.mem_insert_self ..)
        (Finset.insert_subset_insert _ (Finset.erase_subset ..)) fits') (ih fits')

/-- No demand-paging schedule has fewer faults than the farthest-future policy. -/
theorem Farthest.le {refs : List π} {resident : Finset π} {faults : Nat}
    (run : Farthest slots resident refs faults) :
    ∀ {count : Nat}, resident.card ≤ slots → Schedule slots resident refs count →
      faults ≤ count := by
  induction run with
  | nil resident => exact fun _ _ => Nat.zero_le _
  | hit member rest ih =>
      intro count fits schedule
      cases schedule with
      | cons step rest =>
          cases step with
          | hit _ =>
              have := ih fits rest
              omega
          | fault absent _ _ _ => exact (absent member).elim
  | @fill page resident faults refs absent room rest ih =>
      intro count fits schedule
      have fits' : (insert page resident).card ≤ slots := by
        rw [Finset.card_insert_of_notMem absent]
        exact room
      cases schedule with
      | cons step rest =>
          cases step with
          | hit member => exact (absent member).elim
          | fault _ _ demand _ =>
              obtain ⟨fewer, bound, served⟩ := rest.mono demand fits'
              have := ih fits' served
              omega
  | @evict page victim resident faults refs absent full member farthest rest ih =>
      intro count fits schedule
      have eraseFits : ∀ dropped ∈ resident,
          (insert page (resident.erase dropped)).card ≤ slots := by
        intro dropped held
        rw [Finset.card_insert_of_notMem fun inside => absent (Finset.mem_of_mem_erase inside),
          Finset.card_erase_of_mem held]
        have := Finset.card_pos.mpr ⟨dropped, held⟩
        omega
      cases schedule with
      | @cons _ _ next _ _ _ step rest =>
          cases step with
          | hit inside => exact (absent inside).elim
          | fault _ loaded demand nextFits =>
              have dropped : ∃ lost ∈ resident, lost ∉ next := by
                by_contra none
                push Not at none
                have larger := Finset.card_le_card (Finset.insert_subset loaded none)
                rw [Finset.card_insert_of_notMem absent] at larger
                omega
              obtain ⟨lost, held, gone⟩ := dropped
              have inside : next ⊆ insert page (resident.erase lost) := by
                intro query queryIn
                rcases Finset.mem_insert.mp (demand queryIn) with rfl | old
                · exact Finset.mem_insert_self ..
                · refine Finset.mem_insert_of_mem (Finset.mem_erase.mpr ⟨?_, old⟩)
                  rintro rfl
                  exact gone queryIn
              obtain ⟨fewer, bound, served⟩ := rest.mono inside (eraseFits lost held)
              suffices ∃ least ≤ fewer,
                  Schedule slots (insert page (resident.erase victim)) refs least by
                obtain ⟨least, atMost, optimal⟩ := this
                have := ih (eraseFits victim member) optimal
                omega
              by_cases same : lost = victim
              · subst same
                exact ⟨fewer, le_rfl, served⟩
              · let shared := insert page ((resident.erase victim).erase lost)
                have keepLost : insert lost shared = insert page (resident.erase victim) := by
                  rw [Finset.insert_comm,
                    Finset.insert_erase (Finset.mem_erase.mpr ⟨same, held⟩)]
                have keepVictim : insert victim shared = insert page (resident.erase lost) := by
                  rw [Finset.insert_comm, Finset.erase_right_comm, Finset.insert_erase
                    (Finset.mem_erase.mpr ⟨fun equal => same equal.symm, member⟩)]
                have lostAbsent : lost ∉ shared := by
                  have : lost ≠ page := fun equal => absent (equal ▸ held)
                  simp [shared, this]
                have victimAbsent : victim ∉ shared := by
                  have : victim ≠ page := fun equal => absent (equal ▸ member)
                  simp [shared, this]
                have small : shared.card < slots := by
                  have := eraseFits victim member
                  rw [← keepLost, Finset.card_insert_of_notMem lostAbsent] at this
                  omega
                rw [← keepVictim] at served
                rw [← keepLost]
                exact served.exchange (farthest lost held) lostAbsent victimAbsent small

/-- The farthest-future policy attains the minimum number of faults. -/
theorem Farthest.isLeast {refs : List π} {resident : Finset π} {faults : Nat}
    (run : Farthest slots resident refs faults) (fits : resident.card ≤ slots) :
    IsLeast {count | Schedule slots resident refs count} faults :=
  ⟨run.schedule fits, fun _ schedule => run.le fits schedule⟩

end DemandPaging
