import FosKernel.Lib.SharedLists
import Mathlib.Data.Fintype.Card

/-!
# The list macros

The macros that initialise and change an intrusive list, run in any order on a
header in arbitrary memory. Each macro has a counterpart on mathematical lists;
elements are not `NULL`, so the panics of the macros do not arise. `LIST_CONCAT` works on
two headers that share the links of their elements.
-/

namespace FosKernel

/-- One use of a list macro, with its element arguments. -/
inductive ListMacro (ν : Type*) where
  | init
  | insertHead (elm : ν)
  | insertTail (elm : ν)
  | insertAfter (listelm elm : ν)
  | insertBefore (listelm elm : ν)
  | remove (elm : ν)
  deriving DecidableEq

namespace ListMacro

variable {ν : Type*} [DecidableEq ν]

/-- What a macro does to the header and the link fields. -/
def perform (list : IntrusiveList ν) : ListMacro ν → IntrusiveList ν
  | init => list.init
  | insertHead elm => list.insertHead elm
  | insertTail elm => list.insertTail elm
  | insertAfter listelm elm => list.insertAfter listelm elm
  | insertBefore listelm elm => list.insertBefore listelm elm
  | remove elm => list.remove elm

/-- The same operation on a mathematical list. -/
def apply (nodes : List ν) : ListMacro ν → List ν
  | init => []
  | insertHead elm => elm :: nodes
  | insertTail elm => nodes ++ [elm]
  | insertAfter listelm elm => nodes.insertIdx (nodes.idxOf listelm + 1) elm
  | insertBefore listelm elm => nodes.insertIdx (nodes.idxOf listelm) elm
  | remove elm => nodes.erase elm

/-- Inserted elements are not in the list; reference and removed elements are. -/
def Legal (nodes : List ν) : ListMacro ν → Prop
  | init => True
  | insertHead elm | insertTail elm => elm ∉ nodes
  | insertAfter listelm elm | insertBefore listelm elm => listelm ∈ nodes ∧ elm ∉ nodes
  | remove elm => elm ∈ nodes

instance (nodes : List ν) (use : ListMacro ν) : Decidable (use.Legal nodes) := by
  cases use <;> unfold Legal <;> infer_instance

/-- Every macro of a sequence is legal on the list the earlier ones leave. -/
def LegalRun : List ν → List (ListMacro ν) → Prop
  | _, [] => True
  | nodes, use :: uses => use.Legal nodes ∧ LegalRun (use.apply nodes) uses

instance decidableLegalRun : (nodes : List ν) → (uses : List (ListMacro ν)) →
    Decidable (LegalRun nodes uses)
  | _, [] => .isTrue trivial
  | nodes, use :: uses =>
      have := decidableLegalRun (use.apply nodes) uses
      inferInstanceAs (Decidable (use.Legal nodes ∧ LegalRun (use.apply nodes) uses))

omit [DecidableEq ν] in
/-- Inserting at a place behind a front part leaves that part alone. -/
private theorem insertIdx_append (front back : List ν) (place : Nat) (elm : ν) :
    (front ++ back).insertIdx (front.length + place) elm = front ++ back.insertIdx place elm := by
  induction front with
  | nil => simp
  | cons node front ih =>
      rw [List.length_cons, Nat.add_right_comm]
      simpa using ih

/-- The place of an element of a split list, counted from the front part. -/
theorem insertIdx_idxOf {front back : List ν} {listelm : ν} (fresh : listelm ∉ front)
    (elm : ν) (place : Nat) :
    (front ++ listelm :: back).insertIdx ((front ++ listelm :: back).idxOf listelm + place) elm =
      front ++ (listelm :: back).insertIdx place elm := by
  rw [List.idxOf_append_of_notMem fresh, List.idxOf_cons_self, Nat.add_zero, insertIdx_append]

/-- A legal macro does to the represented sequence what its counterpart does to
a mathematical list. -/
theorem Legal.perform_represents {list : IntrusiveList ν} {nodes : List ν} {use : ListMacro ν}
    (legal : use.Legal nodes) (represents : list.Represents nodes) :
    (use.perform list).Represents (use.apply nodes) := by
  cases use with
  | init => exact list.init_represents
  | insertHead elm => exact represents.insertHead legal
  | insertTail elm => exact represents.insertTail legal
  | insertAfter listelm elm =>
      obtain ⟨member, fresh⟩ := legal
      obtain ⟨front, back, rfl, first⟩ := List.eq_append_cons_of_mem member
      rw [apply, insertIdx_idxOf first elm 1]
      exact represents.insertAfter fresh
  | insertBefore listelm elm =>
      obtain ⟨member, fresh⟩ := legal
      obtain ⟨front, back, rfl, first⟩ := List.eq_append_cons_of_mem member
      rw [apply, ← Nat.add_zero (List.idxOf _ _), insertIdx_idxOf first elm 0]
      exact represents.insertBefore fresh
  | remove elm =>
      obtain ⟨front, back, rfl, first⟩ := List.eq_append_cons_of_mem legal
      rw [apply, List.erase_append_right _ first, List.erase_cons_head]
      exact represents.remove

/-- A legal sequence of macros keeps the representation. -/
theorem LegalRun.represents {uses : List (ListMacro ν)} :
    ∀ {list : IntrusiveList ν} {nodes : List ν}, LegalRun nodes uses →
      list.Represents nodes →
      (uses.foldl perform list).Represents (uses.foldl apply nodes) := by
  induction uses with
  | nil => intro list nodes _ represents; exact represents
  | cons use uses ih =>
      intro list nodes legal represents
      exact ih legal.2 (legal.1.perform_represents represents)

/-- No more elements are counted than there are, so the 32-bit counter of a list
of distinct nonzero 32-bit addresses does not wrap. -/
theorem LegalRun.size_le_card [Fintype ν] {uses : List (ListMacro ν)} (legal : LegalRun [] uses)
    (memory : IntrusiveList ν) : (uses.foldl perform memory.init).size ≤ Fintype.card ν := by
  have represents := legal.represents memory.init_represents
  rw [represents.size_eq]
  exact represents.nodup.length_le_card

/-- **Both chains and the counter always describe the mathematical list.** -/
theorem chains_of_legalRun (memory : IntrusiveList ν) (uses : List (ListMacro ν))
    (legal : LegalRun [] uses) :
    (uses.foldl apply []).Nodup ∧
      IntrusiveList.Follows (uses.foldl perform memory.init).next
        (uses.foldl perform memory.init).first (uses.foldl apply []) ∧
      IntrusiveList.Follows (uses.foldl perform memory.init).prev
        (uses.foldl perform memory.init).last (uses.foldl apply []).reverse ∧
      (uses.foldl perform memory.init).size = (uses.foldl apply []).length := by
  have represents := legal.represents memory.init_represents
  exact ⟨represents.nodup, represents.chains.1, represents.chains.2, represents.size_eq⟩

/-- A run that uses every macro, on memory whose links all point at one element. -/
theorem chains_of_legalRun_mixed :
    let memory : IntrusiveList Nat := ⟨some 9, some 9, 5, fun _ => some 9, fun _ => some 9⟩
    let uses : List (ListMacro Nat) := [insertHead 1, insertTail 2, insertAfter 1 3,
      insertBefore 1 4, insertAfter 2 5, remove 3, init, insertTail 3, insertBefore 3 1]
    IntrusiveList.Follows (uses.foldl perform memory.init).next
      (uses.foldl perform memory.init).first [1, 3] :=
  (chains_of_legalRun _ _ (by decide)).2.1

end ListMacro

section Concat

variable {ι ν : Type*} [DecidableEq ι] [DecidableEq ν]

/-- `LIST_CONCAT`, or `none` when it follows a last pointer that is `NULL`. -/
def listConcat (lists : SharedLists ι ν) (list1 list2 : ι) : Option (SharedLists ι ν) :=
  let concatenated : Option (SharedLists ι ν) :=
    match (lists.heads list1).first, (lists.heads list2).first with
    | none, _ => some { lists with
        heads := Function.update lists.heads list1
          { lists.heads list1 with
            first := (lists.heads list2).first
            last := (lists.heads list2).last } }
    | some _, none => some lists
    | some _, some first => (lists.heads list1).last.map fun last =>
        SharedLists.init
          { heads := Function.update lists.heads list1
              { lists.heads list1 with last := (lists.heads list2).last }
            next := Function.update lists.next last (some first)
            prev := Function.update lists.prev first (some last) } list2
  concatenated.map fun lists => { lists with
    heads := Function.update lists.heads list1
      { lists.heads list1 with
        size := (lists.heads list1).size + (lists.heads list2).size } }

variable {lists : SharedLists ι ν} {list1 list2 : ι} {front back : List ν}

/-- What `LIST_CONCAT` is for: the first list becomes the concatenation, the second one empty. -/
def Concatenates (lists : SharedLists ι ν) (list1 list2 : ι) (front back : List ν) : Prop :=
  ∃ next, listConcat lists list1 list2 = some next ∧
    (next.list list1).Represents (front ++ back) ∧ next.heads list2 = ⟨none, none, 0⟩

omit [DecidableEq ι] [DecidableEq ν] in
theorem header_of_represents_nil {name : ι} (empty : (lists.list name).Represents []) :
    lists.heads name = ⟨none, none, 0⟩ := by
  have first : (lists.heads name).first = none := empty.first_eq
  have last : (lists.heads name).last = none := empty.last_eq
  have size : (lists.heads name).size = 0 := empty.size_eq
  rcases header : lists.heads name with ⟨first', last', size'⟩
  rw [header] at first last size
  exact congr (congr (congrArg _ first) last) size

/-- The chains are always concatenated. The second header is left alone when the first list is
empty, and its size is read after it was reset when neither is. -/
theorem listConcat_spec (different : list1 ≠ list2) (first : (lists.list list1).Represents front)
    (second : (lists.list list2).Represents back) (disjoint : front.Disjoint back) :
    ∃ next, listConcat lists list1 list2 = some next ∧
      (next.heads list1).first = (front ++ back).head? ∧
      (next.heads list1).last = (front ++ back).getLast? ∧
      (next.heads list1).size = front.length + (if front = [] then back.length else 0) ∧
      IntrusiveList.Segment next.next next.prev none (front ++ back) none ∧
      next.heads list2 = if front = [] then lists.heads list2 else ⟨none, none, 0⟩ := by
  have first1 : (lists.heads list1).first = front.head? := first.first_eq
  have last1 : (lists.heads list1).last = front.getLast? := first.last_eq
  have size1 : (lists.heads list1).size = front.length := first.size_eq
  have first2 : (lists.heads list2).first = back.head? := second.first_eq
  have last2 : (lists.heads list2).last = back.getLast? := second.last_eq
  have size2 : (lists.heads list2).size = back.length := second.size_eq
  have other : list2 ≠ list1 := different.symm
  unfold listConcat
  rcases List.eq_nil_or_concat' front with rfl | ⟨initial, tail, rfl⟩
  · rw [first1]
    refine ⟨_, rfl, ?_, ?_, ?_, second.linked, ?_⟩
    · simp only [Function.update_self, first2, List.nil_append]
    · simp only [Function.update_self, last2, List.nil_append]
    · simp only [Function.update_self, Function.update_of_ne other, size1, size2, if_pos]
    · simp only [Function.update_of_ne other, if_pos]
  have nonempty : initial ++ [tail] ≠ [] := by simp
  rw [first1, first2, last1, if_neg nonempty, if_neg nonempty]
  obtain ⟨head, headed⟩ : ∃ head, (initial ++ [tail]).head? = some head := by
    cases initial <;> exact ⟨_, rfl⟩
  rw [headed, List.getLast?_concat]
  cases back with
  | nil =>
      refine ⟨_, rfl, ?_, ?_, ?_, ?_, ?_⟩
      · simp only [Function.update_self, first1, headed, List.append_nil]
      · simp only [Function.update_self, last1, List.append_nil, List.getLast?_concat]
      · simp only [Function.update_self, size1, size2, List.length_nil]
      · rw [List.append_nil]
        exact first.linked
      · simp only [Function.update_of_ne other]
        exact header_of_represents_nil second
  | cons seam rest =>
      dsimp only [List.head?_cons, Option.map_some]
      refine ⟨_, rfl, ?_, ?_, ?_, ?_, ?_⟩
      · simp only [SharedLists.init, SharedLists.setList, Function.update_self,
          Function.update_of_ne different]
        rw [first1, headed, List.head?_append, headed, Option.some_or]
      · simp only [SharedLists.init, SharedLists.setList, Function.update_self,
          Function.update_of_ne different]
        rw [last2, List.getLast?_append_of_ne_nil _ (by simp)]
      · simp only [SharedLists.init, SharedLists.setList, Function.update_self,
          Function.update_of_ne different]
        rw [size1]
        rfl
      · change IntrusiveList.Segment (Function.update lists.next tail (some seam))
          (Function.update lists.prev seam (some tail)) none
            (initial ++ [tail] ++ seam :: rest) none
        have seam_notMem : seam ∉ initial ++ [tail] := fun member =>
          disjoint member (List.mem_cons_self ..)
        have tail_notMem : tail ∉ seam :: rest := disjoint (by simp)
        have seamed := first.linked.retarget_after (some seam) first.nodup
        have linked := second.linked.retarget_before (some tail) second.nodup
        refine IntrusiveList.segment_append.mpr ⟨?_, ?_⟩
        · refine seamed.congr fun node member => ⟨rfl, ?_⟩
          have apart : node ≠ seam := fun same => seam_notMem (same ▸ member)
          exact Function.update_of_ne apart ..
        · rw [List.getLast?_concat, Option.some_or]
          refine linked.congr fun node member => ⟨?_, rfl⟩
          have apart : node ≠ tail := fun same => tail_notMem (same ▸ member)
          exact Function.update_of_ne apart ..
      · simp only [SharedLists.init, SharedLists.setList, Function.update_self,
          Function.update_of_ne other]
        rfl

/-- `LIST_CONCAT` concatenates exactly when the second list is empty. -/
theorem concatenates_iff (different : list1 ≠ list2) (first : (lists.list list1).Represents front)
    (second : (lists.list list2).Represents back) (disjoint : front.Disjoint back) :
    Concatenates lists list1 list2 front back ↔ back = [] := by
  obtain ⟨next, run, first', last, size, linked, header⟩ :=
    listConcat_spec different first second disjoint
  constructor
  · rintro ⟨next', run', represents, cleared⟩
    obtain rfl := Option.some.inj (run.symm.trans run')
    by_contra nonempty
    by_cases empty : front = []
    · rw [if_pos empty] at header
      have gone : (lists.heads list2).first = none := by rw [← header, cleared]
      have kept : (lists.heads list2).first = back.head? := second.first_eq
      rw [gone, eq_comm, List.head?_eq_none_iff] at kept
      exact nonempty kept
    · have counted : (next.heads list1).size = (front ++ back).length := represents.size_eq
      rw [size, if_neg empty, List.length_append] at counted
      exact nonempty (List.length_eq_zero_iff.mp (by omega))
  · rintro rfl
    have nodup : (front ++ []).Nodup := by
      rw [List.append_nil]
      exact first.nodup
    refine ⟨next, run, ⟨nodup, first', last, size.trans ?_, linked⟩, ?_⟩
    · simp
    · rw [header]
      split
      · exact header_of_represents_nil second
      · rfl

/-- A list of one element and a list of another one, under the names `false` and `true`. -/
def twoSingletons : SharedLists Bool Nat :=
  ⟨fun name => if name then ⟨some 2, some 2, 1⟩ else ⟨some 1, some 1, 1⟩, fun _ => none,
    fun _ => none⟩

/-- The same with the second list empty. -/
def oneSingleton : SharedLists Bool Nat :=
  ⟨fun name => if name then ⟨none, none, 0⟩ else ⟨some 1, some 1, 1⟩, fun _ => none,
    fun _ => none⟩

theorem concatenates_iff_singleton :
    Concatenates oneSingleton false true [1] [] ↔ ([] : List Nat) = [] :=
  concatenates_iff (by decide) ⟨by decide, rfl, rfl, rfl, ⟨rfl, rfl, trivial⟩⟩
    ⟨by decide, rfl, rfl, rfl, trivial⟩ (List.disjoint_nil_right _)

/-- The size of two concatenated elements stays 1. -/
theorem not_concatenates_singletons :
    (twoSingletons.list false).Represents [1] ∧ (twoSingletons.list true).Represents [2] ∧
      (listConcat twoSingletons false true).map (fun lists => (lists.heads false).size) = some 1 ∧
      ¬ Concatenates twoSingletons false true [1] [2] := by
  have size : (listConcat twoSingletons false true).map (fun lists => (lists.heads false).size) =
      some 1 := by decide
  refine ⟨⟨by decide, rfl, rfl, rfl, ⟨rfl, rfl, trivial⟩⟩,
    ⟨by decide, rfl, rfl, rfl, ⟨rfl, rfl, trivial⟩⟩, size, ?_⟩
  rintro ⟨next, run, represents, -⟩
  rw [run, Option.map_some, Option.some.injEq] at size
  have counted : (next.heads false).size = 2 := represents.size_eq
  omega

end Concat

end FosKernel
