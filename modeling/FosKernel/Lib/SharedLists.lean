import FosKernel.Lib.IntrusiveList

/-!
# Lists that share one pair of links

A family of list headers over nodes that have one pair of link fields each, so that a
node can be linked into one list of the family at a time. Headers and links *hold* a
family of disjoint sequences when every header represents its sequence.
-/

universe u v

/-- A list header. -/
structure ListHeader (ν : Type u) where
  first : Option ν
  last : Option ν
  size : Nat
  deriving DecidableEq, Repr

/-- A family of headers and the link fields of all nodes. -/
structure SharedLists (ι : Type v) (ν : Type u) where
  heads : ι → ListHeader ν
  next : ν → Option ν
  prev : ν → Option ν

namespace SharedLists

variable {ι : Type v} {ν : Type u}

/-- One list of the family, with the links of all nodes. -/
def list (lists : SharedLists ι ν) (name : ι) : IntrusiveList ν where
  first := (lists.heads name).first
  last := (lists.heads name).last
  size := (lists.heads name).size
  next := lists.next
  prev := lists.prev

/-- Every header represents its sequence, and no node is in two of them. -/
structure Holds (lists : SharedLists ι ν) (contents : ι → List ν) : Prop where
  represents : ∀ name, (lists.list name).Represents (contents name)
  disjoint : ∀ name name', name ≠ name' → List.Disjoint (contents name) (contents name')

variable [DecidableEq ι] {lists : SharedLists ι ν} {contents : ι → List ν} {name : ι}

/-- Replace one header and the links. -/
def setList (lists : SharedLists ι ν) (name : ι) (list : IntrusiveList ν) :
    SharedLists ι ν where
  heads := Function.update lists.heads name ⟨list.first, list.last, list.size⟩
  next := list.next
  prev := list.prev

/-- `LIST_INIT`. -/
def init (lists : SharedLists ι ν) (name : ι) : SharedLists ι ν :=
  lists.setList name (lists.list name).init

/-- The replaced list, and the others with the new links. -/
theorem setList_list (lists : SharedLists ι ν) (name other : ι) (list : IntrusiveList ν) :
    (lists.setList name list).list other =
      if other = name then list
      else { lists.list other with
        next := list.next
        prev := list.prev } := by
  unfold SharedLists.list setList
  by_cases same : other = name
  · subst same
    simp only [if_pos, Function.update_self]
  · simp only [if_neg same, Function.update_of_ne same]

/-- A list changes when nothing of it was in another one, and the links of the others stay. -/
theorem Holds.setList {list : IntrusiveList ν} {nodes : List ν} (holds : lists.Holds contents)
    (represents : list.Represents nodes)
    (apart : ∀ node ∈ nodes, ∀ other, other ≠ name → node ∉ contents other)
    (links : ∀ other, other ≠ name → ∀ node ∈ contents other,
      list.next node = lists.next node ∧ list.prev node = lists.prev node) :
    (lists.setList name list).Holds (Function.update contents name nodes) where
  represents other := by
    rw [setList_list]
    by_cases same : other = name
    · subst same
      rwa [if_pos rfl, Function.update_self]
    · rw [if_neg same, Function.update_of_ne same]
      have old := holds.represents other
      exact ⟨old.nodup, old.first_eq, old.last_eq, old.size_eq,
        old.linked.congr fun node member => links other same node member⟩
  disjoint other other' different := by
    by_cases same : other = name
    · subst same
      rw [Function.update_self, Function.update_of_ne different.symm]
      exact fun node member => apart node member other' different.symm
    · rw [Function.update_of_ne same]
      by_cases same' : other' = name
      · subst same'
        rw [Function.update_self]
        exact fun node member member' => apart node member' other different member
      · rw [Function.update_of_ne same']
        exact holds.disjoint other other' different

/-- A list is emptied. -/
theorem Holds.init (holds : lists.Holds contents) (name : ι) :
    (lists.init name).Holds (Function.update contents name []) :=
  holds.setList (IntrusiveList.init_represents _) (fun _ member => absurd member List.not_mem_nil)
    fun _ _ _ _ => ⟨rfl, rfl⟩

theorem mem_insert {node member : ν} {other : ι} :
    member ∈ Function.update contents name (node :: contents name) other ↔
      member ∈ contents other ∨ member = node ∧ other = name := by
  by_cases same : other = name
  · subst same
    rw [Function.update_self, List.mem_cons, or_comm, and_iff_left rfl]
  · rw [Function.update_of_ne same]
    simp [same]

theorem Holds.mem_remove {node member : ν} {front back : List ν} {other : ι}
    (holds : lists.Holds contents) (split : contents name = front ++ node :: back) :
    member ∈ Function.update contents name (front ++ back) other ↔
      member ∈ contents other ∧ member ≠ node := by
  by_cases same : other = name
  · subst same
    have nodup := (holds.represents other).nodup
    rw [split] at nodup
    have absent := (List.nodup_middle.mp nodup).notMem
    rw [Function.update_self, split, List.mem_append, List.mem_append, List.mem_cons]
    constructor
    · intro inside
      refine ⟨by tauto, ?_⟩
      rintro rfl
      exact absent (List.mem_append.mpr inside)
    · rintro ⟨inside, different⟩
      tauto
  · rw [Function.update_of_ne same]
    refine ⟨fun inside => ⟨inside, ?_⟩, And.left⟩
    rintro rfl
    exact holds.disjoint name other (Ne.symm same) (by simp [split]) inside

/-- The removed node is in no list. -/
theorem Holds.removed {node : ν} {front back : List ν} (holds : lists.Holds contents)
    (split : contents name = front ++ node :: back) (other : ι) :
    node ∉ Function.update contents name (front ++ back) other := fun inside =>
  ((holds.mem_remove split).mp inside).2 rfl

omit [DecidableEq ι] in
/-- The links determine the contents. -/
theorem Holds.unique {contents' : ι → List ν} (holds : lists.Holds contents)
    (holds' : lists.Holds contents') : contents = contents' :=
  funext fun name => (holds.represents name).unique (holds'.represents name)

omit [DecidableEq ι] in
/-- When another node leaves a sequence, no more nodes than before are behind a node. -/
theorem exists_split_of_remove {front back front' back' : List ν} {node other : ν}
    (same : front ++ other :: back = front' ++ node :: back') (different : other ≠ node) :
    ∃ front'' back'', front ++ back = front'' ++ node :: back'' ∧
        back''.length ≤ back'.length := by
  rcases List.append_eq_append_iff.mp same with
    ⟨between, split, rest⟩ | ⟨between, split, rest⟩
  · cases between with
    | nil => exact absurd (List.cons.inj rest).1 different
    | cons head between =>
        obtain ⟨-, rest⟩ := List.cons.inj rest
        refine ⟨front ++ between, back', ?_, Nat.le_refl _⟩
        rw [rest, List.append_assoc]
        rfl
  · cases between with
    | nil => exact absurd (List.cons.inj rest).1.symm different
    | cons head between =>
        obtain ⟨same, rest⟩ := List.cons.inj rest
        refine ⟨front', between ++ back, ?_, ?_⟩
        · rw [split, ← same, List.append_assoc]
          rfl
        · rw [show back' = between ++ other :: back from rest, List.length_append,
            List.length_append, List.length_cons]
          omega

variable [DecidableEq ν]

/-- `LIST_INSERT_HEAD`. -/
def insertHead (lists : SharedLists ι ν) (name : ι) (node : ν) : SharedLists ι ν :=
  lists.setList name ((lists.list name).insertHead node)

/-- `LIST_REMOVE`. -/
def remove (lists : SharedLists ι ν) (name : ι) (node : ν) : SharedLists ι ν :=
  lists.setList name ((lists.list name).remove node)

/-- A node that is in no list enters one at its head. -/
theorem Holds.insertHead {node : ν} (holds : lists.Holds contents)
    (fresh : ∀ other, node ∉ contents other) :
    (lists.insertHead name node).Holds
      (Function.update contents name (node :: contents name)) := by
  refine holds.setList ((holds.represents name).insertHead (fresh name)) ?_ ?_
  · intro member inside other different outside
    rcases List.mem_cons.mp inside with rfl | inside
    · exact fresh other outside
    · exact holds.disjoint name other different.symm inside outside
  · intro other different member inside
    refine (holds.represents name).insertHead_outside ?_ fun inside' =>
      holds.disjoint name other different.symm inside' inside
    rintro rfl
    exact fresh other inside

/-- A node leaves its list. -/
theorem Holds.remove {node : ν} {front back : List ν} (holds : lists.Holds contents)
    (split : contents name = front ++ node :: back) :
    (lists.remove name node).Holds (Function.update contents name (front ++ back)) := by
  have represents := holds.represents name
  rw [split] at represents
  refine holds.setList represents.remove ?_ ?_
  · intro member inside other different outside
    refine holds.disjoint name other different.symm ?_ outside
    rw [split]
    simp only [List.mem_append, List.mem_cons] at inside ⊢
    tauto
  · intro other different member inside
    refine represents.remove_outside fun inside' => ?_
    rw [← split] at inside'
    exact holds.disjoint name other different.symm inside' inside

end SharedLists
