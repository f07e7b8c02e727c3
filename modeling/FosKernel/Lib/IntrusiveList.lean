import Mathlib.Data.List.Basic
import Mathlib.Data.List.Induction
import Mathlib.Data.List.Nodup
import Mathlib.Logic.Function.Basic

/-!
# Intrusive doubly linked lists

A list header with a first and a last pointer and a size, and the two link
fields of every node of a type. The operations update links one by one, so they
are defined for headers and links in any state, including corrupted ones. A
header *represents* a sequence of nodes when following its links in either
direction visits exactly that sequence.
-/

/-- A list header together with the link fields of all nodes. -/
structure IntrusiveList (ν : Type*) where
  first : Option ν
  last : Option ν
  size : Nat
  next : ν → Option ν
  prev : ν → Option ν

namespace IntrusiveList

variable {ν : Type*}

/-- Make the header empty; no link field is touched. -/
def init (list : IntrusiveList ν) : IntrusiveList ν :=
  { list with first := none, last := none, size := 0 }

section Operations

variable [DecidableEq ν]

/-- Clear both link fields of a node without touching the header. -/
def clearLinks (list : IntrusiveList ν) (node : ν) : IntrusiveList ν :=
  { list with
    next := Function.update list.next node none
    prev := Function.update list.prev node none }

@[simp] theorem clearLinks_first (list : IntrusiveList ν) (node : ν) :
    (list.clearLinks node).first = list.first := rfl

@[simp] theorem clearLinks_last (list : IntrusiveList ν) (node : ν) :
    (list.clearLinks node).last = list.last := rfl

/-- Link a node before the first one. -/
def insertHead (list : IntrusiveList ν) (node : ν) : IntrusiveList ν :=
  let next := Function.update list.next node list.first
  match list.first with
  | some head =>
      { list with
        first := some node
        next := next
        prev := Function.update (Function.update list.prev head (some node)) node none
        size := list.size + 1 }
  | none =>
      { first := some node
        last := some node
        next := next
        prev := Function.update list.prev node none
        size := list.size + 1 }

/-- Linking the first node before itself closes a loop. -/
theorem next_of_insertHead_first {list : IntrusiveList ν} {node : ν}
    (first : list.first = some node) : (list.insertHead node).next node = some node := by
  unfold insertHead
  simp only [first, Function.update_self]

/-- Link a node after the last one. -/
def insertTail (list : IntrusiveList ν) (node : ν) : IntrusiveList ν :=
  let prev := Function.update list.prev node list.last
  match list.last with
  | some tail =>
      { list with
        last := some node
        next := Function.update (Function.update list.next tail (some node)) node none
        prev := prev
        size := list.size + 1 }
  | none =>
      { first := some node
        last := some node
        next := Function.update list.next node none
        prev := prev
        size := list.size + 1 }

/-- Link a node after a listed one. -/
def insertAfter (list : IntrusiveList ν) (listed node : ν) : IntrusiveList ν :=
  let prev := match list.next listed with
    | some after => Function.update list.prev after (some node)
    | none => list.prev
  let next :=
    Function.update (Function.update list.next node (list.next listed)) listed (some node)
  { list with
    last := if (next node).isNone then some node else list.last
    next := next
    prev := Function.update prev node (some listed)
    size := list.size + 1 }

/-- Link a node before a listed one. -/
def insertBefore (list : IntrusiveList ν) (listed node : ν) : IntrusiveList ν :=
  let prev := Function.update list.prev node (list.prev listed)
  let next := Function.update list.next node (some listed)
  match prev listed with
  | some before =>
      { list with
        next := Function.update next before (some node)
        prev := Function.update prev listed (some node)
        size := list.size + 1 }
  | none =>
      { list with
        first := some node
        next := next
        prev := Function.update prev listed (some node)
        size := list.size + 1 }

/-- Redirect the backward link of a node's successor, or the last pointer. -/
private def bridgeBackward (list : IntrusiveList ν) (node : ν) : IntrusiveList ν :=
  match list.next node with
  | some after => { list with prev := Function.update list.prev after (list.prev node) }
  | none => { list with last := list.prev node }

/-- Redirect the forward link of a node's predecessor, or the first pointer. -/
private def bridgeForward (list : IntrusiveList ν) (node : ν) : IntrusiveList ν :=
  match list.prev node with
  | some before => { list with next := Function.update list.next before (list.next node) }
  | none => { list with first := list.next node }

/-- Unlink a node and clear its links. The size is a word of 32 bits, which wraps around below 0. -/
def remove (list : IntrusiveList ν) (node : ν) : IntrusiveList ν :=
  let bridged := bridgeForward (bridgeBackward list node) node
  { clearLinks bridged node with
    size := if list.size = 0 then 0xFFFFFFFF else list.size - 1 }

end Operations

/-- The links of consecutive nodes agree in both directions, from a given
predecessor of the first node to a given successor of the last one. -/
def Segment (next prev : ν → Option ν) : Option ν → List ν → Option ν → Prop
  | _, [], _ => True
  | before, node :: nodes, after =>
      prev node = before ∧ next node = nodes.head?.or after ∧
        Segment next prev (some node) nodes after

/-- Following the links from the header visits exactly the given nodes. -/
structure Represents (list : IntrusiveList ν) (nodes : List ν) : Prop where
  nodup : nodes.Nodup
  first_eq : list.first = nodes.head?
  last_eq : list.last = nodes.getLast?
  size_eq : list.size = nodes.length
  linked : Segment list.next list.prev none nodes none

/-- A segment depends only on the links of its own nodes. -/
theorem Segment.congr {next prev next' prev' : ν → Option ν} {nodes : List ν} :
    ∀ {before after : Option ν}, Segment next prev before nodes after →
      (∀ node ∈ nodes, next' node = next node ∧ prev' node = prev node) →
        Segment next' prev' before nodes after := by
  induction nodes with
  | nil => intros; trivial
  | cons node nodes ih =>
      intro before after linked same
      obtain ⟨prevEq, nextEq, rest⟩ := linked
      obtain ⟨sameNext, samePrev⟩ := same node (List.mem_cons_self ..)
      exact ⟨samePrev.trans prevEq, sameNext.trans nextEq,
        ih rest fun other member => same other (List.mem_cons_of_mem _ member)⟩

/-- A segment over a concatenation splits at the seam. -/
theorem segment_append {next prev : ν → Option ν} {front back : List ν} :
    ∀ {before after : Option ν}, Segment next prev before (front ++ back) after ↔
      Segment next prev before front (back.head?.or after) ∧
        Segment next prev (front.getLast?.or before) back after := by
  induction front with
  | nil => intro before after; simp [Segment]
  | cons node front ih =>
      intro before after
      have seam : (front.getLast?.or (some node)) =
          ((node :: front).getLast?.or before) := by
        cases front with
        | nil => rfl
        | cons other rest => simp [List.getLast?_cons]
      have following : (front ++ back).head?.or after =
          front.head?.or (back.head?.or after) := by
        cases front <;> simp
      simp only [List.cons_append, Segment, ih, following, seam, and_assoc]

/-- Following a link field from a pointer visits exactly the given nodes. -/
def Follows (link : ν → Option ν) : Option ν → List ν → Prop
  | pointer, [] => pointer = none
  | pointer, node :: nodes => pointer = some node ∧ Follows link (link node) nodes

/-- The forward links of a segment visit its nodes in order. -/
theorem Segment.forward {next prev : ν → Option ν} {nodes : List ν} :
    ∀ {before : Option ν}, Segment next prev before nodes none →
      Follows next nodes.head? nodes := by
  induction nodes with
  | nil => intro before linked; rfl
  | cons node nodes ih =>
      intro before linked
      obtain ⟨_, nextNode, rest⟩ := linked
      refine ⟨rfl, ?_⟩
      rw [nextNode, Option.or_none]
      exact ih rest

/-- The backward links of a segment visit its nodes in reverse order. -/
theorem Segment.backward {next prev : ν → Option ν} (nodes : List ν) :
    ∀ {after : Option ν}, Segment next prev none nodes after →
      Follows prev nodes.getLast? nodes.reverse := by
  induction nodes using List.reverseRecOn with
  | nil => intro after linked; rfl
  | append_singleton nodes node ih =>
      intro after linked
      obtain ⟨rest, prevNode, _⟩ := segment_append.mp linked
      rw [List.getLast?_concat, List.reverse_concat]
      refine ⟨rfl, ?_⟩
      rw [prevNode, Option.or_none]
      exact ih rest

/-- Both chains of a header visit the sequence it represents. -/
theorem Represents.chains {list : IntrusiveList ν} {nodes : List ν}
    (represents : list.Represents nodes) :
    Follows list.next list.first nodes ∧ Follows list.prev list.last nodes.reverse := by
  rw [represents.first_eq, represents.last_eq]
  exact ⟨represents.linked.forward, represents.linked.backward⟩

theorem init_represents (list : IntrusiveList ν) : list.init.Represents [] where
  nodup := List.nodup_nil
  first_eq := rfl
  last_eq := rfl
  size_eq := rfl
  linked := trivial

/-- A header represents at most one sequence. -/
theorem Represents.unique {list : IntrusiveList ν} {left right : List ν}
    (first : list.Represents left) (second : list.Represents right) : left = right := by
  have extend : ∀ (left right : List ν) (before before' : Option ν),
    left.head? = right.head? →
      left.length = right.length → Segment list.next list.prev before left none →
        Segment list.next list.prev before' right none → left = right := by
    intro left
    induction left with
    | nil =>
        intro right _ _ _ lengths _ _
        exact (List.length_eq_zero_iff.mp lengths.symm).symm
    | cons node left ih =>
        intro right before before' heads lengths linked linked'
        cases right with
        | nil => simp at lengths
        | cons other right =>
            obtain rfl : node = other := by simpa using heads
            obtain ⟨_, nextLeft, restLeft⟩ := linked
            obtain ⟨_, nextRight, restRight⟩ := linked'
            have tails : left.head? = right.head? := by
              simpa using nextLeft.symm.trans nextRight
            rw [ih right _ _ tails (by simpa using lengths) restLeft restRight]
  exact extend left right none none (first.first_eq.symm.trans second.first_eq)
    (first.size_eq.symm.trans second.size_eq) first.linked second.linked

/-- In a represented list no node is its own successor. -/
theorem Represents.next_ne_self {list : IntrusiveList ν} {nodes : List ν}
    (represents : list.Represents nodes) {node : ν} (member : node ∈ nodes) :
    list.next node ≠ some node := by
  obtain ⟨front, back, rfl⟩ := List.append_of_mem member
  have linked := (segment_append.mp represents.linked).2
  obtain ⟨_, nextEq, _⟩ := linked
  have apart : node ∉ back := (List.nodup_cons.mp
    (List.nodup_append.mp represents.nodup).2.1).1
  intro loop
  rw [loop] at nextEq
  cases back with
  | nil => simp at nextEq
  | cons other back =>
      obtain rfl : node = other := by simpa using nextEq
      exact apart (List.mem_cons_self ..)

/-- A list whose first node is its own successor represents no sequence. -/
theorem not_represents_of_loop {list : IntrusiveList ν} {node : ν}
    (first : list.first = some node)
    (loop : list.next node = some node) (nodes : List ν) : ¬ list.Represents nodes := by
  intro represents
  rw [represents.first_eq] at first
  exact represents.next_ne_self (List.mem_of_head? first) loop

/-- The links of a listed node point at its neighbours in the sequence. -/
theorem Represents.links_of_split {list : IntrusiveList ν} {front back : List ν} {node : ν}
    (represents : list.Represents (front ++ node :: back)) :
    list.prev node = front.getLast? ∧ list.next node = back.head? := by
  obtain ⟨prevEq, nextEq, _⟩ := (segment_append.mp represents.linked).2
  exact ⟨by simpa using prevEq, by simpa using nextEq⟩

/-- A fresh node in the middle of a sequence leaves it without duplicates. -/
private theorem nodup_insert {front back : List ν} {node : ν}
    (nodup : (front ++ back).Nodup) (fresh : node ∉ front ++ back) :
        (front ++ node :: back).Nodup := by
  obtain ⟨nodupFront, nodupBack, apart⟩ := List.nodup_append.mp nodup
  obtain ⟨notFront, notBack⟩ := List.mem_append.not.trans not_or |>.mp fresh
  refine List.nodup_append.mpr ⟨nodupFront, List.nodup_cons.mpr ⟨notBack, nodupBack⟩, ?_⟩
  intro left inFront right inBack
  rcases List.mem_cons.mp inBack with rfl | inBack
  · exact fun same => notFront (same ▸ inFront)
  · exact apart left inFront right inBack

section Operations

variable [DecidableEq ν] {list : IntrusiveList ν} {nodes : List ν} {node : ν}

/-- Redirecting the forward link of the last node changes the successor of a segment. -/
theorem Segment.retarget_after {next prev : ν → Option ν} {front : List ν} {tail : ν}
    {before after : Option ν} (after' : Option ν) (nodup : (front ++ [tail]).Nodup)
    (linked : Segment next prev before (front ++ [tail]) after) :
    Segment (Function.update next tail after') prev before (front ++ [tail]) after' := by
  obtain ⟨frontLinked, prevTail, _, _⟩ := segment_append.mp linked
  refine segment_append.mpr ⟨frontLinked.congr fun other member => ?_,
    prevTail, by simp, trivial⟩
  have different : other ≠ tail := (List.nodup_append.mp nodup).2.2 other member tail (by simp)
  exact ⟨Function.update_of_ne different .., rfl⟩

/-- Redirecting the backward link of the first node changes the predecessor of a segment. -/
theorem Segment.retarget_before {next prev : ν → Option ν} {back : List ν} {head : ν}
    {before after : Option ν} (before' : Option ν) (nodup : (head :: back).Nodup)
    (linked : Segment next prev before (head :: back) after) :
    Segment next (Function.update prev head before') before' (head :: back) after := by
  obtain ⟨_, nextHead, rest⟩ := linked
  refine ⟨by simp, nextHead, rest.congr fun other member => ⟨rfl, ?_⟩⟩
  have different : other ≠ head := fun same => (List.nodup_cons.mp nodup).1 (same ▸ member)
  exact Function.update_of_ne different ..

/-- A segment ignores changes to the links of a node outside it. -/
theorem Segment.update_outside {next prev : ν → Option ν} {before after : Option ν}
    (linked : Segment next prev before nodes after) (outside : node ∉ nodes)
    (nextValue prevValue : Option ν) :
    Segment (Function.update next node nextValue) (Function.update prev node prevValue)
      before nodes after :=
  linked.congr fun other member =>
    have different : other ≠ node := fun same => outside (same ▸ member)
    ⟨Function.update_of_ne different .., Function.update_of_ne different ..⟩

/-- Clearing the links of a node outside the list keeps what it represents. -/
theorem Represents.clearLinks (represents : list.Represents nodes) (outside : node ∉ nodes) :
    (list.clearLinks node).Represents nodes where
  nodup := represents.nodup
  first_eq := represents.first_eq
  last_eq := represents.last_eq
  size_eq := represents.size_eq
  linked := represents.linked.update_outside outside none none

/-- Inserting a fresh node at the head prepends it. -/
theorem Represents.insertHead (represents : list.Represents nodes) (fresh : node ∉ nodes) :
    (list.insertHead node).Represents (node :: nodes) := by
  obtain ⟨nodup, first_eq, last_eq, size_eq, linked⟩ := represents
  have nodup' : (node :: nodes).Nodup := List.nodup_cons.mpr ⟨fresh, nodup⟩
  cases nodes with
  | nil =>
      simp only [List.head?_nil, List.getLast?_nil, List.length_nil] at first_eq last_eq size_eq
      unfold IntrusiveList.insertHead
      rw [first_eq]
      exact ⟨nodup', rfl, rfl, by simp [size_eq], by simp [Segment]⟩
  | cons head tail =>
      simp only [List.head?_cons] at first_eq
      unfold IntrusiveList.insertHead
      rw [first_eq]
      refine ⟨nodup', rfl, ?_, by simp [size_eq], by simp, by simp, ?_⟩
      · simpa [List.getLast?_cons_cons] using last_eq
      · exact (linked.retarget_before (some node) nodup).update_outside fresh (some head) none

/-- Inserting a fresh node at the tail appends it. -/
theorem Represents.insertTail (represents : list.Represents nodes) (fresh : node ∉ nodes) :
    (list.insertTail node).Represents (nodes ++ [node]) := by
  obtain ⟨nodup, first_eq, last_eq, size_eq, linked⟩ := represents
  have nodup' : (nodes ++ [node]).Nodup :=
    List.nodup_append.mpr ⟨nodup, List.nodup_singleton node, fun other member single present => by
      rw [List.mem_singleton] at present
      rintro rfl
      exact fresh (present ▸ member)⟩
  rcases List.eq_nil_or_concat nodes with rfl | ⟨front, tail, rfl⟩
  · simp only [List.head?_nil, List.getLast?_nil, List.length_nil] at first_eq last_eq size_eq
    unfold IntrusiveList.insertTail
    rw [last_eq]
    exact ⟨nodup', rfl, rfl, by simp [size_eq], by simp [Segment]⟩
  · rw [List.concat_eq_append] at *
    rw [List.getLast?_concat] at last_eq
    unfold IntrusiveList.insertTail
    rw [last_eq]
    refine ⟨by simpa using nodup', ?_, by simp, by simp [size_eq], ?_⟩
    · simp [first_eq]
    · refine segment_append.mpr ⟨?_, by simp, by simp, trivial⟩
      exact (linked.retarget_after (some node) nodup).update_outside fresh none (some tail)

/-- Removing a listed node deletes it from the sequence. -/
theorem Represents.remove {front back : List ν}
    (represents : list.Represents (front ++ node :: back)) :
    (list.remove node).Represents (front ++ back) := by
  obtain ⟨prevNode, nextNode⟩ := represents.links_of_split
  obtain ⟨nodup, first_eq, last_eq, size_eq, linked⟩ := represents
  obtain ⟨frontLinked, _, _, backLinked⟩ := segment_append.mp linked
  obtain ⟨nodupFront, nodupRest, apart⟩ := List.nodup_append.mp nodup
  obtain ⟨notBack, nodupBack⟩ := List.nodup_cons.mp nodupRest
  have notFront : node ∉ front := fun member => apart node member node (by simp) rfl
  have nodup' : (front ++ back).Nodup := List.nodup_append.mpr
    ⟨nodupFront, nodupBack, fun left inFront right inBack =>
      apart left inFront right (List.mem_cons_of_mem _ inBack)⟩
  have outside : node ∉ front ++ back := by simp [notFront, notBack]
  have sizes : (if list.size = 0 then 0xFFFFFFFF else list.size - 1) = (front ++ back).length := by
    simp [size_eq]
  rcases List.eq_nil_or_concat front with rfl | ⟨front, tail, rfl⟩
  · cases back with
    | nil =>
        simp only [List.getLast?_nil, List.head?_nil] at prevNode nextNode
        simp only [IntrusiveList.remove, bridgeBackward, bridgeForward, nextNode, prevNode]
        exact ⟨nodup', rfl, rfl, sizes, trivial⟩
    | cons head back =>
        simp only [List.getLast?_nil, List.head?_cons] at prevNode nextNode
        have headNe : node ≠ head := fun same => notBack (same ▸ List.mem_cons_self ..)
        simp only [IntrusiveList.remove, bridgeBackward, nextNode, bridgeForward,
          Function.update_of_ne headNe, prevNode]
        refine ⟨nodup', rfl, ?_, sizes, ?_⟩
        · simpa using last_eq
        · exact (backLinked.retarget_before none nodupBack).update_outside notBack none none
  · rw [List.concat_eq_append] at *
    rw [List.getLast?_concat] at prevNode
    cases back with
    | nil =>
        rw [List.head?_nil] at nextNode
        simp only [IntrusiveList.remove, bridgeBackward, nextNode, bridgeForward, prevNode]
        refine ⟨nodup', ?_, ?_, sizes, ?_⟩
        · simpa using first_eq
        · simp
        · rw [List.append_nil]
          exact (frontLinked.retarget_after none nodupFront).update_outside notFront none none
    | cons head back =>
        rw [List.head?_cons] at nextNode
        have headNe : node ≠ head := fun same => notBack (same ▸ List.mem_cons_self ..)
        simp only [IntrusiveList.remove, bridgeBackward, nextNode, bridgeForward,
          Function.update_of_ne headNe, prevNode]
        have tailBack : tail ∉ head :: back := fun member =>
          apart tail (by simp) tail (List.mem_cons_of_mem _ member) rfl
        have headFront : head ∉ front ++ [tail] := fun member =>
          apart head member head (by simp) rfl
        refine ⟨nodup', ?_, ?_, sizes, ?_⟩
        · simpa using first_eq
        · simpa using last_eq
        · refine Segment.update_outside ?_ outside none none
          refine segment_append.mpr ⟨?_, ?_⟩
          · refine (frontLinked.retarget_after (some head) nodupFront).congr fun other member => ?_
            have different : other ≠ head := fun same => headFront (same ▸ member)
            exact ⟨rfl, Function.update_of_ne different ..⟩
          · rw [List.getLast?_concat]
            refine (backLinked.retarget_before (some tail) nodupBack).congr fun other member => ?_
            have different : other ≠ tail := fun same => tailBack (same ▸ member)
            exact ⟨Function.update_of_ne different .., rfl⟩

/-- Inserting a fresh node after a listed one puts it right behind that one. -/
theorem Represents.insertAfter {front back : List ν} {listed : ν}
    (represents : list.Represents (front ++ listed :: back))
    (fresh : node ∉ front ++ listed :: back) :
    (list.insertAfter listed node).Represents (front ++ listed :: node :: back) := by
  obtain ⟨prevListed, nextListed⟩ := represents.links_of_split
  obtain ⟨nodup, first_eq, last_eq, size_eq, linked⟩ := represents
  have nodup' : (front ++ listed :: node :: back).Nodup := by
    have inserted : ((front ++ [listed]) ++ node :: back).Nodup :=
      nodup_insert (by simpa using nodup) (by simpa using fresh)
    simpa using inserted
  obtain ⟨frontLinked, _, _, backLinked⟩ := segment_append.mp linked
  obtain ⟨_, nodupRest, apart⟩ := List.nodup_append.mp nodup
  obtain ⟨listedBack, nodupBack⟩ := List.nodup_cons.mp nodupRest
  have nodeListed : node ≠ listed := fun same => fresh (by simp [same])
  have nodeFront : node ∉ front := fun member => fresh (by simp [member])
  have nodeBack : node ∉ back := fun member => fresh (by simp [member])
  have listedFront : listed ∉ front := fun member => apart listed member listed (by simp) rfl
  have first_eq' : list.first = (front ++ listed :: node :: back).head? := by
    simpa [List.head?_append] using first_eq
  have size_eq' : list.size + 1 = (front ++ listed :: node :: back).length := by
    simp only [size_eq, List.length_append, List.length_cons]
    omega
  unfold IntrusiveList.insertAfter
  cases back with
  | nil =>
      rw [List.head?_nil] at nextListed
      simp only [nextListed]
      refine ⟨nodup', first_eq', ?_, size_eq', ?_⟩
      · simp [Function.update_of_ne nodeListed]
      · refine segment_append.mpr ⟨?_, ?_, by simp, ?_⟩
        · exact (frontLinked.update_outside nodeFront none (some listed)).congr fun other member =>
            ⟨Function.update_of_ne (fun same : other = listed => listedFront (same ▸ member))
              .., rfl⟩
        · simpa [Function.update_of_ne nodeListed.symm] using prevListed
        · exact ⟨by simp, by simp [Function.update_of_ne nodeListed], trivial⟩
  | cons head back =>
      rw [List.head?_cons] at nextListed
      simp only [nextListed]
      have headFront : head ∉ front := fun member => apart head member head (by simp) rfl
      have listedHead : listed ≠ head := fun same => listedBack (same ▸ List.mem_cons_self ..)
      have nodeHead : node ≠ head := fun same => nodeBack (same ▸ List.mem_cons_self ..)
      refine ⟨nodup', first_eq', ?_, size_eq', ?_⟩
      · simpa [Function.update_of_ne nodeListed] using last_eq
      · refine segment_append.mpr ⟨?_, ?_, by simp, ?_⟩
        · refine frontLinked.congr fun other member => ?_
          have notListed : other ≠ listed := fun same => listedFront (same ▸ member)
          have notNode : other ≠ node := fun same => nodeFront (same ▸ member)
          have notHead : other ≠ head := fun same => headFront (same ▸ member)
          simp only [Function.update_of_ne notListed, Function.update_of_ne notNode,
            Function.update_of_ne notHead, and_self]
        · simpa [Function.update_of_ne nodeListed.symm, Function.update_of_ne listedHead]
            using prevListed
        · refine ⟨by simp, by simp [Function.update_of_ne nodeListed], ?_⟩
          refine ((backLinked.retarget_before (some node) nodupBack).update_outside nodeBack
            (some head) (some listed)).congr fun other member => ⟨?_, rfl⟩
          exact Function.update_of_ne (fun same : other = listed => listedBack (same ▸ member)) ..

/-- Inserting a fresh node before a listed one puts it right in front of that one. -/
theorem Represents.insertBefore {front back : List ν} {listed : ν}
    (represents : list.Represents (front ++ listed :: back))
    (fresh : node ∉ front ++ listed :: back) :
    (list.insertBefore listed node).Represents (front ++ node :: listed :: back) := by
  obtain ⟨prevListed, nextListed⟩ := represents.links_of_split
  obtain ⟨nodup, first_eq, last_eq, size_eq, linked⟩ := represents
  have nodup' : (front ++ node :: listed :: back).Nodup := nodup_insert nodup fresh
  obtain ⟨frontLinked, restLinked⟩ := segment_append.mp linked
  obtain ⟨nodupFront, nodupRest, apart⟩ := List.nodup_append.mp nodup
  have nodeListed : node ≠ listed := fun same => fresh (by simp [same])
  have nodeFront : node ∉ front := fun member => fresh (by simp [member])
  have nodeRest : node ∉ listed :: back := fun member => fresh (List.mem_append_right _ member)
  have listedFront : listed ∉ front := fun member => apart listed member listed (by simp) rfl
  have last_eq' : list.last = (front ++ node :: listed :: back).getLast? := by
    simpa [List.getLast?_append, List.getLast?_cons_cons] using last_eq
  have size_eq' : list.size + 1 = (front ++ node :: listed :: back).length := by
    simp only [size_eq, List.length_append, List.length_cons]
    omega
  have rest := (restLinked.update_outside nodeRest (some listed) (list.prev listed)).retarget_before
    (some node) nodupRest
  unfold IntrusiveList.insertBefore
  simp only [Function.update_of_ne nodeListed.symm]
  rcases List.eq_nil_or_concat front with rfl | ⟨front, tail, rfl⟩
  · rw [List.getLast?_nil] at prevListed
    rw [prevListed] at rest ⊢
    refine ⟨nodup', rfl, last_eq', size_eq', ?_⟩
    exact ⟨by simp [Function.update_of_ne nodeListed], by simp, rest⟩
  · rw [List.concat_eq_append] at *
    rw [List.getLast?_concat] at prevListed
    rw [prevListed] at rest ⊢
    have tailRest : tail ∉ listed :: back := fun member =>
      apart tail (by simp) tail member rfl
    have nodeTail : node ≠ tail := fun same => nodeFront (by simp [same])
    refine ⟨nodup', ?_, last_eq', size_eq', ?_⟩
    · simpa [List.head?_append] using first_eq
    · refine segment_append.mpr ⟨?_, ?_, ?_, ?_⟩
      · refine ((frontLinked.retarget_after (some node) nodupFront).congr fun other member => ?_)
        have notNode : other ≠ node := fun same => nodeFront (same ▸ member)
        have notListed : other ≠ listed := fun same => listedFront (same ▸ member)
        refine ⟨?_, ?_⟩
        · by_cases last : other = tail
          · simp [last]
          · simp only [Function.update_of_ne last, Function.update_of_ne notNode]
        · simp only [Function.update_of_ne notListed, Function.update_of_ne notNode]
      · simp [Function.update_of_ne nodeListed]
      · simp [Function.update_of_ne nodeTail]
      · exact rest.congr fun other member =>
          ⟨Function.update_of_ne (fun same : other = tail => tailRest (same ▸ member)) ..,
            rfl⟩

/-- Inserting a node changes no links outside the list. -/
theorem Represents.insertHead_outside (represents : list.Represents nodes) {other : ν}
    (different : other ≠ node) (outside : other ∉ nodes) :
    (list.insertHead node).next other = list.next other ∧
      (list.insertHead node).prev other = list.prev other := by
  have first_eq := represents.first_eq
  unfold IntrusiveList.insertHead
  cases nodes with
  | nil =>
      rw [List.head?_nil] at first_eq
      rw [first_eq]
      exact ⟨Function.update_of_ne different .., Function.update_of_ne different ..⟩
  | cons head tail =>
      rw [List.head?_cons] at first_eq
      rw [first_eq]
      have apart : other ≠ head := fun same => outside (same ▸ List.mem_cons_self ..)
      refine ⟨Function.update_of_ne different .., ?_⟩
      exact (Function.update_of_ne different ..).trans (Function.update_of_ne apart ..)

/-- Removing a listed node changes no links outside the list. -/
theorem Represents.remove_outside {front back : List ν}
    (represents : list.Represents (front ++ node :: back)) {other : ν}
    (outside : other ∉ front ++ node :: back) :
    (list.remove node).next other = list.next other ∧
      (list.remove node).prev other = list.prev other := by
  obtain ⟨prevNode, nextNode⟩ := represents.links_of_split
  have different : other ≠ node := fun same => outside (by simp [same])
  have beforeNe : ∀ before, list.prev node = some before → other ≠ before := by
    rintro before linked rfl
    rw [prevNode] at linked
    exact outside (List.mem_append_left _ (List.mem_of_getLast? linked))
  have afterNe : ∀ after, list.next node = some after → other ≠ after := by
    rintro after linked rfl
    rw [nextNode] at linked
    exact outside (by simp [List.mem_of_head? linked])
  unfold IntrusiveList.remove bridgeBackward
  cases following : list.next node with
  | none =>
      unfold bridgeForward
      cases preceding : list.prev node with
      | none =>
          simp only [IntrusiveList.clearLinks, Function.update_of_ne different, and_self]
      | some before =>
          simp only [IntrusiveList.clearLinks, Function.update_of_ne different,
            Function.update_of_ne (beforeNe before preceding), and_self]
  | some after =>
      have nodeNe : node ≠ after := by
        rintro rfl
        exact represents.next_ne_self (by simp) following
      unfold bridgeForward
      simp only [Function.update_of_ne nodeNe]
      cases preceding : list.prev node with
      | none =>
          simp only [IntrusiveList.clearLinks, Function.update_of_ne different,
            Function.update_of_ne (afterNe after following), and_self]
      | some before =>
          simp only [IntrusiveList.clearLinks, Function.update_of_ne different,
            Function.update_of_ne (afterNe after following),
            Function.update_of_ne (beforeNe before preceding), and_self]

end Operations

end IntrusiveList
