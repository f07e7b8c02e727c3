import FosKernel.Share.FreePages

/-!
# Objects are shared page by page

What processes see of shared objects over runs of `create_shared_object` and
`get_shared_object` at free addresses. Creation stores the frames of the pages in
the share, and every getter maps them again, so the frames stay in use: the
creator's pages still map them, and new frames are never among them.
-/

namespace FosKernel

namespace SharedMemory

variable {β : Type} {shared after : SharedMemory β} {frame : Nat} {framesStorage : List Nat}

/-- A page-aligned range of user addresses with nothing mapped. -/
structure FreeRange (shared : SharedMemory β) (directory : Nat) (va size : BitVec 32) : Prop where
  aligned : va.toNat % pageSize = 0
  inRange : va.toNat + size.toNat ≤ userTop
  unmapped : ∀ page, page * pageSize < size.toNat →
    shared.heap.memory.Unmapped directory (va.toNat + page * pageSize)

theorem FreeRange.page {directory page : Nat} {va size : BitVec 32}
    (free : shared.FreeRange directory va size) (inside : page < pagesOf size.toNat) :
    sharePage va.toNat page = va.toNat + page * pageSize ∧
      va.toNat + page * pageSize < userTop := by
  obtain ⟨aligned, inRange, -⟩ := free
  rw [lt_pagesOf_iff (by omega)] at inside
  have user : va.toNat + page * pageSize < userTop := by omega
  exact ⟨sharePage_eq user, user⟩

theorem FreeRange.freePages {directory : Nat} {va size : BitVec 32}
    (free : shared.FreeRange directory va size) :
    shared.FreePages directory va.toNat 0 (pagesOf size.toNat) := by
  intro page _ inside
  rw [Nat.zero_add] at inside
  obtain ⟨same, user⟩ := free.page inside
  rw [same]
  have inRange := free.inRange
  exact ⟨user, free.unmapped page ((lt_pagesOf_iff (by omega)).mp inside)⟩

theorem FreeRange.of_entry {directory : Nat} {va size : BitVec 32}
    (free : shared.FreeRange directory va size)
    (same : ∀ directory va, va < userTop →
      after.heap.memory.entry directory va = shared.heap.memory.entry directory va) :
    after.FreeRange directory va size where
  aligned := free.aligned
  inRange := free.inRange
  unmapped page inside := by
    have inRange := free.inRange
    exact Memory.SamePage.unmapped (.of_entry (same _ _ (by omega))) (free.unmapped page inside)

/-- The pages from an address map some frames, all of them writeable or none. -/
def Shows (memory : Memory) (framesStorage : List Nat) (directory : Nat) (va : BitVec 32)
    (writeable : Bool) : Prop :=
  ∀ page frame, framesStorage[page]? = some frame → va.toNat + page * pageSize < userTop ∧
    ∃ entry, memory.entry directory (va.toNat + page * pageSize) = some entry ∧
      entry.present = true ∧ entry.frame = frame ∧ Perm.has entry.perm permWriteable = writeable

theorem Shows.keep {directory : Nat} {va : BitVec 32} {writeable : Bool}
    (shows' : Shows shared.heap.memory framesStorage directory va writeable)
    (kept : shared.KeepsUserPages after) :
    Shows after.heap.memory framesStorage directory va writeable := by
  intro page frame recorded
  obtain ⟨user, entry, here, present, rest⟩ := shows' page frame recorded
  exact ⟨user, entry, kept _ _ entry user here present, present, rest⟩

theorem Shows.mappers_nonempty {memory : Memory} {directory : Nat} {va : BitVec 32}
    {writeable : Bool} (shows' : Shows memory framesStorage directory va writeable)
    (member : frame ∈ framesStorage) : (mappers memory.tables frame).Nonempty := by
  obtain ⟨page, recorded⟩ := List.mem_iff_getElem?.mp member
  obtain ⟨-, entry, here, present, same, -⟩ := shows' page frame recorded
  exact Memory.Maps.mappers_nonempty ⟨entry, here, present, same⟩

end SharedMemory

/-- A call of `create_shared_object` and what it returned. -/
structure SharedObject where
  creation : ShareCreation
  size : BitVec 32
  isWritable : UInt8
  directory : Nat
  va : BitVec 32
  id : Int

/-- A call of `get_shared_object` and what it returned. -/
structure GottenObject where
  ownerId : BitVec 32
  name : List UInt8
  directory : Nat
  va : BitVec 32
  id : Int

/-- The shared memory with the successful creations, in the order of the list of shares, and the
successful calls of `get_shared_object`. -/
structure SharingLog (β : Type) where
  shared : SharedMemory β
  created : List SharedObject
  gotten : List GottenObject

/-- The owner and the name. -/
def SharedObject.key (object : SharedObject) : BitVec 32 × List UInt8 := object.creation.key

def GottenObject.key (got : GottenObject) : BitVec 32 × List UInt8 := (got.ownerId, got.name)

namespace SharingLog

open SharedMemory

variable {β : Type} {D : DynAllocator β} {managed : Finset Nat} {log next : SharingLog β}

/-- A call that returns, at a free range for all pages of the object, with a name that is shorter
than 63 bytes, and with fewer than 65536 mappings of each frame afterwards. -/
inductive Step (D : DynAllocator β) (log : SharingLog β) : SharingLog β → Prop where
  | create {overrun : Nat → List UInt8} {object : SharedObject} {after : SharedMemory β}
      (short : object.creation.name.length < shareNameLength - 1)
      (free : log.shared.FreeRange object.directory object.va object.size)
      (returned : log.shared.createSharedObject D overrun object.creation.contents
        object.directory object.creation.ownerId object.creation.name object.size.toNat
        object.isWritable object.va.toNat = .ok (object.id, after)) :
      Step D log ⟨after, if 0 ≤ object.id then log.created ++ [object] else
        log.created, log.gotten⟩
  | get {overrun : Nat → List UInt8} {got : GottenObject} {after : SharedMemory β}
      (free : ∀ object ∈ log.created, object.key = got.key →
        log.shared.FreeRange got.directory got.va object.size)
      (few : ∀ frame, (mappers after.heap.memory.tables frame).encard < 2 ^ 16)
      (returned : log.shared.getSharedObject D overrun got.directory got.ownerId got.name
        got.va.toNat = .ok (got.id, after)) :
      Step D log ⟨after, log.created, if 0 ≤ got.id then log.gotten ++ [got] else log.gotten⟩

/-- The share of a creation: its frames are mapped at the creator's pages. -/
structure Stored (memory : Memory) (share : Share) (object : SharedObject) : Prop where
  made : ShareCreation.Made share object.creation
  id : (share.id : Int) = object.id
  size : share.size = object.size.toNat
  isWritable : share.isWritable = object.isWritable
  length : share.framesStorage.length = pagesOf object.size.toNat
  inRange : object.va.toNat + object.size.toNat ≤ userTop
  pages : Shows memory share.framesStorage object.directory object.va true

/-- A getter got a share: its pages map the frames of the share as well. -/
structure Got (memory : Memory) (shares : List Share) (created : List SharedObject)
    (got : GottenObject) (index : Nat) (share : Share) (object : SharedObject) : Prop where
  listed : shares[index]? = some share
  created : created[index]? = some object
  key : object.key = got.key
  id : got.id = object.id
  pages : Shows memory share.framesStorage got.directory got.va (decide (object.isWritable ≠ 0))

/-- The frames of all pages of all shares are different. -/
def FramesApart (shares : List Share) : Prop :=
  ∀ (first second : Nat) (share share' : Share) (page page' frame : Nat),
    shares[first]? = some share →
    shares[second]? = some share' → share.framesStorage[page]? = some frame →
      share'.framesStorage[page']? = some frame → first = second ∧ page = page'

/-- What the calls keep. -/
structure Sharing (managed : Finset Nat) (log : SharingLog β) : Prop where
  kept : log.shared.Kept managed ∅
  layout : log.shared.Layout
  fit : ∀ object ∈ log.created, object.creation.Fits
  keys : (log.created.map SharedObject.key).Nodup
  stored : List.Forall₂ (Stored log.shared.heap.memory) log.shared.sharesList log.created
  gotten : ∀ got ∈ log.gotten, ∃ index share object,
    Got log.shared.heap.memory log.shared.sharesList log.created got index share object
  apart : FramesApart log.shared.sharesList

theorem Stored.keep {shared after : SharedMemory β} {share : Share} {object : SharedObject}
    (stored : Stored shared.heap.memory share object) (kept : shared.KeepsUserPages after) :
    Stored after.heap.memory share object :=
  { stored with pages := stored.pages.keep kept }

theorem Sharing.made (sharing : log.Sharing managed) :
    List.Forall₂ ShareCreation.Made log.shared.sharesList
      (log.created.map SharedObject.creation) :=
  List.forall₂_map_right_iff.mpr (sharing.stored.imp fun _ _ stored => stored.made)

/-- A lookup finds the share of the creation with the owner and the name. -/
theorem Sharing.findShare_iff (sharing : log.Sharing managed) (overrun : Nat → List UInt8)
    (ownerId : BitVec 32) (name : List UInt8) (index : Nat) :
    log.shared.findShare overrun ownerId name = some index ↔
      ∃ object, log.created[index]? = some object ∧ object.key = (ownerId, name) := by
  have found := @findShareFrom_iff _ _ sharing.made ?_ ?_ overrun ownerId name index 0
  · rw [Nat.zero_add] at found
    refine found.trans ⟨?_, ?_⟩
    · rintro ⟨creation, listed, named⟩
      rw [List.getElem?_map, Option.map_eq_some_iff] at listed
      obtain ⟨object, listed, rfl⟩ := listed
      exact ⟨object, listed, named⟩
    · rintro ⟨object, listed, named⟩
      refine ⟨object.creation, ?_, named⟩
      rw [List.getElem?_map, listed, Option.map_some]
  · intro creation member
    obtain ⟨object, listed, rfl⟩ := List.mem_map.mp member
    exact sharing.fit object listed
  · rw [List.map_map]
    exact sharing.keys

/-- What leaves the list of shares and the present user pages alone. -/
theorem Sharing.keep (sharing : log.Sharing managed) {after : SharedMemory β}
    (kept : after.Kept managed ∅) (layout : after.Layout)
    (pages : log.shared.KeepsUserPages after) (same : after.sharesList = log.shared.sharesList) :
    Sharing managed ⟨after, log.created, log.gotten⟩ where
  kept := kept
  layout := layout
  fit := sharing.fit
  keys := sharing.keys
  stored := by
    rw [same]
    exact sharing.stored.imp fun _ _ stored => stored.keep pages
  gotten got member := by
    obtain ⟨index, share, object, found⟩ := sharing.gotten got member
    refine ⟨index, share, object, ?_⟩
    rw [same]
    exact { found with pages := found.pages.keep pages }
  apart := by
    rw [same]
    exact sharing.apart

theorem Sharing.stored_of_listed (sharing : log.Sharing managed) {index : Nat} {share : Share}
    {object : SharedObject} (listed : log.shared.sharesList[index]? = some share)
    (created : log.created[index]? = some object) :
    Stored log.shared.heap.memory share object := by
  obtain ⟨inside, rfl⟩ := List.getElem?_eq_some_iff.mp listed
  obtain ⟨inside', rfl⟩ := List.getElem?_eq_some_iff.mp created
  exact sharing.stored.get inside inside'

theorem Sharing.allocShare (sharing : log.Sharing managed) (accessing : D.Accessing)
    {contents : List UInt8} {ownerId : BitVec 32} {shareName : List UInt8} {size : Nat}
    {isWritable : UInt8} {made : Option Share} {heap : KHeap β}
    (allocated : SharedMemory.allocShare D log.shared.heap contents ownerId shareName size
      isWritable = .ok (made, heap)) :
    Sharing managed ⟨{ log.shared with heap := heap }, log.created, log.gotten⟩ :=
  sharing.keep (sharing.kept.allocShare accessing allocated)
    (sharing.layout.allocShare accessing allocated 0).1
    (.of_entry fun directory _ user =>
      sharing.layout.allocShare_entry accessing allocated directory user) rfl

/-- The frames of a share are in use. -/
theorem Sharing.mappers_nonempty (sharing : log.Sharing managed) {share : Share} {frame : Nat}
    (listed : share ∈ log.shared.sharesList) (member : frame ∈ share.framesStorage) :
    (mappers log.shared.heap.memory.tables frame).Nonempty := by
  obtain ⟨index, inside, rfl⟩ := List.getElem_of_mem listed
  have stored := sharing.stored.get inside (sharing.stored.length_eq ▸ inside)
  exact stored.pages.mappers_nonempty member

/-- A new share whose frames were not mapped before. -/
theorem FramesApart.append {shares : List Share} {share : Share} (apart : FramesApart shares)
    (distinct : ∀ page page' frame : Nat, share.framesStorage[page]? = some frame →
      share.framesStorage[page']? = some frame → page = page')
    (new : ∀ old ∈ shares, ∀ frame ∈ old.framesStorage, frame ∉ share.framesStorage) :
    FramesApart (shares ++ [share]) := by
  have old : ∀ {index other}, (shares ++ [share])[index]? = some other →
      shares[index]? = some other ∨ index = shares.length ∧ other = share := by
    intro index other listed
    rw [List.getElem?_append] at listed
    split at listed
    · exact .inl listed
    · rename_i above
      have here : index - shares.length = 0 := by
        by_contra further
        rw [List.getElem?_eq_none (by simpa using by omega)] at listed
        cases listed
      rw [here] at listed
      exact .inr ⟨by omega, (Option.some.inj listed).symm⟩
  intro first second one other page page' frame listed listed' recorded recorded'
  rcases old listed with before | ⟨rfl, rfl⟩ <;> rcases old listed' with
    before' | ⟨rfl, rfl⟩
  · exact apart first second one other page page' frame before before' recorded recorded'
  · exact absurd (List.mem_of_getElem? recorded')
      (new one (List.mem_of_getElem? before) frame (List.mem_of_getElem? recorded))
  · exact absurd (List.mem_of_getElem? recorded)
      (new other (List.mem_of_getElem? before') frame (List.mem_of_getElem? recorded'))
  · exact ⟨rfl, distinct page page' frame recorded recorded'⟩

theorem getElem?_append_of_some {α : Type} {front : List α} {index : Nat} {value : α}
    (listed : front[index]? = some value) (back : List α) :
    (front ++ back)[index]? = some value := by
  rw [List.getElem?_append_left (List.getElem?_eq_some_iff.mp listed).1, listed]

theorem Sharing.append {shared : SharedMemory β} {created : List SharedObject}
    {gotten : List GottenObject} (sharing : Sharing managed ⟨shared, created, gotten⟩)
    {share : Share} {object : SharedObject} (stored : Stored shared.heap.memory share object)
    (fit : object.creation.Fits) (untaken : object.key ∉ created.map SharedObject.key)
    (distinct : ∀ page page' frame : Nat, share.framesStorage[page]? = some frame →
      share.framesStorage[page']? = some frame → page = page')
    (new : ∀ old ∈ shared.sharesList, ∀ frame ∈ old.framesStorage,
      frame ∉ share.framesStorage) :
    Sharing managed
      ⟨{ shared with sharesList := shared.sharesList ++ [share] }, created ++ [object],
        gotten⟩ where
  kept := ⟨sharing.kept.pagesOnly, sharing.kept.counted⟩
  layout := ⟨sharing.layout.pagesOnly, sharing.layout.apart, sharing.layout.fresh⟩
  fit other member := by
    rcases List.mem_append.mp member with old | new
    · exact sharing.fit other old
    · obtain rfl := List.mem_singleton.mp new
      exact fit
  keys := by
    rw [List.map_append]
    refine List.Nodup.append sharing.keys (List.nodup_singleton _) fun key old new => ?_
    obtain rfl := List.mem_singleton.mp new
    exact untaken old
  stored := List.rel_append sharing.stored (.cons stored .nil)
  gotten got member := by
    obtain ⟨index, share', object', found⟩ := sharing.gotten got member
    exact ⟨index, share', object', { found with
      listed := getElem?_append_of_some found.listed _
      created := getElem?_append_of_some found.created _ }⟩
  apart := sharing.apart.append distinct new

/-- `create_shared_object` at a free range. -/
theorem Sharing.create (sharing : log.Sharing managed) (accessing : D.Accessing)
    {overrun : Nat → List UInt8} {object : SharedObject} {after : SharedMemory β}
    (short : object.creation.name.length < shareNameLength - 1)
    (free : log.shared.FreeRange object.directory object.va object.size)
    (returned : log.shared.createSharedObject D overrun object.creation.contents
      object.directory object.creation.ownerId object.creation.name object.size.toNat
      object.isWritable object.va.toNat = .ok (object.id, after)) :
    Sharing managed
      ⟨after, if 0 ≤ object.id then log.created ++ [object] else log.created,
          log.gotten⟩ := by
  rcases createSharedObject_adds returned with ⟨negative, failed⟩ |
    ⟨share, heap, framesStorage, placed, code, untaken, allocated, stored, rfl⟩
  · rw [if_neg (Int.not_le.mpr negative)]
    rcases failed with rfl | ⟨heap, rfl, allocated⟩
    · exact sharing
    · refine sharing.keep (sharing.kept.allocShare accessing allocated)
        (sharing.layout.allocShare accessing allocated 0).1 ?_ rfl
      intro directory va entry user here present
      rwa [← sharing.layout.allocShare_entry accessing allocated directory user] at here
  · rw [if_pos (code ▸ Int.natCast_nonneg _)]
    have ready : Sharing managed ⟨{ log.shared with heap := heap }, log.created,
        log.gotten⟩ := by
      exact sharing.allocShare accessing allocated
    have free' : FreeRange { log.shared with heap := heap } object.directory object.va
        object.size :=
      free.of_entry fun directory va user =>
        sharing.layout.allocShare_entry accessing allocated directory user
    have fits : 0 + pagesOf object.size.toNat ≤ 2 ^ 20 := by
      rw [Nat.zero_add]
      exact pagesOf_le _
    have length := allocShare_length allocated
    rw [← sharePage_zero object.va.isLt] at stored
    have later := ready.layout.placeFrames_extends accessing fits free'.freePages stored
    have installed := ready.layout.placeFrames_placed accessing ready.kept fits
      (by rw [length, Nat.zero_add]) free'.freePages stored
    have kept := ready.kept.placeFrames accessing stored
    have layout := (ready.layout.placeFrames accessing stored).1
    have same : placed.sharesList = log.shared.sharesList := (placeFrames_sharesList stored :)
    have length' : framesStorage.length = pagesOf object.size.toNat :=
      (placeFrames_length stored).trans length
    have recorded : ∀ page frame : Nat, framesStorage[page]? = some frame →
        page < pagesOf object.size.toNat := by
      intro page frame recorded
      rw [← length']
      exact (List.getElem?_eq_some_iff.mp recorded).1
    have placed' := ready.keep kept layout (.of_extends later) same
    rw [← same]
    refine placed'.append ?_ (.inl short) ?_ ?_ ?_
    · obtain ⟨owner, name⟩ := allocShare_fields allocated
      obtain ⟨size, isWritable⟩ := allocShare_record allocated
      refine ⟨⟨owner, name⟩, code.symm, size, isWritable, length', free.inRange, ?_⟩
      intro page frame found
      have inside := recorded page frame found
      obtain ⟨address, user⟩ := free.page inside
      obtain ⟨entry, here, present, writeable, stored, -⟩ :=
        installed.new page (Nat.zero_le _) (by omega)
      rw [address] at here
      exact ⟨user, entry, here, present, Option.some.inj (stored.symm.trans found), writeable⟩
    · intro taken
      obtain ⟨other, member, named⟩ := List.mem_map.mp taken
      obtain ⟨index, listed⟩ := List.mem_iff_getElem?.mp member
      have found := (sharing.findShare_iff overrun _ _ index).mpr ⟨other, listed, named⟩
      rw [untaken] at found
      cases found
    · intro page page' frame found found'
      have inside := recorded page frame found
      have inside' := recorded page' frame found'
      exact installed.distinct page page' (Nat.zero_le _) (by omega) (Nat.zero_le _) (by omega)
        (found.trans found'.symm)
    · intro old listed frame member again
      obtain ⟨page, found⟩ := List.mem_iff_getElem?.mp again
      have inside := recorded page frame found
      obtain ⟨entry, -, -, -, stored, unused⟩ := installed.new page (Nat.zero_le _) (by omega)
      obtain rfl := Option.some.inj (stored.symm.trans found)
      have used := ready.mappers_nonempty (same ▸ listed) member
      exact Set.not_nonempty_empty (unused ▸ used)

/-- Counting a reference changes nothing else of a share. -/
theorem getElem?_countReference {shares : List Share} {index place : Nat} {share : Share}
    (listed : (shares.modify index fun share =>
      { share with references := add32 share.references 1 })[place]? = some share) :
    ∃ old, shares[place]? = some old ∧ share.framesStorage = old.framesStorage := by
  rw [List.getElem?_modify, Option.map_eq_map, Option.map_eq_some_iff] at listed
  obtain ⟨old, listed, rfl⟩ := listed
  refine ⟨old, listed, ?_⟩
  split <;> rfl

/-- `get_shared_object` counts a reference to the share that it mapped. -/
theorem Sharing.countReference (sharing : log.Sharing managed) (index : Nat) :
    Sharing managed ⟨{ log.shared with
      sharesList := log.shared.sharesList.modify index fun share =>
        { share with references := add32 share.references 1 } }, log.created, log.gotten⟩ where
  kept := ⟨sharing.kept.pagesOnly, sharing.kept.counted⟩
  layout := ⟨sharing.layout.pagesOnly, sharing.layout.apart, sharing.layout.fresh⟩
  fit := sharing.fit
  keys := sharing.keys
  stored := by
    refine ShareHistory.forall₂_modify ?_ sharing.stored index
    exact fun _ _ stored => { stored with }
  gotten got member := by
    obtain ⟨place, share, object, found⟩ := sharing.gotten got member
    refine ⟨place, if index = place then { share with references := add32 share.references 1 }
      else share, object, ?_, found.created, found.key, found.id, ?_⟩
    · rw [List.getElem?_modify, found.listed]
      rfl
    · have pages := found.pages
      split <;> exact pages
  apart := by
    intro first second share share' page page' frame listed listed' recorded recorded'
    obtain ⟨old, before, same⟩ := getElem?_countReference listed
    obtain ⟨old', before', same'⟩ := getElem?_countReference listed'
    rw [same] at recorded
    rw [same'] at recorded'
    exact sharing.apart first second old old' page page' frame before before' recorded recorded'

/-- `get_shared_object` at a free range. -/
theorem Sharing.get (sharing : log.Sharing managed) (accessing : D.Accessing)
    {overrun : Nat → List UInt8} {got : GottenObject} {after : SharedMemory β}
    (free : ∀ object ∈ log.created, object.key = got.key →
      log.shared.FreeRange got.directory got.va object.size)
    (few : ∀ frame, (mappers after.heap.memory.tables frame).encard < 2 ^ 16)
    (returned : log.shared.getSharedObject D overrun got.directory got.ownerId got.name
      got.va.toNat = .ok (got.id, after)) :
    Sharing managed
      ⟨after, log.created, if 0 ≤ got.id then log.gotten ++ [got] else log.gotten⟩ := by
  rcases getSharedObject_found returned with ⟨negative, rfl⟩ |
    ⟨index, share, mapped, code, found, listed, maps, rfl⟩
  · rw [if_neg (Int.not_le.mpr negative)]
    exact sharing
  · rw [if_pos (code ▸ Int.natCast_nonneg _)]
    obtain ⟨object, created, named⟩ := (sharing.findShare_iff ..).mp found
    have free := free object (List.mem_of_getElem? created) named
    have stored := sharing.stored_of_listed listed created
    have size : numframe share.size = pagesOf object.size.toNat := by
      have counted := mapStorage_count maps
      have bound := pagesOf_le object.size.toNat
      have length := stored.length
      rw [← stored.size] at bound length ⊢
      rcases numframe_cases share.size with same | huge
      · exact same
      · omega
    rw [size] at maps
    have fits : 0 + pagesOf object.size.toNat ≤ 2 ^ 20 := by
      rw [Nat.zero_add]
      exact pagesOf_le _
    have later := sharing.layout.mapStorage_extends accessing fits free.freePages maps
    have regular : Perm.has (if share.isWritable ≠ 0 then permUser ||| permWriteable
        else permUser) permBuffered = false := by
      split <;> decide
    have few' : ∀ frame, (mappers mapped.heap.memory.tables frame).encard < 2 ^ 16 := few
    have kept := sharing.kept.mapStorage_of_few accessing sharing.layout regular fits
      free.freePages (fun frame member =>
        sharing.mappers_nonempty (List.mem_of_getElem? listed) member) few' maps
    have layout := (sharing.layout.mapStorage accessing fits
      (fun page lower upper frame _ => .inl (free.freePages page lower upper).1) maps).1
    have same : mapped.sharesList = log.shared.sharesList := mapStorage_sharesList maps
    have counted := (sharing.keep kept layout (.of_extends later) same).countReference index
    dsimp only at counted
    rw [same] at counted
    have pages : Shows mapped.heap.memory share.framesStorage got.directory got.va
        (decide (object.isWritable ≠ 0)) := by
      intro page frame recorded
      have inside : page < pagesOf object.size.toNat := by
        rw [← stored.length]
        exact (List.getElem?_eq_some_iff.mp recorded).1
      obtain ⟨address, user⟩ := free.page inside
      obtain ⟨available, here⟩ :=
        sharing.layout.mapStorage_installs accessing fits free.freePages
        maps (Nat.zero_le _) (by omega) recorded
      rw [address] at here
      refine ⟨user, _, here, present_of_installed .., rfl, ?_⟩
      rw [Perm.has_or, Perm.has_or, has_available_writeable, stored.isWritable]
      by_cases writeable : object.isWritable = 0
      · rw [if_neg (not_not_intro writeable), decide_eq_false (not_not_intro writeable)]
        decide
      · rw [if_pos writeable, decide_eq_true writeable]
        decide
    refine { counted with gotten := fun other member => ?_ }
    rcases List.mem_append.mp member with old | new
    · exact counted.gotten other old
    · obtain rfl := List.mem_singleton.mp new
      refine ⟨index, { share with references := add32 share.references 1 }, object, ?_, created,
        named, code.trans stored.id, pages⟩
      rw [List.getElem?_modify, listed]
      simp

theorem Step.sharing (step : Step D log next) (accessing : D.Accessing)
    (sharing : log.Sharing managed) : next.Sharing managed := by
  cases step with
  | create short free returned => exact sharing.create accessing short free returned
  | get free few returned => exact sharing.get accessing free few returned

theorem Sharing.of_run {start : SharedMemory β} (accessing : D.Accessing)
    (spaces : start.AddressSpaces managed) (empty : start.sharesList = [])
    (run : Relation.ReflTransGen (Step D) ⟨start, [], []⟩ log) : log.Sharing managed := by
  induction run with
  | refl =>
      refine ⟨spaces.kept, spaces.layout, List.forall_mem_nil _, List.nodup_nil, ?_,
        List.forall_mem_nil _, ?_⟩
      · rw [empty]
        exact .nil
      · intro first second share share' page page' frame listed
        rw [empty] at listed
        cases listed
  | tail _ step ih => exact step.sharing accessing ih

/-- Sharing works page by page. Names are created once, and a getter gets the id of the object that
was created under its name. Each of its pages maps the frame that the creator's page maps, writeable
exactly if the object is, and different pages of all objects have different frames. -/
structure PageByPage (log : SharingLog β) : Prop where
  keys : (log.created.map SharedObject.key).Nodup
  resolved : ∀ got ∈ log.gotten, ∃ object ∈ log.created, object.key = got.key
  ids : ∀ got ∈ log.gotten, ∀ object ∈ log.created, object.key = got.key →
    got.id = object.id
  pages : ∀ got ∈ log.gotten, ∀ object ∈ log.created, object.key = got.key →
    ∀ page, page * pageSize < object.size.toNat → ∃ own shared,
      log.shared.heap.memory.entry object.directory (object.va.toNat + page * pageSize) =
        some own ∧
      log.shared.heap.memory.entry got.directory (got.va.toNat + page * pageSize) = some shared ∧
      own.present = true ∧ shared.present = true ∧ shared.frame = own.frame ∧
      (Perm.has shared.perm permWriteable = true ↔ object.isWritable ≠ 0)
  distinct : ∀ (first second : Nat) (object object' : SharedObject) (page page' frame : Nat),
    log.created[first]? = some object → log.created[second]? = some object' →
    page * pageSize < object.size.toNat → page' * pageSize < object'.size.toNat →
    log.shared.heap.memory.Maps object.directory (object.va.toNat + page * pageSize) frame →
    log.shared.heap.memory.Maps object'.directory (object'.va.toNat + page' * pageSize) frame →
      first = second ∧ page = page'

/-- The frame that a share records for a page is the one that the creator's page maps. -/
theorem Stored.exists_recorded {memory : Memory} {share : Share} {object : SharedObject}
    (stored : Stored memory share object) {page : Nat}
    (inside : page * pageSize < object.size.toNat) :
    ∃ frame entry, share.framesStorage[page]? = some frame ∧
      memory.entry object.directory (object.va.toNat + page * pageSize) = some entry ∧
      entry.present = true ∧ entry.frame = frame := by
  have inRange := stored.inRange
  have length : page < share.framesStorage.length := by
    rw [stored.length]
    exact (lt_pagesOf_iff (by omega)).mpr inside
  have recorded := List.getElem?_eq_getElem length
  obtain ⟨-, entry, here, present, same, -⟩ := stored.pages page _ recorded
  exact ⟨_, entry, recorded, here, present, same⟩

theorem Stored.recorded {memory : Memory} {share : Share} {object : SharedObject}
    (stored : Stored memory share object) {page frame : Nat}
    (inside : page * pageSize < object.size.toNat)
    (maps : memory.Maps object.directory (object.va.toNat + page * pageSize) frame) :
    share.framesStorage[page]? = some frame := by
  obtain ⟨frame', entry, recorded, here, -, same⟩ := stored.exists_recorded inside
  obtain ⟨entry', here', -, same'⟩ := maps
  obtain rfl := Option.some.inj (here.symm.trans here')
  rw [recorded, ← same, same']

theorem Sharing.pageByPage (sharing : log.Sharing managed) : log.PageByPage := by
  -- the creation that a getter found is the only one with its key
  have only : ∀ got ∈ log.gotten, ∀ object ∈ log.created, object.key = got.key →
      ∃ index share, Got log.shared.heap.memory log.shared.sharesList log.created got index share
        object := by
    intro got member object created named
    obtain ⟨index, share, other, found⟩ := sharing.gotten got member
    have same := List.inj_on_of_nodup_map sharing.keys (List.mem_of_getElem? found.created) created
      (found.key.trans named.symm)
    exact ⟨index, share, same ▸ found⟩
  refine ⟨sharing.keys, ?_, ?_, ?_, ?_⟩
  · intro got member
    obtain ⟨index, share, object, found⟩ := sharing.gotten got member
    exact ⟨object, List.mem_of_getElem? found.created, found.key⟩
  · intro got member object created named
    obtain ⟨index, share, found⟩ := only got member object created named
    exact found.id
  · intro got member object created named page inside
    obtain ⟨index, share, found⟩ := only got member object created named
    have stored := sharing.stored_of_listed found.listed found.created
    obtain ⟨frame, own, recorded, here, present, same⟩ := stored.exists_recorded inside
    obtain ⟨-, shared, here', present', same', writeable⟩ := found.pages page frame recorded
    refine ⟨own, shared, here, here', present, present', same'.trans same.symm, ?_⟩
    rw [writeable, decide_eq_true_eq]
  · intro first second object object' page page' frame created created' inside inside' maps maps'
    have length := sharing.stored.length_eq
    obtain ⟨bound, -⟩ := List.getElem?_eq_some_iff.mp created
    obtain ⟨bound', -⟩ := List.getElem?_eq_some_iff.mp created'
    have listed := List.getElem?_eq_getElem (length ▸ bound)
    have listed' := List.getElem?_eq_getElem (length ▸ bound')
    exact sharing.apart first second _ _ page page' frame listed listed'
      ((sharing.stored_of_listed listed created).recorded inside maps)
      ((sharing.stored_of_listed listed' created').recorded inside' maps')

end SharingLog

end FosKernel
