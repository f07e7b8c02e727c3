import FosKernel.Share.SharedFrames

/-!
# System calls on user-supplied addresses

`SYS_allocate_page`, `SYS_unmap_frame`, `SYS_create_shared_object`,
`SYS_get_shared_object` and `SYS_get_virtual_time` of `syscall.c`. The addresses that a
call stores through are recorded. The processor is write-protected in supervisor mode,
so a store to a page that is absent or not writeable faults; the call stops there.
-/

namespace FosKernel

/-- The running environment: its page directory and its `env_id`. -/
structure Caller where
  directory : Nat
  envId : BitVec 32

/-- The state during a system call, with the addresses that it has stored through. -/
structure UserStores (β : Type) where
  shared : SharedMemory β
  stored : List Nat

/-- The bytes of a `uint32`, the lowest first. -/
def wordBytes (word : BitVec 32) : List UInt8 :=
  (List.range 4).map fun index => ⟨(word >>> (8 * index)).setWidth 8⟩

/-- A system call with its arguments, what lies in the fresh memory of a share and behind the name
fields of the list, and the time stamp counter. -/
inductive AddressCall where
  | allocatePage (va perm : BitVec 32)
  | unmapFrame (va : BitVec 32)
  | createSharedObject (overrun : Nat → List UInt8) (contents shareName : List UInt8)
      (size : BitVec 32) (isWritable : UInt8) (va : BitVec 32)
  | getSharedObject (overrun : Nat → List UInt8) (ownerId : BitVec 32) (shareName : List UInt8)
      (va : BitVec 32)
  | getVirtualTime (low hi : BitVec 32) (time : BitVec 64)

variable {β : Type}

namespace UserStores

/-- Store a byte through an address. -/
def storeByte (stores : UserStores β) (directory va : Nat) (value : UInt8) :
    Except Halt (UserStores β) :=
  let memory := stores.shared.heap.memory
  match memory.entry directory va with
  | none => .error .pageFault
  | some entry =>
      if entry.present ∧ Perm.has entry.perm permWriteable then
        .ok ⟨stores.shared.setMemory (memory.writeByte directory va value),
          stores.stored ++ [va]⟩
      else .error .pageFault

/-- Store bytes through consecutive addresses. -/
def storeBytes (stores : UserStores β) (directory va : Nat) :
    List UInt8 → Except Halt (UserStores β)
  | [] => .ok stores
  | value :: values => do
      let stores ← stores.storeByte directory va value
      stores.storeBytes directory (add32 va 1) values

end UserStores

namespace SharedMemory

/-- `alloc_page` with `set_to_zero`. -/
def allocPage (D : DynAllocator β) (shared : SharedMemory β) (directory va : Nat) (perms : Perm) :
    Except Halt (UserStores β) :=
  match shared.heap.memory.getFrameInfo directory va with
  | some _ => .ok ⟨shared, []⟩
  | none =>
      match shared.heap.memory.allocateFrame with
      | none => .error .panic
      | some (frame, memory) => do
          let shared ← (shared.setMemory memory).mapFrame D directory frame va perms
          UserStores.storeBytes ⟨shared, []⟩ directory va (List.replicate pageSize 0)

/-- `__sys_allocate_page`. -/
def sysAllocatePage (D : DynAllocator β) (shared : SharedMemory β) (directory : Nat)
    (va perm : BitVec 32) : Except Halt (Int × UserStores β) :=
  if userTop ≤ va.toNat ∨ va.toNat % pageSize ≠ 0 then .ok (eInval, ⟨shared, []⟩)
  else if perm &&& (~~~(permAvailable.setWidth 32) &&& ~~~(permWriteable.setWidth 32)) ≠
      permUser.setWidth 32 then .ok (eInval, ⟨shared, []⟩)
  else do
    let stores ← shared.allocPage D directory va.toNat (perm.setWidth 12)
    return (0, stores)

/-- The branch of `syscall` for `SYS_get_virtual_time`. -/
def sysGetVirtualTime (shared : SharedMemory β) (directory : Nat) (low hi : BitVec 32)
    (time : BitVec 64) : Except Halt (Int × UserStores β) := do
  let stores : UserStores β := ⟨shared, []⟩
  let stores ← stores.storeBytes directory low.toNat (wordBytes (time.setWidth 32))
  let stores ← stores.storeBytes directory hi.toNat (wordBytes ((time >>> 32).setWidth 32))
  return (0, stores)

/-- A call that stores nothing through its addresses. -/
def withoutStores (result : Int × SharedMemory β) : Int × UserStores β :=
  (result.1, ⟨result.2, []⟩)

/-- `syscall`, for the calls on user-supplied addresses. -/
def syscall (D : DynAllocator β) (shared : SharedMemory β) (caller : Caller) :
    AddressCall → Except Halt (Int × UserStores β)
  | .allocatePage va perm => shared.sysAllocatePage D caller.directory va perm
  | .unmapFrame va => .ok (withoutStores (shared.sysUnmapFrame caller.directory va.toNat))
  | .createSharedObject overrun contents shareName size isWritable va =>
      (shared.createSharedObject D overrun contents caller.directory caller.envId shareName
        size.toNat isWritable va.toNat).map withoutStores
  | .getSharedObject overrun ownerId shareName va =>
      (shared.getSharedObject D overrun caller.directory ownerId shareName va.toNat).map
        withoutStores
  | .getVirtualTime low hi time => shared.sysGetVirtualTime caller.directory low hi time

end SharedMemory

end FosKernel
