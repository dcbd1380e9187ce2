import Mathlib.Data.BitVec
import Mathlib.Logic.Function.Basic
import RodActuator.Lib.HeapBlock
import RodActuator.Lib.Transition

/-! The heap of the kernel (`rt-thread/src/mem.c`). Addresses are offsets from `heap_ptr`, which is aligned; no sum of them
    wraps, since the heap lies in memory. -/

namespace RodActuator.Rtos

/-- `SIZEOF_STRUCT_MEM`. -/
def sizeofStructMem : Nat := 12

/-- `MIN_SIZE_ALIGNED`. -/
def minSizeAligned : Nat := 12

/-- `struct rt_small_mem_item`. The pool pointer is null, or that of the heap with the bit that says whether the item is
    used. -/
structure SmallMemItem where
  poolPtr : Option Bool
  next : Nat
  prev : Nat
  deriving DecidableEq, Repr

/-- `MEM_ISUSED`. -/
def SmallMemItem.isUsed (it : SmallMemItem) : Bool := it.poolPtr = some true

/-- `struct rt_small_mem`, with what reads as an item at each place of the heap, and the places where items have been
    written, the last one first. -/
structure SmallMem where
  item : Nat → SmallMemItem
  writes : List Nat
  lfree : Nat
  memSizeAligned : Nat
  used : Nat
  max : Nat

/-- `RT_ALIGN(size, RT_ALIGN_SIZE)`. -/
def alignSize (size : BitVec 32) : BitVec 32 := (size + 3#32) &&& ~~~3#32

/-- The size of the block for a request. -/
def blockSize (size : BitVec 32) : Nat :=
  if (alignSize size).toNat < minSizeAligned then minSizeAligned else (alignSize size).toNat

namespace SmallMem

def heapEnd (m : SmallMem) : Nat := m.memSizeAligned + sizeofStructMem

def setItem (p : Nat) (f : SmallMemItem → SmallMemItem) (m : SmallMem) : SmallMem :=
  { m with item := Function.update m.item p (f (m.item p)), writes := p :: m.writes }

/-- `rt_smem_init` makes one unused item of the memory, whose size is aligned, and a used one behind it. -/
def init (memory : Nat → SmallMemItem) (memSizeAligned : Nat) : SmallMem where
  item :=
    let next := memSizeAligned + sizeofStructMem
    Function.update (Function.update memory 0 ⟨some false, next, 0⟩) next ⟨some true, next, next⟩
  writes := [memSizeAligned + sizeofStructMem, 0]
  lfree := 0
  memSizeAligned := memSizeAligned
  used := 0
  max := 0

/-- Both halves of `plug_holes` combine an unused item with the unused one behind it. -/
def combine (mem nmem : Nat) (m : SmallMem) : SmallMem :=
  let m := { m with lfree := if m.lfree = nmem then mem else m.lfree }
  let m := m.setItem nmem fun it => { it with poolPtr := none }
  let next := (m.item nmem).next
  let m := m.setItem mem fun it => { it with next := next }
  m.setItem next fun it => { it with prev := mem }

def plugForward (mem : Nat) (m : SmallMem) : SmallMem :=
  let nmem := (m.item mem).next
  if mem ≠ nmem ∧ ¬(m.item nmem).isUsed ∧ nmem ≠ m.heapEnd then m.combine mem nmem else m

def plugBackward (mem : Nat) (m : SmallMem) : SmallMem :=
  let pmem := (m.item mem).prev
  if pmem ≠ mem ∧ ¬(m.item pmem).isUsed then m.combine pmem mem else m

/-- `plug_holes`, with its assertion. -/
def plugHoles (mem : Nat) (m : SmallMem) : Option SmallMem :=
  if mem < m.heapEnd then some (plugBackward mem (plugForward mem m)) else none

/-- The search of `rt_smem_alloc`. -/
def search (size : Nat) (m : SmallMem) : Nat → Nat → Option Nat
  | 0, _ => none
  | fuel + 1, p =>
    if p ≤ m.memSizeAligned - size then
      if ¬(m.item p).isUsed ∧ size ≤ (m.item p).next - (p + sizeofStructMem) then some p
      else search size m fuel (m.item p).next
    else none

/-- The search for the next free item. -/
def skipUsed (m : SmallMem) : Nat → Nat → Nat
  | 0, p => p
  | fuel + 1, p => if (m.item p).isUsed ∧ p ≠ m.heapEnd then skipUsed m fuel (m.item p).next else p

def account (size : Nat) (m : SmallMem) : SmallMem :=
  { m with
    used := m.used + size
    max := if m.max < m.used + size then m.used + size else m.max }

/-- A new unused item stands behind the first bytes of the item. -/
def divide (size mem : Nat) (m : SmallMem) : SmallMem :=
  let mem2 := mem + sizeofStructMem + size
  let next := (m.item mem).next
  let m := m.setItem mem2 fun _ => ⟨some false, next, mem⟩
  let m := m.setItem mem fun it => { it with next := mem2 }
  if next ≠ m.memSizeAligned + sizeofStructMem then m.setItem next fun it => { it with prev := mem2 } else m

/-- The item is divided if what is left is large enough. -/
def split (size mem : Nat) (m : SmallMem) : SmallMem :=
  if size + sizeofStructMem + minSizeAligned ≤ (m.item mem).next - (mem + sizeofStructMem) then
    (m.divide size mem).account (size + sizeofStructMem)
  else m.account ((m.item mem).next - mem)

/-- More turns than the loops take. -/
def turns (m : SmallMem) : Nat := m.memSizeAligned + 2

/-- The item is taken; the assertions of `rt_smem_alloc` stand behind. -/
def take (size mem : Nat) (m : SmallMem) : Option SmallMem :=
  let taken := (m.split size mem).setItem mem fun it => { it with poolPtr := some true }
  let m := if mem = taken.lfree then { taken with lfree := taken.skipUsed taken.turns taken.lfree } else taken
  if (mem = taken.lfree → m.lfree = m.heapEnd ∨ ¬(m.item m.lfree).isUsed) ∧
      mem + sizeofStructMem + size ≤ m.heapEnd ∧ (mem + sizeofStructMem) % 4 = 0 ∧ mem % 4 = 0 then
    some m
  else none

/-- `rt_smem_alloc`: the address, or none for `RT_NULL`. -/
def alloc (size : BitVec 32) (m : SmallMem) : Option (Option Nat × SmallMem) :=
  if size = 0 then some (none, m)
  else if m.memSizeAligned < blockSize size then some (none, m)
  else match search (blockSize size) m m.turns m.lfree with
    | none => some (none, m)
    | some mem => (m.take (blockSize size) mem).map fun m => (some (mem + sizeofStructMem), m)

/-- The item is unused now, and the lowest unused one if it lies in front of that. -/
def release (mem : Nat) (m : SmallMem) : SmallMem :=
  let m := m.setItem mem fun it => { it with poolPtr := some false }
  { m with
    lfree := if mem < m.lfree then mem else m.lfree
    used := m.used - ((m.item mem).next - mem) }

/-- `rt_smem_free` with its assertions; the free of `RT_NULL` does nothing. -/
def free (rmem : Nat) (m : SmallMem) : Option SmallMem :=
  let mem := rmem - sizeofStructMem
  if rmem % 4 = 0 ∧ (m.item mem).poolPtr = some true ∧ rmem < m.heapEnd ∧ (m.item (m.item mem).next).poolPtr ≠ none then
    (m.release mem).plugHoles mem
  else none

/-- What `rt_smem_realloc` cuts off behind the first bytes of the item is unused. -/
def shrink (newsize mem : Nat) (m : SmallMem) : Option SmallMem :=
  let size := (m.item mem).next - mem - sizeofStructMem
  let mem2 := mem + sizeofStructMem + newsize
  let m := { m with used := m.used - (size - newsize) }.divide newsize mem
  { m with lfree := if mem2 < m.lfree then mem2 else m.lfree }.plugHoles mem2

/-- `rt_smem_realloc` with its assertions; with `RT_NULL` it allocates. It also copies the bytes that fit, which is left to
    the users, whose area they go into. -/
def realloc (rmem : Nat) (request : BitVec 32) (m : SmallMem) : Option (Option Nat × SmallMem) :=
  let newsize := (alignSize request).toNat
  let mem := rmem - sizeofStructMem
  let size := (m.item mem).next - mem - sizeofStructMem
  if m.memSizeAligned < newsize then some (none, m)
  else if newsize = 0 then (m.free rmem).map fun m => (none, m)
  else if rmem % 4 = 0 ∧ rmem < m.heapEnd then
    if size = newsize then some (some rmem, m)
    else if newsize + sizeofStructMem + minSizeAligned < size then (m.shrink newsize mem).map fun m => (some rmem, m)
    else (m.alloc (alignSize request)).bind fun r =>
      match r.1 with
      | none => some r
      | some nmem => (r.2.free rmem).map fun m => (some nmem, m)
  else none

end SmallMem

/-- A heap whose users keep what they got: the addresses with the sizes that were asked for. -/
structure UserHeap where
  mem : SmallMem
  live : List (Nat × Nat)

inductive HeapCall where
  | malloc (size : BitVec 32)
  | free (rmem : Nat)
  | realloc (rmem : Nat) (newsize : BitVec 32)
  deriving DecidableEq, Repr

/-- A call, or the users write bytes of their own, by which what reads as an item at `p` is another one. -/
inductive HeapAct where
  | call (c : HeapCall)
  | store (p : Nat) (it : SmallMemItem)
  deriving DecidableEq, Repr

namespace UserHeap

def init (memory : Nat → SmallMemItem) (memSizeAligned : Nat) : UserHeap := ⟨.init memory memSizeAligned, []⟩

/-- What the users have when `rt_smem_realloc` has returned: where it gets nothing the old area is kept, but for no bytes. -/
def resized (rmem : Nat) (newsize : BitVec 32) (live : List (Nat × Nat)) : Option Nat → List (Nat × Nat)
  | some p => (p, newsize.toNat) :: live.filter fun x => x.1 ≠ rmem
  | none => if newsize = 0 then live.filter fun x => x.1 ≠ rmem else live

def call (s : UserHeap) : HeapCall → Option UserHeap
  | .malloc size => (s.mem.alloc size).map fun r => ⟨r.2, r.1.elim s.live fun p => (p, size.toNat) :: s.live⟩
  | .free rmem => (s.mem.free rmem).map fun m => ⟨m, s.live.filter fun x => x.1 ≠ rmem⟩
  | .realloc rmem newsize => (s.mem.realloc rmem newsize).map fun r => ⟨r.2, resized rmem newsize s.live r.1⟩

/-- What the users write is not in the log of the heap. -/
def store (p : Nat) (it : SmallMemItem) (s : UserHeap) : UserHeap :=
  { s with mem := { s.mem with item := Function.update s.mem.item p it } }

def step (s : UserHeap) : HeapAct → Option UserHeap
  | .call c => s.call c
  | .store p it => some (s.store p it)

/-- The users give back what they got, do not ask for more than the aligned size can hold, and write only bytes of their
    areas up to the aligned size, which `rt_smem_realloc` copies too: no item changes but those whose bytes meet one. -/
def Proper (s : UserHeap) : HeapAct → Prop
  | .call (.malloc size) => size.toNat + 3 < 2 ^ 32
  | .call (.free rmem) => rmem ∈ s.live.map Prod.fst
  | .call (.realloc rmem newsize) => rmem ∈ s.live.map Prod.fst ∧ newsize.toNat + 3 < 2 ^ 32
  | .store p _ => ∃ x ∈ s.live, x.1 < p + sizeofStructMem ∧ p < x.1 + (x.2 + 3) / 4 * 4

instance (s : UserHeap) : (a : HeapAct) → Decidable (s.Proper a)
  | .call (.malloc _) => inferInstanceAs (Decidable (_ < _))
  | .call (.free _) => inferInstanceAs (Decidable (_ ∈ _))
  | .call (.realloc _ _) => inferInstanceAs (Decidable (_ ∧ _))
  | .store _ _ => inferInstanceAs (Decidable (∃ x ∈ s.live, _))

end UserHeap

end RodActuator.Rtos
