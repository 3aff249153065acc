import FreeLwip.Lib.Blocks

/-!
# The heap (`mem.c`)

With `MEM_SIZE` 32768, so that a `mem_size_t` has 16 bits. A pointer into the heap is its offset
from `ram`; every function runs under `mem_mutex`.
-/

namespace FreeLwip.Core.Mem

open Blocks

/-- `struct mem`. -/
abbrev StructMem := Header

abbrev MemSizeT := BitVec 16

def sizeofStructMem : Nat := 8
def minSizeAligned : Nat := 12
def memSizeAligned : Nat := 32768

/-- `LWIP_MEM_ALIGN_SIZE`, in the `int` that its argument is promoted to. -/
def lwipMemAlignSize (size : BitVec 32) : BitVec 32 := (size + 3#32) &&& ~~~3#32

/-- The requested size as both allocating functions round it. -/
def roundSize (size : MemSizeT) : Nat :=
  let size := ((lwipMemAlignSize (size.setWidth 32)).setWidth 16).toNat
  if size < minSizeAligned then minSizeAligned else size

structure Heap where
  ram : Nat → StructMem
  lfree : Nat

namespace Heap

/-- `ram_end`, as an offset. -/
abbrev ramEnd : Nat := memSizeAligned

def setMem (h : Heap) (mem : Nat) (v : StructMem) : Heap :=
  { h with ram := Function.update h.ram mem v }

def setNext (h : Heap) (mem next : Nat) : Heap := h.setMem mem { h.ram mem with next := next }
def setPrev (h : Heap) (mem prev : Nat) : Heap := h.setMem mem { h.ram mem with prev := prev }
def setUsed (h : Heap) (mem : Nat) (used : Bool) : Heap :=
  h.setMem mem { h.ram mem with used := used }

def memInit (ram : Nat → StructMem) : Heap :=
  { ram := Function.update (Function.update ram 0 ⟨memSizeAligned, 0, false⟩) ramEnd
      ⟨memSizeAligned, memSizeAligned, true⟩
    lfree := 0 }

/-- "Plug hole forward": `mem` takes in an unused `mem->next`. -/
def plugHoleForward (h : Heap) (mem : Nat) : Heap :=
  let nmem := (h.ram mem).next
  if mem ≠ nmem ∧ (h.ram nmem).used = false ∧ nmem ≠ ramEnd then
    let h := if h.lfree = nmem then { h with lfree := mem } else h
    let h := h.setNext mem (h.ram nmem).next
    h.setPrev (h.ram nmem).next mem
  else h

/-- "Plug hole backward": an unused `mem->prev` takes in `mem`. -/
def plugHoleBackward (h : Heap) (mem : Nat) : Heap :=
  let pmem := (h.ram mem).prev
  if pmem ≠ mem ∧ (h.ram pmem).used = false then
    let h := if h.lfree = mem then { h with lfree := pmem } else h
    let h := h.setNext pmem (h.ram mem).next
    h.setPrev (h.ram mem).next pmem
  else h

def plugHoles (h : Heap) (mem : Nat) : Heap := (h.plugHoleForward mem).plugHoleBackward mem

/-- "The newly freed struct is now the lowest". -/
def lowerLfree (h : Heap) (mem : Nat) : Heap := if mem < h.lfree then { h with lfree := mem } else h

/-- `mem_free`, with `none` for `NULL`. -/
def memFree (h : Heap) (rmem : Option Nat) : Heap :=
  match rmem with
  | none => h
  | some rmem =>
    if ramEnd ≤ rmem then h
    else
      let mem := rmem - sizeofStructMem
      ((h.setUsed mem false).lowerLfree mem).plugHoles mem

/-- What `mem_malloc` and both branches of `mem_trim` do for an unused `mem2` at `ptr2`, between
`mem` at `ptr` and `next`. -/
def linkFree (h : Heap) (ptr ptr2 next : Nat) : Heap :=
  let h := h.setMem ptr2 ⟨next, ptr, false⟩
  let h := h.setNext ptr ptr2
  if next ≠ memSizeAligned then h.setPrev next ptr2 else h

def memTrim (h : Heap) (rmem : Nat) (newsize : MemSizeT) : Option Nat × Heap :=
  let newsize := roundSize newsize
  if memSizeAligned < newsize then (none, h)
  else if ramEnd ≤ rmem then (some rmem, h)
  else
    let ptr := rmem - sizeofStructMem
    let size := (h.ram ptr).next - ptr - sizeofStructMem
    if size < newsize then (none, h)
    else if newsize = size then (some rmem, h)
    else
      let mem2 := (h.ram ptr).next
      let ptr2 := ptr + sizeofStructMem + newsize
      if (h.ram mem2).used = false then
        -- the next struct is unused and moves
        let h' := if h.lfree = mem2 then { h with lfree := ptr2 } else h
        (some rmem, h'.linkFree ptr ptr2 (h.ram mem2).next)
      else if newsize + sizeofStructMem + minSizeAligned ≤ size then
        (some rmem, (h.lowerLfree ptr2).linkFree ptr ptr2 mem2)
      else (some rmem, h)

/-- The scan of `mem_malloc`, with the number of structs still to look at. -/
def findFit (h : Heap) (size : Nat) : Nat → Nat → Option Nat
  | 0, _ => none
  | fuel + 1, ptr =>
    if ptr < memSizeAligned - size then
      let mem := h.ram ptr
      if !mem.used ∧ size ≤ mem.next - (ptr + sizeofStructMem) then some ptr
      else findFit h size fuel mem.next
    else none

/-- The `while (cur->used && cur != ram_end)` behind it. -/
def nextFree (h : Heap) : Nat → Nat → Nat
  | 0, cur => cur
  | fuel + 1, cur =>
    if (h.ram cur).used ∧ cur ≠ ramEnd then nextFree h fuel (h.ram cur).next else cur

/-- The struct that was found is used, and split if an unused remainder has room behind it. -/
def takeFit (h : Heap) (size ptr : Nat) : Heap :=
  let next := (h.ram ptr).next
  if size + sizeofStructMem + minSizeAligned ≤ next - (ptr + sizeofStructMem) then
    (h.linkFree ptr (ptr + sizeofStructMem + size) next).setUsed ptr true
  else
    h.setUsed ptr true

/-- "Find next free block after mem and update lowest free pointer". -/
def adjustLfree (h : Heap) (mem : Nat) : Heap :=
  if mem = h.lfree then { h with lfree := h.nextFree memSizeAligned h.lfree } else h

def memMalloc (h : Heap) (size : MemSizeT) : Option Nat × Heap :=
  if size = 0 then (none, h)
  else
    let size := roundSize size
    if memSizeAligned < size then (none, h)
    else
      match h.findFit size memSizeAligned h.lfree with
      | none => (none, h)
      | some ptr => (some (ptr + sizeofStructMem), (h.takeFit size ptr).adjustLfree ptr)

end Heap

end FreeLwip.Core.Mem
