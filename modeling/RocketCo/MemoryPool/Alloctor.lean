/-
  RocketCo.MemoryPool.Alloctor — `RocketCoAlloctor` as the source computes it.

  The allocator keeps its free lists inside the free memory itself: a free block carries a
  `FreeListNode` (links, slot, length) at its start and a second one, of which only the length is
  used, in its last 32 bytes.  So the model works on a byte memory (`Lib.Mem`) and every field
  access is a load or a store at the field's offset.  Addresses are numbers, `0` is `nullptr`.

  `none` is undefined behaviour of the source (a null link dereferenced, an index past
  `free_list`), and out of fuel for the recursion of `ChunkAlloc`.  The answers of the underlying
  `malloc` come from outside: `malloc k` is the answer to the `k`-th call made during one operation,
  `none` a failure.  The high-water callback does nothing by default and is left out, and so is
  the diagnostic on `cerr`.
-/
import RocketCo.Lib.Bytes
import RocketCo.MemoryPool.SizeClass

namespace RocketCo.MemoryPool

open RocketCo.Lib

/-! ## §1. `FreeListNode` in memory. -/

/-- `sizeof(FreeListNode)`: two links, the slot, an `int` and its padding. -/
def nodeSize : Nat := 32

/-- `node->prev`. -/
def prevOf (m : Mem) (p : Nat) : Nat := load m p 8

/-- `node->next`. -/
def nextOf (m : Mem) (p : Nat) : Nat := load m (p + 8) 8

/-- `node->slot`. -/
def slotOf (m : Mem) (p : Nat) : Nat := load m (p + 16) 8

/-- `node->item_length`, an `int` converted to `size_t` (negative values are sign-extended). -/
def itemLengthOf (m : Mem) (p : Nat) : Nat :=
  let w := load m (p + 24) 4
  if w < 2 ^ 31 then w else sizeMod - 2 ^ 32 + w

def setPrev (m : Mem) (p v : Nat) : Mem := store m p 8 v
def setNext (m : Mem) (p v : Nat) : Mem := store m (p + 8) 8 v
def setSlot (m : Mem) (p v : Nat) : Mem := store m (p + 16) 8 v
def setItemLength (m : Mem) (p v : Nat) : Mem := store m (p + 24) 4 v

/-- `MarkBlock`: the length once more, in the node at the block's end. -/
def markBlock (m : Mem) (ptr len : Nat) : Mem := setItemLength m (ptr + (len - nodeSize)) len

/-! ## §2. The set of chunk intervals. -/

/-- `LONG_MAX`. -/
def longMax : Nat := 2 ^ 63 - 1

/-- `operator<` on `std::pair`. -/
def pairLt (a b : Nat × Nat) : Bool := decide (a.1 < b.1 ∨ (a.1 = b.1 ∧ a.2 < b.2))

/-- `std::set::emplace` on a sorted list without duplicates. -/
def emplace (iv : Nat × Nat) : List (Nat × Nat) → List (Nat × Nat)
  | [] => [iv]
  | x :: xs =>
      if pairLt iv x then iv :: x :: xs
      else if pairLt x iv then x :: emplace iv xs
      else x :: xs

/-- The interval `RocketCoFree` works with: `lower_bound` of `(ptr, LONG_MAX)`, stepped back by
one unless it is the first; `none` is `end()`. -/
def findInterval (ivs : List (Nat × Nat)) (ptr : Nat) : Option (Nat × Nat) :=
  match ivs.dropWhile (pairLt · (ptr, longMax)) with
  | [] => none
  | item :: _ =>
      match (ivs.takeWhile (pairLt · (ptr, longMax))).getLast? with
      | none => some item
      | some before => some before

/-! ## §3. The allocator. -/

/-- The allocator's fields, with the memory it manages. -/
structure RocketCoAlloctor where
  startfree : Nat
  endfree : Nat
  freeList : Nat → Nat
  pointerEffectiveInterval : List (Nat × Nat)
  resourcePointers : List Nat
  markAllocatedBlock : Nat → Option Nat
  mem : Mem

/-- The default constructor, over a memory that may hold anything. -/
def RocketCoAlloctor.init (m : Mem) : RocketCoAlloctor where
  startfree := 0
  endfree := 0
  freeList := fun _ => 0
  pointerEffectiveInterval := [(longMax, longMax)]
  resourcePointers := []
  markAllocatedBlock := fun _ => none
  mem := m

/-- `free_list[i] = p`. -/
def RocketCoAlloctor.setFreeList (st : RocketCoAlloctor) (i p : Nat) : RocketCoAlloctor :=
  { st with freeList := fun j => if j = i then p else st.freeList j }

/-- `mark_allocated_block[p] = v`. -/
def RocketCoAlloctor.mark (st : RocketCoAlloctor) (p v : Nat) : RocketCoAlloctor :=
  { st with markAllocatedBlock := fun q => if q = p then some v else st.markAllocatedBlock q }

/-- `mark_allocated_block.erase(p)`. -/
def RocketCoAlloctor.eraseMark (st : RocketCoAlloctor) (p : Nat) : RocketCoAlloctor :=
  { st with markAllocatedBlock := fun q => if q = p then none else st.markAllocatedBlock q }

/-- `SetBlock2FreeList`: put the block `[ptr, ptr + len)` in front of its free list. -/
def setBlock2FreeList (st : RocketCoAlloctor) (ptr len : Nat) : Option RocketCoAlloctor :=
  let index := findFreeListIndex len
  if slotCount ≤ index then none
  else
    let myFreeList := st.freeList index
    let m := setNext (setPrev st.mem ptr 0) ptr myFreeList
    let m := if myFreeList ≠ 0 then setPrev m myFreeList ptr else m
    let m := setItemLength (setSlot m ptr index) ptr len
    some { st.setFreeList index ptr with mem := markBlock m ptr len }

/-- `MoveToFreeList`: unlink `ptr` from the free list of blocks of length `len`. -/
def moveToFreeList (st : RocketCoAlloctor) (ptr len : Nat) : Option RocketCoAlloctor :=
  let index := findFreeListIndex len
  let prev := prevOf st.mem ptr
  let next := nextOf st.mem ptr
  if prev = 0 then
    -- the block is the head of its list
    if slotCount ≤ index then none
    else
      let m := if next ≠ 0 then setPrev st.mem next 0 else st.mem
      some { st.setFreeList index next with mem := m }
  else
    let m := setNext st.mem prev next
    -- `ptr->next->prev`: both links are read again
    if nextOf m ptr = 0 then none
    else some { st with mem := setPrev m (nextOf m ptr) (prevOf m ptr) }

/-- Which of the two blocks of a merge stands on a free list. -/
inductive LeftOrRightMod where
  | leftNeedModified
  | rightNeedModified

/-- `MergeData`: merge two adjacent blocks when the total is a slot length. -/
def mergeData (st : RocketCoAlloctor) (lhs lenA rhs lenB : Nat) (flag : LeftOrRightMod) :
    Option (RocketCoAlloctor × Bool) :=
  let totalLen := (lenA + lenB) % sizeMod
  if isMerge totalLen then
    let unlinked :=
      match flag with
      | .leftNeedModified => moveToFreeList st lhs lenA
      | .rightNeedModified => moveToFreeList st rhs lenB
    match unlinked with
    | none => none
    | some st =>
        match setBlock2FreeList st lhs totalLen with
        | none => none
        | some st => some (st, true)
  else some (st, false)

/-- The node `RocketCoFree` reads below `ptr`. -/
def leftNode (ptr : Nat) : Nat := ptr - nodeSize

/-- The first test of `RocketCoFree`: look at the lower neighbour only when `ptr` is not the start
of the interval and the byte below is not marked as allocated. -/
def looksLeft (st : RocketCoAlloctor) (item : Nat × Nat) (ptr : Nat) : Bool :=
  decide (ptr ≠ item.1) && (st.markAllocatedBlock (ptr - 1)).isNone

/-- The second test of `RocketCoFree`, on the higher neighbour. -/
def looksRight (st : RocketCoAlloctor) (item : Nat × Nat) (ptr len : Nat) : Bool :=
  decide (ptr + (len - 1) ≠ item.2) && (st.markAllocatedBlock (ptr + len)).isNone

/-- `RocketCoFree`.  A pointer outside every interval goes to the system's `free`, which does not
touch the pool. -/
def rocketCoFree (st : RocketCoAlloctor) (ptr len : Nat) : Option RocketCoAlloctor :=
  let len := dataAlignment len
  match findInterval st.pointerEffectiveInterval ptr with
  | none => some st
  | some item =>
      let st := (st.eraseMark ptr).eraseMark (ptr + (len - 1))
      -- merge towards lower addresses
      let left :=
        if looksLeft st item ptr then
          let itemLength := itemLengthOf st.mem (leftNode ptr)
          mergeData st ((ptr + (sizeMod - itemLength)) % sizeMod) itemLength ptr len
            .leftNeedModified
        else some (st, false)
      match left with
      | none => none
      | some (st, true) => some st
      | some (st, false) =>
          -- merge towards higher addresses
          let right :=
            if looksRight st item ptr len then
              mergeData st ptr len (ptr + len) (itemLengthOf st.mem (ptr + len))
                .rightNeedModified
            else some (st, false)
          match right with
          | none => none
          | some (st, true) => some st
          | some (st, false) => setBlock2FreeList st ptr len

/-! ## §4. Allocation. -/

/-- `UseRemainingSpace`: put the first `remaining` unused bytes on list `headIndex`. -/
def useRemainingSpace (st : RocketCoAlloctor) (headIndex remaining : Nat) :
    Option RocketCoAlloctor :=
  if slotCount ≤ headIndex then none
  else
    let myFreeList := st.freeList headIndex
    let head := st.startfree
    let m := setNext (setPrev st.mem head 0) head myFreeList
    let m := if myFreeList ≠ 0 then setPrev m myFreeList head else m
    let m := setItemLength (setSlot m head headIndex) head remaining
    some { st.setFreeList headIndex head with mem := markBlock m head remaining }

/-- The leftover branch of `ChunkAlloc`: the unused bytes go on one or two free lists before the
chunk is given up. -/
def useLeftover (st : RocketCoAlloctor) (remaining : Nat) : Option RocketCoAlloctor :=
  let target := dataAlignment remaining
  let interval := target - remaining
  let listIndex := if interval = 512 then some 0 else if interval = 1024 then some 1 else none
  let remaining := remaining - interval
  match useRemainingSpace st (findFreeListIndex remaining) remaining with
  | none => none
  | some st =>
      let st := { st with startfree := st.startfree + remaining }
      match listIndex with
      | none => some st
      | some i => useRemainingSpace st i (if i = 0 then 512 else 1024)

/-- The search of `ChunkAlloc` when `malloc` fails: the first non-empty list from `i` on. -/
def findLarger (st : RocketCoAlloctor) : Nat → Nat → Option Nat
  | _, 0 => none
  | i, k + 1 => if st.freeList i ≠ 0 then some i else findLarger st (i + 1) k

/-- `ChunkAlloc`: `number` blocks of `length` bytes from the unused region, or as many as fit.
The result carries the start of the run (`0` for a null result) and the number granted. -/
def chunkAlloc : Nat → (Nat → Option Nat) → RocketCoAlloctor → Nat → Nat →
    Option (RocketCoAlloctor × Nat × Nat)
  | 0, _, _, _, _ => none
  | fuel + 1, malloc, st, length, number =>
      let totalBytes := length * number
      let remaining := st.endfree - st.startfree
      if totalBytes < remaining then
        some ({ st with startfree := st.startfree + totalBytes }, st.startfree, number)
      else if length < remaining then
        let number := remaining / length
        some ({ st with startfree := st.startfree + length * number }, st.startfree, number)
      else
        let bytesToGet := 2 * totalBytes
        match (if 0 < remaining then useLeftover st remaining else some st) with
        | none => none
        | some st =>
            let start := (malloc 0).getD 0
            let st := { st with
              startfree := start
              resourcePointers := st.resourcePointers ++ [start]
              pointerEffectiveInterval :=
                emplace (start, start + bytesToGet) st.pointerEffectiveInterval }
            if start = 0 then
              let i := findFreeListIndex length + 1
              match findLarger st i (slotCount - i) with
              | some i =>
                  match index2SlotLength i with
                  | none => none
                  | some slotLen =>
                      let block := st.freeList i
                      let st := { st.setFreeList i (nextOf st.mem block) with
                        startfree := block
                        endfree := block + slotLen }
                      chunkAlloc fuel (fun k => malloc (k + 1)) st length number
              | none => some ({ st with endfree := 0 }, 0, number)
            else
              chunkAlloc fuel (fun k => malloc (k + 1))
                { st with endfree := start + bytesToGet } length number

/-- The loop of `Refill`: append `k` more nodes behind `nextObj`. -/
def refillLoop (index length : Nat) : Nat → Mem → Nat → Mem
  | 0, m, _ => m
  | k + 1, m, nextObj =>
      let currentObj := nextObj
      let nextObj := currentObj + length
      let m := setNext m currentObj nextObj
      let m := setNext (setPrev m nextObj currentObj) nextObj 0
      let m := setItemLength (setSlot m nextObj index) nextObj length
      refillLoop index length k (markBlock m nextObj length) nextObj

/-- How `RocketCoMalloc` ends: with a pointer, or by throwing `std::bad_alloc`. -/
inductive MallocResult where
  | ret (p : Nat)
  | badAlloc
  deriving DecidableEq

/-- Blocks requested from `ChunkAlloc` at a time. -/
def refillNumber : Nat := 20

/-- `Refill`: a run of blocks, the first for the caller, the others as the new free list. -/
def refill (malloc : Nat → Option Nat) (st : RocketCoAlloctor) (length : Nat) :
    Option (RocketCoAlloctor × MallocResult) :=
  -- two levels suffice: the second call of `ChunkAlloc` always has room
  match chunkAlloc 2 malloc st length refillNumber with
  | none => none
  | some (st, chunk, number) =>
      if chunk = 0 then some (st, .badAlloc)
      else if number = 1 then some (st, .ret chunk)
      else
        let refillIndex := findFreeListIndex length
        if slotCount ≤ refillIndex then none
        else
          let nextObj := chunk + length
          let m := setSlot (setItemLength st.mem nextObj length) nextObj refillIndex
          let m := markBlock (setNext (setPrev m nextObj 0) nextObj 0) nextObj length
          let m := refillLoop refillIndex length (number - 1 - 1) m nextObj
          some ({ st.setFreeList refillIndex nextObj with mem := m }, .ret chunk)

/-- `RocketCoMalloc`.  Requests above `ThirdSlot` are delegated to `malloc`. -/
def rocketCoMalloc (malloc : Nat → Option Nat) (st : RocketCoAlloctor) (index : Nat) :
    Option (RocketCoAlloctor × MallocResult) :=
  if thirdSlot < index then some (st, .ret ((malloc 0).getD 0))
  else
    let completeData := dataAlignment index
    let dataIndex := findFreeListIndex completeData
    if slotCount ≤ dataIndex then none
    else
      let result := st.freeList dataIndex
      if result = 0 then refill malloc st completeData
      else
        let next := nextOf st.mem result
        let m := if next ≠ 0 then setPrev st.mem next 0 else st.mem
        let st := { st.setFreeList dataIndex next with mem := m }
        some ((st.mark result completeData).mark (result + (completeData - 1)) completeData,
          .ret result)

end RocketCo.MemoryPool
