import RexlibCuda.Lib.Sequence
import RexlibCuda.CommandToken
import RexlibCuda.Size

/-! `memory_block_pool`: the heaps of a caching allocator and the blocks they
are cut into. Blocks and heaps are known by their addresses, and what an
address holds is looked up, so that the two containers of blocks share their
elements as the intrusive ones do. Addresses are never used twice. What may
fail for want of host memory is in `MemoryBlockAllocator`. -/

namespace RexlibCuda

open Sequence

/-- The address of a `memory_block`. -/
abbrev BlockId := Nat

/-- The address of a `memory_heap`. -/
abbrev HeapId := Nat

structure MemoryBlock where
  pending : CommandToken
  size : Nat
  heap : HeapId
  offset : Nat

structure MemoryHeap where
  /-- What the source returned, and has to be given back to it. -/
  allocation : Nat
  data : Nat
  size : Nat

/-- What a free block is sorted by: the timeline of its token and its size. -/
abbrev FreeKey := Int × Nat

/-- `free_memory_block_compare::is_less`. -/
def isLess (lhs rhs : FreeKey) : Bool :=
  if lhs.1 ≠ rhs.1 then decide (lhs.1 < rhs.1) else decide (lhs.2 < rhs.2)

structure MemoryBlockPool where
  block : BlockId → MemoryBlock
  heap : HeapId → MemoryHeap
  /-- `m_blocks`, every block in address order. -/
  blocks : List BlockId
  /-- `m_free_blocks`, in its order. -/
  freeBlocks : List BlockId
  /-- The keys of `m_heaps`, oldest first. -/
  heaps : List HeapId
  /-- `m_size` -/
  size : Nat
  nextBlock : BlockId
  nextHeap : HeapId

namespace MemoryBlockPool

variable (p : MemoryBlockPool)

/-- A pool with nothing in it. -/
def empty : MemoryBlockPool where
  block _ := ⟨none, 0, 0, 0⟩
  heap _ := ⟨0, 0, 0⟩
  blocks := []
  freeBlocks := []
  heaps := []
  size := 0
  nextBlock := 0
  nextHeap := 0

/-! ## Blocks -/

/-- `memory_block::is_free`: the block is linked in the set of free blocks. -/
def isFree (b : BlockId) : Bool := decide (b ∈ p.freeBlocks)

/-- `memory_block::get_data`. -/
def getData (b : BlockId) : Nat :=
  sizeAdd (p.heap (p.block b).heap).data (p.block b).offset

def setBlock (b : BlockId) (r : MemoryBlock) : MemoryBlockPool :=
  { p with block := Function.update p.block b r }

/-- `memory_block::set_pending`. -/
def setPending (b : BlockId) (pending : CommandToken) : MemoryBlockPool :=
  p.setBlock b { p.block b with pending }

/-! ## The order of the free blocks -/

/-- `free_memory_block_compare::get_key`. -/
def getKey (b : BlockId) : FreeKey :=
  (timelineAddress (p.block b).pending.getTimeline, (p.block b).size)

/-- `free_memory_block_compare` on two blocks. -/
def less (b c : BlockId) : Bool := isLess (p.getKey b) (p.getKey c)

/-- `m_free_blocks.insert`, which inserts after equivalent blocks. -/
def insertFree (b : BlockId) : MemoryBlockPool :=
  { p with freeBlocks := insertUpper p.less b p.freeBlocks }

/-- `m_free_blocks.lower_bound(key)`, with what comes from there on. -/
def lowerBound (key : FreeKey) : List BlockId :=
  p.freeBlocks.dropWhile fun b => isLess (p.getKey b) key

/-- `m_free_blocks.upper_bound(key)`, with what comes from there on. -/
def upperBound (key : FreeKey) : List BlockId :=
  p.freeBlocks.dropWhile fun b => !isLess key (p.getKey b)

/-! ## Searching -/

def findInTimeline (size : Nat) (timeline : Option Timeline) : Option BlockId :=
  match p.lowerBound (timelineAddress timeline, size) with
  | [] => none
  | b :: _ => if (p.block b).pending.getTimeline = timeline then some b else none

def findSuitableBlock (size : Nat) (timeline : Option Timeline) : Option BlockId :=
  match p.findInTimeline size timeline with
  | some b => some b
  | none => if timeline.isSome then p.findInTimeline size none else none

def findNextTimeline (timeline : Option Timeline) : List BlockId :=
  p.upperBound (timelineAddress timeline, sizeMax)

/-- The loop of `find_foreign_block` from the iterator `ite` on. `none` when
it has not come to the end of the set within `fuel` rounds. -/
def findForeignLoop (size : Nat) (timeline : Option Timeline) :
    Nat → List BlockId → Option BlockId → Option (Option BlockId)
  | _, [], result => some result
  | 0, _ :: _, _ => none
  | fuel + 1, b :: _, result =>
      let candidateTimeline := (p.block b).pending.getTimeline
      let result :=
        if candidateTimeline ≠ timeline ∧ candidateTimeline.isSome then
          match p.findInTimeline size candidateTimeline, result with
          | none, result => result
          | some candidate, none => some candidate
          | some candidate, some best =>
              if (p.block candidate).size < (p.block best).size then some candidate
              else some best
        else result
      findForeignLoop size timeline fuel (p.findNextTimeline candidateTimeline) result

/-- `find_foreign_block`. A round for each free block is always enough. -/
def findForeignBlock (size : Nat) (timeline : Option Timeline) : Option (Option BlockId) :=
  p.findForeignLoop size timeline p.freeBlocks.length p.freeBlocks none

/-- `std::max_element` by id: the first block of a range no later one exceeds. -/
def latestOf (b : BlockId) : List BlockId → BlockId
  | [] => b
  | c :: cs =>
      if (p.block b).pending.getId < (p.block c).pending.getId then latestOf c cs
      else latestOf b cs

/-- The tokens `enumerate_pending` lists from the iterator `ite` on. `none`
when it has not come to the end of the set within `fuel` rounds. -/
def enumerateLoop : Nat → List BlockId → Option (List CommandToken)
  | _, [] => some []
  | 0, _ :: _ => none
  | fuel + 1, b :: rest =>
      let timeline := (p.block b).pending.getTimeline
      let next := p.findNextTimeline timeline
      let group := rest.take (rest.length - next.length)
      let tokens := enumerateLoop fuel next
      if timeline.isSome then
        tokens.map fun ts => (p.block (p.latestOf b group)).pending :: ts
      else tokens

/-- What `enumerate_pending` lists. A round for each free block is always
enough. -/
def pendingTokens : Option (List CommandToken) :=
  p.enumerateLoop p.freeBlocks.length p.freeBlocks

/-! ## Handing out and taking back -/

def acquire (b : BlockId) : MemoryBlockPool :=
  { p with freeBlocks := p.freeBlocks.erase b }

def isMergeable (b neighbour : BlockId) : Bool :=
  decide ((p.block neighbour).heap = (p.block b).heap) &&
    decide ((p.block neighbour).pending.getTimeline = (p.block b).pending.getTimeline) &&
    p.isFree neighbour

/-- `keep_later_pending`: the token `block` is left with. -/
def laterPending (block other : CommandToken) : CommandToken :=
  if !other.isEmpty && decide (block.getId < other.getId) then other else block

/-- The neighbour leaves both containers and dies; the block takes over the
bytes of both and the later token. -/
def absorb (b neighbour : BlockId) (offset : Nat) : MemoryBlockPool :=
  { p with
    freeBlocks := p.freeBlocks.erase neighbour
    blocks := p.blocks.erase neighbour
    block := Function.update p.block b
      { p.block b with
        pending := laterPending (p.block b).pending (p.block neighbour).pending
        size := sizeAdd (p.block b).size (p.block neighbour).size
        offset } }

def considerMergingForwards (b : BlockId) : MemoryBlockPool :=
  match nextOf b p.blocks with
  | none => p
  | some next =>
      if p.isMergeable b next then p.absorb b next (p.block b).offset else p

def considerMergingBackwards (b : BlockId) : MemoryBlockPool :=
  match prevOf b p.blocks with
  | none => p
  | some previous =>
      if p.isMergeable b previous then p.absorb b previous (p.block previous).offset else p

def considerMergingBlock (b : BlockId) : MemoryBlockPool :=
  (p.considerMergingForwards b).considerMergingBackwards b

def release (b : BlockId) (pending : CommandToken) : MemoryBlockPool :=
  ((p.setPending b pending).considerMergingBlock b).insertFree b

/-- The block leaves the free ones and becomes the second half of itself, with
a new block in front of it that is the first. -/
def cutBlock (b : BlockId) (firstSize secondSize : Nat) : MemoryBlockPool :=
  let first := p.nextBlock
  let old := p.block b
  { p with
    freeBlocks := p.freeBlocks.erase b
    blocks := insertBefore b first p.blocks
    block := Function.update
      (Function.update p.block b
        { old with size := secondSize, offset := sizeAdd old.offset firstSize })
      first ⟨old.pending, firstSize, old.heap, old.offset⟩
    nextBlock := p.nextBlock + 1 }

/-- `partition_block` once the first half has been allocated: the first half,
and the pool. -/
def partitionBlock (b : BlockId) (firstSize secondSize : Nat) : BlockId × MemoryBlockPool :=
  let first := p.nextBlock
  (first, ((p.cutBlock b firstSize secondSize).insertFree first).insertFree b)

/-! ## Heaps -/

/-- A heap joins the pool, with a block that spans it. -/
def addHeap (heap : MemoryHeap) : MemoryBlockPool :=
  { p with
    block := Function.update p.block p.nextBlock ⟨none, heap.size, p.nextHeap, 0⟩
    heap := Function.update p.heap p.nextHeap heap
    heaps := p.heaps ++ [p.nextHeap]
    blocks := p.blocks ++ [p.nextBlock]
    size := sizeAdd p.size heap.size
    nextBlock := p.nextBlock + 1
    nextHeap := p.nextHeap + 1 }

/-- `register_heap` once the block and the entry of the map have been
allocated: the block that spans the heap, and the pool. -/
def registerHeap (heap : MemoryHeap) : BlockId × MemoryBlockPool :=
  (p.nextBlock, (p.addHeap heap).insertFree p.nextBlock)

/-- Empty the tokens of the blocks, each of which moves to `unbound`. -/
def unbindLoop : List BlockId → MemoryBlockPool → List BlockId → MemoryBlockPool × List BlockId
  | [], q, unbound => (q, unbound)
  | b :: bs, q, unbound =>
      let q := q.setPending b none
      unbindLoop bs q (insertUpper q.less b unbound)

/-- The free blocks move to `unbound`, which stands for them from here on, as
they answer that they are free all the same. -/
def unbind : MemoryBlockPool :=
  let (q, unbound) := unbindLoop p.freeBlocks p []
  { q with freeBlocks := unbound }

/-- The sweep of `reset_pending` in address order, with the iterator at `ite`
and `rest` after it. -/
def mergeRuns (ite : BlockId) : List BlockId → MemoryBlockPool → MemoryBlockPool
  | [], q => q
  | next :: rest, q =>
      if q.isFree ite && q.isFree next && decide ((q.block next).heap = (q.block ite).heap) then
        mergeRuns ite rest
          { q with
            block := Function.update q.block ite
              { q.block ite with size := sizeAdd (q.block ite).size (q.block next).size }
            freeBlocks := q.freeBlocks.erase next
            blocks := q.blocks.erase next }
      else mergeRuns next rest q

def mergeAll : MemoryBlockPool :=
  match p.blocks with
  | [] => p
  | ite :: rest => mergeRuns ite rest p

/-- The blocks of `unbound` move back to `m_free_blocks` one by one. -/
def bindAgain : MemoryBlockPool :=
  { p with freeBlocks := p.freeBlocks.foldl (fun bs b => insertUpper p.less b bs) [] }

def resetPending : MemoryBlockPool := p.unbind.mergeAll.bindAgain

def isPartition (b : BlockId) : Bool :=
  (match nextOf b p.blocks with
    | some next => decide ((p.block next).heap = (p.block b).heap)
    | none => false) ||
  (match prevOf b p.blocks with
    | some previous => decide ((p.block previous).heap = (p.block b).heap)
    | none => false)

/-- The heap of the block leaves the pool, and the block with it. -/
def eraseHeap (b : BlockId) : MemoryBlockPool :=
  let h := (p.block b).heap
  { p with
    size := sizeSub p.size (p.heap h).size
    blocks := p.blocks.erase b
    freeBlocks := p.freeBlocks.erase b
    heaps := p.heaps.erase h }

/-- The loop of `release_unused_heaps` over the free blocks still ahead of
its iterator: the number of bytes, and the heaps that die, in order. -/
def releaseUnusedLoop : List BlockId → Nat → MemoryBlockPool → Nat × List HeapId × MemoryBlockPool
  | [], result, q => (result, [], q)
  | b :: bs, result, q =>
      if q.isPartition b then releaseUnusedLoop bs result q
      else
        let h := (q.block b).heap
        let (bytes, given, q) :=
          releaseUnusedLoop bs (sizeAdd result (q.heap h).size) (q.eraseHeap b)
        (bytes, h :: given, q)

def releaseUnusedHeaps : Nat × List HeapId × MemoryBlockPool :=
  releaseUnusedLoop p.freeBlocks 0 p

def getSize : Nat := p.size

def getAcquiredBlockCount : Nat := sizeSub p.blocks.length p.freeBlocks.length

end MemoryBlockPool

end RexlibCuda
