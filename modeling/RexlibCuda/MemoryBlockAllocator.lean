import RexlibCuda.Lib.Prog
import RexlibCuda.MemoryBlockPool

/-! `memory_block_allocator` and the `deferred_release` it owns. Whatever they
ask of the outside (timelines, the memory source, the host's own memory) is
answered by an environment, which may answer differently each time it is
asked, and is kept in a trace. The trace also tells when a block or a heap
changes hands. -/

namespace RexlibCuda

/-- What a function throws. -/
inductive Exn where
  /-- `std::bad_alloc` -/
  | badAlloc
  /-- `std::invalid_argument` -/
  | invalidArgument (what : String)
  /-- `std::out_of_range` -/
  | outOfRange (what : String)
  /-- Anything else: a query or a wait that failed, a failure of the driver. -/
  | error
  /-- Not an exception: a loop has not ended within the fuel it was given. -/
  | diverged

/-- What a memory source does when it is asked for memory. -/
inductive SourceAnswer where
  | region (allocation : Nat)
  /-- It throws `std::bad_alloc`. -/
  | refused
  /-- It throws anything else. -/
  | failed
deriving DecidableEq

inductive Event where
  /-- A command was queried. `none` is a query that threw. -/
  | isComplete (command : Command) (answer : Option Bool)
  /-- A command was waited for, and whether the wait returned. -/
  | wait (command : Command) (returned : Bool)
  | sourceAllocate (bytes : Nat) (answer : SourceAnswer)
  /-- A region went back. How much was asked for it is kept for the record. -/
  | sourceDeallocate (allocation bytes : Nat)
  | hostAllocate (granted : Bool)
  /-- `memory_block_pool::acquire` took the block. -/
  | acquired (block : BlockId)
  /-- The block was given to `memory_block_pool::release`. -/
  | released (block : BlockId)
  /-- `deferred_release::defer` threw, and the block stays out of the pool. -/
  | lost (block : BlockId)
  /-- A heap of the pool died. -/
  | heapReleased (heap : HeapId)
  /-- Something else happened that the allocator does not see. -/
  | passed
deriving DecidableEq

/-- Who answers, by how much has happened before. `fuel` bounds the one loop
that the code does not bound itself. -/
structure Environment where
  isComplete : Nat → Command → Option Bool
  wait : Nat → Command → Bool
  sourceAllocate : Nat → Nat → SourceAnswer
  hostAllocate : Nat → Bool
  fuel : Nat

/-- An outside that always does what it is asked for. The regions of its source
lie a tebibyte apart. -/
def Environment.generous : Environment where
  isComplete _ _ := some true
  wait _ _ := true
  sourceAllocate n _ := .region ((n + 1) * 2 ^ 40)
  hostAllocate _ := true
  fuel := 65

/-- An entry of `deferred_release::m_pending`. -/
abbrev PendingRelease := BlockId × List CommandToken

structure MemoryBlockAllocator where
  /-- `m_pool` -/
  pool : MemoryBlockPool
  /-- `m_deferred.m_pending` -/
  deferred : List PendingRelease
  /-- What has happened so far, latest first. -/
  trace : List Event

namespace MemoryBlockAllocator

/-- An allocator that has not been used yet. -/
def empty : MemoryBlockAllocator := ⟨.empty, [], []⟩

/-- How much has happened. -/
def now (s : MemoryBlockAllocator) : Nat := s.trace.length

def log (event : Event) (s : MemoryBlockAllocator) : MemoryBlockAllocator :=
  { s with trace := event :: s.trace }

/-- A function of the allocator. -/
abbrev Action := Prog Exn MemoryBlockAllocator

open Prog

/-- Ask the outside, and remember the answer. -/
def ask {α : Type} (answer : Nat → α) (event : α → Event) : Action α := fun s =>
  (.ok (answer s.now), s.log (event (answer s.now)))

variable (cfg : Config) (env : Environment)

/-- One allocation of host memory, or one more element in a container, which
may need one. -/
def hostAllocate : Action Unit := do
  let granted ← ask env.hostAllocate .hostAllocate
  if granted then pure () else throw .badAlloc

/-- `command_token::is_complete`. -/
def isComplete (token : CommandToken) : Action Bool :=
  match token with
  | none => pure true
  | some command => do
      let answer ← ask (fun n => env.isComplete n command) (.isComplete command)
      match answer with
      | some complete => pure complete
      | none => throw .error

/-- `command_token::wait`. -/
def wait (token : CommandToken) : Action Unit :=
  match token with
  | none => pure ()
  | some command => do
      let returned ← ask (fun n => env.wait n command) (.wait command)
      if returned then pure () else throw .error

/-! ## Heaps -/

/-- What is asked of the source on top of the size of a heap. -/
def padding (alignment : Nat) : Nat :=
  if alignment > cfg.baseAlignment then sizeSub alignment cfg.baseAlignment else 0

/-- How much of the source a heap takes. -/
def regionBytes (size : Nat) : Nat := sizeAdd size (padding cfg cfg.maxAlignment)

/-- `std::make_unique<memory_heap>`, with the constructor of `memory_heap`. -/
def makeHeap (size alignment : Nat) : Action MemoryHeap := do
  hostAllocate env
  if size = 0 then
    throw (.invalidArgument
      "memory_heap::memory_heap: An empty heap can not be carved into blocks.")
  else do
    let bytes := sizeAdd size (padding cfg alignment)
    let answer ← ask (fun n => env.sourceAllocate n bytes) (.sourceAllocate bytes)
    match answer with
    | .region allocation => pure ⟨allocation, alignCeil allocation alignment, size⟩
    | .refused => throw .badAlloc
    | .failed => throw .error

/-- `~memory_heap`. -/
def giveBack (heap : MemoryHeap) (s : MemoryBlockAllocator) : MemoryBlockAllocator :=
  s.log (.sourceDeallocate heap.allocation (regionBytes cfg heap.size))

/-- `memory_block_pool::register_heap`. The heap dies with what it throws. -/
def registerHeap : Option MemoryHeap → Action BlockId
  | none => throw (.invalidArgument "memory_block_pool::register_heap: A heap is required.")
  | some heap => do
      tryCatch
        (do
          hostAllocate env -- the block
          hostAllocate env) -- the entry of the map
        (fun e => do
          modify (giveBack cfg heap)
          throw e)
      let s ← get
      modify fun s => { s with pool := (s.pool.registerHeap heap).2 }
      pure (s.pool.registerHeap heap).1

/-- The heaps died in this order, each with its region. -/
def destroyHeaps (heaps : List HeapId) (s : MemoryBlockAllocator) : MemoryBlockAllocator :=
  heaps.foldl (fun s h => giveBack cfg (s.pool.heap h) (s.log (.heapReleased h))) s

def releaseUnusedHeaps : Action Nat := do
  let s ← get
  let (bytes, given, pool) := s.pool.releaseUnusedHeaps
  modify fun s => destroyHeaps cfg given { s with pool }
  pure bytes

/-! ## Blocks -/

/-- `memory_block_pool::acquire`. -/
def acquire (b : BlockId) (s : MemoryBlockAllocator) : MemoryBlockAllocator :=
  { s.log (.acquired b) with pool := s.pool.acquire b }

/-- `memory_block_pool::release`. -/
def release (b : BlockId) (pending : CommandToken) (s : MemoryBlockAllocator) :
    MemoryBlockAllocator :=
  { s.log (.released b) with pool := s.pool.release b pending }

/-- `memory_block_pool::partition_block`, for the first half. -/
def partitionBlock (b : BlockId) (firstSize secondSize : Nat) : Action BlockId := do
  hostAllocate env
  let s ← get
  modify fun s => { s with pool := (s.pool.partitionBlock b firstSize secondSize).2 }
  pure (s.pool.partitionBlock b firstSize secondSize).1

/-- `memory_block_pool::enumerate_pending`, with an element for each token. -/
def enumeratePending : Action (List CommandToken) := do
  let s ← get
  match s.pool.pendingTokens with
  | none => throw .diverged
  | some pending => do
      forEach (fun _ => hostAllocate env) pending
      pure pending

/-! ## `deferred_release` -/

/-- `deferred_release::defer`. -/
def defer (b : BlockId) (pending : List CommandToken) : Action Unit :=
  if pending.length < 2 then
    throw (.invalidArgument
      "deferred_release::defer: A block that at most one command still uses should be given back to the pool directly.")
  else do
    hostAllocate env -- the vector of the tokens
    hostAllocate env -- the element
    modify fun s => { s with deferred := s.deferred ++ [(b, pending)] }

/-- Ask each token in turn. -/
def queryAll : List CommandToken → Action (List Bool)
  | [] => pure []
  | token :: tokens => do
      let complete ← isComplete env token
      let rest ← queryAll tokens
      pure (complete :: rest)

/-- The compaction of `drop_complete_tokens` before its round `i`: how many
tokens have been kept, and the tokens with those in front. -/
def compact (complete : List Bool) (tokens : List CommandToken) :
    Nat → Nat × List CommandToken
  | 0 => (0, tokens)
  | i + 1 =>
      let (kept, moved) := compact complete tokens i
      if complete.getD i false then (kept, moved)
      else (kept + 1, if kept ≠ i then moved.set kept (moved.getD i none) else moved)

/-- The constructor of `completion_flags`, which are inline for as many queues
as are likely. -/
def completionFlags (count : Nat) : Action Unit :=
  if cfg.smallQueueCount < count then hostAllocate env else pure ()

/-- `deferred_release::drop_complete_tokens`. -/
def dropCompleteTokens (tokens : List CommandToken) : Action (List CommandToken) := do
  completionFlags cfg env tokens.length
  let complete ← queryAll env tokens
  let (kept, moved) := compact complete tokens tokens.length
  pure (moved.take kept)

/-- The first loop of `deferred_release::process`, with `done` behind it. -/
def dropLoop : List PendingRelease → List PendingRelease → Action Unit
  | _, [] => pure ()
  | done, (b, tokens) :: items => do
      let left ← dropCompleteTokens cfg env tokens
      modify fun s => { s with deferred := done ++ (b, left) :: items }
      dropLoop (done ++ [(b, left)]) items

/-- The `std::remove_if` of `deferred_release::process`: what stays, and the
allocator with what is ready given back. -/
def removeReady : List PendingRelease → MemoryBlockAllocator →
    List PendingRelease × MemoryBlockAllocator
  | [], s => ([], s)
  | (b, tokens) :: items, s =>
      if tokens.length < 2 then removeReady items (s.release b (tokens.headD none))
      else
        let (stays, s) := removeReady items s
        ((b, tokens) :: stays, s)

/-- `deferred_release::process`. -/
def process : Action Unit := do
  let s ← get
  dropLoop cfg env [] s.deferred
  modify fun s =>
    let (stays, s) := removeReady s.deferred s
    { s with deferred := stays }

/-- `deferred_release::wait_all`, whose iterator stays at the front. -/
def waitAll : Action Unit := do
  let s ← get
  forEach
    (fun item => do
      forEach (wait env) item.2
      modify fun s => { s.release item.1 none with deferred := s.deferred.tail })
    s.deferred

/-! ## `memory_block_allocator` -/

def getHeapSize (poolSize size : Nat) : Nat :=
  if size ≥ cfg.largeAllocation then size
  else
    let result := max poolSize size
    let result := max result cfg.minHeap
    let result := min result cfg.maxHeap
    let result := alignCeil result cfg.maxAlignment
    max result size

/-- The loop of `grow`. -/
def growLoop (size : Nat) : Nat → Nat → Action BlockId
  | 0, _ => throw .diverged
  | fuel + 1, heapSize =>
      tryCatch
        (do
          let heap ← makeHeap cfg env heapSize cfg.maxAlignment
          registerHeap cfg env (some heap))
        (fun e =>
          match e with
          | .badAlloc =>
              if heapSize ≤ size then throw .badAlloc
              else growLoop size fuel (max size (alignCeil (heapSize / 2) cfg.maxAlignment))
          | e => throw e)

def grow (size : Nat) : Action BlockId := do
  let s ← get
  growLoop cfg env size env.fuel (getHeapSize cfg s.pool.getSize size)

def trimLocked : Action Nat := do
  waitAll env
  let pending ← enumeratePending env
  forEach (wait env) pending
  modify fun s => { s with pool := s.pool.resetPending }
  releaseUnusedHeaps cfg

/-- What `acquire_block` does once the pool could not grow. -/
def retry (size : Nat) (timeline : Option Timeline) : Action BlockId := do
  let _ ← trimLocked cfg env
  let s ← get
  match s.pool.findSuitableBlock size timeline with
  | some b => pure b
  | none => grow cfg env size

/-- The block `acquire_block` settles on. -/
def chooseBlock (size : Nat) (timeline : Option Timeline) : Action BlockId := do
  let s ← get
  match s.pool.findSuitableBlock size timeline with
  | some b => pure b
  | none =>
      match s.pool.findForeignBlock size timeline with
      | none => throw .diverged
      | some (some b) => pure b
      | some none =>
          tryCatch (grow cfg env size)
            (fun e =>
              match e with
              | .badAlloc => retry cfg env size timeline
              | e => throw e)

/-- Cut off what the request did not ask for. -/
def cutTo (size : Nat) (b : BlockId) : Action BlockId := do
  let s ← get
  let remainder := sizeSub (s.pool.block b).size size
  if remainder > 0 then partitionBlock env b size remainder else pure b

def acquireBlock (size : Nat) (timeline : Option Timeline) : Action BlockId := do
  let b ← chooseBlock cfg env size timeline
  let b ← cutTo env size b
  modify (acquire b)
  pure b

def allocate (size alignment : Nat) (timeline : Option Timeline) : Action BlockId :=
  if !hasSingleBit alignment then
    throw (.invalidArgument
      "memory_block_allocator::allocate: The alignment must be a power of two.")
  else if alignment > cfg.maxAlignment then
    throw (.invalidArgument
      "memory_block_allocator::allocate: The alignment exceeds the maximum alignment of this allocator.")
  else do
    let size := alignCeil (max size 1) cfg.maxAlignment
    process cfg env
    acquireBlock cfg env size timeline

/-- `recycle`. It throws nothing: a block that cannot be held back is lost. -/
def recycle (b : BlockId) (pending : List CommandToken) : Action Unit :=
  if pending.length < 2 then modify (release b (pending.headD none))
  else tryCatch (defer env b pending) (fun _ => modify (log (.lost b)))

def trim : Action Nat := trimLocked cfg env

end MemoryBlockAllocator

end RexlibCuda
