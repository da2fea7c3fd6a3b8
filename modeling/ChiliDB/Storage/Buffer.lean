import ChiliDB.Lib.Effect
import ChiliDB.Storage.Store
import ChiliDB.Storage.Replacement
import Mathlib.Data.List.AList
import Mathlib.Data.List.Sort

/-!
# The buffer pool

`crates/storage/src/buffer.rs`, with its calls executed one after another.  A call is a computation
over the whole pool: it ends with a value, with a `BufferError`, or with a panic, and in each case
leaves the pool behind as the source does.

* A panic while the metadata mutex is held poisons it (`locked`), a panic under an exclusive content
  latch poisons the frame (`latched`); policy callbacks and page callbacks are the caller's code and
  may panic.
* `PinnedBuffer` values are owned by the caller; `PinnedBuffer.drop` runs when one goes out of scope.
* `Call T` and `call` — one call of a client that keeps its live pins in a list.
-/

namespace ChiliDB

open Effect

/-- A frame's bytes with its `BufferDesc`; `tag = none` is the tag `u64::MAX`. -/
structure Frame where
  data : Page
  tag : Option PageId
  pins : Nat
  dirty : Bool
  /-- The content lock is poisoned. -/
  poisoned : Bool
  deriving DecidableEq

def Frame.unused : Frame := ⟨Page.zero, none, 0, false, false⟩

/-- The pool over a store in state `S` with a policy in state `P`. -/
structure BufferPool (S P : Type) where
  store : S
  frames : List Frame
  pages : AList (fun _ : PageId => Nat)
  strategy : P
  /-- The metadata mutex is poisoned. -/
  poisoned : Bool

/-- The methods of the pool. -/
abbrev PoolM (S P : Type) := Exec BufferError (BufferPool S P)

/-- An eviction pin, independent of the content latch. -/
structure PinnedBuffer where
  index : BufferId
  page : PageId
  deriving DecidableEq, Repr

namespace BufferPool

variable {S P α T : Type} (store : PageStore S) (policy : VictimStrategy P)

/-- `Layout::array` with 64-bit addresses. -/
def layoutFits (size align count : Nat) : Bool := decide (count * size ≤ 2 ^ 63 - align)

def validateCapacity (capacity : Nat) : Result BufferError Unit :=
  if capacity = 0 ∨ 2 ^ 32 ≤ capacity - 1 ∨ !layoutFits PAGE_SIZE PAGE_SIZE capacity ∨
      !layoutFits 64 64 capacity then
    Result.fail .invalidCapacity
  else
    .ok ()

def withStrategy (capacity : Nat) (s : S) (p : P) : Result BufferError (BufferPool S P) := do
  validateCapacity capacity
  pure ⟨s, List.replicate capacity Frame.unused, ∅, p, false⟩

/-- `BufferPool::new`, with the default policy. -/
def new (capacity : Nat) (s : S) : Result BufferError (BufferPool S ClockStrategy.State) := do
  validateCapacity capacity
  let clock ← (ClockStrategy.new capacity).mapErr Empty.elim
  withStrategy capacity s clock

/-! ## Parts of the pool -/

/-- A call of the page store. -/
def io (f : S → Except IoError α × S) : PoolM S P α := fun pool =>
  match f pool.store with
  | (.ok a, s) => (.ok a, { pool with store := s })
  | (.error e, s) => (.error (.error (.io e)), { pool with store := s })

/-- A callback of the policy. -/
def consult (m : Exec Empty P α) : PoolM S P α :=
  Exec.foreign (Exec.zoom strategy (fun p pool => { pool with strategy := p }) m)

/-- `self.buffer_desc_array[index]`. -/
def desc (index : Nat) : PoolM S P Frame := do
  let pool ← Exec.get
  Exec.lift (Result.index pool.frames index)

def setFrame (index : Nat) (frame : Frame) (pool : BufferPool S P) : BufferPool S P :=
  { pool with frames := pool.frames.set index frame }

/-- Store a descriptor or its bytes. -/
def update (index : Nat) (f : Frame → Frame) : PoolM S P Unit := do
  let frame ← desc index
  Exec.modify (setFrame index (f frame))

/-- What the guard of the metadata mutex leaves when its holder panics. -/
def poison (pool : BufferPool S P) : BufferPool S P := { pool with poisoned := true }

/-- The same for an exclusive guard of a frame's content lock. -/
def poisonFrame (index : Nat) (pool : BufferPool S P) : BufferPool S P :=
  { pool with frames := pool.frames.modify index fun frame => { frame with poisoned := true } }

/-- The metadata mutex, held by `m`. -/
def locked (m : PoolM S P α) : PoolM S P α := do
  let pool ← Exec.get
  if pool.poisoned then
    Exec.fail .poisoned
  else
    Exec.onPanic m poison

def check (index : Nat) : PoolM S P Unit := do
  let pool ← Exec.get
  if pool.poisoned then
    Exec.fail .poisoned
  else
    let frame ← desc index
    if frame.poisoned then Exec.fail .poisoned else pure ()

/-- The content latch of a frame, held exclusively by `m`. -/
def latched (index : Nat) (m : PoolM S P α) : PoolM S P α := do
  let frame ← desc index
  if frame.poisoned then
    Exec.fail .poisoned
  else
    Exec.onPanic (do check index; m) (poisonFrame index)

end BufferPool

/-! ## Pinned buffers -/

namespace PinnedBuffer

open BufferPool

variable {S P α T : Type}

/-- `read`: the callback runs under the shared latch, whose panics do not poison. -/
def read (pin : PinnedBuffer) (f : Page → PoolM S P T) : PoolM S P T := do
  let frame ← desc pin.index.get.toNat
  if frame.poisoned then
    Exec.fail .poisoned
  else
    check pin.index.get.toNat
    f frame.data

/-- `write`: the callback changes the bytes in place, also when it panics. -/
def write (pin : PinnedBuffer) (f : Exec Empty Page T) : PoolM S P T :=
  latched pin.index.get.toNat do
    update pin.index.get.toNat fun frame => { frame with dirty := true }
    let frame ← desc pin.index.get.toNat
    Exec.foreign fun pool =>
      ((f frame.data).1, setFrame pin.index.get.toNat { frame with data := (f frame.data).2 } pool)

/-- `Drop`: the count wraps below zero before the debug assertion looks at the old value. -/
def drop (pin : PinnedBuffer) : PoolM S P Unit := do
  let frame ← desc pin.index.get.toNat
  let pins := if frame.pins = 0 then 2 ^ 32 - 1 else frame.pins - 1
  Exec.modify (setFrame pin.index.get.toNat { frame with pins })
  Exec.lift (Result.assert (decide (0 < frame.pins)))

end PinnedBuffer

namespace BufferPool

variable {S P α T : Type} (store : PageStore S) (policy : VictimStrategy P)

/-! ## Choosing and replacing a frame -/

def canEvict (frames : List Frame) (buffer : BufferId) : Bool :=
  match frames[buffer.get.toNat]? with
  | some frame => frame.pins == 0
  | none => false

/-- `State::victim`. -/
def victim : PoolM S P Nat := do
  let pool ← Exec.get
  if pool.pages.keys.length < pool.frames.length then
    pure pool.pages.keys.length
  else
    match ← consult (policy.victim (canEvict pool.frames)) with
    | none => Exec.fail .allPinned
    | some buffer =>
      if !canEvict pool.frames buffer then
        Exec.fail (.invalidVictim buffer)
      else
        pure buffer.get.toNat

/-- Forget the frame's old page; an unassigned frame has to be the next one of the dense prefix. -/
def unassign (index : Nat) : PoolM S P Unit := do
  let frame ← desc index
  match frame.tag with
  | some old => Exec.modify fun pool => { pool with pages := pool.pages.erase old }
  | none =>
    let pool ← Exec.get
    Exec.lift (Result.assert (index == pool.pages.keys.length))

/-- `State::install`. -/
def install (index : Nat) (page : PageId) : PoolM S P Unit := do
  unassign index
  update index fun frame => { frame with tag := some page }
  Exec.modify fun pool => { pool with pages := pool.pages.insert page index }

def withVictim (index : Nat) (replace : PoolM S P α) : PoolM S P α := do
  let frame ← desc index
  Exec.lift (Result.assert (frame.pins == 0))
  latched index replace

def flushVictim (index : Nat) : PoolM S P Unit := do
  let frame ← desc index
  match frame.dirty, frame.tag with
  | true, some page => io (store.writePage page frame.data)
  | _, _ => pure ()

/-- `BufferId::new(index as u32)`. -/
def bufferId (index : Nat) : BufferId := .new (UInt32.ofNat index)

/-- The pin is owned before the policy runs, so that unwinding releases it. -/
def loadedPin (index : Nat) (page : PageId) : PoolM S P PinnedBuffer := do
  let pin : PinnedBuffer := ⟨bufferId index, page⟩
  Exec.unwind (consult (policy.load pin.index)) pin.drop
  pure pin

def residentPin (recordAccess : Bool) (page : PageId) : PoolM S P (Option PinnedBuffer) := do
  let pool ← Exec.get
  match pool.pages.lookup page with
  | none => pure none
  | some index =>
    let frame ← desc index
    if frame.pins + 1 < 2 ^ 32 then
      Exec.modify (setFrame index { frame with pins := frame.pins + 1 })
      let pin : PinnedBuffer := ⟨bufferId index, page⟩
      Exec.unwind (if recordAccess then consult (policy.access pin.index) else pure ()) pin.drop
      pure (some pin)
    else
      Exec.fail .pinOverflow

/-! ## The public calls -/

/-- The end of both replacements, after all fallible I/O has succeeded: the bytes, the mapping, a
clean frame and its first pin. -/
def publish (index : Nat) (page : PageId) (data : Page) : PoolM S P Unit := do
  update index fun frame => { frame with data := data }
  install index page
  update index fun frame => { frame with dirty := false, pins := 1 }

/-- The part of `pin` that loads a page that is not resident. -/
def loadPage (page : PageId) : PoolM S P PinnedBuffer := do
  let index ← victim policy
  check index
  let incoming ← io (store.readPage page)
  withVictim index do
    flushVictim store index
    publish index page incoming
  loadedPin policy index page

def pin (page : PageId) : PoolM S P PinnedBuffer := locked do
  match ← residentPin policy true page with
  | some pin => pure pin
  | none => loadPage store policy page

def newPage : PoolM S P PinnedBuffer := locked do
  let index ← victim policy
  check index
  let page ← withVictim index do
    flushVictim store index
    let page ← io store.allocatePage
    publish index page Page.zero
    pure page
  loadedPin policy index page

/-- The callback of `flush_page`: write back a dirty page and mark it clean. -/
def writeBack (index : Nat) (page : PageId) (data : Page) : PoolM S P Unit := do
  let frame ← desc index
  if frame.dirty then
    io (store.writePage page data)
    update index fun frame => { frame with dirty := false }
  else
    pure ()

/-- Write a resident dirty page; `false` if the page is absent. -/
def flushPage (page : PageId) : PoolM S P Bool :=
  Exec.bracket (locked (residentPin policy false page))
    (fun
      | none => pure false
      | some pin => do
        pin.read (writeBack store pin.index.get.toNat page)
        pure true)
    (fun
      | none => pure ()
      | some pin => pin.drop)

/-- The loop of `flush_all`. -/
def flushPages : List PageId → PoolM S P Unit
  | [] => pure ()
  | page :: pages => do
    let _ ← flushPage store policy page
    flushPages pages

/-- Flush a snapshot of the resident pages in page order, then sync. -/
def flushAll : PoolM S P Unit := do
  let keys ← locked (do let pool ← Exec.get; pure pool.pages.keys)
  flushPages store policy (keys.insertionSort (· ≤ ·))
  io store.sync

end BufferPool

/-! ## A client of the pool -/

/-- The pool and the pins a client owns. -/
structure Client (S P : Type) where
  pool : BufferPool S P
  pins : List PinnedBuffer

/-- A call; `k` selects one of the client's live pins. -/
inductive Call (T : Type) where
  | newPage
  | pin (page : PageId)
  | read (k : Nat) (f : Page → Result Empty T)
  | write (k : Nat) (f : Exec Empty Page T)
  | drop (k : Nat)
  | flushPage (page : PageId)
  | flushAll

inductive Returned (T : Type) where
  | pinned (pin : PinnedBuffer)
  | value (value : T)
  | flushed (resident : Bool)
  | unit

namespace Client

variable {S P α T : Type} (store : PageStore S) (policy : VictimStrategy P)

/-- Run one call; `own` says which pins the client holds afterwards. -/
def run (client : Client S P) (m : PoolM S P α) (ret : α → Returned T)
    (own : Result BufferError α → List PinnedBuffer) :
    Result BufferError (Returned T) × Client S P :=
  match m client.pool with
  | (r, pool) => (r.map ret, ⟨pool, own r⟩)

/-- A call that returns a pin hands it to the client. -/
def owning (pins : List PinnedBuffer) : Result BufferError PinnedBuffer → List PinnedBuffer
  | .ok pin => pin :: pins
  | .error _ => pins

/-- One call; `none` if the client has no such pin. -/
def call (client : Client S P) : Call T → Option (Result BufferError (Returned T) × Client S P)
  | .newPage => some (client.run (BufferPool.newPage store policy) .pinned (owning client.pins))
  | .pin page => some (client.run (BufferPool.pin store policy page) .pinned (owning client.pins))
  | .read k f =>
    client.pins[k]?.map fun pin =>
      client.run (pin.read fun data => Exec.foreign (Exec.lift (f data))) .value fun _ => client.pins
  | .write k f => client.pins[k]?.map fun pin => client.run (pin.write f) .value fun _ => client.pins
  | .drop k =>
    client.pins[k]?.map fun pin =>
      client.run pin.drop (fun _ => .unit) fun _ => client.pins.eraseIdx k
  | .flushPage page =>
    some (client.run (BufferPool.flushPage store policy page) .flushed fun _ => client.pins)
  | .flushAll =>
    some (client.run (BufferPool.flushAll store policy) (fun _ => .unit) fun _ => client.pins)

end Client

end ChiliDB
