import ChiliDB.Lib.Effect

/-!
# The asynchronous victim-reservation and page-loading protocol

Transcription of the Stateright model `crates/storage/src/models/buffer_pool.rs`:

* `Frame`, `Backend`, `Event`, `State`, `Action` — the source's own types; `Vec` is `List` and a
  `usize` is a `Nat`.
* `BufferModel.initStates`, `BufferModel.actions`, `BufferModel.nextState` — the three functions
  of the `Model` implementation.  An index out of range and the `usize` underflow of `Unpin` are
  panics; `return None` is the returned error `()`.
* `BufferModel.Reachable` — every state the checker can visit, for every size;
  `BufferModel.replay` runs a concrete list of actions (`replay_reachable`).
-/

namespace ChiliDB.Models

open Effect
open Result (index setIndex fail)

/-- The three sizes; `BufferModel::new` asserts that none is zero. -/
structure BufferModel where
  frameCount : Nat
  pageCount : Nat
  backendCount : Nat
  frameCount_pos : 0 < frameCount
  pageCount_pos : 0 < pageCount
  backendCount_pos : 0 < backendCount

inductive Frame where
  | free
  | reserved (targetPageId ownerBackendId : Nat)
  | flushing (oldPageId targetPageId ownerBackendId : Nat)
  | loading (pageId : Nat) (ioStarted : Bool)
  | ready (pageId pinCount : Nat) (dirty : Bool)
  deriving DecidableEq, Repr

/-- A database session; it has at most one outstanding request or pin. -/
inductive Backend where
  | idle
  | request (pageId : Nat) (retryAfterLoadFailure : Bool)
  | miss (pageId : Nat) (retryAfterLoadFailure : Bool)
  | reserved (frameId pageId : Nat) (retryAfterLoadFailure : Bool)
  | waiting (frameId pageId : Nat) (retryAfterLoadFailure : Bool)
  | pinned (frameId pageId : Nat)
  | reading (frameId pageId : Nat)
  | writing (frameId pageId : Nat)
  deriving DecidableEq, Repr

structure PinnedPage where
  frameId : Nat
  pageId : Nat
  deriving DecidableEq, Repr

/-- `Backend::pin`. -/
def Backend.pin : Backend → Option PinnedPage
  | .pinned f p => some ⟨f, p⟩
  | .reading f p => some ⟨f, p⟩
  | .writing f p => some ⟨f, p⟩
  | _ => none

inductive Event where
  | none
  | raceReleased (frameId : Nat)
  | loadFailed (frameId pageId : Nat)
  | retrySucceeded
  | flushFailed (frameId pageId : Nat)
  deriving DecidableEq, Repr

structure State where
  frames : List Frame
  backends : List Backend
  pageTable : List (Option Nat)
  event : Event
  deriving DecidableEq, Repr

inductive Action where
  | request (backendId pageId : Nat)
  | lookup (backendId : Nat)
  | reserve (backendId frameId : Nat)
  | publish (backendId : Nat)
  | submit (frameId : Nat)
  | loadDone (frameId : Nat) (success : Bool)
  | flushDone (frameId : Nat) (success : Bool)
  | cancel (backendId : Nat)
  | read (backendId : Nat)
  | write (backendId : Nat)
  | endAccess (backendId : Nat)
  | unpin (backendId : Nat)
  deriving DecidableEq, Repr

/-- `State::published`: the page a frame answers for in the page table. -/
def State.published : Frame → Option Nat
  | .ready p _ _ => some p
  | .loading p _ => some p
  | .flushing old _ _ => some old
  | _ => none

/-- `State::join`. -/
def State.join (s : State) (backendId frameId pageId : Nat) (retry : Bool) : Result Unit State := do
  match ← index s.frames frameId with
  | .ready p pinCount d =>
    let frames ← setIndex s.frames frameId (.ready p (pinCount + 1) d)
    let backends ← setIndex s.backends backendId (.pinned frameId pageId)
    return { s with frames, backends }
  | .loading _ _ =>
    let backends ← setIndex s.backends backendId (.waiting frameId pageId retry)
    return { s with backends }
  | _ =>
    let backends ← setIndex s.backends backendId (.request pageId retry)
    return { s with backends }

/-- The frame's part of `Reserve`: victim selection and reservation form one atomic step. -/
def State.reserveFrame (s : State) (backendId frameId pageId : Nat) : Result Unit State := do
  match ← index s.frames frameId with
  | .ready old 0 true =>
    let frames ← setIndex s.frames frameId (.flushing old pageId backendId)
    return { s with frames }
  | .ready old 0 false =>
    let pageTable ← setIndex s.pageTable old none
    let frames ← setIndex s.frames frameId (.reserved pageId backendId)
    return { s with frames, pageTable }
  | .free =>
    let frames ← setIndex s.frames frameId (.reserved pageId backendId)
    return { s with frames }
  | _ => fail ()

/-- The frame a page is mapped to: `state.page_table[page_id].map(|f| state.frames[f])`. -/
def State.mappedFrame (s : State) (pageId : Nat) : Result Unit (Option Frame) := do
  match ← index s.pageTable pageId with
  | none => return none
  | some frameId => return some (← index s.frames frameId)

/-- A backend in `Writing` on the frame. -/
def Backend.writes (frameId : Nat) : Backend → Bool
  | .writing f _ => f == frameId
  | _ => false

/-- A backend in `Reading` or `Writing` on the frame. -/
def Backend.accesses (frameId : Nat) : Backend → Bool
  | .reading f _ => f == frameId
  | .writing f _ => f == frameId
  | _ => false

/-- The page a `Request` or a `Miss` asks for, with its retry flag. -/
def Backend.wanted : Backend → Result Unit (Nat × Bool)
  | .request pageId retry => .ok (pageId, retry)
  | .miss pageId retry => .ok (pageId, retry)
  | _ => fail ()

/-- `if let Frame::Ready { dirty, .. } = .. { *dirty = true }`. -/
def Frame.markDirty : Frame → Frame
  | .ready p pinCount _ => .ready p pinCount true
  | frame => frame

/-- `if let Frame::Ready { pin_count, .. } = .. { *pin_count -= 1 }`. -/
def Frame.releasePin : Frame → Result Unit Frame
  | .ready p pinCount d => do return .ready p (← Result.sub pinCount 1) d
  | frame => .ok frame

/-- A frame that a stale `Miss` may join. -/
def Frame.isJoinable : Frame → Bool
  | .ready _ _ _ => true
  | .loading _ _ => true
  | _ => false

/-- A frame that `Reserve` may take. -/
def Frame.isVictim : Frame → Bool
  | .free => true
  | .ready _ pinCount _ => pinCount == 0
  | _ => false

namespace BufferModel

variable (m : BufferModel)

def initStates : List State :=
  [{ frames := List.replicate m.frameCount .free
     backends := List.replicate m.backendCount .idle
     pageTable := List.replicate m.pageCount none
     event := .none }]

/-- The actions pushed for one backend (first loop of `actions`). -/
def backendActions (s : State) (backendId : Nat) : Backend → Result Unit (List Action)
  | .idle => return (List.range m.pageCount).map (.request backendId ·)
  | .request pageId _ => do
    match ← s.mappedFrame pageId with
    | some (.flushing _ _ _) => return []
    | _ => return [.lookup backendId]
  | .miss pageId _ => do
    -- a stale miss may join a page that was published in the meantime
    let mapped ← s.mappedFrame pageId
    return (if mapped.any Frame.isJoinable then [.lookup backendId] else []) ++
      s.frames.zipIdx.flatMap fun (frame, frameId) =>
      if frame.isVictim then [.reserve backendId frameId] else []
  | .reserved frameId _ _ => do
    match ← index s.frames frameId with
    | .reserved _ _ => return [.publish backendId]
    | _ => return []
  | .waiting _ _ _ => return [.cancel backendId]
  | .pinned frameId _ =>
    return [.unpin backendId]
      ++ (if s.backends.any (Backend.writes frameId) then [] else [.read backendId])
      ++ (if s.backends.any (Backend.accesses frameId) then [] else [.write backendId])
  | .reading _ _ => return [.endAccess backendId]
  | .writing _ _ => return [.endAccess backendId]

/-- The actions pushed for one frame (second loop of `actions`). -/
def frameActions (frameId : Nat) : Frame → List Action
  | .loading _ false => [.submit frameId]
  | .loading _ true => [.loadDone frameId true, .loadDone frameId false]
  | .flushing _ _ _ => [.flushDone frameId true, .flushDone frameId false]
  | _ => []

def actions (s : State) : Result Unit (List Action) := do
  let perBackend ← s.backends.zipIdx.mapM fun (backend, backendId) =>
    m.backendActions s backendId backend
  return perBackend.flatten ++ s.frames.zipIdx.flatMap fun (frame, frameId) =>
    frameActions frameId frame

end BufferModel

/-- Accumulators of the hand-off loop of `LoadDone`. -/
structure HandOff where
  backends : List Backend
  pinCount : Nat
  event : Event
  deriving DecidableEq, Repr

/-- One iteration of the hand-off loop. -/
def handOff (frameId : Nat) (success : Bool) (acc : HandOff) (backend : Backend) : HandOff :=
  match backend with
  | .waiting other pageId retry =>
    if other = frameId then
      if success then
        { backends := acc.backends ++ [.pinned frameId pageId], pinCount := acc.pinCount + 1
          event := if retry then .retrySucceeded else acc.event }
      else { acc with backends := acc.backends ++ [.request pageId true] }
    else { acc with backends := acc.backends ++ [backend] }
  | _ => { acc with backends := acc.backends ++ [backend] }

namespace BufferModel

/-- `next_state`; every action starts from the previous state with its event cleared. -/
def nextState (previous : State) (action : Action) : Result Unit State :=
  let s := { previous with event := .none }
  match action with
  | .request backendId pageId => do
    let backends ← setIndex s.backends backendId (.request pageId false)
    return { s with backends }
  | .lookup backendId => do
    let (pageId, retry) ← (← index s.backends backendId).wanted
    match ← index s.pageTable pageId with
    | some frameId => s.join backendId frameId pageId retry
    | none =>
      let backends ← setIndex s.backends backendId (.miss pageId retry)
      return { s with backends }
  | .reserve backendId frameId => do
    match ← index s.backends backendId with
    | .miss pageId retry =>
      let s ← s.reserveFrame backendId frameId pageId
      let backends ← setIndex s.backends backendId (.reserved frameId pageId retry)
      return { s with backends }
    | _ => fail ()
  | .publish backendId => do
    match ← index s.backends backendId with
    | .reserved frameId pageId retry =>
      -- recheck and publish form the unique-page linearization point
      match ← index s.pageTable pageId with
      | some winner =>
        let frames ← setIndex s.frames frameId .free
        let s ← State.join { s with frames } backendId winner pageId retry
        return { s with event := .raceReleased frameId }
      | none =>
        let pageTable ← setIndex s.pageTable pageId (some frameId)
        let frames ← setIndex s.frames frameId (.loading pageId false)
        let backends ← setIndex s.backends backendId (.waiting frameId pageId retry)
        return { s with frames, backends, pageTable }
    | _ => fail ()
  | .submit frameId => do
    match ← index s.frames frameId with
    | .loading pageId false =>
      let frames ← setIndex s.frames frameId (.loading pageId true)
      return { s with frames }
    | _ => fail ()
  | .loadDone frameId success => do
    match ← index s.frames frameId with
    | .loading pageId true =>
      let done := s.backends.foldl (handOff frameId success) ⟨[], 0, s.event⟩
      if success then
        let frames ← setIndex s.frames frameId (.ready pageId done.pinCount false)
        return { s with frames, backends := done.backends, event := done.event }
      else
        let frames ← setIndex s.frames frameId .free
        let pageTable ← setIndex s.pageTable pageId none
        return { frames, backends := done.backends, pageTable, event := .loadFailed frameId pageId }
    | _ => fail ()
  | .flushDone frameId success => do
    match ← index s.frames frameId with
    | .flushing old target owner =>
      if success then
        let pageTable ← setIndex s.pageTable old none
        let frames ← setIndex s.frames frameId (.reserved target owner)
        return { s with frames, pageTable }
      else
        let frames ← setIndex s.frames frameId (.ready old 0 true)
        match ← index s.backends owner with
        | .reserved _ _ retry =>
          let backends ← setIndex s.backends owner (.request target retry)
          return { s with frames, backends, event := .flushFailed frameId old }
        | _ => fail ()
    | _ => fail ()
  | .cancel backendId => do
    -- I/O keeps the frame until it completes
    let backends ← setIndex s.backends backendId .idle
    return { s with backends }
  | .read backendId => do
    match ← index s.backends backendId with
    | .pinned frameId pageId =>
      let backends ← setIndex s.backends backendId (.reading frameId pageId)
      return { s with backends }
    | _ => fail ()
  | .write backendId => do
    match ← index s.backends backendId with
    | .pinned frameId pageId =>
      let backends ← setIndex s.backends backendId (.writing frameId pageId)
      let frames ← setIndex s.frames frameId (← index s.frames frameId).markDirty
      return { s with frames, backends }
    | _ => fail ()
  | .endAccess backendId => do
    match (← index s.backends backendId).pin with
    | some pin =>
      let backends ← setIndex s.backends backendId (.pinned pin.frameId pin.pageId)
      return { s with backends }
    | none => fail ()
  | .unpin backendId => do
    match ← index s.backends backendId with
    | .pinned frameId _ =>
      let frame ← (← index s.frames frameId).releasePin
      let frames ← setIndex s.frames frameId frame
      let backends ← setIndex s.backends backendId .idle
      return { s with frames, backends }
    | _ => fail ()

/-- States reachable from `initStates` through enabled actions. -/
inductive Reachable (m : BufferModel) : State → Prop where
  | init {s : State} : s ∈ m.initStates → Reachable m s
  | step {s s' : State} {a : Action} {as : List Action} : Reachable m s → m.actions s = .ok as →
      a ∈ as → nextState s a = .ok s' → Reachable m s'

/-- Replay a list of actions, each of which must be enabled. -/
def replay (m : BufferModel) : State → List Action → Option State
  | s, [] => some s
  | s, a :: rest =>
    match m.actions s, nextState s a with
    | .ok as, .ok s' => if a ∈ as then m.replay s' rest else none
    | _, _ => none

theorem replay_reachable {m : BufferModel} :
    ∀ (as : List Action) {s s' : State}, m.Reachable s → m.replay s as = some s' → m.Reachable s'
  | [], s, s', hs, h => by
    simp only [replay, Option.some.injEq] at h
    subst h; exact hs
  | a :: rest, s, s', hs, h => by
    simp only [replay] at h
    split at h
    · rename_i as s1 hacts hn
      split at h
      · rename_i ha
        exact replay_reachable rest (.step hs hacts ha hn) h
      · cases h
    · cases h

end BufferModel

end ChiliDB.Models
