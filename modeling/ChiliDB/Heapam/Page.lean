import ChiliDB.Lib.Bytes
import ChiliDB.Storage.Basic

/-!
# Slotted heap pages

`crates/heapam/src/page.rs`: one-based slot numbers over a compactable, little-endian page.

| bytes | field |
|---|---|
| 0..8 | magic |
| 8..12 | owner, the head page of the heap |
| 12..16 | next page |
| 16 | 1 if there is a next page |
| 17..20 | zero |
| 20..22 | number of slots |
| 22..24 | end of the free space |
| 24.. | slots: offset and length of each record, both zero for a deleted one |

Every function reads the bytes with the index and range checks of the source: outside the page it
panics.  The functions that take `&mut Page` are computations over the page.
-/

namespace ChiliDB

open Effect

abbrev Bytes := List UInt8

/-- `NonZeroU16`. -/
@[ext] structure SlotId where
  get : Nat
  pos : 0 < get
  lt : get < 2 ^ 16
  deriving DecidableEq

/-- `NonZeroU16::new`. -/
def SlotId.new (n : Nat) : Option SlotId :=
  if h : 0 < n ∧ n < 2 ^ 16 then some ⟨n, h.1, h.2⟩ else none

/-- A record address: a page and a one-based slot of it. -/
@[ext] structure Ctid where
  pageId : PageId
  slotId : SlotId
  deriving DecidableEq

inductive HeapError where
  | buffer (error : BufferError)
  | corrupt (message : String)
  | invalidTupleSize (len max : Nat)
  | invalidCtid (ctid : Ctid)
  | noSpace
  | poisoned
  deriving DecidableEq

/-- `page[i..i + ys.len()].copy_from_slice(ys)`. -/
def Page.splice (page : Page) (i : Nat) (ys : Bytes) : Result HeapError Page :=
  if h : i + ys.length ≤ PAGE_SIZE then
    .ok ⟨Effect.splice page.bytes i ys, by
      rw [length_splice (by rw [page.size]; exact h), page.size]⟩
  else
    .error (.panic .bounds)

namespace HeapPage

/-- `b"CHILIHP1"`. -/
def MAGIC : Bytes := [67, 72, 73, 76, 73, 72, 80, 49]

abbrev HEADER_SIZE : Nat := 24
abbrev SLOT_SIZE : Nat := 4
abbrev MAX_TUPLE_SIZE : Nat := PAGE_SIZE - HEADER_SIZE - SLOT_SIZE

@[ext] structure Header where
  owner : PageId
  next : Option PageId
  slots : Nat
  deriving DecidableEq

def u16At (page : Page) (at_ : Nat) : Result HeapError Nat := do
  let a ← Result.index page.bytes at_
  let b ← Result.index page.bytes (at_ + 1)
  pure (leNat [a, b])

def u32At (page : Page) (at_ : Nat) : Result HeapError UInt32 := do
  let a ← Result.index page.bytes at_
  let b ← Result.index page.bytes (at_ + 1)
  let c ← Result.index page.bytes (at_ + 2)
  let d ← Result.index page.bytes (at_ + 3)
  pure (UInt32.ofNat (leNat [a, b, c, d]))

/-- The value is truncated to 16 bits. -/
def putU16 (page : Page) (at_ value : Nat) : Result HeapError Page :=
  page.splice at_ (leBytes 2 value)

def slot (page : Page) (index : Nat) : Result HeapError (Nat × Nat) := do
  let at_ := HEADER_SIZE + index * SLOT_SIZE
  let offset ← u16At page at_
  let len ← u16At page (at_ + 2)
  pure (offset, len)

/-- One slot of `validate`; the state is `occupied` and `used`. -/
def checkSlot (page : Page) (upper : Nat) (state : List Bool × Nat) (index : Nat) :
    Result HeapError (List Bool × Nat) := do
  let (offset, len) ← slot page index
  if offset = 0 ∧ len = 0 then
    pure state
  else if len = 0 ∨ offset < upper ∨ offset + len > PAGE_SIZE then
    Result.fail (.corrupt "invalid heap slot bounds")
  else
    let range ← Result.slice state.1 offset len
    if range.any id then
      Result.fail (.corrupt "overlapping heap slots")
    else
      pure (Effect.splice state.1 offset (List.replicate len true), state.2 + len)

/-- The `next` field under its flag byte. -/
def nextAt (page : Page) (flag : UInt8) : Result HeapError (Option PageId) :=
  if flag = 1 then do
    let next ← u32At page 12
    pure (some next)
  else
    pure none

/-- The checks of `validate` on the slot directory, and its result. -/
def validateSlots (page : Page) (flag : UInt8) : Result HeapError (Header × Nat) := do
  let slots ← u16At page 20
  let upper ← u16At page 22
  if HEADER_SIZE + slots * SLOT_SIZE > upper ∨ upper > PAGE_SIZE then
    Result.fail (.corrupt "invalid heap page free space bounds")
  else
    let state ← (List.range slots).foldlM (checkSlot page upper) (List.replicate PAGE_SIZE false, 0)
    let owner ← u32At page 8
    let next ← nextAt page flag
    pure (⟨owner, next, slots⟩, state.2)

def validate (page : Page) : Result HeapError (Header × Nat) := do
  let magic ← Result.slice page.bytes 0 8
  if magic ≠ MAGIC then
    Result.fail (.corrupt "invalid heap page magic")
  else
    let flag ← Result.index page.bytes 16
    let reserved ← Result.slice page.bytes 17 3
    if flag > 1 ∨ reserved ≠ [0, 0, 0] then
      Result.fail (.corrupt "invalid heap page flags or reserved bytes")
    else
      validateSlots page flag

def header (page : Page) : Result HeapError Header := do
  let (header, _) ← validate page
  pure header

/-- The fields `next` and its flag. -/
def putNext (page : Page) (next : Option PageId) : Result HeapError Page := do
  let page ← page.splice 12 (leBytes 4 (next.getD 0).toNat)
  page.splice 16 [if next.isSome then 1 else 0]

def setNext (next : Option PageId) : Exec HeapError Page Unit := do
  let page ← Exec.get
  let _ ← Exec.lift (validate page)
  let page ← Exec.lift (putNext page next)
  Exec.set page

def checkTuple (tuple : Bytes) : Result HeapError Unit :=
  if tuple = [] ∨ tuple.length > MAX_TUPLE_SIZE then
    Result.fail (.invalidTupleSize tuple.length MAX_TUPLE_SIZE)
  else
    .ok ()

/-- The record of a slot, `none` for a deleted one. -/
def rowAt (page : Page) (index : Nat) : Result HeapError (Option Bytes) := do
  let (offset, len) ← slot page index
  if len ≠ 0 then
    let bytes ← Result.slice page.bytes offset len
    pure (some bytes)
  else
    pure none

/-- What `compact` puts into a slot. -/
def tupleAt (page : Page) (change : Option (Nat × Option Bytes)) (index : Nat) :
    Result HeapError (Option Bytes) :=
  match change with
  | some (changed, tuple) => if changed = index then pure tuple else rowAt page index
  | none => rowAt page index

def get (page : Page) (id : SlotId) : Result HeapError (Option Bytes) := do
  let (header, _) ← validate page
  if id.get > header.slots then
    pure none
  else
    rowAt page (id.get - 1)

/-- One item of `records`. -/
def recordAt (page : Page) (index : Nat) : Result HeapError (Option (SlotId × Bytes)) := do
  match ← rowAt page index with
  | none => pure none
  | some bytes =>
    match SlotId.new (index % 2 ^ 16 + 1) with
    | some id => pure (some (id, bytes))
    | none => .error (.panic .assertion)

/-- The live records of the first `limit` slots. -/
def records (page : Page) (limit : Nat) : Result HeapError (List (SlotId × Bytes)) := do
  let (header, _) ← validate page
  if limit > header.slots then
    Result.fail (.corrupt "scan limit exceeds slot directory")
  else
    let rows ← (List.range limit).mapM (recordAt page)
    pure (rows.filterMap id)

/-! ## Functions that write 16-bit fields

Each is defined over `put`, which writes a field; the source's own writer is `putU16`. -/

section Writes

variable (put : Page → Nat → Nat → Result HeapError Page)

def putSlotWith (page : Page) (index offset len : Nat) : Result HeapError Page := do
  let at_ := HEADER_SIZE + index * SLOT_SIZE
  let page ← put page at_ offset
  put page (at_ + 2) len

/-- `page::initialize`; the old bytes are filled with zero first. -/
def initPageWith (owner : PageId) : Result HeapError Page := do
  let page ← Page.zero.splice 0 MAGIC
  let page ← page.splice 8 (leBytes 4 owner.toNat)
  put page 22 PAGE_SIZE

/-- One slot of `compact`; the state is the result page and the end of its free space. -/
def compactSlotWith (page : Page) (change : Option (Nat × Option Bytes)) (state : Page × Nat)
    (index : Nat) : Result HeapError (Page × Nat) := do
  match ← tupleAt page change index with
  | none => pure state
  | some tuple =>
    let upper ← Result.sub state.2 tuple.length
    let result ← state.1.splice upper tuple
    let result ← putSlotWith put result index upper tuple.length
    pure (result, upper)

/-- Rebuild the page with at most one slot changed. -/
def compactWith (page : Page) (header : Header) (change : Option (Nat × Option Bytes)) :
    Result HeapError Page := do
  let result ← initPageWith put header.owner
  let result ← putNext result header.next
  let result ← put result 20 header.slots
  let state ← (List.range header.slots).foldlM (compactSlotWith put page change) (result, PAGE_SIZE)
  put state.1 22 state.2

/-- The new record goes below the compacted ones. -/
def appendTupleWith (page : Page) (header : Header) (used : Nat) (tuple : Bytes) :
    Result HeapError Page := do
  let result ← compactWith put page header none
  let upper ← Result.sub PAGE_SIZE used
  let upper ← Result.sub upper tuple.length
  let result ← result.splice upper tuple
  let result ← putSlotWith put result header.slots upper tuple.length
  let result ← put result 20 (header.slots + 1)
  put result 22 upper

/-- `None` if the record does not fit. -/
def insertWith (tuple : Bytes) : Exec HeapError Page (Option SlotId) := do
  Exec.lift (checkTuple tuple)
  let page ← Exec.get
  let (header, used) ← Exec.lift (validate page)
  if HEADER_SIZE + (header.slots + 1) * SLOT_SIZE + used + tuple.length > PAGE_SIZE then
    pure none
  else
    let result ← Exec.lift (appendTupleWith put page header used tuple)
    Exec.set result
    pure (SlotId.new ((header.slots + 1) % 2 ^ 16))

def deleteWith (id : SlotId) : Exec HeapError Page Bool := do
  let page ← Exec.get
  let (header, _) ← Exec.lift (validate page)
  if id.get > header.slots then
    pure false
  else
    let (_, len) ← Exec.lift (slot page (id.get - 1))
    if len = 0 then
      pure false
    else
      let result ← Exec.lift (compactWith put page header (some (id.get - 1, none)))
      Exec.set result
      pure true

def replaceWith (id : SlotId) (tuple : Bytes) : Exec HeapError Page Bool := do
  Exec.lift (checkTuple tuple)
  let page ← Exec.get
  let (header, used) ← Exec.lift (validate page)
  if id.get > header.slots then
    pure false
  else
    let (_, oldLen) ← Exec.lift (slot page (id.get - 1))
    if oldLen = 0 then
      pure false
    else
      let rest ← Exec.lift (Result.sub (HEADER_SIZE + header.slots * SLOT_SIZE + used) oldLen)
      if rest + tuple.length > PAGE_SIZE then
        pure false
      else
        let result ← Exec.lift (compactWith put page header (some (id.get - 1, some tuple)))
        Exec.set result
        pure true

end Writes

def putSlot : Page → Nat → Nat → Nat → Result HeapError Page := putSlotWith putU16

def initPage : PageId → Result HeapError Page := initPageWith putU16

def compactSlot : Page → Option (Nat × Option Bytes) → Page × Nat → Nat → Result HeapError (Page × Nat) :=
  compactSlotWith putU16

def compact : Page → Header → Option (Nat × Option Bytes) → Result HeapError Page := compactWith putU16

def appendTuple : Page → Header → Nat → Bytes → Result HeapError Page := appendTupleWith putU16

def insert : Bytes → Exec HeapError Page (Option SlotId) := insertWith putU16

def delete : SlotId → Exec HeapError Page Bool := deleteWith putU16

def replace : SlotId → Bytes → Exec HeapError Page Bool := replaceWith putU16

theorem putSlotWith_putU16 : putSlotWith putU16 = putSlot := rfl

theorem initPageWith_putU16 : initPageWith putU16 = initPage := rfl

theorem compactSlotWith_putU16 : compactSlotWith putU16 = compactSlot := rfl

theorem compactWith_putU16 : compactWith putU16 = compact := rfl

theorem appendTupleWith_putU16 : appendTupleWith putU16 = appendTuple := rfl

end HeapPage

end ChiliDB
