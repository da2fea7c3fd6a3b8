import Mathlib.Data.List.Basic
import Mathlib.Algebra.GroupWithZero.Nat

/-!
# Pages, identifiers and errors of the storage crate

`crates/storage/src/lib.rs`: 8 KiB pages, `u32` page and buffer identifiers, and the errors a
buffer pool returns.  A page is a byte list that carries its length.
-/

namespace ChiliDB

abbrev PAGE_SIZE : Nat := 8192

/-- `[u8; PAGE_SIZE]`. -/
@[ext] structure Page where
  bytes : List UInt8
  size : bytes.length = PAGE_SIZE
  deriving DecidableEq

/-- `[byte; PAGE_SIZE]`. -/
def Page.filled (byte : UInt8) : Page := ⟨List.replicate PAGE_SIZE byte, List.length_replicate⟩

/-- `[0; PAGE_SIZE]`. -/
def Page.zero : Page := Page.filled 0

theorem Page.filled_injective {a b : UInt8} (h : Page.filled a = Page.filled b) : a = b := by
  have hb : (Page.filled a).bytes = (Page.filled b).bytes := by rw [h]
  simpa [Page.filled] using hb

/-- A stored-page address within one page store, never a buffer-frame index. -/
abbrev PageId := UInt32

/-- A pool-local frame index, not a stored-page address. -/
structure BufferId where
  new ::
  get : UInt32
  deriving DecidableEq, Repr

inductive ErrorKind where
  | invalidInput
  | invalidData
  | unexpectedEof
  | other
  deriving DecidableEq, Repr

/-- `std::io::Error`. -/
structure IoError where
  kind : ErrorKind
  message : String
  deriving DecidableEq, Repr

inductive BufferError where
  | invalidCapacity
  | allPinned
  | invalidVictim (buffer : BufferId)
  | poisoned
  | pinOverflow
  | io (error : IoError)
  deriving DecidableEq, Repr

end ChiliDB
