import ChiliDB.Catalog.Codec
import ChiliDB.Heapam.Heap

/-!
# The heap catalog

`crates/catalog/src/lib.rs`: the metadata of all tables in one heap.  The first record of that heap is
the manifest, every other one describes a table; a catalog caches them by name.

* `create`, `open_` — over the pool alone; `createTable`, `table` — over the pool and the catalog
  (`CatalogState σ`); `onTable` — a call on the heap of a cached table.

The loop of `open_` takes one record in each turn and a scan returns no more records than the slots it
captured, so `openEntries` has as many turns as these and one for the end.
-/

namespace ChiliDB

open Effect

inductive CatalogError where
  | heap (e : HeapError)
  | tableExists (name : String)
  | invalidMetadata (reason : String)
  | corruption (reason : String)
  | poisoned

/-- A table: its heap and its immutable metadata. -/
structure HeapTableSource where
  heap : HeapTable
  schema : TableSchema
  constraints : List TableConstraint

abbrev Entries := AList (fun _ : String => HeapTableSource)

structure HeapCatalog where
  metadata : HeapTable
  entries : Entries
  /-- The mutex of the entries is poisoned. -/
  poisoned : Bool

/-- A catalog and the pool behind it. -/
structure CatalogState (σ : Type) where
  pool : σ
  catalog : HeapCatalog

abbrev CatalogM (σ : Type) := Exec CatalogError (CatalogState σ)

namespace HeapCatalog

variable {σ α ε : Type} (service : PageService σ)

/-! ## Handles that the caller owns -/

/-- A call on a handle, and the handle after it. -/
def owning (table : HeapTable) (m : Exec ε (Heap σ) α) : Exec ε σ (α × HeapTable) := fun s =>
  ((m ⟨s, table⟩).1.map fun a => (a, (m ⟨s, table⟩).2.table), (m ⟨s, table⟩).2.pool)

/-- The same with an iterator over the handle's records. -/
def iterating (table : HeapTable) (scan : HeapScan) (m : Exec ε (Scanning σ) α) :
    Exec ε σ (α × HeapTable) := fun s =>
  ((m ⟨⟨s, table⟩, scan⟩).1.map fun a => (a, (m ⟨⟨s, table⟩, scan⟩).2.heap.table),
    (m ⟨⟨s, table⟩, scan⟩).2.heap.pool)

/-- The pool behind an iterator. -/
def behindScan (m : Exec ε σ α) : Exec ε (Scanning σ) α :=
  Exec.zoom (fun s => s.heap.pool) (fun pool s => { s with heap := { s.heap with pool := pool } }) m

/-! ## Creating and opening -/

def create : Exec CatalogError σ HeapCatalog := do
  let table ← Exec.mapErr .heap (HeapTable.create service)
  let (_, metadata) ← Exec.mapErr .heap (owning table (HeapTable.insert service Codec.MANIFEST))
  pure ⟨metadata, ∅, false⟩

/-- `records.next().transpose()?`. -/
def nextRecord : Exec CatalogError (Scanning σ) (Option (Ctid × Bytes)) := do
  match ← Exec.mapErr Empty.elim (HeapScan.next service) with
  | none => pure none
  | some (.ok record) => pure (some record)
  | some (.error e) => Exec.fail (.heap e)

/-- The loop of `open` over the records behind the manifest; `none` if the turns do not suffice. -/
def openEntries : Nat → Entries → List PageId → Exec CatalogError (Scanning σ) (Option Entries)
  | 0, _, _ => pure none
  | turns + 1, entries, roots => do
    match ← nextRecord service with
    | none => pure (some entries)
    | some (_, bytes) =>
      if bytes = Codec.MANIFEST then
        Exec.fail (.corruption "duplicate manifest")
      else
        match Codec.decode bytes with
        | .error reason => Exec.fail (.corruption reason)
        | .ok m =>
          if m.schema.name ∈ entries ∨ m.head ∈ roots then
            Exec.fail (.corruption "duplicate table name or heap root")
          else do
            let heap ← Exec.mapErr .heap (behindScan (HeapTable.open_ service m.head))
            openEntries turns (entries.insert m.schema.name ⟨heap, m.schema, m.constraints⟩)
              (m.head :: roots)

/-- The manifest and the records behind it. -/
def openRecords (root : PageId) (turns : Nat) : Exec CatalogError (Scanning σ) (Option Entries) := do
  match ← nextRecord service with
  | none => Exec.fail (.corruption "missing catalog manifest")
  | some (_, bytes) =>
    if bytes = Codec.MANIFEST then
      openEntries service turns ∅ [root]
    else
      Exec.fail (.corruption "missing catalog manifest")

/-- The slots that a scan has captured. -/
def captured (scan : HeapScan) : Nat := (scan.pages.map Prod.snd).sum

def open_ (root : PageId) : Exec CatalogError σ (Option HeapCatalog) := do
  let table ← Exec.mapErr .heap (HeapTable.open_ service root)
  let (scan, table) ← Exec.mapErr .heap (owning table (HeapTable.scan service))
  let (entries, metadata) ← iterating table scan (openRecords service root (captured scan + 1))
  pure (entries.map fun entries => ⟨metadata, entries, false⟩)

/-! ## Under the mutex of the entries -/

def poison (s : CatalogState σ) : CatalogState σ :=
  { s with catalog := { s.catalog with poisoned := true } }

/-- `self.entries.lock()?`, held by `m`. -/
def locked (m : Entries → CatalogM σ α) : CatalogM σ α := do
  let s ← Exec.get
  if s.catalog.poisoned then
    Exec.fail .poisoned
  else
    Exec.onPanic (m s.catalog.entries) poison

def onPool (m : Exec HeapError σ α) : CatalogM σ α :=
  Exec.zoom CatalogState.pool (fun pool s => { s with pool := pool }) (Exec.mapErr .heap m)

/-- `self.metadata`. -/
def onMetadata (m : HeapM σ α) : CatalogM σ α :=
  Exec.zoom (fun s => ⟨s.pool, s.catalog.metadata⟩)
    (fun heap s => ⟨heap.pool, { s.catalog with metadata := heap.table }⟩) (Exec.mapErr .heap m)

/-- The record of a declaration; its head is a placeholder of the same width. -/
def declared (declaration : CreateTable) : Codec.Metadata where
  head := 0
  schema := ⟨declaration.name, declaration.columns.map fun c => ⟨c.name, c.dataType, c.nullable⟩⟩
  constraints := declaration.constraints

/-- `codec::encode(&m).map_err(CatalogError::InvalidMetadata)`. -/
def encoded (m : Codec.Metadata) : Result CatalogError Bytes :=
  match Codec.encode m with
  | .ok bytes => .ok bytes
  | .error reason => Result.fail (.invalidMetadata reason)

/-- `entries.insert(source.schema.name, source)`. -/
def cache (source : HeapTableSource) (s : CatalogState σ) : CatalogState σ :=
  { s with catalog := { s.catalog with entries := s.catalog.entries.insert source.schema.name source } }

def createTable (declaration : CreateTable) : CatalogM σ HeapTableSource :=
  locked fun entries =>
    if declaration.name ∈ entries then
      Exec.fail (.tableExists declaration.name)
    else do
      let _ ← Exec.lift (encoded (declared declaration))
      let heap ← onPool (HeapTable.create service)
      let m := { declared declaration with head := heap.head }
      let bytes ← Exec.lift (encoded m)
      let _ ← onMetadata (HeapTable.insert service bytes)
      let source : HeapTableSource := ⟨heap, m.schema, m.constraints⟩
      Exec.modify (cache source)
      pure source

def table (name : String) : CatalogM σ (Option HeapTableSource) :=
  locked fun entries => pure (entries.lookup name)

/-! ## Calls on a cached table -/

/-- A call that may change a table. -/
inductive TableCall where
  | insert (bytes : Bytes)
  | delete (ctid : Ctid)
  | replace (ctid : Ctid) (bytes : Bytes)

/-- The CTID of a new record, or whether a record was changed. -/
def TableCall.run : TableCall → HeapM σ (Ctid ⊕ Bool)
  | .insert bytes => do
    let ctid ← HeapTable.insert service bytes
    pure (.inl ctid)
  | .delete ctid => do
    let deleted ← HeapTable.delete service ctid
    pure (.inr deleted)
  | .replace ctid bytes => do
    let replaced ← HeapTable.replace service ctid bytes
    pure (.inr replaced)

/-- A call on the heap of a table; `none` if the catalog has no such table. -/
def onTable (name : String) (m : HeapM σ α) (s : CatalogState σ) :
    Option (Result HeapError α × CatalogState σ) :=
  (s.catalog.entries.lookup name).map fun source =>
    match m ⟨s.pool, source.heap⟩ with
    | (r, heap) => (r, ⟨heap.pool, { s.catalog with
        entries := s.catalog.entries.insert name { source with heap := heap.table } }⟩)

end HeapCatalog

end ChiliDB
