import ChiliDB.Lib.Bytes
import ChiliDB.Storage.Store

/-!
# The file-backed page store

`FilePageStore` of `crates/storage/src/store.rs`: page `id` is the range of `PAGE_SIZE` bytes at
`id * PAGE_SIZE` of a file, and the number of pages is read off the length of the file in each call.

* `File` — the bytes of a host file and the cursor of its handle; extending it fills with zero.  The
  host does not fail.
* `FilePageStore` — the four calls, with the checked `u64` arithmetic of the source.
* `Mirrors pages file` — the file is the concatenation of the pages; every call on the two ends the same
  way and keeps them so (`allocatePage_mirrors`, `readPage_mirrors`, `writePage_mirrors`).

Principal result: `file_and_memory_agree` — the two stores answer every sequence of calls alike, wherever
the file is closed and opened again in between.
-/

namespace ChiliDB

open Effect List

/-! ## Host files -/

/-- An open file. -/
structure File where
  bytes : List UInt8
  cursor : Nat
  deriving DecidableEq

namespace File

/-- `file.metadata()?.len()`. -/
def len (file : File) : Nat := file.bytes.length

/-- `file.set_len(length)`: cut off, or fill with zero; the cursor stays. -/
def setLen (length : Nat) (file : File) : File :=
  { file with bytes := file.bytes.take length ++ List.replicate (length - file.bytes.length) 0 }

/-- `file.seek(SeekFrom::Start(offset))`. -/
def seek (offset : Nat) (file : File) : File := { file with cursor := offset }

/-- `file.read_exact` for `n` bytes. -/
def readExact (n : Nat) (file : File) : Except IoError (List UInt8) × File :=
  if file.cursor + n ≤ file.bytes.length then
    (.ok (slice file.bytes file.cursor n), { file with cursor := file.cursor + n })
  else
    (.error ⟨.unexpectedEof, "failed to fill whole buffer"⟩, { file with cursor := file.bytes.length })

/-- `file.write_all`; a gap between the end of the file and the cursor is filled with zero. -/
def writeAll (data : List UInt8) (file : File) : File where
  bytes := splice (file.bytes ++ List.replicate (file.cursor - file.bytes.length) 0) file.cursor data
  cursor := file.cursor + data.length

end File

/-! ## The store -/

namespace FilePageStore

/-- `u64::checked_add`. -/
def checkedAdd (a b : Nat) : Option Nat := if a + b < 2 ^ 64 then some (a + b) else none

/-- `u64::checked_mul`. -/
def checkedMul (a b : Nat) : Option Nat := if a * b < 2 ^ 64 then some (a * b) else none

/-- `ok_or_else(|| io::Error::other(message))`. -/
def okOr (message : String) : Option Nat → Except IoError Nat
  | some n => .ok n
  | none => .error ⟨.other, message⟩

def pageCount (file : File) : Except IoError Nat :=
  if file.len % PAGE_SIZE ≠ 0 then
    .error ⟨.invalidData, "page file length is not page-aligned"⟩
  else if file.len / PAGE_SIZE > 2 ^ 32 - 1 + 1 then
    .error ⟨.invalidData, "page file exceeds page ID address space"⟩
  else
    .ok (file.len / PAGE_SIZE)

def pageOffset (file : File) (id : PageId) : Except IoError Nat := do
  let count ← pageCount file
  if id.toNat ≥ count then
    .error (invalidId id)
  else
    okOr "page offset overflow" (checkedMul id.toNat PAGE_SIZE)

/-- `PageId::try_from`. -/
def tryId (count : Nat) : Except IoError PageId :=
  if count < 2 ^ 32 then .ok (UInt32.ofNat count) else .error ⟨.other, "page ID space exhausted"⟩

/-- The id of a new page and the length of the file with it. -/
def extension (file : File) : Except IoError (PageId × Nat) := do
  let count ← pageCount file
  let id ← tryId count
  let length ← okOr "page file length overflow"
    ((checkedAdd count 1).bind fun count => checkedMul count PAGE_SIZE)
  pure (id, length)

/-- The id is not returned before `set_len` has succeeded. -/
def allocatePage (file : File) : Except IoError PageId × File :=
  match extension file with
  | .ok (id, length) => (.ok id, file.setLen length)
  | .error e => (.error e, file)

/-- `[u8; PAGE_SIZE]` from the bytes that filled it. -/
def pageOf (bytes : List UInt8) : Option Page :=
  if h : bytes.length = PAGE_SIZE then some ⟨bytes, h⟩ else none

def readPage (id : PageId) (file : File) : Except IoError Page × File :=
  match pageOffset file id with
  | .error e => (.error e, file)
  | .ok offset =>
    match (file.seek offset).readExact PAGE_SIZE with
    | (.error e, file) => (.error e, file)
    | (.ok bytes, file) =>
      match pageOf bytes with
      | some page => (.ok page, file)
      | none => (.error ⟨.unexpectedEof, "failed to fill whole buffer"⟩, file)

def writePage (id : PageId) (data : Page) (file : File) : Except IoError Unit × File :=
  match pageOffset file id with
  | .error e => (.error e, file)
  | .ok offset => (.ok (), (file.seek offset).writeAll data.bytes)

/-- `FilePageStore::open` of a file with these bytes; a new file has none. -/
def open_ (bytes : List UInt8) : Except IoError File := do
  let _ ← pageCount ⟨bytes, 0⟩
  pure ⟨bytes, 0⟩

/-- The stored pages. -/
def content (file : File) : Pages := fun id =>
  match pageOffset file id with
  | .ok offset => pageOf (slice file.bytes offset PAGE_SIZE)
  | .error _ => none

/-! ## The file is the pages in a row -/

/-- `file` holds exactly `pages`. -/
structure Mirrors (pages : MemoryPageStore.State) (file : File) : Prop where
  bytes : file.bytes = (pages.map Page.bytes).flatten
  count : pages.length ≤ 2 ^ 32

/-- Two answers are the same, and the file still holds the pages. -/
structure Agrees {α : Type} (answer : Except IoError α × File)
    (expected : Except IoError α × MemoryPageStore.State) : Prop where
  result : answer.1 = expected.1
  state : Mirrors expected.2 answer.2

section

variable {pages : MemoryPageStore.State} {file : File} {id : PageId}

theorem length_block : ∀ block ∈ pages.map Page.bytes, block.length = PAGE_SIZE := by
  intro block hblock
  obtain ⟨page, _, rfl⟩ := mem_map.1 hblock
  exact page.size

theorem Mirrors.len (h : Mirrors pages file) : file.len = pages.length * PAGE_SIZE := by
  unfold File.len
  rw [h.bytes, length_flatten_blocks length_block, length_map]

/-- Only the bytes count, not where the cursor is. -/
theorem Mirrors.seek {file' : File} (h : Mirrors pages file) (hbytes : file'.bytes = file.bytes) :
    Mirrors pages file' :=
  ⟨hbytes.trans h.bytes, h.count⟩

theorem Mirrors.pageCount (h : Mirrors pages file) : pageCount file = .ok pages.length := by
  have hmod : file.len % PAGE_SIZE = 0 := by rw [h.len]; exact Nat.mul_mod_left _ _
  have hdiv : file.len / PAGE_SIZE = pages.length := by rw [h.len]; exact Nat.mul_div_cancel _ (by decide)
  have hcount := h.count
  unfold FilePageStore.pageCount
  rw [hdiv, if_neg (by omega), if_neg (by omega)]

variable {n : Nat}

/-- The offset of a page fits: at most `2 ^ 32` pages of `2 ^ 13` bytes. -/
theorem checkedMul_page (h : n ≤ 2 ^ 32 + 1) : checkedMul n PAGE_SIZE = some (n * PAGE_SIZE) := by
  have hfit : n * 8192 < 2 ^ 64 := by omega
  unfold checkedMul
  exact if_pos hfit

theorem checkedAdd_one (h : n ≤ 2 ^ 32) : checkedAdd n 1 = some (n + 1) := by
  unfold checkedAdd
  exact if_pos (by omega)

theorem Mirrors.pageOffset (h : Mirrors pages file) (id : PageId) :
    pageOffset file id = if id.toNat < pages.length then .ok (id.toNat * PAGE_SIZE) else .error (invalidId id) := by
  have hcount := h.count
  unfold FilePageStore.pageOffset
  rw [h.pageCount]
  show (if id.toNat ≥ pages.length then _ else _) = _
  by_cases hid : id.toNat < pages.length
  · rw [if_neg (by omega), if_pos hid, checkedMul_page (by omega)]
    rfl
  · rw [if_pos (by omega), if_neg hid]

theorem Mirrors.slice (h : Mirrors pages file) {page : Page}
    (hpage : pages[id.toNat]? = some page) :
    slice file.bytes (id.toNat * PAGE_SIZE) PAGE_SIZE = page.bytes := by
  rw [h.bytes]
  exact slice_flatten_blocks length_block (by rw [getElem?_map, hpage]; rfl)

theorem pageOf_bytes (page : Page) : pageOf page.bytes = some page := by
  unfold pageOf
  exact dif_pos page.size

theorem Mirrors.content (h : Mirrors pages file) : content file = MemoryPageStore.content pages := by
  funext id
  unfold FilePageStore.content MemoryPageStore.content
  rw [h.pageOffset]
  by_cases hid : id.toNat < pages.length
  · have hpage : pages[id.toNat]? = some pages[id.toNat] := getElem?_eq_getElem hid
    rw [if_pos hid, hpage]
    show pageOf (Effect.slice file.bytes (id.toNat * PAGE_SIZE) PAGE_SIZE) = _
    rw [h.slice hpage, pageOf_bytes]
  · rw [if_neg hid, getElem?_eq_none (by omega)]

theorem exists_pages : ∀ (n : Nat) {bytes : List UInt8}, bytes.length = n * PAGE_SIZE →
    ∃ pages : List Page, pages.length = n ∧ bytes = (pages.map Page.bytes).flatten
  | 0, bytes, h => ⟨[], rfl, by simpa using h⟩
  | n + 1, bytes, h => by
    rw [Nat.succ_mul] at h
    have hfirst : (bytes.take PAGE_SIZE).length = PAGE_SIZE := by
      rw [length_take]
      exact Nat.min_eq_left (by omega)
    have hdrop : (bytes.drop PAGE_SIZE).length = n * PAGE_SIZE := by
      rw [length_drop]
      omega
    obtain ⟨pages, hlen, hrest⟩ := exists_pages n hdrop
    refine ⟨⟨bytes.take PAGE_SIZE, hfirst⟩ :: pages, by simp [hlen], ?_⟩
    rw [map_cons, flatten_cons, ← hrest, take_append_drop]

/-- Every file whose length is accepted holds some pages. -/
theorem exists_mirrors (h : pageCount file = .ok n) : ∃ pages, Mirrors pages file := by
  unfold pageCount at h
  split at h
  · cases h
  · split at h
    · cases h
    · rename_i hmod hcount
      have hlen : file.bytes.length = file.len / PAGE_SIZE * PAGE_SIZE :=
        (Nat.div_mul_cancel (Nat.dvd_of_mod_eq_zero (not_not.1 hmod))).symm
      obtain ⟨pages, hpages, hbytes⟩ := exists_pages _ hlen
      exact ⟨pages, hbytes, by omega⟩

/-! ## Call by call -/

theorem allocatePage_mirrors (h : Mirrors pages file) :
    Agrees (FilePageStore.allocatePage file) (MemoryPageStore.allocatePage pages) := by
  have hcount := h.count
  unfold allocatePage extension MemoryPageStore.allocatePage tryId
  rw [h.pageCount]
  by_cases hid : pages.length < 2 ^ 32
  · -- the file grows by one page of zeros
    simp only [if_pos hid, checkedAdd_one hcount, Option.bind_some,
      checkedMul_page (show pages.length + 1 ≤ 2 ^ 32 + 1 by omega), okOr, bind, Except.bind, pure,
      Except.pure]
    refine ⟨rfl, ?_, by simp; omega⟩
    have hlen : file.bytes.length = pages.length * PAGE_SIZE := h.len
    have hgap : (pages.length + 1) * PAGE_SIZE - file.bytes.length = PAGE_SIZE := by
      rw [hlen, Nat.succ_mul]
      omega
    have htake : file.bytes.take ((pages.length + 1) * PAGE_SIZE) = file.bytes :=
      take_of_length_le (by rw [hlen, Nat.succ_mul]; omega)
    simp only [File.setLen, hgap, htake, map_append, flatten_append, ← h.bytes]
    simp [Page.zero, Page.filled]
  · simp only [if_neg hid, bind, Except.bind]
    exact ⟨rfl, h⟩

theorem readPage_mirrors (h : Mirrors pages file) (id : PageId) :
    Agrees (FilePageStore.readPage id file) (MemoryPageStore.readPage id pages) := by
  unfold readPage MemoryPageStore.readPage
  rw [h.pageOffset]
  by_cases hid : id.toNat < pages.length
  · have hpage : pages[id.toNat]? = some pages[id.toNat] := getElem?_eq_getElem hid
    have hend : id.toNat * PAGE_SIZE + PAGE_SIZE ≤ file.bytes.length := by
      have hlen : file.bytes.length = pages.length * PAGE_SIZE := h.len
      rw [hlen, ← Nat.succ_mul]
      exact Nat.mul_le_mul_right _ hid
    simp only [if_pos hid, hpage, File.readExact, File.seek, if_pos hend, h.slice hpage, pageOf_bytes]
    exact ⟨rfl, h.seek rfl⟩
  · simp only [if_neg hid, getElem?_eq_none (Nat.le_of_not_lt hid)]
    exact ⟨rfl, h⟩

theorem writePage_mirrors (h : Mirrors pages file) (id : PageId) (data : Page) :
    Agrees (FilePageStore.writePage id data file) (MemoryPageStore.writePage id data pages) := by
  unfold writePage MemoryPageStore.writePage
  rw [h.pageOffset]
  by_cases hid : id.toNat < pages.length
  · simp only [if_pos hid]
    refine ⟨rfl, ?_, by simpa using h.count⟩
    have hgap : id.toNat * PAGE_SIZE - file.bytes.length = 0 := by
      have hlen : file.bytes.length = pages.length * PAGE_SIZE := h.len
      have := Nat.mul_le_mul_right PAGE_SIZE (Nat.le_of_lt hid)
      omega
    simp only [File.writeAll, File.seek, hgap, replicate_zero, append_nil]
    rw [h.bytes, splice_flatten_blocks length_block (by simpa using hid) data.size, map_set]
  · simp only [if_neg hid]
    exact ⟨rfl, h⟩

end

/-- Any file: it holds some pages, or its length is rejected and every call leaves it as it is. -/
theorem mirrors_or_rejected (file : File) : (∃ pages, Mirrors pages file) ∨
    ∃ e, extension file = .error e ∧ ∀ id, pageOffset file id = .error e := by
  cases hcount : pageCount file with
  | ok n => exact .inl (exists_mirrors hcount)
  | error e =>
    refine .inr ⟨e, ?_, fun id => ?_⟩
    · unfold extension
      rw [hcount]
      rfl
    · unfold pageOffset
      rw [hcount]
      rfl

/-- An answer about a file is the memory store's about the same pages, or a refusal that changes
nothing. -/
inductive Answered {α : Type} (memory : MemoryPageStore.State → Except IoError α × MemoryPageStore.State)
    (file : File) : Except IoError α × File → Prop
  | mirrored {pages pages' : MemoryPageStore.State} {r : Except IoError α} {file' : File} :
    memory pages = (r, pages') → FilePageStore.content file = MemoryPageStore.content pages →
      FilePageStore.content file' = MemoryPageStore.content pages' → Answered memory file (r, file')
  | rejected (e : IoError) : Answered memory file (.error e, file)

theorem Answered.of_agrees {α : Type}
    {memory : MemoryPageStore.State → Except IoError α × MemoryPageStore.State} {file : File}
    {pages : MemoryPageStore.State} {answer : Except IoError α × File} (hm : Mirrors pages file)
    (h : Agrees answer (memory pages)) : Answered memory file answer :=
  .mirrored (Prod.ext h.result.symm rfl) hm.content h.state.content

theorem allocatePage_answered (file : File) : Answered MemoryPageStore.allocatePage file (allocatePage file) := by
  obtain ⟨pages, hm⟩ | ⟨e, hext, _⟩ := mirrors_or_rejected file
  · exact .of_agrees hm (allocatePage_mirrors hm)
  · unfold allocatePage
    rw [hext]
    exact .rejected e

theorem readPage_answered (id : PageId) (file : File) :
    Answered (MemoryPageStore.readPage id) file (FilePageStore.readPage id file) := by
  obtain ⟨pages, hm⟩ | ⟨e, _, hoffset⟩ := mirrors_or_rejected file
  · exact .of_agrees hm (readPage_mirrors hm id)
  · unfold readPage
    rw [hoffset]
    exact .rejected e

theorem writePage_answered (id : PageId) (data : Page) (file : File) :
    Answered (MemoryPageStore.writePage id data) file (FilePageStore.writePage id data file) := by
  obtain ⟨pages, hm⟩ | ⟨e, _, hoffset⟩ := mirrors_or_rejected file
  · exact .of_agrees hm (writePage_mirrors hm id data)
  · unfold writePage
    rw [hoffset]
    exact .rejected e

end FilePageStore

open FilePageStore in
/-- `impl PageStore for FilePageStore`. -/
def FilePageStore : PageStore File where
  allocatePage := allocatePage
  readPage := readPage
  writePage := writePage
  sync file := (.ok (), file)
  content := content
  allocatePage_ok {s s' id} h := by
    cases h ▸ allocatePage_answered s with
    | mirrored hm hs hs' =>
      rw [hs, hs']
      exact MemoryPageStore.allocatePage_ok hm
  allocatePage_error {s s' e} h := by
    cases h ▸ allocatePage_answered s with
    | mirrored hm hs hs' =>
      rw [hs, hs']
      exact MemoryPageStore.allocatePage_error hm
    | rejected => rfl
  readPage_ok {s s' id data} h := by
    cases h ▸ readPage_answered id s with
    | mirrored hm hs hs' =>
      rw [hs, hs']
      exact MemoryPageStore.readPage_ok hm
  readPage_error {s s' id e} h := by
    cases h ▸ readPage_answered id s with
    | mirrored hm hs hs' =>
      rw [hs, hs']
      exact MemoryPageStore.readPage_error hm
    | rejected => rfl
  writePage_ok {s s' id data} h := by
    cases h ▸ writePage_answered id data s with
    | mirrored hm hs hs' =>
      rw [hs, hs']
      exact MemoryPageStore.writePage_ok hm
  writePage_error {s s' id data e} h := by
    cases h ▸ writePage_answered id data s with
    | mirrored hm hs hs' =>
      rw [hs, hs']
      exact MemoryPageStore.writePage_error hm
    | rejected => exact ⟨fun _ _ => rfl, rfl⟩
  sync_content h := by cases h; rfl

/-! ## Whole runs -/

/-- One call of the trait. -/
inductive StoreCall where
  | allocatePage
  | readPage (id : PageId)
  | writePage (id : PageId) (data : Page)
  | sync

/-- What a call returns when it succeeds. -/
inductive StoreReply where
  | allocated (id : PageId)
  | read (data : Page)
  | done
  deriving DecidableEq

namespace PageStore

variable {S : Type}

def call (store : PageStore S) (op : StoreCall) (s : S) : Except IoError StoreReply × S :=
  match op with
  | .allocatePage => ((store.allocatePage s).1.map .allocated, (store.allocatePage s).2)
  | .readPage id => ((store.readPage id s).1.map .read, (store.readPage id s).2)
  | .writePage id data =>
    ((store.writePage id data s).1.map fun _ => .done, (store.writePage id data s).2)
  | .sync => ((store.sync s).1.map fun _ => .done, (store.sync s).2)

/-- The replies of calls made one after another. -/
def run (store : PageStore S) : List StoreCall → S → List (Except IoError StoreReply) × S
  | [], s => ([], s)
  | op :: ops, s =>
    let (reply, s) := store.call op s
    let (replies, s) := store.run ops s
    (reply :: replies, s)

end PageStore

namespace FilePageStore

/-- A call, or the store is dropped and its file opened again. -/
inductive Event where
  | call (op : StoreCall)
  | reopen

/-- The call of an event. -/
def Event.call? : Event → Option StoreCall
  | .call op => some op
  | .reopen => none

/-- The replies to the calls among `events`; a failed `open` ends the run. -/
def run : List Event → File → Except IoError (List (Except IoError StoreReply) × File)
  | [], file => .ok ([], file)
  | .call op :: events, file => do
    let (reply, file) := FilePageStore.call op file
    let (replies, file) ← run events file
    pure (reply :: replies, file)
  | .reopen :: events, file => do
    let file ← open_ file.bytes
    run events file

theorem call_mirrors {pages : MemoryPageStore.State} {file : File} (h : Mirrors pages file)
    (op : StoreCall) : Agrees (FilePageStore.call op file) (MemoryPageStore.call op pages) := by
  cases op with
  | allocatePage =>
    obtain ⟨hresult, hstate⟩ := allocatePage_mirrors h
    exact ⟨congrArg (Except.map StoreReply.allocated) hresult, hstate⟩
  | readPage id =>
    obtain ⟨hresult, hstate⟩ := readPage_mirrors h id
    exact ⟨congrArg (Except.map StoreReply.read) hresult, hstate⟩
  | writePage id data =>
    obtain ⟨hresult, hstate⟩ := writePage_mirrors h id data
    exact ⟨congrArg (Except.map fun _ => StoreReply.done) hresult, hstate⟩
  | sync => exact ⟨rfl, h⟩

theorem open_mirrors {pages : MemoryPageStore.State} {file : File} (h : Mirrors pages file) :
    open_ file.bytes = .ok ⟨file.bytes, 0⟩ := by
  have hstart : Mirrors pages ⟨file.bytes, 0⟩ := h.seek rfl
  have hcount := hstart.pageCount
  unfold open_
  rw [hcount]
  rfl

theorem run_mirrors : ∀ (events : List Event) {pages : MemoryPageStore.State} {file : File},
    Mirrors pages file → ∃ file', run events file =
        .ok ((MemoryPageStore.run (events.filterMap Event.call?) pages).1, file') ∧
      Mirrors (MemoryPageStore.run (events.filterMap Event.call?) pages).2 file'
  | [], _, file, h => ⟨file, rfl, h⟩
  | .call op :: events, pages, file, h => by
    obtain ⟨hresult, hstate⟩ := call_mirrors h op
    obtain ⟨file', hrun, hend⟩ := run_mirrors events hstate
    refine ⟨file', ?_, hend⟩
    show (run events (FilePageStore.call op file).2 >>=
      fun r => pure ((FilePageStore.call op file).1 :: r.1, r.2)) = _
    rw [hrun, hresult]
    rfl
  | .reopen :: events, pages, file, h => by
    have hstart : Mirrors pages ⟨file.bytes, 0⟩ := h.seek rfl
    obtain ⟨file', hrun, hend⟩ := run_mirrors events hstart
    refine ⟨file', ?_, hend⟩
    show (open_ file.bytes >>= run events) = _
    rw [open_mirrors h]
    exact hrun

theorem empty_mirrors : Mirrors [] ⟨[], 0⟩ := ⟨rfl, by simp⟩

/-- **File and memory stores are interchangeable.**  From an empty store, every sequence of calls gets
the same replies from both, wherever the file is opened again.  The file has `PAGE_SIZE` bytes for each
page, there are never more than `2 ^ 32`, and no offset or length overflows. -/
theorem file_and_memory_agree (events : List Event) :
    ∃ replies file pages,
      (open_ [] >>= run events) = .ok (replies, file) ∧
      MemoryPageStore.run (events.filterMap Event.call?) [] = (replies, pages) ∧
      file.bytes = (pages.map Page.bytes).flatten ∧
      file.len = pages.length * PAGE_SIZE ∧ pageCount file = .ok pages.length ∧
      pages.length ≤ 2 ^ 32 ∧
      (∀ id : PageId, checkedMul id.toNat PAGE_SIZE = some (id.toNat * PAGE_SIZE)) ∧
      (checkedAdd pages.length 1).bind (checkedMul · PAGE_SIZE) =
        some ((pages.length + 1) * PAGE_SIZE) := by
  obtain ⟨file, hrun, hm⟩ := run_mirrors events empty_mirrors
  have hopen : open_ [] = .ok ⟨[], 0⟩ := open_mirrors empty_mirrors
  refine ⟨_, file, _, ?_, rfl, hm.bytes, hm.len, hm.pageCount, hm.count, fun id => ?_, ?_⟩
  · rw [hopen]
    exact hrun
  · have := id.toNat_lt
    exact checkedMul_page (by omega)
  · have hcount := hm.count
    rw [checkedAdd_one hcount, Option.bind_some]
    exact checkedMul_page (by omega)

end FilePageStore

end ChiliDB
