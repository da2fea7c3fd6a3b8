import ChiliDB.Storage.Basic
import Mathlib.Logic.Function.Basic

/-!
# Page stores

`crates/storage/src/store.rs`: the `PageStore` trait with what its documentation promises, and the
in-memory store.

* `PageStore S` — the four calls over a store state `S`, and the stored bytes of each allocated page
  (`content`).  Every call may fail whenever it likes; the state can hold anything that decides it.
  A failed `writePage id` may leave arbitrary bytes in page `id`, and in no other page.
* `MemoryPageStore` — a vector of pages.
-/

namespace ChiliDB

/-- The stored pages: the bytes of each allocated page. -/
abbrev Pages := PageId → Option Page

structure PageStore (S : Type) where
  allocatePage : S → Except IoError PageId × S
  readPage : PageId → S → Except IoError Page × S
  writePage : PageId → Page → S → Except IoError Unit × S
  sync : S → Except IoError Unit × S
  content : S → Pages
  allocatePage_ok : ∀ {s s' : S} {id : PageId}, allocatePage s = (.ok id, s') →
    content s id = none ∧ content s' = Function.update (content s) id (some Page.zero)
  allocatePage_error : ∀ {s s' : S} {e : IoError}, allocatePage s = (.error e, s') → content s' = content s
  readPage_ok : ∀ {s s' : S} {id : PageId} {data : Page}, readPage id s = (.ok data, s') →
    content s id = some data ∧ content s' = content s
  readPage_error : ∀ {s s' : S} {id : PageId} {e : IoError}, readPage id s = (.error e, s') →
    content s' = content s
  writePage_ok : ∀ {s s' : S} {id : PageId} {data : Page}, writePage id data s = (.ok (), s') →
    content s' = Function.update (content s) id (some data)
  /-- A torn write stays inside its page. -/
  writePage_error : ∀ {s s' : S} {id : PageId} {data : Page} {e : IoError},
    writePage id data s = (.error e, s') →
      (∀ other, other ≠ id → content s' other = content s other) ∧
        (content s' id).isSome = (content s id).isSome
  sync_content : ∀ {s s' : S} {r : Except IoError Unit}, sync s = (r, s') → content s' = content s

/-- `unallocated page ID {id}`. -/
def invalidId (id : PageId) : IoError := ⟨.invalidInput, "unallocated page ID " ++ toString id⟩

/-! ## The in-memory store -/

namespace MemoryPageStore

/-- `pages: Mutex<Vec<Box<Page>>>`; nothing panics while the mutex is held. -/
abbrev State := List Page

def allocatePage (pages : State) : Except IoError PageId × State :=
  if pages.length < 2 ^ 32 then (.ok (UInt32.ofNat pages.length), pages ++ [Page.zero])
  else (.error ⟨.other, "page ID space exhausted"⟩, pages)

def readPage (id : PageId) (pages : State) : Except IoError Page × State :=
  match pages[id.toNat]? with
  | some page => (.ok page, pages)
  | none => (.error (invalidId id), pages)

def writePage (id : PageId) (data : Page) (pages : State) : Except IoError Unit × State :=
  if id.toNat < pages.length then (.ok (), pages.set id.toNat data)
  else (.error (invalidId id), pages)

def content (pages : State) : Pages := fun id => pages[id.toNat]?

theorem content_append {pages : State} (h : pages.length < 2 ^ 32) (data : Page) :
    content (pages ++ [data]) = Function.update (content pages) (.ofNat pages.length) (some data) := by
  have hn : (UInt32.ofNat pages.length).toNat = pages.length := UInt32.toNat_ofNat_of_lt' h
  funext id
  by_cases hid : id = UInt32.ofNat pages.length
  · subst hid
    rw [Function.update_self]
    show (pages ++ [data])[(UInt32.ofNat pages.length).toNat]? = some data
    rw [hn, List.getElem?_concat_length]
  · rw [Function.update_of_ne hid]
    have hne : id.toNat ≠ pages.length := fun he => hid (UInt32.toNat_inj.1 (by rw [he, hn]))
    show (pages ++ [data])[id.toNat]? = pages[id.toNat]?
    rcases Nat.lt_or_ge id.toNat pages.length with hlt | hge
    · rw [List.getElem?_append_left hlt]
    · rw [List.getElem?_eq_none (by simp; omega), List.getElem?_eq_none hge]

theorem content_set {pages : State} {id : PageId} (h : id.toNat < pages.length) (data : Page) :
    content (pages.set id.toNat data) = Function.update (content pages) id (some data) := by
  funext other
  show (pages.set id.toNat data)[other.toNat]? = _
  by_cases ho : other = id
  · subst ho
    rw [Function.update_self, List.getElem?_set_self h]
  · rw [Function.update_of_ne ho, List.getElem?_set_ne (fun he => ho (UInt32.toNat_inj.1 he.symm))]
    rfl

end MemoryPageStore

open MemoryPageStore in
/-- `impl PageStore for MemoryPageStore`. -/
def MemoryPageStore : PageStore MemoryPageStore.State where
  allocatePage := allocatePage
  readPage := readPage
  writePage := writePage
  sync pages := (.ok (), pages)
  content := content
  allocatePage_ok {s s' id} h := by
    unfold MemoryPageStore.allocatePage at h
    split at h
    · rename_i hlt
      cases h
      have hn : (UInt32.ofNat s.length).toNat = s.length := UInt32.toNat_ofNat_of_lt' hlt
      exact ⟨List.getElem?_eq_none (Nat.le_of_eq hn.symm), content_append hlt _⟩
    · cases h
  allocatePage_error {s s' e} h := by
    unfold MemoryPageStore.allocatePage at h
    split at h <;> cases h
    rfl
  readPage_ok {s s' id data} h := by
    unfold MemoryPageStore.readPage at h
    split at h
    · rename_i hd; cases h; exact ⟨hd, rfl⟩
    · cases h
  readPage_error {s s' id e} h := by
    unfold MemoryPageStore.readPage at h
    split at h <;> cases h
    rfl
  writePage_ok {s s' id data} h := by
    unfold MemoryPageStore.writePage at h
    split at h
    · rename_i hlt; cases h; exact content_set hlt data
    · cases h
  writePage_error {s s' id data e} h := by
    unfold MemoryPageStore.writePage at h
    split at h <;> cases h
    exact ⟨fun _ _ => rfl, rfl⟩
  sync_content h := by cases h; rfl

end ChiliDB
