import ChiliDB.Heapam.PageContents
import ChiliDB.Heapam.Reopen

/-!
# What `open` accepts

The links of a heap are bytes on disk.  `open_` follows them over any pages, and stops: it never caches a
page twice.

* `IsChain content head pages` — the links lead from the head through these pages to one without a link.
* `openWithin` — the loop with a bound on its turns; `2 ^ 32 + 1` are enough.

Principal result: `open_accepts_exactly_chains`.
-/

namespace ChiliDB.HeapTable

open Effect HeapPage List

variable {σ : Type} {service : PageService σ} {s : σ} {pins : List PinnedBuffer} {content : Pages}
  {head : PageId} {pages : List PageId}

/-! ## Chains on disk -/

/-- Distinct allocated pages from the head on, each valid and owned by the head, each linked to the next
one and the last to none. -/
structure IsChain (content : Pages) (head : PageId) (pages : List PageId) : Prop where
  first : pages.head? = some head
  distinct : pages.Nodup
  linked : ∀ (i : Nat) (id : PageId), pages[i]? = some id → ∃ page header, content id = some page ∧
    HeapPage.header page = .ok header ∧ header.owner = head ∧ header.next = pages[i + 1]?

/-- The links decide the chain. -/
theorem IsChain.unique {pages' : List PageId} (h : IsChain content head pages)
    (h' : IsChain content head pages') : pages = pages' := by
  apply ext_getElem?
  intro i
  induction i with
  | zero => rw [← head?_eq_getElem?, ← head?_eq_getElem?, h.first, h'.first]
  | succ i ih =>
    cases hi : pages[i]? with
    | none =>
      rw [hi] at ih
      rw [getElem?_eq_none (by have := getElem?_eq_none_iff.1 hi; omega),
        getElem?_eq_none (by have := getElem?_eq_none_iff.1 ih.symm; omega)]
    | some id =>
      rw [hi] at ih
      obtain ⟨page, header, hp, hh, _, hnext⟩ := h.linked i id hi
      obtain ⟨page', header', hp', hh', _, hnext'⟩ := h'.linked i id ih.symm
      rw [hp] at hp'
      cases hp'
      rw [hh] at hh'
      cases hh'
      rw [← hnext, hnext']

/-- The chain of a handle in order. -/
theorem isChain_of_heapInv {table : HeapTable} {chain : Chain} (h : HeapInv content table chain) :
    IsChain content table.head table.pages := by
  refine ⟨h.head, h.pages ▸ h.nodup, fun i id hi => ?_⟩
  rw [h.pages, Chain.ids_getElem?] at hi
  obtain ⟨p, hp, rfl⟩ := Option.map_eq_some_iff.1 hi
  obtain ⟨page, view, hpage, hs, ho, hn, _⟩ := h.stored i p hp
  exact ⟨page, view.header, hpage, header_spec hs, ho, hn⟩

theorem exists_indexes : ∀ (pages : List PageId), pages.Nodup → ∃ indices, Indexes indices pages := by
  intro pages
  induction pages using reverseRecOn with
  | nil => exact fun _ => ⟨∅, indexes_empty⟩
  | append_singleton pages id ih =>
    intro hnodup
    rw [nodup_append] at hnodup
    obtain ⟨indices, h⟩ := ih hnodup.1
    exact ⟨_, h.push fun hm => hnodup.2.2 id hm id (mem_singleton.2 rfl) rfl⟩

/-- The rows of a stored page. -/
def rowsOf (content : Pages) (id : PageId) : List (Option Bytes) :=
  match content id with
  | some page => (contents page).rows
  | none => []

/-- A chain on disk is one a handle can cache. -/
theorem IsChain.heapInv (h : IsChain content head pages) : ∃ indices,
    HeapInv content ⟨head, pages, indices, false⟩ (pages.map fun id => ⟨id, rowsOf content id⟩) := by
  obtain ⟨indices, hindices⟩ := exists_indexes pages h.distinct
  have hids : Chain.ids (pages.map fun id => ⟨id, rowsOf content id⟩) = pages := by
    unfold Chain.ids
    rw [map_map]
    exact map_id pages
  refine ⟨indices, hids.symm, h.first, by rw [hids]; exact h.distinct, hindices, rfl, fun i p hi => ?_⟩
  rw [getElem?_map] at hi
  obtain ⟨id, hid, rfl⟩ := Option.map_eq_some_iff.1 hi
  obtain ⟨page, header, hp, hh, ho, hn⟩ := h.linked i id hid
  obtain ⟨view, rfl, hs⟩ := (header_checks page).ok hh
  refine ⟨page, view, hp, hs, ho, hn, ?_⟩
  simp only [rowsOf, hp, hs.contents]

/-! ## The loop stops -/

/-- The loop of `open` with at most `turns` turns; `none` if they do not suffice. -/
def openWithin (service : PageService σ) (head : PageId) : Nat → List PageId →
    AList (fun _ : PageId => Nat) → Option PageId → σ → Option (Result HeapError HeapTable × σ)
  | 0, _, _, _, _ => none
  | _ + 1, pages, indices, none, s => some (.ok ⟨head, pages, indices, false⟩, s)
  | turns + 1, pages, indices, some id, s =>
    if id ∈ indices then
      some (.error (.error (.corrupt "cycle in page chain")), s)
    else
      match readPage service id HeapPage.header s with
      | (.error e, s) => some (.error e, s)
      | (.ok header, s) =>
        if header.owner ≠ head then
          some (.error (.error (.corrupt "page belongs to another heap")), s)
        else
          openWithin service head turns (pages ++ [id]) (indices.insert id pages.length) header.next s

theorem length_keys_le (indices : AList (fun _ : PageId => Nat)) : indices.keys.length ≤ 2 ^ 32 := by
  have hnodup : (indices.keys.map UInt32.toFin).Nodup :=
    indices.keys_nodup.map fun a b hab => UInt32.toFin_inj.1 hab
  have hle := hnodup.length_le_card
  rw [length_map, Fintype.card_fin] at hle
  exact hle

/-- Every turn caches one more of the `2 ^ 32` page ids. -/
theorem openWithin_eq (service : PageService σ) (head : PageId) (pages : List PageId)
    (indices : AList (fun _ : PageId => Nat)) (next : Option PageId) : ∀ (turns : Nat) (s : σ),
      2 ^ 32 < indices.keys.length + turns →
      openWithin service head turns pages indices next s = some (openFrom service head pages indices next s) := by
  induction pages, indices, next using openFrom.induct with
  | case1 pages indices =>
    intro turns s hturns
    have hle := length_keys_le indices
    obtain ⟨turns, rfl⟩ := Nat.exists_eq_add_one.2 (show 0 < turns by omega)
    unfold openFrom
    rfl
  | case2 pages indices id hid =>
    intro turns s hturns
    have hle := length_keys_le indices
    obtain ⟨turns, rfl⟩ := Nat.exists_eq_add_one.2 (show 0 < turns by omega)
    unfold openFrom openWithin
    rw [if_pos hid, dif_pos hid]
    rfl
  | case3 pages indices id hid ih =>
    intro turns s hturns
    have hlt := length_keys_lt hid
    obtain ⟨turns, rfl⟩ := Nat.exists_eq_add_one.2 (show 0 < turns by omega)
    have hlen : (indices.insert id pages.length).keys.length = indices.keys.length + 1 := by
      rw [AList.keys_insert, length_cons, erase_of_not_mem (fun hm => hid (AList.mem_keys.2 hm))]
    unfold openFrom openWithin
    rw [if_neg hid, dif_neg hid, Exec.bind_run]
    rcases readPage service id header s with ⟨r, s1⟩
    cases r with
    | error e => rfl
    | ok header =>
      simp only
      split
      · rfl
      · exact ih header turns s1 (by omega)

/-! ## What is accepted -/

/-- **Opening a heap stops, and accepts exactly well-formed chains.**  Over any pages of a pool that serves
reads of allocated pages, `open_` ends after at most `2 ^ 32 + 1` turns of its loop.  It returns a handle
if and only if the links from the head form a chain of distinct, allocated, valid pages owned by the head;
the handle caches that chain in order, with its inverse. -/
theorem open_accepts_exactly_chains {J : σ → Prop} (hreads : Reads service J (fun _ _ => False))
    (hj : J s) (hinv : service.inv s pins) (head : PageId) :
    openWithin service head (2 ^ 32 + 1) [] ∅ (some head) s = some (open_ service head s) ∧
    ((∃ table s', open_ service head s = (.ok table, s')) ↔
      ∃ pages, IsChain (service.content s) head pages) ∧
    ∀ table s', open_ service head s = (.ok table, s') →
      IsChain (service.content s) head table.pages ∧
      (∀ pages, IsChain (service.content s) head pages → pages = table.pages) ∧
      ∀ (id : PageId) (i : Nat), table.indices.lookup id = some i ↔ table.pages[i]? = some id := by
  have hsound : ∀ table s', open_ service head s = (.ok table, s') →
      IsChain (service.content s) head table.pages ∧ Indexes table.indices table.pages := by
    intro table s' hopen
    obtain ⟨_, _, rfl, chain, hheap⟩ := (open_sound hinv head).ok hopen
    exact ⟨isChain_of_heapInv hheap, hheap.indices⟩
  refine ⟨openWithin_eq service head [] ∅ (some head) _ s (by simp), ⟨?_, ?_⟩, ?_⟩
  · intro h
    obtain ⟨table, s', hopen⟩ := h
    exact ⟨table.pages, (hsound table s' hopen).1⟩
  · intro h
    obtain ⟨pages, hchain⟩ := h
    obtain ⟨indices, hheap⟩ := hchain.heapInv
    obtain ⟨table, s', hopen, _⟩ := (hreads.reopen hj hheap).returns
    exact ⟨table, s', hopen⟩
  · intro table s' hopen
    obtain ⟨hchain, hindices⟩ := hsound table s' hopen
    exact ⟨hchain, fun pages hpages => hpages.unique hchain, hindices⟩

/-- A store of two linked heap pages, in a pool of one frame. -/
theorem open_of_two_pages : ∃ (first second : Page)
    (pool : BufferPool MemoryPageStore.State ClockStrategy.State), initPage 0 = .ok second ∧
    setNext (some 1) second = (.ok (), first) ∧ BufferPool.new 1 [first, second] = .ok pool ∧
    ∃ table pool', open_ BufferPool.memory 0 pool = (.ok table, pool') ∧
      table.pages = [0, 1] := by
  obtain ⟨second, hinit, hsecond⟩ := initPage_shows 0
  obtain ⟨first, view, hset, hfirst, howner, hnext, _⟩ := setNext_spec hsecond (some 1)
  have hover : ClockStrategy.Over 1 ⟨[false], 0⟩ := ClockStrategy.new_over rfl
  have hquiet : Quiet MemoryPageStore ClockStrategy
      ⟨[first, second], [Frame.unused], ∅, ⟨[false], 0⟩, false⟩ [] :=
    quiet_withStrategy (show BufferPool.withStrategy 1 [first, second] _ = .ok _ from rfl)
      (ClockStrategy.safeAt hover) (ClockStrategy.fairAt hover (by decide)) (MemoryPageStore.healthy _)
  have h := open_accepts_exactly_chains (reads_quiet MemoryPageStore ClockStrategy) hquiet hquiet.inOrder 0
  have hchain : IsChain (logical MemoryPageStore
      ⟨[first, second], [Frame.unused], ∅, (⟨[false], 0⟩ : ClockStrategy.State), false⟩) 0 [0, 1] := by
    refine ⟨rfl, by decide, fun i id hi => ?_⟩
    match i, hi with
    | 0, rfl => exact ⟨first, _, rfl, header_spec hfirst, howner, hnext⟩
    | 1, rfl => exact ⟨second, _, rfl, header_spec hsecond, rfl, rfl⟩
  obtain ⟨table, pool', hopen⟩ := h.2.1.2 ⟨[0, 1], hchain⟩
  exact ⟨first, second, _, hinit, hset, rfl, table, pool', hopen,
    ((h.2.2 table pool' hopen).2.1 [0, 1] hchain).symm⟩

end ChiliDB.HeapTable
