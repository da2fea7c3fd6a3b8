import ChiliDB.Catalog.HeapCatalog
import ChiliDB.Heapam.Heaps
import ChiliDB.Heapam.ScanExact
import Mathlib.Algebra.Order.BigOperators.Group.List
import Mathlib.Algebra.Order.Group.Nat

/-!
# What a catalog stands for

* `Chain.records` — the live records of a heap, in the order of a scan; `Chain.remaining` — those that a
  scan has still to return.
* `Loaded` — the cached entries are these table records, each with an opened heap.
* `openEntries_sound`, `openEntries_returns` — the loop of `open_`, over any bytes and over the records of
  a catalog.
-/

namespace ChiliDB

open Effect HeapPage List

/-! ## The records of a heap -/

namespace Chain

variable {chain chain' : Chain} {b : Bytes} {c : Ctid}

def live (chain : Chain) : List (Ctid × Bytes) := (chain.map fun p => p.live p.rows.length).flatten

def records (chain : Chain) : List Bytes := chain.live.map Prod.snd

theorem live_append (front back : Chain) : live (front ++ back) = live front ++ live back := by
  unfold live
  rw [map_append, flatten_append]

theorem live_singleton (p : RowPage) : live [p] = p.live p.rows.length :=
  flatten_singleton

/-- A new slot comes last. -/
theorem live_concat (id : PageId) (rows : List (Option Bytes)) {slotId : SlotId}
    (h : slotId.get = rows.length + 1) :
    RowPage.live ⟨id, rows ++ [some b]⟩ (rows ++ [some b]).length =
      RowPage.live ⟨id, rows⟩ rows.length ++ [(⟨id, slotId⟩, b)] := by
  have hold : ∀ i ∈ range rows.length, liveRow (rows ++ [some b]) i = liveRow rows i := by
    intro i hi
    unfold liveRow
    rw [getElem?_append_left (mem_range.1 hi)]
  have hnew : liveRow (rows ++ [some b]) rows.length = some (slotId, b) :=
    liveRow_eq_some.2 ⟨h, getElem?_concat_length ..⟩
  have hrows : liveRows (rows ++ [some b]) (rows.length + 1) = liveRows rows rows.length ++ [(slotId, b)] := by
    unfold liveRows
    rw [range_succ, filterMap_append, filterMap_congr hold, filterMap_cons_some hnew]
    rfl
  unfold RowPage.live
  rw [length_append, length_singleton]
  show (liveRows (rows ++ [some b]) (rows.length + 1)).map _ = _
  rw [hrows, map_append]
  rfl

/-- **A new record is the last one of its heap.** -/
theorem Inserted.live (h : Inserted chain b c chain') : chain'.live = chain.live ++ [(c, b)] := by
  cases h with
  | @tail front p c hchain _ hid hslot =>
    obtain ⟨pageId, slotId⟩ := c
    cases hid
    rw [hchain, live_append, live_append, live_singleton, live_singleton, live_concat _ _ hslot, append_assoc]
  | @page front p c hchain _ _ hslot =>
    have hnew := live_concat (b := b) c.pageId [] hslot
    rw [live_append, live_singleton]
    exact congrArg _ hnew

theorem Inserted.records (h : Inserted chain b c chain') : chain'.records = chain.records ++ [b] := by
  unfold Chain.records
  rw [h.live, map_append]
  rfl

/-- What a scan has still to return if the chain stays as it is. -/
def remaining (chain : Chain) (scan : HeapScan) : List (Ctid × Bytes) :=
  scan.rows ++ ((scan.pages.drop scan.index).map fun x => RowPage.live ⟨x.1, chain.rowsOf x.1⟩ x.2).flatten

theorem remaining_capture (hn : chain.ids.Nodup) : chain.remaining chain.capture = chain.live := by
  have hpages : (chain.map fun p => (p.id, p.rows.length)).map
      (fun x => RowPage.live ⟨x.1, chain.rowsOf x.1⟩ x.2) = chain.map fun p => p.live p.rows.length := by
    rw [map_map]
    refine map_congr_left fun p hp => ?_
    obtain ⟨i, hi⟩ := mem_iff_getElem?.1 hp
    show RowPage.live ⟨p.id, chain.rowsOf p.id⟩ p.rows.length = _
    rw [rowsOf_eq hn hi]
  show [] ++ _ = _
  rw [nil_append]
  exact congrArg flatten hpages

theorem length_live_le (chain : Chain) : chain.live.length ≤ HeapCatalog.captured chain.capture := by
  unfold HeapCatalog.captured capture live
  rw [map_map, length_flatten, map_map]
  exact sum_le_sum fun p _ => ChiliDB.length_live_le p p.rows.length

/-- A call of `next` takes the first of the remaining records. -/
theorem advance_remaining {scan scan' : HeapScan} {row : Option (Ctid × Bytes)}
    (h : chain.advance (scan.pages.drop scan.index) scan = (row, scan')) :
    chain.remaining scan = row.toList ++ chain.remaining scan' ∧ (row = none → chain.remaining scan = []) := by
  obtain ⟨hp, _, _⟩ := advance_forward chain (scan.pages.drop scan.index) scan
  obtain ⟨n, hn, hi, hrows, hnone⟩ := advance_reads chain (scan.pages.drop scan.index) scan
  rw [h] at hp hi hrows hnone
  have hp' : scan'.pages = scan.pages := hp
  have hi' : scan'.index = scan.index + n := hi
  constructor
  · unfold remaining
    rw [hp', hi', ← append_assoc, show row.toList ++ scan'.rows = _ from hrows, append_assoc,
      ← flatten_append, ← map_append, ← drop_drop, take_append_drop]
  · rintro rfl
    obtain ⟨rfl, hempty, hempty'⟩ := hnone rfl
    have hlast : [] ++ scan'.rows = _ := hrows
    rw [hempty', take_length] at hlast
    exact hlast.symm

end Chain

variable {σ : Type} {service : PageService σ} {pins : List PinnedBuffer} {content content' : Pages}
  {table table' : HeapTable} {chain chain' : Chain}

/-! ## Cached entries -/

open Codec (Metadata)

/-- The record of a cached table. -/
def HeapTableSource.metadata (source : HeapTableSource) : Metadata :=
  ⟨source.schema, source.heap.head, source.constraints⟩

namespace HeapCatalog

variable {root : PageId} {ms : List Metadata} {entries : Entries} {m : Metadata}

/-- The entries are these records by name; names and heads are distinct, and every heap is in order. -/
structure Loaded (content : Pages) (root : PageId) (ms : List Metadata) (entries : Entries) : Prop where
  names : (ms.map fun m => m.schema.name).Nodup
  heads : (root :: ms.map Metadata.head).Nodup
  cached : ∀ (name : String) (m : Metadata),
    (entries.lookup name).map HeapTableSource.metadata = some m ↔ m ∈ ms ∧ m.schema.name = name
  tables : ∀ (name : String) (source : HeapTableSource), entries.lookup name = some source →
    ∃ chain, HeapInv content source.heap chain

theorem Loaded.empty (content : Pages) (root : PageId) : Loaded content root [] ∅ := by
  constructor
  · exact nodup_nil
  · exact nodup_singleton root
  · intro name m
    simp
  · intro name source h
    simp at h

variable {name : String} {source : HeapTableSource}

section

variable (h : Loaded content root ms entries)

include h

theorem Loaded.of_lookup (hl : entries.lookup name = some source) :
    source.metadata ∈ ms ∧ source.schema.name = name :=
  (h.cached name source.metadata).1 (by rw [hl]; rfl)

theorem Loaded.mem_iff (name : String) : name ∈ entries ↔ name ∈ ms.map fun m => m.schema.name := by
  rw [← AList.lookup_isSome, Option.isSome_iff_exists, mem_map]
  constructor
  · rintro ⟨source, hl⟩
    exact ⟨_, h.of_lookup hl⟩
  · rintro ⟨m, hm⟩
    obtain ⟨source, hl, _⟩ := Option.map_eq_some_iff.1 ((h.cached name m).2 hm)
    exact ⟨source, hl⟩

theorem Loaded.head_ne_root (hl : entries.lookup name = some source) : source.heap.head ≠ root := by
  intro he
  refine (nodup_cons.1 h.heads).1 (mem_map.2 ⟨source.metadata, (h.of_lookup hl).1, he⟩)

/-- Different tables have different heaps. -/
theorem Loaded.head_ne {name' : String} {source' : HeapTableSource}
    (hl : entries.lookup name = some source) (hl' : entries.lookup name' = some source') (hne : name ≠ name') :
    source.heap.head ≠ source'.heap.head := by
  intro he
  obtain ⟨hmem, hname⟩ := h.of_lookup hl
  obtain ⟨hmem', hname'⟩ := h.of_lookup hl'
  have hsame : source.metadata = source'.metadata :=
    inj_on_of_nodup_map (nodup_cons.1 h.heads).2 hmem hmem' he
  exact hne (hname.symm.trans ((congrArg (fun m => m.schema.name) hsame).trans hname'))

/-- One more table. -/
theorem Loaded.push (source : HeapTableSource)
    (hname : source.schema.name ∉ entries) (hhead : source.heap.head ∉ root :: ms.map Metadata.head)
    (htable : ∃ chain, HeapInv content source.heap chain) :
    Loaded content root (ms ++ [source.metadata]) (entries.insert source.schema.name source) := by
  have hname' : source.schema.name ∉ ms.map fun m => m.schema.name := fun hm =>
    hname ((h.mem_iff _).2 hm)
  constructor
  · rw [map_append, nodup_append]
    refine ⟨h.names, nodup_singleton _, fun x hx y hy he => hname' ?_⟩
    cases he.trans (mem_singleton.1 hy)
    exact hx
  · rw [map_append, ← cons_append, nodup_append]
    refine ⟨h.heads, nodup_singleton _, fun x hx y hy he => hhead ?_⟩
    cases he.trans (mem_singleton.1 hy)
    exact hx
  · intro name m
    rw [mem_append, mem_singleton]
    by_cases hn : name = source.schema.name
    · subst hn
      rw [AList.lookup_insert]
      constructor
      · intro hm
        cases hm
        exact ⟨.inr rfl, rfl⟩
      · rintro ⟨hm | rfl, hmname⟩
        · exact absurd (mem_map.2 ⟨m, hm, hmname⟩) hname'
        · rfl
    · rw [AList.lookup_insert_ne hn, h.cached]
      constructor
      · rintro ⟨hm, hmname⟩
        exact ⟨.inl hm, hmname⟩
      · rintro ⟨hm | rfl, hmname⟩
        · exact ⟨hm, hmname⟩
        · exact absurd hmname.symm hn
  · intro name other hl
    by_cases hn : name = source.schema.name
    · subst hn
      rw [AList.lookup_insert] at hl
      cases hl
      exact htable
    · rw [AList.lookup_insert_ne hn] at hl
      exact h.tables name other hl

end

/-- Two caches of the same records are the same map. -/
theorem Loaded.same_entries {root' : PageId} {entries' : Entries} (h : Loaded content root ms entries)
    (h' : Loaded content' root' ms entries') (name : String) :
    (entries'.lookup name).map HeapTableSource.metadata = (entries.lookup name).map HeapTableSource.metadata := by
  apply Option.ext
  intro m
  rw [h.cached, h'.cached]

/-- Every heap is in order in other pages too. -/
theorem Loaded.congr (h : Loaded content root ms entries)
    (hc : ∀ name source chain, entries.lookup name = some source → HeapInv content source.heap chain →
      HeapInv content' source.heap chain) : Loaded content' root ms entries := by
  refine ⟨h.names, h.heads, h.cached, fun name source hl => ?_⟩
  obtain ⟨chain, hheap⟩ := h.tables name source hl
  exact ⟨chain, hc name source chain hl hheap⟩

/-! ## The loop of `open_` -/

section

variable {α ε : Type} {J : σ → Prop} {E : Fault HeapError → σ → Prop} {s : Scanning σ}

theorem ensures_owning {m : Exec ε (Heap σ) α} {pool : σ} {Q : α × HeapTable → σ → Prop}
    {E : Fault ε → σ → Prop}
    (h : Exec.Ensures m ⟨pool, table⟩ (fun a heap => Q (a, heap.table) heap.pool)
      (fun e heap => E e heap.pool)) : Exec.Ensures (owning table m) pool Q E := by
  unfold Exec.Ensures owning at *
  rcases hm : m ⟨pool, table⟩ with ⟨r, heap⟩
  rw [hm] at h
  cases r <;> exact h

theorem ensures_iterating {m : Exec ε (Scanning σ) α} {pool : σ} {scan : HeapScan}
    {Q : α × HeapTable → σ → Prop} {E : Fault ε → σ → Prop}
    (h : Exec.Ensures m ⟨⟨pool, table⟩, scan⟩ (fun a s => Q (a, s.heap.table) s.heap.pool)
      (fun e s => E e s.heap.pool)) : Exec.Ensures (iterating table scan m) pool Q E := by
  unfold Exec.Ensures iterating at *
  rcases hm : m ⟨⟨pool, table⟩, scan⟩ with ⟨r, s⟩
  rw [hm] at h
  cases r <;> exact h

/-- An iterator over a heap in order. -/
structure Reading (service : PageService σ) (J : σ → Prop) (content : Pages) (table : HeapTable)
    (chain : Chain) (s : Scanning σ) : Prop where
  pool : J s.heap.pool
  shown : service.content s.heap.pool = content
  handle : s.heap.table = table
  heap : HeapInv content table chain
  failed : s.scan.failed = false
  bounded : ScanOk chain s.scan

/-- `nextRecord` takes the first of the remaining records. -/
theorem nextRecord_spec (hreads : HeapTable.Reads service J E)
    (h : Reading service J content table chain s) :
    Exec.Ensures (nextRecord service) s
      (fun record s' => Reading service J content table chain s' ∧
        chain.remaining s.scan = record.toList ++ chain.remaining s'.scan ∧
        (record = none → chain.remaining s.scan = []))
      (fun e s' => ∃ x, e = .error (.heap x) ∧ E (.error x) s'.heap.pool) := by
  obtain ⟨heap, scan⟩ := s
  have hheap : heap.Inv service chain := by
    rw [Heap.Inv, show service.content heap.pool = content from h.shown, show heap.table = table from h.handle]
    exact h.heap
  refine .bind (.mapErr ((next_spec hreads h.pool hheap h.bounded).mono ?_ (fun _ _ hf => hf.elim)))
  rintro item s' (⟨hfailed, _⟩ | ⟨_, row, rfl, hrow⟩ | ⟨_, e, rfl, hfails⟩)
  · rw [show scan.failed = false from h.failed] at hfailed
    cases hfailed
  · have hforward := advance_forward chain (scan.pages.drop scan.index) scan
    have hnext : Reading service J content table chain s' := by
      refine ⟨hrow.looked.pool, hrow.looked.content.trans h.shown, hrow.looked.table.trans h.handle,
        h.heap, ?_, .advance h.bounded hrow.row⟩
      rw [hrow.row] at hforward
      exact hforward.2.1.trans h.failed
    obtain ⟨hrest, hend⟩ := Chain.advance_remaining hrow.row
    cases row with
    | none => exact ⟨hnext, hrest, hend⟩
    | some row => exact ⟨hnext, hrest, fun he => by cases he⟩
  · exact ⟨e, rfl, hfails.error⟩

theorem ensures_behindScan {m : Exec HeapError σ α} {Q : α → Scanning σ → Prop}
    {E : Fault CatalogError → Scanning σ → Prop}
    (h : Exec.Ensures m s.heap.pool (fun a pool => Q a ⟨⟨pool, s.heap.table⟩, s.scan⟩)
      (fun e pool => E (e.map .heap) ⟨⟨pool, s.heap.table⟩, s.scan⟩)) :
    Exec.Ensures (.mapErr .heap (behindScan m)) s Q E :=
  .mapErr (.zoom h)

theorem roots_push {roots : List PageId} (h : ∀ id, id ∈ roots ↔ id ∈ root :: ms.map Metadata.head)
    (m : Metadata) (id : PageId) :
    id ∈ m.head :: roots ↔ id ∈ root :: (ms ++ [m]).map Metadata.head := by
  rw [mem_cons, h, map_append, ← cons_append, mem_append, or_comm]
  simp

/-- **The loop of `open_`, whatever the records are.** -/
theorem openEntries_sound {s0 : σ} (turns : Nat) : ∀ {s : Scanning σ} {ms : List Metadata}
    {entries : Entries} {roots : List PageId},
    Reading service (Kept service pins s0) content table chain s → Loaded content root ms entries →
    (∀ id, id ∈ roots ↔ id ∈ root :: ms.map Metadata.head) →
    Exec.Ensures (openEntries service turns entries roots) s
      (fun r s' => Reading service (Kept service pins s0) content table chain s' ∧
        (r = none ∧ turns ≤ (chain.remaining s.scan).length ∨
          ∃ entries' ms', r = some entries' ∧ Loaded content root (ms ++ ms') entries' ∧
            (chain.remaining s.scan).map (fun record => Codec.decode record.2) = ms'.map .ok))
      (fun e s' => Kept service pins s0 s'.heap.pool ∧ ∃ x, e = .error x) := by
  induction turns with
  | zero =>
    intro s ms entries roots hs _ _
    exact ⟨hs, .inl ⟨rfl, Nat.zero_le _⟩⟩
  | succ turns ih =>
    intro s ms entries roots hs hl hroots
    refine .bind ((nextRecord_spec (HeapTable.reads_kept service pins s0) hs).mono ?_ ?_)
    · rintro record s1 ⟨hs1, hrest, hend⟩
      cases record with
      | none => exact ⟨hs1, .inr ⟨entries, [], rfl, by rwa [append_nil], by rw [hend rfl]; rfl⟩⟩
      | some record =>
        obtain ⟨ctid, bytes⟩ := record
        show Exec.Ensures (if bytes = Codec.MANIFEST then _ else _) s1 _ _
        split
        · exact ⟨hs1.pool, _, rfl⟩
        split
        · exact ⟨hs1.pool, _, rfl⟩
        rename_i m hdecode
        obtain ⟨schema, head, constraints⟩ := m
        split
        · exact ⟨hs1.pool, _, rfl⟩
        rename_i hnew
        obtain ⟨hname, hhead⟩ := not_or.1 hnew
        refine .bind (ensures_behindScan ((HeapTable.open_sound hs1.pool.inv head).mono ?_ ?_))
        · rintro heap pool ⟨hinv, hc, rfl, hchain⟩
          rw [hs1.shown] at hc hchain
          have hs2 : Reading service (Kept service pins s0) content table chain ⟨⟨pool, s1.heap.table⟩, s1.scan⟩ :=
            ⟨⟨hinv, hs1.pool.grows.trans (.of_eq (hc.trans hs1.shown.symm))⟩, hc, hs1.handle, hs1.heap,
              hs1.failed, hs1.bounded⟩
          have hl2 := hl.push ⟨heap, schema, constraints⟩ hname (fun hm => hhead ((hroots _).2 hm)) hchain
          refine (ih hs2 hl2 (roots_push hroots _)).mono ?_ (fun _ _ he => he)
          rintro r s3 ⟨hs3, ⟨rfl, hle⟩ | ⟨entries', ms', rfl, hl3, hrecords⟩⟩
          · refine ⟨hs3, .inl ⟨rfl, ?_⟩⟩
            rw [hrest]
            exact Nat.succ_le_succ hle
          · refine ⟨hs3, .inr ⟨entries', ⟨schema, heap.head, constraints⟩ :: ms', rfl, ?_, ?_⟩⟩
            · rw [append_cons]
              exact hl3
            · rw [hrest]
              exact congrArg₂ cons hdecode hrecords
        · rintro e pool ⟨hkept, x, rfl⟩
          exact ⟨hs1.pool.trans hkept, _, rfl⟩
    · rintro e s1 ⟨x, rfl, hkept, _⟩
      exact ⟨hkept, _, rfl⟩

/-- **The loop of `open_` over the records of a catalog, in a pool that serves every read.** -/
theorem openEntries_returns (hreads : HeapTable.Reads service J (fun _ _ => False)) (ms' : List Metadata) :
    ∀ {s : Scanning σ} {turns : Nat} {ms : List Metadata} {entries : Entries} {roots : List PageId},
    Reading service J content table chain s → Loaded content root ms entries →
    (∀ id, id ∈ roots ↔ id ∈ root :: ms.map Metadata.head) →
    (chain.remaining s.scan).map (fun record => Codec.decode record.2) = ms'.map .ok →
    ((ms ++ ms').map fun m => m.schema.name).Nodup → (root :: (ms ++ ms').map Metadata.head).Nodup →
    (∀ m ∈ ms', ∃ table chain, table.head = m.head ∧ HeapInv content table chain) → ms'.length < turns →
    Exec.Ensures (openEntries service turns entries roots) s
      (fun r _ => ∃ entries', r = some entries' ∧ Loaded content root (ms ++ ms') entries')
      (fun _ _ => False) := by
  induction ms' with
  | nil =>
    intro s turns ms entries roots hs hl _ hrecords _ _ _ hturns
    obtain ⟨turns, rfl⟩ := Nat.exists_eq_add_one.2 hturns
    refine .bind ((nextRecord_spec hreads hs).mono ?_ ?_)
    · rintro record s1 ⟨_, hrest, _⟩
      cases record with
      | none => exact ⟨entries, rfl, by rwa [append_nil]⟩
      | some record =>
        rw [hrest] at hrecords
        cases hrecords
    · rintro e s1 ⟨_, _, hf⟩
      exact hf
  | cons m ms' ih =>
    intro s turns ms entries roots hs hl hroots hrecords hnames hheads htables hturns
    obtain ⟨turns, rfl⟩ := Nat.exists_eq_add_one.2 (Nat.lt_of_le_of_lt (Nat.zero_le _) hturns)
    refine .bind ((nextRecord_spec hreads hs).mono ?_ ?_)
    · rintro record s1 ⟨hs1, hrest, hend⟩
      cases record with
      | none =>
        rw [hend rfl] at hrecords
        cases hrecords
      | some record =>
        obtain ⟨ctid, bytes⟩ := record
        rw [hrest] at hrecords
        obtain ⟨hdecode, htail⟩ := List.cons.inj hrecords
        have hdecode' : Codec.decode bytes = .ok m := hdecode
        have hname : m.schema.name ∉ entries := by
          intro hm
          rw [map_append, nodup_append] at hnames
          exact hnames.2.2 _ ((hl.mem_iff _).1 hm) _ (mem_cons_self ..) rfl
        have hhead : m.head ∉ roots := by
          intro hm
          rw [map_append, ← cons_append, nodup_append] at hheads
          exact hheads.2.2 _ ((hroots _).1 hm) _ (mem_cons_self ..) rfl
        show Exec.Ensures (if bytes = Codec.MANIFEST then _ else _) s1 _ _
        rw [if_neg (by rintro rfl; cases hdecode')]
        split
        · rename_i reason herror
          rw [hdecode'] at herror
          cases herror
        rename_i m' hm'
        rw [hdecode'] at hm'
        cases hm'
        rw [if_neg (not_or.2 ⟨hname, hhead⟩)]
        obtain ⟨heap, heapChain, hheapHead, hheapInv⟩ := htables m (mem_cons_self ..)
        have hinv : HeapInv (service.content s1.heap.pool) heap heapChain := by rw [hs1.shown]; exact hheapInv
        have hopen := hreads.reopen hs1.pool hinv
        rw [hheapHead] at hopen
        refine .bind (ensures_behindScan (hopen.mono ?_ (fun _ _ hf => hf)))
        rintro heap' pool ⟨hj, hc, hheap', hhead'⟩
        rw [hs1.shown] at hc hheap'
        have hs2 : Reading service J content table chain ⟨⟨pool, s1.heap.table⟩, s1.scan⟩ :=
          ⟨hj, hc, hs1.handle, hs1.heap, hs1.failed, hs1.bounded⟩
        obtain ⟨schema, head, constraints⟩ := m
        cases hhead'
        have hl2 := hl.push ⟨heap', schema, constraints⟩ hname (fun hm => hhead ((hroots _).2 hm)) ⟨_, hheap'⟩
        rw [append_cons] at hnames hheads ⊢
        exact ih hs2 hl2 (roots_push hroots _) htail hnames hheads
          (fun m hm => htables m (mem_cons_of_mem _ hm)) (Nat.lt_of_succ_lt_succ hturns)
    · rintro e s1 ⟨_, _, hf⟩
      exact hf

end

end HeapCatalog

end ChiliDB
