import ChiliDB.Heapam.HeapRuns

/-!
# Scans under interleaved modification

A scan captures the number of slots of every page when it is created, and copies the records of a page
when it gets there.  Its calls are interleaved with any other calls on the handle.

* `Visit` — one call of `next`: the chain at that moment, the pages read in the call, and the answer.
* `ScanRun` — a scan from its creation on, with its visits.

Principal result: `scan_is_exact`.
-/

namespace ChiliDB

open Effect HeapPage List

variable {σ : Type} {service : PageService σ} {ses ses' : Session σ} {chain₀ chain chain' : Chain} {k : Nat}

/-- One call of `next`: it read the pages numbered `first ≤ i < last` of the captured chain. -/
structure Visit where
  chain : Chain
  first : Nat
  last : Nat
  item : ScanItem

/-- The page was read in this call. -/
def Visit.Reads (v : Visit) (chain₀ : Chain) (id : PageId) : Prop :=
  ∃ i, chain₀.ids[i]? = some id ∧ v.first ≤ i ∧ i < v.last

def Visit.row (v : Visit) : Option (Ctid × Bytes) :=
  match v.item with
  | some (.ok row) => some row
  | _ => none

/-- The rows that the calls returned. -/
def yielded (visits : List Visit) : List (Ctid × Bytes) := visits.filterMap Visit.row

/-- Earlier in chain order: on an earlier page, or in an earlier slot of the same page. -/
def Chain.Before (chain : Chain) (c c' : Ctid) : Prop :=
  ∃ i j : Nat, chain.ids[i]? = some c.pageId ∧ chain.ids[j]? = some c'.pageId ∧
    (i < j ∨ i = j ∧ c.slotId.get < c'.slotId.get)

def Chain.slots (chain : Chain) : Nat := (chain.map fun p => p.rows.length).sum

/-- The `k`-th scan, created over `chain₀`, and its calls so far.  Between them come any other calls on
the handle, failed ones included; its own calls do not fail in the pool. -/
inductive ScanRun (service : PageService σ) (chain₀ : Chain) (k : Nat) : Session σ → List Visit → Prop where
  | scan {ses ses' : Session σ} {history : History} :
      HeapRun service (HeapTable.Obtained service) ses history →
      ses.heap.Inv service chain₀ → ses.scans.length = k →
      ses.call service .scan = some (.ok .scanning, ses') → ScanRun service chain₀ k ses' []
  | call {ses ses' : Session σ} {visits : List Visit} {op : HeapCall} {r : HeapAnswer} :
      ScanRun service chain₀ k ses visits → op ≠ .next k → ses.call service op = some (r, ses') →
      ScanRun service chain₀ k ses' visits
  | next {ses ses' : Session σ} {visits : List Visit} {chain : Chain} {scan scan' : HeapScan}
      {item : ScanItem} :
      ScanRun service chain₀ k ses visits →
      ses.heap.Inv service chain →
      ses.scans[k]? = some scan → ses'.scans[k]? = some scan' →
      ses.call service (.next k) = some (.ok (.item item), ses') →
      (∀ x, item ≠ some (.error (.buffer x))) →
      ScanRun service chain₀ k ses' (visits ++ [⟨chain, scan.index, scan'.index, item⟩])
  | others {ses : Session σ} {visits : List Visit} {pins : List PinnedBuffer} {pool : σ} :
      ScanRun service chain₀ k ses visits → service.inv pool pins →
      (∀ id ∈ ses.heap.table.pages, service.content pool id = service.content ses.heap.pool id) →
      ScanRun service chain₀ k ⟨⟨pool, ses.heap.table⟩, ses.scans⟩ visits

/-! ## One call -/

/-- A call reads the next `n` pages, and what it returns and keeps is what it had and what it read. -/
theorem advance_reads (chain : Chain) (rest : List (PageId × Nat)) : ∀ scan : HeapScan, ∃ n,
    n ≤ rest.length ∧ (chain.advance rest scan).2.index = scan.index + n ∧
    (chain.advance rest scan).1.toList ++ (chain.advance rest scan).2.rows =
      scan.rows ++ ((rest.take n).map fun x => RowPage.live ⟨x.1, chain.rowsOf x.1⟩ x.2).flatten ∧
    ((chain.advance rest scan).1 = none → n = rest.length ∧ scan.rows = [] ∧
      (chain.advance rest scan).2.rows = []) := by
  induction rest with
  | nil =>
    intro ⟨pages, index, rows, failed⟩
    refine ⟨0, Nat.le_refl _, rfl, ?_, ?_⟩
    · cases rows <;> simp [Chain.advance]
    · cases rows <;> simp [Chain.advance]
  | cons x rest ih =>
    intro ⟨pages, index, rows, failed⟩
    cases rows with
    | cons row rows => exact ⟨0, Nat.zero_le _, rfl, by simp [Chain.advance], fun h => by cases h⟩
    | nil =>
      obtain ⟨n, hn, hi, hrows, hnone⟩ :=
        ih ⟨pages, index + 1, RowPage.live ⟨x.1, chain.rowsOf x.1⟩ x.2, failed⟩
      refine ⟨n + 1, Nat.succ_le_succ hn, hi.trans (by show index + 1 + n = index + (n + 1); omega), hrows, ?_⟩
      intro h
      obtain ⟨hn', hlive, hempty⟩ := hnone h
      exact ⟨congrArg (· + 1) hn', rfl, hempty⟩

/-- Other calls leave the scan alone. -/
theorem HeapOutcome.other_scan {scans scans' : List HeapScan} {op : HeapCall} {r : HeapAnswer}
    {scan : HeapScan} (h : HeapOutcome chain scans op r chain' scans') (hop : op ≠ .next k)
    (hk : scans[k]? = some scan) : scans'[k]? = some scan := by
  have hset : ∀ {k' : Nat} {scan' : HeapScan}, op = .next k' → (scans.set k' scan')[k]? = some scan := by
    intro k' scan' he
    rw [getElem?_set_ne (fun hkk => hop (by rw [he, hkk]))]
    exact hk
  cases h with
  | scan => rw [getElem?_append_left (lt_of_get hk)]; exact hk
  | next | nextFails => exact hset rfl
  | _ => exact hk

/-! ## What the calls so far have read -/

/-- `batches` are the records of the pages read so far, each as its page was when it was read. -/
structure Batches (chain₀ : Chain) (visits : List Visit) (batches : List (List (Ctid × Bytes))) : Prop where
  read : ∀ (i : Nat) (l : List (Ctid × Bytes)), batches[i]? = some l → ∃ p v, chain₀[i]? = some p ∧
    v ∈ visits ∧ v.first ≤ i ∧ i < v.last ∧ l = RowPage.live ⟨p.id, v.chain.rowsOf p.id⟩ p.rows.length

/-- The state of a scan and its calls so far. -/
structure Exact (chain₀ : Chain) (visits : List Visit) (scan : HeapScan) : Prop where
  failed : scan.failed = false
  pages : scan.pages = chain₀.map fun p => (p.id, p.rows.length)
  index : scan.index ≤ chain₀.length
  rows : ∃ batches, batches.length = scan.index ∧ Batches chain₀ visits batches ∧
    yielded visits ++ scan.rows = batches.flatten
  bounded : ∀ v ∈ visits, v.last ≤ scan.index
  ordered : visits.Pairwise fun v w => v.last ≤ w.first
  ended : ∀ v ∈ visits, v.item = none → scan.index = chain₀.length ∧ scan.rows = []
  stays : visits.Pairwise fun v w => v.item = none → w.item = none
  noError : ∀ v ∈ visits, ∀ e, v.item ≠ some (.error e)

theorem yielded_append (visits : List Visit) (v : Visit) :
    yielded (visits ++ [v]) = yielded visits ++ v.row.toList := by
  unfold yielded
  rw [filterMap_append]
  cases hv : v.row <;> simp [hv]

variable {visits : List Visit}

theorem Batches.append {batches : List (List (Ctid × Bytes))} {index n : Nat}
    {item : ScanItem} (h : Batches chain₀ visits batches) (hlen : batches.length = index) :
    Batches chain₀ (visits ++ [⟨chain, index, index + n, item⟩]) (batches ++
      (((chain₀.map fun p => (p.id, p.rows.length)).drop index).take n).map
        fun x => RowPage.live ⟨x.1, chain.rowsOf x.1⟩ x.2) := by
  refine ⟨fun i l hi => ?_⟩
  rcases Nat.lt_or_ge i batches.length with hlt | hge
  · rw [getElem?_append_left hlt] at hi
    obtain ⟨p, v, hp, hv, hfirst, hlast, hl⟩ := h.read i l hi
    exact ⟨p, v, hp, mem_append_left _ hv, hfirst, hlast, hl⟩
  · rw [getElem?_append_right hge, getElem?_map, getElem?_take, hlen] at hi
    split at hi
    · rename_i hlt
      rw [getElem?_drop, show index + (i - index) = i by omega, getElem?_map] at hi
      obtain ⟨x, hx, hl⟩ := Option.map_eq_some_iff.1 hi
      obtain ⟨p, hp, rfl⟩ := Option.map_eq_some_iff.1 hx
      refine ⟨p, _, hp, mem_append_right _ (mem_singleton.2 rfl), ?_, ?_, hl.symm⟩
      · show index ≤ i
        omega
      · show i < index + n
        omega
    · cases hi

theorem Exact.start (chain₀ : Chain) : Exact chain₀ [] chain₀.capture :=
  ⟨rfl, rfl, Nat.zero_le _, ⟨[], rfl, ⟨fun _ _ hi => by simp at hi⟩, rfl⟩, fun _ hv => (by cases hv),
    .nil, fun _ hv => (by cases hv), .nil, fun _ hv => (by cases hv)⟩

/-- **One call of `next`.** -/
theorem Exact.next {scan scan' : HeapScan} {row : Option (Ctid × Bytes)} (h : Exact chain₀ visits scan)
    (hadv : chain.advance (scan.pages.drop scan.index) scan = (row, scan')) :
    Exact chain₀ (visits ++ [⟨chain, scan.index, scan'.index, row.map .ok⟩]) scan' := by
  obtain ⟨batches, hlen, hbatches, hall⟩ := h.rows
  obtain ⟨hp, hf, _⟩ := advance_forward chain (scan.pages.drop scan.index) scan
  obtain ⟨n, hn, hi, hrows, hnone⟩ := advance_reads chain (scan.pages.drop scan.index) scan
  rw [hadv] at hp hf hi hrows hnone
  have hplen : scan.pages.length = chain₀.length := by rw [h.pages, length_map]
  rw [length_drop, hplen] at hn hnone
  have hidx : scan'.index = scan.index + n := hi
  have hbound := h.index
  -- a scan that has ended reads nothing more
  have hended : ∀ v ∈ visits, v.item = none → row = none := by
    intro v hv hitem
    obtain ⟨he, hempty⟩ := h.ended v hv hitem
    have hn0 : n = 0 := by omega
    rw [hn0, hempty] at hrows
    cases row with
    | none => rfl
    | some x => simp at hrows
  have hend : row = none → scan'.index = chain₀.length ∧ scan'.rows = [] := by
    intro hr
    obtain ⟨hn', _, hempty⟩ := hnone hr
    exact ⟨by omega, hempty⟩
  have hitem : ∀ {v : Visit}, v = ⟨chain, scan.index, scan'.index, row.map .ok⟩ → v.item = none → row = none := by
    rintro v rfl hv
    exact Option.map_eq_none_iff.1 hv
  have hrow : ∀ (row : Option (Ctid × Bytes)) (first last : Nat),
      (Visit.mk chain first last (row.map .ok)).row = row := by
    intro row _ _
    cases row <;> rfl
  refine ⟨hf.trans h.failed, hp.trans h.pages, by omega, ?_, ?_, ?_, ?_, ?_, ?_⟩
  · rw [h.pages] at hrows
    refine ⟨_, ?_, hidx ▸ hbatches.append hlen, ?_⟩
    · rw [length_append, length_map, length_take, length_drop, length_map, hlen, hidx, Nat.min_eq_left hn]
    · rw [yielded_append, hrow, append_assoc, hrows, ← append_assoc, hall, flatten_append]
  · intro v hv
    rcases mem_append.1 hv with hv | hv
    · have := h.bounded v hv
      omega
    · cases mem_singleton.1 hv
      exact Nat.le_refl _
  · refine pairwise_append.2 ⟨h.ordered, pairwise_singleton .., fun v hv w hw => ?_⟩
    cases mem_singleton.1 hw
    exact h.bounded v hv
  · intro v hv hvitem
    rcases mem_append.1 hv with hv | hv
    · exact hend (hended v hv hvitem)
    · exact hend (hitem (mem_singleton.1 hv) hvitem)
  · refine pairwise_append.2 ⟨h.stays, pairwise_singleton .., fun v hv w hw hvitem => ?_⟩
    cases mem_singleton.1 hw
    rw [hended v hv hvitem]
    rfl
  · intro v hv e
    rcases mem_append.1 hv with hv | hv
    · exact h.noError v hv e
    · cases mem_singleton.1 hv
      cases row <;> simp

/-! ## Runs -/

theorem ScanRun.exact (h : ScanRun service chain₀ k ses visits) :
    chain₀.ids.Nodup ∧ ∃ pins chain scan, SessionInv service pins chain ses ∧
      ses.scans[k]? = some scan ∧ Exact chain₀ visits scan := by
  induction h with
  | @scan ses ses' _ hrun hheap hk hcall =>
    obtain ⟨pins, chain, hinv⟩ := hrun.inv
    obtain ⟨chain', hout, hmoved⟩ := refines_of_call hinv hcall
    refine ⟨hheap.nodup, pins, chain', chain₀.capture, hinv.moved hout hmoved, ?_, .start chain₀⟩
    cases hinv.heap.unique hheap
    obtain ⟨heap, scans⟩ := ses'
    cases hout with
    | scan =>
      rw [← hk]
      exact getElem?_concat_length ..
  | call _ hop hcall ih =>
    obtain ⟨hn, pins, chain, scan, hinv, hk, hexact⟩ := ih
    obtain ⟨chain', hout, hmoved⟩ := refines_of_call hinv hcall
    exact ⟨hn, pins, chain', scan, hinv.moved hout hmoved, hout.other_scan hop hk, hexact⟩
  | @next ses ses' visits chain scan scan' item _ hheap hk hk' hcall hitem ih =>
    obtain ⟨hn, pins, chain, scan, hinv, hk1, hexact⟩ := ih
    obtain ⟨chain', hout, hmoved⟩ := refines_of_call hinv hcall
    refine ⟨hn, pins, chain', scan', hinv.moved hout hmoved, hk', ?_⟩
    cases hinv.heap.unique hheap
    cases hk1.symm.trans hk
    obtain ⟨heap, scans⟩ := ses'
    cases hout with
    | next hk2 _ hadv =>
      cases hk2.symm.trans hk
      rw [getElem?_set_self (lt_of_get hk)] at hk'
      cases hk'
      exact hexact.next hadv
    | nextEnded hk2 hf =>
      cases hk2.symm.trans hk
      rw [hexact.failed] at hf
      cases hf
    | nextFails => exact absurd rfl (hitem _)
  | @others ses visits pins pool _ hinv hsame ih =>
    obtain ⟨hn, _, chain, scan, habs, hk, hexact⟩ := ih
    refine ⟨hn, pins, chain, scan, ⟨hinv, ?_, habs.scans⟩, hk, hexact⟩
    exact habs.heap.congr fun id hid => hsame id (habs.heap.pages ▸ hid)

variable {visits : List Visit} {batches : List (List (Ctid × Bytes))} {scan : HeapScan}

/-- What a batch holds. -/
theorem Batches.mem (h : Batches chain₀ visits batches) {x : Ctid × Bytes}
    (hx : x ∈ batches.flatten) : ∃ i p v, chain₀[i]? = some p ∧ v ∈ visits ∧ v.first ≤ i ∧ i < v.last ∧
      x.1.pageId = p.id ∧ x.1.slotId.get ≤ p.rows.length ∧ v.chain.slot x.1 = some (some x.2) := by
  obtain ⟨l, hl, hx⟩ := mem_flatten.1 hx
  obtain ⟨i, hi⟩ := mem_iff_getElem?.1 hl
  obtain ⟨p, v, hp, hv, hfirst, hlast, rfl⟩ := h.read i l hi
  obtain ⟨hid, hle, hrow⟩ := mem_live.1 (show (x.1, x.2) ∈ _ from hx)
  refine ⟨i, p, v, hp, hv, hfirst, hlast, hid, hle, ?_⟩
  rw [Chain.slot_eq_rowsOf, hid]
  exact hrow

theorem Batches.pairwise (h : Batches chain₀ visits batches) :
    (batches.flatten.map Prod.fst).Pairwise chain₀.Before := by
  have hids : ∀ {i : Nat} {l : List (Ctid × Bytes)} {x : Ctid × Bytes}, batches[i]? = some l → x ∈ l →
      chain₀.ids[i]? = some x.1.pageId := by
    intro i l x hi hx
    obtain ⟨p, v, hp, _, _, _, rfl⟩ := h.read i l hi
    obtain ⟨hid, _⟩ := mem_live.1 (show (x.1, x.2) ∈ _ from hx)
    rw [Chain.ids_getElem?, hp, hid]
    rfl
  rw [pairwise_map, pairwise_flatten]
  constructor
  · intro l hl
    obtain ⟨i, hi⟩ := mem_iff_getElem?.1 hl
    obtain ⟨p, v, hp, _, _, _, rfl⟩ := h.read i l hi
    refine (live_pairwise _ _).imp_of_mem fun hx hy hlt => ?_
    exact ⟨i, i, hids hi hx, hids hi hy, .inr ⟨rfl, hlt⟩⟩
  · refine pairwise_iff_getElem.2 fun i j hi hj hij x hx y hy => ?_
    exact ⟨i, j, hids (getElem?_eq_getElem hi) hx, hids (getElem?_eq_getElem hj) hy, .inl hij⟩

/-- The records of the batches fit into the captured slots. -/
theorem Batches.length_le (h : Batches chain₀ visits batches) : batches.flatten.length ≤ chain₀.slots := by
  have hle : ∀ (bs : List (List (Ctid × Bytes))) (ps : Chain), bs.length ≤ ps.length →
      (∀ (i : Nat) (l : List (Ctid × Bytes)), bs[i]? = some l → ∃ p, ps[i]? = some p ∧
        l.length ≤ p.rows.length) → bs.flatten.length ≤ ps.slots := by
    intro bs
    induction bs with
    | nil => exact fun _ _ _ => Nat.zero_le _
    | cons l bs ih =>
      intro ps hlen hall
      cases ps with
      | nil => cases hlen
      | cons p ps =>
        obtain ⟨_, hp, hl⟩ := hall 0 l rfl
        cases hp
        have hrest := ih ps (Nat.le_of_succ_le_succ hlen) fun i l hi => hall (i + 1) l hi
        unfold Chain.slots at hrest ⊢
        rw [flatten_cons, length_append, map_cons, sum_cons]
        exact Nat.add_le_add hl hrest
  refine hle batches chain₀ ?_ fun i l hi => ?_
  · rcases Nat.lt_or_ge chain₀.length batches.length with hlt | hge
    · obtain ⟨p, _, hp, _⟩ := h.read _ _ (getElem?_eq_getElem hlt)
      rw [getElem?_eq_none (Nat.le_refl _)] at hp
      cases hp
    · exact hge
  · obtain ⟨p, v, hp, _, _, _, rfl⟩ := h.read i l hi
    exact ⟨p, hp, length_live_le _ _⟩

/-- What is exact about a scan created over `chain₀`. -/
structure ScanIsExact (chain₀ : Chain) (visits : List Visit) : Prop where
  /-- The rows come in strictly increasing order of chain position and slot. -/
  increasing : ((yielded visits).map Prod.fst).Pairwise chain₀.Before
  nodup : ((yielded visits).map Prod.fst).Nodup
  /-- No slot was inserted after the scan was created. -/
  old : ∀ x ∈ yielded visits, chain₀.slot x.1 ≠ none
  /-- A row carries the bytes of its record at the moment its page was read. -/
  current : ∀ x ∈ yielded visits, ∃ v ∈ visits, v.Reads chain₀ x.1.pageId ∧
    v.chain.slot x.1 = some (some x.2)
  /-- A page is read once. -/
  once : visits.Pairwise fun v w => v.last ≤ w.first
  /-- A scan that has ended has read every page, and returned every old record that was live then. -/
  complete : ∀ v ∈ visits, v.item = none → ∀ c, chain₀.slot c ≠ none →
    ∃ w ∈ visits, w.Reads chain₀ c.pageId ∧ ∀ b, w.chain.slot c = some (some b) → (c, b) ∈ yielded visits
  noError : ∀ v ∈ visits, ∀ e, v.item ≠ some (.error e)
  /-- The calls after as many as there were slots return `None`. -/
  ends : ∀ (i : Nat) (v : Visit), visits[i]? = some v → chain₀.slots ≤ i → v.item = none

theorem Chain.Before.ne (hn : chain.ids.Nodup) {c c' : Ctid} (h : chain.Before c c') : c ≠ c' := by
  rintro rfl
  obtain ⟨i, j, hi, hj, hij⟩ := h
  have := (getElem?_inj (lt_of_get hi) hn).1 (hi.trans hj.symm)
  omega

/-- While rows come, each call brings one. -/
theorem length_yielded (hstays : visits.Pairwise fun v w => v.item = none → w.item = none)
    (herror : ∀ v ∈ visits, ∀ e, v.item ≠ some (.error e)) {i : Nat} {v : Visit}
    (hi : visits[i]? = some v) (hv : v.item ≠ none) : i < (yielded visits).length := by
  induction visits generalizing i with
  | nil => cases hi
  | cons w visits ih =>
    obtain ⟨hw, hrest⟩ := pairwise_cons.1 hstays
    have herror' := fun u hu => herror u (mem_cons_of_mem _ hu)
    have hwitem : w.item ≠ none := by
      intro hnone
      cases i with
      | zero => cases hi; exact hv hnone
      | succ i => exact hv (hw v (mem_of_getElem? (show visits[i]? = some v from hi)) hnone)
    have hrow : ∃ row, w.row = some row := by
      cases hitem : w.item with
      | none => exact absurd hitem hwitem
      | some item =>
        cases item with
        | error e => exact absurd hitem (herror w (mem_cons_self ..) e)
        | ok row => exact ⟨row, by unfold Visit.row; rw [hitem]⟩
    obtain ⟨row, hrow⟩ := hrow
    have hlen : (yielded (w :: visits)).length = (yielded visits).length + 1 := by
      unfold yielded
      rw [filterMap_cons_some hrow, length_cons]
    cases i with
    | zero => omega
    | succ i =>
      have := ih hrest herror' (show visits[i]? = some v from hi)
      omega

theorem Exact.scanIsExact (hn : chain₀.ids.Nodup) (h : Exact chain₀ visits scan) : ScanIsExact chain₀ visits := by
  obtain ⟨batches, hlen, hbatches, hall⟩ := h.rows
  have hmem : ∀ x ∈ yielded visits, x ∈ batches.flatten := by
    intro x hx
    rw [← hall]
    exact mem_append_left _ hx
  have hreads : ∀ {i : Nat} {p : RowPage} {v : Visit} {id : PageId}, chain₀[i]? = some p →
      v.first ≤ i → i < v.last → id = p.id → v.Reads chain₀ id := by
    rintro i p v _ hp hfirst hlast rfl
    exact ⟨i, by rw [Chain.ids_getElem?, hp]; rfl, hfirst, hlast⟩
  have hincreasing : ((yielded visits).map Prod.fst).Pairwise chain₀.Before := by
    have hpair := hbatches.pairwise
    rw [← hall, map_append] at hpair
    exact (pairwise_append.1 hpair).1
  refine ⟨hincreasing, hincreasing.imp (fun hb => hb.ne hn), fun x hx => ?_, fun x hx => ?_, h.ordered,
    fun v hv hitem c hc => ?_, h.noError, fun i v hi hle => ?_⟩
  · obtain ⟨i, p, v, hp, _, _, _, hid, hslot, _⟩ := hbatches.mem (hmem x hx)
    have hpos := x.1.slotId.pos
    rw [Chain.slot_eq hn hp hid.symm, getElem?_eq_getElem (by omega)]
    simp
  · obtain ⟨i, p, v, hp, hv, hfirst, hlast, hid, _, hrow⟩ := hbatches.mem (hmem x hx)
    exact ⟨v, hv, hreads hp hfirst hlast hid, hrow⟩
  · -- every page has been read, and nothing is left to return
    obtain ⟨hindex, hempty⟩ := h.ended v hv hitem
    rw [hempty, append_nil] at hall
    have hm : c.pageId ∈ chain₀.ids := by
      by_contra hm
      exact hc (Chain.slot_eq_none hm)
    obtain ⟨i, p, hp, hid⟩ := Chain.exists_of_mem_ids hm
    have hlt := lt_of_get hp
    have hi := getElem?_eq_getElem (show i < batches.length by omega)
    obtain ⟨p', w, hp', hw, hfirst, hlast, hl⟩ := hbatches.read i _ hi
    cases hp'.symm.trans hp
    refine ⟨w, hw, hreads hp hfirst hlast hid.symm, fun b hb => ?_⟩
    rw [hall]
    refine mem_flatten.2 ⟨_, mem_of_getElem? hi, ?_⟩
    rw [hl]
    rw [Chain.slot_eq hn hp hid] at hc
    have hslot : c.slotId.get - 1 < p.rows.length := by
      by_contra hge
      exact hc (getElem?_eq_none (Nat.not_lt.1 hge))
    refine mem_live.2 ⟨hid.symm, by omega, ?_⟩
    show (w.chain.rowsOf p.id)[c.slotId.get - 1]? = some (some b)
    rw [hid, ← Chain.slot_eq_rowsOf]
    exact hb
  · by_contra hv
    have hlt := length_yielded h.stays h.noError hi hv
    have hle' : (yielded visits).length ≤ batches.flatten.length := by
      rw [← hall, length_append]
      exact Nat.le_add_right ..
    have := hbatches.length_le
    omega

/-- **Scans are exact under interleaved modification**, and can always be advanced. -/
theorem scan_is_exact (h : ScanRun service chain₀ k ses visits) :
    ScanIsExact chain₀ visits ∧
      ∃ item ses', ses.call service (.next k) = some (.ok (.item item), ses') := by
  obtain ⟨hn, pins, chain, scan, hinv, hk, hexact⟩ := h.exact
  refine ⟨hexact.scanIsExact hn, ?_⟩
  have hcall : ses.call service (.next k) = some (ses.advance service k scan) := by
    show ses.scans[k]?.map _ = _
    rw [hk]
    rfl
  rcases hr : ses.advance service k scan with ⟨r, heap, scans⟩
  rw [hr] at hcall
  obtain ⟨chain', hout, _⟩ := refines_of_call hinv hcall
  cases hout with
  | next | nextEnded | nextFails => exact ⟨_, _, hcall⟩
  | invalidCtid hop | tupleSize hop | buffer hop => exact hop.elim

/-- A call of `next` that the pool does not fail is a visit. -/
theorem ScanRun.visit {item : ScanItem} (h : ScanRun service chain₀ k ses visits)
    (hcall : ses.call service (.next k) = some (.ok (.item item), ses'))
    (hitem : ∀ x, item ≠ some (.error (.buffer x))) :
    ∃ v : Visit, v.item = item ∧ ScanRun service chain₀ k ses' (visits ++ [v]) := by
  obtain ⟨_, _, chain, scan, hinv, hk, _⟩ := h.exact
  obtain ⟨scan1, _, hadvance⟩ := Option.map_eq_some_iff.1 hcall
  have hk' : ses'.scans[k]? = some (HeapScan.next service ⟨ses.heap, scan1⟩).2.scan := by
    rw [← show (ses.advance service k scan1).2 = ses' by rw [hadvance]]
    exact getElem?_set_self (lt_of_get hk)
  exact ⟨_, rfl, h.next hinv.heap hk hk' hcall hitem⟩

/-- A record is replaced between the creation of the scan and the first call of `next`. -/
theorem scan_is_exact_of_replaced_record : ∃ chain₀ ses visits,
    ScanRun BufferPool.memory chain₀ 0 ses visits ∧
    visits.map Visit.item = [some (.ok (slotOf 0, [8])), none] ∧ ScanIsExact chain₀ visits := by
  have heval : oneFrameRun [.insert [7], .scan, .replace (slotOf 0) [8], .next 0, .next 0] =
      some ([.ok (.inserted (slotOf 0)), .ok .scanning, .ok (.changed true),
        .ok (.item (some (.ok (slotOf 0, [8])))), .ok (.item none)], .ok ()) := by decide +kernel
  obtain ⟨heap, ses, _, hcreated, hcalls, _⟩ := oneFrameRun_spec heval
  obtain ⟨_, s1, _, h1, hcalls, ⟨⟩⟩ := Session.calls_cons hcalls
  obtain ⟨_, s2, _, h2, hcalls, ⟨⟩⟩ := Session.calls_cons hcalls
  obtain ⟨_, s3, _, h3, hcalls, ⟨⟩⟩ := Session.calls_cons hcalls
  obtain ⟨_, s4, _, h4, hcalls, ⟨⟩⟩ := Session.calls_cons hcalls
  obtain ⟨_, s5, _, h5, _, ⟨⟩⟩ := Session.calls_cons hcalls
  have hrun := hcreated.run.call h1
  obtain ⟨_, chain₀, hinv⟩ := hrun.inv
  have hscans : s1.scans = [] := (congrArg (·.2.scans) (Option.some.inj h1)).symm
  have hscan := (ScanRun.scan (k := 0) hrun hinv.heap (by rw [hscans]; rfl) h2).call (by simp) h3
  obtain ⟨v, hv, hvisit⟩ := hscan.visit h4 nofun
  obtain ⟨w, hw, hvisits⟩ := hvisit.visit h5 nofun
  exact ⟨chain₀, s5, _, hvisits, by simp [hv, hw], (scan_is_exact hvisits).1⟩

end ChiliDB
