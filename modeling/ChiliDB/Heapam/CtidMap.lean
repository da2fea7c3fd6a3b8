import ChiliDB.Heapam.HeapRuns

/-!
# Heap tables refine a map from CTIDs

* `CtidMap` — the map a heap stands for: live or deleted records by CTID, and the pages it spans.
* `CtidMap.Step` — what each call does to the map and answers; a call that gets as far as the pool may
  fail with a buffer error, and then the map is as before.
* `CtidMap.Run` — the runs of the map, with all earlier maps and the history of answers.

Principal result: `heap_refines_ctid_map` — the history of every run of a heap table is a history of
the map.
-/

namespace ChiliDB

open Effect HeapPage List

/-- `slot c = none` if `c` was never issued, `some none` if its record was deleted. -/
structure CtidMap where
  pages : List PageId
  slot : Ctid → Option (Option Bytes)

namespace CtidMap

/-- The listing of the slots of one page. -/
def Lists (M : CtidMap) (page : PageId) (rows : List (Option Bytes)) : Prop :=
  ∀ id : SlotId, M.slot ⟨page, id⟩ = rows[id.get - 1]?

/-- The record that a row of a scan carries was live with these bytes in one of the maps. -/
def Shown (maps : List CtidMap) (row : Ctid × Bytes) : Prop :=
  ∃ M ∈ maps, M.slot row.1 = some (some row.2)

/-- One call on map `M`; `past` are the maps before it. -/
inductive Step (M : CtidMap) (past : List CtidMap) : HeapCall → HeapAnswer → CtidMap → Prop where
  | insert {b : Bytes} {c : Ctid} {pages : List PageId} : Legal b → M.slot c = none →
      (pages = M.pages ∧ c.pageId ∈ M.pages ∨ pages = M.pages ++ [c.pageId] ∧ c.pageId ∉ M.pages) →
      Step M past (.insert b) (.ok (.inserted c)) ⟨pages, Function.update M.slot c (some (some b))⟩
  | get {c : Ctid} : c.pageId ∈ M.pages → Step M past (.get c) (.ok (.record (M.slot c).join)) M
  | delete {c : Ctid} {b : Bytes} : M.slot c = some (some b) →
      Step M past (.delete c) (.ok (.changed true)) ⟨M.pages, Function.update M.slot c (some none)⟩
  | deleteDead {c : Ctid} : c.pageId ∈ M.pages → (∀ b, M.slot c ≠ some (some b)) →
      Step M past (.delete c) (.ok (.changed false)) M
  | replace {c : Ctid} {b old : Bytes} {rows : List (Option Bytes)} : Legal b →
      M.slot c = some (some old) → M.Lists c.pageId rows → Chain.CanReplace rows old b →
      Step M past (.replace c b) (.ok (.changed true)) ⟨M.pages, Function.update M.slot c (some (some b))⟩
  | replaceDead {c : Ctid} {b : Bytes} : Legal b → c.pageId ∈ M.pages →
      (∀ b, M.slot c ≠ some (some b)) → Step M past (.replace c b) (.ok (.changed false)) M
  | noSpace {c : Ctid} {b old : Bytes} {rows : List (Option Bytes)} : Legal b →
      M.slot c = some (some old) → M.Lists c.pageId rows → ¬ Chain.CanReplace rows old b →
      Step M past (.replace c b) (.error (.error .noSpace)) M
  | invalidCtid {op : HeapCall} {c : Ctid} : op.Names c → c.pageId ∉ M.pages →
      Step M past op (.error (.error (.invalidCtid c))) M
  | tupleSize {op : HeapCall} {n : Nat} : op.Oversized n →
      Step M past op (.error (.error (.invalidTupleSize n 8164))) M
  | scan : Step M past .scan (.ok .scanning) M
  | next {k : Nat} {row : Option (Ctid × Bytes)} : (∀ x, row = some x → Shown (M :: past) x) →
      Step M past (.next k) (.ok (.item (row.map .ok))) M
  | nextFails {k : Nat} {x : BufferError} :
      Step M past (.next k) (.ok (.item (some (.error (.buffer x))))) M
  | buffer {op : HeapCall} {x : BufferError} : op.Reaches M.pages →
      Step M past op (.error (.error (.buffer x))) M

/-- The runs of the map from a new heap; the latest map and the latest call come first. -/
inductive Run : CtidMap → List CtidMap → History → Prop where
  | create (head : PageId) : Run ⟨[head], fun _ => none⟩ [] []
  | step {M M' : CtidMap} {past : List CtidMap} {history : History}
      {op : HeapCall} {r : HeapAnswer} : Run M past history → M.Step past op r M' →
      Run M' (M :: past) ((op, r) :: history)

end CtidMap

/-! ## The chain as a map -/

variable {chain chain' : Chain} {c : Ctid}

def Chain.toMap (chain : Chain) : CtidMap := ⟨chain.ids, chain.slot⟩

theorem Chain.lists_rowsOf (chain : Chain) (id : PageId) : chain.toMap.Lists id (chain.rowsOf id) :=
  fun slotId => chain.slot_eq_rowsOf ⟨id, slotId⟩

theorem Chain.toMap_setRow (h : (chain.slot c).join ≠ none) (row : Option Bytes) :
    (chain.setRow c row).toMap = ⟨chain.ids, Function.update chain.slot c (some row)⟩ := by
  have hsome : (chain.slot c).isSome = true := by
    cases hs : chain.slot c with
    | none => rw [hs] at h; exact absurd rfl h
    | some _ => rfl
  unfold Chain.toMap
  rw [Chain.ids_setRow]
  congr 1
  funext c'
  rw [Chain.slot_setRow, hsome, Function.update_apply]
  simp

theorem Chain.not_live (h : (chain.slot c).join = none) (b : Bytes) : chain.slot c ≠ some (some b) := by
  intro hs
  rw [hs] at h
  cases h

theorem Chain.live_of_join {b : Bytes} (h : (chain.slot c).join = some b) : chain.slot c = some (some b) :=
  Option.join_eq_some_iff.1 h

/-- A row that a scan returns or keeps for later was kept before, or is live now. -/
theorem Chain.advance_shown (chain : Chain) (rest : List (PageId × Nat)) :
    ∀ (scan : HeapScan) (x : Ctid × Bytes),
      (chain.advance rest scan).1 = some x ∨ x ∈ (chain.advance rest scan).2.rows →
      x ∈ scan.rows ∨ chain.slot x.1 = some (some x.2) := by
  induction rest with
  | nil =>
    intro ⟨pages, index, rows, failed⟩ x hx
    cases rows with
    | nil => simp [Chain.advance] at hx
    | cons row rows => exact .inl (by simpa [Chain.advance, eq_comm] using hx)
  | cons y rest ih =>
    intro ⟨pages, index, rows, failed⟩ x hx
    cases rows with
    | cons row rows => exact .inl (by simpa [Chain.advance, eq_comm] using hx)
    | nil =>
      rcases ih ⟨pages, index + 1, RowPage.live ⟨y.1, chain.rowsOf y.1⟩ y.2, failed⟩ x hx with hx | hx
      · obtain ⟨hid, _, hrow⟩ := mem_live.1 (show (x.1, x.2) ∈ _ from hx)
        right
        rw [Chain.slot_eq_rowsOf, hid]
        exact hrow
      · exact .inr hx

/-! ## Every outcome is a step of the map -/

variable {op : HeapCall} {r : HeapAnswer} {scans scans' : List HeapScan}

theorem HeapOutcome.step (h : HeapOutcome chain scans op r chain' scans') (hn : chain.ids.Nodup)
    {past : List CtidMap} (hs : ∀ scan ∈ scans, ∀ x ∈ scan.rows, CtidMap.Shown (chain.toMap :: past) x) :
    chain.toMap.Step past op r chain'.toMap := by
  cases h with
  | @insert b c _ hb hins =>
    obtain ⟨hnone, hslot⟩ := hins.slot_eq hn
    have hmap : chain'.toMap = ⟨chain'.ids, Function.update chain.slot c (some (some b))⟩ := by
      unfold Chain.toMap
      rw [hslot]
    rw [hmap]
    exact .insert hb hnone hins.ids_eq
  | get hm => exact .get hm
  | delete hlive =>
    obtain ⟨b, hb⟩ := Option.ne_none_iff_exists'.1 hlive
    rw [Chain.toMap_setRow hlive]
    exact .delete (Chain.live_of_join hb)
  | deleteDead hm hdead => exact .deleteDead hm (Chain.not_live hdead)
  | replace hb hlive hfits =>
    rw [Chain.toMap_setRow (by rw [hlive]; simp)]
    exact .replace hb (Chain.live_of_join hlive) (chain.lists_rowsOf _) hfits
  | replaceDead hb hm hdead => exact .replaceDead hb hm (Chain.not_live hdead)
  | noSpace hb hlive hbig =>
    exact .noSpace hb (Chain.live_of_join hlive) (chain.lists_rowsOf _) hbig
  | invalidCtid hop hm => exact .invalidCtid hop hm
  | tupleSize hop => exact .tupleSize hop
  | scan => exact .scan
  | @next k scan scan' row hk hf hadv =>
    refine .next fun x hx => ?_
    rcases Chain.advance_shown chain _ scan x (.inl (by rw [hadv]; exact hx)) with hx | hx
    · exact hs scan (mem_of_getElem? hk) x hx
    · exact ⟨_, mem_cons_self .., hx⟩
  | nextEnded =>
    have hnone : ∀ x, (none : Option (Ctid × Bytes)) = some x → CtidMap.Shown (chain.toMap :: past) x :=
      fun _ hx => by cases hx
    exact .next hnone
  | nextFails => exact .nextFails
  | buffer hop => exact .buffer hop

/-! ## Runs of the map -/

namespace CtidMap

variable {M M' : CtidMap} {past : List CtidMap} {history : History}

/-- **A CTID that was issued stays issued, and one that was deleted stays deleted.** -/
theorem Step.slot (h : M.Step past op r M') (c : Ctid) :
    (M.slot c ≠ none → M'.slot c ≠ none) ∧ (M.slot c = some none → M'.slot c = some none) := by
  -- the slot that changes was free or live
  have hupdate : ∀ {c0 : Ctid} {row : Option Bytes}, M.slot c0 ≠ some none →
      (M.slot c ≠ none → Function.update M.slot c0 (some row) c ≠ none) ∧
        (M.slot c = some none → Function.update M.slot c0 (some row) c = some none) := by
    intro c0 row hc0
    by_cases hc : c = c0
    · subst hc
      rw [Function.update_self]
      exact ⟨fun _ => by simp, fun h => absurd h hc0⟩
    · rw [Function.update_of_ne hc]
      exact ⟨id, id⟩
  cases h with
  | insert _ hnone _ => exact hupdate (by rw [hnone]; simp)
  | delete hlive | replace _ hlive _ _ => exact hupdate (by rw [hlive]; simp)
  | _ => exact ⟨id, id⟩

/-- The CTIDs that insertions returned. -/
def issued (history : History) : List Ctid :=
  history.filterMap fun
    | (_, .ok (.inserted c)) => some c
    | _ => none

theorem Run.issued (h : Run M past history) :
    (issued history).Nodup ∧ ∀ c ∈ CtidMap.issued history, M.slot c ≠ none := by
  induction h with
  | create head => exact ⟨nodup_nil, fun _ hc => by cases hc⟩
  | @step M M' past history op r hrun hstep ih =>
    obtain ⟨hn, hs⟩ := ih
    have hold : ∀ c ∈ CtidMap.issued history, M'.slot c ≠ none :=
      fun c hc => (hstep.slot c).1 (hs c hc)
    cases hstep with
    | @insert b c pages hb hnone hpages =>
      refine ⟨nodup_cons.2 ⟨fun hc => hs c hc hnone, hn⟩, fun c' hc' => ?_⟩
      rcases mem_cons.1 hc' with rfl | hc'
      · simp
      · exact hold c' hc'
    | _ => exact ⟨hn, hold⟩

theorem Run.deleted (h : Run M past history) (c : Ctid) :
    ∀ M0 ∈ past, M0.slot c = some none → M.slot c = some none := by
  induction h with
  | create head => exact fun _ hm => by cases hm
  | step _ hstep ih =>
    intro M0 hm hdead
    apply (hstep.slot c).2
    rcases mem_cons.1 hm with rfl | hm
    · exact hdead
    · exact ih M0 hm hdead

/-- No answer of the map reports corruption, and insertions of legal records do not fail but for the
pool. -/
def Sound (op : HeapCall) (r : HeapAnswer) : Prop :=
  (∀ m, r ≠ .error (.error (.corrupt m)) ∧ r ≠ .ok (.item (some (.error (.corrupt m))))) ∧
    ∀ b, op = .insert b → Legal b → (∃ c, r = .ok (.inserted c)) ∨ ∃ x, r = .error (.error (.buffer x))

theorem Step.sound (h : M.Step past op r M') : Sound op r := by
  cases h with
  | insert => exact ⟨fun m => ⟨by simp, by simp⟩, fun _ _ _ => .inl ⟨_, rfl⟩⟩
  | @next k row _ =>
    refine ⟨fun m => ⟨by simp, ?_⟩, fun _ he => by cases he⟩
    cases row <;> simp
  | tupleSize hop =>
    refine ⟨fun m => ⟨by simp, by simp⟩, fun b he hb => ?_⟩
    subst he
    exact absurd hb hop.1
  | invalidCtid hop =>
    refine ⟨fun m => ⟨by simp, by simp⟩, fun b he _ => ?_⟩
    subst he
    exact hop.elim
  | buffer => exact ⟨fun m => ⟨by simp, by simp⟩, fun _ _ _ => .inr ⟨_, rfl⟩⟩
  | _ => exact ⟨fun m => ⟨by simp, by simp⟩, fun _ he => by cases he⟩

theorem Run.sound (h : Run M past history) : ∀ x ∈ history, Sound x.1 x.2 := by
  induction h with
  | create head => exact fun _ hx => by cases hx
  | step _ hstep ih =>
    intro x hx
    rcases mem_cons.1 hx with rfl | hx
    · exact hstep.sound
    · exact ih x hx

end CtidMap

/-! ## The refinement -/

variable {σ : Type} {service : PageService σ} {ses : Session σ} {history : History}

/-- The chain behind a session, as far as its history shows it. -/
structure Abstracts (service : PageService σ) (ses : Session σ)
    (history : History) (pins : List PinnedBuffer) (chain : Chain) (past : List CtidMap) : Prop where
  inv : SessionInv service pins chain ses
  run : CtidMap.Run chain.toMap past history
  shown : ∀ scan ∈ ses.scans, ∀ x ∈ scan.rows, CtidMap.Shown (chain.toMap :: past) x

theorem CtidMap.Shown.cons {maps : List CtidMap} {x : Ctid × Bytes} (h : CtidMap.Shown maps x)
    (M : CtidMap) : CtidMap.Shown (M :: maps) x := by
  obtain ⟨M0, hm, hs⟩ := h
  exact ⟨M0, mem_cons_of_mem _ hm, hs⟩

theorem Abstracts.call {pins : List PinnedBuffer} {past : List CtidMap} {ses' : Session σ}
    (h : Abstracts service ses history pins chain past) (hcall : ses.call service op = some (r, ses')) :
    ∃ chain', Abstracts service ses' ((op, r) :: history) pins chain' (chain.toMap :: past) := by
  obtain ⟨chain', hout, hmoved⟩ := refines_of_call h.inv hcall
  refine ⟨chain', h.inv.moved hout hmoved, .step h.run (hout.step h.inv.heap.nodup h.shown), ?_⟩
  intro scan hscan x hx
  rcases hout.scan_cases hscan with hs | rfl | ⟨_, hrows⟩ | ⟨old, row, hs, hadv, _⟩
  · exact (h.shown scan hs x hx).cons _
  · cases hx
  · rw [hrows] at hx
    cases hx
  · rcases Chain.advance_shown chain _ old x (.inr (by rw [hadv]; exact hx)) with hx | hx
    · exact (h.shown old hs x hx).cons _
    · exact ⟨chain.toMap, by simp, hx⟩

theorem HeapRun.abstracts (h : HeapRun service (HeapTable.Created service) ses history) :
    ∃ pins chain past, Abstracts service ses history pins chain past := by
  induction h with
  | @start heap hstart =>
    obtain ⟨pins, s, hinv, hcreate⟩ := hstart
    obtain ⟨_, hkept, hheap⟩ := (HeapTable.create_spec hinv).ok hcreate
    refine ⟨pins, _, [], ⟨hkept.inv, hheap, fun _ hs => by cases hs⟩, ?_, fun _ hs => by cases hs⟩
    have hmap : Chain.toMap [⟨heap.table.head, []⟩] = ⟨[heap.table.head], fun _ => none⟩ := by
      unfold Chain.toMap
      congr 1
      funext c
      rw [Chain.slot_eq_rowsOf]
      unfold Chain.rowsOf
      simp only [find?_cons, find?_nil]
      split <;> rfl
    rw [hmap]
    exact .create heap.table.head
  | call _ hcall ih =>
    obtain ⟨pins, chain, past, habs⟩ := ih
    obtain ⟨chain', habs'⟩ := habs.call hcall
    exact ⟨pins, chain', _, habs'⟩
  | @others ses history pins pool _ hinv hsame ih =>
    obtain ⟨_, chain, past, habs⟩ := ih
    refine ⟨pins, chain, past, ⟨hinv, ?_, habs.inv.scans⟩, habs.run, habs.shown⟩
    exact habs.inv.heap.congr fun id hid => hsame id (habs.inv.heap.pages ▸ hid)

/-- **Heap tables refine a CTID map.**  Every history of calls and answers is one of the map; in it no
CTID is issued twice, a deleted one is never live again, corruption is never reported, and the
insertion of a record of a legal size succeeds or fails with a buffer error. -/
theorem heap_refines_ctid_map (h : HeapRun service (HeapTable.Created service) ses history) :
    ∃ M past, CtidMap.Run M past history ∧ (CtidMap.issued history).Nodup ∧
      (∀ c, ∀ M₀ ∈ past, M₀.slot c = some none → M.slot c = some none) ∧
      ∀ op r, (op, r) ∈ history →
        (∀ m, r ≠ .error (.error (.corrupt m)) ∧ r ≠ .ok (.item (some (.error (.corrupt m))))) ∧
        ∀ b, op = .insert b → 1 ≤ b.length → b.length ≤ MAX_TUPLE_SIZE →
          (∃ c, r = .ok (.inserted c)) ∨ ∃ x, r = .error (.error (.buffer x)) := by
  obtain ⟨pins, chain, past, habs⟩ := h.abstracts
  refine ⟨chain.toMap, past, habs.run, habs.run.issued.1, habs.run.deleted, fun op r hx => ?_⟩
  obtain ⟨hcorrupt, hinsert⟩ := habs.run.sound (op, r) hx
  refine ⟨hcorrupt, fun b hop hpos hmax => hinsert b hop ⟨?_, hmax⟩⟩
  rintro rfl
  cases hpos

set_option maxRecDepth 40000 in
/-- A new heap in a pool of one frame, over an empty in-memory store, and one record in it. -/
theorem oneRecord_run : ∃ ses, HeapRun BufferPool.memory (HeapTable.Created BufferPool.memory) ses
    [(.insert [7], .ok (.inserted (slotOf 0)))] :=
  ⟨_, .call (.start (HeapTable.created BufferPool.oneFrame_inOrder rfl)) rfl⟩

theorem heap_refines_ctid_map_of_one_record :
    ∃ M past, CtidMap.Run M past [(.insert [7], .ok (.inserted (slotOf 0)))] := by
  obtain ⟨ses, hrun⟩ := oneRecord_run
  obtain ⟨M, past, h, _⟩ := heap_refines_ctid_map hrun
  exact ⟨M, past, h⟩

end ChiliDB
