import ChiliDB.Heapam.HeapSpec

/-!
# The heap operations act on the chain

For a handle whose invariant holds over a chain, one specification an operation: the answer in terms
of the chain, the chain it leaves, and that a fault is a buffer error or the documented refusal and
leaves the chain alone.

* `create_spec`, `insert_spec`, `delete_spec`, `replace_spec` — the operations that change the chain.
* `get_spec`, `Reads.scan`, `Reads.readScanPage` — the ones that look.
-/

namespace ChiliDB.HeapTable

open Effect HeapPage List
open Exec (Ensures lift bind_run get_run lift_run)
open Chain (ids_getElem? mem_ids slot_eq)

variable {σ : Type} {service : PageService σ} {pins : List PinnedBuffer} {heap heap' : Heap σ}
  {chain : Chain} {c : Ctid} {table : HeapTable} {content : Pages}

/-- The pool is in order, and every page outside the chain is as it was. -/
structure Framed (service : PageService σ) (pins : List PinnedBuffer) (ids : List PageId)
    (s s' : σ) : Prop where
  inv : service.inv s' pins
  others : ∀ (id : PageId) (data : Page), id ∉ ids → service.content s id = some data →
    service.content s' id = some data

theorem Untouched.framed (h : Untouched service pins heap heap') (ids : List PageId) :
    Framed service pins ids heap.pool heap'.pool :=
  ⟨h.kept.inv, fun id data _ hd => h.kept.grows id data hd⟩

theorem Framed.trans {ids : List PageId} {s1 s2 s3 : σ} (h : Framed service pins ids s1 s2)
    (h' : Framed service pins ids s2 s3) : Framed service pins ids s1 s3 :=
  ⟨h'.inv, fun id data hid hd => h'.others id data hid (h.others id data hid hd)⟩

/-- The heap went from one chain to another: no page of anyone else's was touched or taken. -/
structure Moved (service : PageService σ) (pins : List PinnedBuffer) (heap heap' : Heap σ)
    (chain chain' : Chain) : Prop where
  inv : heap'.Inv service chain'
  framed : Framed service pins chain.ids heap.pool heap'.pool
  fresh : ∀ id ∈ chain'.ids, id ∈ chain.ids ∨ service.content heap.pool id = none
  head : heap'.table.head = heap.table.head

theorem Untouched.moved (hu : Untouched service pins heap heap') (h : heap.Inv service chain) :
    Moved service pins heap heap' chain chain :=
  ⟨hu.inv h, hu.framed _, fun _ hid => .inl hid, by rw [hu.table]⟩

/-- A call that left the chain alone, then another one. -/
theorem Moved.after {heap1 : Heap σ} {chain' : Chain} (h : Moved service pins heap heap1 chain chain)
    (h' : Moved service pins heap1 heap' chain chain') :
    Moved service pins heap heap' chain chain' := by
  refine ⟨h'.inv, h.framed.trans h'.framed, fun id hid => ?_, h'.head.trans h.head⟩
  by_cases hm : id ∈ chain.ids
  · exact .inl hm
  · have hnone := (h'.fresh id hid).resolve_left hm
    cases hd : service.content heap.pool id with
    | none => exact .inr rfl
    | some data =>
      rw [h.framed.others id data hm hd] at hnone
      cases hnone

/-! ## Access by CTID -/

/-- A CTID names a page of the chain, or the call stops here. -/
theorem ensures_indexOf (h : HeapInv content table chain) {Q : Nat → Heap σ → Prop}
    {E : Fault HeapError → Heap σ → Prop} (hmem : ∀ i p, chain[i]? = some p → p.id = c.pageId → Q i heap)
    (hbad : c.pageId ∉ chain.ids → E (.error (.invalidCtid c)) heap) :
    Ensures (lift (indexOf table c)) heap Q E := by
  unfold indexOf
  cases hl : table.indices.lookup c.pageId with
  | some i =>
    have hi := (h.indices _ _).1 hl
    rw [h.pages, ids_getElem?, Option.map_eq_some_iff] at hi
    obtain ⟨p, hp, hid⟩ := hi
    exact hmem i p hp hid
  | none =>
    refine hbad fun hm => ?_
    obtain ⟨i, hi⟩ := mem_iff_getElem?.1 hm
    rw [← h.pages] at hi
    rw [(h.indices _ _).2 hi] at hl
    cases hl

variable {p : RowPage} {b : Bytes}

/-- A call that changed the rows of one page. -/
theorem moved_set {i : Nat} {rows : List (Option Bytes)}
    (h : heap.Inv service chain) (hi : chain[i]? = some p)
    (ht : heap'.table = heap.table) (hinv : service.inv heap'.pool pins)
    (hc : ∀ id, id ≠ p.id → service.content heap'.pool id = service.content heap.pool id)
    (hs : Stored (service.content heap'.pool) heap.table.head heap.table.pages[i + 1]? ⟨p.id, rows⟩) :
    Moved service pins heap heap' chain (chain.set i ⟨p.id, rows⟩) := by
  refine ⟨by rw [Heap.Inv, ht]; exact h.set hi hs hc, ⟨hinv, fun id data hid hd => ?_⟩, fun id hid => ?_, by rw [ht]⟩
  · rw [hc id (fun he => hid (he ▸ mem_ids hi))]
    exact hd
  · have hids : Chain.ids (chain.set i ⟨p.id, rows⟩) = chain.ids := Chain.ids_set hi rfl
    exact .inl (hids ▸ hid)

variable (rows : List (Option Bytes)) (next : Option PageId) (slotId : SlotId)

theorem delete_acts :
    Acts (HeapPage.delete slotId) rows next
      (fun r next' rows' => next' = next ∧
        (r = true ∧ record rows slotId ≠ none ∧ rows' = rows.set (slotId.get - 1) none ∨
          r = false ∧ record rows slotId = none ∧ rows' = rows))
      (fun _ => False) := by
  rintro page view hs rfl rfl
  left
  rcases delete_spec hs slotId with ⟨page', view', hlive, hr, hs', ho, hn, hrows⟩ | ⟨hdead, hr⟩
  · exact ⟨true, page', view', hr, hs', ho, hn, .inl ⟨rfl, hlive, hrows⟩⟩
  · exact ⟨false, page, view, hr, hs, rfl, rfl, .inr ⟨rfl, hdead, rfl⟩⟩

theorem replaceLive_acts (hb : Legal b) :
    Acts (replaceLive slotId b) rows next
      (fun r next' rows' => next' = next ∧
        ((∃ old, r = true ∧ record rows slotId = some old ∧ Chain.CanReplace rows old b ∧
            rows' = rows.set (slotId.get - 1) (some b)) ∨
          r = false ∧ record rows slotId = none ∧ rows' = rows))
      (fun x => x = .noSpace ∧ ∃ old, record rows slotId = some old ∧ ¬ Chain.CanReplace rows old b) := by
  rintro page view hs rfl rfl
  cases hrecord : record view.rows slotId with
  | none =>
    refine .inl ⟨false, page, view, ?_, hs, rfl, rfl, .inr ⟨rfl, rfl, rfl⟩⟩
    unfold replaceLive
    simp only [bind_run, get_run, lift_run, get_spec hs, hrecord, Exec.pure_run]
  | some old =>
    rcases replace_spec hs slotId hb with
      ⟨page', view', old', hold, hroom, hr, hs', ho, hn, hrows⟩ | ⟨hr, hbig⟩
    · rw [hrecord] at hold
      cases hold
      refine .inl ⟨true, page', view', ?_, hs', ho, hn, .inl ⟨old, rfl, rfl, hroom, hrows⟩⟩
      unfold replaceLive
      simp only [bind_run, get_run, lift_run, get_spec hs, hrecord, hr]
      rfl
    · refine .inr ⟨.noSpace, ?_, rfl, old, rfl, Nat.not_le.2 (hbig old hrecord)⟩
      unfold replaceLive
      simp only [bind_run, get_run, lift_run, get_spec hs, hrecord, hr]
      rfl

/-- A record of a size no page can hold is refused before anything else happens. -/
theorem ensures_validateTuple {Q : Unit → Heap σ → Prop} {E : Fault HeapError → Heap σ → Prop}
    (hok : Legal b → Q () heap) (hbad : ¬ Legal b → E (.error (.invalidTupleSize b.length 8164)) heap) :
    Ensures (lift (validateTuple b)) heap Q E := by
  unfold validateTuple
  by_cases hb : Legal b
  · rw [checkTuple_of_legal hb]
    exact hok hb
  · rw [checkTuple_of_not_legal hb]
    exact hbad hb

section

variable (hinv : service.inv heap.pool pins) (h : heap.Inv service chain)

include hinv h

theorem get_spec (c : Ctid) :
    Ensures (get service c) heap
      (fun r heap' => Untouched service pins heap heap' ∧ c.pageId ∈ chain.ids ∧ r = (chain.slot c).join)
      (fun e heap' => Untouched service pins heap heap' ∧
        (c.pageId ∈ chain.ids ∧ FromBuffer e ∨ c.pageId ∉ chain.ids ∧ e = .error (.invalidCtid c))) := by
  refine ensures_locked h.unpoisoned (.bind (ensures_indexOf h ?_ ?_))
  · intro i p hi hid
    rw [← hid]
    refine ((reads_kept service pins heap.pool).checked (.refl hinv) h hi (chain.slot c).join ?_).mono ?_ ?_
    · intro page view hs hrows hheader
      rw [hheader, Result.ok_bind, HeapPage.get_spec hs, slot_eq h.nodup hi hid, hrows]
      rfl
    · rintro r heap' ⟨hl, hr⟩
      exact ⟨hl.untouched, mem_ids hi, hr⟩
    · rintro e heap' ⟨⟨ht, hkept, he⟩, hx⟩
      exact ⟨⟨⟨ht, hkept⟩, .inl ⟨mem_ids hi, he⟩⟩, hx⟩
  · intro hm
    exact ⟨⟨⟨rfl, hinv, .refl _⟩, .inr ⟨hm, rfl⟩⟩, _, rfl⟩

theorem delete_spec (c : Ctid) :
    Ensures (delete service c) heap
      (fun r heap' => c.pageId ∈ chain.ids ∧
        (r = true ∧ (chain.slot c).join ≠ none ∧
            Moved service pins heap heap' chain (chain.setRow c none) ∨
          r = false ∧ (chain.slot c).join = none ∧ Moved service pins heap heap' chain chain))
      (fun e heap' => Untouched service pins heap heap' ∧
        (c.pageId ∈ chain.ids ∧ FromBuffer e ∨ c.pageId ∉ chain.ids ∧ e = .error (.invalidCtid c))) := by
  refine ensures_locked h.unpoisoned (.bind (ensures_indexOf h ?_ ?_))
  · intro i p hi hid
    have hslot := slot_eq h.nodup hi hid
    rw [← hid]
    refine (writeChecked_spec heap hinv h hi (delete_acts p.rows _ c.slotId)).mono ?_ ?_
    · rintro r heap' ⟨ht, hinv', hc, next, rows, ⟨rfl, hr⟩, hs⟩
      have hset := moved_set h hi ht hinv' hc hs
      refine ⟨mem_ids hi, ?_⟩
      rw [hslot]
      rcases hr with ⟨rfl, hlive, rfl⟩ | ⟨rfl, hdead, rfl⟩
      · rw [← Chain.setRow_eq_set h.nodup hi hid] at hset
        exact .inl ⟨rfl, hlive, hset⟩
      · rw [Chain.set_self hi] at hset
        exact .inr ⟨rfl, hdead, hset⟩
    · rintro e heap' ⟨hu, ⟨x, rfl⟩ | ⟨x, rfl, hx⟩⟩
      · exact ⟨⟨hu, .inl ⟨mem_ids hi, x, rfl⟩⟩, _, rfl⟩
      · exact hx.elim
  · intro hm
    exact ⟨⟨⟨rfl, hinv, .refl _⟩, .inr ⟨hm, rfl⟩⟩, _, rfl⟩

theorem replace_spec (c : Ctid) (b : Bytes) :
    Ensures (replace service c b) heap
      (fun r heap' => Legal b ∧ c.pageId ∈ chain.ids ∧
        ((∃ old, r = true ∧ (chain.slot c).join = some old ∧
            Chain.CanReplace (chain.rowsOf c.pageId) old b ∧
            Moved service pins heap heap' chain (chain.setRow c (some b))) ∨
          r = false ∧ (chain.slot c).join = none ∧ Moved service pins heap heap' chain chain))
      (fun e heap' => Untouched service pins heap heap' ∧
        (Legal b ∧ c.pageId ∈ chain.ids ∧ FromBuffer e ∨
          ¬ Legal b ∧ e = .error (.invalidTupleSize b.length 8164) ∨
          Legal b ∧ c.pageId ∉ chain.ids ∧ e = .error (.invalidCtid c) ∨
          Legal b ∧ e = .error .noSpace ∧ ∃ old, (chain.slot c).join = some old ∧
            ¬ Chain.CanReplace (chain.rowsOf c.pageId) old b)) := by
  refine .bind (ensures_validateTuple (fun hb => ?_) (fun hb => ?_))
  · refine ensures_locked h.unpoisoned (.bind (ensures_indexOf h ?_ ?_))
    · intro i p hi hid
      have hslot := slot_eq h.nodup hi hid
      have hrows := Chain.rowsOf_eq h.nodup hi
      rw [← hid, hrows]
      refine (writeChecked_spec heap hinv h hi (replaceLive_acts p.rows _ c.slotId hb)).mono ?_ ?_
      · rintro r heap' ⟨ht, hinv', hc, next, rows, ⟨rfl, hr⟩, hs⟩
        have hset := moved_set h hi ht hinv' hc hs
        refine ⟨hb, mem_ids hi, ?_⟩
        rw [hslot]
        rcases hr with ⟨old, rfl, hlive, hfits, rfl⟩ | ⟨rfl, hdead, rfl⟩
        · rw [← Chain.setRow_eq_set h.nodup hi hid] at hset
          exact .inl ⟨old, rfl, hlive, hfits, hset⟩
        · rw [Chain.set_self hi] at hset
          exact .inr ⟨rfl, hdead, hset⟩
      · rintro e heap' ⟨hu, ⟨x, rfl⟩ | ⟨x, rfl, rfl, old, hlive, hbig⟩⟩
        · exact ⟨⟨hu, .inl ⟨hb, mem_ids hi, x, rfl⟩⟩, _, rfl⟩
        · rw [hslot]
          exact ⟨⟨hu, .inr (.inr (.inr ⟨hb, rfl, old, hlive, hbig⟩))⟩, _, rfl⟩
    · intro hm
      exact ⟨⟨⟨rfl, hinv, .refl _⟩, .inr (.inr (.inl ⟨hb, hm, rfl⟩))⟩, _, rfl⟩
  · exact ⟨⟨rfl, hinv, .refl _⟩, .inr (.inl ⟨hb, rfl⟩)⟩

end

/-! ## Creation -/

theorem create_spec {s : σ} (hinv : service.inv s pins) :
    Ensures (create service) s
      (fun table s' => service.content s table.head = none ∧ Kept service pins s s' ∧
        HeapInv (service.content s') table [⟨table.head, []⟩])
      (fun e s' => Kept service pins s s' ∧ FromBuffer e) := by
  have hrun : ∀ id : PageId, ∃ page, Shows page (.empty id) ∧
      (do let page ← lift (initPage id); Exec.set page : Exec HeapError Page Unit) Page.zero =
        (.ok (), page) := by
    intro id
    obtain ⟨page, hinit, hs⟩ := initPage_shows id
    refine ⟨page, hs, ?_⟩
    simp only [bind_run, lift_run, hinit, Exec.set_run]
  refine .bind ((createPage_spec hinv ?_).mono ?_ ?_)
  · intro id q
    obtain ⟨page, _, hr⟩ := hrun id
    rw [hr]
    simp
  · rintro ⟨head, _⟩ s' ⟨hinv', hfresh, _, hc⟩
    obtain ⟨page, hs, hr⟩ := hrun head
    rw [hr] at hc
    refine ⟨hfresh, ⟨hinv', by rw [hc]; exact .update hfresh _⟩, rfl, rfl, nodup_singleton _,
      ?_, rfl, fun i p hi => ?_⟩
    · rw [← AList.insert_empty]
      exact indexes_empty.push (not_mem_nil)
    · cases mem_singleton.1 (mem_of_getElem? hi)
      have hi0 : i = 0 := by
        have := lt_of_get hi
        rw [length_singleton] at this
        omega
      subst hi0
      exact ⟨page, _, by rw [hc]; exact Function.update_self .., hs, rfl, rfl, rfl⟩
  · rintro e s' ⟨hkept, he | ⟨id, he⟩⟩
    · exact ⟨hkept, he⟩
    · obtain ⟨page, _, hr⟩ := hrun id
      rw [hr] at he
      cases he

/-! ## Insertion -/

theorem insert_acts (hb : Legal b) :
    Acts (HeapPage.insert b) rows next
      (fun r next' rows' => next' = next ∧
        ((∃ id, r = some id ∧ id.get = rows.length + 1 ∧ Chain.HasRoom rows b ∧
            rows' = rows ++ [some b]) ∨
          r = none ∧ ¬ Chain.HasRoom rows b ∧ rows' = rows))
      (fun _ => False) := by
  rintro page view hs rfl rfl
  left
  rcases insert_spec hs hb with
    ⟨page', view', id, hroom, hr, hid, hs', ho, hn, hrows⟩ | ⟨hr, hbig⟩
  · exact ⟨some id, page', view', hr, hs', ho, hn, .inl ⟨id, rfl, hid, hroom, hrows⟩⟩
  · exact ⟨none, page, view, hr, hs, rfl, rfl, .inr ⟨rfl, Nat.not_le.2 hbig, rfl⟩⟩

theorem setNext_acts (new : Option PageId) :
    Acts (setNext new) rows next (fun _ next' rows' => next' = new ∧ rows' = rows) (fun _ => False) := by
  rintro page view hs rfl rfl
  obtain ⟨page', view', hr, hs', ho, hn, hrows⟩ := setNext_spec hs new
  exact .inl ⟨(), page', view', hr, hs', ho, hn, hrows⟩

/-- A record that a page can hold at all fits on a new page. -/
theorem startPage_run (table : HeapTable) (hb : Legal b) :
    ∃ id page view, startPage table b Page.zero = (.ok id, page) ∧ id.get = 1 ∧ Shows page view ∧
      view.owner = table.head ∧ view.next = none ∧ view.rows = [some b] := by
  obtain ⟨page0, hinit, hs0⟩ := initPage_shows table.head
  rcases insert_spec hs0 hb with
    ⟨page, view, id, _, hr, hid, hs, ho, hn, hrows⟩ | ⟨_, hbig⟩
  · refine ⟨id, page, view, ?_, hid, hs, ho, hn, hrows⟩
    unfold startPage
    simp only [bind_run, lift_run, hinit, Exec.set_run, hr, Exec.pure_run]
  · have hle := hb.2
    have hempty : 8192 < 24 + (0 + 1) * 4 + 0 + b.length := hbig
    omega

/-- The new page behind the tail is linked, and the handle knows it. -/
theorem HeapInv.push {front : Chain} {pool : σ} {new : PageId} (h : HeapInv content heap.table chain)
    (hchain : chain = front ++ [p]) (hnew : new ∉ chain.ids)
    (hc : ∀ id, id ≠ p.id → id ≠ new → content id = service.content pool id)
    (hp : Stored (service.content pool) heap.table.head (some new) p)
    (hs : Stored (service.content pool) heap.table.head none ⟨new, [some b]⟩) :
    HeapInv (service.content pool) (publish new { heap with pool := pool }).table (chain ++ [⟨new, [some b]⟩]) := by
  have hpages : (publish new { heap with pool := pool }).table.pages = heap.table.pages ++ [new] := rfl
  have hids : Chain.ids (chain ++ [⟨new, [some b]⟩]) = chain.ids ++ [new] := by
    unfold Chain.ids
    rw [map_append]
    rfl
  have hlen : heap.table.pages.length = front.length + 1 := by
    rw [h.pages, hchain]
    simp [Chain.ids]
  refine ⟨by rw [hpages, hids, h.pages], ?_, ?_, ?_, h.unpoisoned, fun i q hi => ?_⟩
  · rw [hpages, head?_append, h.head]
    rfl
  · rw [hids, nodup_append]
    refine ⟨h.nodup, nodup_singleton _, fun x hx y hy => ?_⟩
    rw [mem_singleton.1 hy]
    exact fun hxy => hnew (hxy ▸ hx)
  · exact h.indices.push (h.pages ▸ hnew)
  · show Stored _ heap.table.head (heap.table.pages ++ [new])[i + 1]? q
    -- the new page, the old tail, and the pages before it
    rcases Nat.lt_or_ge i chain.length with hlt | hge
    · rw [getElem?_append_left hlt] at hi
      rw [hchain, length_append, length_singleton] at hlt
      rcases Nat.lt_or_ge i front.length with hif | hif
      · rw [getElem?_append_left (by omega)]
        have htail : chain[front.length]? = some p := by rw [hchain, getElem?_concat_length]
        have hqp : q.id ≠ p.id := fun he => by
          have := Chain.index_unique h.nodup hi htail he
          omega
        have hqn : q.id ≠ new := fun he => hnew (he ▸ mem_ids hi)
        exact (h.stored i q hi).congr (hc q.id hqp hqn).symm
      · have hii : i = front.length := by omega
        subst hii
        rw [hchain, getElem?_concat_length] at hi
        cases hi
        rw [← hlen, getElem?_concat_length]
        exact hp
    · have hii : i = chain.length := by
        have := lt_of_get hi
        rw [length_append, length_singleton] at this
        omega
      subst hii
      rw [getElem?_concat_length] at hi
      cases hi
      rw [getElem?_eq_none]
      · exact hs
      · rw [length_append, length_singleton, hlen, hchain, length_append, length_singleton]

section

variable (hinv : service.inv heap.pool pins) (h : heap.Inv service chain)

include hinv h

theorem extend_spec {front : Chain} (hchain : chain = front ++ [p])
    (hb : Legal b) (hroom : ¬ Chain.HasRoom p.rows b) :
    Ensures (extend service heap.table front.length p.id b) heap
      (fun c heap' => ∃ chain', Chain.Inserted chain b c chain' ∧ Moved service pins heap heap' chain chain')
      (fun e heap' => Untouched service pins heap heap' ∧ FromBuffer e) := by
  obtain ⟨slotId, page, view, hstart, hslot, hs, ho, hn, hrows⟩ := startPage_run heap.table hb
  have htail : chain[front.length]? = some p := by rw [hchain, getElem?_concat_length]
  refine .bind (ensures_onPool ((createPage_spec hinv ?_).mono ?_ ?_))
  · intro id q
    rw [hstart]
    simp
  · rintro ⟨new, slotId'⟩ pool1 ⟨hinv1, hfresh, hr, hc1⟩
    rw [hstart] at hr hc1
    cases hr
    have hgrows : Extends (service.content heap.pool) (service.content pool1) := by rw [hc1]; exact .update hfresh _
    have h1 : HeapInv (service.content pool1) heap.table chain := h.grows hgrows
    have hnew : new ∉ chain.ids := fun hm => by
      obtain ⟨data, hd⟩ := h.allocated hm
      rw [hfresh] at hd
      cases hd
    have hnp : new ≠ p.id := fun he => hnew (he ▸ mem_ids htail)
    refine .bind ((writeChecked_spec ⟨pool1, heap.table⟩ hinv1 h1 htail
      (setNext_acts p.rows _ (some new))).mono ?_ ?_)
    · rintro _ ⟨pool2, table2⟩ ⟨ht, hinv2, hc2, next, rows, ⟨rfl, rfl⟩, hp⟩
      cases ht
      have hpage : Stored (service.content pool2) heap.table.head none ⟨new, [some b]⟩ := by
        refine ⟨page, view, ?_, hs, ho, hn, hrows⟩
        rw [hc2 new hnp, hc1]
        exact Function.update_self ..
      refine ⟨_, .page hchain hroom hnew hslot,
        HeapInv.push h1 hchain hnew (fun id hid _ => (hc2 id hid).symm) hp hpage, ⟨hinv2, ?_⟩, ?_,
        rfl⟩
      · intro id data hid hd
        show service.content pool2 id = some data
        rw [hc2 id (fun he => hid (he ▸ mem_ids htail))]
        exact hgrows id data hd
      · intro id hid
        unfold Chain.ids at hid
        rw [map_append] at hid
        rcases mem_append.1 hid with hid | hid
        · exact .inl hid
        · cases mem_singleton.1 hid
          exact .inr hfresh
    · rintro e heap2 ⟨hu, he | ⟨x, _, hx⟩⟩
      · exact ⟨⟨hu.table, hu.kept.inv, hgrows.trans hu.kept.grows⟩, he⟩
      · exact hx.elim
  · rintro e pool1 ⟨hkept, he | ⟨id, he⟩⟩
    · exact ⟨⟨rfl, hkept⟩, he⟩
    · rw [hstart] at he
      cases he

/-- **`insert`** appends a record of a legal size, or the pool failed and nothing has changed. -/
theorem insert_spec (b : Bytes) :
    Ensures (insert service b) heap
      (fun c heap' => Legal b ∧ ∃ chain', Chain.Inserted chain b c chain' ∧
        Moved service pins heap heap' chain chain')
      (fun e heap' => Moved service pins heap heap' chain chain ∧
        (Legal b ∧ FromBuffer e ∨ ¬ Legal b ∧ e = .error (.invalidTupleSize b.length 8164))) := by
  have hu : Untouched service pins heap heap := ⟨rfl, hinv, .refl _⟩
  refine .bind (ensures_validateTuple (fun hb => ?_) (fun hb => ⟨hu.moved h, .inr ⟨hb, rfl⟩⟩))
  have hne : chain ≠ [] := fun he => by
    have := h.head
    rw [h.pages, he] at this
    cases this
  obtain ⟨front, p, hchain⟩ := (eq_nil_or_concat chain).resolve_left hne
  rw [concat_eq_append] at hchain
  have htail : chain[front.length]? = some p := by rw [hchain, getElem?_concat_length]
  have hlen : heap.table.pages.length = front.length + 1 := by
    rw [h.pages, hchain]
    simp [Chain.ids]
  have hindex : (Result.sub heap.table.pages.length 1 : Result HeapError Nat) = .ok front.length :=
    Result.sub_eq_ok.2 ⟨by omega, by omega⟩
  have hat : (Result.index heap.table.pages front.length : Result HeapError PageId) = .ok p.id := by
    rw [Result.index_eq_ok, h.pages, ids_getElem?, htail]
    rfl
  refine ensures_locked h.unpoisoned (.bind ?_)
  rw [hindex]
  refine .bind ?_
  rw [hat]
  refine .bind ((writeChecked_spec heap hinv h htail (insert_acts p.rows _ hb)).mono ?_ ?_)
  · rintro r heap1 ⟨ht, hinv1, hc, next, rows, ⟨rfl, hr⟩, hs⟩
    have hset := moved_set h htail ht hinv1 hc hs
    rcases hr with ⟨id, rfl, hid, hroom, rfl⟩ | ⟨rfl, hroom, rfl⟩
    · have hlast : chain.set front.length ⟨p.id, p.rows ++ [some b]⟩ = front ++ [⟨p.id, p.rows ++ [some b]⟩] := by
        rw [hchain, set_append_right _ _ (Nat.le_refl _), Nat.sub_self]
        rfl
      rw [hlast] at hset
      exact ⟨hb, _, .tail hchain hroom rfl hid, hset⟩
    · -- the tail is full
      rw [Chain.set_self htail] at hset
      rw [← ht]
      refine (extend_spec hinv1 hset.inv hchain hb hroom).mono ?_ ?_
      · rintro c heap' ⟨chain', hins, hmoved⟩
        exact ⟨hb, chain', hins, hset.after hmoved⟩
      · rintro e heap' ⟨hu', x, rfl⟩
        exact ⟨⟨hset.after (hu'.moved hset.inv), .inl ⟨hb, x, rfl⟩⟩, _, rfl⟩
  · rintro e heap' ⟨hu', ⟨x, rfl⟩ | ⟨x, _, hx⟩⟩
    · exact ⟨⟨hu'.moved h, .inl ⟨hb, x, rfl⟩⟩, _, rfl⟩
    · exact hx.elim

end

/-! ## Scans -/

section

variable {J : σ → Prop} {E : Fault HeapError → σ → Prop}

/-- The loop of `scan`, from page number `n` on. -/
theorem captureFrom_spec (hreads : Reads service J E) (table : HeapTable) (chain : Chain) :
    ∀ (rest : Chain) (n : Nat) {s : σ}, chain.drop n = rest → J s →
    HeapInv (service.content s) table chain →
    Ensures (captureFrom service table n (Chain.ids rest)) s
      (fun r s' => J s' ∧ service.content s' = service.content s ∧ r = rest.map fun p => (p.id, p.rows.length)) E
  | [], n, s, _, hj, _ => ⟨hj, rfl, rfl⟩
  | p :: rest, n, s, hdrop, hj, h => by
    have hp : chain[n]? = some p := by
      rw [← head?_drop, hdrop]
      rfl
    have hrest : chain.drop (n + 1) = rest := by
      rw [← tail_drop, hdrop]
      rfl
    refine .bind ((hreads.stored hj h hp (headerOf table n p)
      (fun _ _ _ _ hheader => hheader)).mono ?_
      (fun _ _ he => he))
    rintro _ s1 ⟨hj1, hc1, rfl⟩
    rw [← hc1] at h
    refine .bind ((captureFrom_spec hreads table chain rest (n + 1) hrest hj1 h).mono ?_ (fun _ _ he => he))
    rintro _ s2 ⟨hj2, hc2, rfl⟩
    exact ⟨hj2, hc2.trans hc1, rfl⟩

/-- **`scan`** captures every page of the chain with its number of slots. -/
theorem Reads.scan (hreads : Reads service J E) (hj : J heap.pool) (h : heap.Inv service chain) :
    Ensures (scan service) heap
      (fun r heap' => Looked service J heap heap' ∧ r = ⟨chain.map fun p => (p.id, p.rows.length), 0, [], false⟩)
      (fun e heap' => heap'.table = heap.table ∧ E e heap'.pool) := by
  refine ensures_locked h.unpoisoned (.bind (ensures_onPool ?_))
  rw [h.pages]
  refine (captureFrom_spec hreads heap.table chain chain 0 rfl hj h).mono ?_ ?_
  · rintro _ pool ⟨hj', hc, rfl⟩
    exact ⟨⟨rfl, hj', hc⟩, rfl⟩
  · intro e pool he
    exact ⟨⟨rfl, he⟩, hreads.error he⟩

theorem Reads.readScanPage (hreads : Reads service J E) {i : Nat} {p : RowPage} (hj : J heap.pool)
    (h : heap.Inv service chain) (hi : chain[i]? = some p) {slots : Nat} (hslots : slots ≤ p.rows.length) :
    Ensures (readScanPage service p.id slots) heap
      (fun rows heap' => Looked service J heap heap' ∧ rows = p.live slots)
      (fun e heap' => (heap'.table = heap.table ∧ E e heap'.pool) ∧ ∃ x, e = .error x) := by
  have hlookup : heap.table.indices.lookup p.id = some i := by
    rw [h.indices p.id i, h.pages, ids_getElem?, hi]
    rfl
  refine ensures_locked h.unpoisoned ?_
  rw [hlookup]
  refine (hreads.checked hj h hi (p.live slots) ?_).mono (fun _ _ hq => hq) (fun _ _ he => ⟨he, he.2⟩)
  intro page view hs hrows hheader
  have hle : ¬ (headerOf heap.table i p).slots < slots := Nat.not_lt.2 hslots
  unfold scanRows
  rw [hheader, Result.ok_bind, if_neg hle, records_spec hs (by rw [hrows]; exact hslots), Result.ok_bind, hrows]
  rfl

end

end ChiliDB.HeapTable
