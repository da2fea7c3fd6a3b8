import ChiliDB.Heapam.PagePacked
import ChiliDB.Lib.Fallible

/-!
# The page operations implement the record list

For every page that shows a view and every argument, one specification an operation: the result it
returns and the view it leaves.

* `initPage_shows`, `compact_packed` — the pages that are built.
* `insert_spec`, `delete_spec`, `replace_spec`, `setNext_spec` — the operations that change a page.
* `header_spec`, `get_spec`, `records_spec` — the ones that read it.
-/

namespace ChiliDB.HeapPage

open Effect List
open Exec (bind_run get_run lift_run set_run)
open Result (ok_bind sub_eq_ok slice_of_le)

variable {page page' : Page} {owner : PageId} {next : Option PageId} {slots : Nat}
  {rows : List (Option Bytes)} {view : PageView}

/-! ## Building a page -/

variable {i : Nat} {row : Option Bytes}

theorem slice_zero_page {n : Nat} (h : i + n ≤ 8192) : slice Page.zero.bytes i n = replicate n 0 :=
  slice_replicate 0 h

/-- The header of a new page: magic and owner are written, everything from 12 on is zero but the
field at 22. -/
theorem initPage_eq (owner : PageId) : ∃ page, initPage owner = .ok page ∧
    slice page.bytes 0 8 = MAGIC ∧ slice page.bytes 8 4 = leBytes 4 owner.toNat ∧
    slice page.bytes 22 2 = leBytes 2 8192 ∧
    (∀ i n, 12 ≤ i → i + n ≤ 22 → slice page.bytes i n = List.replicate n 0) ∧
    ∀ i n, 24 ≤ i → i + n ≤ 8192 → slice page.bytes i n = List.replicate n 0 := by
  have hmagic : MAGIC.length = 8 := rfl
  obtain ⟨p1, h1, hs1⟩ := splice_spliced Page.zero (i := 0) (show 0 + MAGIC.length ≤ 8192 by omega)
  obtain ⟨p2, h2, hs2⟩ := splice_spliced p1 (i := 8)
    (show 8 + (leBytes 4 owner.toNat).length ≤ 8192 by rw [length_leBytes]; omega)
  obtain ⟨p3, h3, hs3⟩ := putU16_spliced p2 (i := 22) 8192 (by omega)
  have hn1 := hs1.new
  have hn2 := hs2.new
  have hn3 := hs3.new
  have he1 := hs1.same
  have he2 := hs2.same
  have he3 := hs3.same
  rw [hmagic] at hn1 he1
  rw [length_leBytes] at hn2 he2 hn3 he3
  refine ⟨p3, ?_, ?_, ?_, hn3, fun i n hi hn => ?_, fun i n hi hn => ?_⟩
  · unfold initPage initPageWith
    rw [h1, ok_bind, h2, ok_bind, h3]
  · rw [he3 _ _ (by omega), he2 _ _ (by omega), hn1]
  · rw [he3 _ _ (by omega), hn2]
  · rw [he3 _ _ (by omega), he2 _ _ (by omega), he1 _ _ (by omega), slice_zero_page (by omega)]
  · rw [he3 _ _ (by omega), he2 _ _ (by omega), he1 _ _ (by omega), slice_zero_page (by omega)]

/-- An empty page of a heap. -/
def PageView.empty (owner : PageId) : PageView :=
  ⟨owner, none, [], by show 24 + 0 * 4 + 0 ≤ 8192; omega, fun _ h => by cases h⟩

theorem initPage_shows (owner : PageId) :
    ∃ page, initPage owner = .ok page ∧ Shows page (PageView.empty owner) := by
  obtain ⟨page, hinit, hmagic, howner, hupper, hlow, _⟩ := initPage_eq owner
  refine ⟨page, hinit, ?_⟩
  have h : Packed page owner none ([] : List (Option Bytes)).length [] :=
    ⟨hmagic, howner, hlow 12 4 (by omega) (by omega), hlow 16 1 (by omega) (by omega),
      hlow 17 3 (by omega) (by omega), hlow 20 2 (by omega) (by omega),
      by show 24 + 0 * 4 + 0 ≤ 8192; omega, Nat.le_refl _,
      fun i row hi => by simp at hi, fun i _ hi => by simp at hi, fun _ ht => by cases ht⟩
  exact h.shows hupper

theorem packed_start (owner : PageId) (next : Option PageId) (hs : 24 + slots * 4 ≤ 8192) :
    ∃ p0 p1 p2, initPage owner = .ok p0 ∧ putNext p0 next = .ok p1 ∧ putU16 p1 20 slots = .ok p2 ∧
      Packed p2 owner next slots [] := by
  obtain ⟨p0, hinit, hmagic, howner, _, hlow, hhigh⟩ := initPage_eq owner
  obtain ⟨q, hq, hsq⟩ := splice_spliced p0 (i := 12)
    (show 12 + (leBytes 4 (next.getD 0).toNat).length ≤ 8192 by rw [length_leBytes]; omega)
  obtain ⟨p1, h1, hs1⟩ := splice_spliced q (i := 16)
    (show 16 + [if next.isSome then (1 : UInt8) else 0].length ≤ 8192 by rw [length_singleton]; omega)
  obtain ⟨p2, h2, hs2⟩ := putU16_spliced p1 (i := 20) slots (by omega)
  have hnq := hsq.new
  have hn1 := hs1.new
  have hn2 := hs2.new
  have heq := hsq.same
  have he1 := hs1.same
  have he2 := hs2.same
  rw [length_leBytes] at hnq heq hn2 he2
  rw [length_singleton] at hn1 he1
  refine ⟨p0, p1, p2, hinit, ?_, h2, ?_, ?_, ?_, ?_, ?_, hn2, ?_, Nat.zero_le _, ?_, ?_, ?_⟩
  · unfold putNext
    rw [hq, ok_bind, h1]
  · rw [he2 _ _ (by omega), he1 _ _ (by omega), heq _ _ (by omega), hmagic]
  · rw [he2 _ _ (by omega), he1 _ _ (by omega), heq _ _ (by omega), howner]
  · rw [he2 _ _ (by omega), he1 _ _ (by omega), hnq]
  · rw [he2 _ _ (by omega), hn1]
  · rw [he2 _ _ (by omega), he1 _ _ (by omega), heq _ _ (by omega), hlow _ _ (by omega) (by omega)]
    rfl
  · show 24 + slots * 4 + 0 ≤ 8192
    omega
  · intro i row hi
    simp at hi
  · intro i _ hi
    rw [he2 _ _ (by omega), he1 _ _ (by omega), heq _ _ (by omega), hhigh _ _ (by omega) (by omega)]
    rfl
  · intro _ ht
    cases ht

/-- One slot of `compact`. -/
theorem compactSlot_packed (page : Page) {change : Option (Nat × Option Bytes)} {result : Page}
    (h : Packed result owner next slots rows) (hlt : rows.length < slots)
    (ht : tupleAt page change rows.length = .ok row) (hfits : 24 + slots * 4 + used rows + rowLen row ≤ 8192)
    (hfilled : ∀ tuple, row = some tuple → tuple ≠ []) :
    ∃ result', compactSlot page change (result, 8192 - used rows) rows.length =
        .ok (result', 8192 - used (rows ++ [row])) ∧
      Packed result' owner next slots (rows ++ [row]) := by
  unfold compactSlot compactSlotWith
  rw [putSlotWith_putU16]
  rw [ht, ok_bind]
  cases row with
  | none =>
    have hused : used (rows ++ [none]) = used rows := by rw [used_append, used_singleton]; rfl
    rw [hused]
    exact ⟨result, rfl, h.skip hlt⟩
  | some tuple =>
    have hlen : rowLen (some tuple) = tuple.length := rfl
    have hused : 8192 - used (rows ++ [some tuple]) = 8192 - used rows - tuple.length := by
      rw [used_append, used_singleton, hlen, Nat.sub_sub]
    obtain ⟨q, hq, hsq⟩ := splice_spliced result (i := 8192 - used rows - tuple.length)
      (show _ + tuple.length ≤ 8192 by omega)
    obtain ⟨result', hr, hsr⟩ := putSlot_spliced q (i := rows.length)
      (8192 - used rows - tuple.length) tuple.length (by omega)
    have hpacked : Packed q owner next slots rows := h.free hsq (.inr ⟨by omega, by omega⟩)
    refine ⟨result', ?_, hpacked.fill hlt (hfilled tuple rfl) (by omega) hsq.new hsr⟩
    have hsub : (.sub (8192 - used rows) tuple.length : Result HeapError Nat) =
        .ok (8192 - used rows - tuple.length) := sub_eq_ok.2 ⟨by omega, rfl⟩
    simp only [hsub, ok_bind, hq, hr]
    rw [hused]
    rfl

theorem compactSlots_packed {change : Option (Nat × Option Bytes)} {start : Page}
    (hstart : Packed start owner next rows.length [])
    (hrows : ∀ (i : Nat) (row : Option Bytes), rows[i]? = some row → tupleAt page change i = .ok row)
    (hfits : 24 + rows.length * 4 + used rows ≤ 8192)
    (hfilled : ∀ tuple, some tuple ∈ rows → tuple ≠ []) : ∀ n, n ≤ rows.length →
    ∃ result, (range n).foldlM (compactSlot page change) (start, 8192) =
        .ok (result, 8192 - used (rows.take n)) ∧
      Packed result owner next rows.length (rows.take n)
  | 0, _ => ⟨start, rfl, hstart⟩
  | n + 1, hn => by
    obtain ⟨result, hfold, hpacked⟩ := compactSlots_packed hstart hrows hfits hfilled n (by omega)
    have hlt : n < rows.length := by omega
    have hget := getElem?_eq_getElem hlt
    have htake : rows.take (n + 1) = rows.take n ++ [rows[n]] := by rw [take_add_one, hget]; rfl
    have hlen : (rows.take n).length = n := by rw [length_take]; omega
    have hle : used (rows.take (n + 1)) ≤ used rows := used_take_le _
    have hsucc := used_take_succ hget
    obtain ⟨result', hslot, hpacked'⟩ := compactSlot_packed page hpacked
      (by omega) (by rw [hlen]; exact hrows n _ hget) (by omega)
      (fun tuple ht => hfilled tuple (by rw [← ht]; exact getElem_mem hlt))
    rw [hlen, ← htake] at hslot
    rw [← htake] at hpacked'
    refine ⟨result', ?_, hpacked'⟩
    rw [range_succ, foldlM_append, hfold]
    show (compactSlot page change _ n >>= fun s => pure s) = _
    rw [hslot]
    rfl

/-- **`compact` packs the rows it reads.** -/
theorem compact_packed (page : Page) {header : Header} (change : Option (Nat × Option Bytes))
    (rows : List (Option Bytes)) (hslots : header.slots = rows.length)
    (hrows : ∀ (i : Nat) (row : Option Bytes), rows[i]? = some row → tupleAt page change i = .ok row)
    (hfits : 24 + rows.length * 4 + used rows ≤ 8192)
    (hfilled : ∀ tuple, some tuple ∈ rows → tuple ≠ []) :
    ∃ result, compact page header change = .ok result ∧
      Packed result header.owner header.next rows.length rows ∧
      slice result.bytes 22 2 = leBytes 2 (8192 - used rows) := by
  obtain ⟨p0, p1, p2, h0, h1, h2, hstart⟩ := packed_start header.owner header.next
    (show 24 + rows.length * 4 ≤ 8192 by omega)
  obtain ⟨result, hfold, hpacked⟩ := compactSlots_packed hstart hrows hfits hfilled rows.length
    (Nat.le_refl _)
  rw [take_length] at hfold hpacked
  obtain ⟨final, hfinal, hs⟩ := putU16_spliced result (i := 22) (8192 - used rows) (by omega)
  have hnew := hs.new
  rw [length_leBytes] at hnew
  refine ⟨final, ?_, hpacked.free hs (.inl ⟨rfl, by rw [length_leBytes]⟩), hnew⟩
  unfold compact compactWith
  rw [initPageWith_putU16, compactSlotWith_putU16, hslots, h0, ok_bind, h1, ok_bind, h2, ok_bind]
  show ((List.range rows.length).foldlM (compactSlot page change) (p2, 8192) >>= fun state =>
    putU16 state.1 22 state.2) = _
  rw [hfold]
  exact hfinal

/-! ## Views with one slot changed -/

theorem used_set (h : rows[i]? = some row) (row' : Option Bytes) :
    used (rows.set i row') + rowLen row = used rows + rowLen row' := by
  obtain ⟨hlt, he⟩ := List.getElem?_eq_some_iff.1 h
  have hset : rows.set i row' = rows.take i ++ row' :: rows.drop (i + 1) := by
    rw [set_eq_take_append_cons_drop, if_pos hlt]
  have hold : rows = rows.take i ++ row :: rows.drop (i + 1) := by
    rw [← he, ← drop_eq_getElem_cons hlt, take_append_drop]
  have hcons : ∀ (x : Option Bytes) (xs : List (Option Bytes)), used (x :: xs) = rowLen x + used xs :=
    fun x xs => by simp [used]
  have h1 : used (rows.set i row') = used (rows.take i) + (rowLen row' + used (rows.drop (i + 1))) := by
    rw [hset, used_append, hcons]
  have h2 : used rows = used (rows.take i) + (rowLen row + used (rows.drop (i + 1))) := by
    conv_lhs => rw [hold]
    rw [used_append, hcons]
  omega

variable {tuple : Bytes}

theorem mem_of_mem_set {row' : Option Bytes} (h : some tuple ∈ rows.set i row') :
    some tuple ∈ rows ∨ row' = some tuple := by
  rcases mem_or_eq_of_mem_set h with h | h
  · exact .inl h
  · exact .inr h.symm

/-- What `compact` reads from a page that shows the view, with slot `i` changed to `row'`. -/
theorem Shows.tupleAt_set (h : Shows page view) {row' : Option Bytes} {j : Nat}
    (hj : (view.rows.set i row')[j]? = some row) : tupleAt page (some (i, row')) j = .ok row := by
  unfold tupleAt
  rw [getElem?_set] at hj
  show (if i = j then _ else _) = _
  split
  · rename_i hij
    rw [if_pos hij] at hj
    split at hj
    · cases hj; rfl
    · cases hj
  · rename_i hij
    rw [if_neg hij] at hj
    exact h.row j row hj

/-- `compact` with slot `i` changed. -/
theorem compact_set (h : Shows page view) (hi : view.rows[i]? = some row) (row' : Option Bytes)
    (hfits : 24 + view.rows.length * 4 + used view.rows + rowLen row' ≤ 8192 + rowLen row)
    (hfilled : ∀ tuple, row' = some tuple → tuple ≠ []) :
    ∃ result view', compact page view.header (some (i, row')) = .ok result ∧ Shows result view' ∧
      view'.owner = view.owner ∧ view'.next = view.next ∧ view'.rows = view.rows.set i row' := by
  have hused := used_set hi row'
  have hlen : (view.rows.set i row').length = view.rows.length := length_set
  obtain ⟨result, hcompact, hpacked, hupper⟩ := compact_packed page (some (i, row'))
    (view.rows.set i row') (show view.header.slots = _ from hlen.symm) (fun j row hj => h.tupleAt_set hj)
    (by rw [hlen]; omega) (fun tuple ht => by
      rcases mem_of_mem_set ht with ht | ht
      · exact view.filled tuple ht
      · exact hfilled tuple ht)
  exact ⟨result, hpacked.view, hcompact, hpacked.shows hupper, rfl, rfl, rfl⟩

/-! ## The operations -/

theorem header_spec (h : Shows page view) : header page = .ok view.header := by
  unfold header
  rw [h.validate]
  rfl

/-- The record a slot number names: `none` for deleted slots and for slots the page does not have. -/
def record (rows : List (Option Bytes)) (id : SlotId) : Option Bytes := rows[id.get - 1]?.join

variable {id : SlotId}

theorem record_eq_some : record rows id = some tuple ↔ rows[id.get - 1]? = some (some tuple) := by
  unfold record
  rw [Option.join_eq_some_iff]

theorem record_eq_none (h : rows.length < id.get) : record rows id = none := by
  unfold record
  rw [getElem?_eq_none (by omega)]
  rfl

/-- The slot that an identifier names. -/
theorem exists_row (h : Shows page view) {id : SlotId} (hle : ¬ view.rows.length < id.get) :
    ∃ row, view.rows[id.get - 1]? = some row ∧ record view.rows id = row ∧
      slot page (id.get - 1) = .ok (slotOffset page (id.get - 1), rowLen row) ∧ (row ≠ none → rowLen row ≠ 0) := by
  have hpos := id.pos
  have hfits := view.fits
  have hget := getElem?_eq_getElem (show id.get - 1 < view.rows.length by omega)
  refine ⟨_, hget, by rw [record, hget]; rfl, ?_, ?_⟩
  · rw [slot_eq (by omega), h.len _ _ hget]
  · generalize view.rows[id.get - 1] = row at hget
    cases row with
    | none => simp
    | some tuple => exact fun _ hz => view.filled tuple (mem_of_getElem? hget) (length_eq_zero_iff.1 hz)

theorem get_spec (h : Shows page view) (id : SlotId) : get page id = .ok (record view.rows id) := by
  unfold get
  rw [h.validate]
  show (if id.get > view.rows.length then _ else _) = _
  split
  · rename_i hgt
    rw [record_eq_none hgt]
    rfl
  · rename_i hle
    obtain ⟨row, hget, hrecord, _⟩ := exists_row h hle
    rw [h.row _ _ hget, hrecord]

/-- Row `i` with its slot number, if it is live. -/
def liveRow (rows : List (Option Bytes)) (i : Nat) : Option (SlotId × Bytes) :=
  rows[i]?.join.bind fun tuple => (SlotId.new (i + 1)).map fun id => (id, tuple)

/-- The live ones of the first `limit` rows. -/
def liveRows (rows : List (Option Bytes)) (limit : Nat) : List (SlotId × Bytes) :=
  (List.range limit).filterMap (liveRow rows)

theorem liveRow_eq_some : liveRow rows i = some (id, tuple) ↔ id.get = i + 1 ∧ rows[i]? = some (some tuple) := by
  unfold liveRow SlotId.new
  rw [Option.bind_eq_some_iff]
  constructor
  · rintro ⟨tuple', htuple, hid⟩
    obtain ⟨id', hnew, he⟩ := Option.map_eq_some_iff.1 hid
    cases he
    split at hnew
    · cases hnew
      exact ⟨rfl, Option.join_eq_some_iff.1 htuple⟩
    · cases hnew
  · rintro ⟨hid, hrow⟩
    have hpos := id.pos
    have hlt := id.lt
    refine ⟨tuple, Option.join_eq_some_iff.2 hrow, ?_⟩
    rw [dif_pos ⟨by omega, by omega⟩]
    exact congrArg some (Prod.ext (SlotId.ext hid.symm) rfl)

theorem recordAt_spec (h : Shows page view) (hi : i < view.rows.length) :
    recordAt page i = .ok (liveRow view.rows i) := by
  have hfits := view.fits
  have hget := getElem?_eq_getElem hi
  unfold recordAt liveRow
  rw [h.row i _ hget, ok_bind, hget]
  cases view.rows[i] with
  | none => rfl
  | some tuple =>
    obtain ⟨id, hid⟩ : ∃ id, SlotId.new (i + 1) = some id := by
      unfold SlotId.new
      exact ⟨_, dif_pos ⟨by omega, by omega⟩⟩
    rw [Nat.mod_eq_of_lt (show i < 2 ^ 16 by omega)]
    simp only [hid]
    rfl

/-- **`records`** returns the live rows below its limit, in slot order. -/
theorem records_spec (h : Shows page view) {limit : Nat} (hl : limit ≤ view.rows.length) :
    records page limit = .ok (liveRows view.rows limit) := by
  unfold records
  rw [h.validate]
  show (if limit > view.rows.length then _ else _) = _
  have hrows : Forall₂ (fun i row => recordAt page i = .ok row) (range limit)
      ((range limit).map (liveRow view.rows)) := by
    refine forall₂_map_right_iff.2 (forall₂_same.2 fun i hi => ?_)
    have := mem_range.1 hi
    exact recordAt_spec h (by omega)
  rw [if_neg (by omega), mapM_ok.2 hrows, ok_bind]
  unfold liveRows
  rw [filterMap_map]
  rfl

/-- **`delete`** clears a live slot and returns `false` for any other. -/
theorem delete_spec (h : Shows page view) (id : SlotId) :
    (∃ page' view', record view.rows id ≠ none ∧ delete id page = (.ok true, page') ∧ Shows page' view' ∧
      view'.owner = view.owner ∧ view'.next = view.next ∧
      view'.rows = view.rows.set (id.get - 1) none) ∨
    (record view.rows id = none ∧ delete id page = (.ok false, page)) := by
  have hfits := view.fits
  unfold delete deleteWith
  simp only [bind_run, get_run, lift_run, h.validate, compactWith_putU16]
  have hslots : view.header.slots = view.rows.length := rfl
  rw [hslots]
  by_cases hgt : view.rows.length < id.get
  · right
    rw [if_pos hgt]
    exact ⟨record_eq_none hgt, rfl⟩
  · obtain ⟨row, hget, hrecord, hslot, hne⟩ := exists_row h hgt
    rw [if_neg hgt]
    simp only [bind_run, lift_run, hslot]
    cases row with
    | none => exact .inr ⟨hrecord, rfl⟩
    | some tuple =>
      left
      obtain ⟨page', view', hcompact, hshows, ho, hn, hr⟩ := compact_set h hget none
        (by show _ + 0 ≤ _; omega) (fun _ ht => by cases ht)
      refine ⟨page', view', by simp [hrecord], ?_, hshows, ho, hn, hr⟩
      rw [if_neg (hne nofun)]
      simp only [bind_run, lift_run, hcompact, set_run, Exec.pure_run]

/-- A tuple that a page can hold at all. -/
def Legal (tuple : Bytes) : Prop := tuple ≠ [] ∧ tuple.length ≤ 8164

instance (tuple : Bytes) : Decidable (Legal tuple) := inferInstanceAs (Decidable (_ ∧ _))

theorem checkTuple_of_legal (h : Legal tuple) : checkTuple tuple = .ok () := by
  unfold checkTuple
  rw [if_neg]
  rintro (he | hl)
  · exact h.1 he
  · have : tuple.length > 8164 := hl
    have := h.2
    omega

theorem checkTuple_of_not_legal (h : ¬ Legal tuple) :
    checkTuple tuple = .error (.error (.invalidTupleSize tuple.length 8164)) := by
  unfold checkTuple
  rw [if_pos]
  · rfl
  · show tuple = [] ∨ tuple.length > 8164
    unfold Legal at h
    by_cases he : tuple = []
    · exact .inl he
    · exact .inr (by simp [he] at h; omega)

/-- **`replace`** changes a live slot whose page has room, and returns `false` otherwise. -/
theorem replace_spec (h : Shows page view) (id : SlotId) (ht : Legal tuple) :
    (∃ page' view' old, record view.rows id = some old ∧
      24 + view.rows.length * 4 + used view.rows + tuple.length ≤ 8192 + old.length ∧
      replace id tuple page = (.ok true, page') ∧ Shows page' view' ∧ view'.owner = view.owner ∧
      view'.next = view.next ∧ view'.rows = view.rows.set (id.get - 1) (some tuple)) ∨
    (replace id tuple page = (.ok false, page) ∧ ∀ old, record view.rows id = some old →
      8192 + old.length < 24 + view.rows.length * 4 + used view.rows + tuple.length) := by
  unfold replace replaceWith
  simp only [bind_run, get_run, lift_run, h.validate, checkTuple_of_legal ht, compactWith_putU16]
  have hslots : view.header.slots = view.rows.length := rfl
  rw [hslots]
  by_cases hgt : view.rows.length < id.get
  · right
    rw [if_pos hgt]
    exact ⟨rfl, by simp [record_eq_none hgt]⟩
  · obtain ⟨row, hget, hrecord, hslot, hne⟩ := exists_row h hgt
    rw [if_neg hgt]
    simp only [bind_run, lift_run, hslot]
    cases row with
    | none => exact .inr ⟨rfl, by simp [hrecord]⟩
    | some old =>
      have hold : rowLen (some old) = old.length := rfl
      have hle' : old.length ≤ used view.rows := by
        have := used_set hget none
        have : rowLen none = 0 := rfl
        omega
      have hsub : (.sub (24 + view.rows.length * 4 + used view.rows) (rowLen (some old)) :
          Result HeapError Nat) = .ok (24 + view.rows.length * 4 + used view.rows - old.length) :=
        sub_eq_ok.2 ⟨by omega, rfl⟩
      rw [if_neg (hne nofun)]
      have hrest : ((.sub (HEADER_SIZE + view.rows.length * SLOT_SIZE + used view.rows)
          (rowLen (some old)) : Result HeapError Nat)) = _ := hsub
      simp only [bind_run, lift_run, hrest]
      rcases Nat.lt_or_ge (8192 + old.length)
        (24 + view.rows.length * 4 + used view.rows + tuple.length) with hbig | hroom
      · right
        have hcond : 24 + view.rows.length * 4 + used view.rows - old.length + tuple.length > PAGE_SIZE := by
          show _ > 8192
          omega
        rw [if_pos hcond]
        refine ⟨rfl, fun old' hold' => ?_⟩
        rw [hrecord] at hold'
        cases hold'
        exact hbig
      · left
        obtain ⟨page', view', hcompact, hshows, ho, hn, hr⟩ := compact_set h hget (some tuple)
          (show 24 + view.rows.length * 4 + used view.rows + tuple.length ≤ 8192 + old.length from hroom)
          (fun t he => by cases he; exact ht.1)
        refine ⟨page', view', old, hrecord, hroom, ?_, hshows, ho, hn, hr⟩
        have hcond : ¬ (24 + view.rows.length * 4 + used view.rows - old.length + tuple.length > PAGE_SIZE) := by
          show ¬ (_ > 8192)
          omega
        rw [if_neg hcond]
        simp only [bind_run, lift_run, hcompact, set_run, Exec.pure_run]

/-- `compact` with no slot changed, then the new record below the others. -/
theorem appendTuple_spec (h : Shows page view) (ht : tuple ≠ [])
    (hfits : 24 + (view.rows.length + 1) * 4 + used view.rows + tuple.length ≤ 8192) :
    ∃ result view', appendTuple page view.header (used view.rows) tuple = .ok result ∧
      Shows result view' ∧ view'.owner = view.owner ∧ view'.next = view.next ∧
      view'.rows = view.rows ++ [some tuple] := by
  have hfits₀ := view.fits
  obtain ⟨p0, h0, hpacked, _⟩ := compact_packed page none view.rows
    (show view.header.slots = view.rows.length from rfl) (fun i row hi => h.row i row hi) view.fits
    view.filled
  -- The record and its slot go into the free space, and the two counters follow.
  obtain ⟨p1, h1, hs1⟩ := splice_spliced p0 (i := 8192 - used view.rows - tuple.length)
    (show _ + tuple.length ≤ 8192 by omega)
  obtain ⟨p2, h2, hs2⟩ := putSlot_spliced p1 (i := view.rows.length)
    (8192 - used view.rows - tuple.length) tuple.length (by omega)
  obtain ⟨p3, h3, hs3⟩ := putU16_spliced p2 (i := 20) (view.rows.length + 1) (by omega)
  obtain ⟨p4, h4, hs4⟩ := putU16_spliced p3 (i := 22) (8192 - used view.rows - tuple.length) (by omega)
  have hlen : (leBytes 2 (8192 - used view.rows - tuple.length) ++ leBytes 2 tuple.length).length = 4 := by
    rw [length_append, length_leBytes, length_leBytes]
  have hnew₂ := hs2.new
  have hnew₄ := hs4.new
  rw [hlen] at hnew₂
  rw [length_leBytes] at hnew₄
  have hpacked₁ := hpacked.free hs1 (.inr ⟨by omega, by omega⟩)
  have hpacked₂ := hpacked₁.free hs2 (.inr ⟨by omega, by omega⟩)
  have hdata : slice p2.bytes (8192 - used view.rows - tuple.length) tuple.length = tuple := by
    rw [hs2.same _ _ (by omega)]
    exact hs1.new
  have hpacked₃ := hpacked₂.grow ht hfits ⟨hnew₂, hdata⟩ hs3
  have hcount : view.rows.length + 1 = (view.rows ++ [some tuple]).length := by
    rw [length_append, length_singleton]
  have hused : 8192 - used view.rows - tuple.length = 8192 - used (view.rows ++ [some tuple]) := by
    rw [used_append, used_singleton, ← Nat.sub_sub]
    rfl
  rw [hcount] at hpacked₃
  have hpacked₄ := hpacked₃.free hs4 (.inl ⟨rfl, by rw [length_leBytes]⟩)
  rw [hused] at hnew₄
  refine ⟨p4, hpacked₄.view, ?_, hpacked₄.shows hnew₄, rfl, rfl, rfl⟩
  have hsub : (Result.sub PAGE_SIZE (used view.rows) : Result HeapError Nat) =
      .ok (8192 - used view.rows) := sub_eq_ok.2 ⟨show _ ≤ 8192 by omega, rfl⟩
  have hsub' : (Result.sub (8192 - used view.rows) tuple.length : Result HeapError Nat) =
      .ok (8192 - used view.rows - tuple.length) := sub_eq_ok.2 ⟨by omega, rfl⟩
  unfold appendTuple appendTupleWith
  rw [compactWith_putU16, putSlotWith_putU16, h0, ok_bind, hsub, ok_bind, hsub', ok_bind, h1, ok_bind]
  show (putSlot p1 view.rows.length _ _ >>= fun result =>
    putU16 result 20 (view.rows.length + 1) >>= fun result => putU16 result 22 _) = _
  rw [h2, ok_bind, h3, ok_bind, h4]

/-- **`insert`** appends the record if the page has room for it and its slot. -/
theorem insert_spec (h : Shows page view) (ht : Legal tuple) :
    (∃ page' view' id, 24 + (view.rows.length + 1) * 4 + used view.rows + tuple.length ≤ 8192 ∧
      insert tuple page = (.ok (some id), page') ∧ id.get = view.rows.length + 1 ∧
      Shows page' view' ∧ view'.owner = view.owner ∧ view'.next = view.next ∧
      view'.rows = view.rows ++ [some tuple]) ∨
    (insert tuple page = (.ok none, page) ∧
      8192 < 24 + (view.rows.length + 1) * 4 + used view.rows + tuple.length) := by
  unfold insert insertWith
  simp only [bind_run, get_run, lift_run, h.validate, checkTuple_of_legal ht, appendTupleWith_putU16]
  have hslots : view.header.slots = view.rows.length := rfl
  rw [hslots]
  rcases Nat.lt_or_ge 8192 (24 + (view.rows.length + 1) * 4 + used view.rows + tuple.length) with hbig | hroom
  · right
    have hcond : HEADER_SIZE + (view.rows.length + 1) * SLOT_SIZE + used view.rows + tuple.length >
        PAGE_SIZE := hbig
    rw [if_pos hcond]
    exact ⟨rfl, hbig⟩
  · left
    have hcond : ¬ (HEADER_SIZE + (view.rows.length + 1) * SLOT_SIZE + used view.rows +
        tuple.length > PAGE_SIZE) := Nat.not_lt.2 hroom
    obtain ⟨page', view', happend, hshows, ho, hn, hr⟩ := appendTuple_spec h ht.1 hroom
    rw [if_neg hcond]
    simp only [bind_run, lift_run, happend, set_run, Exec.pure_run]
    have hmod : (view.rows.length + 1) % 2 ^ 16 = view.rows.length + 1 :=
      Nat.mod_eq_of_lt (by omega)
    have hid : SlotId.new ((view.rows.length + 1) % 2 ^ 16) = some ⟨view.rows.length + 1, by omega, by omega⟩ := by
      rw [hmod]
      unfold SlotId.new
      rw [dif_pos ⟨by omega, by omega⟩]
    exact ⟨page', view', ⟨view.rows.length + 1, by omega, by omega⟩, hroom, by rw [hid], rfl, hshows, ho, hn, hr⟩

/-! ## The link to the next page -/

/-- The pages agree outside the `next` field and its flag. -/
def SameButNext (page page' : Page) : Prop :=
  ∀ a n, a + n ≤ 12 ∨ 17 ≤ a → slice page'.bytes a n = slice page.bytes a n

section

variable (h : SameButNext page page')

include h

theorem SameButNext.index (hi : 17 ≤ i) :
    (.index page'.bytes i : Result HeapError UInt8) = Result.index page.bytes i := by
  have hs := congrArg (fun bytes : Bytes => bytes[0]?) (h i 1 (by omega))
  simp only [getElem?_slice, Nat.zero_lt_one, if_true, Nat.add_zero] at hs
  unfold Result.index
  rw [hs]

theorem SameButNext.u16At {i : Nat} (hi : 17 ≤ i) : u16At page' i = u16At page i := by
  unfold HeapPage.u16At
  rw [h.index hi, h.index (show 17 ≤ i + 1 by omega)]

theorem SameButNext.slot (i : Nat) : slot page' i = slot page i := by
  unfold HeapPage.slot
  have hoff : HeapPage.u16At page' (HEADER_SIZE + i * SLOT_SIZE) = _ :=
    h.u16At (show 17 ≤ 24 + i * 4 by omega)
  have hlen : HeapPage.u16At page' (HEADER_SIZE + i * SLOT_SIZE + 2) = _ :=
    h.u16At (show 17 ≤ 24 + i * 4 + 2 by omega)
  simp only [hoff, hlen]

theorem SameButNext.checkSlot (upper : Nat) : checkSlot page' upper = checkSlot page upper := by
  funext state i
  unfold HeapPage.checkSlot
  rw [h.slot i]

/-- `validate` reads the link and nothing else from the bytes 12 to 16. -/
theorem SameButNext.validate {header : Header} {used : Nat}
    (hok : validate page = .ok (header, used)) {next : Option PageId}
    (hnext : slice page'.bytes 12 4 = leBytes 4 (next.getD 0).toNat)
    (hflag : slice page'.bytes 16 1 = [if next.isSome then 1 else 0]) :
    validate page' = .ok ({ header with next := next }, used) := by
  obtain ⟨flag, hindex, hflag'⟩ := index_eq page' (show 16 < 8192 by omega)
  have hbit : flag = if next.isSome then 1 else 0 := by
    rw [hflag'] at hflag
    exact singleton_inj.1 hflag
  have hmagic : (.slice page'.bytes 0 8 : Result HeapError Bytes) = Result.slice page.bytes 0 8 := by
    rw [slice_of_le (size_le (by omega)), slice_of_le (size_le (by omega)), h 0 8 (by omega)]
  have hreserved : (.slice page'.bytes 17 3 : Result HeapError Bytes) = Result.slice page.bytes 17 3 := by
    rw [slice_of_le (size_le (by omega)), slice_of_le (size_le (by omega)), h 17 3 (by omega)]
  have howner : u32At page' 8 = u32At page 8 := by rw [u32At_eq (by omega), u32At_eq (by omega), h 8 4 (by omega)]
  have hlink : nextAt page' flag = .ok next := by
    rw [nextAt_eq, hbit, hnext]
    cases next with
    | none => rfl
    | some id =>
      show Except.ok (some (UInt32.ofNat (leNat (leBytes 4 id.toNat)))) = _
      rw [ofNat_leNat_leBytes]
  have hle : ¬ flag > 1 := by
    rw [hbit]
    split <;> decide
  unfold HeapPage.validate at hok ⊢
  obtain ⟨magic, hm, hok⟩ := except_bind_ok.1 hok
  rw [hmagic, hm, ok_bind]
  split at hok
  · cases hok
  · rename_i hmag
    rw [if_neg hmag, hindex, ok_bind, hreserved]
    obtain ⟨flag0, _, hok⟩ := except_bind_ok.1 hok
    obtain ⟨reserved, hr, hok⟩ := except_bind_ok.1 hok
    rw [hr, ok_bind]
    split at hok
    · cases hok
    · rename_i hres
      rw [if_neg (fun hc => hc.elim hle fun hc => hres (.inr hc))]
      unfold validateSlots at hok ⊢
      obtain ⟨slots, hs, hok⟩ := except_bind_ok.1 hok
      obtain ⟨upper, hu, hok⟩ := except_bind_ok.1 hok
      rw [h.u16At (by omega), hs, ok_bind, h.u16At (by omega), hu, ok_bind]
      split at hok
      · cases hok
      · rename_i hb
        rw [if_neg hb, h.checkSlot, howner, hlink]
        obtain ⟨state, hst, hok⟩ := except_bind_ok.1 hok
        obtain ⟨owner, ho, hok⟩ := except_bind_ok.1 hok
        obtain ⟨next0, _, hok⟩ := except_bind_ok.1 hok
        cases hok
        rw [hst, ok_bind, ho, ok_bind, ok_bind]
        rfl

end

/-- **`setNext`** changes the link of a valid page and none of its records. -/
theorem setNext_spec (h : Shows page view) (next : Option PageId) : ∃ page' view',
    setNext next page = (.ok (), page') ∧ Shows page' view' ∧ view'.owner = view.owner ∧
      view'.next = next ∧ view'.rows = view.rows := by
  obtain ⟨p1, h1, hs1⟩ := splice_spliced page (i := 12)
    (show 12 + (leBytes 4 (next.getD 0).toNat).length ≤ 8192 by rw [length_leBytes]; omega)
  obtain ⟨p2, h2, hs2⟩ := splice_spliced p1 (i := 16)
    (show 16 + [if next.isSome then (1 : UInt8) else 0].length ≤ 8192 by rw [length_singleton]; omega)
  have hn1 := hs1.new
  have hn2 := hs2.new
  have he1 := hs1.same
  have he2 := hs2.same
  rw [length_leBytes] at hn1 he1
  rw [length_singleton] at hn2 he2
  have hsame : SameButNext page p2 := fun a n ha => by rw [he2 _ _ (by omega), he1 _ _ (by omega)]
  have hput : putNext page next = .ok p2 := by
    unfold putNext
    rw [h1, ok_bind, h2]
  have hvalid := hsame.validate h.validate (by rw [he2 _ _ (by omega)]; exact hn1) hn2
  obtain ⟨upper, hupper, hslots⟩ := ((validate_directory page).ok h.validate).slots
  refine ⟨p2, ⟨view.owner, next, view.rows, view.fits, view.filled⟩, ?_,
    ⟨hvalid, fun i row (hi : view.rows[i]? = some row) => ?_, fun i row hi => ?_⟩, rfl, rfl, rfl⟩
  · unfold setNext
    simp only [bind_run, get_run, lift_run, h.validate, hput, set_run]
  · have hlt := lt_of_get hi
    have hfits := view.fits
    rw [← h.row i row hi]
    unfold rowAt
    rw [hsame.slot i, slot_eq (show 24 + (i + 1) * 4 ≤ 8192 by omega), ok_bind]
    show (if slotLen page i ≠ 0 then _ else _) = (if slotLen page i ≠ 0 then _ else _)
    split
    · -- A live record lies above the slot directory.
      rename_i hne
      obtain ⟨_, hz⟩ | ⟨_, hlow, hend⟩ := hslots i hlt
      · exact absurd hz hne
      · rw [slice_of_le (size_le hend), slice_of_le (size_le hend), hsame _ _ (by omega)]
    · rfl
  · rw [← h.len i row hi]
    unfold slotLen
    rw [hsame _ _ (by omega)]

end ChiliDB.HeapPage
