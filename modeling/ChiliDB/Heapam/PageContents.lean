import ChiliDB.Heapam.PageOps

/-!
# The records of a page

* `contents page` — owner, next page and records, read straight off the bytes.
* `Stores page v` — the page is valid and has these contents; a page that shows a view stores it
  (`Shows.stores`).

Principal result: `page_implements_record_list` — each operation on a valid page is the operation on its
list of records, and leaves a valid page.
-/

namespace ChiliDB.HeapPage

open Effect

variable {page page' : Page} {view : PageView}

/-- Owner, next page and slots; a deleted slot is `none`. -/
@[ext] structure Contents where
  owner : PageId
  next : Option PageId
  rows : List (Option Bytes)
  deriving DecidableEq

def contents (page : Page) : Contents where
  owner := UInt32.ofNat (leNat (slice page.bytes 8 4))
  next := if page.bytes[16]? = some 1 then some (UInt32.ofNat (leNat (slice page.bytes 12 4))) else none
  rows := (List.range (leNat (slice page.bytes 20 2))).map (rowOf page)

/-- The page is valid and has these contents. -/
structure Stores (page : Page) (v : Contents) : Prop where
  valid : ∃ r, validate page = .ok r
  contents : contents page = v

/-- The fields that `validate` returns are the ones on the page. -/
theorem validate_fields {r : Header × Nat} (h : validate page = .ok r) :
    r.1.owner = (contents page).owner ∧ r.1.next = (contents page).next ∧
      r.1.slots = (contents page).rows.length := by
  unfold validate at h
  obtain ⟨magic, _, h⟩ := except_bind_ok.1 h
  split at h
  · cases h
  · obtain ⟨flag, hflag, h⟩ := except_bind_ok.1 h
    obtain ⟨reserved, _, h⟩ := except_bind_ok.1 h
    split at h
    · cases h
    · unfold validateSlots at h
      rw [u16At_eq (by omega), Result.ok_bind, u16At_eq (by omega), Result.ok_bind] at h
      split at h
      · cases h
      · obtain ⟨state, _, h⟩ := except_bind_ok.1 h
        rw [u32At_eq (by omega), Result.ok_bind, nextAt_eq, Result.ok_bind] at h
        cases h
        refine ⟨rfl, ?_, by simp [contents]⟩
        simp [contents, Result.index_eq_ok.1 hflag]

theorem rowAt_eq_ok {i : Nat} {row : Option Bytes} (hi : 24 + (i + 1) * 4 ≤ 8192)
    (h : rowAt page i = .ok row) : row = rowOf page i := by
  unfold rowAt at h
  rw [slot_eq hi, Result.ok_bind] at h
  change (if slotLen page i ≠ 0 then _ else _) = _ at h
  unfold rowOf
  split at h
  · rename_i hne
    obtain ⟨bytes, hslice, h⟩ := except_bind_ok.1 h
    cases h
    unfold Result.slice at hslice
    split at hslice <;> cases hslice
    rw [if_neg hne]
  · rename_i hz
    cases h
    rw [if_pos (not_not.1 hz)]

/-- **A page that shows a view stores it.** -/
theorem Shows.contents (h : Shows page view) : contents page = ⟨view.owner, view.next, view.rows⟩ := by
  obtain ⟨howner, hnext, hslots⟩ := validate_fields h.validate
  have hfits := view.fits
  refine Contents.ext howner.symm hnext.symm (List.ext_getElem? fun i => ?_)
  have hlen : (HeapPage.contents page).rows.length = view.rows.length := hslots.symm
  rcases Nat.lt_or_ge i view.rows.length with hi | hi
  · have hget := List.getElem?_eq_getElem hi
    have hrow := rowAt_eq_ok (by omega) (h.row i _ hget)
    have hrange : i < leNat (slice page.bytes 20 2) := by
      rw [← hlen] at hi
      simpa [HeapPage.contents] using hi
    rw [hget, hrow]
    show ((List.range _).map (rowOf page))[i]? = _
    rw [List.getElem?_map, List.getElem?_range hrange]
    rfl
  · rw [List.getElem?_eq_none (by omega), List.getElem?_eq_none hi]

theorem Shows.stores (h : Shows page view) {v : Contents} (howner : view.owner = v.owner)
    (hnext : view.next = v.next) (hrows : view.rows = v.rows) : Stores page v :=
  ⟨⟨_, h.validate⟩, h.contents.trans (Contents.ext howner hnext hrows)⟩

/-- A valid page shows the view with its contents. -/
theorem Stores.shows {v : Contents} (h : Stores page v) : ∃ view : PageView, Shows page view ∧
    v = ⟨view.owner, view.next, view.rows⟩ := by
  obtain ⟨r, hr⟩ := h.valid
  obtain ⟨view, _, hshows⟩ := shows_of_validate hr
  exact ⟨view, hshows, h.contents.symm.trans hshows.contents⟩

theorem length_le_used {rows : List (Option Bytes)} {id : SlotId} {old : Bytes}
    (h : record rows id = some old) : old.length ≤ used rows := by
  have hset := used_set (record_eq_some.1 h) none
  have hnone : rowLen none = 0 := rfl
  have hold : rowLen (some old) = old.length := rfl
  omega

/-- **Slotted-page operations implement the record list.**  For every valid page with contents `v`, every
tuple, slot number, limit and link: `insert` appends the tuple if it fits, `delete` clears a live slot,
`replace` changes a live slot if the new bytes fit, `setNext` changes the link, `get` and `records` read
the list; every page they leave is valid, with the same owner and every other slot as before, and where
they refuse the page is unchanged. -/
theorem page_implements_record_list {v : Contents} (h : Stores page v) (tuple : Bytes) (id : SlotId)
    (limit : Nat) (next : Option PageId) :
    (∀ bytes, some bytes ∈ v.rows → bytes ≠ []) ∧
    (Legal tuple → if 24 + 4 * (v.rows.length + 1) + used v.rows + tuple.length ≤ 8192 then
        ∃ id page', insert tuple page = (.ok (some id), page') ∧ id.get = v.rows.length + 1 ∧
          Stores page' { v with rows := v.rows ++ [some tuple] }
      else insert tuple page = (.ok none, page)) ∧
    (match record v.rows id with
      | some _ => ∃ page', delete id page = (.ok true, page') ∧
          Stores page' { v with rows := v.rows.set (id.get - 1) none }
      | none => delete id page = (.ok false, page)) ∧
    (Legal tuple → match record v.rows id with
      | some old =>
        if 24 + 4 * v.rows.length + used v.rows - old.length + tuple.length ≤ 8192 then
          ∃ page', replace id tuple page = (.ok true, page') ∧
            Stores page' { v with rows := v.rows.set (id.get - 1) (some tuple) }
        else replace id tuple page = (.ok false, page)
      | none => replace id tuple page = (.ok false, page)) ∧
    (¬ Legal tuple →
      insert tuple page = (.error (.error (.invalidTupleSize tuple.length 8164)), page) ∧
      replace id tuple page = (.error (.error (.invalidTupleSize tuple.length 8164)), page)) ∧
    (∃ page', setNext next page = (.ok (), page') ∧ Stores page' { v with next := next }) ∧
    get page id = .ok (record v.rows id) ∧
    records page limit = (if limit ≤ v.rows.length then .ok (liveRows v.rows limit)
      else .error (.error (.corrupt "scan limit exceeds slot directory"))) := by
  obtain ⟨view, hshows, rfl⟩ := h.shows
  refine ⟨view.filled, fun ht => ?_, ?_, fun ht => ?_, fun ht => ?_, ?_, get_spec hshows id, ?_⟩
  · obtain ⟨page', view', id', hfits, hrun, hid, hshows', ho, hn, hr⟩ | ⟨hrun, hfull⟩ :=
      insert_spec hshows ht
    · rw [if_pos (by simp only; omega)]
      exact ⟨id', page', hrun, hid, hshows'.stores ho hn hr⟩
    · rw [if_neg (by simp only; omega)]
      exact hrun
  · obtain ⟨page', view', hlive, hrun, hshows', ho, hn, hr⟩ | ⟨hnone, hrun⟩ := delete_spec hshows id
    · obtain ⟨old, hold⟩ := Option.ne_none_iff_exists'.1 hlive
      rw [hold]
      exact ⟨page', hrun, hshows'.stores ho hn hr⟩
    · rw [hnone]
      exact hrun
  · obtain ⟨page', view', old, hold, hfits, hrun, hshows', ho, hn, hr⟩ | ⟨hrun, hfull⟩ :=
      replace_spec hshows id ht
    · have hle := length_le_used hold
      simp only [hold]
      rw [if_pos (by omega)]
      exact ⟨page', hrun, hshows'.stores ho hn hr⟩
    · cases hold : record view.rows id with
      | none => exact hrun
      | some old =>
        have hle := length_le_used hold
        have hbig := hfull old hold
        simp only
        rw [if_neg (by omega)]
        exact hrun
  · have hcheck := checkTuple_of_not_legal ht
    constructor
    · unfold insert insertWith
      simp only [Exec.bind_run, Exec.lift_run, hcheck]
    · unfold replace replaceWith
      simp only [Exec.bind_run, Exec.lift_run, hcheck]
  · obtain ⟨page', view', hrun, hshows', ho, hn, hr⟩ := setNext_spec hshows next
    exact ⟨page', hrun, hshows'.stores ho hn hr⟩
  · split
    · rename_i hle
      exact records_spec hshows hle
    · rename_i hgt
      unfold records
      rw [hshows.validate]
      show (if limit > view.rows.length then _ else _) = _
      rw [if_pos (Nat.lt_of_not_le hgt)]
      rfl

/-- On the first page of a new heap. -/
theorem new_page_implements_record_list : ∃ page, initPage 7 = .ok page ∧ Stores page ⟨7, none, []⟩ ∧
    (∃ id page', insert [1] page = (.ok (some id), page') ∧ id.get = 1 ∧
      Stores page' ⟨7, none, [some [1]]⟩) ∧
    insert [] page = (.error (.error (.invalidTupleSize 0 8164)), page) := by
  obtain ⟨page, hinit, hshows⟩ := initPage_shows 7
  have hstores : Stores page ⟨7, none, []⟩ := hshows.stores rfl rfl rfl
  have hlegal := (page_implements_record_list hstores [1] ⟨1, by omega, by omega⟩ 0 none).2.1 (by decide)
  have hempty := (page_implements_record_list hstores [] ⟨1, by omega, by omega⟩ 0 none).2.2.2.2.1
    (by decide)
  exact ⟨page, hinit, hstores, hlegal, hempty.1⟩

end ChiliDB.HeapPage
