import ChiliDB.Heapam.PageContents

/-!
# Page code on arbitrary bytes

Any 8192 bytes, as a damaged disk may return them.

* `putU16Checked` — a write of a 16-bit field that panics where the source's cast would truncate, for the
  page functions over a writer of fields (`compactWith`, `insertWith`, …).
* `Exact put` — the writer agrees with the source's on values below `2 ^ 16`; then the functions do too.

Principal result: `page_code_is_safe`.
-/

namespace ChiliDB.HeapPage

open Effect
open Result (sub ok_bind)
open Exec (lift_run bind_run get_run)

variable {page : Page}

/-! ## Writing 16-bit fields -/

/-- `u16::try_from(value).unwrap()` in the place of `value as u16`. -/
def putU16Checked (page : Page) (at_ value : Nat) : Result HeapError Page :=
  if value < 2 ^ 16 then putU16 page at_ value else .error (.panic .overflow)

/-! ## Nothing is truncated -/

/-- The writer is the source's on values of 16 bits. -/
def Exact (put : Page → Nat → Nat → Result HeapError Page) : Prop :=
  ∀ page at_ value, value < 2 ^ 16 → put page at_ value = putU16 page at_ value

theorem putU16Checked_exact : Exact putU16Checked := by
  intro page at_ value h
  unfold putU16Checked
  rw [if_pos h]

/-- A page that `validate` accepts has few slots. -/
theorem slots_le {r : Header × Nat} (h : validate page = .ok r) : 24 + r.1.slots * 4 ≤ 8192 := by
  have := ((validate_directory page).ok h).fits
  omega

section

variable {put : Page → Nat → Nat → Result HeapError Page} (hput : Exact put)
include hput

theorem putSlotWith_eq (page : Page) (index : Nat) {offset len : Nat} (ho : offset < 2 ^ 16)
    (hl : len < 2 ^ 16) : putSlotWith put page index offset len = putSlot page index offset len := by
  unfold putSlot putSlotWith
  simp only [hput _ _ _ ho]
  congr 1
  funext page'
  exact hput _ _ _ hl

theorem initPageWith_eq (owner : PageId) : initPageWith put owner = initPage owner := by
  unfold initPage initPageWith
  simp only [hput _ _ _ (show PAGE_SIZE < 2 ^ 16 by decide)]

/-- Offsets and lengths are below the end of the free space. -/
theorem compactSlotWith_eq (page : Page) (change : Option (Nat × Option Bytes)) {state : Page × Nat}
    (hstate : state.2 ≤ 8192) (index : Nat) :
    compactSlotWith put page change state index = compactSlot page change state index ∧
      ∀ state', compactSlot page change state index = .ok state' → state'.2 ≤ 8192 := by
  unfold compactSlot compactSlotWith
  rw [putSlotWith_putU16]
  cases tupleAt page change index with
  | error e => exact ⟨rfl, fun _ h => by cases h⟩
  | ok row =>
    cases row with
    | none => exact ⟨rfl, fun _ h => by cases h; exact hstate⟩
    | some tuple =>
      simp only [ok_bind]
      cases hsub : (sub state.2 tuple.length : Result HeapError Nat) with
      | error e => exact ⟨rfl, fun _ h => by cases h⟩
      | ok upper =>
        obtain ⟨hle, rfl⟩ := Result.sub_eq_ok.1 hsub
        simp only [ok_bind,
          putSlotWith_eq hput _ index (show state.2 - tuple.length < 2 ^ 16 by omega)
            (show tuple.length < 2 ^ 16 by omega)]
        refine ⟨trivial, fun state' h => ?_⟩
        obtain ⟨_, _, h⟩ := except_bind_ok.1 h
        obtain ⟨_, _, h⟩ := except_bind_ok.1 h
        cases h
        show state.2 - tuple.length ≤ 8192
        omega

theorem compactSlotsWith_eq (page : Page) (change : Option (Nat × Option Bytes)) :
    ∀ (indices : List Nat) {state : Page × Nat}, state.2 ≤ 8192 →
      indices.foldlM (compactSlotWith put page change) state =
          indices.foldlM (compactSlot page change) state ∧
        ∀ state', indices.foldlM (compactSlot page change) state = .ok state' → state'.2 ≤ 8192
  | [], state, h => ⟨rfl, fun _ he => by cases he; exact h⟩
  | index :: indices, state, h => by
    obtain ⟨hstep, hbound⟩ := compactSlotWith_eq hput page change h index
    rw [List.foldlM_cons, List.foldlM_cons, hstep]
    cases hrun : compactSlot page change state index with
    | error e => exact ⟨rfl, fun _ he => by cases he⟩
    | ok state1 => exact compactSlotsWith_eq page change indices (hbound state1 hrun)

variable {header : Header}

theorem compactWith_eq (page : Page) (hslots : header.slots < 2 ^ 16) (change : Option (Nat × Option Bytes)) :
    compactWith put page header change = compact page header change := by
  unfold compact compactWith
  simp only [compactSlotWith_putU16, initPageWith_putU16, initPageWith_eq hput, hput _ _ _ hslots]
  congr 1
  funext p0
  congr 1
  funext p1
  congr 1
  funext p2
  obtain ⟨hfold, hbound⟩ := compactSlotsWith_eq hput page change (.range header.slots)
    (show (p2, PAGE_SIZE).2 ≤ 8192 from Nat.le_refl 8192)
  rw [hfold]
  cases hrun : (List.range header.slots).foldlM (compactSlot page change) (p2, PAGE_SIZE) with
  | error e => rfl
  | ok state =>
    have := hbound state hrun
    exact hput _ _ _ (by omega)

theorem appendTupleWith_eq (page : Page) (hslots : header.slots + 1 < 2 ^ 16) (used : Nat) (tuple : Bytes) :
    appendTupleWith put page header used tuple = appendTuple page header used tuple := by
  unfold appendTuple appendTupleWith
  rw [compactWith_putU16, putSlotWith_putU16, compactWith_eq hput page (by omega)]
  congr 1
  funext p0
  cases hsub : (sub PAGE_SIZE used : Result HeapError Nat) with
  | error e => rfl
  | ok upper =>
    obtain ⟨_, rfl⟩ := Result.sub_eq_ok.1 hsub
    simp only [ok_bind]
    cases hsub' : (sub (PAGE_SIZE - used) tuple.length : Result HeapError Nat) with
    | error e => rfl
    | ok upper =>
      obtain ⟨hle, rfl⟩ := Result.sub_eq_ok.1 hsub'
      have hupper : PAGE_SIZE - used - tuple.length < 2 ^ 16 := by
        show 8192 - used - tuple.length < 2 ^ 16
        omega
      have hlen : tuple.length < 2 ^ 16 := by
        have : tuple.length ≤ 8192 - used := hle
        omega
      simp only [ok_bind, putSlotWith_eq hput _ _ hupper hlen, hput _ _ _ hslots, hput _ _ _ hupper]

theorem insertWith_eq (tuple : Bytes) (page : Page) : insertWith put tuple page = insert tuple page := by
  unfold insert insertWith
  simp only [bind_run, lift_run, get_run, appendTupleWith_putU16]
  cases checkTuple tuple with
  | error e => rfl
  | ok _ =>
    cases hv : validate page with
    | error e => simp only [hv]
    | ok r =>
      simp only [hv]
      split
      · rfl
      · rename_i hcond
        have hfits : ¬ (24 + (r.1.slots + 1) * 4 + r.2 + tuple.length > 8192) := hcond
        rw [appendTupleWith_eq hput page (show r.1.slots + 1 < 2 ^ 16 by omega)]

theorem deleteWith_eq (id : SlotId) (page : Page) : deleteWith put id page = delete id page := by
  unfold delete deleteWith
  simp only [bind_run, lift_run, get_run, compactWith_putU16]
  cases hv : validate page with
  | error e => rfl
  | ok r =>
    have hslots := slots_le hv
    simp only [compactWith_eq hput page (show r.1.slots < 2 ^ 16 by omega)]

theorem replaceWith_eq (id : SlotId) (tuple : Bytes) (page : Page) :
    replaceWith put id tuple page = replace id tuple page := by
  unfold replace replaceWith
  simp only [bind_run, lift_run, get_run, compactWith_putU16]
  cases checkTuple tuple with
  | error e => rfl
  | ok _ =>
    cases hv : validate page with
    | error e => simp only [hv]
    | ok r =>
      have hslots := slots_le hv
      simp only [hv, compactWith_eq hput page (show r.1.slots < 2 ^ 16 by omega)]

end

/-! ## Every operation on any bytes -/

/-- The computation does not panic. -/
def NoPanic {α : Type} (r : Result HeapError α) : Prop := ∀ p, r ≠ .error (.panic p)

/-- The rejection of `insert` and `replace`: the tuple is looked at before the page. -/
def rejection (tuple : Bytes) (e : Fault HeapError) : Fault HeapError :=
  if Legal tuple then e else .error (.invalidTupleSize tuple.length 8164)

/-- What every operation returns for a page that `validate` rejects; none of them touches the page. -/
structure Rejects (page : Page) (e : Fault HeapError) (id : SlotId) (limit : Nat) (tuple : Bytes)
    (next : Option PageId) : Prop where
  header : header page = .error e
  get : get page id = .error e
  records : records page limit = .error e
  insert : insert tuple page = (.error (rejection tuple e), page)
  delete : delete id page = (.error e, page)
  replace : replace id tuple page = (.error (rejection tuple e), page)
  setNext : setNext next page = (.error e, page)

variable {e : Fault HeapError} {id : SlotId} {limit : Nat} {tuple : Bytes} {next : Option PageId}

theorem rejects_of_validate (h : validate page = .error e) (id : SlotId) (limit : Nat) (tuple : Bytes)
    (next : Option PageId) : Rejects page e id limit tuple next := by
  refine ⟨?_, ?_, ?_, ?_, ?_, ?_, ?_⟩
  · unfold header; rw [h]; rfl
  · unfold get; rw [h]; rfl
  · unfold records; rw [h]; rfl
  · unfold insert insertWith rejection
    by_cases ht : Legal tuple
    · simp only [bind_run, lift_run, get_run, checkTuple_of_legal ht, h, if_pos ht]
    · simp only [bind_run, lift_run, checkTuple_of_not_legal ht, if_neg ht]
  · unfold delete deleteWith
    simp only [bind_run, lift_run, get_run, h]
  · unfold replace replaceWith rejection
    by_cases ht : Legal tuple
    · simp only [bind_run, lift_run, get_run, checkTuple_of_legal ht, h, if_pos ht]
    · simp only [bind_run, lift_run, checkTuple_of_not_legal ht, if_neg ht]
  · unfold setNext
    simp only [bind_run, lift_run, get_run, h]

/-- None of the operations panics. -/
structure Safe (page : Page) (id : SlotId) (limit : Nat) (tuple : Bytes) (next : Option PageId) :
    Prop where
  header : NoPanic (header page)
  get : NoPanic (get page id)
  records : NoPanic (records page limit)
  insert : NoPanic (insert tuple page).1
  delete : NoPanic (delete id page).1
  replace : NoPanic (replace id tuple page).1
  setNext : NoPanic (setNext next page).1

/-- A fault that is not about the page: a panic, or an error of the pool. -/
def Alien : Fault HeapError → Prop
  | .error (.buffer _) => True
  | .panic _ => True
  | _ => False

theorem not_alien_corrupt (message : String) : ¬ Alien (.error (.corrupt message)) := id

theorem not_alien_tupleSize (len max : Nat) : ¬ Alien (.error (.invalidTupleSize len max)) := id

def OwnError {α : Type} (r : Result HeapError α) : Prop := ∀ e, r = .error e → ¬ Alien e

variable {α : Type} {r : Result HeapError α}

theorem ownError_ok {a : α} (h : r = .ok a) : OwnError r := by
  intro e he
  rw [h] at he
  cases he

theorem ownError_error (h : r = .error e) (hown : ¬ Alien e) : OwnError r := by
  intro e' he
  rw [h] at he
  cases he
  exact hown

theorem OwnError.bind {β : Type} {f : α → Result HeapError β} (h : OwnError r) (hf : ∀ a, OwnError (f a)) :
    OwnError (r >>= f) := by
  cases r with
  | ok a => exact hf a
  | error e => exact ownError_error rfl (h e rfl)

theorem OwnError.noPanic (h : OwnError r) : NoPanic r :=
  fun _ hp => h _ hp trivial

/-- What every operation fails with. -/
structure OwnErrors (page : Page) (id : SlotId) (limit : Nat) (tuple : Bytes) (next : Option PageId) :
    Prop where
  header : OwnError (header page)
  get : OwnError (get page id)
  records : OwnError (records page limit)
  insert : OwnError (insert tuple page).1
  delete : OwnError (delete id page).1
  replace : OwnError (replace id tuple page).1
  setNext : OwnError (setNext next page).1

theorem OwnErrors.safe (h : OwnErrors page id limit tuple next) : Safe page id limit tuple next :=
  ⟨h.header.noPanic, h.get.noPanic, h.records.noPanic, h.insert.noPanic, h.delete.noPanic,
    h.replace.noPanic, h.setNext.noPanic⟩

theorem ownErrors_of_rejects {message : String}
    (h : Rejects page (.error (.corrupt message)) id limit tuple next) :
    OwnErrors page id limit tuple next := by
  have hcorrupt := not_alien_corrupt message
  have hrejection : ¬ Alien (rejection tuple (.error (.corrupt message))) := by
    unfold rejection
    split
    · exact hcorrupt
    · exact not_alien_tupleSize _ _
  exact ⟨ownError_error h.header hcorrupt, ownError_error h.get hcorrupt,
    ownError_error h.records hcorrupt, ownError_error (by rw [h.insert]) hrejection,
    ownError_error (by rw [h.delete]) hcorrupt, ownError_error (by rw [h.replace]) hrejection,
    ownError_error (by rw [h.setNext]) hcorrupt⟩

theorem ownErrors_of_shows {view : PageView} (h : Shows page view) (id : SlotId) (limit : Nat)
    (tuple : Bytes) (next : Option PageId) : OwnErrors page id limit tuple next := by
  obtain ⟨page', view', hset, _⟩ := setNext_spec h next
  refine ⟨ownError_ok (header_spec h), ownError_ok (get_spec h id), ?_, ?_, ?_, ?_, ownError_ok (by rw [hset])⟩
  · rcases Nat.lt_or_ge view.rows.length limit with hgt | hle
    · have hlimit : records page limit = .error (.error (.corrupt "scan limit exceeds slot directory")) := by
        unfold records
        rw [h.validate]
        show (if limit > view.rows.length then _ else _) = _
        rw [if_pos hgt]
        rfl
      exact ownError_error hlimit (not_alien_corrupt _)
    · exact ownError_ok (records_spec h hle)
  · by_cases ht : Legal tuple
    · obtain ⟨page', view', id', _, hrun, _⟩ | ⟨hrun, _⟩ := insert_spec h ht
      · exact ownError_ok (by rw [hrun])
      · exact ownError_ok (by rw [hrun])
    · refine ownError_error ?_ (not_alien_tupleSize tuple.length 8164)
      unfold insert insertWith
      simp only [bind_run, lift_run, checkTuple_of_not_legal ht]
  · obtain ⟨page', view', _, hrun, _⟩ | ⟨_, hrun⟩ := delete_spec h id
    · exact ownError_ok (by rw [hrun])
    · exact ownError_ok (by rw [hrun])
  · by_cases ht : Legal tuple
    · obtain ⟨page', view', old, _, _, hrun, _⟩ | ⟨hrun, _⟩ := replace_spec h id ht
      · exact ownError_ok (by rw [hrun])
      · exact ownError_ok (by rw [hrun])
    · refine ownError_error ?_ (not_alien_tupleSize tuple.length 8164)
      unfold replace replaceWith
      simp only [bind_run, lift_run, checkTuple_of_not_legal ht]

theorem ownErrors (page : Page) (id : SlotId) (limit : Nat) (tuple : Bytes) (next : Option PageId) :
    OwnErrors page id limit tuple next := by
  cases hv : validate page with
  | ok r =>
    obtain ⟨view, _, hshows⟩ := shows_of_validate hv
    exact ownErrors_of_shows hshows id limit tuple next
  | error e =>
    obtain ⟨message, rfl⟩ := (validate_checks page).corrupt hv
    exact ownErrors_of_rejects (rejects_of_validate hv id limit tuple next)

/-- **Page code is safe on arbitrary bytes.**  For every page, slot number, limit, tuple and link: no
operation panics, so that no index is out of range and no subtraction underflows; with a checked cast in
the place of every `as u16` the operations do the same, so that no stored value is truncated; and if
`validate` rejects the page, it is reported corrupt (after the size of the tuple) and left as it is. -/
theorem page_code_is_safe (page : Page) (id : SlotId) (limit : Nat) (tuple : Bytes)
    (next : Option PageId) :
    Safe page id limit tuple next ∧
    (insertWith putU16Checked tuple page = insert tuple page ∧
      deleteWith putU16Checked id page = delete id page ∧
      replaceWith putU16Checked id tuple page = replace id tuple page ∧
      ∀ r, validate page = .ok r →
        24 + (r.1.slots + 1) * 4 + r.2 + tuple.length ≤ 8192 → r.1.slots + 1 < 2 ^ 16) ∧
    (∀ e, validate page = .error e →
      (∃ message, e = .error (.corrupt message)) ∧ Rejects page e id limit tuple next) := by
  refine ⟨(ownErrors page id limit tuple next).safe, ⟨insertWith_eq putU16Checked_exact tuple page,
    deleteWith_eq putU16Checked_exact id page, replaceWith_eq putU16Checked_exact id tuple page,
    fun r _ hfits => by omega⟩, fun e he => ?_⟩
  exact ⟨(validate_checks page).corrupt he, rejects_of_validate he id limit tuple next⟩

/-- A page of zeros has no magic number. -/
theorem zero_page_is_rejected :
    validate Page.zero = .error (.error (.corrupt "invalid heap page magic")) ∧
    insert [1] Page.zero = (.error (.error (.corrupt "invalid heap page magic")), Page.zero) ∧
    replace ⟨1, by omega, by omega⟩ [] Page.zero =
      (.error (.error (.invalidTupleSize 0 8164)), Page.zero) := by
  have hv : validate Page.zero = .error (.error (.corrupt "invalid heap page magic")) := by
    unfold validate
    rw [Result.slice_of_le (size_le (by omega)), ok_bind, slice_zero_page (by omega), if_pos (by decide)]
    rfl
  have h := (page_code_is_safe Page.zero ⟨1, by omega, by omega⟩ 0 [1] none).2.2 _ hv
  have h' := (page_code_is_safe Page.zero ⟨1, by omega, by omega⟩ 0 [] none).2.2 _ hv
  exact ⟨hv, h.2.insert, h'.2.replace⟩

end ChiliDB.HeapPage
