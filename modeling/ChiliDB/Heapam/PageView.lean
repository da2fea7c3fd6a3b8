import ChiliDB.Heapam.Page

/-!
# What a heap page holds

* `PageView` — owner, next page and the slots of a page, each a record or deleted; a view that does
  not fit on a page cannot be built.
* `Shows page view` — the page passes `validate` and holds exactly the view.
* `Checks r Q` — a page function ends in `Q` or reports corruption; it never panics.

Principal results: `validate_checks` — on arbitrary bytes `validate` does not panic, and what it
accepts shows a view; `shows_unique` — only one.
-/

namespace ChiliDB.HeapPage

open Effect List

variable {α β : Type} {page : Page}

/-! ## Reading fields -/

variable {i n : Nat}

theorem size_le (h : i + n ≤ 8192) : i + n ≤ page.bytes.length := by rw [page.size]; exact h

theorem index_eq (page : Page) (h : i < 8192) :
    ∃ b, (.index page.bytes i : Result HeapError UInt8) = .ok b ∧ slice page.bytes i 1 = [b] := by
  have hlt : i < page.bytes.length := by rw [page.size]; exact h
  refine ⟨page.bytes[i], Result.index_eq_ok.2 (getElem?_eq_getElem hlt), ?_⟩
  unfold slice
  rw [drop_eq_getElem_cons hlt]
  rfl

theorem u16At_eq (h : i + 2 ≤ 8192) : u16At page i = .ok (leNat (slice page.bytes i 2)) := by
  obtain ⟨a, ha, ha'⟩ := index_eq page (show i < 8192 by omega)
  obtain ⟨b, hb, hb'⟩ := index_eq page (show i + 1 < 8192 by omega)
  unfold u16At
  rw [ha, hb, slice_add 1 1, ha', hb']
  rfl

theorem u32At_eq (h : i + 4 ≤ 8192) : u32At page i = .ok (.ofNat (leNat (slice page.bytes i 4))) := by
  obtain ⟨a, ha, ha'⟩ := index_eq page (show i < 8192 by omega)
  obtain ⟨b, hb, hb'⟩ := index_eq page (show i + 1 < 8192 by omega)
  obtain ⟨c, hc, hc'⟩ := index_eq page (show i + 2 < 8192 by omega)
  obtain ⟨d, hd, hd'⟩ := index_eq page (show i + 3 < 8192 by omega)
  have hs : slice page.bytes i 4 = [a, b, c, d] := by
    rw [slice_add 1 3, slice_add 1 2, slice_add 1 1, ha', hb', hc', hd']
    rfl
  unfold u32At
  rw [ha, hb, hc, hd, hs]
  rfl

/-- The offset and the length of slot `i`. -/
def slotOffset (page : Page) (i : Nat) : Nat := leNat (slice page.bytes (24 + i * 4) 2)

def slotLen (page : Page) (i : Nat) : Nat := leNat (slice page.bytes (24 + i * 4 + 2) 2)

theorem slot_eq (h : 24 + (i + 1) * 4 ≤ 8192) : slot page i = .ok (slotOffset page i, slotLen page i) := by
  have hoff : u16At page (24 + i * 4) = .ok (slotOffset page i) := u16At_eq (by omega)
  have hlen : u16At page (24 + i * 4 + 2) = .ok (slotLen page i) := u16At_eq (by omega)
  show (u16At page (24 + i * 4) >>= fun offset => u16At page (24 + i * 4 + 2) >>= fun len =>
    pure (offset, len)) = _
  rw [hoff, hlen]
  rfl

/-! ## Functions that never panic -/

/-- The result is in `Q`, or the page was reported corrupt. -/
def Checks (r : Result HeapError α) (Q : α → Prop) : Prop :=
  match r with
  | .ok a => Q a
  | .error (.error (.corrupt _)) => True
  | .error _ => False

variable {r : Result HeapError α} {Q : α → Prop}

theorem Checks.ok (h : Checks r Q) {a : α} (hr : r = .ok a) : Q a := by rw [hr] at h; exact h

theorem Checks.corrupt (h : Checks r Q) {e : Fault HeapError} (hr : r = .error e) :
    ∃ m, e = .error (.corrupt m) := by
  rw [hr] at h
  unfold Checks at h
  split at h
  · rename_i he; cases he
  · rename_i m he; cases he; exact ⟨m, rfl⟩
  · exact h.elim

theorem Checks.mono {Q' : α → Prop} (h : Checks r Q) (hq : ∀ a, Q a → Q' a) : Checks r Q' := by
  unfold Checks at *
  split
  · exact hq _ h
  · trivial
  · rename_i e hne
    split at h
    · rename_i he; cases he
    · rename_i m he; cases he; exact absurd rfl (hne m)
    · exact h

theorem checks_bind {f : α → Result HeapError β} {Q : β → Prop} (h : Checks r (fun a => Checks (f a) Q)) :
    Checks (r >>= f) Q := by
  rcases r with (e | p) | a
  · cases e <;> exact h
  · exact h
  · exact h

theorem checks_of_eq {a : α} (hr : r = .ok a) (h : Q a) : Checks r Q := by rw [hr]; exact h

/-! ## The slot directory -/

/-- Slot `i` is deleted, or its record lies between `upper` and the end of the page. -/
def SlotOk (page : Page) (upper i : Nat) : Prop :=
  (slotOffset page i = 0 ∧ slotLen page i = 0) ∨
    (slotLen page i ≠ 0 ∧ upper ≤ slotOffset page i ∧ slotOffset page i + slotLen page i ≤ 8192)

/-- The bytes of the first `n` records. -/
def sumLen (page : Page) (n : Nat) : Nat := ((List.range n).map (slotLen page)).sum

theorem sumLen_succ (page : Page) (n : Nat) : sumLen page (n + 1) = sumLen page n + slotLen page n := by
  simp [sumLen, range_succ]

/-- The state of `validate` after `n` slots: `used` bytes are marked, all of them above `upper`. -/
structure Marked (page : Page) (upper n : Nat) (state : List Bool × Nat) : Prop where
  length : state.1.length = 8192
  count : state.1.countP id = state.2
  free : (state.1.take upper).countP id = 0
  used : state.2 = sumLen page n
  slots : ∀ i, i < n → SlotOk page upper i

theorem Marked.start (page : Page) (upper : Nat) : Marked page upper 0 (replicate 8192 false, 0) := by
  refine ⟨length_replicate, ?_, ?_, rfl, fun i hi => by omega⟩
  · rw [countP_replicate]; rfl
  · rw [take_replicate, countP_replicate]; rfl

theorem countP_slice (occupied : List Bool) (i n : Nat) :
    occupied.countP id = (occupied.take i).countP id + (slice occupied i n).countP id +
      (occupied.drop (i + n)).countP id := by
  conv_lhs => rw [← take_append_drop i occupied, ← take_append_drop n (occupied.drop i)]
  rw [countP_append, countP_append, drop_drop]
  show _ = _ + countP id ((occupied.drop i).take n) + _
  omega

variable {upper : Nat} {state : List Bool × Nat}

/-- Marking a free range of `len` bytes above `upper`. -/
theorem Marked.mark (h : Marked page upper n state) (hlen : slotLen page n ≠ 0)
    (hup : upper ≤ slotOffset page n) (hend : slotOffset page n + slotLen page n ≤ 8192)
    (hfree : (slice state.1 (slotOffset page n) (slotLen page n)).any id = false) :
    Marked page upper (n + 1)
      (splice state.1 (slotOffset page n) (replicate (slotLen page n) true), state.2 + slotLen page n) := by
  have hle : slotOffset page n + (replicate (slotLen page n) true).length ≤ state.1.length := by
    rw [length_replicate, h.length]; exact hend
  have hzero : (slice state.1 (slotOffset page n) (slotLen page n)).countP id = 0 := by
    rw [countP_eq_zero]
    intro b hb
    have := any_eq_false.1 hfree b hb
    simpa using this
  refine ⟨(length_splice hle).trans h.length, ?_, ?_, ?_, ?_⟩
  · have hc := countP_slice state.1 (slotOffset page n) (slotLen page n)
    rw [h.count, hzero] at hc
    simp only [splice, countP_append, length_replicate, countP_replicate, id, if_true]
    omega
  · have ht : (splice state.1 (slotOffset page n) (replicate (slotLen page n) true)).take upper =
        state.1.take upper := by
      unfold splice
      rw [append_assoc, take_append_of_le_length, take_take, Nat.min_eq_left hup]
      rw [length_take, h.length]
      omega
    rw [ht]; exact h.free
  · rw [sumLen_succ, ← h.used]
  · intro i hi
    rcases Nat.lt_or_ge i n with hin | hin
    · exact h.slots i hin
    · have : i = n := by omega
      subst this
      exact .inr ⟨hlen, hup, hend⟩

theorem checkSlot_checks (h : Marked page upper n state) (hn : 24 + (n + 1) * 4 ≤ 8192) :
    Checks (checkSlot page upper state n) (Marked page upper (n + 1)) := by
  unfold checkSlot
  refine checks_bind (checks_of_eq (slot_eq hn) ?_)
  show Checks (if _ then _ else _) _
  split
  · rename_i hz
    refine ⟨h.length, h.count, h.free, ?_, fun i hi => ?_⟩
    · rw [sumLen_succ, hz.2]; exact h.used
    · rcases Nat.lt_or_ge i n with hin | hin
      · exact h.slots i hin
      · have : i = n := by omega
        subst this
        exact .inl hz
  · split
    · trivial
    · rename_i hb
      have hsize : PAGE_SIZE = 8192 := rfl
      have hend : slotOffset page n + slotLen page n ≤ 8192 := by omega
      refine checks_bind (checks_of_eq (Result.slice_of_le (by rw [h.length]; exact hend)) ?_)
      split
      · trivial
      · rename_i hany
        exact h.mark (by omega) (by omega) hend (by simpa using hany)

theorem checkSlots_checks {upper : Nat} : ∀ n, 24 + n * 4 ≤ 8192 →
    Checks ((range n).foldlM (checkSlot page upper) (replicate 8192 false, 0)) (Marked page upper n)
  | 0, _ => .start page upper
  | n + 1, hn => by
    rw [range_succ, foldlM_append]
    refine checks_bind ((checkSlots_checks n (by omega)).mono fun state h => ?_)
    simp only [foldlM_cons, foldlM_nil]
    exact checks_bind ((checkSlot_checks h hn).mono fun state' h' => h')

/-- Marked bytes above `upper` leave room: the records fit there. -/
theorem Marked.used_le (h : Marked page upper n state) (hup : upper ≤ 8192) : state.2 + upper ≤ 8192 := by
  have hsplit : state.1.countP id = (state.1.take upper).countP id + (state.1.drop upper).countP id := by
    rw [← countP_append, take_append_drop]
  have hle : (state.1.drop upper).countP id ≤ (state.1.drop upper).length := countP_le_length
  rw [length_drop, h.length] at hle
  rw [h.count, h.free] at hsplit
  omega

/-! ## Views -/

def rowLen : Option Bytes → Nat
  | some tuple => tuple.length
  | none => 0

/-- The bytes of all live records. -/
def used (rows : List (Option Bytes)) : Nat := (rows.map rowLen).sum

theorem used_append (rows rows' : List (Option Bytes)) : used (rows ++ rows') = used rows + used rows' := by
  simp [used]

@[simp] theorem used_singleton (row : Option Bytes) : used [row] = rowLen row := by simp [used]

/-- What a page holds: `none` is a deleted slot. -/
@[ext] structure PageView where
  owner : PageId
  next : Option PageId
  rows : List (Option Bytes)
  fits : 24 + rows.length * 4 + used rows ≤ 8192
  filled : ∀ tuple, some tuple ∈ rows → tuple ≠ []

def PageView.header (view : PageView) : Header := ⟨view.owner, view.next, view.rows.length⟩

/-- The page passes validation and holds the view. -/
structure Shows (page : Page) (view : PageView) : Prop where
  validate : validate page = .ok (view.header, used view.rows)
  row : ∀ (i : Nat) (row : Option Bytes), view.rows[i]? = some row → rowAt page i = .ok row
  len : ∀ (i : Nat) (row : Option Bytes), view.rows[i]? = some row → slotLen page i = rowLen row

/-- The record of slot `i` of a validated page. -/
def rowOf (page : Page) (i : Nat) : Option Bytes :=
  if slotLen page i = 0 then none else some (slice page.bytes (slotOffset page i) (slotLen page i))

theorem SlotOk.range (h : SlotOk page upper i) :
    slotLen page i = 0 ∨ slotOffset page i + slotLen page i ≤ 8192 := by
  rcases h with ⟨_, h⟩ | ⟨_, _, h⟩
  · exact .inl h
  · exact .inr h

theorem SlotOk.rowAt (h : SlotOk page upper i) (hi : 24 + (i + 1) * 4 ≤ 8192) :
    rowAt page i = .ok (rowOf page i) := by
  unfold HeapPage.rowAt rowOf
  rw [slot_eq hi]
  show (if slotLen page i ≠ 0 then _ else _) = _
  split
  · rename_i hne
    rw [Result.slice_of_le (size_le (h.range.resolve_left hne))]
    rfl
  · rename_i hz
    rw [if_pos (by simpa using hz)]
    rfl

theorem SlotOk.rowLen (h : SlotOk page upper i) : rowLen (rowOf page i) = slotLen page i := by
  unfold rowOf
  split
  · rename_i hz; rw [hz]; rfl
  · rename_i hne
    exact length_slice (size_le (h.range.resolve_left hne))

theorem used_rowOf {upper : Nat} : ∀ n, (∀ i, i < n → SlotOk page upper i) →
    used ((range n).map (rowOf page)) = sumLen page n
  | 0, _ => rfl
  | n + 1, h => by
    rw [range_succ, map_append, used_append, used_rowOf n (fun i hi => h i (by omega)), sumLen_succ]
    show _ + used [rowOf page n] = _
    rw [used_singleton, (h n (by omega)).rowLen]

/-- What `validate` has established of the slot directory when it succeeds. -/
structure DirectoryOk (page : Page) (r : Header × Nat) : Prop where
  fits : 24 + r.1.slots * 4 + r.2 ≤ 8192
  used : r.2 = sumLen page r.1.slots
  slots : ∃ upper, 24 ≤ upper ∧ ∀ i, i < r.1.slots → SlotOk page upper i

theorem nextAt_eq (page : Page) (flag : UInt8) : nextAt page flag = .ok (if flag = 1 then
      some (.ofNat (leNat (slice page.bytes 12 4))) else none) := by
  unfold nextAt
  split
  · rw [u32At_eq (by omega)]; rfl
  · rfl

theorem validateSlots_checks (page : Page) (flag : UInt8) :
    Checks (validateSlots page flag) (DirectoryOk page) := by
  unfold validateSlots
  refine checks_bind (checks_of_eq (u16At_eq (by omega)) ?_)
  refine checks_bind (checks_of_eq (u16At_eq (by omega)) ?_)
  show Checks (if 24 + leNat (slice page.bytes 20 2) * 4 > leNat (slice page.bytes 22 2) ∨
    leNat (slice page.bytes 22 2) > 8192 then _ else _) _
  split
  · trivial
  · rename_i hb
    refine checks_bind ((checkSlots_checks _ (by omega)).mono fun state h => ?_)
    have hused := h.used_le (by omega)
    refine checks_bind (checks_of_eq (u32At_eq (by omega)) ?_)
    refine checks_bind (checks_of_eq (nextAt_eq page flag) ⟨?_, h.used, _, ?_, h.slots⟩)
    · show 24 + leNat (slice page.bytes 20 2) * 4 + state.2 ≤ 8192
      omega
    · omega

/-- The view of a page whose directory is in order. -/
def DirectoryOk.view {r : Header × Nat} (h : DirectoryOk page r) : PageView where
  owner := r.1.owner
  next := r.1.next
  rows := (List.range r.1.slots).map (rowOf page)
  fits := by
    obtain ⟨upper, _, hslots⟩ := h.slots
    have hfits := h.fits
    have hused := h.used
    rw [used_rowOf r.1.slots hslots, length_map, length_range]
    omega
  filled := by
    obtain ⟨upper, _, hslots⟩ := h.slots
    intro tuple htuple
    obtain ⟨i, hi, hrow⟩ := mem_map.1 htuple
    have hlen := (hslots i (mem_range.1 hi)).rowLen
    rintro rfl
    rw [hrow] at hlen
    have hzero : slotLen page i = 0 := hlen.symm
    unfold rowOf at hrow
    rw [if_pos hzero] at hrow
    cases hrow

theorem DirectoryOk.shows {r : Header × Nat} (h : DirectoryOk page r)
    (hr : HeapPage.validate page = .ok r) : r = (h.view.header, HeapPage.used h.view.rows) ∧ Shows page h.view := by
  obtain ⟨upper, _, hslots⟩ := h.slots
  have hheader : r = (h.view.header, HeapPage.used h.view.rows) := by
    refine Prod.ext (Header.ext rfl rfl ?_) ?_
    · show r.1.slots = ((List.range r.1.slots).map (rowOf page)).length
      rw [length_map, length_range]
    · show r.2 = HeapPage.used ((List.range r.1.slots).map (rowOf page))
      rw [used_rowOf r.1.slots hslots, h.used]
  have hget : ∀ (i : Nat) (row : Option Bytes), h.view.rows[i]? = some row →
      i < r.1.slots ∧ row = rowOf page i := by
    intro i row hi
    have hi' : ((range r.1.slots).map (rowOf page))[i]? = some row := hi
    rw [getElem?_map, Option.map_eq_some_iff] at hi'
    obtain ⟨j, hj, rfl⟩ := hi'
    obtain ⟨hlt, he⟩ := List.getElem?_eq_some_iff.1 hj
    rw [getElem_range] at he
    subst he
    rw [length_range] at hlt
    exact ⟨hlt, rfl⟩
  have hfits := h.fits
  refine ⟨hheader, by rw [hr, ← hheader], fun i row hi => ?_, fun i row hi => ?_⟩
  · obtain ⟨hlt, rfl⟩ := hget i row hi
    exact (hslots i hlt).rowAt (by omega)
  · obtain ⟨hlt, rfl⟩ := hget i row hi
    exact (hslots i hlt).rowLen.symm

theorem validate_directory (page : Page) : Checks (validate page) (DirectoryOk page) := by
  unfold validate
  refine checks_bind (checks_of_eq (Result.slice_of_le (size_le (by omega))) ?_)
  split
  · trivial
  · obtain ⟨flag, hflag, _⟩ := index_eq page (show 16 < 8192 by omega)
    refine checks_bind (checks_of_eq hflag ?_)
    refine checks_bind (checks_of_eq (Result.slice_of_le (size_le (by omega))) ?_)
    split
    · trivial
    · exact validateSlots_checks page flag

/-- **`validate` never panics, and a page it accepts shows a view.** -/
theorem validate_checks (page : Page) : Checks (validate page)
    (fun r => ∃ view, r = (view.header, used view.rows) ∧ Shows page view) := by
  have hcheck := validate_directory page
  cases hr : validate page with
  | error e =>
    obtain ⟨m, rfl⟩ := hcheck.corrupt hr
    trivial
  | ok r =>
    have h := hcheck.ok hr
    exact ⟨h.view, h.shows hr⟩

theorem shows_of_validate {r : Header × Nat} (h : validate page = .ok r) :
    ∃ view, r = (view.header, used view.rows) ∧ Shows page view :=
  (validate_checks page).ok h

theorem shows_unique {view view' : PageView} (h : Shows page view) (h' : Shows page view') : view = view' := by
  have he := h.validate.symm.trans h'.validate
  obtain ⟨hh, _⟩ := Prod.mk.inj (Except.ok.inj he)
  have hlen : view.rows.length = view'.rows.length := congrArg Header.slots hh
  have hrows : view.rows = view'.rows := by
    apply ext_getElem?
    intro i
    cases hi : view.rows[i]? with
    | none =>
      rw [getElem?_eq_none_iff] at hi
      rw [getElem?_eq_none (by omega)]
    | some row =>
      have hlt := lt_of_get hi
      have hi' := getElem?_eq_getElem (show i < view'.rows.length by omega)
      have hrow := (h.row i row hi).symm.trans (h'.row i _ hi')
      rw [hi', Except.ok.inj hrow]
  have howner : view.owner = view'.owner := congrArg Header.owner hh
  have hnext : view.next = view'.next := congrArg Header.next hh
  exact PageView.ext howner hnext hrows

end ChiliDB.HeapPage
