import ChiliDB.Heapam.PageView

/-!
# Packed pages

The pages that `initialize`, `compact` and `insert` build: the records lie one below the other from
the end of the page, in slot order.

* `Packed page owner next slots rows` — the header is written, the first `rows.length` slots hold
  `rows` and the other slots are still zero.
* `Packed.shows` — a packed page with all its slots filled passes `validate` and shows its rows.
* `compact_packed` — `compact` packs the rows of the page it is given, with one of them changed.
-/

namespace ChiliDB.HeapPage

open Effect List

variable {page page' : Page} {owner : PageId} {next : Option PageId} {slots : Nat}
  {rows : List (Option Bytes)}

/-! ## One range overwritten -/

/-- `page'` is `page` with the range at `i` overwritten by `ys`. -/
structure Spliced (page page' : Page) (i : Nat) (ys : Bytes) : Prop where
  new : slice page'.bytes i ys.length = ys
  same : ∀ a n, a + n ≤ i ∨ i + ys.length ≤ a → slice page'.bytes a n = slice page.bytes a n

variable {i : Nat}

theorem splice_spliced (page : Page) {ys : Bytes} (h : i + ys.length ≤ 8192) :
    ∃ page', page.splice i ys = .ok page' ∧ Spliced page page' i ys := by
  have hle : i + ys.length ≤ page.bytes.length := size_le h
  refine ⟨⟨splice page.bytes i ys, by rw [length_splice hle, page.size]⟩, ?_, ?_, ?_⟩
  · unfold Page.splice
    rw [dif_pos h]
  · exact slice_splice_self hle
  · exact fun a n hd => slice_splice_of_disjoint hle hd

theorem putU16_spliced (page : Page) (value : Nat) (h : i + 2 ≤ 8192) :
    ∃ page', putU16 page i value = .ok page' ∧ Spliced page page' i (leBytes 2 value) :=
  splice_spliced page (by rw [length_leBytes]; exact h)

/-- Both fields of slot `i`. -/
theorem putSlot_spliced (page : Page) (offset len : Nat) (h : 24 + (i + 1) * 4 ≤ 8192) :
    ∃ page', putSlot page i offset len = .ok page' ∧
      Spliced page page' (24 + i * 4) (leBytes 2 offset ++ leBytes 2 len) := by
  obtain ⟨page1, h1, hs1⟩ := putU16_spliced page (i := 24 + i * 4) offset (by omega)
  obtain ⟨page2, h2, hs2⟩ := putU16_spliced page1 (i := 24 + i * 4 + 2) len (by omega)
  have hn1 := hs1.new
  have hn2 := hs2.new
  rw [length_leBytes] at hn1 hn2
  refine ⟨page2, ?_, ?_, ?_⟩
  · show (putU16 page (24 + i * 4) offset >>= fun page => putU16 page (24 + i * 4 + 2) len) = _
    rw [h1]
    exact h2
  · rw [length_append, length_leBytes, length_leBytes, slice_add 2 2, hn2, hs2.same _ _ (by omega), hn1]
  · intro a n hd
    rw [length_append, length_leBytes, length_leBytes] at hd
    rw [hs2.same a n (by rw [length_leBytes]; omega), hs1.same a n (by rw [length_leBytes]; omega)]

/-! ## Packed pages -/

/-- Slot `i` is deleted, or it holds a record at `offset`. -/
def Holds (page : Page) (i offset : Nat) : Option Bytes → Prop
  | none => slice page.bytes (24 + i * 4) 4 = [0, 0, 0, 0]
  | some tuple => slice page.bytes (24 + i * 4) 4 = leBytes 2 offset ++ leBytes 2 tuple.length ∧
      slice page.bytes offset tuple.length = tuple

structure Packed (page : Page) (owner : PageId) (next : Option PageId) (slots : Nat)
    (rows : List (Option Bytes)) : Prop where
  magic : slice page.bytes 0 8 = MAGIC
  ownerField : slice page.bytes 8 4 = leBytes 4 owner.toNat
  nextField : slice page.bytes 12 4 = leBytes 4 (next.getD 0).toNat
  flag : slice page.bytes 16 1 = [if next.isSome then 1 else 0]
  reserved : slice page.bytes 17 3 = [0, 0, 0]
  slotsField : slice page.bytes 20 2 = leBytes 2 slots
  fits : 24 + slots * 4 + used rows ≤ 8192
  count : rows.length ≤ slots
  row : ∀ (i : Nat) (row : Option Bytes), rows[i]? = some row →
    Holds page i (8192 - used (rows.take (i + 1))) row
  blank : ∀ i, rows.length ≤ i → i < slots → slice page.bytes (24 + i * 4) 4 = [0, 0, 0, 0]
  filled : ∀ tuple, some tuple ∈ rows → tuple ≠ []

theorem used_take_succ {row : Option Bytes} (h : rows[i]? = some row) :
    used (rows.take (i + 1)) = used (rows.take i) + rowLen row := by
  rw [take_add_one, h, used_append]
  show _ + used [row] = _
  rw [used_singleton]

theorem used_take_le (n : Nat) : used (rows.take n) ≤ used rows := by
  have := used_append (rows.take n) (rows.drop n)
  rw [take_append_drop] at this
  omega

variable {tuple : Bytes}

section

variable (h : Packed page owner next slots rows)

include h

/-- A record of a packed page lies between the free space and the end of the page. -/
theorem Packed.range (hi : rows[i]? = some (some tuple)) :
    8192 - used rows ≤ 8192 - used (rows.take (i + 1)) ∧
      8192 - used (rows.take (i + 1)) + tuple.length = 8192 - used (rows.take i) := by
  have h1 := used_take_succ hi
  have h2 : used (rows.take (i + 1)) ≤ used rows := used_take_le _
  have h3 : rowLen (some tuple) = tuple.length := rfl
  have h4 := h.fits
  omega

/-- Overwriting bytes of the free space, or the field at 22. -/
theorem Packed.free {ys : Bytes} (hs : Spliced page page' i ys)
    (hi : (i = 22 ∧ ys.length = 2) ∨ (24 + slots * 4 ≤ i ∧ i + ys.length ≤ 8192 - used rows)) :
    Packed page' owner next slots rows := by
  have hfits := h.fits
  have hcount := h.count
  refine ⟨?_, ?_, ?_, ?_, ?_, ?_, h.fits, h.count, ?_, ?_, h.filled⟩
  · rw [hs.same _ _ (by omega)]; exact h.magic
  · rw [hs.same _ _ (by omega)]; exact h.ownerField
  · rw [hs.same _ _ (by omega)]; exact h.nextField
  · rw [hs.same _ _ (by omega)]; exact h.flag
  · rw [hs.same _ _ (by omega)]; exact h.reserved
  · rw [hs.same _ _ (by omega)]; exact h.slotsField
  · intro j row hj
    have hlt := lt_of_get hj
    have hold := h.row j row hj
    cases row with
    | none =>
      show slice page'.bytes _ 4 = _
      rw [hs.same _ _ (by omega)]
      exact hold
    | some tuple =>
      have hr := h.range hj
      refine ⟨?_, ?_⟩
      · rw [hs.same _ _ (by omega)]; exact hold.1
      · rw [hs.same _ _ (by omega)]; exact hold.2
  · intro j hj hjs
    rw [hs.same _ _ (by omega)]
    exact h.blank j hj hjs

/-- The next slot stays deleted. -/
theorem Packed.skip (hlt : rows.length < slots) : Packed page owner next slots (rows ++ [none]) := by
  have hused : used (rows ++ [none]) = used rows := by rw [used_append, used_singleton]; rfl
  refine ⟨h.magic, h.ownerField, h.nextField, h.flag, h.reserved, h.slotsField, by rw [hused]; exact h.fits,
    by rw [length_append]; exact hlt, ?_, ?_, ?_⟩
  · intro i row hi
    rcases Nat.lt_or_ge i rows.length with hir | hir
    · rw [getElem?_append_left hir] at hi
      rw [take_append_of_le_length (show i + 1 ≤ rows.length from hir)]
      exact h.row i row hi
    · have hi' := lt_of_get hi
      rw [length_append, length_singleton] at hi'
      have : i = rows.length := by omega
      subst this
      rw [getElem?_concat_length] at hi
      cases hi
      exact h.blank _ (Nat.le_refl _) hlt
  · intro i hi his
    rw [length_append, length_singleton] at hi
    exact h.blank i (by omega) his
  · intro tuple ht
    rcases mem_append.1 ht with ht | ht
    · exact h.filled tuple ht
    · simp at ht

/-- One record more: everything the old rows occupy is unchanged, and the slot after them holds a
record right below theirs. -/
theorem Packed.push {slots' : Nat} (hlt : rows.length < slots')
    (hne : tuple ≠ []) (hfits : 24 + slots' * 4 + used rows + tuple.length ≤ 8192)
    (hsame : ∀ a n, a + n ≤ 20 ∨ (24 ≤ a ∧ a + n ≤ 24 + rows.length * 4) ∨ 8192 - used rows ≤ a →
      slice page'.bytes a n = slice page.bytes a n) (hslots : slice page'.bytes 20 2 = leBytes 2 slots')
    (hnew : Holds page' rows.length (8192 - used rows - tuple.length) (some tuple))
    (hblank : ∀ i, rows.length < i → i < slots' → slice page'.bytes (24 + i * 4) 4 = [0, 0, 0, 0]) :
    Packed page' owner next slots' (rows ++ [some tuple]) := by
  have hused : used (rows ++ [some tuple]) = used rows + tuple.length := by rw [used_append, used_singleton]; rfl
  refine ⟨?_, ?_, ?_, ?_, ?_, hslots, by rw [hused]; omega, by rw [length_append]; exact hlt, ?_, ?_, ?_⟩
  · rw [hsame _ _ (by omega)]; exact h.magic
  · rw [hsame _ _ (by omega)]; exact h.ownerField
  · rw [hsame _ _ (by omega)]; exact h.nextField
  · rw [hsame _ _ (by omega)]; exact h.flag
  · rw [hsame _ _ (by omega)]; exact h.reserved
  · intro i row hi
    rcases Nat.lt_or_ge i rows.length with hir | hir
    · rw [getElem?_append_left hir] at hi
      rw [take_append_of_le_length (show i + 1 ≤ rows.length from hir)]
      have hold := h.row i row hi
      cases row with
      | none =>
        show slice page'.bytes _ 4 = _
        rw [hsame _ _ (by omega)]
        exact hold
      | some old =>
        have hr := h.range hi
        refine ⟨?_, ?_⟩
        · rw [hsame _ _ (by omega)]; exact hold.1
        · rw [hsame _ _ (by omega)]; exact hold.2
    · have hi' := lt_of_get hi
      rw [length_append, length_singleton] at hi'
      have : i = rows.length := by omega
      subst this
      rw [getElem?_concat_length] at hi
      cases hi
      rw [take_of_length_le (by simp), hused, ← Nat.sub_sub]
      exact hnew
  · intro i hi his
    rw [length_append, length_singleton] at hi
    exact hblank i (by omega) his
  · intro t ht
    rcases mem_append.1 ht with ht | ht
    · exact h.filled t ht
    · simp only [mem_singleton, Option.some.injEq] at ht
      rw [ht]; exact hne

/-- The next slot gets the record that was copied below the others. -/
theorem Packed.fill (hlt : rows.length < slots) (hne : tuple ≠ [])
    (hfits : 24 + slots * 4 + used rows + tuple.length ≤ 8192)
    (hdata : slice page.bytes (8192 - used rows - tuple.length) tuple.length = tuple)
    (hs : Spliced page page' (24 + rows.length * 4)
      (leBytes 2 (8192 - used rows - tuple.length) ++ leBytes 2 tuple.length)) :
    Packed page' owner next slots (rows ++ [some tuple]) := by
  have hlen : (leBytes 2 (8192 - used rows - tuple.length) ++ leBytes 2 tuple.length).length = 4 := by
    rw [length_append, length_leBytes, length_leBytes]
  have hnew := hs.new
  have hsame := hs.same
  rw [hlen] at hnew hsame
  refine h.push hlt hne hfits (fun a n ha => hsame a n (by omega)) ?_ ⟨hnew, ?_⟩ fun i hi his => ?_
  · rw [hsame _ _ (by omega)]; exact h.slotsField
  · rw [hsame _ _ (by omega)]; exact hdata
  · rw [hsame _ _ (by omega)]; exact h.blank i (by omega) his

end

/-- A slot after the directory that already holds its record joins it with the field at 20. -/
theorem Packed.grow (h : Packed page owner next rows.length rows) (hne : tuple ≠ [])
    (hfits : 24 + (rows.length + 1) * 4 + used rows + tuple.length ≤ 8192)
    (hold : Holds page rows.length (8192 - used rows - tuple.length) (some tuple))
    (hs : Spliced page page' 20 (leBytes 2 (rows.length + 1))) :
    Packed page' owner next (rows.length + 1) (rows ++ [some tuple]) := by
  have hnew := hs.new
  have hsame := hs.same
  rw [length_leBytes] at hnew hsame
  refine h.push (by omega) hne hfits (fun a n ha => hsame a n (by omega)) hnew ⟨?_, ?_⟩ fun i hi his => by omega
  · rw [hsame _ _ (by omega)]; exact hold.1
  · rw [hsame _ _ (by omega)]; exact hold.2

/-! ## Packed pages pass validation -/

theorem slot_of_slice {x y : Nat} (hx : x < 256 ^ 2) (hy : y < 256 ^ 2)
    (h : slice page.bytes (24 + i * 4) 4 = leBytes 2 x ++ leBytes 2 y) :
    slotOffset page i = x ∧ slotLen page i = y := by
  have hoff : slice page.bytes (24 + i * 4) 2 = leBytes 2 x := by
    rw [← Nat.add_zero (24 + i * 4), ← slice_slice (show 0 + 2 ≤ 4 by omega), h,
      slice_left (by rw [length_leBytes])]
  have hlen : slice page.bytes (24 + i * 4 + 2) 2 = leBytes 2 y := by
    rw [← slice_slice (show 2 + 2 ≤ 4 by omega), h, slice_right (by rw [length_leBytes]) (by rw [length_leBytes])]
  unfold slotOffset slotLen
  rw [hoff, hlen, leNat_leBytes hx, leNat_leBytes hy]
  exact ⟨rfl, rfl⟩

theorem Holds.deleted {offset : Nat} (h : Holds page i offset none) : slotOffset page i = 0 ∧ slotLen page i = 0 :=
  slot_of_slice (by omega) (by omega) h

theorem Holds.stored {offset : Nat} (h : Holds page i offset (some tuple)) (ho : offset + tuple.length ≤ 8192) :
    slotOffset page i = offset ∧ slotLen page i = tuple.length :=
  slot_of_slice (by omega) (by omega) h.1

/-- The occupied bytes after the records below `upper` bytes. -/
def occupiedFrom (upper : Nat) : List Bool :=
  List.replicate upper false ++ List.replicate (8192 - upper) true

/-- A record right below the occupied bytes is free, and is occupied afterwards. -/
theorem occupiedFrom_mark (upper len : Nat) (hu : upper ≤ 8192) (hl : len ≤ upper) :
    (.slice (occupiedFrom upper) (upper - len) len : Result HeapError (List Bool)) =
        .ok (replicate len false) ∧
      splice (occupiedFrom upper) (upper - len) (replicate len true) = occupiedFrom (upper - len) := by
  have hsplit : replicate upper false = replicate (upper - len) false ++ replicate len false := by
    rw [replicate_append_replicate]
    congr 1
    omega
  refine ⟨?_, ?_⟩
  · rw [Result.slice_of_le (by simp [occupiedFrom]; omega)]
    congr 1
    unfold occupiedFrom slice
    rw [hsplit, append_assoc, drop_append_of_le_length (by simp), drop_replicate,
      Nat.sub_self, replicate_zero, nil_append, take_append_of_le_length (by simp),
      take_replicate, Nat.min_self]
  · unfold occupiedFrom splice
    rw [length_replicate, Nat.sub_add_cancel hl, drop_append_of_le_length (by simp),
      drop_replicate, Nat.sub_self, replicate_zero, nil_append,
      take_append_of_le_length (by simp), take_replicate, Nat.min_eq_left (by omega),
      append_assoc, replicate_append_replicate]
    congr 2
    omega

theorem Packed.checkSlot (h : Packed page owner next slots rows) {n : Nat} {row : Option Bytes}
    (hn : rows[n]? = some row) :
    checkSlot page (8192 - used rows) (occupiedFrom (8192 - used (rows.take n)), used (rows.take n)) n =
      .ok (occupiedFrom (8192 - used (rows.take (n + 1))), used (rows.take (n + 1))) := by
  have hlt := lt_of_get hn
  have hfits := h.fits
  have hcount := h.count
  have hsucc := used_take_succ hn
  have hle : used (rows.take (n + 1)) ≤ used rows := used_take_le _
  have hold := h.row n row hn
  unfold HeapPage.checkSlot
  rw [slot_eq (show 24 + (n + 1) * 4 ≤ 8192 by omega)]
  show (if slotOffset page n = 0 ∧ slotLen page n = 0 then _ else _) = _
  cases row with
  | none =>
    rw [if_pos hold.deleted, hsucc]
    rfl
  | some tuple =>
    have hr := h.range hn
    have hne : tuple.length ≠ 0 := by
      intro hz
      exact h.filled tuple (mem_of_getElem? hn) (length_eq_zero_iff.1 hz)
    have hlen : rowLen (some tuple) = tuple.length := rfl
    obtain ⟨ho, hl⟩ := hold.stored (by omega)
    have hmark := occupiedFrom_mark (8192 - used (rows.take n)) tuple.length (by omega) (by omega)
    have hoff : 8192 - used (rows.take (n + 1)) = 8192 - used (rows.take n) - tuple.length := by omega
    rw [if_neg (by omega), if_neg (by rw [ho, hl, hoff]; show ¬ (_ ∨ _ ∨ _ > 8192); omega), ho, hl, hoff]
    simp only [hmark.1]
    show (if (replicate tuple.length false).any id then _ else _) = _
    rw [if_neg (by simp), hmark.2, hsucc]
    rfl

theorem Packed.checkSlots (h : Packed page owner next slots rows) : ∀ n, n ≤ rows.length →
    (List.range n).foldlM (HeapPage.checkSlot page (8192 - used rows)) (List.replicate 8192 false, 0) =
      .ok (occupiedFrom (8192 - used (rows.take n)), used (rows.take n))
  | 0, _ => by
    have hz : used (rows.take 0) = 0 := rfl
    rw [hz]
    unfold occupiedFrom
    rw [Nat.sub_zero, Nat.sub_self, replicate_zero, append_nil]
    rfl
  | n + 1, hn => by
    rw [range_succ, foldlM_append, h.checkSlots n (by omega)]
    show (HeapPage.checkSlot page _ _ n >>= fun s => pure s) = _
    rw [h.checkSlot (getElem?_eq_getElem (show n < rows.length by omega))]
    rfl

theorem ofNat_leNat_leBytes (x : UInt32) : UInt32.ofNat (leNat (leBytes 4 x.toNat)) = x := by
  rw [leNat_leBytes (show x.toNat < 256 ^ 4 from x.toNat_lt), UInt32.ofNat_toNat]

/-- The view of a packed page. -/
def Packed.view (h : Packed page owner next rows.length rows) : PageView :=
  ⟨owner, next, rows, h.fits, h.filled⟩

theorem Packed.validate (h : Packed page owner next rows.length rows)
    (hu : slice page.bytes 22 2 = leBytes 2 (8192 - used rows)) :
    validate page = .ok (h.view.header, used rows) := by
  have hfits := h.fits
  have hslots : u16At page 20 = .ok rows.length := by
    rw [u16At_eq (by omega), h.slotsField, leNat_leBytes (by omega)]
  have hupper : u16At page 22 = .ok (8192 - used rows) := by rw [u16At_eq (by omega), hu, leNat_leBytes (by omega)]
  have howner : u32At page 8 = .ok owner := by rw [u32At_eq (by omega), h.ownerField, ofNat_leNat_leBytes]
  obtain ⟨flag, hflag, hflag'⟩ := index_eq page (show 16 < 8192 by omega)
  rw [h.flag] at hflag'
  have hflag'' : flag = if next.isSome then 1 else 0 := (cons.inj hflag').1.symm
  have hnext : nextAt page flag = .ok next := by
    rw [nextAt_eq, h.nextField, hflag'']
    cases next with
    | none => rfl
    | some id =>
      show Except.ok (some _) = _
      rw [Option.getD_some, ofNat_leNat_leBytes]
  have hdirectory : validateSlots page flag = .ok (h.view.header, used rows) := by
    unfold validateSlots
    rw [hslots, hupper]
    show (if 24 + rows.length * 4 > 8192 - used rows ∨ 8192 - used rows > 8192 then _ else _) = _
    rw [if_neg (by omega)]
    show ((List.range rows.length).foldlM (HeapPage.checkSlot page (8192 - used rows))
      (List.replicate 8192 false, 0) >>= fun state => u32At page 8 >>= fun owner =>
        nextAt page flag >>= fun next => pure ((⟨owner, next, rows.length⟩ : Header), state.2)) = _
    rw [h.checkSlots rows.length (Nat.le_refl _), howner, hnext, take_length]
    rfl
  unfold HeapPage.validate
  rw [Result.slice_of_le (size_le (by omega)), h.magic, hflag, Result.slice_of_le (size_le (by omega)), h.reserved]
  have hok : ¬ (flag > 1 ∨ ([0, 0, 0] : Bytes) ≠ [0, 0, 0]) := by
    rw [hflag'']
    cases next <;> simp
  simp only [Result.ok_bind]
  rw [if_neg (by simp), if_neg hok, hdirectory]

/-- **A packed page shows its rows.** -/
theorem Packed.shows (h : Packed page owner next rows.length rows)
    (hu : slice page.bytes 22 2 = leBytes 2 (8192 - used rows)) : Shows page h.view := by
  have hfits := h.fits
  have hslot : ∀ (i : Nat) (row : Option Bytes), rows[i]? = some row →
      slotLen page i = rowLen row ∧ rowAt page i = .ok row := by
    intro i row hi
    have hlt := lt_of_get hi
    have hold := h.row i row hi
    unfold rowAt
    rw [slot_eq (show 24 + (i + 1) * 4 ≤ 8192 by omega)]
    cases row with
    | none =>
      refine ⟨hold.deleted.2, ?_⟩
      show (if slotLen page i ≠ 0 then _ else _) = _
      rw [hold.deleted.2]
      rfl
    | some tuple =>
      have hr := h.range hi
      obtain ⟨ho, hl⟩ := hold.stored (by omega)
      refine ⟨hl, ?_⟩
      have hne : tuple.length ≠ 0 := by
        intro hz
        exact h.filled tuple (mem_of_getElem? hi) (length_eq_zero_iff.1 hz)
      show (if slotLen page i ≠ 0 then _ else _) = _
      rw [ho, hl, if_pos hne, Result.slice_of_le (size_le (by omega)), hold.2]
      rfl
  exact ⟨h.validate hu, fun i row hi => (hslot i row hi).2, fun i row hi => (hslot i row hi).1⟩

end ChiliDB.HeapPage
