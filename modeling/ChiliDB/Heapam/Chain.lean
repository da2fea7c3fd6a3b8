import ChiliDB.Heapam.PageOps
import Mathlib.Data.List.Nodup

/-!
# Chains of record pages

What a heap table stands for, without bytes, links or a pool: pages in chain order, each with its
slots.  A slot holds a record or was deleted; slots are never removed.

* `Chain.slot` — the map from CTIDs: `none` for a slot that was never issued, `some none` for a
  deleted one.
* `Chain.setRow` — one slot changed; `Inserted` — one record appended, into the last page if it has
  room there and else into a new page.
-/

namespace ChiliDB

open HeapPage List

/-- A page of a chain. -/
@[ext] structure RowPage where
  id : PageId
  rows : List (Option Bytes)
  deriving DecidableEq

/-- The live records of the first `limit` slots, with their CTIDs. -/
def RowPage.live (p : RowPage) (limit : Nat) : List (Ctid × Bytes) :=
  (liveRows p.rows limit).map fun record => (⟨p.id, record.1⟩, record.2)

abbrev Chain := List RowPage

theorem mem_live {p : RowPage} {limit : Nat} {c : Ctid} {b : Bytes} : (c, b) ∈ p.live limit ↔
    c.pageId = p.id ∧ c.slotId.get ≤ limit ∧ p.rows[c.slotId.get - 1]? = some (some b) := by
  unfold RowPage.live liveRows
  rw [mem_map]
  constructor
  · rintro ⟨⟨id, tuple⟩, hmem, he⟩
    obtain ⟨i, hi, hrow⟩ := mem_filterMap.1 hmem
    obtain ⟨hid, hrow⟩ := liveRow_eq_some.1 hrow
    have hlt := mem_range.1 hi
    cases he
    refine ⟨rfl, by show id.get ≤ limit; omega, ?_⟩
    show p.rows[id.get - 1]? = _
    rw [hid, Nat.add_sub_cancel]
    exact hrow
  · rintro ⟨hid, hle, hrow⟩
    have hpos := c.slotId.pos
    refine ⟨(c.slotId, b), mem_filterMap.2 ⟨c.slotId.get - 1, mem_range.2 (by omega), ?_⟩, ?_⟩
    · exact liveRow_eq_some.2 ⟨by omega, hrow⟩
    · exact Prod.ext (Ctid.ext hid.symm rfl) rfl

theorem live_pairwise (p : RowPage) (limit : Nat) :
    (p.live limit).Pairwise fun x y => x.1.slotId.get < y.1.slotId.get := by
  unfold RowPage.live liveRows
  rw [pairwise_map, pairwise_filterMap]
  refine pairwise_lt_range.imp ?_
  rintro i j hij ⟨id, _⟩ hx ⟨id', _⟩ hy
  obtain ⟨hid, _⟩ := liveRow_eq_some.1 hx
  obtain ⟨hid', _⟩ := liveRow_eq_some.1 hy
  show id.get < id'.get
  omega

theorem length_live_le (p : RowPage) (limit : Nat) : (p.live limit).length ≤ limit := by
  unfold RowPage.live liveRows
  rw [length_map]
  exact Nat.le_trans (length_filterMap_le _ _) (Nat.le_of_eq length_range)

namespace Chain

variable {chain : Chain} {p : RowPage} {c c' : Ctid} {i : Nat} {row : Option Bytes}

def ids (chain : Chain) : List PageId := chain.map RowPage.id

/-- The slot a CTID names. -/
def slot (chain : Chain) (c : Ctid) : Option (Option Bytes) :=
  (chain.find? fun p => p.id = c.pageId).bind fun p => p.rows[c.slotId.get - 1]?

/-- The slots of a page. -/
def rowsOf (chain : Chain) (id : PageId) : List (Option Bytes) :=
  ((chain.find? fun p => p.id = id).map RowPage.rows).getD []

/-- Change the slot a CTID names. -/
def setRow (chain : Chain) (c : Ctid) (row : Option Bytes) : Chain :=
  chain.map fun p => if p.id = c.pageId then ⟨p.id, p.rows.set (c.slotId.get - 1) row⟩ else p

theorem mem_ids (hi : chain[i]? = some p) : p.id ∈ chain.ids :=
  mem_map_of_mem (mem_of_getElem? hi)

theorem exists_of_mem_ids {id : PageId} (h : id ∈ chain.ids) :
    ∃ (i : Nat) (p : RowPage), chain[i]? = some p ∧ p.id = id := by
  obtain ⟨p, hp, rfl⟩ := mem_map.1 h
  obtain ⟨i, hi⟩ := mem_iff_getElem?.1 hp
  exact ⟨i, p, hi, rfl⟩

theorem ids_getElem? (chain : Chain) (i : Nat) : chain.ids[i]? = chain[i]?.map RowPage.id :=
  getElem?_map

/-- Page ids are pairwise distinct, so a page is where its id is. -/
theorem index_unique (hn : chain.ids.Nodup) {j : Nat} {q : RowPage} (hi : chain[i]? = some p)
    (hj : chain[j]? = some q) (hid : p.id = q.id) : i = j := by
  have hi' : chain.ids[i]? = some p.id := by rw [ids_getElem?, hi]; rfl
  have hj' : chain.ids[j]? = some p.id := by rw [ids_getElem?, hj, hid]; rfl
  have hlt := (List.getElem?_eq_some_iff.1 hi').1
  exact (getElem?_inj hlt hn).1 (hi'.trans hj'.symm)

theorem find_eq (hn : chain.ids.Nodup) (hi : chain[i]? = some p) {id : PageId} (hid : p.id = id) :
    chain.find? (fun q => q.id = id) = some p := by
  cases hf : chain.find? (fun q => q.id = id) with
  | none =>
    have := find?_eq_none.1 hf p (mem_of_getElem? hi)
    simp [hid] at this
  | some q =>
    have hq : q.id = id := by simpa using find?_some hf
    obtain ⟨j, hj⟩ := mem_iff_getElem?.1 (mem_of_find?_eq_some hf)
    have hij := index_unique hn hi hj (hid.trans hq.symm)
    subst hij
    exact hj.symm.trans hi

theorem slot_eq (hn : chain.ids.Nodup) (hi : chain[i]? = some p) (hid : p.id = c.pageId) :
    chain.slot c = p.rows[c.slotId.get - 1]? := by
  unfold slot
  rw [find_eq hn hi hid]
  rfl

theorem rowsOf_eq (hn : chain.ids.Nodup) (hi : chain[i]? = some p) : chain.rowsOf p.id = p.rows := by
  unfold rowsOf
  rw [find_eq hn hi rfl]
  rfl

theorem slot_eq_rowsOf (chain : Chain) (c : Ctid) : chain.slot c = (chain.rowsOf c.pageId)[c.slotId.get - 1]? := by
  unfold slot rowsOf
  cases chain.find? (fun p => p.id = c.pageId) <;> rfl

theorem slot_eq_none (h : c.pageId ∉ chain.ids) : chain.slot c = none := by
  have hf : chain.find? (fun p => p.id = c.pageId) = none := by
    refine find?_eq_none.2 fun p hp => ?_
    have : p.id ≠ c.pageId := fun he => h (he ▸ mem_map_of_mem hp)
    simpa using this
  unfold slot
  rw [hf]
  rfl

theorem mem_of_live (h : (chain.slot c).join ≠ none) : c.pageId ∈ chain.ids := by
  by_contra hm
  rw [slot_eq_none hm] at h
  exact h rfl

theorem ids_set (hi : chain[i]? = some p) {q : RowPage} (hid : q.id = p.id) :
    Chain.ids (chain.set i q) = chain.ids := by
  have hlt := (List.getElem?_eq_some_iff.1 hi).1
  apply ext_getElem?
  intro j
  rw [ids_getElem?, ids_getElem?]
  by_cases hij : i = j
  · subst hij
    rw [getElem?_set_self hlt, hi, Option.map_some, Option.map_some, hid]
  · rw [getElem?_set_ne hij]

theorem set_self (hi : chain[i]? = some p) : chain.set i p = chain := by
  obtain ⟨hlt, rfl⟩ := List.getElem?_eq_some_iff.1 hi
  exact set_getElem_self hlt

/-! ## One slot changed -/

theorem ids_setRow (chain : Chain) (c : Ctid) (row : Option Bytes) : (chain.setRow c row).ids = chain.ids := by
  unfold setRow ids
  rw [map_map]
  refine map_congr_left fun p _ => ?_
  show RowPage.id (if p.id = c.pageId then _ else _) = _
  split <;> rfl

theorem getElem?_setRow (chain : Chain) (c : Ctid) (row : Option Bytes) (i : Nat) :
    (chain.setRow c row)[i]? = chain[i]?.map fun p =>
      if p.id = c.pageId then ⟨p.id, p.rows.set (c.slotId.get - 1) row⟩ else p :=
  getElem?_map

/-- On a chain with distinct pages, changing a slot changes the page at one index. -/
theorem setRow_eq_set (hn : chain.ids.Nodup) (hi : chain[i]? = some p) (hid : p.id = c.pageId) :
    chain.setRow c row = chain.set i ⟨p.id, p.rows.set (c.slotId.get - 1) row⟩ := by
  have hlt := (List.getElem?_eq_some_iff.1 hi).1
  apply ext_getElem?
  intro j
  rw [getElem?_setRow]
  by_cases hij : i = j
  · subst hij
    rw [getElem?_set_self hlt, hi, Option.map_some, if_pos hid]
  · rw [getElem?_set_ne hij]
    cases hj : chain[j]? with
    | none => rfl
    | some q =>
      rw [Option.map_some, if_neg]
      exact fun he => hij (index_unique hn hi hj (hid.trans he.symm))

theorem find_map {f : RowPage → RowPage} (hf : ∀ p, (f p).id = p.id) (chain : Chain) (id : PageId) :
    (chain.map f).find? (fun p => p.id = id) = (chain.find? fun p => p.id = id).map f := by
  rw [find?_map]
  congr 2
  funext p
  show decide ((f p).id = id) = _
  rw [hf]

theorem slot_setRow (chain : Chain) (c : Ctid) (row : Option Bytes) (c' : Ctid) :
    (chain.setRow c row).slot c' = if c' = c ∧ (chain.slot c).isSome then some row else chain.slot c' := by
  have hpos := c.slotId.pos
  have hpos' := c'.slotId.pos
  unfold slot setRow
  rw [find_map (fun p => by split <;> rfl)]
  by_cases hp : c'.pageId = c.pageId
  · rw [hp]
    cases hf : chain.find? (fun p => p.id = c.pageId) with
    | none => simp
    | some q =>
      have hq : q.id = c.pageId := by simpa using find?_some hf
      simp only [Option.map_some, Option.bind_some, if_pos hq]
      rw [getElem?_set]
      by_cases hs : c'.slotId = c.slotId
      · have hcc : c' = c := Ctid.ext hp hs
        subst hcc
        simp only [true_and, if_true]
        by_cases hlt : c'.slotId.get - 1 < q.rows.length
        · rw [if_pos hlt, if_pos (by rw [getElem?_eq_getElem hlt]; rfl)]
        · rw [if_neg hlt, if_neg (by rw [getElem?_eq_none (by omega)]; simp), getElem?_eq_none (by omega)]
      · have hne : ¬ c.slotId.get - 1 = c'.slotId.get - 1 := fun he =>
          hs (SlotId.ext (by omega))
        rw [if_neg hne, if_neg (fun h => hs (by rw [h.1]))]
  · rw [if_neg (fun h => hp (by rw [h.1]))]
    cases hf : chain.find? (fun p => p.id = c'.pageId) with
    | none => rfl
    | some q =>
      have hq : q.id = c'.pageId := by simpa using find?_some hf
      simp only [Option.map_some, Option.bind_some]
      rw [if_neg (by rw [hq]; exact hp)]

/-! ## One record appended -/

/-- A page has room for one more slot and its record. -/
def HasRoom (rows : List (Option Bytes)) (b : Bytes) : Prop :=
  24 + (rows.length + 1) * 4 + used rows + b.length ≤ 8192

instance (rows : List (Option Bytes)) (b : Bytes) : Decidable (HasRoom rows b) :=
  inferInstanceAs (Decidable (_ ≤ _))

/-- A page has room for a record in the place of an old one. -/
def CanReplace (rows : List (Option Bytes)) (old b : Bytes) : Prop :=
  24 + rows.length * 4 + used rows + b.length ≤ 8192 + old.length

instance (rows : List (Option Bytes)) (old b : Bytes) : Decidable (CanReplace rows old b) :=
  inferInstanceAs (Decidable (_ ≤ _))

/-- A new record gets the next slot of the last page, or the first one of a new page. -/
inductive Inserted (chain : Chain) (b : Bytes) : Ctid → Chain → Prop where
  | tail {front : Chain} {p : RowPage} {c : Ctid} : chain = front ++ [p] → HasRoom p.rows b →
      c.pageId = p.id → c.slotId.get = p.rows.length + 1 →
      Inserted chain b c (front ++ [⟨p.id, p.rows ++ [some b]⟩])
  | page {front : Chain} {p : RowPage} {c : Ctid} : chain = front ++ [p] → ¬ HasRoom p.rows b →
      c.pageId ∉ chain.ids → c.slotId.get = 1 →
      Inserted chain b c (chain ++ [⟨c.pageId, [some b]⟩])

namespace Inserted

variable {b : Bytes} {chain' : Chain}

theorem ids_eq (h : Inserted chain b c chain') :
    (chain'.ids = chain.ids ∧ c.pageId ∈ chain.ids) ∨
      (chain'.ids = chain.ids ++ [c.pageId] ∧ c.pageId ∉ chain.ids) := by
  cases h with
  | tail hchain _ hid _ =>
    subst hchain
    left
    simp [ids, hid]
  | page _ _ hfresh _ =>
    right
    exact ⟨by simp [ids], hfresh⟩

theorem nodup (h : Inserted chain b c chain') (hn : chain.ids.Nodup) : chain'.ids.Nodup := by
  rcases h.ids_eq with ⟨he, _⟩ | ⟨he, hfresh⟩
  · rw [he]; exact hn
  · rw [he, nodup_append]
    refine ⟨hn, nodup_singleton _, fun x hx y hy => ?_⟩
    rw [mem_singleton.1 hy]
    exact fun hxy => hfresh (hxy ▸ hx)

/-- The page of a changed chain at each index. -/
theorem getElem?_eq (h : Inserted chain b c chain') :
    ∃ (i : Nat) (rows : List (Option Bytes)), chain'[i]? = some ⟨c.pageId, rows ++ [some b]⟩ ∧
      c.slotId.get = rows.length + 1 ∧
      (chain[i]? = some ⟨c.pageId, rows⟩ ∨ chain[i]? = none ∧ rows = [] ∧ c.pageId ∉ chain.ids) ∧
      ∀ j, j ≠ i → chain'[j]? = chain[j]? := by
  cases h with
  | @tail front p c hchain _ hid hslot =>
    subst hchain
    refine ⟨front.length, p.rows, by rw [getElem?_concat_length, hid], hslot,
      .inl (by rw [getElem?_concat_length, hid]), fun j hj => ?_⟩
    rcases Nat.lt_or_ge j front.length with hlt | hge
    · rw [getElem?_append_left hlt, getElem?_append_left hlt]
    · rw [getElem?_eq_none (by simp; omega), getElem?_eq_none (by simp; omega)]
  | @page front p c hchain _ hfresh hslot =>
    refine ⟨chain.length, [], getElem?_concat_length .., hslot,
      .inr ⟨getElem?_eq_none (Nat.le_refl _), rfl, hfresh⟩, fun j hj => ?_⟩
    rcases Nat.lt_or_ge j chain.length with hlt | hge
    · rw [getElem?_append_left hlt]
    · rw [getElem?_eq_none (by simp; omega), getElem?_eq_none hge]

/-- **An insertion issues a CTID that was never issued, and changes nothing else.** -/
theorem slot_eq (h : Inserted chain b c chain') (hn : chain.ids.Nodup) :
    chain.slot c = none ∧ chain'.slot = Function.update chain.slot c (some (some b)) := by
  have hn' := h.nodup hn
  obtain ⟨i, rows, hi', hslot, hold, hother⟩ := h.getElem?_eq
  -- the old page, if there is one, ends right before the new slot
  have hbefore : ∀ c' : Ctid, c'.pageId = c.pageId → chain.slot c' = rows[c'.slotId.get - 1]? := by
    intro c' hp
    rcases hold with hi | ⟨_, rfl, hfresh⟩
    · exact Chain.slot_eq hn hi hp.symm
    · rw [Chain.slot_eq_none (hp ▸ hfresh)]; rfl
  refine ⟨by rw [hbefore c rfl, getElem?_eq_none (by omega)], funext fun c' => ?_⟩
  by_cases hp : c'.pageId = c.pageId
  · rw [Chain.slot_eq hn' hi' hp.symm]
    by_cases hs : c'.slotId = c.slotId
    · have hcc : c' = c := Ctid.ext hp hs
      subst hcc
      rw [Function.update_self, hslot, Nat.add_sub_cancel, getElem?_concat_length]
    · have hpos := c'.slotId.pos
      have hne : c'.slotId.get - 1 ≠ rows.length := fun he => hs (SlotId.ext (by omega))
      rw [Function.update_of_ne (fun he => hs (by rw [he])), hbefore c' hp]
      rcases Nat.lt_or_ge (c'.slotId.get - 1) rows.length with hlt | hge
      · rw [getElem?_append_left hlt]
      · rw [getElem?_eq_none (by simp; omega), getElem?_eq_none hge]
  · rw [Function.update_of_ne (fun he => hp (by rw [he]))]
    by_cases hm : c'.pageId ∈ chain.ids
    · obtain ⟨j, q, hj, hq⟩ := exists_of_mem_ids hm
      have hji : j ≠ i := by
        rintro rfl
        rcases hold with hi | ⟨hi, _⟩
        · rw [hj] at hi
          cases hi
          exact hp hq.symm
        · rw [hj] at hi; cases hi
      rw [Chain.slot_eq hn hj hq, Chain.slot_eq hn' ((hother j hji).trans hj) hq]
    · rw [Chain.slot_eq_none hm, Chain.slot_eq_none]
      rcases h.ids_eq with ⟨he, _⟩ | ⟨he, _⟩
      · rw [he]; exact hm
      · rw [he]
        simp [hm, hp]

end Inserted

/-! ## Growth -/

/-- Pages keep their place and their slots, and a deleted slot stays deleted. -/
def Grows (chain chain' : Chain) : Prop :=
  ∀ (i : Nat) (p : RowPage), chain[i]? = some p → ∃ p' : RowPage, chain'[i]? = some p' ∧
    p'.id = p.id ∧ p.rows.length ≤ p'.rows.length ∧
    ∀ k : Nat, p.rows[k]? = some none → p'.rows[k]? = some none

theorem Grows.refl (chain : Chain) : Grows chain chain :=
  fun _ p hi => ⟨p, hi, rfl, Nat.le_refl _, fun _ hk => hk⟩

theorem Inserted.grows {b : Bytes} {chain' : Chain} (h : Inserted chain b c chain') : Grows chain chain' := by
  obtain ⟨i, rows, hi', hslot, hold, hother⟩ := h.getElem?_eq
  intro j p hj
  by_cases hji : j = i
  · subst hji
    rcases hold with hi | ⟨hi, _⟩
    · rw [hj] at hi
      cases hi
      refine ⟨_, hi', rfl, by simp, fun k hk => ?_⟩
      rw [getElem?_append_left (List.getElem?_eq_some_iff.1 hk).1]
      exact hk
    · rw [hj] at hi
      cases hi
  · exact ⟨p, (hother j hji).trans hj, rfl, Nat.le_refl _, fun _ hk => hk⟩

/-- A live slot is deleted or replaced. -/
theorem setRow_grows (hn : chain.ids.Nodup) (hlive : (chain.slot c).join ≠ none)
    (row : Option Bytes) : Grows chain (chain.setRow c row) := by
  intro i p hi
  by_cases hid : p.id = c.pageId
  · rw [slot_eq hn hi hid] at hlive
    refine ⟨⟨p.id, p.rows.set (c.slotId.get - 1) row⟩,
      by rw [getElem?_setRow, hi, Option.map_some, if_pos hid], rfl, by simp, fun k hk => ?_⟩
    rw [getElem?_set_ne]
    · exact hk
    · rintro rfl
      rw [hk] at hlive
      exact hlive rfl
  · exact ⟨p, by rw [getElem?_setRow, hi, Option.map_some, if_neg hid], rfl, Nat.le_refl _, fun _ hk => hk⟩

end Chain

end ChiliDB
