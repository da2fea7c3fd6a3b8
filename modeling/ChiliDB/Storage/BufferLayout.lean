import ChiliDB.Storage.Buffer
import Mathlib.Data.List.Perm.Basic

/-!
# Frames, page map and pins

The structural invariant of a pool, over its frames, its page map and the pins its clients own.

* `Layout frames pages pins` — assigned frames are the dense prefix, page map and tags are inverse
  to each other, unassigned frames are unpinned and clean, every count is the number of live pins.
* `Layout.touch`, `Layout.pinned`, `Layout.unpinned`, `Layout.install` — the changes the pool makes.
-/

namespace ChiliDB

open List

/-- The page map: page to frame index. -/
abbrev PageMap := AList (fun _ : PageId => Nat)

/-- A frame after one frame was replaced is the new one or an old one elsewhere. -/
theorem frame_of_set {frames : List Frame} {i j : Nat} {frame' g : Frame}
    (h : (frames.set i frame')[j]? = some g) :
    (j = i ∧ g = frame') ∨ (j ≠ i ∧ frames[j]? = some g) := by
  rw [getElem?_set] at h
  split at h
  · rename_i hij
    split at h
    · exact .inl ⟨hij.symm, (Option.some.inj h).symm⟩
    · cases h
  · rename_i hij
    exact .inr ⟨fun he => hij he.symm, h⟩

/-- The live pins of frame `i`. -/
def pinsOn (i : Nat) (pins : List PinnedBuffer) : Nat :=
  pins.countP fun pin => pin.index.get.toNat == i

theorem pinsOn_cons (i : Nat) (pin : PinnedBuffer) (pins : List PinnedBuffer) :
    pinsOn i (pin :: pins) = pinsOn i pins + if pin.index.get.toNat = i then 1 else 0 := by
  simp [pinsOn, countP_cons]

theorem pinsOn_pos {i : Nat} {pins : List PinnedBuffer} {pin : PinnedBuffer} (h : pin ∈ pins)
    (hi : pin.index.get.toNat = i) : 0 < pinsOn i pins :=
  countP_pos_iff.2 ⟨pin, h, by simpa using hi⟩

theorem pinsOn_eraseIdx {pins : List PinnedBuffer} {k : Nat} {pin : PinnedBuffer}
    (h : pins[k]? = some pin) (i : Nat) :
    pinsOn i pins = pinsOn i (pins.eraseIdx k) + if pin.index.get.toNat = i then 1 else 0 := by
  rw [← pinsOn_cons]
  obtain ⟨hk, rfl⟩ := List.getElem?_eq_some_iff.1 h
  exact ((getElem_cons_eraseIdx_perm hk).countP_eq _).symm

structure Layout (frames : List Frame) (pages : PageMap) (pins : List PinnedBuffer) : Prop where
  capacity : 0 < frames.length ∧ frames.length ≤ 2 ^ 32
  size : pages.keys.length ≤ frames.length
  /-- The assigned frames are exactly the dense prefix. -/
  assigned : ∀ (i : Nat) (frame : Frame), frames[i]? = some frame →
    (frame.tag.isSome = true ↔ i < pages.keys.length)
  mapped : ∀ (page : PageId) (i : Nat), pages.lookup page = some i ↔
    ∃ frame, frames[i]? = some frame ∧ frame.tag = some page
  unused : ∀ (i : Nat) (frame : Frame), frames[i]? = some frame → frame.tag = none →
    frame.pins = 0 ∧ frame.dirty = false
  counted : ∀ (i : Nat) (frame : Frame), frames[i]? = some frame → frame.pins = pinsOn i pins
  bounded : ∀ (i : Nat) (frame : Frame), frames[i]? = some frame → frame.pins < 2 ^ 32
  live : ∀ pin ∈ pins, ∃ frame, frames[pin.index.get.toNat]? = some frame ∧ frame.tag = some pin.page

/-! ## The page map after a replacement -/

/-- The map `install` leaves: the frame's old page is forgotten, the new one is mapped to it. -/
def reassigned (pages : PageMap) (old : Option PageId) (page : PageId) (i : Nat) : PageMap :=
  match old with
  | some old => (pages.erase old).insert page i
  | none => pages.insert page i

theorem lookup_reassigned_self (pages : PageMap) (old : Option PageId) (page : PageId) (i : Nat) :
    (reassigned pages old page i).lookup page = some i := by
  unfold reassigned
  split <;> exact AList.lookup_insert _

theorem lookup_reassigned_ne (pages : PageMap) {old : Option PageId} {page q : PageId} (i : Nat)
    (hq : q ≠ page) (ho : old ≠ some q) :
    (reassigned pages old page i).lookup q = pages.lookup q := by
  unfold reassigned
  split
  · rename_i o
    rw [AList.lookup_insert_ne hq, AList.lookup_erase_ne (fun he => ho (by rw [he]))]
  · rw [AList.lookup_insert_ne hq]

theorem lookup_reassigned_old (pages : PageMap) {old page : PageId} (i : Nat) (h : old ≠ page) :
    (reassigned pages (some old) page i).lookup old = none := by
  show ((pages.erase old).insert page i).lookup old = none
  rw [AList.lookup_insert_ne h, AList.lookup_erase]

/-- A replacement keeps the number of mapped pages, a first assignment adds one. -/
theorem length_keys_reassigned (pages : PageMap) {old : Option PageId} {page : PageId} (i : Nat)
    (hnew : pages.lookup page = none) (hold : ∀ o, old = some o → o ∈ pages) :
    (reassigned pages old page i).keys.length = pages.keys.length + if old.isSome then 0 else 1 := by
  have hnot : page ∉ pages.keys := fun h => AList.lookup_eq_none.1 hnew (AList.mem_keys.2 h)
  cases old with
  | none =>
    show (pages.insert page i).keys.length = _
    rw [AList.keys_insert, erase_of_not_mem hnot]
    rfl
  | some o =>
    have ho : o ∈ pages.keys := AList.mem_keys.1 (hold o rfl)
    have hpos := length_pos_of_mem ho
    show ((pages.erase o).insert page i).keys.length = _
    rw [AList.keys_insert, AList.keys_erase,
      erase_of_not_mem (fun h => hnot (mem_of_mem_erase h)), length_cons,
      length_erase_of_mem ho]
    show pages.keys.length - 1 + 1 = pages.keys.length + 0
    omega

namespace Layout

variable {frames : List Frame} {pages : PageMap} {pins pins' : List PinnedBuffer} {i : Nat}
  {frame frame' : Frame} {page : PageId}

theorem start {capacity : Nat} (h0 : 0 < capacity) (h : capacity ≤ 2 ^ 32) :
    Layout (replicate capacity Frame.unused) ∅ [] := by
  have hget : ∀ (i : Nat) (frame : Frame),
      (replicate capacity Frame.unused)[i]? = some frame → frame = Frame.unused := by
    intro i frame hi
    exact eq_of_mem_replicate (mem_of_getElem? hi)
  refine ⟨by simp only [length_replicate]; omega, by simp, ?_, ?_, ?_, ?_, ?_, ?_⟩
  · intro i frame hi
    rw [hget i frame hi]
    simp [Frame.unused]
  · intro page i
    rw [AList.lookup_empty]
    refine ⟨fun h => (by cases h), ?_⟩
    rintro ⟨frame, hi, htag⟩
    rw [hget i frame hi] at htag
    cases htag
  · intro i frame hi _
    rw [hget i frame hi]
    exact ⟨rfl, rfl⟩
  · intro i frame hi
    rw [hget i frame hi]
    rfl
  · intro i frame hi
    rw [hget i frame hi]
    show 0 < 2 ^ 32
    omega
  · intro pin hpin
    cases hpin

section

variable (h : Layout frames pages pins)

include h

theorem lt_capacity (hi : frames[i]? = some frame) : i < 2 ^ 32 := by
  have := (List.getElem?_eq_some_iff.1 hi).1
  have := h.capacity.2
  omega

/-- `index as u32` does not truncate. -/
theorem bufferId_toNat (hi : frames[i]? = some frame) : (BufferPool.bufferId i).get.toNat = i :=
  UInt32.toNat_ofNat_of_lt' (h.lt_capacity hi)

theorem tag_injective {j : Nat} (hi : frames[i]? = some frame)
    (hj : frames[j]? = some frame') (ht : frame.tag = some page) (ht' : frame'.tag = some page) :
    i = j := by
  have h1 := (h.mapped page i).2 ⟨frame, hi, ht⟩
  have h2 := (h.mapped page j).2 ⟨frame', hj, ht'⟩
  rw [h1] at h2
  exact Option.some.inj h2

theorem lookup_eq_none (hp : pages.lookup page = none) (hi : frames[i]? = some frame) : frame.tag ≠ some page := by
  intro ht
  rw [(h.mapped page i).2 ⟨frame, hi, ht⟩] at hp
  cases hp

theorem live_of_pins (hi : frames[i]? = some frame)
    (hp : frame.pins = 0) : ∀ pin ∈ pins, pin.index.get.toNat ≠ i := by
  intro pin hpin he
  have hpos := pinsOn_pos hpin he
  have := h.counted i frame hi
  omega

/-- One frame keeps its tag, and its count follows the pins. -/
theorem set (hi : frames[i]? = some frame)
    (ht : frame'.tag = frame.tag)
    (hunused : frame.tag = none → frame'.pins = 0 ∧ frame'.dirty = false)
    (hcount : frame'.pins = pinsOn i pins') (hbound : frame'.pins < 2 ^ 32)
    (hothers : ∀ j, j ≠ i → pinsOn j pins' = pinsOn j pins)
    (hlive : ∀ pin ∈ pins', pin ∈ pins ∨ pin.index.get.toNat = i ∧ frame.tag = some pin.page) :
    Layout (frames.set i frame') pages pins' := by
  have hlt : i < frames.length := (List.getElem?_eq_some_iff.1 hi).1
  have hself : (frames.set i frame')[i]? = some frame' := getElem?_set_self hlt
  have hne : ∀ j, j ≠ i → (frames.set i frame')[j]? = frames[j]? :=
    fun j hj => getElem?_set_ne (fun he => hj he.symm)
  refine ⟨by rw [length_set]; exact h.capacity, by rw [length_set]; exact h.size, ?_, ?_, ?_, ?_, ?_, ?_⟩
  · intro j g hg
    rcases frame_of_set hg with ⟨rfl, rfl⟩ | ⟨_, hg⟩
    · rw [ht]; exact h.assigned _ _ hi
    · exact h.assigned j g hg
  · intro page j
    rw [h.mapped page j]
    by_cases hj : j = i
    · subst hj
      rw [hi, hself]
      simp [ht]
    · rw [hne j hj]
  · intro j g hg hnone
    rcases frame_of_set hg with ⟨rfl, rfl⟩ | ⟨_, hg⟩
    · exact hunused (ht ▸ hnone)
    · exact h.unused j g hg hnone
  · intro j g hg
    rcases frame_of_set hg with ⟨rfl, rfl⟩ | ⟨hj, hg⟩
    · exact hcount
    · rw [hothers j hj]; exact h.counted j g hg
  · intro j g hg
    rcases frame_of_set hg with ⟨rfl, rfl⟩ | ⟨_, hg⟩
    · exact hbound
    · exact h.bounded j g hg
  · intro pin hpin
    have hold : ∃ g, frames[pin.index.get.toNat]? = some g ∧ g.tag = some pin.page := by
      rcases hlive pin hpin with hold | ⟨he, htag⟩
      · exact h.live pin hold
      · exact ⟨frame, by rw [he]; exact hi, htag⟩
    obtain ⟨g, hg, htag⟩ := hold
    by_cases hj : pin.index.get.toNat = i
    · rw [hj] at hg ⊢
      rw [hi] at hg
      cases hg
      exact ⟨frame', hself, by rw [ht]; exact htag⟩
    · exact ⟨g, by rw [hne _ hj]; exact hg, htag⟩

/-- Bytes, dirty bit and poison of an assigned frame are free. -/
theorem touch (hi : frames[i]? = some frame)
    (ht : frame'.tag = frame.tag) (hp : frame'.pins = frame.pins)
    (hunused : frame.tag = none → frame'.dirty = false) : Layout (frames.set i frame') pages pins := by
  refine h.set hi ht (fun hn => ⟨?_, hunused hn⟩) ?_ ?_ (fun _ _ => rfl) (fun pin hpin => .inl hpin)
  · rw [hp]; exact (h.unused i frame hi hn).1
  · rw [hp]; exact h.counted i frame hi
  · rw [hp]; exact h.bounded i frame hi

/-- A new pin of a resident page. -/
theorem pinned (hi : frames[i]? = some frame)
    (ht : frame.tag = some page) (hb : frame.pins + 1 < 2 ^ 32) :
    Layout (frames.set i { frame with pins := frame.pins + 1 }) pages (⟨BufferPool.bufferId i, page⟩ :: pins) := by
  have hid := h.bufferId_toNat hi
  refine h.set hi rfl (fun hn => ?_) ?_ hb ?_ ?_
  · rw [ht] at hn; cases hn
  · rw [pinsOn_cons, if_pos hid, h.counted i frame hi]
  · intro j hj
    rw [pinsOn_cons, if_neg (by rw [hid]; exact fun he => hj he.symm), Nat.add_zero]
  · intro pin hpin
    rcases mem_cons.1 hpin with rfl | hpin
    · exact .inr ⟨hid, ht⟩
    · exact .inl hpin

/-- A live pin goes away. -/
theorem unpinned {k : Nat} {pin : PinnedBuffer}
    (hk : pins[k]? = some pin) (hi : frames[pin.index.get.toNat]? = some frame) :
    0 < frame.pins ∧
      Layout (frames.set pin.index.get.toNat { frame with pins := frame.pins - 1 }) pages (pins.eraseIdx k) := by
  have hcount := h.counted _ frame hi
  have herase := pinsOn_eraseIdx hk pin.index.get.toNat
  rw [if_pos rfl] at herase
  refine ⟨by omega, h.set hi rfl (fun hn => ?_) ?_ ?_ ?_ ?_⟩
  · have := h.unused _ frame hi hn
    exact ⟨by show frame.pins - 1 = 0; omega, this.2⟩
  · show frame.pins - 1 = _
    omega
  · have := h.bounded _ frame hi
    show frame.pins - 1 < _
    omega
  · intro j hj
    have := pinsOn_eraseIdx hk j
    rw [if_neg (fun he => hj he.symm)] at this
    omega
  · exact fun p hp => .inl (mem_of_mem_eraseIdx hp)

/-- An unpinned frame, if unassigned the next one of the prefix, is given another page. -/
theorem install (hi : frames[i]? = some frame)
    (hp : frame.pins = 0) (hnext : frame.tag = none → i = pages.keys.length)
    (hnew : pages.lookup page = none) (ht : frame'.tag = some page) (hp' : frame'.pins = 0) :
    Layout (frames.set i frame') (reassigned pages frame.tag page i) pins := by
  have hlt : i < frames.length := (List.getElem?_eq_some_iff.1 hi).1
  have hself : (frames.set i frame')[i]? = some frame' := getElem?_set_self hlt
  have hne : ∀ j, j ≠ i → (frames.set i frame')[j]? = frames[j]? :=
    fun j hj => getElem?_set_ne (fun he => hj he.symm)
  have hlength := length_keys_reassigned pages i hnew (fun o ho =>
    AList.lookup_isSome.1 (by rw [(h.mapped o i).2 ⟨frame, hi, ho⟩]; rfl))
  have hassigned := h.assigned i frame hi
  refine ⟨by rw [length_set]; exact h.capacity, ?_, ?_, ?_, ?_, ?_, ?_, ?_⟩
  · rw [length_set, hlength]
    have := h.size
    split
    · omega
    · rename_i hn
      have := hnext (by simpa using hn)
      omega
  · intro j g hg
    by_cases hj : j = i
    · subst hj
      rw [hself] at hg
      cases hg
      rw [ht, hlength]
      refine ⟨fun _ => ?_, fun _ => rfl⟩
      split
      · rename_i hs
        have := hassigned.1 hs
        omega
      · rename_i hn
        have := hnext (by simpa using hn)
        omega
    · rw [hne j hj] at hg
      rw [h.assigned j g hg, hlength]
      split
      · omega
      · rename_i hn
        have := hnext (by simpa using hn)
        omega
  · intro q j
    by_cases hq : q = page
    · subst hq
      rw [lookup_reassigned_self]
      refine ⟨fun he => ⟨frame', ?_, ht⟩, ?_⟩
      · rw [← Option.some.inj he]; exact hself
      · rintro ⟨g, hg, htag⟩
        by_cases hj : j = i
        · rw [hj]
        · rw [hne j hj] at hg
          exact absurd htag (h.lookup_eq_none hnew hg)
    · by_cases ho : frame.tag = some q
      · rw [ho, lookup_reassigned_old pages i hq]
        refine ⟨fun he => (by cases he), ?_⟩
        rintro ⟨g, hg, htag⟩
        by_cases hj : j = i
        · subst hj
          rw [hself] at hg
          cases hg
          rw [ht] at htag
          exact absurd (Option.some.inj htag).symm hq
        · rw [hne j hj] at hg
          exact absurd (h.tag_injective hg hi htag ho) hj
      · rw [lookup_reassigned_ne pages i hq ho, h.mapped q j]
        by_cases hj : j = i
        · subst hj
          rw [hi, hself]
          refine ⟨?_, ?_⟩
          · rintro ⟨g, hg, htag⟩
            cases hg
            exact absurd htag ho
          · rintro ⟨g, hg, htag⟩
            cases hg
            rw [ht] at htag
            exact absurd (Option.some.inj htag).symm hq
        · rw [hne j hj]
  · intro j g hg hnone
    by_cases hj : j = i
    · subst hj
      rw [hself] at hg
      cases hg
      rw [ht] at hnone
      cases hnone
    · rw [hne j hj] at hg
      exact h.unused j g hg hnone
  · intro j g hg
    by_cases hj : j = i
    · subst hj
      rw [hself] at hg
      cases hg
      rw [hp', ← hp]
      exact h.counted _ frame hi
    · rw [hne j hj] at hg
      exact h.counted j g hg
  · intro j g hg
    by_cases hj : j = i
    · subst hj
      rw [hself] at hg
      cases hg
      rw [hp']
      omega
    · rw [hne j hj] at hg
      exact h.bounded j g hg
  · intro pin hpin
    obtain ⟨g, hg, htag⟩ := h.live pin hpin
    exact ⟨g, by rw [hne _ (h.live_of_pins hi hp pin hpin)]; exact hg, htag⟩

end

end Layout

end ChiliDB
