import ChiliDB.Storage.Models.Pins
import Mathlib.Logic.Function.Basic

/-!
# Ownership of reservations

A reservation is recorded twice: the backend names its frame and the page, the frame names its target
page and the owner.

* `Owners s` — the two records are inverse to each other.
* `InRange m s` — the three tables have the model's sizes, and every page a backend asks for is in range.
* `WellDefined m s` — every action that is offered returns a state.
* `AfterEvent s` — the checker's three properties about the event of the last step.

Every move keeps both records of all reservations (`Owners.keep`), enters one in both (`Owners.take`) or
removes one from both (`Owners.drop`).

Principal result: `ownership_and_defined_steps`.
-/

namespace ChiliDB.Models

open Effect List
open Function (update update_of_ne update_self)
open Result (ok_bind)
open BufferModel (nextState initStates backendActions frameActions)
open Backend (handed pin waitsOn)

/-- The target page and the owner that a frame is reserved for. -/
def Frame.reservation : Frame → Option (Nat × Nat)
  | .reserved p o => some (p, o)
  | .flushing _ p o => some (p, o)
  | _ => none

/-- The frame that a backend has reserved, and for which page. -/
def Backend.reservation : Backend → Option (Nat × Nat)
  | .reserved f p _ => some (f, p)
  | _ => none

/-- The page that a backend is after. -/
def Backend.page : Backend → Option Nat
  | .idle => none
  | .request p _ => some p
  | .miss p _ => some p
  | .reserved _ p _ => some p
  | .waiting _ p _ => some p
  | .pinned _ p => some p
  | .reading _ p => some p
  | .writing _ p => some p

def State.reservedBy (s : State) (b : Nat) : Option (Nat × Nat) := s.backends[b]?.bind Backend.reservation

def State.reservedFor (s : State) (f : Nat) : Option (Nat × Nat) := s.frames[f]?.bind Frame.reservation

/-- What the backends record about reservations is what the frames record. -/
def Owners (s : State) : Prop :=
  ∀ b f p : Nat, s.reservedBy b = some (f, p) ↔ s.reservedFor f = some (p, b)

variable {s s' : State} {m : BufferModel}

/-! ## The two records -/

variable {α : Type} {i b f p : Nat} {x y : Backend} {r : Bool} {fr : Frame} {a : Action}

/-- Reading one attribute of a list after a `set`. -/
theorem bind_getElem?_set {β : Type} {l : List α} {x : α} (hx : l[i]? = some x) (g : α → Option β) (y : α) :
    (fun j => (l.set i y)[j]?.bind g) = update (fun j => l[j]?.bind g) i (g y) := by
  have hlt : i < l.length := lt_of_get hx
  funext j
  by_cases hj : j = i
  · subst hj
    simp [hlt]
  · simp [update_of_ne hj, getElem?_set_ne (Ne.symm hj)]

theorem reservedBy_set {o : Option (Nat × Nat)} (hb : s.backends[b]? = some x)
    (hb' : s'.backends = s.backends.set b y) (hy : y.reservation = o) :
    s'.reservedBy = update s.reservedBy b o := by
  unfold State.reservedBy
  rw [hb', ← hy]
  exact bind_getElem?_set hb _ y

theorem reservedFor_set {x y : Frame} {o : Option (Nat × Nat)} (hf : s.frames[f]? = some x)
    (hf' : s'.frames = s.frames.set f y) (hy : y.reservation = o) :
    s'.reservedFor = update s.reservedFor f o := by
  unfold State.reservedFor
  rw [hf', ← hy]
  exact bind_getElem?_set hf _ y

theorem reservedBy_keep (hb : s.backends[b]? = some x) (hb' : s'.backends = s.backends.set b y)
    (hxy : y.reservation = x.reservation) : s'.reservedBy = s.reservedBy := by
  rw [reservedBy_set hb hb' hxy, Function.update_eq_self_iff]
  unfold State.reservedBy
  rw [hb]
  rfl

theorem reservedFor_keep {x y : Frame} (hf : s.frames[f]? = some x) (hf' : s'.frames = s.frames.set f y)
    (hxy : y.reservation = x.reservation) : s'.reservedFor = s.reservedFor := by
  rw [reservedFor_set hf hf' hxy, Function.update_eq_self_iff]
  unfold State.reservedFor
  rw [hf]
  rfl

theorem reservedBy_congr (hb : s'.backends = s.backends) : s'.reservedBy = s.reservedBy := by
  unfold State.reservedBy
  rw [hb]

theorem reservedFor_congr (hf : s'.frames = s.frames) : s'.reservedFor = s.reservedFor := by
  unfold State.reservedFor
  rw [hf]

theorem reservation_handed (f : Nat) (ok : Bool) (x : Backend) : (x.handed f ok).reservation = x.reservation := by
  unfold handed
  split
  · split
    · cases ok <;> rfl
    · rfl
  · rfl

/-- The hand-off of a load concerns no reservation. -/
theorem reservedBy_handOff {ok : Bool} (hb' : s'.backends = s.backends.map (handed f ok)) :
    s'.reservedBy = s.reservedBy := by
  funext b
  unfold State.reservedBy
  rw [hb', getElem?_map]
  cases s.backends[b]? with
  | none => rfl
  | some x => exact reservation_handed f ok x

theorem Owners.keep (h : Owners s) (hby : s'.reservedBy = s.reservedBy)
    (hfor : s'.reservedFor = s.reservedFor) : Owners s' := by
  intro b f p
  rw [hby, hfor]
  exact h b f p

/-- Backend `b` and frame `f`, both without a reservation, enter one. -/
theorem Owners.take (h : Owners s) (hb : s.reservedBy b = none) (hf : s.reservedFor f = none)
    (hby : s'.reservedBy = update s.reservedBy b (some (f, p)))
    (hfor : s'.reservedFor = update s.reservedFor f (some (p, b))) : Owners s' := by
  intro c g q
  rw [hby, hfor]
  by_cases hc : c = b
  · subst hc
    by_cases hg : g = f
    · subst hg
      simp [and_comm]
    · rw [update_self, update_of_ne hg]
      constructor
      · intro he
        cases he
        exact absurd rfl hg
      · intro he
        rw [(h c g q).2 he] at hb
        cases hb
  · rw [update_of_ne hc]
    by_cases hg : g = f
    · subst hg
      rw [update_self]
      constructor
      · intro he
        rw [(h c g q).1 he] at hf
        cases hf
      · intro he
        cases he
        exact absurd rfl hc
    · rw [update_of_ne hg]
      exact h c g q

/-- The reservation of frame `f` by backend `b` ends. -/
theorem Owners.drop (h : Owners s) (hb : s.reservedBy b = some (f, p))
    (hby : s'.reservedBy = update s.reservedBy b none)
    (hfor : s'.reservedFor = update s.reservedFor f none) : Owners s' := by
  intro c g q
  rw [hby, hfor]
  by_cases hc : c = b
  · subst hc
    rw [update_self]
    by_cases hg : g = f
    · subst hg
      simp
    · rw [update_of_ne hg]
      constructor
      · intro he
        cases he
      · intro he
        rw [(h c g q).2 he] at hb
        cases hb
        exact absurd rfl hg
  · rw [update_of_ne hc]
    by_cases hg : g = f
    · subst hg
      rw [update_self]
      constructor
      · intro he
        have := (h b g p).1 hb
        rw [(h c g q).1 he] at this
        cases this
        exact absurd rfl hc
      · intro he
        cases he
    · rw [update_of_ne hg]
      exact h c g q

/-- Joining a frame reserves nothing. -/
theorem Joined.records (hj : Joined s b f p r s') :
    (∃ y, s'.backends = s.backends.set b y ∧ y.reservation = none) ∧ s'.reservedFor = s.reservedFor := by
  cases hj with
  | ready hf => exact ⟨⟨_, rfl, rfl⟩, reservedFor_keep hf rfl rfl⟩
  | loading _ | again _ _ => exact ⟨⟨_, rfl, rfl⟩, reservedFor_congr rfl⟩

theorem reservation_markDirty (fr : Frame) : fr.markDirty.reservation = fr.reservation := by cases fr <;> rfl

theorem reservation_releasePin {fr' : Frame} (h : fr.releasePin = .ok fr') : fr'.reservation = fr.reservation := by
  cases fr with
  | ready p n d =>
    obtain ⟨k, -, hk⟩ := except_bind_ok.1 h
    cases hk
    rfl
  | free | reserved p o | flushing q p o | loading p io => cases h; rfl

theorem Owners.init (hs : s ∈ m.initStates) : Owners s := by
  rw [initStates, mem_singleton] at hs
  subst hs
  intro b f p
  have hby : ∀ n i : Nat, (replicate n Backend.idle)[i]?.bind Backend.reservation = none := by
    intro n i
    rw [getElem?_replicate]
    split <;> rfl
  have hfor : ∀ n i : Nat, (replicate n Frame.free)[i]?.bind Frame.reservation = none := by
    intro n i
    rw [getElem?_replicate]
    split <;> rfl
  simp [State.reservedBy, State.reservedFor, hby, hfor]

theorem reservedBy_of (hb : s.backends[b]? = some x) : s.reservedBy b = x.reservation := by
  unfold State.reservedBy
  rw [hb]
  rfl

theorem reservedFor_of (hf : s.frames[f]? = some fr) : s.reservedFor f = fr.reservation := by
  unfold State.reservedFor
  rw [hf]
  rfl

/-- **Every move keeps the two records inverse to each other.** -/
theorem Owners.move (h : Owners s) (hm : Move m s a s') : Owners s' := by
  cases hm with
  | request hb _ | cancel hb | read hb _ => exact h.keep (reservedBy_keep hb rfl rfl) (reservedFor_congr rfl)
  | lookupMiss hb _ =>
    rcases hb with hb | hb <;> exact h.keep (reservedBy_keep hb rfl rfl) (reservedFor_congr rfl)
  | lookupHit hb _ hj =>
    obtain ⟨⟨y, hb', hy⟩, hfor⟩ := hj.records
    rcases hb with hb | hb <;> exact h.keep (reservedBy_keep hb hb' hy) hfor
  | reserveDirty hb hf | reserveClean hb hf | reserveFree hb hf =>
    exact h.take (reservedBy_of hb) (reservedFor_of hf) (reservedBy_set hb rfl rfl) (reservedFor_set hf rfl rfl)
  | publishLost hb hf _ hj =>
    obtain ⟨⟨y, hb', hy⟩, hfor⟩ := hj.records
    exact h.drop (reservedBy_of hb) (reservedBy_set hb hb' hy) (hfor.trans (reservedFor_set hf rfl rfl))
  | publishWon hb hf _ =>
    exact h.drop (reservedBy_of hb) (reservedBy_set hb rfl rfl) (reservedFor_set hf rfl rfl)
  | submit hf | flushOk hf => exact h.keep (reservedBy_congr rfl) (reservedFor_keep hf rfl rfl)
  | loadOk hf hd =>
    obtain ⟨hbs, -⟩ := foldl_handOff _ true s.backends ⟨[], 0, .none⟩
    rw [← hd] at hbs
    exact h.keep (reservedBy_handOff hbs) (reservedFor_keep hf rfl rfl)
  | loadFail hf hd =>
    obtain ⟨hbs, -⟩ := foldl_handOff _ false s.backends ⟨[], 0, .none⟩
    rw [← hd] at hbs
    exact h.keep (reservedBy_handOff hbs) (reservedFor_keep hf rfl rfl)
  | flushFail hf hb =>
    -- the owner that the frame names is the backend whose reservation ends
    have howner := (h _ _ _).2 (reservedFor_of hf)
    exact h.drop howner (reservedBy_set hb rfl rfl) (reservedFor_set hf rfl rfl)
  | write hb _ hf =>
    exact h.keep (reservedBy_keep hb rfl rfl) (reservedFor_keep hf rfl (reservation_markDirty _))
  | endAccess hb hx =>
    refine h.keep (reservedBy_keep hb rfl ?_) (reservedFor_congr rfl)
    rcases hx with rfl | rfl <;> rfl
  | unpin hb hf hr =>
    exact h.keep (reservedBy_keep hb rfl rfl) (reservedFor_keep hf rfl (reservation_releasePin hr))

/-! ## Indices -/

/-- The sizes of the tables and the range of the pages asked for. -/
structure InRange (m : BufferModel) (s : State) : Prop where
  frames : s.frames.length = m.frameCount
  backends : s.backends.length = m.backendCount
  pageTable : s.pageTable.length = m.pageCount
  page : ∀ {b : Nat} {x : Backend} {p : Nat}, s.backends[b]? = some x → x.page = some p → p < m.pageCount

theorem InRange.init (hs : s ∈ m.initStates) : InRange m s := by
  rw [initStates, mem_singleton] at hs
  subst hs
  refine ⟨length_replicate, length_replicate, length_replicate, ?_⟩
  intro b x p hx hp
  simp only [getElem?_replicate] at hx
  split at hx <;> cases hx
  cases hp

/-- One backend changes, to one that is after a page in range. -/
theorem InRange.change (h : InRange m s) (hb' : s'.backends = s.backends.set b y)
    (hy : ∀ p, y.page = some p → p < m.pageCount) (hf' : s'.frames.length = s.frames.length)
    (ht' : s'.pageTable.length = s.pageTable.length) : InRange m s' := by
  refine ⟨hf'.trans h.frames, by rw [hb', length_set]; exact h.backends, ht'.trans h.pageTable, ?_⟩
  intro c x p hx hp
  rw [hb', getElem?_set] at hx
  split at hx
  · split at hx <;> cases hx
    exact hy p hp
  · exact h.page hx hp

theorem page_handed (f : Nat) (ok : Bool) (x : Backend) : (x.handed f ok).page = x.page := by
  unfold handed
  split
  · split
    · cases ok <;> rfl
    · rfl
  · rfl

theorem InRange.handOff (h : InRange m s) {ok : Bool} (hb' : s'.backends = s.backends.map (handed f ok))
    (hf' : s'.frames.length = s.frames.length) (ht' : s'.pageTable.length = s.pageTable.length) :
    InRange m s' := by
  refine ⟨hf'.trans h.frames, by rw [hb', length_map]; exact h.backends, ht'.trans h.pageTable, ?_⟩
  intro c x p hx hp
  rw [hb', getElem?_map, Option.map_eq_some_iff] at hx
  obtain ⟨y, hy, rfl⟩ := hx
  rw [page_handed] at hp
  exact h.page hy hp

theorem InRange.joined (h : InRange m s) (hp : p < m.pageCount) (hj : Joined s b f p r s') : InRange m s' := by
  have hpage : ∀ q, some p = some q → q < m.pageCount := by
    intro q he
    cases he
    exact hp
  cases hj with
  | ready _ => exact h.change rfl hpage length_set rfl
  | loading _ | again _ _ => exact h.change rfl hpage rfl rfl

/-- Only the frames' and the page table's lengths and the backends matter. -/
theorem InRange.congr (h : InRange m s) (hf' : s'.frames.length = s.frames.length)
    (hb' : s'.backends = s.backends) (ht' : s'.pageTable.length = s.pageTable.length) :
    InRange m s' := by
  refine ⟨hf'.trans h.frames, by rw [hb']; exact h.backends, ht'.trans h.pageTable, ?_⟩
  rw [hb']
  exact h.page

/-- **Every move stays in range.** -/
theorem InRange.move (h : InRange m s) (howners : Owners s) (hm : Move m s a s') : InRange m s' := by
  -- all moves but a new request copy the page from a backend
  have hcopy : ∀ {b : Nat} {x y : Backend}, s.backends[b]? = some x → y.page = x.page →
      ∀ p, y.page = some p → p < m.pageCount := fun hb hxy p hp => h.page hb (hxy ▸ hp)
  cases hm with
  | request hb hp =>
    refine h.change rfl (fun q hq => ?_) rfl rfl
    cases hq
    exact hp
  | lookupMiss hb _ =>
    rcases hb with hb | hb <;> exact h.change rfl (hcopy hb rfl) rfl rfl
  | lookupHit hb _ hj =>
    have h0 : InRange m { s with event := .none } := h.congr rfl rfl rfl
    rcases hb with hb | hb <;> exact h0.joined (h.page hb rfl) hj
  | reserveDirty hb _ | reserveFree hb _ | write hb _ _ => exact h.change rfl (hcopy hb rfl) length_set rfl
  | reserveClean hb _ | publishWon hb _ _ => exact h.change rfl (hcopy hb rfl) length_set length_set
  | @publishLost _ _ f _ _ _ _ _ hb _ _ hj =>
    have h0 : InRange m { s with frames := s.frames.set f .free, event := .none } :=
      h.congr length_set rfl rfl
    exact (h0.joined (h.page hb rfl) hj).congr rfl rfl rfl
  | submit _ => exact h.congr length_set rfl rfl
  | loadOk _ hd =>
    obtain ⟨hbs, -⟩ := foldl_handOff _ true s.backends ⟨[], 0, .none⟩
    rw [← hd] at hbs
    exact h.handOff hbs length_set rfl
  | loadFail _ hd =>
    obtain ⟨hbs, -⟩ := foldl_handOff _ false s.backends ⟨[], 0, .none⟩
    rw [← hd] at hbs
    exact h.handOff hbs length_set length_set
  | flushOk _ => exact h.congr length_set rfl length_set
  | flushFail hf hb =>
    have howner := (howners _ _ _).2 (reservedFor_of hf)
    rw [reservedBy_of hb] at howner
    cases howner
    exact h.change rfl (hcopy hb rfl) length_set rfl
  | cancel _ => exact h.change rfl (fun _ hq => by cases hq) rfl rfl
  | read hb _ => exact h.change rfl (hcopy hb rfl) rfl rfl
  | endAccess hb hx =>
    rcases hx with rfl | rfl <;> exact h.change rfl (hcopy hb rfl) rfl rfl
  | unpin _ _ _ => exact h.change rfl (fun _ hq => by cases hq) length_set rfl

/-- The invariants of the protocol, together. -/
structure Sound (m : BufferModel) (s : State) : Prop where
  mapping : Mapping s
  pins : Pins s
  owners : Owners s
  inRange : InRange m s

theorem Sound.move (h : Sound m s) (hm : Move m s a s') : Sound m s' :=
  ⟨h.mapping.move hm, h.pins.move h.mapping hm, h.owners.move hm, h.inRange.move h.owners hm⟩

theorem reachable_sound (h : m.Reachable s) : Sound m s := by
  induction h with
  | init hs => exact ⟨.init hs, .init hs, .init hs, .init hs⟩
  | step _ hacts ha hn ih => exact ih.move (move_of_step hacts ha hn)

/-! ## Every offered action returns a state -/

theorem Sound.getElem?_page (h : Sound m s) (hb : s.backends[b]? = some x) (hp : x.page = some p) :
    ∃ t, s.pageTable[p]? = some t := by
  have hlt : p < s.pageTable.length := by
    rw [h.inRange.pageTable]
    exact h.inRange.page hb hp
  exact ⟨_, getElem?_eq_getElem hlt⟩

theorem index_of {xs : List α} {a : α} (h : xs[i]? = some a) : (.index xs i : Result Unit α) = .ok a :=
  Result.index_eq_ok.2 h

theorem setIndex_of {xs : List α} {a : α} (h : xs[i]? = some a) (b : α) :
    (.setIndex xs i b : Result Unit (List α)) = .ok (xs.set i b) :=
  Result.setIndex_eq_ok.2 ⟨lt_of_get h, rfl⟩

theorem mappedFrame_defined (h : Sound m s) (hb : s.backends[b]? = some x) (hp : x.page = some p) :
    ∃ o, s.mappedFrame p = .ok o := by
  obtain ⟨t, ht⟩ := h.getElem?_page hb hp
  unfold State.mappedFrame
  rw [index_of ht, ok_bind]
  cases t with
  | none => exact ⟨none, rfl⟩
  | some f =>
    obtain ⟨fr, hf, _⟩ := h.mapping.frame_of_table ht
    exact ⟨some fr, by simp only [index_of hf, ok_bind]; rfl⟩

theorem backendActions_defined (h : Sound m s) (hb : s.backends[b]? = some x) :
    ∃ l, m.backendActions s b x = .ok l := by
  cases x with
  | idle | waiting f p r | pinned f p | reading f p | writing f p => exact ⟨_, rfl⟩
  | request p r =>
    obtain ⟨o, ho⟩ := mappedFrame_defined h hb rfl
    simp only [backendActions, ho, ok_bind]
    split <;> exact ⟨_, rfl⟩
  | miss p r =>
    obtain ⟨o, ho⟩ := mappedFrame_defined h hb rfl
    simp only [backendActions, ho, ok_bind]
    exact ⟨_, rfl⟩
  | reserved f p r =>
    have hfor := (h.owners b f p).1 (reservedBy_of hb)
    obtain ⟨fr, hf, _⟩ := Option.bind_eq_some_iff.1 hfor
    simp only [backendActions, index_of hf, ok_bind]
    split <;> exact ⟨_, rfl⟩

/-- `actions` returns, with everything that the two loops push. -/
theorem actions_defined (h : Sound m s) : ∃ as, m.actions s = .ok as ∧
    (∀ b x l a, s.backends[b]? = some x → m.backendActions s b x = .ok l → a ∈ l → a ∈ as) ∧
    (∀ f fr a, s.frames[f]? = some fr → a ∈ frameActions f fr → a ∈ as) := by
  obtain ⟨ls, hls⟩ := exists_forall₂ fun xb (hx : xb ∈ s.backends.zipIdx) =>
    backendActions_defined h (mem_zipIdx_iff_getElem?.1 hx)
  refine ⟨ls.flatten ++ s.frames.zipIdx.flatMap fun ff => frameActions ff.2 ff.1, ?_, ?_, ?_⟩
  · show s.backends.zipIdx.mapM (fun xb => m.backendActions s xb.2 xb.1) >>= _ = _
    rw [mapM_ok.2 hls]
    rfl
  · intro b x l a hb hl ha
    obtain ⟨l', hmem, hl'⟩ := exists_of_forall₂ hls.flip (x, b) (mem_zipIdx_iff_getElem?.2 hb)
    obtain rfl : l = l' := Except.ok.inj (hl.symm.trans hl')
    exact mem_append_left _ (mem_flatten.2 ⟨l, hmem, ha⟩)
  · intro f fr a hf ha
    refine mem_append_right _ (mem_flatMap.2 ⟨(fr, f), mem_zipIdx_iff_getElem?.2 hf, ha⟩)

theorem join_defined (hb : s.backends[b]? = some x) (hf : s.frames[f]? = some fr) :
    ∃ s', s.join b f p r = .ok s' := by
  unfold State.join
  rw [index_of hf, ok_bind]
  split
  · rw [setIndex_of hf, ok_bind, setIndex_of hb]
    exact ⟨_, rfl⟩
  · rw [setIndex_of hb]
    exact ⟨_, rfl⟩
  · rw [setIndex_of hb]
    exact ⟨_, rfl⟩

theorem reserveFrame_defined (hmap : Mapping s) (hf : s.frames[f]? = some fr) (hv : fr.isVictim = true) :
    ∃ s', State.reserveFrame { s with event := .none } b f p = .ok s' ∧ s'.backends = s.backends := by
  unfold State.reserveFrame
  rw [index_of hf, ok_bind]
  cases fr with
  | free =>
    simp only [setIndex_of hf, ok_bind]
    exact ⟨_, rfl, rfl⟩
  | ready q n d =>
    have hn : n = 0 := by simpa [Frame.isVictim] using hv
    subst hn
    cases d with
    | true =>
      simp only [setIndex_of hf, ok_bind]
      exact ⟨_, rfl, rfl⟩
    | false =>
      simp only [setIndex_of hf, setIndex_of (hmap.table_of_frame hf rfl), ok_bind]
      exact ⟨_, rfl, rfl⟩
  | reserved _ _ | flushing _ _ _ | loading _ _ => cases hv

theorem lookup_defined (h : Sound m s) (hb : s.backends[b]? = some x) (hx : x = .request p r ∨ x = .miss p r) :
    ∃ s', nextState s (.lookup b) = .ok s' := by
  have hwanted : x.wanted = .ok (p, r) := by rcases hx with rfl | rfl <;> rfl
  obtain ⟨t, ht⟩ := h.getElem?_page hb (p := p) (by rcases hx with rfl | rfl <;> rfl)
  simp only [nextState, index_of hb, hwanted, index_of ht, ok_bind]
  cases t with
  | none =>
    simp only [setIndex_of hb, ok_bind]
    exact ⟨_, rfl⟩
  | some f =>
    obtain ⟨fr, hf, _⟩ := h.mapping.frame_of_table ht
    exact join_defined (s := { s with event := .none }) hb hf

theorem publish_defined (h : Sound m s) {p' o : Nat} (hb : s.backends[b]? = some (.reserved f p r))
    (hf : s.frames[f]? = some (.reserved p' o)) : ∃ s', nextState s (.publish b) = .ok s' := by
  obtain ⟨t, ht⟩ := h.getElem?_page hb rfl
  simp only [nextState, index_of hb, index_of ht, ok_bind]
  cases t with
  | none =>
    simp only [setIndex_of hb, setIndex_of hf, setIndex_of ht, ok_bind]
    exact ⟨_, rfl⟩
  | some w =>
    obtain ⟨fr, hw, _⟩ := h.mapping.frame_of_table ht
    have hw' : ∃ fr', (s.frames.set f .free)[w]? = some fr' := by
      refine ⟨_, getElem?_eq_getElem ?_⟩
      rw [length_set]
      exact lt_of_get hw
    obtain ⟨fr', hw'⟩ := hw'
    obtain ⟨s1, hj⟩ := join_defined (s := { s with frames := s.frames.set f .free, event := .none })
      (p := p) (r := r) hb hw'
    simp only [setIndex_of hf, hj, ok_bind]
    exact ⟨_, rfl⟩

theorem loadDone_defined (h : Sound m s) (ok : Bool) (hf : s.frames[f]? = some (.loading p true)) :
    ∃ s', nextState s (.loadDone f ok) = .ok s' := by
  have ht := h.mapping.table_of_frame hf rfl
  simp only [nextState, index_of hf, ok_bind]
  cases ok with
  | true =>
    simp only [setIndex_of hf, ok_bind]
    exact ⟨_, rfl⟩
  | false =>
    simp only [setIndex_of hf, setIndex_of ht, ok_bind]
    exact ⟨_, rfl⟩

theorem flushDone_defined (h : Sound m s) {q o : Nat} (ok : Bool) (hf : s.frames[f]? = some (.flushing q p o)) :
    ∃ s', nextState s (.flushDone f ok) = .ok s' := by
  have ht := h.mapping.table_of_frame hf rfl
  -- the owner is the backend that reserved the frame
  obtain ⟨x, ho, hx⟩ := Option.bind_eq_some_iff.1 ((h.owners o f p).2 (reservedFor_of hf))
  obtain ⟨r, rfl⟩ : ∃ r, x = .reserved f p r := by
    cases x <;> cases hx
    exact ⟨_, rfl⟩
  simp only [nextState, index_of hf, ok_bind]
  cases ok with
  | true =>
    simp only [setIndex_of hf, setIndex_of ht, ok_bind]
    exact ⟨_, rfl⟩
  | false =>
    simp only [setIndex_of hf, index_of ho, setIndex_of ho, ok_bind]
    exact ⟨_, rfl⟩

/-- **None of the branches that give up is taken**, and no index is out of range. -/
theorem nextState_defined (h : Sound m s) {as : List Action} (hacts : m.actions s = .ok as) (ha : a ∈ as) :
    ∃ s', nextState s a = .ok s' := by
  have hg := guard_of_mem hacts ha
  cases a with
  | request b p =>
    simp only [nextState, setIndex_of hg.1, ok_bind]
    exact ⟨_, rfl⟩
  | lookup b =>
    obtain ⟨p, r, hb | hb⟩ := hg
    · exact lookup_defined h hb (.inl rfl)
    · exact lookup_defined h hb (.inr rfl)
  | reserve b f =>
    obtain ⟨p, r, fr, hb, hf, hv⟩ := hg
    obtain ⟨s1, hs1, hb1⟩ := reserveFrame_defined h.mapping (b := b) (p := p) hf hv
    rw [← hb1] at hb
    simp only [nextState, index_of (hb1 ▸ hb), hs1, setIndex_of hb, ok_bind]
    exact ⟨_, rfl⟩
  | publish b =>
    obtain ⟨f, p, r, p', o, hb, hf⟩ := hg
    exact publish_defined h hb hf
  | submit f =>
    obtain ⟨p, hf⟩ := hg
    simp only [nextState, index_of hf, setIndex_of hf, ok_bind]
    exact ⟨_, rfl⟩
  | loadDone f ok =>
    obtain ⟨p, hf⟩ := hg
    exact loadDone_defined h ok hf
  | flushDone f ok =>
    obtain ⟨q, p, o, hf⟩ := hg
    exact flushDone_defined h ok hf
  | cancel b =>
    obtain ⟨f, p, r, hb⟩ := hg
    simp only [nextState, setIndex_of hb, ok_bind]
    exact ⟨_, rfl⟩
  | read b =>
    obtain ⟨f, p, hb, _⟩ := hg
    simp only [nextState, index_of hb, setIndex_of hb, ok_bind]
    exact ⟨_, rfl⟩
  | write b =>
    obtain ⟨f, p, hb, _⟩ := hg
    obtain ⟨n, d, hf⟩ := h.pins.backend hb
    simp only [nextState, index_of hb, setIndex_of hb, index_of hf, setIndex_of hf, ok_bind]
    exact ⟨_, rfl⟩
  | endAccess b =>
    obtain ⟨f, p, hb | hb⟩ := hg
    · simp only [nextState, index_of hb, setIndex_of hb, pin, ok_bind]
      exact ⟨_, rfl⟩
    · simp only [nextState, index_of hb, setIndex_of hb, pin, ok_bind]
      exact ⟨_, rfl⟩
  | unpin b => exact h.pins.unpin_ok hacts ha

/-! ## The event of the last step -/

/-- What the checker demands of a state with an event: after a failed load the frame is free, its page is
unmapped and nobody waits; after a failed write-back the old page is still ready, dirty and mapped; after
a lost race the extra frame is free and no page is mapped to it. -/
def AfterEvent (s : State) : Prop :=
  match s.event with
  | .loadFailed f p => s.frames[f]? = some .free ∧ s.pageTable[p]? = some none ∧
      ∀ x ∈ s.backends, x.waitsOn f = false
  | .flushFailed f p => s.frames[f]? = some (.ready p 0 true) ∧ s.pageTable[p]? = some (some f)
  | .raceReleased f => s.frames[f]? = some .free ∧ some f ∉ s.pageTable
  | _ => True

theorem Joined.event_eq (hj : Joined s b f p r s') : s'.event = s.event := by cases hj <;> rfl

/-- Joining a frame leaves the page table and the free frames alone. -/
theorem Joined.free_kept {w : Nat} (hj : Joined s b w p r s') (hf : s.frames[f]? = some .free) :
    s'.frames[f]? = some .free ∧ s'.pageTable = s.pageTable := by
  cases hj with
  | ready hw =>
    have hne : w ≠ f := by
      intro he
      subst he
      rw [hf] at hw
      cases hw
    exact ⟨by simpa [hne] using hf, rfl⟩
  | loading _ | again _ _ => exact ⟨hf, rfl⟩

theorem event_foldl_handOff (f : Nat) (ok : Bool) : ∀ (bs : List Backend) (acc : HandOff),
    (bs.foldl (handOff f ok) acc).event = acc.event ∨ (bs.foldl (handOff f ok) acc).event = .retrySucceeded
  | [], _ => .inl rfl
  | x :: bs, acc => by
    have hx : (handOff f ok acc x).event = acc.event ∨ (handOff f ok acc x).event = .retrySucceeded := by
      unfold handOff
      split
      · split
        · split
          · rename_i r _ _
            cases r
            · exact .inl rfl
            · exact .inr rfl
          · exact .inl rfl
        · exact .inl rfl
      · exact .inl rfl
    rw [foldl_cons]
    rcases event_foldl_handOff f ok bs (handOff f ok acc x) with h | h
    · rw [h]
      exact hx
    · exact .inr h

theorem waitsOn_handed (f : Nat) (ok : Bool) (x : Backend) : (x.handed f ok).waitsOn f = false := by
  cases x with
  | waiting g p r =>
    by_cases hg : g = f
    · cases ok <;> simp [handed, waitsOn, hg]
    · simp [handed, waitsOn, hg]
  | _ => rfl

theorem afterEvent_of_none (h : s.event = .none) : AfterEvent s := by
  unfold AfterEvent
  rw [h]
  trivial

/-- **Every move leaves what its event promises.** -/
theorem afterEvent_of_move (h : Sound m s) (hm : Move m s a s') : AfterEvent s' := by
  cases hm with
  | lookupHit _ _ hj => exact afterEvent_of_none hj.event_eq
  | publishLost _ hf _ hj =>
    have hlt := lt_of_get hf
    obtain ⟨hfree, htable⟩ := hj.free_kept (getElem?_set_self hlt)
    refine ⟨hfree, fun hmem => ?_⟩
    -- a reserved frame publishes nothing, so no page was mapped to it
    rw [htable] at hmem
    obtain ⟨q, hq⟩ := mem_iff_getElem?.1 hmem
    obtain ⟨fr, hfr, hpub⟩ := h.mapping.frame_of_table hq
    rw [hf] at hfr
    cases hfr
    cases hpub
  | loadOk _ hd =>
    rcases event_foldl_handOff _ true s.backends ⟨[], 0, .none⟩ with he | he
    · exact afterEvent_of_none (hd ▸ he)
    · unfold AfterEvent
      rw [← hd] at he
      simp only [he]
  | @loadFail f p done hf hd =>
    obtain ⟨hbs, -⟩ := foldl_handOff f false s.backends ⟨[], 0, .none⟩
    rw [← hd] at hbs
    have ht := h.mapping.table_of_frame hf rfl
    refine ⟨getElem?_set_self (lt_of_get hf), getElem?_set_self (lt_of_get ht), fun x hx => ?_⟩
    simp only [hbs, nil_append, mem_map] at hx
    obtain ⟨y, _, rfl⟩ := hx
    exact waitsOn_handed f false y
  | flushFail hf _ =>
    exact ⟨getElem?_set_self (lt_of_get hf), h.mapping.table_of_frame hf rfl⟩
  | _ => exact afterEvent_of_none rfl

theorem reachable_afterEvent (h : m.Reachable s) : AfterEvent s := by
  cases h with
  | init hs =>
    rw [initStates, mem_singleton] at hs
    subst hs
    trivial
  | step hs hacts ha hn => exact afterEvent_of_move (reachable_sound hs) (move_of_step hacts ha hn)

/-- **Ownership and well-definedness, for every size.**  In every reachable state the offered actions can
be computed and each of them returns a state; a backend has reserved a frame for a page if and only if the
frame is `Reserved` or `Flushing` and names that backend and that page; a waiter's frame is loading its
page; and the event of the last step keeps its promise. -/
theorem ownership_and_defined_steps (m : BufferModel) :
    ∀ s, m.Reachable s →
      (∃ as, m.actions s = .ok as ∧ ∀ a ∈ as, ∃ s', nextState s a = .ok s') ∧
      (∀ b f p : Nat, (∃ r, s.backends[b]? = some (.reserved f p r)) ↔
        s.frames[f]? = some (.reserved p b) ∨ ∃ q, s.frames[f]? = some (.flushing q p b)) ∧
      (∀ (b f p : Nat) (r : Bool), s.backends[b]? = some (.waiting f p r) →
        ∃ io, s.frames[f]? = some (.loading p io)) ∧
      AfterEvent s := by
  intro s hs
  have h := reachable_sound hs
  obtain ⟨as, hacts, -, -⟩ := actions_defined h
  refine ⟨⟨as, hacts, fun a ha => nextState_defined h hacts ha⟩, ?_, fun b f p r hb => h.pins.backend hb,
    reachable_afterEvent hs⟩
  intro b f p
  constructor
  · intro ⟨r, hb⟩
    obtain ⟨fr, hf, hfr⟩ := Option.bind_eq_some_iff.1 ((h.owners b f p).1 (reservedBy_of hb))
    cases fr <;> cases hfr
    · exact .inl hf
    · exact .inr ⟨_, hf⟩
  · intro hf
    have hfor : s.reservedFor f = some (p, b) := by
      rcases hf with hf | ⟨q, hf⟩ <;> exact reservedFor_of hf
    obtain ⟨x, hb, hx⟩ := Option.bind_eq_some_iff.1 ((h.owners b f p).2 hfor)
    cases x <;> cases hx
    exact ⟨_, hb⟩

/-- Two frames, one page, two backends that raced for it: the loser has given its frame back. -/
theorem ownership_after_lost_race :
    let m : BufferModel := ⟨2, 1, 2, by decide, by decide, by decide⟩
    let s : State := ⟨[.loading 0 false, .free], [.waiting 0 0 false, .waiting 0 0 false], [some 0],
      .raceReleased 1⟩
    m.Reachable s ∧ s.frames[1]? = some .free ∧ some 1 ∉ s.pageTable := by
  intro m s
  have hs : m.Reachable s := BufferModel.replay_reachable
    [.request 0 0, .request 1 0, .lookup 0, .lookup 1, .reserve 0 0, .reserve 1 1, .publish 0, .publish 1]
    (BufferModel.Reachable.init (s := ⟨[.free, .free], [.idle, .idle], [none], .none⟩)
      (mem_singleton.2 rfl)) rfl
  exact ⟨hs, (ownership_and_defined_steps m s hs).2.2.2⟩

end ChiliDB.Models
