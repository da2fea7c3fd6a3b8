import ChiliDB.Lib.Fallible
import ChiliDB.Storage.Models.BufferPool

/-!
# What an enabled action can do

* `Joined` — the three branches of `State::join`.
* `Move m s a s'` — one constructor for each branch of `nextState`, with the guard under which
  `actions` offers it and the state it returns.
* `move_of_step` — **inversion**: every step of the checker is a `Move`.

The invariants of the protocol are proved by cases on `Move`, never by unfolding `nextState`.
-/

namespace ChiliDB.Models

open Effect List
open BufferModel (nextState backendActions frameActions)
open Result (index_bind_ok of_setIndex setIndex_eq_ok)

/-- The outcome of `State::join` on a frame. -/
inductive Joined (s : State) (b f p : Nat) (r : Bool) : State → Prop where
  | ready {q n : Nat} {d : Bool} (hf : s.frames[f]? = some (.ready q n d)) :
      Joined s b f p r { s with frames := s.frames.set f (.ready q (n + 1) d)
                                backends := s.backends.set b (.pinned f p) }
  | loading {q : Nat} {io : Bool} (hf : s.frames[f]? = some (.loading q io)) :
      Joined s b f p r { s with backends := s.backends.set b (.waiting f p r) }
  | again {fr : Frame} (hf : s.frames[f]? = some fr) (hn : fr.isJoinable = false) :
      Joined s b f p r { s with backends := s.backends.set b (.request p r) }

/-- One step of the protocol. -/
inductive Move (m : BufferModel) (s : State) : Action → State → Prop where
  | request {b p : Nat} (hb : s.backends[b]? = some .idle) (hp : p < m.pageCount) :
      Move m s (.request b p) { s with backends := s.backends.set b (.request p false), event := .none }
  | lookupMiss {b p : Nat} {r : Bool}
      (hb : s.backends[b]? = some (.request p r) ∨ s.backends[b]? = some (.miss p r))
      (ht : s.pageTable[p]? = some none) :
      Move m s (.lookup b) { s with backends := s.backends.set b (.miss p r), event := .none }
  | lookupHit {b p f : Nat} {r : Bool} {s' : State}
      (hb : s.backends[b]? = some (.request p r) ∨ s.backends[b]? = some (.miss p r))
      (ht : s.pageTable[p]? = some (some f)) (hj : Joined { s with event := .none } b f p r s') :
      Move m s (.lookup b) s'
  | reserveDirty {b p f q : Nat} {r : Bool} (hb : s.backends[b]? = some (.miss p r))
      (hf : s.frames[f]? = some (.ready q 0 true)) :
      Move m s (.reserve b f)
        { s with frames := s.frames.set f (.flushing q p b)
                 backends := s.backends.set b (.reserved f p r), event := .none }
  | reserveClean {b p f q : Nat} {r : Bool} (hb : s.backends[b]? = some (.miss p r))
      (hf : s.frames[f]? = some (.ready q 0 false)) :
      Move m s (.reserve b f)
        { frames := s.frames.set f (.reserved p b), backends := s.backends.set b (.reserved f p r)
          pageTable := s.pageTable.set q none, event := .none }
  | reserveFree {b p f : Nat} {r : Bool} (hb : s.backends[b]? = some (.miss p r))
      (hf : s.frames[f]? = some .free) :
      Move m s (.reserve b f)
        { s with frames := s.frames.set f (.reserved p b)
                 backends := s.backends.set b (.reserved f p r), event := .none }
  | publishLost {b p f w p' o : Nat} {r : Bool} {s' : State}
      (hb : s.backends[b]? = some (.reserved f p r)) (hf : s.frames[f]? = some (.reserved p' o))
      (ht : s.pageTable[p]? = some (some w))
      (hj : Joined { s with frames := s.frames.set f .free, event := .none } b w p r s') :
      Move m s (.publish b) { s' with event := .raceReleased f }
  | publishWon {b p f p' o : Nat} {r : Bool} (hb : s.backends[b]? = some (.reserved f p r))
      (hf : s.frames[f]? = some (.reserved p' o)) (ht : s.pageTable[p]? = some none) :
      Move m s (.publish b)
        { frames := s.frames.set f (.loading p false)
          backends := s.backends.set b (.waiting f p r)
          pageTable := s.pageTable.set p (some f), event := .none }
  | submit {f p : Nat} (hf : s.frames[f]? = some (.loading p false)) :
      Move m s (.submit f) { s with frames := s.frames.set f (.loading p true), event := .none }
  | loadOk {f p : Nat} {done : HandOff} (hf : s.frames[f]? = some (.loading p true))
      (hd : done = s.backends.foldl (handOff f true) ⟨[], 0, .none⟩) :
      Move m s (.loadDone f true)
        { s with frames := s.frames.set f (.ready p done.pinCount false)
                 backends := done.backends, event := done.event }
  | loadFail {f p : Nat} {done : HandOff} (hf : s.frames[f]? = some (.loading p true))
      (hd : done = s.backends.foldl (handOff f false) ⟨[], 0, .none⟩) :
      Move m s (.loadDone f false)
        { frames := s.frames.set f .free, backends := done.backends
          pageTable := s.pageTable.set p none, event := .loadFailed f p }
  | flushOk {f q p o : Nat} (hf : s.frames[f]? = some (.flushing q p o)) :
      Move m s (.flushDone f true)
        { s with frames := s.frames.set f (.reserved p o)
                 pageTable := s.pageTable.set q none, event := .none }
  | flushFail {f q p o f' p' : Nat} {r : Bool} (hf : s.frames[f]? = some (.flushing q p o))
      (hb : s.backends[o]? = some (.reserved f' p' r)) :
      Move m s (.flushDone f false)
        { s with frames := s.frames.set f (.ready q 0 true)
                 backends := s.backends.set o (.request p r), event := .flushFailed f q }
  | cancel {b f p : Nat} {r : Bool} (hb : s.backends[b]? = some (.waiting f p r)) :
      Move m s (.cancel b) { s with backends := s.backends.set b .idle, event := .none }
  | read {b f p : Nat} (hb : s.backends[b]? = some (.pinned f p))
      (hw : s.backends.any (Backend.writes f) = false) :
      Move m s (.read b) { s with backends := s.backends.set b (.reading f p), event := .none }
  | write {b f p : Nat} {fr : Frame} (hb : s.backends[b]? = some (.pinned f p))
      (hw : s.backends.any (Backend.accesses f) = false) (hf : s.frames[f]? = some fr) :
      Move m s (.write b)
        { s with frames := s.frames.set f fr.markDirty
                 backends := s.backends.set b (.writing f p), event := .none }
  | endAccess {b f p : Nat} {x : Backend} (hb : s.backends[b]? = some x)
      (hx : x = .reading f p ∨ x = .writing f p) :
      Move m s (.endAccess b) { s with backends := s.backends.set b (.pinned f p), event := .none }
  | unpin {b f p : Nat} {fr fr' : Frame} (hb : s.backends[b]? = some (.pinned f p))
      (hf : s.frames[f]? = some fr) (hr : fr.releasePin = .ok fr') :
      Move m s (.unpin b)
        { s with frames := s.frames.set f fr'
                 backends := s.backends.set b .idle, event := .none }

variable {s s' : State} {b f : Nat} {m : BufferModel} {a : Action} {as : List Action}

theorem joined_of_join {p : Nat} {r : Bool} (h : s.join b f p r = .ok s') : Joined s b f p r s' := by
  unfold State.join at h
  obtain ⟨fr, hfr, h⟩ := index_bind_ok.1 h
  split at h
  · cases of_setIndex (of_setIndex h)
    exact .ready hfr
  · cases of_setIndex h
    exact .loading hfr
  · cases of_setIndex h
    refine .again hfr ?_
    cases fr <;> simp_all [Frame.isJoinable]

/-- An offered action comes from the loop over the backends or from the loop over the frames. -/
theorem mem_actions (h : m.actions s = .ok as) (ha : a ∈ as) :
    (∃ b x l, s.backends[b]? = some x ∧ m.backendActions s b x = .ok l ∧ a ∈ l) ∨
      (∃ f fr, s.frames[f]? = some fr ∧ a ∈ frameActions f fr) := by
  unfold BufferModel.actions at h
  obtain ⟨ls, hls, h⟩ := except_bind_ok.1 h
  cases h
  rcases mem_append.1 ha with ha | ha
  · obtain ⟨l, hl, hal⟩ := mem_flatten.1 ha
    obtain ⟨⟨x, b⟩, hx, hbl⟩ := exists_of_forall₂ (mapM_ok.1 hls) l hl
    exact .inl ⟨b, x, l, mem_zipIdx_iff_getElem?.1 hx, hbl, hal⟩
  · obtain ⟨⟨fr, f⟩, hfr, hal⟩ := mem_flatMap.1 ha
    exact .inr ⟨f, fr, mem_zipIdx_iff_getElem?.1 hfr, hal⟩

/-- What `actions` has checked before it offers an action. -/
def Guard (m : BufferModel) (s : State) : Action → Prop
  | .request b p => s.backends[b]? = some .idle ∧ p < m.pageCount
  | .lookup b => ∃ p r, s.backends[b]? = some (.request p r) ∨ s.backends[b]? = some (.miss p r)
  | .reserve b f => ∃ p r fr, s.backends[b]? = some (.miss p r) ∧ s.frames[f]? = some fr ∧
      fr.isVictim = true
  | .publish b => ∃ f p r p' o, s.backends[b]? = some (.reserved f p r) ∧
      s.frames[f]? = some (.reserved p' o)
  | .submit f => ∃ p, s.frames[f]? = some (.loading p false)
  | .loadDone f _ => ∃ p, s.frames[f]? = some (.loading p true)
  | .flushDone f _ => ∃ q p o, s.frames[f]? = some (.flushing q p o)
  | .cancel b => ∃ f p r, s.backends[b]? = some (.waiting f p r)
  | .read b => ∃ f p, s.backends[b]? = some (.pinned f p) ∧
      s.backends.any (Backend.writes f) = false
  | .write b => ∃ f p, s.backends[b]? = some (.pinned f p) ∧
      s.backends.any (Backend.accesses f) = false
  | .endAccess b => ∃ f p, s.backends[b]? = some (.reading f p) ∨
      s.backends[b]? = some (.writing f p)
  | .unpin b => ∃ f p, s.backends[b]? = some (.pinned f p)

theorem guard_of_backendActions {x : Backend} {l : List Action} (hx : s.backends[b]? = some x)
    (hl : m.backendActions s b x = .ok l) (ha : a ∈ l) : Guard m s a := by
  cases x with
  | idle =>
    cases hl
    obtain ⟨p, hp, rfl⟩ := mem_map.1 ha
    exact ⟨hx, mem_range.1 hp⟩
  | request p r =>
    simp only [backendActions] at hl
    obtain ⟨o, -, hl⟩ := except_bind_ok.1 hl
    split at hl <;> cases hl
    · cases ha
    · rw [mem_singleton.1 ha]
      exact ⟨p, r, .inl hx⟩
  | miss p r =>
    simp only [backendActions] at hl
    obtain ⟨o, -, hl⟩ := except_bind_ok.1 hl
    cases hl
    rcases mem_append.1 ha with ha | ha
    · split at ha
      · rw [mem_singleton.1 ha]
        exact ⟨p, r, .inr hx⟩
      · cases ha
    · obtain ⟨⟨fr, f⟩, hfr, ha⟩ := mem_flatMap.1 ha
      simp only at ha
      split at ha
      · rename_i hv
        rw [mem_singleton.1 ha]
        exact ⟨p, r, fr, hx, mem_zipIdx_iff_getElem?.1 hfr, hv⟩
      · cases ha
  | reserved f p r =>
    simp only [backendActions] at hl
    obtain ⟨fr, hfr, hl⟩ := index_bind_ok.1 hl
    split at hl <;> cases hl
    · rw [mem_singleton.1 ha]
      exact ⟨f, p, r, _, _, hx, hfr⟩
    · cases ha
  | waiting f p r =>
    cases hl
    rw [mem_singleton.1 ha]
    exact ⟨f, p, r, hx⟩
  | pinned f p =>
    cases hl
    simp only [mem_append, mem_singleton] at ha
    rcases ha with (rfl | ha) | ha
    · exact ⟨f, p, hx⟩
    · split at ha
      · cases ha
      · rename_i hw
        rw [mem_singleton.1 ha]
        exact ⟨f, p, hx, by simpa using hw⟩
    · split at ha
      · cases ha
      · rename_i hw
        rw [mem_singleton.1 ha]
        exact ⟨f, p, hx, by simpa using hw⟩
  | reading f p =>
    cases hl
    rw [mem_singleton.1 ha]
    exact ⟨f, p, .inl hx⟩
  | writing f p =>
    cases hl
    rw [mem_singleton.1 ha]
    exact ⟨f, p, .inr hx⟩

theorem guard_of_mem (h : m.actions s = .ok as) (ha : a ∈ as) : Guard m s a := by
  rcases mem_actions h ha with ⟨b, x, l, hx, hl, ha⟩ | ⟨f, fr, hf, ha⟩
  · exact guard_of_backendActions hx hl ha
  · unfold frameActions at ha
    split at ha
    · rw [mem_singleton.1 ha]
      exact ⟨_, hf⟩
    · simp only [mem_cons, not_mem_nil, or_false] at ha
      rcases ha with rfl | rfl <;> exact ⟨_, hf⟩
    · simp only [mem_cons, not_mem_nil, or_false] at ha
      rcases ha with rfl | rfl <;> exact ⟨_, _, _, hf⟩
    · cases ha

/-- The part of `nextState` for `Lookup`. -/
theorem move_lookup (h : nextState s (.lookup b) = .ok s') : Move m s (.lookup b) s' := by
  simp only [nextState] at h
  obtain ⟨x, hx, h⟩ := index_bind_ok.1 h
  obtain ⟨⟨p, r⟩, hp, h⟩ := except_bind_ok.1 h
  have hb : s.backends[b]? = some (.request p r) ∨ s.backends[b]? = some (.miss p r) := by
    unfold Backend.wanted at hp
    split at hp <;> cases hp
    · exact .inl hx
    · exact .inr hx
  obtain ⟨o, ho, h⟩ := index_bind_ok.1 h
  split at h
  · exact .lookupHit hb ho (joined_of_join h)
  · cases of_setIndex h
    exact .lookupMiss hb ho

theorem move_reserve (h : nextState s (.reserve b f) = .ok s') : Move m s (.reserve b f) s' := by
  simp only [nextState] at h
  obtain ⟨x, hx, h⟩ := index_bind_ok.1 h
  split at h
  · obtain ⟨s1, h1, h⟩ := except_bind_ok.1 h
    cases of_setIndex h
    unfold State.reserveFrame at h1
    obtain ⟨fr, hfr, h1⟩ := index_bind_ok.1 h1
    split at h1
    · cases of_setIndex h1
      exact .reserveDirty hx hfr
    · cases of_setIndex (of_setIndex h1)
      exact .reserveClean hx hfr
    · cases of_setIndex h1
      exact .reserveFree hx hfr
    · cases h1
  · cases h

theorem move_publish (hg : Guard m s (.publish b)) (h : nextState s (.publish b) = .ok s') :
    Move m s (.publish b) s' := by
  obtain ⟨f, p, r, p', o, hb, hf⟩ := hg
  simp only [nextState] at h
  obtain ⟨x, hx, h⟩ := index_bind_ok.1 h
  rw [hb] at hx
  cases hx
  obtain ⟨t, ht, h⟩ := index_bind_ok.1 h
  split at h
  · replace h := of_setIndex h
    obtain ⟨s1, h2, h⟩ := except_bind_ok.1 h
    cases h
    exact .publishLost hb hf ht (joined_of_join h2)
  · obtain ⟨table, h1, h⟩ := except_bind_ok.1 h
    obtain ⟨frames, h2, h⟩ := except_bind_ok.1 h
    obtain ⟨backends, h3, h⟩ := except_bind_ok.1 h
    obtain ⟨-, rfl⟩ := setIndex_eq_ok.1 h1
    obtain ⟨-, rfl⟩ := setIndex_eq_ok.1 h2
    obtain ⟨-, rfl⟩ := setIndex_eq_ok.1 h3
    cases h
    exact .publishWon hb hf ht

theorem move_loadDone {ok : Bool} (h : nextState s (.loadDone f ok) = .ok s') : Move m s (.loadDone f ok) s' := by
  simp only [nextState] at h
  obtain ⟨fr, hfr, h⟩ := index_bind_ok.1 h
  split at h
  · cases ok with
    | true =>
      rw [if_pos rfl] at h
      cases of_setIndex h
      exact .loadOk hfr rfl
    | false =>
      rw [if_neg (by simp)] at h
      cases of_setIndex (of_setIndex h)
      exact .loadFail hfr rfl
  · cases h

theorem move_flushDone {ok : Bool} (h : nextState s (.flushDone f ok) = .ok s') :
    Move m s (.flushDone f ok) s' := by
  simp only [nextState] at h
  obtain ⟨fr, hfr, h⟩ := index_bind_ok.1 h
  split at h
  · cases ok with
    | true =>
      rw [if_pos rfl] at h
      cases of_setIndex (of_setIndex h)
      exact .flushOk hfr
    | false =>
      rw [if_neg (by simp)] at h
      replace h := of_setIndex h
      obtain ⟨x, hx, h⟩ := index_bind_ok.1 h
      split at h
      · cases of_setIndex h
        exact .flushFail hfr hx
      · cases h
  · cases h

theorem move_write (hg : Guard m s (.write b)) (h : nextState s (.write b) = .ok s') : Move m s (.write b) s' := by
  obtain ⟨f, p, hb, hw⟩ := hg
  simp only [nextState] at h
  obtain ⟨x, hx, h⟩ := index_bind_ok.1 h
  rw [hb] at hx
  cases hx
  replace h := of_setIndex h
  obtain ⟨fr, hfr, h⟩ := index_bind_ok.1 h
  cases of_setIndex h
  exact .write hb hw hfr

theorem move_unpin (h : nextState s (.unpin b) = .ok s') : Move m s (.unpin b) s' := by
  simp only [nextState] at h
  obtain ⟨x, hx, h⟩ := index_bind_ok.1 h
  split at h
  · obtain ⟨fr, hfr, h⟩ := index_bind_ok.1 h
    obtain ⟨fr', hr, h⟩ := except_bind_ok.1 h
    cases of_setIndex (of_setIndex h)
    exact .unpin hx hfr hr
  · cases h

/-- **Inversion of a step**: an enabled action that returns a state is one of the moves. -/
theorem move_of_step (hacts : m.actions s = .ok as) (ha : a ∈ as) (h : nextState s a = .ok s') : Move m s a s' := by
  have hg := guard_of_mem hacts ha
  cases a with
  | request b p =>
    simp only [nextState] at h
    cases of_setIndex h
    exact .request hg.1 hg.2
  | lookup b => exact move_lookup h
  | reserve b f => exact move_reserve h
  | publish b => exact move_publish hg h
  | submit f =>
    simp only [nextState] at h
    obtain ⟨fr, hfr, h⟩ := index_bind_ok.1 h
    split at h
    · cases of_setIndex h
      exact .submit hfr
    · cases h
  | loadDone f ok => exact move_loadDone h
  | flushDone f ok => exact move_flushDone h
  | cancel b =>
    obtain ⟨f, p, r, hb⟩ := hg
    simp only [nextState] at h
    cases of_setIndex h
    exact .cancel hb
  | read b =>
    obtain ⟨f, p, hb, hw⟩ := hg
    simp only [nextState] at h
    obtain ⟨x, hx, h⟩ := index_bind_ok.1 h
    rw [hb] at hx
    cases hx
    cases of_setIndex h
    exact .read hb hw
  | write b => exact move_write hg h
  | endAccess b =>
    obtain ⟨f, p, hb⟩ := hg
    simp only [nextState] at h
    obtain ⟨x, hx, h⟩ := index_bind_ok.1 h
    obtain ⟨hxp, hpin⟩ : (x = .reading f p ∨ x = .writing f p) ∧ x.pin = some ⟨f, p⟩ := by
      rcases hb with hb | hb <;> (rw [hb] at hx; cases hx)
      · exact ⟨.inl rfl, rfl⟩
      · exact ⟨.inr rfl, rfl⟩
    rw [hpin] at h
    cases of_setIndex h
    exact .endAccess hx hxp
  | unpin b => exact move_unpin h

end ChiliDB.Models
