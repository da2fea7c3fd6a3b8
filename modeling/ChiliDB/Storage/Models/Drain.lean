import ChiliDB.Storage.Models.Owners
import Mathlib.Algebra.Order.BigOperators.Group.List
import Mathlib.Algebra.Order.Monoid.Unbundled.Basic
import Mathlib.Algebra.Order.Group.Nat
import Mathlib.Algebra.GroupWithZero.Nat

/-!
# Every reachable state can be drained

* `State.work` — a weight on backends and frames.  A `Miss` outweighs the reservation, the write-back and
  the load that it may still need.
* `Drains m s` — some offered action lowers the weight.

Which action that is depends on what is left: write-backs and loads complete first, then pins, waiters and
reservations are resolved, then requests; when only misses are left every frame is a victim.

Principal result: `never_stuck`.
-/

namespace ChiliDB.Models

open Effect List
open BufferModel (frameActions backendActions replay)

/-- Every backend is idle, and every frame is free or ready without a pin. -/
def Quiescent (s : State) : Prop :=
  (∀ x ∈ s.backends, x = .idle) ∧ ∀ fr ∈ s.frames, fr = .free ∨ ∃ p d, fr = .ready p 0 d

def Frame.work : Frame → Nat
  | .free => 0
  | .ready _ _ _ => 0
  | .loading _ true => 1
  | .loading _ false => 2
  | .reserved _ _ => 3
  | .flushing _ _ _ => 4

def Backend.work : Backend → Nat
  | .idle => 0
  | .pinned _ _ => 1
  | .reading _ _ => 2
  | .writing _ _ => 2
  | .waiting _ _ _ => 2
  | .reserved _ _ _ => 3
  | .miss _ _ => 8
  | .request _ _ => 9

def State.work (s : State) : Nat := (s.backends.map Backend.work).sum + (s.frames.map Frame.work).sum

/-- An offered action lowers the weight. -/
def Drains (m : BufferModel) (s : State) : Prop :=
  ∃ as a s', m.actions s = .ok as ∧ a ∈ as ∧ BufferModel.nextState s a = .ok s' ∧ s'.work < s.work

variable {s s' : State} {m : BufferModel}

/-! ## Weights -/

theorem sum_map_set {α : Type} (w : α → Nat) {l : List α} {i : Nat} {x : α} (h : l[i]? = some x) (y : α) :
    ((l.set i y).map w).sum + w x = (l.map w).sum + w y := by
  induction l generalizing i with
  | nil => cases h
  | cons a l ih =>
    cases i with
    | zero =>
      cases h
      simp only [set_cons_zero, map_cons, sum_cons]
      omega
    | succ i =>
      have := ih h
      simp only [set_cons_succ, map_cons, sum_cons]
      omega

variable {x : Backend} {b f p : Nat} {r : Bool}

theorem work_backend {y : Backend} (hb : s.backends[b]? = some x) (hb' : s'.backends = s.backends.set b y)
    (hf' : s'.frames = s.frames) (hlt : y.work < x.work) : s'.work < s.work := by
  have := sum_map_set Backend.work hb y
  unfold State.work
  rw [hb', hf']
  omega

theorem work_frame {x y : Frame} (hf : s.frames[f]? = some x) (hf' : s'.frames = s.frames.set f y)
    (hb' : (s'.backends.map Backend.work).sum ≤ (s.backends.map Backend.work).sum) (hlt : y.work < x.work) :
    s'.work < s.work := by
  have := sum_map_set Frame.work hf y
  unfold State.work
  rw [hf']
  omega

/-- A backend and a frame change together. -/
theorem work_both {y : Backend} {u v : Frame} (hb : s.backends[b]? = some x) (hf : s.frames[f]? = some u)
    (hb' : s'.backends = s.backends.set b y) (hf' : s'.frames = s.frames.set f v)
    (hlt : y.work + v.work < x.work + u.work) : s'.work < s.work := by
  have := sum_map_set Backend.work hb y
  have := sum_map_set Frame.work hf v
  unfold State.work
  rw [hb', hf']
  omega

theorem work_handed (f : Nat) (x : Backend) : (x.handed f true).work ≤ x.work := by
  unfold Backend.handed
  split
  · split
    · simp [Backend.work]
    · exact Nat.le_refl _
  · exact Nat.le_refl _

/-- Joining a page that is not being written back. -/
theorem work_joined (hj : Joined s b f p r s') (hb : s.backends[b]? = some x) (hx : 2 < x.work)
    (hjoin : ∀ fr, s.frames[f]? = some fr → fr.isJoinable = true) : s'.work < s.work := by
  cases hj with
  | ready hf => exact work_both hb hf rfl rfl (show 1 + 0 < x.work + 0 by omega)
  | loading _ => exact work_backend hb rfl rfl hx
  | again hf hn =>
    rw [hjoin _ hf] at hn
    cases hn

/-! ## What is offered -/

theorem Sound.offered_backend (h : Sound m s) {l : List Action} {a : Action} (hb : s.backends[b]? = some x)
    (hl : m.backendActions s b x = .ok l) (ha : a ∈ l) (hwork : ∀ s', Move m s a s' → s'.work < s.work) :
    Drains m s := by
  obtain ⟨as, hacts, hbackend, -⟩ := actions_defined h
  have hmem := hbackend b x l a hb hl ha
  obtain ⟨s', hs'⟩ := nextState_defined h hacts hmem
  exact ⟨as, a, s', hacts, hmem, hs', hwork s' (move_of_step hacts hmem hs')⟩

variable {fr : Frame}

theorem Sound.offered_frame (h : Sound m s) {a : Action} (hf : s.frames[f]? = some fr)
    (ha : a ∈ frameActions f fr) (hwork : ∀ s', Move m s a s' → s'.work < s.work) : Drains m s := by
  obtain ⟨as, hacts, -, hframe⟩ := actions_defined h
  have hmem := hframe f fr a hf ha
  obtain ⟨s', hs'⟩ := nextState_defined h hacts hmem
  exact ⟨as, a, s', hacts, hmem, hs', hwork s' (move_of_step hacts hmem hs')⟩

/-! ## One thing at a time -/

theorem drains_flushing (h : Sound m s) {q o : Nat} (hf : s.frames[f]? = some (.flushing q p o)) : Drains m s := by
  refine h.offered_frame hf (a := .flushDone f true) (by simp [frameActions]) ?_
  intro s' hm
  cases hm with
  | flushOk hf' =>
    rw [hf] at hf'
    cases hf'
    exact work_frame hf rfl (Nat.le_refl _) (by decide : 3 < 4)

theorem drains_loading (h : Sound m s) {io : Bool} (hf : s.frames[f]? = some (.loading p io)) : Drains m s := by
  cases io with
  | false =>
    refine h.offered_frame hf (a := .submit f) (by simp [frameActions]) ?_
    intro s' hm
    cases hm with
    | submit hf' => exact work_frame hf' rfl (Nat.le_refl _) (by decide : 1 < 2)
  | true =>
    refine h.offered_frame hf (a := .loadDone f true) (by simp [frameActions]) ?_
    intro s' hm
    cases hm with
    | loadOk hf' hd =>
      obtain ⟨hbs, -⟩ := foldl_handOff f true s.backends ⟨[], 0, .none⟩
      rw [← hd] at hbs
      refine work_frame hf' rfl ?_ (by decide : 0 < 1)
      simp only [hbs, nil_append, map_map]
      exact sum_le_sum fun x _ => work_handed f x

theorem drains_access (h : Sound m s) (hb : s.backends[b]? = some x) (hx : x = .reading f p ∨ x = .writing f p) :
    Drains m s := by
  refine h.offered_backend hb (l := [.endAccess b]) (a := .endAccess b) ?_ (by simp) ?_
  · rcases hx with rfl | rfl <;> rfl
  · intro s' hm
    cases hm with
    | endAccess hb' _ =>
      rw [hb] at hb'
      cases hb'
      refine work_backend hb rfl rfl ?_
      rcases hx with rfl | rfl <;> exact (by decide : 1 < 2)

theorem drains_pinned (h : Sound m s) (hb : s.backends[b]? = some (.pinned f p)) : Drains m s := by
  refine h.offered_backend hb rfl (a := .unpin b) (by simp) ?_
  intro s' hm
  cases hm with
  | unpin hb' hf hr =>
    refine work_both hb' hf rfl rfl ?_
    rw [hb] at hb'
    cases hb'
    obtain ⟨n, d, hf'⟩ := h.pins.backend hb
    rw [hf] at hf'
    cases hf'
    obtain ⟨k, -, hk⟩ := except_bind_ok.1 hr
    cases hk
    exact (by decide : 0 + 0 < 1 + 0)

theorem drains_waiting (h : Sound m s) (hb : s.backends[b]? = some (.waiting f p r)) : Drains m s := by
  refine h.offered_backend hb rfl (a := .cancel b) (by simp) ?_
  intro s' hm
  cases hm with
  | cancel hb' => exact work_backend hb' rfl rfl (by decide : 0 < 2)

/-- No frame is being written back. -/
def Flushed (s : State) : Prop := ∀ f q p o : Nat, s.frames[f]? ≠ some (.flushing q p o)

/-- A mapped page can then be joined. -/
theorem Flushed.joinable (h : Flushed s) (hmap : Mapping s) (ht : s.pageTable[p]? = some (some f))
    (hf : s.frames[f]? = some fr) : fr.isJoinable = true := by
  obtain ⟨fr', hf', hpub⟩ := hmap.frame_of_table ht
  rw [hf] at hf'
  cases hf'
  cases fr with
  | ready q n d => rfl
  | loading q io => rfl
  | flushing q t o => exact absurd hf (h f q t o)
  | free | reserved t o => cases hpub

theorem drains_reserved (h : Sound m s) (hflushed : Flushed s) (hb : s.backends[b]? = some (.reserved f p r)) :
    Drains m s := by
  obtain ⟨fr, hf, hfr⟩ := Option.bind_eq_some_iff.1 ((h.owners b f p).1 (reservedBy_of hb))
  cases fr <;> cases hfr
  · refine h.offered_backend hb (l := [.publish b]) (a := .publish b) ?_ (by simp) ?_
    · simp only [backendActions, index_of hf, Result.ok_bind]
      rfl
    · intro s' hm
      cases hm with
      | @publishLost _ p' f' w _ _ r' s1 hb' hf' ht hj =>
        -- giving the frame back lowers the weight, and so does joining the winner
        rw [hb] at hb'
        cases hb'
        have hfree : State.work { s with frames := s.frames.set f .free, event := .none } < s.work :=
          work_frame hf' rfl (Nat.le_refl _) (by decide : 0 < 3)
        have hjoin : s1.work < State.work { s with frames := s.frames.set f .free, event := .none } := by
          refine work_joined hj hb (by decide : 2 < 3) (fun fr hw => ?_)
          have hne : f ≠ w := by
            intro he
            subst he
            obtain ⟨fr', hfr', hpub⟩ := h.mapping.frame_of_table ht
            rw [hf'] at hfr'
            cases hfr'
            cases hpub
          rw [getElem?_set_ne hne] at hw
          exact hflushed.joinable h.mapping ht hw
        exact Nat.lt_trans hjoin hfree
      | publishWon hb' hf' _ => exact work_both hb' hf' rfl rfl (by decide : 2 + 2 < 3 + 3)
  · exact absurd hf (hflushed _ _ _ _)

theorem drains_request (h : Sound m s) (hflushed : Flushed s) (hb : s.backends[b]? = some (.request p r)) :
    Drains m s := by
  obtain ⟨o, ho⟩ := mappedFrame_defined h hb rfl
  refine h.offered_backend hb (l := [.lookup b]) (a := .lookup b) ?_ (by simp) ?_
  · simp only [backendActions, ho, Result.ok_bind]
    split
    · -- the mapped frame is one of the frames
      exfalso
      unfold State.mappedFrame at ho
      obtain ⟨t, _, ho⟩ := except_bind_ok.1 ho
      split at ho
      · cases ho
      · obtain ⟨fr, hfr, ho⟩ := except_bind_ok.1 ho
        cases ho
        exact hflushed _ _ _ _ (Result.index_eq_ok.1 hfr)
    · rfl
  · intro s' hm
    cases hm with
    | lookupMiss hb' _ =>
      rw [hb] at hb'
      obtain ⟨rfl, rfl⟩ : p = _ ∧ r = _ := by simpa using hb'
      exact work_backend hb rfl rfl (by decide : 8 < 9)
    | lookupHit hb' ht hj =>
      rw [hb] at hb'
      obtain ⟨rfl, rfl⟩ : p = _ ∧ r = _ := by simpa using hb'
      have hjoin := work_joined hj hb (by decide : 2 < 9) (fun fr hf => hflushed.joinable h.mapping ht hf)
      exact hjoin

/-- A miss takes any frame that is free or ready without a pin. -/
theorem drains_miss (h : Sound m s) (hb : s.backends[b]? = some (.miss p r)) (hf : s.frames[f]? = some fr)
    (hv : fr.isVictim = true) : Drains m s := by
  obtain ⟨o, ho⟩ := mappedFrame_defined h hb rfl
  refine h.offered_backend hb (a := .reserve b f) (by simp only [backendActions, ho, Result.ok_bind]; rfl) ?_ ?_
  · refine mem_append_right _ (mem_flatMap.2 ⟨(fr, f), mem_zipIdx_iff_getElem?.2 hf, ?_⟩)
    simp [hv]
  · intro s' hm
    cases hm with
    | reserveDirty hb' hf' => exact work_both hb' hf' rfl rfl (by decide : 3 + 4 < 8 + 0)
    | reserveClean hb' hf' | reserveFree hb' hf' => exact work_both hb' hf' rfl rfl (by decide : 3 + 3 < 8 + 0)

/-! ## Nothing is ever stuck -/

/-- When nothing drains, every backend is idle or has missed. -/
theorem idle_or_miss (h : Sound m s) (hstuck : ¬ Drains m s) (hflushed : Flushed s)
    (hb : s.backends[b]? = some x) : x = .idle ∨ ∃ p r, x = .miss p r := by
  cases x with
  | idle => exact .inl rfl
  | miss p r => exact .inr ⟨p, r, rfl⟩
  | request p r => exact absurd (drains_request h hflushed hb) hstuck
  | reserved f p r => exact absurd (drains_reserved h hflushed hb) hstuck
  | waiting f p r => exact absurd (drains_waiting h hb) hstuck
  | pinned f p => exact absurd (drains_pinned h hb) hstuck
  | reading f p => exact absurd (drains_access h hb (.inl rfl)) hstuck
  | writing f p => exact absurd (drains_access h hb (.inr rfl)) hstuck

/-- When moreover no backend holds a pin or a reservation, every frame is a victim. -/
theorem victim_of_stuck (h : Sound m s) (hstuck : ¬ Drains m s) (hflushed : Flushed s)
    (hf : s.frames[f]? = some fr) : fr = .free ∨ ∃ p d, fr = .ready p 0 d := by
  cases fr with
  | free => exact .inl rfl
  | ready p n d =>
    refine .inr ⟨p, d, ?_⟩
    have hzero : s.pinners f = 0 := by
      rw [State.pinners, countP_eq_zero]
      intro x hx
      obtain ⟨b, hb⟩ := mem_iff_getElem?.1 hx
      rcases idle_or_miss h hstuck hflushed hb with rfl | ⟨p, r, rfl⟩ <;> exact Bool.false_ne_true
    rw [h.pins.count hf, hzero]
  | loading p io => exact absurd (drains_loading h hf) hstuck
  | flushing q p o => exact absurd hf (hflushed f q p o)
  | reserved p o =>
    -- its owner would still have the reservation
    obtain ⟨x, hb, hx⟩ := Option.bind_eq_some_iff.1 ((h.owners o f p).2 (reservedFor_of hf))
    rcases idle_or_miss h hstuck hflushed hb with rfl | ⟨q, r, rfl⟩ <;> cases hx

/-- **A state in which nothing drains is quiescent.** -/
theorem quiescent_of_stuck (h : Sound m s) (hstuck : ¬ Drains m s) : Quiescent s := by
  have hflushed : Flushed s := fun f q p o hf => hstuck (drains_flushing h hf)
  constructor
  · intro x hx
    obtain ⟨b, hb⟩ := mem_iff_getElem?.1 hx
    rcases idle_or_miss h hstuck hflushed hb with rfl | ⟨p, r, rfl⟩
    · rfl
    · -- there is at least one frame, and the miss could take it
      exfalso
      have hpos : 0 < s.frames.length := by
        rw [h.inRange.frames]
        exact m.frameCount_pos
      have hf := getElem?_eq_getElem hpos
      have hv : s.frames[0].isVictim = true := by
        rcases victim_of_stuck h hstuck hflushed hf with he | ⟨q, d, he⟩ <;> rw [he] <;> rfl
      exact hstuck (drains_miss h hb hf hv)
  · intro fr hfr
    obtain ⟨f, hf⟩ := mem_iff_getElem?.1 hfr
    exact victim_of_stuck h hstuck hflushed hf

theorem drain (n : Nat) : ∀ {s : State}, Sound m s → s.work < n →
    ∃ acts s', m.replay s acts = some s' ∧ Quiescent s' := by
  induction n with
  | zero =>
    intro s _ hn
    omega
  | succ n ih =>
    intro s h hn
    by_cases hstuck : Drains m s
    · obtain ⟨as, a, s1, hacts, ha, hs1, hwork⟩ := hstuck
      obtain ⟨acts, s', hrun, hq⟩ := ih (h.move (move_of_step hacts ha hs1)) (by omega)
      refine ⟨a :: acts, s', ?_, hq⟩
      simp only [replay, hacts, hs1, if_pos ha]
      exact hrun
    · exact ⟨[], s, rfl, quiescent_of_stuck h hstuck⟩

/-- **No stuck frame or backend, for every size.**  From every reachable state some list of enabled actions
leads to a state in which every backend is idle and every frame is free or ready without a pin. -/
theorem never_stuck (m : BufferModel) :
    ∀ s, m.Reachable s → ∃ acts s', m.replay s acts = some s' ∧ Quiescent s' := by
  intro s hs
  exact drain (s.work + 1) (reachable_sound hs) (Nat.lt_succ_self _)

/-- One frame, two pages, two backends: one has the frame reserved for write-back, the other has missed. -/
theorem never_stuck_behind_writeback :
    let m : BufferModel := ⟨1, 2, 2, by decide, by decide, by decide⟩
    let s : State := ⟨[.flushing 0 1 0], [.reserved 0 1 false, .miss 1 false], [some 0, none], .none⟩
    m.Reachable s ∧ ∃ acts s', m.replay s acts = some s' ∧ Quiescent s' := by
  intro m s
  have hs : m.Reachable s := BufferModel.replay_reachable
    [.request 0 0, .lookup 0, .reserve 0 0, .publish 0, .submit 0, .loadDone 0 true, .write 0, .endAccess 0,
      .unpin 0, .request 0 1, .request 1 1, .lookup 0, .lookup 1, .reserve 0 0]
    (BufferModel.Reachable.init (s := ⟨[.free], [.idle, .idle], [none, none], .none⟩)
      (mem_singleton.2 rfl)) rfl
  exact ⟨hs, never_stuck m s hs⟩

end ChiliDB.Models
