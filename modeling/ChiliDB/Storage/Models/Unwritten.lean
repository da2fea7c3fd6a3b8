import ChiliDB.Storage.Models.Owners
import Mathlib.Data.Set.Insert

/-!
# No dirty page is lost

The model has no contents, so which pages carry changes that were never written back is a history
variable: `unwritten` adds a page at every `Write` of it and removes it at the `FlushDone` that wrote it.

* `Tracked m s U` — a run of the checker that ends in `s`, with the pages `U` unwritten.
* `Frame.dirtyPage` — the page whose only copy may be the frame.
* `dirtyPage_kept` — a move other than a successful write-back keeps every dirty page where it is.

Principal result: `no_lost_dirty_page`.
-/

namespace ChiliDB.Models

open Effect

/-- The unwritten pages after an action. -/
def State.unwritten (s : State) (U : Set Nat) : Action → Set Nat
  | .write b =>
    match s.backends[b]? with
    | some (.pinned _ p) => insert p U
    | _ => U
  | .flushDone f true =>
    match s.frames[f]? with
    | some (.flushing q _ _) => U \ {q}
    | _ => U
  | _ => U

/-- The reachable states of the model with its history variable. -/
inductive Tracked (m : BufferModel) : State → Set Nat → Prop where
  | init {s : State} : s ∈ m.initStates → Tracked m s ∅
  | step {s s' : State} {U : Set Nat} {a : Action} {as : List Action} : Tracked m s U →
      m.actions s = .ok as → a ∈ as → BufferModel.nextState s a = .ok s' →
      Tracked m s' (s.unwritten U a)

/-- The page that a frame holds with changes: ready and dirty, or being written back. -/
def Frame.dirtyPage : Frame → Option Nat
  | .ready p _ true => some p
  | .flushing q _ _ => some q
  | _ => none

variable {s s' : State} {m : BufferModel} {U : Set Nat}

theorem Tracked.reachable (h : Tracked m s U) : m.Reachable s := by
  induction h with
  | init hs => exact .init hs
  | step _ hacts ha hn ih => exact .step ih hacts ha hn

theorem tracked_of_reachable (h : m.Reachable s) : ∃ U, Tracked m s U := by
  induction h with
  | init hs => exact ⟨∅, .init hs⟩
  | step _ hacts ha hn ih =>
    obtain ⟨U, hU⟩ := ih
    exact ⟨_, hU.step hacts ha hn⟩

variable {fr : Frame} {p : Nat}

theorem published_of_dirtyPage (h : fr.dirtyPage = some p) : State.published fr = some p := by
  unfold Frame.dirtyPage at h
  split at h <;> cases h <;> rfl

/-! ## A dirty page stays in its frame -/

variable {f g b : Nat} {fr' : Frame} {a : Action}

/-- Frame `f` alone changes, and keeps its dirty page if it has one. -/
theorem dirtyPage_set (hf : s.frames[f]? = some fr) (hf' : s'.frames = s.frames.set f fr')
    (hk : fr.dirtyPage = some p → fr'.dirtyPage = some p) (hg : s.frames[g]?.bind Frame.dirtyPage = some p) :
    s'.frames[g]?.bind Frame.dirtyPage = some p := by
  have hlt := lt_of_get hf
  rw [hf']
  by_cases hfg : f = g
  · subst hfg
    rw [hf] at hg
    rw [List.getElem?_set_self hlt]
    exact hk hg
  · rw [List.getElem?_set_ne hfg]
    exact hg

theorem dirtyPage_joined {q : Nat} {r : Bool} (hj : Joined s b f q r s')
    (hg : s.frames[g]?.bind Frame.dirtyPage = some p) : s'.frames[g]?.bind Frame.dirtyPage = some p := by
  cases hj with
  | @ready _ _ d hf =>
    refine dirtyPage_set hf rfl (fun hd => ?_) hg
    cases d <;> exact hd
  | loading _ | again _ _ => exact hg

theorem dirtyPage_releasePin (h : fr.releasePin = .ok fr') (hp : fr.dirtyPage = some p) :
    fr'.dirtyPage = some p := by
  cases fr with
  | ready q n d =>
    obtain ⟨k, -, hk⟩ := except_bind_ok.1 h
    cases hk
    cases d <;> exact hp
  | free | reserved p o | flushing q p o | loading p io => cases h; exact hp

/-- **Only a successful write-back takes a dirty page out of its frame.** -/
theorem dirtyPage_kept (hm : Move m s a s') (ha : a ≠ .flushDone g true)
    (hg : s.frames[g]?.bind Frame.dirtyPage = some p) : s'.frames[g]?.bind Frame.dirtyPage = some p := by
  cases hm with
  | request _ _ | lookupMiss _ _ | cancel _ | read _ _ | endAccess _ _ => exact hg
  | lookupHit _ _ hj => exact dirtyPage_joined hj hg
  | reserveDirty _ hf | flushFail hf _ => exact dirtyPage_set hf rfl id hg
  | reserveClean _ hf | reserveFree _ hf | publishWon _ hf _ | submit hf | loadOk hf _
  | loadFail hf _ => exact dirtyPage_set hf rfl (fun hd => by cases hd) hg
  | @publishLost _ _ f _ _ _ _ s1 _ hf _ hj =>
    have hfree : ({ s with frames := s.frames.set f .free } : State).frames[g]?.bind Frame.dirtyPage =
        some p := dirtyPage_set hf rfl (fun hd => by cases hd) hg
    have hjoined : s1.frames[g]?.bind Frame.dirtyPage = some p := dirtyPage_joined hj hfree
    exact hjoined
  | @flushOk f q t o hf =>
    have hne : f ≠ g := fun he => ha (by rw [he])
    show (s.frames.set f (.reserved t o))[g]?.bind Frame.dirtyPage = some p
    rw [List.getElem?_set_ne hne]
    exact hg
  | @write _ _ _ fr _ _ hf =>
    refine dirtyPage_set hf rfl (fun hd => ?_) hg
    unfold Frame.dirtyPage at hd
    split at hd <;> cases hd <;> rfl
  | unpin _ hf hr => exact dirtyPage_set hf rfl (dirtyPage_releasePin hr) hg

/-- The frames hold every unwritten page. -/
def Holds (s : State) (U : Set Nat) : Prop := ∀ p ∈ U, ∃ f : Nat, s.frames[f]?.bind Frame.dirtyPage = some p

/-- A write leaves its page dirty in its frame. -/
theorem dirtyPage_write (h : Pins s) (hb : s.backends[b]? = some (.pinned f p)) (hm : Move m s (.write b) s') :
    s'.frames[f]?.bind Frame.dirtyPage = some p := by
  cases hm with
  | write hb' _ hf =>
    rw [hb] at hb'
    cases hb'
    obtain ⟨n, d, hready⟩ := h.backend hb
    rw [hf] at hready
    cases hready
    show (s.frames.set f _)[f]?.bind Frame.dirtyPage = some p
    rw [List.getElem?_set_self (lt_of_get hf)]
    rfl

theorem Holds.move (h : Holds s U) (hs : Sound m s) (hm : Move m s a s') : Holds s' (s.unwritten U a) := by
  intro p hp
  by_cases hU : p ∈ U
  · obtain ⟨f, hf⟩ := h p hU
    by_cases ha : a = .flushDone f true
    · -- the write-back of this very frame has removed the page from the unwritten ones
      subst ha
      exfalso
      obtain ⟨fr, hfr, hdirty⟩ := Option.bind_eq_some_iff.1 hf
      cases hm with
      | flushOk hf' =>
        rw [hfr] at hf'
        cases hf'
        cases hdirty
        simp [State.unwritten, hfr] at hp
    · exact ⟨f, dirtyPage_kept hm ha hf⟩
  · -- the page has just been written
    unfold State.unwritten at hp
    split at hp
    · split at hp
      · rename_i b _ f q hb
        rcases hp with rfl | hp
        · exact ⟨f, dirtyPage_write hs.pins hb hm⟩
        · exact absurd hp hU
      · exact absurd hp hU
    · split at hp
      · exact absurd hp.1 hU
      · exact absurd hp hU
    · exact absurd hp hU

theorem Tracked.holds (h : Tracked m s U) : Holds s U := by
  induction h with
  | init _ => exact fun p hp => by cases hp
  | step hs hacts ha hn ih => exact ih.move (reachable_sound hs.reachable) (move_of_step hacts ha hn)

/-- **No dirty page is lost, for every size.**  Every run has its unwritten pages; each of them is held by
exactly one frame, which is `Ready` and dirty or `Flushing` with it as the old page; and a step other than
a successful `FlushDone` keeps every unwritten page unwritten, and its frame's copy dirty. -/
theorem no_lost_dirty_page (m : BufferModel) :
    (∀ s, m.Reachable s → ∃ U, Tracked m s U) ∧
    ∀ s U, Tracked m s U →
      (∀ p ∈ U, ∃ f : Nat, ((∃ n, s.frames[f]? = some (.ready p n true)) ∨
          (∃ t o, s.frames[f]? = some (.flushing p t o))) ∧
        ∀ g : Nat, s.frames[g]?.bind State.published = some p → g = f) ∧
      ∀ as a s', m.actions s = .ok as → a ∈ as → BufferModel.nextState s a = .ok s' →
        (∀ f, a ≠ .flushDone f true) →
        ∀ p ∈ U, p ∈ s.unwritten U a ∧ ∀ f : Nat, s.frames[f]?.bind Frame.dirtyPage = some p →
          s'.frames[f]?.bind Frame.dirtyPage = some p := by
  refine ⟨fun s hs => tracked_of_reachable hs, ?_⟩
  intro s U h
  have hmap := reachable_mapping h.reachable
  constructor
  · intro p hp
    obtain ⟨f, hf⟩ := h.holds p hp
    obtain ⟨fr, hfr, hdirty⟩ := Option.bind_eq_some_iff.1 hf
    refine ⟨f, ?_, ?_⟩
    · unfold Frame.dirtyPage at hdirty
      split at hdirty <;> cases hdirty
      · exact .inl ⟨_, hfr⟩
      · exact .inr ⟨_, _, hfr⟩
    · intro g hg
      obtain ⟨fg, hfg, hpub⟩ := Option.bind_eq_some_iff.1 hg
      have htable := hmap.table_of_frame hfg hpub
      rw [hmap.table_of_frame hfr (published_of_dirtyPage hdirty)] at htable
      cases htable
      rfl
  · intro as a s' hacts ha hn hne p hp
    refine ⟨?_, fun f hf => dirtyPage_kept (move_of_step hacts ha hn) (hne f) hf⟩
    unfold State.unwritten
    split
    · split
      · exact Set.mem_insert_of_mem _ hp
      · exact hp
    · exact absurd rfl (hne _)
    · exact hp

/-- One frame, two pages, one backend: the page it has written is held by its frame. -/
theorem no_lost_dirty_page_after_write :
    let m : BufferModel := ⟨1, 2, 1, by decide, by decide, by decide⟩
    let s : State := ⟨[.ready 1 1 true], [.writing 0 1], [none, some 0], .none⟩
    ∃ U, Tracked m s U ∧ 1 ∈ U ∧ ∀ g : Nat, s.frames[g]?.bind State.published = some 1 → g = 0 := by
  intro m s
  have hs : m.Reachable ⟨[.ready 1 1 false], [.pinned 0 1], [none, some 0], .none⟩ :=
    BufferModel.replay_reachable
      [.request 0 1, .lookup 0, .reserve 0 0, .publish 0, .submit 0, .loadDone 0 true]
      (BufferModel.Reachable.init (s := ⟨[.free], [.idle], [none, none], .none⟩)
        (List.mem_singleton.2 rfl)) rfl
  obtain ⟨U, hU⟩ := (no_lost_dirty_page m).1 _ hs
  have hwrite : Tracked m s (insert 1 U) :=
    hU.step rfl (show Action.write 0 ∈ [.unpin 0, .read 0, .write 0] by decide) rfl
  obtain ⟨f, _, hunique⟩ := ((no_lost_dirty_page m).2 _ _ hwrite).1 1 (Set.mem_insert 1 U)
  have hf : 0 = f := hunique 0 rfl
  subst hf
  exact ⟨_, hwrite, Set.mem_insert 1 U, hunique⟩

end ChiliDB.Models
