import ChiliDB.Storage.Models.Moves

/-!
# Unique publication and the mapping bijection

`Mapping s` — the page table and the pages the frames publish are inverse to each other.  Every
move changes the published pages in one of three ways: it keeps what a frame publishes
(`Mapping.keep`), takes a page out of the table together with its frame (`Mapping.unpublish`), or
enters a page for a frame that published nothing (`Mapping.publish`).

`reachable_mapping` — the invariant holds in every reachable state, for every size;
`unique_publication_and_bijection` states it as the checker's two properties do.
-/

namespace ChiliDB.Models

open Effect
open State (published)

/-- The page table is inverse to publication. -/
structure Mapping (s : State) : Prop where
  table_of_frame : ∀ {f : Nat} {fr : Frame} {p : Nat}, s.frames[f]? = some fr →
    State.published fr = some p → s.pageTable[p]? = some (some f)
  frame_of_table : ∀ {p f : Nat}, s.pageTable[p]? = some (some f) →
    ∃ fr, s.frames[f]? = some fr ∧ State.published fr = some p

variable {s s' : State} {m : BufferModel}

theorem Mapping.init (hs : s ∈ m.initStates) : Mapping s := by
  rw [BufferModel.initStates, List.mem_singleton] at hs
  subst hs
  constructor
  · intro f fr p hf hp
    simp only [List.getElem?_replicate] at hf
    split at hf <;> cases hf
    cases hp
  · intro p f ht
    simp only [List.getElem?_replicate] at ht
    split at ht <;> cases ht

/-- Only the frames and the page table matter. -/
theorem Mapping.congr (h : Mapping s) (hf : s'.frames = s.frames)
    (ht : s'.pageTable = s.pageTable) : Mapping s' := by
  constructor
  · rw [hf, ht]; exact h.table_of_frame
  · rw [hf, ht]; exact h.frame_of_table

variable {f : Nat} {fr fr' : Frame}

/-- A frame is replaced by one that publishes the same page (or, like it, none). -/
theorem Mapping.keep (h : Mapping s) (hf : s.frames[f]? = some fr) (hf' : s'.frames = s.frames.set f fr')
    (ht' : s'.pageTable = s.pageTable) (hp : published fr' = published fr) : Mapping s' := by
  have hlt : f < s.frames.length := lt_of_get hf
  constructor
  · intro g fg p hg hpg
    rw [hf', List.getElem?_set] at hg
    rw [ht']
    split at hg
    · rename_i e
      cases hg; subst e
      exact h.table_of_frame hf (hp ▸ hpg)
    · exact h.table_of_frame hg hpg
  · intro p g ht
    rw [ht'] at ht
    rw [hf']
    obtain ⟨fg, hg, hpg⟩ := h.frame_of_table ht
    by_cases e : f = g
    · subst e
      rw [hf] at hg; cases hg
      exact ⟨fr', by simp [hlt], hp.trans hpg⟩
    · exact ⟨fg, by simp [e, hg], hpg⟩

/-- A frame that published `q` is replaced by one that publishes nothing, and `q` is unmapped. -/
theorem Mapping.unpublish (h : Mapping s) {q : Nat} (hf : s.frames[f]? = some fr)
    (hf' : s'.frames = s.frames.set f fr') (ht' : s'.pageTable = s.pageTable.set q none)
    (hq : published fr = some q) (hp : published fr' = none) : Mapping s' := by
  have hlt : f < s.frames.length := lt_of_get hf
  have hqt : s.pageTable[q]? = some (some f) := h.table_of_frame hf hq
  constructor
  · intro g fg p hg hpg
    rw [hf', List.getElem?_set] at hg
    rw [ht']
    split at hg
    · cases hg; rw [hp] at hpg; cases hpg
    · rename_i hne
      have hpt := h.table_of_frame hg hpg
      have hpq : q ≠ p := by
        rintro rfl
        rw [hqt] at hpt; cases hpt; exact hne rfl
      simp [hpq, hpt]
  · intro p g ht
    rw [ht', List.getElem?_set] at ht
    rw [hf']
    split at ht
    · split at ht <;> cases ht
    · rename_i hne
      obtain ⟨fg, hg, hpg⟩ := h.frame_of_table ht
      have hfg : f ≠ g := by
        rintro rfl
        rw [hf] at hg; cases hg
        rw [hq] at hpg; cases hpg; exact hne rfl
      exact ⟨fg, by simp [hfg, hg], hpg⟩

/-- A frame that published nothing publishes the unmapped page `p`. -/
theorem Mapping.publish (h : Mapping s) {p : Nat} (hf : s.frames[f]? = some fr)
    (ht : s.pageTable[p]? = some none) (hf' : s'.frames = s.frames.set f fr')
    (ht' : s'.pageTable = s.pageTable.set p (some f)) (hfr : published fr = none)
    (hp : published fr' = some p) : Mapping s' := by
  have hlt : f < s.frames.length := lt_of_get hf
  have hpl : p < s.pageTable.length := lt_of_get ht
  constructor
  · intro g fg q hg hqg
    rw [hf', List.getElem?_set] at hg
    rw [ht']
    split at hg
    · rename_i e
      cases hg; subst e
      rw [hp] at hqg; cases hqg
      simp [hpl]
    · have hqt := h.table_of_frame hg hqg
      have hpq : p ≠ q := by rintro rfl; rw [ht] at hqt; cases hqt
      simp [hpq, hqt]
  · intro q g hq
    rw [ht', List.getElem?_set] at hq
    rw [hf']
    split at hq
    · rename_i e
      cases hq; subst e
      exact ⟨fr', by simp [hlt], hp⟩
    · obtain ⟨fg, hg, hqg⟩ := h.frame_of_table hq
      have hfg : f ≠ g := by
        rintro rfl
        rw [hf] at hg; cases hg
        rw [hfr] at hqg; cases hqg
      exact ⟨fg, by simp [hfg, hg], hqg⟩

theorem Mapping.joined (h : Mapping s) {b p : Nat} {r : Bool} (hj : Joined s b f p r s') : Mapping s' := by
  cases hj with
  | ready hf => exact h.keep hf rfl rfl rfl
  | loading _ | again _ _ => exact h.congr rfl rfl

theorem published_markDirty (fr : Frame) : published fr.markDirty = published fr := by cases fr <;> rfl

theorem published_releasePin (h : fr.releasePin = .ok fr') : published fr' = published fr := by
  cases fr with
  | ready p n d =>
    obtain ⟨k, -, hk⟩ := except_bind_ok.1 h
    cases hk; rfl
  | free | reserved p o | flushing q p o | loading p io => cases h; rfl

/-- **Every move keeps the bijection.** -/
theorem Mapping.move {a : Action} (h : Mapping s) (hm : Move m s a s') : Mapping s' := by
  cases hm with
  | request _ _ | lookupMiss _ _ | cancel _ | read _ _ | endAccess _ _ => exact h.congr rfl rfl
  | lookupHit _ _ hj =>
    have h0 : Mapping { s with event := .none } := h.congr rfl rfl
    exact h0.joined hj
  | reserveDirty _ hf | reserveFree _ hf | submit hf | loadOk hf _
  | flushFail hf _ => exact h.keep hf rfl rfl rfl
  | reserveClean _ hf | loadFail hf _ | flushOk hf => exact h.unpublish hf rfl rfl rfl rfl
  | publishLost _ hf _ hj =>
    have h0 : Mapping { s with frames := s.frames.set _ .free, event := .none } :=
      h.keep hf rfl rfl rfl
    exact (h0.joined hj).congr rfl rfl
  | publishWon _ hf ht => exact h.publish hf ht rfl rfl rfl rfl
  | write _ _ hf => exact h.keep hf rfl rfl (published_markDirty _)
  | unpin _ hf hr => exact h.keep hf rfl rfl (published_releasePin hr)

/-- The bijection holds in every reachable state. -/
theorem reachable_mapping (h : m.Reachable s) : Mapping s := by
  induction h with
  | init hs => exact .init hs
  | step _ hacts ha hn ih => exact ih.move (move_of_step hacts ha hn)

/-- **Unique publication and mapping bijection, for every size.**  No two frames publish one page,
every published page is mapped to its frame, and every mapped page is published by its frame. -/
theorem unique_publication_and_bijection (m : BufferModel) :
    ∀ s, m.Reachable s →
      (∀ f g p : Nat, (s.frames[f]?.bind State.published) = some p →
        (s.frames[g]?.bind State.published) = some p → f = g) ∧
      (∀ f p : Nat, (s.frames[f]?.bind State.published) = some p → s.pageTable[p]? = some (some f)) ∧
      (∀ p f : Nat, s.pageTable[p]? = some (some f) → (s.frames[f]?.bind State.published) = some p) := by
  intro s hs
  have hmap := reachable_mapping hs
  have htable : ∀ f p : Nat, (s.frames[f]?.bind State.published) = some p →
      s.pageTable[p]? = some (some f) := by
    intro f p hp
    obtain ⟨fr, hf, hfr⟩ := Option.bind_eq_some_iff.1 hp
    exact hmap.table_of_frame hf hfr
  refine ⟨?_, htable, ?_⟩
  · intro f g p hf hg
    have h1 := htable f p hf
    rw [htable g p hg] at h1
    cases h1; rfl
  · intro p f ht
    obtain ⟨fr, hf, hfr⟩ := hmap.frame_of_table ht
    rw [hf]; exact hfr

/-- One frame, one page, one backend: the state after the backend has published its load. -/
theorem unique_publication_while_loading :
    let m : BufferModel := ⟨1, 1, 1, by decide, by decide, by decide⟩
    let s : State := ⟨[.loading 0 false], [.waiting 0 0 false], [some 0], .none⟩
    m.Reachable s ∧ s.pageTable[0]? = some (some 0) ∧ s.frames[0]?.bind State.published = some 0 := by
  intro m s
  have hs : m.Reachable s := BufferModel.replay_reachable
    [.request 0 0, .lookup 0, .reserve 0 0, .publish 0]
    (BufferModel.Reachable.init (s := ⟨[.free], [.idle], [none], .none⟩) (List.mem_singleton.2 rfl)) rfl
  exact ⟨hs, (unique_publication_and_bijection m s hs).2.1 0 0 rfl, rfl⟩

end ChiliDB.Models
