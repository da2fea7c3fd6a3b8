import ChiliDB.Storage.Basic

/-!
# Concurrent flushes and writes of one resident page

One frame and its stored page, with any number of threads that run `BufferPool::flush_page` and
`PinnedBuffer::write` on it.  Each thread takes one step at a time; the content latch is shared by
flushers and exclusive to a writer.

* `flush_page` acquires the shared latch, loads the dirty bit, calls `write_page` if it was set,
  clears the bit when the call succeeds and releases the latch.  A failing `write_page` leaves
  arbitrary bytes in the stored page.
* `write` acquires the exclusive latch, sets the dirty bit, runs the callback and releases.

Two flushers hold the latch together, so both can load `dirty = true` before either writes.  If one
of them writes and clears the bit and the other one's `write_page` then fails, the page is clean
although the store holds the torn bytes (`torn_page_is_clean`).

`CleanFailure` is the condition on a failing `write_page` under which this does not happen;
`clean_page_matches_store` — in every run whose failures all meet it, a clean page equals its
stored bytes whenever nobody holds the latch.
-/

namespace ChiliDB.Latch

open List

/-- Where a thread stands inside its call. -/
inductive Pc where
  | idle
  /-- `flush_page`, shared latch held. -/
  | flushLatched
  /-- `flush_page`, dirty bit loaded. -/
  | flushLoaded (dirty : Bool)
  /-- `flush_page`, `write_page` succeeded, the dirty bit is not yet cleared. -/
  | flushWritten
  /-- `flush_page`, about to release the latch. -/
  | flushDone
  /-- `write`, exclusive latch held. -/
  | writeLatched
  /-- `write`, dirty bit set, the callback has not run. -/
  | writeDirtied
  /-- `write`, about to release the latch. -/
  | writeDone
  deriving DecidableEq, Repr

/-- The thread holds the latch exclusively. -/
def Pc.exclusive : Pc → Bool
  | .writeLatched | .writeDirtied | .writeDone => true
  | _ => false

/-- The resident page, its stored copy, the dirty bit and the threads. -/
structure State where
  data : Page
  stored : Page
  dirty : Bool
  threads : List Pc

inductive Act where
  | acquireShared
  | loadDirty
  | writePage
  /-- `write_page` returned an error and left these bytes in the store. -/
  | writePageFails (torn : Page)
  | clearDirty
  | releaseShared
  | acquireExclusive
  | setDirty
  /-- The write callback, which leaves these bytes in the frame. -/
  | callback (data : Page)
  | releaseExclusive

/-- One step of thread `t`; `none` if its program is not at this point or the latch is taken. -/
def step (s : State) (t : Nat) (a : Act) : Option State :=
  match s.threads[t]?, a with
  | some .idle, .acquireShared =>
    if s.threads.any Pc.exclusive then none
    else some { s with threads := s.threads.set t .flushLatched }
  | some .flushLatched, .loadDirty =>
    some { s with threads := s.threads.set t (.flushLoaded s.dirty) }
  | some (.flushLoaded true), .writePage =>
    some { s with stored := s.data, threads := s.threads.set t .flushWritten }
  | some (.flushLoaded true), .writePageFails torn =>
    some { s with stored := torn, threads := s.threads.set t .flushDone }
  | some .flushWritten, .clearDirty =>
    some { s with dirty := false, threads := s.threads.set t .flushDone }
  | some (.flushLoaded false), .releaseShared => some { s with threads := s.threads.set t .idle }
  | some .flushDone, .releaseShared => some { s with threads := s.threads.set t .idle }
  | some .idle, .acquireExclusive =>
    if s.threads.all (· == .idle) then some { s with threads := s.threads.set t .writeLatched }
    else none
  | some .writeLatched, .setDirty =>
    some { s with dirty := true, threads := s.threads.set t .writeDirtied }
  | some .writeDirtied, .callback data =>
    some { s with data := data, threads := s.threads.set t .writeDone }
  | some .writeDone, .releaseExclusive => some { s with threads := s.threads.set t .idle }
  | _, _ => none

/-- Nobody holds the latch. -/
def Quiet (s : State) : Prop := ∀ pc ∈ s.threads, pc = .idle

/-- A clean page equals its stored bytes. -/
def Coherent (s : State) : Prop := s.dirty = false → s.stored = s.data

/-- Runs from a quiet coherent state (a page that was just loaded or allocated) in which every
step meets `C`. -/
inductive Run (C : State → Nat → Act → Prop) : State → Prop where
  | start {s : State} : Quiet s → Coherent s → Run C s
  | step {s s' : State} {t : Nat} {a : Act} : Run C s → C s t a → step s t a = some s' → Run C s'

/-- A failing `write_page` is harmless: it left the frame's bytes, or the dirty bit is still set and
no other flusher is about to clear it. -/
def CleanFailure (s : State) (_t : Nat) : Act → Prop
  | .writePageFails torn => torn = s.data ∨ (s.dirty = true ∧ Pc.flushWritten ∉ s.threads)
  | _ => True

/-! ## The latch -/

/-- An exclusive holder is the only thread inside a call. -/
def Alone (threads : List Pc) : Prop :=
  ∀ (t u : Nat) (pc pc' : Pc), threads[t]? = some pc → pc.exclusive = true →
    threads[u]? = some pc' → u ≠ t → pc' = .idle

variable {s s' : State} {threads : List Pc} {t : Nat}

theorem Alone.not_exclusive (h : Alone threads) {x : Pc} (ht : threads[t]? = some x) (hx : x ≠ .idle)
    {u : Nat} {pc : Pc} (hu : threads[u]? = some pc) (hne : u ≠ t) : pc.exclusive = false := by
  by_contra hpc
  exact hx (h u t pc x hu (by simpa using hpc) ht hne.symm)

/-- Thread `t` moves to `y`; an exclusive `y` needs the others idle, any other `y` inside a call
needs that nobody else is exclusive. -/
theorem Alone.set (h : Alone threads) {y : Pc}
    (h1 : y.exclusive = true → ∀ u pc, threads[u]? = some pc → u ≠ t → pc = .idle)
    (h2 : y ≠ .idle → ∀ u pc, threads[u]? = some pc → u ≠ t → pc.exclusive = false) :
    Alone (threads.set t y) := by
  intro a b pc pc' ha hpc hb hne
  rw [getElem?_set] at ha hb
  split at ha
  · rename_i hat
    subst hat
    rw [if_neg hne.symm] at hb
    split at ha
    · cases ha; exact h1 hpc b pc' hb hne
    · cases ha
  · rename_i hat
    split at hb
    · split at hb
      · cases hb
        by_contra hy
        have := h2 hy a pc ha (fun he => hat he.symm)
        rw [hpc] at this; cases this
      · cases hb
    · exact h a b pc pc' ha hpc hb hne

/-! ## The invariant of a run -/

/-- The stored page equals the frame whenever the page is clean or about to be marked clean. -/
structure Inv (s : State) : Prop where
  coherent : s.dirty = false ∨ Pc.flushWritten ∈ s.threads → s.stored = s.data
  alone : Alone s.threads
  dirtied : Pc.writeDirtied ∈ s.threads ∨ Pc.writeDone ∈ s.threads → s.dirty = true

theorem Inv.start (hq : Quiet s) (hc : Coherent s) : Inv s := by
  refine ⟨?_, ?_, ?_⟩
  · rintro (hd | hw)
    · exact hc hd
    · cases hq _ hw
  · intro t u pc pc' ht hpc hu _
    exact hq _ (mem_iff_getElem?.2 ⟨u, hu⟩)
  · rintro (hw | hw) <;> cases hq _ hw

/-- A step inside `flush_page` that leaves the frame alone: the latch stays shared. -/
theorem Inv.flusher (h : Inv s) {x y : Pc} (ht : s.threads[t]? = some x) (hx : x ≠ .idle)
    (hy : y.exclusive = false) (ht' : s'.threads = s.threads.set t y)
    (hc : s'.dirty = false ∨ Pc.flushWritten ∈ s'.threads → s'.stored = s'.data)
    (hd : s'.dirty = s.dirty ∨ x.exclusive = false) : Inv s' := by
  refine ⟨hc, ?_, ?_⟩
  · rw [ht']
    exact h.alone.set (fun he => by rw [hy] at he; cases he)
      (fun _ u pc hu hne => h.alone.not_exclusive ht hx hu hne)
  · intro hw
    have hmem : Pc.writeDirtied ∈ s.threads ∨ Pc.writeDone ∈ s.threads := by
      rw [ht'] at hw
      rcases hw with hw | hw <;> rcases mem_or_eq_of_mem_set hw with hw | rfl
      · exact .inl hw
      · cases hy
      · exact .inr hw
      · cases hy
    rcases hd with hd | hd
    · rw [hd]; exact h.dirtied hmem
    · -- a writer past `setDirty` would make this thread idle
      obtain ⟨pc, hpc, hex⟩ : ∃ pc ∈ s.threads, pc.exclusive = true := by
        rcases hmem with hw | hw <;> exact ⟨_, hw, rfl⟩
      obtain ⟨u, hu⟩ := mem_iff_getElem?.1 hpc
      by_cases hut : u = t
      · subst hut
        rw [ht] at hu; cases hu
        rw [hex] at hd; cases hd
      · rw [h.alone.not_exclusive ht hx hu hut] at hex; cases hex

/-- A step of a writer: every other thread is idle. -/
theorem Inv.writer (h : Inv s) {x y : Pc} (ht : s.threads[t]? = some x) (hx : x.exclusive = true)
    (hy : y ≠ .flushWritten) (ht' : s'.threads = s.threads.set t y)
    (hc : s'.dirty = false → s'.stored = s'.data)
    (hd : y = .writeDirtied ∨ y = .writeDone → s'.dirty = true) : Inv s' := by
  have hothers : ∀ u pc, s.threads[u]? = some pc → u ≠ t → pc = .idle :=
    fun u pc hu hne => h.alone t u x pc ht hx hu hne
  have hidle : ∀ pc ∈ s'.threads, pc = y ∨ pc = .idle := by
    intro pc hpc
    obtain ⟨u, hu⟩ := mem_iff_getElem?.1 hpc
    rw [ht', getElem?_set] at hu
    split at hu
    · split at hu
      · cases hu; exact .inl rfl
      · cases hu
    · rename_i hne
      exact .inr (hothers u pc hu (fun he => hne he.symm))
  refine ⟨?_, ?_, ?_⟩
  · rintro (hdirty | hw)
    · exact hc hdirty
    · rcases hidle _ hw with rfl | he
      · exact absurd rfl hy
      · cases he
  · rw [ht']
    refine h.alone.set (fun _ => hothers) (fun _ u pc hu hne => ?_)
    rw [hothers u pc hu hne]; rfl
  · rintro (hw | hw) <;> rcases hidle _ hw with he | he
    · exact hd (.inl he.symm)
    · cases he
    · exact hd (.inr he.symm)
    · cases he

theorem mem_flushWritten_of_set {y : Pc} (hy : y ≠ .flushWritten)
    (h : Pc.flushWritten ∈ threads.set t y) : Pc.flushWritten ∈ threads := by
  rcases mem_or_eq_of_mem_set h with h | rfl
  · exact h
  · exact absurd rfl hy

/-- **Every step that meets the condition keeps the invariant.** -/
theorem Inv.step {a : Act} (h : Inv s) (hclean : CleanFailure s t a) (hs : step s t a = some s') : Inv s' := by
  unfold Latch.step at hs
  split at hs
  · -- acquireShared: nobody is exclusive
    rename_i ht
    split at hs
    · cases hs
    · rename_i hex
      cases hs
      have hno : ∀ pc ∈ s.threads, pc.exclusive = false := by simpa using hex
      refine ⟨?_, h.alone.set (fun he => by cases he) (fun _ u pc hu _ => ?_), ?_⟩
      · rintro (hd | hw)
        · exact h.coherent (.inl hd)
        · exact h.coherent (.inr (mem_flushWritten_of_set (by decide) hw))
      · exact hno pc (mem_iff_getElem?.2 ⟨u, hu⟩)
      · rintro (hw | hw) <;> rcases mem_or_eq_of_mem_set hw with hw | he
        · exact h.dirtied (.inl hw)
        · cases he
        · exact h.dirtied (.inr hw)
        · cases he
  · rename_i ht
    cases hs
    refine h.flusher ht (by decide) rfl rfl ?_ (.inl rfl)
    rintro (hd | hw)
    · exact h.coherent (.inl hd)
    · exact h.coherent (.inr (mem_flushWritten_of_set (by simp) hw))
  · rename_i ht
    cases hs
    exact h.flusher ht (by decide) rfl rfl (fun _ => rfl) (.inl rfl)
  · -- a failed `write_page`: either the bytes are right anyway, or nobody believes the page clean
    rename_i torn ht
    cases hs
    refine h.flusher ht (by decide) rfl rfl ?_ (.inl rfl)
    rcases hclean with rfl | ⟨hd, hw⟩
    · exact fun _ => rfl
    · rintro (hd' | hw')
      · rw [hd] at hd'; cases hd'
      · exact absurd (mem_flushWritten_of_set (by decide) hw') hw
  · rename_i ht
    cases hs
    exact h.flusher ht (by decide) rfl rfl (fun _ => h.coherent (.inr (mem_iff_getElem?.2 ⟨t, ht⟩))) (.inr rfl)
  · rename_i ht
    cases hs
    refine h.flusher ht (by decide) rfl rfl ?_ (.inl rfl)
    rintro (hd | hw)
    · exact h.coherent (.inl hd)
    · exact h.coherent (.inr (mem_flushWritten_of_set (by decide) hw))
  · rename_i ht
    cases hs
    refine h.flusher ht (by decide) rfl rfl ?_ (.inl rfl)
    rintro (hd | hw)
    · exact h.coherent (.inl hd)
    · exact h.coherent (.inr (mem_flushWritten_of_set (by decide) hw))
  · -- acquireExclusive: everybody is idle
    rename_i ht
    split at hs
    · rename_i hall
      cases hs
      have hidle : ∀ pc ∈ s.threads, pc = .idle := by simpa using hall
      refine ⟨?_, h.alone.set (fun _ u pc hu _ => ?_) (fun _ u pc hu _ => ?_), ?_⟩
      · rintro (hd | hw)
        · exact h.coherent (.inl hd)
        · cases hidle _ (mem_flushWritten_of_set (by decide) hw)
      · exact hidle pc (mem_iff_getElem?.2 ⟨u, hu⟩)
      · rw [hidle pc (mem_iff_getElem?.2 ⟨u, hu⟩)]; rfl
      · rintro (hw | hw) <;> rcases mem_or_eq_of_mem_set hw with hw | he
        · cases hidle _ hw
        · cases he
        · cases hidle _ hw
        · cases he
    · cases hs
  · rename_i ht
    cases hs
    exact h.writer ht rfl (by decide) rfl (fun hd => by cases hd) (fun _ => rfl)
  · rename_i data ht
    cases hs
    have hd := h.dirtied (.inl (mem_iff_getElem?.2 ⟨t, ht⟩))
    exact h.writer ht rfl (by decide) rfl (fun hd' => by rw [hd] at hd'; cases hd') (fun _ => hd)
  · rename_i ht
    cases hs
    exact h.writer ht rfl (by decide) rfl (fun hd => h.coherent (.inl hd))
      (fun he => by rcases he with he | he <;> cases he)
  · cases hs

theorem Run.inv (h : Run CleanFailure s) : Inv s := by
  induction h with
  | start hq hc => exact .start hq hc
  | step _ hclean hs ih => exact ih.step hclean hs

/-- **No clean-but-different page.**  In every run whose failing `write_page` calls all meet
`CleanFailure`, a clean page equals its stored bytes in every state in which nobody holds the
latch. -/
theorem clean_page_matches_store :
    ∀ s, Run CleanFailure s → Quiet s → s.dirty = false → s.stored = s.data :=
  fun _ h _ hd => h.inv.coherent (.inl hd)

/-- A page that two threads are about to flush. -/
def flushing (data stored : Page) (dirty : Bool) (a b : Pc) : State := ⟨data, stored, dirty, [a, b]⟩

theorem dirty_run (C : State → Nat → Act → Prop) (data stored : Page) :
    Run C (flushing data stored true .idle .idle) := by
  refine .start ?_ ?_
  · intro pc hpc
    simpa [flushing] using hpc
  · intro hd
    cases hd

/-- The first flusher's `write_page` fails and leaves the page dirty, the second one's succeeds. -/
theorem retry_run (data stored torn : Page) : Run CleanFailure (flushing data data false .idle .idle) := by
  have h := dirty_run CleanFailure data stored
  have h := h.step (t := 0) (a := .acquireShared) trivial rfl
  have h := h.step (t := 0) (a := .loadDirty) trivial rfl
  have hw : Pc.flushWritten ∉ [Pc.flushLoaded true, Pc.idle] := by decide
  have h := h.step (t := 0) (a := .writePageFails torn) (.inr ⟨rfl, hw⟩) rfl
  have h := h.step (t := 0) (a := .releaseShared) trivial rfl
  have h := h.step (t := 1) (a := .acquireShared) trivial rfl
  have h := h.step (t := 1) (a := .loadDirty) trivial rfl
  have h := h.step (t := 1) (a := .writePage) trivial rfl
  have h := h.step (t := 1) (a := .clearDirty) trivial rfl
  exact h.step (t := 1) (a := .releaseShared) trivial rfl

theorem quiet_flushing (data stored : Page) (dirty : Bool) : Quiet (flushing data stored dirty .idle .idle) := by
  intro pc hpc
  simpa [flushing] using hpc

theorem clean_page_after_retry :
    Run CleanFailure (flushing (Page.filled 1) (Page.filled 1) false .idle .idle) ∧
      (flushing (Page.filled 1) (Page.filled 1) false .idle .idle).stored = Page.filled 1 :=
  have h := retry_run (Page.filled 1) Page.zero (Page.filled 2)
  ⟨h, clean_page_matches_store _ h (quiet_flushing _ _ _) rfl⟩

/-- Both flushers load `dirty = true`; one writes the page and clears the bit, then the other one's
`write_page` fails and leaves `torn`. -/
theorem torn_run (data stored torn : Page) : Run (fun _ _ _ => True) (flushing data torn false .idle .idle) := by
  have h := dirty_run (fun _ _ _ => True) data stored
  have h := h.step (t := 0) (a := .acquireShared) trivial rfl
  have h := h.step (t := 1) (a := .acquireShared) trivial rfl
  have h := h.step (t := 0) (a := .loadDirty) trivial rfl
  have h := h.step (t := 1) (a := .loadDirty) trivial rfl
  have h := h.step (t := 0) (a := .writePage) trivial rfl
  have h := h.step (t := 0) (a := .clearDirty) trivial rfl
  have h := h.step (t := 1) (a := .writePageFails torn) trivial rfl
  have h := h.step (t := 0) (a := .releaseShared) trivial rfl
  exact h.step (t := 1) (a := .releaseShared) trivial rfl

/-- **A failed flush can leave a torn page that the pool believes clean.** -/
theorem torn_page_is_clean :
    ∃ s, Run (fun _ _ _ => True) s ∧ Quiet s ∧ s.dirty = false ∧ s.stored ≠ s.data := by
  refine ⟨_, torn_run (Page.filled 1) Page.zero (Page.filled 2), quiet_flushing _ _ _, rfl, ?_⟩
  intro h
  exact absurd (Page.filled_injective h) (by decide)

end ChiliDB.Latch
