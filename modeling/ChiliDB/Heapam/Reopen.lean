import ChiliDB.Heapam.Twin
import ChiliDB.Storage.BufferReads

/-!
# Flushing a heap and opening it again

After a flush the store holds the chain of the heap, and a new pool over the store shows it.  Opening
the head there gives a handle on the same slots, and from then on the two handles cannot be told apart.

* `reads_quiet` — a pool that has nothing to write back serves every read.
* `TwinRun` — the old handle and the reopened one make the same calls.

Principal result: `reopen_is_invisible`.
-/

namespace ChiliDB

open Effect BufferPool

variable {S P P' σ σ' : Type}

/-- A pool with nothing to write back serves every read of an allocated page. -/
theorem reads_quiet (store : PageStore S) (policy : VictimStrategy P) :
    HeapTable.Reads (service store policy) (fun pool => Quiet store policy pool []) (fun _ _ => False) := by
  refine ⟨?_, fun he => he.elim⟩
  intro α pool id page f a hquiet hp hf
  refine HeapTable.ensures_flatten (.bracket ((quiet_pin hquiet hp).mono ?_ (fun _ _ he => he.elim)))
  rintro pin pool1 ⟨hquiet1, rfl, hlogical⟩
  have hp1 : logical store pool1 pin.page = some page := by rw [hlogical]; exact hp
  have hread : ((f page).attempt : Result Empty (Except HeapError α)) = .ok (.ok a) := by rw [hf]; rfl
  refine (quiet_read hquiet1 (f := fun page => (f page).attempt) hp1 hread).mono ?_ (fun _ _ he => he.elim)
  rintro _ _ ⟨rfl, rfl⟩
  refine (quiet_drop hquiet1).mono ?_ (fun _ _ he => he.elim)
  rintro _ pool2 ⟨hquiet2, hlogical2⟩
  refine ⟨fun a' he => ?_, fun _ he => by cases he⟩
  cases he
  exact ⟨hquiet2, hlogical2.trans hlogical, rfl⟩

/-! ## The same calls on two handles -/

/-- Two sessions that make the same calls; at each call the pool fails both or neither. -/
inductive TwinRun (service : PageService σ) (service' : PageService σ') (start : Session σ)
    (start' : Session σ') : Session σ → Session σ' → Prop where
  | start : TwinRun service service' start start' start start'
  | call {ses next : Session σ} {ses' next' : Session σ'} {op op' : HeapCall} {r r' : HeapAnswer} :
      TwinRun service service' start start' ses ses' →
      SameCall ses.heap.table.pages ses'.heap.table.pages op op' →
      ses.call service op = some (r, next) → ses'.call service' op' = some (r', next') →
      (IsBuffer r ↔ IsBuffer r') → TwinRun service service' start start' next next'

variable {service : PageService σ} {service' : PageService σ'} {pins pins' : List PinnedBuffer}
  {chain chain' : Chain} {ses next : Session σ} {ses' next' : Session σ'} {op op' : HeapCall}
  {r r' : HeapAnswer}

/-- Two sessions on the same slots. -/
structure Twins (service : PageService σ) (service' : PageService σ') (chain chain' : Chain)
    (ses : Session σ) (ses' : Session σ') : Prop where
  inv : ∃ pins, SessionInv service pins chain ses
  inv' : ∃ pins, SessionInv service' pins chain' ses'
  same : SameHeap chain chain' ses.scans ses'.scans

/-- **The same call leaves twins, and its answers are the same.** -/
theorem Twins.call (h : Twins service service' chain chain' ses ses')
    (hop : SameCall ses.heap.table.pages ses'.heap.table.pages op op')
    (hcall : ses.call service op = some (r, next)) (hcall' : ses'.call service' op' = some (r', next'))
    (hfails : IsBuffer r ↔ IsBuffer r') :
    (∃ chain1 chain1', Twins service service' chain1 chain1' next next') ∧
      SameAnswer next.heap.table.pages next'.heap.table.pages r r' ∧
      GrewAlike ses.heap.table.pages ses'.heap.table.pages next.heap.table.pages next'.heap.table.pages := by
  obtain ⟨pins, hinv⟩ := h.inv
  obtain ⟨pins', hinv'⟩ := h.inv'
  obtain ⟨chain1, hout, hmoved⟩ := refines_of_call hinv hcall
  obtain ⟨chain1', hout', hmoved'⟩ := refines_of_call hinv' hcall'
  rw [hinv.heap.pages, hinv'.heap.pages] at hop ⊢
  have htwin := hout.twin hout' hinv.heap.nodup hinv'.heap.nodup h.same hop hfails
  have hnext := hinv.moved hout hmoved
  have hnext' := hinv'.moved hout' hmoved'
  rw [hnext.heap.pages, hnext'.heap.pages]
  exact ⟨⟨chain1, chain1', ⟨pins, hnext⟩, ⟨pins', hnext'⟩, htwin.heap⟩, htwin.answer, htwin.grew⟩

variable {start : Session σ} {start' : Session σ'}

theorem TwinRun.twins
    (hstart : Twins service service' chain chain' start start')
    (h : TwinRun service service' start start' ses ses') :
    (∃ chain1 chain1', Twins service service' chain1 chain1' ses ses') ∧
      GrewAlike start.heap.table.pages start'.heap.table.pages ses.heap.table.pages ses'.heap.table.pages := by
  induction h with
  | start => exact ⟨⟨chain, chain', hstart⟩, .refl _ _⟩
  | call _ hop hcall hcall' hfails ih =>
    obtain ⟨⟨chain1, chain1', htwins⟩, hgrew⟩ := ih
    obtain ⟨hnext, _, hgrew'⟩ := htwins.call hop hcall hcall' hfails
    exact ⟨hnext, hgrew.trans hgrew'⟩

/-! ## Reopening -/

/-- The two sessions cannot be told apart: whatever calls they have made, their page lists are those
from the start and as many new pages, the next call is possible in both or in neither, and its answers
are the same. -/
def Indistinguishable (service : PageService σ) (service' : PageService σ') (start : Session σ)
    (start' : Session σ') : Prop :=
  ∀ ses ses', TwinRun service service' start start' ses ses' →
    GrewAlike start.heap.table.pages start'.heap.table.pages ses.heap.table.pages ses'.heap.table.pages ∧
    ∀ op op', SameCall ses.heap.table.pages ses'.heap.table.pages op op' →
      ((ses.call service op).isSome = (ses'.call service' op').isSome) ∧
      ∀ r next r' next', ses.call service op = some (r, next) →
        ses'.call service' op' = some (r', next') → (IsBuffer r ↔ IsBuffer r') →
        SameAnswer next.heap.table.pages next'.heap.table.pages r r'

theorem Twins.isSome_call (h : Twins service service' chain chain' ses ses')
    (hop : SameCall ses.heap.table.pages ses'.heap.table.pages op op') :
    (ses.call service op).isSome = (ses'.call service' op').isSome := by
  cases hop with
  | next k =>
    have hlen := h.same.scans.length_eq
    show (ses.scans[k]?.map _).isSome = (ses'.scans[k]?.map _).isSome
    rw [Option.isSome_map, Option.isSome_map]
    rcases Nat.lt_or_ge k ses.scans.length with hlt | hge
    · rw [List.getElem?_eq_getElem hlt, List.getElem?_eq_getElem (show k < ses'.scans.length by omega)]
      rfl
    · rw [List.getElem?_eq_none hge, List.getElem?_eq_none (show ses'.scans.length ≤ k by omega)]
  | _ => rfl

theorem Twins.indistinguishable
    (h : Twins service service' chain chain' start start') :
    Indistinguishable service service' start start' := by
  intro ses ses' hrun
  obtain ⟨⟨chain1, chain1', htwins⟩, hgrew⟩ := hrun.twins h
  refine ⟨hgrew, fun op op' hop => ⟨htwins.isSome_call hop, ?_⟩⟩
  intro r next r' next' hcall hcall' hfails
  exact (htwins.call hop hcall hcall' hfails).2.1

/-- **Flushing and reopening is invisible.**  A heap that was flushed can be opened over the same store,
in any new pool that can read it; the reopened handle has the same page list, and it answers every
sequence of calls as the old one would. -/
theorem reopen_is_invisible {store : PageStore S} {policy : VictimStrategy P}
    {policy' : VictimStrategy P'} {ses : Session (BufferPool S P)} {pool : BufferPool S P}
    {history : History} {fresh : BufferPool S P'} {capacity : Nat} {strategy : P'}
    (h : HeapRun (BufferPool.service store policy)
      (HeapTable.Obtained (BufferPool.service store policy)) ses history)
    (hflush : flushAll store policy ses.heap.pool = (.ok (), pool))
    (hfresh : withStrategy capacity pool.store strategy = .ok fresh)
    (hsafe : policy'.SafeAt capacity strategy) (hfair : policy'.FairAt capacity strategy)
    (hhealthy : store.Healthy pool.store) :
    ∃ table fresh',
      HeapTable.open_ (BufferPool.service store policy') ses.heap.table.head fresh = (.ok table, fresh') ∧
      table.pages = ses.heap.table.pages ∧
      Indistinguishable (BufferPool.service store policy) (BufferPool.service store policy')
        ⟨⟨pool, ses.heap.table⟩, []⟩ ⟨⟨fresh', table⟩, []⟩ := by
  obtain ⟨pins, chain, hinv⟩ := h.inv
  obtain ⟨hpool, hlogical, hcontent⟩ := content_of_flushAll hinv.pool hflush
  have hquiet : Quiet store policy' fresh [] := quiet_withStrategy hfresh hsafe hfair hhealthy
  have hshown : logical store fresh = logical store ses.heap.pool :=
    (logical_withStrategy store hfresh).trans hcontent
  have hheap : HeapInv (logical store fresh) ses.heap.table chain := by
    rw [hshown]
    exact hinv.heap
  obtain ⟨table, fresh', hopen, hquiet', hc, htable, _⟩ :=
    ((reads_quiet store policy').reopen hquiet hheap).returns
  refine ⟨table, fresh', hopen, by rw [htable.pages, hinv.heap.pages], Twins.indistinguishable
    ⟨⟨pins, hpool, ?_, fun _ hs => by cases hs⟩, ⟨[], hquiet'.inOrder, ?_, fun _ hs => by cases hs⟩,
      (rfl : chain.Alike chain), .nil⟩⟩
  · show HeapInv (logical store pool) ses.heap.table chain
    rw [hlogical]
    exact hinv.heap
  · show HeapInv ((BufferPool.service store policy').content fresh') table chain
    rw [hc]
    exact htable

/-- A heap with a deleted slot and a record is flushed and reopened in another pool of one frame. -/
theorem reopen_after_delete : ∃ ses pool fresh table fresh',
    HeapRun BufferPool.memory (HeapTable.Obtained BufferPool.memory) ses
      [(.insert [8], .ok (.inserted (slotOf 1))), (.delete (slotOf 0), .ok (.changed true)),
        (.insert [7], .ok (.inserted (slotOf 0)))] ∧
    flushAll MemoryPageStore ClockStrategy ses.heap.pool = (.ok (), pool) ∧
    BufferPool.new 1 pool.store = .ok fresh ∧
    HeapTable.open_ BufferPool.memory ses.heap.table.head fresh = (.ok table, fresh') ∧
    Indistinguishable BufferPool.memory BufferPool.memory ⟨⟨pool, ses.heap.table⟩, []⟩
      ⟨⟨fresh', table⟩, []⟩ := by
  have heval : oneFrameRun [.insert [7], .delete (slotOf 0), .insert [8]] =
      some ([.ok (.inserted (slotOf 0)), .ok (.changed true), .ok (.inserted (slotOf 1))], .ok ()) := by
    decide +kernel
  obtain ⟨heap, ses, pool, hcreated, hcalls, hflush⟩ := oneFrameRun_spec heval
  have hrun := hcreated.run.calls hcalls
  have hover : ClockStrategy.Over 1 ⟨[false], 0⟩ := ClockStrategy.new_over rfl
  obtain ⟨table, fresh', hopen, _, hsame⟩ := reopen_is_invisible hrun hflush rfl
    (ClockStrategy.safeAt hover) (ClockStrategy.fairAt hover (by decide)) (MemoryPageStore.healthy _)
  exact ⟨ses, pool, _, table, fresh', hrun, hflush, rfl, hopen, hsame⟩

end ChiliDB
