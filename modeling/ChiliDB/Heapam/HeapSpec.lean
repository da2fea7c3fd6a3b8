import ChiliDB.Heapam.Heap
import ChiliDB.Heapam.Chain

/-!
# What each call on a heap does
-/

namespace ChiliDB

open Effect List

variable {σ α : Type} {service : PageService σ} {s s' : σ} {pins : List PinnedBuffer} {id : PageId}

/-- A buffer error. -/
def FromBuffer (e : Fault HeapError) : Prop := ∃ x, e = .error (.buffer x)

/-- The pool is in order and has lost no page. -/
structure Kept (service : PageService σ) (pins : List PinnedBuffer) (s s' : σ) : Prop where
  inv : service.inv s' pins
  grows : Extends (service.content s) (service.content s')

theorem Kept.refl (hinv : service.inv s pins) : Kept service pins s s := ⟨hinv, .refl _⟩

theorem Kept.trans {s1 s2 s3 : σ} (h : Kept service pins s1 s2) (h' : Kept service pins s2 s3) :
    Kept service pins s1 s3 :=
  ⟨h'.inv, h.grows.trans h'.grows⟩

namespace HeapTable

/-! ## Callbacks on one page -/

theorem ensures_flatten {m : Exec BufferError σ (Except HeapError α)} {Q : α → σ → Prop}
    {E : Fault HeapError → σ → Prop} (h : Exec.Ensures m s
      (fun r s' => (∀ a, r = .ok a → Q a s') ∧ ∀ x, r = .error x → E (.error x) s')
      (fun e s' => E (e.map .buffer) s')) : Exec.Ensures (flatten m) s Q E := by
  refine .bind (.mapErr (h.mono ?_ (fun _ _ he => he)))
  rintro (x | a) s' ⟨hok, herr⟩
  · exact herr x rfl
  · exact hok a rfl

variable {ε ε' : Type} {r : Result ε α}

theorem attempt_eq_ok {v : Except ε α} :
    (r.attempt : Result ε' (Except ε α)) = .ok v ↔
      (∃ a, v = .ok a ∧ r = .ok a) ∨ ∃ x, v = .error x ∧ r = .error (.error x) := by
  rcases r with (x | p) | a <;> cases v <;> simp [Result.attempt, eq_comm]

theorem attempt_eq_panic {p : Panic} :
    (r.attempt : Result ε' (Except ε α)) = .error (.panic p) ↔ r = .error (.panic p) := by
  rcases r with (x | q) | a <;> simp [Result.attempt]

/-- A callback that does not panic reads the page's bytes; the pool may fail. -/
theorem readPage_spec {f : Page → Result HeapError α} (hinv : service.inv s pins)
    (hf : ∀ data p, service.content s id = some data → f data ≠ .error (.panic p)) :
    Exec.Ensures (readPage service id f) s
      (fun a s' => service.inv s' pins ∧ service.content s' = service.content s ∧
        ∃ data, service.content s id = some data ∧ f data = .ok a)
      (fun e s' => Kept service pins s s' ∧
        (FromBuffer e ∨ ∃ data, service.content s id = some data ∧ f data = .error e)) := by
  refine ensures_flatten (.bracket ((service.pin_spec id hinv).mono ?_ ?_))
  · rintro pin s1 ⟨hinv1, rfl, hc1⟩
    rw [← hc1] at hf ⊢
    refine (service.read_spec _ hinv1).mono ?_ ?_
    · rintro r s2 ⟨hinv2, hc2, data, hdata, hr⟩
      refine (service.drop_spec hinv2).mono ?_ (fun _ _ hfalse => hfalse.elim)
      rintro _ s3 ⟨hinv3, hc3⟩
      have hc : service.content s3 = service.content s1 := hc3.trans hc2
      rcases attempt_eq_ok.1 hr with ⟨a, rfl, ha⟩ | ⟨x, rfl, hx⟩
      · refine ⟨fun a' he => ?_, fun _ he => by cases he⟩
        cases he
        exact ⟨hinv3, hc, data, hdata, ha⟩
      · refine ⟨fun _ he => (by cases he), fun x' he => ?_⟩
        cases he
        exact ⟨⟨hinv3, .of_eq (hc.trans hc1)⟩, .inr ⟨data, hdata, hx⟩⟩
    · rintro e s2 ⟨hinv2, hgrows, he⟩
      refine (service.drop_spec hinv2).mono ?_ (fun _ _ hfalse => hfalse.elim)
      rintro _ s3 ⟨hinv3, hc3⟩
      have hkept : Kept service pins s s3 := ⟨hinv3, by rw [hc3, ← hc1]; exact hgrows⟩
      rcases he with ⟨x, rfl⟩ | ⟨data, p, hdata, hp⟩
      · exact ⟨hkept, .inl ⟨x, rfl⟩⟩
      · exact absurd (attempt_eq_panic.1 hp) (hf data p hdata)
  · rintro e s1 ⟨hinv1, ⟨x, rfl⟩, hgrows⟩
    exact ⟨⟨hinv1, hgrows⟩, .inl ⟨x, rfl⟩⟩

/-- What a client that only reads knows of the pool: `J` holds from one read to the next, and a read
of an allocated page that fails, for a callback that succeeds, ends in `E`. -/
structure Reads (service : PageService σ) (J : σ → Prop) (E : Fault HeapError → σ → Prop) : Prop where
  read : ∀ {α : Type} {s : σ} {id : PageId} {page : Page} {f : Page → Result HeapError α} {a : α},
    J s → service.content s id = some page → f page = .ok a →
    Exec.Ensures (readPage service id f) s
      (fun a' s' => J s' ∧ service.content s' = service.content s ∧ a' = a) E
  error : ∀ {e : Fault HeapError} {s : σ}, E e s → ∃ x, e = .error x

/-- A pool that may fail whenever it likes. -/
theorem reads_kept (service : PageService σ) (pins : List PinnedBuffer) (s0 : σ) :
    Reads service (Kept service pins s0) (fun e s => Kept service pins s0 s ∧ FromBuffer e) := by
  refine ⟨?_, ?_⟩
  · intro α s id page f a hkept hp hf
    have hval : ∀ data, service.content s id = some data → f data = .ok a := by
      intro data hd
      rw [hp] at hd
      cases hd
      exact hf
    refine (readPage_spec hkept.inv ?_).mono ?_ ?_
    · intro data q hd
      rw [hval data hd]
      simp
    · rintro a' s' ⟨hinv, hc, data, hd, ha⟩
      rw [hval data hd] at ha
      exact ⟨⟨hinv, by rw [hc]; exact hkept.grows⟩, hc, (Except.ok.inj ha).symm⟩
    · rintro e s' ⟨hkept', he | ⟨data, hd, he⟩⟩
      · exact ⟨hkept.trans hkept', he⟩
      · rw [hval data hd] at he
        cases he
  · rintro e s ⟨_, x, rfl⟩
    exact ⟨_, rfl⟩

/-- A callback that does not panic changes the page's bytes, also if it returns an error; if the pool
fails nothing has changed. -/
theorem writePage_spec {f : Exec HeapError Page α} (hinv : service.inv s pins)
    (hf : ∀ data p, service.content s id = some data → (f data).1 ≠ .error (.panic p)) :
    Exec.Ensures (writePage service id f) s
      (fun a s' => service.inv s' pins ∧ ∃ data, service.content s id = some data ∧
        (f data).1 = .ok a ∧
        service.content s' = Function.update (service.content s) id (some (f data).2))
      (fun e s' => (Kept service pins s s' ∧ FromBuffer e) ∨
        service.inv s' pins ∧ ∃ data, service.content s id = some data ∧ (f data).1 = .error e ∧
          service.content s' = Function.update (service.content s) id (some (f data).2)) := by
  refine ensures_flatten (.bracket ((service.pin_spec id hinv).mono ?_ ?_))
  · rintro pin s1 ⟨hinv1, rfl, hc1⟩
    rw [← hc1] at hf ⊢
    refine (service.write_spec _ hinv1).mono ?_ ?_
    · rintro r s2 ⟨hinv2, data, hdata, hr, hc2⟩
      refine (service.drop_spec hinv2).mono ?_ (fun _ _ hfalse => hfalse.elim)
      rintro _ s3 ⟨hinv3, hc3⟩
      have hc : service.content s3 = _ := hc3.trans hc2
      rcases attempt_eq_ok.1 hr with ⟨a, rfl, ha⟩ | ⟨x, rfl, hx⟩
      · refine ⟨fun a' he => ?_, fun _ he => by cases he⟩
        cases he
        exact ⟨hinv3, data, hdata, ha, hc⟩
      · refine ⟨fun _ he => (by cases he), fun x' he => ?_⟩
        cases he
        exact .inr ⟨hinv3, data, hdata, hx, hc⟩
    · rintro e s2 ⟨hinv2, he⟩
      refine (service.drop_spec hinv2).mono ?_ (fun _ _ hfalse => hfalse.elim)
      rintro _ s3 ⟨hinv3, hc3⟩
      rcases he with ⟨⟨x, rfl⟩, hgrows⟩ | ⟨data, p, hdata, hp⟩
      · exact .inl ⟨⟨hinv3, by rw [hc3, ← hc1]; exact hgrows⟩, x, rfl⟩
      · exact absurd (attempt_eq_panic.1 hp) (hf data p hdata)
  · rintro e s1 ⟨hinv1, ⟨x, rfl⟩, hgrows⟩
    exact .inl ⟨⟨hinv1, hgrows⟩, x, rfl⟩

/-- A new page holds what the callback made of zero bytes. -/
theorem createPage_spec {f : PageId → Exec HeapError Page α} (hinv : service.inv s pins)
    (hf : ∀ id p, (f id Page.zero).1 ≠ .error (.panic p)) :
    Exec.Ensures (createPage service f) s
      (fun r s' => service.inv s' pins ∧ service.content s r.1 = none ∧
        (f r.1 Page.zero).1 = .ok r.2 ∧
        service.content s' = Function.update (service.content s) r.1 (some (f r.1 Page.zero).2))
      (fun e s' => Kept service pins s s' ∧ (FromBuffer e ∨ ∃ id, (f id Page.zero).1 = .error e)) := by
  refine ensures_flatten (.bracket ((service.newPage_spec hinv).mono ?_ ?_))
  · rintro pin s1 ⟨hinv1, hfresh, hc1⟩
    have hzero : ∀ data, service.content s1 pin.page = some data → data = Page.zero := by
      intro data hdata
      rw [hc1, Function.update_self] at hdata
      exact (Option.some.inj hdata).symm
    have hgrows1 : Extends (service.content s) (service.content s1) := by rw [hc1]; exact .update hfresh _
    refine .bind ((service.write_spec _ hinv1).mono ?_ ?_)
    · rintro r s2 ⟨hinv2, data, hdata, hr, hc2⟩
      cases hzero data hdata
      refine (service.drop_spec hinv2).mono ?_ (fun _ _ hfalse => hfalse.elim)
      rintro _ s3 ⟨hinv3, hc3⟩
      have hc : service.content s3 =
          Function.update (service.content s) pin.page (some (f pin.page Page.zero).2) := by
        rw [hc3, hc2, hc1, Function.update_idem]
        rfl
      rcases attempt_eq_ok.1 hr with ⟨a, rfl, ha⟩ | ⟨x, rfl, hx⟩
      · refine ⟨fun r he => ?_, fun _ he => by cases he⟩
        cases he
        exact ⟨hinv3, hfresh, ha, hc⟩
      · refine ⟨fun _ he => (by cases he), fun x' he => ?_⟩
        cases he
        exact ⟨⟨hinv3, by rw [hc]; exact .update hfresh _⟩, .inr ⟨pin.page, hx⟩⟩
    · rintro e s2 ⟨hinv2, he⟩
      refine (service.drop_spec hinv2).mono ?_ (fun _ _ hfalse => hfalse.elim)
      rintro _ s3 ⟨hinv3, hc3⟩
      rcases he with ⟨⟨x, rfl⟩, hgrows⟩ | ⟨data, p, hdata, hp⟩
      · exact ⟨⟨hinv3, by rw [hc3]; exact hgrows1.trans hgrows⟩, .inl ⟨x, rfl⟩⟩
      · cases hzero data hdata
        exact absurd (attempt_eq_panic.1 hp) (hf pin.page p)
  · rintro e s1 ⟨hinv1, ⟨x, rfl⟩, hgrows⟩
    exact ⟨⟨hinv1, hgrows⟩, .inl ⟨x, rfl⟩⟩

end HeapTable

/-! ## The invariant of a handle -/

open HeapPage

/-- A page of the pool holds these rows, the head as its owner, and the link to the next page. -/
def Stored (content : Pages) (head : PageId) (next : Option PageId) (p : RowPage) : Prop :=
  ∃ page view, content p.id = some page ∧ Shows page view ∧ view.owner = head ∧ view.next = next ∧
    view.rows = p.rows

/-- The index map is the inverse of the page list. -/
def Indexes (indices : AList (fun _ : PageId => Nat)) (pages : List PageId) : Prop :=
  ∀ (id : PageId) (i : Nat), indices.lookup id = some i ↔ pages[i]? = some id

theorem indexes_empty : Indexes ∅ [] := fun id i => by simp

variable {indices : AList (fun _ : PageId => Nat)} {pages : List PageId}

theorem Indexes.push (h : Indexes indices pages) (hid : id ∉ pages) :
    Indexes (indices.insert id pages.length) (pages ++ [id]) := by
  intro other i
  by_cases ho : other = id
  · subst ho
    rw [AList.lookup_insert]
    constructor
    · intro hi
      cases hi
      exact getElem?_concat_length ..
    · intro hi
      rcases Nat.lt_or_ge i pages.length with hlt | hge
      · rw [getElem?_append_left hlt] at hi
        exact absurd (mem_of_getElem? hi) hid
      · have := lt_of_get hi
        rw [length_append, length_singleton] at this
        exact congrArg some (by omega)
  · rw [AList.lookup_insert_ne ho, h other i]
    rcases Nat.lt_or_ge i pages.length with hlt | hge
    · rw [getElem?_append_left hlt]
    · rw [getElem?_eq_none hge, getElem?_append_right hge, getElem?_singleton]
      split
      · exact ⟨fun hi => (by cases hi), fun hi => absurd (Option.some.inj hi).symm ho⟩
      · rfl

theorem Indexes.mem (h : Indexes indices pages) (id : PageId) : id ∈ indices ↔ id ∈ pages := by
  rw [← AList.lookup_isSome, Option.isSome_iff_exists, mem_iff_getElem?]
  exact exists_congr (h id)

/-- The cached chain is the chain in the pool's pages. -/
structure HeapInv (content : Pages) (table : HeapTable) (chain : Chain) : Prop where
  pages : table.pages = chain.ids
  head : table.pages.head? = some table.head
  nodup : chain.ids.Nodup
  indices : Indexes table.indices table.pages
  unpoisoned : table.poisoned = false
  stored : ∀ (i : Nat) (p : RowPage), chain[i]? = some p → Stored content table.head table.pages[i + 1]? p

abbrev Heap.Inv (service : PageService σ) (heap : Heap σ) : Chain → Prop :=
  HeapInv (service.content heap.pool) heap.table

variable {content content' : Pages} {table : HeapTable} {chain : Chain} {p : RowPage} {i : Nat}
  {heap heap' : Heap σ}

theorem Stored.congr {head : PageId} {next : Option PageId} (h : Stored content head next p)
    (hc : content' p.id = content p.id) : Stored content' head next p := by
  obtain ⟨page, view, hp, rest⟩ := h
  exact ⟨page, view, hc.trans hp, rest⟩

theorem HeapInv.congr (h : HeapInv content table chain)
    (hc : ∀ id ∈ chain.ids, content' id = content id) : HeapInv content' table chain :=
  ⟨h.pages, h.head, h.nodup, h.indices, h.unpoisoned,
    fun i p hi => (h.stored i p hi).congr (hc p.id (Chain.mem_ids hi))⟩

theorem HeapInv.allocated (h : HeapInv content table chain) (hid : id ∈ chain.ids) :
    ∃ page, content id = some page := by
  obtain ⟨i, p, hi, rfl⟩ := Chain.exists_of_mem_ids hid
  obtain ⟨page, _, hp, _⟩ := h.stored i p hi
  exact ⟨page, hp⟩

theorem HeapInv.grows (h : HeapInv content table chain) (hg : Extends content content') :
    HeapInv content' table chain := by
  refine h.congr fun id hid => ?_
  obtain ⟨page, hp⟩ := h.allocated hid
  rw [hp, hg id page hp]

/-- The bytes of its pages determine the chain of a handle. -/
theorem HeapInv.unique {chain' : Chain} (h : HeapInv content table chain) (h' : HeapInv content table chain') :
    chain = chain' := by
  apply ext_getElem?
  intro i
  have hid : chain[i]?.map RowPage.id = chain'[i]?.map RowPage.id := by
    rw [← Chain.ids_getElem?, ← Chain.ids_getElem?, ← h.pages, ← h'.pages]
  cases hi : chain[i]? with
  | none =>
    rw [hi] at hid
    exact (Option.map_eq_none_iff.1 hid.symm).symm
  | some p =>
    rw [hi] at hid
    obtain ⟨p', hi', hid'⟩ := Option.map_eq_some_iff.1 hid.symm
    obtain ⟨page, view, hp, hs, _, _, hrows⟩ := h.stored i p hi
    obtain ⟨page', view', hp', hs', _, _, hrows'⟩ := h'.stored i p' hi'
    rw [hid', hp] at hp'
    cases hp'
    cases shows_unique hs hs'
    rw [hi']
    exact congrArg some (RowPage.ext hid'.symm (hrows.symm.trans hrows'))

/-- One page changed its rows; its link and everything else stayed. -/
theorem HeapInv.set (h : HeapInv content table chain) (hi : chain[i]? = some p)
    {rows : List (Option Bytes)} (hp : Stored content' table.head table.pages[i + 1]? ⟨p.id, rows⟩)
    (hc : ∀ id, id ≠ p.id → content' id = content id) :
    HeapInv content' table (chain.set i ⟨p.id, rows⟩) := by
  have hlt := lt_of_get hi
  have hids : Chain.ids (chain.set i ⟨p.id, rows⟩) = chain.ids := Chain.ids_set hi rfl
  refine ⟨h.pages.trans hids.symm, h.head, by rw [hids]; exact h.nodup, h.indices, h.unpoisoned, fun j q hj => ?_⟩
  by_cases hij : i = j
  · subst hij
    rw [getElem?_set_self hlt] at hj
    cases hj
    exact hp
  · rw [getElem?_set_ne hij] at hj
    refine (h.stored j q hj).congr (hc q.id fun he => hij ?_)
    exact Chain.index_unique h.nodup hi hj he.symm

/-! ## Callbacks behind the header check -/

namespace HeapTable

/-- The call failed or only looked: the handle is the same, and so is every page. -/
structure Untouched (service : PageService σ) (pins : List PinnedBuffer) (heap heap' : Heap σ) : Prop where
  table : heap'.table = heap.table
  kept : Kept service pins heap.pool heap'.pool

theorem Untouched.inv (hu : Untouched service pins heap heap') (h : heap.Inv service chain) :
    heap'.Inv service chain := by
  rw [Heap.Inv, hu.table]
  exact h.grows hu.kept.grows

/-- The call only looked. -/
structure Looked (service : PageService σ) (J : σ → Prop) (heap heap' : Heap σ) : Prop where
  table : heap'.table = heap.table
  pool : J heap'.pool
  content : service.content heap'.pool = service.content heap.pool

variable {J : σ → Prop}

theorem Looked.inv (hl : Looked service J heap heap') (h : heap.Inv service chain) :
    heap'.Inv service chain := by
  rw [Heap.Inv, hl.table, hl.content]
  exact h

/-- In a pool that may fail. -/
theorem Looked.untouched (h : Looked service (Kept service pins heap.pool) heap heap') :
    Untouched service pins heap heap' :=
  ⟨h.table, h.pool⟩

variable {Q : α → Heap σ → Prop} {E : Fault HeapError → Heap σ → Prop} {f : Page → Result HeapError α}

theorem ensures_onPool {m : Exec HeapError σ α}
    (h : Exec.Ensures m heap.pool (fun a pool => Q a { heap with pool := pool })
      (fun e pool => E e { heap with pool := pool })) : Exec.Ensures (onPool m) heap Q E :=
  .zoom h

/-- The mutex of a handle that is not poisoned, held by a computation that does not panic. -/
theorem ensures_locked {m : HeapTable → HeapM σ α} (hp : heap.table.poisoned = false)
    (h : Exec.Ensures (m heap.table) heap Q (fun e heap' => E e heap' ∧ ∃ x, e = .error x)) :
    Exec.Ensures (locked m) heap Q E := by
  refine .bind (.get ?_)
  rw [if_neg (by rw [hp]; simp)]
  refine .onPanic (h.mono (fun _ _ hq => hq) ?_)
  rintro e heap' ⟨he, x, rfl⟩
  exact he

/-- The header of page number `i`. -/
def headerOf (table : HeapTable) (i : Nat) (p : RowPage) : Header :=
  ⟨table.head, table.pages[i + 1]?, p.rows.length⟩

theorem checkedHeader_spec {page : Page} {view : PageView} (hs : Shows page view)
    (ho : view.owner = table.head) (hn : view.next = table.pages[i + 1]?) (hr : view.rows = p.rows) :
    checkedHeader table i page = .ok (headerOf table i p) := by
  have hheader : view.header = headerOf table i p := by
    unfold PageView.header headerOf
    rw [ho, hn, hr]
  unfold checkedHeader
  rw [header_spec hs, hheader, Result.ok_bind, if_neg (by simp [headerOf]), if_neg (by simp [headerOf])]
  rfl

variable {E : Fault HeapError → σ → Prop}

/-- A read of one page of the chain. -/
theorem Reads.stored (hreads : Reads service J E) (hj : J s)
    (h : HeapInv (service.content s) table chain) (hi : chain[i]? = some p) (a : α)
    (hf : ∀ page view, Shows page view → view.rows = p.rows →
      checkedHeader table i page = .ok (headerOf table i p) → f page = .ok a) :
    Exec.Ensures (readPage service p.id f) s
      (fun a' s' => J s' ∧ service.content s' = service.content s ∧ a' = a) E := by
  obtain ⟨page, view, hp, hshows, howner, hnext, hrows⟩ := h.stored i p hi
  exact hreads.read hj hp (hf page view hshows hrows (checkedHeader_spec hshows howner hnext hrows))

/-- The same under the mutex. -/
theorem Reads.checked (hreads : Reads service J E) (hj : J heap.pool)
    (h : heap.Inv service chain) (hi : chain[i]? = some p) (a : α)
    (hf : ∀ page view, Shows page view → view.rows = p.rows →
      checkedHeader heap.table i page = .ok (headerOf heap.table i p) → f page = .ok a) :
    Exec.Ensures (onPool (readPage service p.id f)) heap
      (fun a' heap' => Looked service J heap heap' ∧ a' = a)
      (fun e heap' => (heap'.table = heap.table ∧ E e heap'.pool) ∧ ∃ x, e = .error x) := by
  refine ensures_onPool ((hreads.stored hj h hi a hf).mono ?_ ?_)
  · rintro a' pool ⟨hj', hc, ha⟩
    exact ⟨⟨rfl, hj', hc⟩, ha⟩
  · intro e pool he
    exact ⟨⟨rfl, he⟩, hreads.error he⟩

/-- What a callback does to a page with these rows and this link: it returns and leaves a valid page
of the same owner, or it fails and leaves the page alone. -/
def Acts (f : Exec HeapError Page α) (rows : List (Option Bytes)) (next : Option PageId)
    (post : α → Option PageId → List (Option Bytes) → Prop) (fails : HeapError → Prop) : Prop :=
  ∀ page view, Shows page view → view.rows = rows → view.next = next →
    (∃ a page' view', f page = (.ok a, page') ∧ Shows page' view' ∧ view'.owner = view.owner ∧
      post a view'.next view'.rows) ∨
    (∃ x, f page = (.error (.error x), page) ∧ fails x)

/-- A change of one page of the chain. -/
theorem writeChecked_spec (heap : Heap σ) {f : Exec HeapError Page α}
    {post : α → Option PageId → List (Option Bytes) → Prop} {fails : HeapError → Prop}
    (hinv : service.inv heap.pool pins) (h : heap.Inv service chain)
    (hi : chain[i]? = some p) (hf : Acts f p.rows heap.table.pages[i + 1]? post fails) :
    Exec.Ensures (onPool (writePage service p.id (checked heap.table i f))) heap
      (fun a heap' => heap'.table = heap.table ∧ service.inv heap'.pool pins ∧
        (∀ id, id ≠ p.id → service.content heap'.pool id = service.content heap.pool id) ∧
        ∃ next rows, post a next rows ∧ Stored (service.content heap'.pool) heap.table.head next ⟨p.id, rows⟩)
      (fun e heap' => Untouched service pins heap heap' ∧ (FromBuffer e ∨ ∃ x, e = .error x ∧ fails x)) := by
  obtain ⟨page, view, hp, hshows, howner, hnext, hrows⟩ := h.stored i p hi
  have hrun : checked heap.table i f page = f page := by
    unfold checked
    simp only [Exec.bind_run, Exec.get_run, Exec.lift_run, checkedHeader_spec hshows howner hnext hrows]
  have hdata : ∀ data, service.content heap.pool p.id = some data → data = page := by
    intro data hd
    rw [hp] at hd
    exact (Option.some.inj hd).symm
  refine ensures_onPool ((writePage_spec hinv ?_).mono ?_ ?_)
  · intro data q hd
    cases hdata data hd
    rw [hrun]
    rcases hf page view hshows hrows hnext with ⟨a, page', view', hr, _⟩ | ⟨x, hr, _⟩ <;> rw [hr] <;> simp
  · rintro a pool ⟨hinv', data, hd, ha, hc⟩
    cases hdata data hd
    rw [hrun] at ha hc
    rcases hf page view hshows hrows hnext with ⟨a', page', view', hr, hs', ho', hpost⟩ | ⟨x, hr, _⟩
    · rw [hr] at ha hc
      cases ha
      refine ⟨rfl, hinv', fun id hid => ?_, view'.next, view'.rows, hpost, page', view', ?_, hs',
        ho'.trans howner, rfl, rfl⟩
      · show service.content pool id = _
        rw [hc, Function.update_of_ne hid]
      · show service.content pool p.id = _
        rw [hc, Function.update_self]
    · rw [hr] at ha
      cases ha
  · rintro e pool (⟨hkept, he⟩ | ⟨hinv', data, hd, he, hc⟩)
    · exact ⟨⟨rfl, hkept⟩, .inl he⟩
    · cases hdata data hd
      rw [hrun] at he hc
      rcases hf page view hshows hrows hnext with ⟨a', page', view', hr, _⟩ | ⟨x, hr, hx⟩
      · rw [hr] at he
        cases he
      · rw [hr] at he hc
        cases he
        refine ⟨⟨rfl, hinv', ?_⟩, .inr ⟨x, rfl, hx⟩⟩
        show Extends _ (service.content pool)
        rw [hc]
        exact .of_eq (by rw [← hp, Function.update_eq_self])

end HeapTable

end ChiliDB
