import ChiliDB.Heapam.HeapOps

/-!
# Opening a heap

`open_` follows the links from the head page, over whatever bytes the pool holds.

* `Walked` — the pages the loop has cached so far, and the link it follows next.
* `open_sound` — a handle that `open_` returns is in order: it caches the chain in the pool's pages.
* `Reads.reopen` — the chain of a handle that is in order is opened again, page by page.
-/

namespace ChiliDB.HeapTable

open Effect HeapPage List

variable {σ : Type} {service : PageService σ} {s : σ} {pins : List PinnedBuffer} {content : Pages}
  {head : PageId} {pages : List PageId} {indices : AList (fun _ : PageId => Nat)}
  {next : Option PageId} {chain : Chain}

/-- The loop has cached `chain`, and goes on with the link `next`. -/
structure Walked (content : Pages) (head : PageId) (pages : List PageId)
    (indices : AList (fun _ : PageId => Nat)) (next : Option PageId) (chain : Chain) : Prop where
  ids : pages = chain.ids
  first : (pages ++ next.toList).head? = some head
  nodup : chain.ids.Nodup
  inverse : Indexes indices pages
  stored : ∀ (i : Nat) (p : RowPage), chain[i]? = some p →
    Stored content head (pages ++ next.toList)[i + 1]? p

theorem walked_start (content : Pages) (head : PageId) : Walked content head [] ∅ (some head) [] :=
  ⟨rfl, rfl, nodup_nil, indexes_empty, fun _ _ hi => by simp at hi⟩

theorem Walked.finish (h : Walked content head pages indices none chain) :
    HeapInv content ⟨head, pages, indices, false⟩ chain := by
  have hlinks : pages ++ (none : Option PageId).toList = pages := append_nil _
  refine ⟨h.ids, hlinks ▸ h.first, h.nodup, h.inverse, rfl, fun i p hi => ?_⟩
  exact hlinks ▸ h.stored i p hi

/-- One more page. -/
theorem Walked.push {id : PageId} {page : Page} {view : PageView}
    (h : Walked content head pages indices (some id) chain) (hid : id ∉ indices)
    (hp : content id = some page) (hs : Shows page view) (ho : view.owner = head) :
    Walked content head (pages ++ [id]) (indices.insert id pages.length) view.next
      (chain ++ [⟨id, view.rows⟩]) := by
  have hids : Chain.ids (chain ++ [⟨id, view.rows⟩]) = pages ++ [id] := by
    rw [h.ids]
    unfold Chain.ids
    rw [map_append]
    rfl
  have hnew : id ∉ pages := fun hm => hid ((h.inverse.mem id).2 hm)
  have hlen : pages.length = chain.length := by
    rw [h.ids]
    exact length_map _
  refine ⟨hids.symm, ?_, ?_, h.inverse.push hnew, fun i p hi => ?_⟩
  · rw [head?_append, show (pages ++ [id]).head? = some head from h.first]
    rfl
  · rw [hids, nodup_append]
    refine ⟨h.ids ▸ h.nodup, nodup_singleton _, fun x hx y hy => ?_⟩
    rw [mem_singleton.1 hy]
    exact fun hxy => hnew (hxy ▸ hx)
  · rcases Nat.lt_or_ge i chain.length with hlt | hge
    · rw [getElem?_append_left hlt] at hi
      rw [getElem?_append_left (by rw [length_append, length_singleton]; omega)]
      exact h.stored i p hi
    · have hi' : i = chain.length := by
        have := lt_of_get hi
        rw [length_append, length_singleton] at this
        omega
      subst hi'
      rw [getElem?_concat_length] at hi
      cases hi
      refine ⟨page, view, hp, hs, ho, ?_, rfl⟩
      rw [← hlen, getElem?_append_right (by simp), length_append, length_singleton, Nat.sub_self]
      cases view.next <;> rfl

/-! ## On arbitrary bytes -/

theorem header_checks (page : Page) :
    Checks (header page) (fun header => ∃ view, header = view.header ∧ Shows page view) := by
  refine checks_bind ((validate_checks page).mono ?_)
  rintro _ ⟨view, rfl, hs⟩
  exact ⟨view, rfl, hs⟩

/-- The loop of `open_`. -/
theorem openFrom_sound (service : PageService σ) (pins : List PinnedBuffer) (head : PageId)
    (pages : List PageId) (indices : AList (fun _ : PageId => Nat)) (next : Option PageId) :
    ∀ {s : σ} {chain : Chain}, service.inv s pins →
      Walked (service.content s) head pages indices next chain →
      Exec.Ensures (openFrom service head pages indices next) s
        (fun table s' => service.inv s' pins ∧ service.content s' = service.content s ∧
          table.head = head ∧ ∃ chain', HeapInv (service.content s) table chain')
        (fun e s' => Kept service pins s s' ∧ ∃ x, e = .error x) := by
  induction pages, indices, next using openFrom.induct with
  | case1 pages indices =>
    intro s chain hinv h
    unfold openFrom
    exact ⟨hinv, rfl, rfl, chain, h.finish⟩
  | case2 pages indices id hid =>
    intro s chain hinv h
    unfold openFrom
    rw [dif_pos hid]
    exact ⟨.refl hinv, _, rfl⟩
  | case3 pages indices id hid ih =>
    intro s chain hinv h
    unfold openFrom
    rw [dif_neg hid]
    refine .bind ((readPage_spec hinv ?_).mono ?_ ?_)
    · intro data q _ hr
      obtain ⟨m, hm⟩ := (header_checks data).corrupt hr
      cases hm
    · rintro header s1 ⟨hinv1, hc, data, hd, hr⟩
      obtain ⟨view, rfl, hs⟩ := (header_checks data).ok hr
      rw [← hc] at h hd
      split
      · exact ⟨⟨hinv1, .of_eq hc⟩, _, rfl⟩
      · rename_i ho
        rw [← hc]
        refine (ih view.header hinv1 (h.push hid hd hs (not_not.1 ho))).mono ?_ ?_
        · exact fun _ _ hq => hq
        · rintro e s2 ⟨hkept, he⟩
          exact ⟨(Kept.mk hinv1 (.of_eq hc)).trans hkept, he⟩
    · rintro e s1 ⟨hkept, ⟨x, rfl⟩ | ⟨data, _, hr⟩⟩
      · exact ⟨hkept, _, rfl⟩
      · obtain ⟨m, rfl⟩ := (header_checks data).corrupt hr
        exact ⟨hkept, _, rfl⟩

/-- **A handle that `open_` returns is in order, whatever the bytes.** -/
theorem open_sound (hinv : service.inv s pins) (head : PageId) :
    Exec.Ensures (open_ service head) s
      (fun table s' => service.inv s' pins ∧ service.content s' = service.content s ∧
        table.head = head ∧ ∃ chain, HeapInv (service.content s) table chain)
      (fun e s' => Kept service pins s s' ∧ ∃ x, e = .error x) :=
  openFrom_sound service pins head [] ∅ (some head) hinv (walked_start _ head)

/-! ## On the chain of a handle -/

/-- The loop of `open_` over the pages `rest` that are left of a chain in order. -/
theorem openFrom_reads {J : σ → Prop} {E : Fault HeapError → σ → Prop} (hreads : Reads service J E)
    {table : HeapTable} {chain : Chain} : ∀ (rest walked : Chain)
      {indices : AList (fun _ : PageId => Nat)} {s : σ}, chain = walked ++ rest → J s →
      HeapInv (service.content s) table chain → Indexes indices walked.ids →
      Exec.Ensures (openFrom service table.head walked.ids indices (rest.ids.head?)) s
        (fun table' s' => J s' ∧ service.content s' = service.content s ∧
          HeapInv (service.content s) table' chain ∧ table'.head = table.head) E
  | [], walked, indices, s, hchain, hj, h, hindices => by
    rw [append_nil] at hchain
    subst hchain
    unfold openFrom
    exact ⟨hj, rfl, ⟨rfl, h.pages ▸ h.head, h.nodup, hindices, rfl, h.pages ▸ h.stored⟩, rfl⟩
  | p :: rest, walked, indices, s, hchain, hj, h, hindices => by
    have hp : chain[walked.length]? = some p := by
      rw [hchain, getElem?_append_right (Nat.le_refl _), Nat.sub_self]
      rfl
    have hnew : p.id ∉ walked.ids := by
      intro hm
      have hn := h.nodup
      rw [hchain] at hn
      unfold Chain.ids at hn hm
      rw [map_append, nodup_append] at hn
      exact hn.2.2 p.id hm p.id (mem_cons_self ..) rfl
    have hlink : table.pages[walked.length + 1]? = (Chain.ids rest).head? := by
      rw [h.pages, Chain.ids_getElem?, hchain, getElem?_append_right (by omega), Nat.add_sub_cancel_left]
      cases rest <;> rfl
    show Exec.Ensures (openFrom service table.head walked.ids indices (some p.id)) s _ E
    unfold openFrom
    rw [dif_neg (fun hm => hnew ((hindices.mem p.id).1 hm))]
    refine .bind ((hreads.stored hj h hp (headerOf table walked.length p) ?_).mono ?_ (fun _ _ he => he))
    · intro page view hs _ hheader
      rw [header_spec hs]
      unfold checkedHeader at hheader
      rw [header_spec hs, Result.ok_bind] at hheader
      split at hheader
      · cases hheader
      · split at hheader
        · cases hheader
        · exact hheader
    · rintro _ s1 ⟨hj1, hc, rfl⟩
      rw [if_neg (show ¬ (headerOf table walked.length p).owner ≠ table.head from fun hne => hne rfl)]
      have hids : walked.ids ++ [p.id] = Chain.ids (walked ++ [p]) := by
        unfold Chain.ids
        rw [map_append]
        rfl
      show Exec.Ensures (openFrom service table.head (walked.ids ++ [p.id])
        (indices.insert p.id walked.ids.length) table.pages[walked.length + 1]?) s1 _ E
      rw [hlink, ← hc, hids]
      refine (openFrom_reads hreads rest (walked ++ [p]) (by rw [hchain, append_assoc]; rfl) hj1
        (hc ▸ h) (hids ▸ hindices.push hnew)).mono ?_ (fun _ _ he => he)
      exact fun _ _ hq => hq

/-- **The chain of a handle in order is opened again.** -/
theorem Reads.reopen {J : σ → Prop} {E : Fault HeapError → σ → Prop} (hreads : Reads service J E)
    {table : HeapTable} {chain : Chain} (hj : J s) (h : HeapInv (service.content s) table chain) :
    Exec.Ensures (open_ service table.head) s
      (fun table' s' => J s' ∧ service.content s' = service.content s ∧
        HeapInv (service.content s) table' chain ∧ table'.head = table.head) E := by
  have hhead := h.head
  rw [h.pages] at hhead
  unfold open_
  rw [← hhead]
  exact openFrom_reads hreads chain [] rfl hj h indexes_empty

end ChiliDB.HeapTable
