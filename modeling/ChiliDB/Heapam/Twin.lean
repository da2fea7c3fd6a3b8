import ChiliDB.Heapam.HeapRuns

/-!
# Two handles on the same records

Two heaps with the same slots page by page answer the same calls alike, and keep the same slots.  Page
ids may differ: the store chooses them, and a CTID of one heap stands for the CTID at the same place of
the other.

* `SameCtid` — the same place; `SameCall`, `SameAnswer` — the same up to that.
* `HeapOutcome.twin` — the same calls on the same slots have the same outcome, if the pool fails for
  both or for neither.
-/

namespace ChiliDB

open Effect HeapPage List
open Chain (ids_getElem? rowsOf_eq mem_of_live ids_setRow)

/-! ## The same place in two heaps -/

/-- The two pages have the same number in their heaps. -/
def SamePage (ids ids' : List PageId) (id id' : PageId) : Prop :=
  ∃ i : Nat, ids[i]? = some id ∧ ids'[i]? = some id'

def SameCtid (ids ids' : List PageId) (c c' : Ctid) : Prop :=
  SamePage ids ids' c.pageId c'.pageId ∧ c.slotId = c'.slotId

def SameRow (ids ids' : List PageId) (x x' : Ctid × Bytes) : Prop :=
  SameCtid ids ids' x.1 x'.1 ∧ x.2 = x'.2

/-- An argument of a call: it may also lie in neither heap. -/
def SameArgument (ids ids' : List PageId) (c c' : Ctid) : Prop :=
  SameCtid ids ids' c c' ∨ c.pageId ∉ ids ∧ c'.pageId ∉ ids'

inductive SameCall (ids ids' : List PageId) : HeapCall → HeapCall → Prop where
  | insert (b : Bytes) : SameCall ids ids' (.insert b) (.insert b)
  | get {c c' : Ctid} : SameArgument ids ids' c c' → SameCall ids ids' (.get c) (.get c')
  | delete {c c' : Ctid} : SameArgument ids ids' c c' → SameCall ids ids' (.delete c) (.delete c')
  | replace {c c' : Ctid} (b : Bytes) : SameArgument ids ids' c c' →
      SameCall ids ids' (.replace c b) (.replace c' b)
  | scan : SameCall ids ids' .scan .scan
  | next (k : Nat) : SameCall ids ids' (.next k) (.next k)

/-- The pool failed. -/
inductive IsBuffer : HeapAnswer → Prop where
  | call (x : BufferError) : IsBuffer (.error (.error (.buffer x)))
  | next (x : BufferError) : IsBuffer (.ok (.item (some (.error (.buffer x)))))

inductive SameAnswer (ids ids' : List PageId) : HeapAnswer → HeapAnswer → Prop where
  | inserted {c c' : Ctid} : SameCtid ids ids' c c' →
      SameAnswer ids ids' (.ok (.inserted c)) (.ok (.inserted c'))
  | record (b : Option Bytes) : SameAnswer ids ids' (.ok (.record b)) (.ok (.record b))
  | changed (done : Bool) : SameAnswer ids ids' (.ok (.changed done)) (.ok (.changed done))
  | scanning : SameAnswer ids ids' (.ok .scanning) (.ok .scanning)
  | row {x x' : Ctid × Bytes} : SameRow ids ids' x x' →
      SameAnswer ids ids' (.ok (.item (some (.ok x)))) (.ok (.item (some (.ok x'))))
  | ended : SameAnswer ids ids' (.ok (.item none)) (.ok (.item none))
  | noSpace : SameAnswer ids ids' (.error (.error .noSpace)) (.error (.error .noSpace))
  | tupleSize (n max : Nat) : SameAnswer ids ids' (.error (.error (.invalidTupleSize n max)))
      (.error (.error (.invalidTupleSize n max)))
  | invalidCtid {c c' : Ctid} : c.pageId ∉ ids → c'.pageId ∉ ids' →
      SameAnswer ids ids' (.error (.error (.invalidCtid c))) (.error (.error (.invalidCtid c')))
  | buffer {r r' : HeapAnswer} : IsBuffer r → IsBuffer r' → SameAnswer ids ids' r r'

/-- The same state of an iterator; a failed one returns nothing any more. -/
structure SameScan (ids ids' : List PageId) (scan scan' : HeapScan) : Prop where
  failed : scan.failed = scan'.failed
  index : scan.failed = false → scan.index = scan'.index
  pages : scan.failed = false →
    List.Forall₂ (fun x x' => SamePage ids ids' x.1 x'.1 ∧ x.2 = x'.2) scan.pages scan'.pages
  rows : scan.failed = false → List.Forall₂ (SameRow ids ids') scan.rows scan'.rows

/-- Both page lists got the same number of new pages. -/
def GrewAlike (ids ids' new new' : List PageId) : Prop :=
  ∃ more more' : List PageId, new = ids ++ more ∧ new' = ids' ++ more' ∧ more.length = more'.length

section

variable {ids ids' new new' : List PageId}

theorem GrewAlike.refl (ids ids' : List PageId) : GrewAlike ids ids' ids ids' :=
  ⟨[], [], (append_nil _).symm, (append_nil _).symm, rfl⟩

theorem GrewAlike.trans {last last' : List PageId} (h : GrewAlike ids ids' new new')
    (h' : GrewAlike new new' last last') : GrewAlike ids ids' last last' := by
  obtain ⟨a, a', rfl, rfl, hlen⟩ := h
  obtain ⟨b, b', rfl, rfl, hlen'⟩ := h'
  refine ⟨a ++ b, a' ++ b', append_assoc .., append_assoc .., ?_⟩
  rw [length_append, length_append, hlen, hlen']

theorem SamePage.grew {id id' : PageId} (h : SamePage ids ids' id id')
    (hg : GrewAlike ids ids' new new') : SamePage new new' id id' := by
  obtain ⟨i, hi, hi'⟩ := h
  obtain ⟨more, more', rfl, rfl, _⟩ := hg
  refine ⟨i, ?_, ?_⟩
  · rw [getElem?_append_left (lt_of_get hi), hi]
  · rw [getElem?_append_left (lt_of_get hi'), hi']

theorem SameRow.grew {x x' : Ctid × Bytes} (h : SameRow ids ids' x x')
    (hg : GrewAlike ids ids' new new') : SameRow new new' x x' :=
  ⟨⟨h.1.1.grew hg, h.1.2⟩, h.2⟩

theorem SameScan.grew {scan scan' : HeapScan} (h : SameScan ids ids' scan scan')
    (hg : GrewAlike ids ids' new new') : SameScan new new' scan scan' :=
  ⟨h.failed, h.index, fun hf => (h.pages hf).imp fun _ _ hx => ⟨hx.1.grew hg, hx.2⟩,
    fun hf => (h.rows hf).imp fun _ _ hx => hx.grew hg⟩

end

/-! ## The same slots -/

/-- The same slots, page by page. -/
def Chain.Alike (chain chain' : Chain) : Prop := chain.map RowPage.rows = chain'.map RowPage.rows

variable {chain chain' next next' : Chain} {c c' : Ctid}

theorem Chain.Alike.at (h : chain.Alike chain') {i : Nat} {p p' : RowPage} (hi : chain[i]? = some p)
    (hi' : chain'[i]? = some p') : p.rows = p'.rows := by
  have hrows : (chain.map RowPage.rows)[i]? = (chain'.map RowPage.rows)[i]? := by rw [h]
  rw [getElem?_map, getElem?_map, hi, hi'] at hrows
  exact Option.some.inj hrows

theorem Chain.Alike.set (h : chain.Alike chain') (i : Nat) {p p' : RowPage} (hp : p.rows = p'.rows) :
    Chain.Alike (chain.set i p) (chain'.set i p') := by
  unfold Chain.Alike at *
  rw [map_set, map_set, h, hp]

variable {id id' : PageId}

theorem SamePage.pages (h : SamePage chain.ids chain'.ids id id') :
    ∃ (i : Nat) (p p' : RowPage), chain[i]? = some p ∧ chain'[i]? = some p' ∧ p.id = id ∧ p'.id = id' := by
  obtain ⟨i, hi, hi'⟩ := h
  rw [ids_getElem?, Option.map_eq_some_iff] at hi hi'
  obtain ⟨p, hp, hid⟩ := hi
  obtain ⟨p', hp', hid'⟩ := hi'
  exact ⟨i, p, p', hp, hp', hid, hid'⟩

theorem SamePage.rowsOf (h : SamePage chain.ids chain'.ids id id') (ha : chain.Alike chain')
    (hn : chain.ids.Nodup) (hn' : chain'.ids.Nodup) : chain.rowsOf id = chain'.rowsOf id' := by
  obtain ⟨i, p, p', hp, hp', rfl, rfl⟩ := h.pages
  rw [rowsOf_eq hn hp, rowsOf_eq hn' hp', ha.at hp hp']

theorem SameCtid.slot (h : SameCtid chain.ids chain'.ids c c') (ha : chain.Alike chain')
    (hn : chain.ids.Nodup) (hn' : chain'.ids.Nodup) : chain.slot c = chain'.slot c' := by
  rw [Chain.slot_eq_rowsOf, Chain.slot_eq_rowsOf, h.1.rowsOf ha hn hn', h.2]

theorem SameCtid.setRow (h : SameCtid chain.ids chain'.ids c c') (ha : chain.Alike chain')
    (hn : chain.ids.Nodup) (hn' : chain'.ids.Nodup) (row : Option Bytes) :
    Chain.Alike (chain.setRow c row) (chain'.setRow c' row) := by
  obtain ⟨i, p, p', hp, hp', hid, hid'⟩ := h.1.pages
  rw [Chain.setRow_eq_set hn hp hid, Chain.setRow_eq_set hn' hp' hid']
  refine ha.set i ?_
  show p.rows.set _ row = p'.rows.set _ row
  rw [ha.at hp hp', h.2]

/-- An argument lies in both heaps or in neither. -/
theorem SameArgument.cases (h : SameArgument chain.ids chain'.ids c c') :
    SameCtid chain.ids chain'.ids c c' ∧ c.pageId ∈ chain.ids ∧ c'.pageId ∈ chain'.ids ∨
      c.pageId ∉ chain.ids ∧ c'.pageId ∉ chain'.ids := by
  rcases h with h | h
  · obtain ⟨i, hi, hi'⟩ := h.1
    exact .inl ⟨h, mem_of_getElem? hi, mem_of_getElem? hi'⟩
  · exact .inr h

theorem Chain.Alike.length (h : chain.Alike chain') : chain.length = chain'.length := by
  have hlen := congrArg List.length h
  rw [length_map, length_map] at hlen
  exact hlen

theorem Chain.Alike.append {last last' : RowPage} (h : chain.Alike chain')
    (hl : last.rows = last'.rows) : Chain.Alike (chain ++ [last]) (chain' ++ [last']) := by
  unfold Chain.Alike at *
  rw [map_append, map_append, h, map_singleton, map_singleton, hl]

theorem Chain.Alike.last {last last' : RowPage} (h : Chain.Alike (chain ++ [last]) (chain' ++ [last'])) :
    chain.Alike chain' ∧ last.rows = last'.rows := by
  unfold Chain.Alike at *
  rw [map_append, map_append] at h
  obtain ⟨hfront, hlast⟩ := append_inj' h rfl
  exact ⟨hfront, singleton_inj.1 hlast⟩

theorem Chain.ids_append (chain : Chain) (p : RowPage) : Chain.ids (chain ++ [p]) = chain.ids ++ [p.id] := by
  unfold Chain.ids
  rw [map_append]
  rfl

theorem samePage_last (hlen : chain.length = chain'.length) :
    SamePage (chain.ids ++ [id]) (chain'.ids ++ [id']) id id' := by
  have hids : chain.ids.length = chain'.ids.length := by
    unfold Chain.ids
    rw [length_map, length_map, hlen]
  refine ⟨chain.ids.length, getElem?_concat_length .., ?_⟩
  rw [hids]
  exact getElem?_concat_length ..

/-- **Insertions into the same slots.** -/
theorem Chain.Inserted.alike {b : Bytes} (h : Chain.Inserted chain b c next)
    (h' : Chain.Inserted chain' b c' next') (ha : chain.Alike chain') :
    Chain.Alike next next' ∧ SameCtid next.ids next'.ids c c' ∧
      GrewAlike chain.ids chain'.ids next.ids next'.ids := by
  cases h with
  | @tail front p c hchain hroom hid hslot =>
    cases h' with
    | @tail front' p' c' hchain' hroom' hid' hslot' =>
      subst hchain hchain'
      obtain ⟨hfront, hrows⟩ := ha.last
      refine ⟨hfront.append (by rw [hrows]), ⟨?_, SlotId.ext (by rw [hslot, hslot', hrows])⟩, ?_⟩
      · rw [Chain.ids_append, Chain.ids_append, hid, hid']
        exact samePage_last hfront.length
      · rw [Chain.ids_append, Chain.ids_append, Chain.ids_append, Chain.ids_append]
        exact .refl _ _
    | @page front' p' c' hchain' hroom' _ _ =>
      subst hchain hchain'
      rw [ha.last.2] at hroom
      exact absurd hroom hroom'
  | @page front p c hchain hroom hid hslot =>
    cases h' with
    | @tail front' p' c' hchain' hroom' _ _ =>
      subst hchain hchain'
      rw [ha.last.2] at hroom
      exact absurd hroom' hroom
    | @page front' p' c' hchain' hroom' hid' hslot' =>
      refine ⟨ha.append rfl, ⟨?_, SlotId.ext (by rw [hslot, hslot'])⟩, ?_⟩
      · rw [Chain.ids_append, Chain.ids_append]
        exact samePage_last ha.length
      · rw [Chain.ids_append, Chain.ids_append]
        exact ⟨[_], [_], rfl, rfl, rfl⟩

/-! ## Scans -/

theorem sameRows_live {ids ids' : List PageId} (h : SamePage ids ids' id id') (rows : List (Option Bytes))
    (limit : Nat) :
    List.Forall₂ (SameRow ids ids') (RowPage.live ⟨id, rows⟩ limit) (RowPage.live ⟨id', rows⟩ limit) := by
  unfold RowPage.live
  rw [forall₂_map_left_iff, forall₂_map_right_iff]
  exact forall₂_same.2 fun record _ => ⟨⟨h, rfl⟩, rfl⟩

/-- The next rows of two scans in the same state. -/
theorem advance_alike (ha : chain.Alike chain') (hn : chain.ids.Nodup) (hn' : chain'.ids.Nodup)
    {rest rest' : List (PageId × Nat)}
    (hrest : Forall₂ (fun x x' => SamePage chain.ids chain'.ids x.1 x'.1 ∧ x.2 = x'.2) rest rest') :
    ∀ {scan scan' : HeapScan}, scan.failed = false → SameScan chain.ids chain'.ids scan scan' →
      SameScan chain.ids chain'.ids (chain.advance rest scan).2 (chain'.advance rest' scan').2 ∧
      Option.Rel (SameRow chain.ids chain'.ids) (chain.advance rest scan).1 (chain'.advance rest' scan').1 := by
  induction hrest with
  | nil =>
    intro ⟨pages, index, rows, failed⟩ ⟨pages', index', rows', failed'⟩ hf h
    have hrows := h.rows hf
    cases hrows with
    | nil => exact ⟨⟨h.failed, h.index, h.pages, fun _ => .nil⟩, .none⟩
    | cons hx hrows => exact ⟨⟨h.failed, h.index, h.pages, fun _ => hrows⟩, .some hx⟩
  | @cons x x' rest rest' hx _ ih =>
    intro ⟨pages, index, rows, failed⟩ ⟨pages', index', rows', failed'⟩ hf h
    have hrows := h.rows hf
    cases hrows with
    | cons hx hrows => exact ⟨⟨h.failed, h.index, h.pages, fun _ => hrows⟩, .some hx⟩
    | nil =>
      refine ih hf ⟨h.failed, fun hf => congrArg (· + 1) (h.index hf), h.pages, fun _ => ?_⟩
      show List.Forall₂ _ (RowPage.live ⟨x.1, chain.rowsOf x.1⟩ x.2) (RowPage.live ⟨x'.1, chain'.rowsOf x'.1⟩ x'.2)
      rw [← hx.1.rowsOf ha hn hn', ← hx.2]
      exact sameRows_live hx.1 _ _

theorem sameScan_capture (ha : chain.Alike chain') :
    SameScan chain.ids chain'.ids chain.capture chain'.capture := by
  refine ⟨rfl, fun _ => rfl, fun _ => ?_, fun _ => .nil⟩
  unfold Chain.capture
  rw [forall₂_map_left_iff, forall₂_map_right_iff]
  refine forall₂_iff_get.2 ⟨ha.length, fun i hi hi' => ?_⟩
  have hp : chain[i]? = some (chain.get ⟨i, hi⟩) := getElem?_eq_getElem hi
  have hp' : chain'[i]? = some (chain'.get ⟨i, hi'⟩) := getElem?_eq_getElem hi'
  refine ⟨⟨i, ?_, ?_⟩, by rw [ha.at hp hp']⟩
  · rw [ids_getElem?, hp]
    rfl
  · rw [ids_getElem?, hp']
    rfl

/-! ## What a call does if the pool serves it -/

variable {scans scans' : List HeapScan} {op op' : HeapCall} {r r' : HeapAnswer}

/-- A call that the pool failed. -/
theorem HeapOutcome.failed (h : HeapOutcome chain scans op r next scans') (hr : IsBuffer r) :
    next = chain ∧ (scans' = scans ∧ (∀ k, op ≠ .next k) ∨
      ∃ k scan scan', op = .next k ∧ scans[k]? = some scan ∧ scans' = scans.set k scan' ∧ scan'.failed = true) := by
  cases h with
  | buffer hop =>
    refine ⟨rfl, .inl ⟨rfl, ?_⟩⟩
    rintro k rfl
    exact hop
  | nextFails hk _ hf _ => exact ⟨rfl, .inr ⟨_, _, _, rfl, hk, rfl, hf⟩⟩
  | @next k scan scan' row _ _ _ => cases row <;> cases hr
  | _ => cases hr

/-- An access by CTID. -/
def Chain.access (chain : Chain) (c : Ctid) (found : Option Bytes → HeapAnswer × Chain) :
    HeapAnswer × Chain :=
  if c.pageId ∈ chain.ids then found (chain.slot c).join
  else (.error (.error (.invalidCtid c)), chain)

/-- What `get`, `delete` and `replace` do. -/
def Chain.served (chain : Chain) : HeapCall → HeapAnswer × Chain
  | .get c => chain.access c fun row => (.ok (.record row), chain)
  | .delete c => chain.access c fun
    | some _ => (.ok (.changed true), chain.setRow c none)
    | none => (.ok (.changed false), chain)
  | .replace c b =>
    if Legal b then chain.access c fun
      | some old =>
        if Chain.CanReplace (chain.rowsOf c.pageId) old b then
          (.ok (.changed true), chain.setRow c (some b))
        else
          (.error (.error .noSpace), chain)
      | none => (.ok (.changed false), chain)
    else
      (.error (.error (.invalidTupleSize b.length 8164)), chain)
  | _ => (.ok .scanning, chain)

/-- The call names a CTID. -/
inductive HeapCall.IsAccess : HeapCall → Prop where
  | get (c : Ctid) : IsAccess (.get c)
  | delete (c : Ctid) : IsAccess (.delete c)
  | replace (c : Ctid) (b : Bytes) : IsAccess (.replace c b)

theorem HeapOutcome.served (h : HeapOutcome chain scans op r next scans') (hop : op.IsAccess)
    (hr : ¬ IsBuffer r) : (r, next) = chain.served op ∧ scans' = scans := by
  cases h with
  | get hm => exact ⟨by simp [Chain.served, Chain.access, hm], rfl⟩
  | delete hlive =>
    obtain ⟨b, hb⟩ := Option.ne_none_iff_exists'.1 hlive
    exact ⟨by simp [Chain.served, Chain.access, mem_of_live hlive, hb], rfl⟩
  | deleteDead hm hdead => exact ⟨by simp [Chain.served, Chain.access, hm, hdead], rfl⟩
  | @replace c b old hb hlive hfits =>
    have hm : c.pageId ∈ chain.ids := mem_of_live (by rw [hlive]; simp)
    exact ⟨by simp [Chain.served, Chain.access, hm, hb, hlive, hfits], rfl⟩
  | replaceDead hb hm hdead => exact ⟨by simp [Chain.served, Chain.access, hm, hb, hdead], rfl⟩
  | @noSpace c b old hb hlive hfull =>
    have hm : c.pageId ∈ chain.ids := mem_of_live (by rw [hlive]; simp)
    exact ⟨by simp [Chain.served, Chain.access, hm, hb, hlive, hfull], rfl⟩
  | invalidCtid hname hm =>
    cases hop with
    | get | delete => cases hname; exact ⟨by simp [Chain.served, Chain.access, hm], rfl⟩
    | replace =>
      obtain ⟨rfl, hb⟩ := hname
      exact ⟨by simp [Chain.served, Chain.access, hm, hb], rfl⟩
  | tupleSize hsize =>
    cases hop with
    | get | delete => exact hsize.elim
    | replace =>
      obtain ⟨hb, rfl⟩ := hsize
      exact ⟨by simp [Chain.served, hb], rfl⟩
  | buffer => exact absurd (.call _) hr
  | _ => cases hop

/-- Accesses to the same slots. -/
theorem SameArgument.access (h : SameArgument chain.ids chain'.ids c c') (ha : chain.Alike chain')
    (hn : chain.ids.Nodup) (hn' : chain'.ids.Nodup) {P : HeapAnswer × Chain → HeapAnswer × Chain → Prop}
    {found found' : Option Bytes → HeapAnswer × Chain}
    (hfound : SameCtid chain.ids chain'.ids c c' → P (found (chain.slot c).join) (found' (chain.slot c).join))
    (hbad : c.pageId ∉ chain.ids → c'.pageId ∉ chain'.ids →
      P (.error (.error (.invalidCtid c)), chain) (.error (.error (.invalidCtid c')), chain')) :
    P (chain.access c found) (chain'.access c' found') := by
  unfold Chain.access
  rcases h.cases with ⟨hsame, hm, hm'⟩ | ⟨hm, hm'⟩
  · rw [if_pos hm, if_pos hm', ← hsame.slot ha hn hn']
    exact hfound hsame
  · rw [if_neg hm, if_neg hm']
    exact hbad hm hm'

/-- The answers are the same and so are the slots; no page was added. -/
structure SameServed (chain chain' : Chain) (x x' : HeapAnswer × Chain) : Prop where
  answer : SameAnswer chain.ids chain'.ids x.1 x'.1
  alike : x.2.Alike x'.2
  ids : x.2.ids = chain.ids
  ids' : x'.2.ids = chain'.ids

theorem SameCall.served (h : SameCall chain.ids chain'.ids op op') (hop : op.IsAccess)
    (ha : chain.Alike chain') (hn : chain.ids.Nodup) (hn' : chain'.ids.Nodup) :
    SameServed chain chain' (chain.served op) (chain'.served op') := by
  have hbad : ∀ {c c' : Ctid}, c.pageId ∉ chain.ids → c'.pageId ∉ chain'.ids →
      SameServed chain chain' (.error (.error (.invalidCtid c)), chain)
        (.error (.error (.invalidCtid c')), chain') :=
    fun hm hm' => ⟨.invalidCtid hm hm', ha, rfl, rfl⟩
  have hset : ∀ {c c' : Ctid} (row : Option Bytes), SameCtid chain.ids chain'.ids c c' →
      SameServed chain chain' (.ok (.changed true), chain.setRow c row)
        (.ok (.changed true), chain'.setRow c' row) :=
    fun row hsame => ⟨.changed true, hsame.setRow ha hn hn' row, ids_setRow .., ids_setRow ..⟩
  cases h with
  | get harg =>
    simp only [Chain.served]
    exact harg.access ha hn hn' (fun _ => ⟨.record _, ha, rfl, rfl⟩) hbad
  | delete harg =>
    simp only [Chain.served]
    refine harg.access ha hn hn' (fun hsame => ?_) hbad
    cases (chain.slot _).join with
    | some _ => exact hset none hsame
    | none => exact ⟨.changed false, ha, rfl, rfl⟩
  | replace b harg =>
    simp only [Chain.served]
    by_cases hb : Legal b
    · rw [if_pos hb, if_pos hb]
      refine harg.access ha hn hn' (fun hsame => ?_) hbad
      cases (chain.slot _).join with
      | none => exact ⟨.changed false, ha, rfl, rfl⟩
      | some old =>
        simp only [hsame.1.rowsOf ha hn hn']
        split
        · exact hset (some b) hsame
        · exact ⟨.noSpace, ha, rfl, rfl⟩
    · rw [if_neg hb, if_neg hb]
      exact ⟨.tupleSize _ _, ha, rfl, rfl⟩
  | _ => cases hop

/-! ## One call on both heaps -/

section

variable {α β : Type} {R : α → β → Prop} {l : List α} {l' : List β}

theorem forall₂_getElem? (h : Forall₂ R l l') : ∀ {k : Nat} {a : α} {b : β},
    l[k]? = some a → l'[k]? = some b → R a b := by
  induction h with
  | nil => exact fun h _ => by cases h
  | cons hab _ ih =>
    intro k a b ha hb
    cases k with
    | zero => cases ha; cases hb; exact hab
    | succ k => exact ih ha hb

theorem forall₂_set (h : Forall₂ R l l') {a : α} {b : β} (hab : R a b) :
    ∀ k : Nat, Forall₂ R (l.set k a) (l'.set k b) := by
  induction h with
  | nil => exact fun _ => .nil
  | cons hcd hrest ih =>
    intro k
    cases k with
    | zero => exact .cons hab hrest
    | succ k => exact .cons hcd (ih k)

end

/-- The same slots, and scans in the same state. -/
structure SameHeap (chain chain' : Chain) (scans scans' : List HeapScan) : Prop where
  alike : chain.Alike chain'
  scans : List.Forall₂ (SameScan chain.ids chain'.ids) scans scans'

/-- What a pair of calls comes to. -/
structure SameOutcome (chain chain' next next' : Chain) (scans scans' : List HeapScan)
    (r r' : HeapAnswer) : Prop where
  answer : SameAnswer next.ids next'.ids r r'
  heap : SameHeap next next' scans scans'
  grew : GrewAlike chain.ids chain'.ids next.ids next'.ids

theorem HeapOutcome.insert_served {b : Bytes} {after : List HeapScan}
    (h : HeapOutcome chain scans (.insert b) r next after) (hr : ¬ IsBuffer r) :
    after = scans ∧ (Legal b ∧ (∃ c, r = .ok (.inserted c) ∧ Chain.Inserted chain b c next) ∨
      ¬ Legal b ∧ r = .error (.error (.invalidTupleSize b.length 8164)) ∧ next = chain) := by
  cases h with
  | insert hb hins => exact ⟨rfl, .inl ⟨hb, _, rfl, hins⟩⟩
  | tupleSize hsize =>
    obtain ⟨hb, rfl⟩ := hsize
    exact ⟨rfl, .inr ⟨hb, rfl, rfl⟩⟩
  | invalidCtid hop => exact hop.elim
  | buffer => exact absurd (.call _) hr

theorem HeapOutcome.scan_served {after : List HeapScan}
    (h : HeapOutcome chain scans .scan r next after) (hr : ¬ IsBuffer r) :
    after = scans ++ [chain.capture] ∧ r = .ok .scanning ∧ next = chain := by
  cases h with
  | scan => exact ⟨rfl, rfl, rfl⟩
  | invalidCtid hop | tupleSize hop => exact hop.elim
  | buffer => exact absurd (.call _) hr

theorem HeapOutcome.next_served {k : Nat} {after : List HeapScan}
    (h : HeapOutcome chain scans (.next k) r next after) (hr : ¬ IsBuffer r) :
    next = chain ∧ ∃ scan, scans[k]? = some scan ∧
      (scan.failed = true ∧ r = .ok (.item none) ∧ after = scans ∨
        scan.failed = false ∧ ∃ row scan', chain.advance (scan.pages.drop scan.index) scan = (row, scan') ∧
          r = .ok (.item (row.map .ok)) ∧ after = scans.set k scan') := by
  cases h with
  | next hk hf hadv => exact ⟨rfl, _, hk, .inr ⟨hf, _, _, hadv, rfl, rfl⟩⟩
  | nextEnded hk hf => exact ⟨rfl, _, hk, .inl ⟨hf, rfl, rfl⟩⟩
  | nextFails => exact absurd (.next _) hr
  | invalidCtid hop | tupleSize hop | buffer hop => exact hop.elim

variable {after after' : List HeapScan}

/-- The pool failed both calls. -/
theorem HeapOutcome.twin_failed (h : HeapOutcome chain scans op r next after)
    (h' : HeapOutcome chain' scans' op' r' next' after') (hs : SameHeap chain chain' scans scans')
    (hop : SameCall chain.ids chain'.ids op op') (hr : IsBuffer r) (hr' : IsBuffer r') :
    SameOutcome chain chain' next next' after after' r r' := by
  obtain ⟨rfl, hafter⟩ := h.failed hr
  obtain ⟨rfl, hafter'⟩ := h'.failed hr'
  refine ⟨.buffer hr hr', ⟨hs.alike, ?_⟩, .refl _ _⟩
  rcases hafter with ⟨rfl, hnot⟩ | ⟨k, scan, scan', rfl, _, rfl, hf⟩
  · rcases hafter' with ⟨rfl, _⟩ | ⟨k', _, _, rfl, _⟩
    · exact hs.scans
    · cases hop
      exact absurd rfl (hnot k')
  · cases hop
    rcases hafter' with ⟨_, hnot⟩ | ⟨k', _, _, hk', _, rfl, hf'⟩
    · exact absurd rfl (hnot k)
    · cases hk'
      have hdone : ∀ {P : Prop}, scan'.failed = false → P := by
        intro P hfalse
        rw [hf] at hfalse
        cases hfalse
      exact forall₂_set hs.scans ⟨hf.trans hf'.symm, hdone, hdone, hdone⟩ k

/-- **The same call on the same slots has the same outcome.** -/
theorem HeapOutcome.twin (h : HeapOutcome chain scans op r next after)
    (h' : HeapOutcome chain' scans' op' r' next' after') (hn : chain.ids.Nodup)
    (hn' : chain'.ids.Nodup) (hs : SameHeap chain chain' scans scans')
    (hop : SameCall chain.ids chain'.ids op op') (hfails : IsBuffer r ↔ IsBuffer r') :
    SameOutcome chain chain' next next' after after' r r' := by
  by_cases hr : IsBuffer r
  · exact h.twin_failed h' hs hop hr (hfails.1 hr)
  have hr' : ¬ IsBuffer r' := fun hb => hr (hfails.2 hb)
  -- an access by CTID
  have haccess : op.IsAccess → op'.IsAccess → SameOutcome chain chain' next next' after after' r r' := by
    intro ha ha'
    obtain ⟨hx, rfl⟩ := h.served ha hr
    obtain ⟨hx', rfl⟩ := h'.served ha' hr'
    have hserved := hop.served ha hs.alike hn hn'
    rw [← hx, ← hx'] at hserved
    have hids : next.ids = chain.ids := hserved.ids
    have hids' : next'.ids = chain'.ids := hserved.ids'
    refine ⟨?_, ⟨hserved.alike, ?_⟩, ?_⟩
    · rw [hids, hids']; exact hserved.answer
    · rw [hids, hids']; exact hs.scans
    · rw [hids, hids']; exact .refl _ _
  cases hop with
  | get => exact haccess (.get _) (.get _)
  | delete => exact haccess (.delete _) (.delete _)
  | replace => exact haccess (.replace _ _) (.replace _ _)
  | insert b =>
    obtain ⟨rfl, ⟨hb, c, rfl, hins⟩ | ⟨hb, rfl, rfl⟩⟩ := h.insert_served hr
    · obtain ⟨rfl, ⟨_, c', rfl, hins'⟩ | ⟨hb', _⟩⟩ := h'.insert_served hr'
      · obtain ⟨halike, hsame, hgrew⟩ := hins.alike hins' hs.alike
        exact ⟨.inserted hsame, ⟨halike, hs.scans.imp fun _ _ hscan => hscan.grew hgrew⟩, hgrew⟩
      · exact absurd hb hb'
    · obtain ⟨rfl, ⟨hb', _⟩ | ⟨_, rfl, rfl⟩⟩ := h'.insert_served hr'
      · exact absurd hb' hb
      · exact ⟨.tupleSize _ _, hs, .refl _ _⟩
  | scan =>
    obtain ⟨rfl, rfl, rfl⟩ := h.scan_served hr
    obtain ⟨rfl, rfl, rfl⟩ := h'.scan_served hr'
    exact ⟨.scanning, ⟨hs.alike, rel_append hs.scans (.cons (sameScan_capture hs.alike) .nil)⟩, .refl _ _⟩
  | next k =>
    obtain ⟨rfl, scan, hk, hcase⟩ := h.next_served hr
    obtain ⟨rfl, scan', hk', hcase'⟩ := h'.next_served hr'
    have hsame := forall₂_getElem? hs.scans hk hk'
    have hfailed := hsame.failed
    rcases hcase with ⟨hf, rfl, rfl⟩ | ⟨hf, row, scan1, hadv, rfl, rfl⟩
    · rcases hcase' with ⟨_, rfl, rfl⟩ | ⟨hf', _⟩
      · exact ⟨.ended, hs, .refl _ _⟩
      · rw [hf, hf'] at hfailed
        cases hfailed
    · rcases hcase' with ⟨hf', _⟩ | ⟨_, row', scan1', hadv', rfl, rfl⟩
      · rw [hf, hf'] at hfailed
        cases hfailed
      · have hrest := forall₂_drop scan.index (hsame.pages hf)
        rw [hsame.index hf] at hrest hadv
        obtain ⟨hscan, hrow⟩ := advance_alike hs.alike hn hn' hrest hf hsame
        rw [hadv, hadv'] at hscan hrow
        refine ⟨?_, ⟨hs.alike, forall₂_set hs.scans hscan k⟩, .refl _ _⟩
        cases hrow with
        | none => exact .ended
        | some hx => exact .row hx

end ChiliDB
