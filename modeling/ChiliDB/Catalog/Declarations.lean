import ChiliDB.Binder.CreateTable
import ChiliDB.Catalog.CatalogRuns
import ChiliDB.Catalog.RecordSize

/-!
# Declarations

The binder checks the columns of a `CREATE TABLE`, the catalog checks the record it makes of a declaration.

* `Declares.valid` — what the binder accepts passes `validate`.
* `Reached` — a catalog that was created or opened, after any calls.
* `createTable_errors` — how `createTable` can fail.

Principal results: `bound_declarations_are_accepted`, `rejected_declarations_leave_no_trace`.
-/

namespace ChiliDB.HeapCatalog

open Effect Binder List
open Codec (Metadata recordSize)

/-! ## Bound declarations are valid -/

section

variable {E : Type} {name : String} {columns : List Sql.ColumnDef} {d : CreateTable}

theorem mem_declaredKeys {c : TableConstraint} : c ∈ declaredKeys columns 0 ↔
    ∃ i column k, columns[i]? = some column ∧ k ∈ column.constraints ∧ declaredKey i k = some c := by
  unfold declaredKeys
  constructor
  · intro h
    obtain ⟨⟨column, i⟩, hi, hc⟩ := mem_flatMap.1 h
    obtain ⟨k, hk, hkey⟩ := mem_filterMap.1 hc
    exact ⟨i, column, k, mem_zipIdx_iff_getElem?.1 hi, hk, hkey⟩
  · rintro ⟨i, column, k, hi, hk, hkey⟩
    exact mem_flatMap.2 ⟨(column, i), mem_zipIdx_iff_getElem?.2 hi, mem_filterMap.2 ⟨k, hk, hkey⟩⟩

theorem countP_declaredKey (index : Nat) (cs : List Sql.ColumnConstraint) :
    (cs.filterMap (declaredKey index)).countP (fun c => (Codec.constraintParts c).2) = cs.count .primaryKey := by
  induction cs with
  | nil => rfl
  | cons c cs ih =>
    cases c <;> simp [declaredKey, filterMap_cons, countP_cons, ih]

/-- Every `PRIMARY KEY` is one key. -/
theorem countP_declaredKeys (columns : List Sql.ColumnDef) : ∀ index : Nat,
    (declaredKeys columns index).countP (fun c => (Codec.constraintParts c).2) =
      (columns.flatMap Sql.ColumnDef.constraints).count .primaryKey := by
  unfold declaredKeys
  induction columns with
  | nil => exact fun _ => rfl
  | cons column columns ih =>
    intro index
    rw [zipIdx_cons, flatMap_cons, flatMap_cons, countP_append, count_append, ih, countP_declaredKey]

theorem names_bound {bound : List CreateColumn} (h : Forall₂ (BoundColumn E) columns bound) :
    bound.map CreateColumn.name = columns.map Sql.ColumnDef.name := by
  induction h with
  | nil => rfl
  | cons hc _ ih => rw [map_cons, map_cons, hc.name, ih]

/-- **What the binder accepts passes `validate`.** -/
theorem valid_of_declares (h : Declares E name columns d) (head : PageId) :
    Codec.validate { declared d with head := head } = .ok () := by
  obtain ⟨hname, hne, hnames⟩ := h.named
  have hschema : (declared d).schema.columns.map ColumnSchema.name = columns.map Sql.ColumnDef.name := by
    rw [← names_bound h.bound]
    exact map_map
  have hlength : d.columns.length = columns.length := h.bound.length_eq.symm
  rw [Codec.validate_ok]
  refine ⟨⟨?_, ?_⟩, ⟨?_, ?_⟩, ?_, ?_⟩
  · rw [← h.table] at hname
    exact hname
  · intro he
    apply hne
    rw [← length_eq_zero_iff, ← hlength, length_eq_zero_iff]
    exact map_eq_nil_iff.1 he
  · intro c hc
    obtain ⟨bound, hbound, rfl⟩ := mem_map.1 hc
    obtain ⟨column, hcolumn, hb⟩ := exists_of_forall₂ h.bound bound hbound
    exact ⟨hb.name ▸ hnames column hcolumn, (bindType_ok hb.dataType).1⟩
  · rw [hschema]
    exact h.distinct
  · intro c hc
    have hc' : c ∈ declaredKeys columns 0 := h.constraints ▸ hc
    obtain ⟨i, column, k, hi, hk, hkey⟩ := mem_declaredKeys.1 hc'
    obtain ⟨bound, hbound, hb⟩ := getElem?_of_forall₂ h.bound hi
    have hcolumn : (declared d).schema.columns[i]? = some ⟨bound.name, bound.dataType, bound.nullable⟩ := by
      show (d.columns.map _)[i]? = _
      rw [getElem?_map, hbound]
      rfl
    cases k with
    | notNull => cases hkey
    | primaryKey =>
      cases hkey
      refine ⟨by simp, fun j hj => ?_, by simp⟩
      cases mem_singleton.1 hj
      refine ⟨_, hcolumn, fun _ => ?_⟩
      show bound.nullable = false
      rw [hb.nullable, mayBeNull, all_eq_false]
      exact ⟨_, hk, by simp⟩
    | unique =>
      cases hkey
      refine ⟨by simp, fun j hj => ?_, by simp⟩
      cases mem_singleton.1 hj
      exact ⟨_, hcolumn, fun he => by cases he⟩
  · show d.constraints.countP _ ≤ 1
    rw [h.constraints, countP_declaredKeys]
    exact h.primary

end

/-! ## How `createTable` fails -/

section

variable {σ : Type} {service : PageService σ} {pins : List PinnedBuffer} {root : PageId} {chain : Chain}
  {ms : List Metadata} {s : CatalogState σ}

/-- A catalog that was created or opened, after any calls. -/
def Reached (service : PageService σ) (s : CatalogState σ) : Prop :=
  ∃ (pool pool' : σ) (pins : List PinnedBuffer) (catalog : HeapCatalog), service.inv pool pins ∧
    (create service pool = (.ok catalog, pool') ∨
      ∃ root, open_ service root pool = (.ok (some catalog), pool')) ∧
    CatalogRun service ⟨pool', catalog⟩ s

theorem Reached.inv (h : Reached service s) : ∃ pins root chain ms, CatalogInv service pins root chain ms s := by
  obtain ⟨pool, pool', pins, catalog, hinv, hcreate | ⟨root, hopen⟩, hrun⟩ := h
  · obtain ⟨_, hstart⟩ := (create_sound hinv).ok hcreate
    obtain ⟨chain, ms, hs⟩ := hrun.inv hstart
    exact ⟨pins, _, chain, ms, hs⟩
  · obtain ⟨catalog', _, _, he, _, hstart⟩ := (open_sound hinv root).ok hopen
    cases he
    obtain ⟨chain, ms, hs⟩ := hrun.inv hstart
    exact ⟨pins, root, chain, ms, hs⟩

/-- The ways in which `createTable` fails if heaps fail with `H`; only a heap leaves another state. -/
inductive Refused (H : Fault HeapError → Prop) (d : CreateTable) (s : CatalogState σ) :
    Fault CatalogError → CatalogState σ → Prop where
  | poisoned : s.catalog.poisoned = true → Refused H d s (.error .poisoned) s
  | tableExists : Refused H d s (.error (.tableExists d.name)) s
  | invalid {reason : String} : Codec.encode (declared d) = .error reason →
      Refused H d s (.error (.invalidMetadata reason)) s
  | heap {e : Fault HeapError} {s' : CatalogState σ} : H e → Refused H d s (e.map .heap) s'

/-- A record that was encoded has a legal size. -/
theorem legal_of_encode {m : Metadata} {b : Bytes} (h : Codec.encode m = .ok b) : HeapPage.Legal b := by
  refine ⟨?_, (Codec.encode_ok.1 h).2.2⟩
  rintro rfl
  have hlength : 0 = 10 + Codec.fieldsSize m := Codec.length_encode h
  omega

theorem createTable_refused {H : Fault HeapError → Prop} {d : CreateTable}
    (hheap : Exec.Ensures (HeapTable.create service) s.pool
      (fun _ pool => ∀ b, HeapPage.Legal b →
        Exec.Ensures (HeapTable.insert service b) ⟨pool, s.catalog.metadata⟩ (fun _ _ => True) (fun e _ => H e))
      (fun e _ => H e)) :
    Exec.Ensures (createTable service d) s (fun _ _ => True) (Refused H d s) := by
  -- A heap may panic, and then the mutex is poisoned.
  have hfault : ∀ (e : Fault HeapError) (s' : CatalogState σ), H e →
      Exec.afterPanic poison (Refused H d s) (e.map .heap) s' := by
    intro e s' he
    cases e <;> exact .heap he
  refine .bind (.get ?_)
  split
  · rename_i hp
    exact .poisoned hp
  apply Exec.Ensures.onPanic
  beta_reduce
  split
  · exact .tableExists
  refine .bind (ensures_encoded (fun b hb => ?_) (fun reason hr => .invalid hr))
  refine .bind (.zoom (.mapErr (hheap.mono ?_ ?_)))
  · intro heap pool hinsert
    obtain ⟨b', hb', _⟩ := Codec.encode_head hb heap.head
    refine .bind (ensures_encoded (fun b2 hb2 => ?_) (fun reason hr => ?_))
    · refine .bind (.zoom (.mapErr
        ((hinsert b2 (legal_of_encode hb2)).mono (fun _ _ _ => ?_) (fun e _ he => hfault e _ he))))
      exact .bind trivial
    · rw [hb'] at hr
      cases hr
  · exact fun e pool he => hfault e _ he

/-- In a catalog in order only the pool fails. -/
theorem createTable_errors (h : CatalogInv service pins root chain ms s) (d : CreateTable) :
    Exec.Ensures (createTable service d) s (fun _ _ => True) (Refused FromBuffer d s) := by
  apply createTable_refused
  refine (HeapTable.create_spec h.pool).mono ?_ (fun _ _ he => he.2)
  rintro heap pool ⟨_, hkept, _⟩ b hb
  have h1 := h.kept hkept
  have hpool : service.inv (Heap.mk pool s.catalog.metadata).pool pins := hkept.inv
  refine (HeapTable.insert_spec hpool h1.metadata b).mono (fun _ _ _ => trivial) ?_
  rintro e heap' ⟨_, he | he⟩
  · exact he.2
  · exact absurd hb he.1

/-- **Tables the binder accepts are tables the catalog accepts.**  The record of a bound declaration is valid
whatever its head is, so in a catalog in use `createTable` fails for a name that is taken, for the pool, or
for the size of the record.  Columns with a duplicate or an empty name, two primary keys or an illegal
`VARCHAR` length are not bound. -/
theorem bound_declarations_are_accepted {E : Type} (catalog : Catalog E) (name : String)
    (columns : List Sql.ColumnDef) :
    (∀ d, bindCreateTable catalog name columns = .ok d →
      (∀ head, Codec.validate { declared d with head := head } = .ok ()) ∧
      ∀ (σ : Type) (service : PageService σ) (s : CatalogState σ), Reached service s →
        ∀ e s', createTable service d s = (.error e, s') →
          e = .error (.tableExists d.name) ∨ (∃ x, e = .error (.heap (.buffer x))) ∨
          ∃ reason, e = .error (.invalidMetadata reason) ∧
            HeapPage.MAX_TUPLE_SIZE < recordSize (declared d)) ∧
    ((¬ (columns.map Sql.ColumnDef.name).Nodup ∨ (∃ c ∈ columns, c.name = "") ∨
        2 ≤ (columns.flatMap Sql.ColumnDef.constraints).count .primaryKey ∨
        ∃ c ∈ columns, ∃ length, c.dataType = .varchar (some length) ∧
          ¬ (isDigits length = true ∧ 1 ≤ digits length.toList ∧ digits length.toList ≤ 2 ^ 32 - 1)) →
      ∀ d, bindCreateTable catalog name columns ≠ .ok d) := by
  constructor
  · intro d hbind
    have hvalid := valid_of_declares (bindCreateTable_ok hbind)
    refine ⟨hvalid, fun σ service s hs e s' hcall => ?_⟩
    obtain ⟨_, _, _, _, hinv⟩ := hs.inv
    cases (createTable_errors hinv d).error hcall with
    | poisoned hp =>
      rw [hinv.unpoisoned] at hp
      cases hp
    | tableExists => exact .inl rfl
    | heap he =>
      obtain ⟨x, rfl⟩ := he
      exact .inr (.inl ⟨x, rfl⟩)
    | invalid hreason =>
      refine .inr (.inr ⟨_, rfl, Nat.lt_of_not_le fun hle => ?_⟩)
      obtain ⟨b, hb⟩ := Codec.encode_accepts.2 ⟨hvalid 0, hle⟩
      rw [show Codec.encode (declared d) = .ok b from hb] at hreason
      cases hreason
  · intro hbad d hbind
    have h := bindCreateTable_ok hbind
    rcases hbad with hnames | ⟨c, hc, hempty⟩ | hprimary | ⟨c, hc, length, htype, hlength⟩
    · exact hnames h.distinct
    · exact h.named.2.2 c hc hempty
    · have := h.primary
      omega
    · obtain ⟨i, hi⟩ := mem_iff_getElem?.1 hc
      obtain ⟨bound, _, hb⟩ := getElem?_of_forall₂ h.bound hi
      exact hlength ((bindType_ok hb.dataType).2 length htype)

/-- For a binder without tables. -/
def noTables : Catalog Empty := ⟨fun _ => .ok none⟩

/-- A new catalog in a pool of one frame. -/
theorem example_reached : ∃ s, Reached BufferPool.memory s ∧ s.catalog.entries = ∅ := by
  obtain ⟨pool, hinv, hrun⟩ := example_pool
  obtain ⟨catalog, pool0, _, _, _, hcreate, _, _⟩ := exampleFlush_spec hrun
  have hempty : Exec.Ensures (create BufferPool.memory) pool
      (fun catalog _ => catalog.entries = ∅) (fun _ _ => True) := by
    refine .bind ((Exec.ensures_true _ _).mono (fun _ _ _ => ?_) (fun _ _ _ => trivial))
    exact .bind ((Exec.ensures_true _ _).mono (fun _ _ _ => rfl) (fun _ _ _ => trivial))
  exact ⟨⟨pool0, catalog⟩, ⟨pool, pool0, [], catalog, hinv, .inl hcreate, .start⟩, hempty.ok hcreate⟩

/-- `CREATE TABLE t (x INTEGER PRIMARY KEY)`, and a column of type `VARCHAR(0)`. -/
theorem key_column_is_accepted :
    bindCreateTable noTables "t" [⟨"x", .integer, [.primaryKey]⟩] = .ok exampleTable ∧
    Codec.validate (declared exampleTable) = .ok () ∧
    (∃ s, Reached BufferPool.memory s ∧
      ∀ e s', createTable BufferPool.memory exampleTable s = (.error e, s') →
        e = .error (.tableExists "t") ∨ (∃ x, e = .error (.heap (.buffer x)))) ∧
    ∀ d, bindCreateTable noTables "t" [⟨"x", .varchar (some "0"), []⟩] ≠ .ok d := by
  have hbind : bindCreateTable noTables "t" [⟨"x", .integer, [.primaryKey]⟩] = .ok exampleTable := rfl
  obtain ⟨hvalid, hcall⟩ := (bound_declarations_are_accepted noTables "t" _).1 _ hbind
  obtain ⟨s, hs, _⟩ := example_reached
  refine ⟨hbind, hvalid 0, ⟨s, hs, fun e s' h => ?_⟩, ?_⟩
  · rcases hcall _ _ s hs e s' h with he | he | ⟨_, _, hlarge⟩
    · exact .inl he
    · exact .inr he
    · exact absurd hlarge (by decide)
  · exact (bound_declarations_are_accepted noTables "t" _).2
      (.inr (.inr (.inr ⟨_, mem_singleton.2 rfl, "0", rfl, by decide⟩)))

/-- **Rejected declarations leave no trace.**  A name that is taken and an invalid record are reported before
anything is done.  The second encoding succeeds if the first one did, its record has the same length, and the
metadata heap takes records of that size. -/
theorem rejected_declarations_leave_no_trace (service : PageService σ) (s : CatalogState σ)
    (d : CreateTable) :
    (∀ e s', createTable service d s = (.error (.error e), s') →
      (∃ name, e = .tableExists name) ∨ (∃ reason, e = .invalidMetadata reason) → s' = s) ∧
    (∀ b, Codec.encode (declared d) = .ok b → ∀ head, ∃ b',
      Codec.encode { declared d with head := head } = .ok b' ∧ b'.length = b.length ∧
        HeapTable.validateTuple b' = .ok ()) ∧
    (Reached service s → ∀ e s', createTable service d s = (.error e, s') →
      ∀ length max, e ≠ .error (.heap (.invalidTupleSize length max))) := by
  refine ⟨?_, ?_, ?_⟩
  · intro e s' hcall he
    have hrefused : Exec.Ensures (createTable service d) s (fun _ _ => True) (Refused (fun _ => True) d s) := by
      apply createTable_refused
      exact Exec.ensures_iff.2 ⟨fun _ _ _ _ _ => Exec.ensures_true _ _, fun _ _ _ => trivial⟩
    have h := hrefused.error hcall
    generalize hfault : Fault.error e = fault at h
    cases h with
    | @heap x s' _ =>
      cases x with
      | error x =>
        cases hfault
        rcases he with ⟨_, he⟩ | ⟨_, he⟩ <;> cases he
      | panic p => cases hfault
    | _ => rfl
  · intro b hb head
    obtain ⟨b', hb', hlength⟩ := Codec.encode_head hb head
    exact ⟨b', hb', hlength, HeapPage.checkTuple_of_legal (legal_of_encode hb')⟩
  · intro hs e s' hcall length max he
    obtain ⟨_, _, _, _, hinv⟩ := hs.inv
    cases (createTable_errors hinv d).error hcall with
    | heap hbuffer =>
      obtain ⟨x, rfl⟩ := hbuffer
      cases he
    | _ => cases he

/-- A declaration without a name and columns. -/
theorem empty_declaration_leaves_no_trace : ∃ s, Reached BufferPool.memory s ∧
    ∃ e s', createTable BufferPool.memory ⟨"", [], []⟩ s = (.error (.error e), s') ∧ s' = s := by
  obtain ⟨s, hs, hentries⟩ := example_reached
  obtain ⟨_, _, _, _, hinv⟩ := hs.inv
  have hcall : createTable BufferPool.memory ⟨"", [], []⟩ s =
      (.error (.error (.invalidMetadata "empty table name or column list")), s) := by
    simp only [createTable, locked, Exec.bind_run, Exec.get_run, hinv.unpoisoned, hentries]
    rfl
  exact ⟨s, hs, _, s, hcall, (rejected_declarations_leave_no_trace _ s _).1 _ _ hcall (.inr ⟨_, rfl⟩)⟩

end

end ChiliDB.HeapCatalog
