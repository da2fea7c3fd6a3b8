import ChiliDB.Binder.Nodes
import Mathlib.Data.List.FinRange

/-!
# The rows of an `INSERT`

`Binder::bind_insert` scatters the values of each row to the columns that the statement lists.

* `target_eq_ok`, `targets_eq_ok`, `insertTargets_ok` — the positions of the listed columns.
* `placeValues_eq_ok` — the values are where their columns are, in whichever order they come.
* `bindInsert_eq_ok` — when an `INSERT` is bound; `bindInsert_noPanic` — else its error is returned.
* `Normalized` — a row in the order of the schema.

Principal result: `insert_normalizes`.
-/

namespace ChiliDB.Binder

open Effect List
open ChiliDB.Bound (Expr Table)
open Result (ok_bind setIndex_eq_ok index_eq_ok fail)

variable {E : Type}

/-! ## Targets -/

variable {schema : TableSchema} {name : String} {i : Nat} {indices : List Nat} {columns : List String}

theorem mem_named {p : ColumnSchema × Nat} :
    p ∈ (schema.columns.zipIdx.filter fun p => p.1.name = name) ↔
      schema.columns[p.2]? = some p.1 ∧ p.1.name = name := by
  rw [mem_filter, mem_zipIdx_iff_getElem?, decide_eq_true_eq]

/-- The target of a name is the position of the only column that has it. -/
theorem target_eq_ok (h : (target schema name : BindResult E _) = .ok i) :
    ∃ column, schema.columns[i]? = some column ∧ column.name = name ∧
      ∀ j column', schema.columns[j]? = some column' → column'.name = name → j = i := by
  unfold target at h
  split at h
  · cases h
  · rename_i p hfilter
    cases h
    obtain ⟨hp, hname⟩ := mem_named.1 (hfilter ▸ mem_singleton_self p)
    refine ⟨p.1, hp, hname, fun j column' hj hname' => ?_⟩
    have hmem : (column', j) ∈ [p] := hfilter ▸ mem_named.2 ⟨hj, hname'⟩
    exact congrArg Prod.snd (mem_singleton.1 hmem)
  · cases h

theorem countP_of_target (h : (target schema name : BindResult E _) = .ok i) :
    schema.columns.countP (fun column => column.name = name) = 1 := by
  have hcount : schema.columns.countP (fun column => column.name = name) =
      (schema.columns.zipIdx.filter fun p => p.1.name = name).length := by
    rw [← countP_eq_length_filter]
    nth_rewrite 1 [← zipIdx_map_fst 0 schema.columns]
    rw [countP_map]
    rfl
  rw [hcount]
  unfold target at h
  split at h
  · cases h
  · rename_i p hfilter
    rw [hfilter]
    rfl
  · cases h

/-- A list of columns is resolved name by name, to different targets. -/
theorem targets_eq_ok {names : List String} {seen : List Nat} :
    (targets schema names seen : BindResult E _) = .ok indices ↔
      Forall₂ (fun name i => (target schema name : BindResult E _) = .ok i) names indices ∧
        indices.Nodup ∧ ∀ i ∈ indices, i ∉ seen := by
  induction names generalizing seen indices with
  | nil =>
    unfold targets
    constructor
    · intro h
      cases h
      exact ⟨.nil, .nil, by simp⟩
    · rintro ⟨h, -, -⟩
      cases h
      rfl
  | cons name names ih =>
    unfold targets
    constructor
    · intro h
      obtain ⟨i, hi, h⟩ := except_bind_ok.1 h
      split at h
      · cases h
      · rename_i hseen
        obtain ⟨rest, hrest, h⟩ := except_bind_ok.1 h
        cases h
        obtain ⟨hforall, hnodup, hnew⟩ := ih.1 hrest
        simp only [mem_cons, not_or] at hnew
        refine ⟨.cons hi hforall, nodup_cons.2 ⟨fun hmem => (hnew i hmem).1 rfl, hnodup⟩, ?_⟩
        exact forall_mem_cons.2 ⟨hseen, fun j hj => (hnew j hj).2⟩
    · rintro ⟨hforall, hnodup, hnew⟩
      cases hforall with
      | cons hi hforall =>
        rename_i i rest
        obtain ⟨hnotin, hnodup⟩ := nodup_cons.1 hnodup
        obtain ⟨hseen, hnew⟩ := forall_mem_cons.1 hnew
        have hrest : (targets schema names (i :: seen) : BindResult E _) = .ok rest := by
          refine ih.2 ⟨hforall, hnodup, fun j hj hmem => ?_⟩
          rcases mem_cons.1 hmem with rfl | hmem
          · exact hnotin hj
          · exact hnew j hj hmem
        rw [hi, ok_bind, if_neg hseen, hrest]
        rfl

/-- Every listed name is that of exactly one column, and no name is listed twice. -/
theorem names_of_insertTargets (h : (insertTargets schema columns : BindResult E _) = .ok indices) :
    columns.Nodup ∧ ∀ c ∈ columns, schema.columns.countP (fun column => column.name = c) = 1 := by
  unfold insertTargets at h
  split at h
  · rename_i hempty
    rw [isEmpty_iff.1 hempty]
    exact ⟨.nil, by simp⟩
  · rename_i hlisted
    obtain ⟨hforall, hnodup, -⟩ := targets_eq_ok.1 h
    clear h hlisted
    induction hforall with
    | nil => exact ⟨.nil, by simp⟩
    | cons htarget hforall ih =>
      rename_i c i names rest
      obtain ⟨hnotin, hnodup⟩ := nodup_cons.1 hnodup
      obtain ⟨hnames, honce⟩ := ih hnodup
      refine ⟨nodup_cons.2 ⟨fun hmem => ?_, hnames⟩, forall_mem_cons.2 ⟨countP_of_target htarget, honce⟩⟩
      -- a name that is listed again has the same target
      obtain ⟨j, hj, htarget'⟩ := exists_of_forall₂ hforall.flip c hmem
      rw [htarget] at htarget'
      cases htarget'
      exact hnotin hj

/-- The targets are different columns of the table. -/
theorem insertTargets_ok (h : (insertTargets schema columns : BindResult E _) = .ok indices) :
    indices.Nodup ∧ ∀ i ∈ indices, i < schema.columns.length := by
  unfold insertTargets at h
  split at h
  · cases h
    exact ⟨nodup_range, fun i hi => mem_range.1 hi⟩
  · obtain ⟨hforall, hnodup, -⟩ := targets_eq_ok.1 h
    refine ⟨hnodup, fun i hi => ?_⟩
    obtain ⟨name, -, hname⟩ := exists_of_forall₂ hforall i hi
    obtain ⟨column, hcolumn, -, -⟩ := target_eq_ok hname
    exact lt_of_get hcolumn

/-! ## Values -/

/-- The value of an expression that is assigned to a column. -/
def Assigns (E : Type) (column : ColumnSchema) (x : Sql.Expr) (e : Expr) : Prop :=
  ∃ b, (bindExpr ⟨[]⟩ x : BindResult E _) = .ok b ∧
    (assignment b column.dataType : BindResult E _) = .ok e

theorem Assigns.dataType {column : ColumnSchema} {x : Sql.Expr} {e : Expr} (h : Assigns E column x e) :
    e.dataType = column.dataType := by
  obtain ⟨b, -, hassign⟩ := h
  obtain ⟨-, rfl⟩ := assignment_ok hassign
  exact dataType_cast b _

/-- `NULL` in a type. -/
def nullOf (t : LogicalType) : Expr := cast (value .null .null) t

/-- **The values are at their targets, and the other places are as before.**  The order of the values does not
matter. -/
theorem placeValues_eq_ok {columns : List ColumnSchema} {values : List (Sql.Expr × Nat)}
    (hnodup : (values.map Prod.snd).Nodup) {before after : List (Option Expr)} :
    (placeValues columns values before : BindResult E _) = .ok after ↔
      after.length = before.length ∧
      (∀ p ∈ values, ∃ column e, columns[p.2]? = some column ∧ Assigns E column p.1 e ∧
        after[p.2]? = some (some e)) ∧
      ∀ i, i ∉ values.map Prod.snd → after[i]? = before[i]? := by
  induction values generalizing before with
  | nil =>
    unfold placeValues
    constructor
    · intro h
      cases h
      exact ⟨rfl, by simp, fun _ _ => rfl⟩
    · rintro ⟨-, -, h⟩
      exact congrArg Except.ok (ext_getElem? fun i => (h i (by simp)).symm)
  | cons p values ih =>
    obtain ⟨x, index⟩ := p
    obtain ⟨hindex, hnodup⟩ := nodup_cons.1 hnodup
    unfold placeValues
    constructor
    · intro h
      obtain ⟨b, hb, h⟩ := except_bind_ok.1 h
      obtain ⟨column, hcolumn, h⟩ := except_bind_ok.1 h
      obtain ⟨e, he, h⟩ := except_bind_ok.1 h
      obtain ⟨placed, hset, h⟩ := except_bind_ok.1 h
      obtain ⟨hlt, rfl⟩ := setIndex_eq_ok.1 hset
      obtain ⟨hlength, hplaced, hothers⟩ := (ih hnodup).1 h
      refine ⟨by rw [hlength, length_set], forall_mem_cons.2 ⟨?_, hplaced⟩, fun i hi => ?_⟩
      · refine ⟨column, e, index_eq_ok.1 hcolumn, ⟨b, hb, he⟩, ?_⟩
        rw [hothers index hindex, getElem?_set_self hlt]
      · obtain ⟨hne, hi⟩ := not_or.1 (mt mem_cons.2 hi)
        rw [hothers i hi, getElem?_set_ne (Ne.symm hne)]
    · rintro ⟨hlength, hplaced, hothers⟩
      obtain ⟨⟨column, e, hcolumn, ⟨b, hb, he⟩, hat⟩, hplaced⟩ := forall_mem_cons.1 hplaced
      have hlt : index < before.length := hlength ▸ (lt_of_get hat)
      have hrest : (placeValues columns values (before.set index (some e)) : BindResult E _) = .ok after := by
        refine (ih hnodup).2 ⟨by rw [hlength, length_set], hplaced, fun i hi => ?_⟩
        by_cases hii : i = index
        · subst hii
          rw [hat, getElem?_set_self hlt]
        · rw [hothers i (by simpa [hii] using hi), getElem?_set_ne (Ne.symm hii)]
      rw [hb, ok_bind, index_eq_ok.2 hcolumn, ok_bind, he, ok_bind, setIndex_eq_ok.2 ⟨hlt, rfl⟩, ok_bind, hrest]

theorem columnValue_eq (p : Option Expr × ColumnSchema) :
    (columnValue p : BindResult E _) = .ok (p.1.getD (nullOf p.2.dataType)) := by
  obtain ⟨o, column⟩ := p
  cases o with
  | some e => rfl
  | none =>
    show assignment (value .null .null) column.dataType = _
    simp [assignment, value, nullOf]

theorem bindRow_eq (columns : List ColumnSchema) (indices : List Nat) (row : List Sql.Expr) :
    (bindRow columns indices row : BindResult E _) =
      placeValues columns (row.zip indices) (replicate columns.length none) >>= fun normalized =>
        .ok ((normalized.zip columns).map fun p => p.1.getD (nullOf p.2.dataType)) := by
  have hvalue : (columnValue : _ → BindResult E _) = fun p => .ok (p.1.getD (nullOf p.2.dataType)) :=
    funext columnValue_eq
  unfold bindRow
  rw [hvalue]
  congr
  funext normalized
  exact mapM_pure

variable {row : List Sql.Expr} {out : List Expr}

/-- The values and their targets may come in any order. -/
theorem bindRow_perm {columns : List ColumnSchema} {indices' : List Nat} {row' : List Sql.Expr}
    (hperm : (row.zip indices).Perm (row'.zip indices')) (hnodup : ((row.zip indices).map Prod.snd).Nodup)
    (h : (bindRow columns indices row : BindResult E _) = .ok out) :
    (bindRow columns indices' row' : BindResult E _) = .ok out := by
  rw [bindRow_eq] at h ⊢
  obtain ⟨normalized, hplace, h⟩ := except_bind_ok.1 h
  have hmap := hperm.map Prod.snd
  obtain ⟨hlength, hplaced, hothers⟩ := (placeValues_eq_ok hnodup).1 hplace
  have hplace' : (placeValues columns (row'.zip indices') (replicate columns.length none) :
      BindResult E _) = .ok normalized := by
    refine (placeValues_eq_ok (hmap.nodup_iff.1 hnodup)).2 ⟨hlength, ?_, ?_⟩
    · exact fun p hp => hplaced p (hperm.mem_iff.2 hp)
    · exact fun i hi => hothers i (mt hmap.mem_iff.1 hi)
  rw [hplace']
  exact h

/-! ## Rows -/

/-- A row with one value for each column: the value that is listed for it, else `NULL`. -/
structure Normalized (E : Type) (schema : TableSchema) (columns : List String) (row : List Sql.Expr)
    (out : List Expr) : Prop where
  length : out.length = schema.columns.length
  dataType : ∀ (i : Nat) (column : ColumnSchema) (e : Expr), schema.columns[i]? = some column → out[i]? = some e →
    e.dataType = column.dataType
  /-- Value `k` belongs to the column that entry `k` of the list names. -/
  listed : ∀ (k : Nat) (name : String) (x : Sql.Expr), columns[k]? = some name → row[k]? = some x →
    ∃ (i : Nat) (column : ColumnSchema) (e : Expr), schema.columns[i]? = some column ∧ column.name = name ∧
      out[i]? = some e ∧ Assigns E column x e
  unlisted : columns ≠ [] → ∀ (i : Nat) (column : ColumnSchema), schema.columns[i]? = some column →
    column.name ∉ columns → out[i]? = some (nullOf column.dataType)
  /-- Without a list the values are in the order of the schema. -/
  ordered : columns = [] → ∀ (i : Nat) (column : ColumnSchema), schema.columns[i]? = some column →
    ∃ (x : Sql.Expr) (e : Expr), row[i]? = some x ∧ out[i]? = some e ∧ Assigns E column x e

theorem getElem?_bindRow {columns : List ColumnSchema} {normalized : List (Option Expr)} {column : ColumnSchema}
    {o : Option Expr} (hcolumn : columns[i]? = some column) (ho : normalized[i]? = some o) :
    ((normalized.zip columns).map fun p => p.1.getD (nullOf p.2.dataType))[i]? =
      some (o.getD (nullOf column.dataType)) := by
  have hzip : (normalized.zip columns)[i]? = some (o, column) := getElem?_zip_eq_some.2 ⟨ho, hcolumn⟩
  rw [getElem?_map, hzip]
  rfl

/-- The value of a row at each column, by the targets of the row. -/
theorem bindRow_at {columns : List ColumnSchema} (hnodup : indices.Nodup) (hwidth : row.length = indices.length)
    (h : (bindRow columns indices row : BindResult E _) = .ok out) :
    out.length = columns.length ∧
    (∀ (k : Nat) (x : Sql.Expr) (i : Nat), row[k]? = some x → indices[k]? = some i →
      ∃ column e, columns[i]? = some column ∧ out[i]? = some e ∧ Assigns E column x e) ∧
    ∀ (i : Nat) (column : ColumnSchema), columns[i]? = some column → i ∉ indices →
      out[i]? = some (nullOf column.dataType) := by
  have hsnd : (row.zip indices).map Prod.snd = indices := map_snd_zip (by omega)
  rw [bindRow_eq] at h
  obtain ⟨normalized, hplace, h⟩ := except_bind_ok.1 h
  cases h
  obtain ⟨hlength, hplaced, hothers⟩ := (placeValues_eq_ok (by rwa [hsnd])).1 hplace
  rw [hsnd] at hothers
  rw [length_replicate] at hlength
  refine ⟨by simp [hlength], ?_, ?_⟩
  · intro k x i hx hi
    have hmem : (x, i) ∈ row.zip indices := mem_of_getElem? (getElem?_zip_eq_some.2 ⟨hx, hi⟩)
    obtain ⟨column, e, hcolumn, hassigns, hat⟩ := hplaced (x, i) hmem
    exact ⟨column, e, hcolumn, getElem?_bindRow hcolumn hat, hassigns⟩
  · intro i column hcolumn hi
    have hlt := lt_of_get hcolumn
    have hnone : normalized[i]? = some none := by rw [hothers i hi, getElem?_replicate, if_pos hlt]
    exact getElem?_bindRow hcolumn hnone

/-- How many values a row has. -/
def insertWidth (schema : TableSchema) (columns : List String) : Nat :=
  if columns.isEmpty then schema.columns.length else columns.length

theorem length_insertTargets (h : (insertTargets schema columns : BindResult E _) = .ok indices) :
    indices.length = insertWidth schema columns := by
  unfold insertTargets at h
  unfold insertWidth
  split at h
  · rename_i hempty
    cases h
    rw [if_pos hempty, length_range]
  · rename_i hlisted
    rw [if_neg hlisted, (targets_eq_ok.1 h).1.length_eq]

theorem normalized_of_bindRow (htargets : (insertTargets schema columns : BindResult E _) = .ok indices)
    (hwidth : row.length = indices.length)
    (h : (bindRow schema.columns indices row : BindResult E _) = .ok out) :
    Normalized E schema columns row out := by
  obtain ⟨hnodup, hrange⟩ := insertTargets_ok htargets
  obtain ⟨hlength, hplaced, hnull⟩ := bindRow_at hnodup hwidth h
  have htyped (i : Nat) (column : ColumnSchema) (e : Expr) (hcolumn : schema.columns[i]? = some column)
      (he : out[i]? = some e) : e.dataType = column.dataType := by
    by_cases hi : i ∈ indices
    · obtain ⟨k, hk⟩ := mem_iff_getElem?.1 hi
      have hk' : k < row.length := hwidth ▸ (lt_of_get hk)
      obtain ⟨column', e', hcolumn', he', hassigns⟩ := hplaced k row[k] i (getElem?_eq_getElem hk') hk
      rw [hcolumn] at hcolumn'
      rw [he] at he'
      cases hcolumn'
      cases he'
      exact hassigns.dataType
    · rw [hnull i column hcolumn hi] at he
      cases he
      exact dataType_cast _ _
  unfold insertTargets at htargets
  split at htargets
  · -- no list
    rename_i hempty
    cases htargets
    have hcolumns : columns = [] := by simpa using hempty
    subst hcolumns
    refine ⟨hlength, htyped, by simp, by simp, ?_⟩
    intro _ i column hcolumn
    have hlt := lt_of_get hcolumn
    have hi : (range schema.columns.length)[i]? = some i := by simp [hlt]
    have hrow : i < row.length := by rwa [hwidth, length_range]
    obtain ⟨column', e, hcolumn', he, hassigns⟩ := hplaced i row[i] i (getElem?_eq_getElem hrow) hi
    rw [hcolumn] at hcolumn'
    cases hcolumn'
    exact ⟨row[i], e, getElem?_eq_getElem hrow, he, hassigns⟩
  · rename_i hlisted
    obtain ⟨hforall, -, -⟩ := targets_eq_ok.1 htargets
    refine ⟨hlength, htyped, ?_, ?_, fun hcolumns => absurd hcolumns (by simpa using hlisted)⟩
    · intro k name x hname hx
      obtain ⟨i, hi, htarget⟩ := getElem?_of_forall₂ hforall hname
      obtain ⟨column, e, hcolumn, he, hassigns⟩ := hplaced k x i hx hi
      obtain ⟨column', hcolumn', hname', -⟩ := target_eq_ok htarget
      rw [hcolumn] at hcolumn'
      cases hcolumn'
      exact ⟨i, column, e, hcolumn, hname', he, hassigns⟩
    · intro _ i column hcolumn hname
      refine hnull i column hcolumn fun hi => hname ?_
      obtain ⟨name, hmem, htarget⟩ := exists_of_forall₂ hforall i hi
      obtain ⟨column', hcolumn', rfl, -⟩ := target_eq_ok htarget
      rw [hcolumn] at hcolumn'
      cases hcolumn'
      exact hmem

/-! ## Statements -/

theorem checkRows_eq_ok {width : Nat} {rows : List (List Sql.Expr)} {start : Nat} :
    (checkRows width (rows.zipIdx start) : BindResult E _) = .ok () ↔
      ∀ row ∈ rows, row.length = width ∧ row ≠ [] := by
  induction rows generalizing start with
  | nil => simp [checkRows]
  | cons row rows ih =>
    rw [zipIdx_cons, forall_mem_cons]
    unfold checkRows
    by_cases hwidth : row.length = width
    · by_cases hempty : row = []
      · subst hempty
        simp [← hwidth, fail]
      · simp [hwidth, hempty, ih]
    · simp [hwidth, fail]

/-- **When an `INSERT` is bound.** -/
theorem bindInsert_eq_ok {catalog : Catalog E} {rows : List (List Sql.Expr)} {insert : Bound.Insert} :
    bindInsert catalog name columns rows = .ok insert ↔
      lookupTable catalog name = .ok insert.table ∧ rows ≠ [] ∧ ∃ indices,
        (insertTargets insert.table.source.schema columns : BindResult E _) = .ok indices ∧
        (∀ row ∈ rows, row.length = indices.length ∧ row ≠ []) ∧
        Forall₂ (fun row out => (bindRow insert.table.source.schema.columns indices row :
          BindResult E _) = .ok out) rows insert.rows := by
  unfold bindInsert
  constructor
  · intro h
    obtain ⟨table, htable, h⟩ := except_bind_ok.1 h
    obtain ⟨indices, hindices, h⟩ := except_bind_ok.1 h
    split at h
    · cases h
    · rename_i hrows
      obtain ⟨_, hcheck, h⟩ := except_bind_ok.1 h
      obtain ⟨bound, hbound, h⟩ := except_bind_ok.1 h
      cases h
      exact ⟨htable, by simpa using hrows, indices, hindices, checkRows_eq_ok.1 hcheck, mapM_ok.1 hbound⟩
  · rintro ⟨htable, hrows, indices, hindices, hcheck, hbound⟩
    have hnonempty : ¬ rows.isEmpty = true := by simpa using hrows
    rw [htable, ok_bind]
    dsimp only
    rw [hindices, ok_bind, if_neg hnonempty, checkRows_eq_ok.2 hcheck, ok_bind, mapM_ok.2 hbound]
    rfl

section

variable {schema : TableSchema} {columns : List ColumnSchema}

theorem targets_noPanic {names : List String} : ∀ {seen : List Nat},
    NoPanic E (targets schema names seen) := by
  induction names with
  | nil => exact .ok []
  | cons name names ih =>
    intro seen
    unfold targets
    have htarget : NoPanic E (target schema name) := by
      unfold target
      split
      · exact fail_returned _
      · exact .ok _
      · exact fail_returned _
    refine htarget.bind fun i _ => ?_
    split
    · exact fail_returned _
    · exact ih.bind fun _ _ => .ok _

theorem checkRows_noPanic {width : Nat} {rows : List (List Sql.Expr × Nat)} :
    NoPanic E (checkRows width rows) := by
  induction rows with
  | nil => exact .ok ()
  | cons p rows ih =>
    unfold checkRows
    split
    · exact fail_returned _
    · split
      · exact fail_returned _
      · exact ih

/-- The targets are positions of columns, so that no index is out of bounds. -/
theorem placeValues_noPanic {values : List (Sql.Expr × Nat)} (hvalues : ∀ p ∈ values, p.2 < columns.length) :
    ∀ {normalized : List (Option Expr)}, normalized.length = columns.length →
      NoPanic E (placeValues columns values normalized) := by
  induction values with
  | nil =>
    intro normalized _
    exact .ok normalized
  | cons p values ih =>
    intro normalized hlength
    obtain ⟨x, index⟩ := p
    obtain ⟨hindex, hvalues⟩ := forall_mem_cons.1 hvalues
    have hassignment (e : Expr) (t : LogicalType) : NoPanic E (assignment e t) := by
      unfold assignment
      split
      · exact .ok _
      · exact fail_returned _
    unfold placeValues
    refine bindExprInner_noPanic.bind fun b _ => ?_
    rw [index_eq_ok.2 (getElem?_eq_getElem hindex), ok_bind]
    refine (hassignment b _).bind fun e _ => ?_
    rw [setIndex_eq_ok.2 ⟨by omega, rfl⟩, ok_bind]
    exact ih hvalues (by rw [length_set, hlength])

/-- **Binding an `INSERT` returns its errors.** -/
theorem bindInsert_noPanic (catalog : Catalog E) (name : String) (columns : List String)
    (rows : List (List Sql.Expr)) : FailsOnly Returned (bindInsert catalog name columns rows) := by
  have hlookup : FailsOnly Returned (lookupTable catalog name) := by
    unfold lookupTable getTable
    cases catalog.getTable name with
    | error e => exact fail_returned _
    | ok source =>
      cases source with
      | none => exact fail_returned _
      | some source => exact .ok _
  have hcolumns (schema : TableSchema) : NoPanic E (insertTargets schema columns) := by
    unfold insertTargets
    split
    · exact .ok _
    · exact targets_noPanic
  unfold bindInsert
  refine hlookup.bind fun table _ => (hcolumns _).bind fun indices hindices => ?_
  split
  · exact fail_returned _
  · refine checkRows_noPanic.bind fun _ _ => FailsOnly.bind (.mapM fun row _ => ?_) fun _ _ => .ok _
    rw [bindRow_eq]
    refine FailsOnly.bind (placeValues_noPanic ?_ length_replicate) fun _ _ => .ok _
    intro p hp
    exact (insertTargets_ok hindices).2 p.2 (of_mem_zip hp).2

end

/-! ## The order of the columns -/

section

variable {n : Nat}

theorem zip_ofFn {α β : Type} (f : Fin n → α) (g : Fin n → β) : (ofFn f).zip (ofFn g) = ofFn fun k => (f k, g k) :=
  ext_getElem (by simp) fun i _ _ => by simp

theorem targets_ofFn {names : Fin n → String} :
    (targets schema (ofFn names) [] : BindResult E _) = .ok indices ↔
      ∃ at_ : Fin n → Nat, indices = ofFn at_ ∧ at_.Injective ∧
        ∀ k, (target schema (names k) : BindResult E _) = .ok (at_ k) := by
  rw [targets_eq_ok]
  constructor
  · rintro ⟨hforall, hnodup, -⟩
    have hlength : indices.length = n := by rw [← hforall.length_eq, length_ofFn]
    subst hlength
    refine ⟨indices.get, (ofFn_get indices).symm, nodup_iff_injective_get.1 hnodup, fun k => ?_⟩
    simpa using (forall₂_iff_get.1 hforall).2 k (by simp) k.2
  · rintro ⟨at_, rfl, hinjective, htarget⟩
    refine ⟨forall₂_iff_get.2 ⟨by simp, fun i hi _ => ?_⟩, nodup_ofFn.2 hinjective, by simp⟩
    simpa using htarget ⟨i, by simpa using hi⟩

/-- A list of columns and the rows, permuted alike, are bound to the same rows. -/
theorem bindInsert_permuted {catalog : Catalog E} {columns : Fin n → String} {rows : List (Fin n → Sql.Expr)}
    (σ : Equiv.Perm (Fin n)) {insert : Bound.Insert}
    (h : bindInsert catalog name (ofFn columns) (rows.map ofFn) = .ok insert) :
    bindInsert catalog name (ofFn (columns ∘ σ)) (rows.map fun row => ofFn (row ∘ σ)) = .ok insert := by
  cases n with
  | zero =>
    have hsame {α : Type} (f : Fin 0 → α) : f ∘ σ = f := funext fun k => k.elim0
    simpa only [hsame] using h
  | succ n =>
    have hlisted (f : Fin (n + 1) → String) (schema : TableSchema) :
        (insertTargets schema (ofFn f) : BindResult E _) = targets schema (ofFn f) [] := by
      unfold insertTargets
      rw [if_neg (by simp)]
    obtain ⟨hlookup, hrows, indices, hindices, hcheck, hbound⟩ := bindInsert_eq_ok.1 h
    rw [hlisted] at hindices
    obtain ⟨at_, rfl, hinjective, htarget⟩ := targets_ofFn.1 hindices
    refine bindInsert_eq_ok.2 ⟨hlookup, by simpa using hrows, ofFn (at_ ∘ σ), ?_, ?_, ?_⟩
    · rw [hlisted]
      exact targets_ofFn.2 ⟨_, rfl, hinjective.comp σ.injective, fun k => htarget (σ k)⟩
    · intro row hrow
      obtain ⟨f, -, rfl⟩ := mem_map.1 hrow
      simp
    · rw [forall₂_map_left_iff] at hbound ⊢
      refine hbound.imp fun row out hout => ?_
      apply bindRow_perm _ _ hout
      · rw [zip_ofFn, zip_ofFn]
        exact (σ.ofFn_comp_perm fun k => (row k, at_ k)).symm
      · rw [map_snd_zip (by simp)]
        exact nodup_ofFn.2 hinjective

end

/-- **The rows of an `INSERT` are normalised exactly, whatever the order of its columns.**  Each row has one
value for each column of the table, in its type: the value that the statement lists for the column, or `NULL`.
A name that is unknown, ambiguous or listed twice and a row of another width are errors. -/
theorem insert_normalizes (catalog : Catalog E) (name : String) (columns : List String)
    (rows : List (List Sql.Expr)) :
    (∀ insert, bindInsert catalog name columns rows = .ok insert →
      List.Forall₂ (Normalized E insert.table.source.schema columns) rows insert.rows) ∧
    (∀ table, lookupTable catalog name = .ok table →
      (∃ c ∈ columns, table.source.schema.columns.countP (fun column => column.name = c) = 0) ∨
      (∃ c ∈ columns, 1 < table.source.schema.columns.countP (fun column => column.name = c)) ∨
      ¬ columns.Nodup ∨
      (∃ row ∈ rows, row.length ≠ insertWidth table.source.schema columns) →
      ∃ e, bindInsert catalog name columns rows = .fail e) ∧
    ∀ (n : Nat) (listed : Fin n → String) (values : List (Fin n → Sql.Expr)) (σ : Equiv.Perm (Fin n)),
      columns = List.ofFn listed → rows = values.map List.ofFn → ∀ insert,
      (bindInsert catalog name (List.ofFn (listed ∘ σ)) (values.map fun row => List.ofFn (row ∘ σ)) = .ok insert ↔
        bindInsert catalog name columns rows = .ok insert) := by
  refine ⟨?_, ?_, ?_⟩
  · intro insert h
    obtain ⟨-, -, indices, hindices, hcheck, hbound⟩ := bindInsert_eq_ok.1 h
    exact ((List.forall₂_and_left _ _).2 ⟨hcheck, hbound⟩).imp fun row out hrow =>
      normalized_of_bindRow hindices hrow.1.1 hrow.2
  · intro table htable hbad
    cases h : bindInsert catalog name columns rows with
    | error fault =>
      have hreturned := bindInsert_noPanic catalog name columns rows fault h
      cases fault with
      | error e => exact ⟨e, rfl⟩
      | panic => cases hreturned
    | ok insert =>
      exfalso
      obtain ⟨hlookup, -, indices, hindices, hcheck, -⟩ := bindInsert_eq_ok.1 h
      rw [htable] at hlookup
      cases hlookup
      obtain ⟨hnodup, honce⟩ := names_of_insertTargets hindices
      rcases hbad with ⟨c, hc, hzero⟩ | ⟨c, hc, hmany⟩ | hrepeated | ⟨row, hrow, hwidth⟩
      · have hone := honce c hc
        omega
      · have hone := honce c hc
        omega
      · exact hrepeated hnodup
      · exact hwidth ((hcheck row hrow).1.trans (length_insertTargets hindices))
  · rintro n listed values σ rfl rfl insert
    refine ⟨fun h => ?_, bindInsert_permuted σ⟩
    have hinverse {α : Type} (f : Fin n → α) : (f ∘ σ) ∘ σ.symm = f := funext fun k => by simp
    have hrows : (values.map fun row => row ∘ σ).map List.ofFn = values.map fun row => List.ofFn (row ∘ σ) := by
      rw [map_map]
      rfl
    rw [← hrows] at h
    have hback := bindInsert_permuted σ.symm h
    rw [map_map, hinverse] at hback
    simpa only [Function.comp_apply, hinverse, Function.comp_def (g := fun row => row ∘ σ)] using hback

end ChiliDB.Binder
