import ChiliDB.Catalog.Codec
import Mathlib.Algebra.Order.BigOperators.Group.List
import Mathlib.Algebra.Order.Group.Nat

/-!
# Which records can be written

`validate` in its own terms, and the number of bytes of a record.

* `validateColumns_ok`, `validateIndices_ok`, `validateConstraints_ok` — what the loops of `validate` accept.
* `recordSize m` — the bytes of the record, whether they fit on a page or not.
* `encode_accepts` — a valid record is refused only for its size.
-/

namespace ChiliDB.Codec

open Effect Wire List

variable {m : Metadata} {columns : List ColumnSchema} {b : Bytes}

/-! ## Valid metadata -/

/-- A check in front of the rest of a validation. -/
theorem check_ok {p : Prop} [Decidable p] {reason : String} {rest : Except String Unit} :
    (do if p then throw reason
        rest) = .ok () ↔ ¬ p ∧ rest = .ok () := by
  constructor
  · intro h
    split at h
    · cases h
    · rename_i hp
      exact ⟨hp, h⟩
  · intro h
    rw [if_neg h.1]
    exact h.2

theorem validateColumns_ok (columns : List ColumnSchema) : ∀ names : List String,
    validateColumns names columns = .ok () ↔
      (∀ c ∈ columns, c.name ≠ "" ∧ c.dataType ≠ .null) ∧ (∀ c ∈ columns, c.name ∉ names) ∧
        (columns.map ColumnSchema.name).Nodup := by
  induction columns with
  | nil => simp [validateColumns]
  | cons c columns ih =>
    intro names
    unfold validateColumns
    rw [check_ok, check_ok, ih, forall_mem_cons, forall_mem_cons, map_cons, nodup_cons]
    simp only [mem_cons, mem_map, not_or, not_exists, not_and]
    constructor
    · rintro ⟨⟨hempty, hold⟩, htype, hshape, hnew, hnodup⟩
      exact ⟨⟨⟨hempty, htype⟩, hshape⟩, ⟨hold, fun d hd => (hnew d hd).2⟩, fun d hd => (hnew d hd).1, hnodup⟩
    · rintro ⟨⟨⟨hempty, htype⟩, hshape⟩, ⟨hold, hrest⟩, hnew, hnodup⟩
      exact ⟨⟨hempty, hold⟩, htype, hshape, fun d hd => ⟨hnew d hd, hrest d hd⟩, hnodup⟩

/-- A column that a key may name. -/
def KeyColumn (columns : List ColumnSchema) (pk : Bool) (i : Nat) : Prop :=
  ∃ column, columns[i]? = some column ∧ (pk = true → column.nullable = false)

theorem validateIndices_ok (columns : List ColumnSchema) (pk : Bool) (indices : List Nat) :
    ∀ seen : List Nat, validateIndices columns pk seen indices = .ok () ↔
      (∀ i ∈ indices, KeyColumn columns pk i) ∧ (∀ i ∈ indices, i ∉ seen) ∧ indices.Nodup := by
  induction indices with
  | nil => simp [validateIndices]
  | cons i indices ih =>
    intro seen
    unfold validateIndices
    cases hi : columns[i]? with
    | none =>
      constructor
      · intro h
        cases h
      · intro h
        obtain ⟨column, hcolumn, _⟩ := h.1 i mem_cons_self
        rw [hi] at hcolumn
        cases hcolumn
    | some column =>
      have hkey : KeyColumn columns pk i ↔ ¬ (pk && column.nullable) = true := by
        unfold KeyColumn
        rw [hi]
        cases pk <;> simp
      simp only [pure_bind]
      rw [check_ok, check_ok, ih, ← hkey, forall_mem_cons, forall_mem_cons, nodup_cons]
      simp only [mem_cons, not_or]
      constructor
      · rintro ⟨hold, hcolumn, hshape, hnew, hnodup⟩
        exact ⟨⟨hcolumn, hshape⟩, ⟨hold, fun j hj => (hnew j hj).2⟩, fun hm => (hnew i hm).1 rfl, hnodup⟩
      · rintro ⟨⟨hcolumn, hshape⟩, ⟨hold, hrest⟩, hnew, hnodup⟩
        refine ⟨hold, hcolumn, hshape, fun j hj => ⟨?_, hrest j hj⟩, hnodup⟩
        rintro rfl
        exact hnew hj

@[simp] theorem constraintParts_primaryKey (v : List Nat) : constraintParts (.primaryKey v) = (v, true) := rfl

@[simp] theorem constraintParts_unique (v : List Nat) : constraintParts (.unique v) = (v, false) := rfl

/-- A key over distinct columns, none of which is nullable if it is the primary key. -/
def ValidKey (columns : List ColumnSchema) (c : TableConstraint) : Prop :=
  (constraintParts c).1 ≠ [] ∧ (∀ i ∈ (constraintParts c).1, KeyColumn columns (constraintParts c).2 i) ∧
    (constraintParts c).1.Nodup

theorem validateConstraints_ok (columns : List ColumnSchema) (constraints : List TableConstraint) :
    ∀ primary : Bool, validateConstraints columns primary constraints = .ok () ↔
      (∀ c ∈ constraints, ValidKey columns c) ∧
        constraints.countP (fun c => (constraintParts c).2) + primary.toNat ≤ 1 := by
  induction constraints with
  | nil =>
    intro primary
    cases primary <;> simp [validateConstraints]
  | cons c constraints ih =>
    intro primary
    have hvalid : ValidKey columns c ↔ ¬ (constraintParts c).1 = [] ∧
        validateIndices columns (constraintParts c).2 [] (constraintParts c).1 = .ok () := by
      rw [validateIndices_ok]
      simp [ValidKey]
    have hprimary : ∀ n : Nat, n + (primary || (constraintParts c).2).toNat ≤ 1 ∧
        ¬ ((constraintParts c).2 && primary) = true ↔
        n + (if (constraintParts c).2 = true then 1 else 0) + primary.toNat ≤ 1 := by
      intro n
      cases (constraintParts c).2 <;> cases primary <;> simp
    unfold validateConstraints
    rw [check_ok, check_ok, except_bind_ok, forall_mem_cons, hvalid, countP_cons, ← hprimary]
    constructor
    · rintro ⟨hone, hne, _, hindices, hrest⟩
      obtain ⟨hkeys, hcount⟩ := (ih _).1 hrest
      exact ⟨⟨⟨hne, hindices⟩, hkeys⟩, hcount, hone⟩
    · rintro ⟨⟨⟨hne, hindices⟩, hkeys⟩, hcount, hone⟩
      exact ⟨hone, hne, (), hindices, (ih _).2 ⟨hkeys, hcount⟩⟩

/-- **What `validate` accepts.** -/
theorem validate_ok : validate m = .ok () ↔
    (m.schema.name ≠ "" ∧ m.schema.columns ≠ []) ∧
    ((∀ c ∈ m.schema.columns, c.name ≠ "" ∧ c.dataType ≠ .null) ∧ (m.schema.columns.map ColumnSchema.name).Nodup) ∧
    (∀ c ∈ m.constraints, ValidKey m.schema.columns c) ∧
      m.constraints.countP (fun c => (constraintParts c).2) ≤ 1 := by
  unfold validate
  rw [check_ok, except_bind_ok, not_or]
  constructor
  · rintro ⟨hnames, _, hcolumns, hconstraints⟩
    obtain ⟨hshape, _, hnodup⟩ := (validateColumns_ok _ _).1 hcolumns
    exact ⟨hnames, ⟨hshape, hnodup⟩, (validateConstraints_ok _ _ _).1 hconstraints⟩
  · rintro ⟨hnames, ⟨hshape, hnodup⟩, hconstraints⟩
    exact ⟨hnames, (), (validateColumns_ok _ _).2 ⟨hshape, fun _ _ => not_mem_nil, hnodup⟩,
      (validateConstraints_ok _ _ _).2 hconstraints⟩

/-! ## Sizes -/

def stringSize (s : String) : Nat := 4 + (utf8Bytes s).length

def columnSize (c : ColumnSchema) : Nat := stringSize c.name + (1 + (typeBytes c.dataType).length)

def constraintSize (c : TableConstraint) : Nat := 1 + (4 + ((constraintParts c).1.map fun _ => 4).sum)

def fieldsSize (m : Metadata) : Nat :=
  4 + (stringSize m.schema.name + (4 + ((m.schema.columns.map columnSize).sum +
    (4 + (m.constraints.map constraintSize).sum))))

/-- The bytes of a record, whether they fit on a page or not. -/
def recordSize (m : Metadata) : Nat := TABLE.length + fieldsSize m

theorem sized_number : Sized number (fun _ => 4) (· < 2 ^ 32) := by
  constructor
  · intro n out out' h
    obtain ⟨_, rfl⟩ := number_ok h
    rw [length_append, length_leBytes]
  · intro n out hn
    exact ⟨_, by rw [number, if_pos hn]; rfl⟩

theorem sized_string : Sized string stringSize (fun s => (utf8Bytes s).length < 2 ^ 32 ∧ True) :=
  (sized_number.field fun s => (utf8Bytes s).length).seq (sized_push utf8Bytes)

theorem sized_dataType : Sized dataType (fun t => (typeBytes t).length) (· ≠ .null) := by
  constructor
  · intro t out out' h
    have hne : t ≠ .null := by
      rintro rfl
      cases h
    rw [(frames_dataType hne).written out] at h
    cases h
    rw [length_append]
  · intro t out hne
    exact ⟨_, (frames_dataType hne).written out⟩

theorem sized_column : Sized column columnSize
    (fun c => ((utf8Bytes c.name).length < 2 ^ 32 ∧ True) ∧ True ∧ c.dataType ≠ .null) :=
  (sized_string.field ColumnSchema.name).seq
    ((sized_push fun c : ColumnSchema => [if c.nullable then 1 else 0]).seq
      (sized_dataType.field ColumnSchema.dataType))

theorem sized_constraint : Sized constraint constraintSize
    (fun c => True ∧ (constraintParts c).1.length < 2 ^ 32 ∧ ∀ i ∈ (constraintParts c).1, i < 2 ^ 32) :=
  (sized_push fun c => [if (constraintParts c).2 then 1 else 2]).seq
    ((sized_number.field fun c => (constraintParts c).1.length).seq
      (sized_number.all.field fun c => (constraintParts c).1))

/-- What the writers of a record ask for. -/
structure Fits (m : Metadata) : Prop where
  name : (utf8Bytes m.schema.name).length < 2 ^ 32
  columns : m.schema.columns.length < 2 ^ 32
  column : ∀ c ∈ m.schema.columns, (utf8Bytes c.name).length < 2 ^ 32 ∧ c.dataType ≠ .null
  constraints : m.constraints.length < 2 ^ 32
  constraint : ∀ c ∈ m.constraints, (constraintParts c).1.length < 2 ^ 32 ∧
    ∀ i ∈ (constraintParts c).1, i < 2 ^ 32

theorem sized_fields : Sized fields fieldsSize Fits := by
  have h := ((sized_push u32Bytes).field Metadata.head).seq
    ((sized_string.field fun m : Metadata => m.schema.name).seq
      ((sized_number.field fun m : Metadata => m.schema.columns.length).seq
        ((sized_column.all.field fun m : Metadata => m.schema.columns).seq
          ((sized_number.field fun m : Metadata => m.constraints.length).seq
            (sized_constraint.all.field Metadata.constraints)))))
  refine ⟨fun hw => ?_, fun out hm => h.writes out ?_⟩
  · exact h.length hw
  · exact ⟨trivial, ⟨hm.name, trivial⟩, hm.columns,
      fun c hc => ⟨⟨(hm.column c hc).1, trivial⟩, trivial, (hm.column c hc).2⟩, hm.constraints,
      fun c hc => ⟨trivial, hm.constraint c hc⟩⟩

/-- A list is no longer, and none of its values larger, than the bytes of the whole. -/
theorem le_sum_sizes {α : Type} (size : α → Nat) (hpos : ∀ a, 1 ≤ size a) (as : List α) :
    as.length ≤ (as.map size).sum ∧ ∀ a ∈ as, size a ≤ (as.map size).sum := by
  constructor
  · have h := length_le_sum_of_one_le (as.map size) (by simp [hpos])
    rwa [length_map] at h
  · intro a ha
    exact single_le_sum (fun _ _ => Nat.zero_le _) _ (mem_map_of_mem ha)

/-- A valid record that fits on a page has small counts. -/
theorem fits_of_size (hvalid : validate m = .ok ()) (hsize : recordSize m ≤ HeapPage.MAX_TUPLE_SIZE) : Fits m := by
  obtain ⟨_, ⟨hcolumns, _⟩, hkeys, _⟩ := validate_ok.1 hvalid
  obtain ⟨hlength, hcolumn⟩ := le_sum_sizes columnSize (fun c => by unfold columnSize; omega) m.schema.columns
  obtain ⟨hlength', hconstraint⟩ := le_sum_sizes constraintSize (fun c => by unfold constraintSize; omega)
    m.constraints
  have hle : fieldsSize m ≤ 8164 := Nat.le_trans (Nat.le_add_left _ _) hsize
  unfold fieldsSize stringSize at hle
  refine ⟨by omega, by omega, fun c hc => ⟨?_, (hcolumns c hc).2⟩, by omega, fun c hc => ⟨?_, fun i hi => ?_⟩⟩
  · have hc' : (4 + (utf8Bytes c.name).length) + (1 + (typeBytes c.dataType).length) ≤ _ := hcolumn c hc
    omega
  · have hc' : 1 + (4 + ((constraintParts c).1.map fun _ => 4).sum) ≤ _ := hconstraint c hc
    have hindices := (le_sum_sizes (fun _ : Nat => 4) (by simp) (constraintParts c).1).1
    omega
  · obtain ⟨column, hcolumn', _⟩ := (hkeys c hc).2.1 i hi
    have := lt_of_get hcolumn'
    omega

/-- The length of a record that was written. -/
theorem length_encode (h : encode m = .ok b) : b.length = recordSize m :=
  sized_fields.length (encode_ok.1 h).2.1

/-- **A valid record is refused only for its size.** -/
theorem encode_accepts : (∃ b, encode m = .ok b) ↔
    validate m = .ok () ∧ recordSize m ≤ HeapPage.MAX_TUPLE_SIZE := by
  constructor
  · intro h
    obtain ⟨b, hb⟩ := h
    obtain ⟨hvalid, _, hle⟩ := encode_ok.1 hb
    rw [length_encode hb] at hle
    exact ⟨hvalid, hle⟩
  · intro h
    obtain ⟨b, hb⟩ := sized_fields.writes TABLE (fits_of_size h.1 h.2)
    refine ⟨b, encode_ok.2 ⟨h.1, hb, ?_⟩⟩
    rw [sized_fields.length hb]
    exact h.2

/-- The head has four bytes whatever it is. -/
theorem encode_head (h : encode m = .ok b) (head : PageId) :
    ∃ b', encode { m with head := head } = .ok b' ∧ b'.length = b.length := by
  have hm := encode_accepts.1 ⟨b, h⟩
  obtain ⟨b', hb'⟩ := (encode_accepts (m := { m with head := head })).2 hm
  exact ⟨b', hb', (length_encode hb').trans (length_encode h).symm⟩

end ChiliDB.Codec
