import ChiliDB.Planner.ModifyTable
import ChiliDB.Lib.Fallible
import Mathlib.Data.List.Sort

/-!
# Rebuilding a modification node

`ModifyTable` as a node of its own, with the functions that an optimizer calls: `expressions`,
`with_exprs_and_inputs` and `necessary_children_exprs`.

* `ModifyTable.columns` — the columns of the payload: the CTID first, then the values.
* `validate_over` — a check sees an input only through the fields of these columns.
* `ResolvesByName` — what is assumed of `index_of_column`.
* `ModifyTable.carries_of_retains` — an input that retains the necessary columns has the same fields.

Principal result: `rebuild_is_lossless`.
-/

namespace ChiliDB.Planner

open Effect List
open ChiliDB.Bound (Table)
open DataFusion (Column Field DFSchema LogicalPlan Modification UpdateAssignment Engine Expr)

structure ModifyTable where
  target : Table
  input : LogicalPlan
  operation : Modification
  schema : DFSchema

/-- The payload of an operation. -/
def operationColumns : Modification → List Column
  | .insert values => values
  | .update ctid assignments => ctid :: assignments.map fun a => a.value
  | .delete ctid => [ctid]

/-- `Vec::dedup`. -/
def dedup : List Nat → List Nat
  | a :: b :: l => if a = b then dedup (b :: l) else a :: dedup (b :: l)
  | l => l

variable {Err : Type} (engine : Engine Err)

def asColumn : Expr → Result Err Column
  | .column c => .ok c
  | _ => .fail (engine.plan "modification expressions must be columns")

def rebuildParts (exprs : List Expr) (inputs : List LogicalPlan) (count : Nat) :
    Result Err (LogicalPlan × List Column) := do
  if inputs.length ≠ 1 ∨ exprs.length ≠ count then
    .fail (engine.plan "invalid ModifyTable input or expression arity")
  let columns ← exprs.mapM (asColumn engine)
  let input ← Result.index inputs 0
  return (input, columns)

namespace ModifyTable

def tryNew (target : Table) (input : LogicalPlan) (operation : Modification) : Except Err ModifyTable := do
  let schema ← completionSchema engine
  validate engine target input operation
  return ⟨target, input, operation, schema⟩

def tryInsert (target : Table) (input : LogicalPlan) (values : List Column) : Except Err ModifyTable :=
  tryNew engine target input (.insert values)

def tryUpdate (target : Table) (input : LogicalPlan) (ctid : Column) (assignments : List UpdateAssignment) :
    Except Err ModifyTable :=
  tryNew engine target input (.update ctid assignments)

def tryDelete (target : Table) (input : LogicalPlan) (ctid : Column) : Except Err ModifyTable :=
  tryNew engine target input (.delete ctid)

def intoPlan (m : ModifyTable) : LogicalPlan := .modifyTable m.target m.input m.operation m.schema

def columns (m : ModifyTable) : List Column := operationColumns m.operation

def expressions (m : ModifyTable) : List Expr := m.columns.map .column

def rebuild (m : ModifyTable) (exprs : List Expr) (inputs : List LogicalPlan) : Result Err ModifyTable :=
  match m.operation with
  | .insert values => do
    let (input, values) ← rebuildParts engine exprs inputs values.length
    Result.ofExcept (tryInsert engine m.target input values)
  | .update _ assignments => do
    let (input, columns) ← rebuildParts engine exprs inputs (assignments.length + 1)
    let ctid ← Result.index columns 0
    let assignments := (assignments.zip (columns.drop 1)).map fun p => ⟨p.1.targetColumnIndex, p.2⟩
    Result.ofExcept (tryUpdate engine m.target input ctid assignments)
  | .delete _ => do
    let (input, columns) ← rebuildParts engine exprs inputs 1
    let ctid ← Result.index columns 0
    Result.ofExcept (tryDelete engine m.target input ctid)

def withExprsAndInputs (m : ModifyTable) (exprs : List Expr) (inputs : List LogicalPlan) : Result Err ModifyTable :=
  rebuild engine m exprs inputs

/-- The positions of the payload in the input, sorted. -/
def necessaryChildrenExprs (m : ModifyTable) : Option (List (List Nat)) := do
  let indices ← (m.columns.mapM (engine.indexOfColumn m.input.schema)).toOption
  return [dedup ((indices.map Fin.val).insertionSort (· ≤ ·))]

end ModifyTable

/-- A node of one of the public constructors. -/
def ModifyTable.Accepted (m : ModifyTable) : Prop :=
  (∃ target input values, ModifyTable.tryInsert engine target input values = .ok m) ∨
  (∃ target input ctid assignments, ModifyTable.tryUpdate engine target input ctid assignments = .ok m) ∨
  ∃ target input ctid, ModifyTable.tryDelete engine target input ctid = .ok m

/-- All fields that a column names are one field. -/
def NamedOnce (c : Column) (s : DFSchema) : Prop :=
  ∀ f ∈ s.fields, ∀ f' ∈ s.fields, c.names f = true → c.names f' = true → f = f'

/-- **A uniquely named column is resolved by its name**, and no column to a field of another name. -/
structure ResolvesByName : Prop where
  names {s : DFSchema} {c : Column} {i : Fin s.fields.length} : engine.indexOfColumn s c = .ok i →
    c.names (s.fields.get i) = true
  found {s : DFSchema} {c : Column} {f : Option String × Field} : NamedOnce c s → f ∈ s.fields → c.names f = true →
    ∃ i, engine.indexOfColumn s c = .ok i

/-- The fields of a schema at these positions, with their qualifiers. -/
def Retains (old : DFSchema) (indices : List Nat) (new : DFSchema) : Prop :=
  ∀ i ∈ indices, ∀ f, old.fields[i]? = some f → f ∈ new.fields

/-- The planner's node is this one. -/
theorem tryNew_eq (target : Table) (input : LogicalPlan) (operation : Modification) :
    tryNew engine target input operation = (ModifyTable.tryNew engine target input operation).map (·.intoPlan) := by
  unfold tryNew ModifyTable.tryNew
  cases completionSchema engine with
  | error e => rfl
  | ok schema =>
    cases validate engine target input operation with
    | error e => rfl
    | ok u => rfl

theorem mem_dedup {i : Nat} : ∀ {l : List Nat}, i ∈ dedup l ↔ i ∈ l
  | [] => .rfl
  | [a] => .rfl
  | a :: b :: l => by
    unfold dedup
    split
    · rename_i h
      rw [mem_dedup, h]
      simp
    · rw [mem_cons, mem_dedup, mem_cons (l := b :: l)]

/-! ## The fields of an input -/

variable {engine} {c : Column}

theorem inputField_ok {input : LogicalPlan} {f : Field} :
    inputField engine input c = .ok f ↔
      ∃ i, engine.indexOfColumn input.schema c = .ok i ∧ (input.schema.fields.get i).2 = f := by
  unfold inputField
  rw [except_bind_ok]
  simp [pure, Except.pure]

/-- A column that names one field finds it wherever it stands. -/
theorem inputField_of_namedOnce {input : LogicalPlan} {f : Option String × Field} (hresolves : ResolvesByName engine)
    (honce : NamedOnce c input.schema) (hf : f ∈ input.schema.fields) (hnames : c.names f = true) :
    inputField engine input c = .ok f.2 := by
  obtain ⟨i, hi⟩ := hresolves.found honce hf hnames
  have heq : input.schema.fields.get i = f := honce _ (get_mem _ i) f hf (hresolves.names hi) hnames
  exact inputField_ok.2 ⟨i, hi, by rw [heq]⟩

variable {target : Table} {input input' : LogicalPlan}

/-! ## A check over another input -/

/-- A field of the first input is a field of the second. -/
def Carries (engine : Engine Err) (input input' : LogicalPlan) (c : Column) : Prop :=
  ∀ f, inputField engine input c = .ok f → inputField engine input' c = .ok f

/-- What is checked of an input is checked of the field that a column has there. -/
def Sees (engine : Engine Err) (c : Column) (checked : LogicalPlan → Prop) : Prop :=
  ∃ P : Field → Prop, ∀ input, checked input ↔ ∃ f, inputField engine input c = .ok f ∧ P f

theorem Sees.over {checked : LogicalPlan → Prop} (h : Sees engine c checked) (hinput : checked input) :
    (∃ f, inputField engine input c = .ok f) ∧ ∀ {input'}, Carries engine input input' c → checked input' := by
  obtain ⟨P, hP⟩ := h
  obtain ⟨f, hf, hPf⟩ := (hP input).1 hinput
  exact ⟨⟨f, hf⟩, fun hcarries => (hP _).2 ⟨f, hcarries f hf, hPf⟩⟩

theorem validateValue_sees (target : Table) (index : Nat) (value : Column) :
    Sees engine value fun input => validateValue engine target input index value = .ok () := by
  unfold validateValue
  split
  · exact ⟨fun _ => False, by simp⟩
  · exact ⟨_, fun _ => except_bind_ok⟩

theorem validateCtid_sees (c : Column) : Sees engine c fun input => validateCtid engine input c = .ok () :=
  ⟨_, fun _ => except_bind_ok⟩

/-- The values of the assignments are checked one by one; which targets repeat is no matter of the input. -/
theorem validateAssignments_ok : ∀ {assignments : List UpdateAssignment} {seen : List Nat},
    validateAssignments engine target input assignments seen = .ok () ↔
      (∀ a ∈ assignments, validateValue engine target input a.targetColumnIndex a.value = .ok ()) ∧
        (assignments.map (·.targetColumnIndex)).Nodup ∧ ∀ a ∈ assignments, a.targetColumnIndex ∉ seen
  | [], seen => by simp [validateAssignments]
  | a :: assignments, seen => by
    unfold validateAssignments
    by_cases hseen : a.targetColumnIndex ∈ seen
    · simp [hseen, bind, Except.bind]
    · simp only [hseen, if_false, forall_mem_cons, map_cons, nodup_cons, not_false_eq_true, true_and]
      constructor
      · intro h
        obtain ⟨_, hvalue, h⟩ := except_bind_ok.1 h
        obtain ⟨hvalues, hnodup, hfresh⟩ := validateAssignments_ok.1 h
        refine ⟨⟨hvalue, hvalues⟩, ⟨?_, hnodup⟩, ?_⟩
        · rw [mem_map]
          rintro ⟨b, hb, heq⟩
          exact hfresh b hb (by simp [heq])
        · intro b hb hmem
          exact hfresh b hb (mem_cons_of_mem _ hmem)
      · rintro ⟨⟨hvalue, hvalues⟩, ⟨hnew, hnodup⟩, hfresh⟩
        refine ok_then hvalue (validateAssignments_ok.2 ⟨hvalues, hnodup, ?_⟩)
        intro b hb hmem
        rcases mem_cons.1 hmem with heq | hmem
        · exact hnew (mem_map.2 ⟨b, hb, heq⟩)
        · exact hfresh b hb hmem

theorem ensureRelationalInput_ok : ensureRelationalInput engine input = .ok () ↔ hasModification input = false := by
  unfold ensureRelationalInput
  cases hasModification input <;> simp

/-- What the checks of an operation come to. -/
def OperationChecked (engine : Engine Err) (target : Table) (input : LogicalPlan) : Modification → Prop
  | .insert values => values.length = target.source.schema.columns.length ∧
      ∀ p ∈ values.zipIdx, validateValue engine target input p.2 p.1 = .ok ()
  | .update ctid assignments => validateCtid engine input ctid = .ok () ∧ assignments.isEmpty = false ∧
      validateAssignments engine target input assignments [] = .ok ()
  | .delete ctid => validateCtid engine input ctid = .ok ()

variable {operation : Modification}

theorem validate_ok :
    validate engine target input operation = .ok () ↔
      hasModification input = false ∧ OperationChecked engine target input operation := by
  unfold validate
  rw [seq_ok, ensureRelationalInput_ok]
  apply and_congr_right'
  cases operation with
  | insert values =>
    by_cases hlen : values.length = target.source.schema.columns.length
    · simp only [OperationChecked, hlen, ne_eq, not_true_eq_false, if_false, true_and]
      exact forM_ok
    · simp [OperationChecked, hlen, bind, Except.bind]
  | update ctid assignments =>
    dsimp only [OperationChecked]
    rw [seq_ok]
    apply and_congr_right'
    cases hempty : assignments.isEmpty <;> simp [bind, Except.bind]
  | delete ctid => exact .rfl

/-- The columns of an accepted payload are in its input, and it is accepted over every relational input that
carries them. -/
theorem validate_over (h : validate engine target input operation = .ok ()) :
    (∀ c ∈ operationColumns operation, ∃ f, inputField engine input c = .ok f) ∧
    ∀ {input'}, hasModification input' = false →
      (∀ c ∈ operationColumns operation, Carries engine input input' c) →
      validate engine target input' operation = .ok () := by
  obtain ⟨_, h⟩ := validate_ok.1 h
  simp only [validate_ok]
  cases operation with
  | insert values =>
    obtain ⟨hlen, hvalues⟩ := h
    have hsees p hp := (validateValue_sees target p.2 p.1).over (hvalues p hp)
    constructor
    · intro c hc
      obtain ⟨i, hi⟩ := mem_iff_getElem?.1 hc
      exact (hsees (c, i) (mk_mem_zipIdx_iff_getElem?.2 hi)).1
    · intro input' hrel hcarries
      exact ⟨hrel, hlen, fun p hp => (hsees p hp).2 (hcarries p.1 (fst_mem_of_mem_zipIdx hp))⟩
  | update ctid assignments =>
    obtain ⟨hctid, hempty, hassignments⟩ := h
    obtain ⟨hvalues, hfresh⟩ := validateAssignments_ok.1 hassignments
    have hfirst := (validateCtid_sees ctid).over hctid
    have hsees a ha := (validateValue_sees target a.targetColumnIndex a.value).over (hvalues a ha)
    simp only [operationColumns, forall_mem_cons, forall_mem_map]
    refine ⟨⟨hfirst.1, fun a ha => (hsees a ha).1⟩, ?_⟩
    rintro input' hrel ⟨hcarries, hcarriesAll⟩
    exact ⟨hrel, hfirst.2 hcarries, hempty,
      validateAssignments_ok.2 ⟨fun a ha => (hsees a ha).2 (hcarriesAll a ha), hfresh⟩⟩
  | delete ctid =>
    have hfirst := (validateCtid_sees ctid).over h
    simp only [operationColumns, forall_mem_singleton]
    exact ⟨hfirst.1, fun hrel hcarries => ⟨hrel, hfirst.2 hcarries⟩⟩

namespace ModifyTable

variable {m : ModifyTable}

theorem tryNew_ok :
    tryNew engine target input operation = .ok m ↔
      ∃ schema, completionSchema engine = .ok schema ∧ validate engine target input operation = .ok () ∧
        m = ⟨target, input, operation, schema⟩ := by
  unfold tryNew
  constructor
  · intro h
    obtain ⟨schema, hschema, h⟩ := except_bind_ok.1 h
    obtain ⟨hvalid, h⟩ := seq_ok.1 h
    cases h
    exact ⟨schema, hschema, hvalid, rfl⟩
  · rintro ⟨schema, hschema, hvalid, rfl⟩
    exact ok_then hschema (seq_ok.2 ⟨hvalid, rfl⟩)

theorem Accepted.valid (h : m.Accepted engine) :
    completionSchema engine = .ok m.schema ∧ validate engine m.target m.input m.operation = .ok () := by
  rcases h with ⟨target, input, values, h⟩ | ⟨target, input, ctid, assignments, h⟩ | ⟨target, input, ctid, h⟩
  all_goals
    obtain ⟨schema, hschema, hvalid, rfl⟩ := tryNew_ok.1 h
    exact ⟨hschema, hvalid⟩

/-! ## The necessary columns -/

/-- The field of a column is at one of the necessary positions. -/
theorem necessaryChildrenExprs_ok (h : ∀ c ∈ m.columns, ∃ f, inputField engine m.input c = .ok f) :
    ∃ indices, m.necessaryChildrenExprs engine = some [indices] ∧
      ∀ c ∈ m.columns, ∃ i, engine.indexOfColumn m.input.schema c = .ok i ∧ i.val ∈ indices := by
  obtain ⟨found, hmap⟩ : ∃ found, m.columns.mapM (engine.indexOfColumn m.input.schema) = .ok found := by
    generalize m.columns = columns at h
    induction columns with
    | nil => exact ⟨[], rfl⟩
    | cons c columns ih =>
      obtain ⟨⟨f, hf⟩, htail⟩ := forall_mem_cons.1 h
      obtain ⟨i, hi, _⟩ := inputField_ok.1 hf
      obtain ⟨found, hmap⟩ := ih htail
      exact ⟨i :: found, by rw [mapM_cons, hi, hmap]; rfl⟩
  refine ⟨_, by rw [necessaryChildrenExprs, hmap]; rfl, fun c hc => ?_⟩
  obtain ⟨i, hi, hc⟩ := exists_of_forall₂ (mapM_ok.1 hmap).flip c hc
  exact ⟨i, hc, mem_dedup.2 ((mem_insertionSort _).2 (mem_map_of_mem hi))⟩

theorem carries_of_retains {indices : List Nat} (hresolves : ResolvesByName engine)
    (hretains : Retains m.input.schema indices input'.schema)
    (hindex : ∃ i, engine.indexOfColumn m.input.schema c = .ok i ∧ i.val ∈ indices)
    (honce : NamedOnce c input'.schema) : Carries engine m.input input' c := by
  obtain ⟨i, hc, hi⟩ := hindex
  intro f hf
  obtain ⟨i', hc', rfl⟩ := inputField_ok.1 hf
  rw [hc] at hc'
  cases hc'
  exact inputField_of_namedOnce hresolves honce (hretains i hi _ (getElem?_eq_getElem i.isLt)) (hresolves.names hc)

end ModifyTable

/-! ## The parts of a rebuilt node -/

theorem mapM_asColumn (columns : List Column) : (columns.map Expr.column).mapM (asColumn engine) = .ok columns := by
  induction columns with
  | nil => rfl
  | cons c columns ih =>
    rw [map_cons, mapM_cons, ih]
    rfl

variable {count : Nat} {exprs : List Expr}

theorem rebuildParts_columns (input : LogicalPlan) (columns : List Column) (h : columns.length = count) :
    rebuildParts engine (columns.map Expr.column) [input] count = .ok (input, columns) := by
  unfold rebuildParts
  rw [if_neg (by simp [h]), mapM_asColumn]
  rfl

theorem mapM_asColumn_fail (h : ∃ e ∈ exprs, ∀ c, e ≠ Expr.column c) :
    ∃ e, exprs.mapM (asColumn engine) = Result.fail e := by
  induction exprs with
  | nil => simp at h
  | cons first exprs ih =>
    rw [mapM_cons]
    by_cases hfirst : ∃ c, first = Expr.column c
    · obtain ⟨c, rfl⟩ := hfirst
      obtain ⟨e, he, hother⟩ := h
      rcases mem_cons.1 he with rfl | he
      · exact absurd rfl (hother c)
      · obtain ⟨message, hm⟩ := ih ⟨e, he, hother⟩
        refine ⟨message, ?_⟩
        rw [hm]
        rfl
    · refine ⟨engine.plan "modification expressions must be columns", ?_⟩
      rw [asColumn.eq_2 engine first fun c hc => hfirst ⟨c, hc⟩]
      rfl

/-- No part is indexed before the arity is known. -/
theorem rebuildParts_fail {inputs : List LogicalPlan}
    (h : exprs.length ≠ count ∨ inputs.length ≠ 1 ∨ ∃ e ∈ exprs, ∀ c, e ≠ Expr.column c) :
    ∃ e, rebuildParts engine exprs inputs count = Result.fail e := by
  unfold rebuildParts
  by_cases harity : inputs.length ≠ 1 ∨ exprs.length ≠ count
  · rw [if_pos harity]
    exact ⟨_, rfl⟩
  · rw [if_neg harity]
    have hother : ∃ e ∈ exprs, ∀ c, e ≠ Expr.column c := by
      rcases h with h | h | h
      · exact absurd (.inr h) harity
      · exact absurd (.inl h) harity
      · exact h
    obtain ⟨e, he⟩ := mapM_asColumn_fail hother
    refine ⟨e, ?_⟩
    rw [he]
    rfl

namespace ModifyTable

variable {m : ModifyTable}

theorem zip_assignments (assignments : List UpdateAssignment) :
    (assignments.zip (assignments.map fun a => a.value)).map
      (fun p => (⟨p.1.targetColumnIndex, p.2⟩ : UpdateAssignment)) = assignments := by
  rw [zip_map_right, map_map]
  induction assignments with
  | nil => rfl
  | cons a assignments ih => simpa using ih

/-- The payload goes back to the positions that it came from. -/
theorem withExprsAndInputs_expressions (m : ModifyTable) (input : LogicalPlan) :
    m.withExprsAndInputs engine m.expressions [input] = Result.ofExcept (tryNew engine m.target input m.operation) := by
  obtain ⟨target, old, operation, schema⟩ := m
  unfold withExprsAndInputs rebuild expressions columns
  cases operation with
  | insert values =>
    dsimp only [operationColumns]
    rw [rebuildParts_columns input values rfl]
    rfl
  | update ctid assignments =>
    dsimp only [operationColumns]
    rw [rebuildParts_columns input (ctid :: assignments.map fun a => a.value) (by simp)]
    have hback := zip_assignments assignments
    simp only [Result.ok_bind, drop_succ_cons, drop_zero, hback]
    rfl
  | delete ctid =>
    dsimp only [operationColumns]
    rw [rebuildParts_columns input [ctid] (rfl : _ = 1)]
    rfl

theorem withExprsAndInputs_fail {exprs : List Expr} {inputs : List LogicalPlan}
    (h : exprs.length ≠ m.expressions.length ∨ inputs.length ≠ 1 ∨ ∃ e ∈ exprs, ∀ c, e ≠ Expr.column c) :
    ∃ e, m.withExprsAndInputs engine exprs inputs = Result.fail e := by
  obtain ⟨e, he⟩ : ∃ e, rebuildParts engine exprs inputs m.expressions.length = Result.fail e :=
    rebuildParts_fail h
  refine ⟨e, ?_⟩
  obtain ⟨target, old, operation, schema⟩ := m
  unfold withExprsAndInputs rebuild
  cases operation with
  | insert values =>
    simp only [expressions, columns, operationColumns, length_map] at he
    dsimp only
    rw [he]
    rfl
  | update ctid assignments =>
    simp only [expressions, columns, operationColumns, length_map, length_cons] at he
    dsimp only
    rw [he]
    rfl
  | delete ctid =>
    simp only [expressions, columns, operationColumns, length_map, length_cons, length_nil] at he
    dsimp only
    rw [he]
    rfl

end ModifyTable

/-- **Rebuilding is lossless.**  Over every relational input that retains the necessary columns under names of
their own, the expressions of an accepted node rebuild it: its target, its operation with the CTID and the
assignments, and its schema.  The original input gives the node itself, and no other number of expressions or
inputs and no other kind of expression gives a node. -/
theorem rebuild_is_lossless (engine : Engine Err) (m : ModifyTable) (haccepted : m.Accepted engine) :
    (∃ indices, m.necessaryChildrenExprs engine = some [indices] ∧ (ResolvesByName engine →
      ∀ input, hasModification input = false → Retains m.input.schema indices input.schema →
        (∀ c ∈ m.columns, NamedOnce c input.schema) →
        m.withExprsAndInputs engine m.expressions [input] = .ok { m with input := input })) ∧
    m.withExprsAndInputs engine m.expressions [m.input] = .ok m ∧
    ∀ exprs inputs, (exprs.length ≠ m.expressions.length ∨ inputs.length ≠ 1 ∨
        ∃ e ∈ exprs, ∀ c, e ≠ Expr.column c) →
      ∃ e, m.withExprsAndInputs engine exprs inputs = Result.fail e := by
  obtain ⟨hschema, hvalid⟩ := haccepted.valid
  have hrebuilt : ∀ input, validate engine m.target input m.operation = .ok () →
      m.withExprsAndInputs engine m.expressions [input] = .ok { m with input := input } := by
    intro input h
    rw [ModifyTable.withExprsAndInputs_expressions, ModifyTable.tryNew_ok.2 ⟨m.schema, hschema, h, rfl⟩]
    rfl
  refine ⟨?_, hrebuilt m.input hvalid, fun exprs inputs => ModifyTable.withExprsAndInputs_fail⟩
  obtain ⟨hfields, hover⟩ := validate_over hvalid
  obtain ⟨indices, hnecessary, hindices⟩ := ModifyTable.necessaryChildrenExprs_ok hfields
  refine ⟨indices, hnecessary, ?_⟩
  intro hresolves input hrel hretains honce
  refine hrebuilt input (hover hrel ?_)
  intro c hc
  exact ModifyTable.carries_of_retains hresolves hretains (hindices c hc) (honce c hc)

theorem standard_resolvesByName : ResolvesByName Engine.standard where
  names {s c i} h := by
    change DataFusion.Standard.indexOfColumn s c = .ok i at h
    unfold DataFusion.Standard.indexOfColumn at h
    split at h
    · rename_i hfind
      cases h
      simpa using find?_some hfind
    · cases h
  found {s c f} _ hf hnames := by
    show ∃ i, DataFusion.Standard.indexOfColumn s c = .ok i
    unfold DataFusion.Standard.indexOfColumn
    split
    · exact ⟨_, rfl⟩
    · rename_i hnone
      obtain ⟨i, rfl⟩ := mem_iff_get.1 hf
      exact absurd hnames (find?_eq_none.1 hnone i (mem_finRange i))

def twoColumns : Table := ⟨⟨0⟩, ⟨0, ⟨"t", [⟨"a", .int64, true⟩, ⟨"b", .text, true⟩]⟩⟩⟩

def threeFields : DFSchema :=
  ⟨[(none, ⟨"x", .int64, true⟩), (none, ⟨"y", .utf8, true⟩), (none, ⟨"ctid", ctidType, false⟩)]⟩

/-- `UPDATE` of the second column. -/
def secondAssigned : ModifyTable :=
  ⟨twoColumns, .values [] threeFields, .update ⟨none, "ctid"⟩ [⟨1, ⟨none, "y"⟩⟩],
    ⟨[(none, ⟨"affected_rows", .int64, false⟩)]⟩⟩

/-- One column is gone and the others have changed places. -/
def prunedInput : LogicalPlan := .values [] ⟨[(none, ⟨"ctid", ctidType, false⟩), (none, ⟨"y", .utf8, true⟩)]⟩

theorem rebuild_is_lossless_pruned : secondAssigned.Accepted .standard ∧
    secondAssigned.necessaryChildrenExprs .standard = some [[1, 2]] ∧
    secondAssigned.withExprsAndInputs .standard secondAssigned.expressions [prunedInput] =
      .ok { secondAssigned with input := prunedInput } := by
  have haccepted : secondAssigned.Accepted .standard :=
    .inr (.inl ⟨twoColumns, .values [] threeFields, ⟨none, "ctid"⟩, [⟨1, ⟨none, "y"⟩⟩], rfl⟩)
  have hnecessary : secondAssigned.necessaryChildrenExprs .standard = some [[1, 2]] := by decide
  refine ⟨haccepted, hnecessary, ?_⟩
  obtain ⟨⟨indices, hindices, h⟩, _⟩ := rebuild_is_lossless .standard secondAssigned haccepted
  rw [hnecessary] at hindices
  cases hindices
  refine h standard_resolvesByName prunedInput rfl ?_ ?_
  · unfold Retains
    decide
  · unfold NamedOnce
    decide

end ChiliDB.Planner
