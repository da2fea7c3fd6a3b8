import ChiliDB.Lib.Wire
import ChiliDB.Binder.Schema
import ChiliDB.Heapam.Page

/-!
# Catalog records

`crates/catalog/src/codec.rs`: a table record is a versioned tag, the head page of the table's heap, its
schema and its constraints.

```
"CHILICAT" 1 1 | head:4 | name | columns | constraints
name, list     = length:4 …
column         = name | nullable:1 | type:1 | (limit:4)?
constraint     = tag:1 | indices
```

* `validate`, `encode`, `decode` — the three functions of the source, with the texts of their errors.
* `exact_column`, `exact_constraint`, `exact_fields` — every part of the format is exact.

Principal result: `records_round_trip`.
-/

namespace ChiliDB

open Effect Wire List

namespace Codec

/-- `b"CHILICAT\x01\x00"`. -/
def MANIFEST : Bytes := [67, 72, 73, 76, 73, 67, 65, 84, 1, 0]

/-- `b"CHILICAT\x01\x01"`. -/
def TABLE : Bytes := [67, 72, 73, 76, 73, 67, 65, 84, 1, 1]

structure Metadata where
  schema : TableSchema
  head : PageId
  constraints : List TableConstraint
  deriving DecidableEq

/-! ## Validation -/

/-- The loop over the columns; `names` are those seen before. -/
def validateColumns (names : List String) : List ColumnSchema → Except String Unit
  | [] => .ok ()
  | c :: columns => do
    if c.name = "" ∨ c.name ∈ names then throw "empty or duplicate column name"
    if c.dataType = .null then throw "NULL is not a column type"
    validateColumns (c.name :: names) columns

/-- The loop over the indices of one constraint. -/
def validateIndices (columns : List ColumnSchema) (pk : Bool) (seen : List Nat) :
    List Nat → Except String Unit
  | [] => .ok ()
  | i :: indices => do
    let column ←
      match columns[i]? with
      | some column => pure column
      | none => throw "constraint index out of bounds"
    if i ∈ seen then throw "repeated constraint index"
    if pk && column.nullable then throw "nullable primary key"
    validateIndices columns pk (i :: seen) indices

/-- The indices of a constraint, and whether it is the primary key. -/
def constraintParts : TableConstraint → List Nat × Bool
  | .primaryKey v => (v, true)
  | .unique v => (v, false)

/-- The loop over the constraints; `primary` tells whether one was a primary key. -/
def validateConstraints (columns : List ColumnSchema) (primary : Bool) :
    List TableConstraint → Except String Unit
  | [] => .ok ()
  | c :: constraints => do
    let (indices, pk) := constraintParts c
    if pk && primary then throw "multiple primary keys"
    if indices = [] then throw "empty constraint"
    validateIndices columns pk [] indices
    validateConstraints columns (primary || pk) constraints

def validate (m : Metadata) : Except String Unit := do
  if m.schema.name = "" ∨ m.schema.columns = [] then throw "empty table name or column list"
  validateColumns [] m.schema.columns
  validateConstraints m.schema.columns false m.constraints

/-! ## Writing -/

/-- `n.to_le_bytes()` of a `u32`. -/
def u32Bytes (n : UInt32) : Bytes := leBytes 4 n.toNat

def number (n : Nat) : Wire.Writer String Unit :=
  if n < 2 ^ 32 then push (leBytes 4 n) else throw "metadata count overflow"

/-- `s.as_bytes()`. -/
def utf8Bytes (s : String) : Bytes := s.toUTF8.data.toList

def string (s : String) : Wire.Writer String Unit := do
  number (utf8Bytes s).length
  push (utf8Bytes s)

/-- The type tag and the limit of a bounded `VARCHAR`. -/
def dataType : LogicalType → Wire.Writer String Unit
  | .boolean => push [1]
  | .int32 => push [2]
  | .int64 => push [3]
  | .uint32 => push [4]
  | .float32 => push [5]
  | .float64 => push [6]
  | .text => push [7]
  | .varchar none => push [8]
  | .varchar (some n) => do
    push [9]
    push (u32Bytes n.get)
  | .null => throw "NULL is not a column type"

def column (c : ColumnSchema) : Wire.Writer String Unit := do
  string c.name
  push [if c.nullable then 1 else 0]
  dataType c.dataType

def constraint (c : TableConstraint) : Wire.Writer String Unit := do
  let (indices, pk) := constraintParts c
  push [if pk then 1 else 2]
  number indices.length
  writeAll number indices

/-- Everything behind the tag. -/
def fields (m : Metadata) : Wire.Writer String Unit := do
  push (u32Bytes m.head)
  string m.schema.name
  number m.schema.columns.length
  writeAll column m.schema.columns
  number m.constraints.length
  writeAll constraint m.constraints

def encode (m : Metadata) : Except String Bytes := do
  validate m
  let (_, out) ← fields m TABLE
  if out.length > HeapPage.MAX_TUPLE_SIZE then throw "catalog metadata exceeds maximum tuple size"
  pure out

/-! ## Reading -/

/-- What the decoder needs of its input. -/
structure Input (m : Type → Type) where
  take : Nat → m Bytes
  /-- How many bytes are left. -/
  left : m Nat
  /-- `bytes[i]`. -/
  get : Bytes → Nat → m UInt8
  /-- `try_into().unwrap()`, to an array of `n` bytes. -/
  array : Nat → Bytes → m Unit
  /-- A string or a list of `n` elements is built. -/
  allocate : Nat → m Unit
  /-- The loops that read a value and push it. -/
  many : {α : Type} → m α → Nat → m (List α)
  lift : {α : Type} → Except String α → m α

namespace Input

variable {m : Type → Type} [Monad m] (io : Input m)

def fail {α : Type} (e : String) : m α := io.lift (.error e)

def byte : m UInt8 := do
  let bytes ← io.take 1
  io.get bytes 0

def number : m UInt32 := do
  let bytes ← io.take 4
  io.array 4 bytes
  pure (UInt32.ofNat (leNat bytes))

def count : m Nat := do
  let n ← io.number
  let left ← io.left
  if n.toNat > left then io.fail "invalid metadata count" else pure n.toNat

/-- `r.number().map(|n| n as usize)`. -/
def index : m Nat := do
  let n ← io.number
  pure n.toNat

def string : m String := do
  let n ← io.count
  let bytes ← io.take n
  io.allocate bytes.length
  match String.fromUTF8? ⟨bytes.toArray⟩ with
  | some s => pure s
  | none => io.fail "invalid UTF-8"

def nullable : m Bool := do
  match ← io.byte with
  | 0 => pure false
  | 1 => pure true
  | _ => io.fail "invalid nullability"

def dataType : m LogicalType := do
  match ← io.byte with
  | 1 => pure .boolean
  | 2 => pure .int32
  | 3 => pure .int64
  | 4 => pure .uint32
  | 5 => pure .float32
  | 6 => pure .float64
  | 7 => pure .text
  | 8 => pure (.varchar none)
  | 9 =>
    match NonZeroU32.new (← io.number) with
    | some n => pure (.varchar (some n))
    | none => io.fail "zero varchar bound"
  | _ => io.fail "unknown logical type"

def column : m ColumnSchema := do
  let name ← io.string
  let nullable ← io.nullable
  let dataType ← io.dataType
  pure { name, dataType, nullable }

def constraint : m TableConstraint := do
  let tag ← io.byte
  let count ← io.count
  let indices ← io.many io.index count
  match tag with
  | 1 => pure (.primaryKey indices)
  | 2 => pure (.unique indices)
  | _ => io.fail "unknown constraint"

/-- Everything behind the tag. -/
def fields : m Metadata := do
  let head ← io.number
  let name ← io.string
  let n ← io.count
  let columns ← io.many io.column n
  let n ← io.count
  let constraints ← io.many io.constraint n
  pure { schema := { name, columns }, head, constraints }

def decode : m Metadata := do
  let tag ← io.take TABLE.length
  if tag ≠ TABLE then io.fail "unknown catalog record or version" else
    let metadata ← io.fields
    let left ← io.left
    if left ≠ 0 then io.fail "trailing metadata bytes" else
      io.lift (validate metadata)
      pure metadata

end Input

/-! ### From the bytes alone -/

def Reader.take (n : Nat) : Wire.Reader String Bytes := fun input =>
  if n > input.length then .error "truncated metadata" else .ok (input.take n, input.drop n)

def reader : Input (Wire.Reader String) where
  take := Reader.take
  left := fun input => .ok (input.length, input)
  get := fun bytes i => pure (bytes.getD i 0)
  array := fun _ _ => pure ()
  allocate := fun _ => pure ()
  many := readMany
  lift := fun r input => r.map fun a => (a, input)

def decode (bytes : Bytes) : Except String Metadata := do
  let (m, _) ← reader.decode bytes
  pure m

/-! ## The parts of the format -/

variable {bytes : Bytes} {n : Nat} {input rest out out' : Bytes} {s : String}

theorem take_ok : Reader.take n input = .ok (bytes, rest) ↔ input = bytes ++ rest ∧ bytes.length = n := by
  unfold Reader.take
  split
  · rename_i hlt
    constructor
    · intro h
      cases h
    · rintro ⟨rfl, rfl⟩
      rw [length_append] at hlt
      omega
  · rename_i hle
    constructor
    · intro h
      cases h
      exact ⟨(take_append_drop n input).symm, length_take_of_le (by omega)⟩
    · rintro ⟨rfl, rfl⟩
      rw [take_left, drop_left]

theorem byte_ok {b : UInt8} : reader.byte input = .ok (b, rest) ↔ input = b :: rest := by
  unfold Input.byte
  rw [bind_ok]
  constructor
  · rintro ⟨bytes, t, ht, hp⟩
    obtain ⟨rfl, hlen⟩ := take_ok.1 ht
    obtain ⟨rfl, rfl⟩ := pure_ok.1 hp
    obtain ⟨b, rfl⟩ := length_eq_one_iff.1 hlen
    rfl
  · intro h
    exact ⟨[b], rest, take_ok.2 ⟨h, rfl⟩, rfl⟩

theorem push_ok : (push bytes : Wire.Writer String Unit) out = .ok ((), out') ↔ out' = out ++ bytes := by
  simp [push, eq_comm]

theorem u32_of_bytes (n : UInt32) : UInt32.ofNat (leNat (u32Bytes n)) = n := by
  have hlt : n.toNat < 256 ^ 4 := n.toNat_lt
  rw [u32Bytes, leNat_leBytes hlt, UInt32.ofNat_toNat]

theorem bytes_of_u32 (h : bytes.length = 4) : u32Bytes (.ofNat (leNat bytes)) = bytes := by
  have hlt : leNat bytes < 2 ^ 32 := by
    have := leNat_lt bytes
    rw [h] at this
    exact this
  rw [u32Bytes, UInt32.toNat_ofNat_of_lt' hlt, ← h, leBytes_leNat]

theorem frames_u32 (n : UInt32) : Frames (fun n => push (u32Bytes n)) reader.number n (u32Bytes n) := by
  refine ⟨fun out => rfl, fun rest => ?_⟩
  refine bind_ok.2 ⟨u32Bytes n, rest, take_ok.2 ⟨rfl, length_leBytes 4 _⟩, bind_ok.2 ⟨(), rest, rfl, ?_⟩⟩
  rw [u32_of_bytes]
  rfl

theorem exact_u32 : Exact (fun n => push (u32Bytes n)) reader.number := by
  constructor
  · intro n out out' h
    exact ⟨u32Bytes n, push_ok.1 h, frames_u32 n⟩
  · intro input rest n h
    obtain ⟨bytes, t, ht, hp⟩ := bind_ok.1 h
    obtain ⟨rfl, hlen⟩ := take_ok.1 ht
    obtain ⟨rfl, rfl⟩ := pure_ok.1 hp
    have hframes := frames_u32 (.ofNat (leNat bytes))
    rw [bytes_of_u32 hlen] at hframes
    exact ⟨bytes, rfl, hframes⟩

theorem frames_number (n : UInt32) : Frames number reader.index n.toNat (u32Bytes n) := by
  refine ⟨fun out => ?_, fun rest => ?_⟩
  · rw [number, if_pos n.toNat_lt]
    rfl
  · exact bind_ok.2 ⟨n, rest, (frames_u32 n).read_back rest, rfl⟩

theorem number_ok (h : number n out = .ok ((), out')) : n < 2 ^ 32 ∧ out' = out ++ leBytes 4 n := by
  unfold number at h
  split at h
  · rename_i hlt
    exact ⟨hlt, push_ok.1 h⟩
  · cases h

theorem exact_number : Exact number reader.index := by
  constructor
  · intro n out out' h
    obtain ⟨hlt, rfl⟩ := number_ok h
    have hframes := frames_number (.ofNat n)
    rw [u32Bytes, UInt32.toNat_ofNat_of_lt' hlt] at hframes
    exact ⟨leBytes 4 n, rfl, hframes⟩
  · intro input rest n h
    obtain ⟨k, t, hk, hp⟩ := bind_ok.1 h
    obtain ⟨rfl, rfl⟩ := pure_ok.1 hp
    obtain ⟨bytes, rfl, hframes⟩ := exact_u32.of_read hk
    have hbytes : bytes = u32Bytes k := by
      have hw := (hframes.written []).symm.trans ((frames_u32 k).written [])
      simpa using hw
    subst hbytes
    exact ⟨u32Bytes k, rfl, frames_number k⟩

theorem count_ok (input : Bytes) (n : Nat) (rest : Bytes) :
    reader.count input = .ok (n, rest) ↔ reader.index input = .ok (n, rest) ∧ n ≤ rest.length := by
  unfold Input.count Input.index
  rw [bind_ok, bind_ok]
  constructor
  · rintro ⟨k, t, hk, h⟩
    obtain ⟨_, _, hget, h⟩ := bind_ok.1 h
    cases hget
    split at h
    · cases h
    · rename_i hle
      obtain ⟨rfl, rfl⟩ := pure_ok.1 h
      exact ⟨⟨k, _, hk, rfl⟩, by omega⟩
  · rintro ⟨⟨k, t, hk, hp⟩, hle⟩
    obtain ⟨rfl, rfl⟩ := pure_ok.1 hp
    refine ⟨k, _, hk, bind_ok.2 ⟨_, _, rfl, ?_⟩⟩
    rw [if_neg (by omega)]
    rfl

theorem visible_number : Visible number := by
  intro n out out' h
  obtain ⟨_, rfl⟩ := number_ok h
  rw [length_append, length_leBytes]
  omega

theorem fromUTF8_ok : String.fromUTF8? ⟨bytes.toArray⟩ = some s ↔ bytes = utf8Bytes s := by
  unfold String.fromUTF8? utf8Bytes
  constructor
  · intro h
    split at h
    · cases h
      rfl
    · cases h
  · intro h
    have hvalid : ByteArray.IsValidUTF8 ⟨bytes.toArray⟩ := by
      rw [h, Array.toArray_toList]
      exact s.isValidUTF8
    rw [dif_pos hvalid]
    subst h
    rfl

theorem frames_string (h : (utf8Bytes s).length < 2 ^ 32) :
    Frames string reader.string s (leBytes 4 (utf8Bytes s).length ++ utf8Bytes s) := by
  have hnumber := frames_number (.ofNat (utf8Bytes s).length)
  rw [u32Bytes, UInt32.toNat_ofNat_of_lt' h] at hnumber
  constructor
  · intro out
    rw [← append_assoc]
    exact bind_ok.2 ⟨(), _, hnumber.written out, rfl⟩
  · intro rest
    rw [append_assoc]
    refine bind_ok.2 ⟨_, utf8Bytes s ++ rest, (count_ok _ _ _).2 ⟨hnumber.read_back _, ?_⟩, ?_⟩
    · rw [length_append]
      omega
    · refine bind_ok.2 ⟨utf8Bytes s, rest, take_ok.2 ⟨rfl, rfl⟩, ?_⟩
      rw [fromUTF8_ok.2 rfl]
      rfl

theorem exact_string : Exact string reader.string := by
  constructor
  · intro s out out' h
    obtain ⟨_, t, hn, h⟩ := bind_ok.1 h
    obtain ⟨hlt, rfl⟩ := number_ok hn
    rw [push_ok.1 h, append_assoc]
    exact ⟨_, rfl, frames_string hlt⟩
  · intro input rest s h
    obtain ⟨n, t, hn, hbody⟩ := bind_ok.1 h
    obtain ⟨bytes, t', ht, hutf8⟩ := bind_ok.1 hbody
    obtain ⟨rfl, hlen⟩ := take_ok.1 ht
    cases hs : String.fromUTF8? ⟨bytes.toArray⟩ with
    | none =>
      rw [hs] at hutf8
      cases hutf8
    | some s' =>
      rw [hs] at hutf8
      obtain ⟨rfl, rfl⟩ := pure_ok.1 hutf8
      obtain rfl := fromUTF8_ok.1 hs
      subst hlen
      obtain ⟨length, rfl, hframes⟩ := exact_number.of_read ((count_ok _ _ _).1 hn).1
      obtain ⟨hlt, hlength⟩ := number_ok (hframes.written [])
      rw [nil_append, nil_append] at hlength
      subst hlength
      exact ⟨_, by rw [append_assoc], frames_string hlt⟩

theorem visible_string : Visible string := by
  intro s out out' h
  obtain ⟨_, t, hn, h⟩ := bind_ok.1 h
  have hlt := visible_number _ _ _ hn
  rw [push_ok.1 h, length_append]
  omega

theorem exact_nullable : Exact (fun b : Bool => push [if b then 1 else 0]) reader.nullable := by
  have hframes : ∀ b : Bool,
      Frames (fun b : Bool => push [if b then 1 else 0]) reader.nullable b [if b then 1 else 0] := by
    intro b
    refine ⟨fun out => rfl, fun rest => bind_ok.2 ⟨_, rest, byte_ok.2 rfl, ?_⟩⟩
    cases b <;> rfl
  constructor
  · intro b out out' h
    exact ⟨_, push_ok.1 h, hframes b⟩
  · intro input rest b h
    obtain ⟨k, t, hk, hbody⟩ := bind_ok.1 h
    obtain rfl := byte_ok.1 hk
    split at hbody
    · obtain ⟨rfl, rfl⟩ := pure_ok.1 hbody
      exact ⟨_, rfl, hframes false⟩
    · obtain ⟨rfl, rfl⟩ := pure_ok.1 hbody
      exact ⟨_, rfl, hframes true⟩
    · cases hbody

/-- The bytes of a column type. -/
def typeBytes : LogicalType → Bytes
  | .boolean => [1]
  | .int32 => [2]
  | .int64 => [3]
  | .uint32 => [4]
  | .float32 => [5]
  | .float64 => [6]
  | .text => [7]
  | .varchar none => [8]
  | .varchar (some n) => 9 :: u32Bytes n.get
  | .null => []

theorem frames_dataType {t : LogicalType} (h : t ≠ .null) : Frames dataType reader.dataType t (typeBytes t) := by
  cases t with
  | null => exact absurd rfl h
  | varchar limit =>
    cases limit with
    | none => exact ⟨fun out => rfl, fun rest => bind_ok.2 ⟨_, _, byte_ok.2 rfl, rfl⟩⟩
    | some n =>
      refine ⟨fun out => ?_, fun rest => bind_ok.2 ⟨_, _, byte_ok.2 rfl, ?_⟩⟩
      · refine bind_ok.2 ⟨(), _, rfl, ?_⟩
        rw [push_ok, append_assoc]
        rfl
      · refine bind_ok.2 ⟨_, rest, (frames_u32 n.get).read_back rest, ?_⟩
        rw [NonZeroU32.new_eq_some.2 rfl]
        rfl
  | _ => exact ⟨fun out => rfl, fun rest => bind_ok.2 ⟨_, _, byte_ok.2 rfl, rfl⟩⟩

theorem exact_dataType : Exact dataType reader.dataType := by
  constructor
  · intro t out out' h
    have hne : t ≠ .null := by
      rintro rfl
      cases h
    have hframes := frames_dataType hne
    rw [hframes.written out] at h
    cases h
    exact ⟨typeBytes t, rfl, hframes⟩
  · intro input rest t h
    obtain ⟨k, s, hk, hbody⟩ := bind_ok.1 h
    obtain rfl := byte_ok.1 hk
    split at hbody
    case h_9 =>
      obtain ⟨n, s', hn, hlast⟩ := bind_ok.1 hbody
      cases hlimit : NonZeroU32.new n with
      | none =>
        rw [hlimit] at hlast
        cases hlast
      | some limit =>
        rw [hlimit] at hlast
        obtain ⟨rfl, rfl⟩ := pure_ok.1 hlast
        obtain rfl := NonZeroU32.new_eq_some.1 hlimit
        obtain ⟨bytes, rfl, hframes⟩ := exact_u32.of_read hn
        have hbytes := hframes.written []
        rw [push_ok, nil_append, nil_append] at hbytes
        subst hbytes
        exact ⟨_, rfl, frames_dataType (by simp)⟩
    case h_10 => cases hbody
    all_goals
      obtain ⟨rfl, rfl⟩ := pure_ok.1 hbody
      exact ⟨_, rfl, frames_dataType (by simp)⟩

theorem exact_column : Exact column reader.column := by
  have h := exact_string.seq (exact_nullable.both exact_dataType)
    (m := fun name p => ColumnSchema.mk name p.2 p.1) (f := ColumnSchema.name)
    (g := fun c => (c.nullable, c.dataType)) (fun _ _ => rfl) (fun _ _ => rfl) (fun _ => rfl)
  simp only [bind_assoc, pure_bind] at h
  exact h

theorem visible_column : Visible column := by
  intro c out out' h
  obtain ⟨_, t, hname, h1⟩ := bind_ok.1 h
  obtain ⟨_, t', hnull, h2⟩ := bind_ok.1 h1
  obtain ⟨bytes, rfl, _⟩ := exact_dataType.of_write h2
  have hlt := visible_string _ _ _ hname
  rw [push_ok.1 hnull, length_append, length_append]
  omega

theorem exact_columns : Exact (fun cs => do number cs.length; writeAll column cs)
    (do let n ← reader.count; readMany reader.column n) :=
  exact_column.counted visible_column exact_number count_ok

theorem exact_indices : Exact (fun is => do number is.length; writeAll number is)
    (do let n ← reader.count; readMany reader.index n) :=
  exact_number.counted visible_number exact_number count_ok

theorem frames_constraint {c : TableConstraint} (h : Frames (fun is => do number is.length; writeAll number is)
      (do let n ← reader.count; readMany reader.index n) (constraintParts c).1 bytes) :
    Frames constraint reader.constraint c ((if (constraintParts c).2 then 1 else 2) :: bytes) := by
  constructor
  · intro out
    refine bind_ok.2 ⟨(), _, rfl, ?_⟩
    have hw := h.written (out ++ [if (constraintParts c).2 then 1 else 2])
    rw [append_assoc] at hw
    exact hw
  · intro rest
    obtain ⟨n, t, hn, hmany⟩ := bind_ok.1 (h.read_back rest)
    refine bind_ok.2 ⟨_, _, byte_ok.2 rfl, bind_ok.2 ⟨n, t, hn, bind_ok.2 ⟨_, rest, hmany, ?_⟩⟩⟩
    cases c <;> rfl

theorem exact_constraint : Exact constraint reader.constraint := by
  constructor
  · intro c out out' h
    obtain ⟨_, t, htag, hindices⟩ := bind_ok.1 h
    obtain ⟨bytes, rfl, hframes⟩ := exact_indices.of_write hindices
    rw [push_ok.1 htag, append_assoc]
    exact ⟨_, rfl, frames_constraint hframes⟩
  · intro input rest c h
    obtain ⟨tag, s, htag, h1⟩ := bind_ok.1 h
    obtain ⟨n, s', hn, h2⟩ := bind_ok.1 h1
    obtain ⟨is, s'', his, h3⟩ := bind_ok.1 h2
    obtain rfl := byte_ok.1 htag
    obtain ⟨bytes, rfl, hframes⟩ := exact_indices.of_read (bind_ok.2 ⟨n, s', hn, his⟩)
    split at h3
    · obtain ⟨rfl, rfl⟩ := pure_ok.1 h3
      exact ⟨_, rfl, frames_constraint (c := .primaryKey is) hframes⟩
    · obtain ⟨rfl, rfl⟩ := pure_ok.1 h3
      exact ⟨_, rfl, frames_constraint (c := .unique is) hframes⟩
    · cases h3

theorem visible_constraint : Visible constraint := by
  intro c out out' h
  obtain ⟨_, t, htag, h1⟩ := bind_ok.1 h
  obtain ⟨bytes, rfl, _⟩ := exact_indices.of_write h1
  rw [push_ok.1 htag, length_append, length_append, length_singleton]
  omega

theorem exact_constraints : Exact (fun cs => do number cs.length; writeAll constraint cs)
    (do let n ← reader.count; readMany reader.constraint n) :=
  exact_constraint.counted visible_constraint exact_number count_ok

theorem exact_fields : Exact fields reader.fields := by
  have h := exact_u32.seq (exact_string.both (exact_columns.both exact_constraints))
    (m := fun head p => Metadata.mk ⟨p.1, p.2.1⟩ head p.2.2) (f := Metadata.head)
    (g := fun m => (m.schema.name, m.schema.columns, m.constraints)) (fun _ _ => rfl) (fun _ _ => rfl)
    (fun _ => rfl)
  simp only [bind_assoc, pure_bind] at h
  exact h

/-! ## Whole records -/

variable {b : Bytes} {m : Metadata}

/-- What `encode` accepts, and the record it makes. -/
theorem encode_ok : encode m = .ok b ↔
    validate m = .ok () ∧ fields m TABLE = .ok ((), b) ∧ b.length ≤ HeapPage.MAX_TUPLE_SIZE := by
  unfold encode
  rw [except_bind_ok]
  constructor
  · rintro ⟨_, hvalid, h1⟩
    obtain ⟨⟨_, out⟩, hfields, h2⟩ := except_bind_ok.1 h1
    simp only at h2
    split at h2
    · cases h2
    · rename_i hle
      cases h2
      exact ⟨hvalid, hfields, Nat.not_lt.1 hle⟩
  · rintro ⟨hvalid, hfields, hle⟩
    refine ⟨(), hvalid, ok_then hfields ?_⟩
    simp only
    rw [if_neg (Nat.not_lt.2 hle)]
    rfl

theorem lift_ok {x : Except String Unit} : reader.lift x input = .ok ((), rest) ↔ x = .ok () ∧ rest = input := by
  cases x <;> simp [reader, Except.map, eq_comm]

/-- What `decode` accepts, and the metadata it returns. -/
theorem decode_ok :
    decode b = .ok m ↔ ∃ rest, b = TABLE ++ rest ∧ reader.fields rest = .ok (m, []) ∧ validate m = .ok () := by
  unfold decode
  rw [except_bind_ok]
  constructor
  · rintro ⟨⟨m', rest'⟩, hdecode, h1⟩
    cases h1
    obtain ⟨tag, rest, htag, h2⟩ := bind_ok.1 hdecode
    obtain ⟨rfl, _⟩ := take_ok.1 htag
    split at h2
    · cases h2
    · rename_i htable
      obtain ⟨m', rest'', hfields, h3⟩ := bind_ok.1 h2
      obtain ⟨_, _, hleft, h4⟩ := bind_ok.1 h3
      cases hleft
      split at h4
      · cases h4
      · rename_i hrest
        obtain ⟨_, _, hvalid, h5⟩ := bind_ok.1 h4
        obtain ⟨rfl, rfl⟩ := pure_ok.1 h5
        rw [not_not] at htable hrest
        rw [length_eq_zero_iff] at hrest
        subst htable hrest
        exact ⟨rest, rfl, hfields, (lift_ok.1 hvalid).1⟩
  · rintro ⟨rest, rfl, hfields, hvalid⟩
    have htag : Reader.take TABLE.length (TABLE ++ rest) = .ok (TABLE, rest) := take_ok.2 ⟨rfl, rfl⟩
    refine ⟨(m, []), bind_ok.2 ⟨TABLE, rest, htag, ?_⟩, rfl⟩
    rw [if_neg (by simp)]
    refine bind_ok.2 ⟨m, [], hfields, bind_ok.2 ⟨0, [], rfl, ?_⟩⟩
    exact bind_ok.2 ⟨(), [], lift_ok.2 ⟨hvalid, rfl⟩, rfl⟩

theorem decode_encode (h : encode m = .ok b) : decode b = .ok m := by
  obtain ⟨hvalid, hfields, _⟩ := encode_ok.1 h
  obtain ⟨bytes, rfl, hframes⟩ := exact_fields.of_write hfields
  have hread := hframes.read_back []
  rw [append_nil] at hread
  exact decode_ok.2 ⟨bytes, rfl, hread, hvalid⟩

/-- **Catalog records round-trip and are canonical.** -/
theorem records_round_trip :
    (∀ (m : Metadata) (b : Bytes), encode m = .ok b → decode b = .ok m) ∧
      ∀ (b : Bytes) (m : Metadata), b.length ≤ HeapPage.MAX_TUPLE_SIZE → decode b = .ok m →
        encode m = .ok b := by
  constructor
  · intro m b
    exact decode_encode
  · intro b m hle h
    obtain ⟨rest, rfl, hfields, hvalid⟩ := decode_ok.1 h
    obtain ⟨bytes, hbytes, hframes⟩ := exact_fields.of_read hfields
    rw [append_nil] at hbytes
    subst hbytes
    exact encode_ok.2 ⟨hvalid, hframes.written TABLE, hle⟩

/-- The record of a table with a key and a bounded text column. -/
def exampleRecord : Metadata where
  schema := ⟨"t", [⟨"x", .int32, false⟩, ⟨"y", .varchar (NonZeroU32.new 8), true⟩]⟩
  head := 3
  constraints := [.primaryKey [0]]

/-- The record of that table, in bytes. -/
def exampleBytes : Bytes :=
  TABLE ++ [3, 0, 0, 0] ++ [1, 0, 0, 0, 116] ++ [2, 0, 0, 0] ++
    [1, 0, 0, 0, 120, 0, 2] ++ [1, 0, 0, 0, 121, 1, 9, 8, 0, 0, 0] ++
    [1, 0, 0, 0] ++ [1, 1, 0, 0, 0, 0, 0, 0, 0]

theorem records_round_trip_example :
    encode exampleRecord = .ok exampleBytes ∧ decode exampleBytes = .ok exampleRecord := by
  have h : encode exampleRecord = .ok exampleBytes := by decide
  exact ⟨h, records_round_trip.1 _ _ h⟩

end Codec

end ChiliDB
