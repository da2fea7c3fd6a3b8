import ChiliDB.Catalog.Codec
import ChiliDB.Lib.Fallible

/-!
# Self-delimiting records

The decoder of `crates/catalog/src/codec.rs` over a tape: what is left of the input, and the length of every
list at every `push`.  Here `split_at`, an index and `try_into().unwrap()` panic as they do in the source.

* `Tracks input m r P` — `m` answers as the reader `r` does, without a panic, with a value in `P`, and with no
  list longer than the input.
* `tracks_take`, `tracks_bind`, `tracks_pushMany` — the rules for the parts of the format.

Principal result: `records_self_delimiting`.
-/

namespace ChiliDB.Codec

open Effect Wire List

structure Tape where
  rest : Bytes
  /-- The lengths that lists had. -/
  allocated : List Nat

namespace Tape

variable {α β : Type}

def allocate (n : Nat) : Exec String Tape Unit := Exec.modify fun s => { s with allocated := n :: s.allocated }

/-- `split_at`. -/
def splitAt (n : Nat) (bytes : Bytes) : Result String (Bytes × Bytes) :=
  if n ≤ bytes.length then .ok (bytes.take n, bytes.drop n) else .error (.panic .bounds)

def take (n : Nat) : Exec String Tape Bytes := do
  let s ← Exec.get
  if n > s.rest.length then Exec.fail "truncated metadata" else do
    let parts ← Exec.lift (splitAt n s.rest)
    Exec.modify fun s => { s with rest := parts.2 }
    pure parts.1

/-- The loops that read a value and push it. -/
def pushMany (read : Exec String Tape α) : Nat → List α → Exec String Tape (List α)
  | 0, values => pure values
  | n + 1, values => do
    let a ← read
    allocate (values ++ [a]).length
    pushMany read n (values ++ [a])

def io : Input (Exec String Tape) where
  take := take
  left := do
    let s ← Exec.get
    pure s.rest.length
  get := fun bytes i => Exec.lift (Result.index bytes i)
  array := fun n bytes => Exec.lift (Result.assert (bytes.length = n))
  allocate := allocate
  many := fun read n => pushMany read n []
  lift := fun r => Exec.lift (Result.ofExcept r)

def decode : Exec String Tape Metadata := io.decode

/-! ## The rules -/

/-- Nothing before the input is read again, nothing behind it, and no list is longer than it. -/
structure Within (input : Bytes) (s : Tape) : Prop where
  suffix : s.rest <:+ input
  bounded : ∀ n ∈ s.allocated, n ≤ input.length

def Tracks (input : Bytes) (m : Exec String Tape α) (r : Wire.Reader String α) (P : α → Prop) : Prop :=
  ∀ s, Within input s →
    m.Ensures s (fun a s' => r s.rest = .ok (a, s'.rest) ∧ P a ∧ Within input s')
      (fun f s' => ∃ e, f = .error e ∧ r s.rest = .error e ∧ Within input s')

variable {input : Bytes} {P : α → Prop} {Q : β → Prop}

theorem tracks_pure {a : α} (h : P a) : Tracks input (pure a) (pure a) P := by
  intro s hs
  exact ⟨rfl, h, hs⟩

theorem tracks_fail (e : String) : Tracks input (io.fail e) (reader.fail e) P := by
  intro s hs
  exact ⟨e, rfl, rfl, hs⟩

theorem tracks_lift (x : Except String α) : Tracks input (io.lift x) (reader.lift x) fun _ => True := by
  intro s hs
  cases x with
  | ok a => exact ⟨rfl, trivial, hs⟩
  | error e => exact ⟨e, rfl, rfl, hs⟩

/-- What is left is part of the input. -/
theorem tracks_left : Tracks input io.left reader.left fun n => n ≤ input.length := by
  intro s hs
  exact ⟨rfl, hs.suffix.length_le, hs⟩

variable {r : Wire.Reader String α}

theorem tracks_bind {m : Exec String Tape α} {f : α → Exec String Tape β} {g : α → Wire.Reader String β}
    (hm : Tracks input m r P) (hf : ∀ a, P a → Tracks input (f a) (g a) Q) :
    Tracks input (m >>= f) (r >>= g) Q := by
  intro s hs
  refine .bind ((hm s hs).mono ?_ ?_)
  · rintro a s' ⟨hr, ha, hs'⟩
    have hbind : (r >>= g) s.rest = g a s'.rest := by
      show (r s.rest >>= fun p => g p.1 p.2) = _
      rw [hr]
      rfl
    rw [hbind]
    exact hf a ha s' hs'
  · rintro f s' ⟨e, rfl, hr, hs'⟩
    refine ⟨e, rfl, ?_, hs'⟩
    show (r s.rest >>= fun p => g p.1 p.2) = _
    rw [hr]
    rfl

/-- A step that no reader sees. -/
theorem tracks_quiet {m : Exec String Tape Unit} {f : Unit → Exec String Tape α}
    (hm : Tracks input m (pure ()) fun _ => True) (hf : Tracks input (f ()) r P) :
    Tracks input (m >>= f) r P := by
  have h := tracks_bind (g := fun _ => r) hm fun _ _ => hf
  rwa [pure_bind] at h

theorem tracks_allocate {n : Nat} (h : n ≤ input.length) : Tracks input (allocate n) (pure ()) fun _ => True := by
  intro s hs
  exact ⟨rfl, trivial, hs.suffix, forall_mem_cons.2 ⟨h, hs.bounded⟩⟩

theorem tracks_assert {b : Bool} (h : b = true) : Tracks input (.lift (.assert b)) (pure ()) fun _ => True := by
  subst h
  intro s hs
  exact ⟨rfl, trivial, hs⟩

theorem tracks_take (n : Nat) :
    Tracks input (take n) (Reader.take n) fun bytes => bytes.length = n ∧ n ≤ input.length := by
  intro s hs
  by_cases hn : n > s.rest.length
  · have hm : take n s = (.error (.error "truncated metadata"), s) := by
      simp only [take, Exec.bind_run, Exec.get_run, if_pos hn, Exec.fail_run]
    refine Exec.ensures_iff.2 ⟨fun a s' h => ?_, fun f s' h => ?_⟩
    · rw [hm] at h
      cases h
    · rw [hm] at h
      cases h
      exact ⟨_, rfl, if_pos hn, hs⟩
  · have hle : n ≤ s.rest.length := by omega
    have hm : take n s = (.ok (s.rest.take n), { s with rest := s.rest.drop n }) := by
      simp only [take, splitAt, Exec.bind_run, Exec.get_run, if_neg hn, if_pos hle, Exec.lift_run, Exec.modify_run,
        Exec.pure_run]
    refine Exec.ensures_of_ok hm ⟨if_neg hn, ⟨length_take_of_le hle, ?_⟩, ?_, hs.bounded⟩
    · exact Nat.le_trans hle hs.suffix.length_le
    · exact (drop_suffix n s.rest).trans hs.suffix

theorem tracks_byte : Tracks input io.byte reader.byte fun _ => True := by
  refine tracks_bind (tracks_take 1) ?_
  rintro bytes ⟨hlen, _⟩
  obtain ⟨b, rfl⟩ := length_eq_one_iff.1 hlen
  exact tracks_pure trivial

theorem tracks_number : Tracks input io.number reader.number fun _ => True := by
  refine tracks_bind (tracks_take 4) ?_
  rintro bytes ⟨hlen, _⟩
  exact tracks_quiet (tracks_assert (decide_eq_true hlen)) (tracks_pure trivial)

theorem tracks_index : Tracks input io.index reader.index fun _ => True :=
  tracks_bind tracks_number fun _ _ => tracks_pure trivial

/-- A count is at most what is left. -/
theorem tracks_count : Tracks input io.count reader.count fun n => n ≤ input.length := by
  refine tracks_bind tracks_number fun n _ => tracks_bind tracks_left fun left hleft => ?_
  split
  · exact tracks_fail _
  · exact tracks_pure (by omega)

theorem tracks_string : Tracks input io.string reader.string fun _ => True := by
  refine tracks_bind tracks_count fun n _ => tracks_bind (tracks_take n) ?_
  rintro bytes ⟨hlen, hle⟩
  refine tracks_quiet (tracks_allocate (by omega)) ?_
  cases String.fromUTF8? ⟨bytes.toArray⟩ with
  | none => exact tracks_fail _
  | some s => exact tracks_pure trivial

/-- `n` more values behind those that were pushed. -/
theorem tracks_pushMany {r : Reader String α} (hm : Tracks input m r fun _ => True) :
    ∀ (n : Nat) (values : List α), values.length + n ≤ input.length →
      Tracks input (pushMany m n values) (readMany r n >>= fun more => pure (values ++ more)) fun _ => True
  | 0, values, _ => by
    have h : Tracks input (pure values) (pure (values ++ [])) fun _ => True := by
      rw [append_nil]
      exact tracks_pure trivial
    exact h
  | n + 1, values, hle => by
    have hreader : (readMany r (n + 1) >>= fun more => pure (values ++ more)) =
        r >>= fun a => readMany r n >>= fun more => pure (values ++ [a] ++ more) := by
      simp [readMany]
    rw [hreader]
    refine tracks_bind hm fun a _ => ?_
    have hlen : (values ++ [a]).length = values.length + 1 := by simp
    exact tracks_quiet (tracks_allocate (by omega)) (tracks_pushMany hm n _ (by omega))

theorem tracks_counted {f : List α → Exec String Tape β}
    {g : List α → Reader String β} (hm : Tracks input m r fun _ => True)
    (hf : ∀ values, Tracks input (f values) (g values) Q) :
    Tracks input (io.count >>= fun n => io.many m n >>= f)
      (reader.count >>= fun n => reader.many r n >>= g) Q := by
  refine tracks_bind tracks_count fun n hn => ?_
  have h := tracks_pushMany hm n [] (by simpa using hn)
  simp only [nil_append, bind_pure] at h
  exact tracks_bind h fun values _ => hf values

theorem tracks_nullable : Tracks input io.nullable reader.nullable fun _ => True := by
  refine tracks_bind tracks_byte fun b _ => ?_
  split
  · exact tracks_pure trivial
  · exact tracks_pure trivial
  · exact tracks_fail _

theorem tracks_dataType : Tracks input io.dataType reader.dataType fun _ => True := by
  refine tracks_bind tracks_byte fun b _ => ?_
  split
  case h_9 =>
    refine tracks_bind tracks_number fun n _ => ?_
    cases NonZeroU32.new n with
    | none => exact tracks_fail _
    | some n => exact tracks_pure trivial
  case h_10 => exact tracks_fail _
  all_goals exact tracks_pure trivial

theorem tracks_column : Tracks input io.column reader.column fun _ => True :=
  tracks_bind tracks_string fun _ _ => tracks_bind tracks_nullable fun _ _ =>
    tracks_bind tracks_dataType fun _ _ => tracks_pure trivial

theorem tracks_constraint : Tracks input io.constraint reader.constraint fun _ => True := by
  refine tracks_bind tracks_byte fun tag _ => tracks_counted tracks_index fun indices => ?_
  split
  · exact tracks_pure trivial
  · exact tracks_pure trivial
  · exact tracks_fail _

theorem tracks_fields : Tracks input io.fields reader.fields fun _ => True :=
  tracks_bind tracks_number fun _ _ => tracks_bind tracks_string fun _ _ =>
    tracks_counted tracks_column fun _ => tracks_counted tracks_constraint fun _ => tracks_pure trivial

theorem tracks_decode : Tracks input decode reader.decode fun _ => True := by
  refine tracks_bind (tracks_take _) fun tag _ => ?_
  split
  · exact tracks_fail _
  · refine tracks_bind tracks_fields fun m _ => tracks_bind tracks_left fun left _ => ?_
    split
    · exact tracks_fail _
    · exact tracks_bind (tracks_lift (validate m)) fun _ _ => tracks_pure trivial

/-- The decoder over the tape gives the answer of `decode`. -/
theorem decode_tracks (bytes : Bytes) : ∃ s, Within bytes s ∧
    decode ⟨bytes, []⟩ = (Result.ofExcept (Codec.decode bytes), s) := by
  have h := tracks_decode ⟨bytes, []⟩ ⟨suffix_refl bytes, by simp⟩
  rcases hm : decode ⟨bytes, []⟩ with ⟨answer, s⟩
  unfold Codec.decode
  cases answer with
  | ok m =>
    obtain ⟨hdecode, _, hs⟩ := h.ok hm
    exact ⟨s, hs, by rw [hdecode]; rfl⟩
  | error f =>
    obtain ⟨e, rfl, hdecode, hs⟩ := h.error hm
    exact ⟨s, hs, by rw [hdecode]; rfl⟩

end Tape

/-! ## Prefixes and extensions -/

/-- The fields end where they end, whatever stands behind them. -/
theorem decode_append {bytes more : Bytes} {m : Metadata} (h : decode bytes = .ok m) (hmore : more ≠ []) :
    ∃ e, decode (bytes ++ more) = .error e := by
  obtain ⟨rest, rfl, hfields, _⟩ := decode_ok.1 h
  obtain ⟨framed, hframed, hframes⟩ := exact_fields.of_read hfields
  rw [append_nil] at hframed
  subst hframed
  cases hmore' : decode (TABLE ++ rest ++ more) with
  | error e => exact ⟨e, rfl⟩
  | ok m' =>
    obtain ⟨rest', heq, hfields', _⟩ := decode_ok.1 hmore'
    rw [append_assoc, append_cancel_left_eq] at heq
    rw [← heq, hframes.read_back more] at hfields'
    cases hfields'
    exact absurd rfl hmore

/-- **Records delimit themselves.**  No strict prefix and no strict extension of a record is a record, and no
record is the manifest.  On every input the decoder stays within the input: it never indexes or splits past
the end, what is left is always a suffix, and no list it builds is longer than the input. -/
theorem records_self_delimiting (bytes : Bytes) :
    (∀ m, decode bytes = .ok m →
      (∀ part, part <+: bytes → part ≠ bytes → ∃ e, decode part = .error e) ∧
      (∀ whole, bytes <+: whole → bytes ≠ whole → ∃ e, decode whole = .error e) ∧ bytes ≠ MANIFEST) ∧
    ∃ s, Tape.decode ⟨bytes, []⟩ = (Result.ofExcept (decode bytes), s) ∧ s.rest <:+ bytes ∧
      ∀ n ∈ s.allocated, n ≤ bytes.length := by
  constructor
  · intro m hm
    refine ⟨?_, ?_, ?_⟩
    · rintro part ⟨more, rfl⟩ hne
      cases hpart : decode part with
      | error e => exact ⟨e, rfl⟩
      | ok m' =>
        have hmore : more ≠ [] := by
          rintro rfl
          exact hne (append_nil part).symm
        obtain ⟨e, he⟩ := decode_append hpart hmore
        rw [hm] at he
        cases he
    · rintro whole ⟨more, rfl⟩ hne
      refine decode_append hm ?_
      rintro rfl
      exact hne (append_nil bytes).symm
    · rintro rfl
      have hmanifest : decode MANIFEST = .error "unknown catalog record or version" := rfl
      rw [hmanifest] at hm
      cases hm
  · obtain ⟨s, hs, hdecode⟩ := Tape.decode_tracks bytes
    exact ⟨s, hdecode, hs.suffix, hs.bounded⟩

end ChiliDB.Codec
