import Mathlib.Data.List.Basic
import Mathlib.Algebra.GroupWithZero.Nat

/-!
# Byte formats

A reader takes bytes from the front of its input, a writer appends bytes to its output, and both may
refuse.

* `Frames write read a bytes` — `bytes` is what is written for `a`, and what is read as `a`, whatever
  stands before and after.
* `Exact write read` — everything that can be written is framed so, and everything that can be read is.
* `Exact.seq`, `Exact.both`, `Exact.counted` — the rules for one field after another and for a list behind
  its length.
* `Sized write size fits` — the number of bytes of a value, and which values are not refused; `Sized.field`,
  `Sized.seq`, `Sized.all` — the same rules.
-/

namespace Wire

open List

/-- Reads from the front of the input and leaves the rest. -/
abbrev Reader (ε α : Type) := StateT (List UInt8) (Except ε) α

/-- Appends to the output. -/
abbrev Writer (ε α : Type) := StateT (List UInt8) (Except ε) α

variable {ε α β γ : Type}

/-- `out.extend_from_slice(bytes)`. -/
def push (bytes : List UInt8) : Writer ε Unit := fun out => .ok ((), out ++ bytes)

variable {a : α} {s s' : List UInt8} {b : β}

theorem pure_ok {b : α} : (pure a : Reader ε α) s = .ok (b, s') ↔ b = a ∧ s' = s := by
  show (.ok (a, s) : Except ε (α × List UInt8)) = .ok (b, s') ↔ _
  simp [eq_comm]

theorem bind_ok {x : Reader ε α} {f : α → Reader ε β} :
    (x >>= f) s = .ok (b, s') ↔ ∃ a t, x s = .ok (a, t) ∧ f a t = .ok (b, s') := by
  show (x s >>= fun r => f r.1 r.2) = _ ↔ _
  cases hx : x s with
  | error e => simp [bind, Except.bind]
  | ok r =>
    obtain ⟨a, t⟩ := r
    simp [bind, Except.bind]

/-- The bytes of one value. -/
structure Frames (write : α → Writer ε Unit) (read : Reader ε α) (a : α) (bytes : List UInt8) : Prop where
  written : ∀ out, write a out = .ok ((), out ++ bytes)
  read_back : ∀ rest, read (bytes ++ rest) = .ok (a, rest)

/-- The writer and the reader are inverse to each other, on the values and on the bytes. -/
structure Exact (write : α → Writer ε Unit) (read : Reader ε α) : Prop where
  of_write : ∀ {a : α} {out out' : List UInt8}, write a out = .ok ((), out') →
    ∃ bytes, out' = out ++ bytes ∧ Frames write read a bytes
  of_read : ∀ {input rest : List UInt8} {a : α}, read input = .ok (a, rest) →
    ∃ bytes, input = bytes ++ rest ∧ Frames write read a bytes

variable {w1 : α → Writer ε Unit} {r1 : Reader ε α} {w2 : β → Writer ε Unit} {r2 : Reader ε β}

/-! ## One field after another -/

variable {f : γ → α} {bytes1 bytes2 : List UInt8} {m : α → β → γ} {g : γ → β}

theorem Frames.seq {c : γ} (h1 : Frames w1 r1 a bytes1) (h2 : Frames w2 r2 b bytes2) (hf : f c = a)
    (hg : g c = b) (hm : m a b = c) :
    Frames (fun c => do w1 (f c); w2 (g c)) (do let a ← r1; let b ← r2; pure (m a b)) c (bytes1 ++ bytes2) := by
  constructor
  · intro out
    refine bind_ok.2 ⟨(), out ++ bytes1, by rw [hf]; exact h1.written out, ?_⟩
    rw [hg, ← append_assoc]
    exact h2.written _
  · intro rest
    rw [append_assoc]
    refine bind_ok.2 ⟨a, bytes2 ++ rest, h1.read_back _, bind_ok.2 ⟨b, rest, h2.read_back _, ?_⟩⟩
    rw [hm]
    rfl

/-- A record of two fields, in the order of the format. -/
theorem Exact.seq (h1 : Exact w1 r1) (h2 : Exact w2 r2) (hf : ∀ a b, f (m a b) = a) (hg : ∀ a b, g (m a b) = b)
    (hm : ∀ c, m (f c) (g c) = c) :
    Exact (fun c => do w1 (f c); w2 (g c)) (do let a ← r1; let b ← r2; pure (m a b)) := by
  constructor
  · intro c out out' h
    obtain ⟨_, t, hw, h⟩ := bind_ok.1 h
    obtain ⟨bytes1, rfl, hf1⟩ := h1.of_write hw
    obtain ⟨bytes2, rfl, hf2⟩ := h2.of_write h
    exact ⟨bytes1 ++ bytes2, by rw [append_assoc], hf1.seq hf2 rfl rfl (hm c)⟩
  · intro input rest c h
    obtain ⟨a, t, hr, h⟩ := bind_ok.1 h
    obtain ⟨b, t', hr', h⟩ := bind_ok.1 h
    obtain ⟨rfl, rfl⟩ := pure_ok.1 h
    obtain ⟨bytes1, rfl, hf1⟩ := h1.of_read hr
    obtain ⟨bytes2, rfl, hf2⟩ := h2.of_read hr'
    exact ⟨bytes1 ++ bytes2, by rw [append_assoc], hf1.seq hf2 (hf a b) (hg a b) rfl⟩

theorem Exact.both (h1 : Exact w1 r1) (h2 : Exact w2 r2) :
    Exact (fun c : α × β => do w1 c.1; w2 c.2) (do let a ← r1; let b ← r2; pure (a, b)) :=
  h1.seq h2 (fun _ _ => rfl) (fun _ _ => rfl) (fun _ => rfl)

/-! ## Lists -/

/-- `for x in xs` over a writer. -/
def writeAll (write : α → Writer ε Unit) : List α → Writer ε Unit
  | [] => pure ()
  | a :: as => do
    write a
    writeAll write as

/-- `n` values, one after the other. -/
def readMany (read : Reader ε α) : Nat → Reader ε (List α)
  | 0 => pure []
  | n + 1 => do
    let a ← read
    let as ← readMany read n
    pure (a :: as)

/-- Every value takes at least one byte. -/
def Visible (write : α → Writer ε Unit) : Prop :=
  ∀ a out out', write a out = .ok ((), out') → out.length < out'.length

/-- The bytes of a list: as many values as it has, and at least as many bytes. -/
structure FramesAll (write : α → Writer ε Unit) (read : Reader ε α) (as : List α) (bytes : List UInt8) :
    Prop where
  written : ∀ out, writeAll write as out = .ok ((), out ++ bytes)
  read_back : ∀ rest, readMany read as.length (bytes ++ rest) = .ok (as, rest)
  length_le : as.length ≤ bytes.length

theorem FramesAll.nil : FramesAll w1 r1 [] [] := by
  refine ⟨fun out => ?_, fun rest => rfl, Nat.le_refl _⟩
  rw [append_nil]
  rfl

theorem FramesAll.cons {as : List α} (hv : Visible w1) (h1 : Frames w1 r1 a bytes1)
    (h2 : FramesAll w1 r1 as bytes2) : FramesAll w1 r1 (a :: as) (bytes1 ++ bytes2) := by
  refine ⟨fun out => ?_, fun rest => ?_, ?_⟩
  · refine bind_ok.2 ⟨(), out ++ bytes1, h1.written out, ?_⟩
    rw [← append_assoc]
    exact h2.written _
  · rw [append_assoc]
    exact bind_ok.2 ⟨a, bytes2 ++ rest, h1.read_back _, bind_ok.2 ⟨as, rest, h2.read_back _, rfl⟩⟩
  · have hpos := hv a [] _ (h1.written [])
    have hle := h2.length_le
    simp only [nil_append, length_nil] at hpos
    simp only [length_cons, length_append]
    omega

theorem Exact.writeAll (h : Exact w1 r1) (hv : Visible w1) : ∀ {as : List α} {out out' : List UInt8},
    writeAll w1 as out = .ok ((), out') → ∃ bytes, out' = out ++ bytes ∧ FramesAll w1 r1 as bytes
  | [], out, out', hw => by
    obtain ⟨_, rfl⟩ := pure_ok.1 hw
    exact ⟨[], by rw [append_nil], .nil⟩
  | a :: as, out, out', hw => by
    obtain ⟨_, t, hw1, hw2⟩ := bind_ok.1 hw
    obtain ⟨bytes1, rfl, hf1⟩ := h.of_write hw1
    obtain ⟨bytes2, rfl, hf2⟩ := Exact.writeAll h hv hw2
    exact ⟨bytes1 ++ bytes2, by rw [append_assoc], .cons hv hf1 hf2⟩

theorem Exact.readMany (h : Exact w1 r1) (hv : Visible w1) : ∀ {n : Nat} {as : List α}
    {input rest : List UInt8}, readMany r1 n input = .ok (as, rest) →
    ∃ bytes, input = bytes ++ rest ∧ as.length = n ∧ FramesAll w1 r1 as bytes
  | 0, as, input, rest, hr => by
    obtain ⟨rfl, rfl⟩ := pure_ok.1 hr
    exact ⟨[], rfl, rfl, .nil⟩
  | n + 1, as, input, rest, hr => by
    obtain ⟨a, t, hr1, hr⟩ := bind_ok.1 hr
    obtain ⟨as', t', hr2, hr⟩ := bind_ok.1 hr
    obtain ⟨rfl, rfl⟩ := pure_ok.1 hr
    obtain ⟨bytes1, rfl, hf1⟩ := h.of_read hr1
    obtain ⟨bytes2, rfl, hlen, hf2⟩ := Exact.readMany h hv hr2
    exact ⟨bytes1 ++ bytes2, by rw [append_assoc], by rw [length_cons, hlen], .cons hv hf1 hf2⟩

/-- **A list behind its length.**  The reader of the length may refuse one that exceeds the bytes left. -/
theorem Exact.counted {number : Nat → Writer ε Unit} {readNumber count : Reader ε Nat}
    (h : Exact w1 r1) (hv : Visible w1) (hnumber : Exact number readNumber)
    (hcount : ∀ input n rest, count input = .ok (n, rest) ↔
      readNumber input = .ok (n, rest) ∧ n ≤ rest.length) :
    Exact (fun as => do number as.length; Wire.writeAll w1 as) (do let n ← count; Wire.readMany r1 n) := by
  have hframes : ∀ {as bytes1 bytes2}, Frames number readNumber as.length bytes1 →
      FramesAll w1 r1 as bytes2 →
      Frames (fun as => do number as.length; Wire.writeAll w1 as)
        (do let n ← count; Wire.readMany r1 n) as (bytes1 ++ bytes2) := by
    intro as bytes1 bytes2 hf1 hf2
    constructor
    · intro out
      refine bind_ok.2 ⟨(), out ++ bytes1, hf1.written out, ?_⟩
      rw [← append_assoc]
      exact hf2.written _
    · intro rest
      have hle := hf2.length_le
      rw [append_assoc]
      refine bind_ok.2 ⟨as.length, bytes2 ++ rest, (hcount _ _ _).2 ⟨hf1.read_back _, ?_⟩, hf2.read_back _⟩
      rw [length_append]
      omega
  constructor
  · intro as out out' hw
    obtain ⟨_, t, hw1, hw2⟩ := bind_ok.1 hw
    obtain ⟨bytes1, rfl, hf1⟩ := hnumber.of_write hw1
    obtain ⟨bytes2, rfl, hf2⟩ := h.writeAll hv hw2
    exact ⟨bytes1 ++ bytes2, by rw [append_assoc], hframes hf1 hf2⟩
  · intro input rest as hr
    obtain ⟨n, t, hr1, hr2⟩ := bind_ok.1 hr
    obtain ⟨bytes1, rfl, hf1⟩ := hnumber.of_read ((hcount _ _ _).1 hr1).1
    obtain ⟨bytes2, rfl, rfl, hf2⟩ := h.readMany hv hr2
    exact ⟨bytes1 ++ bytes2, by rw [append_assoc], hframes hf1 hf2⟩

/-! ## Sizes -/

/-- What is written for `a` has `size a` bytes, and `a` is written if it fits. -/
structure Sized (write : α → Writer ε Unit) (size : α → Nat) (fits : α → Prop) : Prop where
  length : ∀ {a : α} {out out' : List UInt8}, write a out = .ok ((), out') →
    out'.length = out.length + size a
  writes : ∀ {a : α} (out : List UInt8), fits a → ∃ out', write a out = .ok ((), out')

variable {w w' : α → Writer ε Unit} {size size' : α → Nat} {fits fits' : α → Prop}

theorem sized_push (f : α → List UInt8) :
    Sized (fun a => (push (f a) : Writer ε Unit)) (fun a => (f a).length) (fun _ => True) := by
  refine ⟨fun h => ?_, fun out _ => ⟨_, rfl⟩⟩
  cases h
  rw [length_append]

/-- A field of a record. -/
theorem Sized.field (h : Sized w size fits) (f : β → α) :
    Sized (fun b => w (f b)) (fun b => size (f b)) (fun b => fits (f b)) :=
  ⟨h.length, fun out => h.writes out⟩

theorem Sized.seq (h : Sized w size fits) (h' : Sized w' size' fits') :
    Sized (fun a => do w a; w' a) (fun a => size a + size' a) (fun a => fits a ∧ fits' a) := by
  constructor
  · intro a out out' hw
    obtain ⟨_, t, hw1, hw2⟩ := bind_ok.1 hw
    have ht := h.length hw1
    have hout := h'.length hw2
    omega
  · intro a out hfits
    obtain ⟨t, hw1⟩ := h.writes out hfits.1
    obtain ⟨out', hw2⟩ := h'.writes t hfits.2
    exact ⟨out', bind_ok.2 ⟨(), t, hw1, hw2⟩⟩

theorem Sized.all (h : Sized w size fits) :
    Sized (writeAll w) (fun as => (as.map size).sum) (fun as => ∀ a ∈ as, fits a) := by
  constructor
  · intro as
    induction as with
    | nil =>
      intro out out' hw
      obtain ⟨_, rfl⟩ := pure_ok.1 hw
      simp
    | cons a as ih =>
      intro out out' hw
      obtain ⟨_, t, hw1, hw2⟩ := bind_ok.1 hw
      have ht := h.length hw1
      have hout := ih hw2
      simp only [map_cons, sum_cons]
      omega
  · intro as
    induction as with
    | nil => exact fun out _ => ⟨out, rfl⟩
    | cons a as ih =>
      intro out hfits
      obtain ⟨t, hw1⟩ := h.writes out (hfits a mem_cons_self)
      obtain ⟨out', hw2⟩ := ih t fun b hb => hfits b (mem_cons_of_mem a hb)
      exact ⟨out', bind_ok.2 ⟨(), t, hw1, hw2⟩⟩

end Wire
