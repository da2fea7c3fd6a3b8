import Mathlib.Data.List.TakeWhile

/-!
# UTF-8

Bytes and the characters they encode, for scanners that look at bytes but only for ASCII.

* `encode` — the bytes of characters; `encode_toList` — those of a string.
* `Ascii p q` — a class of bytes and the class of characters that it stands for.
* `head_encode`, `drop_encode`, `takeWhile_encode`, `dropWhile_encode` — a scan of the bytes is one of the
  characters.
-/

namespace Utf8

open List

/-- The bytes of characters. -/
def encode (cs : List Char) : List UInt8 := cs.flatMap String.utf8EncodeChar

@[simp] theorem encode_nil : encode [] = [] := rfl

theorem encode_cons (c : Char) (cs : List Char) : encode (c :: cs) = String.utf8EncodeChar c ++ encode cs := by
  rw [encode, flatMap_cons]
  rfl

/-- The bytes of a string are those of its characters. -/
theorem encode_toList (s : String) : encode s.toList = s.toUTF8.data.toList := by
  have h : s.toList.utf8Encode = s.toUTF8 := by
    rw [← String.toByteArray_ofList, String.ofList_toList]
    rfl
  rw [← h, utf8Encode, data_toByteArray]
  rfl

@[simp] theorem encode_eq_nil {cs : List Char} : encode cs = [] ↔ cs = [] := by
  cases cs with
  | nil => simp
  | cons c cs => simp [encode_cons]

/-- An ASCII character is one byte. -/
theorem encodeChar_ascii {c : Char} (h : c.toNat < 128) : String.utf8EncodeChar c = [UInt8.ofNat c.toNat] := by
  have hle : c.val.toNat ≤ 127 := Nat.le_of_lt_succ h
  unfold String.utf8EncodeChar
  simp only [hle, if_true]
  rfl

/-- The bytes of another character are no ASCII bytes. -/
theorem encodeChar_other {c : Char} (h : 128 ≤ c.toNat) : ∀ b ∈ String.utf8EncodeChar c, 128 ≤ b.toNat := by
  have hgt : ¬ c.val.toNat ≤ 127 := Nat.not_le.2 h
  unfold String.utf8EncodeChar
  simp only [hgt, if_false]
  split
  · simp only [mem_cons, not_mem_nil, or_false, forall_eq_or_imp, forall_eq, UInt8.toNat_ofNat']
    omega
  split
  · simp only [mem_cons, not_mem_nil, or_false, forall_eq_or_imp, forall_eq, UInt8.toNat_ofNat']
    omega
  · simp only [mem_cons, not_mem_nil, or_false, forall_eq_or_imp, forall_eq, UInt8.toNat_ofNat']
    omega

/-- A class of bytes, and the class of characters that it stands for. -/
structure Ascii (p : UInt8 → Bool) (q : Char → Bool) : Prop where
  same : ∀ c : Char, c.toNat < 128 → p (UInt8.ofNat c.toNat) = q c
  byte : ∀ b : UInt8, 128 ≤ b.toNat → p b = false
  char : ∀ c : Char, 128 ≤ c.toNat → q c = false

variable {p : UInt8 → Bool} {q : Char → Bool}

/-- Classes that are given by the code. -/
theorem Ascii.of_code (code : Nat → Bool) (hcode : ∀ n, code n = true → n < 128) (hp : ∀ b, p b = code b.toNat)
    (hq : ∀ c, q c = code c.toNat) : Ascii p q where
  same c hc := by rw [hp, hq, UInt8.toNat_ofNat', Nat.mod_eq_of_lt (by omega)]
  byte b hb := by
    rw [hp, ← Bool.not_eq_true]
    exact fun h => absurd (hcode _ h) (by omega)
  char c hc := by
    rw [hq, ← Bool.not_eq_true]
    exact fun h => absurd (hcode _ h) (by omega)

/-- The class of one character. -/
theorem Ascii.one {a : Char} (ha : a.toNat < 128) : Ascii (fun b => b = a.toUInt8) (fun c => c = a) := by
  have hbyte : a.toUInt8.toNat = a.toNat := by
    show a.toNat % 256 = a.toNat
    omega
  refine .of_code (fun n => n = a.toNat) (fun n hn => ?_) (fun b => ?_) (fun c => ?_)
  · rw [of_decide_eq_true hn]
    exact ha
  · exact decide_eq_decide.2 (by rw [← UInt8.toNat_inj, hbyte])
  · exact decide_eq_decide.2 Char.toNat_inj.symm

theorem Ascii.or {p' : UInt8 → Bool} {q' : Char → Bool} (h : Ascii p q) (h' : Ascii p' q') :
    Ascii (fun b => p b || p' b) (fun c => q c || q' c) where
  same c hc := by rw [h.same c hc, h'.same c hc]
  byte b hb := by rw [h.byte b hb, h'.byte b hb, Bool.or_false]
  char c hc := by rw [h.char c hc, h'.char c hc, Bool.or_false]

/-- The two ways in which a text can go on. -/
theorem Ascii.cases (h : Ascii p q) (c : Char) :
    (∃ b, String.utf8EncodeChar c = [b] ∧ p b = q c) ∨
      ∃ b bs, String.utf8EncodeChar c = b :: bs ∧ p b = false ∧ q c = false := by
  by_cases hc : c.toNat < 128
  · exact .inl ⟨_, encodeChar_ascii hc, h.same c hc⟩
  · have hle : 128 ≤ c.toNat := Nat.le_of_not_lt hc
    obtain ⟨b, bs, hb⟩ := exists_cons_of_ne_nil (String.utf8EncodeChar_ne_nil (c := c))
    exact .inr ⟨b, bs, hb, h.byte b (encodeChar_other hle b (by simp [hb])), h.char c hle⟩

theorem Ascii.head_encode (h : Ascii p q) (cs : List Char) : (encode cs).head?.any p = cs.head?.any q := by
  cases cs with
  | nil => rfl
  | cons c cs =>
    rw [encode_cons]
    rcases h.cases c with ⟨b, hb, hbc⟩ | ⟨b, bs, hb, hfalse, hfalse'⟩
    · rw [hb]
      exact hbc
    · rw [hb]
      simp [hfalse, hfalse']

/-- A byte of the class is a whole character. -/
theorem Ascii.drop_encode (h : Ascii p q) {cs : List Char} (hcs : cs.head?.any q = true) :
    (encode cs).drop 1 = encode (cs.drop 1) := by
  cases cs with
  | nil => rfl
  | cons c cs =>
    rw [encode_cons]
    rcases h.cases c with ⟨b, hb, hbc⟩ | ⟨b, bs, hb, hfalse, hfalse'⟩
    · rw [hb]
      rfl
    · rw [head?_cons, Option.any_some, hfalse'] at hcs
      cases hcs

theorem Ascii.takeWhile_encode (h : Ascii p q) (cs : List Char) :
    ((encode cs).takeWhile p).length = (cs.takeWhile q).length := by
  induction cs with
  | nil => rfl
  | cons c cs ih =>
    rw [encode_cons]
    rcases h.cases c with ⟨b, hb, hbc⟩ | ⟨b, bs, hb, hfalse, hfalse'⟩
    · rw [hb, singleton_append, takeWhile_cons, takeWhile_cons, hbc]
      split
      · rw [length_cons, length_cons, ih]
      · rfl
    · rw [hb, cons_append, takeWhile_cons, takeWhile_cons, hfalse, hfalse']
      rfl

theorem Ascii.dropWhile_encode (h : Ascii p q) (cs : List Char) :
    (encode cs).dropWhile p = encode (cs.dropWhile q) := by
  induction cs with
  | nil => rfl
  | cons c cs ih =>
    rcases h.cases c with ⟨b, hb, hbc⟩ | ⟨b, bs, hb, hfalse, hfalse'⟩
    · rw [encode_cons, hb, singleton_append, dropWhile_cons, dropWhile_cons, hbc]
      split
      · exact ih
      · rw [encode_cons, hb]
        rfl
    · rw [dropWhile_cons_of_neg (by simp [hfalse']), encode_cons, hb, cons_append,
        dropWhile_cons_of_neg (by simp [hfalse])]

end Utf8
