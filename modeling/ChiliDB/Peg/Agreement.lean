import ChiliDB.Peg.Parser
import ChiliDB.Peg.Total

/-!
# Generated parsers agree with the semantics

A generated parser makes the calls of the unlimited semantics, in their order, until one of them exceeds a
limit; from then on it is limited and fails all the way out.

* `spend` — the calls of a trace, each charged to the budget; it stops at the first that exceeds a limit.
* `Follows`, `FollowsBody` — a generated function does what the semantics says if the budget suffices, and
  is limited with the right message if not.
* `run_follows` — all of them do.

Principal result: `parser_agrees_with_semantics`.
-/

namespace ChiliDB.Peg

open List

variable {debug : Debug} {rules : List Rule} {names : Names}

/-! ## Messages -/

/-- Not one of the two limit messages. -/
def Ordinary (message : String) : Prop := message ≠ recursionLimit ∧ message ≠ workLimit

variable {a : Char} {error : ParseError}

theorem ordinary_of_head {message : String} (h : message.toList.head? = some a) (hr : a ≠ 'r') (hw : a ≠ 'w') :
    Ordinary message := by
  constructor
  · rintro rfl
    cases h
    exact hr rfl
  · rintro rfl
    cases h
    exact hw rfl

theorem ordinary_litText (s : String) (insensitive : Bool) : Ordinary (litText debug s insensitive) := by
  refine ordinary_of_head (a := '"') ?_ (by decide) (by decide)
  unfold litText
  rw [String.toList_append]
  rfl

theorem ordinary_classText (ranges : List (Char × Char)) (negated : Bool) :
    Ordinary (classText debug ranges negated) := by
  unfold classText
  cases negated with
  | true =>
    refine ordinary_of_head (a := 'n') ?_ (by decide) (by decide)
    rw [String.toList_append]
    rfl
  | false =>
    refine ordinary_of_head (a := 'c') ?_ (by decide) (by decide)
    rw [String.toList_append]
    rfl

/-- An error that names no limit. -/
def ParseError.Ordinary (error : ParseError) : Prop := ∀ message ∈ error.expected, Peg.Ordinary message

variable {expected : String}

theorem ordinary_add (h : error.Ordinary) (hexpected : Ordinary expected) : (error.add expected).Ordinary := by
  unfold ParseError.add
  split
  · exact h
  · intro message hm
    rcases mem_append.1 hm with hm | hm
    · exact h message hm
    · rw [mem_singleton.1 hm]
      exact hexpected

theorem ordinary_advance (h : error.Ordinary) (pos : Nat) : (error.advance pos).Ordinary := by
  unfold ParseError.advance
  split
  · exact fun _ hm => by cases hm
  · exact h

theorem ordinary_expect {s : State} (h : s.error.Ordinary) (hexpected : Ordinary expected) :
    (s.expect expected).error.Ordinary := by
  unfold State.expect
  split
  · exact h
  · exact ordinary_add (ordinary_advance h _) hexpected

/-! ## Terminals -/

theorem utf8Size_toLower (a : Char) : a.toLower.utf8Size = a.utf8Size := by
  unfold Char.toLower
  split
  · rename_i h
    have ha : a.utf8Size = 1 := by
      unfold Char.utf8Size
      rw [if_pos (UInt32.le_trans h.2 (by decide))]
    rw [ha]
    unfold Char.utf8Size
    rw [if_pos]
    obtain ⟨_, hz⟩ := h
    rw [UInt32.le_iff_toNat_le] at hz ⊢
    rw [UInt32.toNat_add]
    have hstep : ('a'.val - 'A'.val).toNat = 32 := rfl
    have hlast : 'Z'.val.toNat = 90 := rfl
    change _ ≤ 127
    omega
  · rfl

/-- The tests that have names of their own test the same range. -/
theorem inRange_eq (r : Char × Char) (c : Char) : inRange r c = decide (r.1 ≤ c ∧ c ≤ r.2) := by
  unfold inRange
  rw [Bool.decide_and]
  split
  · rename_i h
    rw [h]
    rfl
  · split
    · rename_i h
      rw [h, ← Bool.decide_and]
      rfl
    · split
      · rename_i h
        rw [h]
        rfl
      · rfl

theorem sameChar_utf8Size {insensitive : Bool} {b : Char} (h : sameChar insensitive a b = true) :
    a.utf8Size = b.utf8Size := by
  unfold sameChar at h
  cases insensitive with
  | true =>
    have heq : a.toLower = b.toLower := of_decide_eq_true h
    rw [← utf8Size_toLower a, heq, utf8Size_toLower b]
  | false =>
    have heq : a = b := of_decide_eq_true h
    rw [heq]

/-- The comparison of a slice with a literal. -/
def sameText (insensitive : Bool) (part text : List Char) : Bool :=
  if insensitive then eqIgnoreAsciiCase part text else part = text

theorem sameText_cons (insensitive : Bool) (a b : Char) (as bs : List Char) :
    sameText insensitive (b :: bs) (a :: as) = (sameChar insensitive a b && sameText insensitive bs as) := by
  cases insensitive with
  | true => simp [sameText, sameChar, eqIgnoreAsciiCase, eq_comm]
  | false => simp [sameText, sameChar, eq_comm]

/-- Comparing a slice of bytes is comparing character by character. -/
theorem matchText_eq (insensitive : Bool) : ∀ (as : List Char) (c : Cursor),
    matchText insensitive as c = (splitBytes (bytes as) c.rest).bind fun r =>
        if sameText insensitive r.1 as then some ⟨c.pos + bytes as, r.2⟩ else none
  | [], c => by
    have hsame : sameText insensitive [] [] = true := by cases insensitive <;> rfl
    simp [matchText, bytes, splitBytes, hsame]
  | a :: as, ⟨pos, []⟩ => by
    obtain ⟨n, hn⟩ : ∃ n, bytes (a :: as) = n + 1 :=
      Nat.exists_eq_add_one.2 (Nat.lt_of_lt_of_le (Char.utf8Size_pos a) (by simp [bytes]))
    simp [matchText, hn, splitBytes]
  | a :: as, ⟨pos, b :: rest⟩ => by
    obtain ⟨n, hn⟩ : ∃ n, bytes (a :: as) = n + 1 :=
      Nat.exists_eq_add_one.2 (Nat.lt_of_lt_of_le (Char.utf8Size_pos a) (by simp [bytes]))
    have hsum : bytes (a :: as) = a.utf8Size + bytes as := by simp [bytes]
    unfold matchText
    split
    · rename_i hsame
      have hsize := sameChar_utf8Size hsame
      rw [matchText_eq insensitive as, hn]
      simp only [splitBytes]
      rw [if_pos (by omega), show n + 1 - b.utf8Size = bytes as by omega, Option.bind_map]
      congr 1
      funext r
      simp only [Function.comp, sameText_cons, hsame, Bool.true_and]
      rw [show pos + b.utf8Size + bytes as = pos + (n + 1) by omega]
    · rename_i hsame
      rw [hn]
      simp only [splitBytes]
      split
      · rw [Option.bind_map]
        symm
        rw [Option.bind_eq_none_iff]
        intro r _
        simp [sameText_cons, hsame]
      · rfl

theorem literal_eq (text : String) (insensitive : Bool) (s : State) :
    literal debug text insensitive s = match matchText insensitive text.toList s.cursor with
      | some c => (true, { s with cursor := c })
      | none => (false, s.expect (litText debug text insensitive)) := by
  rw [matchText_eq]
  unfold literal
  cases splitBytes (bytes text.toList) s.cursor.rest with
  | none => rfl
  | some r =>
    change (if sameText insensitive r.1 text.toList then _ else _) = _
    rw [Option.bind_some]
    cases sameText insensitive r.1 text.toList <;> rfl

theorem character_eq (p : Char → Bool) (expected : String) (s : State) :
    character p expected s = match matchChar p s.cursor with
      | some c => (true, { s with cursor := c })
      | none => (false, s.expect expected) := by
  unfold character
  obtain ⟨⟨pos, rest⟩, nodes, error, depth, limited, fuel, suppressed⟩ := s
  cases rest with
  | nil => rfl
  | cons c rest =>
    simp only [matchChar]
    split <;> rfl

/-! ## The budget -/

/-- What is left of the fuel after the calls of a trace, or the limit that is hit and where. -/
def spend : Nat → List Event → Except (String × Nat) Nat
  | fuel, [] => .ok fuel
  | fuel, event :: t =>
    if event.depth ≥ 512 then .error (recursionLimit, event.pos)
    else if event.isExpr then
      if fuel = 0 then .error (workLimit, event.pos) else spend (fuel - 1) t
    else spend fuel t

theorem spend_append (t t' : List Event) : ∀ fuel,
    spend fuel (t ++ t') = spend fuel t >>= fun left => spend left t' := by
  induction t with
  | nil => exact fun fuel => rfl
  | cons event t ih =>
    intro fuel
    simp only [cons_append, spend]
    split
    · rfl
    · split
      · split
        · rfl
        · exact ih _
      · exact ih _

variable {fuel d : Nat} {e : Expr} {c : Cursor}

theorem spend_append_ok {left : Nat} {t : List Event} (h : spend fuel t = .ok left) (t' : List Event) :
    spend fuel (t ++ t') = spend left t' := by
  rw [spend_append, h]
  rfl

variable {lim : String × Nat}

theorem spend_append_error {t : List Event} (h : spend fuel t = .error lim) (t' : List Event) :
    spend fuel (t ++ t') = .error lim := by
  rw [spend_append, h]
  rfl

theorem spend_le {t : List Event} : ∀ {fuel left : Nat}, spend fuel t = .ok left → left ≤ fuel := by
  induction t with
  | nil =>
    intro fuel left h
    cases h
    exact Nat.le_refl _
  | cons event t ih =>
    intro fuel left h
    simp only [spend] at h
    split at h
    · cases h
    · split at h
      · split at h
        · cases h
        · have := ih h
          omega
      · exact ih h

/-- The call of an expression takes fuel. -/
theorem Eval.expr_spends {t : List Event} {r : Outcome} (h : Eval rules names d (.expr e) c t r) {left : Nat}
    (hspend : spend fuel t = .ok left) : left < fuel := by
  obtain ⟨t', rfl⟩ : ∃ t', t = ⟨true, d, c.pos⟩ :: t' := by cases h <;> exact ⟨_, rfl⟩
  simp only [spend, ↓reduceIte] at hspend
  split at hspend
  · cases hspend
  · split at hspend
    · cases hspend
    · have := spend_le hspend
      omega

/-! ## Functions -/

/-- What a function leaves as it was. -/
structure Kept (s : State) (left : Nat) (s' : State) : Prop where
  depth : s'.depth = s.depth
  limited : s'.limited = false
  fuel : s'.fuel = left
  suppressed : s'.suppressedErrors = s.suppressedErrors
  ordinary : s.error.Ordinary → s'.error.Ordinary

/-- What the body of a function does within the limits.  It restores nothing when it fails. -/
structure Ended (s : State) (left : Nat) (r : Outcome) (out : Bool × State) : Prop
    extends Kept s left out.2 where
  ok : out.1 = r.isSome
  matched : ∀ {m : Cursor × List Node}, r = some m → out.2.cursor = m.1 ∧ out.2.nodes = s.nodes ++ m.2
  nodes : s.nodes <+: out.2.nodes

/-- What a function does within the limits. -/
structure Returned (s : State) (left : Nat) (r : Outcome) (out : Bool × State) : Prop
    extends Ended s left r out where
  restored : r = none → out.2.cursor = s.cursor ∧ out.2.nodes = s.nodes

/-- The parser is limited. -/
structure Stopped (lim : String × Nat) (out : Bool × State) : Prop where
  failed : out.1 = false
  limited : out.2.limited = true
  error : out.2.error = ⟨lim.2, [lim.1]⟩

/-- A body does what the semantics says, or hits the limit that the trace hits. -/
structure FollowsBody (s : State) (t : List Event) (r : Outcome) (out : Bool × State) : Prop where
  ended : ∀ {left : Nat}, spend s.fuel t = .ok left → Ended s left r out
  stopped : ∀ {lim : String × Nat}, spend s.fuel t = .error lim → Stopped lim out

/-- A function does what the semantics says, or hits the limit that the trace hits. -/
structure Follows (s : State) (t : List Event) (r : Outcome) (out : Bool × State) : Prop where
  returned : ∀ {left : Nat}, spend s.fuel t = .ok left → Returned s left r out
  stopped : ∀ {lim : String × Nat}, spend s.fuel t = .error lim → Stopped lim out

variable {s s' : State} {t t' : List Event} {r r' : Outcome} {out : Bool × State} {left : Nat}

theorem Follows.body (h : Follows s t r out) : FollowsBody s t r out :=
  ⟨fun hspend => (h.returned hspend).toEnded, h.stopped⟩

theorem FollowsBody.of_stopped (hspend : spend s.fuel t = .error lim) (h : Stopped lim out) :
    FollowsBody s t r out := by
  constructor
  · intro left hleft
    rw [hspend] at hleft
    cases hleft
  · intro lim' hlim
    rw [hspend] at hlim
    cases hlim
    exact h

theorem Kept.trans {left' : Nat} {s'' : State} (h : Kept s left s') (h' : Kept s' left' s'') :
    Kept s left' s'' := by
  constructor
  · rw [h'.depth, h.depth]
  · exact h'.limited
  · exact h'.fuel
  · rw [h'.suppressed, h.suppressed]
  · exact fun ho => h'.ordinary (h.ordinary ho)

variable {ns : List Node} {call : Calls}

/-- A body that goes on after a call. -/
theorem FollowsBody.after (hspend : spend s.fuel t = .ok left) (hkept : Kept s left s')
    (hnodes : s'.nodes = s.nodes ++ ns) (h : FollowsBody s' t' r out) :
    FollowsBody s (t ++ t') (r.map (behind ns)) out := by
  have hsum : spend s.fuel (t ++ t') = spend s'.fuel t' := by rw [spend_append_ok hspend, hkept.fuel]
  constructor
  · intro left' hleft
    rw [hsum] at hleft
    have hended := h.ended hleft
    refine ⟨hkept.trans hended.toKept, ?_, ?_, ?_⟩
    · rw [hended.ok, Option.isSome_map]
    · intro m hm
      obtain ⟨m', rfl, rfl⟩ := Option.map_eq_some_iff.1 hm
      obtain ⟨hcursor, hns⟩ := hended.matched rfl
      refine ⟨hcursor, ?_⟩
      rw [hns, hnodes, append_assoc]
      rfl
    · exact (hnodes ▸ prefix_append s.nodes ns).trans hended.nodes
  · intro lim hlim
    rw [hsum] at hlim
    exact h.stopped hlim

/-- The frame of an expression: it is charged before the body runs and restores the state if that fails. -/
theorem follows_exprFn (hlimited : s.limited = false) (hbody : s.depth < 512 → s.fuel ≠ 0 →
      FollowsBody { s with fuel := s.fuel - 1, depth := s.depth + 1 } t r
        (body debug names call e s.cursor s.nodes.length { s with fuel := s.fuel - 1, depth := s.depth + 1 })) :
    Follows s (⟨true, s.depth, s.cursor.pos⟩ :: t) r (exprFn debug names call e s) := by
  unfold exprFn
  rw [if_neg (by rw [hlimited]; decide)]
  by_cases hdepth : s.depth ≥ 512
  · rw [if_pos hdepth]
    constructor <;> intro x hx <;> simp only [spend, if_pos hdepth] at hx <;> cases hx
    exact ⟨rfl, rfl, rfl⟩
  rw [if_neg hdepth]
  by_cases hfuel : s.fuel = 0
  · rw [if_pos hfuel]
    constructor <;> intro x hx <;> simp only [spend, if_neg hdepth, if_pos hfuel, ↓reduceIte] at hx <;>
      cases hx
    exact ⟨rfl, rfl, rfl⟩
  rw [if_neg hfuel]
  have hspend : spend s.fuel (⟨true, s.depth, s.cursor.pos⟩ :: t) = spend (s.fuel - 1) t := by
    simp only [spend, if_neg hdepth, if_neg hfuel, ↓reduceIte]
  have h := hbody (by omega) hfuel
  generalize body debug names call e s.cursor s.nodes.length
    { s with fuel := s.fuel - 1, depth := s.depth + 1 } = out at h
  obtain ⟨ok, s'⟩ := out
  constructor
  · intro left hleft
    rw [hspend] at hleft
    have hended := h.ended hleft
    have hdepth' : s'.depth - 1 = s.depth := by
      rw [show s'.depth = s.depth + 1 from hended.depth, Nat.add_sub_cancel]
    cases ok with
    | true =>
      refine ⟨⟨⟨hdepth', hended.limited, hended.fuel, hended.suppressed, hended.ordinary⟩, hended.ok,
        hended.matched, hended.nodes⟩, ?_⟩
      rintro rfl
      cases hended.ok
    | false =>
      have hnodes : s'.nodes.take s.nodes.length = s.nodes := (prefix_iff_eq_take.1 hended.nodes).symm
      refine ⟨⟨⟨hdepth', hended.limited, hended.fuel, hended.suppressed, hended.ordinary⟩, hended.ok, ?_, ?_⟩, ?_⟩
      · rintro m rfl
        cases hended.ok
      · simp only [hnodes]
        exact prefix_rfl
      · exact fun _ => ⟨rfl, hnodes⟩
  · intro lim hlim
    rw [hspend] at hlim
    obtain ⟨rfl, hlimited', herror⟩ := h.stopped hlim
    exact ⟨rfl, hlimited', herror⟩

theorem closeRule_eq (rule : Rule) (start : Cursor) {before : List Node} (h : s.nodes = before ++ ns) :
    closeRule rule start before.length s = { s with nodes := before ++ (rule.close start (s.cursor, ns)).2 } := by
  unfold closeRule Rule.close
  rw [h, take_left, drop_left]
  split
  · rw [append_nil]
  · rfl

variable {rule : Rule} {levels : Nat}

/-- The frame of a rule, which makes its node. -/
theorem follows_ruleFn (hlimited : s.limited = false)
    (hcall : s.depth < 512 → Follows { s with depth := s.depth + 1 } t r
      (call (.expr rule.expr) { s with depth := s.depth + 1 })) :
    Follows s (⟨false, s.depth, s.cursor.pos⟩ :: t) (r.map (rule.close s.cursor)) (ruleFn call rule s) := by
  unfold ruleFn
  rw [if_neg (by rw [hlimited]; decide)]
  by_cases hdepth : s.depth ≥ 512
  · rw [if_pos hdepth]
    constructor <;> intro x hx <;> simp only [spend, if_pos hdepth] at hx <;> cases hx
    exact ⟨rfl, rfl, rfl⟩
  rw [if_neg hdepth]
  have hspend : spend s.fuel (⟨false, s.depth, s.cursor.pos⟩ :: t) = spend s.fuel t := by
    simp only [spend, if_neg hdepth, Bool.false_eq_true, ↓reduceIte]
  have h := hcall (by omega)
  generalize call (.expr rule.expr) { s with depth := s.depth + 1 } = out at h
  obtain ⟨ok, s'⟩ := out
  constructor
  · intro left hleft
    rw [hspend] at hleft
    have hret := h.returned hleft
    have hdepth' : s'.depth - 1 = s.depth := by rw [show s'.depth = s.depth + 1 from hret.depth, Nat.add_sub_cancel]
    cases r with
    | none =>
      obtain rfl : ok = false := hret.ok
      obtain ⟨hcursor, hnodes⟩ := hret.restored rfl
      exact ⟨⟨⟨hdepth', hret.limited, hret.fuel, hret.suppressed, hret.ordinary⟩, rfl, by simp,
        hret.nodes⟩, fun _ => ⟨hcursor, hnodes⟩⟩
    | some m =>
      obtain rfl : ok = true := hret.ok
      obtain ⟨hcursor, hnodes⟩ := hret.matched rfl
      have hclose := closeRule_eq (s := { s' with depth := s'.depth - 1 }) rule s.cursor hnodes
      change Returned s left _ (true, closeRule rule s.cursor s.nodes.length { s' with depth := s'.depth - 1 })
      rw [hclose]
      refine ⟨⟨⟨hdepth', hret.limited, hret.fuel, hret.suppressed, hret.ordinary⟩, rfl, ?_,
        prefix_append _ _⟩, by simp⟩
      intro m' hm'
      cases hm'
      refine ⟨hcursor, ?_⟩
      rw [show s'.cursor = m.1 from hcursor]
  · intro lim hlim
    rw [hspend] at hlim
    obtain ⟨rfl, hlimited', herror⟩ := h.stopped hlim
    exact ⟨rfl, hlimited', herror⟩

theorem kept_expect (hlimited : s.limited = false) (h : Ordinary expected) :
    Kept s s.fuel (s.expect expected) ∧ (s.expect expected).cursor = s.cursor ∧
      (s.expect expected).nodes = s.nodes := by
  have hordinary (ho : s.error.Ordinary) := ordinary_expect (s := s) ho h
  obtain ⟨error, herror⟩ : ∃ error, s.expect expected = { s with error := error } := by
    unfold State.expect
    split
    · exact ⟨s.error, rfl⟩
    · exact ⟨_, rfl⟩
  rw [herror] at hordinary ⊢
  exact ⟨⟨rfl, hlimited, rfl, rfl, hordinary⟩, rfl, rfl⟩

/-- The body of a repetition, from its loop. -/
def repeated (one : Bool) (l : Nat × State) : Bool × State := (!l.2.limited && (!one || l.1 > 0), l.2)

/-- The function of a task: what the parser runs for it in the state `s`. -/
def Simulates (debug : Debug) (rules : List Rule) (names : Names) (levels : Nat) (s : State) (t : List Event)
    (r : Outcome) : Task → Prop
  | .expr e => Follows s t r (run debug rules names levels (.expr e) s)
  | .rule i => Follows s t r (run debug rules names levels (.rule i) s)
  | .all es => FollowsBody s t r (seqBody (run debug rules names levels) es s)
  | .any es => FollowsBody s t r (choiceBody (run debug rules names levels) es s)
  | .more e => ∀ {turns : Nat}, s.fuel < turns →
      FollowsBody s t r (repeated false (loop (run debug rules names levels) e turns s))

/-- The state in which the parser makes a call of depth `d` at `c`, with the levels it has left. -/
structure Ready (levels d : Nat) (c : Cursor) (s : State) : Prop where
  levels : levels + d = 513
  room : d ≤ 512
  cursor : s.cursor = c
  depth : s.depth = d
  limited : s.limited = false

theorem run_limited {call : Call} (h : s.limited = true) : run debug rules names levels call s = (false, s) := by
  cases levels with
  | zero => rfl
  | succ levels =>
    cases call with
    | expr e =>
      change exprFn debug names _ e s = _
      unfold exprFn
      rw [if_pos h]
    | rule i =>
      simp only [run]
      split
      · unfold ruleFn
        rw [if_pos h]
      · rfl

/-- No later alternative is tried once the parser is limited. -/
theorem choiceBody_limited (h : s.limited = true) (es : List Expr) :
    choiceBody (run debug rules names levels) es s = (false, s) := by
  induction es with
  | nil => rfl
  | cons e es ih =>
    unfold choiceBody
    rw [run_limited h]
    exact ih

/-- The state after a match, in which the next function is called. -/
theorem Ready.next {c' : Cursor} (h : Ready levels d c s) (hkept : Kept s left s') (hcursor : s'.cursor = c') :
    Ready levels d c' s' :=
  ⟨h.levels, h.room, hcursor, hkept.depth.trans h.depth, hkept.limited⟩

/-! ## Bodies -/

theorem behind_nil (r : Outcome) : r.map (behind []) = r := by cases r <;> rfl

/-- A body that makes one call. -/
theorem FollowsBody.of_call {out' : Bool × State} (h : Follows s t r out)
    (hreturned : ∀ {left : Nat}, Returned s left r out → Ended s left r' out')
    (hstopped : ∀ {lim : String × Nat}, Stopped lim out → Stopped lim out') : FollowsBody s t r' out' :=
  ⟨fun hspend => hreturned (h.returned hspend), fun hspend => hstopped (h.stopped hspend)⟩

section

variable {levels : Nat} {e : Expr} {es : List Expr} {ns : List Node} {c : Cursor}

theorem followsBody_seq_fail (h : Follows s t none (run debug rules names levels (.expr e) s)) :
    FollowsBody s t none (seqBody (run debug rules names levels) (e :: es) s) := by
  unfold seqBody
  generalize run debug rules names levels (.expr e) s = out at h
  obtain ⟨ok, s'⟩ := out
  refine .of_call h ?_ ?_
  · intro left hret
    obtain rfl : ok = false := hret.ok
    exact hret.toEnded
  · intro lim hstopped
    obtain rfl : ok = false := hstopped.failed
    exact hstopped

theorem followsBody_seq_cons
    (h : Follows s t (some (c, ns)) (run debug rules names levels (.expr e) s))
    (hrest : ∀ {s' left}, Kept s left s' → s'.cursor = c →
      FollowsBody s' t' r (seqBody (run debug rules names levels) es s')) :
    FollowsBody s (t ++ t') (r.map (behind ns)) (seqBody (run debug rules names levels) (e :: es) s) := by
  unfold seqBody
  generalize run debug rules names levels (.expr e) s = out at h
  obtain ⟨ok, s'⟩ := out
  cases hspend : spend s.fuel t with
  | error lim =>
    have hstopped := h.stopped hspend
    obtain rfl : ok = false := hstopped.failed
    exact .of_stopped (spend_append_error hspend t') hstopped
  | ok left =>
    have hret := h.returned hspend
    obtain rfl : ok = true := hret.ok
    obtain ⟨hcursor, hnodes⟩ := hret.matched rfl
    exact .after hspend hret.toKept hnodes (hrest hret.toKept hcursor)

theorem followsBody_choice_first {m : Cursor × List Node}
    (h : Follows s t (some m) (run debug rules names levels (.expr e) s)) :
    FollowsBody s t (some m) (choiceBody (run debug rules names levels) (e :: es) s) := by
  unfold choiceBody
  generalize run debug rules names levels (.expr e) s = out at h
  obtain ⟨ok, s'⟩ := out
  refine .of_call h ?_ ?_
  · intro left hret
    obtain rfl : ok = true := hret.ok
    exact hret.toEnded
  · intro lim hstopped
    obtain rfl : ok = false := hstopped.failed
    change Stopped lim (choiceBody _ es s')
    rw [choiceBody_limited hstopped.limited]
    exact hstopped

theorem followsBody_choice_next
    (h : Follows s t none (run debug rules names levels (.expr e) s))
    (hrest : ∀ {s' left}, Kept s left s' → s'.cursor = s.cursor →
      FollowsBody s' t' r (choiceBody (run debug rules names levels) es s')) :
    FollowsBody s (t ++ t') r (choiceBody (run debug rules names levels) (e :: es) s) := by
  unfold choiceBody
  generalize run debug rules names levels (.expr e) s = out at h
  obtain ⟨ok, s'⟩ := out
  cases hspend : spend s.fuel t with
  | error lim =>
    have hstopped := h.stopped hspend
    obtain rfl : ok = false := hstopped.failed
    apply FollowsBody.of_stopped (spend_append_error hspend t')
    change Stopped lim (choiceBody _ es s')
    rw [choiceBody_limited hstopped.limited]
    exact hstopped
  | ok left =>
    have hret := h.returned hspend
    obtain rfl : ok = false := hret.ok
    obtain ⟨hcursor, hnodes⟩ := hret.restored rfl
    rw [← behind_nil r]
    refine .after hspend hret.toKept ?_ (hrest hret.toKept hcursor)
    rw [append_nil]
    exact hnodes

theorem followsBody_optional (h : Follows s t r out) :
    FollowsBody s t (some (r.getD (s.cursor, []))) (!out.2.limited, out.2) := by
  refine .of_call h ?_ ?_
  · intro left hret
    refine ⟨hret.toKept, ?_, ?_, hret.nodes⟩
    · simp [hret.limited]
    · intro m hm
      cases hm
      cases r with
      | none =>
        obtain ⟨hcursor, hnodes⟩ := hret.restored rfl
        exact ⟨hcursor, hnodes.trans (append_nil _).symm⟩
      | some m => exact hret.matched rfl
  · intro lim hstopped
    refine ⟨?_, hstopped.limited, hstopped.error⟩
    simp [hstopped.limited]

variable {positive : Bool} {call : Calls} {matched : Bool}

theorem predicateEnd_limited (h : s.limited = true) : predicateEnd positive matched s = (false, s) := by
  simp [predicateEnd, h]

theorem ended_predicateEnd (hkept : Kept s left s') (hcursor : s'.cursor = s.cursor)
    (hnodes : s'.nodes = s.nodes) :
    Ended s left (if matched = positive then some (s.cursor, []) else none) (predicateEnd positive matched s') := by
  unfold predicateEnd
  by_cases h : matched = positive
  · simp only [h, hkept.limited, beq_self_eq_true, Bool.not_false, Bool.and_self, Bool.not_true, ↓reduceIte]
    refine ⟨hkept, rfl, ?_, hnodes ▸ prefix_rfl⟩
    intro m hm
    cases hm
    exact ⟨hcursor, hnodes.trans (append_nil _).symm⟩
  · have hordinary : Ordinary (if positive then "positive predicate" else "negative predicate") := by
      cases positive <;> exact ⟨by decide, by decide⟩
    obtain ⟨hkept', _, hnodes'⟩ := kept_expect hkept.limited hordinary
    simp only [h, hkept.limited, beq_false_of_ne h, Bool.not_false, Bool.false_and, Bool.and_self, ↓reduceIte]
    refine ⟨hkept.fuel ▸ hkept.trans hkept', rfl, ?_, ?_⟩
    · intro m hm
      cases hm
    · rw [hnodes', hnodes]

theorem followsBody_predicate (h : Follows { s with suppressedErrors := s.suppressedErrors + 1 } t r
      (call (.expr e) { s with suppressedErrors := s.suppressedErrors + 1 })) :
    FollowsBody s t (if r.isSome = positive then some (s.cursor, []) else none)
      (predicateBody call e positive s.cursor s.nodes.length s) := by
  unfold predicateBody
  generalize call (.expr e) { s with suppressedErrors := s.suppressedErrors + 1 } = out at h
  obtain ⟨ok, s'⟩ := out
  constructor
  · intro left hspend
    have hret := h.returned hspend
    obtain rfl : ok = r.isSome := hret.ok
    have hsuppressed : s'.suppressedErrors - 1 = s.suppressedErrors := by
      rw [show s'.suppressedErrors = s.suppressedErrors + 1 from hret.suppressed, Nat.add_sub_cancel]
    apply ended_predicateEnd
    · exact ⟨hret.depth, hret.limited, hret.fuel, hsuppressed, hret.ordinary⟩
    · rfl
    · exact (prefix_iff_eq_take.1 hret.nodes).symm
  · intro lim hspend
    have hstopped := h.stopped hspend
    have hlimited : s'.limited = true := hstopped.limited
    change Stopped lim (predicateEnd positive ok _)
    rw [predicateEnd_limited (by exact hlimited)]
    exact ⟨rfl, hstopped.limited, hstopped.error⟩

/-! ## Loops -/

theorem loop_false (h : call (.expr e) s = (false, s')) (turns : Nat) : loop call e (turns + 1) s = (0, s') := by
  simp only [loop, h]

theorem loop_true (h : call (.expr e) s = (true, s')) (turns : Nat) :
    loop call e (turns + 1) s = ((loop call e turns s').1 + 1, (loop call e turns s').2) := by
  simp only [loop, h]

theorem repeated_succ (one : Bool) (l : Nat × State) : repeated one (l.1 + 1, l.2) = repeated false l := by
  simp [repeated]

variable {turns : Nat}

/-- A limit ends the loop and the repetition fails. -/
theorem repeated_stopped {lim : String × Nat} (one : Bool) (h : Stopped lim (call (.expr e) s)) :
    Stopped lim (repeated one (loop call e (turns + 1) s)) := by
  rcases hcall : call (.expr e) s with ⟨ok, s'⟩
  rw [hcall] at h
  obtain rfl : ok = false := h.failed
  have hlimited : s'.limited = true := h.limited
  rw [loop_false hcall]
  refine ⟨?_, h.limited, h.error⟩
  simp [repeated, hlimited]

variable {one : Bool}

theorem followsBody_loop_done (h : Follows s t none (run debug rules names levels (.expr e) s)) :
    FollowsBody s t (if one then none else some (s.cursor, []))
      (repeated one (loop (run debug rules names levels) e (turns + 1) s)) := by
  refine .of_call h ?_ (repeated_stopped one)
  intro left hret
  rcases hcall : run debug rules names levels (.expr e) s with ⟨ok, s'⟩
  rw [hcall] at hret
  obtain rfl : ok = false := hret.ok
  have hlimited : s'.limited = false := hret.limited
  obtain ⟨hcursor, hnodes⟩ := hret.restored rfl
  rw [loop_false hcall]
  refine ⟨hret.toKept, ?_, ?_, hret.nodes⟩
  · cases one <;> simp [repeated, hlimited]
  · intro m hm
    cases one with
    | true => cases hm
    | false =>
      cases hm
      exact ⟨hcursor, hnodes.trans (append_nil _).symm⟩

theorem followsBody_loop_again (h : Follows s t (some (c, ns)) (run debug rules names levels (.expr e) s))
    (hrest : ∀ {s' left}, spend s.fuel t = .ok left → Kept s left s' → s'.cursor = c →
      FollowsBody s' t' r (repeated false (loop (run debug rules names levels) e turns s'))) :
    FollowsBody s (t ++ t') (r.map (behind ns))
      (repeated one (loop (run debug rules names levels) e (turns + 1) s)) := by
  cases hspend : spend s.fuel t with
  | error lim =>
    exact .of_stopped (spend_append_error hspend t') (repeated_stopped one (h.stopped hspend))
  | ok left =>
    have hret := h.returned hspend
    rcases hcall : run debug rules names levels (.expr e) s with ⟨ok, s'⟩
    rw [hcall] at hret
    obtain rfl : ok = true := hret.ok
    obtain ⟨hcursor, hnodes⟩ := hret.matched rfl
    rw [loop_true hcall, repeated_succ]
    exact .after hspend hret.toKept hnodes (hrest hspend hret.toKept hcursor)

end

/-- What an expression that fails of itself was expected to be. -/
def Expr.expectation (debug : Debug) : Expr → String
  | .lit s insensitive => litText debug s insensitive
  | .class_ ranges negated => classText debug ranges negated
  | .any => "any character"
  | .predicate _ positive => if positive then "positive predicate" else "negative predicate"
  | _ => ""

section

variable {call : Calls} {e : Expr} {m : Cursor → Option Cursor} {start : Cursor} {mark : Nat}

theorem ordinary_expectation (he : e.terminal = some m) : Ordinary (e.expectation debug) := by
  cases e with
  | lit text insensitive => exact ordinary_litText text insensitive
  | class_ ranges negated => exact ordinary_classText ranges negated
  | any => exact (show Ordinary "any character" from ⟨by decide, by decide⟩)
  | _ => cases he

/-- A terminal reads what the semantics reads. -/
theorem body_terminal (he : e.terminal = some m) : body debug names call e start mark s = match m s.cursor with
    | some c => (true, { s with cursor := c })
    | none => (false, s.expect (e.expectation debug)) := by
  cases e with
  | lit text insensitive =>
    cases he
    exact literal_eq text insensitive s
  | class_ ranges negated =>
    cases he
    have hclass : (fun c => (ranges.any fun r => inRange r c) != negated) = inClass ranges negated := by
      funext c
      simp only [inClass, inRange_eq]
    simp only [body, hclass]
    exact character_eq _ _ s
  | any =>
    cases he
    exact character_eq _ _ s
  | _ => cases he

theorem followsBody_terminal (hlimited : s.limited = false) (he : e.terminal = some m) :
    FollowsBody s [] ((m s.cursor).map fun c => (c, [])) (body debug names call e start mark s) := by
  rw [body_terminal he]
  constructor
  · intro left hleft
    cases hleft
    cases m s.cursor with
    | none =>
      obtain ⟨hkept, _, hnodes⟩ := kept_expect hlimited (ordinary_expectation he)
      exact ⟨hkept, rfl, by simp, hnodes ▸ prefix_rfl⟩
    | some c =>
      refine ⟨⟨rfl, hlimited, rfl, rfl, id⟩, rfl, ?_, prefix_rfl⟩
      intro m' hm'
      cases hm'
      exact ⟨rfl, (append_nil _).symm⟩
  · intro lim hlim
    cases hlim

end

/-! ## Runs -/

theorem Ready.follows_expr (h : Ready levels d c s)
    (hbody : ∀ {levels : Nat} {s' : State}, Ready levels (d + 1) c s' →
      FollowsBody s' t r (body debug names (run debug rules names levels) e s'.cursor s'.nodes.length s')) :
    Follows s (⟨true, d, c.pos⟩ :: t) r (run debug rules names levels (.expr e) s) := by
  obtain ⟨hlevels, hroom, rfl, rfl, hlimited⟩ := h
  obtain ⟨levels, rfl⟩ : ∃ n, levels = n + 1 := ⟨levels - 1, by omega⟩
  refine follows_exprFn hlimited fun hdepth _ => ?_
  have hready : Ready levels (s.depth + 1) s.cursor { s with fuel := s.fuel - 1, depth := s.depth + 1 } :=
    ⟨by omega, by omega, rfl, rfl, hlimited⟩
  exact hbody hready

variable {i : Nat}

theorem Ready.follows_rule (hi : rules[i]? = some rule) (h : Ready levels d c s)
    (hcall : ∀ {levels : Nat} {s' : State}, Ready levels (d + 1) c s' →
      Follows s' t r (run debug rules names levels (.expr rule.expr) s')) :
    Follows s (⟨false, d, c.pos⟩ :: t) (r.map (rule.close c)) (run debug rules names levels (.rule i) s) := by
  obtain ⟨hlevels, hroom, rfl, rfl, hlimited⟩ := h
  obtain ⟨levels, rfl⟩ : ∃ n, levels = n + 1 := ⟨levels - 1, by omega⟩
  simp only [run, hi]
  exact follows_ruleFn hlimited fun hdepth => hcall ⟨by omega, by omega, rfl, rfl, hlimited⟩

/-- **Every generated function follows the semantics until a limit is hit.** -/
theorem run_follows {task : Task} (h : Eval rules names d task c t r) :
    ∀ {levels : Nat} {s : State}, Ready levels d c s → Simulates debug rules names levels s t r task := by
  induction h with
  | terminal he =>
    intro levels s hready
    refine hready.follows_expr fun hready' => ?_
    rw [← hready'.cursor]
    exact followsBody_terminal hready'.limited he
  | ref hn _ ih =>
    intro levels s hready
    refine hready.follows_expr fun hready' => ?_
    simp only [body, hn]
    exact (ih hready').body
  | seq _ ih | choice _ ih =>
    intro levels s hready
    exact hready.follows_expr ih
  | optional _ ih =>
    intro levels s hready
    refine hready.follows_expr fun hready' => ?_
    rw [← hready'.cursor]
    exact followsBody_optional (ih hready')
  | repeatNone _ ih =>
    intro levels s hready
    refine hready.follows_expr fun hready' => ?_
    rw [← hready'.cursor]
    exact followsBody_loop_done (ih hready')
  | repeatSome h _ ih ih' =>
    intro levels s hready
    refine hready.follows_expr fun hready' => ?_
    refine followsBody_loop_again (ih hready') fun hspend hkept hcursor => ?_
    apply ih' (hready'.next hkept hcursor)
    rw [hkept.fuel]
    exact h.expr_spends hspend
  | predicate _ ih =>
    intro levels s hready
    refine hready.follows_expr fun hready' => ?_
    rw [← hready'.cursor]
    exact followsBody_predicate (ih ⟨hready'.levels, hready'.room, hready'.cursor, hready'.depth, hready'.limited⟩)
  | rule hi _ ih =>
    intro levels s hready
    exact hready.follows_rule hi ih
  | allNil =>
    intro levels s hready
    refine ⟨?_, ?_⟩
    · intro left hspend
      cases hspend
      refine ⟨⟨rfl, hready.limited, rfl, rfl, id⟩, rfl, ?_, prefix_rfl⟩
      intro m hm
      cases hm
      exact ⟨hready.cursor, (append_nil _).symm⟩
    · intro lim hspend
      cases hspend
  | allFail _ ih =>
    intro levels s hready
    exact followsBody_seq_fail (ih hready)
  | allCons _ _ ih ih' =>
    intro levels s hready
    exact followsBody_seq_cons (ih hready) fun hkept hcursor => ih' (hready.next hkept hcursor)
  | anyNil =>
    intro levels s hready
    refine ⟨?_, ?_⟩
    · intro left hspend
      cases hspend
      exact ⟨⟨rfl, hready.limited, rfl, rfl, id⟩, rfl, by simp, prefix_rfl⟩
    · intro lim hspend
      cases hspend
  | anyFirst _ ih =>
    intro levels s hready
    exact followsBody_choice_first (ih hready)
  | anyNext _ _ ih ih' =>
    intro levels s hready
    refine followsBody_choice_next (ih hready) fun hkept hcursor => ih' (hready.next hkept ?_)
    rw [hcursor, hready.cursor]
  | moreDone _ ih =>
    intro levels s hready turns hturns
    obtain ⟨turns, rfl⟩ := Nat.exists_eq_add_one.2 (Nat.zero_lt_of_lt hturns)
    have h : FollowsBody s _ _ (repeated false (loop _ _ (turns + 1) s)) :=
      followsBody_loop_done (ih hready)
    rw [hready.cursor] at h
    exact h
  | moreAgain h _ ih ih' =>
    intro levels s hready turns hturns
    obtain ⟨turns, rfl⟩ := Nat.exists_eq_add_one.2 (Nat.zero_lt_of_lt hturns)
    refine followsBody_loop_again (ih hready) fun hspend hkept hcursor => ih' (hready.next hkept hcursor) ?_
    have := h.expr_spends hspend
    rw [hkept.fuel]
    omega

/-! ## Parses -/

theorem bytes_eq_zero {cs : List Char} (h : bytes cs = 0) : cs = [] := by
  cases cs with
  | nil => rfl
  | cons a cs =>
    have hpos := Char.utf8Size_pos a
    simp only [bytes, map_cons, sum_cons] at h
    omega

variable {input : String}

/-- A match is at the end of the input if there is nothing behind it. -/
theorem Cursor.Reaches.pos_eq_iff (h : (Cursor.start input).Reaches c) :
    c.pos = bytes input.toList ↔ c.rest = [] := by
  obtain ⟨cs, hrest, hpos⟩ := h
  have hbytes : bytes input.toList = bytes cs + bytes c.rest := by
    rw [← bytes_append, ← hrest]
    rfl
  have hpos' : c.pos = bytes cs := by
    rw [hpos]
    exact Nat.zero_add _
  constructor
  · intro heq
    apply bytes_eq_zero
    omega
  · intro hnil
    rw [hnil] at hbytes
    rw [hpos', hbytes]
    rfl

/-- Rules have different names, so a name is dispatched to its rule. -/
theorem Validated.findIdx {null : List Bool} (h : Validated rules names null) (hi : rules[i]? = some rule) :
    rules.findIdx? (fun r => r.name = rule.name) = some i := by
  obtain ⟨hlt, hget⟩ := List.getElem?_eq_some_iff.1 hi
  rw [findIdx?_eq_some_iff_getElem]
  refine ⟨hlt, ?_, ?_⟩
  · simp [hget]
  · intro j hj hname
    have hlookup := (h.named rule.name i).2 ⟨rule, hi, rfl⟩
    have hlookup' := (h.named rule.name j).2 ⟨rules[j], getElem?_eq_getElem _, of_decide_eq_true hname⟩
    rw [hlookup] at hlookup'
    cases hlookup'
    omega

/-- The answer to a parse, from the budget that the calls of the semantics leave and from its outcome. -/
inductive Answers (rule input : String) : Except (String × Nat) Nat → Outcome →
    Except ParseError Node → Prop where
  /-- A limit is hit, wherever that is. -/
  | limit {message : String} {pos : Nat} {r : Outcome} :
      Answers rule input (.error (message, pos)) r (.error ⟨pos, [message]⟩)
  /-- The whole input matches. -/
  | tree {left pos : Nat} {ns : List Node} :
      Answers rule input (.ok left) (some (⟨pos, []⟩, ns)) (.ok (root rule input ns))
  /-- Some of the input is left over. -/
  | trailing {left : Nat} {c : Cursor} {ns : List Node} {error : ParseError} : c.rest ≠ [] →
      error.Ordinary → Answers rule input (.ok left) (some (c, ns)) (.error error)
  | mismatch {left : Nat} {error : ParseError} : error.Ordinary →
      Answers rule input (.ok left) none (.error error)

/-- What `parseRule` makes of the call of the rule's function. -/
theorem answers_of_follows {rule : String}
    (hreaches : ∀ {m : Cursor × List Node}, r = some m → (Cursor.start input).Reaches m.1)
    (h : Follows (.start input) t r out) :
    Answers rule input (spend 1000000 t) r
      (if !out.1 || out.2.limited then .error out.2.error
       else if out.2.cursor.pos ≠ bytes input.toList then .error (out.2.expect "end of input").error
       else .ok (root rule input out.2.nodes)) := by
  cases hspend : spend 1000000 t with
  | error lim =>
    have hstopped := h.stopped hspend
    rw [if_pos (by simp [hstopped.limited]), hstopped.error]
    exact .limit
  | ok left =>
    have hret := h.returned hspend
    have hordinary : out.2.error.Ordinary := hret.ordinary fun _ hm => by cases hm
    cases r with
    | none =>
      rw [if_pos (by simp [hret.ok])]
      exact .mismatch hordinary
    | some m =>
      obtain ⟨⟨pos, rest⟩, ns⟩ := m
      obtain ⟨hcursor, hnodes⟩ := hret.matched rfl
      have hend := (hreaches rfl).pos_eq_iff
      rw [if_neg (by simp [hret.ok, hret.limited]), hcursor, hnodes]
      by_cases hpos : pos = bytes input.toList
      · obtain rfl : rest = [] := hend.1 hpos
        rw [if_neg (not_not_intro hpos)]
        exact .tree
      · rw [if_pos hpos]
        exact .trailing (fun hnil => hpos (hend.2 hnil)) (ordinary_expect hordinary ⟨by decide, by decide⟩)

/-- **Generated parsers agree with the semantics of the grammar or report the limit they have hit.** -/
theorem parser_agrees_with_semantics (debug : Debug) (h : validate rules = .ok names) {i : Nat}
    {rule : Rule} (hi : rules[i]? = some rule) (input : String) :
    ∃ t r, Eval rules names 0 (.rule i) (.start input) t r ∧
      (∀ t' r', Eval rules names 0 (.rule i) (.start input) t' r' → t' = t ∧ r' = r) ∧
      Answers rule.name input (spend 1000000 t) r (parseRule debug rules names rule.name input) := by
  have hvalid := validated_of_validate h
  obtain ⟨hlt, _⟩ := List.getElem?_eq_some_iff.1 hi
  obtain ⟨t, r, heval⟩ := hvalid.rule_total _ (Nat.lt_succ_self (Cursor.start input).rest.length) ⟨i, hlt⟩ 0
  refine ⟨t, r, heval, fun t' r' => eval_unique heval, ?_⟩
  have hready : Ready 513 0 (.start input) (.start input) := ⟨rfl, by decide, rfl, rfl, rfl⟩
  unfold parseRule
  rw [hvalid.findIdx hi]
  exact answers_of_follows heval.reaches (run_follows heval hready)

theorem example_parser_agrees : ∃ t r,
    Eval exampleRules (AList.singleton "Root" 0) 0 (.rule 0) (.start "aab") t r ∧
      Answers "Root" "aab" (spend 1000000 t) r
        (parseRule ⟨Char.toString, Char.toString⟩ exampleRules (AList.singleton "Root" 0) "Root" "aab") := by
  have hvalid : validate exampleRules = .ok (AList.singleton "Root" 0) := rfl
  obtain ⟨t, r, heval, _, hanswers⟩ := parser_agrees_with_semantics ⟨Char.toString, Char.toString⟩ hvalid
    (show exampleRules[0]? = some _ from rfl) "aab"
  exact ⟨t, r, heval, hanswers⟩

end ChiliDB.Peg
