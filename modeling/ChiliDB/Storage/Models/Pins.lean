import ChiliDB.Storage.Models.Mapping

/-!
# Pin accounting and latch safety

* `BackendOk frames x` — the frame a backend refers to is in the state the backend believes: a
  waiter's frame is loading its page, a pin's frame is ready with its page, a writer's frame is
  dirty.
* `Pins s` — every backend is ok, `pin_count` counts the backends that hold a pin on the frame,
  and a writer is alone on its frame.
* `foldl_handOff` — the hand-off loop of `LoadDone` in closed form: waiters of the frame become
  pins (or retries) and `pin_count` is the number of waiters.

Counting never needs a bound on the number of backends: one backend changes at a time
(`pinners_set`), except in the hand-off, where the frame had no pin before (`pinners_eq_zero`).
-/

namespace ChiliDB.Models

open Effect List

/-- The backend holds a pin on frame `f`. -/
def Backend.pinsOn (f : Nat) (x : Backend) : Bool := x.pin.any (·.frameId == f)

/-- The backend waits for the load of frame `f`. -/
def Backend.waitsOn (f : Nat) : Backend → Bool
  | .waiting g _ _ => g == f
  | _ => false

/-- The number of backends that hold a pin on frame `f`. -/
def State.pinners (s : State) (f : Nat) : Nat := s.backends.countP (Backend.pinsOn f)

/-- What a backend may rely on about its frame. -/
def BackendOk (frames : List Frame) : Backend → Prop
  | .waiting f p _ => ∃ io, frames[f]? = some (.loading p io)
  | .pinned f p => ∃ n d, frames[f]? = some (.ready p n d)
  | .reading f p => ∃ n d, frames[f]? = some (.ready p n d)
  | .writing f p => ∃ n, frames[f]? = some (.ready p n true)
  | _ => True

/-- The invariant behind pin accounting and latch safety. -/
structure Pins (s : State) : Prop where
  backend : ∀ {b : Nat} {x : Backend}, s.backends[b]? = some x → BackendOk s.frames x
  count : ∀ {f p n : Nat} {d : Bool}, s.frames[f]? = some (.ready p n d) → n = s.pinners f
  alone : ∀ {b c f p : Nat} {x : Backend}, s.backends[b]? = some (.writing f p) →
    s.backends[c]? = some x → x.accesses f = true → b = c

open Backend (pin pinsOn waitsOn writes accesses)

variable {s s' : State} {m : BufferModel}

/-! ## Counting pins -/

variable {b f : Nat} {x y : Backend} {frames : List Frame} {fr : Frame}

/-- One backend changes from `x` to `y`. -/
theorem pinners_set (hb : s.backends[b]? = some x) :
    (s.backends.set b y).countP (pinsOn f) + (if x.pinsOn f then 1 else 0) =
      s.pinners f + (if y.pinsOn f then 1 else 0) := by
  obtain ⟨hlt, hx⟩ := List.getElem?_eq_some_iff.1 hb
  rw [countP_set hlt, hx, State.pinners]
  by_cases h : x.pinsOn f
  · have hpos : 0 < s.backends.countP (pinsOn f) :=
      countP_pos_iff.2 ⟨x, hx ▸ getElem_mem hlt, h⟩
    simp only [h, if_true]; omega
  · simp [h]

theorem pinsOn_reading (f g p : Nat) : (Backend.reading f p).pinsOn g = (Backend.pinned f p).pinsOn g := rfl

theorem pinsOn_writing (f g p : Nat) : (Backend.writing f p).pinsOn g = (Backend.pinned f p).pinsOn g := rfl

theorem pinsOn_iff : x.pinsOn f = true ↔ ∃ p, x = .pinned f p ∨ x = .reading f p ∨ x = .writing f p := by
  cases x <;> simp [pinsOn, pin]

/-- A backend that holds a pin has its frame ready. -/
theorem BackendOk.ready_of_pinsOn (h : BackendOk frames x) (hx : x.pinsOn f = true) :
    ∃ p n d, frames[f]? = some (.ready p n d) := by
  obtain ⟨p, rfl | rfl | rfl⟩ := pinsOn_iff.1 hx
  · exact ⟨p, h⟩
  · exact ⟨p, h⟩
  · obtain ⟨n, hn⟩ := h; exact ⟨p, n, true, hn⟩

/-- Only a ready frame has pins. -/
theorem Pins.pinners_eq_zero (h : Pins s) (hf : s.frames[f]? = some fr) (hr : ∀ p n d, fr ≠ .ready p n d) :
    s.pinners f = 0 := by
  rw [State.pinners, countP_eq_zero]
  intro x hx hp
  obtain ⟨b, hb⟩ := mem_iff_getElem?.1 hx
  obtain ⟨p, n, d, he⟩ := (h.backend hb).ready_of_pinsOn hp
  rw [hf] at he
  exact hr p n d (Option.some.inj he)

theorem not_pinsOn_of_pinners (h : s.pinners f = 0) (hb : s.backends[b]? = some x) : x.pinsOn f = false := by
  rw [State.pinners, countP_eq_zero] at h
  simpa using h x (mem_iff_getElem?.2 ⟨b, hb⟩)

/-! ## Changing one frame -/

/-- A frame change that no waiter and no pin can notice. -/
def Frame.Keeps (fr fr' : Frame) : Prop :=
  (∀ p io, fr = .loading p io → ∃ io', fr' = .loading p io') ∧
  (∀ p n d, fr = .ready p n d → ∃ n' d', fr' = .ready p n' d' ∧ (d = true → d' = true))

variable {fr' : Frame}

theorem BackendOk.keep (h : BackendOk frames x) (hf : frames[f]? = some fr) (hk : fr.Keeps fr') :
    BackendOk (frames.set f fr') x := by
  have hlt : f < frames.length := lt_of_get hf
  have hset : ∀ g, (frames.set f fr')[g]? = if f = g then some fr' else frames[g]? := by
    intro g
    rw [getElem?_set]
    split <;> rfl
  cases x with
  | waiting g p r =>
    obtain ⟨io, hg⟩ := h
    simp only [BackendOk, hset]
    split
    · rename_i e
      subst e
      rw [hf] at hg
      obtain ⟨io', he⟩ := hk.1 p io (Option.some.inj hg)
      exact ⟨io', by rw [he]⟩
    · exact ⟨io, hg⟩
  | pinned g p | reading g p =>
    obtain ⟨n, d, hg⟩ := h
    simp only [BackendOk, hset]
    split
    · rename_i e
      subst e
      rw [hf] at hg
      obtain ⟨n', d', he, -⟩ := hk.2 p n d (Option.some.inj hg)
      exact ⟨n', d', by rw [he]⟩
    · exact ⟨n, d, hg⟩
  | writing g p =>
    obtain ⟨n, hg⟩ := h
    simp only [BackendOk, hset]
    split
    · rename_i e
      subst e
      rw [hf] at hg
      obtain ⟨n', d', he, hd⟩ := hk.2 p n true (Option.some.inj hg)
      exact ⟨n', by rw [he, hd rfl]⟩
    · exact ⟨n, hg⟩
  | idle | request p r | miss p r | reserved g p r => trivial

/-- A backend that neither waits on a frame nor pins it does not notice any change of it. -/
theorem BackendOk.avoid (h : BackendOk frames x) (hw : x.waitsOn f = false) (hp : x.pinsOn f = false) :
    BackendOk (frames.set f fr') x := by
  cases x with
  | waiting g p r =>
    have hne : f ≠ g := by rintro rfl; simp [waitsOn] at hw
    simpa [BackendOk, hne] using h
  | pinned g p | reading g p | writing g p =>
    have hne : f ≠ g := by rintro rfl; simp [pinsOn, pin] at hp
    simpa [BackendOk, hne] using h
  | idle | request p r | miss p r | reserved g p r => trivial

/-! ## Changing one backend -/

/-- Backend `b` changes from `x` to `y`; the frames may change with it. -/
theorem Pins.change (h : Pins s) (hb : s.backends[b]? = some x) (hb' : s'.backends = s.backends.set b y)
    (hok : ∀ c z, c ≠ b → s.backends[c]? = some z → BackendOk s'.frames z) (hy : BackendOk s'.frames y)
    (hcount : ∀ g p n d, s'.frames[g]? = some (.ready p n d) →
      n + (if x.pinsOn g then 1 else 0) = s.pinners g + (if y.pinsOn g then 1 else 0))
    (halone : ∀ g c z, c ≠ b → s.backends[c]? = some z →
      (y.writes g = true → z.accesses g = false) ∧ (y.accesses g = true → z.writes g = false)) :
    Pins s' := by
  have hlt : b < s.backends.length := lt_of_get hb
  have hget : ∀ c z, s'.backends[c]? = some z → (c = b ∧ z = y) ∨ (c ≠ b ∧ s.backends[c]? = some z) := by
    intro c z hz
    rw [hb', getElem?_set] at hz
    split at hz
    · rename_i e
      exact .inl ⟨e.symm, (Option.some.inj hz).symm⟩
    · rename_i e
      exact .inr ⟨fun he => e he.symm, hz⟩
  constructor
  · intro c z hz
    rcases hget c z hz with ⟨-, rfl⟩ | ⟨hne, hz⟩
    · exact hy
    · exact hok c z hne hz
  · intro g p n d hg
    have h1 := hcount g p n d hg
    have h2 := pinners_set (s := s) (f := g) (y := y) hb
    rw [State.pinners, hb']
    omega
  · intro c c' g p z hc hz ha
    rcases hget c _ hc with ⟨rfl, rfl⟩ | ⟨hne, hc⟩ <;> rcases hget c' z hz with ⟨rfl, rfl⟩ | ⟨hne', hz⟩
    · rfl
    · have := (halone g c' z hne' hz).1 (by simp [writes])
      rw [ha] at this; cases this
    · have := (halone g c _ hne hc).2 ha
      simp [writes] at this
    · exact h.alone hc hz ha

/-- After a change of frame `f` alone, the other frames still count their pins. -/
theorem Pins.count_set (h : Pins s) (hr : ∀ p n d, fr' = .ready p n d → n = s.pinners f) :
    ∀ g p n d, (s.frames.set f fr')[g]? = some (.ready p n d) → n = s.pinners g := by
  intro g p n d hg
  rw [getElem?_set] at hg
  split at hg
  · rename_i e
    subst e
    split at hg
    · exact hr p n d (Option.some.inj hg)
    · cases hg
  · exact h.count hg

/-- A backend without a pin becomes another one without a pin. -/
theorem Pins.quiet (h : Pins s) (hb : s.backends[b]? = some x) (hb' : s'.backends = s.backends.set b y)
    (hx : x.pin = none) (hy : y.pin = none)
    (hok : ∀ c z, c ≠ b → s.backends[c]? = some z → BackendOk s'.frames z) (hyok : BackendOk s'.frames y)
    (hcount : ∀ g p n d, s'.frames[g]? = some (.ready p n d) → n = s.pinners g) : Pins s' := by
  have hxp : ∀ g, x.pinsOn g = false := fun g => by simp [pinsOn, hx]
  have hyp : ∀ g, y.pinsOn g = false := fun g => by simp [pinsOn, hy]
  refine h.change hb hb' hok hyok ?_ ?_
  · intro g p n d hg
    simp only [hxp, hyp, Bool.false_eq_true, if_false, Nat.add_zero]
    exact hcount g p n d hg
  · intro g c z _ _
    constructor
    · intro hw; cases y <;> simp_all [writes, pin]
    · intro ha; cases y <;> simp_all [accesses, pin]

theorem keeps_of_idle_frame (hl : ∀ p io, fr ≠ .loading p io) (hr : ∀ p n d, fr ≠ .ready p n d) : fr.Keeps fr' :=
  ⟨fun p io he => absurd he (hl p io), fun p n d he => absurd he (hr p n d)⟩

variable {p : Nat}

/-- Joining a mapped page; the backend held no pin before. -/
theorem Pins.joined (h : Pins s) (hmap : Mapping s) {r : Bool} (hb : s.backends[b]? = some x)
    (hx : x.pin = none) (ht : s.pageTable[p]? = some (some f)) (hj : Joined s b f p r s') : Pins s' := by
  obtain ⟨fr, hfr, hpub⟩ := hmap.frame_of_table ht
  have hxp : ∀ g, x.pinsOn g = false := fun g => by simp [pinsOn, hx]
  cases hj with
  | ready hf =>
    rename_i q n d
    rw [hf] at hfr; cases hfr
    cases hpub
    have hlt : f < s.frames.length := lt_of_get hf
    have hkeep : (Frame.ready p n d).Keeps (.ready p (n + 1) d) :=
      ⟨fun _ _ he => (by cases he), fun _ _ _ he => by cases he; exact ⟨n + 1, d, rfl, id⟩⟩
    refine h.change hb rfl (fun c z _ hz => (h.backend hz).keep hf hkeep) ⟨n + 1, d, by simp [hlt]⟩ ?_ ?_
    · intro g q k e hg
      rw [getElem?_set] at hg
      simp only [hxp, Bool.false_eq_true, if_false, Nat.add_zero]
      split at hg
      · rename_i he
        subst he
        cases hg
        have := h.count hf
        simp [pinsOn, pin]
        omega
      · rename_i he
        have := h.count hg
        simp [pinsOn, pin, he]
        omega
    · intro g c z _ _
      simp [writes, accesses]
  | loading hf =>
    rw [hf] at hfr; cases hfr
    cases hpub
    exact h.quiet hb rfl hx rfl (fun c z _ hz => h.backend hz) ⟨_, hf⟩ (fun g p n d hg => h.count hg)
  | again _ _ =>
    exact h.quiet hb rfl hx rfl (fun c z _ hz => h.backend hz) trivial (fun g p n d hg => h.count hg)

/-! ## The hand-off -/

/-- What the hand-off makes of one backend. -/
def Backend.handed (f : Nat) (success : Bool) : Backend → Backend
  | .waiting g p r =>
    if g = f then (if success then .pinned f p else .request p true) else .waiting g p r
  | x => x

open Backend (handed)

/-- The hand-off loop in closed form. -/
theorem foldl_handOff (f : Nat) (ok : Bool) : ∀ (bs : List Backend) (acc : HandOff),
    (bs.foldl (handOff f ok) acc).backends = acc.backends ++ bs.map (handed f ok) ∧
    (bs.foldl (handOff f ok) acc).pinCount = acc.pinCount + (if ok then bs.countP (waitsOn f) else 0)
  | [], acc => by simp
  | x :: bs, acc => by
    obtain ⟨h1, h2⟩ := foldl_handOff f ok bs (handOff f ok acc x)
    rw [foldl_cons, h1, h2, map_cons, countP_cons]
    cases x with
    | waiting g p r =>
      by_cases hg : g = f
      · cases ok
        · simp [handOff, handed, hg]
        · simp [handOff, handed, waitsOn, hg]; omega
      · simp [handOff, handed, waitsOn, hg]
    | idle | request p r | miss p r | reserved g p r | pinned g p | reading g p
    | writing g p => simp [handOff, handed, waitsOn]

/-- The hand-off never grants or ends an access. -/
theorem accesses_handed (f g : Nat) (ok : Bool) (x : Backend) : (x.handed f ok).accesses g = x.accesses g := by
  unfold handed
  split
  · split
    · cases ok <;> rfl
    · rfl
  · rfl

theorem writing_of_handed {g : Nat} {ok : Bool} (h : x.handed f ok = .writing g p) : x = .writing g p := by
  unfold handed at h
  split at h
  · split at h
    · cases ok <;> cases h
    · cases h
  · exact h

theorem handed_eq_self {ok : Bool} (h : x.waitsOn f = false) : x.handed f ok = x := by
  cases x with
  | waiting g p r =>
    have hg : g ≠ f := by simpa [waitsOn] using h
    simp [handed, hg]
  | idle | request p r | miss p r | reserved g p r | pinned g p | reading g p | writing g p => rfl

/-- The hand-off of frame `f` gives pins on `f` only, and only to waiters that succeed. -/
theorem pinsOn_handed (f g : Nat) (ok : Bool) (x : Backend) :
    (x.handed f ok).pinsOn g = (x.pinsOn g || (ok && g == f && x.waitsOn f)) := by
  cases x with
  | waiting k p r =>
    by_cases hk : k = f
    · subst hk
      cases ok
      · simp [handed, pinsOn, pin]
      · by_cases hg : g = k
        · simp [handed, pinsOn, pin, waitsOn, hg]
        · simp [handed, pinsOn, pin, waitsOn, hg]
          exact fun h => hg h.symm
    · simp [handed, pinsOn, pin, waitsOn, hk]
  | idle | request p r | miss p r | reserved k p r | pinned k p | reading k p
  | writing k p => simp [handed, waitsOn]

/-- The pins of frame `g` after the hand-off of frame `f`, which had none. -/
theorem pinners_handed (h0 : s.pinners f = 0) (g : Nat) (ok : Bool) :
    (s.backends.map (handed f ok)).countP (pinsOn g) =
      if g = f then (if ok then s.backends.countP (waitsOn f) else 0) else s.pinners g := by
  rw [countP_map, State.pinners]
  by_cases hg : g = f
  · subst hg
    rw [if_pos rfl]
    cases ok
    · rw [if_neg (by simp), countP_eq_zero]
      intro x hx
      obtain ⟨b, hb⟩ := mem_iff_getElem?.1 hx
      simp [pinsOn_handed, not_pinsOn_of_pinners h0 hb]
    · rw [if_pos rfl]
      apply countP_congr
      intro x hx
      obtain ⟨b, hb⟩ := mem_iff_getElem?.1 hx
      simp [pinsOn_handed, not_pinsOn_of_pinners h0 hb]
  · rw [if_neg hg]
    apply countP_congr
    intro x _
    simp [pinsOn_handed, hg]

/-- The completion of a load: frame `f` changes, and every backend is handed its result. -/
theorem Pins.handOff (h : Pins s) (ok : Bool) {io : Bool} (hf : s.frames[f]? = some (.loading p io))
    (hf' : s'.frames = s.frames.set f fr') (hb' : s'.backends = s.backends.map (handed f ok))
    (hfr : fr' = if ok then .ready p (s.backends.countP (waitsOn f)) false else .free) : Pins s' := by
  have hlt : f < s.frames.length := lt_of_get hf
  have h0 : s.pinners f = 0 := h.pinners_eq_zero hf (fun _ _ _ he => by cases he)
  constructor
  · intro b y hy
    rw [hb', getElem?_map, Option.map_eq_some_iff] at hy
    obtain ⟨x, hx, rfl⟩ := hy
    have hxp := not_pinsOn_of_pinners h0 hx
    have hxok := h.backend hx
    rw [hf']
    by_cases hw : x.waitsOn f = true
    · -- a waiter of the frame asked for the page that was loaded
      cases x with
      | waiting g q r =>
        have hg : g = f := by simpa [waitsOn] using hw
        subst hg
        obtain ⟨io', hq⟩ := hxok
        rw [hf] at hq; cases hq
        cases ok
        · simp [handed, BackendOk]
        · rw [if_pos rfl] at hfr
          have hpin : (Backend.waiting g p r).handed g true = .pinned g p := by simp [handed]
          rw [hpin]
          exact ⟨_, _, by rw [getElem?_set_self hlt, hfr]⟩
      | idle | request q r | miss q r | reserved g q r | pinned g q | reading g q | writing g q => cases hw
    · have hw : x.waitsOn f = false := by simpa using hw
      rw [handed_eq_self hw]
      exact hxok.avoid hw hxp
  · intro g q n d hg
    rw [State.pinners, hb', pinners_handed h0 g ok]
    rw [hf', getElem?_set] at hg
    split at hg
    · rename_i e
      subst e
      rw [if_pos rfl]
      cases ok
      · rw [hfr] at hg; cases hg
      · rw [hfr, if_pos rfl] at hg
        cases hg; rfl
    · rename_i e
      rw [if_neg (fun he => e he.symm)]
      exact h.count hg
  · intro b c g q x hb hc ha
    rw [hb', getElem?_map, Option.map_eq_some_iff] at hb hc
    obtain ⟨y, hy, hye⟩ := hb
    obtain ⟨z, hz, rfl⟩ := hc
    rw [writing_of_handed hye] at hy
    rw [accesses_handed] at ha
    exact h.alone hy hz ha

/-! ## Every move -/

theorem Pins.init (hs : s ∈ m.initStates) : Pins s := by
  rw [BufferModel.initStates, mem_singleton] at hs
  subst hs
  constructor
  · intro b x hx
    simp only [getElem?_replicate] at hx
    split at hx <;> cases hx
    trivial
  · intro f p n d hf
    simp only [getElem?_replicate] at hf
    split at hf <;> cases hf
  · intro b c f p x hb _ _
    simp only [getElem?_replicate] at hb
    split at hb <;> cases hb

theorem Pins.congr (h : Pins s) (hf : s'.frames = s.frames) (hb : s'.backends = s.backends) : Pins s' := by
  constructor
  · rw [hf, hb]; exact h.backend
  · unfold State.pinners; rw [hf, hb]; exact h.count
  · rw [hb]; exact h.alone

/-- Frame `f` alone changes, to one that no waiter and no pin can tell apart. -/
theorem Pins.reframe (h : Pins s) (hf : s.frames[f]? = some fr) (hf' : s'.frames = s.frames.set f fr')
    (hb' : s'.backends = s.backends) (hk : fr.Keeps fr') (hr : ∀ p n d, fr' = .ready p n d → n = s.pinners f) :
    Pins s' := by
  constructor
  · intro b x hx
    rw [hb'] at hx
    rw [hf']
    exact (h.backend hx).keep hf hk
  · intro g p n d hg
    rw [State.pinners, hb']
    rw [hf'] at hg
    exact h.count_set hr g p n d hg
  · rw [hb']; exact h.alone

/-- A victim frame loses its page: nobody holds a pin on it and nobody waits for it. -/
theorem Pins.reserve (h : Pins s) {q : Nat} {r d : Bool} (hb : s.backends[b]? = some (.miss p r))
    (hf : s.frames[f]? = some (.ready q 0 d)) (hf' : s'.frames = s.frames.set f fr')
    (hb' : s'.backends = s.backends.set b (.reserved f p r)) (hr : ∀ p n d, fr' ≠ .ready p n d) : Pins s' := by
  have h0 : s.pinners f = 0 := (h.count hf).symm
  refine h.quiet hb hb' rfl rfl ?_ trivial ?_
  · intro c z _ hz
    rw [hf']
    refine (h.backend hz).avoid ?_ (not_pinsOn_of_pinners h0 hz)
    have hzok := h.backend hz
    cases z with
    | waiting g k r =>
      obtain ⟨io, hg⟩ := hzok
      have hne : g ≠ f := by rintro rfl; rw [hf] at hg; cases hg
      simpa [waitsOn] using hne
    | idle | request k r | miss k r | reserved g k r | pinned g k | reading g k | writing g k => rfl
  · rw [hf']
    exact h.count_set (fun p n d he => absurd he (hr p n d))

/-- Releasing a pin on a frame that counts it. -/
theorem Pins.unpin (h : Pins s) (hb : s.backends[b]? = some (.pinned f p)) (hf : s.frames[f]? = some fr)
    (hr : fr.releasePin = .ok fr') (hf' : s'.frames = s.frames.set f fr')
    (hb' : s'.backends = s.backends.set b .idle) : Pins s' := by
  obtain ⟨n, d, hready⟩ := h.backend hb
  rw [hf] at hready; cases hready
  obtain ⟨k, hk, hfr'⟩ := except_bind_ok.1 hr
  obtain ⟨hn, rfl⟩ := Result.sub_eq_ok.1 hk
  cases hfr'
  have hlt : f < s.frames.length := lt_of_get hf
  have hkeep : (Frame.ready p n d).Keeps (.ready p (n - 1) d) :=
    ⟨fun _ _ he => (by cases he), fun _ _ _ he => by cases he; exact ⟨n - 1, d, rfl, id⟩⟩
  refine h.change hb hb' (fun c z _ hz => ?_) trivial ?_ ?_
  · rw [hf']
    exact (h.backend hz).keep hf hkeep
  · intro g q k e hg
    rw [hf', getElem?_set] at hg
    have hidle : pinsOn g .idle = false := rfl
    simp only [hidle, Bool.false_eq_true, if_false, Nat.add_zero]
    split at hg
    · rename_i he
      subst he
      cases hg
      have := h.count hf
      simp [pinsOn, pin]
      omega
    · rename_i he
      have := h.count hg
      simp [pinsOn, pin, he]
      omega
  · intro g c z _ _
    simp [writes, accesses]

theorem any_eq_false_getElem? {P : Backend → Bool} (h : s.backends.any P = false) {c : Nat}
    {z : Backend} (hz : s.backends[c]? = some z) : P z = false := by
  rw [any_eq_false] at h
  simpa using h z (mem_iff_getElem?.2 ⟨c, hz⟩)

/-- **Every move keeps pin accounting and latch safety.** -/
theorem Pins.move {a : Action} (h : Pins s) (hmap : Mapping s) (hm : Move m s a s') : Pins s' := by
  cases hm with
  | request hb _ | cancel hb =>
    exact h.quiet hb rfl rfl rfl (fun c z _ hz => h.backend hz) trivial (fun g p n d hg => h.count hg)
  | lookupMiss hb _ =>
    rcases hb with hb | hb
    · exact h.quiet hb rfl rfl rfl (fun c z _ hz => h.backend hz) trivial (fun g p n d hg => h.count hg)
    · exact h.quiet hb rfl rfl rfl (fun c z _ hz => h.backend hz) trivial (fun g p n d hg => h.count hg)
  | lookupHit hb ht hj =>
    have h0 : Pins { s with event := .none } := h.congr rfl rfl
    have hm0 : Mapping { s with event := .none } := hmap.congr rfl rfl
    rcases hb with hb | hb <;> exact h0.joined hm0 hb rfl ht hj
  | reserveDirty hb hf | reserveClean hb hf => exact h.reserve hb hf rfl rfl (fun _ _ _ he => by cases he)
  | reserveFree hb hf =>
    refine h.quiet hb rfl rfl rfl (fun c z _ hz => ?_) trivial ?_
    · exact (h.backend hz).keep hf (keeps_of_idle_frame (by simp) (by simp))
    · exact h.count_set (by simp)
  | publishLost hb hf ht hj =>
    -- giving the frame back comes first, then the join of the winner's frame
    have h0 : Pins { s with frames := s.frames.set _ .free, event := .none } :=
      h.reframe hf rfl rfl (keeps_of_idle_frame (by simp) (by simp)) (by simp)
    have hm0 : Mapping { s with frames := s.frames.set _ .free, event := .none } :=
      hmap.keep hf rfl rfl rfl
    exact (h0.joined hm0 hb rfl ht hj).congr rfl rfl
  | publishWon hb hf _ =>
    have hlt := lt_of_get hf
    refine h.quiet hb rfl rfl rfl (fun c z _ hz => ?_) ⟨false, by simp [hlt]⟩ ?_
    · exact (h.backend hz).keep hf (keeps_of_idle_frame (by simp) (by simp))
    · exact h.count_set (by simp)
  | submit hf =>
    refine h.reframe hf rfl rfl ⟨fun p io he => ?_, by simp⟩ (by simp)
    cases he; exact ⟨true, rfl⟩
  | loadOk hf hd =>
    obtain ⟨hbs, hn⟩ := foldl_handOff _ true s.backends ⟨[], 0, .none⟩
    rw [← hd] at hbs hn
    exact h.handOff true hf rfl (by simpa using hbs) (by simp [hn])
  | loadFail hf hd =>
    obtain ⟨hbs, -⟩ := foldl_handOff _ false s.backends ⟨[], 0, .none⟩
    rw [← hd] at hbs
    exact h.handOff false hf rfl (by simpa using hbs) (by simp)
  | flushOk hf => exact h.reframe hf rfl rfl (keeps_of_idle_frame (by simp) (by simp)) (by simp)
  | flushFail hf hb =>
    have h0 : s.pinners _ = 0 := h.pinners_eq_zero hf (by simp)
    refine h.quiet hb rfl rfl rfl (fun c z _ hz => ?_) trivial (h.count_set ?_)
    · exact (h.backend hz).keep hf (keeps_of_idle_frame (by simp) (by simp))
    · intro p n d he
      cases he; exact h0.symm
  | @read b f p hb hw =>
    have hok := h.backend hb
    refine h.change hb rfl (fun c z _ hz => h.backend hz) hok ?_ ?_
    · intro g p n d hg
      rw [h.count hg, pinsOn_reading]
    · intro g c z _ hz
      refine ⟨by simp [writes], fun ha => ?_⟩
      have hg : f = g := by simpa [accesses] using ha
      subst hg
      exact any_eq_false_getElem? hw hz
  | @write b f p fr hb hw hf =>
    obtain ⟨n, d, hready⟩ := h.backend hb
    rw [hf] at hready; cases hready
    have hlt := lt_of_get hf
    have hacc := fun c z (hz : s.backends[c]? = some z) => any_eq_false_getElem? hw hz
    refine h.change hb rfl (fun c z _ hz => ?_) ⟨n, by simp [hlt, Frame.markDirty]⟩ ?_ ?_
    · refine (h.backend hz).keep hf ⟨by simp, fun p n d he => ?_⟩
      cases he; exact ⟨_, true, rfl, fun _ => rfl⟩
    · intro g p k e hg
      have hk : k = s.pinners g := h.count_set (fun _ _ _ he => by cases he; exact h.count hf) g p k e hg
      rw [hk, pinsOn_writing]
    · intro g c z _ hz
      have hz0 := hacc c z hz
      constructor
      · intro hwg
        have hg : f = g := by simpa [writes] using hwg
        subst hg; exact hz0
      · intro hag
        have hg : f = g := by simpa [accesses] using hag
        subst hg
        cases z <;> simp_all [writes, accesses]
  | endAccess hb hx =>
    have hok := h.backend hb
    refine h.change hb rfl (fun c z _ hz => h.backend hz) ?_ ?_ ?_
    · rcases hx with rfl | rfl
      · exact hok
      · obtain ⟨n, hn⟩ := hok; exact ⟨n, true, hn⟩
    · intro g p n d hg
      rcases hx with rfl | rfl
      · rw [h.count hg, pinsOn_reading]
      · rw [h.count hg, pinsOn_writing]
    · intro g c z _ _
      simp [writes, accesses]
  | unpin hb hf hr => exact h.unpin hb hf hr rfl rfl

/-- Pin accounting and latch safety hold in every reachable state. -/
theorem reachable_pins (h : m.Reachable s) : Pins s := by
  induction h with
  | init hs => exact .init hs
  | step hs hacts ha hn ih => exact ih.move (reachable_mapping hs) (move_of_step hacts ha hn)

/-- A pin is counted: the frame of a pinned backend has a positive count. -/
theorem Pins.pinCount_pos (h : Pins s) (hb : s.backends[b]? = some (.pinned f p)) :
    ∃ n d, s.frames[f]? = some (.ready p (n + 1) d) := by
  obtain ⟨n, d, hf⟩ := h.backend hb
  have hpos : 0 < s.pinners f :=
    countP_pos_iff.2 ⟨_, mem_iff_getElem?.2 ⟨b, hb⟩, by simp [pinsOn, pin]⟩
  have hn := h.count hf
  exact ⟨n - 1, d, by rw [hf]; congr 2; omega⟩

/-- The decrement of an enabled `Unpin` does not underflow. -/
theorem Pins.unpin_ok (h : Pins s) {as : List Action} (hacts : m.actions s = .ok as) (ha : .unpin b ∈ as) :
    ∃ s', BufferModel.nextState s (.unpin b) = .ok s' := by
  obtain ⟨f, p, hb⟩ : ∃ f p, s.backends[b]? = some (.pinned f p) := guard_of_mem hacts ha
  obtain ⟨n, d, hf⟩ := h.pinCount_pos hb
  have hlt := lt_of_get hf
  have hblt := lt_of_get hb
  have hrel : (Frame.ready p (n + 1) d).releasePin = .ok (.ready p n d) := rfl
  refine ⟨{ s with frames := s.frames.set f (.ready p n d), backends := s.backends.set b .idle,
                   event := .none }, ?_⟩
  refine ok_then (Result.index_eq_ok.2 hb) (ok_then (Result.index_eq_ok.2 hf) (ok_then hrel ?_))
  exact ok_then (Result.setIndex_eq_ok.2 ⟨hlt, rfl⟩) (ok_then (Result.setIndex_eq_ok.2 ⟨hblt, rfl⟩) rfl)

/-- **Pin accounting and latch safety, for every size.**  In every reachable state a ready frame's
`pin_count` is the number of backends in `Pinned`, `Reading` or `Writing` on it and no other frame
has one; the frame of such a backend is ready with the backend's page; a writer is the only
backend that accesses its frame; the frame of a writer is dirty; and `Unpin` never underflows. -/
theorem pin_accounting_and_latch_safety (m : BufferModel) :
    ∀ s, m.Reachable s → (∀ (f : Nat) (fr : Frame), s.frames[f]? = some fr → match fr with
        | .ready _ n _ => n = s.pinners f
        | _ => s.pinners f = 0) ∧
      (∀ (b : Nat) (x : Backend) (pin : PinnedPage), s.backends[b]? = some x → x.pin = some pin →
        ∃ n d, s.frames[pin.frameId]? = some (.ready pin.pageId n d)) ∧
      (∀ (b c f p : Nat) (x : Backend), s.backends[b]? = some (.writing f p) →
        s.backends[c]? = some x → c ≠ b → x.accesses f = false) ∧
      (∀ b f p : Nat, s.backends[b]? = some (.writing f p) → ∃ n, s.frames[f]? = some (.ready p n true)) ∧
      (∀ (as : List Action) (b : Nat), m.actions s = .ok as → .unpin b ∈ as →
        ∃ s', BufferModel.nextState s (.unpin b) = .ok s') := by
  intro s hs
  have h := reachable_pins hs
  refine ⟨?_, ?_, ?_, ?_, ?_⟩
  · intro f fr hf
    split
    · exact h.count hf
    · rename_i hne
      exact h.pinners_eq_zero hf (fun p n d he => hne p n d he)
  · intro b x pin hb hpin
    have hok := h.backend hb
    cases x with
    | pinned f p | reading f p => cases hpin; exact hok
    | writing f p =>
      cases hpin
      obtain ⟨n, hn⟩ := hok
      exact ⟨n, true, hn⟩
    | idle | request p r | miss p r | reserved f p r | waiting f p r => cases hpin
  · intro b c f p x hb hc hne
    by_contra ha
    exact hne (h.alone hb hc (by simpa using ha)).symm
  · intro b f p hb
    exact h.backend hb
  · intro as b hacts ha
    exact h.unpin_ok hacts ha

/-- Two backends on one frame: one has the page pinned while the other writes it. -/
theorem pin_accounting_with_writer :
    let m : BufferModel := ⟨1, 1, 2, by decide, by decide, by decide⟩
    let s : State := ⟨[.ready 0 2 true], [.writing 0 0, .pinned 0 0], [some 0], .none⟩
    m.Reachable s ∧ s.pinners 0 = 2 ∧ (∃ s', BufferModel.nextState s (.unpin 1) = .ok s') := by
  intro m s
  have hs : m.Reachable s := BufferModel.replay_reachable
    [.request 0 0, .lookup 0, .reserve 0 0, .publish 0, .submit 0, .request 1 0, .lookup 1,
      .loadDone 0 true, .write 0]
    (BufferModel.Reachable.init (s := ⟨[.free], [.idle, .idle], [none], .none⟩) (mem_singleton.2 rfl)) rfl
  have h := pin_accounting_and_latch_safety m s hs
  exact ⟨hs, (h.1 0 _ rfl).symm, h.2.2.2.2 [.endAccess 0, .unpin 1] 1 rfl (by decide)⟩

end ChiliDB.Models
