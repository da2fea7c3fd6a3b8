import ChiliDB.Parser.Literals
import ChiliDB.Peg.Trees

/-!
# Leaves of a parse tree are accepted

Every leaf that the grammar makes passes the recogniser that `transform.rs` has for it: operators, keywords
and their sequences, numbers, quoted texts, and identifiers that are not reserved.

* `leaf_text` — the text of a leaf is what its rule has taken.
* `binaryOp_total`, `literal_total`, `identifier_total`, `frameBound_total`, … — one lemma for each recogniser.
-/

namespace ChiliDB.Sql.Grammar

open Effect List
open Peg
open Transform (token isReserved isIdentChar identifier keywordSequence)

/-- The parsed nodes of the SQL grammar. -/
abbrev Parsed := Peg.Parsed rules names

variable {n : Node} {i : Nat} {name : String} {e : Peg.Expr} {f : List Char → Option (List Char)}

/-- The characters of a parsed node, before what came behind it. -/
theorem Parsed.chars (h : Parsed n) (hi : rules[i]? = some ⟨name, e⟩) (hn : n.rule = name) :
    ∃ c c', Matches (.expr e) c (some (c', n.children)) ∧ c.rest = n.text.toList ++ c'.rest := by
  obtain ⟨c, c', hmatch, htext⟩ := h.of_rule valid hi hn
  obtain ⟨cs, hrest, _⟩ := hmatch.reaches
  refine ⟨c, c', hmatch, ?_⟩
  rw [htext, Cursor.text_of_rest hrest, String.toList_ofList]
  exact hrest

theorem Parsed.head {m : Node} {l : List Node} (h : Parsed n) (hc : n.children = m :: l) : Parsed m :=
  h.child (by rw [hc]; exact mem_cons_self)

/-- A leaf whose text `f` takes, before whatever came behind it. -/
structure Leaf (n : Node) (f : List Char → Option (List Char)) : Prop where
  nil : n.children = []
  taken : ∃ k, f (n.text.toList ++ k) = some k

/-- **The text of a leaf is what its rule has taken.** -/
theorem leaf_text (hi : rules[i]? = some ⟨name, e⟩) (hr : Reads (.expr e) f) (h : Parsed n)
    (hn : n.rule = name) : Leaf n f := by
  obtain ⟨c, c', hmatch, hrest⟩ := h.chars hi hn
  obtain ⟨hf, _, hnil⟩ := hr.ok_iff.1 hmatch
  rw [hrest] at hf
  exact ⟨hnil, c'.rest, hf⟩

variable {α : Type} {choices : List (String × α)}

/-- A leaf whose rule takes only the words of the transform. -/
theorem token_total (h : Leaf n f)
    (hf : ∀ t k, f (t ++ k) = some k → ∃ w ∈ choices.map Prod.fst, Accepts w t) : ∃ v, token n choices = .ok v := by
  obtain ⟨hnil, k, hk⟩ := h
  obtain ⟨w, hw, haccepts⟩ := hf _ _ hk
  obtain ⟨choice, hmem, rfl⟩ := mem_map.1 hw
  exact Transform.token_ok hnil hmem haccepts

/-! ## Keywords -/

variable {w : String}

theorem reads_word (hi : rules[i]? = some ⟨name, keyword w⟩) (hn : Peg.Rule.silent ⟨name, keyword w⟩ = true) :
    Reads (.expr (.ref name)) (word w) :=
  Reads.silent valid hi hn (reads_keyword w)

/-- A leaf that is one keyword. -/
theorem keyword_total {v : α} (h : Leaf n (word w)) : ∃ u, token n [(w, v)] = .ok u :=
  token_total h fun _ _ hk => ⟨_, mem_cons_self, word_accepts hk⟩

/-- A leaf that is one of two keywords. -/
theorem keywords_total {v v' : α} {w' : String} (h : Leaf n fun s => (word w s).or ((word w' s).or none)) :
    ∃ u, token n [(w, v), (w', v')] = .ok u := by
  refine token_total h fun t k hk => ?_
  rw [Option.or_none] at hk
  rcases Option.or_eq_some_iff.1 hk with hk | ⟨_, hk⟩
  · exact ⟨_, mem_cons_self, word_accepts hk⟩
  · exact ⟨_, mem_cons_of_mem _ mem_cons_self, word_accepts hk⟩

theorem sortDirection_total (h : Parsed n) (hn : n.rule = "SortDirection") :
    ∃ v, SortDirection.parse n = .ok v := by
  unfold SortDirection.parse
  rw [if_neg (by simp [hn])]
  exact keywords_total (leaf_text (i := 9) rfl (reads_choice (reads_or (reads_word (i := 113) rfl rfl)
    (reads_or (reads_word (i := 114) rfl rfl) reads_none))) h hn)

theorem frameUnits_total (h : Parsed n) (hn : n.rule = "FrameUnits") : ∃ v, FrameUnits.parse n = .ok v := by
  unfold FrameUnits.parse
  rw [if_neg (by simp [hn])]
  exact keywords_total (leaf_text (i := 19) rfl (reads_choice (reads_or (reads_word (i := 122) rfl rfl)
    (reads_or (reads_word (i := 123) rfl rfl) reads_none))) h hn)

theorem distinct_total (h : Parsed n) (hn : n.rule = "Distinct") : ∃ v, token n [("DISTINCT", ())] = .ok v :=
  keyword_total (leaf_text (i := 12) rfl (reads_word (i := 118) rfl rfl) h hn)

theorem isNot_total (h : Parsed n) (hn : n.rule = "IsNot") : ∃ v, token n [("NOT", ())] = .ok v :=
  keyword_total (leaf_text (i := 65) rfl (reads_word (i := 100) rfl rfl) h hn)

theorem notOp_total (h : Parsed n) (hn : n.rule = "NotOp") : ∃ v, token n [("NOT", UnaryOp.not)] = .ok v :=
  keyword_total (leaf_text (i := 61) rfl (reads_word (i := 100) rfl rfl) h hn)

/-! ## Symbols -/

variable {ws : List String}

/-- A leaf that is one of these symbols. -/
theorem symbols_total (hws : ws = choices.map Prod.fst) (h : Leaf n (symbols ws)) : ∃ v, token n choices = .ok v :=
  token_total h fun _ _ hk => hws ▸ symbols_accepts hk

theorem reads_symbol (w : String) : Reads (.expr (.seq [.lit w false, .ref "_ws"])) (symbols [w]) := by
  refine (reads_seq (reads_cons reads_lit (reads_cons reads_ws reads_nil))).congr fun s => ?_
  unfold symbols
  rw [findSome?_cons, findSome?_nil]
  cases dropText false w.toList s <;> rfl

theorem unaryOp_total (h : Parsed n) (hn : n.rule = "UnaryOp") :
    ∃ v, token n [("+", UnaryOp.plus), ("-", UnaryOp.minus)] = .ok v :=
  symbols_total rfl (leaf_text (i := 71) rfl (reads_symbols ["+", "-"]) h hn)

theorem star_total (h : Parsed n) (hn : n.rule = "Star") : ∃ v, token n [("*", Expr.wildcard)] = .ok v :=
  symbols_total rfl (leaf_text (i := 28) rfl (reads_symbol "*") h hn)

theorem binaryOp_total (h : Parsed n) (hn : n.rule ∈ ["OrOp", "AndOp", "AddOp", "MulOp", "CompareOp"]) :
    ∃ v, BinaryOp.parse n = .ok v := by
  unfold BinaryOp.parse
  simp only [mem_cons, not_mem_nil, or_false] at hn
  rcases hn with hn | hn | hn | hn | hn
  · simp only [hn]
    exact keyword_total (leaf_text (i := 57) rfl (reads_word (i := 98) rfl rfl) h hn)
  · simp only [hn]
    exact keyword_total (leaf_text (i := 59) rfl (reads_word (i := 99) rfl rfl) h hn)
  · simp only [hn]
    exact symbols_total rfl (leaf_text (i := 67) rfl (reads_symbols ["+", "-"]) h hn)
  · simp only [hn]
    exact symbols_total rfl (leaf_text (i := 69) rfl (reads_symbols ["*", "/", "%"]) h hn)
  · simp only [hn]
    exact symbols_total rfl (leaf_text (i := 63) rfl (reads_symbols ["<=", ">=", "<>", "!=", "=", "<", ">"]) h hn)

/-! ## Keyword sequences -/

/-- A leaf of several keywords. -/
theorem sequence_total (h : Leaf n (wordsRead (w :: ws))) (hws : ∀ v ∈ w :: ws, lettered v = true) :
    n.children = [] ∧ keywordSequence n (w :: ws) = .ok () := by
  obtain ⟨hnil, k, hk⟩ := h
  exact ⟨hnil, keywordSequence_ok hws hk⟩

theorem reads_two {a b : Peg.Expr} {v : String} (ha : Reads (.expr a) (word v)) (hb : Reads (.expr b) (word w)) :
    Reads (.expr (.seq [a, b])) (wordsRead [v, w]) :=
  reads_seq (reads_cons ha (reads_cons hb reads_nil))

theorem nullOrder_total (h : Parsed n) (hn : n.rule = "NullOrder") : ∃ v, NullOrder.parse n = .ok v := by
  obtain ⟨hnil, k, hk⟩ := leaf_text (i := 10) rfl (reads_seq (reads_cons (reads_word (i := 115) rfl rfl)
    (reads_cons (reads_choice (reads_or (reads_word (i := 116) rfl rfl)
      (reads_or (reads_word (i := 117) rfl rfl) reads_none))) reads_nil))) h hn
  obtain ⟨s, hnulls, hs⟩ := Option.bind_eq_some_iff.1 hk
  unfold NullOrder.parse
  rw [if_neg (by simp [hn]), Transform.leaf_ok hnil]
  simp only [bind, Except.bind]
  split
  · exact ⟨_, rfl⟩
  · rename_i hfirst
    rw [Option.bind_fun_some, Option.or_none] at hs
    rcases Option.or_eq_some_iff.1 hs with hs | ⟨_, hs⟩
    · have hread : wordsRead ["NULLS", "FIRST"] (n.text.toList ++ k) = some k := by simp [wordsRead, hnulls, hs]
      rw [keywordSequence_ok (by decide) hread] at hfirst
      exact absurd rfl hfirst
    · have hread : wordsRead ["NULLS", "LAST"] (n.text.toList ++ k) = some k := by simp [wordsRead, hnulls, hs]
      exact ⟨_, ok_then (keywordSequence_ok (by decide) hread) rfl⟩

/-- A sequence that matches: its first part does, and the rest behind it. -/
theorem matches_cons {es : List Peg.Expr} {c c' : Cursor} {ns : List Node}
    (h : Matches (.all (e :: es)) c (some (c', ns))) : ∃ c1 ns1 ns2, Matches (.expr e) c (some (c1, ns1)) ∧
      Matches (.all es) c1 (some (c', ns2)) ∧ ns = ns1 ++ ns2 := by
  rcases matches_all_cons.1 h with ⟨_, hr⟩ | ⟨c1, ns1, r, h1, h2, hr⟩
  · cases hr
  · obtain ⟨⟨c2, ns2⟩, rfl, heq⟩ := Option.map_eq_some_iff.1 hr.symm
    cases heq
    exact ⟨c1, ns1, ns2, h1, h2, rfl⟩

/-- `IS [NOT] NULL`. -/
theorem isNull_total (h : Parsed n) (hn : n.rule = "IsNull") : ∃ v, isNullSuffix n = .ok v := by
  obtain ⟨c, c', hmatch, hrest⟩ := h.chars (i := 64) rfl hn
  obtain ⟨c1, ns1, ns, h1, hm1, hns⟩ := matches_cons (matches_seq.1 hmatch)
  obtain ⟨c2, ns2, ns', h2, hm2, rfl⟩ := matches_cons hm1
  obtain ⟨c3, ns3, ns'', h3, hm3, rfl⟩ := matches_cons hm2
  cases matches_all_nil.1 hm3
  obtain ⟨his, _, rfl⟩ := (reads_word (i := 101) rfl rfl).ok_iff.1 h1
  obtain ⟨hnull, _, rfl⟩ := (reads_word (i := 102) rfl rfl).ok_iff.1 h3
  obtain ⟨r, hr, heq⟩ := matches_optional.1 h2
  have hleaf := (Reads.leaf valid (i := 65) rfl rfl (reads_word (i := 100) rfl rfl)).1 hr
  rw [hrest] at his
  cases hnot : word "NOT" c1.rest with
  | none =>
    rw [hleaf, hnot] at heq
    cases heq
    have hread : wordsRead ["IS", "NULL"] (n.text.toList ++ c'.rest) = some c'.rest := by
      simp [wordsRead, his, hnull]
    exact ⟨_, isNullSuffix_ok (o := none) hns (by simp) (by simp) (keywordSequence_ok (by decide) hread)⟩
  | some rest =>
    rw [hleaf, hnot] at heq
    cases heq
    have hread : wordsRead ["IS", "NOT", "NULL"] (n.text.toList ++ c'.rest) = some c'.rest := by
      rw [Cursor.to_rest] at hnull
      simp [wordsRead, his, hnot, hnull]
    have hchild : n.children = [_] := hns
    refine ⟨_, isNullSuffix_ok (o := some _) hns (by simp) ?_ (keywordSequence_ok (by decide) hread)⟩
    rintro k ⟨⟩
    exact isNot_total (h.head hchild) rfl

/-! ## Frames -/

/-- A leaf of digits. -/
theorem digits_total (h : Leaf n f) (hf : ∀ s rest, f s = some rest → digitsRead s = some rest) :
    n.children = [] ∧ n.text ≠ "" ∧ n.text.toList.all Char.isDigit = true := by
  obtain ⟨hnil, k, hk⟩ := h
  obtain ⟨d, hd, hdigits, _⟩ := digitsRead_eq_some (hf _ _ hk)
  have htext : n.text.toList = d := (append_left_inj k).1 hd
  refine ⟨hnil, ?_, by rw [htext]; exact hdigits.all⟩
  intro hempty
  rw [hempty] at htext
  exact hdigits.ne_nil htext.symm

theorem offset_total (h : Parsed n) (hn : n.rule = "Offset") :
    n.children = [] ∧ n.text ≠ "" ∧ n.text.toList.all Char.isDigit = true := by
  refine digits_total (leaf_text (i := 27) rfl reads_offset h hn) fun s rest hs => ?_
  obtain ⟨s', hdigits, hs'⟩ := Option.bind_eq_some_iff.1 hs
  split at hs'
  · cases hs'
  · cases hs'
    exact hdigits

theorem length_total (h : Parsed n) (hn : n.rule = "Length") :
    n.children = [] ∧ n.text ≠ "" ∧ n.text.toList.all Char.isDigit = true :=
  digits_total (leaf_text (i := 41) rfl reads_digits h hn) fun _ _ hs => hs

/-- A bound with an offset. -/
theorem frameOffset_total (hi : rules[i]? = some ⟨name, .seq [.ref "Offset", .ref "_ws", .ref w]⟩)
    (hw : silentName w = true) (h : Parsed n) (hn : n.rule = name) : ∃ v, frameOffset n = .ok v := by
  have hshape := h.shape valid hi hn
  rw [shape_seq, shapeAll_loud (by decide)] at hshape
  obtain ⟨k, l, hchildren, hk, hl⟩ := hshape
  rw [shapeAll_silent (by decide), shapeAll_silent hw, shapeAll_nil] at hl
  subst hl
  obtain ⟨hnil, hne, hall⟩ := offset_total (h.head hchildren) hk
  exact ⟨_, frameOffset_ok hchildren hk hnil hne hall⟩

/-- A bound of keywords. -/
theorem frameWords_total {value : FrameBound} (h : Leaf n (wordsRead (w :: ws)))
    (hws : ∀ v ∈ w :: ws, lettered v = true) : ∃ v, frameWords n value (w :: ws) = .ok v := by
  obtain ⟨hnil, hwords⟩ := sequence_total h hws
  exact ⟨_, frameWords_ok hnil hwords⟩

theorem frameBound_total (h : Parsed n) (hn : n.rule = "FrameBound") : ∃ v, FrameBound.parse n = .ok v := by
  have hshape := h.shape valid (i := 21) rfl hn
  simp (disch := decide) only [shape_choice, shapeAny_cons, shapeAny_nil, shape_loud, or_false] at hshape
  obtain ⟨bound, hchildren, hbound⟩ : ∃ bound, n.children = [bound] ∧ (bound.rule = "UnboundedPreceding" ∨
      bound.rule = "UnboundedFollowing" ∨ bound.rule = "CurrentRow" ∨ bound.rule = "Preceding" ∨
      bound.rule = "Following") := by
    rcases hshape with ⟨b, hb, hr⟩ | ⟨b, hb, hr⟩ | ⟨b, hb, hr⟩ | ⟨b, hb, hr⟩ | ⟨b, hb, hr⟩ <;>
      exact ⟨b, hb, by simp [hr]⟩
  have hp : Parsed bound := h.head hchildren
  unfold FrameBound.parse
  rw [if_neg (by simp [hn]), hchildren]
  rcases hbound with hb | hb | hb | hb | hb
  · simp only [hb]
    exact frameWords_total (leaf_text (i := 22) rfl
      (reads_two (reads_word (i := 125) rfl rfl) (reads_word (i := 126) rfl rfl)) hp hb) (by decide)
  · simp only [hb]
    exact frameWords_total (leaf_text (i := 23) rfl
      (reads_two (reads_word (i := 125) rfl rfl) (reads_word (i := 127) rfl rfl)) hp hb) (by decide)
  · simp only [hb]
    exact frameWords_total (leaf_text (i := 24) rfl
      (reads_two (reads_word (i := 128) rfl rfl) (reads_word (i := 129) rfl rfl)) hp hb) (by decide)
  · simp only [hb]
    obtain ⟨v, hv⟩ := frameOffset_total (i := 25) rfl (by decide) hp hb
    exact ⟨_, ok_then hv rfl⟩
  · simp only [hb]
    obtain ⟨v, hv⟩ := frameOffset_total (i := 26) rfl (by decide) hp hb
    exact ⟨_, ok_then hv rfl⟩

theorem windowFrame_total (h : Parsed n) (hn : n.rule = "WindowFrame") : ∃ v, WindowFrame.parse n = .ok v := by
  have hshape := h.shape valid (i := 18) rfl hn
  rw [shape_seq, shapeAll_loud (by decide)] at hshape
  obtain ⟨u, l, hchildren, hu, hl⟩ := hshape
  obtain ⟨ns, l', rfl, hchoice, hnil⟩ := hl
  obtain rfl := shapeAll_nil.1 hnil
  rw [append_nil] at hchildren
  obtain ⟨units, hunits⟩ := frameUnits_total (h.head hchildren) hu
  simp (disch := decide) only [shape_choice, shapeAny_cons, shapeAny_nil, shape_loud, or_false] at hchoice
  rcases hchoice with ⟨w, rfl, hw⟩ | ⟨b, rfl, hb⟩
  · have hpw : Parsed w := h.child (by rw [hchildren]; simp)
    have hwshape := hpw.shape valid (i := 20) rfl hw
    simp (disch := decide) only [shape_seq, shapeAll_silent, shapeAll_loud, shapeAll_nil] at hwshape
    obtain ⟨b, l1, hwc, hb, b', l2, rfl, hb', rfl⟩ := hwshape
    obtain ⟨start, hstart⟩ := frameBound_total (hpw.child (by rw [hwc]; simp)) hb
    obtain ⟨stop, hstop⟩ := frameBound_total (hpw.child (by rw [hwc]; simp)) hb'
    exact ⟨_, windowFrame_between hn hchildren ⟨hu, hunits⟩ hw hwc ⟨hb, hstart⟩ ⟨hb', hstop⟩⟩
  · obtain ⟨start, hstart⟩ := frameBound_total (h.child (by rw [hchildren]; simp)) hb
    exact ⟨_, windowFrame_from hn hchildren ⟨hu, hunits⟩ ⟨hb, hstart⟩⟩

/-! ## Types and constraints -/

/-- A leaf that is one of these words. -/
theorem oneWord_total (hws : ws = choices.map Prod.fst) (h : Leaf n (oneWord ws)) : ∃ v, token n choices = .ok v :=
  token_total h fun _ _ hk => hws ▸ oneWord_accepts hk

/-- `VARCHAR` without a length. -/
theorem varchar_total (h : Parsed n) (hn : n.rule = "VarcharType") (hnil : n.children = []) :
    ∃ v, token n [("VARCHAR", DataType.varchar none)] = .ok v := by
  obtain ⟨c, c', hmatch, hrest⟩ := h.chars (i := 40) rfl hn
  obtain ⟨c1, ns1, l1, h1, hm1, hns⟩ := matches_cons (matches_seq.1 hmatch)
  obtain ⟨c2, ns2, l2, h2, hm2, rfl⟩ := matches_cons hm1
  obtain ⟨c3, ns3, l3, h3, hm3, rfl⟩ := matches_cons hm2
  obtain ⟨c4, ns4, l4, h4, hm4, rfl⟩ := matches_cons hm3
  cases matches_all_nil.1 hm4
  obtain ⟨hlit, _, rfl⟩ := reads_lit.ok_iff.1 h1
  obtain ⟨hboundary, _, rfl⟩ := reads_boundary.ok_iff.1 h2
  obtain ⟨hws, _, rfl⟩ := reads_ws.ok_iff.1 h3
  obtain ⟨r, hr, heq⟩ := matches_optional.1 h4
  cases r with
  | some m =>
    -- a length would be a child
    cases heq
    have hshape := hr.shape valid
    simp (disch := decide) only [shape_seq, shapeAll_silent, shapeAll_loud, shapeAll_nil] at hshape
    obtain ⟨k, l, rfl, _⟩ := hshape
    rw [hnil] at hns
    cases hns
  | none =>
    cases heq
    have hword : word "VARCHAR" (n.text.toList ++ c'.rest) = some c'.rest := by
      rw [← hrest]
      unfold word
      rw [hlit, Option.bind_some]
      split at hboundary
      · cases hboundary
      · rename_i hnext
        rw [if_neg hnext]
        rw [← Option.some.inj hboundary] at hws
        exact hws
    exact Transform.token_ok hnil mem_cons_self (word_accepts hword)

theorem dataType_total (h : Parsed n) (hn : n.rule = "DataType") : ∃ v, DataType.parse n = .ok v := by
  have hshape := h.shape valid (i := 33) rfl hn
  simp (disch := decide) only [shape_choice, shapeAny_cons, shapeAny_nil, shape_loud, or_false] at hshape
  obtain ⟨ty, hchildren, hty⟩ : ∃ ty, n.children = [ty] ∧ (ty.rule = "IntegerType" ∨ ty.rule = "BigIntType" ∨
      ty.rule = "TextType" ∨ ty.rule = "BooleanType" ∨ ty.rule = "RealType" ∨ ty.rule = "DoubleType" ∨
      ty.rule = "VarcharType") := by
    rcases hshape with ⟨b, hb, hr⟩ | ⟨b, hb, hr⟩ | ⟨b, hb, hr⟩ | ⟨b, hb, hr⟩ | ⟨b, hb, hr⟩ | ⟨b, hb, hr⟩ |
      ⟨b, hb, hr⟩ <;> exact ⟨b, hb, by simp [hr]⟩
  have hp : Parsed ty := h.head hchildren
  unfold DataType.parse
  rw [if_neg (by simp [hn]), hchildren]
  rcases hty with hr | hr | hr | hr | hr | hr | hr
  · simp only [hr]
    exact oneWord_total rfl (leaf_text (i := 34) rfl (reads_oneWord ["INTEGER", "INT"]) hp hr)
  · simp only [hr]
    exact keyword_total (leaf_text (i := 35) rfl (reads_keyword "BIGINT") hp hr)
  · simp only [hr]
    exact keyword_total (leaf_text (i := 36) rfl (reads_keyword "TEXT") hp hr)
  · simp only [hr]
    exact oneWord_total rfl (leaf_text (i := 37) rfl (reads_oneWord ["BOOLEAN", "BOOL"]) hp hr)
  · simp only [hr]
    exact keyword_total (leaf_text (i := 38) rfl (reads_keyword "REAL") hp hr)
  · simp only [hr]
    exact keyword_total (leaf_text (i := 39) rfl (reads_keyword "DOUBLE") hp hr)
  · simp only [hr]
    have hshape := hp.shape valid (i := 40) rfl hr
    rw [shape_seq, shapeAll_lit, shapeAll_predicate, shapeAll_silent (by decide)] at hshape
    obtain ⟨ns, l, hns, hopt, hnil⟩ := hshape
    rw [shapeAll_nil.1 hnil, append_nil] at hns
    rw [Shape] at hopt
    rcases hopt with rfl | hopt
    · obtain ⟨v, hv⟩ := varchar_total hp hr hns
      refine ⟨v, ok_then (Transform.optional_none (by simp [hns])) ?_⟩
      exact ok_then (Transform.finish_ok (by simp [hns])) hv
    · simp (disch := decide) only [shape_seq, shapeAll_silent, shapeAll_loud, shapeAll_nil] at hopt
      obtain ⟨k, l, rfl, hk, rfl⟩ := hopt
      obtain ⟨b, c, hoptional, hb, hc⟩ := Transform.optional_some (c := Transform.Children.new ty)
        (by rw [Transform.Children.new_nodes, hns]) hk
      obtain ⟨hleaf, hne, hall⟩ := length_total (hp.child (by rw [hns]; simp)) hk
      refine ⟨.varchar (some k.text), ok_then hoptional (ok_then (a := k.text) ?_ ?_)⟩
      · rw [hb]
        exact Transform.leaf_ok hleaf
      · rw [if_neg (by simp [hne, hall])]
        exact ok_then (Transform.finish_ok hc) rfl

/-- A constraint of keywords. -/
theorem constraintWords_total {value : ColumnConstraint} (h : Leaf n (wordsRead (w :: ws)))
    (hws : ∀ v ∈ w :: ws, lettered v = true) : ∃ v, constraintWords n value (w :: ws) = .ok v := by
  obtain ⟨hnil, hwords⟩ := sequence_total h hws
  unfold constraintWords
  exact ⟨_, ok_then (Transform.leaf_ok hnil) (ok_then hwords rfl)⟩

theorem constraint_total (h : Parsed n) (hn : n.rule = "Constraint") : ∃ v, ColumnConstraint.parse n = .ok v := by
  have hshape := h.shape valid (i := 42) rfl hn
  simp (disch := decide) only [shape_choice, shapeAny_cons, shapeAny_nil, shape_loud, or_false] at hshape
  obtain ⟨k, hchildren, hk⟩ : ∃ k, n.children = [k] ∧
      (k.rule = "NotNull" ∨ k.rule = "PrimaryKey" ∨ k.rule = "Unique") := by
    rcases hshape with ⟨b, hb, hr⟩ | ⟨b, hb, hr⟩ | ⟨b, hb, hr⟩ <;> exact ⟨b, hb, by simp [hr]⟩
  have hp : Parsed k := h.head hchildren
  unfold ColumnConstraint.parse
  rw [if_neg (by simp [hn]), hchildren]
  rcases hk with hr | hr | hr
  · simp only [hr]
    exact constraintWords_total (leaf_text (i := 43) rfl
      (reads_two (reads_word (i := 100) rfl rfl) (reads_word (i := 102) rfl rfl)) hp hr) (by decide)
  · simp only [hr]
    exact constraintWords_total (leaf_text (i := 44) rfl
      (reads_two (reads_word (i := 105) rfl rfl) (reads_word (i := 106) rfl rfl)) hp hr) (by decide)
  · simp only [hr]
    refine constraintWords_total (leaf_text (i := 45) rfl ((reads_word (i := 107) rfl rfl).congr fun s => ?_) hp hr)
      (by decide)
    simp [wordsRead, Option.bind_fun_some]

/-! ## Values -/

theorem literal_total (h : Parsed n) (hn : n.rule ∈ ["Number", "String", "Null", "True", "False"]) :
    ∃ v, Literal.parse n = .ok v := by
  unfold Literal.parse
  simp only [mem_cons, not_mem_nil, or_false] at hn
  rcases hn with hn | hn | hn | hn | hn
  · simp only [hn]
    obtain ⟨hnil, k, hk⟩ := leaf_text (i := 74) rfl reads_number h hn
    refine ⟨.number n.text, ok_then (Transform.leaf_ok hnil) ?_⟩
    rw [if_pos (number_text hk)]
    rfl
  · simp only [hn]
    obtain ⟨hnil, k, hk⟩ := leaf_text (i := 75) rfl reads_string h hn
    obtain ⟨body, htext, hdoubled⟩ := stringRead_text hk
    exact ⟨_, ok_then (unquote_ok hnil htext hdoubled) rfl⟩
  · simp only [hn]
    exact keyword_total (leaf_text (i := 76) rfl (reads_word (i := 102) rfl rfl) h hn)
  · simp only [hn]
    exact keyword_total (leaf_text (i := 77) rfl (reads_word (i := 103) rfl rfl) h hn)
  · simp only [hn]
    exact keyword_total (leaf_text (i := 78) rfl (reads_word (i := 104) rfl rfl) h hn)

/-- No bare identifier in the tree is a reserved word. -/
def Unreserved (n : Node) : Prop := ∀ m, n.Has m → m.rule = "BareIdentifier" → isReserved m.text.toList = false

theorem Unreserved.child {m : Node} (h : Unreserved n) (hm : m ∈ n.children) : Unreserved m :=
  fun _ hk hr => h _ (.child hm hk) hr

theorem bareIdentifier_total (h : Parsed n) (hn : n.rule = "BareIdentifier")
    (hreserved : isReserved n.text.toList = false) : ∃ v, Transform.bareIdentifier n = .ok v := by
  obtain ⟨hnil, k, hk⟩ := leaf_text (i := 81) rfl reads_bareIdentifier h hn
  unfold bareIdentifier at hk
  split at hk
  · cases hk
  obtain ⟨s, hdrop, hs⟩ := Option.map_eq_some_iff.1 hk
  obtain ⟨a, ha, hstart⟩ := dropChar_eq_some.1 hdrop
  have hsplit := takeWhile_append_dropWhile (p := isIdentChar) (l := s)
  rw [hs] at hsplit
  have htext : n.text.toList = a :: s.takeWhile isIdentChar := by
    apply (append_left_inj k).1
    rw [ha, cons_append, hsplit]
  refine ⟨_, Transform.bareIdentifier_ok hnil ?_ ?_ hreserved⟩
  · rw [htext]
    exact hstart
  · rw [htext, all_cons, Bool.and_eq_true, all_eq_true]
    refine ⟨?_, fun c hc => mem_takeWhile_imp hc⟩
    unfold isIdentStart at hstart
    unfold isIdentChar Char.isAlphanum
    cases hal : a.isAlpha <;> simp_all

theorem identifier_total (h : Parsed n) (hn : n.rule = "Identifier") (hreserved : Unreserved n) :
    ∃ v, identifier n = .ok v := by
  have hshape := h.shape valid (i := 79) rfl hn
  simp (disch := decide) only [shape_choice, shapeAny_cons, shapeAny_nil, shape_loud, or_false] at hshape
  rcases hshape with ⟨m, hchildren, hm⟩ | ⟨m, hchildren, hm⟩
  · have hp : Parsed m := h.head hchildren
    obtain ⟨hnil, k, hk⟩ := leaf_text (i := 80) rfl reads_quotedIdentifier hp hm
    obtain ⟨body, htext, hdoubled, hbody⟩ := quotedIdentifierRead_text hk
    refine ⟨_, Transform.identifier_ok hn hchildren (.inl ⟨hm, unquote_ok hnil htext hdoubled, ?_⟩)⟩
    intro hempty
    exact unquoted_ne_nil hbody (String.ofList_eq_empty_iff.1 hempty)
  · have hp : Parsed m := h.head hchildren
    have hmem : n.Has m := .child (by rw [hchildren]; exact mem_cons_self) (.self m)
    obtain ⟨v, hv⟩ := bareIdentifier_total hp hm (hreserved m hmem hm)
    exact ⟨v, Transform.identifier_ok hn hchildren (.inr ⟨hm, hv⟩)⟩

end ChiliDB.Sql.Grammar
