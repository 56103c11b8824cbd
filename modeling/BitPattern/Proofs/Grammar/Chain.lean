import BitPattern.Proofs.Grammar.Quoted
import BitPattern.Proofs.Grammar.Spelling
import BitPattern.Proofs.Grammar.Turn
import BitPattern.Proofs.Text.Written

/-!
# Chains of operators

A chain is operands with operators between them, in any of their spellings and with a blank on
either side.  Each level of the grammar reads a chain up to the first operator that is not its own
to read, and makes of what it has read the tree that the rule of precedence says (`Takes`).  From
the tightest level to the loosest one that is more and more of the chain, and in the end all of it,
unless two comparisons meet: a level of comparisons takes one operator, and no looser level goes on
with another (`StopsAt`).  `Expr.parse_chain` says what that means for parsing.
-/

namespace BitPattern.Grammar

open BitPattern.Text Reader

/-! ## Chains -/

/-- A text is an identifier, a number or parentheses, of some value. -/
inductive IsOperand : List Char → Expr → Prop where
  | name {cs : List Char} {x : String} (h : identifier.run cs = some (x, [])) :
    IsOperand cs (.name x)
  | number {cs : List Char} {n : Int} (h : integer.run cs = some (.ok n, [])) :
    IsOperand cs (.int n)
  | group {cs : List Char} {e : Expr} (h : (parenthesized expr).run cs = some (.ok e, [])) :
    IsOperand cs e

/-- An operand of a chain. -/
structure Operand where
  text : String
  value : Expr
  isOperand : IsOperand text.toList value

/-- An operator of a chain in one of its spellings, and the operand after it. -/
structure Link where
  sign : String
  op : BinOp
  spelled : (sign, op) ∈ spellings
  operand : Operand

/-- The operator with the value of the operand. -/
def Link.entry (link : Link) : BinOp × Expr :=
  (link.op, link.operand.value)

/-- A chain: single spaces stand between operands and operators. -/
def chainText (first : Operand) (links : List Link) : String :=
  " ".intercalate (first.text :: links.flatMap fun link => [link.sign, link.operand.text])

/-- Links as they stand in a chain. -/
def linkChars (links : List Link) : List Char :=
  links.flatMap fun link => ' ' :: (link.sign.toList ++ ' ' :: link.operand.text.toList)

variable {q : Reader (Denoted Expr)} {k : Link} {links : List Link}

lemma linkChars_cons (k : Link) (links : List Link) : linkChars (k :: links) =
    ' ' :: (k.sign.toList ++ ' ' :: (k.operand.text.toList ++ linkChars links)) := by
  simp [linkChars]

lemma length_le_linkChars (links : List Link) : links.length ≤ (linkChars links).length := by
  induction links with
  | nil => exact Nat.le_refl _
  | cons k links ih =>
      rw [linkChars_cons]
      simp only [List.length_cons, List.length_append]
      omega

lemma toList_chainText (first : Operand) (links : List Link) :
    (chainText first links).toList = first.text.toList ++ linkChars links := by
  rw [chainText, toList_intercalate_cons, linkChars, List.flatMap_assoc]
  simp

lemma linkChars_behind (links : List Link) : Behind (linkChars links) := by
  cases links with
  | nil => exact .nil
  | cons k links =>
      rw [linkChars_cons]
      rintro c ⟨⟩
      decide

/-- No operand goes on with a link. -/
lemma linkChars_ends (links : List Link) : Ends 9 (linkChars links) := by
  cases links with
  | nil => exact ends_of_next fun c hc => by cases hc
  | cons k links =>
      have hrank : k.op.rank + 1 ≤ 9 := by cases k.op <;> decide
      rw [linkChars_cons]
      exact (ends_spelled k.spelled _).mono hrank

/-! ## Operands -/

/-- An operand is read with links behind it as it is read alone. -/
lemma IsOperand.application {cs : List Char} {e : Expr} (h : IsOperand cs e) (links : List Link) :
    (application expr).run (cs ++ linkChars links) = some (.ok e, linkChars links) := by
  have hbehind := linkChars_behind links
  cases h with
  | name h =>
      exact application_name ((identifier_local hbehind).run_eq_some h) (linkChars_ends links).paren
  | @number n h =>
      have hliteral : literal.run cs = some (.ok (.int n), []) := by
        rw [literal, run_rule, run_or, run_bind, h]
        rfl
      have hextends : Extends (linkChars links) (fun _ => True) literal literal :=
        literal_extends hbehind
      exact application_literal (hextends hliteral trivial)
  | group h =>
      have hextends : Extends (linkChars links) (fun _ => True) (parenthesized expr)
          (parenthesized expr) :=
        parenthesized_extends hbehind (expr_operands hbehind)
      exact application_group (hextends h trivial)

lemma IsOperand.exprAt {cs : List Char} {e : Expr} (h : IsOperand cs e) (links : List Link) :
    ExprAt (cs ++ linkChars links) :=
  .inl ((application_operands .nil (expr_operands .nil)).begins (h.application links))

/-- The last character of an operand is not blank. -/
lemma IsOperand.getLast {cs : List Char} {e : Expr} (h : IsOperand cs e) :
    ∀ c ∈ cs.getLast?, isBlank c = false := by
  have hword {α : Type} {value? : List Char → Option α} {a : α}
      (hr : (wordOf value?).run cs = some (a, [])) : ∀ c ∈ cs.getLast?, isBlank c = false := by
    intro c hc
    have hrest := (wordOf_eq_some.mp hr).2
    rw [takeWord_eq, List.dropWhile_eq_nil_iff] at hrest
    exact isBlank_eq_false (hrest c (List.mem_of_getLast? hc))
  cases h with
  | name h => exact hword h
  | number h => exact hword h
  | group h =>
      obtain ⟨u, rest, hopen, h⟩ := bind_eq_some.mp ((run_rule _ _).symm.trans h)
      rw [run_blank_bind] at h
      obtain ⟨inner, mid, hinner, h⟩ := bind_eq_some.mp h
      rw [run_blank_bind] at h
      obtain ⟨u', rest', hclose, h⟩ := bind_eq_some.mp h
      obtain rfl : rest' = [] := congrArg Prod.snd (Option.some.inj h)
      -- A group ends with its closing parenthesis.
      have hsuffix : [')'] <:+ cs := by
        have hclose : skipBlank false mid = [')'] := text_eq_some.mp hclose
        have hitems : Tracks (Shows []) (optional (items expr)) :=
          (items_shows List.not_mem_nil (expr_shows (List.nil_subset _) List.not_mem_nil)).optional
        rw [text_eq_some.mp hopen, ← hclose]
        exact ((skipBlank_suffix false mid).trans (hitems hinner).1).trans
          ((skipBlank_suffix false rest).trans (List.suffix_append _ _))
      obtain ⟨front, rfl⟩ := hsuffix
      intro c hc
      rw [List.getLast?_concat] at hc
      cases hc
      decide

/-- The operator of a link is read by its level, and then its operand. -/
lemma operation_link {e : Denoted Expr} {left : List Char}
    (hq : q.run (k.operand.text.toList ++ linkChars links) = some (e, left)) :
    (operation k.op.level.op q).run (linkChars (k :: links)) = some ((k.op, e), left) := by
  have hhead : armHead.run (k.operand.text.toList ++ linkChars links) = none :=
    Option.eq_none_iff_forall_ne_some.mpr fun r hr => (linkChars_ends links).arrow
      (heads_application hr (k.operand.isOperand.application links))
  rw [linkChars_cons]
  exact operation_spelled k.spelled (k.operand.isOperand.exprAt links).skipBlank_eq hhead hq

/-- No other level reads it, but for comparisons at the sign of a shift. -/
lemma operation_link_eq_none {l : Level} (hlevel : k.op.level ≠ l)
    (hshift : l = .comparison → k.op.level ≠ .shift) :
    (operation l.op q).run (linkChars (k :: links)) = none := by
  refine operation_eq_none ?_
  rw [linkChars_cons, skipBlank_spelled k.spelled]
  exact op_spelled_eq_none k.spelled hlevel hshift _

/-! ## What a level takes -/

/-- The levels from a rank on are done with a chain: the next operator is looser, or it is one more
comparison. -/
def StopsAt (n : Nat) (taken left : List Link) : Prop :=
  ∀ k ∈ left.head?, k.op.rank < n ∨
    n ≤ 2 ∧ k.op.compares = true ∧ Compared (taken.map Link.op)

/-- The first links of a chain are grouped by precedence. All of them are of some rank or above,
and the levels from another rank on are done with the rest. -/
structure Grouped (n m : Nat) (first : Operand) (taken left : List Link) (t : Expr) : Prop where
  groups : Groups first.value (taken.map Link.entry) t
  le_rank : ∀ k ∈ taken, n ≤ k.op.rank
  stops : StopsAt m taken left

/-- A reader takes the links of a rank or above from every chain. -/
def Takes (q : Reader (Denoted Expr)) (n : Nat) : Prop :=
  ∀ (first : Operand) (links : List Link), ∃ taken left t, links = taken ++ left ∧
    q.run (first.text.toList ++ linkChars links) = some (.ok t, linkChars left) ∧
    Grouped n n first taken left t

lemma StopsAt.append {n : Nat} {taken left : List Link} (h : StopsAt n taken left)
    (before : List Link) : StopsAt n (before ++ taken) left := by
  intro k hk
  refine (h k hk).imp_right fun ⟨hn, hcompares, hcompared⟩ => ⟨hn, hcompares, ?_⟩
  rw [List.map_append]
  exact hcompared.append _

lemma StopsAt.of_level_ne {l : Level} {taken left : List Link}
    (h : StopsAt (l.rank + 1) taken (k :: left)) (hlevel : k.op.level ≠ l) :
    StopsAt l.rank taken (k :: left) := by
  rintro _ ⟨⟩
  rcases h k rfl with hrank | ⟨hn, hcompares⟩
  · exact .inl (Nat.lt_of_le_of_ne (Nat.le_of_lt_succ hrank) fun heq =>
      hlevel (Level.rank_injective heq))
  · exact .inr ⟨by omega, hcompares⟩

/-- Behind a comparison and its right operand another comparison stops the levels. -/
lemma Grouped.stops_comparison {taken' left : List Link} {t : Expr}
    (h : Grouped 3 3 k.operand taken' left t) (hcompares : k.op.compares = true)
    (taken : List Link) : StopsAt 2 (taken ++ k :: taken') left := by
  intro j hj
  rcases h.stops j hj with hrank | ⟨hn, -⟩
  · rcases Nat.lt_or_eq_of_le (Nat.le_of_lt_succ hrank) with hlt | heq
    · exact .inl hlt
    · refine .inr ⟨Nat.le_refl _, BinOp.compares_iff.mpr heq, ?_⟩
      refine ⟨taken.map Link.op, k.op, taken'.map Link.op, by simp, hcompares, ?_⟩
      intro o ho
      obtain ⟨j', hj', rfl⟩ := List.mem_map.mp ho
      rw [← Bool.not_eq_true, BinOp.joins_iff]
      exact Nat.not_lt.mpr (Nat.le_of_succ_le (h.le_rank j' hj'))
  · exact absurd hn (by decide)

/-- A link of a level joins what was taken before it with what is taken behind it. -/
lemma Grouped.join {n m : Nat} {first : Operand} {taken taken' left left' : List Link} {t t' : Expr}
    (h : Grouped n m first taken left t) (h' : Grouped (n + 1) (n + 1) k.operand taken' left' t')
    (hrank : k.op.rank = n)
    (hcompare : k.op.compares = true → ∀ j ∈ taken, j.op.compares = false) :
    Groups first.value ((taken ++ k :: taken').map Link.entry) (.binary k.op t t') ∧
      ∀ j ∈ taken ++ k :: taken', n ≤ j.op.rank := by
  constructor
  · rw [List.map_append, List.map_cons]
    refine .split h.groups h'.groups ?_ ?_ ?_
    · simpa [hrank, Link.entry] using h.le_rank
    · simpa [Link.entry] using hcompare
    · simpa [hrank, Link.entry, Nat.succ_le_iff] using h'.le_rank
  · intro j hj
    rcases List.mem_append.mp hj with hj | hj
    · exact h.le_rank j hj
    · rcases List.mem_cons.mp hj with rfl | hj
      · exact Nat.le_of_eq hrank.symm
      · exact Nat.le_of_succ_le (h'.le_rank j hj)

/-- A level that groups to the left goes on with its operators. -/
lemma Takes.row {l : Level} (hl : l ≠ .comparison) (hq : Takes q (l.rank + 1)) {first : Operand}
    {taken left : List Link} {t : Expr} (h : Grouped l.rank (l.rank + 1) first taken left t) :
    ∃ more left' ops t', left = more ++ left' ∧ ops.length ≤ more.length ∧
      Row (operation l.op q) (linkChars left) ops (linkChars left') ∧
      (operation l.op q).run (linkChars left') = none ∧
      ops.foldl joinOperands (.ok t) = .ok t' ∧
      Grouped l.rank l.rank first (taken ++ more) left' t' := by
  -- On the number of links that are left: an operator of the level takes some of them along.
  induction hlength : left.length using Nat.strong_induction_on generalizing taken left t with
  | h n ih =>
      cases left with
      | nil =>
          refine ⟨[], [], [], t, rfl, Nat.le_refl _, .nil _, operation_eq_none l.op_nil, rfl, ?_⟩
          rw [List.append_nil]
          exact ⟨h.groups, h.le_rank, fun k hk => by cases hk⟩
      | cons k left =>
          by_cases hlevel : k.op.level = l
          · -- The operand behind the operator, and the two put together.
            obtain ⟨taken', left', t', rfl, hrun, hgrouped⟩ := hq k.operand left
            have hrank : k.op.rank = l.rank := by rw [BinOp.rank, hlevel]
            have hjoin := h.join hgrouped hrank fun hcompares => by
              rw [BinOp.compares, hlevel, beq_iff_eq] at hcompares
              exact absurd hcompares hl
            have hstops : StopsAt (l.rank + 1) (taken ++ k :: taken') left' := by
              have happend := hgrouped.stops.append (taken ++ [k])
              rwa [List.append_assoc] at happend
            have hshorter : left'.length < n := by
              rw [← hlength, List.length_cons, List.length_append]
              omega
            obtain ⟨more, left'', ops, t'', rfl, hops, hrow, hstop, hfold, hgrouped'⟩ :=
              ih _ hshorter ⟨hjoin.1, hjoin.2, hstops⟩ rfl
            refine ⟨k :: (taken' ++ more), left'', (k.op, .ok t') :: ops, t'', by simp, ?_, ?_,
              hstop, hfold, ?_⟩
            · simp only [List.length_cons, List.length_append]
              omega
            · have hop := operation_link hrun
              rw [hlevel] at hop
              exact .cons hop hrow
            · simpa using hgrouped'
          · -- An operator of another level ends the row.
            have hnone : (operation l.op q).run (linkChars (k :: left)) = none :=
              operation_link_eq_none hlevel fun hcomparison => absurd hcomparison hl
            refine ⟨[], k :: left, [], t, rfl, Nat.le_refl _, .nil _, hnone, rfl, ?_⟩
            rw [List.append_nil]
            exact ⟨h.groups, h.le_rank, h.stops.of_level_ne hlevel⟩

lemma Takes.chain {l : Level} (hl : l ≠ .comparison) (hq : Takes q (l.rank + 1)) :
    Takes (chain l.op q) l.rank := by
  intro first links
  obtain ⟨taken, left, t, rfl, hrun, hgrouped⟩ := hq first links
  obtain ⟨more, left', ops, t', rfl, hops, hrow, hstop, hfold, hgrouped'⟩ :=
    hq.row hl ⟨hgrouped.groups, fun k hk => Nat.le_of_succ_le (hgrouped.le_rank k hk),
      hgrouped.stops⟩
  refine ⟨taken ++ more, left', t', (List.append_assoc _ _ _).symm, ?_, hgrouped'⟩
  have hlimit : ops.length ≤ (linkChars (more ++ left')).length := by
    have hmore := length_le_linkChars (more ++ left')
    rw [List.length_append] at hmore
    omega
  rw [Grammar.chain, run_rule, ← hfold]
  exact bind_eq_some.mpr ⟨_, _, hrun, bind_eq_some.mpr ⟨ops, linkChars left',
    hrow.run_manyWithin (operation_eq_none l.op_nil) hstop hlimit, rfl⟩⟩

/-- The level of comparisons takes one operator, and no other one behind it. -/
lemma Takes.comparison (hq : Takes q (Level.comparison.rank + 1)) : Takes (comparison q) 2 := by
  intro first links
  obtain ⟨taken, left, t, rfl, hrun, hgrouped⟩ := hq first links
  have hle : ∀ k ∈ taken, 2 ≤ k.op.rank := fun k hk => Nat.le_of_succ_le (hgrouped.le_rank k hk)
  have hsingle (hnone : (operation Level.comparison.op q).run (linkChars left) = none) :
      (Grammar.comparison q).run (first.text.toList ++ linkChars (taken ++ left)) =
        some (.ok t, linkChars left) := by
    rw [Grammar.comparison, run_rule]
    exact bind_eq_some.mpr ⟨_, _, hrun, bind_eq_some.mpr ⟨none, _, run_optional_none hnone, rfl⟩⟩
  cases left with
  | nil =>
      exact ⟨taken, [], t, rfl, hsingle (operation_eq_none (Level.op_nil _)), hgrouped.groups, hle,
        fun k hk => by cases hk⟩
  | cons k left =>
      -- What is left begins with a looser operator, or a comparison.
      have hrank : k.op.rank < 3 := by
        rcases hgrouped.stops k rfl with hrank | ⟨hn, -⟩
        · exact hrank
        · exact absurd hn (by decide)
      by_cases hlevel : k.op.level = .comparison
      · obtain ⟨taken', left', t', rfl, hrun', hgrouped'⟩ := hq k.operand left
        have hop := operation_link hrun'
        have hcompares : k.op.compares = true := by rw [BinOp.compares, hlevel]; rfl
        -- There is no further comparison in either operand, since only tighter levels are.
        have htighter {links : List Link} (h : ∀ j ∈ links, 3 ≤ j.op.rank) :
            ∀ j ∈ links, j.op.compares = false := by
          intro j hj
          rw [← Bool.not_eq_true, BinOp.compares_iff]
          exact Nat.ne_of_gt (h j hj)
        have hgrouped2 : Grouped 2 3 first taken (k :: (taken' ++ left')) t :=
          ⟨hgrouped.groups, hle, hgrouped.stops⟩
        have hjoin := hgrouped2.join hgrouped' (BinOp.compares_iff.mp hcompares)
          fun _ => htighter hgrouped.le_rank
        refine ⟨taken ++ k :: taken', left', .binary k.op t t', by simp, ?_, hjoin.1, hjoin.2,
          hgrouped'.stops_comparison hcompares taken⟩
        rw [hlevel] at hop
        rw [Grammar.comparison, run_rule]
        refine bind_eq_some.mpr ⟨_, _, hrun, bind_eq_some.mpr ⟨some _, _,
          run_optional_some hop ?_, rfl⟩⟩
        rw [linkChars_cons]
        exact List.cons_ne_nil _ _
      · have hnone : (operation Level.comparison.op q).run (linkChars (k :: left)) = none :=
          operation_link_eq_none hlevel fun _ hshift => by
            rw [BinOp.rank, hshift] at hrank
            exact absurd hrank (by decide)
        exact ⟨taken, k :: left, t, rfl, hsingle hnone, hgrouped.groups, hle,
          hgrouped.stops.of_level_ne hlevel⟩

/-- No sign stands before an operand of a chain. -/
lemma Takes.prefixed {op : Reader UnOp} {apply : UnOp → Expr → Expr} {n : Nat}
    (hop : ∀ {cs}, OperandAt cs → op.run cs = none) (hq : Takes q n) :
    Takes (prefixed op apply q) n := by
  intro first links
  obtain ⟨taken, left, t, hlinks, hrun, hgrouped⟩ := hq first links
  have hat : OperandAt (first.text.toList ++ linkChars links) :=
    (application_operands .nil (expr_operands .nil)).begins (first.isOperand.application links)
  exact ⟨taken, left, t, hlinks, (prefixed_single (hop hat)).trans hrun, hgrouped⟩

/-- An operand takes no link. -/
lemma takes_application : Takes (application expr) 9 := by
  intro first links
  refine ⟨[], links, first.value, rfl, first.isOperand.application links, .single _, ?_, ?_⟩
  · exact fun k hk => absurd hk List.not_mem_nil
  · intro k _
    left
    cases k.op <;> decide

/-- An expression takes all links of a chain but for those from a second comparison on. -/
lemma takes_expr : Takes expr 0 := by
  have hoperand : Takes (signedOperand expr) 9 :=
    takes_application.prefixed OperandAt.unaryOp_eq_none
  have hproduct : Takes (chain Level.product.op _) 8 := hoperand.chain (l := .product) (by decide)
  have hsum : Takes (chain Level.sum.op _) 7 := hproduct.chain (l := .sum) (by decide)
  have hshift : Takes (chain Level.shift.op _) 6 := hsum.chain (l := .shift) (by decide)
  have hbitAnd : Takes (chain Level.bitAnd.op _) 5 := hshift.chain (l := .bitAnd) (by decide)
  have hbitXor : Takes (chain Level.bitXor.op _) 4 := hbitAnd.chain (l := .bitXor) (by decide)
  have hbitOr : Takes (arithmetic expr) 3 := hbitXor.chain (l := .bitOr) (by decide)
  have hnot : Takes (prefixed notOp .unary (comparison (arithmetic expr))) 2 :=
    hbitOr.comparison.prefixed OperandAt.notOp_eq_none
  have hand : Takes (chain Level.and.op _) 1 := hnot.chain (l := .and) (by decide)
  have hor : Takes (disjunction expr) 0 := hand.chain (l := .or) (by decide)
  intro first links
  rw [run_expr_eq]
  exact hor first links

/-! ## Whole chains -/

lemma getLast_operand (first : Operand) (links : List Link) :
    ∀ c ∈ (first.text.toList ++ linkChars links).getLast?, isBlank c = false := by
  induction links generalizing first with
  | nil =>
      rw [linkChars, List.flatMap_nil, List.append_nil]
      exact first.isOperand.getLast
  | cons k links ih =>
      obtain ⟨c, rest, hcons, -⟩ := (k.operand.isOperand.exprAt links).cons
      have hsplit : first.text.toList ++ linkChars (k :: links) =
          first.text.toList ++ ' ' :: (k.sign.toList ++ [' ']) ++
            (k.operand.text.toList ++ linkChars links) := by
        simp [linkChars_cons]
      rw [hsplit, List.getLast?_append_of_ne_nil _ (by simp [hcons])]
      exact ih k.operand

lemma stripChars_chain (first : Operand) (links : List Link) :
    stripChars (chainText first links).toList = first.text.toList ++ linkChars links := by
  obtain ⟨c, rest, hcons, hblank, -⟩ := (first.isOperand.exprAt links).cons_plain
  rw [toList_chainText]
  refine stripChars_eq_self (fun d hd => ?_) (getLast_operand first links)
  rw [hcons] at hd
  cases hd
  exact hblank

end BitPattern.Grammar

namespace BitPattern

open Grammar

/-- **Precedence.** A chain of operators parses to the tree that the rule of precedence makes of
it, and there is such a tree if and only if every run of operators between conjunctions and
disjunctions has one comparison at most. -/
theorem Expr.parse_chain (first : Operand) (links : List Link) :
    (∀ t, Expr.parse (chainText first links) = .ok t ↔
        Groups first.value (links.map Link.entry) t) ∧
      ((∃ t, Expr.parse (chainText first links) = .ok t) ↔ OneComparison (links.map Link.op)) := by
  obtain ⟨taken, left, t, hlinks, hrun, hgrouped⟩ := takes_expr first links
  have hops : (links.map Link.entry).map Prod.fst = links.map Link.op := by
    rw [List.map_map]
    rfl
  have hone {u : Expr} (h : Groups first.value (links.map Link.entry) u) :
      OneComparison (links.map Link.op) := hops ▸ h.oneComparison
  -- The chain is an expression if the reading comes to its end.
  have hparse (u : Expr) : Expr.parse (chainText first links) = .ok u ↔
      left = [] ∧ t = u := by
    rw [Expr.parse_eq_ok, stripChars_chain, hrun]
    have hleft : linkChars left = [] ↔ left = [] := by
      cases left with
      | nil => simp [linkChars]
      | cons k left => simp [linkChars_cons]
    simp [hleft, and_comm]
  cases left with
  | nil =>
      rw [List.append_nil] at hlinks
      subst hlinks
      have hsome : Expr.parse (chainText first links) = .ok t := (hparse t).mpr ⟨rfl, rfl⟩
      refine ⟨fun u => ⟨fun hu => ?_, fun hu => ?_⟩, fun _ => hone hgrouped.groups,
        fun _ => ⟨t, hsome⟩⟩
      · obtain ⟨-, rfl⟩ := (hparse u).mp hu
        exact hgrouped.groups
      · rw [hsome, hgrouped.groups.unique hu]
  | cons k left =>
      -- A second comparison stops every level.
      have hnot : ¬OneComparison (links.map Link.op) := by
        rcases hgrouped.stops k rfl with hrank | ⟨-, hcompares, hcompared⟩
        · exact absurd hrank (Nat.not_lt_zero _)
        · rw [hlinks, List.map_append, List.map_cons]
          exact hcompared.not_oneComparison hcompares _
      have hnone (u : Expr) : ¬Expr.parse (chainText first links) = .ok u := fun hu =>
        absurd ((hparse u).mp hu).1 (List.cons_ne_nil _ _)
      exact ⟨fun u => ⟨fun hu => absurd hu (hnone u), fun hu => absurd (hone hu) hnot⟩,
        fun ⟨u, hu⟩ => absurd hu (hnone u), fun h => absurd h hnot⟩

/-- A sum in a comparison in a conjunction, with a number in another radix and parentheses. -/
theorem Expr.parse_chain_mixed :
    Expr.parse "a < 0x10 + (b) and c" = .ok (.binary .and
      (.binary .lt (.name "a") (.binary .add (.int 16) (.name "b"))) (.name "c")) := by
  have hgroup : IsOperand "(b)".toList (.name "b") := .group (by decide +kernel)
  have hsum : Groups (.int 16) [(.add, .name "b")] (.binary .add (.int 16) (.name "b")) :=
    @Groups.split _ _ _ _ [] _ _ (.single _) (.single _) (by decide) (by decide) (by decide)
  have hcompare : Groups (.name "a") [(.lt, .int 16), (.add, .name "b")]
      (.binary .lt (.name "a") (.binary .add (.int 16) (.name "b"))) :=
    @Groups.split _ _ _ _ [] _ _ (.single _) hsum (by decide) (by decide) (by decide)
  exact ((Expr.parse_chain ⟨"a", .name "a", .name (by decide +kernel)⟩
    [⟨"<", .lt, by decide, "0x10", .int 16, .number (by decide +kernel)⟩,
      ⟨"+", .add, by decide, "(b)", .name "b", hgroup⟩,
      ⟨"and", .and, by decide, "c", .name "c", .name (by decide +kernel)⟩]).1 _).mpr
    (.split hcompare (.single _) (by decide) (by decide) (by decide))

end BitPattern
