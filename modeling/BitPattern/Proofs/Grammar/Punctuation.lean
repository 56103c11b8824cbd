import BitPattern.Proofs.Grammar.Expr
import BitPattern.Proofs.Grammar.Pattern
import BitPattern.Proofs.Grammar.Visible

/-!
# The punctuation of expressions and patterns

No expression shows a colon or a semicolon, and a comma only between parentheses; no pattern shows
any of the three.  So the first of these marks behind a pattern of a field is its colon, and the
first one behind a qualifier is the comma or the semicolon after it, or a comma inside: `firstMark`
tells the two apart without reading either.
-/

namespace BitPattern.Grammar

open BitPattern.Text Reader

variable {without : List Char} {α : Type}

/-! ## Signs and words -/

/-- A character that stands for itself and is no mark. -/
def isUnmarked (c : Char) : Bool :=
  isPlain c && !marks.contains c

/-- A text without marks shows none. -/
lemma sign_shows (hmarks : without ⊆ marks) (s : String) (hs : s.toList.all isUnmarked = true) :
    Tracks (Shows without) (text s) := by
  have hchar : ∀ c ∈ s.toList, isPlain c = true ∧ c ∉ marks := fun c hc => by
    simpa [isUnmarked] using List.all_eq_true.mp hs c hc
  exact text_shows s (List.all_eq_true.mpr fun c hc => (hchar c hc).1)
    fun c hc hmem => (hchar c hmem).2 (hmarks hc)

lemma spelled_shows (hmarks : without ⊆ marks) (s : String) (a : α)
    (hs : s.toList.all isUnmarked = true) : Tracks (Shows without) (spelled s a) :=
  (sign_shows hmarks s hs).bind fun _ => .pure a

lemma worded_shows (hmarks : without ⊆ marks) (s : String) (a : α) :
    Tracks (Shows without) (worded s a) :=
  (wordOf_shows hmarks _).bind fun _ => .pure a

lemma spelledBut_shows (hmarks : without ⊆ marks) (s next : String) (a : α)
    (hs : s.toList.all isUnmarked = true) :
    Tracks (Shows without) (spelledBut s next a) :=
  (sign_shows hmarks s hs).bind fun _ => (Tracks.absent _).bind fun _ => .pure a

lemma op_shows (hmarks : without ⊆ marks) (l : Level) : Tracks (Shows without) l.op := by
  have hsign {s : String} {o : BinOp} (hs : s.toList.all isUnmarked = true) :
      Tracks (Shows without) (spelled s o) := spelled_shows hmarks s o hs
  have hword {s : String} {o : BinOp} : Tracks (Shows without) (worded s o) :=
    worded_shows hmarks s o
  cases l with
  | or => exact .rule (.or (hsign (by decide)) hword)
  | and => exact .rule (.or (hsign (by decide)) hword)
  | comparison =>
      exact .rule (.or (hsign (by decide)) (.or (hsign (by decide)) (.or (hsign (by decide))
        (.or (hsign (by decide)) (.or (hsign (by decide)) (.or (hsign (by decide))
        (.or (hsign (by decide)) (hsign (by decide)))))))))
  | bitOr =>
      exact .rule (.or hword ((sign_shows hmarks _ (by decide)).bind fun _ =>
        (Tracks.absent _).bind fun _ => (Tracks.absent _).bind fun _ => .pure _))
  | bitXor => exact .rule (.or (hsign (by decide)) hword)
  | bitAnd => exact .rule (.or hword (spelledBut_shows hmarks _ _ _ (by decide)))
  | shift =>
      exact .rule (.or (hsign (by decide)) (.or (hsign (by decide)) (.or hword (.or hword hword))))
  | sum => exact .rule (.or (hsign (by decide)) (spelledBut_shows hmarks _ _ _ (by decide)))
  | product =>
      exact .rule (.or (hsign (by decide)) (.or (hsign (by decide))
        (.or (hsign (by decide)) hword)))

lemma unaryOp_shows (hmarks : without ⊆ marks) : Tracks (Shows without) unaryOp :=
  .rule (.or (spelled_shows hmarks _ _ (by decide)) (.or (spelled_shows hmarks _ _ (by decide))
    (worded_shows hmarks _ _)))

lemma notOp_shows (hmarks : without ⊆ marks) : Tracks (Shows without) notOp :=
  .rule (.or (worded_shows hmarks _ _) (spelledBut_shows hmarks _ _ _ (by decide)))

/-! ## Expressions -/

section

variable {p : Reader (Denoted Expr)}

lemma operation_shows (hmarks : without ⊆ marks) (l : Level) (hp : Tracks (Shows without) p) :
    Tracks (Shows without) (operation l.op p) :=
  .rule (blank_shows.bind fun _ => (op_shows hmarks l).bind fun _ => blank_shows.bind fun _ =>
    hp.bind fun _ => .pure _)

lemma chain_shows (hmarks : without ⊆ marks) (l : Level) (hp : Tracks (Shows without) p) :
    Tracks (Shows without) (chain l.op p) :=
  .rule (hp.bind fun _ => (operation_shows hmarks l hp).many.bind fun _ => .pure _)

lemma comparison_shows (hmarks : without ⊆ marks) (hp : Tracks (Shows without) p) :
    Tracks (Shows without) (comparison p) :=
  .rule (hp.bind fun _ => (operation_shows hmarks .comparison hp).optional.bind fun _ => .pure _)

lemma prefixedWithin_shows {op : Reader UnOp} {apply : UnOp → Expr → Expr}
    (hop : Tracks (Shows without) op) (hp : Tracks (Shows without) p) (limit : Nat) :
    Tracks (Shows without) (prefixedWithin op apply p limit) := by
  induction limit with
  | zero => exact hp
  | succ limit ih =>
      exact .rule (.or (.rule (hop.bind fun _ => blank_shows.bind fun _ => ih.bind fun _ =>
        .pure _)) hp)

lemma prefixed_shows {op : Reader UnOp} {apply : UnOp → Expr → Expr}
    (hop : Tracks (Shows without) op) (hp : Tracks (Shows without) p) :
    Tracks (Shows without) (prefixed op apply p) := by
  intro cs e left hr
  rw [run_prefixed] at hr
  exact prefixedWithin_shows hop hp _ hr

/-- A list of expressions shows commas. -/
lemma items_shows (hcomma : ',' ∉ without) (hp : Tracks (Shows without) p) :
    Tracks (Shows without) (items p) := by
  have htext : Tracks (Shows without) (text ",") :=
    text_shows "," (by decide) fun c hc hmem => by
      cases List.mem_singleton.mp hmem
      exact hcomma hc
  exact .rule (hp.bind fun _ => (Tracks.rule (blank_shows.bind fun _ => htext.bind fun _ =>
    blank_shows.bind fun _ => hp)).many.bind fun _ => (Tracks.rule (blank_shows.bind fun _ =>
      htext)).optional.bind fun _ => .pure _)

lemma brackets_shows (hmarks : without ⊆ marks) (hcomma : ',' ∉ without)
    (hp : Tracks (Shows without) p) (make : Option (List (Denoted Expr) × Bool) → Denoted Expr) :
    Tracks (Shows without) (brackets p make) :=
  (sign_shows hmarks _ (by decide)).bind fun _ => blank_shows.bind fun _ =>
    (items_shows hcomma hp).optional.bind fun _ => blank_shows.bind fun _ =>
      (sign_shows hmarks _ (by decide)).bind fun _ => .pure _

lemma application_shows (hmarks : without ⊆ marks) (hcomma : ',' ∉ without)
    (hp : Tracks (Shows without) p) : Tracks (Shows without) (application p) := by
  refine .rule (.or (.rule ?_) (.rule (.or (.rule (brackets_shows hmarks hcomma hp grouped))
    (.or (.rule ?_) ?_))))
  · exact (wordOf_shows hmarks _).bind fun name => blank_shows.bind fun _ =>
      brackets_shows hmarks hcomma hp fun args =>
        (.call name) <$> ((args.map Prod.fst).getD []).mapM id
  · exact .or ((wordOf_shows hmarks _).bind fun _ => .pure _)
      (.or ((stringLiteral_shows hmarks).bind fun _ => .pure _)
        ((wordOf_shows hmarks _).bind fun _ => .pure _))
  · exact (wordOf_shows hmarks _).bind fun _ => .pure _

lemma exprWithin_shows (hmarks : without ⊆ marks) (hcomma : ',' ∉ without) (limit : Nat) :
    Tracks (Shows without) (exprWithin limit) := by
  induction limit with
  | zero => exact fun _ _ _ hr => by cases hr
  | succ limit ih =>
      have hoperand : Tracks (Shows without) (signedOperand (exprWithin limit)) :=
        prefixed_shows (unaryOp_shows hmarks) (application_shows hmarks hcomma ih)
      have harithmetic : Tracks (Shows without) (arithmetic (exprWithin limit)) :=
        chain_shows hmarks .bitOr (chain_shows hmarks .bitXor (chain_shows hmarks .bitAnd
          (chain_shows hmarks .shift (chain_shows hmarks .sum (chain_shows hmarks .product
            hoperand)))))
      exact chain_shows hmarks .or (chain_shows hmarks .and (prefixed_shows (notOp_shows hmarks)
        (comparison_shows hmarks harithmetic)))

lemma expr_shows (hmarks : without ⊆ marks) (hcomma : ',' ∉ without) :
    Tracks (Shows without) expr := by
  intro cs e left hr
  rw [run_expr] at hr
  exact exprWithin_shows hmarks hcomma _ hr

end

/-! ## Patterns -/

lemma patternWithin_shows (hmarks : without ⊆ marks) (limit : Nat) :
    Tracks (Shows without) (patternWithin limit) := by
  induction limit with
  | zero => exact fun _ _ _ hr => by cases hr
  | succ limit ih =>
      have hgroup : Tracks (Shows without) (groupPattern (patternWithin limit)) :=
        .rule ((sign_shows hmarks _ (by decide)).bind fun _ => blank_shows.bind fun _ =>
          ih.bind fun _ => blank_shows.bind fun _ =>
            (sign_shows hmarks _ (by decide)).bind fun _ => .pure _)
      have hconstant : Tracks (Shows without) constant :=
        .rule (.or ((signedInteger_shows hmarks).bind fun _ => .pure _)
          ((stringLiteral_shows hmarks).bind fun _ => .pure _))
      have hwildcard : Tracks (Shows without) wildcard := wordOf_shows hmarks _
      have hatom : Tracks (Shows without) (atomPattern (patternWithin limit)) :=
        .rule (.or (hwildcard.bind fun _ => .pure _) (.or hconstant
          (.or ((wordOf_shows hmarks _).bind fun _ => .pure _) hgroup)))
      have hor : Tracks (Shows without) (orPattern (patternWithin limit)) :=
        .rule (.bind (.withText (hatom.bind fun _ => (Tracks.rule (blank_shows.bind fun _ =>
          (sign_shows hmarks _ (by decide)).bind fun _ => blank_shows.bind fun _ =>
            hatom)).many.bind fun _ => .pure _)) fun _ => .pure _)
      exact .rule (hor.bind fun _ => .or ((blank_shows.bind fun _ =>
        (wordOf_shows hmarks _).bind fun _ => blank_shows.bind fun _ =>
          wordOf_shows hmarks _).bind fun _ => .pure _) (.pure _))

lemma pattern_shows (hmarks : without ⊆ marks) : Tracks (Shows without) pattern := by
  intro cs e left hr
  rw [run_pattern] at hr
  exact patternWithin_shows hmarks _ hr

/-! ## The first mark -/

/-- The first mark that a text shows. -/
def firstMark (cs : List Char) : Option Char :=
  (visible .plain cs).find? marks.contains

lemma firstMark_of_next {cs : List Char} {c : Char} (h : next cs = some c) (hc : c ∈ marks) :
    firstMark cs = some c := by
  obtain ⟨rest, hrest⟩ := next_eq_some.mp h
  have hplain := List.all_eq_true.mp (by decide : marks.all isPlain = true) c hc
  have hvisible := visible_of_skipBlank hrest hplain
  rw [firstMark, hvisible, List.singleton_append, List.find?_cons_of_pos (by simpa using hc)]

/-- What shows no mark leaves the first one to what follows. -/
lemma Shows.firstMark_eq {cs left : List Char} (h : Shows marks cs left) :
    firstMark cs = firstMark left := by
  obtain ⟨-, shown, hshown, hnone⟩ := h
  have hfind : shown.find? marks.contains = none :=
    List.find?_eq_none.mpr fun c hc hmem => hnone c (by simpa using hmem) hc
  rw [firstMark, hshown, List.find?_append, hfind, Option.none_or, firstMark]

/-- What shows commas only has a comma for the first mark, or leaves it to what follows. -/
lemma Shows.firstMark_or {cs left : List Char} (h : Shows [':', ';'] cs left) :
    firstMark cs = some ',' ∨ firstMark cs = firstMark left := by
  obtain ⟨-, shown, hshown, hnone⟩ := h
  rw [firstMark, hshown, List.find?_append, firstMark]
  cases hfind : shown.find? marks.contains with
  | none => exact .inr (Option.none_or)
  | some c =>
      left
      have hmark : c ∈ marks := by simpa using List.find?_some hfind
      have hshown := List.mem_of_find?_eq_some hfind
      rw [Option.some_or]
      simp only [marks, List.mem_cons, List.not_mem_nil, or_false] at hmark
      rcases hmark with rfl | rfl | rfl
      · exact absurd hshown (hnone ':' (by simp))
      · exact absurd hshown (hnone ';' (by simp))
      · rfl

/-- The first mark of a pattern and the colon behind it is the colon. -/
lemma pattern_firstMark {cs left : List Char} {p : Denoted Pattern}
    (h : pattern.run cs = some (p, left)) (hleft : next left = some ':') :
    firstMark cs = some ':' := by
  rw [(pattern_shows (fun _ => id) h).firstMark_eq, firstMark_of_next hleft (by decide)]

/-- The first mark of an expression and the separator behind it is no colon. -/
lemma expr_firstMark {cs left : List Char} {e : Denoted Expr} {c : Char}
    (h : expr.run cs = some (e, left)) (hleft : next left = some c) (hc : c = ';' ∨ c = ',') :
    firstMark cs ≠ some ':' := by
  have hmark : firstMark left = some c :=
    firstMark_of_next hleft (by rcases hc with rfl | rfl <;> decide)
  have hshows : Shows [':', ';'] cs left :=
    expr_shows (by decide : [':', ';'] ⊆ marks) (by decide) h
  rcases hshows.firstMark_or with hfirst | hfirst
  · rw [hfirst]
    decide
  · rw [hfirst, hmark]
    rcases hc with rfl | rfl <;> decide

end BitPattern.Grammar
