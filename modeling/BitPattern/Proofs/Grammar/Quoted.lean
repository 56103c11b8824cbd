import BitPattern.Case
import BitPattern.Proofs.Grammar.Source
import BitPattern.Proofs.Text.Escape

/-!
# Cases as arms

The texts of a case can be written as an arm of a match source, with the fields in quotes and a
backslash before each of their backslashes and double quotes.  The arm is read as the case of what
the UTF-8 bytes of the fields are in Latin-1 (`Case.parseSource_asArm_eq_ok`).  So it is the same
case if and only if the fields are in ASCII (`Case.parseSource_asArm`).

The body plays a part, too: around an expression that stands alone any blank characters are
stripped, but the information separators among them are no white space of a match source.
-/

namespace BitPattern.Text

/-! ## Blank characters at the ends -/

/-- The blank characters at either end of a text are white space. -/
def WhiteEnds (text : String) : Prop :=
  (∀ c ∈ text.toList.takeWhile isBlank, isWhite c = true) ∧
    ∀ c ∈ text.toList.reverse.takeWhile isBlank, isWhite c = true

instance (text : String) : Decidable (WhiteEnds text) :=
  @instDecidableAnd _ _ (List.decidableBAll _ _) (List.decidableBAll _ _)

lemma isBlank_of_mem_back (cs : List Char) :
    ∀ c ∈ (cs.reverse.takeWhile isBlank).reverse, isBlank c = true :=
  fun _ hc => List.mem_takeWhile_imp (List.mem_reverse.mp hc)

/-- A text that is not all blank is what is left of it when it is stripped, between the blank
characters at its ends. -/
lemma eq_append_stripChars {cs : List Char} (h : stripChars cs ≠ []) :
    cs = cs.takeWhile isBlank ++ (stripChars cs ++ (cs.reverse.takeWhile isBlank).reverse) := by
  have hback : cs.reverse.takeWhile isBlank = (cs.dropWhile isBlank).reverse.takeWhile isBlank := by
    conv_lhs => rw [← List.takeWhile_append_dropWhile (p := isBlank) (l := cs)]
    rw [List.reverse_append, List.takeWhile_append, if_neg]
    -- A text of blank characters only would be stripped to nothing.
    intro hlength
    have hall : (cs.dropWhile isBlank).reverse.takeWhile isBlank = (cs.dropWhile isBlank).reverse :=
      List.takeWhile_prefix isBlank |>.eq_of_length hlength
    refine h ?_
    rw [stripChars, List.reverse_eq_nil_iff, List.dropWhile_eq_nil_iff]
    exact List.takeWhile_eq_self_iff.mp hall
  have hmid : stripChars cs ++ (cs.reverse.takeWhile isBlank).reverse = cs.dropWhile isBlank := by
    rw [stripChars, hback, ← List.reverse_append, List.takeWhile_append_dropWhile,
      List.reverse_reverse]
  rw [hmid, List.takeWhile_append_dropWhile]

/-- A text that neither begins nor ends with a blank character is left as it is. -/
lemma stripChars_eq_self {cs : List Char} (hhead : ∀ c ∈ cs.head?, isBlank c = false)
    (hlast : ∀ c ∈ cs.getLast?, isBlank c = false) : stripChars cs = cs := by
  have hfront {ds : List Char} (h : ∀ c ∈ ds.head?, isBlank c = false) :
      ds.dropWhile isBlank = ds := by
    cases ds with
    | nil => rfl
    | cons c ds => rw [List.dropWhile_cons, h c rfl, if_neg Bool.false_ne_true]
  rw [stripChars, hfront hhead, hfront (by rwa [List.head?_reverse]), List.reverse_reverse]

lemma stripChars_visible {cs : List Char} (h : ∀ c ∈ cs, isBlank c = false) : stripChars cs = cs :=
  stripChars_eq_self (fun c hc => h c (List.mem_of_mem_head? hc))
    fun c hc => h c (List.mem_of_getLast? hc)

end BitPattern.Text

namespace BitPattern.Grammar

open BitPattern.Text Reader

lemma skipBlank_white {cs : List Char} (h : ∀ c ∈ cs, isWhite c = true) (more : List Char) :
    skipBlank false (cs ++ more) = skipBlank false more := by
  induction cs with
  | nil => rfl
  | cons c cs ih =>
      rw [List.cons_append, skipBlank, if_neg Bool.false_ne_true, if_pos (h c (.head _)),
        ih fun d hd => h d (.tail _ hd)]

/-- Blank characters that are not all white space are not all skipped. -/
lemma skipBlank_eq_cons {cs : List Char} (hblank : ∀ c ∈ cs, isBlank c = true)
    (hwhite : ¬∀ c ∈ cs, isWhite c = true) (more : List Char) :
    ∃ c rest, skipBlank false (cs ++ more) = c :: rest ∧ isBlank c = true := by
  induction cs with
  | nil => exact absurd (fun _ hc => nomatch hc) hwhite
  | cons c cs ih =>
      have hc := hblank c (.head _)
      by_cases hwhitec : isWhite c = true
      · rw [List.cons_append, skipBlank, if_neg Bool.false_ne_true, if_pos hwhitec]
        refine ih (fun d hd => hblank d (.tail _ hd)) fun hcs => hwhite ?_
        exact List.forall_mem_cons.mpr ⟨hwhitec, hcs⟩
      · have hhash : c ≠ '#' := by
          rintro rfl
          exact absurd hc (by decide)
        exact ⟨c, _, skipBlank_cons _ (Bool.eq_false_iff.mpr hwhitec) hhash, hc⟩

/-! ## Bodies between blank characters -/

/-- Blank characters may stand behind an expression. -/
lemma behind_blanks {cs : List Char} (h : ∀ c ∈ cs, isBlank c = true) : Behind cs :=
  fun c hc => h c (List.mem_of_mem_head? hc)

/-- Nothing in an expression goes on with blank characters. -/
lemma ends_blanks {cs : List Char} (h : ∀ c ∈ cs, isBlank c = true) : Ends 0 cs := by
  refine ends_of_next fun c hc => ?_
  obtain ⟨rest, hrest⟩ := next_eq_some.mp hc
  have hblank := h c ((skipBlank_suffix false cs).subset (hrest ▸ List.mem_cons_self))
  have hsigns : (Level.signs.filterMap fun s => s.1.head?).any isBlank = false := by decide
  simp only [closes, Bool.and_eq_true, Bool.not_eq_true', bne_iff_ne, ne_eq,
    List.contains_eq_mem, decide_eq_false_iff_not]
  refine ⟨⟨isWordChar_eq_false hblank, ?_⟩, fun hsign => ?_⟩
  · rintro rfl
    exact absurd hblank (by decide)
  · exact List.any_eq_false.mp hsigns c hsign hblank

/-- No expression begins with a blank character. -/
lemma expr_eq_none {c : Char} (h : isBlank c = true) (cs : List Char) :
    expr.run (c :: cs) = none := by
  refine (expr_operands .nil).begins.run_eq_none fun hexpr => ?_
  obtain ⟨d, rest, heq, hplain, -⟩ := hexpr.cons_plain
  cases heq
  simp [hplain] at h

/-- An expression between blank characters is read where those in front are white space, and those
behind are left over. -/
lemma expr_between {cs rest : List Char} {e e' : Denoted Expr}
    (h : expr.run (stripChars cs) = some (e, [])) :
    expr.run (skipBlank false cs) = some (e', rest) ↔
      (∀ c ∈ cs.takeWhile isBlank, isWhite c = true) ∧ e' = e ∧
        rest = (cs.reverse.takeWhile isBlank).reverse := by
  have hexpr : ExprAt (stripChars cs) := (expr_operands .nil).begins h
  have hne : stripChars cs ≠ [] := fun hnil => by
    obtain ⟨c, rest, hcs, -⟩ := hexpr.cons
    cases hnil.symm.trans hcs
  have hcs := eq_append_stripChars hne
  have hfront : ∀ c ∈ cs.takeWhile isBlank, isBlank c = true := fun c hc =>
    List.mem_takeWhile_imp hc
  have hback := isBlank_of_mem_back cs
  generalize (cs.reverse.takeWhile isBlank).reverse = back at hcs hback ⊢
  generalize cs.takeWhile isBlank = front at hcs hfront ⊢
  generalize stripChars cs = mid at h hexpr hne hcs
  subst hcs
  by_cases hwhite : ∀ c ∈ front, isWhite c = true
  · have hskip : skipBlank false (front ++ (mid ++ back)) = mid ++ back := by
      rw [skipBlank_white hwhite, skipBlank_append _ (by rwa [hexpr.skipBlank_eq]),
        hexpr.skipBlank_eq]
    have hread : expr.run (mid ++ back) = some (e, [] ++ back) :=
      (expr_operands (behind_blanks hback)).reads h (ends_blanks hback)
    rw [hskip, hread]
    constructor
    · intro heq
      cases heq
      exact ⟨hwhite, rfl, rfl⟩
    · rintro ⟨-, rfl, rfl⟩
      rfl
  · -- A blank that is not skipped begins no expression.
    obtain ⟨c, tail, hskip, hc⟩ := skipBlank_eq_cons hfront hwhite (mid ++ back)
    rw [hskip, expr_eq_none hc]
    constructor
    · intro heq
      cases heq
    · intro heq
      exact absurd heq.1 hwhite

/-! ## Arms -/

lemma afterEnd_suffix (cs : List Char) : afterEnd cs <:+ cs := by
  have hlast (ds : List Char) : dropSemicolon ds <:+ ds := by
    unfold dropSemicolon
    split
    · exact List.suffix_cons _ _
    · exact List.suffix_refl _
  exact (skipBlank_suffix _ _).trans ((hlast _).trans (skipBlank_suffix _ _))

lemma arm_blanks {cs : List Char} (h : ∀ c ∈ cs, isBlank c = true) : arm.run cs = none := by
  by_contra harm
  obtain ⟨r, hr⟩ := Option.ne_none_iff_exists'.mp harm
  rcases arm_begins hr with ⟨rest, rfl⟩ | ⟨rest, -, rfl, -⟩
  · exact absurd (h _ (.head _)) (by decide)
  · exact absurd (h _ (.head _)) (by decide)

/-- Blank characters are nothing to a source if they are white space. -/
lemma afterEnd_eq_nil {cs : List Char} (h : ∀ c ∈ cs, isBlank c = true) :
    afterEnd cs = [] ↔ ∀ c ∈ cs, isWhite c = true := by
  constructor
  · intro hend
    by_contra hwhite
    obtain ⟨c, rest, hskip, hc⟩ := skipBlank_eq_cons h hwhite []
    rw [List.append_nil] at hskip
    have hlast : dropSemicolon (c :: rest) = c :: rest := dropSemicolon_eq_self fun _ heq => by
      cases heq
      exact absurd hc (by decide)
    rw [afterEnd, hskip, hlast, ← hskip, skipBlank_skipBlank, hskip] at hend
    cases hend
  · intro hwhite
    have hskip := skipBlank_white hwhite []
    rw [List.append_nil] at hskip
    rw [afterEnd, hskip]
    rfl

/-- An escaped text is the body of a string literal up to the quote behind it. -/
lemma takeBody?_escaped (cs rest : List Char) :
    takeBody? (escaped cs ++ '"' :: rest) = some (escaped cs, rest) := by
  induction cs with
  | nil => rfl
  | cons c cs ih =>
      rw [escaped, List.flatMap_cons, ← escaped, List.append_assoc]
      by_cases hc : c = '\\' ∨ c = '"'
      · have hline : ¬(c == '\n') = true := by rcases hc with rfl | rfl <;> decide
        rw [escapedChar, if_pos hc]
        simp [takeBody?, hline, ih]
      · rw [escapedChar, if_neg hc, List.singleton_append, takeBody?, ih]
        · rfl
        · exact fun hquote => hc (.inr hquote)
        · exact fun hbackslash => hc (.inl hbackslash)

lemma stringLiteral_escaped (cs rest : List Char) :
    stringLiteral.run ('"' :: (escaped cs ++ '"' :: rest)) = some (.ok (utf8Bytes cs), rest) := by
  rw [run_stringLiteral_cons, takeBody?_escaped, Option.map_some, bodyValue, literalBytes?_escaped]

/-- The characters of an arm of two texts. -/
def armChars (fields body : List Char) : List Char :=
  '"' :: (escaped fields ++ '"' :: (" -> ".toList ++ body))

lemma arm_armChars {fields body left : List Char} {form : Denoted ArmForm} :
    arm.run (armChars fields body) = some (form, left) ↔ ∃ e rest,
      expr.run (skipBlank false body) = some (e, rest) ∧ left = afterEnd rest ∧
        form = armForm (armChars fields body).length (.ok (utf8Bytes fields)) e := by
  have hbar : afterBar (armChars fields body) = armChars fields body := rfl
  have hquoted : stringLiteral.run (armChars fields body) =
      some (.ok (utf8Bytes fields), " -> ".toList ++ body) := stringLiteral_escaped _ _
  have harrow : skipBlank false (" -> ".toList ++ body) = "->".toList ++ ' ' :: body := rfl
  have hspace : skipBlank false (' ' :: body) = skipBlank false body := rfl
  simp only [arm_eq_some, hbar, armHead_eq_some, hquoted]
  constructor
  · rintro ⟨start, literal, mid, e, rest, ⟨_, _, heq, hmid, h⟩, hbody, rfl, rfl⟩
    cases heq
    cases h
    rw [harrow, List.append_cancel_left_eq] at hmid
    rw [← hmid, hspace] at hbody
    exact ⟨e, rest, hbody, rfl, rfl⟩
  · rintro ⟨e, rest, hbody, rfl, rfl⟩
    exact ⟨_, _, ' ' :: body, e, rest, ⟨_, _, rfl, harrow, rfl⟩, hbody, rfl, rfl⟩

end BitPattern.Grammar

namespace BitPattern

open Grammar Reader Text

/-! ## Cases -/

lemma Expr.parse_eq_ok {text : String} {e : Expr} :
    Expr.parse text = .ok e ↔ expr.run (stripChars text.toList) = some (.ok e, []) := by
  simp only [Expr.parse, readText_eq_ok, strip, String.toList_ofList]

namespace Case

/-- The arm of two texts in a match source. -/
def asArm (fields body : String) : String :=
  "\"" ++ String.ofList (escaped fields.toList) ++ "\" -> " ++ body

lemma toList_asArm (fields body : String) :
    (asArm fields body).toList = armChars fields.toList body.toList := by
  simp [asArm, armChars]

lemma ofTexts_eq_ok {implicitInt : Bool} {index : Int} {fields body : String} {c : Case} :
    ofTexts implicitInt index fields (.value (.text body)) = .ok c ↔
      ∃ e parsed, Expr.parse body = .ok e ∧
        (∀ origin, Field.parseList implicitInt origin fields = .ok parsed) ∧
          c = ⟨fields, parsed, .expr e, index⟩ := by
  simp only [ofTexts, Body.ofInput, result_bind_eq_ok]
  constructor
  · rintro ⟨_, ⟨e, he, hbody⟩, parsed, hparsed, h⟩
    cases hbody
    cases h
    exact ⟨e, parsed, he, parseList_origin hparsed, rfl⟩
  · rintro ⟨e, parsed, he, hparsed, rfl⟩
    exact ⟨_, ⟨e, he, rfl⟩, parsed, hparsed _, rfl⟩

/-- The arm of two texts is read as the case of what the bytes of the first one are in Latin-1. -/
lemma parseSource_asArm_eq_ok {implicitInt : Bool} {file fields body : String} {e : Expr}
    {cs : List Case} (hbody : Expr.parse body = .ok e) :
    parseSource implicitInt file (asArm fields body) = .ok cs ↔ WhiteEnds body ∧
      ∃ c, ofTexts implicitInt 0 (latin (utf8Bytes fields.toList)) (.value (.text body)) = .ok c ∧
        cs = [c] := by
  have hexpr := Expr.parse_eq_ok.mp hbody
  have hskip : skipBlank false (asArm fields body).toList = armChars fields.toList body.toList := by
    rw [toList_asArm]
    exact skipBlank_cons _ (by decide) (by decide)
  have hback := isBlank_of_mem_back body.toList
  rw [parseSource_eq_ok, hskip]
  constructor
  · rintro ⟨as, hrow, -, hcs⟩
    cases as with
    | nil => cases hrow
    | cons a as =>
        rw [List.map_cons] at hrow
        obtain ⟨mid, harm, hrest⟩ := hrow.of_cons
        obtain ⟨e', rest, hread, rfl, hform⟩ := arm_armChars.mp harm
        obtain ⟨hfront, rfl, rfl⟩ := (expr_between hexpr).mp hread
        -- No other arm begins in what is blank.
        obtain ⟨has, hend⟩ := hrest.eq_nil
          (arm_blanks fun c hc => hback c ((afterEnd_suffix _).subset hc))
        obtain rfl := List.map_eq_nil_iff.mp has
        cases hform
        obtain ⟨c, _, hc, hnil, rfl⟩ := ofArms_cons.mp hcs
        obtain ⟨parsed, hparsed, rfl⟩ := ofArm_eq_ok.mp hc
        cases hnil
        have hwhite := (afterEnd_eq_nil hback).mp hend.symm
        exact ⟨⟨hfront, fun c hc => hwhite c (List.mem_reverse.mpr hc)⟩, _,
          ofTexts_eq_ok.mpr ⟨e, parsed, hbody, hparsed, rfl⟩, rfl⟩
  · -- And such an arm is read to its end, so the row of arms has it alone.
    rintro ⟨⟨hfront, hend⟩, c, hc, rfl⟩
    have hread := (expr_between hexpr).mpr ⟨hfront, rfl, rfl⟩
    have hleft := (afterEnd_eq_nil hback).mpr fun c hc => hend c (List.mem_reverse.mp hc)
    have harm : arm.run (armChars fields.toList body.toList) =
        some (armForm _ (.ok (utf8Bytes fields.toList)) (.ok e), []) :=
      arm_armChars.mpr ⟨_, _, hread, hleft.symm, rfl⟩
    obtain ⟨e', parsed, hbody', hparsed, rfl⟩ := ofTexts_eq_ok.mp hc
    cases hbody.symm.trans hbody'
    refine ⟨[⟨_, utf8Bytes fields.toList, e⟩], .cons harm (.nil _),
      Nat.succ_le_succ (Nat.zero_le _), ?_⟩
    exact ofArms_cons.mpr ⟨_, [], ofArm_eq_ok.mpr ⟨parsed, hparsed, rfl⟩, rfl, rfl⟩

/-- Two texts are the same case as an arm of a match source and on their own if and only if the
fields are in ASCII and the blank characters around the body are white space. -/
theorem parseSource_asArm {implicitInt : Bool} {index : Int} {fields body : String} {c : Case}
    (h : ofTexts implicitInt index fields (.value (.text body)) = .ok c) (file : String) :
    parseSource implicitInt file (asArm fields body) = .ok [{ c with index := 0 }] ↔
      Ascii fields ∧ WhiteEnds body := by
  obtain ⟨e, parsed, hbody, hparsed, rfl⟩ := ofTexts_eq_ok.mp h
  rw [parseSource_asArm_eq_ok hbody, ← latin_utf8Bytes_eq_self, and_comm]
  refine and_congr_left fun _ => ?_
  constructor
  · rintro ⟨c, hc, heq⟩
    obtain ⟨e', parsed', -, -, rfl⟩ := ofTexts_eq_ok.mp hc
    have hcase := (List.cons.inj heq).1
    exact (congrArg Case.fieldsText hcase).symm
  · intro hascii
    rw [hascii]
    exact ⟨_, ofTexts_eq_ok.mpr ⟨e, parsed, hbody, hparsed, rfl⟩, rfl⟩

/-- A quoted pattern behind quotes of its own, and a body behind a space. -/
theorem parseSource_asArm_escaped :
    ∃ c, ofTexts true 0 "\"\\\"\":8" (.value (.text " 1")) = .ok c ∧
      parseSource true "" (asArm "\"\\\"\":8" " 1") = .ok [{ c with index := 0 }] := by
  have hbody : Expr.parse " 1" = .ok (.int 1) := by decide +kernel
  have hfields : Field.parseList true (.alone "\"\\\"\":8") "\"\\\"\":8" =
      .ok [⟨.constant (.bytes [0x22]), some (.int 8), some .default, "\"\\\"\":8"⟩] := by
    decide +kernel
  have hcase := (@ofTexts_eq_ok _ 0 _ _ _).mpr ⟨_, _, hbody, parseList_origin hfields, rfl⟩
  exact ⟨_, hcase, (parseSource_asArm hcase "").mpr ⟨by decide, by decide⟩⟩

/-- In a match source the two bytes of an accented letter are two characters, so the pattern is
another one. -/
theorem parseSource_asArm_accented :
    ∃ c c', ofTexts true 0 "\"é\":16:string" (.value (.text "1")) = .ok c ∧
      parseSource true "" (asArm "\"é\":16:string" "1") = .ok [c'] ∧
        c'.fieldsText ≠ c.fieldsText ∧ c'.fields ≠ c.fields := by
  have hbody : Expr.parse "1" = .ok (.int 1) := by decide +kernel
  have hfields : Field.parseList true (.alone "\"é\":16:string") "\"é\":16:string" =
      .ok [⟨.constant (.bytes [0xC3, 0xA9]), some (.int 16),
        some { Spec.default with valueType := some .string }, "\"é\":16:string"⟩] := by
    decide +kernel
  have hcase := (@ofTexts_eq_ok _ 0 _ _ _).mpr ⟨_, _, hbody, parseList_origin hfields, rfl⟩
  have hbytes : Field.parseList true (.alone "\"Ã©\":16:string") "\"Ã©\":16:string" =
      .ok [⟨.constant (.bytes [0xC3, 0x83, 0xC2, 0xA9]), some (.int 16),
        some { Spec.default with valueType := some .string }, "\"Ã©\":16:string"⟩] := by
    decide +kernel
  have hlatin : latin (utf8Bytes "\"é\":16:string".toList) = "\"Ã©\":16:string" := by
    decide +kernel
  have harm : parseSource true "" (asArm "\"é\":16:string" "1") =
      .ok [⟨"\"Ã©\":16:string", [⟨.constant (.bytes [0xC3, 0x83, 0xC2, 0xA9]), some (.int 16),
        some { Spec.default with valueType := some .string }, "\"Ã©\":16:string"⟩],
        .expr (.int 1), 0⟩] := by
    refine (parseSource_asArm_eq_ok hbody).mpr ⟨by decide, _, ?_, rfl⟩
    rw [hlatin]
    exact ofTexts_eq_ok.mpr ⟨_, _, hbody, parseList_origin hbytes, rfl⟩
  exact ⟨_, _, hcase, harm, by decide, by simp⟩

end Case

end BitPattern
