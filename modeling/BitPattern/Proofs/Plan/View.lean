import BitPattern.Proofs.Plan.Alike
import BitPattern.Proofs.Value.Content

/-!
# Matching depends on the bits in view

Two subjects with the same bits in view may lie at different offsets of different buffers, and their
bitstrings, offsets and lengths may have been given in different ways.  No run tells them apart:
`Likeness.content` compares values by their content, faults by their kind and calls by the contents
of their arguments, and `subjects_content` says that fields read values with the same content from
both subjects.  So the runs of every case are alike, and so is the choice among cases
(`tryMatch_depends_on_bits`).
-/

namespace BitPattern

open Run

namespace Value

/-- Results of the same kind: values with the same content, or faults of the same kind. -/
abbrev SameResult : Except Fault Value → Except Fault Value → Prop :=
  SameEnd (fun f g => f.kind = g.kind) fun v w => v.content = w.content

lemma sameResult_of_map {x y : Except Fault Value} (h : content <$> x = content <$> y) :
    SameResult x y := by
  cases x with
  | error f =>
      cases y with
      | error g => cases h; exact rfl
      | ok w => cases h
  | ok v =>
      cases y with
      | error g => cases h
      | ok w => exact Except.ok.inj h

lemma toEndian_kind {v : Value} {f : Fault} (h : v.toEndian = .error f) : f.kind = .value := by
  have hnamed : ∀ s, namedEndian s = .error f → f.kind = .value := by
    intro s hs
    unfold namedEndian at hs
    split at hs <;> cases hs
    rfl
  unfold toEndian at h
  split at h
  · cases h
  · exact hnamed _ h
  · exact hnamed _ h
  · rcases result_bind_eq_error.mp h with h | ⟨_, -, h⟩
    · rw [display_eq_error v h]
      rfl
    · cases h
      rfl

lemma toEndian_content {v : Value} {e : Endian} :
    v.content.toEndian = .ok e ↔ v.toEndian = .ok e := by
  have hdisplay : ∀ w : Value, (w.display >>= fun s => (throw (.noOrder s) : Except Fault Endian)) ≠
      .ok e := by
    intro w h
    obtain ⟨s, -, h⟩ := result_bind_eq_ok.mp h
    cases h
  cases v with
  | bits b => exact iff_of_false (hdisplay _) (hdisplay _)
  | tuple items => exact iff_of_false (hdisplay _) (hdisplay _)
  | list items => exact iff_of_false (hdisplay _) (hdisplay _)
  | dict entries => exact iff_of_false (hdisplay _) (hdisplay _)
  | bytes kind b => cases kind <;> exact Iff.rfl
  | _ => exact Iff.rfl

lemma same_constant (v : Value) (c : Constant) :
    v.content.same (Plan.Test.accepts.constantValue c) =
      v.same (Plan.Test.accepts.constantValue c) := by
  cases c with
  | int n => exact content_same v (.int n)
  | bytes b => exact content_same v (.ofBytes b)

end Value

namespace Plan

open Value

/-! ## Values that differ in where their bitstrings lie -/

/-- Values are compared by content, calls by the contents of their arguments, and faults by kind. -/
def Likeness.content : Likeness where
  call c d := c.name = d.name ∧ c.args.map Value.content = d.args.map Value.content
  fault f g := f.kind = g.kind
  value v w := v.content = w.content
  width n m := n.toInt = m.toInt
  fault_refl _ := rfl
  toInt_eq h := h
  width_refl _ := rfl
  toScalar {v w} h := by
    rw [← content_toScalar v, h, content_toScalar]
    cases w.toScalar <;> exact rfl
  toInt {v w} h := by
    rw [← content_toInt v, h, content_toInt]
    cases w.toInt <;> exact rfl
  toEndian {v w} h := by
    cases hv : v.toEndian with
    | ok e =>
        rw [toEndian_content.mp (h ▸ toEndian_content.mpr hv)]
        exact rfl
    | error f =>
        cases hw : w.toEndian with
        | ok e =>
            rw [toEndian_content.mp (h ▸ toEndian_content.mpr hw)] at hv
            cases hv
        | error g => exact (toEndian_kind hv).trans (toEndian_kind hw).symm
  truth {v w} h := by rw [← content_truth v, h, content_truth]
  accepts test v w h := by
    have hsame : ∀ c,
        v.same (Test.accepts.constantValue c) = w.same (Test.accepts.constantValue c) :=
      fun c => by rw [← same_constant, h, same_constant]
    cases test with
    | equal c => exact hsame c
    | among c d cs => simp only [Test.accepts, hsame]

/-! ## Expressions -/

section Eval

variable {lookup lookup' : String → Except Fault Value}

lemma apply_content_left (f : Value) (args : List Value) :
    f.content.apply args = f.apply args := by
  cases f <;> rfl

/-- Functions with the same content answer alike to arguments with the same contents. -/
lemma apply_alike {f f' : Value} (hf : f.content = f'.content) {args args' : List Value}
    (hargs : args.map Value.content = args'.map Value.content) :
    Likeness.content.Runs Likeness.content.value (f.apply args) (f'.apply args') := by
  rw [← apply_content_left f, hf, apply_content_left]
  cases f' with
  | builtin g =>
      refine .ofExcept (sameResult_of_map ?_)
      rw [← Builtin.apply_content, ← Builtin.apply_content, hargs]
  | probe name =>
      -- The call is recorded on both sides, and a recorded function gives back its last argument.
      refine ⟨.cons ⟨rfl, hargs⟩ .nil, ?_⟩
      have hlast : (args.getLast?.getD .none).content = (args'.getLast?.getD .none).content := by
        have hmap : ∀ vs : List Value, (vs.getLast?.getD .none).content =
            (vs.map Value.content).getLast?.getD .none := by
          intro vs
          rw [List.getLast?_map]
          cases vs.getLast? <;> rfl
        rw [hmap, hmap, hargs]
      exact hlast
  | _ => exact ⟨.nil, rfl⟩

lemma evalAll_alike {es : List Expr}
    (h : ∀ e ∈ es, Likeness.content.Runs Likeness.content.value (e.eval lookup) (e.eval lookup')) :
    Likeness.content.Runs (fun vs ws => vs.map Value.content = ws.map Value.content)
      (Expr.evalAll lookup es) (Expr.evalAll lookup' es) := by
  induction es with
  | nil => exact .pure rfl
  | cons e es ih =>
      obtain ⟨he, hes⟩ := List.forall_mem_cons.mp h
      rw [Expr.evalAll_cons, Expr.evalAll_cons]
      refine .bind he fun v w _ _ hv => .bind (ih hes) fun vs ws _ _ hvs => .pure ?_
      rw [List.map_cons, List.map_cons, hvs]
      exact congrArg (· :: _) hv

/-- An expression has values with the same content where its names have. -/
lemma eval_alike {e : Expr} (h : ∀ x ∈ e.freeNames, SameResult (lookup x) (lookup' x)) :
    Likeness.content.Runs Likeness.content.value (e.eval lookup) (e.eval lookup') := by
  induction e with
  | int n => exact .pure rfl
  | bytes b => exact .pure rfl
  | bool b => exact .pure rfl
  | name x => exact .ofExcept (h x (by simp))
  | binary op left right ihl ihr =>
      rw [Expr.eval_binary, Expr.eval_binary]
      refine .bind (ihl fun x hx => h x (by simp [hx])) fun v v' _ _ hv => ?_
      -- Whether the first operand settles the value shows in its truth, so both sides evaluate the
      -- second one or neither does.
      have hsettles : op.settles v = op.settles v' := by
        unfold BinOp.settles
        rw [Likeness.content.truth hv]
      rw [hsettles]
      split
      · exact .pure hv
      · refine .bind (ihr fun x hx => h x (by simp [hx])) fun w w' _ _ hw => ?_
        refine .ofExcept (sameResult_of_map ?_)
        rw [← op.apply_content, ← op.apply_content]
        exact congrArg₂ op.apply hv hw
  | unary op operand ih =>
      rw [Expr.eval_unary, Expr.eval_unary]
      refine .bind (ih fun x hx => h x (by simpa using hx)) fun v v' _ _ hv => ?_
      refine .ofExcept (sameResult_of_map ?_)
      rw [← op.apply_content, ← op.apply_content]
      exact congrArg op.apply hv
  | call function args ih =>
      rw [Expr.eval_call, Expr.eval_call]
      refine .bind (.ofExcept (h function (by simp))) fun f f' _ _ hf => ?_
      refine .bind (evalAll_alike fun e he => ih e he fun x hx => h x ?_) fun vs vs' _ _ hvs =>
        apply_alike hf hvs
      simp only [Expr.mem_freeNames_call]
      exact .inr ⟨e, he, hx⟩
  | tuple items ih =>
      rw [Expr.eval_tuple, Expr.eval_tuple]
      refine .bind (evalAll_alike fun e he => ih e he fun x hx => h x ?_) fun vs vs' _ _ hvs =>
        .pure ?_
      · simp only [Expr.mem_freeNames_tuple]
        exact ⟨e, he, hx⟩
      · change Value.tuple (contents vs) = Value.tuple (contents vs')
        rw [contents_eq_map, contents_eq_map, hvs]

end Eval

/-! ## Subjects -/

/-- Fields read values with the same content from subjects with the same bits. -/
lemma subjects_content {subject subject' : Bitstring} (h : subject.bits = subject'.bits) :
    Subjects .content subject subject' := by
  obtain ⟨hlength, -⟩ := Bitstring.bits_injective h
  refine ⟨hlength, ?_, ?_⟩
  · have hgiven : ∀ b : Bitstring, b.givenLength.toInt = b.length := fun b =>
      Scalar.toInt_ofNat b.length_le_one
    change subject.givenLength.toInt = subject'.givenLength.toInt
    rw [hgiven, hgiven, hlength]
  · intro plan plan' s s' width width' order hoff hwidth htype hsigned hreads hreads'
    replace hwidth : width.toInt = width'.toInt := hwidth
    have hnat : width.toNat = width'.toNat := by rw [Scalar.toNat, Scalar.toNat, hwidth]
    have hwindow : Bits.window subject.data s.off.toNat width.toNat =
        Bits.window subject'.data s'.off.toNat width'.toNat := by
      obtain ⟨hlow, hnonneg, hhigh, -, -⟩ := hreads
      obtain ⟨hlow', -, hhigh', -, -⟩ := hreads'
      have hdrop : s.off.toNat - subject.offset = s'.off.toNat - subject'.offset := by omega
      have hcount : (width.toNat : Int) = width.toInt := Int.toNat_of_nonneg hnonneg
      rw [subject.window_eq (by omega) (by omega), subject'.window_eq (by omega) (by omega), h,
        hdrop, hnat]
    -- Both reads succeed, with what the same window stands for.
    obtain ⟨v, hv, hcontent⟩ :=
      @readBits_content plan.type plan.signed _ _ _ order hreads.fits hreads.whole_of_string
    obtain ⟨v', hv', hcontent'⟩ :=
      @readBits_content plan'.type plan'.signed _ _ _ order hreads'.fits hreads'.whole_of_string
    rw [hv, hv']
    change v.content = v'.content
    rw [hcontent, hcontent', htype, hsigned, hwindow]

/-! ## Cases -/

lemma lookup_alike {bound bound' : List (String × Value)}
    (h : Likeness.content.Bound id bound bound') (x : String) :
    SameResult (found x (bound.lookup x)) (found x (bound'.lookup x)) := by
  induction h with
  | nil => exact rfl
  | @cons p q bound bound' hpq _ ih =>
      obtain ⟨y, v⟩ := p
      obtain ⟨z, w⟩ := q
      obtain ⟨rfl, hvalue⟩ := hpq
      rw [lookup_cons_eq, lookup_cons_eq]
      by_cases hx : x = z
      · rw [if_pos hx, if_pos hx]
        exact hvalue
      · rw [if_neg hx, if_neg hx]
        exact ih

lemma frame_alike (frame : Frame) {bound bound' : List (String × Value)}
    (h : Likeness.content.Bound id bound bound') (x : String) :
    SameResult (frame.lookup bound x) (frame.lookup bound' x) := by
  have hrefl : ∀ y : Except Fault Value, SameResult y y := by
    intro y
    cases y <;> exact rfl
  obtain ⟨locals, globals⟩ := frame
  by_cases hconstant : x = constantName
  · subst hconstant
    rw [lookup_constant, lookup_constant]
    exact hrefl _
  · by_cases hlocal : x ∈ locals
    · rw [lookup_local hconstant hlocal, lookup_local hconstant hlocal]
      exact lookup_alike h x
    · rw [lookup_global hconstant hlocal, lookup_global hconstant hlocal]
      exact hrefl _

lemma exprsAlike_self (frame : Frame) (before : List String) (e : Expr) :
    ExprsAlike .content id frame.lookup frame.lookup before e e := fun _ _ _ hbound =>
  eval_alike fun x _ => frame_alike frame hbound x

lemma FieldPlan.alike_self (frame : Frame) (before : List String) (plan : FieldPlan) :
    plan.Alike (ExprsAlike .content id frame.lookup frame.lookup) id before plan := by
  have hoption : ∀ (names : List String) (o : Option Expr),
      Option.Rel (ExprsAlike .content id frame.lookup frame.lookup names) o o := by
    intro names o
    cases o with
    | none => exact .none
    | some e => exact .some (exprsAlike_self frame names e)
  refine ⟨rfl, ?_, rfl, ?_, rfl, (List.map_id _).symm, hoption _ _, rfl, hoption _ _, hoption _ _⟩
  · cases plan.length with
    | fixed n => exact .fixed n
    | rest => exact .rest
    | computed e => exact .computed (exprsAlike_self frame before e)
  · cases plan.order with
    | named name => exact .named name
    | computed e native => exact .computed native (exprsAlike_self frame before e)

lemma fieldsAlike_self (frame : Frame) (before : List String) (plans : List FieldPlan) :
    FieldsAlike (ExprsAlike .content id frame.lookup frame.lookup) id before plans plans := by
  induction plans generalizing before with
  | nil => exact .nil _
  | cons plan plans ih => exact .cons (FieldPlan.alike_self frame before plan) (ih _)

/-! ## Matchers -/

/-- The same outcome: no case, or the case of the same index with values of the same content. -/
def SameMatch (r r' : MatchResult Value) : Prop :=
  Option.Rel (fun p q => p.1 = q.1 ∧ p.2.content = q.2.content) r.found r'.found

/-- Cases that run alike are chosen alike. -/
lemma dispatchFrom_alike {subject subject' : Bitstring} (index : Nat)
    {cases : List (Bitstring → Run (Option Value))}
    (h : ∀ f ∈ cases, Likeness.content.Runs (Option.Rel Likeness.content.value) (f subject)
      (f subject')) :
    Likeness.content.Runs SameMatch (dispatchFrom index subject cases)
      (dispatchFrom index subject' cases) := by
  induction cases generalizing index with
  | nil => exact .pure .none
  | cons f cases ih =>
      obtain ⟨hf, hcases⟩ := List.forall_mem_cons.mp h
      refine .bind hf fun v v' _ _ hv => ?_
      cases hv with
      | none => exact ih (index + 1) hcases
      | some hv => exact .pure (.some ⟨rfl, hv⟩)

/-- **A match depends on the bits in view only.** Two subjects with the same bits in view, however
they are given, make the same case match with values of the same content, after the same calls, or
end in a fault of the same kind. -/
theorem tryMatch_depends_on_bits {config : Config} {env : List (String × Value)} {cases : List Case}
    {m : Matcher} (hm : Matcher.ofNumbered config env cases = .ok m)
    (hbodies : ∀ c ∈ cases, ∃ e, c.body = .expr e) {v v' : Value} {subject subject' : Bitstring}
    (hv : v.subject = .ok subject) (hv' : v'.subject = .ok subject')
    (hbits : subject.bits = subject'.bits) :
    Likeness.content.Runs SameMatch (m.tryMatch v) (m.tryMatch v') := by
  unfold Matcher.tryMatch dispatch
  rw [hv, hv']
  refine dispatchFrom_alike 0 fun f hf => ?_
  obtain ⟨plan, hplan, rfl⟩ := List.mem_map.mp hf
  obtain ⟨c, hc, hplanned⟩ := Matcher.planCase_of_mem hm hplan
  obtain ⟨e, he⟩ := hbodies c hc
  obtain ⟨scope, -, hbody, -, -⟩ := planCase_eq_ok hplanned
  rw [he, planBody_expr_eq_ok] at hbody
  obtain ⟨e', -, hbody⟩ := hbody
  refine CasePlan.runWith_alike (fieldsAlike_self _ _ _) (measured_of_mem hm hplan)
    (subjects_content hbits) fun bound bound' _ hbound => ?_
  rw [hbody]
  exact exprsAlike_self _ (bound.map Prod.fst) e' bound bound' rfl hbound

/-- A byte string and a view from bit three on of a longer one, with the same sixteen bits. -/
theorem tryMatch_depends_on_bits_counted :
    ∃ m, Matcher.ofNumbered {} [] [countedCase] = .ok m ∧
      Likeness.content.Runs SameMatch (m.tryMatch (.bytes .constant [0x02, 0xc0]))
        (m.tryMatch (.tuple [.bytes .mutable [0x00, 0x58, 0x1f], .int 3, .int 16])) := by
  obtain ⟨plan, hplan, hlocals⟩ : ∃ plan, planCases (Matcher.context {} []) [countedCase] =
      .ok [plan] ∧ constantName ∉ plan.locals := ⟨_, rfl, by decide⟩
  have hm := Matcher.ofNumbered_singleton hplan (by simp)
    (by simp [countedCase, effectiveFields, Field.isRest]) hlocals
  obtain ⟨subject, hsubject, hbits⟩ : ∃ subject,
      (Value.tuple [.bytes .mutable [0x00, 0x58, 0x1f], .int 3, .int 16]).subject = .ok subject ∧
        (Bitstring.ofBytes [0x02, 0xc0]).bits = subject.bits := ⟨_, rfl, by decide⟩
  refine ⟨_, hm, tryMatch_depends_on_bits hm (fun c hc => ?_) rfl hsubject hbits⟩
  rw [List.mem_singleton.mp hc]
  exact ⟨_, rfl⟩

end Plan

end BitPattern
