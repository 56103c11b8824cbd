import BitPattern.Plan.Basic
import BitPattern.Plan.Emitter
import BitPattern.Render.Dump

/-!
# Listings

A plan is written as a Python function that takes the data, the offset of the subject and its
length, and gives the value of the body or nothing.  Each field starts with its text as a comment.
The names that the listing makes up carry a number, which goes on from field to field and from case
to case, so no name is made up twice.
-/

namespace BitPattern

open BitPattern.Text

/-! ## Expressions -/

/-- The sign of an operator that is written between its operands, or the name of the function that
is called for it. -/
def BinOp.code : BinOp → String ⊕ String
  | or => .inl "or"
  | and => .inl "and"
  | eq => .inl "=="
  | ne => .inl "!="
  | lt => .inl "<"
  | le => .inl "<="
  | gt => .inl ">"
  | ge => .inl ">="
  | bitOr => .inl "|"
  | bitXor => .inl "^"
  | bitAnd => .inl "&"
  | shiftLeft => .inl "<<"
  | logicalShiftRight => .inr "_bm_lsr"
  | shiftRight => .inl ">>"
  | add => .inl "+"
  | sub => .inl "-"
  | mul => .inl "*"
  | div => .inr "_bm_int_div"
  | mod => .inr "_bm_int_mod"

/-- The sign of an operator before its operand. -/
def UnOp.code : UnOp → String
  | neg => "-"
  | complement => "~"
  | not => "not "

namespace Expr

mutual

/-- The code of an expression whose names are resolved. -/
def code : Expr → String
  | int n => decimal n
  | bytes b => quotedBytes b
  | bool b => dumpBool b
  | name x => x
  | binary op left right =>
    match op.code with
    | .inl sign => "(" ++ left.code ++ " " ++ sign ++ " " ++ right.code ++ ")"
    | .inr function => function ++ "(" ++ left.code ++ ", " ++ right.code ++ ")"
  | unary op operand => "(" ++ op.code ++ operand.code ++ ")"
  | call function args => function ++ "(" ++ ", ".intercalate (codesOf args) ++ ")"
  | tuple items => dumpTuple (codesOf items)

/-- The codes of several expressions. -/
def codesOf : List Expr → List String
  | [] => []
  | e :: rest => e.code :: codesOf rest

end

end Expr

namespace Plan

/-! ## Names -/

/-- The names that hold the offset and the number of bits left at some point of a listing. -/
structure Cursor where
  off : String
  len : String
  deriving DecidableEq, Repr

/-- The names that hold them at the start of a function. -/
def Cursor.start : Cursor := ⟨"_bm_origin", "_bm_total"⟩

/-- The name made up with a number. -/
def fresh (kind : String) (number : Nat) : String :=
  "_bm_" ++ kind ++ "_" ++ Nat.repr number

/-- The line that gives up the case. -/
def giveUp : String := "    return None"

/-- The name of the function of a case. -/
def caseName (index : Int) : String :=
  "_bm_case_" ++ decimal index

/-- The name of the callable body of a case. -/
def bodyName (index : Int) : String :=
  "_bm_body_" ++ decimal index

/-! ## Fields -/

/-- The code of a byte order. -/
def Order.code : Order → String
  | named name => quoted name
  | computed e native => "_bm_resolve_endian(" ++ e.code ++ ", " ++ quoted native ++ ")"

/-- The code of a test of the value of that name. -/
def Test.code (value : String) : Test → String
  | equal c => value ++ " == " ++ c.display
  | among c d cs =>
    value ++ " in (" ++ ", ".intercalate ((c :: d :: cs).map Constant.display) ++ ")"

/-- The number of bits of a field: the lines that find it out and refuse an unfit one, its code,
and the number of the last name made up. -/
def FieldPlan.widthLines (plan : FieldPlan) (cursor : Cursor) (number : Nat) :
    List String × String × Nat :=
  match plan.length with
  | .fixed n => (["if " ++ cursor.len ++ " < " ++ decimal n ++ ":", giveUp], decimal n, number)
  | .rest =>
    (if plan.type == .string && plan.kept then ["if " ++ cursor.len ++ " & 7:", giveUp] else [],
      cursor.len, number)
  | .computed e =>
    let n := fresh "n" (number + 1)
    let most := [
      "if " ++ n ++ " == -1:",
      "    " ++ n ++ " = " ++ cursor.len]
    ([n ++ " = " ++ e.code]
      ++ (match plan.type with
        | .int => ["if not 1 <= " ++ n ++ " <= 64 or " ++ n ++ " > " ++ cursor.len ++ ":"]
        | .string =>
          most ++ ["if " ++ n ++ " < 0 or " ++ n ++ " & 7 or " ++ n ++ " > " ++ cursor.len ++ ":"]
        | .bitstring => most ++ ["if " ++ n ++ " < 0 or " ++ n ++ " > " ++ cursor.len ++ ":"])
      ++ [giveUp], n, number + 1)

/-- The code of the number of bytes of a string. -/
def FieldPlan.bytesCode (plan : FieldPlan) (width : String) : String :=
  match plan.length with
  | .fixed n => decimal (n / 8)
  | .rest | .computed _ => width ++ " >> 3"

/-- The code that reads the value of a field. -/
def FieldPlan.readCode (plan : FieldPlan) (cursor : Cursor) (width : String) : String :=
  match plan.type with
  | .int =>
    "_bm_get_int(_bm_data, " ++ cursor.off ++ ", " ++ width ++ ", " ++ dumpBool plan.signed ++ ", "
      ++ plan.order.code ++ ")"
  | .string => "_bm_get_bytes(_bm_data, " ++ cursor.off ++ ", " ++ plan.bytesCode width ++ ")"
  | .bitstring => "_bm_sub(_bm_data, " ++ cursor.off ++ ", " ++ width ++ ")"

/-- The lines that bind the locals to the value of that name. -/
def FieldPlan.bindLines (plan : FieldPlan) (value : String) : List String :=
  plan.locals.map (· ++ " = " ++ value)

/-- The lines that bind, replace and test the value of that name. -/
def FieldPlan.valueLines (plan : FieldPlan) (value : String) : List String :=
  let conditions := (plan.test.map (Test.code value)).toList ++ (plan.check.map Expr.code).toList
  plan.bindLines value
    ++ (match plan.rebind with
      | some e => (value ++ " = " ++ e.code) :: plan.bindLines value
      | none => [])
    ++ (if conditions.isEmpty then []
      else ["if not (" ++ " and ".intercalate conditions ++ "):", giveUp])

/-- The lines that move to the end of the field, and the cursor there. -/
def FieldPlan.advanceLines (plan : FieldPlan) (cursor : Cursor) (width : String) (number : Nat) :
    List String × Cursor :=
  let next : Cursor := ⟨fresh "off" (number + 1), fresh "len" (number + 2)⟩
  ([next.off ++ " = " ++ cursor.off ++ " + " ++ width,
    next.len ++ " = " ++ (match plan.length with
      | .rest => "0"
      | _ => cursor.len ++ " - " ++ width)], next)

/-- The lines that move to another offset, and the cursor there. -/
def jumpLines (e : Expr) (number : Nat) : List String × Cursor :=
  let next : Cursor := ⟨fresh "off" (number + 1), fresh "len" (number + 2)⟩
  ([next.off ++ " = _bm_origin + " ++ e.code,
    "if not _bm_origin <= " ++ next.off ++ " <= _bm_end:",
    giveUp,
    next.len ++ " = _bm_end - " ++ next.off], next)

/-- The lines of a field, the cursor after it, and the number of the last name made up. -/
def FieldPlan.listing (plan : FieldPlan) (cursor : Cursor) (number : Nat) :
    List String × Cursor × Nat :=
  let (widthLines, width, number) := plan.widthLines cursor number
  let (readLines, valueLines, number) :=
    if plan.reads then
      let value := fresh "v" (number + 1)
      ([value ++ " = " ++ plan.readCode cursor width], plan.valueLines value, number + 1)
    else ([], [], number)
  let (advance, next) := plan.advanceLines cursor width number
  -- Two for the cursor behind the field, which is made up even if the field jumps.
  let number := number + 2
  let lines := ["# " ++ joinWords plan.text] ++ widthLines ++ readLines ++ advance ++ valueLines
  match plan.jump with
  | none => (lines, next, number)
  | some e =>
    let (jump, next) := jumpLines e number
    (lines ++ jump, next, number + 2)

/-- The lines of several fields, the cursor after them, and the number of the last name made up. -/
def fieldsListing (cursor : Cursor) (number : Nat) :
    List FieldPlan → List String × Cursor × Nat
  | [] => ([], cursor, number)
  | plan :: rest =>
    let (lines, cursor, number) := plan.listing cursor number
    let (more, cursor, number) := fieldsListing cursor number rest
    (lines ++ more, cursor, number)

/-! ## Cases -/

/-- An argument whose local has its own name. -/
def plainArgument (arg : String × String) : String :=
  arg.1 ++ "=" ++ arg.1

/-- The arguments whose locals have other names, as one dictionary. -/
def renamedArguments (args : List (String × String)) : String :=
  "**\x7b" ++ ", ".intercalate (args.map fun arg => quoted arg.1 ++ ": " ++ arg.2) ++ "\x7d"

/-- The arguments of a callable body. -/
def argumentsCode (args : List (String × String)) : String :=
  let plain := args.filter fun arg => arg.2 == arg.1
  let renamed := args.filter fun arg => arg.2 != arg.1
  ", ".intercalate (plain.map plainArgument
    ++ (if renamed.isEmpty then [] else [renamedArguments renamed]))

/-- The line that gives the value of the body. -/
def BodyPlan.line (index : Int) : BodyPlan → String
  | value e => "return _bm_Matched(" ++ e.code ++ ")"
  | call _ args => "return _bm_Matched(" ++ bodyName index ++ "(" ++ argumentsCode args ++ "))"

/-- The lines of a case from a cursor on, and the number of the last name made up. -/
def CasePlan.bodyListing (plan : CasePlan) (cursor : Cursor) (number : Nat) :
    List String × Nat :=
  let (lines, _, number) := fieldsListing cursor number plan.fields
  (lines ++ [plan.body.line plan.index], number)

/-- Whether a case needs to know where the subject ends. -/
def CasePlan.usesEnd (plan : CasePlan) : Bool :=
  plan.fields.any fun field => field.jump.isSome

/-- The lines of the function of a case, and the number of the last name made up. -/
def CasePlan.listing (plan : CasePlan) (number : Nat) : List String × Nat :=
  let (body, number) := plan.bodyListing .start number
  let header := "def " ++ caseName plan.index ++ "(_bm_data, _bm_origin, _bm_total):"
  let comment := "# case " ++ decimal plan.index ++ ": " ++ quoted plan.fieldsText
  let ending := if plan.usesEnd then ["_bm_end = _bm_origin + _bm_total"] else []
  let emitter : Emitter := {}
  (listingLines (((emitter.openBlock header).emit comment).emitAll (ending ++ body)).text, number)

/-! ## Modules -/

/-- Adds the functions of cases, each with an empty line after it. -/
def emitCases (e : Emitter) (number : Nat) : List CasePlan → Emitter
  | [] => e
  | plan :: rest =>
    let (lines, number) := plan.listing number
    emitCases ((e.emitAll lines).emitBlank 1) number rest

/-- The names of the functions of cases. -/
def caseNames (plans : List CasePlan) : List String :=
  plans.map fun plan => caseName plan.index

/-- The text of the module of some cases. -/
def moduleText (plans : List CasePlan) : String :=
  let emitter : Emitter := {}
  let cases := emitCases ((emitter.emitComment "Generated by bitmatch").emitBlank 1) 0 plans
  (cases.emit ("_BM_CASES = (" ++ ", ".intercalate (caseNames plans) ++ ",)")).text

end Plan

end BitPattern
