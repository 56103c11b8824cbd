import BitPattern.Field.Basic

/-!
# Plans

A plan is what is left of a case once every name is resolved and every choice that needs no subject
is made: for each field how long it is, what is read, which locals it binds, what is tested and
where matching goes on; and for the body an expression or a call.  The names in its expressions are
those of locals, of the environment or of the functions of expressions.

A description is compiled with a configuration: what `native` means, whether qualifiers are
completed, and the name of the listing.

A plan has two readings.  `Plan.Listing` writes it as the lines of a function, and `Plan.Run` runs
it on a subject.
-/

namespace BitPattern

/-! ## Configuration -/

/-- The settings of a compilation: the order that `native` means, whether qualifiers are completed
to those of an unsigned integer, and the name of the listing. -/
structure Config where
  nativeEndian : String := ByteOrder.machine.name
  implicitInt : Bool := true
  filename : String := "<bitmatch>"
  deriving DecidableEq, Repr

/-- What is wrong with a configuration. -/
def Config.problems (config : Config) : List String :=
  (if config.nativeEndian == "big" || config.nativeEndian == "little" then []
    else ["native_endian must be 'big' or 'little'"])
  ++ (if config.filename.isEmpty then ["filename must not be empty"] else [])

namespace Plan

/-! ## Plans -/

/-- How long a field is. -/
inductive Length where
  /-- So many bits. -/
  | fixed (n : Int)
  /-- All that is left. -/
  | rest
  /-- As many bits as an expression says. -/
  | computed (e : Expr)

/-- The byte order of an integer. -/
inductive Order where
  /-- The order of that name. -/
  | named (name : String)
  /-- The order that an expression gives, `native` being the name given. -/
  | computed (e : Expr) (native : String)

/-- What the value of a field is compared with. -/
inductive Test where
  | equal (c : Constant)
  | among (c d : Constant) (cs : List Constant)

/-- The plan of a field. -/
structure FieldPlan where
  /-- The text of the field. -/
  text : String
  type : FieldType
  length : Length
  /-- Whether an integer has a sign. -/
  signed : Bool
  /-- The byte order of an integer. -/
  order : Order
  /-- Whether the value of a rest or of a bitstring is read at all. -/
  kept : Bool
  /-- The locals that are bound to the value. -/
  locals : List String
  /-- What replaces the value. -/
  rebind : Option Expr
  test : Option Test
  check : Option Expr
  /-- The offset at which matching goes on. -/
  jump : Option Expr

/-- Whether the value of a field is read.  An integer and a string of some length are read, whether
or not anything looks at them. -/
def FieldPlan.reads (plan : FieldPlan) : Bool :=
  match plan.type, plan.length with
  | .int, _ | .string, .fixed _ | .string, .computed _ => true
  | .string, .rest | .bitstring, _ => plan.kept

/-- The plan of a body. -/
inductive BodyPlan where
  /-- The value of an expression. -/
  | value (e : Expr)
  /-- The answer of a callable for some bound names, each with its local. -/
  | call (callable : Callable) (args : List (String × String))

/-- The plan of a case. -/
structure CasePlan where
  index : Int
  fieldsText : String
  fields : List FieldPlan
  body : BodyPlan

/-- The names that are local to the function of a case. -/
def CasePlan.locals (plan : CasePlan) : List String :=
  plan.fields.flatMap FieldPlan.locals

end Plan

end BitPattern
