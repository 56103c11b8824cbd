import BitPattern.Plan.Basic
import BitPattern.Value.Run
import BitPattern.Value.Subject

/-!
# Running plans

A plan runs on a subject field by field.  What a run carries along is the offset of the next bit,
the number of bits left, and the values bound so far.  A field that does not accept its bits ends
the run of the case without a value; a fault ends the run of the whole match.

A name that is local to a case has no value before a field binds it, even where the environment
knows the name too.
-/

namespace BitPattern.Plan

/-! ## Names -/

/-- The name that always stands for a true value. -/
def constantName : String := "__debug__"

/-- What names stand for where some locals have values, the latest first. -/
abbrev Names := List (String × Value) → String → Except Fault Value

/-- What the names of a plan may refer to: the locals of its case, and everything else. -/
structure Frame where
  locals : List String
  globals : List (String × Value)

/-- The value of a name where some locals have values. -/
def Frame.lookup (frame : Frame) : Names := fun bound x =>
  if x == constantName then .ok (.bool true)
  else
    match (if frame.locals.contains x then bound else frame.globals).lookup x with
    | some v => .ok v
    | none => .error (.unassigned x)

/-! ## Fields -/

/-- A computed number of bits, if it is fit for the type and as many are left.  The number -1 of a
string or a bitstring stands for all that is left. -/
def fit (type : FieldType) (n len : Scalar) : Option Scalar :=
  match type with
  | .int => if n.toInt < 1 || 64 < n.toInt || len.toInt < n.toInt then none else some n
  | .string =>
    let n := if n.toInt = -1 then len else n
    if n.toInt < 0 || n.toInt % 8 != 0 || len.toInt < n.toInt then none else some n
  | .bitstring =>
    let n := if n.toInt = -1 then len else n
    if n.toInt < 0 || len.toInt < n.toInt then none else some n

/-- Where a run stands in its subject, and the values of the locals, the latest first. -/
structure State where
  off : Int
  len : Scalar
  bound : List (String × Value)

/-- The start of a run: the first bit of the subject is next, and nothing is bound. -/
def State.start (subject : Bitstring) : State :=
  ⟨subject.offset, subject.givenLength, []⟩

/-- So many bits further on, with the values that are bound then. -/
def State.past (state : State) (width : Scalar) (bound : List (String × Value)) : State :=
  ⟨state.off + width.toInt, .number (state.len.toInt - width.toInt), bound⟩

/-- The number of bits of a field, or nothing if the subject is too short or the number unfit. -/
def FieldPlan.width (plan : FieldPlan) (lookup : String → Except Fault Value) (len : Scalar) :
    Run (Option Scalar) :=
  match plan.length with
  | .fixed n => pure (if len.toInt < n then none else some (.number n))
  | .rest =>
    pure (if plan.type == .string && plan.kept && len.toInt % 8 != 0 then none else some len)
  | .computed e => do
    let v ← e.eval lookup
    let n ← Run.ofExcept v.toScalar
    pure (fit plan.type n len)

/-- The byte order of an integer. -/
def Order.eval (order : Order) (lookup : String → Except Fault Value) : Run ByteOrder :=
  match order with
  | named name => .ofExcept (ByteOrder.ofName name)
  | computed e native => do
    let v ← e.eval lookup
    let e ← Run.ofExcept v.toEndian
    Run.ofExcept (ByteOrder.ofName (if e == .native then native else e.name))

/-- The value of a field of that many bits. -/
def FieldPlan.read (plan : FieldPlan) (lookup : String → Except Fault Value) (data : Bytes)
    (off : Int) (width : Scalar) : Run Value :=
  match plan.type with
  | .int => do
    let order ← plan.order.eval lookup
    Run.ofExcept (Value.int <$> Bits.getInt data off width plan.signed (.ok order))
  | .string =>
    .ofExcept (Value.ofBytes <$> Bits.getBytes data off (Scalar.number (width.toInt / 8)))
  | .bitstring => .ofExcept (Value.bits <$> Bitstring.view data off width)

/-- Whether a value passes a test. -/
def Test.accepts (test : Test) (v : Value) : Bool :=
  match test with
  | equal c => v.same (constantValue c)
  | among c d cs => (c :: d :: cs).any fun c => v.same (constantValue c)
where
  /-- The value of a constant. -/
  constantValue : Constant → Value
    | .int n => .int n
    | .bytes b => .ofBytes b

/-- The locals bound to a value, before all others. -/
def bindLocals (bound : List (String × Value)) (locals : List String) (v : Value) :
    List (String × Value) :=
  locals.foldl (fun bound x => (x, v) :: bound) bound

/-- The value of a field that counts: the one read, or what replaces it. -/
def FieldPlan.replace (plan : FieldPlan) (names : Names) (bound : List (String × Value))
    (v : Value) : Run Value :=
  match plan.rebind with
  | none => pure v
  | some e => e.eval (names (bindLocals bound plan.locals v))

/-- Whether a value passes the test and the check of a field. -/
def FieldPlan.passes (plan : FieldPlan) (names : Names) (bound : List (String × Value))
    (v : Value) : Run Bool :=
  if plan.test.all (·.accepts v) then
    match plan.check with
    | none => pure true
    | some e => do
      let w ← e.eval (names bound)
      pure w.truth
  else pure false

/-- Replaces, binds and tests the value of a field; nothing is left of a value that is refused. -/
def FieldPlan.accept (plan : FieldPlan) (names : Names) (bound : List (String × Value))
    (v : Value) : Run (Option (List (String × Value))) := do
  let v ← plan.replace names bound v
  let bound := bindLocals bound plan.locals v
  let passed ← plan.passes names bound v
  pure (if passed then some bound else none)

/-- Reads and accepts the value of a field of that many bits, if the field reads one. -/
def FieldPlan.consume (plan : FieldPlan) (names : Names) (data : Bytes) (state : State)
    (width : Scalar) : Run (Option (List (String × Value))) :=
  if plan.reads then do
    let v ← plan.read (names state.bound) data state.off width
    plan.accept names state.bound v
  else pure (some state.bound)

/-- Moves to the offset that an expression gives, counted from the start of the subject. -/
def jumpTo (names : Names) (subject : Bitstring) (e : Expr) (state : State) :
    Run (Option State) := do
  let v ← e.eval (names state.bound)
  let n ← Run.ofExcept v.toInt
  let start : Int := subject.offset
  let stop : Int := start + subject.length
  let off := start + n
  pure (if off < start || stop < off then none
    else some { state with off, len := .number (stop - off) })

/-- Where matching goes on after the bits of a field. -/
def FieldPlan.goOn (plan : FieldPlan) (names : Names) (subject : Bitstring) (next : State) :
    Run (Option State) :=
  match plan.jump with
  | none => pure (some next)
  | some e => jumpTo names subject e next

/-- Runs a field: where matching goes on, or nothing if the field refuses its bits. -/
def FieldPlan.run (plan : FieldPlan) (names : Names) (subject : Bitstring) (state : State) :
    Run (Option State) := do
  match ← plan.width (names state.bound) state.len with
  | none => pure none
  | some width => do
    match ← plan.consume names subject.data state width with
    | none => pure none
    | some bound => plan.goOn names subject (state.past width bound)

/-- Runs fields one after the other. -/
def runFields (names : Names) (subject : Bitstring) (state : State) :
    List FieldPlan → Run (Option State)
  | [] => pure (some state)
  | plan :: rest => do
    match ← plan.run names subject state with
    | none => pure none
    | some state => runFields names subject state rest

/-! ## Bodies -/

/-- The value of a body. -/
def BodyPlan.run (body : BodyPlan) (lookup : String → Except Fault Value) : Run Value :=
  match body with
  | value e => e.eval lookup
  | call callable args => do
    let args ← Run.ofExcept (args.mapM fun arg => do pure (arg.1, ← lookup arg.2))
    Run.ofExcept (callable.answer args)

/-! ## Cases -/

/-- Runs a case under some reading of its names: the value of its body, or nothing if a field
refuses its bits. -/
def CasePlan.runWith (plan : CasePlan) (names : Names) (subject : Bitstring) :
    Run (Option Value) := do
  match ← runFields names subject (.start subject) plan.fields with
  | none => pure none
  | some state => do
    let v ← plan.body.run (names state.bound)
    pure (some v)

/-- Runs a case on its locals and on everything else that its names may refer to. -/
def CasePlan.run (plan : CasePlan) (globals : List (String × Value)) (subject : Bitstring) :
    Run (Option Value) :=
  plan.runWith (Frame.lookup ⟨plan.locals, globals⟩) subject

end BitPattern.Plan
