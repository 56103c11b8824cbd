/-!
# Report codes

Every report carries a code: a number, the stage at which the fault was found and the category
that filters go by.  The numbers of a stage share their thousands.
-/

namespace BitPattern.Report

/-- The stage at which a fault is found. -/
inductive Phase where
  | parsing
  | qualifier
  | static
  | codegen
  | runtime
  deriving DecidableEq, Repr

/-- The name of a stage in reports. -/
def Phase.name : Phase → String
  | parsing => "syntax"
  | qualifier => "qualifier"
  | static => "static"
  | codegen => "codegen"
  | runtime => "runtime"

/-- The kind of a fault, whatever its stage. -/
inductive Category where
  | invalidField
  | invalidExpression
  | invalidPattern
  | duplicateAttribute
  | unknownQualifier
  | missingType
  | lengthOutOfRange
  | undefinedSymbol
  | arityMismatch
  | unsupportedFeature
  | noMatch
  deriving DecidableEq, Repr

/-- The name of a category in reports. -/
def Category.name : Category → String
  | invalidField => "INVALID_FIELD"
  | invalidExpression => "INVALID_EXPRESSION"
  | invalidPattern => "INVALID_PATTERN"
  | duplicateAttribute => "DUPLICATE_ATTRIBUTE"
  | unknownQualifier => "UNKNOWN_QUALIFIER"
  | missingType => "MISSING_TYPE"
  | lengthOutOfRange => "LENGTH_OUT_OF_RANGE"
  | undefinedSymbol => "UNDEFINED_SYMBOL"
  | arityMismatch => "ARITY_MISMATCH"
  | unsupportedFeature => "UNSUPPORTED_FEATURE"
  | noMatch => "NO_MATCH"

/-- The codes of reports. -/
inductive Code where
  | invalidField
  | invalidExpression
  | invalidCasePattern
  | duplicateAttribute
  | unknownQualifier
  | missingType
  | lengthOutOfRange
  | invalidBitstringPattern
  | unboundName
  | bodySignature
  | invalidConfig
  | codegenFailure
  | noMatch
  deriving DecidableEq, Repr

namespace Code

/-- Every code, in the order of their numbers. -/
def all : List Code := [
  invalidField, invalidExpression, invalidCasePattern, duplicateAttribute, unknownQualifier,
  missingType, lengthOutOfRange, invalidBitstringPattern, unboundName, bodySignature,
  invalidConfig, codegenFailure, noMatch]

/-- The four digits of a code. -/
def number : Code → Nat
  | invalidField => 1000
  | invalidExpression => 1001
  | invalidCasePattern => 1002
  | duplicateAttribute => 2000
  | unknownQualifier => 2001
  | missingType => 3000
  | lengthOutOfRange => 3001
  | invalidBitstringPattern => 3002
  | unboundName => 3003
  | bodySignature => 3004
  | invalidConfig => 3005
  | codegenFailure => 4000
  | noMatch => 5000

/-- The stage that a code belongs to. -/
def phase : Code → Phase
  | invalidField | invalidExpression | invalidCasePattern => .parsing
  | duplicateAttribute | unknownQualifier => .qualifier
  | missingType | lengthOutOfRange | invalidBitstringPattern | unboundName | bodySignature
  | invalidConfig => .static
  | codegenFailure => .codegen
  | noMatch => .runtime

/-- The category that a code belongs to. -/
def category : Code → Category
  | invalidField => .invalidField
  | invalidExpression => .invalidExpression
  | invalidCasePattern | invalidBitstringPattern => .invalidPattern
  | duplicateAttribute => .duplicateAttribute
  | unknownQualifier => .unknownQualifier
  | missingType => .missingType
  | lengthOutOfRange => .lengthOutOfRange
  | unboundName => .undefinedSymbol
  | bodySignature => .arityMismatch
  | invalidConfig | codegenFailure => .unsupportedFeature
  | noMatch => .noMatch

/-- The text of a code. -/
def text (code : Code) : String :=
  "BM-" ++ Nat.repr code.number

/-- The code and its category, for display. -/
def display (code : Code) : String :=
  "ErrorCode('" ++ code.text ++ "', " ++ code.category.name ++ ")"

end Code

end BitPattern.Report
