import Runbook.Script.Value

/-!
# Faults of scripts

Everything that ends a script early. `Fault.message` is the wording; a fault that was raised inside
of a function is wrapped in `Fault.inFunction`, except for those that stand for an exhausted limit
(`Fault.isLimit`), which no script can catch either.
-/

namespace Runbook.Script

/-- What ends a script early. -/
inductive Fault where
  | malformed (detail : String)
  | unknownVariable (name : String)
  | unknownFunction (name : String) (kinds : List String)
  | unknownProperty (name kind : String)
  | readOnlyProperty (name kind : String)
  | unknownIndexer (kind index : String)
  | constant (name : String)
  | constantReceiver (name : String)
  | wrongKind (expected actual : String)
  | arithmetic (detail : String)
  | itemOutOfBounds (size : Nat) (index : Int)
  | characterOutOfBounds (size : Nat) (index : Int)
  | bitOutOfBounds (index : Int)
  | notIterable
  | thrown (value : Value)
  | inFunction (name : String) (inner : Fault)
  | tooManyOperations
  | tooManyCalls
  | tooLarge (what : String)
  | terminated
  deriving Inhabited

namespace Fault

/-- How many items or characters there are, in the wording of a fault. -/
def countText (none one many : String) (size : Nat) : String :=
  match size with
  | 0 => none
  | 1 => "only 1 " ++ one
  | n => "only " ++ toString n ++ " " ++ many

/-- The wording of a fault. -/
def message : Fault → String
  | .malformed d => "Syntax error: " ++ d
  | .unknownVariable n => "Variable not found: " ++ n
  | .unknownFunction n kinds => "Function not found: " ++ n ++ " (" ++ ", ".intercalate kinds ++ ")"
  | .unknownProperty n k =>
    "Unknown property '" ++ n ++ "' - a getter is not registered for type '" ++ k ++ "'"
  | .readOnlyProperty n k =>
    "No writable property '" ++ n ++ "' - a setter is not registered for type '" ++ k ++
      "' to handle the assignment"
  | .unknownIndexer k i => "Indexer unavailable: " ++ k ++ " [" ++ i ++ "]"
  | .constant n => "Cannot modify constant: " ++ n
  | .constantReceiver n => "Non-pure method '" ++ n ++ "' cannot be called on a constant"
  | .wrongKind e a => "Data type incorrect: " ++ a ++ " (expecting " ++ e ++ ")"
  | .arithmetic d => d
  | .itemOutOfBounds size i =>
    "Array index " ++ toString i ++ " out of bounds: " ++
      countText "array is empty" "element in array" "elements in array" size
  | .characterOutOfBounds size i =>
    "String index " ++ toString i ++ " out of bounds: " ++
      countText "string is empty" "character in string" "characters in string" size
  | .bitOutOfBounds i =>
    "Bit-field index " ++ toString i ++ " out of bounds: only 64 bits in bit-field"
  | .notIterable => "For loop expects an iterable type"
  | .thrown .unit => "Runtime error"
  | .thrown (.str "") => "Runtime error"
  | .thrown v => "Runtime error: " ++ v.display
  | .inFunction n inner => inner.message ++ "\nin call to function '" ++ n ++ "'"
  | .tooManyOperations => "Too many operations"
  | .tooManyCalls => "Stack overflow"
  | .tooLarge what => what ++ " exceeds maximum limit"
  | .terminated => "Script terminated"

/-- The short name that a script sees of a fault that it catches. -/
def label : Fault → String
  | .malformed _ => "ErrorParsing"
  | .unknownVariable _ => "ErrorVariableNotFound"
  | .unknownFunction _ _ => "ErrorFunctionNotFound"
  | .unknownProperty _ _ => "ErrorDotExpr"
  | .readOnlyProperty _ _ => "ErrorDotExpr"
  | .unknownIndexer _ _ => "ErrorIndexingType"
  | .constant _ => "ErrorAssignmentToConstant"
  | .constantReceiver _ => "ErrorNonPureMethodCallOnConstant"
  | .wrongKind _ _ => "ErrorMismatchDataType"
  | .arithmetic _ => "ErrorArithmetic"
  | .itemOutOfBounds _ _ => "ErrorArrayBounds"
  | .characterOutOfBounds _ _ => "ErrorStringBounds"
  | .bitOutOfBounds _ => "ErrorBitFieldBounds"
  | .notIterable => "ErrorFor"
  | .thrown _ => "ErrorRuntime"
  | .inFunction _ _ => "ErrorInFunctionCall"
  | .tooManyOperations => "ErrorTooManyOperations"
  | .tooManyCalls => "ErrorStackOverflow"
  | .tooLarge _ => "ErrorDataTooLarge"
  | .terminated => "ErrorTerminated"

/-- Whether a fault stands for an exhausted limit. -/
def isLimit : Fault → Bool
  | .malformed _ | .tooManyOperations | .tooManyCalls | .tooLarge _ | .terminated => true
  | _ => false

/-- The fault at the origin of a chain of calls. -/
def origin : Fault → Fault
  | .inFunction _ inner => inner.origin
  | f => f

/-- The further facts that a script sees of a fault that it catches. -/
def facts : Fault → List (String × Value)
  | .unknownFunction n kinds => [("function", .str (n ++ " (" ++ ", ".intercalate kinds ++ ")"))]
  | .inFunction n _ => [("function", .str n), ("source", .str "")]
  | .unknownVariable n => [("variable", .str n)]
  | .constant n => [("variable", .str n)]
  | .unknownProperty n k => [("property",
      .str ((Fault.unknownProperty n k).message))]
  | .wrongKind e a => [("actual", .str a), ("requested", .str e)]
  | .itemOutOfBounds size i => [("length", .int size), ("index", .int i)]
  | .characterOutOfBounds size i => [("length", .int size), ("index", .int i)]
  | _ => []

/-- What a script catches: the thrown value, or a map that tells of the fault. -/
def caught (f : Fault) : Value :=
  match f.origin with
  | .thrown v => v
  | _ =>
    .map (Table.ofList
      ([("message", .str f.message), ("error", .str f.label)] ++ f.facts))

end Fault
end Runbook.Script
