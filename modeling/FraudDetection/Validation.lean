import FraudDetection.Rules
import Mathlib.Data.List.Sort
import Mathlib.Data.List.Dedup

/-!
# The static check of a condition

`validate_expression`: the first walk over a condition, made before it is stored and at every load. Every node's type is worked
out from its literals and the declared type of each variable and checked against what its operator needs, in every branch.
-/

namespace FraudDetection

/-- `MAX_EXPRESSION_DEPTH`. -/
def maxExpressionDepth : ℕ := 24

/-- `MAX_EXPRESSION_NODES`. -/
def maxExpressionNodes : ℕ := 400

/-- The type of a node: of a value, of the empty list, or of a list of values of one type. -/
inductive NodeType where
  | value (type : ValueType)
  | emptyList
  | list (element : NodeType)
  deriving DecidableEq, Repr

namespace NodeType

/-- The text of a type in an error message: `a list of text`, `a list of anything`. -/
def label : NodeType → String
  | .value type => type.label
  | .emptyList => "a list of anything"
  | .list element => "a list of " ++ element.label

abbrev number : NodeType := .value .number
abbrev text : NodeType := .value .text
abbrev boolean : NodeType := .value .boolean
abbrev null : NodeType := .value .null

/-- `_list_of`: the type of a list literal; `none` for an empty list. -/
def listOf : Option NodeType → NodeType
  | none => .emptyList
  | some element => .list element

/-- `repr(type)`, as a list of types is printed. -/
def repr : NodeType → String
  | .value .number => "<ValueType.NUMBER: 'a number'>"
  | .value .text => "<ValueType.TEXT: 'text'>"
  | .value .boolean => "<ValueType.BOOLEAN: 'true/false'>"
  | .value .null => "<ValueType.NULL: 'null'>"
  | type => "'" ++ type.label ++ "'"

end NodeType

/-- `_EXAMPLE_DEFAULTS`: a default of a variable's type, suggested when a rule leaves one out. -/
def exampleDefault : ValueType → String
  | .number => "0"
  | .text => "\"UNKNOWN\""
  | .boolean => "false"
  | .null => ""

/-- Why a condition is refused. Each constructor holds what its message prints. -/
inductive InvalidCondition where
  | tooManyNodes (path : String)
  | tooDeep (location : String)
  | mixedList (location : String) (types : List NodeType)
  | notFinite (location : String)
  | operatorKeys (location : String)
  | unsupportedOperator (location operator : String)
  | argumentCount (location operator : String) (minimum : ℕ) (maximum : Option ℕ) (given : ℕ)
  | unknownVariable (location : String) (name : Json)
  | needsDefault (location name : String) (type : ValueType)
  | wrongDefault (location name : String) (type : ValueType) (given : NodeType)
  | operand (location operator : String) (index : ℕ) (purpose : String) (actual : NodeType)
  | ifCondition (location : String) (condition : NodeType)
  | ifBranches (location : String) (whenTrue whenFalse : NodeType)
  | neverEqual (location operator : String) (left right : NodeType)
  | notText (location : String) (needle : NodeType)
  | neverMatches (location : String) (needle haystack : NodeType)
  | needsHaystack (location : String) (haystack : NodeType)
  | notBoolean (path : String) (result : NodeType)

/-- `{"var": ["name", default]}`, as an error message suggests it. -/
def suggestion (name : String) (type : ValueType) : String :=
  "\x7b\"var\": [\"" ++ name ++ "\", " ++ exampleDefault type ++ "]\x7d"

/-- The items of a list as Python prints it. -/
def printed (items : List String) : String := "[" ++ ", ".intercalate items ++ "]"

/-- The text of a refusal. `repr` is Python's, which prints the name of an unknown variable. -/
def InvalidCondition.message (repr : Json → String) : InvalidCondition → String
  | .tooManyNodes path => path ++ ": expression has more than " ++ toString maxExpressionNodes ++ " nodes"
  | .tooDeep location => location ++ ": expression is nested deeper than " ++ toString maxExpressionDepth
  | .mixedList location types =>
    location ++ ": a list must hold values of one type, got " ++
      printed ((types.insertionSort (fun s t => s.label ≤ t.label)).map NodeType.repr)
  | .notFinite location => location ++ ": numbers must be finite"
  | .operatorKeys location => location ++ ": an operation must have exactly one operator key"
  | .unsupportedOperator location operator => location ++ ": unsupported operator '" ++ operator ++ "'"
  | .argumentCount location operator minimum maximum given =>
    let expected :=
      if some minimum = maximum then toString minimum
      else toString minimum ++ ".." ++ (match maximum with | some m => toString m | none => "n")
    location ++ ": '" ++ operator ++ "' takes " ++ expected ++ " arguments, got " ++ toString given
  | .unknownVariable location name =>
    location ++ ": unknown variable " ++ repr name ++ "; allowed: " ++
      printed (((declaredVariables.map (·.1)).insertionSort (· ≤ ·)).map fun v => "'" ++ v ++ "'")
  | .needsDefault location name type =>
    location ++ ": '" ++ name ++ "' is optional in events, so it needs a default of type " ++ type.label ++ ", e.g. " ++
      suggestion name type
  | .wrongDefault location name type given =>
    location ++ ": the default for '" ++ name ++ "' must be " ++ type.label ++ " (its type), not " ++ given.label ++
      ", e.g. " ++ suggestion name type
  | .operand location operator index purpose actual =>
    location ++ "." ++ operator ++ "[" ++ toString index ++ "]: '" ++ operator ++ "' " ++ purpose ++ ", but this is " ++
      actual.label
  | .ifCondition location condition =>
    location ++ ".if[0]: the condition of 'if' must be true/false, not " ++ condition.label
  | .ifBranches location whenTrue whenFalse =>
    location ++ ": both branches of 'if' must have the same type, got " ++ whenTrue.label ++ " and " ++ whenFalse.label
  | .neverEqual location operator left right =>
    location ++ ": '" ++ operator ++ "' compares " ++ left.label ++ " with " ++ right.label ++
      ", which can never be equal"
  | .notText location needle =>
    location ++ ": 'in' looks for text inside text, but the value is " ++ needle.label
  | .neverMatches location needle haystack =>
    location ++ ": 'in' looks for " ++ needle.label ++ " in " ++ haystack.label ++ ", which can never match"
  | .needsHaystack location haystack => location ++ ".in[1]: 'in' needs a list or text, but this is " ++ haystack.label
  | .notBoolean path result =>
    path ++ ": a condition must be true/false, but this one is " ++ result.label

/-- `_operator_args`: an operation's arguments; a single argument need not be in a list. -/
def operatorArgs : Json → List Json
  | .arr args => args
  | arg => [arg]

/-- `_literal_type`. -/
def literalType : Json → NodeType
  | .null => .null
  | .bool _ => .boolean
  | .int _ => .number
  | .float _ => .number
  | _ => .text

/-- The fewest and the most arguments a supported operator takes. -/
def arity (operator : String) : Option (ℕ × Option ℕ) :=
  match lazyOperators.find? (fun o => o.1 == operator) with
  | some (_, bounds) => some bounds
  | none => (operators.find? (fun o => o.1 == operator)).map fun o => (o.2.1, o.2.2.1)

/-- `require`: every argument has the expected type. -/
def require (location operator : String) (expected : NodeType) (purpose : String) :
    ℕ → List NodeType → Except InvalidCondition Unit
  | _, [] => .ok ()
  | index, actual :: types =>
    if actual ≠ expected then .error (.operand location operator index purpose actual)
    else require location operator expected purpose (index + 1) types

/-- The type of an operation whose arguments have the given types, `var` apart. The two cases of a wrong number of types are not
reached: the count was checked before. -/
def operationType (location operator : String) (types : List NodeType) : Except InvalidCondition NodeType :=
  if operator ∈ [">", ">=", "<", "<=", "+", "-", "*", "min", "max"] then do
    require location operator .number "works on numbers" 0 types
    return if operator ∈ [">", ">=", "<", "<="] then .boolean else .number
  else if operator ∈ ["and", "or", "!"] then do
    require location operator .boolean "combines true/false conditions" 0 types
    return .boolean
  else if operator = "if" then
    match types with
    | [condition, whenTrue, whenFalse] =>
      if condition ≠ .boolean then .error (.ifCondition location condition)
      else if whenTrue ≠ whenFalse then .error (.ifBranches location whenTrue whenFalse)
      else .ok whenTrue
    | _ => .error (.operatorKeys location)
  else
    match types with
    | [left, right] =>
      if operator ∈ ["==", "!="] then
        if left ≠ right ∧ left ≠ .null ∧ right ≠ .null then .error (.neverEqual location operator left right)
        else .ok .boolean
      else
        -- "in": a value in a list of the same type, or text inside text
        match right with
        | .value .text => if left ≠ .text then .error (.notText location left) else .ok .boolean
        | .emptyList => .ok .boolean
        | .list element => if element ≠ left then .error (.neverMatches location left right) else .ok .boolean
        | _ => .error (.needsHaystack location right)
    | _ => .error (.operatorKeys location)

/-- Check some nodes in order, giving their types. `check` is `visit` one level down; a `count` is the nodes seen so far. -/
def visitEach (check : Json → String → ℕ → Except InvalidCondition (NodeType × ℕ)) (location : ℕ → String) :
    ℕ → List Json → ℕ → Except InvalidCondition (List NodeType × ℕ)
  | _, [], count => .ok ([], count)
  | index, item :: items, count => do
    let (type, count) ← check item (location index) count
    let (types, count) ← visitEach check location (index + 1) items count
    return (type :: types, count)

/-- `check_variable`: the type of a variable, whose default is checked by `check`. -/
def checkVariable (check : Json → String → ℕ → Except InvalidCondition (NodeType × ℕ)) (location : String)
    (args : List Json) (count : ℕ) : Except InvalidCondition (NodeType × ℕ) :=
  match args with
  | .str name :: rest =>
    match variableNamed name with
    | none => .error (.unknownVariable location (.str name))
    | some declared =>
      match rest with
      | [] =>
        if declared.required then .ok (.value declared.type, count)
        else .error (.needsDefault location name declared.type)
      | default :: _ => do
        let (defaultType, count) ← check default (location ++ ".var[1]") count
        if defaultType ≠ .value declared.type then .error (.wrongDefault location name declared.type defaultType)
        else return (.value declared.type, count)
  | name :: _ => .error (.unknownVariable location name)
  | [] => .error (.operatorKeys location)

/-- `visit`: check a node and return its type, with the number of nodes seen so far. `levels` is how many levels of nesting are
still allowed: `MAX_EXPRESSION_DEPTH + 1 - depth`. -/
def visit (path : String) : ℕ → Json → String → ℕ → Except InvalidCondition (NodeType × ℕ)
  | levels, node, location, count =>
    let count := count + 1
    if maxExpressionNodes < count then .error (.tooManyNodes path)
    else
      match levels with
      | 0 => .error (.tooDeep location)
      | levels + 1 =>
        match node with
        | .arr items => do
          let (types, count) ← visitEach (visit path levels) (fun i => location ++ "[" ++ toString i ++ "]") 0 items count
          if 1 < types.dedup.length then .error (.mixedList location types.dedup)
          else return (.listOf types.dedup.head?, count)
        | .obj [(operator, raw)] =>
          let args := operatorArgs raw
          match arity operator with
          | none => .error (.unsupportedOperator location operator)
          | some (minimum, maximum) =>
            if args.length < minimum ∨ (∃ m ∈ maximum, m < args.length) then
              .error (.argumentCount location operator minimum maximum args.length)
            else if operator = "var" then checkVariable (visit path levels) location args count
            else do
              let (types, count) ← visitEach (visit path levels)
                (fun i => location ++ "." ++ operator ++ "[" ++ toString i ++ "]") 0 args count
              let type ← operationType location operator types
              return (type, count)
        | .obj _ => .error (.operatorKeys location)
        | .float f => if f.isFinite then .ok (literalType node, count) else .error (.notFinite location)
        | _ => .ok (literalType node, count)

/-- `validate_expression`. -/
def validateExpression (expression : Json) (path : String) : Except InvalidCondition Unit := do
  let (result, _) ← visit path maxExpressionDepth expression path 0
  if result ≠ .boolean then .error (.notBoolean path result)

end FraudDetection
