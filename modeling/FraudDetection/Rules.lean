import FraudDetection.Lib.JsonText
import FraudDetection.Lib.Except

/-!
# Conditions: values, variables, operators and evaluation

A rule's condition is JSON in a subset of JsonLogic. This module is the second of the two walks over it: what a condition
evaluates to for one transaction (`_normalise_literal`, `_lookup`, `_evaluate` and the operator table). The first walk, the
static check made before a condition is stored, is `Validation.lean`.

A condition that was never checked can fail in ways a checked one cannot. Those failures are kept: `EvaluationError.python`
stands for every Python exception that is not a `RuleEvaluationError`.
-/

namespace FraudDetection

/-! ## Values -/

/-- The type of a value in a condition, as reported in validation errors. -/
inductive ValueType where
  | number | text | boolean | null
  deriving DecidableEq, Repr

/-- The text of a type in an error message. -/
def ValueType.label : ValueType → String
  | .number => "a number"
  | .text => "text"
  | .boolean => "true/false"
  | .null => "null"

/-- A value at run time. Every number is a `Decimal`; a `dict` is a group of variables such as `velocity`. -/
inductive Value where
  | null
  | bool (value : Bool)
  | num (value : Decimal)
  | str (value : String)
  | lone (value : LoneStr)
  | list (items : List Value)
  | dict (entries : List (String × Value))
  deriving Repr

namespace Value

/-- `type(value).__name__`. -/
def typeName : Value → String
  | .null => "NoneType"
  | .bool _ => "bool"
  | .num _ => "Decimal"
  | .str _ | .lone _ => "str"
  | .list _ => "list"
  | .dict _ => "dict"

/-- `bool(value)`. -/
def truthy : Value → Bool
  | .null => false
  | .bool b => b
  | .num d => decide (d.coeff ≠ 0)
  | .str s => decide (s ≠ "")
  | .lone _ => true
  | .list items => !items.isEmpty
  | .dict entries => !entries.isEmpty

/-- The value under a key of a group of variables. -/
def get? : List (String × Value) → String → Option Value
  | [], _ => none
  | (k, v) :: entries, key => if k = key then some v else get? entries key

/-- A boolean as the number Python takes it for. -/
def ofBool (b : Bool) : Decimal := .ofInt (if b then 1 else 0)

mutual

/-- `left == right`: by value for numbers, item by item for lists, key by key for dicts. A boolean is a number to `==`. -/
def pyEq : Value → Value → Bool
  | .null, .null => true
  | .bool a, .bool b => a == b
  | .bool a, .num d => (ofBool a).eqv d
  | .num d, .bool b => d.eqv (ofBool b)
  | .num a, .num b => a.eqv b
  | .str a, .str b => a == b
  | .lone a, .lone b => decide (a = b)
  | .list as, .list bs => pyEqItems as bs
  | .dict as, .dict bs => decide (as.length = bs.length) && pyEqEntries as bs
  | _, _ => false

def pyEqItems : List Value → List Value → Bool
  | [], [] => true
  | a :: as, b :: bs => pyEq a b && pyEqItems as bs
  | _, _ => false

def pyEqEntries : List (String × Value) → List (String × Value) → Bool
  | [], _ => true
  | (k, v) :: as, bs => (match get? bs k with | some w => pyEq v w | none => false) && pyEqEntries as bs

end

end Value

/-! ## Variables -/

/-- A value a rule can read about a transaction. -/
structure Variable where
  type : ValueType
  /-- False when the producer may leave it out, so that a rule needs a default. -/
  required : Bool
  deriving DecidableEq, Repr

/-- `VARIABLES`: every variable a rule can read. -/
def declaredVariables : List (String × Variable) := [
  ("amount", ⟨.number, true⟩),
  ("currency", ⟨.text, true⟩),
  ("category", ⟨.text, true⟩),
  ("velocity.prior_count", ⟨.number, true⟩),
  ("velocity.prior_amount", ⟨.number, true⟩),
  ("channel", ⟨.text, false⟩),
  ("country", ⟨.text, false⟩),
  ("enrichment.distance_from_last_tx_km", ⟨.number, false⟩),
  ("enrichment.minutes_since_last_tx", ⟨.number, false⟩),
  ("enrichment.user_historical_avg_spend", ⟨.number, false⟩),
  ("enrichment.is_new_merchant_for_user", ⟨.boolean, false⟩),
  ("enrichment.is_travel_itinerary_active", ⟨.boolean, false⟩)]

/-- The declaration of a variable, if the name is one. -/
def variableNamed (name : String) : Option Variable := (declaredVariables.find? (fun v => v.1 == name)).map (·.2)

/-- `dotted_name.split(".")`. -/
def splitDots : List Char → List (List Char)
  | [] => [[]]
  | '.' :: rest => [] :: splitDots rest
  | c :: rest =>
    match splitDots rest with
    | [] => [[c]]
    | part :: parts => (c :: part) :: parts

/-- `_lookup`, part by part; `none` is `_MISSING`. -/
def lookupParts : Value → List (List Char) → Option Value
  | current, [] => some current
  | .dict entries, part :: parts =>
    match Value.get? entries (String.ofList part) with
    | some value => lookupParts value parts
    | none => none
  | _, _ :: _ => none

/-- `_lookup`: resolve names such as `velocity.prior_count`; `none` if any part is absent. -/
def lookupVariable (context : Value) (dottedName : String) : Option Value :=
  lookupParts context (splitDots dottedName.toList)

/-! ## Evaluation errors -/

/-- A Python exception other than `RuleEvaluationError`. -/
inductive PythonError where
  | attributeError | indexError | keyError | typeError | valueError
  /-- An infinity or a NaN reached the arithmetic, which is outside the finite numbers `Decimal` models. -/
  | nonFinite
  deriving DecidableEq, Repr

/-- Why evaluating a condition stopped. All but the last are a `RuleEvaluationError`. -/
inductive EvaluationError where
  /-- A decimal signal inside an operator. -/
  | arithmetic (operator : String) (signal : Decimal.Signal)
  | expectsNumbers (operator typeName : String)
  | expectsHaystack
  | unavailable (name : String)
  | python (error : PythonError)
  deriving DecidableEq, Repr

/-- The text of a `RuleEvaluationError`. -/
def EvaluationError.message : EvaluationError → String
  | .arithmetic operator .overflow => "'" ++ operator ++ "' failed: [<class 'decimal.Overflow'>]"
  | .expectsNumbers operator typeName => "'" ++ operator ++ "' expects numbers, got " ++ typeName
  | .expectsHaystack => "'in' expects a list or string as its second argument"
  | .unavailable name => "variable '" ++ name ++ "' is not available in this context"
  | .python _ => ""

/-! ## The eager operators -/

/-- `_to_decimal`: the number a value is, rejecting everything else. -/
def toDecimal (operator : String) : Value → Except EvaluationError Decimal
  | .num d => .ok d
  | v => .error (.expectsNumbers operator v.typeName)

/-- `_numbers`. -/
def numbers (operator : String) : List Value → Except EvaluationError (List Decimal)
  | [] => .ok []
  | arg :: args => do
    let d ← toDecimal operator arg
    let ds ← numbers operator args
    return d :: ds

/-- The result of a decimal operation: a signal becomes a `RuleEvaluationError`. -/
def arithmetic (operator : String) : Except Decimal.Signal Decimal → Except EvaluationError Decimal
  | .ok d => .ok d
  | .error s => .error (.arithmetic operator s)

/-- Whether a check holds between every two neighbours: `{"<": [a, b, c]}` is `a < b < c`. -/
def pairwise (check : Decimal → Decimal → Bool) : List Decimal → Bool
  | a :: b :: rest => check a b && pairwise check (b :: rest)
  | _ => true

/-- `_compare`: a numeric comparison; comparing anything else is an evaluation error. -/
def compare (operator : String) (check : Decimal → Decimal → Bool) (args : List Value) : Except EvaluationError Value := do
  let values ← numbers operator args
  return .bool (pairwise check values)

/-- `_equals`: numbers by value, anything else as it is. -/
def equals (left right : Value) : Bool := left.pyEq right

/-- `needle in haystack` for strings. -/
def substring (needle haystack : String) : Bool := decide (needle.toList <:+: haystack.toList)

/-- `_membership`: an item in a list, or a substring of a string. -/
def membership (needle : Value) : Value → Except EvaluationError Value
  | .str haystack =>
    -- half of a surrogate pair is in no text
    match needle with
    | .str s => .ok (.bool (substring s haystack))
    | _ => .ok (.bool false)
  | .lone haystack =>
    match needle with
    | .str s => .ok (.bool (decide (PyStr.ofString s <:+: haystack.points)))
    | .lone s => .ok (.bool (decide (s.points <:+: haystack.points)))
    | _ => .ok (.bool false)
  | .list items => .ok (.bool (items.any (equals needle)))
  | _ => .error .expectsHaystack

/-- A left fold of a decimal operation. -/
def foldDecimals (operator : String) (op : Decimal → Decimal → Except Decimal.Signal Decimal) :
    Decimal → List Decimal → Except EvaluationError Decimal
  | acc, [] => .ok acc
  | acc, d :: ds => do
    let acc ← arithmetic operator (op acc d)
    foldDecimals operator op acc ds

/-- `sum(_numbers(args, "+"), Decimal(0))`. -/
def sum (args : List Value) : Except EvaluationError Value := do
  let values ← numbers "+" args
  let total ← foldDecimals "+" Decimal.add (.ofInt 0) values
  return .num total

/-- `_subtract`: the negation of one argument, or the difference of two. -/
def subtract (args : List Value) : Except EvaluationError Value := do
  match ← numbers "-" args with
  | [] => .error (.python .indexError)
  | [a] => return .num (← arithmetic "-" a.neg)
  | a :: b :: _ => return .num (← arithmetic "-" (a.sub b))

/-- `_multiply`. -/
def multiply (args : List Value) : Except EvaluationError Value := do
  let values ← numbers "*" args
  let product ← foldDecimals "*" Decimal.mul (.ofInt 1) values
  return .num product

/-- `min` or `max` of some numbers: the first that no later one is `better` than. -/
def extremum (operator : String) (better : Decimal → Decimal → Bool) (args : List Value) :
    Except EvaluationError Value := do
  match ← numbers operator args with
  | [] => .error (.python .valueError)
  | d :: ds => return .num (ds.foldl (fun best item => if better item best then item else best) d)

/-- A function of one argument, called with the arguments given. -/
def unary (f : Value → Except EvaluationError Value) : List Value → Except EvaluationError Value
  | [a] => f a
  | _ => .error (.python .typeError)

/-- A function of two arguments, called with the arguments given. -/
def binary (f : Value → Value → Except EvaluationError Value) : List Value → Except EvaluationError Value
  | [a, b] => f a b
  | _ => .error (.python .typeError)

/-- `_OPERATORS`: the operators evaluated eagerly, with the fewest and the most arguments each takes (`none`: no limit) and
what each computes. -/
def operators : List (String × ℕ × Option ℕ × (List Value → Except EvaluationError Value)) := [
  ("==", 2, some 2, binary fun left right => .ok (.bool (equals left right))),
  ("!=", 2, some 2, binary fun left right => .ok (.bool (!equals left right))),
  (">", 2, some 2, compare ">" fun left right => right.lt left),
  (">=", 2, some 2, compare ">=" fun left right => right.le left),
  ("<", 2, some 3, compare "<" Decimal.lt),
  ("<=", 2, some 3, compare "<=" Decimal.le),
  ("!", 1, some 1, unary fun value => .ok (.bool (!value.truthy))),
  ("in", 2, some 2, binary membership),
  ("+", 1, none, sum),
  ("-", 1, some 2, subtract),
  ("*", 1, none, multiply),
  ("min", 1, none, extremum "min" Decimal.lt),
  ("max", 1, none, extremum "max" fun item best => best.lt item)]

/-- `_LAZY_OPERATORS`: the operators that do not evaluate every argument. -/
def lazyOperators : List (String × ℕ × Option ℕ) := [
  ("and", 1, none),
  ("or", 1, none),
  ("if", 3, some 3),
  ("var", 1, some 2)]

/-- `_OPERATORS[operator](*args)`. -/
def applyOperator (operator : String) (args : List Value) : Except EvaluationError Value :=
  match operators.find? (fun o => o.1 == operator) with
  | some (_, _, _, implementation) => implementation args
  | none => .error (.python .keyError)

/-! ## Normalised conditions and their evaluation -/

/-- A condition whose number literals are `Decimal`. -/
inductive Node where
  | null
  | bool (value : Bool)
  | num (value : Decimal)
  /-- `Decimal("Infinity")` or `Decimal("NaN")`. -/
  | nonFinite (value : PyFloat)
  | str (value : String)
  | lone (value : LoneStr)
  | arr (items : List Node)
  | obj (entries : List (String × Node))
  deriving Repr

/-- A float literal: the decimal its `repr` writes. -/
def normaliseFloat : PyFloat → Node
  | .finite f => .num f.toDecimal
  | f => .nonFinite f

mutual

/-- `_normalise_literal`: number literals become `Decimal`, so that they compare exactly with context values. -/
def normaliseLiteral : Json → Node
  | .null => .null
  | .bool b => .bool b
  | .int n => .num (.ofInt n)
  | .float f => normaliseFloat f
  | .str s => .str s
  | .lone s => .lone s
  | .arr items => .arr (normaliseItems items)
  | .obj entries => .obj (normaliseEntries entries)

def normaliseItems : List Json → List Node
  | [] => []
  | item :: items => normaliseLiteral item :: normaliseItems items

def normaliseEntries : List (String × Json) → List (String × Node)
  | [] => []
  | (key, item) :: entries => (key, normaliseLiteral item) :: normaliseEntries entries

end

/-- Every result in order, or the first error. -/
def collect : List (Except EvaluationError Value) → Except EvaluationError (List Value)
  | [] => .ok []
  | r :: rs => do
    let v ← r
    let vs ← collect rs
    return v :: vs

/-- `all(bool(_evaluate(arg, context)) for arg in args)`: stops at the first false one. -/
def allTruthy : List (Except EvaluationError Value) → Except EvaluationError Bool
  | [] => .ok true
  | r :: rs => do
    let v ← r
    if v.truthy then allTruthy rs else return false

/-- `any(bool(_evaluate(arg, context)) for arg in args)`: stops at the first true one. -/
def anyTruthy : List (Except EvaluationError Value) → Except EvaluationError Bool
  | [] => .ok false
  | r :: rs => do
    let v ← r
    if v.truthy then return true else anyTruthy rs

/-- What a variable that is absent evaluates to: its default, if it has one. -/
def absentVariable (name : String) : List (Except EvaluationError Value) → Except EvaluationError Value
  | [_, default] => default
  | _ => .error (.unavailable name)

/-- What an operation evaluates to. `results` holds the arguments' evaluations, of which `and`, `or`, `if` and `var` use only
the ones they come to. -/
def operate (context : Value) (operator : String) (args : List Node) (results : List (Except EvaluationError Value)) :
    Except EvaluationError Value :=
  if operator = "var" then
    match args with
    | .str name :: _ =>
      match lookupVariable context name with
      | some value => .ok value
      | none => absentVariable name results
    -- no variable has such a name
    | .lone name :: _ => absentVariable name.printed results
    | [] => .error (.python .indexError)
    | _ => .error (.python .attributeError)
  else if operator = "and" then do
    return .bool (← allTruthy results)
  else if operator = "or" then do
    return .bool (← anyTruthy results)
  else if operator = "if" then
    match results with
    | [condition, whenTrue, whenFalse] => do
      if (← condition).truthy then whenTrue else whenFalse
    | _ => .error (.python .valueError)
  else do
    applyOperator operator (← collect results)

mutual

/-- `_evaluate`: one condition against the transaction's variables. -/
def evaluate (context : Value) : Node → Except EvaluationError Value
  | .null => .ok .null
  | .bool b => .ok (.bool b)
  | .num d => .ok (.num d)
  | .nonFinite _ => .error (.python .nonFinite)
  | .str s => .ok (.str s)
  | .lone s => .ok (.lone s)
  | .arr items => do
    return .list (← collect (evaluateEach context items))
  | .obj [(operator, .arr args)] => operate context operator args (evaluateEach context args)
  | .obj [(operator, arg)] => operate context operator [arg] [evaluate context arg]
  | .obj _ => .error (.python .valueError)

/-- The evaluations of some arguments. -/
def evaluateEach (context : Value) : List Node → List (Except EvaluationError Value)
  | [] => []
  | item :: items => evaluate context item :: evaluateEach context items

end

end FraudDetection
