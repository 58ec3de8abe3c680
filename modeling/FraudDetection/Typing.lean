import FraudDetection.RuleSet

/-!
# Types of conditions at run time

What it means for a value to have a type, for a result to be sound for one, and for the variables of a transaction to be typed.
-/

namespace FraudDetection

/-- A value of a type. -/
inductive HasType : Value → NodeType → Prop where
  | null : HasType .null .null
  | bool (b : Bool) : HasType (.bool b) .boolean
  | num (d : Decimal) : HasType (.num d) .number
  | str (s : String) : HasType (.str s) .text
  | lone (s : LoneStr) : HasType (.lone s) .text
  | emptyList : HasType (.list []) .emptyList
  | list {items : List Value} {type : NodeType} (hne : items ≠ []) (h : ∀ v ∈ items, HasType v type) :
      HasType (.list items) (.list type)

/-- The errors a checked condition may still end in: a decimal signal inside `+`, `-` or `*`. -/
def EvaluationError.IsArithmetic : EvaluationError → Prop
  | .arithmetic operator _ => operator ∈ ["+", "-", "*"]
  | _ => False

/-- A result is sound for a type: a value of that type, or an arithmetic error. -/
def Sound (r : Except EvaluationError Value) (type : NodeType) : Prop :=
  match r with
  | .ok v => HasType v type
  | .error e => e.IsArithmetic

/-- `visit` gives a node this type, somewhere in a condition. -/
def InferredType (node : Json) (type : NodeType) : Prop :=
  ∃ path levels location count count', visit path levels node location count = .ok (type, count')

/-- The parts of a condition that can be evaluated: the items of a list, the arguments of an operation, the default of a variable,
and so on inwards. -/
inductive SubExpression : Json → Json → Prop where
  | refl (e : Json) : SubExpression e e
  | item {items : List Json} {item e : Json} (hm : item ∈ items) (h : SubExpression item e) : SubExpression (.arr items) e
  | arg {operator : String} {raw arg e : Json} (ho : operator ≠ "var") (hm : arg ∈ operatorArgs raw)
      (h : SubExpression arg e) : SubExpression (.obj [(operator, raw)]) e
  | default {raw name default e : Json} {rest : List Json} (hr : operatorArgs raw = name :: default :: rest)
      (h : SubExpression default e) : SubExpression (.obj [("var", raw)]) e

/-- What a declared variable is found to be: a value of its type, or absent when it may be left out. -/
def TypedLookup (declared : Variable) : Option Value → Prop
  | some value => HasType value (.value declared.type)
  | none => declared.required = false

/-- A context is typed: every variable it holds has its declared type, and it holds every required one. -/
def TypedContext (context : Value) : Prop :=
  ∀ name declared, variableNamed name = some declared → TypedLookup declared (lookupVariable context name)

end FraudDetection
