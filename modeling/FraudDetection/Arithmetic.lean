import FraudDetection.RuleSet
import FraudDetection.Lib.DecimalRounding
import FraudDetection.Lib.Traced

/-!
# The arithmetic of a condition

`_evaluate` with the rounding of `+`, `-` and `*` as a parameter, keeping a record of what they compute: the context's rounding
gives the code (`evaluateIn_fix`), and two other roundings say what the code is compared with, exact arithmetic and arithmetic of
28 digits at any size. A record is the exact sum, difference, negation or product of an operation's operands, partial sums and
products included, before it is rounded.
-/

namespace FraudDetection

/-- An evaluation, with the exact results of the operations it came to. -/
abbrev Computation := Traced EvaluationError Decimal

section

variable (round : Decimal → Except Decimal.Signal Decimal)

/-- One operation, from its exact result. -/
def compute (operator : String) (exact : Decimal) : Computation Decimal := .record exact (arithmetic operator (round exact))

/-- `foldDecimals`, from the operation's exact results. -/
def foldIn (operator : String) (op : Decimal → Decimal → Decimal) : Decimal → List Decimal → Computation Decimal
  | acc, [] => pure acc
  | acc, d :: ds => do
    let acc ← compute round operator (op acc d)
    foldIn operator op acc ds

/-- `sum(_numbers(args, "+"), Decimal(0))`. -/
def sumIn (args : List Value) : Computation Value := do
  let values ← Traced.lift (numbers "+" args)
  let total ← foldIn round "+" Decimal.addExact (.ofInt 0) values
  return .num total

/-- `_subtract`. -/
def subtractIn (args : List Value) : Computation Value := do
  match ← Traced.lift (numbers "-" args) with
  | [] => .lift (.error (.python .indexError))
  | [a] => return .num (← compute round "-" a.negExact)
  | a :: b :: _ => return .num (← compute round "-" (a.addExact b.negExact))

/-- `_multiply`. -/
def multiplyIn (args : List Value) : Computation Value := do
  let values ← Traced.lift (numbers "*" args)
  let product ← foldIn round "*" Decimal.mulExact (.ofInt 1) values
  return .num product

/-- `_OPERATORS[operator](*args)`. -/
def applyOperatorIn (operator : String) (args : List Value) : Computation Value :=
  if operator = "+" then sumIn round args
  else if operator = "-" then subtractIn round args
  else if operator = "*" then multiplyIn round args
  else .lift (applyOperator operator args)

/-- `collect`. -/
def collectIn : List (Computation Value) → Computation (List Value)
  | [] => pure []
  | r :: rs => do
    let v ← r
    let vs ← collectIn rs
    return v :: vs

/-- `allTruthy`. -/
def allTruthyIn : List (Computation Value) → Computation Bool
  | [] => pure true
  | r :: rs => do
    let v ← r
    if v.truthy then allTruthyIn rs else return false

/-- `anyTruthy`. -/
def anyTruthyIn : List (Computation Value) → Computation Bool
  | [] => pure false
  | r :: rs => do
    let v ← r
    if v.truthy then return true else anyTruthyIn rs

/-- `absentVariable`. -/
def absentVariableIn (name : String) : List (Computation Value) → Computation Value
  | [_, default] => default
  | _ => .lift (.error (.unavailable name))

/-- `operate`. -/
def operateIn (context : Value) (operator : String) (args : List Node) (results : List (Computation Value)) :
    Computation Value :=
  if operator = "var" then
    match args with
    | .str name :: _ =>
      match lookupVariable context name with
      | some value => pure value
      | none => absentVariableIn name results
    | .lone name :: _ => absentVariableIn name.printed results
    | [] => .lift (.error (.python .indexError))
    | _ => .lift (.error (.python .attributeError))
  else if operator = "and" then do
    return .bool (← allTruthyIn results)
  else if operator = "or" then do
    return .bool (← anyTruthyIn results)
  else if operator = "if" then
    match results with
    | [condition, whenTrue, whenFalse] => do
      if (← condition).truthy then whenTrue else whenFalse
    | _ => .lift (.error (.python .valueError))
  else do
    applyOperatorIn round operator (← collectIn results)

mutual

/-- `_evaluate`. -/
def evaluateIn (context : Value) : Node → Computation Value
  | .null => pure .null
  | .bool b => pure (.bool b)
  | .num d => pure (.num d)
  | .nonFinite _ => .lift (.error (.python .nonFinite))
  | .str s => pure (.str s)
  | .lone s => pure (.lone s)
  | .arr items => do
    return .list (← collectIn (evaluateEachIn context items))
  | .obj [(operator, .arr args)] => operateIn round context operator args (evaluateEachIn context args)
  | .obj [(operator, arg)] => operateIn round context operator [arg] [evaluateIn context arg]
  | .obj _ => .lift (.error (.python .valueError))

/-- The evaluations of some arguments. -/
def evaluateEachIn (context : Value) : List Node → List (Computation Value)
  | [] => []
  | item :: items => evaluateIn context item :: evaluateEachIn context items

end

end

/-- No rounding. -/
def exactly (d : Decimal) : Except Decimal.Signal Decimal := .ok d

/-- Rounding to 28 digits, at any size. -/
def atAnySize (d : Decimal) : Except Decimal.Signal Decimal := .ok d.rounded

/-! ## Values alike up to their numbers -/

mutual

/-- The same value, up to a relation between numbers. A group of variables is the same one. -/
def Alike (E : Decimal → Decimal → Prop) : Value → Value → Prop
  | .null, .null => True
  | .bool a, .bool b => a = b
  | .num a, .num b => E a b
  | .str a, .str b => a = b
  | .lone a, .lone b => a = b
  | .list as, .list bs => AlikeItems E as bs
  | .dict as, .dict bs => as = bs
  | _, _ => False

/-- The same values, item by item. -/
def AlikeItems (E : Decimal → Decimal → Prop) : List Value → List Value → Prop
  | [], [] => True
  | a :: as, b :: bs => Alike E a b ∧ AlikeItems E as bs
  | _, _ => False

end

/-- Two numbers of one value: `5` and `5.0`. -/
def SameNumber (a b : Decimal) : Prop := a.toRat = b.toRat

/-! ## The context's rounding gives the code -/

namespace ArithmeticAux

theorem foldIn_fix (operator : String) (op : Decimal → Decimal → Decimal) (ds : List Decimal) :
    ∀ acc, (foldIn Decimal.fix operator op acc ds).value =
      foldDecimals operator (fun a b => Decimal.fix (op a b)) acc ds := by
  induction ds with
  | nil => intro acc; rfl
  | cons d ds ih =>
    intro acc
    simp only [foldIn, compute, Traced.value_bind, Traced.value_record, foldDecimals, ih]

theorem sumIn_fix (args : List Value) : (sumIn Decimal.fix args).value = sum args := by
  simp only [sumIn, Traced.value_bind, Traced.value_lift, foldIn_fix]
  rfl

theorem multiplyIn_fix (args : List Value) : (multiplyIn Decimal.fix args).value = multiply args := by
  simp only [multiplyIn, Traced.value_bind, Traced.value_lift, foldIn_fix]
  rfl

theorem subtractIn_fix (args : List Value) : (subtractIn Decimal.fix args).value = subtract args := by
  simp only [subtractIn, subtract, Traced.value_bind, Traced.value_lift]
  cases numbers "-" args with
  | error e => rfl
  | ok ds =>
    simp only [Except.ok_bind]
    rcases ds with _ | ⟨a, _ | ⟨b, rest⟩⟩
    · rfl
    · simp only [Traced.value_bind, compute, Traced.value_record]
      rfl
    · simp only [Traced.value_bind, compute, Traced.value_record]
      rfl

theorem applyOperatorIn_fix (operator : String) (args : List Value) :
    (applyOperatorIn Decimal.fix operator args).value = applyOperator operator args := by
  unfold applyOperatorIn
  split_ifs with hadd hsub hmul
  · subst hadd
    exact sumIn_fix args
  · subst hsub
    exact subtractIn_fix args
  · subst hmul
    exact multiplyIn_fix args
  · rfl

theorem collectIn_value (rs : List (Computation Value)) : (collectIn rs).value = collect (rs.map Traced.value) := by
  induction rs with
  | nil => rfl
  | cons r rs ih => simp only [collectIn, Traced.value_bind, ih, List.map_cons, collect, Traced.value_pure]; rfl

theorem allTruthyIn_value (rs : List (Computation Value)) : (allTruthyIn rs).value = allTruthy (rs.map Traced.value) := by
  induction rs with
  | nil => rfl
  | cons r rs ih =>
    simp only [allTruthyIn, Traced.value_bind, List.map_cons, allTruthy]
    cases r.value with
    | error e => rfl
    | ok v =>
      simp only [Except.ok_bind]
      split
      · exact ih
      · rfl

theorem anyTruthyIn_value (rs : List (Computation Value)) : (anyTruthyIn rs).value = anyTruthy (rs.map Traced.value) := by
  induction rs with
  | nil => rfl
  | cons r rs ih =>
    simp only [anyTruthyIn, Traced.value_bind, List.map_cons, anyTruthy]
    cases r.value with
    | error e => rfl
    | ok v =>
      simp only [Except.ok_bind]
      split
      · rfl
      · exact ih

theorem absentVariableIn_value (name : String) (rs : List (Computation Value)) :
    (absentVariableIn name rs).value = absentVariable name (rs.map Traced.value) := by
  rcases rs with _ | ⟨_, _ | ⟨_, _ | ⟨_, _⟩⟩⟩ <;> rfl

theorem operateIn_fix (context : Value) (operator : String) (args : List Node) (rs : List (Computation Value)) :
    (operateIn Decimal.fix context operator args rs).value = operate context operator args (rs.map Traced.value) := by
  unfold operateIn operate
  split_ifs with hvar hand hor hif
  · cases args with
    | nil => rfl
    | cons arg args =>
      cases arg with
      | str name =>
        simp only
        cases lookupVariable context name with
        | some value => rfl
        | none => exact absentVariableIn_value name rs
      | lone name => exact absentVariableIn_value name.printed rs
      | _ => rfl
  · simp only [Traced.value_bind, allTruthyIn_value]
    rfl
  · simp only [Traced.value_bind, anyTruthyIn_value]
    rfl
  · rcases rs with _ | ⟨condition, _ | ⟨whenTrue, _ | ⟨whenFalse, _ | ⟨r, rest⟩⟩⟩⟩
    · rfl
    · rfl
    · rfl
    · simp only [Traced.value_bind, List.map_cons, List.map_nil]
      cases condition.value with
      | error e => rfl
      | ok v =>
        simp only [Except.ok_bind]
        split <;> rfl
    · rfl
  · simp only [Traced.value_bind, collectIn_value, applyOperatorIn_fix]

end ArithmeticAux

open ArithmeticAux

mutual

/-- With the context's rounding, the computation ends as `_evaluate` does. -/
theorem evaluateIn_fix (context : Value) : ∀ node, (evaluateIn Decimal.fix context node).value = evaluate context node
  | .null => rfl
  | .bool _ => rfl
  | .num _ => rfl
  | .nonFinite _ => rfl
  | .str _ => rfl
  | .lone _ => rfl
  | .arr items => by
    simp only [evaluateIn, evaluate, Traced.value_bind, collectIn_value, evaluateEachIn_fix context items]
    rfl
  | .obj [] => rfl
  | .obj [(operator, arg)] => by
    have harg := evaluateIn_fix context arg
    cases arg with
    | arr args => simp only [evaluateIn, evaluate, operateIn_fix, evaluateEachIn_fix context args]
    | _ => simp only [evaluateIn, evaluate, operateIn_fix, List.map_cons, List.map_nil, harg, Traced.value_pure, Traced.value_lift]
  | .obj (_ :: _ :: _) => by
    simp only [evaluateIn, evaluate]
    rfl

theorem evaluateEachIn_fix (context : Value) :
    ∀ items, (evaluateEachIn Decimal.fix context items).map Traced.value = evaluateEach context items
  | [] => rfl
  | item :: items => by
    simp only [evaluateEachIn, evaluateEach, List.map_cons, evaluateIn_fix context item, evaluateEachIn_fix context items]

end

end FraudDetection
