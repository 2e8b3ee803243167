import Conch.FileTree
import Conch.Program.Quotation
import Conch.Text.Decimal

/-!
# Conditions

What `test` and `expr` decide.

## Main definitions

* `Conch.Program.Condition.eval` — the value of the arguments of `test`.
* `Conch.Program.Expression.eval` — the value of the arguments of `expr`.
-/

set_option autoImplicit false

namespace Conch.Program

/-- Why a condition has no value. -/
inductive ConditionError where
  /-- The word in front of a single operand is no test. -/
  | unaryExpected (arg : String)
  /-- The word between two operands is no comparison. -/
  | binaryExpected (arg : String)
  /-- An operand is missing behind the second of two words. -/
  | missingAfter (first second : String)
  | invalidInteger (arg : String)
  deriving DecidableEq, Repr, Inhabited

/-- The text of the error. -/
def ConditionError.message : ConditionError → String
  | unaryExpected arg => Quotation.plain arg ++ ": unary operator expected"
  | binaryExpected arg => Quotation.plain arg ++ ": binary operator expected"
  | missingAfter _ second => "missing argument after " ++ Quotation.plain second
  | invalidInteger arg => "invalid integer " ++ Quotation.plain arg

namespace Condition

/-- A test of one argument; nothing if there is no such test. -/
def unary (t : FileTree) (cwd : String) (op arg : Text.Octets) : Option Bool :=
  let path := Path.ofOctets cwd arg
  match op with
  | "-n" => some (!arg.isEmpty)
  | "-z" => some arg.isEmpty
  | "-e" | "-r" | "-w" => some (t.pathExists path)
  | "-f" => some (t.read? path).isSome
  | "-d" => some (t.pathIsDirectory path)
  | "-x" => some (t.isExecutable path || t.pathIsDirectory path)
  | "-s" => some ((t.read? path).any (!·.isEmpty) || t.pathIsDirectory path)
  | "-t" => some false
  | "-L" | "-h" => some <| match t.find path false with
    | .ok i => match t.nodes[i]? with
      | some (.link _) => true
      | _ => false
    | .error _ => false
  | _ => none

/-- A comparison of numbers. -/
def numbers (a b : String) (p : Int → Int → Bool) : Except ConditionError Bool :=
  match Text.readInt a, Text.readInt b with
  | some x, some y => .ok (p x y)
  | none, _ => .error (.invalidInteger a)
  | _, none => .error (.invalidInteger b)

/-- A comparison of two arguments. -/
def binary (op a b : String) : Except ConditionError Bool :=
  match op with
  | "=" | "==" => .ok (a = b)
  | "!=" => .ok (a ≠ b)
  | "-eq" => numbers a b fun x y => x = y
  | "-ne" => numbers a b fun x y => x ≠ y
  | "-lt" => numbers a b fun x y => x < y
  | "-le" => numbers a b fun x y => x ≤ y
  | "-gt" => numbers a b fun x y => y < x
  | "-ge" => numbers a b fun x y => y ≤ x
  | "-a" => .ok (!a.isEmpty && !b.isEmpty)
  | "-o" => .ok (!a.isEmpty || !b.isEmpty)
  | _ => .error (.binaryExpected op)

/-- The value of a condition without `-a` and `-o`. -/
def primary (t : FileTree) (cwd : String) : List String → Except ConditionError Bool
  | [] => .ok false
  | [arg] => .ok (!arg.isEmpty)
  | ["!", arg] => .ok arg.isEmpty
  | [op, arg] => match unary t cwd op arg with
    | some b => .ok b
    | none =>
      if op.startsWith "-" then .error (.unaryExpected op) else .error (.missingAfter op arg)
  | "!" :: a :: rest => match a, rest with
    | op, [b] => if op ∈ ["=", "==", "!="] then binary op "!" b
      else (primary t cwd (a :: rest)).map (!·)
    | _, _ => (primary t cwd (a :: rest)).map (!·)
  | [a, op, b] => binary op a b
  | a :: _ => .error (.binaryExpected a)

/-- The parts of a list around a word. -/
def splitAt (word : String) : List String → List (List String)
  | [] => [[]]
  | w :: rest =>
    if w = word then [] :: splitAt word rest
    else match splitAt word rest with
      | [] => [[w]]
      | part :: parts => (w :: part) :: parts

/-- The value of a condition: `-o` joins what `-a` joins. -/
def eval (t : FileTree) (cwd : String) (args : List String) : Except ConditionError Bool :=
  if args.length ≤ 3 then primary t cwd args
  else do
    let parts ← (splitAt "-o" args).mapM fun part => do
      return ((← (splitAt "-a" part).mapM (primary t cwd)).all id)
    return parts.any id

end Condition

/-- Why an expression has no value. -/
inductive ExpressionError where
  /-- An operand is missing behind this argument. -/
  | missingAfter (arg : String)
  | unexpected (arg : String)
  | notInteger
  | divisionByZero
  deriving DecidableEq, Repr, Inhabited

/-- The text of the error. -/
def ExpressionError.message : ExpressionError → String
  | missingAfter arg => "syntax error: missing argument after " ++ Quotation.plain arg
  | unexpected arg => "syntax error: unexpected argument " ++ Quotation.plain arg
  | notInteger => "non-integer argument"
  | divisionByZero => "division by zero"

namespace Expression

/-- The value counts as false: empty or zero. -/
def isNull (v : String) : Bool := v.isEmpty || v = "0"

/-- A truth value. -/
def ofBool (b : Bool) : String := if b then "1" else "0"

/-- An operation on integers. -/
def onIntegers (a b : String) (f : Int → Int → Except ExpressionError Int) :
    Except ExpressionError String :=
  match Text.readInt a, Text.readInt b with
  | some x, some y => (f x y).map toString
  | _, _ => .error .notInteger

/-- A comparison of integers, or else of texts. -/
def comparison (a b : String) (p : Int → Int → Bool) (q : String → String → Bool) :
    Except ExpressionError String :=
  .ok <| ofBool <| match Text.readInt a, Text.readInt b with
    | some x, some y => p x y
    | _, _ => q a b

/-- Apply an operator. -/
def apply (op a b : String) : Except ExpressionError String :=
  match op with
  | "+" => onIntegers a b fun x y => .ok (x + y)
  | "-" => onIntegers a b fun x y => .ok (x - y)
  | "*" => onIntegers a b fun x y => .ok (x * y)
  | "/" => onIntegers a b fun x y => if y = 0 then .error .divisionByZero else .ok (Int.tdiv x y)
  | "%" => onIntegers a b fun x y => if y = 0 then .error .divisionByZero else .ok (Int.tmod x y)
  | "=" | "==" => comparison a b (· = ·) (· = ·)
  | "!=" => comparison a b (· ≠ ·) (· ≠ ·)
  | "<" => comparison a b (· < ·) (· < ·)
  | "<=" => comparison a b (· ≤ ·) fun x y => !decide (y < x)
  | ">" => comparison a b (fun x y => y < x) fun x y => y < x
  | ">=" => comparison a b (fun x y => y ≤ x) fun x y => !decide (x < y)
  | "&" => .ok (if isNull a || isNull b then "0" else a)
  | "|" => .ok (if isNull a then (if isNull b then "0" else b) else a)
  | _ => .error (.unexpected op)

/-- How tightly an operator binds. -/
def precedence : String → Option Nat
  | "|" => some 1
  | "&" => some 2
  | "=" | "==" | "!=" | "<" | "<=" | ">" | ">=" => some 3
  | "+" | "-" => some 4
  | "*" | "/" | "%" => some 5
  | _ => none

/-- Apply the operators of a stack that bind at least as tightly as `level`. -/
def reduce (level : Nat) :
    List String → List String → Except ExpressionError (List String × List String)
  | op :: ops, b :: a :: values =>
    if level ≤ (precedence op).getD 0 then do
      reduce level ops ((← apply op a b) :: values)
    else .ok (op :: ops, b :: a :: values)
  | ops, values => .ok (ops, values)

/-- Read operands and operators in turn, with stacks of operators and values.  `wanted` tells
that an operand comes next, and `last` is the argument in front. -/
def parse : (wanted : Bool) → (last : String) → List String → List String → List String →
    Except ExpressionError String
  | true, last, _, _, [] => .error (.missingAfter last)
  | false, last, ops, values, [] => do
    match ← reduce 1 ops values with
    | ([], [v]) => .ok v
    | _ => .error (.missingAfter last)
  | true, _, ops, values, arg :: rest =>
    if arg = "(" then parse true arg (arg :: ops) values rest
    else parse false arg ops (arg :: values) rest
  | false, _, ops, values, op :: rest => match op, precedence op with
    | ")", _ => do
      match ← reduce 1 ops values with
      | ("(" :: ops, values) => parse false op ops values rest
      | _ => .error (.unexpected op)
    | _, some level => do
      let (ops, values) ← reduce level ops values
      parse true op (op :: ops) values rest
    | _, none => .error (.unexpected op)

/-- The value of the arguments of `expr`. -/
def eval (args : List String) : Except ExpressionError String := parse true "" [] [] args

end Expression

end Conch.Program
