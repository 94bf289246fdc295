/-!
# Comparison operators

Rich comparison passes its operator as a number, 0 to 5. Other numbers stand for no operator, and a
comparison with one of them never reaches the function that was to decide it.
-/

namespace NativeCall

inductive CompareOp where
  | lt | le | eq | ne | gt | ge
  deriving DecidableEq, Repr

namespace CompareOp

def all : List CompareOp :=
  [lt, le, eq, ne, gt, ge]

def name : CompareOp → String
  | lt => "Lt"
  | le => "Le"
  | eq => "Eq"
  | ne => "Ne"
  | gt => "Gt"
  | ge => "Ge"

def toNumber : CompareOp → Nat
  | lt => 0
  | le => 1
  | eq => 2
  | ne => 3
  | gt => 4
  | ge => 5

def ofNumber? (n : Int) : Option CompareOp :=
  all.find? (fun op => (op.toNumber : Int) = n)

/-- An ordering of the operands satisfies the operator. -/
def holds (op : CompareOp) (o : Ordering) : Bool :=
  match op with
  | lt => o.isLT
  | le => o.isLE
  | eq => o.isEq
  | ne => o.isNe
  | gt => o.isGT
  | ge => o.isGE

theorem ofNumber?_toNumber (op : CompareOp) : ofNumber? op.toNumber = some op := by
  cases op <;> rfl

end CompareOp

end NativeCall
