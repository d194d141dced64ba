import StackCode.Routine

/-!
# The catalog of named routines

The seventeen routines that a producer can name, each with its documentation and operand count.
-/

namespace StackCode

/-- A routine as a producer sees it. -/
structure CatalogEntry where
  name : String
  doc : String
  /-- The operand count, absent if the producer chooses it. -/
  arity : Option Nat
  /-- Whether the routine is written as a binary operator. -/
  binary : Bool := false
  routine : Builtin
  deriving Repr

/-- All named routines, sorted by name. -/
def catalog : List CatalogEntry :=
  [ { name := "*", doc := "Multiplication", arity := some 2, binary := true, routine := .mul },
    { name := "+", doc := "Addition", arity := some 2, binary := true, routine := .add },
    { name := "-", doc := "Subtraction", arity := some 2, binary := true, routine := .sub },
    { name := "/", doc := "Division", arity := some 2, binary := true, routine := .div },
    { name := "^", doc := "Raise to a power", arity := some 2, binary := true, routine := .pow },
    { name := "abs", doc := "Absolute value", arity := some 1, routine := .abs },
    { name := "cos", doc := "Cosine in radians", arity := some 1, routine := .cos },
    { name := "exp", doc := "Natural exponential", arity := some 1, routine := .exp },
    { name := "ln", doc := "Natural logarithm", arity := some 1, routine := .log },
    { name := "max", doc := "Largest operand", arity := none, routine := .max },
    { name := "min", doc := "Smallest operand", arity := none, routine := .min },
    { name := "neg", doc := "Negate the operand", arity := some 1, routine := .neg },
    { name := "rnd", doc := "Random number in [0, 1)", arity := some 0, routine := .rnd },
    { name := "sin", doc := "Sine in radians", arity := some 1, routine := .sin },
    { name := "sqrt", doc := "Square root", arity := some 1, routine := .sqrt },
    { name := "sum", doc := "Sum of all operands", arity := none, routine := .sum },
    { name := "tan", doc := "Tangent in radians", arity := some 1, routine := .tan } ]

/-- The named routine `name`. -/
def lookup? (name : String) : Option CatalogEntry := catalog.find? fun e => e.name == name

end StackCode
