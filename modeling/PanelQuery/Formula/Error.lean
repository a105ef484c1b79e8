import PanelQuery.Formula.Token

/-! # Why a formula does not compile

* **`Yield`** — what a part of a formula yields;
* **`CompileError`** — the causes;
* **`CompileError.kind`, `CompileError.message`** — their class and their text. -/

namespace PanelQuery.Formula

/-- What the value of an expression is. -/
inductive Ty where
  /-- A number. -/
  | number
  /-- A truth value. -/
  | boolean
  /-- Text. -/
  | text
  deriving DecidableEq, Repr

/-- What a part of a formula yields: a value, or a stretch of a series. -/
inductive Yield where
  /-- A value of some type. -/
  | value (ty : Ty)
  /-- A stretch of a series, which only functions take. -/
  | stretch
  deriving DecidableEq, Repr

/-- The name of a yield in messages. -/
def Yield.name : Yield → String
  | value .number => "number"
  | value .boolean => "boolean"
  | value .text => "text"
  | stretch => "series range"

/-- A place that asks for a value of some type. -/
inductive Place where
  | disjunction
  | conjunction
  | complement
  | comparison
  | arithmetic
  | negation
  | unaryPlus
  | power
  | condition
  deriving DecidableEq, Repr

/-- The name of a place in messages. -/
def Place.name : Place → String
  | disjunction => "'or'"
  | conjunction => "'and'"
  | complement => "'not'"
  | comparison => "comparison"
  | arithmetic => "arithmetic"
  | negation => "negation"
  | unaryPlus => "unary plus"
  | power => "'^'"
  | condition => "'if' condition"

/-- Why a formula does not compile. Positions count bytes of UTF-8 from the start of the text. -/
inductive CompileError where
  /-- The text has no token. -/
  | empty
  /-- No token starts at a position. -/
  | unexpectedInput (position : Nat) (input : String)
  /-- A token stands where none of its kind can. -/
  | unexpectedToken (position : Nat) (token : Token)
  /-- The formula ends where an operand has to follow. -/
  | unexpectedEnd (position : Nat)
  /-- A certain token is missing. -/
  | expectedToken (position : Nat) (token : Token)
  /-- A certain keyword is missing. -/
  | expectedKeyword (position : Nat) (keyword : String)
  /-- A name stands for nothing. -/
  | unknownIdentifier (name : String)
  /-- A name before a parenthesis is no function. -/
  | unknownFunction (name : String)
  /-- An operand cannot be read as the type that its place asks for. -/
  | operand (place : Place) (wanted : Ty) (found : Yield)
  /-- Text is compared with something else. -/
  | textWithOther
  /-- Text is compared by order. -/
  | textOrder
  /-- The branches of a conditional have no type in common. -/
  | branches (first second : Yield)
  /-- The branches of a conditional are stretches. -/
  | conditionalStretch
  /-- A stretch stands outside a function call. -/
  | stretchOutsideCall
  /-- A function argument is no stretch. -/
  | argument (found : Yield)
  /-- The whole formula yields no number. -/
  | result (found : Yield)
  /-- The category is asked for over a range. -/
  | categoryRange
  /-- A name that no index knows. -/
  | indexName (name : String)
  /-- A token that no index knows. -/
  | indexToken (token : Token)
  /-- The formula ends inside an index. -/
  | indexEnd
  deriving Repr

namespace CompileError

/-- The class of an error. -/
def kind : CompileError → String
  | empty => "Empty"
  | unexpectedInput .. | unexpectedToken .. | unexpectedEnd .. | expectedToken ..
  | expectedKeyword .. => "Syntax"
  | unknownIdentifier _ => "UnknownIdentifier"
  | unknownFunction _ => "UnknownFunction"
  | operand .. | textWithOther | textOrder | branches .. | conditionalStretch
  | stretchOutsideCall | argument _ | result _ => "TypeMismatch"
  | categoryRange | indexName _ | indexToken _ | indexEnd => "BadIndex"

/-- `malformed position detail`: the text of an error in the form of a formula. -/
def malformed (position : Nat) (detail : String) : String :=
  "Syntax error at " ++ toString position ++ ": " ++ detail

/-- The text of an error in the types of a formula. -/
def mismatch (detail : String) : String := "Type mismatch: " ++ detail

/-- The text of an error in an index. -/
def badIndex (detail : String) : String := "Bad index: " ++ detail

/-- The text of an error. -/
def message : CompileError → String
  | empty => "Empty formula"
  | unexpectedInput p s => malformed p ("unexpected input '" ++ s ++ "'")
  | unexpectedToken p t => malformed p ("unexpected " ++ t.render)
  | unexpectedEnd p => malformed p "unexpected end of formula"
  | expectedToken p t => malformed p ("expected " ++ t.render)
  | expectedKeyword p k => malformed p ("expected '" ++ k ++ "'")
  | unknownIdentifier s => "Unknown identifier '" ++ s ++ "'"
  | unknownFunction s => "Unknown function '" ++ s ++ "'"
  | operand place wanted found =>
      mismatch (place.name ++ " expects a " ++ (Yield.value wanted).name ++ ", found a "
        ++ found.name)
  | textWithOther => mismatch "text only compares with text"
  | textOrder => mismatch "text supports only equality comparisons"
  | branches a b => mismatch ("'if' branches yield a " ++ a.name ++ " and a " ++ b.name)
  | conditionalStretch => mismatch "'if' cannot yield a series range"
  | stretchOutsideCall => mismatch "a series range is only valid as a function argument"
  | argument found =>
      mismatch ("function arguments must be series references, found a " ++ found.name)
  | result found => mismatch ("formula yields a " ++ found.name)
  | categoryRange => badIndex "category takes a single position"
  | indexName s => badIndex ("'" ++ s ++ "' is not valid in an index")
  | indexToken t => badIndex ("unexpected " ++ t.render ++ " in index")
  | indexEnd => badIndex "unterminated index"

end CompileError

end PanelQuery.Formula
