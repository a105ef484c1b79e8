import PanelQuery.Number.Reading
import PanelQuery.Text.Quoted

/-! # Tokens of the formula language

Numbers, quoted text, words and the operator signs. Keywords are words: the grammar tells them
apart, in either case of letters.

* **`Token`** — the tokens;
* **`Token.render`** — a token as error messages show it;
* **`Token.scan`** — the longest token at the start of a text. -/

namespace PanelQuery.Formula

/-- A token of a formula. -/
inductive Token where
  /-- A number. -/
  | number (value : Float)
  /-- Text between quotes. -/
  | text (content : String)
  /-- A name or a keyword. -/
  | word (name : String)
  | plus
  | minus
  | star
  | slash
  | percent
  | caret
  | openParen
  | closeParen
  | openBracket
  | closeBracket
  | colon
  | comma
  | less
  | lessEqual
  | greater
  | greaterEqual
  | equal
  | unequal
  | bothAnd
  | eitherOr
  | bang
  deriving Repr, Inhabited

namespace Token

/-! ### Text of a token -/

/-- Numbers in messages stay positional from `0.0001` up to below `10 ^ 16`. -/
def numberStyle : FloatStyle := ⟨-4, 15, false, false⟩

/-- The name of a token without its content. -/
def name : Token → String
  | number _ => "Number"
  | text _ => "Str"
  | word _ => "Ident"
  | plus => "Plus"
  | minus => "Minus"
  | star => "Star"
  | slash => "Slash"
  | percent => "Percent"
  | caret => "Caret"
  | openParen => "LParen"
  | closeParen => "RParen"
  | openBracket => "LBracket"
  | closeBracket => "RBracket"
  | colon => "Colon"
  | comma => "Comma"
  | less => "Lt"
  | lessEqual => "Le"
  | greater => "Gt"
  | greaterEqual => "Ge"
  | equal => "Eq"
  | unequal => "Ne"
  | bothAnd => "AndAnd"
  | eitherOr => "OrOr"
  | bang => "Bang"

/-- A token as messages show it: its name, and its content in parentheses. -/
def render : Token → String
  | number x => "Number(" ++ numberStyle.render x ++ ")"
  | text s => "Str(" ++ Text.quoted s ++ ")"
  | word s => "Ident(" ++ Text.quoted s ++ ")"
  | other => other.name

/-! ### Scanning

A scan is told the first character and the characters after it, and answers with the token and how
many characters after the first belong to it. -/

/-- Whether a character separates tokens. -/
def isBlank (c : Char) : Bool :=
  c == ' ' || c == '\t' || c == '\r' || c == '\n' || c == '\x0c'

/-- Whether a character can start a word. -/
def startsWord (c : Char) : Bool := c.isAlpha || c == '_'

/-- Whether a character can go on with a word. -/
def continuesWord (c : Char) : Bool := c.isAlphanum || c == '_'

/-- The length of an exponent at the start of `cs`: a mark, an optional sign and digits. -/
def exponentLength : List Char → Nat
  | mark :: rest =>
      if mark = 'e' ∨ mark = 'E' then
        match rest with
        | sign :: digits =>
            if sign = '+' ∨ sign = '-' then
              let n := (digits.takeWhile isDigit).length
              if n = 0 then 0 else n + 2
            else
              let n := (rest.takeWhile isDigit).length
              if n = 0 then 0 else n + 1
        | [] => 0
      else 0
  | [] => 0

/-- The length of a point with the digits after it, at the start of `cs`. -/
def fractionLength : List Char → Nat
  | '.' :: rest => (rest.takeWhile isDigit).length + 1
  | _ => 0

/-- How many characters after a leading digit belong to the number. -/
def numberLength (rest : List Char) : Nat :=
  let whole := (rest.takeWhile isDigit).length
  let fraction := fractionLength (rest.drop whole)
  whole + fraction + exponentLength (rest.drop (whole + fraction))

/-- How many characters after a leading point belong to the number; a point needs a digit. -/
def pointNumberLength? (rest : List Char) : Option Nat :=
  let digits := (rest.takeWhile isDigit).length
  if digits = 0 then none else some (digits + exponentLength (rest.drop digits))

/-- The number token with the given characters. -/
def ofNumeral (cs : List Char) : Token :=
  match readDecimal? cs with
  | some d => number d.toFloat
  | none => number 0.0

/-- The operator sign that starts with `c`, the longer of two where one starts the other. -/
def scanSign (c : Char) (rest : List Char) : Option (Token × Nat) :=
  match c, rest with
  | '<', '=' :: _ => some (lessEqual, 1)
  | '<', '>' :: _ => some (unequal, 1)
  | '<', _ => some (less, 0)
  | '>', '=' :: _ => some (greaterEqual, 1)
  | '>', _ => some (greater, 0)
  | '=', '=' :: _ => some (equal, 1)
  | '=', _ => some (equal, 0)
  | '!', '=' :: _ => some (unequal, 1)
  | '!', _ => some (bang, 0)
  | '&', '&' :: _ => some (bothAnd, 1)
  | '|', '|' :: _ => some (eitherOr, 1)
  | '+', _ => some (plus, 0)
  | '-', _ => some (minus, 0)
  | '*', _ => some (star, 0)
  | '/', _ => some (slash, 0)
  | '%', _ => some (percent, 0)
  | '^', _ => some (caret, 0)
  | '(', _ => some (openParen, 0)
  | ')', _ => some (closeParen, 0)
  | '[', _ => some (openBracket, 0)
  | ']', _ => some (closeBracket, 0)
  | ':', _ => some (colon, 0)
  | ',', _ => some (comma, 0)
  | _, _ => none

/-- The text token that the quote `quote` opens; none when no such quote closes it. -/
def scanQuoted (quote : Char) (rest : List Char) : Option (Token × Nat) :=
  let body := rest.takeWhile (· != quote)
  if body.length < rest.length then some (text (String.ofList body), body.length + 1) else none

/-- Whether a character opens and closes text. -/
def isQuote (c : Char) : Bool := c == '"' || c == '\''

/-- The longest token at the start of `c :: rest`. -/
def scan (c : Char) (rest : List Char) : Option (Token × Nat) :=
  if isDigit c then
    let n := numberLength rest
    some (ofNumeral (c :: rest.take n), n)
  else if c = '.' then
    (pointNumberLength? rest).map fun n => (ofNumeral (c :: rest.take n), n)
  else if startsWord c then
    let tail := rest.takeWhile continuesWord
    some (word (String.ofList (c :: tail)), tail.length)
  else if isQuote c then scanQuoted c rest
  else scanSign c rest

end Token

end PanelQuery.Formula
