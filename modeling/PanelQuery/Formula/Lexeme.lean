import PanelQuery.Formula.Error

/-! # Lexemes

A formula's text as tokens with the places where they stand.

* **`Lexeme`** — a token and its bytes;
* **`tokenize`** — the lexemes of a text, each the longest token at its place. -/

namespace PanelQuery.Formula

/-- A token and the bytes of the text that it takes, from `start` to before `stop`. -/
structure Lexeme where
  /-- The token. -/
  token : Token
  /-- The byte it starts at. -/
  start : Nat
  /-- The byte after its last one. -/
  stop : Nat
  deriving Repr

/-- The bytes that characters take in UTF-8. -/
def byteLength (cs : List Char) : Nat := cs.foldl (fun n c => n + c.utf8Size) 0

/-- The characters that cannot be read where no token starts at `c`: an unclosed quote spoils the
rest of the text, any other character only itself. -/
def unreadable (c : Char) (rest : List Char) : List Char :=
  if Token.isQuote c then c :: rest else [c]

/-- The lexemes of `cs`, which stands at byte `position`. -/
def lexemes (position : Nat) : List Char → Except CompileError (List Lexeme)
  | [] => .ok []
  | c :: rest =>
      if Token.isBlank c then lexemes (position + c.utf8Size) rest
      else
        match Token.scan c rest with
        | none => .error (.unexpectedInput position (String.ofList (unreadable c rest)))
        | some (token, n) =>
            let stop := position + byteLength (c :: rest.take n)
            (lexemes stop (rest.drop n)).map (⟨token, position, stop⟩ :: ·)
  termination_by cs => cs.length
  decreasing_by all_goals simp [List.length_drop]; try omega

/-- The lexemes of a text, which has to have one. -/
def tokenize (source : String) : Except CompileError (List Lexeme) :=
  match lexemes 0 source.toList with
  | .ok [] => .error .empty
  | answer => answer

end PanelQuery.Formula
