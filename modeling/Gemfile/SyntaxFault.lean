import Gemfile.Text.Quoted

/-!
# Faults of spelling

Why a text is no dependency file, and the line at which that shows.  `SyntaxCause.message` has the
wording; tokens are shown in their written form.
-/

namespace Gemfile

inductive SyntaxCause where
  /-- no lexeme starts with this character -/
  | unexpectedCharacter (c : Char)
  /-- a statement is complete, and yet its line goes on -/
  | unexpectedToken (found : String)
  /-- a statement would have to start here -/
  | expectedStatement (found : String)
  /-- the file ends inside a block -/
  | missing (closing : String)
  /-- something else than the one token that can follow; `none` is the end of the file -/
  | expected (wanted : String) (found : Option String)
  /-- no value starts like this; `none` is the end of the file -/
  | unsupportedExpression (found : Option String)
  | unsupportedKey (found : String)
  | positionalAfterKeyword
  | interpolation
  /-- the tokens stop without the mark of the end of the file -/
  | exhausted
deriving DecidableEq

structure SyntaxFault where
  line : Nat
  cause : SyntaxCause
deriving DecidableEq

/-- how a message names the token it found -/
def foundText : Option String → String
  | some s => Text.quoted s
  | none => "end of file"

def SyntaxCause.message : SyntaxCause → String
  | .unexpectedCharacter c => "unexpected character " ++ Text.quoted (String.singleton c)
  | .unexpectedToken found => "unexpected " ++ Text.quoted found
  | .expectedStatement found => "expected a statement but found " ++ Text.quoted found
  | .missing closing => "missing " ++ Text.quoted closing
  | .expected wanted found => "expected " ++ Text.quoted wanted ++ " but found " ++ foundText found
  | .unsupportedExpression found => "unsupported expression " ++ foundText found
  | .unsupportedKey found => "unsupported option key " ++ Text.quoted found
  | .positionalAfterKeyword => "positional argument after keyword options"
  | .interpolation => "string interpolation is not supported"
  | .exhausted => "the tokens have no end"

def SyntaxFault.message (path : String) (f : SyntaxFault) : String :=
  path ++ ":" ++ f.line.repr ++ ": " ++ f.cause.message

end Gemfile
