import Gemfile.CommandLine
import Gemfile.Session
import Gemfile.Main
import Gemfile.Proofs.Grammar
import Gemfile.Proofs.Grammar.Value
import Gemfile.Proofs.Grammar.Call
import Gemfile.Proofs.Grammar.Statement
import Gemfile.Proofs.Contribution
import Gemfile.Proofs.Declare
import Gemfile.Proofs.Interpreter
import Gemfile.Proofs.Walk.Run
import Gemfile.Proofs.Walk.Gems
import Gemfile.Proofs.Walk.Scopes
import Gemfile.Proofs.Lexing
import Gemfile.Proofs.Printing
import Gemfile.Proofs.Printing.Value
import Gemfile.Proofs.Printing.Statement
import Gemfile.Proofs.Walk.Contribution
import Gemfile.Proofs.Walk.Performed
import Gemfile.Proofs.Failure
import Gemfile.Proofs.Loading
import Gemfile.Proofs.Loading.Sources
import Gemfile.Proofs.Loading.Frame
import Gemfile.Proofs.Exclusion
import Gemfile.Proofs.Walk.Behind
import Gemfile.Proofs.Detection
import Gemfile.Proofs.Erasure
import Gemfile.Proofs.Faults
import Gemfile.Proofs.Joining.Lexing
import Gemfile.Proofs.Joining
import Gemfile.Proofs.Requirement.Between
import Gemfile.Proofs.Requirement.Reread
import Gemfile.Proofs.Precedence.Gems
import Gemfile.Proofs.Surface
import Gemfile.Proofs.Surface.Blocks
import Gemfile.Proofs.Pattern
import Gemfile.Proofs.Pattern.Lexeme
import Gemfile.Proofs.Covering
import Gemfile.Proofs.Rendering.Lexing
import Gemfile.Proofs.Rendering
import Gemfile.Proofs.Guards
import Gemfile.Proofs.Guards.Passing
import Gemfile.Proofs.Drawing
import Gemfile.Proofs.Literal
import Gemfile.Proofs.Files
import Gemfile.Proofs.CommandLine
import Gemfile.Proofs.Drawing.Ungrouped
import Gemfile.Proofs.Dot
import Gemfile.Proofs.Cursor
