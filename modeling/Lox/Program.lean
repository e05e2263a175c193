import Lox.Grammar.Statement
import Lox.Token.Stream

/-! A source text as a program. -/
namespace Lox

/-- The statements of a source, or all that is wrong with its tokens and then with their order, and
the next unused identity. The tokens are read even if something is wrong with them. -/
def compile (source : String) (fresh : Occurrence) :
    Except (List Diagnostic) (List Stmt) × Occurrence :=
  let (tokens, lexical) := scan source
  let (read, next) := parse tokens fresh
  let (program, errors) := match read with
    | .ok program => (program, lexical)
    | .error syntactic => ([], lexical ++ syntactic)
  (if errors.isEmpty then .ok program else .error errors, next)

end Lox
