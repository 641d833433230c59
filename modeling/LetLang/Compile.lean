import LetLang.Syntax.Grammar
import LetLang.Token.Scanner
import LetLang.Typed.Gathering
import LetLang.Typing.Infer

/-!
# The front end

From a source text to a typed module: tokens, syntax tree, packed tree, typed
tree and gathered tree. The first stage that rejects the program ends it, with
one diagnostic.
-/

namespace LetLang

/-- The typed module of a source whose free names resolve in the scope. -/
def compile (source : String) (scope : Scope) : Except Diagnostic Typed.Module := do
  let tokens ← tokenize source
  let m ← parse tokens
  let typed ← m.pack.infer scope
  typed.gather

end LetLang
