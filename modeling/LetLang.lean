import LetLang.Compile
import LetLang.Proofs.Separate
import LetLang.Proofs.Token.Rendering
import LetLang.Proofs.Typing.Completeness
import LetLang.Proofs.Typing.Hints
import LetLang.Proofs.Typing.Soundness
import LetLang.Proofs.Shape
import LetLang.Proofs.Typing.Exchange
import LetLang.Proofs.Syntax.Accepted
import LetLang.Proofs.Syntax.Grammatical
import LetLang.Proofs.Syntax.Printer
import LetLang.Proofs.Syntax.RoundTrip
import LetLang.Proofs.Positions
import LetLang.Proofs.Typing.Reordering
import LetLang.Proofs.Typing.FreeNames
import LetLang.Proofs.Syntax.Earliest
import LetLang.Proofs.Gathering.Prologues
import LetLang.Proofs.Typing.Stability
import LetLang.Proofs.Gathering.Faults
import LetLang.Proofs.Gathering.Settled
import LetLang.Proofs.Gathering.Expansion
import LetLang.Proofs.Token.LongestMatch
import LetLang.Proofs.Syntax.Chains
import LetLang.Proofs.Typing.Contrasts
import LetLang.Proofs.Syntax.Repacking
import LetLang.Proofs.Token.Literals
import LetLang.Proofs.Token.Sessions
import LetLang.Proofs.Syntax.Places
import LetLang.Proofs.Syntax.Progress
import LetLang.Proofs.Scope.Sharing
