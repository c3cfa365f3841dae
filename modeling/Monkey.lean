import Monkey.Host.Basic
import Monkey.Main
import Monkey.Proofs.Eval.Arithmetic
import Monkey.Proofs.Eval.Confined
import Monkey.Proofs.Eval.Returns
import Monkey.Proofs.Eval.Shelter
import Monkey.Proofs.Grammar.Prefixes
import Monkey.Proofs.Host.Lifetimes
import Monkey.Proofs.Host.Outline
import Monkey.Proofs.Ideal.Refinement
import Monkey.Proofs.Lineage.Runs
import Monkey.Proofs.Parse.Continuation
import Monkey.Proofs.Parse.Kinds
import Monkey.Proofs.Parse.Omission
import Monkey.Proofs.Parse.Outside
import Monkey.Proofs.Parse.Places
import Monkey.Proofs.Parse.Progress
import Monkey.Proofs.Program.Numerals
import Monkey.Proofs.Program.Reparse
import Monkey.Proofs.Program.Unambiguous
import Monkey.Proofs.Renaming.Evaluation
import Monkey.Proofs.Scope.Evaluation
import Monkey.Proofs.Shell.Scripts
import Monkey.Proofs.Token.Readers
import Monkey.Proofs.Token.Spacing
import Monkey.Proofs.Token.Spans
