import Script.Main
import Script.Proofs.Eval.Arithmetic
import Script.Proofs.Eval.Attribution
import Script.Proofs.Eval.Compound
import Script.Proofs.Eval.Debug
import Script.Proofs.Eval.Diagnostics
import Script.Proofs.Eval.Exports
import Script.Proofs.Eval.Frame
import Script.Proofs.Eval.Identity
import Script.Proofs.Eval.Isolation
import Script.Proofs.Eval.Layout
import Script.Proofs.Eval.Limit
import Script.Proofs.Eval.Loading
import Script.Proofs.Eval.Located
import Script.Proofs.Eval.Output
import Script.Proofs.Eval.Readback
import Script.Proofs.Eval.Returns
import Script.Proofs.Eval.Sequences
import Script.Proofs.Eval.Thin
import Script.Proofs.Parse.Imports
import Script.Proofs.Parse.Places
import Script.Proofs.Parse.Progress
import Script.Proofs.Parse.Recovery
import Script.Proofs.Scope.Agreement
import Script.Proofs.Scope.Assignment
import Script.Proofs.Scope.Recycling
import Script.Proofs.Scope.Sound
import Script.Proofs.Token.Literals
import Script.Proofs.Token.Spacing
