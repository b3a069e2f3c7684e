import ScriptOptimizer.Main
import ScriptOptimizer.Text.Placeholder
import ScriptOptimizer.Proofs.Batch.Schedule
import ScriptOptimizer.Proofs.Parse.Display
import ScriptOptimizer.Proofs.Parse.Estree
import ScriptOptimizer.Proofs.Parse.Grouping
import ScriptOptimizer.Proofs.Parse.Labels
import ScriptOptimizer.Proofs.Parse.Places
import ScriptOptimizer.Proofs.Parse.Position
import ScriptOptimizer.Proofs.Parse.Semicolons
import ScriptOptimizer.Proofs.Parse.Spacing
import ScriptOptimizer.Proofs.Parse.Total
import ScriptOptimizer.Proofs.Pass.ImplicitGlobals
import ScriptOptimizer.Proofs.Pass.LiteralAgain
import ScriptOptimizer.Proofs.Pass.LiteralKeys
import ScriptOptimizer.Proofs.Pass.LiteralWalks
import ScriptOptimizer.Proofs.Pass.Repeated
import ScriptOptimizer.Proofs.Print.Else
import ScriptOptimizer.Proofs.Print.Formulas
import ScriptOptimizer.Proofs.Print.Regexes
import ScriptOptimizer.Proofs.Scope.Nesting
import ScriptOptimizer.Proofs.Token.Adjacent
import ScriptOptimizer.Proofs.Token.LineBreak
import ScriptOptimizer.Proofs.Token.Names
import ScriptOptimizer.Proofs.Token.Regexes
import ScriptOptimizer.Proofs.Token.StringWritten
import ScriptOptimizer.Proofs.Walk.Calls
import ScriptOptimizer.Proofs.Syntax.Ordered
import ScriptOptimizer.Proofs.Cli.Outputs
import ScriptOptimizer.Syntax.Emitter
import ScriptOptimizer.Proofs.Print.Emitter
import ScriptOptimizer.Proofs.Harmony.Convert
