import ScriptLint.Main
import ScriptLint.Proofs.DocumentCache
import ScriptLint.Proofs.Navigation
import ScriptLint.Proofs.NestedRuns
import ScriptLint.Proofs.VisibleNames
import ScriptLint.Proofs.BlockSuppression
import ScriptLint.Proofs.ConditionArithmetic
import ScriptLint.Proofs.Termination
import ScriptLint.Proofs.ReturnPaths
import ScriptLint.Proofs.ConditionalStack
import ScriptLint.Proofs.AlignedRanges
import ScriptLint.Proofs.CallText
import ScriptLint.Proofs.ParameterNames
import ScriptLint.Proofs.TableKeys
import ScriptLint.Proofs.CallChecking
import ScriptLint.Proofs.LiteralBodies
import ScriptLint.Proofs.RecordedSpans
import ScriptLint.Proofs.LineSuppression
import ScriptLint.Proofs.SpacedTokens
import ScriptLint.Proofs.DirectiveExtents
import ScriptLint.Proofs.ExitStatus
import ScriptLint.Proofs.StrippedComments
import ScriptLint.Proofs.NormalPaths
