import ScriptEngine.Number
import ScriptEngine.Number.Decimal
import ScriptEngine.Number.Trigonometry
import ScriptEngine.Text.Ranges
import ScriptEngine.Text.Letters
import ScriptEngine.Text.Case
import ScriptEngine.Text.Quoted
import ScriptEngine.Text.Search
import ScriptEngine.Text.Blank
import ScriptEngine.Text.Bytes
import ScriptEngine.Path
import ScriptEngine.Diagnostic
import ScriptEngine.Token
import ScriptEngine.Token.Lexer
import ScriptEngine.Tree
import ScriptEngine.Tree.Printer
import ScriptEngine.Tree.Parser
import ScriptEngine.Table
import ScriptEngine.Value
import ScriptEngine.Heap
import ScriptEngine.Value.Display
import ScriptEngine.Files
import ScriptEngine.Inclusion
import ScriptEngine.World
import ScriptEngine.Evaluation.Operators
import ScriptEngine.Evaluation.Methods
import ScriptEngine.Evaluation.Programs
import ScriptEngine.Evaluation.Builtins
import ScriptEngine.Evaluation.Calls
import ScriptEngine.Evaluation.Nodes
import ScriptEngine.Engine
import ScriptEngine.Session
import ScriptEngine.Repl
import ScriptEngine.CommandLine
import ScriptEngine.Main
import ScriptEngine.Proofs.HeapLaws
import ScriptEngine.Proofs.MemberWrite
import ScriptEngine.Proofs.CallDepth
import ScriptEngine.Proofs.HeapShape
import ScriptEngine.Proofs.ShapeOfRuns
import ScriptEngine.Proofs.ShapeOfEvaluation
import ScriptEngine.Proofs.CanonicalTokens
import ScriptEngine.Proofs.ReadBack
import ScriptEngine.Proofs.ParserPlaces
import ScriptEngine.Proofs.ParsedTrees
import ScriptEngine.Proofs.CanonicalShape
import ScriptEngine.Proofs.ParserTiers
import ScriptEngine.Proofs.ParserGroups
import ScriptEngine.Proofs.ReadBackFollow
import ScriptEngine.Proofs.ReadBackPieces
import ScriptEngine.Proofs.DecimalText
import ScriptEngine.Proofs.ReadBackExact
import ScriptEngine.Proofs.ReadBackCompound
import ScriptEngine.Proofs.ReadBackProgram
import ScriptEngine.Proofs.SourcePieces
import ScriptEngine.Proofs.CanonicalText
import ScriptEngine.Proofs.ProgramText
import ScriptEngine.Proofs.ReadBackApart
import ScriptEngine.Proofs.SourceReadBack
import ScriptEngine.Proofs.ExpressionText
import ScriptEngine.Proofs.Contracts
import ScriptEngine.Proofs.TreeParts
import ScriptEngine.Proofs.Regimes
import ScriptEngine.Proofs.RegimeOfRuns
import ScriptEngine.Proofs.RegimeOfEvaluation
import ScriptEngine.Proofs.RegimeOfMachines
import ScriptEngine.Proofs.ControlSignals
import ScriptEngine.Proofs.FuelStable
import ScriptEngine.Proofs.BoundedRecursion
import ScriptEngine.Proofs.InclusionGraph
import ScriptEngine.Proofs.InclusionCycles
import ScriptEngine.Proofs.LocatedErrors
import ScriptEngine.Proofs.RelatedTables
import ScriptEngine.Proofs.Likeness
import ScriptEngine.Proofs.LikeHeaps
import ScriptEngine.Proofs.LikeRuns
import ScriptEngine.Proofs.LikeOperators
import ScriptEngine.Proofs.LikeEvaluation
import ScriptEngine.Proofs.EqualRuns
import ScriptEngine.Proofs.LikeSessions
import ScriptEngine.Proofs.PositionBlindness
import ScriptEngine.Proofs.ErrorTraces
import ScriptEngine.Proofs.ParserExtension
import ScriptEngine.Proofs.GrammarExtension
import ScriptEngine.Proofs.JoinedText
import ScriptEngine.Proofs.JoinedPrograms
import ScriptEngine.Proofs.ScopeChains
import ScriptEngine.Proofs.TaskQueue
import ScriptEngine.Proofs.Inheritance
import ScriptEngine.Proofs.UnboundedGrammar
import ScriptEngine.Proofs.FollowedRules
import ScriptEngine.Proofs.ParserTermination
import ScriptEngine.Proofs.LexedText
import ScriptEngine.Proofs.TokenPlaces
import ScriptEngine.Proofs.LineBreakGrammar
import ScriptEngine.Proofs.WellFormedTrees
import ScriptEngine.Proofs.ErrorPlaces
import ScriptEngine.Proofs.OperatorGrouping
import ScriptEngine.Proofs.OpenLists
import ScriptEngine.Proofs.SharedLists
import ScriptEngine.Proofs.WatchedWrites
import ScriptEngine.Proofs.DiscreetRuns
import ScriptEngine.Proofs.WatchedEvaluation
import ScriptEngine.Proofs.HostSetters
import ScriptEngine.Proofs.TokenBoundaries
import ScriptEngine.Proofs.EditedText
import ScriptEngine.Proofs.LooseEquality
import ScriptEngine.Proofs.NumberedWorlds
import ScriptEngine.Proofs.ExchangedWorlds
import ScriptEngine.Proofs.NumberedSessions
import ScriptEngine.Proofs.ShapeOfSessions
import ScriptEngine.Proofs.CompoundAssignment
import ScriptEngine.Proofs.CountingLoops
import ScriptEngine.Proofs.SplitTexts
import ScriptEngine.Proofs.StuckCounters
import ScriptEngine.Proofs.WrittenLines
