import Ramify.Position
import Ramify.Cursor
import Ramify.SharedStack
import Ramify.Log
import Ramify.Text.Hex
import Ramify.Text.Utf8
import Ramify.Text.Printable
import Ramify.Text.Quoted
import Ramify.Automaton
import Ramify.Binary64
import Ramify.C.Token
import Ramify.C.Error
import Ramify.C.Recognizer
import Ramify.C.Word
import Ramify.C.Numeral
import Ramify.C.Escape
import Ramify.C.Literal
import Ramify.C.Punctuation
import Ramify.C.Lexer
import Ramify.Grammar
import Ramify.Grammar.Notation
import Ramify.Json
import Ramify.Table
import Ramify.Table.Artifact
import Ramify.LR.Item
import Ramify.LR.First
import Ramify.LR.Collection
import Ramify.LR.Lookahead
import Ramify.LR.Conflict
import Ramify.LR.Generator
import Ramify.LR.Listing
import Ramify.LR.Range
import Ramify.Search.Basic
import Ramify.Search
import Ramify.Text.Blank
import Ramify.C.Scope
import Ramify.C.Config
import Ramify.C.Vocabulary
import Ramify.C.Tree
import Ramify.C.Rules
import Ramify.C.Reading
import Ramify.C.Check
import Ramify.C.FrontEnd
import Ramify.Main
import Ramify.Proofs.LR.Saturation
import Ramify.Proofs.LR.Derivation
import Ramify.Proofs.LR.FirstSets
import Ramify.Proofs.LR.Beginnings
import Ramify.Proofs.LR.ItemClosure
import Ramify.Proofs.LR.StateGraph
import Ramify.Proofs.LR.ReachableSets
import Ramify.Proofs.LR.Spread
import Ramify.Proofs.LR.LookaheadClosure
import Ramify.Proofs.LR.Placeholder
import Ramify.Proofs.LR.RelabelledClosures
import Ramify.Proofs.LR.Worklists
import Ramify.Proofs.LR.KernelRows
import Ramify.Proofs.LR.Propagation
import Ramify.Proofs.LR.CanonicalSets
import Ramify.Proofs.LR.ValidItems
import Ramify.Proofs.Table.Lookup
import Ramify.Proofs.Grammar.Numbering
import Ramify.Proofs.Grammar.Names
import Ramify.Proofs.LR.Cells
import Ramify.Proofs.Search.Move
import Ramify.Proofs.Search.Reach
import Ramify.Proofs.Search.Tallies
import Ramify.Proofs.Search.Explore
import Ramify.Proofs.Search.PlainSearch
import Ramify.Proofs.Search.Pruning
import Ramify.Proofs.LR.ViablePrefix
import Ramify.Proofs.LR.ShiftPreference
import Ramify.Proofs.Parse.Tree
import Ramify.Proofs.Parse.Sentences
import Ramify.Proofs.Parse.NodeEnds
import Ramify.Proofs.Parse.Stacks
import Ramify.Proofs.Parse.Runs
import Ramify.Proofs.Parse.Soundness
import Ramify.Proofs.Parse.Completeness
import Ramify.Proofs.Parse.Uniqueness
import Ramify.Proofs.Parse.Acceptance
import Ramify.Proofs.Parse.Unambiguity
import Ramify.Proofs.Parse.ErrorPosition
import Ramify.Proofs.Parse.Attachment
import Ramify.Proofs.Parse.AcceptingRuns
import Ramify.Proofs.C.BlockScopes
import Ramify.Proofs.Search.Restriction
import Ramify.Proofs.Search.Simulation
import Ramify.Proofs.Search.Lockstep
import Ramify.Proofs.C.TreeReading
import Ramify.Proofs.C.SharedPool
import Ramify.Proofs.C.Provisional
import Ramify.Proofs.C.StandardGrammar
import Ramify.Proofs.C.NameCodes
import Ramify.Proofs.Text.Cursors
import Ramify.Proofs.C.TokenSpans
import Ramify.Proofs.Text.Outcomes
import Ramify.Proofs.Text.Positions
import Ramify.Proofs.C.Readings
import Ramify.Proofs.C.TokenBytes
import Ramify.Proofs.C.LineBreaks
import Ramify.Proofs.Text.LongestRuns
import Ramify.Proofs.Text.MaximalMunch
import Ramify.Proofs.C.QuotedBodies
import Ramify.Proofs.C.LiteralRoundTrip
import Ramify.Proofs.C.TreeSpans
import Ramify.Proofs.C.DanglingElse
import Ramify.Proofs.C.SpelledTrees
import Ramify.Proofs.C.Survivors
import Ramify.Proofs.C.ContextEffects
import Ramify.Proofs.C.ValueGate
import Ramify.Proofs.C.ElseAttachment
import Ramify.Proofs.C.Renaming
import Ramify.Proofs.C.RenamedTrees
import Ramify.Proofs.C.RenamedParses
import Ramify.Proofs.LR.BitCharts
import Ramify.Proofs.Parse.SpareRule
import Ramify.Proofs.C.RuleNumbers
import Ramify.Proofs.C.TypedefNames
import Ramify.Proofs.Table.Validation
import Ramify.Proofs.LR.GeneratedTables
import Ramify.Proofs.Search.InBounds
import Ramify.Proofs.C.LoadedTables
import Ramify.Proofs.Json.RoundTrip
import Ramify.Proofs.Table.Documents
import Ramify.Proofs.Search.Accounts
import Ramify.Proofs.Search.Limits
import Ramify.Proofs.C.ScopeBalance
import Ramify.Proofs.Grammar.Lexemes
import Ramify.Proofs.Grammar.WrittenRules
import Ramify.Proofs.Grammar.WrittenForm
import Ramify.Proofs.Grammar.RepeatedLabels
import Ramify.Proofs.Grammar.DefaultLabels
import Ramify.Proofs.C.Digits
import Ramify.Proofs.C.EscapeUnits
import Ramify.Proofs.C.IntegerLexemes
import Ramify.Proofs.C.IntegerConstants
import Ramify.Proofs.C.Verdicts
import Ramify.Proofs.C.DeclarationShapes
import Ramify.Proofs.C.FormedTrees
import Ramify.Proofs.C.Declarators
import Ramify.Proofs.C.Declarations
import Ramify.Proofs.C.Punctuators
import Ramify.Proofs.C.ScopeHistory
import Ramify.Proofs.C.MaterializedTrees
import Ramify.Proofs.Search.Termination
import Ramify.Proofs.Parse.Termination
import Ramify.Proofs.C.NameUses
import Ramify.Proofs.C.ServingScopes
import Ramify.Proofs.C.DeclaredNames
import Ramify.Proofs.C.TimelyNames
import Ramify.Proofs.C.FiniteSearches
import Ramify.Proofs.C.TimelySurvivors
