import ModuleLinker.Error
import ModuleLinker.Json.Reader
import ModuleLinker.Json.Value
import ModuleLinker.Link.Elimination
import ModuleLinker.Link.Emission
import ModuleLinker.Link.LoadOrder
import ModuleLinker.Link.Program
import ModuleLinker.Link.Reachability
import ModuleLinker.Module.Basic
import ModuleLinker.Module.Classify
import ModuleLinker.Module.Dependencies
import ModuleLinker.Module.Identifier
import ModuleLinker.Module.Location
import ModuleLinker.Module.Source
import ModuleLinker.Options
import ModuleLinker.Order
import ModuleLinker.Path.Component
import ModuleLinker.Proofs.BodyStatements
import ModuleLinker.Proofs.BoundNames
import ModuleLinker.Proofs.DeadText
import ModuleLinker.Proofs.Dependency
import ModuleLinker.Proofs.DependencySet
import ModuleLinker.Proofs.DepthFirst
import ModuleLinker.Proofs.Elimination
import ModuleLinker.Proofs.EntryPointUnion
import ModuleLinker.Proofs.ExportTable
import ModuleLinker.Proofs.ExpressionPlaces
import ModuleLinker.Proofs.FirstError
import ModuleLinker.Proofs.GeneratedLines
import ModuleLinker.Proofs.Idempotence
import ModuleLinker.Proofs.InputOrder
import ModuleLinker.Proofs.JsonText
import ModuleLinker.Proofs.KeptReferences
import ModuleLinker.Proofs.KnownNames
import ModuleLinker.Proofs.Layout
import ModuleLinker.Proofs.LineBreaks
import ModuleLinker.Proofs.LineNumbers
import ModuleLinker.Proofs.LiveKeys
import ModuleLinker.Proofs.LoadOrder
import ModuleLinker.Proofs.MarkedModule
import ModuleLinker.Proofs.MarkedProgram
import ModuleLinker.Proofs.MarkedText
import ModuleLinker.Proofs.ModulePath
import ModuleLinker.Proofs.NumberedGraph
import ModuleLinker.Proofs.NumberedOrder
import ModuleLinker.Proofs.OriginalLines
import ModuleLinker.Proofs.OtherNames
import ModuleLinker.Proofs.Passages
import ModuleLinker.Proofs.Position
import ModuleLinker.Proofs.Postorder
import ModuleLinker.Proofs.QuotedNames
import ModuleLinker.Proofs.ReadStatement
import ModuleLinker.Proofs.Reanalysis
import ModuleLinker.Proofs.RecursiveSearch
import ModuleLinker.Proofs.Reexport
import ModuleLinker.Proofs.RequiredPath
import ModuleLinker.Proofs.Respelling
import ModuleLinker.Proofs.Sorting
import ModuleLinker.Proofs.SourceMapReader
import ModuleLinker.Proofs.SourcePath
import ModuleLinker.Proofs.Spelling
import ModuleLinker.Proofs.Stages
import ModuleLinker.Proofs.StatementPlaces
import ModuleLinker.Proofs.Survival
import ModuleLinker.Proofs.TextPieces
import ModuleLinker.Proofs.TokenWidth
import ModuleLinker.Proofs.UnrelatedModule
import ModuleLinker.Proofs.VerbatimLiterals
import ModuleLinker.Proofs.VisibleText
import ModuleLinker.Proofs.WholeTokens
import ModuleLinker.Proofs.Wrapper
import ModuleLinker.Script.Grammar.Basic
import ModuleLinker.Script.Grammar.Declaration
import ModuleLinker.Script.Grammar.Function
import ModuleLinker.Script.Grammar.Operand
import ModuleLinker.Script.Grammar.Operator
import ModuleLinker.Script.Grammar.Statement
import ModuleLinker.Script.Literal
import ModuleLinker.Script.Occurrence
import ModuleLinker.Script.Program
import ModuleLinker.Script.Reading
import ModuleLinker.Script.Reinterpret
import ModuleLinker.Script.Token
import ModuleLinker.Script.Tree
import ModuleLinker.Script.Trivia
import ModuleLinker.SourceMap.Mapping
import ModuleLinker.SourceMap.Vlq
import ModuleLinker.Text.Blank
import ModuleLinker.Text.CodeUnits
import ModuleLinker.Text.Identifier
import ModuleLinker.Text.Lines
import ModuleLinker.Text.Quoted
import ModuleLinker.Text.Slice
