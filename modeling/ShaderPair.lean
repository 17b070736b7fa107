import ShaderPair.Text.Basic
import ShaderPair.Text.WordTable
import ShaderPair.Text.PrintableTable
import ShaderPair.Text.Class
import ShaderPair.Text.Pattern
import ShaderPair.Text.Piece
import ShaderPair.Text.Comment
import ShaderPair.Text.Brace
import ShaderPair.Text.Quoted
import ShaderPair.Text.Integer
import ShaderPair.OrderedMap
import ShaderPair.Fault
import ShaderPair.ShaderType
import ShaderPair.Slot
import ShaderPair.Layout
import ShaderPair.Interface
import ShaderPair.Context
import ShaderPair.Compile
import ShaderPair.TextureFunction
import ShaderPair.Declaration
import ShaderPair.Declare
import ShaderPair.LeftOver
import ShaderPair.Binding
import ShaderPair.Define
import ShaderPair.StageStruct
import ShaderPair.Finish
import ShaderPair.Pair
import ShaderPair.Cli.Options
import ShaderPair.Cli.Path
import ShaderPair.Cli.FileFault
import ShaderPair.Cli.Location
import ShaderPair.Cli.FileTree
import ShaderPair.Cli.Job
import ShaderPair.Cli.Terminal
import ShaderPair.Cli.Export
import ShaderPair.Cli.Watcher
import ShaderPair.Cli.Timestamp
import ShaderPair.Cli.Command
import ShaderPair.Main
import ShaderPair.Proofs.LayoutTables
import ShaderPair.Proofs.SlotOrder
import ShaderPair.Proofs.ResourceStep
import ShaderPair.Proofs.Effect
import ShaderPair.Proofs.ProgramSteps
import ShaderPair.Proofs.Holdings
import ShaderPair.Proofs.Session
import ShaderPair.Proofs.SlotDistinctness
import ShaderPair.Proofs.Description
import ShaderPair.Proofs.RegistryOrder
import ShaderPair.Proofs.SlotEnumeration
import ShaderPair.Proofs.Placement
import ShaderPair.Proofs.BufferSites
import ShaderPair.Proofs.BufferSharing
import ShaderPair.Proofs.LocationRanges
import ShaderPair.Proofs.Replacement
import ShaderPair.Proofs.Words
import ShaderPair.Proofs.Lines
import ShaderPair.Proofs.Expansion
import ShaderPair.Proofs.DirectiveSearch
import ShaderPair.Proofs.DefinedNames
import ShaderPair.Proofs.NameTurns
import ShaderPair.Proofs.Substitution
import ShaderPair.Proofs.MacroExpansion
import ShaderPair.Proofs.DirectiveOrder
import ShaderPair.Proofs.Recompilation
import ShaderPair.Proofs.StageAgreement
import ShaderPair.Proofs.EngineBuffers
import ShaderPair.Proofs.Visibility
import ShaderPair.Proofs.AccessRedirection
import ShaderPair.Proofs.Pieces
import ShaderPair.Proofs.CommentScan
import ShaderPair.Proofs.InterfaceHistory
import ShaderPair.Proofs.ComponentCounts
import ShaderPair.Proofs.LeftOverFields
import ShaderPair.Proofs.VaryingLookUp
import ShaderPair.Proofs.BraceMatching
import ShaderPair.Proofs.DirectiveComments
import ShaderPair.Proofs.DirectiveLines
import ShaderPair.Proofs.LineNumbers
import ShaderPair.Proofs.AutoSamplers
import ShaderPair.Proofs.SteadyPatterns
import ShaderPair.Proofs.CommentTails
import ShaderPair.Proofs.PreparedSources
import ShaderPair.Proofs.DerivativeFlip
import ShaderPair.Proofs.Edits
import ShaderPair.Proofs.GeneratedStructs
import ShaderPair.Proofs.EntryPoint
import ShaderPair.Proofs.WatcherHistory
import ShaderPair.Proofs.AllOrNothing
import ShaderPair.Proofs.ContextParts
import ShaderPair.Proofs.LineOrder
import ShaderPair.Proofs.TextureArrays
import ShaderPair.Proofs.LayoutResources
import ShaderPair.Proofs.Catalogue
import ShaderPair.Proofs.TextureHistory
import ShaderPair.Proofs.TextureSamples
import ShaderPair.Proofs.ArrayTypes
import ShaderPair.Proofs.ArrayBlanks
import ShaderPair.Proofs.LoneAccess
import ShaderPair.Proofs.StridedStructs
import ShaderPair.Proofs.HostTypes
import ShaderPair.Proofs.ArrayStrides
import ShaderPair.Proofs.LocationRequests
import ShaderPair.Proofs.VertexInputs
import ShaderPair.Proofs.Patterns
import ShaderPair.Proofs.BufferDeclarations
import ShaderPair.Proofs.VaryingNames
import ShaderPair.Proofs.DepthWrites
import ShaderPair.Proofs.GroupCapacity
import ShaderPair.Proofs.CommentedDirectives
