import Externals.Command.Options
import Externals.Command.Run
import Externals.Data.Table
import Externals.Declaration.Basic
import Externals.Declaration.Dump
import Externals.Emit.Artifact
import Externals.Emit.Declaration
import Externals.Emit.Member
import Externals.Files.Basic
import Externals.Files.Glob
import Externals.Files.Host
import Externals.Files.Memory
import Externals.Files.Publish
import Externals.Files.Volume
import Externals.Imports.Headers
import Externals.Json.Basic
import Externals.Log.Event
import Externals.Log.Filter
import Externals.Main
import Externals.Mapping.Draft
import Externals.Mapping.KotlinType
import Externals.Mapping.Mapper
import Externals.Mapping.Reading
import Externals.Mapping.TypeText
import Externals.Project.Basic
import Externals.Project.Collect
import Externals.Project.Emission
import Externals.Project.Fusion
import Externals.Project.Render
import Externals.Proofs.Data.Table
import Externals.Proofs.Emit.Layout
import Externals.Proofs.Files.Join
import Externals.Proofs.Imports.Forest
import Externals.Proofs.Imports.Shelf
import Externals.Proofs.Mapping.Agreement
import Externals.Proofs.Mapping.PrintedReading
import Externals.Proofs.Mapping.Symbol
import Externals.Proofs.Mapping.TypeExpr
import Externals.Proofs.Project.Denotation
import Externals.Proofs.Project.Emission
import Externals.Proofs.Project.FreshRun
import Externals.Proofs.Project.FusedClass
import Externals.Proofs.Project.Fusion
import Externals.Proofs.Project.ImportSection
import Externals.Proofs.Project.Recollection
import Externals.Proofs.Project.Refusion
import Externals.Proofs.Project.Rerun
import Externals.Proofs.Project.State
import Externals.Proofs.Project.Moves
import Externals.Proofs.Project.Walk
import Externals.Proofs.Scope.Alike
import Externals.Proofs.Scope.Growth
import Externals.Proofs.Text.Balanced
import Externals.Scope.Basic
import Externals.Scope.Index
import Externals.Scope.Naming
import Externals.Settings.Basic
import Externals.Settings.Read
import Externals.Source.Expression
import Externals.Source.File
import Externals.Source.Member
import Externals.Source.Resolve
import Externals.Source.Rule
import Externals.Source.Statement
import Externals.Source.Token
import Externals.Source.Tree
import Externals.Source.Type
import Externals.Text.Blank
import Externals.Text.Brackets
import Externals.Text.Split
import Externals.Text.WordChar
import Externals.Toml.Basic
import Externals.Toml.Document
import Externals.Toml.Quoted
import Externals.Toml.Scalar
import Externals.Proofs.Scope.Registry
import Externals.Proofs.Project.Phases
import Externals.Proofs.Project.Collection
import Externals.Proofs.Project.Placement
import Externals.Proofs.Project.Independence
import Externals.Proofs.Project.Rendering
import Externals.Proofs.Project.Founders
import Externals.Proofs.Project.ModuleBinding
import Externals.Proofs.Scope.Mirror
import Externals.Proofs.Scope.Embedding
import Externals.Proofs.Project.Alone
import Externals.Proofs.Project.FileOrder
import Externals.Proofs.Scope.Paths
import Externals.Proofs.Project.TypeNames
import Externals.Proofs.Json.Pretty
import Externals.Proofs.Declaration.Dump
import Externals.Proofs.Mapping.Nullable
import Externals.Proofs.Mapping.BaseType
import Externals.Proofs.Files.Volume
import Externals.Proofs.Files.Publish
import Externals.Proofs.Mapping.Composite
import Externals.Proofs.Mapping.ArrayReading
import Externals.Proofs.Mapping.Comment
import Externals.Proofs.Mapping.BlockComment
import Externals.Proofs.Mapping.Exposure
import Externals.Proofs.Scope.Resolution
import Externals.Proofs.Scope.Packages
import Externals.Proofs.Scope.Namespaces
import Externals.Proofs.Project.TypePositions
import Externals.Proofs.Scope.ModuleLookup
import Externals.Proofs.Scope.Segments
import Externals.Proofs.Source.Accessors
import Externals.Proofs.Source.Comments
import Externals.Proofs.Files.Accounting
import Externals.Proofs.Mapping.Cuts
import Externals.Proofs.Mapping.Descent
