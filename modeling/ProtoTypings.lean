import ProtoTypings.Casing
import ProtoTypings.Code.Fragment
import ProtoTypings.Code.Indent
import ProtoTypings.Command.Arguments
import ProtoTypings.Command.Check
import ProtoTypings.Command.Error
import ProtoTypings.Command.Generate
import ProtoTypings.Command.Report
import ProtoTypings.Command.Run
import ProtoTypings.Descriptor
import ProtoTypings.Draft
import ProtoTypings.Event
import ProtoTypings.Format.Json
import ProtoTypings.Generation
import ProtoTypings.Hooks
import ProtoTypings.Host.Basic
import ProtoTypings.Host.Disk
import ProtoTypings.Host.FileTree
import ProtoTypings.Host.Path
import ProtoTypings.Host.Spot
import ProtoTypings.Host.Writing
import ProtoTypings.Imports
import ProtoTypings.Inputs
import ProtoTypings.Main
import ProtoTypings.Mapping
import ProtoTypings.Naming
import ProtoTypings.OutputPath
import ProtoTypings.Proofs.Brackets
import ProtoTypings.Proofs.Casing
import ProtoTypings.Proofs.Collision
import ProtoTypings.Proofs.Comments
import ProtoTypings.Proofs.Composition
import ProtoTypings.Proofs.Coverage
import ProtoTypings.Proofs.Descriptor
import ProtoTypings.Proofs.Draft
import ProtoTypings.Proofs.Emission
import ProtoTypings.Proofs.EnumKey
import ProtoTypings.Proofs.Generation
import ProtoTypings.Proofs.Identifier
import ProtoTypings.Proofs.Imports
import ProtoTypings.Proofs.Indentation
import ProtoTypings.Proofs.Inputs
import ProtoTypings.Proofs.KeySpan
import ProtoTypings.Proofs.Layering
import ProtoTypings.Proofs.Literals
import ProtoTypings.Proofs.Location
import ProtoTypings.Proofs.Mapper
import ProtoTypings.Proofs.Mapping
import ProtoTypings.Proofs.Members
import ProtoTypings.Proofs.Mentions
import ProtoTypings.Proofs.Naming
import ProtoTypings.Proofs.NeutralHooks
import ProtoTypings.Proofs.Order
import ProtoTypings.Proofs.OutputPath
import ProtoTypings.Proofs.Parentheses
import ProtoTypings.Proofs.Pieces
import ProtoTypings.Proofs.Placeholder
import ProtoTypings.Proofs.Placement
import ProtoTypings.Proofs.References
import ProtoTypings.Proofs.Registry
import ProtoTypings.Proofs.Rows
import ProtoTypings.Proofs.Schema.Edits
import ProtoTypings.Proofs.Schema.Lines
import ProtoTypings.Proofs.Schema.Links
import ProtoTypings.Proofs.Schema.Loading
import ProtoTypings.Proofs.Schema.Names
import ProtoTypings.Proofs.Schema.Outline
import ProtoTypings.Proofs.Schema.Reordering
import ProtoTypings.Proofs.Schema.Resolution
import ProtoTypings.Proofs.Sections
import ProtoTypings.Proofs.SourcePath
import ProtoTypings.Proofs.Specifier
import ProtoTypings.Proofs.Spelling
import ProtoTypings.Proofs.Splitting
import ProtoTypings.Proofs.Substitution
import ProtoTypings.Proofs.Summary
import ProtoTypings.Proofs.Template
import ProtoTypings.Proofs.Traced
import ProtoTypings.Proofs.Unfolding
import ProtoTypings.Proofs.Words
import ProtoTypings.Proofs.Writing
import ProtoTypings.Registry.Basic
import ProtoTypings.Registry.Entry
import ProtoTypings.Schema.Error
import ProtoTypings.Schema.Graph
import ProtoTypings.Schema.Loading
import ProtoTypings.Schema.Node
import ProtoTypings.Settings.Basic
import ProtoTypings.Settings.Document
import ProtoTypings.Settings.KeySpan
import ProtoTypings.Settings.Moment
import ProtoTypings.Settings.Reading
import ProtoTypings.Settings.Validation
import ProtoTypings.Template
import ProtoTypings.Text.Affix
import ProtoTypings.Text.Alphanumeric
import ProtoTypings.Text.Blank
import ProtoTypings.Text.Decimal
import ProtoTypings.Text.Hex
import ProtoTypings.Timestamp
import ProtoTypings.Typing.Declaration
import ProtoTypings.Typing.Identifier
import ProtoTypings.Typing.SourceFile
import ProtoTypings.Typing.TypeExpr
import ProtoTypings.Typing.WellKnown
