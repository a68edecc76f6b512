import SourceEdit.Catalog
import SourceEdit.Config
import SourceEdit.Config.Layers
import SourceEdit.Data
import SourceEdit.Decimal.Binary64
import SourceEdit.Dict
import SourceEdit.Edit
import SourceEdit.EditResult
import SourceEdit.Editor
import SourceEdit.Editor.Script
import SourceEdit.File
import SourceEdit.FileTree
import SourceEdit.Git.Address
import SourceEdit.Git.Objects
import SourceEdit.Git.Reference
import SourceEdit.Git.Repository
import SourceEdit.Git.Settings
import SourceEdit.Glob
import SourceEdit.Glob.Token
import SourceEdit.Ignore.Levels
import SourceEdit.Ignore.Personal
import SourceEdit.Ignore.Rule
import SourceEdit.Json.Quoted
import SourceEdit.Json.Reader
import SourceEdit.Loading
import SourceEdit.Loading.Exclusion
import SourceEdit.Manifest
import SourceEdit.Manifest.Coordinate
import SourceEdit.Manifest.Reader
import SourceEdit.Manifest.Version
import SourceEdit.Parameter
import SourceEdit.Pattern
import SourceEdit.Pattern.Bracket
import SourceEdit.Pattern.Escape
import SourceEdit.Pattern.Flags
import SourceEdit.Pattern.Node
import SourceEdit.Pattern.Places
import SourceEdit.Pattern.Reader
import SourceEdit.Project
import SourceEdit.Proofs.Binding
import SourceEdit.Proofs.Binding.Again
import SourceEdit.Proofs.Binding.Refusal
import SourceEdit.Proofs.Binding.Unusable
import SourceEdit.Proofs.Config.Layers
import SourceEdit.Proofs.Config.Serialized
import SourceEdit.Proofs.Data.Reordered
import SourceEdit.Proofs.Data.Written
import SourceEdit.Proofs.Dict
import SourceEdit.Proofs.EditResult
import SourceEdit.Proofs.Editor.Frame
import SourceEdit.Proofs.Editor.Generation
import SourceEdit.Proofs.Editor.Recording
import SourceEdit.Proofs.Editor.Report
import SourceEdit.Proofs.FileTree
import SourceEdit.Proofs.Glob.Literal
import SourceEdit.Proofs.Glob.Part
import SourceEdit.Proofs.Glob.Scope
import SourceEdit.Proofs.Glob.Token
import SourceEdit.Proofs.Json.Written
import SourceEdit.Proofs.Latest
import SourceEdit.Proofs.Loading.Eligible
import SourceEdit.Proofs.Loading.IgnoredPath
import SourceEdit.Proofs.Loading.Report
import SourceEdit.Proofs.Loading.Walk
import SourceEdit.Proofs.Manifest.Boundary
import SourceEdit.Proofs.Manifest.Identity
import SourceEdit.Proofs.Manifest.Pinned
import SourceEdit.Proofs.Manifest.PlainValue
import SourceEdit.Proofs.Manifest.Provenance
import SourceEdit.Proofs.Manifest.Record
import SourceEdit.Proofs.Manifest.Sum
import SourceEdit.Proofs.Outcome
import SourceEdit.Proofs.Parameter
import SourceEdit.Proofs.Path
import SourceEdit.Proofs.Path.Parts
import SourceEdit.Proofs.Pattern.Enclosed.Bracket
import SourceEdit.Proofs.Pattern.Enclosed.Escape
import SourceEdit.Proofs.Pattern.Enclosed.Reader
import SourceEdit.Proofs.Pattern.Reach
import SourceEdit.Proofs.Pattern.WholeValue
import SourceEdit.Proofs.Project.Building
import SourceEdit.Proofs.Project.Ordered
import SourceEdit.Proofs.Project.Session
import SourceEdit.Proofs.Query.Condition
import SourceEdit.Proofs.Query.Filter
import SourceEdit.Proofs.Query.Grammar
import SourceEdit.Proofs.Query.Selection
import SourceEdit.Proofs.Registry.Acceptance
import SourceEdit.Proofs.Registry.Gate
import SourceEdit.Proofs.Registry.Registration
import SourceEdit.Proofs.Registry.Requests
import SourceEdit.Proofs.Text.ByteOrder
import SourceEdit.Proofs.Text.Decimal
import SourceEdit.Proofs.Text.Fields
import SourceEdit.Proofs.Toml.Literal
import SourceEdit.Proofs.Toml.Range
import SourceEdit.Proofs.Toml.Written
import SourceEdit.Proofs.Version.Brackets
import SourceEdit.Proofs.Version.Expression
import SourceEdit.Proofs.Version.Spaces
import SourceEdit.Proofs.Yaml.Ending.Block
import SourceEdit.Proofs.Yaml.Ending.Cursor
import SourceEdit.Proofs.Yaml.Ending.Documents
import SourceEdit.Proofs.Yaml.Ending.Lexer
import SourceEdit.Proofs.Yaml.Ending.Nodes
import SourceEdit.Proofs.Yaml.Ending.Plain
import SourceEdit.Proofs.Yaml.Ending.Properties
import SourceEdit.Proofs.Yaml.Ending.Quoted
import SourceEdit.Proofs.Yaml.Ending.Tokens
import SourceEdit.Proofs.Yaml.Graphic
import SourceEdit.Proofs.Yaml.Marker.Arrival
import SourceEdit.Proofs.Yaml.Marker.Block
import SourceEdit.Proofs.Yaml.Marker.Cursor
import SourceEdit.Proofs.Yaml.Marker.Documents
import SourceEdit.Proofs.Yaml.Marker.Lexer
import SourceEdit.Proofs.Yaml.Marker.Plain
import SourceEdit.Proofs.Yaml.Marker.Properties
import SourceEdit.Proofs.Yaml.Marker.Quoted
import SourceEdit.Proofs.Yaml.Marker.State
import SourceEdit.Proofs.Yaml.Node.Documents
import SourceEdit.Proofs.Yaml.Node.Locality
import SourceEdit.Proofs.Yaml.Node.Readers
import SourceEdit.Proofs.Yaml.Node.Unended
import SourceEdit.Proofs.Yaml.Spelling
import SourceEdit.Proofs.Yaml.Written.Chain
import SourceEdit.Proofs.Yaml.Written.DoubleQuoted
import SourceEdit.Proofs.Yaml.Written.Entry
import SourceEdit.Proofs.Yaml.Written.Legible
import SourceEdit.Proofs.Yaml.Written.Literal
import SourceEdit.Proofs.Yaml.Written.Plain
import SourceEdit.Proofs.Yaml.Written.Quoted
import SourceEdit.Proofs.Yaml.Written.Record
import SourceEdit.Proofs.Yaml.Written.SingleQuoted
import SourceEdit.Proofs.Yaml.Written.Traits
import SourceEdit.Proofs.Yaml.Written.Value
import SourceEdit.Query
import SourceEdit.Registry
import SourceEdit.Text.Blank
import SourceEdit.Text.Fields
import SourceEdit.Toml
import SourceEdit.Toml.Number
import SourceEdit.Toml.Table
import SourceEdit.Toml.Text
import SourceEdit.Unicode.Category
import SourceEdit.Unicode.Folding
import SourceEdit.Unicode.Intervals
import SourceEdit.Unicode.Property
import SourceEdit.Unicode.Script
import SourceEdit.Yaml.Cursor
import SourceEdit.Yaml.Node
import SourceEdit.Yaml.Node.Reader
import SourceEdit.Yaml.Scalar
import SourceEdit.Yaml.Token
import SourceEdit.Yaml.Token.Block
import SourceEdit.Yaml.Token.Lexer
import SourceEdit.Yaml.Token.Plain
import SourceEdit.Yaml.Token.Properties
import SourceEdit.Yaml.Token.Quoted
import SourceEdit.Yaml.Writer
import SourceEdit.Zlib
import SourceEdit.Zlib.PrefixCode
