import TypedClient.Build
import TypedClient.Codegen.Session
import TypedClient.Codegen.Types
import TypedClient.CommandLine.Options
import TypedClient.CommandLine.Run
import TypedClient.CommandLine.Word
import TypedClient.Document.Atom
import TypedClient.Document.Calendar
import TypedClient.Document.Datum
import TypedClient.Document.Expand
import TypedClient.Document.Load
import TypedClient.Document.Node
import TypedClient.Document.Pointer
import TypedClient.Document.Version
import TypedClient.Emit.Access
import TypedClient.Emit.Client
import TypedClient.Emit.Comment
import TypedClient.Emit.Dispatch
import TypedClient.Emit.Imports
import TypedClient.Emit.Key
import TypedClient.Emit.Method
import TypedClient.Emit.Module
import TypedClient.Emit.PathTemplate
import TypedClient.Emit.Specifier
import TypedClient.Emit.TypeExpr
import TypedClient.Emit.Typedef
import TypedClient.Files.Encoding
import TypedClient.Files.Path
import TypedClient.Files.System
import TypedClient.Files.Tree
import TypedClient.Files.Write
import TypedClient.Generate
import TypedClient.Grouped
import TypedClient.Main
import TypedClient.Naming.Identifier
import TypedClient.Naming.Label
import TypedClient.Number.Binary64
import TypedClient.Number.Shortest
import TypedClient.Operation.Arguments
import TypedClient.Operation.Collect
import TypedClient.Operation.Generate
import TypedClient.Schema.Basic
import TypedClient.Schema.Path
import TypedClient.Schema.Read
import TypedClient.Scope.Table
import TypedClient.Scope.Tree
import TypedClient.Settings.Basic
import TypedClient.Settings.Check
import TypedClient.Settings.Load
import TypedClient.Text.Base64
import TypedClient.Text.Blank
import TypedClient.Text.Case
import TypedClient.Text.Digit
import TypedClient.Text.Display
import TypedClient.Text.Half
import TypedClient.Text.Printable
import TypedClient.Text.Quoted
import TypedClient.Text.Word
import TypedClient.Yaml.Cursor
import TypedClient.Yaml.Graph
import TypedClient.Yaml.Lexeme
import TypedClient.Yaml.Lexer
import TypedClient.Yaml.Looks
import TypedClient.Yaml.Merge
import TypedClient.Yaml.Reader
import TypedClient.Yaml.Scalar
import TypedClient.Yaml.Tag
import TypedClient.Yaml.Time
import TypedClient.Yaml.Token
import TypedClient.Yaml.Unfold
import TypedClient.Yaml.Value
import TypedClient.Proofs.Lists
import TypedClient.Proofs.Replacing
import TypedClient.Proofs.Trimming
import TypedClient.Proofs.Pointer
import TypedClient.Proofs.Pointer.Lookup
import TypedClient.Proofs.Expansion.Walk
import TypedClient.Proofs.Expansion.Places
import TypedClient.Proofs.Pointer.Positions
import TypedClient.Proofs.Expansion.Depth
import TypedClient.Proofs.Expansion.Inlining
import TypedClient.Proofs.Expansion.Uncut
import TypedClient.Proofs.Expansion.Memory
import TypedClient.Proofs.Expansion.History
import TypedClient.Proofs.Expansion.Calls
import TypedClient.Proofs.Expansion.Ending
import TypedClient.Proofs.Expansion.Faithful
import TypedClient.Proofs.Expansion.Stamps
import TypedClient.Proofs.Expansion.Canonical
import TypedClient.Proofs.Expansion.Tracing
import TypedClient.Proofs.Expansion.Marks
import TypedClient.Proofs.Expansion.Readings
import TypedClient.Proofs.Files.Entries
import TypedClient.Proofs.Files.Walk
import TypedClient.Proofs.Files.Writing
import TypedClient.Proofs.Files.Fitting
import TypedClient.Proofs.Files.Growing
import TypedClient.Proofs.Files.Exact
import TypedClient.Proofs.Files.Encoded
import TypedClient.Proofs.Files.Failing
import TypedClient.Proofs.Steps
import TypedClient.Proofs.Response.Dispatch
import TypedClient.Proofs.Response.Unwrapping
import TypedClient.Proofs.Scope.Growth
import TypedClient.Proofs.Scope.Entering
import TypedClient.Proofs.Scope.Edits
import TypedClient.Proofs.Scope.Definitions
import TypedClient.Proofs.Linking.Names
import TypedClient.Proofs.Linking.Scopes
import TypedClient.Proofs.Linking.Designation
import TypedClient.Proofs.Linking.Moments
import TypedClient.Proofs.Linking.Invariant
import TypedClient.Proofs.Linking.Handed
import TypedClient.Proofs.Linking.Paths
import TypedClient.Proofs.Linking.Methods
import TypedClient.Proofs.Linking.Run
import TypedClient.Proofs.Linking.Single
import TypedClient.Proofs.Linking.References
import TypedClient.Proofs.Linking.Components
import TypedClient.Proofs.Making.Rules
import TypedClient.Proofs.Making.Types
import TypedClient.Proofs.Making.Methods
import TypedClient.Proofs.Making.Runs
import TypedClient.Proofs.Making.Partition
import TypedClient.Proofs.Making.Bodies
import TypedClient.Proofs.Making.TopLevel
import TypedClient.Proofs.Making.Printing
import TypedClient.Proofs.Making.Feasible
import TypedClient.Proofs.Making.Apart
import TypedClient.Proofs.Making.Reordering
import TypedClient.Proofs.Making.Placeholders
import TypedClient.Proofs.Making.Parameters
import TypedClient.Proofs.Making.Signatures
import TypedClient.Proofs.Making.Bindings
import TypedClient.Proofs.Making.Labels
import TypedClient.Proofs.Making.Asking
import TypedClient.Proofs.Making.Clashes
import TypedClient.Proofs.Naming.Sanitizing
import TypedClient.Proofs.Naming.Settled
import TypedClient.Proofs.Making.Members
import TypedClient.Proofs.Making.Gains
import TypedClient.Proofs.Making.Accounts
import TypedClient.Proofs.Files.Modules
import TypedClient.Proofs.Files.Specifiers
import TypedClient.Proofs.Grammar.Tokens
import TypedClient.Proofs.Grammar.Literals
import TypedClient.Proofs.Grammar.Reading
import TypedClient.Proofs.Grammar.Meaning
import TypedClient.Proofs.Grammar.Wording
import TypedClient.Proofs.Grammar.Merges
import TypedClient.Proofs.Grammar.Enumerations
import TypedClient.Proofs.Script.Literals
import TypedClient.Proofs.Script.Quotations
import TypedClient.Proofs.Script.Keys
import TypedClient.Proofs.Script.Templates
import TypedClient.Proofs.Script.Expressions
import TypedClient.Proofs.Script.Accessors
import TypedClient.Proofs.Script.Conditions
import TypedClient.Proofs.Script.Comments
import TypedClient.Proofs.Response.MediaTypes
