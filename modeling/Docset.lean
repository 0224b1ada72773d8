import Docset.Compiler
import Docset.Config
import Docset.Config.Load
import Docset.Decimal.Shortest
import Docset.Disk
import Docset.Disk.Location
import Docset.Element
import Docset.Index.Elements
import Docset.Journal
import Docset.Journal.Level
import Docset.Journal.Logger
import Docset.Ledger
import Docset.Name.Path
import Docset.Name.Qualified
import Docset.Namespace.Lineage
import Docset.Namespace.Tree
import Docset.Node
import Docset.Package.Name
import Docset.Package.Tree
import Docset.Pass
import Docset.Store
import Docset.Store.Build
import Docset.Store.Source
import Docset.Table
import Docset.Text.Blank
import Docset.Text.Fields
import Docset.Text.Lines
import Docset.Text.LowerCase
import Docset.Text.Printable
import Docset.Text.Quoted
import Docset.Text.Ranges
import Docset.Value
import Docset.Value.Excess
import Docset.Value.Key
import Docset.Value.Reader
import Docset.Value.Text
import Docset.Yaml.Cursor
import Docset.Yaml.Document
import Docset.Yaml.Moment
import Docset.Yaml.Number
import Docset.Yaml.Plain
import Docset.Yaml.Quoted
import Docset.Yaml.Scalar
import Docset.Yaml.Token
import Docset.Yaml.Token.Directive
import Docset.Yaml.Token.Lexer
import Docset.Yaml.Tree
import Docset.Proofs.Build
import Docset.Proofs.Input
import Docset.Proofs.Footprint
import Docset.Proofs.Ledger
import Docset.Proofs.Text.Fields
import Docset.Proofs.Text.Trimming
import Docset.Proofs.Name.Parent
import Docset.Proofs.Namespace.Forest
import Docset.Proofs.Namespace.Binding
import Docset.Proofs.Namespace.Linking
import Docset.Proofs.Namespace.Keys
import Docset.Proofs.Walks
import Docset.Proofs.Namespace.Children
import Docset.Proofs.Namespace.Ancestors
import Docset.Proofs.Namespace.Members
import Docset.Proofs.Namespace.Shape
import Docset.Proofs.Name.Bare
import Docset.Proofs.Name.Depth
import Docset.Proofs.Name.Grammar
import Docset.Proofs.Name.LocalName
import Docset.Proofs.Namespace.Unrooted
import Docset.Proofs.Package.Forest
import Docset.Proofs.Package.Growing
import Docset.Proofs.Package.Binding
import Docset.Proofs.Package.Named
import Docset.Proofs.Package.Picture
import Docset.Proofs.Package.Members
import Docset.Proofs.Package.Shape
import Docset.Proofs.Package.Normal
import Docset.Proofs.Members
import Docset.Proofs.Plan
import Docset.Proofs.Compile
import Docset.Proofs.Reading
import Docset.Proofs.Twins
import Docset.Proofs.Reordering
import Docset.Proofs.Abreast
import Docset.Proofs.Namespace.Abreast
import Docset.Proofs.Package.Abreast
import Docset.Proofs.FromScratch
import Docset.Proofs.Bindings
import Docset.Proofs.Namespace.Entered
import Docset.Proofs.Indexing
import Docset.Proofs.ElementKeys
import Docset.Proofs.References
import Docset.Proofs.Whole
import Docset.Proofs.Parts
import Docset.Proofs.PassParts
import Docset.Proofs.Commuting
import Docset.Proofs.Order
import Docset.Proofs.Calls
import Docset.Proofs.Namespace.Unparented
import Docset.Proofs.Namespace.Climb
import Docset.Proofs.Package.Rooted
import Docset.Proofs.Halfway
import Docset.Proofs.Name.Rejoining
import Docset.Proofs.Sources
import Docset.Proofs.Text.LowerCase
import Docset.Proofs.Level
import Docset.Proofs.Config
import Docset.Proofs.Disk
import Docset.Proofs.Journal
