import QmlCodeModel.Data.Library
import QmlCodeModel.Data.Symbols
import QmlCodeModel.Data.Tree
import QmlCodeModel.Live.Text
import QmlCodeModel.Main
import QmlCodeModel.Proofs.Config
import QmlCodeModel.Proofs.Grammar.Complaints
import QmlCodeModel.Proofs.Grammar.Embedding.Source
import QmlCodeModel.Proofs.Grammar.Enumeration
import QmlCodeModel.Proofs.Grammar.Frame
import QmlCodeModel.Proofs.Grammar.JsonString
import QmlCodeModel.Proofs.Grammar.Nesting.Height
import QmlCodeModel.Proofs.Grammar.Operators.Reading
import QmlCodeModel.Proofs.Grammar.Relocation.Source
import QmlCodeModel.Proofs.Grammar.Termination
import QmlCodeModel.Proofs.Import.Dependents
import QmlCodeModel.Proofs.Library.Fingerprint
import QmlCodeModel.Proofs.Library.Registry
import QmlCodeModel.Proofs.Live.Path
import QmlCodeModel.Proofs.Live.Writing
import QmlCodeModel.Proofs.Outline.Value
import QmlCodeModel.Proofs.Path.Normal
import QmlCodeModel.Proofs.Project.Changes
import QmlCodeModel.Proofs.Project.Interleaving
import QmlCodeModel.Proofs.Project.Spelling
import QmlCodeModel.Proofs.Ranges
import QmlCodeModel.Proofs.Session
import QmlCodeModel.Proofs.Snapshot
import QmlCodeModel.Proofs.Symbols.Declarations
import QmlCodeModel.Proofs.Symbols.Family
import QmlCodeModel.Proofs.Symbols.Functions
import QmlCodeModel.Proofs.Symbols.Ids
import QmlCodeModel.Proofs.Symbols.Lookup
import QmlCodeModel.Proofs.Symbols.Owner
import QmlCodeModel.Proofs.Text.Lines
import QmlCodeModel.Proofs.Token.Account
import QmlCodeModel.Proofs.Token.Continuation
import QmlCodeModel.Proofs.Token.NumberText
import QmlCodeModel.PropertyType
