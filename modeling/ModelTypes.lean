import ModelTypes.CommandLine.Command
import ModelTypes.Declaration
import ModelTypes.Main
import ModelTypes.Project.Generation
import ModelTypes.Schema.Build
import ModelTypes.Proofs.Compile.Absence
import ModelTypes.Proofs.Compile.Calls
import ModelTypes.Proofs.Compile.Circular
import ModelTypes.Proofs.Compile.DottedNames
import ModelTypes.Proofs.Compile.Expansion
import ModelTypes.Proofs.Compile.Hoisting
import ModelTypes.Proofs.Compile.Identifiers
import ModelTypes.Proofs.Compile.Implicit
import ModelTypes.Proofs.Compile.Lines
import ModelTypes.Proofs.Compile.Modes
import ModelTypes.Proofs.Compile.VersionKey
import ModelTypes.Proofs.Compile.Words
import ModelTypes.Proofs.Declaration
import ModelTypes.Proofs.Field.Depth
import ModelTypes.Proofs.Field.Enumerations
import ModelTypes.Proofs.Field.Maps
import ModelTypes.Proofs.Field.Optionality
import ModelTypes.Proofs.Field.Parsing
import ModelTypes.Proofs.Line.Reading
import ModelTypes.Proofs.Project.Isolation
import ModelTypes.Proofs.Project.Models
import ModelTypes.Proofs.Project.Settings
import ModelTypes.Proofs.Schema.Extension
import ModelTypes.Proofs.Schema.Mirror
import ModelTypes.Proofs.Schema.Owned
import ModelTypes.Proofs.Schema.Registry
import ModelTypes.Proofs.Tree.FlatForm
