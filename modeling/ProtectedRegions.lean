import ProtectedRegions.Builder
import ProtectedRegions.CommandLine.Arguments
import ProtectedRegions.CommandLine.Outcome
import ProtectedRegions.Comment
import ProtectedRegions.Configuration
import ProtectedRegions.Configuration.File
import ProtectedRegions.Decimal.Shortest
import ProtectedRegions.Document
import ProtectedRegions.Failure
import ProtectedRegions.Filter
import ProtectedRegions.Glob
import ProtectedRegions.Lexicon
import ProtectedRegions.Log
import ProtectedRegions.Main
import ProtectedRegions.Merge
import ProtectedRegions.Oracle
import ProtectedRegions.Parser
import ProtectedRegions.Path
import ProtectedRegions.Pattern
import ProtectedRegions.Pattern.Expression
import ProtectedRegions.Pool
import ProtectedRegions.Proofs.Aborting
import ProtectedRegions.Proofs.Advancing
import ProtectedRegions.Proofs.Capturing
import ProtectedRegions.Proofs.Carrying
import ProtectedRegions.Proofs.Chaining
import ProtectedRegions.Proofs.Choosing
import ProtectedRegions.Proofs.Comments
import ProtectedRegions.Proofs.Composing
import ProtectedRegions.Proofs.Coping
import ProtectedRegions.Proofs.Cutting
import ProtectedRegions.Proofs.Delivering
import ProtectedRegions.Proofs.Enclosing
import ProtectedRegions.Proofs.Enumerating
import ProtectedRegions.Proofs.Filling
import ProtectedRegions.Proofs.Forecast
import ProtectedRegions.Proofs.Gathering
import ProtectedRegions.Proofs.Grammar
import ProtectedRegions.Proofs.Keeping
import ProtectedRegions.Proofs.LineEndings
import ProtectedRegions.Proofs.Listing
import ProtectedRegions.Proofs.Markers
import ProtectedRegions.Proofs.Numbering
import ProtectedRegions.Proofs.Overlapping
import ProtectedRegions.Proofs.Pairing
import ProtectedRegions.Proofs.Planning
import ProtectedRegions.Proofs.Pooling
import ProtectedRegions.Proofs.Preparing
import ProtectedRegions.Proofs.Reading
import ProtectedRegions.Proofs.Reread
import ProtectedRegions.Proofs.Restoring
import ProtectedRegions.Proofs.Scanning
import ProtectedRegions.Proofs.Seam
import ProtectedRegions.Proofs.Settling
import ProtectedRegions.Proofs.Shaping
import ProtectedRegions.Proofs.Skipping
import ProtectedRegions.Proofs.Spelling
import ProtectedRegions.Proofs.Substituting
import ProtectedRegions.Proofs.Tables
import ProtectedRegions.Proofs.Tiling
import ProtectedRegions.Proofs.Tree
import ProtectedRegions.Proofs.Validating
import ProtectedRegions.Proofs.Walking
import ProtectedRegions.Proofs.Writing
import ProtectedRegions.Support
import ProtectedRegions.Sync
import ProtectedRegions.Text
import ProtectedRegions.Text.Case
import ProtectedRegions.Text.Quoted
import ProtectedRegions.Text.Unprintable
import ProtectedRegions.Text.Utf8
import ProtectedRegions.Text.Word
import ProtectedRegions.Value
import ProtectedRegions.Value.Written
import ProtectedRegions.Workspace
import ProtectedRegions.Yaml.Cursor
import ProtectedRegions.Yaml.Document
import ProtectedRegions.Yaml.Node
import ProtectedRegions.Yaml.Scalar
import ProtectedRegions.Yaml.Tag
import ProtectedRegions.Yaml.Token
