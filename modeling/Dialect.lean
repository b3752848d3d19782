import Dialect.Main
import Dialect.Proofs.Compilation
import Dialect.Proofs.Table.Outline
import Dialect.Proofs.Clock.Group
import Dialect.Proofs.Gap
import Dialect.Proofs.Issue
import Dialect.Proofs.Emptiness
import Dialect.Proofs.Table.Bracket
import Dialect.Proofs.Route
import Dialect.Proofs.Table.Adjacency
import Dialect.Proofs.Table.Literal
import Dialect.Proofs.Clock.Locality
import Dialect.Proofs.Clock.Names
import Dialect.Proofs.Comment.Scanner
import Dialect.Proofs.Table.Concatenation
import Dialect.Proofs.Calendar
import Dialect.Proofs.Apostrophe
import Dialect.Proofs.Issue.DateLiteral
import Dialect.Proofs.Issue.AutoIncrement
import Dialect.Proofs.Clock.Script
import Dialect.Proofs.Verbosity
import Dialect.Proofs.Comment.Unclosed
import Dialect.Proofs.Partition
import Dialect.Proofs.Conversation
import Dialect.Proofs.Settings
import Dialect.Proofs.Offset.Search
import Dialect.Proofs.Offset.Comment
import Dialect.Proofs.Offset.Nesting
import Dialect.Proofs.Offset.Table
import Dialect.Proofs.Offset.Clock
import Dialect.Proofs.Offset.Compilation
import Dialect.Proofs.Offset.Matching
import Dialect.Proofs.Report
