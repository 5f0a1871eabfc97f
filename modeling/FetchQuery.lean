import FetchQuery.CommandLine.Run
import FetchQuery.Shell.Session
import FetchQuery.Main
import FetchQuery.Proofs.Text.Numeral
import FetchQuery.Proofs.Xml.Reference
import FetchQuery.Proofs.Xml.Tag
import FetchQuery.Proofs.Xml.TagEnd
import FetchQuery.Proofs.Xml.Aside
import FetchQuery.Proofs.Xml.Spelling
import FetchQuery.Proofs.Request.Reading
import FetchQuery.Proofs.Xml.Writing
import FetchQuery.Proofs.Request.Canonical
import FetchQuery.Proofs.Request.Writing
import FetchQuery.Proofs.Xml.Extension
import FetchQuery.Proofs.Xml.DistinctKeys
import FetchQuery.Proofs.Request.Rearrangement
import FetchQuery.Proofs.Sql.Lines
import FetchQuery.Proofs.Sql.Essentials
import FetchQuery.Proofs.Json.Grammar
import FetchQuery.Proofs.Json.Reader
import FetchQuery.Proofs.Json.Printing
import FetchQuery.Proofs.Request.FromJson
import FetchQuery.Proofs.Text.Lines
import FetchQuery.Proofs.Xml.Source
import FetchQuery.Proofs.Xml.RootEnd
import FetchQuery.Proofs.Shell.Session
import FetchQuery.Proofs.Shell.Typing
import FetchQuery.Proofs.Xml.Nesting
import FetchQuery.Proofs.Xml.Offset
import FetchQuery.Proofs.Xml.FinalFault
import FetchQuery.Proofs.Shell.Buffer
import FetchQuery.Proofs.Xml.Insertion
import FetchQuery.Proofs.Xml.ReferenceFault
import FetchQuery.Proofs.Xml.TagGrammar
import FetchQuery.Proofs.Shell.Closing
import FetchQuery.Proofs.CommandLine.Setting
import FetchQuery.Proofs.CommandLine.Sources
import FetchQuery.Proofs.Request.MissingName
import FetchQuery.Proofs.Xml.FaultPosition
import FetchQuery.Proofs.Json.Layout
import FetchQuery.Proofs.Xml.StartTag
import FetchQuery.Proofs.Request.Walk
import FetchQuery.Proofs.Request.LinkTree
import FetchQuery.Proofs.Sql.RowLimit
import FetchQuery.Proofs.Shell.Concatenation
import FetchQuery.Proofs.Sql.Literal
import FetchQuery.Proofs.CommandLine.Order
import FetchQuery.Proofs.Xml.OpenTags
import FetchQuery.Proofs.Run
import FetchQuery.Proofs.Xml.Progress
import FetchQuery.Proofs.Request.Events
