import LineCensus.Main
import LineCensus.Progress
import LineCensus.Proofs.Count.OpenString
import LineCensus.Proofs.Count.CodeLine
import LineCensus.Proofs.Count.CommentText
import LineCensus.Proofs.Count.PlainScanner
import LineCensus.Proofs.Count.JoinedTexts
import LineCensus.Proofs.Count.BlockComment
import LineCensus.Proofs.Count.LiteralSpans
import LineCensus.Proofs.Report.Gathering
import LineCensus.Proofs.Report.Counters
import LineCensus.Proofs.Report.Directories
import LineCensus.Proofs.Language.Lookup
import LineCensus.Proofs.Language.Overrides
import LineCensus.Proofs.Names
import LineCensus.Proofs.Scan.Tree
import LineCensus.Proofs.Scan.Visits
import LineCensus.Proofs.Scan.Hidden
import LineCensus.Proofs.Glob.PlainText
import LineCensus.Proofs.Glob.Filter
import LineCensus.Proofs.Scan.OutputDir
import LineCensus.Proofs.Language.Reach
import LineCensus.Proofs.Language.Layers
import LineCensus.Proofs.Settings.OverrideText
import LineCensus.Proofs.Report.FileOrder
import LineCensus.Proofs.Count.Conservation
import LineCensus.Proofs.Census
import LineCensus.Proofs.Report.CsvText
import LineCensus.Proofs.Document.JsonGrammar
import LineCensus.Proofs.Report.JsonContents
import LineCensus.Proofs.Count.LiteralWords
import LineCensus.Proofs.Count.StripTwice
import LineCensus.Proofs.Report.MarkdownRows
import LineCensus.Proofs.Count.ByColumns
import LineCensus.Proofs.Text.TidyText
import LineCensus.Proofs.Count.TidyTexts
import LineCensus.Proofs.Count.Lookout
import LineCensus.Proofs.Count.Awaited
import LineCensus.Proofs.Count.BlankLines
import LineCensus.Proofs.Report.OwnFiles
import LineCensus.Proofs.Language.Additions
import LineCensus.Proofs.Report.Languages
import LineCensus.Proofs.Report.SummarySums
import LineCensus.Proofs.Report.DigitGroups
import LineCensus.Proofs.Report.Shortening
import LineCensus.Proofs.Report.Alignment
import LineCensus.Proofs.Settings.OverrideDocument
import LineCensus.Proofs.Ancestors
import LineCensus.Proofs.Text.Utf8
import LineCensus.Proofs.Text.Weave
