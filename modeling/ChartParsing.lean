import ChartParsing.Batch
import ChartParsing.Chart.Basic
import ChartParsing.Chart.Cell
import ChartParsing.Chart.Fill
import ChartParsing.Chart.Layout
import ChartParsing.Command.Files
import ChartParsing.Command.Interactive
import ChartParsing.Command.Options
import ChartParsing.Command.Run
import ChartParsing.Derivation
import ChartParsing.Forest
import ChartParsing.Grammar.Basic
import ChartParsing.Grammar.Builder
import ChartParsing.Grammar.Draft
import ChartParsing.Grammar.Error
import ChartParsing.Grammar.Loader
import ChartParsing.Grammar.Printer
import ChartParsing.Grammar.Register
import ChartParsing.Grammar.Source
import ChartParsing.Grammar.Token
import ChartParsing.Grammar.Tokenizer
import ChartParsing.Listing
import ChartParsing.Main
import ChartParsing.Message
import ChartParsing.Proofs.BatchRuns
import ChartParsing.Proofs.BracketedTrees
import ChartParsing.Proofs.BuiltGrammar
import ChartParsing.Proofs.CellRecurrence
import ChartParsing.Proofs.ChartRuns
import ChartParsing.Proofs.CheckedRun
import ChartParsing.Proofs.CursorRuns
import ChartParsing.Proofs.CursorView
import ChartParsing.Proofs.DerivationCount
import ChartParsing.Proofs.DraftedGrammar
import ChartParsing.Proofs.FaultLines
import ChartParsing.Proofs.FilledChart
import ChartParsing.Proofs.FirstRefusal
import ChartParsing.Proofs.ForestQueries
import ChartParsing.Proofs.IncludedGrammar
import ChartParsing.Proofs.LoadedText
import ChartParsing.Proofs.OverflowingQueries
import ChartParsing.Proofs.PlainRecursion
import ChartParsing.Proofs.PrintedGrammar
import ChartParsing.Proofs.PrintedTokens
import ChartParsing.Proofs.QuotedScans
import ChartParsing.Proofs.QuotedText
import ChartParsing.Proofs.RecordedSplits
import ChartParsing.Proofs.RegisteredGrammar
import ChartParsing.Proofs.ReloadedGrammar
import ChartParsing.Proofs.RenamedGrammar
import ChartParsing.Proofs.RereadGrammar
import ChartParsing.Proofs.SentenceFiles
import ChartParsing.Proofs.SentenceLines
import ChartParsing.Proofs.SessionOutput
import ChartParsing.Proofs.SourceFaults
import ChartParsing.Proofs.SourceFormat
import ChartParsing.Proofs.SourceReading
import ChartParsing.Proofs.TableLayout
import ChartParsing.Proofs.TokenLexemes
import ChartParsing.Proofs.TokenReading
import ChartParsing.Proofs.TokenizerRuns
import ChartParsing.Proofs.TreeListing
import ChartParsing.Proofs.TrimmedFields
import ChartParsing.Proofs.WindowCells
import ChartParsing.Proofs.WrittenRules
import ChartParsing.Proofs.WrittenSentences
import ChartParsing.Sentence
import ChartParsing.Span
import ChartParsing.Text.Backspace
import ChartParsing.Text.Blank
import ChartParsing.Text.Cluster
import ChartParsing.Text.ClusterBreak
import ChartParsing.Text.Cursor
import ChartParsing.Text.Cutter
import ChartParsing.Text.Delimited
import ChartParsing.Text.Lines
import ChartParsing.Text.Numeral
import ChartParsing.Text.Quoted
import ChartParsing.Text.Window
import ChartParsing.Tree
