import LatexMarkdown.CommandLine.Folder
import LatexMarkdown.Main
import LatexMarkdown.Proofs.AbsentStructure
import LatexMarkdown.Proofs.ArrayProtection
import LatexMarkdown.Proofs.Bibliography
import LatexMarkdown.Proofs.CellFragments
import LatexMarkdown.Proofs.ColorOrder
import LatexMarkdown.Proofs.ColumnExpansion
import LatexMarkdown.Proofs.CommentIndependence
import LatexMarkdown.Proofs.DeclarationOffers
import LatexMarkdown.Proofs.DeclaredLabel
import LatexMarkdown.Proofs.DeclaredTheorem
import LatexMarkdown.Proofs.Finality
import LatexMarkdown.Proofs.GridLayout
import LatexMarkdown.Proofs.InlineBodies
import LatexMarkdown.Proofs.InlineCode
import LatexMarkdown.Proofs.KeptLines
import LatexMarkdown.Proofs.LabelRoundTrip
import LatexMarkdown.Proofs.LeakFree
import LatexMarkdown.Proofs.ListOption
import LatexMarkdown.Proofs.ListTree
import LatexMarkdown.Proofs.NestedTheorem
import LatexMarkdown.Proofs.NormalBlanks
import LatexMarkdown.Proofs.OptionIndependence
import LatexMarkdown.Proofs.OptionWords
import LatexMarkdown.Proofs.Protection
import LatexMarkdown.Proofs.ReferenceNumbers
import LatexMarkdown.Proofs.RelationRows
import LatexMarkdown.Proofs.ScanSafety
import LatexMarkdown.Proofs.SpanBalance
import LatexMarkdown.Proofs.StyleOrder
import LatexMarkdown.Proofs.SurplusLines
import LatexMarkdown.Proofs.TableJoining
