import Marginalia.Command.Arguments
import Marginalia.Command.Run
import Marginalia.Comment.Style
import Marginalia.Comment.Tag
import Marginalia.Config.Basic
import Marginalia.Config.Load
import Marginalia.Config.Read
import Marginalia.Config.Validate
import Marginalia.Dict
import Marginalia.Discovery
import Marginalia.Display.Emoji
import Marginalia.Display.Truncate
import Marginalia.Display.Wide
import Marginalia.Display.Width
import Marginalia.Display.ZeroWidth
import Marginalia.Glob.Expand
import Marginalia.Glob.Match
import Marginalia.Glob.Pattern
import Marginalia.Issue
import Marginalia.Json.Magnitude
import Marginalia.Json.Print
import Marginalia.Json.Reader
import Marginalia.Json.Skip
import Marginalia.Language.Builtin
import Marginalia.Language.Table
import Marginalia.Main
import Marginalia.Note.Anchoring
import Marginalia.Note.Assembly
import Marginalia.Note.Basic
import Marginalia.Note.Extraction
import Marginalia.Note.Role
import Marginalia.Path
import Marginalia.Proofs.BlockBody
import Marginalia.Proofs.Column
import Marginalia.Proofs.MarkedLine
import Marginalia.Proofs.Nesting
import Marginalia.Proofs.Order
import Marginalia.Proofs.Parts
import Marginalia.Proofs.Slice
import Marginalia.Proofs.Tagging
import Marginalia.Report.Basic
import Marginalia.Report.Json
import Marginalia.Report.Languages
import Marginalia.Report.Paint
import Marginalia.Report.Text
import Marginalia.Scan
import Marginalia.Source
import Marginalia.Text.Basic
import Marginalia.Text.Blank
import Marginalia.Text.CodeRanges
import Marginalia.Text.Lines
import Marginalia.Text.Quoted
import Marginalia.Text.Search
import Marginalia.Text.Unprintable
import Marginalia.Tree
import Marginalia.Proofs.Anchors
import Marginalia.Proofs.Relocation
import Marginalia.Proofs.Barrier
import Marginalia.Proofs.Warnings
import Marginalia.Proofs.Indentation
import Marginalia.Proofs.Spelling
import Marginalia.Proofs.Merging
import Marginalia.Proofs.Presentation
import Marginalia.Proofs.PathSteps
import Marginalia.Proofs.Walks
import Marginalia.Proofs.Aliases
import Marginalia.Proofs.BlankLines
import Marginalia.Proofs.ReadBack
import Marginalia.Proofs.ConfigText
import Marginalia.Proofs.Listing
import Marginalia.Proofs.HiddenFolders
import Marginalia.Proofs.NewFile
import Marginalia.Proofs.Initialisation
import Marginalia.Proofs.OpenComments
import Marginalia.Proofs.BraceLevels
import Marginalia.Proofs.DisplayWidth
import Marginalia.Proofs.Recognition
import Marginalia.Proofs.Expansion
import Marginalia.Proofs.NearestConfig
import Marginalia.Proofs.RoleGrammar
import Marginalia.Proofs.PlainIgnores
import Marginalia.Proofs.Places
import Marginalia.Proofs.Inside
import Marginalia.Proofs.LineEndings
import Marginalia.Proofs.FileLanguages
import Marginalia.Proofs.TableEdits
import Marginalia.Proofs.Positions
import Marginalia.Proofs.Colours
import Marginalia.Proofs.Gutter
import Marginalia.Proofs.LeaderOrder
