import MathLine.Expression
import MathLine.Fragment
import MathLine.Fragment.OfNodes
import MathLine.Fragment.Transcript
import MathLine.Geometry.Arrangement
import MathLine.Geometry.Box
import MathLine.Geometry.Mark
import MathLine.Geometry.Metrics
import MathLine.Geometry.Placement
import MathLine.Geometry.Row
import MathLine.Geometry.Scalar
import MathLine.Journal
import MathLine.Lexicon
import MathLine.Node
import MathLine.Node.Reading
import MathLine.Operator
import MathLine.Proofs.Areas
import MathLine.Proofs.Backslashes
import MathLine.Proofs.Bars
import MathLine.Proofs.BracketPartners
import MathLine.Proofs.Brackets
import MathLine.Proofs.CalledNames
import MathLine.Proofs.Canonical
import MathLine.Proofs.Characters
import MathLine.Proofs.Composition
import MathLine.Proofs.Containment
import MathLine.Proofs.Coverage
import MathLine.Proofs.EmptyText
import MathLine.Proofs.Enclosure
import MathLine.Proofs.EscapedText
import MathLine.Proofs.Escaping
import MathLine.Proofs.Fitting
import MathLine.Proofs.FreeRelations
import MathLine.Proofs.Ink
import MathLine.Proofs.InnerRows
import MathLine.Proofs.Kinds
import MathLine.Proofs.LackingGroups
import MathLine.Proofs.Lexemes
import MathLine.Proofs.Locality
import MathLine.Proofs.Lookahead
import MathLine.Proofs.LooseBrackets
import MathLine.Proofs.Measuring
import MathLine.Proofs.NameLookup
import MathLine.Proofs.OffsetReading
import MathLine.Proofs.Offsets
import MathLine.Proofs.PartTokens
import MathLine.Proofs.Pieces
import MathLine.Proofs.Printing
import MathLine.Proofs.Reconstruction
import MathLine.Proofs.RelationSigns
import MathLine.Proofs.Replay
import MathLine.Proofs.RowPlaces
import MathLine.Proofs.RowSigns
import MathLine.Proofs.Runs
import MathLine.Proofs.Shape
import MathLine.Proofs.SignRoom
import MathLine.Proofs.SoundTex
import MathLine.Proofs.Spacing
import MathLine.Proofs.Spelling
import MathLine.Proofs.StackedScripts
import MathLine.Proofs.Steps
import MathLine.Proofs.StepsApart
import MathLine.Proofs.Strays
import MathLine.Proofs.Stretches
import MathLine.Proofs.TexArguments
import MathLine.Proofs.TexTokens
import MathLine.Proofs.Tiling
import MathLine.Proofs.WorkbenchHistory
import MathLine.Proofs.WorksheetHistory
import MathLine.Step
import MathLine.Submission
import MathLine.Tex.Command
import MathLine.Tex.Escape
import MathLine.Tex.Row
import MathLine.Tex.Steps
import MathLine.Text.Blank
import MathLine.Text.Bracket
import MathLine.Text.Quoted
import MathLine.Text.Unseen
import MathLine.Text.Word
import MathLine.Token
import MathLine.Workbench
import MathLine.Worksheet
