import Typeset.Atom
import Typeset.Box.Basic
import Typeset.Box.Dump
import Typeset.Box.Lines
import Typeset.Box.Paint
import Typeset.Box.Tint
import Typeset.Color.Basic
import Typeset.Color.Names
import Typeset.Color.Spec
import Typeset.CommandLine
import Typeset.Dictionary
import Typeset.Environment
import Typeset.Font
import Typeset.Formula
import Typeset.Glyph
import Typeset.Layout
import Typeset.Layout.Formula
import Typeset.Layout.Grid
import Typeset.Layout.Row
import Typeset.Length
import Typeset.Main
import Typeset.Markup.Builtins
import Typeset.Markup.Command
import Typeset.Markup.Cursor
import Typeset.Markup.Definition
import Typeset.Markup.Error
import Typeset.Markup.Nest
import Typeset.Markup.Parse
import Typeset.Markup.Reading
import Typeset.Markup.Registry
import Typeset.Markup.Start
import Typeset.MathClass
import Typeset.Number.Binary
import Typeset.Number.Fixed
import Typeset.Number.Numeral
import Typeset.Number.Shortest
import Typeset.Picture
import Typeset.Scalar
import Typeset.Spacing
import Typeset.Style
import Typeset.Symbol
import Typeset.Table.Basic
import Typeset.Table.Builder
import Typeset.Table.Format
import Typeset.Table.Kind
import Typeset.Table.Rule
import Typeset.Text
import Typeset.Proofs.Nest.Sound
import Typeset.Proofs.Reading.Ensures
import Typeset.Proofs.Parse.Course
import Typeset.Proofs.Cursor.Local
import Typeset.Proofs.Parse.Soundness
import Typeset.Proofs.Reading.Local
import Typeset.Proofs.Nest.Salvage
import Typeset.Proofs.Nest.Refusal
import Typeset.Proofs.Parse.Lenient
import Typeset.Proofs.Cursor.Before
import Typeset.Proofs.Parse.Tokens
import Typeset.Proofs.Parse.Brackets
import Typeset.Proofs.Parse.Canonical
import Typeset.Proofs.Atom.Fits
import Typeset.Proofs.Table.Checked
import Typeset.Proofs.Nest.Conservation
import Typeset.Proofs.Parse.Conservation
import Typeset.Proofs.Parse.WellFormed
import Typeset.Proofs.Box.Tint
import Typeset.Proofs.Box.Paint
import Typeset.Proofs.Box.Lines
import Typeset.Proofs.Box.Measured
import Typeset.Proofs.Layout.Measured
import Typeset.Proofs.Box.Characters
import Typeset.Proofs.Layout.Characters
import Typeset.Proofs.Layout.Classes
import Typeset.Proofs.Layout.Clearance
import Typeset.Proofs.Layout.Columns
import Typeset.Proofs.Parse.Pieces
import Typeset.Proofs.Reading.Positions
import Typeset.Proofs.Nest.Positions
import Typeset.Proofs.Parse.Positions
import Typeset.Proofs.Nest.Loops
import Typeset.Proofs.Parse.Termination
import Typeset.Proofs.Reading.Steady
import Typeset.Proofs.Nest.Within
import Typeset.Proofs.Parse.Groups
import Typeset.Proofs.Parse.Calls
import Typeset.Proofs.Scalar
import Typeset.Proofs.Box.Opened
import Typeset.Proofs.Layout.Switches
import Typeset.Proofs.Box.Colored
import Typeset.Proofs.Layout.Colored
import Typeset.Proofs.Box.Scaled
import Typeset.Proofs.Layout.Scaled
import Typeset.Proofs.Cursor.Gaps
import Typeset.Proofs.Nest.Alike
import Typeset.Proofs.Parse.Writing
import Typeset.Proofs.Parse.Arguments
import Typeset.Proofs.Parse.Commands
import Typeset.Proofs.Parse.Phrases
import Typeset.Proofs.Parse.Whitespace
import Typeset.Proofs.Parse.TextArgument
import Typeset.Proofs.Box.Places
import Typeset.Proofs.Table.Parts
import Typeset.Proofs.Registry.Registrations
import Typeset.Proofs.Reading.Packages
import Typeset.Proofs.Parse.Isolation
import Typeset.Proofs.Box.BlankLines
import Typeset.Proofs.Box.LineWidths
import Typeset.Proofs.Layout.InRange
import Typeset.Proofs.Table.Dimensions
import Typeset.Proofs.Cursor.Balanced
import Typeset.Proofs.Definition.Expansion
import Typeset.Proofs.Nest.Braces
import Typeset.Proofs.Nest.Scripts
import Typeset.Proofs.Parse.Lexing
import Typeset.Proofs.Parse.ScriptOrder
import Typeset.Proofs.Parse.DoubleScripts
import Typeset.Proofs.Format.Written
import Typeset.Proofs.Format.Bounds
import Typeset.Proofs.Box.Padded
import Typeset.Proofs.Number.Rounding
import Typeset.Proofs.Number.Unpacked
import Typeset.Proofs.Number.Packing
import Typeset.Proofs.Number.Arithmetic
import Typeset.Proofs.Number.Defined
import Typeset.Proofs.Number.Sums
import Typeset.Proofs.Layout.Classless
import Typeset.Proofs.Picture.Alignment
import Typeset.Proofs.Definition.Names
import Typeset.Proofs.Box.Glyphs
import Typeset.Proofs.Layout.Glyphs
import Typeset.Proofs.Layout.FontSizes
import Typeset.Proofs.Color.Mixtures
import Typeset.Proofs.Color.Written
