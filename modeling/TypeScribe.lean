import TypeScribe.Classes.Hierarchy
import TypeScribe.Classes.NameTable
import TypeScribe.Rendering.Config
import TypeScribe.Rendering.DocText
import TypeScribe.Rendering.DocType
import TypeScribe.Rendering.Document
import TypeScribe.Rendering.Hint
import TypeScribe.Rendering.Renderer
import TypeScribe.Rendering.Rule
import TypeScribe.Rendering.Settings
import TypeScribe.Syntax.Comparison
import TypeScribe.Syntax.Dump
import TypeScribe.Syntax.Finder
import TypeScribe.Syntax.Kind
import TypeScribe.Syntax.KindSet
import TypeScribe.Syntax.Naming
import TypeScribe.Syntax.Node
import TypeScribe.Syntax.NodeClass
import TypeScribe.Syntax.Program
import TypeScribe.Syntax.Shorthand
import TypeScribe.Syntax.Statement
import TypeScribe.Syntax.Tree
import TypeScribe.Syntax.View
import TypeScribe.Text.Blank
import TypeScribe.Text.Fold
import TypeScribe.Text.Numeral
import TypeScribe.Text.Segments
import TypeScribe.Ty.Basic
import TypeScribe.Ty.Builtin
import TypeScribe.Ty.Display
import TypeScribe.Ty.Equality
import TypeScribe.Ty.Induction
import TypeScribe.Ty.Normal
import TypeScribe.TypeHint.Basic
import TypeScribe.TypeHint.Equality
import TypeScribe.TypeHint.Tree
import TypeScribe.Version.Basic
import TypeScribe.Version.Feature
import TypeScribe.Version.Reading
import TypeScribe.Version.Words
import TypeScribe.Proofs.Classes.Ancestry
import TypeScribe.Proofs.Classes.Declarations
import TypeScribe.Proofs.Classes.NameTable
import TypeScribe.Proofs.Distinct
import TypeScribe.Proofs.Rendering.Alternatives
import TypeScribe.Proofs.Rendering.CommonAncestor
import TypeScribe.Proofs.Rendering.ReadBack
import TypeScribe.Proofs.Rendering.Stability
import TypeScribe.Proofs.Rendering.StandardHint
import TypeScribe.Proofs.Ty.Normal
import TypeScribe.Proofs.TypeHint.Meaning
import TypeScribe.Proofs.Rendering.NestedUnions
import TypeScribe.Proofs.TypeHint.Occurrence
import TypeScribe.Proofs.Rendering.Failure
import TypeScribe.Proofs.Rendering.Origin
import TypeScribe.Proofs.Rendering.Gating
import TypeScribe.Proofs.Rendering.Shape
import TypeScribe.Proofs.Syntax.Position
import TypeScribe.Proofs.Syntax.Backwards
import TypeScribe.Proofs.Rendering.Upgrade
import TypeScribe.Proofs.Text.Row
import TypeScribe.Proofs.Rendering.DocTypeText
import TypeScribe.Proofs.Rendering.Wording
import TypeScribe.Proofs.Classes.Numbering
import TypeScribe.Proofs.Syntax.Trivia
import TypeScribe.Proofs.Syntax.Formatting
import TypeScribe.Proofs.Syntax.Emission
import TypeScribe.Proofs.Syntax.Expression
import TypeScribe.Proofs.Syntax.BuiltNames
import TypeScribe.Proofs.Classes.Contents
import TypeScribe.Proofs.Ty.Members
import TypeScribe.Proofs.Rendering.DocFailure
import TypeScribe.Proofs.TypeHint.Reading
import TypeScribe.Proofs.Text.Numeral
import TypeScribe.Proofs.Version.Reading
import TypeScribe.Proofs.Rendering.Agreement
import TypeScribe.Proofs.Rendering.Reloading
import TypeScribe.Proofs.Rendering.RuleOrder
import TypeScribe.Proofs.Rendering.Slots
import TypeScribe.Proofs.Rendering.DeclaredKin
import TypeScribe.Proofs.Rendering.Distribution
import TypeScribe.Proofs.Rendering.Repetition
import TypeScribe.Proofs.Rendering.MemberOrder
import TypeScribe.Proofs.Rendering.Coverage
import TypeScribe.Proofs.Text.Openings
import TypeScribe.Proofs.Rendering.Gaps
import TypeScribe.Proofs.Rendering.RawUnions
import TypeScribe.Proofs.Rendering.ProperDocTypes
import TypeScribe.Proofs.Text.Parentheses
import TypeScribe.Proofs.Rendering.Legible
import TypeScribe.Proofs.Ty.Grouping
import TypeScribe.Proofs.Syntax.Placement
import TypeScribe.Proofs.TypeHint.Building
import TypeScribe.Proofs.Text.Trimming
import TypeScribe.Proofs.Version.Words
import TypeScribe.Proofs.Version.Grammar
import TypeScribe.Proofs.Version.Order
import TypeScribe.Proofs.Syntax.Address
import TypeScribe.Proofs.Syntax.ScopeQueries
import TypeScribe.Proofs.Syntax.NearestAncestor
import TypeScribe.Proofs.Syntax.StatementWalk
import TypeScribe.Proofs.Syntax.Outline
import TypeScribe.Proofs.Syntax.KindSets
import TypeScribe.Proofs.Syntax.Extent
