import AnnotatedYaml.Syntax.Event.Reader
import AnnotatedYaml.Text.Blank
import AnnotatedYaml.Text.Source
import AnnotatedYaml.Error
import AnnotatedYaml.Tree.Build
import AnnotatedYaml.Comment.Attach
import AnnotatedYaml.Layout.Writer
import AnnotatedYaml.Layout.Tags
import AnnotatedYaml.Layout.Render
import AnnotatedYaml.Stream
import AnnotatedYaml.Workbench
import AnnotatedYaml.Cli.Run
import AnnotatedYaml.Main
import AnnotatedYaml.Proofs.Hoare
import AnnotatedYaml.Proofs.Layout.Log
import AnnotatedYaml.Proofs.Tree.Walk
import AnnotatedYaml.Proofs.Tree.Shape
import AnnotatedYaml.Proofs.Layout.Claims
import AnnotatedYaml.Proofs.Layout.WrittenOnce
import AnnotatedYaml.Proofs.Layout.Checks
import AnnotatedYaml.Proofs.Layout.Refused
import AnnotatedYaml.Proofs.Scalar.InlineReading
import AnnotatedYaml.Proofs.Scalar.BlockReading
import AnnotatedYaml.Proofs.Layout.OnOneLine
import AnnotatedYaml.Proofs.Layout.TagShorthand
import AnnotatedYaml.Proofs.Text.Lines
import AnnotatedYaml.Proofs.Comment.Pieces
import AnnotatedYaml.Proofs.Comment.Analysis
import AnnotatedYaml.Proofs.Layout.CommentLines
import AnnotatedYaml.Proofs.Comment.Attached
import AnnotatedYaml.Proofs.Layout.BulletLines
import AnnotatedYaml.Proofs.Layout.Reachable
import AnnotatedYaml.Proofs.Layout.WriterLines
import AnnotatedYaml.Proofs.Layout.TidyLines
import AnnotatedYaml.Proofs.Tree.BuilderSafety
import AnnotatedYaml.Proofs.Tree.Traversals
import AnnotatedYaml.Proofs.Comment.Gaps
import AnnotatedYaml.Proofs.Text.Addressing
import AnnotatedYaml.Proofs.Layout.IndentDigits
