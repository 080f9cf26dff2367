import SceneExport.Action.Basic
import SceneExport.Action.Codec
import SceneExport.Action.Optimize
import SceneExport.Action.Playable
import SceneExport.Bake.Action
import SceneExport.Bake.Armature
import SceneExport.Bake.Codec
import SceneExport.Bake.Config
import SceneExport.Bake.Error
import SceneExport.Bake.FrameRange
import SceneExport.Bake.Vertex
import SceneExport.Bytes.Base64
import SceneExport.Bytes.Basic
import SceneExport.Bytes.Sha256
import SceneExport.Config
import SceneExport.Curve.Basic
import SceneExport.Curve.Evaluate
import SceneExport.Curve.Optimize
import SceneExport.Decimal.Binary
import SceneExport.Decimal.Layout
import SceneExport.Decimal.Literal
import SceneExport.Decimal.Shortest
import SceneExport.Export.Action
import SceneExport.Export.Climb
import SceneExport.Export.Context
import SceneExport.Export.Error
import SceneExport.Export.Scene
import SceneExport.Export.Walk
import SceneExport.Export.Write
import SceneExport.Files.Basic
import SceneExport.Files.Disk
import SceneExport.Html.Bundle
import SceneExport.Html.MetaTag
import SceneExport.Html.Player
import SceneExport.Identity
import SceneExport.Json.Codec
import SceneExport.Json.Reader
import SceneExport.Json.Tree
import SceneExport.Json.Value
import SceneExport.Keyframes
import SceneExport.Main
import SceneExport.Manifest.Basic
import SceneExport.Manifest.Codec
import SceneExport.Matrix.Basic
import SceneExport.Matrix.Inverse
import SceneExport.Matrix.Rotation
import SceneExport.Matrix.Transform
import SceneExport.Messages
import SceneExport.Path
import SceneExport.Pose.Evaluator
import SceneExport.Pose.Local
import SceneExport.Pose.Recording
import SceneExport.Pose.Rig
import SceneExport.Project.Basic
import SceneExport.Project.Codec
import SceneExport.Rounding
import SceneExport.Scalar
import SceneExport.Search
import SceneExport.Sections
import SceneExport.Skeleton
import SceneExport.Skeleton.Codec
import SceneExport.Template
import SceneExport.Text.Basic
import SceneExport.Text.CaseIgnorable
import SceneExport.Text.Cased
import SceneExport.Text.Lowercase
import SceneExport.Tool.Arguments
import SceneExport.Tool.Bake
import SceneExport.Tool.Command
import SceneExport.Tool.Config
import SceneExport.Tool.Error
import SceneExport.Tool.Location
import SceneExport.Tool.Reexport
import SceneExport.Tool.SceneFile
import SceneExport.Version
import SceneExport.Proofs.Walk.Blocks
import SceneExport.Proofs.Walk.Run
import SceneExport.Proofs.Walk.Stepwise
import SceneExport.Proofs.Walk.Tour
import SceneExport.Proofs.Walk.Objects
import SceneExport.Proofs.Walk.Reach
import SceneExport.Proofs.Walk.Closure
import SceneExport.Proofs.Walk.Ledger
import SceneExport.Proofs.Walk.Readback
import SceneExport.Proofs.Action.Optimize
import SceneExport.Proofs.Action.Library
import SceneExport.Proofs.Action.Pruning
import SceneExport.Proofs.Bake.Independence
import SceneExport.Proofs.Bake.Rebake
import SceneExport.Proofs.Bake.Schedule
import SceneExport.Proofs.Bake.Shape
import SceneExport.Proofs.Bake.Hemisphere
import SceneExport.Proofs.Bake.Vertices
import SceneExport.Proofs.Bake.Deforming
import SceneExport.Proofs.Curve.Fidelity
import SceneExport.Proofs.Curve.Drift
import SceneExport.Proofs.Matrix.Inverse
import SceneExport.Proofs.Pose.Reconstruction
import SceneExport.Proofs.Pose.Absence
import SceneExport.Proofs.Pose.Settings
import SceneExport.Proofs.Sections.Stored
import SceneExport.Proofs.Sections.Curves
import SceneExport.Proofs.Path.Lookup
import SceneExport.Proofs.Path.Normalize
import SceneExport.Proofs.Path.Relative
import SceneExport.Proofs.Sections.Channels
import SceneExport.Proofs.Tool.Playback
import SceneExport.Proofs.Tool.Skipping
import SceneExport.Proofs.Files.Contents
import SceneExport.Proofs.Files.Rollback
import SceneExport.Proofs.Bytes.Base64
import SceneExport.Proofs.Json.Spelling
import SceneExport.Proofs.Walk.Relation
import SceneExport.Proofs.Walk.Media
import SceneExport.Proofs.Walk.Elsewhere
import SceneExport.Proofs.Files.Complete
import SceneExport.Proofs.Html.Backlink
import SceneExport.Proofs.Html.Table
import SceneExport.Proofs.Decimal.Digits
import SceneExport.Proofs.Files.Keeping
import SceneExport.Proofs.Files.Shelf
import SceneExport.Proofs.Json.Numbers
import SceneExport.Proofs.Json.Reading
import SceneExport.Proofs.Json.Roundtrip
import SceneExport.Proofs.Manifest.Header
import SceneExport.Proofs.Project.Roundtrip
import SceneExport.Proofs.Tool.Reexport
import SceneExport.Proofs.Walk.Confusion
import SceneExport.Proofs.Manifest.Roundtrip
import SceneExport.Proofs.Html.History
import SceneExport.Proofs.Html.ClosingTag
import SceneExport.Proofs.Walk.Hidden
import SceneExport.Proofs.Walk.Sharing
import SceneExport.Proofs.Walk.Chronicle
import SceneExport.Proofs.Walk.Tolerance
import SceneExport.Proofs.Html.Report
import SceneExport.Proofs.Template.Grammar
import SceneExport.Proofs.Keyframes.Frames
import SceneExport.Proofs.Walk.Rectangle
import SceneExport.Proofs.Rounding.Order
import SceneExport.Proofs.Rounding.Monotone
import SceneExport.Proofs.Rounding.Nearest
import SceneExport.Proofs.Rounding.Whole
import SceneExport.Proofs.Rounding.Negation
import SceneExport.Proofs.Keyframes.Reading
import SceneExport.Proofs.Path.Drives
import SceneExport.Proofs.Sections.Interleaving
import SceneExport.Proofs.Curve.Insertion
import SceneExport.Proofs.Curve.Inside
import SceneExport.Proofs.Curve.Solution
import SceneExport.Proofs.Manifest.Agreement
import SceneExport.Proofs.Walk.Nesting
import SceneExport.Proofs.Html.Scanning
