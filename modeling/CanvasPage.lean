import CanvasPage.Main
import CanvasPage.Proofs.Script.Matching
import CanvasPage.Proofs.ClassBlock.Scan
import CanvasPage.Proofs.Descriptor.Soundness
import CanvasPage.Proofs.Page.FixedPoint
import CanvasPage.Proofs.Page.Nesting
import CanvasPage.Proofs.Conversion.PlainMethods
import CanvasPage.Proofs.Procedure.Literals
import CanvasPage.Proofs.ClassBlock.RemarkedClass
import CanvasPage.Proofs.Storage.Place
import CanvasPage.Proofs.Storage.Session
import CanvasPage.Proofs.Batch.Accounts
import CanvasPage.Proofs.Batch.Frame
import CanvasPage.Proofs.ClassBlock.ClassBreaks
import CanvasPage.Proofs.Checked.Conversion
import CanvasPage.Proofs.Pattern.Capture
import CanvasPage.Proofs.Field.QuotedAttribute
import CanvasPage.Proofs.Field.ScriptReference
import CanvasPage.Proofs.Procedure.AssertionsLeft
import CanvasPage.Proofs.Procedure.Declarators
import CanvasPage.Proofs.Procedure.DefaultInitializer
import CanvasPage.Proofs.Procedure.This
import CanvasPage.Proofs.Pattern.Frame
import CanvasPage.Proofs.Procedure.Seam
import CanvasPage.Proofs.Procedure.Unfinished
import CanvasPage.Proofs.Procedure.CastBorder
import CanvasPage.Proofs.Procedure.CastTail
import CanvasPage.Proofs.Procedure.Depth
import CanvasPage.Proofs.Procedure.Reflow
import CanvasPage.Proofs.Procedure.CastMatch
import CanvasPage.Proofs.Procedure.OpenDeclaration
import CanvasPage.Proofs.Procedure.Cast
import CanvasPage.Proofs.Pattern.Front
import CanvasPage.Proofs.Procedure.TokenStart
import CanvasPage.Proofs.Procedure.WholeHeader
import CanvasPage.Proofs.Procedure.EmittedList
import CanvasPage.Proofs.Procedure.Printed
import CanvasPage.Proofs.Procedure.CallLine
import CanvasPage.Proofs.Procedure.NextLine
import CanvasPage.Proofs.Procedure.SuperCall
import CanvasPage.Proofs.ClassBlock.Placed
import CanvasPage.Proofs.Procedure.MemberOrder
import CanvasPage.Proofs.ClassBlock.CodeClasses
import CanvasPage.Proofs.ClassBlock.BrokenProperty
import CanvasPage.Proofs.Procedure.Settled
import CanvasPage.Proofs.Procedure.BlockScoping
import CanvasPage.Proofs.Conversion.Template
import CanvasPage.Proofs.Procedure.PrivateName
import CanvasPage.Proofs.Page.Entry
import CanvasPage.Proofs.Conversion.Owners
import CanvasPage.Proofs.Conversion.Attributes
import CanvasPage.Proofs.Field.Faithful
import CanvasPage.Proofs.Report.Explanation
import CanvasPage.Proofs.Report.Machine
import CanvasPage.Proofs.Config.Comments
import CanvasPage.Proofs.Report.Position
import CanvasPage.Proofs.Script.Partition
import CanvasPage.Proofs.Script.Locality
import CanvasPage.Proofs.Procedure.Dedented
