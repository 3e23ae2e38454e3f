import TypeAtlas.ClassFile.Writer
import TypeAtlas.Main
import TypeAtlas.Proofs.ClassFile.RoundTrip
import TypeAtlas.Proofs.Entering.OrderIndependence
import TypeAtlas.Proofs.Entering.Rejection
import TypeAtlas.Proofs.Query.Instances
import TypeAtlas.Proofs.Entering.Naming
import TypeAtlas.Proofs.Entering.Growth
import TypeAtlas.Proofs.Survey.Reconciling
import TypeAtlas.Proofs.Signature.Grammar
import TypeAtlas.Proofs.Signature.Reading
import TypeAtlas.Proofs.Signature.Recognition
import TypeAtlas.Proofs.Signature.Translation
import TypeAtlas.Proofs.Entering.Merging
import TypeAtlas.Proofs.Entering.Problems
import TypeAtlas.Proofs.Entering.Definitions
import TypeAtlas.Proofs.ClassFile.Delimiting
import TypeAtlas.Proofs.Entering.Skipping
import TypeAtlas.Proofs.Query.Members
import TypeAtlas.Proofs.Query.Resolution
import TypeAtlas.Proofs.Store.Permanence
import TypeAtlas.Proofs.Survey.Surveying
import TypeAtlas.Proofs.Query.Catalog
import TypeAtlas.Proofs.Entering.Repetition
import TypeAtlas.Proofs.Entering.Drafts
import TypeAtlas.Proofs.Entering.Comparison
import TypeAtlas.Proofs.Entering.SettingsEffect
import TypeAtlas.Proofs.Entering.AnnotationValues
import TypeAtlas.Proofs.Entering.Retention
import TypeAtlas.Proofs.Entering.Fallback
import TypeAtlas.Proofs.Entering.PlainSignatures
import TypeAtlas.Proofs.Query.Traversal
import TypeAtlas.Proofs.Query.Annotated
import TypeAtlas.Proofs.Survey.Worklist
import TypeAtlas.Proofs.Entering.Protocol
import TypeAtlas.Proofs.Entering.Unkept
import TypeAtlas.Proofs.Entering.ParameterTables
import TypeAtlas.Proofs.Survey.Termination
import TypeAtlas.Proofs.Descriptor.Pieces
import TypeAtlas.Proofs.ClassFile.Texts
import TypeAtlas.Proofs.ClassFile.UnknownAttributes
import TypeAtlas.Proofs.ClassFile.Requests
import TypeAtlas.Proofs.Survey.Archives
import TypeAtlas.Proofs.Survey.Directories
import TypeAtlas.Proofs.Survey.Trails
import TypeAtlas.Proofs.Query.Shown
import TypeAtlas.Proofs.Bytewise.Readers
