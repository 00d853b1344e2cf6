import ClientGen.Main
import ClientGen.Proofs.AuthDispatch
import ClientGen.Proofs.Docstrings
import ClientGen.Proofs.FollowedReferences
import ClientGen.Proofs.ForwardReference
import ClientGen.Proofs.ImportJournal
import ClientGen.Proofs.LegalNames
import ClientGen.Proofs.LineDiscipline
import ClientGen.Proofs.LookupMarks
import ClientGen.Proofs.MemberIndex
import ClientGen.Proofs.NaturalOrder
import ClientGen.Proofs.NestedColumns
import ClientGen.Proofs.PackageDescription
import ClientGen.Proofs.ProtocolChoice
import ClientGen.Proofs.PrunedModel
import ClientGen.Proofs.TemplateUse
import ClientGen.Proofs.TimestampDefaults
import ClientGen.Proofs.TransferFunctions
import ClientGen.Workspace
