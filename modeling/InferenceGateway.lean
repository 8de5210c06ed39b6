import InferenceGateway.Main
import InferenceGateway.Server.Session
import InferenceGateway.Proofs.Reading
import InferenceGateway.Proofs.Substitution
import InferenceGateway.Proofs.Text
import InferenceGateway.Proofs.PercentSpelling
import InferenceGateway.Proofs.JsonText
import InferenceGateway.Proofs.Chunking
import InferenceGateway.Proofs.Framing
import InferenceGateway.Proofs.FieldReading
import InferenceGateway.Proofs.EventReading
import InferenceGateway.Proofs.FragmentReading
import InferenceGateway.Proofs.Exchanges
import InferenceGateway.Proofs.StreamRelay
import InferenceGateway.Proofs.EventTranslation
import InferenceGateway.Proofs.JsonReading
import InferenceGateway.Proofs.RecordReading
import InferenceGateway.Proofs.PageToken
import InferenceGateway.Proofs.Pagination
import InferenceGateway.Proofs.Reloading
import InferenceGateway.Proofs.Reachability
import InferenceGateway.Proofs.ReloadCounting
import InferenceGateway.Proofs.AllowedMethods
import InferenceGateway.Proofs.Secrecy
import InferenceGateway.Proofs.Chaining
import InferenceGateway.Proofs.Invocation
import InferenceGateway.Proofs.Failures
import InferenceGateway.Proofs.TaskAddress
import InferenceGateway.Proofs.SentRequests
import InferenceGateway.Proofs.InvocationCounting
import InferenceGateway.Proofs.TextPayloads
import InferenceGateway.Proofs.ConvertedRequests
import InferenceGateway.Proofs.StreamEnding
import InferenceGateway.Proofs.ObjectReading
import InferenceGateway.Proofs.AnswerAgreement
import InferenceGateway.Proofs.JsonTrees
import InferenceGateway.Proofs.KeptMembers
import InferenceGateway.Proofs.PassedPayloads
import InferenceGateway.Proofs.TokenQueries
import InferenceGateway.Proofs.PathGrammar
import InferenceGateway.Proofs.JsonGrammar
import InferenceGateway.Proofs.JsonScanning
import InferenceGateway.Proofs.JsonLexing
import InferenceGateway.Proofs.JsonRecognition
import InferenceGateway.Proofs.AcceptedTokens
import InferenceGateway.Proofs.Loading
import InferenceGateway.Proofs.RouteViews
import InferenceGateway.Proofs.FilledDocuments
import InferenceGateway.Proofs.ComparedReading
import InferenceGateway.Proofs.StreamChoice
import InferenceGateway.Proofs.RespelledRecords
import InferenceGateway.Proofs.KeySpellings
