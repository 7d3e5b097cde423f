import EnvelopeClient.Connection.Session
import EnvelopeClient.Main
import EnvelopeClient.Proofs.Client.Slots
import EnvelopeClient.Proofs.Client.Sole
import EnvelopeClient.Proofs.Client.Timeouts
import EnvelopeClient.Proofs.Config.Schema
import EnvelopeClient.Proofs.Connection.Lines
import EnvelopeClient.Proofs.Control.Signals
import EnvelopeClient.Proofs.Mirror.RoundTrip
import EnvelopeClient.Proofs.Frame.Cuts
import EnvelopeClient.Proofs.Frame.Grammar
import EnvelopeClient.Proofs.Frame.Lookahead
import EnvelopeClient.Proofs.Frame.Progress
import EnvelopeClient.Proofs.Frame.Restart
import EnvelopeClient.Proofs.Frame.Retained
import EnvelopeClient.Proofs.Frame.Sent
import EnvelopeClient.Proofs.Frame.SingleLine
import EnvelopeClient.Proofs.Frame.Stream
import EnvelopeClient.Proofs.Frame.Truncation
import EnvelopeClient.Proofs.Inquiry.FirstArrival
import EnvelopeClient.Proofs.Inquiry.HangUp
import EnvelopeClient.Proofs.Reception.Dispatch
import EnvelopeClient.Proofs.Service.Attribution
import EnvelopeClient.Proofs.Succession.LateAnswers
import EnvelopeClient.Proofs.Writers.Breaking
import EnvelopeClient.Proofs.Writers.Closing
