import BaturWhatsApi.ByteStrings
import BaturWhatsApi.PositionalReaders
import BaturWhatsApi.TokenDictionary
import BaturWhatsApi.DefaultTokens
import BaturWhatsApi.NodeEncoder
import BaturWhatsApi.DecoderLocality
import BaturWhatsApi.NodeRoundTrip
import BaturWhatsApi.DecodedReencoding
import BaturWhatsApi.ProtobufMessages
import BaturWhatsApi.SessionSetup
import BaturWhatsApi.RatchetSteps
import BaturWhatsApi.SessionAgreement
import BaturWhatsApi.RejectedEnvelopes
import BaturWhatsApi.ReplayFreedom
import BaturWhatsApi.InitAuthenticity
import BaturWhatsApi.RatchetDelivery
import BaturWhatsApi.SendText
import BaturWhatsApi.NoiseAgreement
import BaturWhatsApi.SessionFrames
import BaturWhatsApi.SessionRequests
import BaturWhatsApi.SyncSnapshot
import BaturWhatsApi.WebSocketMessages
import BaturWhatsApi.StoppedUpdates
import BaturWhatsApi.SharedStorage
import BaturWhatsApi.SecureStore
import BaturWhatsApi.EventBusAccounting
import BaturWhatsApi.EventBusOrder
import BaturWhatsApi.EventBusWaiting
import BaturWhatsApi.Base32
import BaturWhatsApi.JsonStrings
import BaturWhatsApi.X25519
import BaturWhatsApi.FinishPayload
import BaturWhatsApi.StateMachine
import BaturWhatsApi.SessionLifecycle
import BaturWhatsApi.SessionChannels
import BaturWhatsApi.SingleStart
import BaturWhatsApi.SessionConnections
import BaturWhatsApi.SessionErrors
import BaturWhatsApi.SessionStop
import BaturWhatsApi.RatchetPersistence
import BaturWhatsApi.SkipBudget
import BaturWhatsApi.HistoryEvents
import BaturWhatsApi.HistoryLogs
import BaturWhatsApi.AckOrder
import BaturWhatsApi.HistoryPaging
import BaturWhatsApi.TransitionHistory
import BaturWhatsApi.TransitionWatchers
import BaturWhatsApi.FleetHealth
import BaturWhatsApi.Decimal
import BaturWhatsApi.Encodability
import BaturWhatsApi.UnencodableSends
import BaturWhatsApi.JidRoundTrips
import BaturWhatsApi.EnvelopeWire
import BaturWhatsApi.Fallible
import BaturWhatsApi.CertificateChains
import BaturWhatsApi.JsonValues
import BaturWhatsApi.IqBridge
import BaturWhatsApi.Traces
import BaturWhatsApi.EventBridge
import BaturWhatsApi.MessageTimes
import BaturWhatsApi.Hkdf
import BaturWhatsApi.Backoff
import BaturWhatsApi.DecoderTotality
import BaturWhatsApi.SyncProgress
import BaturWhatsApi.ServerShutdown
import BaturWhatsApi.Intruder
import BaturWhatsApi.KeyErasure
import BaturWhatsApi.SessionSecrecy
import BaturWhatsApi.TextRelay
import BaturWhatsApi.TextLedger
import BaturWhatsApi.RelayedMessages
import BaturWhatsApi.RelayedTexts
import BaturWhatsApi.HandshakeFrames
import BaturWhatsApi.Login
import BaturWhatsApi.LoginTranscripts
import BaturWhatsApi.TranscriptSuite
import BaturWhatsApi.LoginCompletion
import BaturWhatsApi.LoginAuthentication
import BaturWhatsApi.TransportPipe
import BaturWhatsApi.SocketLink
import BaturWhatsApi.SocketDelivery
import BaturWhatsApi.LoginTraffic
import BaturWhatsApi.TrafficAuthentication
import BaturWhatsApi.CredentialRestarts
import BaturWhatsApi.Utf8Runes
import BaturWhatsApi.JsonTexts
import BaturWhatsApi.StarvedTargets
