import HotaruMqtt.Library.Base128
import HotaruMqtt.Library.Cursor
import HotaruMqtt.Library.Grouping
import HotaruMqtt.Library.Incremental
import HotaruMqtt.Library.Keys
import HotaruMqtt.Library.Ranks
import HotaruMqtt.Library.Runs
import HotaruMqtt.Library.Separated
import HotaruMqtt.Library.Table
import HotaruMqtt.Wire.Bytes
import HotaruMqtt.Wire.Codec
import HotaruMqtt.Wire.Decoded
import HotaruMqtt.Wire.Error
import HotaruMqtt.Wire.Framing
import HotaruMqtt.Wire.Grammar
import HotaruMqtt.Wire.Layout
import HotaruMqtt.Wire.NormalForm
import HotaruMqtt.Wire.Packet
import HotaruMqtt.Wire.Properties
import HotaruMqtt.Wire.PropertyBlock
import HotaruMqtt.Wire.PropertyEncoder
import HotaruMqtt.Wire.PropertyGrammar
import HotaruMqtt.Wire.PropertyOrder
import HotaruMqtt.Wire.RoundTrip
import HotaruMqtt.Wire.Safety
import HotaruMqtt.Wire.Sequence
import HotaruMqtt.Wire.Stream
import HotaruMqtt.Wire.Strictness
import HotaruMqtt.Wire.Topic
import HotaruMqtt.Wire.TopicSyntax
import HotaruMqtt.Wire.VariableLength
import HotaruMqtt.Wire.WellFormed
import HotaruMqtt.Session.Arrival
import HotaruMqtt.Session.Channel
import HotaruMqtt.Session.Close
import HotaruMqtt.Session.Drain
import HotaruMqtt.Session.PacketId
import HotaruMqtt.Session.State
import HotaruMqtt.Broker.Forwarding
import HotaruMqtt.Broker.Matching
import HotaruMqtt.Broker.Mirror
import HotaruMqtt.Broker.PlainTopics
import HotaruMqtt.Broker.Reference
import HotaruMqtt.Broker.Store
import HotaruMqtt.Protocol.AckLeaks
import HotaruMqtt.Protocol.AckNoise
import HotaruMqtt.Protocol.Acknowledgements
import HotaruMqtt.Protocol.Agreement
import HotaruMqtt.Protocol.Answers
import HotaruMqtt.Protocol.AssignedIds
import HotaruMqtt.Protocol.Client
import HotaruMqtt.Protocol.Connected
import HotaruMqtt.Protocol.Connections
import HotaruMqtt.Protocol.Deliveries
import HotaruMqtt.Protocol.Dispatch
import HotaruMqtt.Protocol.EndToEnd
import HotaruMqtt.Protocol.Exchange
import HotaruMqtt.Protocol.Fanouts
import HotaruMqtt.Protocol.Greeting
import HotaruMqtt.Protocol.Handover
import HotaruMqtt.Protocol.Handshake
import HotaruMqtt.Protocol.Inbound
import HotaruMqtt.Protocol.Inflight
import HotaruMqtt.Protocol.Instance
import HotaruMqtt.Protocol.Lifetime
import HotaruMqtt.Protocol.Link
import HotaruMqtt.Protocol.Operations
import HotaruMqtt.Protocol.Ownership
import HotaruMqtt.Protocol.Progress
import HotaruMqtt.Protocol.PublisherOrder
import HotaruMqtt.Protocol.Responses
import HotaruMqtt.Protocol.Server
import HotaruMqtt.Protocol.Ticks
import HotaruMqtt.Protocol.TopicNames
import HotaruMqtt.Protocol.Wills
