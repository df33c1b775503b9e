import RabbitClient.Library.Lts
import RabbitClient.Library.RedisStore
import RabbitClient.Library.OrderedMap
import RabbitClient.Library.UnorderedMap
import RabbitClient.Library.Bytes
import RabbitClient.Library.BigEndian
import RabbitClient.Library.CyclicTable
import RabbitClient.Library.Blocks
import RabbitClient.Library.Arena
import RabbitClient.Library.Broker
import RabbitClient.Library.Json
import RabbitClient.Library.JsonRules
import RabbitClient.Library.Calendar
import RabbitClient.Library.RegexReplace
import RabbitClient.Library.Binary64
import RabbitClient.Library.PercentCoding
import RabbitClient.Library.FileSystem
import RabbitClient.Library.PosixShell
import RabbitClient.Library.PosixArguments
import RabbitClient.Redis.LockRaces
import RabbitClient.Redis.LockProgress
import RabbitClient.Redis.LockRelease
import RabbitClient.Redis.ClientList
import RabbitClient.Redis.ClientDecoding
import RabbitClient.Redis.UniqueName
import RabbitClient.Redis.HashFields
import RabbitClient.Redis.KeyScan
import RabbitClient.Redis.XInfo
import RabbitClient.MapExpires.Container
import RabbitClient.MapExpires.Sweep
import RabbitClient.MapExpires.Bookkeeping
import RabbitClient.MapExpires.Delivery
import RabbitClient.MapExpires.NormalForm
import RabbitClient.Broker.Message
import RabbitClient.Broker.Declaration
import RabbitClient.Broker.Publication
import RabbitClient.Broker.Rpc
import RabbitClient.Broker.InFlight
import RabbitClient.Broker.Agreement
import RabbitClient.Broker.Rounds
import RabbitClient.Broker.Handover
import RabbitClient.Broker.Feedback
import RabbitClient.Broker.Pool
import RabbitClient.Broker.PoolMemory
import RabbitClient.Broker.Headers
import RabbitClient.Broker.Recognition
import RabbitClient.Broker.WaitLoop
import RabbitClient.Broker.Answer
import RabbitClient.Broker.Lifetime
import RabbitClient.Broker.Discipline
import RabbitClient.Broker.MessageText
import RabbitClient.Web.Session
import RabbitClient.Web.Notification
import RabbitClient.Web.Exchange
import RabbitClient.Web.Subscriptions
import RabbitClient.Odbc.Connect
import RabbitClient.Odbc.Reconnect
import RabbitClient.Odbc.Statement
import RabbitClient.Odbc.Clearing
import RabbitClient.Odbc.Binding
import RabbitClient.Odbc.FailedBind
import RabbitClient.Odbc.BoundValues
import RabbitClient.Config.Agent
import RabbitClient.Config.Updates
import RabbitClient.Config.Scheduler
import RabbitClient.Config.Lookup
import RabbitClient.StringUtils.Split
import RabbitClient.StringUtils.ToStringJson
import RabbitClient.StringUtils.JsonFaithful
import RabbitClient.StringUtils.JsonExact
import RabbitClient.StringUtils.Trimming
import RabbitClient.StringUtils.Header
import RabbitClient.StringUtils.Timestamp
import RabbitClient.StringUtils.TimeZones
import RabbitClient.StringUtils.TimeText
import RabbitClient.StringUtils.PadDigits
import RabbitClient.StringUtils.Normalised
import RabbitClient.StringUtils.SplitJoin
import RabbitClient.StringUtils.UrlEncode
import RabbitClient.SystemUtils.CompressCommand
import RabbitClient.SystemUtils.Rotation
import RabbitClient.Amqp.BaseTypes
import RabbitClient.Amqp.FieldTable
import RabbitClient.Amqp.TableFormat
import RabbitClient.Amqp.TableDecoding
import RabbitClient.Amqp.TableRoundTrip
import RabbitClient.Amqp.Fields
import RabbitClient.Amqp.Framing
import RabbitClient.Amqp.MethodRoundTrip
import RabbitClient.Amqp.PropertyRoundTrip
import RabbitClient.Amqp.Frames
import RabbitClient.Amqp.FrameStream
import RabbitClient.Amqp.FrameBytes
import RabbitClient.Amqp.FrameRoundTrip
import RabbitClient.Amqp.Clock
import RabbitClient.Amqp.Ledger
import RabbitClient.Amqp.Waiting
import RabbitClient.Amqp.Quiet
import RabbitClient.Amqp.Delivery
import RabbitClient.Amqp.Sending
import RabbitClient.Amqp.Publish
import RabbitClient.Amqp.Messages
import RabbitClient.Amqp.Assembly
import RabbitClient.Amqp.Consuming
import RabbitClient.Amqp.Session
import RabbitClient.Amqp.Capabilities
