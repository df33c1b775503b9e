import RabbitClient.Amqp.Fields

/-! The methods of the protocol: their numbers and the fields of their arguments. -/
namespace RabbitClient.Amqp

def AMQP_CONNECTION_START_METHOD : UInt32 := 0x000A000A

def amqp_connection_start_t : List Field :=
  [.octet "version_major", .octet "version_minor", .table "server_properties",
    .longstr "mechanisms", .longstr "locales"]

def AMQP_CONNECTION_START_OK_METHOD : UInt32 := 0x000A000B

def amqp_connection_start_ok_t : List Field :=
  [.table "client_properties", .shortstr "mechanism", .longstr "response", .shortstr "locale"]

def AMQP_CONNECTION_SECURE_METHOD : UInt32 := 0x000A0014

def amqp_connection_secure_t : List Field := [.longstr "challenge"]

def AMQP_CONNECTION_SECURE_OK_METHOD : UInt32 := 0x000A0015

def amqp_connection_secure_ok_t : List Field := [.longstr "response"]

def AMQP_CONNECTION_TUNE_METHOD : UInt32 := 0x000A001E

def amqp_connection_tune_t : List Field :=
  [.short "channel_max", .long "frame_max", .short "heartbeat"]

def AMQP_CONNECTION_TUNE_OK_METHOD : UInt32 := 0x000A001F

def amqp_connection_tune_ok_t : List Field :=
  [.short "channel_max", .long "frame_max", .short "heartbeat"]

def AMQP_CONNECTION_OPEN_METHOD : UInt32 := 0x000A0028

def amqp_connection_open_t : List Field :=
  [.shortstr "virtual_host", .shortstr "capabilities", .group ["insist"]]

def AMQP_CONNECTION_OPEN_OK_METHOD : UInt32 := 0x000A0029

def amqp_connection_open_ok_t : List Field := [.shortstr "known_hosts"]

def AMQP_CONNECTION_CLOSE_METHOD : UInt32 := 0x000A0032

def amqp_connection_close_t : List Field :=
  [.short "reply_code", .shortstr "reply_text", .short "class_id", .short "method_id"]

def AMQP_CONNECTION_CLOSE_OK_METHOD : UInt32 := 0x000A0033

def amqp_connection_close_ok_t : List Field := []

def AMQP_CONNECTION_BLOCKED_METHOD : UInt32 := 0x000A003C

def amqp_connection_blocked_t : List Field := [.shortstr "reason"]

def AMQP_CONNECTION_UNBLOCKED_METHOD : UInt32 := 0x000A003D

def amqp_connection_unblocked_t : List Field := []

def AMQP_CONNECTION_UPDATE_SECRET_METHOD : UInt32 := 0x000A0046

def amqp_connection_update_secret_t : List Field := [.longstr "new_secret", .shortstr "reason"]

def AMQP_CONNECTION_UPDATE_SECRET_OK_METHOD : UInt32 := 0x000A0047

def amqp_connection_update_secret_ok_t : List Field := []

def AMQP_CHANNEL_OPEN_METHOD : UInt32 := 0x0014000A

def amqp_channel_open_t : List Field := [.shortstr "out_of_band"]

def AMQP_CHANNEL_OPEN_OK_METHOD : UInt32 := 0x0014000B

def amqp_channel_open_ok_t : List Field := [.longstr "channel_id"]

def AMQP_CHANNEL_FLOW_METHOD : UInt32 := 0x00140014

def amqp_channel_flow_t : List Field := [.group ["active"]]

def AMQP_CHANNEL_FLOW_OK_METHOD : UInt32 := 0x00140015

def amqp_channel_flow_ok_t : List Field := [.group ["active"]]

def AMQP_CHANNEL_CLOSE_METHOD : UInt32 := 0x00140028

def amqp_channel_close_t : List Field :=
  [.short "reply_code", .shortstr "reply_text", .short "class_id", .short "method_id"]

def AMQP_CHANNEL_CLOSE_OK_METHOD : UInt32 := 0x00140029

def amqp_channel_close_ok_t : List Field := []

def AMQP_ACCESS_REQUEST_METHOD : UInt32 := 0x001E000A

def amqp_access_request_t : List Field :=
  [.shortstr "realm", .group ["exclusive", "passive", "active", "write", "read"]]

def AMQP_ACCESS_REQUEST_OK_METHOD : UInt32 := 0x001E000B

def amqp_access_request_ok_t : List Field := [.short "ticket"]

def AMQP_EXCHANGE_DECLARE_METHOD : UInt32 := 0x0028000A

def amqp_exchange_declare_t : List Field :=
  [.short "ticket", .shortstr "exchange", .shortstr "type",
    .group ["passive", "durable", "auto_delete", "internal", "nowait"],
    .table "arguments"]

def AMQP_EXCHANGE_DECLARE_OK_METHOD : UInt32 := 0x0028000B

def amqp_exchange_declare_ok_t : List Field := []

def AMQP_EXCHANGE_DELETE_METHOD : UInt32 := 0x00280014

def amqp_exchange_delete_t : List Field :=
  [.short "ticket", .shortstr "exchange", .group ["if_unused", "nowait"]]

def AMQP_EXCHANGE_DELETE_OK_METHOD : UInt32 := 0x00280015

def amqp_exchange_delete_ok_t : List Field := []

def AMQP_EXCHANGE_BIND_METHOD : UInt32 := 0x0028001E

def amqp_exchange_bind_t : List Field :=
  [.short "ticket", .shortstr "destination", .shortstr "source", .shortstr "routing_key",
    .group ["nowait"], .table "arguments"]

def AMQP_EXCHANGE_BIND_OK_METHOD : UInt32 := 0x0028001F

def amqp_exchange_bind_ok_t : List Field := []

def AMQP_EXCHANGE_UNBIND_METHOD : UInt32 := 0x00280028

def amqp_exchange_unbind_t : List Field :=
  [.short "ticket", .shortstr "destination", .shortstr "source", .shortstr "routing_key",
    .group ["nowait"], .table "arguments"]

def AMQP_EXCHANGE_UNBIND_OK_METHOD : UInt32 := 0x00280033

def amqp_exchange_unbind_ok_t : List Field := []

def AMQP_QUEUE_DECLARE_METHOD : UInt32 := 0x0032000A

def amqp_queue_declare_t : List Field :=
  [.short "ticket", .shortstr "queue",
    .group ["passive", "durable", "exclusive", "auto_delete", "nowait"],
    .table "arguments"]

def AMQP_QUEUE_DECLARE_OK_METHOD : UInt32 := 0x0032000B

def amqp_queue_declare_ok_t : List Field :=
  [.shortstr "queue", .long "message_count", .long "consumer_count"]

def AMQP_QUEUE_BIND_METHOD : UInt32 := 0x00320014

def amqp_queue_bind_t : List Field :=
  [.short "ticket", .shortstr "queue", .shortstr "exchange", .shortstr "routing_key",
    .group ["nowait"], .table "arguments"]

def AMQP_QUEUE_BIND_OK_METHOD : UInt32 := 0x00320015

def amqp_queue_bind_ok_t : List Field := []

def AMQP_QUEUE_PURGE_METHOD : UInt32 := 0x0032001E

def amqp_queue_purge_t : List Field :=
  [.short "ticket", .shortstr "queue", .group ["nowait"]]

def AMQP_QUEUE_PURGE_OK_METHOD : UInt32 := 0x0032001F

def amqp_queue_purge_ok_t : List Field := [.long "message_count"]

def AMQP_QUEUE_DELETE_METHOD : UInt32 := 0x00320028

def amqp_queue_delete_t : List Field :=
  [.short "ticket", .shortstr "queue", .group ["if_unused", "if_empty", "nowait"]]

def AMQP_QUEUE_DELETE_OK_METHOD : UInt32 := 0x00320029

def amqp_queue_delete_ok_t : List Field := [.long "message_count"]

def AMQP_QUEUE_UNBIND_METHOD : UInt32 := 0x00320032

def amqp_queue_unbind_t : List Field :=
  [.short "ticket", .shortstr "queue", .shortstr "exchange", .shortstr "routing_key",
    .table "arguments"]

def AMQP_QUEUE_UNBIND_OK_METHOD : UInt32 := 0x00320033

def amqp_queue_unbind_ok_t : List Field := []

def AMQP_BASIC_QOS_METHOD : UInt32 := 0x003C000A

def amqp_basic_qos_t : List Field :=
  [.long "prefetch_size", .short "prefetch_count", .group ["global"]]

def AMQP_BASIC_QOS_OK_METHOD : UInt32 := 0x003C000B

def amqp_basic_qos_ok_t : List Field := []

def AMQP_BASIC_CONSUME_METHOD : UInt32 := 0x003C0014

def amqp_basic_consume_t : List Field :=
  [.short "ticket", .shortstr "queue", .shortstr "consumer_tag",
    .group ["no_local", "no_ack", "exclusive", "nowait"], .table "arguments"]

def AMQP_BASIC_CONSUME_OK_METHOD : UInt32 := 0x003C0015

def amqp_basic_consume_ok_t : List Field := [.shortstr "consumer_tag"]

def AMQP_BASIC_CANCEL_METHOD : UInt32 := 0x003C001E

def amqp_basic_cancel_t : List Field := [.shortstr "consumer_tag", .group ["nowait"]]

def AMQP_BASIC_CANCEL_OK_METHOD : UInt32 := 0x003C001F

def amqp_basic_cancel_ok_t : List Field := [.shortstr "consumer_tag"]

def AMQP_BASIC_PUBLISH_METHOD : UInt32 := 0x003C0028

def amqp_basic_publish_t : List Field :=
  [.short "ticket", .shortstr "exchange", .shortstr "routing_key",
    .group ["mandatory", "immediate"]]

def AMQP_BASIC_RETURN_METHOD : UInt32 := 0x003C0032

def amqp_basic_return_t : List Field :=
  [.short "reply_code", .shortstr "reply_text", .shortstr "exchange", .shortstr "routing_key"]

def AMQP_BASIC_DELIVER_METHOD : UInt32 := 0x003C003C

def amqp_basic_deliver_t : List Field :=
  [.shortstr "consumer_tag", .longlong "delivery_tag", .group ["redelivered"],
    .shortstr "exchange", .shortstr "routing_key"]

def AMQP_BASIC_GET_METHOD : UInt32 := 0x003C0046

def amqp_basic_get_t : List Field :=
  [.short "ticket", .shortstr "queue", .group ["no_ack"]]

def AMQP_BASIC_GET_OK_METHOD : UInt32 := 0x003C0047

def amqp_basic_get_ok_t : List Field :=
  [.longlong "delivery_tag", .group ["redelivered"], .shortstr "exchange",
    .shortstr "routing_key", .long "message_count"]

def AMQP_BASIC_GET_EMPTY_METHOD : UInt32 := 0x003C0048

def amqp_basic_get_empty_t : List Field := [.shortstr "cluster_id"]

def AMQP_BASIC_ACK_METHOD : UInt32 := 0x003C0050

def amqp_basic_ack_t : List Field := [.longlong "delivery_tag", .group ["multiple"]]

def AMQP_BASIC_REJECT_METHOD : UInt32 := 0x003C005A

def amqp_basic_reject_t : List Field := [.longlong "delivery_tag", .group ["requeue"]]

def AMQP_BASIC_RECOVER_ASYNC_METHOD : UInt32 := 0x003C0064

def amqp_basic_recover_async_t : List Field := [.group ["requeue"]]

def AMQP_BASIC_RECOVER_METHOD : UInt32 := 0x003C006E

def amqp_basic_recover_t : List Field := [.group ["requeue"]]

def AMQP_BASIC_RECOVER_OK_METHOD : UInt32 := 0x003C006F

def amqp_basic_recover_ok_t : List Field := []

def AMQP_BASIC_NACK_METHOD : UInt32 := 0x003C0078

def amqp_basic_nack_t : List Field :=
  [.longlong "delivery_tag", .group ["multiple", "requeue"]]

def AMQP_TX_SELECT_METHOD : UInt32 := 0x005A000A

def amqp_tx_select_t : List Field := []

def AMQP_TX_SELECT_OK_METHOD : UInt32 := 0x005A000B

def amqp_tx_select_ok_t : List Field := []

def AMQP_TX_COMMIT_METHOD : UInt32 := 0x005A0014

def amqp_tx_commit_t : List Field := []

def AMQP_TX_COMMIT_OK_METHOD : UInt32 := 0x005A0015

def amqp_tx_commit_ok_t : List Field := []

def AMQP_TX_ROLLBACK_METHOD : UInt32 := 0x005A001E

def amqp_tx_rollback_t : List Field := []

def AMQP_TX_ROLLBACK_OK_METHOD : UInt32 := 0x005A001F

def amqp_tx_rollback_ok_t : List Field := []

def AMQP_CONFIRM_SELECT_METHOD : UInt32 := 0x0055000A

def amqp_confirm_select_t : List Field := [.group ["nowait"]]

def AMQP_CONFIRM_SELECT_OK_METHOD : UInt32 := 0x0055000B

def amqp_confirm_select_ok_t : List Field := []

/-- The cases of `amqp_decode_method` and of `amqp_encode_method`. -/
def methods : List (UInt32 × List Field) :=
  [(AMQP_CONNECTION_START_METHOD, amqp_connection_start_t),
   (AMQP_CONNECTION_START_OK_METHOD, amqp_connection_start_ok_t),
   (AMQP_CONNECTION_SECURE_METHOD, amqp_connection_secure_t),
   (AMQP_CONNECTION_SECURE_OK_METHOD, amqp_connection_secure_ok_t),
   (AMQP_CONNECTION_TUNE_METHOD, amqp_connection_tune_t),
   (AMQP_CONNECTION_TUNE_OK_METHOD, amqp_connection_tune_ok_t),
   (AMQP_CONNECTION_OPEN_METHOD, amqp_connection_open_t),
   (AMQP_CONNECTION_OPEN_OK_METHOD, amqp_connection_open_ok_t),
   (AMQP_CONNECTION_CLOSE_METHOD, amqp_connection_close_t),
   (AMQP_CONNECTION_CLOSE_OK_METHOD, amqp_connection_close_ok_t),
   (AMQP_CONNECTION_BLOCKED_METHOD, amqp_connection_blocked_t),
   (AMQP_CONNECTION_UNBLOCKED_METHOD, amqp_connection_unblocked_t),
   (AMQP_CONNECTION_UPDATE_SECRET_METHOD, amqp_connection_update_secret_t),
   (AMQP_CONNECTION_UPDATE_SECRET_OK_METHOD, amqp_connection_update_secret_ok_t),
   (AMQP_CHANNEL_OPEN_METHOD, amqp_channel_open_t),
   (AMQP_CHANNEL_OPEN_OK_METHOD, amqp_channel_open_ok_t),
   (AMQP_CHANNEL_FLOW_METHOD, amqp_channel_flow_t),
   (AMQP_CHANNEL_FLOW_OK_METHOD, amqp_channel_flow_ok_t),
   (AMQP_CHANNEL_CLOSE_METHOD, amqp_channel_close_t),
   (AMQP_CHANNEL_CLOSE_OK_METHOD, amqp_channel_close_ok_t),
   (AMQP_ACCESS_REQUEST_METHOD, amqp_access_request_t),
   (AMQP_ACCESS_REQUEST_OK_METHOD, amqp_access_request_ok_t),
   (AMQP_EXCHANGE_DECLARE_METHOD, amqp_exchange_declare_t),
   (AMQP_EXCHANGE_DECLARE_OK_METHOD, amqp_exchange_declare_ok_t),
   (AMQP_EXCHANGE_DELETE_METHOD, amqp_exchange_delete_t),
   (AMQP_EXCHANGE_DELETE_OK_METHOD, amqp_exchange_delete_ok_t),
   (AMQP_EXCHANGE_BIND_METHOD, amqp_exchange_bind_t),
   (AMQP_EXCHANGE_BIND_OK_METHOD, amqp_exchange_bind_ok_t),
   (AMQP_EXCHANGE_UNBIND_METHOD, amqp_exchange_unbind_t),
   (AMQP_EXCHANGE_UNBIND_OK_METHOD, amqp_exchange_unbind_ok_t),
   (AMQP_QUEUE_DECLARE_METHOD, amqp_queue_declare_t),
   (AMQP_QUEUE_DECLARE_OK_METHOD, amqp_queue_declare_ok_t),
   (AMQP_QUEUE_BIND_METHOD, amqp_queue_bind_t),
   (AMQP_QUEUE_BIND_OK_METHOD, amqp_queue_bind_ok_t),
   (AMQP_QUEUE_PURGE_METHOD, amqp_queue_purge_t),
   (AMQP_QUEUE_PURGE_OK_METHOD, amqp_queue_purge_ok_t),
   (AMQP_QUEUE_DELETE_METHOD, amqp_queue_delete_t),
   (AMQP_QUEUE_DELETE_OK_METHOD, amqp_queue_delete_ok_t),
   (AMQP_QUEUE_UNBIND_METHOD, amqp_queue_unbind_t),
   (AMQP_QUEUE_UNBIND_OK_METHOD, amqp_queue_unbind_ok_t),
   (AMQP_BASIC_QOS_METHOD, amqp_basic_qos_t),
   (AMQP_BASIC_QOS_OK_METHOD, amqp_basic_qos_ok_t),
   (AMQP_BASIC_CONSUME_METHOD, amqp_basic_consume_t),
   (AMQP_BASIC_CONSUME_OK_METHOD, amqp_basic_consume_ok_t),
   (AMQP_BASIC_CANCEL_METHOD, amqp_basic_cancel_t),
   (AMQP_BASIC_CANCEL_OK_METHOD, amqp_basic_cancel_ok_t),
   (AMQP_BASIC_PUBLISH_METHOD, amqp_basic_publish_t),
   (AMQP_BASIC_RETURN_METHOD, amqp_basic_return_t),
   (AMQP_BASIC_DELIVER_METHOD, amqp_basic_deliver_t),
   (AMQP_BASIC_GET_METHOD, amqp_basic_get_t),
   (AMQP_BASIC_GET_OK_METHOD, amqp_basic_get_ok_t),
   (AMQP_BASIC_GET_EMPTY_METHOD, amqp_basic_get_empty_t),
   (AMQP_BASIC_ACK_METHOD, amqp_basic_ack_t),
   (AMQP_BASIC_REJECT_METHOD, amqp_basic_reject_t),
   (AMQP_BASIC_RECOVER_ASYNC_METHOD, amqp_basic_recover_async_t),
   (AMQP_BASIC_RECOVER_METHOD, amqp_basic_recover_t),
   (AMQP_BASIC_RECOVER_OK_METHOD, amqp_basic_recover_ok_t),
   (AMQP_BASIC_NACK_METHOD, amqp_basic_nack_t),
   (AMQP_TX_SELECT_METHOD, amqp_tx_select_t),
   (AMQP_TX_SELECT_OK_METHOD, amqp_tx_select_ok_t),
   (AMQP_TX_COMMIT_METHOD, amqp_tx_commit_t),
   (AMQP_TX_COMMIT_OK_METHOD, amqp_tx_commit_ok_t),
   (AMQP_TX_ROLLBACK_METHOD, amqp_tx_rollback_t),
   (AMQP_TX_ROLLBACK_OK_METHOD, amqp_tx_rollback_ok_t),
   (AMQP_CONFIRM_SELECT_METHOD, amqp_confirm_select_t),
   (AMQP_CONFIRM_SELECT_OK_METHOD, amqp_confirm_select_ok_t)]

/-- The fields of a method; `none` is the default of the two functions. -/
def methodFields (methodNumber : UInt32) : Option (List Field) := methods.lookup methodNumber

end RabbitClient.Amqp
