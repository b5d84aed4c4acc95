import ReplicaRing.Message.Layout

/-! Sample messages with the bytes that every node must put on the wire for them. -/

namespace ReplicaRing

structure Specimen where
  name : String
  topic : Topic
  verb : UInt8
  requestId : UInt64
  replyTo : String
  payload : Bytes
  start : String

namespace Specimen

def all : List Specimen := [
  { name := "ping_request", topic := .ping, verb := Verb.ping, requestId := 1, replyTo := "node1",
    payload := [], start := "010100000000000000000001" },
  { name := "pong_reply", topic := .ping, verb := Verb.pong, requestId := 1, replyTo := "node2",
    payload := [], start := "010101000000000000000001" },
  { name := "store_put", topic := .store, verb := Verb.put, requestId := 0x0102030405060708,
    replyTo := "node1", payload := Bytes.ofText "hello", start := "010300000102030405060708" },
  { name := "load_nack_max_id", topic := .load, verb := Verb.getNack,
    requestId := 0xFFFFFFFFFFFFFFFF, replyTo := "node3", payload := [],
    start := "01040200ffffffffffffffff" },
  { name := "noop_anonymous", topic := .noop, verb := 0, requestId := 0, replyTo := "",
    payload := [0, 1, 2], start := "010000000000000000000000" }]

def message (specimen : Specimen) : Message :=
  ((Message.request Message.currentVersion specimen.topic specimen.verb
    specimen.replyTo).withRequestId specimen.requestId).withPayload specimen.payload

def overwrite (bytes : Bytes) (offset : Nat) (field : Bytes) : Bytes :=
  bytes.take offset ++ field ++ bytes.drop (offset + field.length)

/-- The datagram laid out field by field at fixed offsets. -/
def expected (specimen : Specimen) : Bytes :=
  let blank := List.replicate (Layout.headerSize + specimen.payload.length) 0
  [(0, [Message.currentVersion, specimen.topic.code, specimen.verb]),
    (4, Bytes.bigEndian 8 specimen.requestId.toNat),
    (36, Bytes.ofText specimen.replyTo),
    (292, Bytes.bigEndian 2 specimen.payload.length),
    (294, specimen.payload)].foldl (fun bytes (offset, field) => overwrite bytes offset field) blank

def verify (specimen : Specimen) : Except WireError (Bytes × Bool) := do
  let datagram ← specimen.message.encode
  return (datagram, datagram == specimen.expected
    && Hex.encode (datagram.take 12) == specimen.start)

end Specimen

end ReplicaRing
