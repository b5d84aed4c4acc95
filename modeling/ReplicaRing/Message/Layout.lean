import ReplicaRing.Message
import ReplicaRing.Text.Hex
import ReplicaRing.Text.Utf8

/-!
Messages as datagrams.  A header of fixed width stands before the payload:

    offset  width  field
    0       1      version
    1       1      topic
    2       1      verb
    3       1      zero
    4       16     args
    20      16     zeros
    36      256    name to reply to, filled up with zeros
    292     2      length of the payload
    294            payload
-/

namespace ReplicaRing

inductive WireError
  | packetTooSmall (length : Nat)
  | truncated (declared available : Nat)
  | payloadTooLarge (length : Nat)
  | replyToTooLong (length : Nat)
  | replyToHasNul
  | replyToNotText (fault : Utf8.Fault)
  | unknownTopic (code : UInt8)
  deriving DecidableEq, Repr

namespace Layout

def headerSize : Nat := 294
def nameSize : Nat := 256
/-- A datagram length is a number of 16 bits. -/
def maxDatagram : Nat := 0xFFFF
def maxPayload : Nat := maxDatagram - headerSize

end Layout

open Layout in
def WireError.message : WireError → String
  | .packetTooSmall length =>
      s!"packet is too small: {length} bytes, header needs {headerSize}"
  | .truncated declared available =>
      s!"payload truncated: header declares {declared} bytes, {available} available"
  | .payloadTooLarge length => s!"payload too large: {length} bytes, max {maxPayload}"
  | .replyToTooLong length => s!"reply-to identity too long: {length} bytes, max {nameSize}"
  | .replyToHasNul => "invalid reply-to identity: contains NUL byte"
  | .replyToNotText fault => "invalid reply-to identity: " ++ fault.message
  | .unknownTopic code =>
      "unknown operation type: 0x" ++ String.ofList (Hex.padded 2 code.toNat)

namespace Message

open Layout

def zeros (count : Nat) : Bytes := List.replicate count 0

def encode (message : Message) : Except WireError Bytes :=
  let name := Bytes.ofText message.replyTo
  if maxPayload < message.payload.length then .error (.payloadTooLarge message.payload.length)
  else if nameSize < name.length then .error (.replyToTooLong name.length)
  else if 0 ∈ name then .error .replyToHasNul
  else
    .ok ([message.version, message.topic.code, message.verb, 0]
      ++ message.args.bytes ++ zeros 16
      ++ name ++ zeros (nameSize - name.length)
      ++ Bytes.bigEndian 2 message.payload.length ++ message.payload)

def unpadded (field : Bytes) : Bytes := field.takeWhile (· ≠ 0)

/-- Bytes after the declared payload are ignored. -/
def decode (datagram : Bytes) : Except WireError Message :=
  if hsize : datagram.length < headerSize then .error (.packetTooSmall datagram.length)
  else
    let code := datagram.getD 1 0
    match Topic.ofCode? code with
    | none => .error (.unknownTopic code)
    | some topic =>
      let name := unpadded ((datagram.drop 36).take nameSize)
      if hname : name.IsText then
        let declared := Bytes.toNat ((datagram.drop 292).take 2)
        let available := datagram.length - headerSize
        if available < declared then .error (.truncated declared available)
        else
          .ok {
            version := datagram.getD 0 0
            topic
            verb := datagram.getD 2 0
            args := ⟨(datagram.drop 4).take 16, by simp [headerSize] at hsize ⊢; omega⟩
            replyTo := name.toText hname
            payload := (datagram.drop headerSize).take declared }
      else .error (.replyToNotText ((Utf8.fault? name).getD ⟨0, none⟩))

end Message

end ReplicaRing
