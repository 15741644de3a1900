import Quagga.Lib.StreamPut
import Quagga.Bgpd.Messages

/-!
# Messages as they are written

A message is written into a stream of the maximum size: the marker, a place for the length, the
type, what the message holds, and at the end the length. `packetOf_ok` gives its bytes, and
`makePacket_ok` those of a message that holds numbers.
-/

set_option autoImplicit false

namespace Quagga.Bgpd

open Lib Library

variable (type : MsgType)

/-- The functions that send messages: the header, the body, and the length. -/
def packetOf (body : Stream → Except Fault Stream) : Except Fault Stream := do
  let s ← bgpPacketSetMarker (streamNew bgpMaxPacketSize) type
  let s ← body s
  bgpPacketSetSize s

/-- The bytes of a message. -/
def messageBytes (bytes : List UInt8) : List UInt8 :=
  List.replicate bgpMarkerSize 0xff ++ wordBytes (UInt16.ofNat (bgpHeaderSize + bytes.length)) ++
    ([type.code] ++ bytes)

theorem length_messageBytes (bytes : List UInt8) :
    (messageBytes type bytes).length = bgpHeaderSize + bytes.length := by
  simp only [messageBytes, List.length_append, List.length_replicate, length_wordBytes,
    List.length_singleton, bgpMarkerSize, bgpHeaderSize]
  omega

theorem appends_bgpPacketSetMarker : Appends (fun s => bgpPacketSetMarker s type)
    (List.replicate bgpMarkerSize 0xff ++ (wordBytes 0 ++ [type.code])) := by
  have marker := Appends.foldlM appends_streamPutc (List.replicate bgpMarkerSize 0xff)
  exact Appends.bind marker (Appends.bind (appends_streamPutw 0) (appends_streamPutc type.code))

/-- **A message that fits is written.** -/
theorem packetOf_ok {body : Stream → Except Fault Stream} {bytes : List UInt8}
    (appends : Appends body bytes)
    (fits : bgpHeaderSize + bytes.length ≤ bgpMaxPacketSize) :
    packetOf type body = .ok ((streamNew bgpMaxPacketSize).append (messageBytes type bytes)) := by
  have sane := streamNew_sane bgpMaxPacketSize
  have room : (streamNew bgpMaxPacketSize).writeable = bgpMaxPacketSize := by
    rw [Stream.writeable, Stream.size, streamNew, List.length_replicate, Nat.sub_zero]
  have written := Appends.bind (appends_bgpPacketSetMarker type) appends
  have whole : (List.replicate bgpMarkerSize 0xff ++ wordBytes 0 ++ ([type.code] ++ bytes)).length =
      bgpHeaderSize + bytes.length := by
    simp only [List.length_append, List.length_replicate, length_wordBytes, List.length_singleton,
      bgpMarkerSize, bgpHeaderSize]
    omega
  have regroup : List.replicate bgpMarkerSize 0xff ++ (wordBytes 0 ++ [type.code]) ++ bytes =
      List.replicate bgpMarkerSize 0xff ++ wordBytes 0 ++ ([type.code] ++ bytes) := by
    simp only [List.append_assoc]
  have result := written.fits sane (by rw [regroup, whole, room]; exact fits)
  rw [regroup] at result
  have set := streamPutwAt_append sane (by rw [whole, room]; exact fits)
    (UInt16.ofNat (bgpHeaderSize + bytes.length))
  have done : packetOf type body = (do
      let s ← bgpPacketSetMarker (streamNew bgpMaxPacketSize) type
      body s) >>= bgpPacketSetSize := by
    rw [packetOf, bind_assoc]
  have sane' := Stream.append_sane sane (by rw [whole, room]; exact fits)
  have ends : (streamNew bgpMaxPacketSize).endp + (bgpHeaderSize + bytes.length) =
      bgpHeaderSize + bytes.length := Nat.zero_add _
  rw [done, result, ok_bind, bgpPacketSetSize, streamGetEndp_ok sane', Stream.append_endp,
    whole, ends]
  exact set

/-- What stands in the stream then. -/
theorem messageBytes_contents {bytes : List UInt8}
    (fits : bgpHeaderSize + bytes.length ≤ bgpMaxPacketSize) :
    ((streamNew bgpMaxPacketSize).append (messageBytes type bytes)).Sane ∧
      ((streamNew bgpMaxPacketSize).append (messageBytes type bytes)).contents =
        messageBytes type bytes := by
  have size : (streamNew bgpMaxPacketSize).size = bgpMaxPacketSize := List.length_replicate
  have start : (streamNew bgpMaxPacketSize).endp = 0 := rfl
  have room : (streamNew bgpMaxPacketSize).endp + (messageBytes type bytes).length ≤
      (streamNew bgpMaxPacketSize).size := by
    rw [size, length_messageBytes, start, Nat.zero_add]
    exact fits
  exact ⟨(streamNew_sane _).append room, contents_append room⟩

/-- **A packet with few enough numbers is built without a fault, and its contents are its
bytes.** -/
theorem makePacket_ok {numbers : List UInt16} (few : numbers.length ≤ 10) :
    ∃ s, makePacket type numbers = .ok s ∧ s.Sane ∧ s.getp = 0 ∧
      s.contents = packetBytes type numbers := by
  have same : messageBytes type (numbers.flatMap wordBytes) = packetBytes type numbers := by
    rw [messageBytes, length_flatMap_wordBytes, packetBytes]
  have fits : bgpHeaderSize + (numbers.flatMap wordBytes).length ≤ bgpMaxPacketSize := by
    rw [length_flatMap_wordBytes, bgpHeaderSize, bgpMaxPacketSize]
    omega
  obtain ⟨sane, contents⟩ := messageBytes_contents type fits
  exact ⟨_, packetOf_ok type (Appends.foldlM appends_streamPutw numbers) fits, sane, rfl,
    contents.trans same⟩

end Quagga.Bgpd
