import OpenPLC.Uip.State

/-! The Internet checksums of `uip.c`, over the bytes of `uip_buf`. -/

namespace OpenPLC

open Lib

/-- Addition with the carry added back in. -/
def chksumAdd (sum t : UInt16) : UInt16 := if sum + t < t then sum + t + 1 else sum + t

/-- `chksum`. -/
def chksum (sum : UInt16) : List UInt8 → UInt16
  | [] => sum
  | [a] => chksumAdd sum (a.toUInt16 <<< 8)
  | a :: b :: data => chksum (chksumAdd sum ((a.toUInt16 <<< 8) + b.toUInt16)) data

/-- The last step of each checksum: zero is sent as `0xffff`. -/
def chksumResult (sum : UInt16) : UInt16 := if sum = 0 then 0xffff else htons sum

/-- The length field of the IP header. -/
def ipLen (b : Mem) : UInt16 := ((b 16).toUInt16 <<< 8) + (b 17).toUInt16

/-- `uip_ipchksum`. -/
def ipchksum (b : Mem) : UInt16 := chksumResult (chksum 0 (b.read 14 20))

/-- What `chksum` adds behind the IP header.  The length of a packet that is shorter than its header
wraps around, and the last byte, at a 16-bit address, is before the first. -/
def upperLayer (b : Mem) : List UInt8 :=
  if ipLen b < 20 then [] else b.read 34 (ipLen b - 20).toNat

/-- `upper_layer_chksum`. -/
def upperLayerChksum (b : Mem) (proto : UInt8) : UInt16 :=
  let upperLayerLen := ipLen b - 20
  let sum := chksum (upperLayerLen + proto.toUInt16) (b.read 26 8)
  chksumResult (chksum sum (upperLayer b))

/-- `uip_tcpchksum`. -/
def tcpchksum (b : Mem) : UInt16 := upperLayerChksum b 6

end OpenPLC
