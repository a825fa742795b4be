import OpenPLC.Uip.Checksum

/-! IP reassembly, `uip_reass`.  `uip_reassbuf` has 1010 bytes and `uip_reassbitmap` 15; here both
are memories, and `ReassOverruns` tells when the code leaves them.  All arithmetic is on 16 bits, as
an `int` has on the AVR. -/

namespace OpenPLC

open Lib

/-- `bitmap_bits`. -/
def bitmapBits (i : UInt16) : UInt8 :=
  [0xff, 0x7f, 0x3f, 0x1f, 0x0f, 0x07, 0x03, 0x01].getD (i &&& 7).toNat 0

/-- The number of bytes of the packet that the fragment in `uip_buf` has. -/
def fragLen (b : Mem) : UInt16 := ipLen b - ((b 14 &&& 0x0f) * 4).toUInt16

/-- The place of these bytes in the packet. -/
def fragOffset (b : Mem) : UInt16 := (((b 20 &&& 0x3f).toUInt16 <<< 8) + (b 21).toUInt16) * 8

/-- The fragment passes the test of its place against `UIP_REASS_BUFSIZE`. -/
def InReach (b : Mem) : Prop := ¬(fragOffset b > 1010 ∨ fragOffset b + fragLen b > 1010)

instance (b : Mem) : Decidable (InReach b) := inferInstanceAs (Decidable (¬_))

/-- The fragment in `uip_buf` belongs to the packet under reassembly. -/
def sameFragment (b : Mem) (r : Reass) : Prop :=
  IpAddr.load b 26 = IpAddr.load r.buf 12 ∧ IpAddr.load b 30 = IpAddr.load r.buf 16 ∧
    b 18 = r.buf 4 ∧ b 19 = r.buf 5

instance (b : Mem) (r : Reass) : Decidable (sameFragment b r) :=
  inferInstanceAs (Decidable (_ ∧ _))

/-- Begin a packet when none is under reassembly. -/
def reassStart (b : Mem) (r : Reass) : Reass :=
  if r.tmr = 0 then
    { r with
      buf := r.buf.write 0 (b.read 14 20), bitmap := r.bitmap.write 0 (List.replicate 15 0),
      lastfrag := false, tmr := 40 }
  else r

/-- The bitmap with the bits of a fragment of `len` bytes at `offset` set. -/
def reassMark (bitmap : Mem) (offset len : UInt16) : Mem :=
  let first := (offset / 64).toNat
  let last := ((offset + len) / 64).toNat
  if first = last then
    bitmap.write first
      [bitmap first ||| (bitmapBits (offset / 8) &&& ~~~bitmapBits ((offset + len) / 8))]
  else
    let bitmap := bitmap.write first [bitmap first ||| bitmapBits (offset / 8)]
    let bitmap := bitmap.write (1 + first) (List.replicate (last - (1 + first)) 0xff)
    bitmap.write last [bitmap last ||| ~~~bitmapBits ((offset + len) / 8)]

/-- All bits of a packet of `len` bytes are set. -/
def reassComplete (bitmap : Mem) (len : UInt16) : Bool :=
  (List.range (len / 64 - 1).toNat).all (fun i => bitmap i == 0xff) &&
    bitmap (len / 64).toNat == ~~~bitmapBits (len / 8)

/-- Copy the packet of `r` to `uip_buf`, with a header that is not of a fragment. -/
def reassCopy (b : Mem) (r : Reass) : Mem :=
  let b := b.write 14 (r.buf.read 0 r.len.toNat)
  let b := b.write 20 [0, 0]
  let b := b.write 16 [(r.len >>> 8).toUInt8, r.len.toUInt8]
  let b := b.write 24 [0, 0]
  b.write 24 (le16 (~~~ipchksum b))

/-- The fragment in `uip_buf` is stored. -/
def Taken (b : Mem) (r : Reass) : Prop := sameFragment b (reassStart b r) ∧ InReach b

instance (b : Mem) (r : Reass) : Decidable (Taken b r) := inferInstanceAs (Decidable (_ ∧ _))

/-- `uip_reass` leaves its arrays with the fragment.  A byte of the bitmap stands for 64 bytes of
the packet, and the fragment is stored 20 bytes behind its place. -/
def ReassOverruns (b : Mem) (r : Reass) : Prop :=
  Taken b r ∧ 960 ≤ (fragOffset b).toNat + (fragLen b).toNat

instance (b : Mem) (r : Reass) : Decidable (ReassOverruns b r) :=
  inferInstanceAs (Decidable (_ ∧ _))

/-- `uip_reass`: the length of the packet, as the `u8_t` that the function returns, or 0 while it is
incomplete. -/
def uipReass (b : Mem) (r : Reass) : UInt8 × Mem × Reass :=
  let r := reassStart b r
  if sameFragment b r then
    let hdr := ((b 14 &&& 0x0f) * 4).toUInt16
    let len := fragLen b
    let offset := fragOffset b
    if offset > 1010 ∨ offset + len > 1010 then (0, b, { r with tmr := 0 })
    else
      let r := { r with
        buf := r.buf.write (20 + offset.toNat) (b.read (14 + hdr.toNat) len.toNat)
        bitmap := reassMark r.bitmap offset len }
      let r := if b 20 &&& 0x20 = 0 then { r with lastfrag := true, len := offset + len } else r
      if r.lastfrag ∧ reassComplete r.bitmap r.len then
        (r.len.toUInt8, reassCopy b r, { r with tmr := 0 })
      else (0, b, r)
  else (0, b, r)

end OpenPLC
