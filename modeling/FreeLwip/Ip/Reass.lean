import FreeLwip.Lib.Singly
import FreeLwip.Ip.Output
import FreeLwip.Ip.ChksumFields

/-!
# Reassembly (`ip_frag.c`)

A fragment is the chain of pbufs that `ip_input` hands over, cut to its total length. Inside of one
datagram the fragments are a list; the datagrams themselves are linked by their `next`, and come
from a pool.
-/

namespace FreeLwip.Ip.Reass

open InetChksum Singly

def ipReassMaxage : Nat := 3
def ipReassMaxPbufs : Nat := 10
def mempNumReassdata : Nat := 5

/-- `struct ip_hdr`; the checksum is the word that stands in memory. -/
structure IpHdr where
  vHl : BitVec 8
  tos : BitVec 8
  len : BitVec 16
  id : BitVec 16
  offset : BitVec 16
  ttl : BitVec 8
  proto : BitVec 8
  chksum : BitVec 16
  src : IpAddr
  dest : IpAddr
  deriving DecidableEq, Repr

namespace IpHdr

/-- `IPH_HL`. -/
def hl (h : IpHdr) : Nat := (h.vHl &&& 0x0f#8).toNat

/-- The header in front of its checksum, with the fields in network order. -/
def front (h : IpHdr) : List Octet :=
  [h.vHl, h.tos] ++ halfOctets (InetChksum.htons h.len) ++ halfOctets (InetChksum.htons h.id) ++
    halfOctets (InetChksum.htons h.offset) ++ [h.ttl, h.proto]

def octets (h : IpHdr) : List Octet :=
  h.front ++ halfOctets h.chksum ++ (addrOctets h.src ++ addrOctets h.dest)

/-- `IP_ADDRESSES_AND_ID_MATCH`. -/
def addressesAndIdMatch (a b : IpHdr) : Bool :=
  ipAddrCmp a.src b.src && ipAddrCmp a.dest b.dest && a.id == b.id

def fragOffset (h : IpHdr) : Nat := (h.offset &&& ipOffmask).toNat * 8

/-- The octets behind the header, in a `u16_t`. -/
def dataLen (h : IpHdr) : Nat := (h.len.toNat + 65536 - h.hl * 4) % 65536

def moreFragments (h : IpHdr) : Bool := h.offset &&& ipMf != 0

end IpHdr

/-- A chain of pbufs, with the header at its `payload`. -/
structure Pbuf where
  chain : List Nat
  hdr : IpHdr
  data : List Octet
  deriving DecidableEq, Repr

def pbufClen (p : Pbuf) : Nat := p.chain.length % 256

/-- A fragment and the `struct ip_reass_helper` over its header. -/
structure Frag where
  start : Nat
  stop : Nat
  p : Pbuf
  deriving DecidableEq, Repr

structure Reassdata where
  p : List Frag
  iphdr : IpHdr
  datagramLen : Nat
  lastfrag : Bool
  timer : Nat

/-! ## The fragments of one datagram -/

structure Inserted where
  chain : List Frag
  behind : List Frag
  valid : Bool
  deriving DecidableEq

/-- The loop over the fragments that are there, from behind `prev` on, and the end of the list.
There is none after a `goto freepbuf`. -/
def insertFrag (new : Frag) : Option Frag → Bool → List Frag → Option Inserted
  | none, valid, [] => some ⟨[new], [], valid⟩
  | some prev, valid, [] => some ⟨[new], [], if prev.stop ≠ new.start then false else valid⟩
  | prev, valid, q :: rest =>
    if new.start < q.start then
      match prev with
      | some prev =>
        -- what is missing in front of the new fragment is not noticed here
        if new.start < prev.stop ∨ q.start < new.stop then none
        else some ⟨new :: q :: rest, q :: rest, valid⟩
      | none => some ⟨new :: q :: rest, q :: rest, valid⟩
    else if new.start = q.start then none
    else if new.start < q.stop then none
    else
      let valid :=
        match prev with
        | some prev => if prev.stop ≠ q.start then false else valid
        | none => valid
      (insertFrag new (some q) valid rest).map fun r => { r with chain := q :: r.chain }

/-- "Check that there are no wholes after this datagram". -/
def noHoles : Frag → List Frag → Bool
  | _, [] => true
  | prev, q :: rest => prev.stop = q.start && noHoles q rest

def newFrag (p : Pbuf) : Frag where
  start := p.hdr.fragOffset
  stop := (p.hdr.fragOffset + p.hdr.dataLen) % 65536
  p := p

def chainFragIntoDatagramAndValidate (ipr : Reassdata) (newP : Pbuf) : Option (List Frag) × Bool :=
  match insertFrag (newFrag newP) none true ipr.p with
  | none => (none, false)
  | some ins =>
    (some ins.chain,
      ipr.lastfrag && ins.valid && (ins.chain.head?.map Frag.start == some 0) &&
        noHoles (newFrag newP) ins.behind)

/-! ## The datagrams -/

structure State where
  reassdatagrams : SList Nat
  ipr : Nat → Reassdata
  /-- What `memp_malloc` can give. -/
  pool : List Nat
  pbufcount : Nat
  /-- The pbufs that `pbuf_free` was called for. -/
  freed : List Nat
  /-- What `icmp_time_exceeded` was called for. -/
  timeExceeded : List (IpHdr × List Octet)

namespace State

def init (ipr : Nat → Reassdata) : State where
  reassdatagrams := { head := none, next := fun _ => none }
  ipr := ipr
  pool := List.range mempNumReassdata
  pbufcount := 0
  freed := []
  timeExceeded := []

/-- The datagrams from `reassdatagrams` on. -/
def datagrams (s : State) : List Nat :=
  walk s.reassdatagrams.next mempNumReassdata s.reassdatagrams.head

def setIpr (s : State) (ipr : Nat) (d : Reassdata) : State :=
  { s with ipr := Function.update s.ipr ipr d }

/-- The pool is linked through the first word of its structs, and that is their `next`. -/
def dequeueDatagram (s : State) (ipr : Nat) (prev : Option Nat) : State :=
  let l := s.reassdatagrams.unlink ipr prev
  { s with
    reassdatagrams := { l with next := Function.update l.next ipr s.pool.head? }
    pool := ipr :: s.pool }

def clenSum : List Frag → Nat
  | [] => 0
  | f :: p => pbufClen f.p + clenSum p

/-- The pbufs of all the fragments. -/
def chains (p : List Frag) : List Nat := p.flatMap fun f => f.p.chain

/-- `ip_reass_free_complete_datagram`: the first fragment goes back with its header when an ICMP
message is due, and is freed with the others. -/
def freeCompleteDatagram (s : State) (ipr : Nat) (prev : Option Nat) : Nat × State :=
  let d := s.ipr ipr
  let timeExceeded :=
    match d.p with
    | f :: _ =>
      if f.start = 0 then s.timeExceeded ++ [(d.iphdr, f.p.data)] else s.timeExceeded
    | [] => s.timeExceeded
  let pbufsFreed := clenSum d.p % 65536
  let s := { s with
    timeExceeded := timeExceeded
    freed := chains d.p ++ s.freed }
  let s := s.dequeueDatagram ipr prev
  (pbufsFreed, { s with pbufcount := (s.pbufcount + 65536 - pbufsFreed) % 65536 })

/-- The variables of the scan of `ip_reass_remove_oldest_datagram`. -/
structure Scan where
  oldest : Option Nat
  prev : Option Nat
  otherDatagrams : Nat

def scanStep (s : State) (fraghdr : IpHdr) (acc : Scan) (r : Nat) : Scan :=
  let acc :=
    if (s.ipr r).iphdr.addressesAndIdMatch fraghdr then acc
    else
      { acc with
        otherDatagrams := acc.otherDatagrams + 1
        oldest :=
          match acc.oldest with
          | none => some r
          | some oldest =>
            if (s.ipr r).timer ≤ (s.ipr oldest).timer then some r else some oldest }
  if (s.reassdatagrams.next r).isSome then { acc with prev := some r } else acc

def scan (s : State) (fraghdr : IpHdr) : Scan :=
  s.datagrams.foldl (s.scanStep fraghdr) ⟨none, none, 0⟩

/-- The end of a round of `ip_reass_remove_oldest_datagram`. -/
def freeOldest (s : State) (acc : Scan) : Nat × State :=
  match acc.oldest with
  | some oldest => s.freeCompleteDatagram oldest acc.prev
  | none => (0, s)

/-- The `do ... while` of `ip_reass_remove_oldest_datagram`. -/
def removeOldestLoop (fraghdr : IpHdr) (pbufsNeeded : Nat) : Nat → State → Nat → Nat × State
  | 0, s, pbufsFreed => (pbufsFreed, s)
  | fuel + 1, s, pbufsFreed =>
    let acc := s.scan fraghdr
    let (cur, s) := s.freeOldest acc
    let pbufsFreed := pbufsFreed + cur
    if pbufsFreed < pbufsNeeded ∧ 1 < acc.otherDatagrams then
      removeOldestLoop fraghdr pbufsNeeded fuel s pbufsFreed
    else (pbufsFreed, s)

def removeOldestDatagram (s : State) (fraghdr : IpHdr) (pbufsNeeded : Nat) : Nat × State :=
  removeOldestLoop fraghdr pbufsNeeded mempNumReassdata s 0

def freshDatagram (fraghdr : IpHdr) : Reassdata where
  p := []
  iphdr := fraghdr
  datagramLen := 0
  lastfrag := false
  timer := ipReassMaxage

/-- A struct from the pool, put in front of the list. -/
def newDatagram (s : State) (fraghdr : IpHdr) : Option Nat × State :=
  match s.pool with
  | [] => (none, s)
  | i :: pool =>
    (some i, { s with
      pool := pool
      ipr := Function.update s.ipr i (freshDatagram fraghdr)
      reassdatagrams := s.reassdatagrams.push i })

def enqueueNewDatagram (s : State) (fraghdr : IpHdr) (clen : Nat) : Option Nat × State :=
  match s.newDatagram fraghdr with
  | (some i, s) => (some i, s)
  | (none, s) =>
    let (freed, s) := s.removeOldestDatagram fraghdr clen
    if clen ≤ freed then s.newDatagram fraghdr else (none, s)

/-- The datagram that a fragment belongs to, with the one in front of it. -/
def findDatagram (s : State) (fraghdr : IpHdr) : Option Nat → List Nat → Option Nat × Option Nat
  | prev, [] => (none, prev)
  | prev, r :: rest =>
    if (s.ipr r).iphdr.addressesAndIdMatch fraghdr then (some r, prev)
    else findDatagram s fraghdr (some r) rest

/-- The datagram made of its fragments, with the header of the first. -/
def joinDatagram (d : Reassdata) : Pbuf :=
  let hdr := { d.iphdr with
    len := BitVec.ofNat 16 (d.datagramLen + ipHlen)
    offset := 0
    chksum := 0 }
  { chain := chains d.p
    hdr := { hdr with chksum := inetChksum (flat hdr.octets) 0 (BitVec.ofNat 16 ipHlen) }
    data := d.p.flatMap fun f => f.p.data }

def free (s : State) (p : Pbuf) : State := { s with freed := p.chain ++ s.freed }

/-- "We want to have the header of the first fragment". -/
def adoptHdr (d : Reassdata) (fraghdr : IpHdr) : Reassdata :=
  if fraghdr.offset &&& ipOffmask = 0 ∧ d.iphdr.offset &&& ipOffmask ≠ 0 then
    { d with iphdr := fraghdr }
  else d

/-- "Check for 'no more fragments', and update queue entry". -/
def noteLast (d : Reassdata) (fraghdr : IpHdr) : Reassdata :=
  if fraghdr.moreFragments then d
  else
    { d with
      lastfrag := true
      datagramLen := (fraghdr.fragOffset + fraghdr.dataLen) % 65536 }

/-- The end of `ip_reass`, for a fragment `p` of the datagram `ipr`. -/
def addFragment (s : State) (ipr : Nat) (prev : Option Nat) (p : Pbuf) : Option Pbuf × State :=
  let s := { s with pbufcount := (s.pbufcount + pbufClen p) % 65536 }
  let d := noteLast (s.ipr ipr) p.hdr
  match chainFragIntoDatagramAndValidate d p with
  | (none, _) =>
    (none, { (s.setIpr ipr d).free p with
      pbufcount := (s.pbufcount + 65536 - pbufClen p) % 65536 })
  | (some chain, false) => (none, s.setIpr ipr { d with p := chain })
  | (some chain, true) =>
    let q := joinDatagram { d with p := chain }
    let s := (s.setIpr ipr { d with p := chain }).dequeueDatagram ipr prev
    (some q, { s with pbufcount := (s.pbufcount + 65536 - pbufClen q) % 65536 })

/-- Room for `clen` pbufs more, at the expense of the oldest datagrams. -/
def makeRoom (s : State) (fraghdr : IpHdr) (clen : Nat) : Bool × State :=
  if ipReassMaxPbufs < s.pbufcount + clen then
    let (freed, s) := s.removeOldestDatagram fraghdr clen
    (decide (freed ≠ 0 ∧ s.pbufcount + clen ≤ ipReassMaxPbufs), s)
  else (true, s)

def ipReass (s : State) (p : Pbuf) : Option Pbuf × State :=
  let fraghdr := p.hdr
  if fraghdr.hl * 4 ≠ ipHlen then (none, s.free p)
  else
    match s.makeRoom fraghdr (pbufClen p) with
    | (false, s) => (none, s.free p)
    | (true, s) =>
      match s.findDatagram fraghdr none s.datagrams with
      | (some ipr, prev) => (s.setIpr ipr (adoptHdr (s.ipr ipr) fraghdr)).addFragment ipr prev p
      | (none, prev) =>
        match s.enqueueNewDatagram fraghdr (pbufClen p) with
        | (none, s) => (none, s.free p)
        | (some ipr, s) => s.addFragment ipr prev p

/-- The loop of `ip_reass_tmr`. -/
def ipReassTmrLoop : Nat → State → Option Nat → Option Nat → State
  | 0, s, _, _ => s
  | _ + 1, s, none, _ => s
  | fuel + 1, s, some r, prev =>
    let next := s.reassdatagrams.next r
    if 0 < (s.ipr r).timer then
      ipReassTmrLoop fuel (s.setIpr r { s.ipr r with timer := (s.ipr r).timer - 1 }) next (some r)
    else ipReassTmrLoop fuel (s.freeCompleteDatagram r prev).2 next prev

def ipReassTmr (s : State) : State :=
  ipReassTmrLoop mempNumReassdata s s.reassdatagrams.head none

end State

end FreeLwip.Ip.Reass
