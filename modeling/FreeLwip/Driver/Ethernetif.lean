import Mathlib.Data.BitVec
import Mathlib.Logic.Function.Basic
import FreeLwip.Err
import FreeLwip.Lib.Ring

/-!
# The receive path of the driver (`altera_tse_ethernetif.c`, `lwip_tse_mac.c`, `tcpip.c`)

The SGDMA fills one armed buffer at a time; its interrupt moves the ring on; the input task
takes the buffers out and passes them to the stack. The steps of the task and of a restart
are those between which an interrupt or another task can run.
-/

namespace FreeLwip.Driver

open RingIndex

/-! ## Buffers -/

abbrev Byte := BitVec 8

def pbufPoolBufsize : Nat := 1516

def lwipRxEthBuffer : Nat := 12

structure Pbuf where
  len : BitVec 16
  totLen : BitVec 16
  payload : Nat → Byte

/-- The bytes that a reader of the pbuf finds. -/
def Pbuf.frame (p : Pbuf) : List Byte :=
  (List.range p.len.toNat).map p.payload

def Pbuf.fresh (p : Pbuf) : Pbuf :=
  { p with len := BitVec.ofNat 16 pbufPoolBufsize, totLen := BitVec.ofNat 16 pbufPoolBufsize }

/-- What the MAC delivers; its maximal frame length keeps it within a buffer. -/
structure RxFrame where
  bytes : List Byte
  status : BitVec 8
  fits : bytes.length ≤ pbufPoolBufsize

/-- Who refers to a pbuf. The code only has the pool's free list; a pbuf that nobody refers
to any more is lost. -/
inductive Owner
  | pool | ring | input | stack | lost
  deriving DecidableEq, Repr

/-! ## The SGDMA -/

structure Descriptor (P : Type*) where
  /-- The pbuf to whose payload the DMA writes. -/
  writeAddr : Option P
  actualBytesTransferred : BitVec 16
  status : BitVec 8

/-- `done`: the transfer is complete and its interrupt has not been handled. -/
inductive DmaState
  | off | constructed | running | done
  deriving DecidableEq, Repr

def sgdmaStatusECrcMsk : BitVec 8 := 0x01
def sgdmaStatusEParityMsk : BitVec 8 := 0x02
def sgdmaStatusEOverflowMsk : BitVec 8 := 0x04
def sgdmaStatusESyncMsk : BitVec 8 := 0x08
def sgdmaStatusEUeopMsk : BitVec 8 := 0x10
def sgdmaStatusEMeopMsk : BitVec 8 := 0x20
def sgdmaStatusEMsopMsk : BitVec 8 := 0x40

/-- No error bit that `tse_mac_rcv` looks at is set. -/
def goodStatus (status : BitVec 8) : Bool :=
  status &&& (sgdmaStatusECrcMsk ||| sgdmaStatusEParityMsk ||| sgdmaStatusEOverflowMsk |||
    sgdmaStatusESyncMsk ||| sgdmaStatusEUeopMsk ||| sgdmaStatusEMeopMsk |||
    sgdmaStatusEMsopMsk) == 0

/-! ## The state -/

/-- Where the input task is in `ethernetif_input`. -/
inductive InputPc (P : Type*)
  | idle
  /-- `low_level_input` has seen a positive count. -/
  | checked
  | allocated (nextPkt : P)
  /-- The slots are exchanged and the count is decremented. -/
  | exchanged (p : P)
  /-- `low_level_input` has returned `p`. -/
  | received (p : P)
  deriving DecidableEq, Repr

/-- What `tcpip_input` depends on: the mailbox and the pool MEMP_TCPIP_MSG_INPKT. -/
structure Tcpip where
  mboxValid : Bool
  freeMsgs : Nat
  queued : Nat
  mboxSize : Nat
  deriving DecidableEq, Repr

structure Ethernetif (P : Type*) where
  lwipRxPbuf : Nat → P
  lwipRxIndexIsr : Nat
  lwipRxIndex : Nat
  lwipRxCount : Int
  bytesRecv : BitVec 32
  desc : Descriptor P
  dma : DmaState
  pbuf : P → Pbuf
  owner : P → Owner
  input : InputPc P
  /-- What `ethernetif_input` returned last. -/
  ret : Int
  tcpip : Tcpip
  -- The history of the run; the code reads none of it.
  arrived : List Byte
  accepted : List (List Byte)
  returned : List (List Byte)

variable {P : Type*} [DecidableEq P]

namespace Ethernetif

def setOwner (d : Ethernetif P) (p : P) (o : Owner) : Ethernetif P :=
  { d with owner := Function.update d.owner p o }

def setPbuf (d : Ethernetif P) (p : P) (b : Pbuf) : Ethernetif P :=
  { d with pbuf := Function.update d.pbuf p b }

def setSlot (d : Ethernetif P) (i : Nat) (p : P) : Ethernetif P :=
  { d with lwipRxPbuf := Function.update d.lwipRxPbuf i p }

/-! ## `tse_mac_rcv` and the interrupt -/

/-- `alt_avalon_sgdma_construct_stream_to_mem_desc` for the slot `lwipRxIndexIsr`. -/
def constructDesc (d : Ethernetif P) : Ethernetif P :=
  { d with desc :=
      { writeAddr := some (d.lwipRxPbuf d.lwipRxIndexIsr), actualBytesTransferred := 0
        status := 0 } }

section Ring

variable (N : Nat)

def tseMacRcv (d : Ethernetif P) : Ethernetif P :=
  let pklen := d.desc.actualBytesTransferred
  let p := d.lwipRxPbuf d.lwipRxIndexIsr
  let good := goodStatus d.desc.status
  let d := d.setPbuf p { d.pbuf p with len := pklen, totLen := pklen }
  let d :=
    if good then
      let d := { d with lwipRxCount := d.lwipRxCount + 1 }
      if d.lwipRxCount ≥ (N : Int) then
        { d with lwipRxCount := d.lwipRxCount - 1 }
      else
        { d with
          bytesRecv := d.bytesRecv + pklen.setWidth 32
          lwipRxIndexIsr := next N d.lwipRxIndexIsr }
    else
      d
  d.constructDesc

def tseSgdmaRxIsr (d : Ethernetif P) : Ethernetif P :=
  { d.tseMacRcv N with dma := .running }

/-- A good frame that finds fewer than N-1 frames waiting is accepted. -/
def accepts (d : Ethernetif P) : Bool :=
  goodStatus d.desc.status && decide (d.lwipRxCount < (N : Int) - 1)

/-! ## `low_level_input` -/

/-- The exchange of the slots, with interrupts masked. -/
def exchange (d : Ethernetif P) (nextPkt : P) : Ethernetif P :=
  let p := d.lwipRxPbuf d.lwipRxIndex
  let d := (d.setSlot d.lwipRxIndex nextPkt).setOwner nextPkt .ring
  { d.setOwner p .input with
    lwipRxIndex := next N d.lwipRxIndex
    lwipRxCount := d.lwipRxCount - 1
    input := .exchanged p }

/-- The loop of `ethernetif_init`, with the pbufs that `pbuf_alloc` returned. -/
def initSlots (d : Ethernetif P) (idx : Nat) : List P → Option (Ethernetif P)
  | [] => some d
  | p :: rest =>
    if d.owner p = .pool then
      initSlots (((d.setSlot idx p).setOwner p .ring).setPbuf p (d.pbuf p).fresh) (idx + 1) rest
    else
      none

def ethernetifInit (d : Ethernetif P) (bufs : List P) : Option (Ethernetif P) :=
  if bufs.length = N then
    (d.initSlots 0 bufs).map fun d =>
      { d with lwipRxCount := 0, lwipRxIndex := 0, lwipRxIndexIsr := 0 }
  else
    none

end Ring

/-- Before `ethernetif_init`: the structure is uninitialised memory, and some pbufs are in
use already. -/
def boot (lwipRxPbuf : Nat → P) (pbuf : P → Pbuf) (inUse : P → Bool) (tcpip : Tcpip) :
    Ethernetif P where
  lwipRxPbuf := lwipRxPbuf
  lwipRxIndexIsr := 0
  lwipRxIndex := 0
  lwipRxCount := 0
  bytesRecv := 0
  desc := { writeAddr := none, actualBytesTransferred := 0, status := 0 }
  dma := .off
  pbuf := pbuf
  owner p := if inUse p then .stack else .pool
  input := .idle
  ret := 0
  tcpip := tcpip
  arrived := []
  accepted := []
  returned := []

end Ethernetif

/-! ## `tcpip_input` and `ethernetif_input` -/

def ethtypeIp : BitVec 16 := 0x0800
def ethtypeArp : BitVec 16 := 0x0806

/-- `htons(ethhdr->type)`; with ETH_PAD_SIZE 2 the type is at bytes 14 and 15. -/
def Pbuf.ethType (p : Pbuf) : BitVec 16 :=
  ((p.payload 14).setWidth 16 <<< 8) ||| (p.payload 15).setWidth 16

/-- The switch of `ethernetif_input` (no PPPoE, no VLAN). -/
def Pbuf.forStack (p : Pbuf) : Bool :=
  p.ethType == ethtypeIp || p.ethType == ethtypeArp

def Tcpip.sysMboxTrypost (t : Tcpip) : Err × Tcpip :=
  if t.queued < t.mboxSize then (.ok, { t with queued := t.queued + 1 }) else (.mem, t)

def Tcpip.tcpipInput (t : Tcpip) : Err × Tcpip :=
  if !t.mboxValid then
    (.val, t)
  else if t.freeMsgs = 0 then
    (.mem, t)
  else
    let t := { t with freeMsgs := t.freeMsgs - 1 }
    match t.sysMboxTrypost with
    | (.ok, t) => (.ok, t)
    | (_, t) => (.mem, { t with freeMsgs := t.freeMsgs + 1 })

namespace Ethernetif

/-- The end of `low_level_input`: an empty frame is answered with NULL. -/
def finish (d : Ethernetif P) (p : P) : Ethernetif P :=
  if (d.pbuf p).len = 0 then
    { d.setOwner p .lost with input := .idle, ret := -1 }
  else
    { d with input := .received p, returned := d.returned ++ [(d.pbuf p).frame] }

/-- The end of `ethernetif_input`, which drops the result of `netif->input`. -/
def deliver (d : Ethernetif P) (p : P) : Ethernetif P :=
  let d' :=
    if (d.pbuf p).forStack then
      match d.tcpip.tcpipInput with
      | (.ok, t) => { d.setOwner p .stack with tcpip := t }
      | (_, t) => { d.setOwner p .lost with tcpip := t }
    else
      d.setOwner p .pool
  { d' with input := .idle, ret := d.lwipRxCount }

end Ethernetif

/-! ## Steps -/

inductive Action (P : Type*)
  /-- `tse_mac_init` resets the SGDMA. -/
  | softwareReset
  /-- The two halves of `tse_sgdma_read_init`. -/
  | constructDesc
  | aRxRead
  /-- The DMA writes into the armed buffer. -/
  | dmaWrite (i : Nat) (b : Byte)
  | dmaComplete (f : RxFrame)
  | rxIsr
  /-- The steps of `low_level_input`; no pbuf stands for a failed `pbuf_alloc`. -/
  | checkCount
  | pbufAlloc (nextPkt : Option P)
  | exchange
  | finish
  | deliver
  /-- What the rest of the stack does with its pbufs, and with the mailbox. -/
  | stackAlloc (p : P)
  | stackWrite (p : P) (b : Pbuf)
  | pbufFree (p : P)
  | others (t : Tcpip)

section Step

variable (N : Nat)

def step (d : Ethernetif P) : Action P → Option (Ethernetif P)
  | .softwareReset => some { d with dma := .off }
  | .constructDesc =>
    if d.dma = .off then some { d.constructDesc with dma := .constructed } else none
  | .aRxRead => if d.dma = .constructed then some { d with dma := .running } else none
  | .dmaWrite i b =>
    match d.desc.writeAddr with
    | some p =>
      if d.dma = .running then
        some (d.setPbuf p { d.pbuf p with payload := Function.update (d.pbuf p).payload i b })
      else
        none
    | none => none
  | .dmaComplete f =>
    match d.desc.writeAddr with
    | some p =>
      if d.dma = .running then
        some { d.setPbuf p
            { d.pbuf p with payload := fun i => f.bytes.getD i ((d.pbuf p).payload i) } with
          desc := { d.desc with
            actualBytesTransferred := BitVec.ofNat 16 f.bytes.length, status := f.status }
          dma := .done, arrived := f.bytes }
      else
        none
    | none => none
  | .rxIsr =>
    if d.dma = .done then
      let accepted := if d.accepts N then d.accepted ++ [d.arrived] else d.accepted
      some { d.tseSgdmaRxIsr N with accepted := accepted }
    else
      none
  | .checkCount =>
    if d.input = .idle then
      if d.lwipRxCount ≤ 0 then some { d with ret := -1 } else some { d with input := .checked }
    else
      none
  | .pbufAlloc none =>
    if d.input = .checked then some { d with input := .idle, ret := -1 } else none
  | .pbufAlloc (some p) =>
    if d.input = .checked ∧ d.owner p = .pool then
      some { (d.setOwner p .input).setPbuf p (d.pbuf p).fresh with input := .allocated p }
    else
      none
  | .exchange =>
    match d.input with
    | .allocated p => some (d.exchange N p)
    | _ => none
  | .finish =>
    match d.input with
    | .exchanged p => some (d.finish p)
    | _ => none
  | .deliver =>
    match d.input with
    | .received p => some (d.deliver p)
    | _ => none
  | .stackAlloc p => if d.owner p = .pool then some (d.setOwner p .stack) else none
  | .stackWrite p b => if d.owner p = .stack then some (d.setPbuf p b) else none
  | .pbufFree p => if d.owner p = .stack then some (d.setOwner p .pool) else none
  | .others t => some { d with tcpip := t }

/-- What a step can do. -/
inductive Steps (d : Ethernetif P) : Action P → Ethernetif P → Prop
  | softwareReset : Steps d .softwareReset { d with dma := .off }
  | constructDesc (off : d.dma = .off) :
      Steps d .constructDesc { d.constructDesc with dma := .constructed }
  | aRxRead (constructed : d.dma = .constructed) : Steps d .aRxRead { d with dma := .running }
  | dmaWrite {i : Nat} {b : Byte} {p : P} (armed : d.desc.writeAddr = some p)
      (running : d.dma = .running) :
      Steps d (.dmaWrite i b)
        (d.setPbuf p { d.pbuf p with payload := Function.update (d.pbuf p).payload i b })
  | dmaComplete {f : RxFrame} {p : P} (armed : d.desc.writeAddr = some p)
      (running : d.dma = .running) :
      Steps d (.dmaComplete f)
        { d.setPbuf p { d.pbuf p with
          payload := fun i => f.bytes.getD i ((d.pbuf p).payload i) } with
          desc := { d.desc with
            actualBytesTransferred := BitVec.ofNat 16 f.bytes.length, status := f.status }
          dma := .done, arrived := f.bytes }
  | rxIsr (done : d.dma = .done) :
      Steps d .rxIsr { d.tseSgdmaRxIsr N with
        accepted := if d.accepts N then d.accepted ++ [d.arrived] else d.accepted }
  | empty (idle : d.input = .idle) (count : d.lwipRxCount ≤ 0) :
      Steps d .checkCount { d with ret := -1 }
  | checked (idle : d.input = .idle) (count : 0 < d.lwipRxCount) :
      Steps d .checkCount { d with input := .checked }
  | allocFails (checked : d.input = .checked) :
      Steps d (.pbufAlloc none) { d with input := .idle, ret := -1 }
  | allocated {p : P} (checked : d.input = .checked) (pool : d.owner p = .pool) :
      Steps d (.pbufAlloc (some p))
        { (d.setOwner p .input).setPbuf p (d.pbuf p).fresh with input := .allocated p }
  | exchange {p : P} (here : d.input = .allocated p) : Steps d .exchange (d.exchange N p)
  | finish {p : P} (here : d.input = .exchanged p) : Steps d .finish (d.finish p)
  | deliver {p : P} (here : d.input = .received p) : Steps d .deliver (d.deliver p)
  | stackAlloc {p : P} (pool : d.owner p = .pool) :
      Steps d (.stackAlloc p) (d.setOwner p .stack)
  | stackWrite {p : P} {b : Pbuf} (stack : d.owner p = .stack) :
      Steps d (.stackWrite p b) (d.setPbuf p b)
  | pbufFree {p : P} (stack : d.owner p = .stack) : Steps d (.pbufFree p) (d.setOwner p .pool)
  | others {t : Tcpip} : Steps d (.others t) { d with tcpip := t }

variable {N : Nat} {d t : Ethernetif P}

theorem steps_of_step {a : Action P} (h : step N d a = some t) : Steps N d a t := by
  cases a with
  | softwareReset =>
    cases h
    exact .softwareReset
  | constructDesc =>
    simp only [step, Option.ite_none_right_eq_some, Option.some.injEq] at h
    obtain ⟨hdma, rfl⟩ := h
    exact .constructDesc hdma
  | aRxRead =>
    simp only [step, Option.ite_none_right_eq_some, Option.some.injEq] at h
    obtain ⟨hdma, rfl⟩ := h
    exact .aRxRead hdma
  | dmaWrite i b =>
    simp only [step] at h
    split at h
    · next p haddr =>
      simp only [Option.ite_none_right_eq_some, Option.some.injEq] at h
      obtain ⟨hdma, rfl⟩ := h
      exact .dmaWrite haddr hdma
    · cases h
  | dmaComplete f =>
    simp only [step] at h
    split at h
    · next p haddr =>
      simp only [Option.ite_none_right_eq_some, Option.some.injEq] at h
      obtain ⟨hdma, rfl⟩ := h
      exact .dmaComplete haddr hdma
    · cases h
  | rxIsr =>
    simp only [step, Option.ite_none_right_eq_some, Option.some.injEq] at h
    obtain ⟨hdone, rfl⟩ := h
    exact .rxIsr hdone
  | checkCount =>
    simp only [step, Option.ite_none_right_eq_some] at h
    obtain ⟨hidle, h⟩ := h
    split at h
    · next hcount =>
      cases h
      exact .empty hidle hcount
    · next hcount =>
      cases h
      exact .checked hidle (not_le.mp hcount)
  | pbufAlloc nextPkt =>
    cases nextPkt with
    | none =>
      simp only [step, Option.ite_none_right_eq_some, Option.some.injEq] at h
      obtain ⟨hchecked, rfl⟩ := h
      exact .allocFails hchecked
    | some p =>
      simp only [step, Option.ite_none_right_eq_some, Option.some.injEq] at h
      obtain ⟨⟨hchecked, hpool⟩, rfl⟩ := h
      exact .allocated hchecked hpool
  | exchange =>
    simp only [step] at h
    split at h
    · next p hpc =>
      cases h
      exact .exchange hpc
    · cases h
  | finish =>
    simp only [step] at h
    split at h
    · next p hpc =>
      cases h
      exact .finish hpc
    · cases h
  | deliver =>
    simp only [step] at h
    split at h
    · next p hpc =>
      cases h
      exact .deliver hpc
    · cases h
  | stackAlloc p =>
    simp only [step, Option.ite_none_right_eq_some, Option.some.injEq] at h
    obtain ⟨hpool, rfl⟩ := h
    exact .stackAlloc hpool
  | stackWrite p b =>
    simp only [step, Option.ite_none_right_eq_some, Option.some.injEq] at h
    obtain ⟨hstack, rfl⟩ := h
    exact .stackWrite hstack
  | pbufFree p =>
    simp only [step, Option.ite_none_right_eq_some, Option.some.injEq] at h
    obtain ⟨hstack, rfl⟩ := h
    exact .pbufFree hstack
  | others t =>
    cases h
    exact .others

end Step

end FreeLwip.Driver
