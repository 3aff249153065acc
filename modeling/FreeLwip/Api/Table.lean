import Mathlib.Data.BitVec
import Mathlib.Logic.Function.Basic

/-!
# The table of sockets (`sockets.c`)

A descriptor is an index into the table, shifted by LWIP_SOCKET_OFFSET past the descriptors of
the HAL.
-/

namespace FreeLwip.Api

/-- `ALT_MAX_FD` of `system.h`. -/
def altMaxFd : Int := 32

def lwipSocketOffset : Int := altMaxFd

/-- `MEMP_NUM_NETCONN`: the raw, UDP, TCP and listening TCP pcbs of `system.h`. -/
def numSockets : Nat := 2 + 15 + 15 + 10

/-- A `struct netconn *`. -/
abbrev ConnId := Nat

inductive NetconnType
  | tcp | udp | udplite | raw
  deriving DecidableEq, Repr

inductive NetconnEvt
  | rcvplus | rcvminus | sendplus | sendminus | error
  deriving DecidableEq, Repr

structure LwipSock where
  conn : Option ConnId
  rcvevent : BitVec 16
  sendevent : Bool
  errevent : Bool
  selectWaiting : Int

abbrev Sockets := Nat → LwipSock

/-- An unused entry, as the table is filled with at start-up. -/
def LwipSock.zero : LwipSock := ⟨none, 0, false, false, 0⟩

/-- The fields that `alloc_socket` sets once the entry is marked as used. -/
def LwipSock.reset (sock : LwipSock) (type : NetconnType) (accepted : Bool) : LwipSock :=
  { sock with
    rcvevent := 0
    -- A TCP socket is not writable until it is connected.
    sendevent := if type = .tcp then accepted else true
    errevent := false
    selectWaiting := 0 }

def LwipSock.setEvent (sock : LwipSock) : NetconnEvt → LwipSock
  | .rcvplus => { sock with rcvevent := sock.rcvevent + 1 }
  | .rcvminus => { sock with rcvevent := sock.rcvevent - 1 }
  | .sendplus => { sock with sendevent := true }
  | .sendminus => { sock with sendevent := false }
  | .error => { sock with errevent := true }

@[simp] theorem LwipSock.reset_conn (sock : LwipSock) (type : NetconnType) (accepted : Bool) :
    (sock.reset type accepted).conn = sock.conn := rfl

@[simp] theorem LwipSock.setEvent_conn (sock : LwipSock) (evt : NetconnEvt) :
    (sock.setEvent evt).conn = sock.conn := by
  cases evt <;> rfl

def getSocket (sockets : Sockets) (s : Int) : Option Nat :=
  let i := s - lwipSocketOffset
  if i < 0 ∨ i ≥ numSockets then none
  else if (sockets i.toNat).conn.isNone then none
  else some i.toNat

def trygetSocket (sockets : Sockets) (s : Int) : Option Nat :=
  let i := s - lwipSocketOffset
  if i < 0 ∨ i ≥ numSockets then none
  else if (sockets i.toNat).conn.isNone then none
  else some i.toNat

section Lookup

variable {sockets : Sockets} {s : Int} {i : Nat}

theorem trygetSocket_eq : trygetSocket sockets s = getSocket sockets s := rfl

theorem getSocket_eq_some :
    getSocket sockets s = some i ↔
      s = lwipSocketOffset + i ∧ i < numSockets ∧ (sockets i).conn ≠ none := by
  unfold getSocket
  simp only
  split
  · next hrange =>
    simp only [reduceCtorEq, false_iff]
    rintro ⟨rfl, hlt, -⟩
    omega
  · next hrange =>
    obtain ⟨j, hj⟩ : ∃ j : Nat, s - lwipSocketOffset = j := ⟨(s - lwipSocketOffset).toNat, by omega⟩
    rw [hj, Int.toNat_natCast]
    cases hconn : (sockets j).conn with
    | none =>
      simp only [Option.isNone_none, if_true, reduceCtorEq, false_iff]
      rintro ⟨hs, -, hne⟩
      obtain rfl : i = j := by omega
      exact hne hconn
    | some c =>
      simp only [Option.isNone_some, Bool.false_eq_true, if_false, Option.some.injEq]
      constructor
      · rintro rfl
        exact ⟨by omega, by omega, by simp [hconn]⟩
      · rintro ⟨hs, -, -⟩
        omega

theorem getSocket_offset (hi : i < numSockets) (hconn : (sockets i).conn ≠ none) :
    getSocket sockets (lwipSocketOffset + i) = some i :=
  getSocket_eq_some.mpr ⟨rfl, hi, hconn⟩

end Lookup

end FreeLwip.Api
