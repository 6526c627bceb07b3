import OpenAFS.Vlserver.Procs

namespace OpenAFS.Vlserver

open Lib

/-- `VL_MAXIPADDRS_PERMH`, `VL_MHSRV_PERBLK` and `VL_MAX_ADDREXTBLKS`. -/
def maxIpAddrsPerMh : Nat := 15
def mhSrvPerBlk : Nat := 64
def maxAddrExtBlks : Nat := 4

abbrev Uuid := BitVec 128

structure ExtentAddr where
  hostUuid : Uuid := 0
  uniquifier : UInt32 := 0
  addrs : Nat → UInt32 := fun _ => 0

/-- An extension block. The places of its entries begin at 1; the first block also holds the addresses of the others. -/
structure ExtentBlock where
  flags : UInt32 := 0
  contaddrs : Nat → Nat := fun _ => 0
  server : Nat → ExtentAddr := fun _ => {}

/-- `vlheader`, without its hash tables. -/
structure VlHeader where
  vldbVersion : Nat := 0
  freePtr : Nat := 0
  eofPtr : Nat := 0
  allocs : Nat := 0
  maxVolumeId : Nat := 0
  ipMappedAddr : Nat → UInt32 := fun _ => 0
  sit : Nat := 0

/-- What the server keeps of the database from one transaction to the next. -/
structure Globals where
  cheader : VlHeader := {}
  hostAddress : Nat → UInt32 := fun _ => 0
  /-- `ex_addr`; `none` is a null pointer. -/
  exAddr : Nat → Option ExtentBlock := fun _ => none
  extentMod : Bool := false

def slots : List Nat := List.range (maxServerId + 1)

def isMultiHomed (host : UInt32) : Bool := host &&& 0xff000000 = 0xff000000

def extentBase (host : UInt32) : Nat := (host >>> 16 &&& 0xff).toNat

def extentIndex (host : UInt32) : Nat := (host &&& 0xffff).toNat

def extentHost (base index : Nat) : UInt32 :=
  (0xff000000 : UInt32) ||| (UInt32.ofNat base <<< 16 &&& 0xff0000) ||| (UInt32.ofNat index &&& 0xffff)

namespace ExtentAddr

def list (exp : ExtentAddr) : List UInt32 := ((List.range maxIpAddrsPerMh).map exp.addrs).filter (· ≠ 0)

end ExtentAddr

namespace Globals

variable (g : Globals)

def extentAddr (host : UInt32) : Option ExtentAddr :=
  if extentBase host < maxAddrExtBlks ∧ extentIndex host < mhSrvPerBlk then
    (g.exAddr (extentBase host)).map fun block => block.server (extentIndex host)
  else none

/-- The first loop of `IpAddrToRelAddr`; an error is its -1 for a number that stands for no entry. -/
def findServer (ipaddr : UInt32) : List Nat → Except Unit (Option Nat)
  | [] => .ok none
  | i :: rest =>
    if g.hostAddress i = ipaddr then .ok (some i)
    else if isMultiHomed (g.hostAddress i) then
      match g.extentAddr (g.hostAddress i) with
      | none => .error ()
      | some exp => if ipaddr ∈ exp.list then .ok (some i) else findServer ipaddr rest
    else findServer ipaddr rest

/-- `IpAddrToRelAddr` in a transaction; `none` is -1. -/
def ipAddrToRelAddr (ipaddr : UInt32) : Option (Globals × Nat) :=
  match g.findServer ipaddr slots with
  | .error () => none
  | .ok (some i) => some (g, i)
  | .ok none =>
    (slots.find? fun i => g.cheader.ipMappedAddr i = 0).map fun i =>
      ({ g with
        cheader.ipMappedAddr := Function.update g.cheader.ipMappedAddr i ipaddr
        hostAddress := Function.update g.hostAddress i ipaddr }, i)

end Globals

end OpenAFS.Vlserver
