import Mathlib.Order.Basic

namespace OpenAFS.Ubik

/-- `0xffffffff`, which `vote.c` keeps where it has not voted for anyone. -/
def noHost : Nat := 0xffffffff

def maxSkew : Int := 10
def pollTime : Int := 15
def bigTime : Int := 75
def smallTime : Int := 60

structure UbikVersion where
  epoch : Int
  counter : Int
  deriving DecidableEq, Repr

structure UbikTid where
  epoch : Int
  counter : Int
  deriving DecidableEq, Repr

/-- The `vcmp` macro: positive, zero or negative as `a` is newer than, the same as or older than `b`. -/
def vcmp (a b : UbikVersion) : Int :=
  if a.epoch = b.epoch then a.counter - b.counter else a.epoch - b.epoch

structure UbikServer where
  addr : Nat
  lastVoteTime : Int := 0
  lastBeaconSent : Int := 0
  version : UbikVersion := ⟨0, 0⟩
  lastVote : Bool := false
  up : Bool := false
  beaconSinceDown : Bool := false
  currentDB : Bool := false
  magic : Bool := false
  isClone : Bool := false
  deriving DecidableEq, Repr

end OpenAFS.Ubik
