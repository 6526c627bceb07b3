import Mathlib.Data.BitVec

namespace OpenAFS.Lwp

structure Lock where
  waitStates : BitVec 8
  exclLocked : BitVec 8
  readersReading : BitVec 8
  numWaiting : BitVec 8
  deriving DecidableEq, Repr

def readLock : BitVec 8 := 1
def writeLock : BitVec 8 := 2
def sharedLock : BitVec 8 := 4

def exclLocks : BitVec 8 := writeLock ||| sharedLock

inductive How where
  | read
  | write
  | shared
  | boosted
  deriving DecidableEq, Repr

inductive Event where
  | readersReading
  | exclLocked
  deriving DecidableEq, Repr

def How.event : How → Event
  | .read => .readersReading
  | .write | .shared | .boosted => .exclLocked

namespace Lock

def init : Lock := ⟨0, 0, 0, 0⟩

inductive Outcome where
  | got (l : Lock)
  | asleep (l : Lock)
  deriving DecidableEq, Repr

def waitBit : How → BitVec 8
  | .read => readLock
  | .write => writeLock
  | .shared => sharedLock
  | .boosted => writeLock

def mustWait (l : Lock) : How → Bool
  | .read => l.exclLocked &&& writeLock ≠ 0
  | .write => l.exclLocked ≠ 0 ∨ l.readersReading ≠ 0
  | .shared => l.exclLocked ≠ 0
  | .boosted => l.readersReading ≠ 0

def take (l : Lock) : How → Lock
  | .read => { l with readersReading := l.readersReading + 1 }
  | .write => { l with exclLocked := writeLock }
  | .shared => { l with exclLocked := sharedLock }
  | .boosted => { l with exclLocked := writeLock }

def afsLockObtain (l : Lock) (how : How) : Lock :=
  { l with numWaiting := l.numWaiting + 1, waitStates := l.waitStates ||| waitBit how }

def afsLockWoken (l : Lock) (how : How) : Outcome :=
  if l.mustWait how then
    .asleep { l with waitStates := l.waitStates ||| waitBit how }
  else
    .got ({ l with numWaiting := l.numWaiting - 1 }.take how)

def afsLockWakeupR (l : Lock) : Lock × Option Event :=
  if l.waitStates &&& readLock ≠ 0 then
    ({ l with waitStates := l.waitStates &&& ~~~readLock }, some .readersReading)
  else
    (l, none)

def afsLockReleaseR (l : Lock) : Lock × Option Event :=
  if l.waitStates &&& readLock ≠ 0 then
    ({ l with waitStates := l.waitStates &&& ~~~readLock }, some .readersReading)
  else
    ({ l with waitStates := l.waitStates &&& ~~~exclLocks }, some .exclLocked)

def afsLockReleaseW (l : Lock) : Lock × Option Event :=
  if l.waitStates &&& exclLocks ≠ 0 then
    ({ l with waitStates := l.waitStates &&& ~~~exclLocks }, some .exclLocked)
  else
    ({ l with waitStates := l.waitStates &&& ~~~readLock }, some .readersReading)

def free (l : Lock) : How → Bool
  | .read => ¬ l.exclLocked &&& writeLock ≠ 0 ∧ ¬ l.waitStates ≠ 0
  | .write => ¬ l.exclLocked ≠ 0 ∧ ¬ l.readersReading ≠ 0
  | .shared => ¬ l.exclLocked ≠ 0 ∧ ¬ l.waitStates ≠ 0
  | .boosted => ¬ l.readersReading ≠ 0

def obtain (how : How) (l : Lock) : Outcome :=
  if l.free how then .got (l.take how) else .asleep (l.afsLockObtain how)

def obtainNoBlock (how : How) (l : Lock) : Option Lock :=
  if l.free how then some (l.take how) else none

def obtainReadLock : Lock → Outcome := obtain .read
def obtainReadLockNoBlock : Lock → Option Lock := obtainNoBlock .read
def obtainWriteLock : Lock → Outcome := obtain .write
def obtainWriteLockNoBlock : Lock → Option Lock := obtainNoBlock .write
def obtainSharedLock : Lock → Outcome := obtain .shared
def obtainSharedLockNoBlock : Lock → Option Lock := obtainNoBlock .shared
def boostSharedLock : Lock → Outcome := obtain .boosted

def unboostSharedLock (l : Lock) : Lock × Option Event :=
  let l := { l with exclLocked := sharedLock }
  if l.waitStates ≠ 0 then l.afsLockReleaseR else (l, none)

def releaseReadLock (l : Lock) : Lock × Option Event :=
  let l := { l with readersReading := l.readersReading - 1 }
  if l.readersReading = 0 ∧ l.waitStates ≠ 0 then l.afsLockReleaseW else (l, none)

def releaseWriteLock (l : Lock) : Lock × Option Event :=
  let l := { l with exclLocked := l.exclLocked &&& ~~~writeLock }
  if l.waitStates ≠ 0 then l.afsLockReleaseR else (l, none)

def releaseSharedLock (l : Lock) : Lock × Option Event :=
  let l := { l with exclLocked := l.exclLocked &&& ~~~(sharedLock ||| writeLock) }
  if l.waitStates ≠ 0 then l.afsLockReleaseR else (l, none)

def convertWriteToReadLock (l : Lock) : Lock × Option Event :=
  let l := { l with exclLocked := l.exclLocked &&& ~~~writeLock, readersReading := l.readersReading + 1 }
  if l.waitStates &&& readLock ≠ 0 then l.afsLockWakeupR else (l, none)

end Lock

end OpenAFS.Lwp
