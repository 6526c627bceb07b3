import OpenAFS.Lib.Fallible
import OpenAFS.Lib.FileBytes

namespace OpenAFS.Vol

open Lib

abbrev Bytes := List UInt8

def streamHandleBufsize : Nat := 2048

inductive Outcome where
  | done
  | short (n : Nat)
  | failed
  deriving DecidableEq

structure Os where
  file : Bool → Bytes
  outcome : Nat → Outcome := fun _ => .done
  calls : Nat := 0

namespace Os

variable (os : Os)

def call : Os × Outcome := ({ os with calls := os.calls + 1 }, os.outcome os.calls)

/-- `OS_READ`; `none` is -1. -/
def read (fd : Bool) (pos n : Nat) : Os × Option Bytes :=
  match os.call with
  | (os, .failed) => (os, none)
  | (os, .short k) => (os, some (pread (os.file fd) pos (min n k)))
  | (os, .done) => (os, some (pread (os.file fd) pos n))

def setFile (fd : Bool) (bytes : Bytes) : Os := { os with file := Function.update os.file fd bytes }

/-- `OS_WRITE`: how much has been written. -/
def write (fd : Bool) (pos : Nat) (data : Bytes) : Os × Option Nat :=
  match os.call with
  | (os, .failed) => (os, none)
  | (os, .short k) => (os.setFile fd (pwrite (os.file fd) pos (data.take k)), some (min data.length k))
  | (os, .done) => (os.setFile fd (pwrite (os.file fd) pos data), some data.length)

/-- `OS_TRUNC`; `false` is -1. -/
def trunc (fd : Bool) (length : Int) : Os × Bool :=
  match os.call with
  | (os, .failed) => (os, false)
  | (os, _) => if length < 0 then (os, false) else (os.setFile fd (ftruncate (os.file fd) length.toNat), true)

def attempt : Os × Bool :=
  match os.call with
  | (os, .failed) => (os, false)
  | (os, _) => (os, true)

end Os

inductive Direction where
  | none
  | read
  | write
  deriving DecidableEq

/-- `StreamHandle_t`: the buffer is what is left to be read of `str_buffer`, or what has been put into it. -/
structure StreamHandle where
  fd : Bool
  pos : Nat := 0
  direction : Direction := .none
  buffer : Bytes := []
  error : Bool := false
  eof : Bool := false

inductive Stop where
  | assertion
  /-- The list of inodes is used before it has been made. -/
  | uninitialized
  | endless
  deriving DecidableEq

/-- The loop of `stream_read`, with the bytes so far. -/
def readLoop (os : Os) (s : StreamHandle) (got : Bytes) (nbytes : Nat) : Nat → Os × StreamHandle × Bytes
  | 0 => (os, s, got)
  | fuel + 1 =>
    if nbytes = 0 ∨ s.eof then (os, s, got)
    else if s.buffer = [] then
      match os.read s.fd s.pos streamHandleBufsize with
      | (os, none) => (os, { s with error := true }, [])
      | (os, some []) => (os, { s with eof := true }, got)
      | (os, some buffer) =>
        readLoop os { s with pos := s.pos + buffer.length, buffer := buffer.drop nbytes } (got ++ buffer.take nbytes)
          (nbytes - buffer.length) fuel
    else
      readLoop os { s with buffer := s.buffer.drop nbytes } (got ++ s.buffer.take nbytes) (nbytes - s.buffer.length) fuel

def streamRead (os : Os) (s : StreamHandle) (size : Nat) : Except Stop (Os × StreamHandle × Bytes) := do
  ensure (s.direction ≠ .write) .assertion
  .ok (readLoop os { s with direction := .read, buffer := if s.direction = .none then [] else s.buffer } [] size size)

/-- The loop of `stream_write` over the bytes that are left, with how many it has put into the buffer. -/
def writeLoop (os : Os) (s : StreamHandle) (p : Bytes) (written : Nat) : Nat → Os × StreamHandle × Nat
  | 0 => (os, s, written)
  | fuel + 1 =>
    if p = [] then (os, s, written)
    else if s.buffer.length = streamHandleBufsize then
      match os.write s.fd s.pos s.buffer with
      | (os, none) => (os, { s with error := true }, 0)
      | (os, some n) =>
        writeLoop os { s with pos := s.pos + n, buffer := p.take streamHandleBufsize } (p.drop streamHandleBufsize)
          (written + min p.length streamHandleBufsize) fuel
    else
      let room := streamHandleBufsize - s.buffer.length
      writeLoop os { s with buffer := s.buffer ++ p.take room } (p.drop room) (written + min p.length room) fuel

/-- `stream_write` of one item: how many bytes were taken. -/
def streamWrite (os : Os) (s : StreamHandle) (p : Bytes) : Except Stop (Os × StreamHandle × Nat) := do
  ensure (s.direction ≠ .read) .assertion
  .ok (writeLoop os { s with direction := .write, buffer := if s.direction = .none then [] else s.buffer } p 0 p.length)

/-- The last write of a buffer; `false` if it fails. -/
def drain (os : Os) (s : StreamHandle) : Os × Nat × Bool :=
  if s.direction = .write ∧ s.buffer ≠ [] then
    match os.write s.fd s.pos s.buffer with
    | (os, none) => (os, s.pos, false)
    | (os, some n) => (os, s.pos + n, true)
  else (os, s.pos, true)

/-- `stream_seek` from the beginning; `false` is -1. -/
def streamSeek (os : Os) (s : StreamHandle) (offset : Int) : Os × StreamHandle × Bool :=
  let (os, pos, written) := drain os s
  let (os, moved) := os.attempt
  if moved ∧ 0 ≤ offset then
    (os, { s with pos := offset.toNat, buffer := [], eof := false, direction := .none, error := s.error || !written }, written)
  else (os, { s with pos, buffer := [], eof := false, direction := .none, error := true }, false)

/-- `stream_close`; `false` is -1. -/
def streamClose (os : Os) (s : StreamHandle) : Os × Bool :=
  let (os, _, written) := drain os s
  (os, written)

end OpenAFS.Vol
