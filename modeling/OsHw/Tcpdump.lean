import Mathlib.Data.List.Basic
import Mathlib.Tactic.Ring

/-! The packet callbacks of `tcpdump` with the option `-g min-max`, and the loop that calls them. All three count
a packet first, then test its length, and only then look at `--skip`. The system calls of a callback can fail and
the clock moves on, so a packet comes with what the system answers while it is handled. -/

namespace OsHw.Tcpdump

/-- A packet as `pcap_loop` hands it over: the header and the bytes. -/
structure Packet where
  seconds : Int
  microseconds : Int
  caplen : UInt32
  len : UInt32
  bytes : List UInt8
deriving DecidableEq

/-- A packet with what happens around its callback. -/
structure Arrival where
  packet : Packet
  /-- `SIGNAL_REQ_INFO` comes before the callback. -/
  signal : Bool
  /-- `time(NULL)`, `none` when it fails. -/
  time : Option Int
  /-- `pcap_dump_ftell` works. -/
  tells : Bool
  /-- A name can be made for the next file, and the file opened. -/
  opens : Bool
deriving DecidableEq

def INT_MAX : Nat := 2 ^ 31 - 1

/-- The options the callbacks look at, as far as `main` accepts them. -/
structure Options where
  cnt : Int
  packetsToSkip : UInt32
  countMode : Bool
  filterByLength : Bool
  minLength : UInt32
  maxLength : UInt32
  uflag : Bool
  gflag : Int
  cflag : Int
  wflag : Int
  wflagChars : Int
  /-- `dump_info->ndo` is set: `--print` together with `-w`. -/
  ndo : Bool
  cnt_range : cnt = -1 ∨ 1 ≤ cnt
  skip_le : packetsToSkip.toNat ≤ INT_MAX
  no_overflow : cnt ≠ -1 → packetsToSkip.toNat ≤ INT_MAX - cnt
  range : minLength ≤ maxLength

/-- What `MakeFilename` makes a name from, besides the argument of `-w`. -/
structure FileName where
  stamp : Option Int
  number : Option Int
deriving DecidableEq

def makeFilename (o : Options) (gflagTime cnt maxChars : Int) : FileName where
  stamp := if o.gflag ≠ 0 then some gflagTime else none
  number := if cnt = 0 ∧ maxChars = 0 then none else some cnt

inductive Event where
  | dump (file : FileName) (p : Packet)
  | flush
  | print (p : Packet) (number : UInt32)
  | info (captured : UInt32)
  | close (file : FileName)
  | limit
deriving DecidableEq

/-- Why the program ends inside a callback. -/
inductive Stop where
  | fileLimit
  | error
deriving DecidableEq

structure State where
  packetsCaptured : UInt32
  infodelay : Int
  infoprint : Bool
  gflagTime : Int
  gflagCount : Int
  cflagCount : Int
  file : FileName
  /-- The size of the current file. -/
  size : Int
  /-- The lengths in the lines `Packet length: …`. -/
  notes : List UInt32
  out : List Event
  stopped : Option Stop

namespace State

def emit (s : State) (e : Event) : State := { s with out := s.out ++ [e] }

def info (s : State) : State := { s.emit (.info s.packetsCaptured) with infoprint := false }

def requestinfo (s : State) : State := if s.infodelay ≠ 0 then { s with infoprint := true } else s.info

def setNotes (s : State) (notes : List UInt32) : State := { s with notes := notes }

/-- A packet comes in. -/
def enter (s : State) : State :=
  { s with packetsCaptured := s.packetsCaptured + 1, infodelay := s.infodelay + 1 }

def release (s : State) : State := { s with infodelay := s.infodelay - 1 }

def stop (s : State) (why : Stop) : State := { s with stopped := some why }

end State

/-- The part the three callbacks share: the packet is counted, and a packet of the wrong length is left. -/
def onLength (o : Options) (s : State) (p : Packet) (body : State → State) : State :=
  if o.filterByLength then
    if p.len < o.minLength ∨ p.len > o.maxLength then s.enter.release
    else body (s.enter.setNotes (s.notes ++ [p.len]))
  else body s.enter

/-- The end of a callback. -/
def leave (s : State) : State := if s.infoprint then s.release.info else s.release

/-- The size of the header of a file. -/
def fileHeader : Int := 24

/-- The size of a packet of a file without its bytes. -/
def packetHeader : Int := 16

/-- `pcap_dump`, the flush, and the print of the packet when `--print` is given. -/
def writePacket (o : Options) (s : State) (p : Packet) : State :=
  let s := { s.emit (.dump s.file p) with size := s.size + packetHeader + p.caplen.toNat }
  let s := if o.uflag then s.emit .flush else s
  if o.ndo then s.emit (.print p s.packetsCaptured) else s

def openNewDumpFile (s : State) (a : Arrival) (name : FileName) : State :=
  if a.opens then { s with file := name, size := fileHeader } else s.stop .error

/-- The rotation by time, `-G`. -/
def rotateByTime (o : Options) (s : State) (a : Arrival) : State :=
  if o.gflag ≠ 0 then
    match a.time with
    | none => s.stop .error
    | some t =>
        if t - s.gflagTime ≥ o.gflag then
          let s := { s.emit (.close s.file) with gflagTime := t, gflagCount := s.gflagCount + 1 }
          if o.cflag = 0 ∧ o.wflag > 0 ∧ s.gflagCount ≥ o.wflag then
            (s.emit .limit).info.stop .fileLimit
          else
            let chars := if o.cflag ≠ 0 then o.wflagChars else 0
            openNewDumpFile { s with cflagCount := 0 } a (makeFilename o t 0 chars)
        else s
  else s

/-- The rotation by size, `-C`. -/
def rotateBySize (o : Options) (s : State) (a : Arrival) : State :=
  if o.cflag ≠ 0 then
    if !a.tells then s.stop .error
    else if s.size > o.cflag then
      let count := if o.wflag > 0 ∧ s.cflagCount + 1 ≥ o.wflag then 0 else s.cflagCount + 1
      openNewDumpFile { s.emit (.close s.file) with cflagCount := count } a
        (makeFilename o s.gflagTime count o.wflagChars)
    else s
  else s

/-- The callbacks `main` chooses from. -/
inductive Callback where
  | printPacket
  | dumpPacket
  | dumpPacketAndTrunc
deriving DecidableEq

/-- What a callback does behind the test of the length. -/
def Callback.body (o : Options) (a : Arrival) : Callback → State → State
  | .printPacket, s =>
      leave (if !o.countMode ∧ s.packetsCaptured > o.packetsToSkip then s.emit (.print a.packet s.packetsCaptured)
        else s)
  | .dumpPacket, s => if s.packetsCaptured ≤ o.packetsToSkip then s else leave (writePacket o s a.packet)
  | .dumpPacketAndTrunc, s =>
      if s.packetsCaptured ≤ o.packetsToSkip then s
      else
        let s := rotateByTime o s a
        if s.stopped.isSome then s
        else
          let s := rotateBySize o s a
          if s.stopped.isSome then s else leave (writePacket o s a.packet)

def Callback.call (o : Options) (c : Callback) (s : State) (a : Arrival) : State := onLength o s a.packet (c.body o a)

/-- One turn of the loop; a program that has ended handles nothing more. -/
def handle (o : Options) (c : Callback) (s : State) (a : Arrival) : State :=
  if s.stopped.isSome then s else c.call o (if a.signal then s.requestinfo else s) a

/-- The state before the first packet, with the first file open. -/
def State.start (time : Int) (file : FileName) : State where
  packetsCaptured := 0
  infodelay := 0
  infoprint := false
  gflagTime := time
  gflagCount := 0
  cflagCount := 0
  file := file
  size := fileHeader
  notes := []
  out := []
  stopped := none

namespace State

/-- The packets that were printed. -/
def printed (s : State) : List Packet :=
  s.out.filterMap fun e =>
    match e with
    | .print p _ => some p
    | _ => none

/-- The packets that were dumped. -/
def dumped (s : State) : List Packet :=
  s.out.filterMap fun e =>
    match e with
    | .dump _ p => some p
    | _ => none

end State

end OsHw.Tcpdump
