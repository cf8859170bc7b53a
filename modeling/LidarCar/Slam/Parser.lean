-- SUMMARY: The byte-level parser of EAI_X4.c: one step is what the thread does between two calls of `eaix4_getchar`.
import Mathlib.Data.List.Range
import LidarCar.Slam.Memory

/-!
# The lidar parser

`EAI_X4_GetDate` and `manipulationData` only ever wait in `eaix4_getchar`, so a
thread that runs them is a machine whose input is the next received byte and
whose program counter is the call of `eaix4_getchar` it waits in.
-/

namespace Slam

/-! ## Recording the samples of a point packet -/

/-- `angleDiff` of a packet that crosses 0 degrees. The operands are promoted to
`int`; the quotient is truncated to `rt_uint16_t`. -/
def angleDiffAcross (fsa lsa : UInt16) (lsn : UInt8) : UInt16 :=
  .ofInt ((((lsa >>> 1).toNat : Int) + (23040 - ((fsa >>> 1).toNat : Int))).tdiv lsn.toNat)

/-- `angleDiff` of a packet that does not cross 0 degrees. -/
def angleDiffWithin (fsa lsa : UInt16) (lsn : UInt8) : UInt16 :=
  .ofInt ((((lsa >>> 1).toNat : Int) - ((fsa >>> 1).toNat : Int)).tdiv lsn.toNat)

/-- The angle stored for sample `i`, in the loop of either branch. -/
def sampleAngle (fsa lsa : UInt16) (lsn : UInt8) (i : Nat) : UInt16 :=
  if fsa > lsa then
    let angle := UInt16.ofNat (i * (angleDiffAcross fsa lsa lsn).toNat)
    let stored := (fsa >>> 1) + angle
    if stored > 23040 then stored - 23040 else stored
  else
    let angle := UInt16.ofNat (i * (angleDiffWithin fsa lsa lsn).toNat)
    (fsa >>> 1) + angle

/-- One iteration of the loops that record the samples: a zero sample is no point. -/
def recordSample (p : PackAge) (g : Globals) (i : Nat) : Globals × List Effect :=
  if p.buf i ≠ 0 then
    g.storePoint { angle := sampleAngle p.fsa p.lsa p.lsn i, distance := p.buf i }
  else
    (g, [])

/-- The division and the loop at the end of a point packet. -/
def recordPoints (p : PackAge) (g : Globals) : Globals × List Effect :=
  let r := Machine.run (recordSample p) g (List.range p.lsn.toNat)
  (r.1, .divide p.lsn :: r.2)

/-! ## Program counters -/

/-- The two packet kinds by their CT byte. -/
inductive Kind where
  | point
  | start
  deriving DecidableEq, Repr

/-- The reads that both packet kinds make before their samples. The `Shift`
reads are the second of the two assignments of a 16-bit field. -/
inductive Field where
  | lsn
  | fsa
  | fsaShift
  | lsa
  | lsaShift
  | cs
  | csShift
  deriving DecidableEq, Repr

def Field.next : Field → Option Field
  | .lsn => some .fsa
  | .fsa => some .fsaShift
  | .fsaShift => some .lsa
  | .lsa => some .lsaShift
  | .lsaShift => some .cs
  | .cs => some .csShift
  | .csShift => none

/-- The calls of `eaix4_getchar` in `manipulationData`. -/
inductive ManipPc where
  /-- `eaix4_getchar() == 0xAA` -/
  | head
  /-- `eaix4_getchar() == 0x55` -/
  | head2
  /-- `ct = eaix4_getchar()` -/
  | ct
  | field (k : Kind) (f : Field)
  /-- `package.buf[i] = eaix4_getchar()` -/
  | buf (i : Nat)
  /-- `package.buf[i] = eaix4_getchar() << 8` -/
  | bufShift (i : Nat)
  /-- `package.buf[0] = eaix4_getchar()` of a start packet -/
  | buf0
  /-- `package.buf[0] = eaix4_getchar() << 8` of a start packet -/
  | buf0Shift
  deriving DecidableEq, Repr

/-- The calls of `eaix4_getchar` in `EAI_X4_GetDate`. -/
inductive GetDatePc where
  /-- `eaix4_getchar() == 0xA5` -/
  | head
  /-- `eaix4_getchar() == 0x5A` -/
  | head2
  /-- `reply[i] = eaix4_getchar()`, with `reply[0..i)` read so far -/
  | reply (got : List UInt8)
  /-- `Eaix4Version[i] = eaix4_getchar()` -/
  | version (i : Nat)
  /-- `Eaix4Health[i] = eaix4_getchar()` -/
  | health (i : Nat)
  deriving DecidableEq, Repr

inductive Pc where
  | getDate (q : GetDatePc)
  | manip (q : ManipPc)
  deriving DecidableEq, Repr

/-- The parser thread: where it waits, its packet buffer and the globals. -/
structure Parser extends Globals where
  pc : Pc
  package : PackAge

/-- The parser is inside `manipulationData`. -/
def Parser.inManip (s : Parser) : Bool :=
  match s.pc with
  | .manip _ => true
  | .getDate _ => false

/-! ## manipulationData -/

/-- `package.lsn = eaix4_getchar()` and its siblings. Each `<< 8` assignment
replaces the field, as the source has it. -/
def readField (f : Field) (p : PackAge) (b : UInt8) : PackAge :=
  match f with
  | .lsn => { p with lsn := b }
  | .fsa => { p with fsa := b.toUInt16 }
  | .fsaShift => { p with fsa := b.toUInt16 <<< 8 }
  | .lsa => { p with lsa := b.toUInt16 }
  | .lsaShift => { p with lsa := b.toUInt16 <<< 8 }
  | .cs => { p with cs := b.toUInt16 }
  | .csShift => { p with cs := b.toUInt16 <<< 8 }

/-- `package.buf[i] = w`. -/
def PackAge.setBuf (p : PackAge) (i : Nat) (w : UInt16) : PackAge :=
  { p with buf := Function.update p.buf i w }

/-- The head of the sample loop. `i` is an `rt_uint8_t` below `package.lsn`, so
`i++` does not wrap. -/
def sampleLoop (s : Parser) (i : Nat) : Parser × List Effect :=
  if i < s.package.lsn.toNat then
    ({ s with pc := .manip (.buf i) }, [])
  else
    let r := recordPoints s.package s.toGlobals
    ({ s with toGlobals := r.1, pc := .manip .head }, r.2)

/-- The branch `ct == 0x01`, up to its next `eaix4_getchar` or its `break`. The
source tests `circle == 6` under `circle > 1`. -/
def startPacket (s : Parser) : Parser × List Effect :=
  let r := s.toGlobals.openTurn
  if r.1.circle = 6 then
    ({ s with toGlobals := { r.1 with circle := 0 }, pc := .getDate .head },
      r.2 ++ [.putchar 0xA5, .putchar 0x65, .eventSend])
  else
    ({ s with toGlobals := r.1, pc := .manip (.field .start .lsn) }, r.2)

/-- `manipulationData`, from the byte `b` that the call at `q` returns to the
next call of `eaix4_getchar`. -/
def manipulationData (q : ManipPc) (s : Parser) (b : UInt8) : Parser × List Effect :=
  match q with
  | .head => ({ s with pc := .manip (if b = 0xAA then .head2 else .head) }, [])
  | .head2 => ({ s with pc := .manip (if b = 0x55 then .ct else .head) }, [])
  | .ct =>
    if b = 0x00 then ({ s with pc := .manip (.field .point .lsn) }, [])
    else if b = 0x01 then startPacket s
    else ({ s with pc := .getDate .head }, [])
  | .field k f =>
    let s := { s with package := readField f s.package b }
    match f.next, k with
    | some f', k => ({ s with pc := .manip (.field k f') }, [])
    | none, .point => sampleLoop s 0
    | none, .start => ({ s with pc := .manip .buf0 }, [])
  | .buf i =>
    ({ s with package := s.package.setBuf i b.toUInt16, pc := .manip (.bufShift i) }, [.buf i])
  | .bufShift i =>
    let r := sampleLoop { s with package := s.package.setBuf i (b.toUInt16 <<< 8) } (i + 1)
    (r.1, .buf i :: r.2)
  | .buf0 =>
    ({ s with package := s.package.setBuf 0 b.toUInt16, pc := .manip .buf0Shift }, [.buf 0])
  | .buf0Shift =>
    let p := s.package.setBuf 0 (b.toUInt16 <<< 8)
    let turn := s.circle.toInt - 1
    let g := Globals.storeFirstpoint s.toGlobals turn { angle := p.fsa >>> 1, distance := p.buf 0 }
    ({ s with toGlobals := g, package := p, pc := .manip .head }, [.buf 0, .firstpoint turn])

/-! ## EAI_X4_GetDate -/

def scanReply : List UInt8 := [0x05, 0x00, 0x00, 0x40, 0x81]

def versionReply : List UInt8 := [0x14, 0x00, 0x00, 0x00, 0x04]

def healthReply : List UInt8 := [0x03, 0x00, 0x00, 0x00, 0x06]

/-- The 7-byte scan response header. -/
def scanHeader : List UInt8 := 0xA5 :: 0x5A :: scanReply

/-- Where `EAI_X4_GetDate` goes on when `reply` is complete. -/
def afterReply (reply : List UInt8) : Pc :=
  if reply = scanReply then .manip .head
  else if reply = versionReply then .getDate (.version 0)
  else if reply = healthReply then .getDate (.health 0)
  else .getDate .head

/-- `EAI_X4_GetDate`, from the byte `b` that the call at `q` returns to the next
call of `eaix4_getchar`. What it prints is left out. -/
def eaiX4GetDate (q : GetDatePc) (b : UInt8) : Pc :=
  match q with
  | .head => .getDate (if b = 0xA5 then .head2 else .head)
  | .head2 => .getDate (if b = 0x5A then .reply [] else .head)
  | .reply got =>
    if (got ++ [b]).length < 5 then .getDate (.reply (got ++ [b])) else afterReply (got ++ [b])
  | .version i => .getDate (if i + 1 < 20 then .version (i + 1) else .head)
  | .health i => .getDate (if i + 1 < 3 then .health (i + 1) else .head)

/-- The parser thread takes the byte that `eaix4_getchar` returns. -/
def step (s : Parser) (b : UInt8) : Parser × List Effect :=
  match s.pc with
  | .getDate q => ({ s with pc := eaiX4GetDate q b }, [])
  | .manip q => manipulationData q s b

/-- The parser thread on a list of received bytes. -/
abbrev parse : Parser → List UInt8 → Parser × List Effect :=
  Machine.run step

/-! ## Power-up -/

/-- The state in which `eaix4_thread_entry` first calls `EAI_X4_GetDate`: the
globals as they are initialised, the stack buffer zero. -/
def powerUp : Parser where
  around := fun _ => { firstpoint := default, ap := fun _ => default, number := 0 }
  circle := -1
  count := 0
  pc := .getDate .head
  package := { lsn := 0, fsa := 0, lsa := 0, cs := 0, buf := fun _ => 0 }

/-- The state a completed scan leaves, as far as `circle` and `count` go. -/
def Parser.completed (s : Parser) : Parser :=
  { s with circle := 0, count := 0 }

end Slam
