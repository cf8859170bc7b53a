-- SUMMARY: Two-wire buses: open-drain lines, devices at the lines, and chips that hold byte-wise conversations.
import Mathlib.Data.List.Basic

/-!
# Two-wire buses

A master drives a clock line and a data line, both of which a device can pull
low. While the clock is high the data line is stable, except that its fall starts
and its rise stops a conversation. A chip shifts the bits of a conversation in and
out and has a partner, which sees bytes: the address behind a start, the bytes it
is sent, and the bytes it is asked for. Each byte is followed by the acknowledge
bit of the side that received it.
-/

namespace TwoWire

/-! ## Lines -/

/-- A device at the lines. -/
structure Device (δ : Type*) where
  /-- The clock is released while the data line is at the given level. `none`: the
  device holds the clock low, longer than the master waits. -/
  rise : δ → Bool → Option δ
  fall : δ → δ
  start : δ → δ
  stop : δ → δ
  /-- The device pulls the data line low. -/
  pulls : δ → Bool

/-- The clock line, what the master does with the data line, and the device. -/
structure Lines (δ : Type*) where
  scl : Bool
  sda : Bool
  device : δ

variable {δ : Type*} (d : Device δ)

/-- The level of the data line. -/
def Lines.data (w : Lines δ) : Bool :=
  w.sda && !d.pulls w.device

def Lines.setSda (w : Lines δ) (level : Bool) : Lines δ :=
  let w' := { w with sda := level }
  match w.scl, w.data d, w'.data d with
  | true, true, false => { w' with device := d.start w.device }
  | true, false, true => { w' with device := d.stop w.device }
  | _, _, _ => w'

def Lines.setScl (w : Lines δ) (level : Bool) : Lines δ :=
  match w.scl, level with
  | true, false => { w with scl := false, device := d.fall w.device }
  | false, true =>
    match d.rise w.device (w.data d) with
    | some device => { w with scl := true, device := device }
    | none => w
  | _, _ => w

/-! ## Partners -/

/-- What a chip does with the bytes of a conversation. -/
structure Partner (σ : Type*) where
  /-- The byte behind a start, whose last bit asks for bytes. `none`: it is not
  acknowledged. -/
  address : σ → UInt8 → Option σ
  /-- A byte it is sent, and whether it is acknowledged. -/
  receive : σ → UInt8 → Bool × σ
  /-- A byte it is asked for. -/
  send : σ → UInt8 × σ

variable {σ : Type*} (p : Partner σ)

/-- A byte is taken. If it is acknowledged, whether it asks for bytes. -/
def Partner.take (first : Bool) (s : σ) (byte : UInt8) : Option Bool × σ :=
  if first then
    match p.address s byte with
    | some s' => (some (byte &&& 1 == 1), s')
    | none => (none, s)
  else
    match p.receive s byte with
    | (true, s') => (some false, s')
    | (false, s') => (none, s')

/-! ## Conversations, byte by byte -/

inductive Mode where
  /-- The chip waits for a start. -/
  | idle
  | listen (first : Bool)
  /-- The chip has the byte ready. -/
  | talk (byte : UInt8)
  /-- The chip has sent a byte and waits for the acknowledge bit. -/
  | turn
  /-- The chip acknowledges a byte that nobody sent. -/
  | ack (asked : Bool)
  deriving DecidableEq, Repr

structure Talk (σ : Type*) where
  mode : Mode
  partner : σ

def Talk.start (c : Talk σ) : Talk σ :=
  { c with mode := .listen true }

def Talk.stop (c : Talk σ) : Talk σ :=
  { c with mode := .idle }

/-- The chip goes on behind an acknowledge bit. -/
def Talk.proceed (s : σ) (asked : Bool) : Talk σ :=
  if asked then ⟨.talk (p.send s).1, (p.send s).2⟩ else ⟨.listen false, s⟩

/-- The master sends a byte: whether it is acknowledged. -/
def Talk.write (c : Talk σ) (byte : UInt8) : Bool × Talk σ :=
  match c.mode with
  | .listen first =>
    match p.take first c.partner byte with
    | (some asked, s) => (true, Talk.proceed p s asked)
    | (none, s) => (false, ⟨.idle, s⟩)
  | _ => (false, c.stop)

/-- The master asks for a byte: what it reads. -/
def Talk.read (c : Talk σ) : UInt8 × Talk σ :=
  match c.mode with
  | .talk byte => (byte, ⟨.turn, c.partner⟩)
  | .listen first =>
    match p.take first c.partner 0xFF with
    | (some asked, s) => (0xFF, ⟨.ack asked, s⟩)
    | (none, s) => (0xFF, ⟨.idle, s⟩)
  | _ => (0xFF, c)

/-- The master answers what it has read with an acknowledge bit. -/
def Talk.answer (c : Talk σ) (acknowledge : Bool) : Talk σ :=
  match c.mode with
  | .turn => if acknowledge then Talk.proceed p c.partner true else c.stop
  | .ack asked => Talk.proceed p c.partner asked
  | _ => c

/-! ## Chips, bit by bit -/

/-- The bits of a byte, the highest first. -/
def bits (byte : UInt8) : List Bool :=
  [7, 6, 5, 4, 3, 2, 1, 0].map byte.toBitVec.getLsbD

def shiftIn (byte : UInt8) (b : Bool) : UInt8 :=
  byte <<< 1 ||| (if b then 1 else 0)

/-- The byte that is shifted in. -/
def ofBits (l : List Bool) : UInt8 :=
  l.foldl shiftIn 0

inductive Shift where
  | idle
  | take (first : Bool) (bits : List Bool)
  | ack (asked : Bool)
  /-- The first of the bits is on the line. -/
  | give (bits : List Bool)
  | hear
  | heard (acknowledge : Bool)
  deriving DecidableEq, Repr

structure Chip (σ : Type*) where
  shift : Shift
  partner : σ

def Chip.load (s : σ) : Chip σ :=
  ⟨.give (bits (p.send s).1), (p.send s).2⟩

def Chip.fall (c : Chip σ) : Chip σ :=
  match c.shift with
  | .take first bits =>
    if bits.length = 8 then
      match p.take first c.partner (ofBits bits) with
      | (some asked, s) => ⟨.ack asked, s⟩
      | (none, s) => ⟨.idle, s⟩
    else c
  | .ack true | .heard true => Chip.load p c.partner
  | .ack false => { c with shift := .take false [] }
  | .give (_ :: b :: rest) => { c with shift := .give (b :: rest) }
  | .give _ => { c with shift := .hear }
  | .heard false => { c with shift := .idle }
  | .idle | .hear => c

def Chip.rise (c : Chip σ) (level : Bool) : Chip σ :=
  match c.shift with
  | .take first bits => { c with shift := .take first (bits ++ [level]) }
  | .hear => { c with shift := .heard (!level) }
  | _ => c

def Chip.pulls (c : Chip σ) : Bool :=
  match c.shift with
  | .ack _ => true
  | .give (b :: _) => !b
  | _ => false

/-- The chip as a device at the lines, which does not hold the clock. -/
def chip : Device (Chip σ) where
  rise := fun c level => some (c.rise level)
  fall := Chip.fall p
  start := fun c => { c with shift := .take true [] }
  stop := fun c => { c with shift := .idle }
  pulls := Chip.pulls

/-- What the shift register of a chip is between two bytes. -/
def Mode.shift : Mode → Shift
  | .idle => .idle
  | .listen first => .take first []
  | .talk byte => .give (bits byte)
  | .turn => .hear
  | .ack asked => .ack asked

def Talk.chip (c : Talk σ) : Chip σ :=
  ⟨c.mode.shift, c.partner⟩

end TwoWire
