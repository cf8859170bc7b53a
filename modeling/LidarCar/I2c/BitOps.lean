-- SUMMARY: The bit-banged I2C master: lines, bytes, addresses and transfers of i2c-bit-ops.c.
import LidarCar.Base.TwoWire

/-!
# The bit-banged I2C master

`i2c_bit_xfer` is built on a few operations on the lines: start and stop
conditions, a byte out, a byte in and an acknowledge bit. The part above these is
stated for any such operations, so that it can be run on the lines as well as on
conversations byte by byte. Delays are left out.
-/

namespace I2c

open TwoWire

/-- `-RT_ERROR`, `-RT_ETIMEOUT` and `-RT_EIO`. -/
def rtError : Int := -1
def rtETimeout : Int := -2
def rtEIo : Int := -8

/-! ## Lines -/

section Lines

variable {δ : Type*} (d : Device δ)

/-- `SCL_H`: whether the clock line has come up in time. -/
def sclH (w : Lines δ) : Bool × Lines δ :=
  let w := w.setScl d true
  (w.scl, w)

def sclL (w : Lines δ) : Lines δ :=
  w.setScl d false

def i2cStart (w : Lines δ) : Lines δ :=
  sclL d (w.setSda d false)

def i2cRestart (w : Lines δ) : Lines δ :=
  let w := w.setSda d true
  let w := (sclH d w).2
  let w := w.setSda d false
  sclL d w

def i2cStop (w : Lines δ) : Lines δ :=
  let w := w.setSda d false
  let w := (sclH d w).2
  w.setSda d true

/-- `i2c_waitack`: 1 for ACK and 0 for NACK. -/
def i2cWaitack (w : Lines δ) : Int × Lines δ :=
  let w := w.setSda d true
  match sclH d w with
  | (false, w) => (rtETimeout, w)
  | (true, w) => (if w.data d then 0 else 1, sclL d w)

/-- The loop of `i2c_writeb`. -/
def i2cWriteBits : List Bool → Lines δ → Bool × Lines δ
  | [], w => (true, w)
  | bit :: bits, w =>
    match sclH d ((sclL d w).setSda d bit) with
    | (false, w) => (false, w)
    | (true, w) => i2cWriteBits bits w

def i2cWriteb (w : Lines δ) (data : UInt8) : Int × Lines δ :=
  match i2cWriteBits d (bits data) w with
  | (false, w) => (rtETimeout, w)
  | (true, w) => i2cWaitack d (sclL d w)

/-- The loop of `i2c_readb`, for `i` more bits. -/
def i2cReadBits : Nat → UInt8 → Lines δ → Option UInt8 × Lines δ
  | 0, data, w => (some data, w)
  | i + 1, data, w =>
    match sclH d w with
    | (false, w) => (none, w)
    | (true, w) =>
      i2cReadBits i (if w.data d then data <<< 1 ||| 1 else data <<< 1) (sclL d w)

/-- `i2c_readb`, `none` for a time-out. -/
def i2cReadb (w : Lines δ) : Option UInt8 × Lines δ :=
  i2cReadBits d 8 0 (w.setSda d true)

def i2cSendAckOrNack (w : Lines δ) (ack : Bool) : Int × Lines δ :=
  let w := if ack then w.setSda d false else w
  match sclH d w with
  | (false, w) => (rtETimeout, w)
  | (true, w) => (0, sclL d w)

end Lines

/-! ## Operations -/

/-- What the transfers are made of. -/
structure Port (ω : Type*) where
  start : ω → ω
  restart : ω → ω
  stop : ω → ω
  writeb : ω → UInt8 → Int × ω
  readb : ω → Option UInt8 × ω
  sendAckOrNack : ω → Bool → Int × ω

/-- The operations on the lines. -/
def lines {δ : Type*} (d : Device δ) : Port (Lines δ) where
  start := i2cStart d
  restart := i2cRestart d
  stop := i2cStop d
  writeb := i2cWriteb d
  readb := i2cReadb d
  sendAckOrNack := i2cSendAckOrNack d

section Operations

variable {δ : Type*} (d : Device δ)

@[simp] theorem lines_start : (lines d).start = i2cStart d := rfl
@[simp] theorem lines_restart : (lines d).restart = i2cRestart d := rfl
@[simp] theorem lines_stop : (lines d).stop = i2cStop d := rfl
@[simp] theorem lines_writeb : (lines d).writeb = i2cWriteb d := rfl
@[simp] theorem lines_readb : (lines d).readb = i2cReadb d := rfl
@[simp] theorem lines_sendAckOrNack : (lines d).sendAckOrNack = i2cSendAckOrNack d := rfl

end Operations

/-- The operations on a conversation. -/
def talk {σ : Type*} (p : Partner σ) : Port (Talk σ) where
  start := Talk.start
  restart := Talk.start
  stop := Talk.stop
  writeb := fun c byte => (if (c.write p byte).1 then 1 else 0, (c.write p byte).2)
  readb := fun c => (some (c.read p).1, (c.read p).2)
  sendAckOrNack := fun c ack => (0, c.answer p ack)

/-! ## Transfers -/

/-- `struct rt_i2c_msg`, with the bits of its flags. -/
structure I2cMsg where
  addr : UInt16
  /-- `RT_I2C_RD` -/
  rd : Bool
  /-- `RT_I2C_ADDR_10BIT` -/
  addr10bit : Bool
  /-- `RT_I2C_NO_START` -/
  noStart : Bool
  /-- `RT_I2C_IGNORE_NACK` -/
  ignoreNack : Bool
  /-- `RT_I2C_NO_READ_ACK` -/
  noReadAck : Bool
  /-- `len` bytes. -/
  buf : List UInt8
  deriving DecidableEq, Repr

section Transfers

variable {ω : Type*} (port : Port ω)

/-- `i2c_send_bytes`, with `bytes` sent so far. -/
def i2cSendBytes (ignoreNack : Bool) : List UInt8 → Int → ω → Int × ω
  | [], bytes, w => (bytes, w)
  | byte :: rest, bytes, w =>
    match port.writeb w byte with
    | (ret, w) =>
      if ret > 0 ∨ ignoreNack ∧ ret = 0 then i2cSendBytes ignoreNack rest (bytes + 1) w
      else if ret = 0 then (0, w)
      else (ret, w)

/-- `i2c_recv_bytes` for `count` more bytes, with those read so far. -/
def i2cRecvBytes (noReadAck : Bool) : Nat → List UInt8 → ω → Int × List UInt8 × ω
  | 0, read, w => (read.length, read, w)
  | count + 1, read, w =>
    match port.readb w with
    | (none, w) => (read.length, read, w)
    | (some byte, w) =>
      if noReadAck then i2cRecvBytes noReadAck count (read ++ [byte]) w
      else
        match port.sendAckOrNack w (count ≠ 0) with
        | (val, w) =>
          if val < 0 then (val, read ++ [byte], w)
          else i2cRecvBytes noReadAck count (read ++ [byte]) w

/-- `i2c_send_address` with so many retries. -/
def i2cSendAddress (addr : UInt8) : Nat → ω → Int × ω
  | 0, w => port.writeb w addr
  | retries + 1, w =>
    match port.writeb w addr with
    | (ret, w) =>
      if ret = 1 then (ret, w)
      else i2cSendAddress addr retries (port.start (port.stop w))

/-- The check of `i2c_bit_send_address` on what it has sent. -/
def i2cAcked (ignoreNack : Bool) (r : Int × ω) (rest : ω → Int × ω) : Int × ω :=
  if r.1 ≠ 1 ∧ !ignoreNack then (rtEIo, r.2) else rest r.2

/-- `i2c_bit_send_address` -/
def i2cBitSendAddress (retries : Nat) (msg : I2cMsg) (w : ω) : Int × ω :=
  let retries := if msg.ignoreNack then 0 else retries
  if msg.addr10bit then
    let addr1 := (0xF0 : UInt8) ||| ((msg.addr >>> 7).toUInt8 &&& 0x06)
    let addr2 := msg.addr.toUInt8
    i2cAcked msg.ignoreNack (i2cSendAddress port addr1 retries w) fun w =>
      i2cAcked msg.ignoreNack (port.writeb w addr2) fun w =>
        if msg.rd then
          i2cAcked msg.ignoreNack
            (i2cSendAddress port (addr1 ||| 0x01) retries (port.restart w)) fun w => (0, w)
        else (0, w)
  else
    let addr1 := msg.addr.toUInt8 <<< 1
    i2cAcked msg.ignoreNack
      (i2cSendAddress port (if msg.rd then addr1 ||| 1 else addr1) retries w) fun w => (0, w)

/-- The address of message `i` in `i2c_bit_xfer`. -/
def i2cAddress (retries i : Nat) (msg : I2cMsg) (w : ω) : Int × ω :=
  if msg.noStart then (0, w)
  else i2cBitSendAddress port retries msg (if i ≠ 0 then port.restart w else w)

/-- The bytes of a message in `i2c_bit_xfer`, with the error for which it gives up. -/
def i2cData (msg : I2cMsg) (w : ω) : Option Int × I2cMsg × ω :=
  if msg.rd then
    match i2cRecvBytes port msg.noReadAck msg.buf.length [] w with
    | (ret, read, w) =>
      (if ret < msg.buf.length then some (if ret ≥ 0 then rtEIo else ret) else none,
        { msg with buf := read ++ msg.buf.drop read.length }, w)
  else
    match i2cSendBytes port msg.ignoreNack msg.buf 0 w with
    | (ret, w) =>
      (if ret < msg.buf.length then some (if ret ≥ 0 then rtError else ret) else none, msg, w)

/-- The loop of `i2c_bit_xfer` from message `i` on. -/
def i2cXferLoop (retries : Nat) : Nat → List I2cMsg → ω → Int × List I2cMsg × ω
  | i, [], w => (i, [], w)
  | i, msg :: msgs, w =>
    match i2cAddress port retries i msg w with
    | (ret, w) =>
      if ret ≠ 0 ∧ !msg.ignoreNack then (ret, msg :: msgs, w)
      else
        match i2cData port msg w with
        | (some ret, msg, w) => (ret, msg :: msgs, w)
        | (none, msg, w) =>
          let r := i2cXferLoop retries (i + 1) msgs w
          (r.1, msg :: r.2.1, r.2.2)

/-- `i2c_bit_xfer` -/
def i2cBitXfer (retries : Nat) (msgs : List I2cMsg) (w : ω) : Int × List I2cMsg × ω :=
  let r := i2cXferLoop port retries 0 msgs (port.start w)
  (r.1, r.2.1, port.stop r.2.2)

/-- Transfers one after the other: what they return, and the messages with what
was read. -/
def i2cTransfers (retries : Nat) : List (List I2cMsg) → ω → List (Int × List I2cMsg) × ω
  | [], w => ([], w)
  | msgs :: rest, w =>
    let r := i2cBitXfer port retries msgs w
    let q := i2cTransfers retries rest r.2.2
    ((r.1, r.2.1) :: q.1, q.2)

end Transfers

end I2c
