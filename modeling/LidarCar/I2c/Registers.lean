-- SUMMARY: Register accesses over the lines: chips with registers keep what is written and return what they keep.
import LidarCar.I2c.Conversation

/-!
# Chips with registers

The chips of the car are accessed by registers: behind the address a first byte
selects a register, the bytes behind it are written to that register and those
that follow, and what is read starts at the register selected last. Several such
chips at the lines act as one chip that knows several addresses.
-/

namespace I2c

open TwoWire

/-! ## The chips -/

/-- The registers of a chip. -/
abbrev Registers := UInt8 → UInt8

structure Board where
  /-- The chips by their addresses. -/
  chips : UInt8 → Option Registers
  selected : UInt8
  pointer : UInt8
  /-- The next byte selects a register. -/
  pointing : Bool

def Board.write (b : Board) (byte : UInt8) : Board :=
  { b with
    chips := Function.update b.chips b.selected
      ((b.chips b.selected).map fun regs => Function.update regs b.pointer byte)
    pointer := b.pointer + 1 }

/-- A byte behind the address. -/
def Board.put (b : Board) (byte : UInt8) : Board :=
  if b.pointing then { b with pointer := byte, pointing := false } else b.write byte

/-- The register that is read next. -/
def Board.get (b : Board) : UInt8 :=
  match b.chips b.selected with
  | some regs => regs b.pointer
  | none => 0xFF

/-- The board is addressed. -/
def Board.select (b : Board) (byte : UInt8) : Board :=
  { b with selected := byte >>> 1, pointing := byte &&& 1 == 0 }

def board : Partner Board where
  address := fun b byte => if (b.chips (byte >>> 1)).isSome then some (b.select byte) else none
  receive := fun b byte => (true, b.put byte)
  send := fun b => (b.get, { b with pointer := b.pointer + 1 })

/-! ## Accesses -/

inductive Access where
  | write (addr : UInt16) (reg : UInt8) (data : List UInt8)
  | read (addr : UInt16) (reg : UInt8) (len : Nat)
  deriving DecidableEq, Repr

def writeMsg (addr : UInt16) (buf : List UInt8) : I2cMsg :=
  ⟨addr, false, false, false, false, false, buf⟩

def readMsg (addr : UInt16) (buf : List UInt8) : I2cMsg :=
  ⟨addr, true, false, false, false, false, buf⟩

/-- The messages of an access, as the drivers of the car send them. -/
def Access.msgs : Access → List I2cMsg
  | .write addr reg data => [writeMsg addr (reg :: data)]
  | .read addr reg len => [writeMsg addr [reg], readMsg addr (List.replicate len 0)]

/-- An address of 7 bits, and something to read. -/
def Access.Valid : Access → Prop
  | .write addr _ _ => addr < 128
  | .read addr _ len => addr < 128 ∧ len ≠ 0

/-- The registers from `reg` on are written. -/
def store (reg : UInt8) : List UInt8 → Registers → Registers
  | [], regs => regs
  | byte :: data, regs => store (reg + 1) data (Function.update regs reg byte)

/-- The registers from `reg` on. -/
def fetch (regs : Registers) (reg : UInt8) : Nat → List UInt8
  | 0 => []
  | len + 1 => regs reg :: fetch regs (reg + 1) len

/-- What an access does to the chips, and what the transfer returns. -/
def Access.perform (chips : UInt8 → Option Registers) :
    Access → (Int × List I2cMsg) × (UInt8 → Option Registers)
  | .write addr reg data =>
    match chips addr.toUInt8 with
    | some regs =>
      ((1, [writeMsg addr (reg :: data)]),
        Function.update chips addr.toUInt8 (some (store reg data regs)))
    | none => ((rtEIo, [writeMsg addr (reg :: data)]), chips)
  | .read addr reg len =>
    match chips addr.toUInt8 with
    | some regs => ((2, [writeMsg addr [reg], readMsg addr (fetch regs reg len)]), chips)
    | none => ((rtEIo, [writeMsg addr [reg], readMsg addr (List.replicate len 0)]), chips)

def performAll (chips : UInt8 → Option Registers) :
    List Access → List (Int × List I2cMsg) × (UInt8 → Option Registers)
  | [] => ([], chips)
  | access :: accesses =>
    let r := access.perform chips
    let q := performAll r.2 accesses
    (r.1 :: q.1, q.2)

theorem length_fetch (regs : Registers) (reg : UInt8) (len : Nat) :
    (fetch regs reg len).length = len := by
  induction len generalizing reg with
  | zero => rfl
  | succ len ih => rw [fetch, List.length_cons, ih]

/-! ## Addresses of 7 bits -/

section Addresses

variable {addr : UInt8}

theorem bit7_of_lt (h : addr < 128) : addr.toBitVec[7] = false := by
  have hlt : addr.toBitVec.toNat < 128 := h
  rw [BitVec.getElem_eq_testBit_toNat]
  exact Nat.testBit_lt_two_pow hlt

theorem address_chip (h : addr < 128) : (addr <<< 1) >>> 1 = addr := by
  have h7 := bit7_of_lt h
  apply UInt8.toBitVec_inj.mp
  ext i hi
  interval_cases i <;> simp [h7]

theorem address_chip_read (h : addr < 128) : (addr <<< 1 ||| 1) >>> 1 = addr := by
  have h7 := bit7_of_lt h
  apply UInt8.toBitVec_inj.mp
  ext i hi
  interval_cases i <;> simp [h7]

theorem address_read (addr : UInt8) : ((addr <<< 1 ||| 1) &&& 1 == 1) = true := by
  refine beq_iff_eq.mpr (UInt8.toBitVec_inj.mp ?_)
  ext i hi
  interval_cases i <;> simp

theorem address_write (addr : UInt8) : (addr <<< 1 &&& 1 == 0) = true := by
  refine beq_iff_eq.mpr (UInt8.toBitVec_inj.mp ?_)
  ext i hi
  interval_cases i <;> simp

theorem toUInt8_lt {addr : UInt16} (h : addr < 128) : addr.toUInt8 < 128 := by
  have hlt : addr.toNat < 128 := h
  change addr.toUInt8.toNat < 128
  rw [UInt16.toNat_toUInt8]
  omega

end Addresses

/-! ## Conversations with the board -/

section Talks

variable {b : Board} {addr : UInt16}

theorem i2cSendAddress_board {byte : UInt8} {regs : Registers} (retries : Nat)
    (h : b.chips (byte >>> 1) = some regs) :
    i2cSendAddress (talk board) byte retries ⟨.listen true, b⟩ =
      (1, Talk.proceed board (b.select byte) (byte &&& 1 == 1)) := by
  have hwrite : (talk board).writeb ⟨.listen true, b⟩ byte =
      (1, Talk.proceed board (b.select byte) (byte &&& 1 == 1)) := by
    simp [talk, Talk.write, Partner.take, board, h]
  cases retries with
  | zero => exact hwrite
  | succ retries => simp [i2cSendAddress, hwrite]

/-- No chip answers, however often it is asked. -/
theorem i2cSendAddress_absent {byte : UInt8} (retries : Nat) (h : b.chips (byte >>> 1) = none) :
    i2cSendAddress (talk board) byte retries ⟨.listen true, b⟩ = (0, ⟨.idle, b⟩) := by
  have hwrite : (talk board).writeb ⟨.listen true, b⟩ byte = (0, ⟨.idle, b⟩) := by
    simp [talk, Talk.write, Partner.take, board, h]
  induction retries with
  | zero => exact hwrite
  | succ retries ih =>
      simp only [i2cSendAddress, hwrite]
      exact ih

theorem i2cSendBytes_board (buf : List UInt8) (bytes : Int) :
    i2cSendBytes (talk board) false buf bytes ⟨.listen false, b⟩ =
      (bytes + buf.length, ⟨.listen false, buf.foldl Board.put b⟩) := by
  induction buf generalizing bytes b with
  | nil => simp [i2cSendBytes]
  | cons byte buf ih =>
      have hwrite : (talk board).writeb ⟨.listen false, b⟩ byte = (1, ⟨.listen false, b.put byte⟩) :=
        rfl
      simp only [i2cSendBytes, hwrite, List.foldl_cons, List.length_cons]
      rw [if_pos (Or.inl (by decide)), ih]
      refine Prod.ext ?_ rfl
      push_cast
      omega

theorem chips_write {regs : Registers} (data : List UInt8) (hpointing : b.pointing = false)
    (h : b.chips b.selected = some regs) :
    (data.foldl Board.put b).chips =
      Function.update b.chips b.selected (some (store b.pointer data regs)) := by
  induction data generalizing b regs with
  | nil => simp [store, ← h]
  | cons byte data ih =>
      have hput : b.put byte = b.write byte := by simp [Board.put, hpointing]
      have hwritten : (b.write byte).chips (b.write byte).selected =
          some (Function.update regs b.pointer byte) := by
        simp [Board.write, h]
      rw [List.foldl_cons, hput, ih (show (b.write byte).pointing = false from hpointing) hwritten]
      simp [Board.write, store]

/-- The bytes of a write behind the address. -/
theorem chips_put {regs : Registers} (reg : UInt8) (data : List UInt8)
    (hpointing : b.pointing = true) (h : b.chips b.selected = some regs) :
    ((reg :: data).foldl Board.put b).chips =
      Function.update b.chips b.selected (some (store reg data regs)) := by
  have hput : b.put reg = { b with pointer := reg, pointing := false } := by
    simp [Board.put, hpointing]
  rw [List.foldl_cons, hput]
  exact chips_write data rfl h

theorem i2cRecvBytes_board {regs : Registers} (len : Nat) (read : List UInt8)
    (h : b.chips b.selected = some regs) :
    ∃ b' : Board, b'.chips = b.chips ∧
      i2cRecvBytes (talk board) false (len + 1) read (Talk.proceed board b true) =
        (((read.length + (len + 1) : Nat) : Int), read ++ fetch regs b.pointer (len + 1),
          ⟨.idle, b'⟩) := by
  have hget : b.get = regs b.pointer := by simp [Board.get, h]
  induction len generalizing b read with
  | zero =>
      refine ⟨{ b with pointer := b.pointer + 1 }, rfl, ?_⟩
      simp [i2cRecvBytes, talk, Talk.proceed, Talk.read, Talk.answer, Talk.stop, board, hget, fetch]
  | succ len ih =>
      have hnext : i2cRecvBytes (talk board) false (len + 2) read (Talk.proceed board b true) =
          i2cRecvBytes (talk board) false (len + 1) (read ++ [regs b.pointer])
            (Talk.proceed board { b with pointer := b.pointer + 1 } true) := by
        simp [i2cRecvBytes, talk, Talk.proceed, Talk.read, Talk.answer, board, hget]
      obtain ⟨b', hchips, hrest⟩ := ih (b := { b with pointer := b.pointer + 1 })
        (read ++ [regs b.pointer]) h (by simp [Board.get, h])
      refine ⟨b', hchips, ?_⟩
      rw [hnext, hrest, List.append_assoc, List.length_append, List.length_singleton]
      refine Prod.ext ?_ (Prod.ext rfl rfl)
      exact congrArg Nat.cast (by omega)

/-! ## Messages -/

theorem address_selects (msg : I2cMsg) {regs : Registers} (retries : Nat)
    (hten : msg.addr10bit = false) (haddr : msg.addr < 128)
    (h : b.chips msg.addr.toUInt8 = some regs) :
    ∃ b' : Board, b'.chips = b.chips ∧ b'.selected = msg.addr.toUInt8 ∧
      b'.pointing = !msg.rd ∧ b'.pointer = b.pointer ∧
      i2cBitSendAddress (talk board) retries msg ⟨.listen true, b⟩ =
        (0, Talk.proceed board b' msg.rd) := by
  have hlt := toUInt8_lt haddr
  cases hrd : msg.rd with
  | false =>
      have hchip : b.chips ((msg.addr.toUInt8 <<< 1) >>> 1) = some regs := by
        rw [address_chip hlt, h]
      refine ⟨b.select (msg.addr.toUInt8 <<< 1), rfl, address_chip hlt, address_write _, rfl, ?_⟩
      simp [i2cBitSendAddress, hten, hrd, i2cSendAddress_board _ hchip, i2cAcked, addr_write]
  | true =>
      have hchip : b.chips ((msg.addr.toUInt8 <<< 1 ||| 1) >>> 1) = some regs := by
        rw [address_chip_read hlt, h]
      refine ⟨b.select (msg.addr.toUInt8 <<< 1 ||| 1), rfl, address_chip_read hlt, ?_, rfl, ?_⟩
      · have hread := beq_iff_eq.mp (address_read msg.addr.toUInt8)
        simp [Board.select, hread]
      · simp [i2cBitSendAddress, hten, hrd, i2cSendAddress_board _ hchip, i2cAcked, address_read]

theorem address_fails (msg : I2cMsg) (retries : Nat) (hten : msg.addr10bit = false)
    (hrd : msg.rd = false) (hack : msg.ignoreNack = false) (haddr : msg.addr < 128)
    (h : b.chips msg.addr.toUInt8 = none) :
    i2cBitSendAddress (talk board) retries msg ⟨.listen true, b⟩ = (rtEIo, ⟨.idle, b⟩) := by
  have hchip : b.chips ((msg.addr.toUInt8 <<< 1) >>> 1) = none := by
    rw [address_chip (toUInt8_lt haddr), h]
  simp [i2cBitSendAddress, hten, hrd, hack, i2cSendAddress_absent _ hchip, i2cAcked]

theorem i2cData_write (buf : List UInt8) :
    i2cData (talk board) (writeMsg addr buf) (Talk.proceed board b false) =
      (none, writeMsg addr buf, ⟨.listen false, buf.foldl Board.put b⟩) := by
  simp [i2cData, writeMsg, Talk.proceed, i2cSendBytes_board]

theorem i2cData_read (addr : UInt16) {regs : Registers} {len : Nat} (hlen : len ≠ 0)
    (h : b.chips b.selected = some regs) :
    ∃ b' : Board, b'.chips = b.chips ∧
      i2cData (talk board) (readMsg addr (List.replicate len 0)) (Talk.proceed board b true) =
        (none, readMsg addr (fetch regs b.pointer len), ⟨.idle, b'⟩) := by
  obtain ⟨n, rfl⟩ := Nat.exists_eq_succ_of_ne_zero hlen
  obtain ⟨b', hchips, hrecv⟩ := i2cRecvBytes_board n [] h
  refine ⟨b', hchips, ?_⟩
  simp [i2cData, readMsg, hrecv, length_fetch]

/-! ## Transfers -/

/-- A chip answers, and the transfer goes on with the next message. -/
theorem i2cXferLoop_next {c c₁ c₂ : Talk Board} {retries i : Nat} {msg msg' : I2cMsg}
    {msgs : List I2cMsg} (haddr : i2cAddress (talk board) retries i msg c = (0, c₁))
    (hdata : i2cData (talk board) msg c₁ = (none, msg', c₂)) :
    i2cXferLoop (talk board) retries i (msg :: msgs) c =
      ((i2cXferLoop (talk board) retries (i + 1) msgs c₂).1,
        msg' :: (i2cXferLoop (talk board) retries (i + 1) msgs c₂).2.1,
        (i2cXferLoop (talk board) retries (i + 1) msgs c₂).2.2) := by
  simp [i2cXferLoop, haddr, hdata]

/-- No chip answers to the first address. -/
theorem i2cXferLoop_absent (retries : Nat) (buf : List UInt8) (msgs : List I2cMsg)
    (haddr : addr < 128) (h : b.chips addr.toUInt8 = none) :
    i2cXferLoop (talk board) retries 0 (writeMsg addr buf :: msgs) ⟨.listen true, b⟩ =
      (rtEIo, writeMsg addr buf :: msgs, ⟨.idle, b⟩) := by
  have hfails : i2cAddress (talk board) retries 0 (writeMsg addr buf) ⟨.listen true, b⟩ =
      (rtEIo, ⟨.idle, b⟩) :=
    address_fails (writeMsg addr buf) retries rfl rfl rfl haddr h
  simp only [i2cXferLoop, hfails]
  exact if_pos ⟨by decide, rfl⟩

theorem i2cXferLoop_write {regs : Registers} (retries : Nat) (reg : UInt8) (data : List UInt8)
    (msgs : List I2cMsg) (haddr : addr < 128) (h : b.chips addr.toUInt8 = some regs) :
    ∃ b' : Board,
      b'.chips = Function.update b.chips addr.toUInt8 (some (store reg data regs)) ∧
      (data = [] → b'.pointer = reg) ∧
      ∀ r, i2cXferLoop (talk board) retries 1 msgs ⟨.listen false, b'⟩ = r →
        i2cXferLoop (talk board) retries 0 (writeMsg addr (reg :: data) :: msgs)
          ⟨.listen true, b⟩ = (r.1, writeMsg addr (reg :: data) :: r.2.1, r.2.2) := by
  obtain ⟨b₁, hchips, hselected, hpointing, -, haddress⟩ :=
    address_selects (writeMsg addr (reg :: data)) retries rfl haddr h
  have hchip : b₁.chips b₁.selected = some regs := by
    rw [hchips, hselected]
    exact h
  have hfirst : i2cAddress (talk board) retries 0 (writeMsg addr (reg :: data)) ⟨.listen true, b⟩ =
      (0, Talk.proceed board b₁ false) := haddress
  refine ⟨(reg :: data).foldl Board.put b₁, ?_, ?_, ?_⟩
  · rw [chips_put reg data hpointing hchip, hchips, hselected]
    rfl
  · intro hdata
    subst hdata
    simp [Board.put, hpointing, writeMsg]
  · intro r hr
    rw [i2cXferLoop_next hfirst (i2cData_write (reg :: data)), hr]

theorem Access.transfer (access : Access) (haccess : access.Valid) (retries : Nat) (b : Board) :
    ∃ b' : Board, b'.chips = (access.perform b.chips).2 ∧
      i2cBitXfer (talk board) retries access.msgs ⟨.idle, b⟩ =
        ((access.perform b.chips).1.1, (access.perform b.chips).1.2, ⟨.idle, b'⟩) := by
  cases access with
  | write addr reg data =>
      cases hchip : b.chips addr.toUInt8 with
      | none =>
          refine ⟨b, by simp [Access.perform, hchip], ?_⟩
          simp only [i2cBitXfer, Access.msgs, Access.perform, hchip]
          exact congrArg (fun r => (r.1, r.2.1, (talk board).stop r.2.2))
            (i2cXferLoop_absent retries (reg :: data) [] haccess hchip)
      | some regs =>
          obtain ⟨b₁, hchips, -, hloop⟩ := i2cXferLoop_write retries reg data [] haccess hchip
          refine ⟨b₁, by simp [Access.perform, hchip, hchips], ?_⟩
          simp only [i2cBitXfer, Access.msgs, Access.perform, hchip]
          exact congrArg (fun r => (r.1, r.2.1, (talk board).stop r.2.2)) (hloop _ rfl)
  | read addr reg len =>
      obtain ⟨haddr, hlen⟩ := haccess
      cases hchip : b.chips addr.toUInt8 with
      | none =>
          refine ⟨b, by simp [Access.perform, hchip], ?_⟩
          simp only [i2cBitXfer, Access.msgs, Access.perform, hchip]
          exact congrArg (fun r => (r.1, r.2.1, (talk board).stop r.2.2))
            (i2cXferLoop_absent retries [reg] [readMsg addr (List.replicate len 0)] haddr hchip)
      | some regs =>
          obtain ⟨b₁, hchips, hpointer, hloop⟩ :=
            i2cXferLoop_write retries reg [] [readMsg addr (List.replicate len 0)] haddr hchip
          have hsame : b₁.chips = b.chips := by
            rw [hchips, store, ← hchip, Function.update_eq_self]
          obtain ⟨b₂, hchips₂, hselected, -, hpointer₂, haddress⟩ :=
            address_selects (readMsg addr (List.replicate len 0)) retries rfl haddr
              (hsame ▸ hchip)
          have hchip₂ : b₂.chips b₂.selected = some regs := by
            rw [hchips₂, hsame, hselected]
            exact hchip
          obtain ⟨b₃, hchips₃, hdata⟩ := i2cData_read addr hlen hchip₂
          have hsecond : i2cAddress (talk board) retries 1 (readMsg addr (List.replicate len 0))
              ⟨.listen false, b₁⟩ = (0, Talk.proceed board b₂ true) := haddress
          have hread : i2cXferLoop (talk board) retries 1 [readMsg addr (List.replicate len 0)]
              ⟨.listen false, b₁⟩ = (2, [readMsg addr (fetch regs b₂.pointer len)], ⟨.idle, b₃⟩) :=
            i2cXferLoop_next hsecond hdata
          refine ⟨b₃, ?_, ?_⟩
          · rw [hchips₃, hchips₂, hsame]
            simp [Access.perform, hchip]
          · simp only [i2cBitXfer, Access.msgs, Access.perform, hchip]
            refine (congrArg (fun r => (r.1, r.2.1, (talk board).stop r.2.2))
              (hloop _ hread)).trans ?_
            rw [hpointer₂, hpointer rfl]
            rfl

end Talks

/-! ## Accesses on the lines -/

theorem Access.proper (access : Access) (h : access.Valid) : Proper access.msgs := by
  cases access with
  | write addr reg data =>
      refine ⟨fun msg hmsg => ?_, fun msg hmsg => ?_⟩
      · rw [Access.msgs, List.mem_singleton] at hmsg
        exact hmsg ▸ ⟨rfl, nofun⟩
      · exact (Option.some.inj hmsg) ▸ rfl
  | read addr reg len =>
      refine ⟨fun msg hmsg => ?_, fun msg hmsg => ?_⟩
      · rw [Access.msgs, List.mem_pair] at hmsg
        rcases hmsg with rfl | rfl
        · exact ⟨rfl, nofun⟩
        · exact ⟨rfl, fun _ hnil => h.2 (List.replicate_eq_nil_iff _ |>.mp hnil)⟩
      · exact (Option.some.inj hmsg) ▸ rfl

theorem Access.transfer_lines (access : Access) (haccess : access.Valid) (retries : Nat)
    (b : Board) :
    ∃ b' : Board, b'.chips = (access.perform b.chips).2 ∧
      i2cBitXfer (lines (chip board)) retries access.msgs (quiet b) =
        ((access.perform b.chips).1.1, (access.perform b.chips).1.2, quiet b') := by
  obtain ⟨b₁, hchips, htalk⟩ := access.transfer haccess retries b
  obtain ⟨b₂, hidle, hlines⟩ := i2cBitXfer_quiet (p := board) retries (access.proper haccess) b
  rw [htalk] at hidle hlines
  have heq : b₁ = b₂ := congrArg (fun r => r.2.2.partner) hidle
  exact ⟨b₁, hchips, heq ▸ hlines⟩

/-- Any sequence of register accesses through the bit-banged master does what it
does to a map from addresses to registers: a read returns what was written last,
a write changes nothing but the registers it names, and an address that no chip
has gives the error. -/
theorem register_accesses (retries : Nat) (accesses : List Access)
    (h : ∀ access ∈ accesses, access.Valid) (b : Board) :
    ∃ b' : Board, b'.chips = (performAll b.chips accesses).2 ∧
      i2cTransfers (lines (chip board)) retries (accesses.map Access.msgs) (quiet b) =
        ((performAll b.chips accesses).1, quiet b') := by
  induction accesses generalizing b with
  | nil => exact ⟨b, rfl, rfl⟩
  | cons access accesses ih =>
      obtain ⟨haccess, hrest⟩ := List.forall_mem_cons.mp h
      obtain ⟨b₁, hchips, htransfer⟩ := access.transfer_lines haccess retries b
      obtain ⟨b₂, hchips', htransfers⟩ := ih hrest b₁
      rw [hchips] at hchips' htransfers
      refine ⟨b₂, hchips', ?_⟩
      rw [List.map_cons, i2cTransfers, htransfer]
      simp only [htransfers, performAll]

/-- Two registers are written, and the second is read. -/
theorem register_accesses_two :
    ∃ b : Board, i2cTransfers (lines (chip board)) 0
        ([Access.write 0x68 0x6B [1, 2], .read 0x68 0x6C 1].map Access.msgs)
        (quiet ⟨Function.update (fun _ => none) 0x68 (some fun _ => 0), 0, 0, false⟩) =
      ([(1, [writeMsg 0x68 [0x6B, 1, 2]]), (2, [writeMsg 0x68 [0x6C], readMsg 0x68 [2]])],
        quiet b) := by
  have hvalid : ∀ access ∈ [Access.write 0x68 0x6B [1, 2], .read 0x68 0x6C 1], access.Valid := by
    intro access haccess
    rcases List.mem_pair.mp haccess with rfl | rfl
    · exact (by decide : (0x68 : UInt16) < 128)
    · exact ⟨by decide, by decide⟩
  obtain ⟨b, -, hlines⟩ := register_accesses 0 _ hvalid
    ⟨Function.update (fun _ => none) 0x68 (some fun _ => 0), 0, 0, false⟩
  exact ⟨b, hlines⟩

end I2c
