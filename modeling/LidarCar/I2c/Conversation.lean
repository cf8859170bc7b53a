-- SUMMARY: A transfer on the lines of a chip is the conversation with its partner, and leaves the lines free.
import LidarCar.I2c.Wires

/-!
# Transfers as conversations

What `i2c_bit_xfer` does to the lines depends on the chip at them only through
the bytes that it acknowledges and sends. The lines must not be taken from a chip
that is about to send: a chip that was addressed for reading is read, and its
last byte is not acknowledged.
-/

namespace I2c

open TwoWire

variable {σ : Type*} {p : Partner σ} {c : Talk σ} {w : Lines (Chip σ)}

/-- Behind an address: the chip listens or is idle. -/
inductive Settled : Mode → Prop where
  | idle : Settled .idle
  | listen : Settled (.listen false)

/-- The chip may talk if it was addressed for reading. -/
def Ready (rd : Bool) (mode : Mode) : Prop :=
  Settled mode ∨ rd = true ∧ ∃ byte, mode = .talk byte

theorem Settled.silent {mode : Mode} (h : Settled mode) : Silent mode := by
  cases h with
  | idle => exact .idle
  | listen => exact .listen false

theorem Ready.readable {rd : Bool} {mode : Mode} (h : Ready rd mode) : Readable mode := by
  rcases h with hsettled | ⟨-, byte, rfl⟩
  · cases hsettled with
    | idle => exact .idle
    | listen => exact .listen false
  · exact .talk byte

theorem Ready.settled {rd : Bool} {mode : Mode} (h : Ready rd mode) (hrd : rd = false) :
    Settled mode :=
  h.resolve_right fun htalk => Bool.noConfusion (htalk.1.symm.trans hrd)

/-! ## Bytes out -/

theorem proceed_ready (s : σ) (asked : Bool) : Ready asked (Talk.proceed p s asked).mode := by
  cases asked with
  | false => exact Or.inl .listen
  | true => exact Or.inr ⟨rfl, _, rfl⟩

theorem write_settled (hc : Settled c.mode) (byte : UInt8) : Settled (c.write p byte).2.mode := by
  obtain ⟨mode, s⟩ := c
  cases hc with
  | idle => exact .idle
  | listen =>
      simp only [Talk.write, Partner.take, Bool.false_eq_true, if_false]
      obtain ⟨⟨ack, s'⟩, hreceive⟩ : ∃ r, p.receive s byte = r := ⟨_, rfl⟩
      rw [hreceive]
      cases ack with
      | true => exact .listen
      | false => exact .idle

/-- The address decides who talks. -/
theorem write_address (s : σ) (addr : UInt8) :
    Ready (addr &&& 1 == 1) (Talk.write p ⟨.listen true, s⟩ addr).2.mode ∧
      ((Talk.write p ⟨.listen true, s⟩ addr).1 = false →
        (Talk.write p ⟨.listen true, s⟩ addr).2.mode = .idle) := by
  simp only [Talk.write, Partner.take, if_true]
  cases p.address s addr with
  | none => exact ⟨Or.inl .idle, fun _ => rfl⟩
  | some s' => exact ⟨proceed_ready s' _, fun hfalse => by cases hfalse⟩

theorem write_address_failed (s : σ) (addr : UInt8) :
    Ready (addr &&& 1 == 1) ((talk p).writeb ⟨.listen true, s⟩ addr).2.mode ∧
      (((talk p).writeb ⟨.listen true, s⟩ addr).1 ≠ 1 →
        ((talk p).writeb ⟨.listen true, s⟩ addr).2.mode = .idle) := by
  obtain ⟨hready, hidle⟩ := write_address (p := p) s addr
  refine ⟨hready, fun hne => hidle (Bool.eq_false_iff.mpr fun htrue => hne ?_)⟩
  simp [talk, htrue]

theorem i2cSendBytes_agrees (ignoreNack : Bool) (buf : List UInt8) (bytes : Int)
    (h : Agrees c w) (hc : Settled c.mode) :
    (i2cSendBytes (lines (chip p)) ignoreNack buf bytes w).1 =
        (i2cSendBytes (talk p) ignoreNack buf bytes c).1 ∧
      Agrees (i2cSendBytes (talk p) ignoreNack buf bytes c).2
        (i2cSendBytes (lines (chip p)) ignoreNack buf bytes w).2 ∧
      Settled (i2cSendBytes (talk p) ignoreNack buf bytes c).2.mode := by
  induction buf generalizing bytes c w with
  | nil => exact ⟨rfl, h, hc⟩
  | cons byte buf ih =>
      obtain ⟨hret, hagrees⟩ := i2cWriteb_agrees h hc.silent (p := p) byte
      have hsettled : Settled ((talk p).writeb c byte).2.mode := write_settled hc byte
      simp only [i2cSendBytes]
      simp only [lines_writeb, hret]
      split
      · exact ih _ hagrees hsettled
      · split
        · exact ⟨rfl, hagrees, hsettled⟩
        · exact ⟨rfl, hagrees, hsettled⟩

/-! ## Bytes in -/

/-- A chip that was read stops talking when a byte is not acknowledged. -/
theorem answer_ready (hc : Ready true c.mode) :
    Settled ((c.read p).2.answer p false).mode ∧ Ready true ((c.read p).2.answer p true).mode := by
  obtain ⟨mode, s⟩ := c
  rcases hc with hsettled | ⟨-, byte, rfl⟩
  · cases hsettled with
    | idle => exact ⟨.idle, Or.inl .idle⟩
    | listen =>
        simp only [Talk.read, Partner.take, Bool.false_eq_true, if_false]
        obtain ⟨⟨ack, s'⟩, hreceive⟩ : ∃ r, p.receive s 0xFF = r := ⟨_, rfl⟩
        rw [hreceive]
        cases ack with
        | true => exact ⟨.listen, Or.inl .listen⟩
        | false => exact ⟨.idle, Or.inl .idle⟩
  · exact ⟨.idle, Or.inr ⟨rfl, _, rfl⟩⟩

theorem i2cRecvBytes_agrees (count : Nat) (read : List UInt8) (h : Agrees c w)
    (hc : if count = 0 then Settled c.mode else Ready true c.mode) :
    (i2cRecvBytes (lines (chip p)) false count read w).1 =
        (i2cRecvBytes (talk p) false count read c).1 ∧
      (i2cRecvBytes (lines (chip p)) false count read w).2.1 =
        (i2cRecvBytes (talk p) false count read c).2.1 ∧
      Agrees (i2cRecvBytes (talk p) false count read c).2.2
        (i2cRecvBytes (lines (chip p)) false count read w).2.2 ∧
      Settled (i2cRecvBytes (talk p) false count read c).2.2.mode := by
  induction count generalizing read c w with
  | zero => exact ⟨rfl, rfl, h, hc⟩
  | succ count ih =>
      rw [if_neg (Nat.succ_ne_zero count)] at hc
      obtain ⟨hread, hagrees, hsda, hdue⟩ := i2cReadb_agrees h hc.readable (p := p)
      obtain ⟨hret, hanswer⟩ :=
        i2cSendAckOrNack_agrees hagrees hsda hdue (p := p) (decide (count ≠ 0))
      obtain ⟨hlast, hmore⟩ := answer_ready (p := p) hc
      have hnext : if count = 0 then
          Settled ((c.read p).2.answer p (decide (count ≠ 0))).mode
          else Ready true ((c.read p).2.answer p (decide (count ≠ 0))).mode := by
        split
        · rename_i hzero
          simpa [hzero] using hlast
        · rename_i hpos
          simpa [hpos] using hmore
      have hlines : i2cRecvBytes (lines (chip p)) false (count + 1) read w =
          i2cRecvBytes (lines (chip p)) false count (read ++ [(c.read p).1])
            (i2cSendAckOrNack (chip p) (i2cReadb (chip p) w).2 (decide (count ≠ 0))).2 := by
        have hreadb : i2cReadb (chip p) w = (some (c.read p).1, (i2cReadb (chip p) w).2) :=
          Prod.ext hread rfl
        simp only [i2cRecvBytes, lines_readb, lines_sendAckOrNack]
        rw [hreadb]
        simp only [Bool.false_eq_true, if_false, hret, Int.lt_irrefl]
      have htalk : i2cRecvBytes (talk p) false (count + 1) read c =
          i2cRecvBytes (talk p) false count (read ++ [(c.read p).1])
            ((c.read p).2.answer p (decide (count ≠ 0))) := by
        simp [i2cRecvBytes, talk]
      rw [hlines, htalk]
      exact ih (read ++ [(c.read p).1]) hanswer hnext

/-! ## Addresses -/

theorem i2cSendAddress_agrees (addr : UInt8) (retries : Nat) {s : σ} (h : Agrees ⟨.listen true, s⟩ w) :
    (i2cSendAddress (lines (chip p)) addr retries w).1 =
        (i2cSendAddress (talk p) addr retries ⟨.listen true, s⟩).1 ∧
      Agrees (i2cSendAddress (talk p) addr retries ⟨.listen true, s⟩).2
        (i2cSendAddress (lines (chip p)) addr retries w).2 ∧
      Ready (addr &&& 1 == 1) (i2cSendAddress (talk p) addr retries ⟨.listen true, s⟩).2.mode ∧
      ((i2cSendAddress (talk p) addr retries ⟨.listen true, s⟩).1 ≠ 1 →
        Settled (i2cSendAddress (talk p) addr retries ⟨.listen true, s⟩).2.mode) := by
  induction retries generalizing w s with
  | zero =>
      obtain ⟨hret, hagrees⟩ := i2cWriteb_agrees h (.listen true) (p := p) addr
      obtain ⟨hready, hidle⟩ := write_address_failed (p := p) s addr
      exact ⟨hret, hagrees, hready, fun hne => hidle hne ▸ .idle⟩
  | succ retries ih =>
      obtain ⟨hret, hagrees⟩ := i2cWriteb_agrees h (.listen true) (p := p) addr
      obtain ⟨hready, hidle⟩ := write_address_failed (p := p) s addr
      simp only [i2cSendAddress, lines_writeb, lines_start, lines_stop, hret]
      split
      · rename_i hone
        exact ⟨rfl, hagrees, hready, fun hne => absurd hone hne⟩
      · rename_i hne
        rw [i2cStop_agrees hagrees (hidle hne ▸ .idle)]
        exact ih (i2cStart_quiet _)

theorem addr_write (addr : UInt8) : (addr <<< 1 &&& 1 == 1) = false := by
  refine beq_eq_false_iff_ne.mpr fun heq => ?_
  have hbit := congrArg (fun b : UInt8 => b.toBitVec.getLsbD 0) heq
  simp at hbit

theorem addr10_write (x : UInt8) : (((0xF0 : UInt8) ||| x &&& 0x06) &&& 1 == 1) = false := by
  refine beq_eq_false_iff_ne.mpr fun heq => ?_
  have hbit := congrArg (fun b : UInt8 => b.toBitVec.getLsbD 0) heq
  simp at hbit

/-- What `i2c_bit_send_address` does on the lines and in the conversation. -/
structure Sent (rd : Bool) (r : Int × Lines (Chip σ)) (q : Int × Talk σ) : Prop where
  ret : r.1 = q.1
  agrees : Agrees q.2 r.2
  ready : Ready rd q.2.mode
  failed : q.1 ≠ 0 → Settled q.2.mode

theorem Sent.acked {rd ignoreNack : Bool} {r : Int × Lines (Chip σ)} {q : Int × Talk σ}
    {rest : Lines (Chip σ) → Int × Lines (Chip σ)} {rest' : Talk σ → Int × Talk σ}
    (hret : r.1 = q.1) (hagrees : Agrees q.2 r.2) (hfailed : q.1 ≠ 1 → Settled q.2.mode)
    (hrest : Sent rd (rest r.2) (rest' q.2)) :
    Sent rd (i2cAcked ignoreNack r rest) (i2cAcked ignoreNack q rest') := by
  unfold i2cAcked
  rw [hret]
  split
  · rename_i hnack
    have hsettled := hfailed hnack.1
    exact ⟨rfl, hagrees, Or.inl hsettled, fun _ => hsettled⟩
  · exact hrest

theorem Sent.done {rd : Bool} (hagrees : Agrees c w) (hready : Ready rd c.mode) :
    Sent rd (0, w) (0, c) :=
  ⟨rfl, hagrees, hready, fun hne => absurd rfl hne⟩

theorem i2cBitSendAddress_agrees (retries : Nat) (msg : I2cMsg) {s : σ}
    (h : Agrees ⟨.listen true, s⟩ w) :
    Sent msg.rd (i2cBitSendAddress (lines (chip p)) retries msg w)
      (i2cBitSendAddress (talk p) retries msg ⟨.listen true, s⟩) := by
  cases hten : msg.addr10bit with
  | false =>
      simp only [i2cBitSendAddress, hten, Bool.false_eq_true, if_false]
      generalize haddr : (if msg.rd then msg.addr.toUInt8 <<< 1 ||| 1
        else msg.addr.toUInt8 <<< 1) = addr
      obtain ⟨hret, hagrees, hready, hfailed⟩ := i2cSendAddress_agrees (p := p) addr
        (if msg.ignoreNack then 0 else retries) h
      refine Sent.acked hret hagrees hfailed (Sent.done hagrees ?_)
      cases hrd : msg.rd with
      | true => exact hready.imp_right fun htalk => ⟨rfl, htalk.2⟩
      | false =>
          rw [← haddr, hrd] at hready ⊢
          simpa only [Bool.false_eq_true, if_false, addr_write] using hready
  | true =>
      simp only [i2cBitSendAddress, hten, if_true]
      generalize haddr : ((0xF0 : UInt8) ||| (msg.addr >>> 7).toUInt8 &&& 0x06) = addr
      obtain ⟨hret, hagrees, hready, hfailed⟩ := i2cSendAddress_agrees (p := p) addr
        (if msg.ignoreNack then 0 else retries) h
      have hsettled := hready.settled (by rw [← haddr]; exact addr10_write _)
      obtain ⟨hret', hagrees'⟩ := i2cWriteb_agrees hagrees hsettled.silent (p := p) msg.addr.toUInt8
      have hsettled' := write_settled (p := p) hsettled msg.addr.toUInt8
      refine Sent.acked hret hagrees hfailed (Sent.acked hret' hagrees' (fun _ => hsettled') ?_)
      cases hrd : msg.rd with
      | false => exact Sent.done hagrees' (Or.inl hsettled')
      | true =>
          obtain ⟨hret, hagrees, hready, hfailed⟩ := i2cSendAddress_agrees (p := p) (addr ||| 0x01)
            (if msg.ignoreNack then 0 else retries) (i2cRestart_agrees hagrees' hsettled'.silent)
          refine Sent.acked hret hagrees hfailed (Sent.done hagrees ?_)
          exact hready.imp_right fun htalk => ⟨rfl, htalk.2⟩

/-! ## Transfers -/

/-- What is read is acknowledged, and is not nothing. -/
structure I2cMsg.Plain (msg : I2cMsg) : Prop where
  readAck : msg.noReadAck = false
  nonempty : msg.rd = true → msg.buf ≠ []

/-- Where `i2c_bit_xfer` is before message `i`. -/
def Before (i : Nat) (msgs : List I2cMsg) (mode : Mode) : Prop :=
  if i = 0 then mode = .listen true ∧ ∀ msg ∈ msgs.head?, msg.noStart = false
  else Settled mode

theorem i2cAddress_agrees (retries i : Nat) {msg : I2cMsg} {msgs : List I2cMsg} (h : Agrees c w)
    (hc : Before i (msg :: msgs) c.mode) :
    Sent msg.rd (i2cAddress (lines (chip p)) retries i msg w)
      (i2cAddress (talk p) retries i msg c) := by
  obtain ⟨mode, s⟩ := c
  unfold Before at hc
  unfold i2cAddress
  split at hc
  · rename_i hzero
    obtain ⟨rfl, hstart⟩ := hc
    simp only [hstart msg rfl, Bool.false_eq_true, if_false, hzero, ne_eq, not_true_eq_false]
    exact i2cBitSendAddress_agrees retries msg h
  · rename_i hpos
    cases hstart : msg.noStart with
    | true => exact Sent.done h (Or.inl hc)
    | false =>
        simp only [Bool.false_eq_true, if_false, ne_eq, hpos, not_false_eq_true, if_true,
          lines_restart]
        exact i2cBitSendAddress_agrees retries msg (i2cRestart_agrees h hc.silent)

theorem i2cData_agrees {msg : I2cMsg} (hplain : msg.Plain) (h : Agrees c w)
    (hc : Ready msg.rd c.mode) :
    (i2cData (lines (chip p)) msg w).1 = (i2cData (talk p) msg c).1 ∧
      (i2cData (lines (chip p)) msg w).2.1 = (i2cData (talk p) msg c).2.1 ∧
      Agrees (i2cData (talk p) msg c).2.2 (i2cData (lines (chip p)) msg w).2.2 ∧
      Settled (i2cData (talk p) msg c).2.2.mode := by
  unfold i2cData
  cases hrd : msg.rd with
  | false =>
      rw [hrd] at hc
      obtain ⟨hret, hagrees, hsettled⟩ :=
        i2cSendBytes_agrees (p := p) msg.ignoreNack msg.buf 0 h (hc.settled rfl)
      simp only [Bool.false_eq_true, if_false, hret]
      exact ⟨trivial, trivial, hagrees, hsettled⟩
  | true =>
      rw [hrd] at hc
      have hlength : msg.buf.length ≠ 0 := fun hzero =>
        hplain.nonempty hrd (List.length_eq_zero_iff.mp hzero)
      have hready : if msg.buf.length = 0 then Settled c.mode else Ready true c.mode := by
        rw [if_neg hlength]
        exact hc
      obtain ⟨hret, hread, hagrees, hsettled⟩ :=
        i2cRecvBytes_agrees (p := p) msg.buf.length [] h hready
      simp only [if_true, hplain.readAck, hret, hread]
      exact ⟨trivial, trivial, hagrees, hsettled⟩

theorem i2cXferLoop_agrees (retries i : Nat) (msgs : List I2cMsg)
    (hmsgs : ∀ msg ∈ msgs, msg.Plain) (h : Agrees c w) (hc : Before i msgs c.mode) :
    (i2cXferLoop (lines (chip p)) retries i msgs w).1 =
        (i2cXferLoop (talk p) retries i msgs c).1 ∧
      (i2cXferLoop (lines (chip p)) retries i msgs w).2.1 =
        (i2cXferLoop (talk p) retries i msgs c).2.1 ∧
      Agrees (i2cXferLoop (talk p) retries i msgs c).2.2
        (i2cXferLoop (lines (chip p)) retries i msgs w).2.2 ∧
      Silent (i2cXferLoop (talk p) retries i msgs c).2.2.mode := by
  induction msgs generalizing i c w with
  | nil =>
      refine ⟨rfl, rfl, h, ?_⟩
      unfold Before at hc
      split at hc
      · exact hc.1 ▸ .listen true
      · exact hc.silent
  | cons msg msgs ih =>
      obtain ⟨hplain, hrest⟩ := List.forall_mem_cons.mp hmsgs
      obtain ⟨hret, hagrees, hready, hfailed⟩ := i2cAddress_agrees (p := p) retries i h hc
      unfold i2cXferLoop
      generalize i2cAddress (lines (chip p)) retries i msg w = r at hret hagrees
      generalize i2cAddress (talk p) retries i msg c = q at hret hagrees hready hfailed
      obtain ⟨ret, w₁⟩ := r
      obtain ⟨ret', c₁⟩ := q
      obtain rfl : ret = ret' := hret
      simp only
      split
      · rename_i hnack
        exact ⟨rfl, rfl, hagrees, (hfailed hnack.1).silent⟩
      · obtain ⟨hleft, hmsg, hagrees, hsettled⟩ := i2cData_agrees (p := p) hplain hagrees hready
        generalize i2cData (lines (chip p)) msg w₁ = r at hleft hmsg hagrees
        generalize i2cData (talk p) msg c₁ = q at hleft hmsg hagrees hsettled
        obtain ⟨left, msg₁, w₂⟩ := r
        obtain ⟨left', msg₂, c₂⟩ := q
        obtain rfl : left = left' := hleft
        obtain rfl : msg₁ = msg₂ := hmsg
        cases left with
        | some ret => exact ⟨rfl, rfl, hagrees, hsettled.silent⟩
        | none =>
            obtain ⟨hret, hmsgs, hagrees, hsilent⟩ := ih (i + 1) hrest hagrees
              (show Settled c₂.mode from hsettled)
            exact ⟨hret, congrArg _ hmsgs, hagrees, hsilent⟩

/-- A transfer that starts with an address, acknowledges what it reads, and reads
at least a byte where it reads. -/
def Proper (msgs : List I2cMsg) : Prop :=
  (∀ msg ∈ msgs, msg.Plain) ∧ ∀ msg ∈ msgs.head?, msg.noStart = false

theorem i2cBitXfer_quiet (retries : Nat) {msgs : List I2cMsg} (h : Proper msgs) (s : σ) :
    ∃ s', i2cBitXfer (talk p) retries msgs ⟨.idle, s⟩ =
        ((i2cBitXfer (talk p) retries msgs ⟨.idle, s⟩).1,
          (i2cBitXfer (talk p) retries msgs ⟨.idle, s⟩).2.1, ⟨.idle, s'⟩) ∧
      i2cBitXfer (lines (chip p)) retries msgs (quiet s) =
        ((i2cBitXfer (talk p) retries msgs ⟨.idle, s⟩).1,
          (i2cBitXfer (talk p) retries msgs ⟨.idle, s⟩).2.1, quiet s') := by
  obtain ⟨hret, hmsgs, hagrees, hsilent⟩ := i2cXferLoop_agrees (p := p) retries 0 msgs h.1
    (i2cStart_quiet ⟨.idle, s⟩) (show Before 0 msgs (Mode.listen true) from ⟨rfl, h.2⟩)
  refine ⟨(i2cXferLoop (talk p) retries 0 msgs (Talk.start ⟨.idle, s⟩)).2.2.partner, rfl, ?_⟩
  exact Prod.ext hret (Prod.ext hmsgs (i2cStop_agrees hagrees hsilent))

/-- Any sequence of transfers on the lines of a chip, whatever its partner
acknowledges and answers, returns and reads what the conversations with the
partner return and read byte by byte, leaves the partner in the same state, and
leaves the lines free. -/
theorem transfers_are_conversations (p : Partner σ) (retries : Nat)
    (transfers : List (List I2cMsg)) (h : ∀ msgs ∈ transfers, Proper msgs) (s : σ) :
    ∃ results s', i2cTransfers (talk p) retries transfers ⟨.idle, s⟩ = (results, ⟨.idle, s'⟩) ∧
      i2cTransfers (lines (chip p)) retries transfers (quiet s) = (results, quiet s') := by
  induction transfers generalizing s with
  | nil => exact ⟨[], s, rfl, rfl⟩
  | cons msgs transfers ih =>
      obtain ⟨hmsgs, hrest⟩ := List.forall_mem_cons.mp h
      obtain ⟨s₁, htalk, hlines⟩ := i2cBitXfer_quiet (p := p) retries hmsgs s
      obtain ⟨results, s₂, htalks, hliness⟩ := ih hrest s₁
      refine ⟨((i2cBitXfer (talk p) retries msgs ⟨.idle, s⟩).1,
        (i2cBitXfer (talk p) retries msgs ⟨.idle, s⟩).2.1) :: results, s₂, ?_, ?_⟩
      · rw [i2cTransfers, htalk]
        simp only [htalks]
      · rw [i2cTransfers, hlines]
        simp only [hliness]

/-- A register is read from a chip that answers with 0x71. -/
theorem transfers_are_conversations_read :
    ∃ results s', i2cTransfers
        (lines (chip ⟨fun s _ => some s, fun s _ => (true, s), fun s => (0x71, s)⟩)) 0
        [[⟨0x68, false, false, false, false, false, [0x75]⟩,
          ⟨0x68, true, false, false, false, false, [0]⟩]] (quiet ()) = (results, quiet s') ∧
      results = [(2, [⟨0x68, false, false, false, false, false, [0x75]⟩,
        ⟨0x68, true, false, false, false, false, [0x71]⟩])] := by
  obtain ⟨results, s', htalk, hlines⟩ := transfers_are_conversations
    ⟨fun s _ => some s, fun s _ => (true, s), fun s => (0x71, s)⟩ 0
    [[⟨0x68, false, false, false, false, false, [0x75]⟩,
      ⟨0x68, true, false, false, false, false, [0]⟩]]
    (by
      intro msgs hmsgs
      obtain rfl := List.mem_singleton.mp hmsgs
      refine ⟨fun msg hmsg => ?_, fun msg hmsg => Option.some.inj hmsg ▸ rfl⟩
      rcases List.mem_pair.mp hmsg with rfl | rfl
      · exact ⟨rfl, nofun⟩
      · exact ⟨rfl, fun _ => List.cons_ne_nil _ _⟩) ()
  exact ⟨results, s', hlines, (congrArg Prod.fst htalk).symm⟩

end I2c
