-- SUMMARY: The length byte of a point packet as array bound and divisor, and when it is harmless.
import LidarCar.Slam.Exit
import LidarCar.Slam.Packet

/-!
# Packet lengths

`package.lsn` is the byte the lidar sends. It bounds the index into
`package.buf` and divides the angle of the packet, and nothing checks it.
-/

namespace Slam

/-- The sample is stored inside `package.buf` and the divisor is not zero. -/
def Effect.LengthOk : Effect → Prop
  | .buf i => i < bufSize
  | .divide lsn => lsn ≠ 0
  | .circleInc | .number _ | .firstpoint _ | .ap _ _ | .putchar _ | .eventSend => True

/-- The first read after the LSN byte that a packet of this length must not make: the
last of its header, before a division by zero, or the first into `buf[40]`. -/
def faultyRead (lsn : UInt8) : Option Nat :=
  if lsn = 0 then some 6 else if lsn.toNat ≤ bufSize then none else some 87

/-- If `b` is the LSN byte of a point packet, it is from 1 to 40 or the bytes end
before the faulty read. -/
def LengthOk (s : Parser) (b : UInt8) (rest : List UInt8) : Prop :=
  s.pc = .manip (.field .point .lsn) → ∀ n, faultyRead b = some n → rest.length < n

/-! ## The reads of a packet -/

/-- The reads of a point packet after its LSN byte. -/
def Pc.packetReads : Pc → Option Nat
  | .manip (.field .point .fsa) => some 0
  | .manip (.field .point .fsaShift) => some 1
  | .manip (.field .point .lsa) => some 2
  | .manip (.field .point .lsaShift) => some 3
  | .manip (.field .point .cs) => some 4
  | .manip (.field .point .csShift) => some 5
  | .manip (.buf i) => some (6 + 2 * i)
  | .manip (.bufShift i) => some (7 + 2 * i)
  | .manip (.field .point .lsn) | .manip (.field .start _) | .manip .head | .manip .head2
  | .manip .ct | .manip .buf0 | .manip .buf0Shift | .getDate _ => none

/-- The reads up to the faulty one of the packet in progress. -/
def Parser.faultDue (s : Parser) : Option Nat :=
  s.pc.packetReads.bind fun k => (faultyRead s.package.lsn).map (· - k)

/-- The index of the sample loop. -/
def Pc.sampleIndex : Pc → Option Nat
  | .manip (.buf i) | .manip (.bufShift i) => some i
  | .manip (.field _ _) | .manip .head | .manip .head2 | .manip .ct | .manip .buf0
  | .manip .buf0Shift | .getDate _ => none

/-- The loop is within the packet, and has made no faulty read. -/
structure Parser.InPacket (s : Parser) : Prop where
  index : ∀ i, s.pc.sampleIndex = some i → i < s.package.lsn.toNat
  reads : ∀ k n, s.pc.packetReads = some k → faultyRead s.package.lsn = some n → k < n

/-! ## One read -/

theorem faultyRead_of_lt {lsn : UInt8} {i : Nat} (h : i < lsn.toNat) :
    faultyRead lsn = if lsn.toNat ≤ bufSize then none else some 87 := by
  refine if_neg fun hzero => ?_
  rw [hzero] at h
  exact Nat.not_lt_zero i h

theorem faultyRead_cases {lsn : UInt8} {n : Nat} (h : faultyRead lsn = some n) :
    (n = 6 ∧ lsn = 0) ∨ (n = 87 ∧ bufSize < lsn.toNat) := by
  unfold faultyRead at h
  split_ifs at h with hzero hle
  · exact Or.inl ⟨(Option.some.inj h).symm, hzero⟩
  · exact Or.inr ⟨(Option.some.inj h).symm, Nat.lt_of_not_le hle⟩

theorem recordPoints_lengthOk_iff (p : PackAge) (g : Globals) :
    (∀ e ∈ (recordPoints p g).2, e.LengthOk) ↔ p.lsn ≠ 0 := by
  rw [recordPoints_eq, List.forall_mem_cons, Effect.LengthOk, and_iff_left]
  intro e he
  obtain ⟨slot, rfl⟩ := Globals.storePoints_effects he
  trivial

/-- The head of the sample loop, on a packet that is not empty. -/
theorem sampleLoop_spec {s : Parser} (i : Nat) (hlsn : s.package.lsn ≠ 0) :
    (∀ e ∈ (sampleLoop s i).2, e.LengthOk) ∧
      (sampleLoop s i).1.package = s.package ∧
        (sampleLoop s i).1.pc = .manip (if i < s.package.lsn.toNat then .buf i else .head) := by
  unfold sampleLoop
  split
  · exact ⟨nofun, rfl, rfl⟩
  · exact ⟨(recordPoints_lengthOk_iff _ _).mpr hlsn, rfl, rfl⟩

/-- What a read of a packet does, unless it is the faulty one. -/
structure Parser.ReadsOn (s : Parser) (b : UInt8) (k : Nat) : Prop where
  good : ∀ e ∈ (step s b).2, e.LengthOk
  lsn : (step s b).1.package.lsn = s.package.lsn
  index : ∀ i, (step s b).1.pc.sampleIndex = some i → i < s.package.lsn.toNat
  reads : (step s b).1.pc.packetReads = some (k + 1) ∨
    (step s b).1.pc.packetReads = none ∧ faultyRead s.package.lsn = none

/-- The end of the header leads into the sample loop. -/
theorem Parser.ReadsOn.sampleLoop {s : Parser} {b : UInt8} {k : Nat} (t : Parser) (i : Nat)
    (es : List Effect) (hstep : step s b = ((sampleLoop t i).1, es ++ (sampleLoop t i).2))
    (hes : ∀ e ∈ es, e.LengthOk) (hlsn : t.package.lsn = s.package.lsn)
    (hne : s.package.lsn ≠ 0) (hk : k + 1 = 6 + 2 * i)
    (hend : s.package.lsn.toNat ≤ i → faultyRead s.package.lsn = none) : s.ReadsOn b k := by
  obtain ⟨hgood, hpackage, hpc⟩ := sampleLoop_spec i (s := t) (by rw [hlsn]; exact hne)
  rw [hlsn] at hpc
  constructor
  case good =>
    rw [hstep]
    exact List.forall_mem_append.mpr ⟨hes, hgood⟩
  case lsn => rw [hstep, hpackage, hlsn]
  case index =>
    intro j hj
    rw [hstep, hpc] at hj
    split at hj
    · next hi =>
        obtain rfl : i = j := Option.some.inj hj
        exact hi
    · cases hj
  case reads =>
    rw [hstep, hpc]
    split
    · exact Or.inl (congrArg some hk.symm)
    · next hi => exact Or.inr ⟨rfl, hend (Nat.le_of_not_lt hi)⟩

theorem index_lt_bufSize {lsn : UInt8} {i : Nat} (hi : i < lsn.toNat)
    (hreads : ∀ n, faultyRead lsn = some n → 6 + 2 * i < n)
    (hne : faultyRead lsn ≠ some (7 + 2 * i)) : i < bufSize := by
  rw [faultyRead_of_lt hi] at hreads hne
  split at hreads
  · next hle => exact Nat.lt_of_lt_of_le hi hle
  · next hgt =>
      have hlt := hreads 87 rfl
      rw [if_neg hgt] at hne
      have hne' : 87 ≠ 7 + 2 * i := fun heq => hne (congrArg some heq)
      rw [bufSize]
      omega

theorem Parser.InPacket.readsOn {s : Parser} {k : Nat} (h : s.InPacket) (b : UInt8)
    (hk : s.pc.packetReads = some k) (hfault : faultyRead s.package.lsn ≠ some (k + 1)) :
    s.ReadsOn b k := by
  have hreads := h.reads k
  have hindex := h.index
  cases hpc : s.pc with
  | getDate q => rw [hpc] at hk; cases hk
  | manip q =>
      rw [hpc] at hk hreads hindex
      have hstep := step_manip hpc b
      cases q with
      | field kind f =>
          cases kind with
          | start => cases f <;> cases hk
          | point =>
              cases f with
              | lsn => cases hk
              | csShift =>
                  cases hk
                  have hne : s.package.lsn ≠ 0 := by
                    intro hzero
                    rw [hzero] at hfault
                    exact hfault rfl
                  have hpos : ¬ s.package.lsn.toNat ≤ 0 := fun hle =>
                    hne (UInt8.toNat_inj.mp (Nat.le_zero.mp hle))
                  exact .sampleLoop { s with package := readField .csShift s.package b } 0 [] hstep
                    nofun rfl hne rfl fun hle => absurd hle hpos
              | _ =>
                  cases hk
                  constructor <;> rw [hstep]
                  · exact nofun
                  · rfl
                  · exact nofun
                  · exact Or.inl rfl
      | buf i =>
          cases hk
          have hi := hindex i rfl
          have hlt : i < bufSize := index_lt_bufSize hi (fun n hn => hreads n rfl hn)
            (by rwa [Nat.add_right_comm] at hfault)
          constructor <;> rw [hstep]
          · exact List.forall_mem_singleton.mpr hlt
          · rfl
          · intro j hj
            obtain rfl : i = j := Option.some.inj hj
            exact hi
          · exact Or.inl (congrArg some (Nat.add_right_comm 6 1 (2 * i)))
      | bufShift i =>
          cases hk
          have hi := hindex i rfl
          have hreads' : ∀ n, faultyRead s.package.lsn = some n → 7 + 2 * i < n :=
            fun n hn => hreads n rfl hn
          have hlt : i < bufSize := index_lt_bufSize hi
            (fun n hn => Nat.lt_of_succ_lt (by rw [← Nat.succ_add]; exact hreads' n hn))
            fun hn => Nat.lt_irrefl _ (hreads' _ hn)
          have hne : s.package.lsn ≠ 0 := by
            intro hzero
            rw [hzero] at hi
            exact Nat.not_lt_zero i hi
          refine .sampleLoop { s with package := s.package.setBuf i (b.toUInt16 <<< 8) } (i + 1)
            [.buf i] hstep (List.forall_mem_singleton.mpr hlt) rfl hne (by omega) fun hle => ?_
          rw [faultyRead_of_lt hi]
          exact if_pos (Nat.le_trans hle hlt)
      | _ => cases hk

/-- The faulty read divides by zero or stores into `buf[40]`. -/
theorem Parser.InPacket.faults {s : Parser} {k : Nat} (h : s.InPacket) (b : UInt8)
    (hk : s.pc.packetReads = some k) (hfault : faultyRead s.package.lsn = some (k + 1)) :
    ∃ e ∈ (step s b).2, ¬ e.LengthOk := by
  have hindex := h.index
  cases hpc : s.pc with
  | getDate q => rw [hpc] at hk; cases hk
  | manip q =>
      rw [hpc] at hk hindex
      have hstep := step_manip hpc b
      cases q with
      | field kind f =>
          cases kind with
          | start => cases f <;> cases hk
          | point =>
              rcases faultyRead_cases hfault with ⟨hlast, hzero⟩ | ⟨hlast, -⟩
              · cases f with
                | lsn => cases hk
                | csShift =>
                    have hempty : ¬ 0 < s.package.lsn.toNat := by
                      rw [hzero]
                      exact Nat.not_lt_zero 0
                    have hloop : (step s b).2 =
                        (recordPoints (readField .csShift s.package b) s.toGlobals).2 := by
                      rw [hstep]
                      exact congrArg Prod.snd (if_neg hempty)
                    refine ⟨.divide s.package.lsn, ?_, fun hne => hne hzero⟩
                    rw [hloop, recordPoints_eq]
                    exact List.mem_cons_self
                | _ =>
                    cases hk
                    cases hlast
              · cases f <;> cases hk <;> cases hlast
      | buf i =>
          cases hk
          have hi := hindex i rfl
          rw [faultyRead_of_lt hi] at hfault
          split at hfault
          · cases hfault
          · have heq := Option.some.inj hfault
            have hlast : i = 40 := by omega
            rw [hstep, hlast]
            exact ⟨.buf 40, List.mem_singleton_self _, Nat.lt_irrefl 40⟩
      | bufShift i =>
          cases hk
          have hi := hindex i rfl
          rw [faultyRead_of_lt hi] at hfault
          split at hfault
          · cases hfault
          · have heq := Option.some.inj hfault
            omega
      | _ => cases hk

/-- The program counters that a read outside a point packet leads to. -/
def Pc.Outside (pc : Pc) : Prop :=
  pc.packetReads = none ∧ pc.sampleIndex = none

theorem eaiX4GetDate_outside (q : GetDatePc) (b : UInt8) : (eaiX4GetDate q b).Outside := by
  cases hpc : eaiX4GetDate q b with
  | getDate q' => exact ⟨rfl, rfl⟩
  | manip q' =>
      obtain ⟨got, rfl, hscan⟩ := eaiX4GetDate_enters hpc
      have hhead : eaiX4GetDate (.reply got) b = .manip .head := by
        simp only [eaiX4GetDate, hscan]
        rfl
      rw [← hpc, hhead]
      exact ⟨rfl, rfl⟩

theorem openTurn_lengthOk (g : Globals) : ∀ e ∈ g.openTurn.2, e.LengthOk := by
  unfold Globals.openTurn
  dsimp only
  split <;> simp [Effect.LengthOk]

theorem startPacket_outside (s : Parser) :
    (∀ e ∈ (startPacket s).2, e.LengthOk) ∧ (startPacket s).1.pc.Outside := by
  have hopen := openTurn_lengthOk s.toGlobals
  unfold startPacket
  dsimp only
  split
  · refine ⟨List.forall_mem_append.mpr ⟨hopen, ?_⟩, rfl, rfl⟩
    simp [Effect.LengthOk]
  · exact ⟨hopen, rfl, rfl⟩

/-- Outside a point packet nothing depends on its length. The LSN byte begins one. -/
theorem step_outside {s : Parser} (b : UInt8) (hk : s.pc.packetReads = none) :
    (∀ e ∈ (step s b).2, e.LengthOk) ∧
      if s.pc = .manip (.field .point .lsn) then
        (step s b).1.pc = .manip (.field .point .fsa) ∧ (step s b).1.package.lsn = b
      else (step s b).1.pc.Outside := by
  cases hpc : s.pc with
  | getDate q =>
      rw [step_getDate hpc]
      exact ⟨nofun, eaiX4GetDate_outside q b⟩
  | manip q =>
      rw [hpc] at hk
      rw [step_manip hpc]
      cases q with
      | field kind f =>
          cases kind with
          | start => cases f <;> exact ⟨nofun, rfl, rfl⟩
          | point =>
              cases f with
              | lsn => exact ⟨nofun, rfl, rfl⟩
              | _ => cases hk
      | head =>
          rw [if_neg nofun]
          refine ⟨nofun, ?_⟩
          dsimp only [manipulationData]
          split <;> exact ⟨rfl, rfl⟩
      | head2 =>
          rw [if_neg nofun]
          refine ⟨nofun, ?_⟩
          dsimp only [manipulationData]
          split <;> exact ⟨rfl, rfl⟩
      | ct =>
          rw [if_neg nofun]
          dsimp only [manipulationData]
          split_ifs
          · exact ⟨nofun, rfl, rfl⟩
          · exact startPacket_outside s
          · exact ⟨nofun, rfl, rfl⟩
      | buf0 => exact ⟨List.forall_mem_singleton.mpr (show 0 < bufSize by decide), rfl, rfl⟩
      | buf0Shift =>
          refine ⟨?_, rfl, rfl⟩
          simp [manipulationData, Effect.LengthOk, bufSize]
      | buf i => cases hk
      | bufShift i => cases hk

/-! ## Every stream -/

theorem Parser.faultDue_eq_some_iff {s : Parser} {d : Nat} :
    s.faultDue = some d ↔ ∃ k n, s.pc.packetReads = some k ∧
      faultyRead s.package.lsn = some n ∧ n - k = d := by
  simp [Parser.faultDue, Option.bind_eq_some_iff, Option.map_eq_some_iff]

theorem Parser.ReadsOn.inPacket {s : Parser} {b : UInt8} {k : Nat} (h : s.ReadsOn b k)
    (hs : s.InPacket) (hk : s.pc.packetReads = some k)
    (hfault : faultyRead s.package.lsn ≠ some (k + 1)) : (step s b).1.InPacket := by
  constructor
  case index =>
    rw [h.lsn]
    exact h.index
  case reads =>
    intro k' n hk' hn
    rw [h.lsn] at hn
    rcases h.reads with hnext | ⟨hnone, -⟩
    · obtain rfl : k + 1 = k' := Option.some.inj (hnext.symm.trans hk')
      refine Nat.lt_of_le_of_ne (hs.reads k n hk hn) fun heq => hfault ?_
      rw [hn, ← heq]
    · rw [hnone] at hk'
      cases hk'

/-- A packet that is not the LSN byte of a point packet is fine by `LengthOk`. -/
theorem lengthOk_of_packetReads {s : Parser} {k : Nat} (hk : s.pc.packetReads = some k)
    (b : UInt8) (rest : List UInt8) : LengthOk s b rest := by
  intro hpc
  rw [hpc] at hk
  cases hk

theorem announces_faultyRead :
    Machine.Announces step Effect.LengthOk Parser.InPacket LengthOk Parser.faultDue where
  pos := by
    intro s hs hdue
    obtain ⟨k, n, hk, hn, hd⟩ := Parser.faultDue_eq_some_iff.mp hdue
    have hlt := hs.reads k n hk hn
    omega
  fault := by
    intro s b hs hdue
    obtain ⟨k, n, hk, hn, hd⟩ := Parser.faultDue_eq_some_iff.mp hdue
    have hlast : n = k + 1 := by omega
    exact hs.faults b hk (hlast ▸ hn)
  wait := by
    intro s b d hs hdue
    obtain ⟨k, n, hk, hn, hd⟩ := Parser.faultDue_eq_some_iff.mp hdue
    have hfault : faultyRead s.package.lsn ≠ some (k + 1) := by
      rw [hn]
      intro heq
      have := Option.some.inj heq
      omega
    have hreads := hs.readsOn b hk hfault
    refine ⟨hreads.good, hreads.inPacket hs hk hfault, ?_, lengthOk_of_packetReads hk b⟩
    rcases hreads.reads with hnext | ⟨-, hnone⟩
    · refine Parser.faultDue_eq_some_iff.mpr ⟨k + 1, n, hnext, ?_, by omega⟩
      rw [hreads.lsn, hn]
    · rw [hnone] at hn
      cases hn
  free := by
    intro s b hs hdue
    cases hk : s.pc.packetReads with
    | some k =>
        have hnone : faultyRead s.package.lsn = none := by
          cases hn : faultyRead s.package.lsn with
          | none => rfl
          | some n =>
              rw [Parser.faultDue_eq_some_iff.mpr ⟨k, n, hk, hn, rfl⟩] at hdue
              cases hdue
        have hfault : faultyRead s.package.lsn ≠ some (k + 1) := by
          rw [hnone]
          nofun
        have hreads := hs.readsOn b hk hfault
        refine ⟨hreads.good, hreads.inPacket hs hk hfault, fun rest => ?_⟩
        refine iff_of_true (lengthOk_of_packetReads hk b rest) fun d hd => ?_
        obtain ⟨k', n, -, hn, -⟩ := Parser.faultDue_eq_some_iff.mp hd
        rw [hreads.lsn, hnone] at hn
        cases hn
    | none =>
        obtain ⟨hgood, hnext⟩ := step_outside b hk
        refine ⟨hgood, ?_⟩
        split at hnext
        · next hpc =>
            obtain ⟨hpc', hlsn⟩ := hnext
            have hreads : (step s b).1.pc.packetReads = some 0 := by rw [hpc']; rfl
            refine ⟨⟨fun i hi => ?_, fun k n hk' hn => ?_⟩, fun rest => ⟨fun hok d hd => ?_, ?_⟩⟩
            · rw [hpc'] at hi
              cases hi
            · obtain rfl : 0 = k := Option.some.inj (hreads.symm.trans hk')
              rcases faultyRead_cases hn with ⟨rfl, -⟩ | ⟨rfl, -⟩ <;> decide
            · obtain ⟨k, n, hk', hn, rfl⟩ := Parser.faultDue_eq_some_iff.mp hd
              obtain rfl : 0 = k := Option.some.inj (hreads.symm.trans hk')
              rw [hlsn] at hn
              exact hok hpc n hn
            · intro hdue' _ n hn
              rw [← hlsn] at hn
              exact hdue' n (Parser.faultDue_eq_some_iff.mpr ⟨0, n, hreads, hn, rfl⟩)
        · next hpc =>
            obtain ⟨hreads, hindex⟩ := hnext
            refine ⟨⟨fun i hi => ?_, fun k n hk' => ?_⟩, fun rest => ?_⟩
            · rw [hindex] at hi; cases hi
            · rw [hreads] at hk'; cases hk'
            · refine iff_of_true (fun hpc' => absurd hpc' hpc) fun d hd => ?_
              obtain ⟨k', n, hk', -, -⟩ := Parser.faultDue_eq_some_iff.mp hd
              rw [hreads] at hk'
              cases hk'

theorem powerUp_inPacket : powerUp.InPacket :=
  ⟨nofun, nofun⟩

/-- The stream of a point packet with this length byte and blank samples. -/
def blankPoints (lsn : UInt8) (samples : Nat) : List UInt8 :=
  scanHeader ++ headerBytes 0x00 lsn 0 0 0 ++ List.replicate (2 * samples) 0

/-- On a stream, the stores into `package.buf` and the divisions by `package.lsn` are
all in order exactly if each point packet is announced with 1 to 40 samples or cut
off before its faulty read. -/
theorem length_ok_iff (bs : List UInt8) :
    (∀ e ∈ (parse powerUp bs).2, e.LengthOk) ↔ Machine.Ahead step LengthOk powerUp bs := by
  rw [parse, announces_faultyRead.outputs_iff powerUp_inPacket bs, and_iff_right]
  intro n hn
  cases hn

/-- A packet without samples divides by zero, and one with 41 leaves the buffer. -/
theorem length_not_ok :
    (¬ ∀ e ∈ (parse powerUp (blankPoints 0 0)).2, e.LengthOk) ∧
      ¬ ∀ e ∈ (parse powerUp (blankPoints 41 41)).2, e.LengthOk := by
  constructor
  · intro hall
    have hmem : Effect.divide 0 ∈ (parse powerUp (blankPoints 0 0)).2 := by decide
    exact hall _ hmem rfl
  · intro hall
    have hmem : Effect.buf 40 ∈ (parse powerUp (blankPoints 41 41)).2 := by decide +kernel
    exact Nat.lt_irrefl 40 (hall _ hmem)

end Slam
