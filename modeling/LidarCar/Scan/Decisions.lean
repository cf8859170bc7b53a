-- SUMMARY: The three threads of the scan cycle drive the car as one sequential program on the bytes read would.
import LidarCar.Scan.Handoff

/-!
# The decisions of the scan cycle

Read sequentially, the program is simple: parse the bytes, and fold the decision
of the master thread over the maps of the completed scans. The three threads do
exactly that, in any order of their steps: what the master thread has done is
what that program does, up to the place in its round that the thread has got to.
-/

namespace Scan

open Slam (Around AroundPoint Effect)
open Master (Action Locals examine handleScan visited)
open Transition (Reach)

/-! ## The sequential program -/

/-- A step of the parser, with the map of the scan that it completes. -/
def completing (p : Slam.Parser) (b : UInt8) : Slam.Parser × List (Int → Around) :=
  let r := Slam.step p b
  (r.1, if r.2.any Effect.isEvent then [r.1.around] else [])

/-- The maps of the scans that the bytes complete. -/
def scans (bytes : List UInt8) : List (Int → Around) :=
  (Machine.run completing Slam.powerUp bytes).2

/-- The master thread's locals and actions after the scans. -/
def answered (swing : Int32) (maps : List (Int → Around)) : Locals × List Action :=
  Machine.run handleScan (Master.entry swing) maps

theorem answered_concat (swing : Int32) (maps : List (Int → Around)) (m : Int → Around) :
    answered swing (maps ++ [m]) =
      ((handleScan (answered swing maps).1 m).1,
        (answered swing maps).2 ++ (handleScan (answered swing maps).1 m).2) :=
  Machine.run_concat _ _ _

/-! ## What the master thread has done -/

/-- The system with the actions that the master thread has come to. -/
structure Watched where
  system : System
  performed : List Action

/-- The action that the step begins. -/
def System.performs (s : System) : Label → List Action
  | .master =>
    match s.master with
    | .act (a :: _) => [a]
    | _ => []
  | _ => []

def Watched.next (w : Watched) (a : Label) : Option Watched :=
  (w.system.next a).map fun s =>
    { system := s, performed := w.performed ++ w.system.performs a }

def Watched.init (swing : Int32) : Watched where
  system := .init swing
  performed := []

/-- `HeaderOnlyInAnswer` of the system watched. -/
def Watched.HeaderOnlyInAnswer (w : Watched) (a : Label) : Prop :=
  Scan.HeaderOnlyInAnswer w.system a

theorem Watched.next_eq {w w' : Watched} {a : Label} (h : w.next a = some w') :
    w.system.next a = some w'.system ∧ w'.performed = w.performed ++ w.system.performs a := by
  obtain ⟨s, hs, rfl⟩ := Option.map_eq_some_iff.mp h
  exact ⟨hs, rfl⟩

/-! ## The loops -/

/-- The points that the loops have visited when they come to point `x` of turn `i`. -/
def visitedTo (m : Int → Around) (i x : Nat) : List AroundPoint :=
  ((List.range' 1 (i - 1)).flatMap fun t : Nat => (m t).recorded) ++
    (List.range x).map fun y : Nat => (m i).ap y

theorem visitedTo_point (m : Int → Around) (i x : Nat) :
    visitedTo m i (x + 1) = visitedTo m i x ++ [(m i).ap x] := by
  rw [visitedTo, List.range_succ, List.map_append, ← List.append_assoc]
  rfl

/-- After its last point a turn is visited. -/
theorem visitedTo_turn {m : Int → Around} {i x : Nat} (hi : 0 < i)
    (hx : x = (m i).number.toInt.toNat) : visitedTo m (i + 1) 0 = visitedTo m i x := by
  obtain ⟨k, rfl⟩ : ∃ k, i = k + 1 := ⟨i - 1, by omega⟩
  have hrange : List.range' 1 (k + 1) = List.range' 1 k ++ [k + 1] := by
    rw [List.range'_concat, Nat.one_mul, Nat.add_comm 1 k]
  simp only [visitedTo, Nat.add_sub_cancel, hrange, List.flatMap_append, List.flatMap_cons,
    List.flatMap_nil, List.append_nil, List.range_zero, List.map_nil, Around.recorded, hx]

theorem visitedTo_end (m : Int → Around) : visitedTo m 5 0 = visited m := by
  simp only [visitedTo, visited, List.range', List.range_zero, List.map_nil, List.append_nil,
    List.flatMap_cons, List.flatMap_nil]
  rfl

/-- Where the loops can be. -/
structure LoopAt (m : Int → Around) (i x : Nat) : Prop where
  one_le : 1 ≤ i
  le_five : i ≤ 5
  point : x ≤ (m i).number.toInt.toNat
  atEnd : i = 5 → x = 0

section LoopAt

variable {m : Int → Around} {i x : Nat}

theorem LoopAt.start (m : Int → Around) : LoopAt m 1 0 :=
  ⟨Nat.le_refl 1, by decide, Nat.zero_le _, nofun⟩

theorem LoopAt.nextPoint (h : LoopAt m i x) (hi : i < 5) (hx : (x : Int) < (m i).number.toInt) :
    LoopAt m i (x + 1) := by
  refine ⟨h.one_le, h.le_five, ?_, fun hfive => absurd hfive hi.ne⟩
  omega

theorem LoopAt.nextTurn (h : LoopAt m i x) (hi : i < 5) : LoopAt m (i + 1) 0 :=
  ⟨h.one_le.trans (Nat.le_succ i), hi, Nat.zero_le _, fun _ => rfl⟩

/-- The inner loop ends at the last recorded point. -/
theorem LoopAt.turn_eq (h : LoopAt m i x) (hx : ¬ (x : Int) < (m i).number.toInt) :
    x = (m i).number.toInt.toNat := by
  have hpoint := h.point
  omega

theorem LoopAt.end_eq (h : LoopAt m i x) (hi : ¬ i < 5) : i = 5 ∧ x = 0 := by
  have hfive : i = 5 := Nat.le_antisymm h.le_five (Nat.le_of_not_lt hi)
  exact ⟨hfive, h.atEnd hfive⟩

end LoopAt

/-! ## The invariant -/

/-- How the locals and the actions of the master thread follow from the maps of
the scans received, at each place of its round. -/
def Follows (swing : Int32) (maps : List (Int → Around)) (l : Locals) (performed : List Action) :
    MasterPc → Prop
  | .recv | .waiting | .request _ =>
    l = (answered swing maps).1 ∧ performed = (answered swing maps).2
  | .received _ =>
    ∃ earlier m, maps = earlier ++ [m] ∧
      l = (answered swing earlier).1 ∧ performed = (answered swing earlier).2
  | .loop i x =>
    ∃ earlier m, maps = earlier ++ [m] ∧ LoopAt m i x ∧
      l = { (answered swing earlier).1 with
        toSignals := (visitedTo m i x).foldl examine (answered swing earlier).1.toSignals } ∧
      performed = (answered swing earlier).2
  | .act todo =>
    l = (answered swing maps).1 ∧ performed ++ todo = (answered swing maps).2 ∧
      (answered swing maps.dropLast).2 <+: performed ∧ ∃ pre, todo = pre ++ [.scan] ∧ .scan ∉ pre

/-- The bytes the parser thread has taken. -/
def System.read (s : System) : List UInt8 :=
  s.sent.take s.nread

/-- The last completed scan is still to be looked at. -/
def System.Held (s : System) : Prop :=
  s.out ≠ [] ∨ s.controlEvent.set ≠ 0 ∨ s.master.busy = true

structure Sequential (swing : Int32) (w : Watched) : Prop where
  protocol : Protocol w.system
  parser : w.system.parser = (Machine.run completing Slam.powerUp w.system.read).1
  length : (scans w.system.read).length = w.system.completed
  last : w.system.Held → (scans w.system.read).getLast? = some w.system.parser.around
  follows : Follows swing ((scans w.system.read).take w.system.receptions) w.system.locals
    w.performed w.system.master

variable {swing : Int32} {w w' : Watched} {s s' : System}

theorem Sequential.init (swing : Int32) : Sequential swing (.init swing) where
  protocol := Protocol.init swing
  parser := rfl
  length := rfl
  last := by
    rintro (hout | hset | hbusy)
    · exact absurd rfl hout
    · exact absurd rfl hset
    · cases hbusy
  follows := ⟨rfl, rfl⟩

/-- A step that takes no byte and receives no event. -/
theorem Sequential.frame (h : Sequential swing w) (hprotocol : Protocol w'.system)
    (hread : w'.system.read = w.system.read) (hparser : w'.system.parser = w.system.parser)
    (hcompleted : w'.system.completed = w.system.completed)
    (hheld : w'.system.Held → w.system.Held)
    (hfollows : Follows swing ((scans w.system.read).take w'.system.receptions) w'.system.locals
      w'.performed w'.system.master) : Sequential swing w' where
  protocol := hprotocol
  parser := by
    rw [hparser, hread]
    exact h.parser
  length := by
    rw [hread, hcompleted]
    exact h.length
  last := by
    rw [hparser, hread]
    exact fun hx => h.last (hheld hx)
  follows := by
    rw [hread]
    exact hfollows

/-! ## The parser's steps -/

theorem scans_concat (bytes : List UInt8) (b : UInt8) :
    scans (bytes ++ [b]) =
      scans bytes ++ (completing (Machine.run completing Slam.powerUp bytes).1 b).2 := by
  rw [scans, Machine.run_concat]
  rfl

theorem System.read_take {b : UInt8} (hb : s.sent[s.nread]? = some b) :
    (s.take b).read = s.read ++ [b] :=
  take_succ_of_getElem? hb

/-- A scan is completed by the byte that leaves the stop and the event to send. -/
theorem Sequential.take {b : UInt8} {performed : List Action}
    (h : Sequential swing ⟨s, performed⟩) (hout : s.out = []) (hb : s.sent[s.nread]? = some b) :
    Sequential swing ⟨s.take b, performed⟩ := by
  have hprotocol : Protocol (s.take b) := h.protocol.take hout hb
  have hread := System.read_take hb
  have hscans : scans (s.take b).read = scans s.read ++ (completing s.parser b).2 := by
    rw [hread, scans_concat, ← h.parser]
  have hle : s.receptions ≤ (scans s.read).length := by
    rw [h.length, h.protocol.completed]
    exact Nat.le_add_right _ _
  have hparser : (s.take b).parser =
      (Machine.run completing Slam.powerUp (s.take b).read).1 := by
    rw [hread, Machine.run_concat, ← h.parser]
    rfl
  have hfollows : Follows swing ((scans (s.take b).read).take s.receptions) s.locals performed
      s.master := by
    rw [hscans, List.take_append_of_le_length hle]
    exact h.follows
  have hevent : (s.take b).completed =
      if (Slam.step s.parser b).2.any Effect.isEvent then s.completed + 1 else s.completed := rfl
  cases hany : (Slam.step s.parser b).2.any Effect.isEvent with
  | true =>
      have hmap : (completing s.parser b).2 = [(s.take b).parser.around] := if_pos hany
      refine ⟨hprotocol, hparser, ?_, fun _ => ?_, hfollows⟩
      · rw [hscans, hmap, List.length_append, h.length, hevent, if_pos hany]
        rfl
      · rw [hscans, hmap, List.getLast?_concat]
  | false =>
      have hnone : (completing s.parser b).2 = [] := if_neg (Bool.eq_false_iff.mp hany)
      have hsame : scans (s.take b).read = scans s.read := by
        rw [hscans, hnone, List.append_nil]
      refine ⟨hprotocol, hparser, ?_, fun hheld => ?_, hfollows⟩
      · rw [hsame, h.length, hevent, if_neg (Bool.eq_false_iff.mp hany)]
      · have hnil : (s.take b).out = [] := by
          rcases s.take_cases b with ⟨hnil, -⟩ | ⟨-, hcount, -⟩
          · exact hnil
          · rw [hevent, if_neg (Bool.eq_false_iff.mp hany)] at hcount
            exact absurd hcount (Nat.ne_of_lt (Nat.lt_succ_self _))
        have hold : s.controlEvent.set ≠ 0 ∨ s.master.busy = true :=
          hheld.resolve_left fun hne => hne hnil
        have hout' : ¬ s.InManip := by
          intro hin
          rcases hold with hset | hbusy
          · exact hset (h.protocol.exclusive.set_eq_zero hin)
          · cases h.protocol.exclusive (x := .scan) hin (y := .master) hbusy
        have hnext : s.next .parser = some (s.take b) := by
          rw [System.next, System.stepParser, hout]
          simp only [hb, Option.map_some]
        rw [hsame, System.around_of_not_inManip hout' hnext]
        exact h.last (Or.inr hold)

/-- The reception of the event hands the last completed scan to the master thread. -/
theorem Sequential.received (h : Sequential swing w) (hheld : w.system.Held)
    (hpending : w.system.pending = 1)
    (hmaster : w.system.master = .recv ∨ w.system.master = .waiting) :
    Follows swing ((scans w.system.read).take (w.system.receptions + 1)) w.system.locals
      w.performed (.received 1) := by
  have hlength : (scans w.system.read).length = w.system.receptions + 1 := by
    rw [h.length, h.protocol.completed, hpending]
  have hsettled : w.system.locals =
        (answered swing ((scans w.system.read).take w.system.receptions)).1 ∧
      w.performed = (answered swing ((scans w.system.read).take w.system.receptions)).2 := by
    have hfollows := h.follows
    rcases hmaster with hm | hm
    · rw [hm] at hfollows
      exact hfollows
    · rw [hm] at hfollows
      exact hfollows
  obtain ⟨m, hm⟩ : ∃ m, (scans w.system.read).getLast? = some m := ⟨_, h.last hheld⟩
  refine ⟨(scans w.system.read).take w.system.receptions, m, ?_, hsettled⟩
  have hdrop := List.dropLast_append_getLast? m hm
  rw [List.dropLast_eq_take, hlength, Nat.add_sub_cancel] at hdrop
  rw [hdrop, ← hlength, List.take_length]

theorem Sequential.eventSend {out : List Effect} {performed : List Action}
    (h : Sequential swing ⟨s, performed⟩) (hout : s.out = .eventSend :: out) :
    Sequential swing ⟨{ s.eventSend with out := out }, performed⟩ := by
  have hprotocol := h.protocol.eventSend hout
  have hne : s.out ≠ [] := by
    rw [hout]
    exact List.cons_ne_nil _ _
  have hheld : s.Held := Or.inl hne
  have hset : s.controlEvent.set = 0 := h.protocol.exclusive.set_eq_zero (Or.inr hne)
  by_cases hwaiting : s.master = .waiting
  · have hevent : s.controlEvent = ⟨0, some 1⟩ := by
      rw [← hset, ← (h.protocol.wakeup.waiter.trans (if_pos hwaiting))]
    have hpending : s.pending = 1 := by
      rw [System.pending, if_neg hne, if_pos hset]
    rw [System.eventSend_waiting hevent] at hprotocol ⊢
    exact h.frame hprotocol rfl rfl rfl (fun _ => hheld)
      (h.received hheld hpending (Or.inr hwaiting))
  · have hevent : s.controlEvent = ⟨0, none⟩ := by
      rw [← hset, ← (h.protocol.wakeup.waiter.trans (if_neg hwaiting))]
    rw [System.eventSend_running hevent] at hprotocol ⊢
    exact h.frame hprotocol rfl rfl rfl (fun _ => hheld) h.follows

theorem Sequential.parserStep {performed : List Action} (h : Sequential swing ⟨s, performed⟩)
    (hnext : s.stepParser = some s') : Sequential swing ⟨s', performed⟩ := by
  have hprotocol := h.protocol.parser hnext
  unfold System.stepParser at hnext
  split at hnext
  case h_1 e out hout =>
    obtain rfl := Option.some.inj hnext
    have hheld : s.Held := by
      rw [System.Held, hout]
      exact Or.inl (List.cons_ne_nil _ _)
    have houtputs := h.protocol.outputs
    rw [hout] at houtputs
    rcases houtputs.cons with ⟨rfl, -⟩ | ⟨rfl, -⟩ | ⟨rfl, -⟩
    · exact h.frame hprotocol rfl rfl rfl (fun _ => hheld) h.follows
    · exact h.frame hprotocol rfl rfl rfl (fun _ => hheld) h.follows
    · exact h.eventSend hout
  case h_2 hout =>
    obtain ⟨b, hb, rfl⟩ := Option.map_eq_some_iff.mp hnext
    exact h.take hout hb

/-! ## The master thread's steps -/

/-- While the master thread is busy no event is pending: what it has received is
all that is completed, and the last map is `around`. -/
theorem Sequential.current (h : Sequential swing w) (hbusy : w.system.master.busy = true)
    {maps : List (Int → Around)} {m : Int → Around}
    (hmaps : (scans w.system.read).take w.system.receptions = maps ++ [m]) :
    m = w.system.parser.around := by
  have hlast := h.last (Or.inr (Or.inr hbusy))
  have hpending : w.system.pending = 0 := by
    have hout : w.system.out = [] := by
      by_contra hne
      cases h.protocol.exclusive (x := .scan) (Or.inr hne) (y := .master) hbusy
    have hset : w.system.controlEvent.set = 0 := by
      by_contra hne
      cases h.protocol.exclusive (x := .event) hne (y := .master) hbusy
    rw [System.pending, if_pos hout, if_pos hset]
  have hlength : (scans w.system.read).length = w.system.receptions := by
    rw [h.length, h.protocol.completed, hpending, Nat.add_zero]
  rw [← hlength, List.take_length] at hmaps
  rw [hmaps, List.getLast?_concat] at hlast
  exact Option.some.inj hlast

/-- A reaction ends with its only request for the next scan. -/
theorem react_eq_concat (l : Locals) :
    ∃ pre, (Master.react l).2 = pre ++ [.scan] ∧ .scan ∉ pre := by
  unfold Master.react
  dsimp only
  split_ifs
  · exact ⟨_, rfl, by simp [Master.escapeTurn]⟩
  · exact ⟨[.car (Master.steer l.fsignal)], rfl, by simp⟩
  · exact ⟨[.car .carForward], rfl, by simp⟩

/-- A step of the busy master thread. -/
theorem Sequential.busyStep {m : MasterPc} {performed : List Action} (h : Sequential swing w)
    (hmaster : w.system.master = m) (hbusy : m.busy = true) (hprotocol : Protocol s')
    (hread : s'.read = w.system.read) (hparser : s'.parser = w.system.parser)
    (hcompleted : s'.completed = w.system.completed)
    (hfollows : Follows swing ((scans w.system.read).take s'.receptions) s'.locals performed
      s'.master) : Sequential swing ⟨s', performed⟩ := by
  have hheld : w.system.Held := by
    refine Or.inr (Or.inr ?_)
    rw [hmaster]
    exact hbusy
  exact h.frame hprotocol hread hparser hcompleted (fun _ => hheld) hfollows

/-- `rt_event_recv` is called. -/
theorem Sequential.recv (h : Sequential swing w) (hmaster : w.system.master = .recv)
    (hnext : w.system.stepMaster = some s') : Sequential swing ⟨s', w.performed⟩ := by
  have hprotocol := h.protocol.master hnext
  have hwaiter : w.system.controlEvent.waiter = none :=
    h.protocol.wakeup.waiter.trans (if_neg (by rw [hmaster]; nofun))
  rw [System.stepMaster, hmaster] at hnext
  rcases h.protocol.wakeup.set with hset | hset
  · have hrecv : w.system.controlEvent.recv controlEventEaix4 = (⟨0, some 1⟩, none) := by
      rw [show w.system.controlEvent = ⟨0, none⟩ by rw [← hset, ← hwaiter]]
      decide
    simp only [hrecv, Option.some.injEq] at hnext
    subst hnext
    have hfollows := h.follows
    rw [hmaster] at hfollows
    refine h.frame hprotocol rfl rfl rfl (fun hheld => ?_) hfollows
    rcases hheld with hout | hne | hbusy
    · exact Or.inl hout
    · exact absurd rfl hne
    · cases hbusy
  · have hrecv : w.system.controlEvent.recv controlEventEaix4 = (⟨0, none⟩, some 1) := by
      rw [show w.system.controlEvent = ⟨1, none⟩ by rw [← hset, ← hwaiter]]
      decide
    simp only [hrecv, Option.some.injEq] at hnext
    subst hnext
    have hne : w.system.controlEvent.set ≠ 0 := by
      rw [hset]
      decide
    have hout : w.system.out = [] := by
      by_contra hout
      exact hne (h.protocol.exclusive.set_eq_zero (Or.inr hout))
    have hpending : w.system.pending = 1 := by
      rw [System.pending, if_pos hout, if_neg hne]
    have hheld : w.system.Held := Or.inr (Or.inl hne)
    exact h.frame hprotocol rfl rfl rfl (fun _ => hheld) (h.received hheld hpending (Or.inl hmaster))

/-- A step of the loops over the points. -/
theorem Sequential.loop {i x : Nat} (h : Sequential swing w) (hmaster : w.system.master = .loop i x)
    (hnext : w.system.stepMaster = some s') : Sequential swing ⟨s', w.performed⟩ := by
  have hprotocol := h.protocol.master hnext
  have hfollows := h.follows
  rw [hmaster] at hfollows
  obtain ⟨earlier, m, hmaps, hat, hlocals, hperformed⟩ := hfollows
  have hm : m = w.system.parser.around := by
    refine h.current ?_ hmaps
    rw [hmaster]
    rfl
  rw [System.stepMaster, hmaster] at hnext
  simp only [← hm] at hnext
  split_ifs at hnext with hi hx
  · -- the next point of the turn
    obtain rfl := Option.some.inj hnext
    refine h.busyStep hmaster rfl hprotocol rfl rfl rfl
      ⟨earlier, m, hmaps, hat.nextPoint hi hx, ?_, hperformed⟩
    rw [visitedTo_point, List.foldl_concat, hlocals]
  · -- the turn is over
    obtain rfl := Option.some.inj hnext
    refine h.busyStep hmaster rfl hprotocol rfl rfl rfl
      ⟨earlier, m, hmaps, hat.nextTurn hi, ?_, hperformed⟩
    rw [visitedTo_turn hat.one_le (hat.turn_eq hx)]
    exact hlocals
  · -- all turns are visited
    obtain rfl := Option.some.inj hnext
    obtain ⟨rfl, rfl⟩ := hat.end_eq hi
    have hreact : Master.react w.system.locals = handleScan (answered swing earlier).1 m := by
      rw [hlocals, visitedTo_end]
      rfl
    refine h.busyStep hmaster rfl hprotocol rfl rfl rfl ⟨?_, ?_, ?_, react_eq_concat _⟩
    · rw [hreact, hmaps, answered_concat]
    · rw [hreact, hmaps, answered_concat, hperformed]
    · rw [hmaps, List.dropLast_concat]
      exact hperformed ▸ List.prefix_refl _

theorem Sequential.masterStep (h : Sequential swing w) (hnext : w.system.stepMaster = some s') :
    Sequential swing ⟨s', w.performed ++ w.system.performs .master⟩ := by
  have hprotocol := h.protocol.master hnext
  have hfollows := h.follows
  cases hmaster : w.system.master with
  | recv =>
      simp only [System.performs, hmaster, List.append_nil]
      exact h.recv hmaster hnext
  | waiting =>
      rw [System.stepMaster, hmaster] at hnext
      cases hnext
  | received e =>
      obtain rfl := h.protocol.wakeup.received e hmaster
      rw [System.stepMaster, hmaster] at hnext
      obtain rfl := Option.some.inj hnext
      simp only [System.performs, hmaster, List.append_nil]
      rw [hmaster] at hfollows
      obtain ⟨earlier, m, hmaps, hlocals, hperformed⟩ := hfollows
      have hstart : Follows swing ((scans w.system.read).take w.system.receptions)
          w.system.locals w.performed (.loop 1 0) :=
        ⟨earlier, m, hmaps, LoopAt.start m, hlocals, hperformed⟩
      exact h.busyStep hmaster rfl hprotocol rfl rfl rfl hstart
  | loop i x =>
      simp only [System.performs, hmaster, List.append_nil]
      exact h.loop hmaster hnext
  | act todo =>
      rw [hmaster] at hfollows
      obtain ⟨hlocals, hperformed, hearlier, pre, rfl, hpre⟩ := hfollows
      rw [System.stepMaster, hmaster] at hnext
      cases pre with
      | nil =>
          obtain rfl := Option.some.inj hnext
          simp only [System.performs, hmaster, List.nil_append]
          exact h.busyStep hmaster rfl hprotocol rfl rfl rfl ⟨hlocals, hperformed⟩
      | cons a pre =>
          have hne : a ≠ .scan := fun ha => hpre (ha ▸ List.mem_cons_self)
          have hact : some { w.system with master := .act (pre ++ [.scan]) } = some s' := by
            rw [← hnext]
            cases a with
            | scan => exact absurd rfl hne
            | car c | beep on | delay ms => rfl
          obtain rfl := Option.some.inj hact
          simp only [System.performs, hmaster, List.cons_append]
          refine h.busyStep hmaster rfl hprotocol rfl rfl rfl
            ⟨hlocals, ?_, hearlier.trans (List.prefix_append _ _), pre, rfl,
              fun hmem => hpre (List.mem_cons_of_mem a hmem)⟩
          rw [List.append_assoc]
          exact hperformed
  | request r =>
      rw [hmaster] at hfollows
      rw [System.stepMaster, hmaster] at hnext
      simp only [System.performs, hmaster, List.append_nil]
      cases r with
      | first =>
          obtain rfl := Option.some.inj hnext
          exact h.busyStep hmaster rfl hprotocol rfl rfl rfl hfollows
      | second =>
          obtain rfl := Option.some.inj hnext
          exact h.busyStep hmaster rfl hprotocol rfl rfl rfl hfollows
      | done =>
          obtain rfl := Option.some.inj hnext
          refine h.frame hprotocol rfl rfl rfl (fun hheld => ?_) hfollows
          rcases hheld with hout | hne | hbusy
          · exact Or.inl hout
          · exact Or.inr (Or.inl hne)
          · cases hbusy

/-! ## Runs -/

/-- More scans lead to more actions. -/
theorem answered_mono {maps maps' : List (Int → Around)} (h : maps <+: maps') :
    (answered swing maps).2 <+: (answered swing maps').2 := by
  obtain ⟨more, rfl⟩ := h
  rw [answered, answered, Machine.run_append]
  exact List.prefix_append _ _

/-- The actions lie between those on the earlier scans and those on all scans received. -/
theorem Follows.between {maps : List (Int → Around)} {l : Locals} {performed : List Action}
    {m : MasterPc} (h : Follows swing maps l performed m) :
    (answered swing maps.dropLast).2 <+: performed ∧ performed <+: (answered swing maps).2 ∧
      (m.busy = false → performed = (answered swing maps).2) := by
  cases m with
  | recv | waiting | request r =>
      obtain ⟨-, rfl⟩ := h
      exact ⟨answered_mono (List.dropLast_prefix maps), List.prefix_refl _, fun _ => rfl⟩
  | received e =>
      obtain ⟨earlier, m, rfl, -, rfl⟩ := h
      rw [List.dropLast_concat]
      exact ⟨List.prefix_refl _, answered_mono (List.prefix_append _ _), nofun⟩
  | loop i x =>
      obtain ⟨earlier, m, rfl, -, -, rfl⟩ := h
      rw [List.dropLast_concat]
      exact ⟨List.prefix_refl _, answered_mono (List.prefix_append _ _), nofun⟩
  | act todo =>
      obtain ⟨-, hall, hearlier, -⟩ := h
      refine ⟨hearlier, ?_, nofun⟩
      rw [← hall]
      exact List.prefix_append _ _

theorem Sequential.step {a : Label} (h : Sequential swing w)
    (hC : HeaderOnlyInAnswer w.system a) (hnext : w.next a = some w') : Sequential swing w' := by
  obtain ⟨hsystem, hperformed⟩ := Watched.next_eq hnext
  obtain ⟨s', performed⟩ := w'
  dsimp only at hsystem hperformed
  subst hperformed
  have hprotocol := h.protocol.step hC hsystem
  have happend : ∀ more, (w.system.sent ++ more).take w.system.nread = w.system.read := fun more =>
    List.take_append_of_le_length h.protocol.reading.nread_le
  have hfollows := h.follows
  cases a with
  | answer =>
      obtain ⟨-, hs'⟩ := Option.ite_none_right_eq_some.mp hsystem
      obtain rfl := Option.some.inj hs'
      simp only [System.performs, List.append_nil]
      exact h.frame hprotocol (happend _) rfl rfl id hfollows
  | byte b =>
      obtain rfl := Option.some.inj hsystem
      simp only [System.performs, List.append_nil]
      exact h.frame hprotocol (happend _) rfl rfl id hfollows
  | parser =>
      simp only [System.performs, List.append_nil]
      exact h.parserStep hsystem
  | master => exact h.masterStep hsystem
  | shell =>
      obtain ⟨b, shell, rfl⟩ := System.stepShell_cases hsystem
      simp only [System.performs, List.append_nil]
      exact h.frame hprotocol rfl rfl rfl id hfollows

/-- Every action the master thread has come to is the next one of the sequential
program on the bytes read: all actions on the earlier scans, then some of those
on the scan in hand. Between two scans none is outstanding, and at most the
last scan is still to be received. -/
theorem performed_sequential {swing : Int32} {w : Watched}
    (h : Reach Watched.next Watched.HeaderOnlyInAnswer (.init swing) w) :
    let maps := scans (w.system.sent.take w.system.nread)
    (answered swing (maps.take (w.system.receptions - 1))).2 <+: w.performed ∧
      w.performed <+: (answered swing (maps.take w.system.receptions)).2 ∧
      (w.system.master.busy = false →
        w.performed = (answered swing (maps.take w.system.receptions)).2) ∧
      w.system.receptions ≤ maps.length ∧ maps.length ≤ w.system.receptions + 1 := by
  have hseq : Sequential swing w :=
    h.invariant (Sequential.init swing) fun hi hC hnext => hi.step hC hnext
  intro maps
  have hlength : maps.length = w.system.receptions + w.system.pending :=
    hseq.length.trans hseq.protocol.completed
  have hle : w.system.receptions ≤ maps.length := by
    rw [hlength]
    exact Nat.le_add_right _ _
  have hearlier : (maps.take w.system.receptions).dropLast =
      maps.take (w.system.receptions - 1) := by
    rw [List.dropLast_eq_take, List.take_take, List.length_take_of_le hle,
      Nat.min_eq_left (Nat.sub_le _ _)]
  obtain ⟨hfrom, hto, hsettled⟩ := hseq.follows.between
  rw [show (scans w.system.read).take w.system.receptions = maps.take w.system.receptions from rfl]
    at hfrom hto hsettled
  rw [hearlier] at hfrom
  refine ⟨hfrom, hto, hsettled, hle, ?_⟩
  rw [hlength]
  exact Nat.add_le_add_left hseq.protocol.exclusive.pending_le _

instance (w : Watched) (a : Label) : Decidable (w.HeaderOnlyInAnswer a) :=
  inferInstanceAs (Decidable (Scan.HeaderOnlyInAnswer w.system a))

/-- On a scan of empty turns the car drives forward and the next scan is requested. -/
theorem performed_sequential_handOver :
    ∃ w, Reach Watched.next Watched.HeaderOnlyInAnswer (.init 0) w ∧
      w.performed = [.car .carForward, .scan] ∧ w.system.receptions = 1 ∧
      w.performed <+: (answered 0 ((scans (w.system.sent.take w.system.nread)).take 1)).2 := by
  have hrun : (Transition.exec Watched.next Watched.HeaderOnlyInAnswer (.init 0)
      (handOver ++ List.replicate 9 .master)).any
        (fun w => w.performed = [.car .carForward, .scan] ∧ w.system.receptions = 1) = true := by
    decide +kernel
  obtain ⟨w, hreach, htest⟩ := Transition.exists_reach_of_exec hrun
  obtain ⟨hperformed, hreceptions⟩ := of_decide_eq_true htest
  have hprefix := (performed_sequential hreach).2.1
  rw [hreceptions] at hprefix
  exact ⟨w, hreach, hperformed, hreceptions, hprefix⟩

end Scan
