import RcPlane.Foundation.Network
import RcPlane.Mcu.Firmware
import RcPlane.Som.Environment

/-!
# The serial link

The microcontroller and the SoM, with the two directions of the line between them. A run is any
interleaving of their steps and of deliveries; a timeout is an action like any other, so it may
come at any time at which the operation under way is not complete.

## Main definitions

* `Link`, `Action`, `Link.step`: the joint state and what can happen to it
* `Link.boot`, `Link.aligned`: the start of the two programs, and of their two loops
* `Link.Conserved`: no byte is lost, duplicated or reordered

## Main results

* `Link.mcu_of_run`, `Link.som_of_run`: an invariant of one party holds along every run
* `Link.exists_som_run`: the SoM's part in a run is a run of its own
* `Link.conserved_of_run`: so does the conservation of bytes
-/

namespace RcPlane

open Foundation

/-- The two parties, and the bytes on their way between them. -/
structure Link (D : Type) where
  mcu : Mcu
  som : Som D
  toSom : Line UInt8
  toMcu : Line UInt8

/-- What can happen: a step of one party, or the delivery of a byte. The SoM takes a piece of `n`
bytes; a timeout names the operation that it ends. -/
inductive Action
  | mcuSend
  | mcuReceive
  | mcuDone
  | mcuTimeout (r : McuRead)
  | somSend
  | somReceive (n : ℕ)
  | somDone
  | somTimeout (o : SomTimeout)
  | deliverToSom
  | deliverToMcu
deriving DecidableEq, Repr

namespace Link

/-! ## Schedules -/

section Schedules

open RcPlane.Action

/-- The microcontroller writes the two packets of an iteration. -/
def loopWrites : List Action :=
  List.replicate 9 mcuSend ++ [mcuDone] ++ List.replicate 28 mcuSend ++ [mcuDone]

/-- The two packets reach the SoM, which reads them and writes its answer. -/
def somAnswers : List Action :=
  List.replicate 37 deliverToSom ++ [somReceive 9, somDone, somReceive 28, somDone] ++
    List.replicate 4 somSend ++ [somDone]

/-- An answer reaches the microcontroller, which reads it. -/
def loopReads : List Action :=
  List.replicate 4 deliverToMcu ++ List.replicate 4 mcuReceive ++ [mcuDone]

/-- The line of `setup` is written and delivered. -/
def bootLine : List Action :=
  List.replicate 7 mcuSend ++ [mcuDone] ++ List.replicate 7 deliverToSom

/-- The SoM flushes up to the line, and writes the handshake byte. -/
def somGreets : List Action := [somReceive 7, somDone, somSend, somDone]

end Schedules

/-! ## Steps -/

variable {D : Type} [Double D]

/-- Both programs at their start, and nothing on the line. -/
def boot : Link D := ⟨.boot, .boot, .empty, .empty⟩

/-- Both programs at the start of their loops, and nothing on the line. -/
def aligned (samples : Samples) (debugMessage : DebugMessage) : Link D :=
  ⟨.aligned samples, .aligned debugMessage, .empty, .empty⟩

variable (samples : Samples) (c : SomConfig D)

/-- The effect of an action, if it can be taken. -/
def step (s : Link D) : Action → Option (Link D)
  | .mcuSend => s.mcu.send.map fun r => { s with mcu := r.2, toSom := s.toSom.send r.1 }
  | .mcuReceive =>
    (s.toMcu.receive 1).bind fun r =>
      (s.mcu.receive r.1).map fun mcu => { s with mcu := mcu, toMcu := r.2 }
  | .mcuDone => (s.mcu.done samples).map fun mcu => { s with mcu := mcu }
  | .mcuTimeout r => (s.mcu.timeout samples r).map fun mcu => { s with mcu := mcu }
  | .somSend => s.som.send.map fun r => { s with som := r.2, toMcu := s.toMcu.send r.1 }
  | .somReceive n =>
    (s.toSom.receive n).bind fun r =>
      (s.som.receive c r.1).map fun som => { s with som := som, toSom := r.2 }
  | .somDone => (s.som.done c).map fun som => { s with som := som }
  | .somTimeout o => (s.som.timeout c o).map fun som => { s with som := som }
  | .deliverToSom => s.toSom.deliver.map fun toSom => { s with toSom := toSom }
  | .deliverToMcu => s.toMcu.deliver.map fun toMcu => { s with toMcu := toMcu }

/-- The actions whose timeouts are among the given ones. -/
def Admits (A : McuRead → Prop) (B : SomTimeout → Prop) : Action → Prop
  | .mcuTimeout r => A r
  | .somTimeout o => B o
  | _ => True

variable {samples c} {s t : Link D} {acts : List Action}

/-! ## Invariants of one party -/

/-- An action leaves the microcontroller alone, or is one of its steps. -/
theorem mcu_cases {a : Action} (h : step samples c s a = some t) :
    t.mcu = s.mcu ∨ (∃ b, s.mcu.send = some (b, t.mcu)) ∨
      (∃ bytes, s.mcu.receive bytes = some t.mcu) ∨ s.mcu.done samples = some t.mcu ∨
      ∃ r, a = .mcuTimeout r ∧ s.mcu.timeout samples r = some t.mcu := by
  cases a with
  | mcuSend =>
    obtain ⟨⟨b, m⟩, hm, rfl⟩ := Option.map_eq_some_iff.mp h
    exact Or.inr (Or.inl ⟨b, hm⟩)
  | mcuReceive =>
    obtain ⟨⟨bytes, l⟩, -, h⟩ := Option.bind_eq_some_iff.mp h
    obtain ⟨m, hm, rfl⟩ := Option.map_eq_some_iff.mp h
    exact Or.inr (Or.inr (Or.inl ⟨bytes, hm⟩))
  | mcuDone =>
    obtain ⟨m, hm, rfl⟩ := Option.map_eq_some_iff.mp h
    exact Or.inr (Or.inr (Or.inr (Or.inl hm)))
  | mcuTimeout r =>
    obtain ⟨m, hm, rfl⟩ := Option.map_eq_some_iff.mp h
    exact Or.inr (Or.inr (Or.inr (Or.inr ⟨r, rfl, hm⟩)))
  -- the SoM and the channels move, and the microcontroller stays
  | somReceive n =>
    obtain ⟨r, -, h⟩ := Option.bind_eq_some_iff.mp h
    obtain ⟨m, -, rfl⟩ := Option.map_eq_some_iff.mp h
    exact Or.inl rfl
  | _ =>
    obtain ⟨r, -, rfl⟩ := Option.map_eq_some_iff.mp h
    exact Or.inl rfl

/-- An action leaves the SoM alone, or is one of its steps. -/
theorem som_cases {a : Action} (h : step samples c s a = some t) :
    t.som = s.som ∨ (∃ b, s.som.send = some (b, t.som)) ∨
      (∃ piece, s.som.receive c piece = some t.som) ∨ s.som.done c = some t.som ∨
      ∃ o, a = .somTimeout o ∧ s.som.timeout c o = some t.som := by
  cases a with
  | somSend =>
    obtain ⟨⟨b, m⟩, hm, rfl⟩ := Option.map_eq_some_iff.mp h
    exact Or.inr (Or.inl ⟨b, hm⟩)
  | somReceive n =>
    obtain ⟨⟨piece, l⟩, -, h⟩ := Option.bind_eq_some_iff.mp h
    obtain ⟨m, hm, rfl⟩ := Option.map_eq_some_iff.mp h
    exact Or.inr (Or.inr (Or.inl ⟨piece, hm⟩))
  | somDone =>
    obtain ⟨m, hm, rfl⟩ := Option.map_eq_some_iff.mp h
    exact Or.inr (Or.inr (Or.inr (Or.inl hm)))
  | somTimeout o =>
    obtain ⟨m, hm, rfl⟩ := Option.map_eq_some_iff.mp h
    exact Or.inr (Or.inr (Or.inr (Or.inr ⟨o, rfl, hm⟩)))
  -- the microcontroller and the channels move, and the SoM stays
  | mcuReceive =>
    obtain ⟨r, -, h⟩ := Option.bind_eq_some_iff.mp h
    obtain ⟨m, -, rfl⟩ := Option.map_eq_some_iff.mp h
    exact Or.inl rfl
  | _ =>
    obtain ⟨r, -, rfl⟩ := Option.map_eq_some_iff.mp h
    exact Or.inl rfl

theorem mcu_of_step {A : McuRead → Prop} {B : SomTimeout → Prop} {P : Mcu → Prop}
    (hP : Mcu.Invariant samples A P) {a : Action} (ha : Admits A B a) (hs : P s.mcu)
    (h : step samples c s a = some t) : P t.mcu := by
  rcases mcu_cases h with heq | ⟨b, hsend⟩ | ⟨bytes, hreceive⟩ | hdone | ⟨r, rfl, htimeout⟩
  · rw [heq]
    exact hs
  · exact hP.send hs hsend
  · exact hP.receive hs hreceive
  · exact hP.done hs hdone
  · exact hP.timeout ha hs htimeout

theorem som_of_step {A : McuRead → Prop} {B : SomTimeout → Prop} {P : Som D → Prop}
    (hP : Som.Invariant c B P) {a : Action} (ha : Admits A B a) (hs : P s.som)
    (h : step samples c s a = some t) : P t.som := by
  rcases som_cases h with heq | ⟨b, hsend⟩ | ⟨piece, hreceive⟩ | hdone | ⟨o, rfl, htimeout⟩
  · rw [heq]
    exact hs
  · exact hP.send hs hsend
  · exact hP.receive hs hreceive
  · exact hP.done hs hdone
  · exact hP.timeout ha hs htimeout

/-- What every step of the microcontroller keeps holds along every run. -/
theorem mcu_of_run {A : McuRead → Prop} {P : Mcu → Prop} (hP : Mcu.Invariant samples A P)
    (ha : ∀ r, Action.mcuTimeout r ∈ acts → A r) (hs : P s.mcu)
    (h : run (step samples c) s acts = some t) : P t.mcu := by
  refine run_induction (P := fun s : Link D => P s.mcu) (A := Admits A fun _ => True) hs
    (fun _ _ _ ha hs h => mcu_of_step hP ha hs h) (fun a hmem => ?_) h
  cases a with
  | mcuTimeout r => exact ha r hmem
  | _ => trivial

/-- What every step of the SoM keeps holds along every run. -/
theorem som_of_run {B : SomTimeout → Prop} {P : Som D → Prop} (hP : Som.Invariant c B P)
    (hb : ∀ o, Action.somTimeout o ∈ acts → B o) (hs : P s.som)
    (h : run (step samples c) s acts = some t) : P t.som := by
  refine run_induction (P := fun s : Link D => P s.som) (A := Admits (fun _ => True) B) hs
    (fun _ _ _ ha hs h => som_of_step hP ha hs h) (fun a hmem => ?_) h
  cases a with
  | somTimeout o => exact hb o hmem
  | _ => trivial

/-- The SoM's part in a run is a run of its own, so what holds of the SoM in any environment holds
of it on the link. -/
theorem exists_som_run (h : run (step samples c) s acts = some t) :
    ∃ somActs, run (Som.step c) s.som somActs = some t.som := by
  induction acts generalizing s with
  | nil =>
    obtain rfl := Option.some.inj h
    exact ⟨[], rfl⟩
  | cons a acts ih =>
    obtain ⟨u, hu, h⟩ := Option.bind_eq_some_iff.mp h
    obtain ⟨somActs, hrun⟩ := ih h
    rcases som_cases hu with heq | ⟨b, hsend⟩ | ⟨piece, hreceive⟩ | hdone | ⟨o, -, htimeout⟩
    -- the SoM is left alone, or takes the step
    · exact ⟨somActs, heq ▸ hrun⟩
    · exact ⟨.send :: somActs, by simp [Som.step, hsend, hrun]⟩
    · exact ⟨.receive piece :: somActs, by simp [Som.step, hreceive, hrun]⟩
    · exact ⟨.done :: somActs, by simp [Som.step, hdone, hrun]⟩
    · exact ⟨.timeout o :: somActs, by simp [Som.step, htimeout, hrun]⟩

/-! ## Conservation -/

/-- On either direction, what was sent is what was taken off the line and what is still on it. -/
structure Conserved (s : Link D) : Prop where
  toSom : s.mcu.sent = s.som.consumed ++ (s.som.serial.streamBuffer ++ s.toSom.pending)
  toMcu : s.som.sent = s.mcu.received ++ s.toMcu.pending

theorem conserved_boot : (boot : Link D).Conserved := ⟨rfl, rfl⟩

theorem conserved_aligned (samples : Samples) (debugMessage : DebugMessage) :
    (aligned samples debugMessage : Link D).Conserved := ⟨rfl, rfl⟩

/-- Every action conserves the bytes. -/
theorem conserved_step {a : Action} (hs : s.Conserved) (h : step samples c s a = some t) :
    t.Conserved := by
  obtain ⟨htoSom, htoMcu⟩ := hs
  cases a with
  | mcuSend =>
    obtain ⟨⟨b, m⟩, hm, rfl⟩ := Option.map_eq_some_iff.mp h
    obtain ⟨w, left, -, rfl⟩ := Mcu.send_eq_some.mp hm
    -- the byte goes to the end of the line
    refine ⟨?_, htoMcu⟩
    show s.mcu.sent ++ [b] = _
    rw [htoSom, Line.pending_send]
    simp only [List.append_assoc]
  | mcuReceive =>
    obtain ⟨⟨bytes, l⟩, hl, h⟩ := Option.bind_eq_some_iff.mp h
    obtain ⟨m, hm, rfl⟩ := Option.map_eq_some_iff.mp h
    obtain ⟨r, got, -, -, rfl⟩ := Mcu.receive_eq_some.mp hm
    -- the bytes are taken from the front of the line
    refine ⟨htoSom, ?_⟩
    show s.som.sent = (s.mcu.received ++ bytes) ++ l.pending
    rw [htoMcu, (Line.pending_receive hl).1, List.append_assoc]
  | mcuDone =>
    obtain ⟨m, hm, rfl⟩ := Option.map_eq_some_iff.mp h
    obtain ⟨hsent, hreceived⟩ := Mcu.traffic_done hm
    exact ⟨hsent ▸ htoSom, hreceived ▸ htoMcu⟩
  | mcuTimeout r =>
    obtain ⟨m, hm, rfl⟩ := Option.map_eq_some_iff.mp h
    obtain ⟨hsent, hreceived⟩ := Mcu.traffic_timeout hm
    exact ⟨hsent ▸ htoSom, hreceived ▸ htoMcu⟩
  | somSend =>
    obtain ⟨⟨b, m⟩, hm, rfl⟩ := Option.map_eq_some_iff.mp h
    obtain ⟨w, left, -, rfl⟩ := Som.send_eq_some.mp hm
    refine ⟨htoSom, ?_⟩
    show s.som.sent ++ [b] = _
    rw [htoMcu, Line.pending_send, List.append_assoc]
  | somReceive n =>
    obtain ⟨⟨piece, l⟩, hl, h⟩ := Option.bind_eq_some_iff.mp h
    obtain ⟨m, hm, rfl⟩ := Option.map_eq_some_iff.mp h
    have hpending := (Line.pending_receive hl).1
    rcases Som.receive_eq_some hm with ⟨-, -, rfl⟩ | ⟨r, need, -, -, rfl⟩
    -- for a flush and for a read alike, the piece moves into the buffer
    all_goals
      refine ⟨?_, htoMcu⟩
      show s.mcu.sent = s.som.consumed ++ ((s.som.serial.streamBuffer ++ piece) ++ l.pending)
      rw [htoSom, hpending, List.append_assoc]
  | somDone =>
    obtain ⟨m, hm, rfl⟩ := Option.map_eq_some_iff.mp h
    obtain ⟨hconsumed, hsent⟩ := Som.traffic_done hm
    -- bytes move from the buffer to those consumed
    refine ⟨?_, hsent ▸ htoMcu⟩
    show s.mcu.sent = m.consumed ++ (m.serial.streamBuffer ++ s.toSom.pending)
    rw [htoSom, ← List.append_assoc, ← List.append_assoc, hconsumed]
  | somTimeout o =>
    obtain ⟨m, hm, rfl⟩ := Option.map_eq_some_iff.mp h
    obtain ⟨hconsumed, hsent⟩ := Som.traffic_timeout hm
    refine ⟨?_, hsent ▸ htoMcu⟩
    show s.mcu.sent = m.consumed ++ (m.serial.streamBuffer ++ s.toSom.pending)
    rw [htoSom, ← List.append_assoc, ← List.append_assoc, hconsumed]
  | deliverToSom =>
    obtain ⟨l, hl, rfl⟩ := Option.map_eq_some_iff.mp h
    exact ⟨(Line.pending_deliver hl) ▸ htoSom, htoMcu⟩
  | deliverToMcu =>
    obtain ⟨l, hl, rfl⟩ := Option.map_eq_some_iff.mp h
    exact ⟨htoSom, (Line.pending_deliver hl) ▸ htoMcu⟩

/-- **Conservation.** No run loses, duplicates or reorders a byte. -/
theorem conserved_of_run (hs : s.Conserved) (h : run (step samples c) s acts = some t) :
    t.Conserved :=
  run_induction (A := fun _ => True) hs (fun _ _ _ _ hs h => conserved_step hs h)
    (fun _ _ => trivial) h

/-! ## Runs from an aligned start -/

/-- What the two loops keep, whatever times out. -/
structure Looping (samples : Samples) (c : SomConfig D) (t : Link D) : Prop where
  traced : t.mcu.Traced samples
  fromLoop : t.mcu.FromLoop
  looping : t.som.Looping
  triggered : t.som.Triggered c
  conserved : t.Conserved

theorem looping_of_run {debugMessage : DebugMessage}
    (h : run (step samples c) (aligned samples debugMessage) acts = some t) :
    Looping samples c t where
  traced := mcu_of_run (Mcu.traced_invariant samples) (fun _ _ => trivial)
    (Mcu.traced_aligned samples) h
  fromLoop := mcu_of_run (Mcu.fromLoop_invariant samples) (fun _ _ => trivial)
    (Mcu.fromLoop_aligned samples) h
  looping := som_of_run (Som.looping_invariant c) (fun _ _ => trivial)
    (Som.looping_aligned debugMessage) h
  triggered := som_of_run (Som.triggered_invariant c) (fun _ _ => trivial)
    (Som.triggered_aligned c debugMessage) h
  conserved := conserved_of_run (conserved_aligned samples debugMessage) h

/-- What the SoM has consumed is a prefix of what the loop writes. -/
theorem Looping.consumed (h : t.Looping samples c) :
    SerialController.returnedBytes t.som.reads <+:
      loopBytes samples (t.mcu.rounds.length + 1) := by
  rw [← h.looping.consumed]
  refine List.IsPrefix.trans ?_ (Mcu.sent_of_fromLoop h.traced h.fromLoop)
  exact ⟨_, h.conserved.toSom.symm⟩

/-- The microcontroller has received what its rounds got, and what its read has got so far. -/
theorem Looping.received (h : t.Looping samples c) :
    t.mcu.received = t.mcu.rounds.flatMap Round.got ++ t.mcu.got := by
  rw [h.traced.received, h.fromLoop.handshakeGot, List.nil_append]

end Link

end RcPlane
