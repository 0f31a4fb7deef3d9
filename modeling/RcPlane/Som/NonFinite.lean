import RcPlane.Autopilot.NonFinite
import RcPlane.Som.Environment

/-!
# A single angle that is not a number

The SoM takes the roll angle out of the packet that its second read returned, whatever bytes that
packet is made of: those of a sensor that failed, or those of two packets after a timeout. If the
angle of one assisted iteration is not a number, no later assisted iteration has an aileron
deflection of its own, until the program is started again.

## Main results

* `Som.aileron_latched_of_run`: after not-a-number, in any arithmetic
* `Som.aileron_of_run`: the two cases, for the patterns of a `float`
-/

namespace RcPlane

open Foundation Foundation.Extended

namespace Som

section Calls

variable {D : Type} {c : SomConfig D}

/-- The call of an iteration among the calls. -/
theorem calls_append_cons (before after : List Iteration) (i : Iteration) :
    ∃ rest, calls c (before ++ i :: after) = calls c before ++
      ⟨c.outOfRange before.length, i.rcRx.packet, i.imu.packet⟩ :: rest := by
  rw [calls, List.mapIdx_append, List.mapIdx_cons, Nat.zero_add]
  exact ⟨_, rfl⟩

theorem exists_of_mem_calls {iterations : List Iteration} {call : TriggerCall D}
    (h : call ∈ calls c iterations) :
    ∃ i ∈ iterations, call.rcRxPacket = i.rcRx.packet ∧ call.imuPacket = i.imu.packet := by
  obtain ⟨n, hn, rfl⟩ := List.mem_mapIdx.mp h
  exact ⟨iterations[n], List.getElem_mem hn, rfl, rfl⟩

end Calls

/-- **Not-a-number in flight.** In every run of the SoM, in any arithmetic in which not-a-number
absorbs: after an assisted iteration whose roll angle is not-a-number, the aileron deflection of
every assisted iteration is what the platform makes of not-a-number. -/
theorem aileron_latched_of_run {D : Type} [Double D] {c : SomConfig D} {s : Som D}
    {isNaN : D → Prop} (habsorbs : Double.Absorbs isNaN) {acts : List SomAction}
    (h : run (Som.step c) boot acts = some s) (before between after : List Iteration)
    {bad i : Iteration} (hs : s.iterations = before ++ bad :: (between ++ i :: after))
    (hbad : bad.rcRx.packet.assisted) (hangle : isNaN (c.promote bad.imu.packet.gyroX))
    (hi : i.rcRx.packet.assisted) :
    ∃ x, isNaN x ∧ i.reply.aileronDeflection =
      c.outOfRange (before.length + 1 + between.length) .roll x := by
  have htriggered := (triggered_invariant c).of_run ⟨rfl, rfl⟩ h
  have hsplit : s.iterations = (before ++ bad :: between) ++ i :: after := by
    rw [hs, List.append_assoc, List.cons_append]
  obtain ⟨rest, hcalls⟩ := calls_append_cons (c := c) before between bad
  have hlength : (before ++ bad :: between).length = before.length + 1 + between.length := by
    rw [List.length_append, List.length_cons]
    omega
  rw [reply_of_triggered htriggered hsplit, hcalls, hlength]
  exact AutopilotManager.aileron_of_isNaN c.promote c.autopilot habsorbs hbad hangle hi _ rest

/-- **One angle decides.** In every run of the SoM, with divisors and a limit that are valid: once
the roll angle of an assisted iteration was an infinity or not-a-number, the aileron deflection of
every later assisted iteration is what the platform makes of not-a-number; and before that it is
within the limit. -/
theorem aileron_of_run {k : AutopilotConfig ℚ} {c : SomConfig (Extended ℚ)}
    (hc : c.autopilot = k.num) (hpromote : c.promote = FloatPattern.toExtended)
    (hki : k.stabilize.ki ≠ 0) (htau : 2 * k.stabilize.tau + 0.04 ≠ 0)
    (hlimit : 0 ≤ k.utility.maxAileronDeflection.toInt) {s : Som (Extended ℚ)}
    {acts : List SomAction} (h : run (Som.step c) boot acts = some s)
    (before after : List Iteration) {i : Iteration} (hs : s.iterations = before ++ i :: after)
    (hi : i.rcRx.packet.assisted) :
    ((∃ j ∈ before, j.rcRx.packet.assisted ∧ ¬ FloatPattern.IsFinite j.imu.packet.gyroX) →
      i.reply.aileronDeflection = c.outOfRange before.length .roll nan) ∧
    ((∀ j ∈ before ++ [i], j.rcRx.packet.assisted →
        FloatPattern.IsFinite j.imu.packet.gyroX) →
      |i.reply.aileronDeflection.toInt| ≤ k.utility.maxAileronDeflection.toInt) := by
  have htriggered := (triggered_invariant c).of_run ⟨rfl, rfl⟩ h
  have hreply := reply_of_triggered htriggered hs
  rw [hc, hpromote] at hreply
  constructor
  · rintro ⟨bad, hmem, hbad, hangle⟩
    -- the calls split at the one with the angle that is no number
    obtain ⟨pre, post, rfl⟩ := List.append_of_mem hmem
    obtain ⟨rest, hcalls⟩ := calls_append_cons (c := c) pre post bad
    rw [hreply, hcalls]
    exact AutopilotManager.aileron_of_not_isNum FloatPattern.toExtended hbad
      (mt (FloatPattern.isNum_toExtended _).mp hangle) hi _ rest
  · intro hfinite
    have hbefore : ∀ call ∈ AutopilotManager.assistedCalls (calls c before),
        (FloatPattern.toExtended call.imuPacket.gyroX).IsNum := by
      intro call hcall
      obtain ⟨hcall, hassisted⟩ := List.mem_filter.mp hcall
      obtain ⟨j, hj, hrcRx, himu⟩ := exists_of_mem_calls hcall
      rw [FloatPattern.isNum_toExtended, himu]
      exact hfinite j (List.mem_append_left _ hj) (hrcRx ▸ of_decide_eq_true hassisted)
    rw [hreply]
    refine AutopilotManager.abs_aileron_le_of_isNum FloatPattern.toExtended hki htau hlimit hbefore
      hi ?_
    exact (FloatPattern.isNum_toExtended _).mpr
      (hfinite i (List.mem_append_right _ (List.mem_singleton_self i)) hi)

section Runs

/-- The shipped configuration, with the values of the patterns and conversions that yield one. -/
def exact : SomConfig (Extended ℚ) where
  autopilot := AutopilotConfig.shipped.num
  handshakeAttempts := 20
  handshakeTerminationStr := [102, 108, 117, 115, 104, 13, 10]
  promote := FloatPattern.toExtended
  temperature _ := 0
  outOfRange _ _ _ := 1

/-- An assisted iteration at a roll angle that is not-a-number, and one in level flight. -/
def notANumberOnce : List SomAction :=
  SomAction.acknowledged ++
    [.receive [0, 0, 0, 0, 0x80, 0, 0, 0, 0], .done,
      .receive ([0, 0, 0xc0, 0x7f] ++ List.replicate 24 0), .done, .send, .send, .send, .send,
      .done] ++
    SomAction.iteration 0x80

/-- In level flight the aileron deflection is that of the conversion. -/
theorem aileron_latched_notANumberOnce :
    ∃ s, run (Som.step exact) boot notANumberOnce = some s ∧
      ∃ bad i, s.iterations = [bad, i] ∧
        ∃ x, x = nan ∧ i.reply.aileronDeflection = exact.outOfRange 1 .roll x := by
  have hrun : run (Som.step exact) boot notANumberOnce = some _ := rfl
  exact ⟨_, hrun, _, _, rfl, aileron_latched_of_run absorbs_nan hrun [] [] [] rfl
    (by decide) rfl (by decide)⟩

theorem aileron_notANumberOnce :
    ∃ s, run (Som.step exact) boot notANumberOnce = some s ∧
      ∃ bad i, s.iterations = [bad, i] ∧
        i.reply.aileronDeflection = exact.outOfRange 1 .roll nan := by
  have hrun : run (Som.step exact) boot notANumberOnce = some _ := rfl
  exact ⟨_, hrun, _, _, rfl, (aileron_of_run rfl rfl (by decide +kernel)
    (by decide +kernel) (by decide) hrun [_] [] rfl (by decide)).1
    ⟨_, List.mem_singleton_self _, by decide, by decide⟩⟩

end Runs

end Som

end RcPlane
