import Patchbay.Proofs.Connection.Writing
import Patchbay.Proofs.Rig.Ticking

/-! # Ticks with the connections in another order

The connections of a tick read all their values before the first of them writes, and the polls and
steps around them do not know their order. -/

namespace Patchbay

namespace Rig

open Connection (Reordered)

/-- The connections write the values that they have with the inputs of the rig. -/
theorem runConnections_eq (r : Rig) : r.runConnections =
    { r with
      outputs := (r.connections.map (Connection.write r.inputs)).foldl Write.run r.outputs } := by
  rw [List.foldl_map]
  rfl

theorem runConnections_reordered {r : Rig} {connections : List Connection}
    (h : Reordered r.connections connections) :
    { r with connections }.runConnections = { r.runConnections with connections } := by
  simp only [runConnections, h.foldl_run]

/-- In a tick the connections write the values that they have once all inputs are polled, and any
order that keeps those that write a common parameter in order comes to the same: to the same
parameters in whatever state the inputs are, and to the same tick, with the same drives of all
lines. -/
theorem tick_reordered (r : Rig) (b : Bench) {connections : List Connection}
    (h : Reordered r.connections connections) :
    (∀ polled b₁, r.pollInputs b = (.ok (), polled, b₁) →
      r.tick b = (.ok (), { polled with outputs := (r.connections.map
        (Connection.write polled.inputs)).foldl Write.run r.outputs }.stepOutputs b₁)) ∧
    { r with connections }.runConnections.outputs = r.runConnections.outputs ∧
    { r with connections }.tick b =
      ((r.tick b).1, { (r.tick b).2.1 with connections }, (r.tick b).2.2) := by
  refine ⟨fun polled b₁ hpoll => ?_, h.foldl_run r.inputs r.outputs, ?_⟩
  · obtain ⟨inputs, _, rfl⟩ := pollInputs_eq_iff.mp hpoll
    rw [tick, hpoll]
    simp only [runConnections_eq]
  · -- The polls do not look at the connections.
    have hsame : { r with connections }.pollInputs b = ((r.pollInputs b).1,
        { (r.pollInputs b).2.1 with connections }, (r.pollInputs b).2.2) := rfl
    rw [tick, tick, hsame]
    rcases hpoll : r.pollInputs b with ⟨result, polled, b₁⟩
    cases result with
    | error cause => rfl
    | ok _ =>
        obtain ⟨inputs, _, rfl⟩ := pollInputs_eq_iff.mp hpoll
        have hrun := runConnections_reordered (r := { r with inputs }) h
        simp only [hrun]
        rfl

/-- Two connections write the red channel and keep their order; those after them come first. -/
theorem tick_reordered_led_and_dance :
    let led : Light := { name := .dualColorLed, pins := [⟨{ number := 3 }, .level, 0.0⟩,
      ⟨{ number := 4 }, .level, 0.0⟩] }
    let motor : Motor := { name := .ms18, pins := [⟨{ number := 5 }, .servo, 0.0⟩] }
    let wire (output : String) (target : Target) (function : Option Function) : Connection :=
      ⟨"", [("knob", .value)], function, output, target⟩
    let all := wire "led" .color none
    let red := wire "led" (.channel .r) (some ⟨1, "", .number 0.25⟩)
    let bright := wire "led" .brightness none
    let dance := wire "motor" .restart none
    let rig : Rig :=
      { inputs := .ofList [("knob", .button ⟨⟨{ number := 6, invert := true }⟩, true, true, true⟩)]
        outputs := .ofList [("led", .solid (.make led .black 0.0)),
          ("motor", .dancing (.make motor 1.0 0))]
        connections := [all, red, bright, dance] }
    let bench : Bench := Bench.setInput {} 6 false
    let connections := [dance, bright, all, red]
    Reordered rig.connections connections ∧
      let after := ({ rig with connections }.tick bench).2.2
      (after.line 3).last = some (.level false) ∧ (after.line 4).last = some (.level true) := by
  intro led motor wire all red bright dance rig bench connections
  have hreordered : Reordered rig.connections connections :=
    ⟨[(dance, 3), (bright, 2), (all, 0), (red, 1)], by decide, rfl, by decide⟩
  refine ⟨hreordered, ?_⟩
  rw [(tick_reordered rig bench hreordered).2.2]
  exact ⟨by decide +kernel, by decide +kernel⟩

end Rig

end Patchbay
