import Mathlib.Data.List.Nodup
import Patchbay.Proofs.Gamepad.LastEvent
import Patchbay.Proofs.Rig.Parts
import Patchbay.Proofs.Rig.Ticking

/-! # Who hears a gamepad

The first controller of an id reads all that waits under it whenever the rig is ticked, so it comes
to know everything that was sent.  Further controllers of the same id find nothing and stay as they
were made. -/

namespace Patchbay

open Gamepad (Controller Snapshot Event)
open Gamepad.Event (Whole)

/-! ## What was heard -/

/-- The controllers have heard what was `sent` under their ids, but for what is `waiting` there: for
an id not `seen` before, the first one has decoded it, and the others are as they were made. -/
def Heard (sent waiting : String → List UInt8) (seen : List String) : List Controller → Prop
  | [] => True
  | c :: rest =>
    ((c.id ∈ seen → c.snapshot = {}) ∧
      (c.id ∉ seen → ∃ read n, sent c.id = read ++ waiting c.id ∧
        Snapshot.decode {} read = .ok n c.snapshot)) ∧
    Heard sent waiting (c.id :: seen) rest

namespace Heard

variable {sent sent' waiting waiting' : String → List UInt8} {seen : List String}
  {cs cs' : List Controller}

theorem of_fresh (h : ∀ c ∈ cs, c.snapshot = {}) (hs : ∀ id, sent id = waiting id) :
    Heard sent waiting seen cs := by
  induction cs generalizing seen with
  | nil => trivial
  | cons c rest ih =>
      have hc := h c (List.mem_cons_self ..)
      refine ⟨⟨fun _ => hc, fun _ => ⟨[], 0, hs c.id, ?_⟩⟩, ?_⟩
      · rw [hc]
        rfl
      · exact ih fun d hd => h d (List.mem_cons_of_mem _ hd)

/-- More that is sent waits at first. -/
theorem send {more : String → List UInt8} (h : Heard sent waiting seen cs)
    (hs : ∀ id, sent' id = sent id ++ more id) (hw : ∀ id, waiting' id = waiting id ++ more id) :
    Heard sent' waiting' seen cs := by
  induction cs generalizing seen with
  | nil => trivial
  | cons c rest ih =>
      obtain ⟨⟨hold, hnew⟩, hrest⟩ := h
      refine ⟨⟨hold, fun hseen => ?_⟩, ih hrest⟩
      obtain ⟨read, n, hsent, hread⟩ := hnew hseen
      exact ⟨read, n, by rw [hs, hw, hsent, List.append_assoc], hread⟩

/-- What waits under ids that were seen makes no difference. -/
theorem congr (h : Heard sent waiting seen cs) (hw : ∀ id ∉ seen, waiting' id = waiting id) :
    Heard sent waiting' seen cs := by
  induction cs generalizing seen with
  | nil => trivial
  | cons c rest ih =>
      obtain ⟨⟨hold, hnew⟩, hrest⟩ := h
      refine ⟨⟨hold, fun hseen => ?_⟩, ih hrest fun id hid => hw id ?_⟩
      · rw [hw c.id hseen]
        exact hnew hseen
      · exact fun hseen => hid (List.mem_cons_of_mem _ hseen)

/-- A round of polls lets the first controller of each id hear what waited. -/
theorem polls (h : Heard sent waiting seen cs) (hp : Polls cs waiting cs' waiting')
    (hseen : ∀ id ∈ seen, waiting id = []) : Heard sent waiting' seen cs' := by
  induction hp generalizing seen with
  | nil => trivial
  | @cons c rest rest' waiting waiting' n s hdecode hpolls ih =>
      obtain ⟨⟨hold, hnew⟩, hrest⟩ := h
      have hleft : ∀ id ∈ c.id :: seen, readOut waiting c.id id = [] := by
        intro id hid
        unfold readOut
        split
        next => rfl
        next hne => exact hseen id ((List.mem_cons.mp hid).resolve_left (Ne.symm hne))
      have hothers : ∀ id ∉ c.id :: seen, readOut waiting c.id id = waiting id :=
        fun id hid => if_neg fun heq : c.id = id => hid (heq ▸ List.mem_cons_self ..)
      refine ⟨⟨fun hmem => ?_, fun hmem => ?_⟩, ih (hrest.congr hothers) hleft⟩
      · -- A controller before it has read everything.
        rw [hseen c.id hmem, hold hmem] at hdecode
        cases hdecode
        rfl
      · obtain ⟨read, m, hsent, hread⟩ := hnew hmem
        have hempty : waiting' c.id = [] := by
          rw [hpolls.waiting_after, hleft c.id (List.mem_cons_self ..), ite_self]
        refine ⟨sent c.id, m + n, by rw [hempty, List.append_nil], ?_⟩
        rw [hsent]
        exact Snapshot.decode_append_ok hread hdecode

/-- Where a controller stands decides what it has heard. -/
theorem at_split {before after : List Controller} {c : Controller}
    (h : Heard sent waiting seen (before ++ c :: after)) :
    (c.id ∈ seen ∨ c.id ∈ before.map (·.id) → c.snapshot = {}) ∧
      (¬ (c.id ∈ seen ∨ c.id ∈ before.map (·.id)) → ∃ read n, sent c.id = read ++ waiting c.id ∧
        Snapshot.decode {} read = .ok n c.snapshot) := by
  induction before generalizing seen with
  | nil => simpa using h.1
  | cons d before ih => simpa [or_assoc, or_left_comm] using ih h.2

end Heard

/-! ## Moves -/

namespace Rig

/-- Something comes in, time goes by, or the rig is ticked. -/
inductive Move
  | arrive (a : Bench.Arrival)
  | wait (span : Nat)
  | tick

/-- Bytes that come in are records, all of them valid. -/
def Move.Valid : Move → Prop
  | arrive (.bytes _ bytes) => Whole bytes ∧ ∀ e ∈ Event.ofBytes bytes, e.Valid
  | _ => True

/-- The bytes that come in under an id. -/
def fed (id : String) : List Move → List UInt8
  | [] => []
  | .arrive a :: rest => a.fed id ++ fed id rest
  | _ :: rest => fed id rest

/-- Makes the moves in order, up to the first tick that fails. -/
def play (r : Rig) (b : Bench) : List Move → Except RigError Unit × Rig × Bench
  | [] => (.ok (), r, b)
  | .arrive a :: rest => r.play (b.receive a) rest
  | .wait span :: rest => r.play (b.advance span) rest
  | .tick :: rest =>
    match r.tick b with
    | (.error cause, r, b) => (.error cause, r, b)
    | (.ok (), r, b) => r.play b rest

/-- What waits can be decoded, whatever was decoded before. -/
def Readable (waiting : String → List UInt8) : Prop :=
  ∀ id (s : Snapshot), ∃ n s', s.decode (waiting id) = .ok n s'

variable {r r' : Rig} {b b' : Bench} {moves : List Move}

theorem play_tick_eq_ok_iff : r.play b (.tick :: moves) = (.ok (), r', b') ↔
    ∃ r₁ b₁, r.tick b = (.ok (), r₁, b₁) ∧ r₁.play b₁ moves = (.ok (), r', b') := by
  rw [play]
  constructor
  · intro h
    split at h
    next => cases h
    next r₁ b₁ htick => exact ⟨r₁, b₁, htick, h⟩
  · rintro ⟨r₁, b₁, htick, h⟩
    simp only [htick, h]

theorem play_append_tick_eq_ok_iff : r.play b (moves ++ [.tick]) = (.ok (), r', b') ↔
    ∃ r₁ b₁, r.play b moves = (.ok (), r₁, b₁) ∧ r₁.tick b₁ = (.ok (), r', b') := by
  induction moves generalizing r b with
  | nil =>
      rw [List.nil_append, play_tick_eq_ok_iff]
      constructor
      · rintro ⟨r₁, b₁, htick, h⟩
        cases h
        exact ⟨r, b, rfl, htick⟩
      · rintro ⟨r₁, b₁, h, htick⟩
        cases h
        exact ⟨r', b', htick, rfl⟩
  | cons move rest ih =>
      cases move with
      | arrive a => exact ih
      | wait span => exact ih
      | tick =>
          simp only [List.cons_append, play_tick_eq_ok_iff, ih]
          constructor
          · rintro ⟨r₁, b₁, htick, r₂, b₂, hrest, hlast⟩
            exact ⟨r₂, b₂, ⟨r₁, b₁, htick, hrest⟩, hlast⟩
          · rintro ⟨r₂, b₂, ⟨r₁, b₁, htick, hrest⟩, hlast⟩
            exact ⟨r₁, b₁, htick, r₂, b₂, hrest, hlast⟩

theorem ids_play (h : r.play b moves = (.ok (), r', b')) :
    r'.controllers.map (·.id) = r.controllers.map (·.id) := by
  induction moves generalizing r b with
  | nil =>
      cases h
      rfl
  | cons move rest ih =>
      cases move with
      | arrive a => exact ih h
      | wait span => exact ih h
      | tick =>
          obtain ⟨r₁, b₁, htick, hrest⟩ := play_tick_eq_ok_iff.mp h
          exact (ih hrest).trans (polls_of_tick htick).1.ids

theorem heard_play {sent : String → List UInt8} (h : r.play b moves = (.ok (), r', b'))
    (hh : Heard sent b.queue [] r.controllers) :
    Heard (fun id => sent id ++ fed id moves) b'.queue [] r'.controllers := by
  induction moves generalizing r b sent with
  | nil =>
      cases h
      simpa [fed] using hh
  | cons move rest ih =>
      cases move with
      | arrive a =>
          have hmore := hh.send (fun _ => rfl) fun id => b.queue_receive id a
          simpa [fed] using ih h hmore
      | wait span => exact ih h hh
      | tick =>
          obtain ⟨r₁, b₁, htick, hrest⟩ := play_tick_eq_ok_iff.mp h
          exact ih hrest (hh.polls (polls_of_tick htick).1 fun id hid => nomatch hid)

theorem Move.Valid.readable {a : Bench.Arrival} (h : (arrive a).Valid) :
    Readable fun id => a.fed id := by
  intro id s
  cases a with
  | level pin high => exact ⟨0, s, rfl⟩
  | bytes other bytes =>
      obtain ⟨hwhole, hevents⟩ := h
      change ∃ n s', s.decode (if other = id then bytes else []) = .ok n s'
      split
      · obtain ⟨s', hbytes, _⟩ := s.applyAll_told hevents
        exact ⟨_, s', (s.decode_of_whole hwhole).trans hbytes⟩
      · exact ⟨0, s, rfl⟩

/-- While all that comes in is valid, no tick fails. -/
theorem exists_play (hvalid : ∀ m ∈ moves, m.Valid) (hq : Readable b.queue) :
    ∃ r' b', r.play b moves = (.ok (), r', b') := by
  induction moves generalizing r b with
  | nil => exact ⟨r, b, rfl⟩
  | cons move rest ih =>
      have hfirst := hvalid move (List.mem_cons_self ..)
      have hrest : ∀ m ∈ rest, m.Valid := fun m hm => hvalid m (List.mem_cons_of_mem _ hm)
      cases move with
      | arrive a =>
          refine ih hrest fun id s => ?_
          obtain ⟨n, s₁, hwaiting⟩ := hq id s
          obtain ⟨m, s₂, hmore⟩ := hfirst.readable id s₁
          rw [Bench.queue_receive]
          exact ⟨n + m, s₂, Snapshot.decode_append_ok hwaiting hmore⟩
      | wait span => exact ih hrest hq
      | tick =>
          obtain ⟨r₁, b₁, htick⟩ := r.exists_tick fun c _ => hq c.id
          have hleft : Readable b₁.queue := by
            intro id s
            rw [(polls_of_tick htick).1.waiting_after]
            split
            next => exact ⟨0, s, rfl⟩
            next => exact hq id s
          obtain ⟨r', b', hplay⟩ := ih hrest hleft
          exact ⟨r', b', play_tick_eq_ok_iff.mpr ⟨r₁, b₁, htick, hplay⟩⟩

end Rig

/-! ## Built rigs -/

/-- The id that an input is configured to have, if it is a controller. -/
def Config.InputConfig.controllerId? : InputConfig → Option String
  | controller id => some id
  | button .. => none

/-- The ids that a configuration mentions, each as often as it does. -/
def RigConfig.controllerIds (c : RigConfig) : List String :=
  c.inputs.entries.filterMap fun entry => entry.2.controllerId?

theorem Input.controller?_of_ofConfig {c : Config.InputConfig} {i : Input} {b b' : Bench}
    (h : ofConfig c b = .ok i b') : i.controller? = c.controllerId?.map fun id => { id } := by
  cases c with
  | controller id =>
      cases h
      rfl
  | button pin toggle =>
      obtain ⟨o, b₁, _, hi⟩ := Outcome.run_bind_eq_ok_iff.mp h
      cases hi
      rfl

namespace Rig

section Build

variable {r r' : Rig} {b b' : Bench}

theorem controllers_buildInput {name : String} {c : Config.InputConfig}
    (h : r.buildInput name c b = .ok r' b') :
    r'.controllers.Perm
      ((c.controllerId?.map fun id => ({ id } : Controller)).toList ++ r.controllers) := by
  obtain ⟨input, b₁, hinput, hfind, rfl⟩ := buildInput_eq_ok h
  rw [← Input.controller?_of_ofConfig hinput]
  refine ((Registry.place_perm input hfind).filterMap _).trans ?_
  rw [List.filterMap_cons]
  cases input.controller? <;> exact .refl _

/-- A built rig has a fresh controller for each id that is configured. -/
theorem controllers_ofConfig {config : RigConfig} (h : ofConfig config b = .ok r b') :
    r.controllers.Perm (config.controllerIds.map fun id => ({ id } : Controller)) := by
  obtain ⟨r₁, r₂, b₁, b₂, hinputs, -, hsame, -, -⟩ := exists_of_ofConfig_eq_ok h
  let given (part : String × Config.InputConfig) : List Controller :=
    (part.2.controllerId?.map fun id => ({ id } : Controller)).toList
  have hperm := extend_perm controllers given (fun h => controllers_buildInput h) hinputs
  rw [controllers, hsame]
  simpa [controllers, controllersOf, Registry.empty, RigConfig.controllerIds,
    List.filterMap_eq_flatMap_toList, List.map_flatMap, given, Option.toList_map] using hperm

end Build

/-! ## Who hears -/

section Built

variable {config : RigConfig} {b₀ b b' : Bench} {r r' : Rig} {moves : List Move}

/-- A controller shows all that came in under its id. -/
def Hears (moves : List Move) (c : Controller) : Prop :=
  ∃ n, Snapshot.decode {} (fed c.id moves) = .ok n c.snapshot

/-- No controller has heard anything yet, and nothing waits. -/
structure Silent (r : Rig) (b : Bench) : Prop where
  fresh : ∀ c ∈ r.controllers, c.snapshot = {}
  empty : ∀ id, b.queue id = []

namespace Silent

theorem readable (h : Silent r b) : Readable b.queue :=
  fun id s => ⟨0, s, by rw [h.empty]; rfl⟩

/-- After a tick the first controller of an id has heard all that came in, and the others
nothing. -/
theorem after_tick (h : Silent r b) (hplay : r.play b (moves ++ [.tick]) = (.ok (), r', b'))
    {before after : List Controller} {c : Controller}
    (hsplit : r'.controllers = before ++ c :: after) :
    if c.id ∈ before.map (·.id) then c.snapshot = {} else Hears moves c := by
  obtain ⟨r₁, b₁, hmoves, htick⟩ := play_append_tick_eq_ok_iff.mp hplay
  have hstart : Heard (fun _ => []) b.queue [] r.controllers :=
    .of_fresh h.fresh fun id => (h.empty id).symm
  obtain ⟨hpolls, _⟩ := polls_of_tick htick
  have hheard := (heard_play hmoves hstart).polls hpolls fun id hid => nomatch hid
  have hempty : b'.queue c.id = [] := by
    have hmem : c.id ∈ r₁.controllers.map (·.id) := by
      rw [← hpolls.ids, hsplit]
      simp
    rw [hpolls.waiting_after, if_pos hmem]
  rw [hsplit] at hheard
  obtain ⟨hlater, hfirst⟩ := hheard.at_split
  split
  next hmem => exact hlater (.inr hmem)
  next hmem =>
    obtain ⟨read, n, hfed, hread⟩ := hfirst (by simpa using hmem)
    rw [hempty, List.append_nil, List.nil_append] at hfed
    exact ⟨n, hfed ▸ hread⟩

end Silent

/-- A press of a button. -/
def press : List UInt8 := (Event.button 0 1).toBytes

theorem press_valid (id : String) : (Move.arrive (.bytes id press)).Valid :=
  ⟨Event.whole_of_length_mod rfl, by decide⟩

theorem decode_press_ne {n : Nat} : Snapshot.decode {} press ≠ .ok n {} := by
  have hdecode : Snapshot.decode {} press = .ok 1 (Snapshot.setPressed {} .cross true) := by cbv
  rw [hdecode]
  intro h
  injection h with _ hs
  exact absurd hs (by decide)

/-- If all controllers hear a press, whatever its id, then they have different ids. -/
theorem Silent.nodup_of_hears (h : Silent r b)
    (hall : ∀ moves r' b', (∀ m ∈ moves, m.Valid) →
      r.play b (moves ++ [.tick]) = (.ok (), r', b') → ∀ c ∈ r'.controllers, Hears moves c) :
    (r.controllers.map (·.id)).Nodup := by
  refine List.nodup_iff_sublist.mpr fun id hdup => ?_
  obtain ⟨ids, rest, hids, hid, hrest⟩ := List.cons_sublist_iff.mp hdup
  obtain ⟨between, more, rfl⟩ := List.append_of_mem (List.singleton_sublist.mp hrest)
  rw [← List.append_assoc] at hids
  have hmem : id ∈ ids ++ between := List.mem_append_left _ hid
  have hvalid : ∀ m ∈ [Move.arrive (.bytes id press)], m.Valid := by simpa using press_valid id
  have htick : ∀ m ∈ [Move.arrive (.bytes id press)] ++ [.tick], m.Valid := by
    simpa [Move.Valid] using hvalid
  obtain ⟨r', b', hplay⟩ := exists_play htick h.readable
  -- The second controller of the id has missed the press.
  rw [← ids_play hplay] at hids
  obtain ⟨before, last, hsplit, hbefore, hlast⟩ := List.map_eq_append_iff.mp hids
  obtain ⟨c, after, rfl, rfl, rfl⟩ := List.map_eq_cons_iff.mp hlast
  rw [← hbefore] at hmem
  have hmissed := h.after_tick hplay hsplit
  rw [if_pos hmem] at hmissed
  obtain ⟨n, hheard⟩ := hall _ r' b' hvalid hplay c (by simp [hsplit])
  rw [hmissed] at hheard
  exact decode_press_ne (n := n) (by simpa [fed, Bench.Arrival.fed] using hheard)

theorem Silent.hears_of_nodup (h : Silent r b) (hids : (r.controllers.map (·.id)).Nodup)
    (hplay : r.play b (moves ++ [.tick]) = (.ok (), r', b')) {c : Controller}
    (hc : c ∈ r'.controllers) : Hears moves c := by
  obtain ⟨before, after, hsplit⟩ := List.append_of_mem hc
  have hheard := h.after_tick hplay hsplit
  rw [← ids_play hplay, hsplit, List.map_append, List.map_cons, List.nodup_middle,
    List.nodup_cons] at hids
  rwa [if_neg fun hmem => hids.1 (List.mem_append_left _ hmem)] at hheard

/-- Whatever is fed to a rig just built: valid records make no tick fail, and after a tick the first
controller of each id shows all that was fed to the id, further ones nothing.  So all controllers
show all that was fed to their ids just when no two of them are configured with the same id. -/
theorem controllers_hear_all_iff (h : ofConfig config b₀ = .ok r b)
    (hq : ∀ id, b.queue id = []) :
    (∀ moves, (∀ m ∈ moves, m.Valid) → ∃ r' b', r.play b moves = (.ok (), r', b')) ∧
      (∀ moves r' b', r.play b (moves ++ [.tick]) = (.ok (), r', b') →
        (r'.controllers.map (·.id)).Perm config.controllerIds ∧
        ∀ (before after : List Controller) (c : Controller),
          r'.controllers = before ++ c :: after →
          if c.id ∈ before.map (·.id) then c.snapshot = {} else Hears moves c) ∧
      ((∀ moves r' b', (∀ m ∈ moves, m.Valid) →
          r.play b (moves ++ [.tick]) = (.ok (), r', b') → ∀ c ∈ r'.controllers, Hears moves c) ↔
        config.controllerIds.Nodup) := by
  have hcontrollers := controllers_ofConfig h
  have hsilent : Silent r b := by
    refine ⟨fun c hc => ?_, hq⟩
    obtain ⟨id, _, rfl⟩ := List.mem_map.mp (hcontrollers.mem_iff.mp hc)
    rfl
  have hids : (r.controllers.map (·.id)).Perm config.controllerIds := by
    simpa [Function.comp_def] using hcontrollers.map (·.id)
  refine ⟨fun moves hvalid => exists_play hvalid hsilent.readable, ?_, ?_⟩
  · intro moves r' b' hplay
    exact ⟨by rwa [ids_play hplay], fun before after c => hsilent.after_tick hplay⟩
  · rw [← hids.nodup_iff]
    exact ⟨hsilent.nodup_of_hears, fun hn moves r' b' _ hplay c => hsilent.hears_of_nodup hn hplay⟩

/-- A configuration of two controllers and nothing else. -/
def pair (left right : String) : RigConfig where
  inputs := .ofList [("left", .controller left), ("right", .controller right)]

/-- Two controllers of different ids show all that is fed. -/
theorem controllers_hear_all_two_ids :
    ∃ r b, ofConfig (pair "js0" "js1") {} = .ok r b ∧ (∀ id, b.queue id = []) ∧
      ∀ moves r' b', (∀ m ∈ moves, m.Valid) → r.play b (moves ++ [.tick]) = (.ok (), r', b') →
        ∀ c ∈ r'.controllers, Hears moves c := by
  obtain ⟨r, b, hbuilt, hq⟩ : ∃ r b, ofConfig (pair "js0" "js1") {} = .ok r b ∧
      ∀ id, b.queue id = [] := ⟨_, _, rfl, fun _ => rfl⟩
  exact ⟨r, b, hbuilt, hq, (controllers_hear_all_iff hbuilt hq).2.2.mpr (by decide)⟩

/-- Of two controllers of one id, the second misses a press. -/
theorem second_controller_misses_press :
    let moves : List Move := [.arrive (.bytes "js0" press)]
    ∃ r b r' b' left right, ofConfig (pair "js0" "js0") {} = .ok r b ∧
      (∀ id, b.queue id = []) ∧ (∀ m ∈ moves, m.Valid) ∧
      r.play b (moves ++ [.tick]) = (.ok (), r', b') ∧ r'.controllers = [left, right] ∧
      left.id = "js0" ∧ right.id = "js0" ∧ Hears moves left ∧ ¬ Hears moves right := by
  refine ⟨_, _, _, _, _, _, rfl, fun _ => rfl, ?_, rfl, rfl, rfl, rfl, ⟨1, rfl⟩, ?_⟩
  · simpa using press_valid "js0"
  · rintro ⟨n, hright⟩
    exact decode_press_ne hright

end Built

end Rig

end Patchbay
