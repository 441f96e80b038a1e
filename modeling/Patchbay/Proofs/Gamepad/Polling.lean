import Patchbay.Gamepad.Controller
import Patchbay.Proofs.Bench.Queues
import Patchbay.Proofs.Gamepad.Decoding

/-! # Polling

A stream of records reaches a controller in chunks, and polls read what has come in.  Neither the
cuts between chunks nor those between polls make a difference to what is decoded. -/

namespace Patchbay.Gamepad

open Event (Whole whole_iff)

/-! ## One poll -/

namespace Controller

variable {c : Controller} {b : Bench} {n : Nat} {s : Snapshot} {cause : ProtocolError}

theorem poll_of_ok (h : c.snapshot.decode (b.queue c.id) = .ok n s) :
    ∃ b', c.poll b = (.ok (), { c with snapshot := s }, b') ∧
      b'.queue = (b.setQueue c.id []).queue ∧ b'.time = b.time := by
  unfold poll Bench.drain
  cases hq : b.queue c.id with
  | nil =>
      rw [hq] at h
      cases h
      exact ⟨_, rfl, rfl, rfl⟩
  | cons x xs =>
      rw [hq] at h
      simp only [List.isEmpty_cons, Bool.false_eq_true, if_false, h]
      exact ⟨_, rfl, rfl, rfl⟩

theorem poll_of_error (h : c.snapshot.decode (b.queue c.id) = .error cause s) :
    c.poll b = (.error cause, { c with snapshot := s }, b.setQueue c.id []) := by
  unfold poll Bench.drain
  cases hq : b.queue c.id with
  | nil =>
      rw [hq] at h
      exact nomatch h
  | cons x xs =>
      rw [hq] at h
      simp only [List.isEmpty_cons, Bool.false_eq_true, if_false, h]

end Controller

/-! ## Sessions -/

/-- A chunk of bytes comes in for a controller, or the controller is polled. -/
inductive Move
  | chunk (bytes : List UInt8)
  | poll

/-- The bytes of all chunks. -/
def fed : List Move → List UInt8
  | [] => []
  | .chunk bytes :: rest => bytes ++ fed rest
  | .poll :: rest => fed rest

/-- After `count` bytes, each poll comes when the bytes so far are whole records. -/
def Aligned (count : Nat) : List Move → Prop
  | [] => True
  | .chunk bytes :: rest => Aligned (count + bytes.length) rest
  | .poll :: rest => count % 8 = 0 ∧ Aligned count rest

/-- What has come of a session: how it ended, what each of its polls read, and the controller and
the bench. -/
structure Session where
  result : Except ProtocolError Unit
  reads : List (List UInt8)
  controller : Controller
  bench : Bench

/-- Makes the moves in order, up to the first poll that fails. -/
def Controller.attend (c : Controller) (b : Bench) : List Move → Session
  | [] => ⟨.ok (), [], c, b⟩
  | .chunk bytes :: rest => c.attend (b.feed c.id bytes) rest
  | .poll :: rest =>
    match c.poll b with
    | (.error cause, c', b') => ⟨.error cause, [b.queue c.id], c', b'⟩
    | (.ok (), c', b') =>
      let after := c'.attend b' rest
      { after with reads := b.queue c.id :: after.reads }

/-! ## Reading a stream -/

/-- A session reads a stream: without a fault its polls have read the stream up to what still
waits, and have decoded it from `s` on.  Otherwise its last poll has read the first bad record. -/
inductive Session.Reads (s : Snapshot) (stream : List UInt8) (id : String) : Session → Prop
  | ok {reads c b n} : c.id = id → stream = reads.flatten ++ b.queue id →
      s.decode reads.flatten = .ok n c.snapshot → Reads s stream id ⟨.ok (), reads, c, b⟩
  | error {cause reads good bad rest c b n} :
      reads.flatten ++ (good ++ bad ++ rest) <+: stream → bad.length = 8 →
      s.decode (reads.flatten ++ good) = .ok n c.snapshot →
      c.snapshot.decode bad = .error cause c.snapshot →
      Reads s stream id ⟨.error cause, reads ++ [good ++ bad ++ rest], c, b⟩

/-- A poll without a fault before a session. -/
theorem Session.Reads.cons {s s₁ : Snapshot} {read stream : List UInt8} {id : String} {n : Nat}
    {after : Session} (hread : s.decode read = .ok n s₁) (h : after.Reads s₁ stream id) :
    Reads s (read ++ stream) id { after with reads := read :: after.reads } := by
  cases h with
  | @ok reads c b m hid hstream hreads =>
      refine .ok (n := n + m) hid ?_ ?_
      · rw [List.flatten_cons, List.append_assoc, ← hstream]
      · rw [List.flatten_cons]
        exact Snapshot.decode_append_ok hread hreads
  | @error cause reads good bad rest c b m hprefix hbad hgood hcause =>
      change Reads s _ id ⟨.error cause, (read :: reads) ++ [good ++ bad ++ rest], c, b⟩
      refine .error (n := n + m) ?_ hbad ?_ hcause
      · rw [List.flatten_cons, List.append_assoc]
        exact (List.prefix_append_right_inj read).mpr hprefix
      · rw [List.flatten_cons, List.append_assoc]
        exact Snapshot.decode_append_ok hread hgood

theorem fed_append (before after : List Move) :
    fed (before ++ after) = fed before ++ fed after := by
  induction before with
  | nil => rfl
  | cons move rest ih => cases move <;> simp [fed, ih]

/-- Whole records before a session may be left out of the count. -/
theorem Aligned.add_whole {count m : Nat} {moves : List Move} (hm : m % 8 = 0)
    (h : Aligned (m + count) moves) : Aligned count moves := by
  induction moves generalizing count with
  | nil => trivial
  | cons move rest ih =>
      cases move with
      | chunk bytes => exact ih (Nat.add_assoc .. ▸ h)
      | poll => exact ⟨by have := h.1; omega, ih h.2⟩

theorem Aligned.at_last_poll {count : Nat} {moves : List Move}
    (h : Aligned count (moves ++ [.poll])) : (count + (fed moves).length) % 8 = 0 := by
  induction moves generalizing count with
  | nil => exact h.1
  | cons move rest ih =>
      cases move with
      | chunk bytes => simpa [fed, Nat.add_assoc] using ih h
      | poll => exact ih h.2

theorem Controller.attend_reads (c : Controller) (b : Bench) {moves : List Move}
    (h : Aligned (b.queue c.id).length moves) :
    (c.attend b moves).Reads c.snapshot (b.queue c.id ++ fed moves) c.id := by
  induction moves generalizing c b with
  | nil => exact .ok (n := 0) rfl (by simp [fed]) rfl
  | cons move rest ih =>
      cases move with
      | chunk bytes =>
          have hrest := ih c (b.feed c.id bytes) (by simpa [Aligned] using h)
          simpa [attend, fed] using hrest
      | poll =>
          have hwhole : Whole (b.queue c.id) := whole_iff.mpr h.1
          cases hdecode : c.snapshot.decode (b.queue c.id) with
          | error cause s =>
              obtain ⟨good, bad, after, n, hsplit, hbad, hgood, hcause⟩ :=
                Snapshot.exists_bad_record hwhole hdecode
              simp only [attend, poll_of_error hdecode, hsplit]
              rw [← List.nil_append [good ++ bad ++ after]]
              exact .error (List.prefix_append ..) hbad hgood hcause
          | ok n s =>
              obtain ⟨b', hpoll, hqueue, _⟩ := poll_of_ok hdecode
              have hempty : b'.queue c.id = [] := by simp [hqueue]
              have haligned : Aligned 0 rest := h.2.add_whole h.1
              have hread := ih { c with snapshot := s } b' (by simpa [hempty] using haligned)
              simp only [attend, hpoll]
              refine Session.Reads.cons hdecode ?_
              simpa [hempty, fed] using hread

/-- Without a fault, what the polls have read is decoded, wherever they come. -/
theorem Controller.decode_reads {c : Controller} {b : Bench} {moves : List Move}
    (h : (c.attend b moves).result = .ok ()) :
    ∃ n, c.snapshot.decode (c.attend b moves).reads.flatten =
      .ok n (c.attend b moves).controller.snapshot := by
  induction moves generalizing c b with
  | nil => exact ⟨0, rfl⟩
  | cons move rest ih =>
      cases move with
      | chunk bytes => exact ih h
      | poll =>
          cases hdecode : c.snapshot.decode (b.queue c.id) with
          | error cause s =>
              simp only [attend, poll_of_error hdecode] at h
              exact nomatch h
          | ok n s =>
              obtain ⟨b', hpoll, _⟩ := poll_of_ok hdecode
              simp only [attend, hpoll] at h ⊢
              obtain ⟨m, hrest⟩ := ih h
              exact ⟨n + m, Snapshot.decode_append_ok hdecode hrest⟩

/-- A session of one chunk and one poll. -/
theorem Controller.attend_chunk_poll {c : Controller} {b : Bench} {bytes : List UInt8} {n : Nat}
    {s : Snapshot} (h : c.snapshot.decode (b.queue c.id ++ bytes) = .ok n s) :
    ∃ b', c.attend b [.chunk bytes, .poll] =
      ⟨.ok (), [b.queue c.id ++ bytes], { c with snapshot := s }, b'⟩ := by
  have hqueue : (b.feed c.id bytes).queue c.id = b.queue c.id ++ bytes := by simp
  obtain ⟨b', hpoll, _⟩ := poll_of_ok (hqueue ▸ h)
  exact ⟨b', by simp only [attend, hpoll, hqueue]⟩

/-- A session that ends with a poll leaves no bytes behind, if it has no fault. -/
theorem Controller.queue_attend_poll {c : Controller} {b : Bench} {moves : List Move}
    (h : (c.attend b (moves ++ [.poll])).result = .ok ()) :
    (c.attend b (moves ++ [.poll])).bench.queue c.id = [] := by
  induction moves generalizing c b with
  | nil =>
      cases hdecode : c.snapshot.decode (b.queue c.id) with
      | error cause s =>
          simp only [List.nil_append, attend, poll_of_error hdecode] at h
          exact nomatch h
      | ok n s =>
          obtain ⟨b', hpoll, hqueue, _⟩ := poll_of_ok hdecode
          simp [attend, hpoll, hqueue]
  | cons move rest ih =>
      cases move with
      | chunk bytes => exact ih h
      | poll =>
          cases hdecode : c.snapshot.decode (b.queue c.id) with
          | error cause s =>
              simp only [List.cons_append, attend, poll_of_error hdecode] at h
              exact nomatch h
          | ok n s =>
              obtain ⟨b', hpoll, _⟩ := poll_of_ok hdecode
              simp only [List.cons_append, attend, hpoll] at h ⊢
              exact ih h

/-- However a stream is cut into chunks, and wherever polls come between its records: polls up to
the end of the stream decode it as a whole.  Without a fault they read it all, in order.  Otherwise
the last poll is the first that fails; it has read the first bad record, with the same fault and
snapshot as the whole has. -/
theorem Controller.attend_eq_decode (c : Controller) (b : Bench) (moves : List Move)
    (h : Aligned (b.queue c.id).length (moves ++ [.poll])) :
    let stream := b.queue c.id ++ fed moves
    let session := c.attend b (moves ++ [.poll])
    match c.snapshot.decode stream with
    | .ok _ s =>
        session.result = .ok () ∧ session.controller.snapshot = s ∧
          session.reads.flatten = stream
    | .error cause s =>
        session.result = .error cause ∧ session.controller.snapshot = s ∧
          ∃ earlier good bad rest n, session.reads = earlier ++ [good ++ bad ++ rest] ∧
            session.reads.flatten <+: stream ∧ bad.length = 8 ∧
            c.snapshot.decode (earlier.flatten ++ good) = .ok n s ∧
            s.decode bad = .error cause s := by
  intro stream session
  have hreads : session.Reads c.snapshot stream c.id := by
    have hread := c.attend_reads b h
    rwa [fed_append, fed, fed, List.append_nil] at hread
  have hend : session.result = .ok () → session.bench.queue c.id = [] := queue_attend_poll
  have hwhole : Whole stream := whole_iff.mpr (by simpa [stream] using h.at_last_poll)
  clear_value session
  cases hreads with
  | @ok reads c' b' n hid hstream hdecode =>
      have hall : reads.flatten = stream := by rw [hstream, hend rfl, List.append_nil]
      rw [← hall, hdecode]
      exact ⟨rfl, rfl, rfl⟩
  | @error cause reads good bad rest c' b' n hprefix hbad hgood hcause =>
      obtain ⟨more, hmore⟩ := hprefix
      have hsplit : stream = reads.flatten ++ good ++ (bad ++ (rest ++ more)) := by
        simp [← hmore]
      have hrecord : Whole bad := whole_iff.mpr (by rw [hbad])
      have hafter : Whole (bad ++ (rest ++ more)) :=
        (hsplit ▸ hwhole).of_append (Snapshot.whole_of_decode_ok hgood)
      have hfault : c.snapshot.decode stream = .error cause c'.snapshot := by
        rw [hsplit, Snapshot.decode_append_error_iff hafter hgood]
        exact Snapshot.decode_error_append hrecord (hafter.of_append hrecord) hcause
      rw [hfault]
      refine ⟨rfl, rfl, reads, good, bad, rest, n, rfl, ?_, hbad, hgood, hcause⟩
      exact ⟨more, by simp [← hmore]⟩

/-- Two records, the first cut in three, then a bad one, cut in two, after another poll. -/
theorem Controller.attend_eq_decode_bad_record :
    let moves : List Move := [.chunk [0, 0, 0], .chunk [], .chunk [0, 1, 0, 1, 0], .poll,
      .chunk [0, 0, 0, 0, 5, 0, 2, 0, 0, 0], .chunk [0, 0, 0, 0, 3, 0]]
    let session := attend { id := "js0" } {} (moves ++ [.poll])
    Aligned 0 (moves ++ [.poll]) ∧ session.result = .error (.unknownEventType 3) ∧
      session.controller.snapshot = { (Snapshot.setPressed {} .cross true) with leftX := 5 } := by
  intro moves session
  have haligned : Aligned 0 (moves ++ [.poll]) := ⟨rfl, rfl, trivial⟩
  have hdecode : Snapshot.decode {} (fed moves) = .error (.unknownEventType 3)
      { (Snapshot.setPressed {} .cross true) with leftX := 5 } := by cbv
  have h := attend_eq_decode { id := "js0" } {} moves haligned
  change match Snapshot.decode {} (fed moves) with | .ok _ s => _ | .error cause s => _ at h
  rw [hdecode] at h
  exact ⟨haligned, h.1, h.2.1⟩

end Patchbay.Gamepad
