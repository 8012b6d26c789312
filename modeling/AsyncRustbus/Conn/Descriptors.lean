import AsyncRustbus.Conn.Ledger

set_option relaxedAutoImplicit false
set_option autoImplicit false

/-!
# Descriptors of outgoing messages

The receiver ties descriptors to a message by the write they come with, so a write with
descriptors must have bytes of their message only.  `populate` puts such a message first, but goes
on with the messages behind it that have no descriptors.  The discipline is kept as long as no
message without descriptors is written while a queued one has descriptors to send.

## Main definitions

* `AsyncRustbus.Tracked.FdDiscipline` — the writes with descriptors are those of the started
  messages that have some.
* `AsyncRustbus.Tracked.FdSafeRun` — no call of a run writes a message without descriptors behind
  descriptors that are still to be sent.

## Main results

* `AsyncRustbus.Tracked.run_fdDiscipline` — the discipline along such runs.
* `AsyncRustbus.Tracked.run_mixes_messages` — a write that carries the descriptors of one message
  and the bytes of two.
-/

namespace AsyncRustbus

namespace Tracked

/-- The discipline of descriptors: the writes that carry descriptors correspond, one to one and in
order, to the messages with descriptors whose first byte is accepted.  Each such write starts at
the first byte of its message, carries all its descriptors and has no byte of another one. -/
def FdDiscipline (c : Tracked) : Prop :=
  List.Forall₂ Carries (carrying 0 c.stream.log)
    ((carrying 0 c.messages).filter fun m => m.1 < c.stream.sent.length)

/-- All calls of a run are safe for descriptors. -/
def FdSafeRun (R : Rustbus) : Tracked → List SendOp → Prop
  | _, [] => True
  | c, op :: ops => FdSafe c.state op ∧ FdSafeRun R (step R c op) ops

variable {R : Rustbus} {c : Tracked}

/-- The ledger gives the discipline: the messages that wait are not started. -/
lemma Balanced.fdDiscipline (h : c.Balanced) : c.FdDiscipline := by
  obtain ⟨sent, hsent, hcarries, hbefore⟩ := h.ledger.fds
  have hfilter : (carrying 0 c.messages).filter (fun m => m.1 < c.stream.sent.length) = sent := by
    rw [hsent, List.filter_append]
    have hstarted : sent.filter (fun m => m.1 < c.stream.sent.length) = sent :=
      List.filter_eq_self.mpr fun m hm => decide_eq_true (hbefore m hm)
    have hwaiting : (waiting (SendState.logged c.stream.log).length c.state.queue).filter
        (fun m => m.1 < c.stream.sent.length) = [] := by
      refine List.filter_eq_nil_iff.mpr fun m hm => ?_
      have hle : c.stream.sent.length ≤ m.1 := le_of_mem_waiting hm
      simpa using hle
    rw [hstarted, hwaiting, List.append_nil]
  rw [FdDiscipline, hfilter]
  exact hcarries

/-- A safe run keeps the ledger. -/
lemma balanced_run (ops : List SendOp) (h : c.Balanced) (hsafe : FdSafeRun R c ops) :
    (run R c ops).Balanced := by
  induction ops generalizing c with
  | nil => exact h
  | cons op ops ih => exact ih (balanced_step h op (.inr hsafe.1)) hsafe.2

/-- **Descriptors go with their message.**  In every run on a stream that reports no error, whose
calls are safe for descriptors: the bytes accepted are the first bytes of the messages written,
and the writes with descriptors keep the discipline.

**Proof sketch.** Every accepted write keeps the ledger (`Ledger.credit`), in which the messages
with descriptors are those that have been sent with their own write, followed by those that
wait. -/
theorem run_fdDiscipline (R : Rustbus) (script : List SendEvent)
    (hscript : ∀ ev ∈ script, ev ≠ .err) (ops : List SendOp)
    (hsafe : FdSafeRun R (new true script) ops) :
    (run R (new true script) ops).stream.sent <+:
        (run R (new true script) ops).messages.flatMap Prod.fst ∧
      (run R (new true script) ops).FdDiscipline := by
  have hbal := balanced_run ops (balanced_new true hscript) hsafe
  exact ⟨⟨_, hbal.ledger.bytes⟩, hbal.fdDiscipline⟩

/-- Two messages with a descriptor each, the second queued behind a part of the first. -/
theorem run_fdDiscipline_two :
    let script := [SendEvent.accept 3, .wouldBlock, .wouldBlock, .accept 100, .accept 100]
    let ops := [SendOp.write (Sending.plainSignal [⟨some 7⟩]) ⟨1, by decide⟩,
      .write (Sending.plainSignal [⟨some 8⟩]) ⟨2, by decide⟩, .finish]
    (carrying 0 (run .reference (new true script) ops).stream.log).map
        (fun w => (w.1, w.2.1.length, w.2.2)) = [(0, 4, [7]), (24, 24, [8])] ∧
      (run .reference (new true script) ops).FdDiscipline :=
  ⟨by decide, (run_fdDiscipline .reference _ (by decide) _ (by
    refine ⟨fun h => ?_, fun h => ?_, trivial, trivial⟩
    · cases h
    · cases h)).2⟩

/-- A message without descriptors is written while one with a descriptor waits: one write carries
the descriptor with the bytes of both. -/
theorem run_mixes_messages :
    let script := [SendEvent.wouldBlock, .accept 39]
    let ops := [SendOp.write (Sending.plainSignal [⟨some 7⟩]) ⟨1, by decide⟩,
      .write (Sending.plainSignal []) ⟨2, by decide⟩]
    let c := run .reference (new true script) ops
    (∀ ev ∈ script, ev ≠ .err) ∧
      c.stream.log = [(c.messages.flatMap Prod.fst, [7])] ∧
      c.messages.map (fun m => (m.1.length, m.2)) = [(24, [7]), (16, [])] ∧
      ¬ c.FdDiscipline := by
  intro script ops c
  refine ⟨by decide, by decide, by decide, fun hdisc => ?_⟩
  have hwrite : carrying 0 c.stream.log = [(0, c.messages.flatMap Prod.fst, [7])] := by decide
  have hmessage : (carrying 0 c.messages).filter (fun m => m.1 < c.stream.sent.length) =
      [(0, (c.messages.flatMap Prod.fst).take 24, [7])] := by decide
  rw [FdDiscipline, hwrite, hmessage] at hdisc
  rcases hdisc with _ | ⟨hcarries, -⟩
  exact absurd hcarries.bytes.length_le (by decide)

end Tracked

end AsyncRustbus
