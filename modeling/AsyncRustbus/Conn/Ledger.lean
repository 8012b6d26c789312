import AsyncRustbus.Conn.Offered

set_option relaxedAutoImplicit false
set_option autoImplicit false

/-!
# The ledger of the sender

The ledger relates the messages written so far to what the stream has accepted of them and to
what is still queued.  Every accepted write keeps it, so both loops do, and so do runs of the
sender.

## Main definitions

* `AsyncRustbus.Ledger` — the invariant.
* `AsyncRustbus.Tracked` — a run of the sender that records the messages and the results of their
  writes.
* `AsyncRustbus.Tracked.Balanced` — its ledger is kept.

## Main results

* `AsyncRustbus.Ledger.credit` — an accepted write keeps the ledger.
* `AsyncRustbus.Ledger.finishLoop`, `AsyncRustbus.Ledger.writeLoop` — so do both loops.
* `AsyncRustbus.Tracked.finish_cases`, `AsyncRustbus.Tracked.write_cases` — what one call can do.
-/

namespace AsyncRustbus

open SendState

/-! ## The ledger -/

/-- The bytes of a queue that the stream has accepted: only the front can be started. -/
def started : List RawOut → Bytes
  | [] => []
  | out :: _ => out.wire.take out.written

/-- The messages written so far, what the stream has accepted, and what is queued.  All messages
before the queue are accepted in full, and of the queue the started part of its front.  The writes
with descriptors are, in order, those of the started messages that have some. -/
structure Ledger (messages log : List (Bytes × List ℕ)) (queue : List RawOut) : Prop where
  opened : ∀ out ∈ queue, out.Open
  fresh : ∀ out ∈ queue.tail, out.written = 0
  fdsLast : FdsLast queue
  split : ∃ done, messages = done ++ queue.map RawOut.message ∧
    logged log = done.flatMap Prod.fst ++ started queue
  fds : ∃ sent, carrying 0 messages = sent ++ waiting (logged log).length queue ∧
    List.Forall₂ Carries (carrying 0 log) sent ∧ ∀ m ∈ sent, m.1 < (logged log).length

/-- A queue in which nothing is started. -/
private lemma started_eq_nil {queue : List RawOut} (h : ∀ out ∈ queue, out.written = 0) :
    started queue = [] := by
  cases queue with
  | nil => rfl
  | cons out queue => simp [started, h out List.mem_cons_self]

/-- All bytes of a queue in which nothing is started are pending. -/
private lemma pending_eq_flatMap {queue : List RawOut} (h : ∀ out ∈ queue, out.written = 0) :
    pending queue = (queue.map RawOut.message).flatMap Prod.fst := by
  induction queue with
  | nil => rfl
  | cons out queue ih =>
    have hunsent : out.unsent = out.wire := by
      simp [RawOut.unsent, RawOut.wire, h out List.mem_cons_self]
    have hrest := ih fun o ho => h o (List.mem_cons_of_mem _ ho)
    simp only [pending, List.flatMap_cons, List.map_cons] at hrest ⊢
    rw [hunsent, hrest]
    rfl

/-- What has been accepted when the front of a queue is sent in full. -/
private lemma started_append (pre rest : List RawOut)
    (hfresh : ∀ out ∈ (pre ++ rest).tail, out.written = 0) :
    started (pre ++ rest) ++ pending pre =
      (pre.map RawOut.message).flatMap Prod.fst ++ started rest := by
  cases pre with
  | nil => simp [pending]
  | cons out pre =>
    have hrest : started rest = [] :=
      started_eq_nil fun o ho => hfresh o (List.mem_append_right _ ho)
    have hpre : pending pre = (pre.map RawOut.message).flatMap Prod.fst :=
      pending_eq_flatMap fun o ho => hfresh o (List.mem_append_left _ ho)
    calc started (out :: pre ++ rest) ++ pending (out :: pre)
        = out.wire.take out.written ++ (out.unsent ++ pending pre) := rfl
      _ = out.wire ++ pending pre := by
        rw [← List.append_assoc, out.take_written_append_unsent]
      _ = ((out :: pre).map RawOut.message).flatMap Prod.fst ++ started rest := by
        rw [hrest, hpre, List.append_nil]
        rfl

/-- What is accepted and what is pending of a queue are its messages. -/
lemma started_append_pending {queue : List RawOut}
    (hfresh : ∀ out ∈ queue.tail, out.written = 0) :
    started queue ++ pending queue = (queue.map RawOut.message).flatMap Prod.fst := by
  have h := started_append queue [] (by simpa using hfresh)
  simpa [started] using h

/-- A message that is started has sent its descriptors. -/
private lemma fdsToSend_credited (out : RawOut) {n : ℕ} (hn : 0 < n) :
    ({ out with written := out.written + n } : RawOut).fdsToSend = false := by
  have hne : decide (out.written + n = 0) = false := decide_eq_false (by omega)
  simp only [RawOut.fdsToSend, hne, Bool.false_and]

namespace Ledger

variable {messages log : List (Bytes × List ℕ)} {queue : List RawOut}

/-- The bytes accepted and those pending are the messages. -/
lemma bytes (h : Ledger messages log queue) :
    logged log ++ pending queue = messages.flatMap Prod.fst := by
  obtain ⟨done, hmsgs, hlog⟩ := h.split
  rw [hlog, hmsgs, List.flatMap_append, ← started_append_pending h.fresh, List.append_assoc]

/-- The queue after an accepted write: only the front is new, and it is started. -/
private lemma credit_queue (h : Ledger messages log queue) {k : ℕ}
    (hk : k ≤ (pending queue).length) :
    (∀ out ∈ (updateWritten queue k).2.tail, out.written = 0) ∧
      FdsLast (updateWritten queue k).2 := by
  obtain ⟨pre, rest, rfl, hcase⟩ := updateWritten_cases queue k hk
  have hlast : FdsLast rest := h.fdsLast.sublist (List.sublist_append_right _ _)
  have hfresh : ∀ out ∈ rest.tail, out.written = 0 := by
    intro out hout
    refine h.fresh out ?_
    cases pre with
    | nil => exact hout
    | cons o pre => exact List.mem_append_right _ (List.mem_of_mem_tail hout)
  rcases hcase with ⟨-, heq⟩ | ⟨out, tail, n, rfl, hn, -, -, heq⟩
  · rw [heq]
    exact ⟨hfresh, hlast⟩
  · rw [heq]
    refine ⟨hfresh, List.pairwise_cons.mpr ⟨fun o _ hfds => ?_, (List.pairwise_cons.mp hlast).2⟩⟩
    rw [fdsToSend_credited out hn] at hfds
    cases hfds

/-- The messages accepted in full after an accepted write.

**Proof sketch.** `updateWritten_cases`: the accepted bytes end between two messages of the queue or
inside one of them. Those in front are accepted in full and join the earlier ones; of the one that
is cut, the first bytes have been accepted, and these are its new start. -/
private lemma credit_split (h : Ledger messages log queue) {k : ℕ}
    (hk : k ≤ (pending queue).length) :
    ∃ done, messages = done ++ (updateWritten queue k).2.map RawOut.message ∧
      logged log ++ (pending queue).take k =
        done.flatMap Prod.fst ++ started (updateWritten queue k).2 := by
  obtain ⟨done, hmsgs, hlog⟩ := h.split
  obtain ⟨pre, rest, rfl, hcase⟩ := updateWritten_cases queue k hk
  have hstart := started_append pre rest h.fresh
  refine ⟨done ++ pre.map RawOut.message, ?_, ?_⟩
  · rcases hcase with ⟨-, heq⟩ | ⟨out, tail, n, rfl, -, -, -, heq⟩
    · rw [heq, hmsgs, List.map_append, List.append_assoc]
    · rw [heq, hmsgs, List.map_append, List.append_assoc]
      rfl
  · rw [hlog, pending_append, List.append_assoc, List.flatMap_append, List.append_assoc]
    congr 1
    rcases hcase with ⟨hlen, heq⟩ | ⟨out, tail, n, rfl, -, hlt, hlen, heq⟩
    · rw [heq, hlen, List.take_left, hstart]
    · have htake : (pending pre ++ pending (out :: tail)).take k =
          pending pre ++ out.unsent.take n := by
        have hn : n ≤ out.unsent.length := by
          rw [out.length_unsent]
          omega
        rw [hlen, List.take_length_add_append]
        congr 1
        exact List.take_append_of_le_length hn
      have hfront : started (out :: tail) ++ out.unsent.take n =
          started ({ out with written := out.written + n } :: tail) := by
        exact List.take_add.symm
      rw [heq, htake, ← List.append_assoc, hstart, List.append_assoc, hfront]

/-- A message in front of which an accepted write stops has its descriptors still to send, one
that it reaches has none: the messages that wait are the same.

**Proof sketch.** `updateWritten_cases`: the accepted bytes end between two messages or inside one.
A message that they reach has no descriptors to send, since the write stops in front of those; so
none of the messages that are gone or cut was waiting, and the others keep their positions. -/
private lemma waiting_credit_plain (h : Ledger messages log queue) {k : ℕ}
    (hk : k ≤ (pending queue).length)
    (hstop : ∀ pre out rest, queue = pre ++ out :: rest → out.fdsToSend = true →
      k ≤ (pending pre).length) (off : ℕ) :
    waiting off queue = waiting (off + k) (updateWritten queue k).2 := by
  obtain ⟨pre, rest, rfl, hcase⟩ := updateWritten_cases queue k hk
  -- no message that is sent in full has descriptors to send
  have hpre : (pending pre).length ≤ k → ∀ out ∈ pre, out.fdsToSend = false := by
    intro hlen out hout
    by_contra hfds
    obtain ⟨a, b, rfl⟩ := List.append_of_mem hout
    have hle := hstop a out (b ++ rest) (by simp) (by simpa using hfds)
    have hpos := (h.opened out (by simp)).toWrite_pos
    rw [pending_append, List.length_append, length_pending_cons] at hlen
    omega
  rw [waiting_append]
  rcases hcase with ⟨hlen, heq⟩ | ⟨out, tail, n, rfl, hn, hlt, hlen, heq⟩
  · rw [waiting_eq_nil (hpre (Nat.le_of_eq hlen.symm)), heq, hlen]
    rfl
  · have hout : out.fdsToSend = false := by
      by_contra hfds
      have hle := hstop pre out tail rfl (by simpa using hfds)
      omega
    have hleft := out.toWrite_written n
    rw [waiting_eq_nil (hpre (by omega)), heq]
    simp only [waiting, hout, fdsToSend_credited out hn, hleft, List.nil_append]
    rw [show off + k + (out.toWrite - n) = off + (pending pre).length + out.toWrite by omega]
    rfl

/-- A write of the descriptors of the front takes it from the messages that wait.

**Proof sketch.** The front waits first. `updateWritten_cases`: the accepted bytes cover a part of
the front, which then has no descriptors to send any more, or all of it; they reach no further,
since they are at most the bytes of the front and every message behind it has some. -/
private lemma waiting_credit_front {out : RawOut} {rest : List RawOut}
    (h : Ledger messages log (out :: rest)) (hfds : out.fdsToSend = true) {k : ℕ} (hk0 : 0 < k)
    (hk : k ≤ out.toWrite) (off : ℕ) :
    waiting off (out :: rest) =
      (off, out.wire, out.fds) :: waiting (off + k) (updateWritten (out :: rest) k).2 := by
  have hle : k ≤ (pending (out :: rest)).length := by
    rw [length_pending_cons]
    omega
  obtain ⟨pre, rest', hsplit, hcase⟩ := updateWritten_cases (out :: rest) k hle
  have hwait : waiting off (out :: rest) =
      (off, out.wire, out.fds) :: waiting (off + out.toWrite) rest := by
    simp [waiting, hfds]
  have hopen : ∀ o ∈ rest, 0 < o.toWrite :=
    fun o ho => (h.opened o (List.mem_cons_of_mem _ ho)).toWrite_pos
  rw [hwait]
  congr 1
  cases pre with
  | nil =>
    rw [List.nil_append] at hsplit
    subst hsplit
    rcases hcase with ⟨hlen, -⟩ | ⟨o, tail, n, hrest, hn, hlt, hlen, heq⟩
    · have hzero : k = 0 := hlen
      omega
    · obtain ⟨rfl, rfl⟩ := List.cons.inj hrest
      have hkn : k = n := by simpa [pending] using hlen
      have hleft := out.toWrite_written n
      rw [heq]
      simp only [waiting, fdsToSend_credited out hn, hleft]
      rw [show off + k + (out.toWrite - n) = off + out.toWrite by omega]
      rfl
  | cons o pre =>
    rw [List.cons_append, List.cons.injEq] at hsplit
    obtain ⟨rfl, rfl⟩ := hsplit
    rw [length_pending_cons] at hcase
    rcases hcase with ⟨hlen, heq⟩ | ⟨o, tail, n, hrest, hn, hlt, hlen, heq⟩
    · cases pre with
      | nil =>
        have hkn : k = out.toWrite := by simpa [pending] using hlen
        rw [heq, hkn]
        rfl
      | cons o' pre =>
        have := hopen o' (by simp)
        rw [length_pending_cons] at hlen
        omega
    · omega

/-- **An accepted write keeps the ledger.**

**Proof sketch.** The accepted bytes are the first pending ones, and `updateWritten_cases` says
what crediting them leaves of the queue.  A write without descriptors reaches no message that
waits to send some; a write with descriptors starts the front and nothing else. -/
theorem credit (h : Ledger messages log queue) {flat : Bytes} {anc : List ℕ}
    (hoff : Offered queue flat anc) {k : ℕ} (hk0 : 0 < k) (hk : k ≤ flat.length) :
    Ledger messages (log ++ [(flat.take k, anc)]) (updateWritten queue k).2 := by
  have hle : k ≤ (pending queue).length := hk.trans hoff.bytes.length_le
  have htake : flat.take k = (pending queue).take k := by
    obtain ⟨t, ht⟩ := hoff.bytes
    rw [← ht, List.take_append_of_le_length hk]
  have hlog : logged (log ++ [(flat.take k, anc)]) = logged log ++ (pending queue).take k := by
    simp [logged, htake]
  have hlen : (logged (log ++ [(flat.take k, anc)])).length = (logged log).length + k := by
    rw [hlog, List.length_append, List.length_take, Nat.min_eq_left hle]
  obtain ⟨hfresh, hlast⟩ := h.credit_queue hle
  refine ⟨(updateWritten_spec queue k h.opened).2.2.1, hfresh, hlast, ?_, ?_⟩
  · rw [hlog]
    exact h.credit_split hle
  · obtain ⟨sent, hsent, hcarries, hbefore⟩ := h.fds
    rw [hlen, carrying_append]
    have hbefore' : ∀ m ∈ sent, m.1 < (logged log).length + k :=
      fun m hm => Nat.lt_of_lt_of_le (hbefore m hm) (Nat.le_add_right _ _)
    rcases hoff.fds with ⟨rfl, hstop⟩ | ⟨out, rest, rfl, hfds, rfl, hfront⟩
    · have hwait := h.waiting_credit_plain hle
        (fun pre out rest hsplit ho => hk.trans (hstop pre out rest hsplit ho)) (logged log).length
      refine ⟨sent, by rw [hsent, hwait], ?_, hbefore'⟩
      simpa [carrying] using hcarries
    · have hne : out.fds ≠ [] := by
        simp only [RawOut.fdsToSend, Bool.and_eq_true, Bool.not_eq_true',
          List.isEmpty_eq_false_iff] at hfds
        exact hfds.2
      have hwritten : out.written = 0 := by
        simp only [RawOut.fdsToSend, Bool.and_eq_true, decide_eq_true_eq] at hfds
        exact hfds.1
      have hkout : k ≤ out.toWrite := by
        rw [← out.length_unsent]
        exact hk.trans hfront.length_le
      have hwait := h.waiting_credit_front hfds hk0 hkout (logged log).length
      refine ⟨sent ++ [((logged log).length, out.wire, out.fds)], ?_, ?_, ?_⟩
      · rw [hsent, hwait, List.append_assoc]
        rfl
      · refine List.rel_append hcarries ?_
        have hwrite : carrying (0 + (log.flatMap Prod.fst).length) [(flat.take k, out.fds)] =
            [((logged log).length, flat.take k, out.fds)] := by
          simp [carrying, hne, logged]
        rw [hwrite]
        refine .cons ⟨rfl, ?_, ?_, rfl⟩ .nil
        · exact List.ne_nil_of_length_pos (by rw [List.length_take]; omega)
        · have hwire : out.unsent = out.wire := by
            simp [RawOut.unsent, RawOut.wire, hwritten]
          rw [← hwire]
          exact (List.take_prefix k flat).trans hfront
      · intro m hm
        rcases List.mem_append.mp hm with hm | hm
        · exact hbefore' m hm
        · rw [List.mem_singleton.mp hm]
          omega

/-- A new message goes to the end of the queue.  If it has no descriptors, no message of the queue
may have some to send.

**Proof sketch.** The fields one by one. The new message has nothing written, so it adds to the
bytes and to the messages that wait, at the end; without descriptors it is allowed behind the others
by `hfds`, and with descriptors it may stand behind any. -/
lemma push (h : Ledger messages log queue) {out : RawOut} (hout : out.Open)
    (hwritten : out.written = 0)
    (hfds : out.fds = [] → ∀ o ∈ queue, o.fdsToSend = false) :
    Ledger (messages ++ [out.message]) log (queue ++ [out]) := by
  have hlen : (logged log).length + (pending queue).length =
      (messages.flatMap Prod.fst).length := by
    rw [← h.bytes, List.length_append]
  refine ⟨fun o ho => ?_, fun o ho => ?_, ?_, ?_, ?_⟩
  · rcases List.mem_append.mp ho with ho | ho
    · exact h.opened o ho
    · rw [List.mem_singleton.mp ho]
      exact hout
  · cases queue with
    | nil => cases ho
    | cons front queue =>
      rcases List.mem_append.mp ho with ho | ho
      · exact h.fresh o ho
      · rw [List.mem_singleton.mp ho, hwritten]
  · refine List.pairwise_append.mpr ⟨h.fdsLast, List.pairwise_singleton _ _, ?_⟩
    intro o ho o' ho' hsend
    rw [List.mem_singleton.mp ho']
    have hne : out.fds ≠ [] := fun hnil => by simp [hfds hnil o ho] at hsend
    simp [RawOut.fdsToSend, hwritten, hne]
  · obtain ⟨done, hmsgs, hlog⟩ := h.split
    refine ⟨done, by rw [hmsgs]; simp, ?_⟩
    rw [hlog]
    cases queue with
    | nil => simp [started, hwritten]
    | cons front queue => rfl
  · obtain ⟨sent, hsent, hcarries, hbefore⟩ := h.fds
    refine ⟨sent, ?_, hcarries, hbefore⟩
    rw [carrying_append, hsent, waiting_append, List.append_assoc, Nat.zero_add, hlen]
    congr 2
    by_cases hnil : out.fds = []
    · simp [carrying, waiting, RawOut.message, RawOut.fdsToSend, hnil]
    · simp [carrying, waiting, RawOut.message, RawOut.fdsToSend, hwritten, hnil]

/-- Nothing is written yet. -/
lemma nil : Ledger [] [] [] :=
  ⟨by simp, by simp, List.Pairwise.nil, ⟨[], rfl, rfl⟩, ⟨[], rfl, .nil, by simp⟩⟩

/-- Crediting does not lengthen a queue. -/
private lemma length_updateWritten_le {k : ℕ} (hk : k ≤ (pending queue).length) :
    (updateWritten queue k).2.length ≤ queue.length := by
  obtain ⟨pre, rest, rfl, hcase⟩ := updateWritten_cases queue k hk
  rw [List.length_append]
  rcases hcase with ⟨-, heq⟩ | ⟨out, tail, n, rfl, -, -, -, heq⟩
  · rw [heq]
    omega
  · rw [heq, List.length_cons, List.length_cons]
    omega

/-- **The loop of `finish_sending_next` keeps the ledger.**

**Proof sketch.** By induction on the answers of the stream. An accepted write offers buffers as
`populate_offered` says and is credited to the queue (`credit`), which does not get longer; every
other answer ends the loop with the queue as it is. -/
theorem finishLoop (h : Ledger messages log queue) (script : List SendEvent)
    (hscript : ∀ ev ∈ script, ev ≠ .err) :
    ∃ queue' stream', SendState.finishLoop script queue log = (none, queue', stream') ∧
      Ledger messages stream'.log queue' ∧ (∀ ev ∈ stream'.script, ev ≠ .err) ∧
      log <+: stream'.log ∧ queue'.length ≤ queue.length := by
  induction script generalizing queue log with
  | nil =>
    refine ⟨queue, ⟨log, []⟩, ?_, h, hscript, List.prefix_rfl, Nat.le_refl _⟩
    cases queue <;> rfl
  | cons ev script ih =>
    have htail : ∀ ev ∈ script, ev ≠ .err := fun e he => hscript e (List.mem_cons_of_mem _ he)
    cases queue with
    | nil => exact ⟨[], ⟨log, ev :: script⟩, rfl, h, hscript, List.prefix_rfl, Nat.le_refl _⟩
    | cons out queue =>
      cases ev with
      | err => exact absurd rfl (hscript .err List.mem_cons_self)
      | wouldBlock =>
        exact ⟨out :: queue, ⟨log, script⟩, rfl, h, htail, List.prefix_rfl, Nat.le_refl _⟩
      | accept n =>
        have hoff := populate_offered (by omega : 0 < 32) (h.opened out List.mem_cons_self)
          h.fdsLast
        rcases hpop : populate 32 (out :: queue) [] [] with ⟨ios, anc⟩
        rw [hpop] at hoff
        dsimp only at hoff
        obtain ⟨k, hk, hk0, hle⟩ := hoff.exists_accepted n
        obtain ⟨queue', stream', heq, hled, herr, hpre, hlen⟩ :=
          ih (h.credit hoff hk0 hle) htail
        have hlen' := length_updateWritten_le (hle.trans hoff.bytes.length_le)
        exact ⟨queue', stream', (finishLoop_accept hpop hk script log).trans heq, hled, herr,
          (List.prefix_append _ _).trans hpre, hlen.trans hlen'⟩

/-- **The loop of `write_next_message` keeps the ledger** of the queue with the new message behind
it.  The message is written in full only when the queue is empty.

**Proof sketch.** Induction on the answers of the stream.  Crediting the queue and then the
message is crediting the longer queue (`updateWritten_concat`). -/
theorem writeLoop {out : RawOut} (h : Ledger messages log (queue ++ [out]))
    (script : List SendEvent) (hscript : ∀ ev ∈ script, ev ≠ .err) :
    ∃ queue' stream', Ledger messages stream'.log queue' ∧
      (∀ ev ∈ stream'.script, ev ≠ .err) ∧ log <+: stream'.log ∧
      ((SendState.writeLoop script queue out log = (.written, [], stream') ∧ queue' = []) ∨
        ∃ q out', queue' = q ++ [out'] ∧ q.length ≤ queue.length ∧
          SendState.writeLoop script queue out log = (.blocked out', q, stream')) := by
  induction script generalizing queue out log with
  | nil =>
    exact ⟨_, ⟨log, []⟩, h, hscript, List.prefix_rfl, .inr ⟨queue, out, rfl, Nat.le_refl _, rfl⟩⟩
  | cons ev script ih =>
    have htail : ∀ ev ∈ script, ev ≠ .err := fun e he => hscript e (List.mem_cons_of_mem _ he)
    cases ev with
    | err => exact absurd rfl (hscript .err List.mem_cons_self)
    | wouldBlock =>
      exact ⟨_, ⟨log, script⟩, h, htail, List.prefix_rfl,
        .inr ⟨queue, out, rfl, Nat.le_refl _, rfl⟩⟩
    | accept n =>
      have hqueue : ∀ o ∈ queue, o.Open := fun o ho => h.opened o (List.mem_append_left _ ho)
      have hout : out.Open := h.opened out (by simp)
      have hoff := writeBufs_offered hqueue hout h.fdsLast
      rcases hbufs : writeBufs queue out with ⟨ios, anc⟩
      rw [hbufs] at hoff
      dsimp only at hoff
      obtain ⟨k, hk, hk0, hle⟩ := hoff.exists_accepted n
      have hcredit := h.credit hoff hk0 hle
      have hpend : k ≤ (pending queue).length + out.toWrite := by
        have hall := hle.trans hoff.bytes.length_le
        rw [pending_append, List.length_append, length_pending_cons] at hall
        simpa [pending] using hall
      obtain ⟨hleft, hrest, hopen, -⟩ := updateWritten_spec queue k hqueue
      rw [updateWritten_concat queue out hout] at hcredit
      have hshort : k ≤ (pending queue).length → (updateWritten queue k).2.length ≤ queue.length :=
        length_updateWritten_le
      rcases hupd : updateWritten queue k with ⟨left, queue₁⟩
      rw [hupd] at hcredit hleft hrest hopen hshort
      dsimp only at hcredit hleft hrest hopen hshort
      rw [writeLoop_accept hbufs hk hupd, accept]
      by_cases hzero : left = 0
      · rw [if_pos hzero] at hcredit ⊢
        obtain ⟨queue', stream', hled, herr, hpre, hend⟩ := ih hcredit htail
        have hlen := hshort (by omega)
        refine ⟨queue', stream', hled, herr, (List.prefix_append _ _).trans hpre, hend.imp id ?_⟩
        rintro ⟨q, out', rfl, hq, heq⟩
        exact ⟨q, out', rfl, hq.trans hlen, heq⟩
      · -- the queue is sent in full and the rest goes to the message
        have hnil : queue₁ = [] := by
          rw [List.drop_eq_nil_of_le (by omega)] at hrest
          cases queue₁ with
          | nil => rfl
          | cons o q =>
            have hlen := congrArg List.length hrest
            rw [length_pending_cons, List.length_nil] at hlen
            have := (hopen o List.mem_cons_self).toWrite_pos
            omega
        have hout' := hout.left
        have hwrite : out.toWrite = out.header.length + out.body.length - out.written := rfl
        have hlast : (updateWritten [out] left).2 =
            if out.written + left = out.header.length + out.body.length then []
            else [{ out with written := out.written + left }] := by
          have hdone : ({ out with written := out.written + left } : RawOut).done = true ↔
              out.written + left = out.header.length + out.body.length := by
            rw [RawOut.done_iff, out.toWrite_written]
            omega
          simp only [updateWritten, out.advance_eq left, show left - out.toWrite = 0 by omega,
            show min left out.toWrite = left by omega, hdone]
        rw [if_neg hzero, hlast] at hcredit
        rw [if_neg hzero, hnil]
        by_cases hdone : out.written + left = out.header.length + out.body.length
        · rw [if_pos hdone] at hcredit ⊢
          exact ⟨[], _, hcredit, htail, List.prefix_append _ _, .inl ⟨rfl, rfl⟩⟩
        · rw [if_neg hdone] at hcredit ⊢
          have hone : Ledger messages (log ++ [(ios.flatten.take k, anc)])
              ([] ++ [{ out with written := out.written + left }]) := hcredit
          obtain ⟨queue', stream', hled, herr, hpre, hend⟩ := ih hone htail
          refine ⟨queue', stream', hled, herr, (List.prefix_append _ _).trans hpre,
            hend.imp id ?_⟩
          rintro ⟨q, out', rfl, hq, heq⟩
          exact ⟨q, out', rfl, hq.trans (Nat.zero_le _), heq⟩

end Ledger

/-! ## Runs -/

/-- A run of the sender: its state, the stream, and the messages whose writes succeeded, in order,
with their descriptors and with the results of these writes. -/
structure Tracked where
  state : SendState
  stream : OutStream
  messages : List (Bytes × List ℕ)
  results : List (Option ℕ)

/-- A message as it should go through the stream: its bytes and its duplicated descriptors. -/
def packet (R : Rustbus) (msg : MarshalledMessage) (serial : NonZeroU32) : Bytes × List ℕ :=
  (messageBytes R msg serial, (dupFds msg.body.rawFds).getD [])

namespace Tracked

/-- The start of a run. -/
def new (withFd : Bool) (script : List SendEvent) : Tracked := ⟨.new withFd, ⟨[], script⟩, [], []⟩

/-- `write_next_message`. -/
def write (R : Rustbus) (c : Tracked) (msg : MarshalledMessage) (serial : NonZeroU32) :
    Except SendError (Option ℕ) × Tracked :=
  match c.state.writeNextMessage R c.stream msg serial with
  | (.ok result, state, stream) =>
    (.ok result, ⟨state, stream, c.messages ++ [packet R msg serial], c.results ++ [result]⟩)
  | (.error e, state, stream) => (.error e, ⟨state, stream, c.messages, c.results⟩)

/-- `finish_sending_next`. -/
def finish (c : Tracked) : Except SendError ℕ × Tracked :=
  match c.state.finishSendingNext c.stream with
  | (result, state, stream) => (result, ⟨state, stream, c.messages, c.results⟩)

/-- One call. -/
def step (R : Rustbus) (c : Tracked) : SendOp → Tracked
  | .write msg serial => (c.write R msg serial).2
  | .finish => c.finish.2

/-- A sequence of calls. -/
def run (R : Rustbus) (c : Tracked) (ops : List SendOp) : Tracked := ops.foldl (step R) c

/-- A message without descriptors is written only while no queued message has descriptors to
send. -/
def FdSafe (s : SendState) : SendOp → Prop
  | .write msg _ => msg.body.rawFds = [] → ∀ out ∈ s.queue, out.fdsToSend = false
  | .finish => True

/-- The ledger of a run is kept, the stream reports no error, and a connection without
descriptors has sent none. -/
structure Balanced (c : Tracked) : Prop where
  ledger : Ledger c.messages c.stream.log c.state.queue
  script : ∀ ev ∈ c.stream.script, ev ≠ .err
  fds : c.state.withFd = false → ∀ m ∈ c.messages, m.2 = []

variable {R : Rustbus} {c : Tracked}

/-- A run starts balanced. -/
lemma balanced_new (withFd : Bool) {script : List SendEvent}
    (hscript : ∀ ev ∈ script, ev ≠ .err) : (new withFd script).Balanced :=
  ⟨Ledger.nil, hscript, fun _ => by simp [new]⟩

/-- A message that passes the checks of `write_next_message`. -/
private lemma prepare_message {s : SendState} {msg : MarshalledMessage} {serial : NonZeroU32}
    {out : RawOut} (h : prepare R s msg serial = .ok out) :
    out.written = 0 ∧ out.message = packet R msg serial := by
  unfold prepare at h
  cases hheader : msg.marshalHeader R serial with
  | error e => simp [hheader] at h
  | ok header =>
    simp only [hheader] at h
    split_ifs at h
    cases hdup : dupFds msg.body.rawFds with
    | none => simp [hdup] at h
    | some fds =>
      simp only [hdup, Except.ok.injEq] at h
      subst h
      exact ⟨rfl, by simp [RawOut.message, RawOut.wire, packet, messageBytes, hheader, hdup]⟩

/-- The queue of a connection without descriptors. -/
private lemma Balanced.no_fds (h : c.Balanced) (hfd : c.state.withFd = false) :
    ∀ out ∈ c.state.queue, out.fdsToSend = false := by
  intro out hout
  obtain ⟨done, hmsgs, -⟩ := h.ledger.split
  have hmem : out.message ∈ c.messages := by
    rw [hmsgs]
    exact List.mem_append_right _ (List.mem_map_of_mem hout)
  have hnil : out.fds = [] := h.fds hfd _ hmem
  simp [RawOut.fdsToSend, hnil]

/-- **What `finish_sending_next` can do**: it shortens the queue and returns the new current
index. -/
theorem finish_cases (h : c.Balanced) :
    ∃ queue stream, c.finish =
        (.ok ({ c.state with queue := queue } : SendState).currentIdx,
          ⟨{ c.state with queue := queue }, stream, c.messages, c.results⟩) ∧
      c.finish.2.Balanced ∧ c.stream.log <+: stream.log ∧
      queue.length ≤ c.state.queue.length := by
  obtain ⟨queue, stream, heq, hled, herr, hpre, hlen⟩ := h.ledger.finishLoop _ h.script
  have hfinish : c.finish = (.ok ({ c.state with queue := queue } : SendState).currentIdx,
      ⟨{ c.state with queue := queue }, stream, c.messages, c.results⟩) := by
    simp only [finish, finishSendingNext, heq]
  refine ⟨queue, stream, hfinish, ?_, hpre, hlen⟩
  rw [hfinish]
  exact ⟨hled, herr, h.fds⟩

/-- **What `write_next_message` can do**: it refuses the message and changes nothing, or writes it
in full and leaves an empty queue, or leaves it at the end of the queue and returns a token.

**Proof sketch.** A message that `prepare` refuses changes nothing. A prepared one is put behind the
queue (`push`), for which the condition on descriptors is `hsafe`, and the loop runs on the longer
queue (`writeLoop`). It ends with an empty queue, or with the message at the end of what is left. -/
theorem write_cases (h : c.Balanced) (msg : MarshalledMessage) (serial : NonZeroU32)
    (hsafe : c.state.withFd = false ∨ FdSafe c.state (.write msg serial)) :
    (c.write R msg serial).2.Balanced ∧
      c.stream.log <+: (c.write R msg serial).2.stream.log ∧
      ((∃ e, c.write R msg serial = (.error e, c)) ∨
      (∃ stream, c.write R msg serial = (.ok none, ⟨{ c.state with queue := [] }, stream,
        c.messages ++ [packet R msg serial], c.results ++ [none]⟩)) ∨
      ∃ queue stream, 0 < queue.length ∧ queue.length ≤ c.state.queue.length + 1 ∧
        c.write R msg serial = (.ok (some c.state.idx),
          ⟨{ c.state with queue := queue, idx := c.state.idx + 1 }, stream,
            c.messages ++ [packet R msg serial], c.results ++ [some c.state.idx]⟩)) := by
  cases hprep : prepare R c.state msg serial with
  | error e =>
    have heq : c.write R msg serial = (.error e, c) := by
      simp only [write, writeNextMessage, hprep]
    rw [heq]
    exact ⟨h, List.prefix_rfl, .inl ⟨e, rfl⟩⟩
  | ok out =>
    obtain ⟨hopen, -, hnofds, hoff⟩ := Sending.prepare_spec hprep
    obtain ⟨hwritten, hmessage⟩ := prepare_message hprep
    have hplain : out.fds = [] → ∀ o ∈ c.state.queue, o.fdsToSend = false := by
      intro hnil
      rcases hsafe with hfd | hsafe
      · exact h.no_fds hfd
      · exact hsafe (hnofds hnil)
    have hfds : c.state.withFd = false → ∀ m ∈ c.messages ++ [packet R msg serial], m.2 = [] := by
      intro hfd m hm
      rcases List.mem_append.mp hm with hm | hm
      · exact h.fds hfd m hm
      · rw [List.mem_singleton.mp hm, ← hmessage]
        exact hoff hfd
    have hpush := h.ledger.push hopen hwritten hplain
    rw [hmessage] at hpush
    obtain ⟨queue', stream, hled, herr, hpre, hend⟩ := hpush.writeLoop _ h.script
    rcases hend with ⟨heq, rfl⟩ | ⟨q, out', rfl, hlen, heq⟩
    · have hwrite : c.write R msg serial = (.ok none, ⟨{ c.state with queue := [] }, stream,
          c.messages ++ [packet R msg serial], c.results ++ [none]⟩) := by
        simp only [write, writeNextMessage, hprep, heq]
      rw [hwrite]
      exact ⟨⟨hled, herr, hfds⟩, hpre, .inr (.inl ⟨stream, rfl⟩)⟩
    · have hwrite : c.write R msg serial = (.ok (some c.state.idx),
          ⟨{ c.state with queue := q ++ [out'], idx := c.state.idx + 1 }, stream,
            c.messages ++ [packet R msg serial], c.results ++ [some c.state.idx]⟩) := by
        simp only [write, writeNextMessage, hprep, heq]
      rw [hwrite]
      exact ⟨⟨hled, herr, hfds⟩, hpre, .inr (.inr ⟨q ++ [out'], stream, by simp,
        by simpa using hlen, rfl⟩)⟩

/-- One call keeps the balance. -/
lemma balanced_step (h : c.Balanced) (op : SendOp)
    (hsafe : c.state.withFd = false ∨ FdSafe c.state op) : (step R c op).Balanced := by
  cases op with
  | write msg serial => exact (write_cases h msg serial hsafe).1
  | finish =>
    obtain ⟨queue, stream, -, hbal, -⟩ := finish_cases h
    exact hbal

end Tracked

end AsyncRustbus
