import AsyncRustbus.Conn.SendRun

set_option relaxedAutoImplicit false
set_option autoImplicit false

/-!
# What a write offers and what it changes

Both loops of the sender repeat one step: the first bytes of a queue are offered to the stream,
with or without descriptors, and what it accepts is credited to the queue by position.  This file
says what may be offered and what crediting does, once for both loops.

## Main definitions

* `AsyncRustbus.carrying`, `AsyncRustbus.waiting` — the writes or messages with descriptors, with
  their positions in the stream, and those of a queue that are still to be sent.
* `AsyncRustbus.Offered` — what the sender may offer of a queue.

## Main results

* `AsyncRustbus.updateWritten_cases` — what crediting a write does to a queue.
* `AsyncRustbus.populate_offered`, `AsyncRustbus.writeBufs_offered` — what the two loops offer.
-/

namespace AsyncRustbus

open SendState

namespace RawOut

/-- The bytes of a message, whether sent or not. -/
def wire (out : RawOut) : Bytes := out.header ++ out.body

/-- A message as it goes through the stream: its bytes and its descriptors. -/
def message (out : RawOut) : Bytes × List ℕ := (out.wire, out.fds)

/-- A message that is not sent in full has bytes left. -/
lemma Open.toWrite_pos {out : RawOut} (h : out.Open) : 0 < out.toWrite := by
  have := h.left
  unfold toWrite
  omega

/-- What is sent of a message and what is not are its bytes. -/
lemma take_written_append_unsent (out : RawOut) :
    out.wire.take out.written ++ out.unsent = out.wire :=
  List.take_append_drop _ _

/-- The buffers left of a message have the length of what is unsent. -/
lemma length_outBufsLeft (out : RawOut) :
    (out.outBufsLeft.1 ++ out.outBufsLeft.2.getD []).length = out.toWrite := by
  rw [← out.length_unsent]
  exact congrArg List.length (bufsLeft_flatten _ _ _)

end RawOut

/-- The length of what is pending, message by message. -/
lemma length_pending_cons (out : RawOut) (queue : List RawOut) :
    (pending (out :: queue)).length = out.toWrite + (pending queue).length := by
  simp [pending, out.length_unsent]

/-- What is pending in two queues. -/
lemma pending_append (q₁ q₂ : List RawOut) : pending (q₁ ++ q₂) = pending q₁ ++ pending q₂ :=
  List.flatMap_append

/-! ## Crediting a write -/

/-- **What crediting does to a queue.**  The messages at its front that are sent in full are
removed; the next one is left as it is or credited in part.

**Proof sketch.** Induction on the queue: a count that exceeds the first message removes it and
goes on. -/
theorem updateWritten_cases (queue : List RawOut) (k : ℕ)
    (hk : k ≤ (pending queue).length) :
    ∃ pre rest, queue = pre ++ rest ∧
      ((k = (pending pre).length ∧ (updateWritten queue k).2 = rest) ∨
        ∃ out tail n, rest = out :: tail ∧ 0 < n ∧ n < out.toWrite ∧
          k = (pending pre).length + n ∧
          (updateWritten queue k).2 = { out with written := out.written + n } :: tail) := by
  induction queue generalizing k with
  | nil =>
    refine ⟨[], [], rfl, .inl ⟨?_, rfl⟩⟩
    simpa [pending] using hk
  | cons out queue ih =>
    have hdone : ∀ n, ({ out with written := out.written + n } : RawOut).done = true ↔
        out.toWrite ≤ n := by
      intro n
      rw [RawOut.done_iff, out.toWrite_written]
      omega
    rw [length_pending_cons] at hk
    simp only [updateWritten, out.advance_eq k]
    rcases Nat.lt_trichotomy k out.toWrite with hlt | heq | hgt
    · -- the write ends inside this message
      have hdone' := (hdone k).not.mpr (by omega)
      rw [show k - out.toWrite = 0 by omega, Nat.min_eq_left (by omega)]
      dsimp only
      rw [if_neg hdone']
      rcases Nat.eq_zero_or_pos k with rfl | hk0
      · exact ⟨[], out :: queue, rfl, .inl ⟨rfl, rfl⟩⟩
      · exact ⟨[], out :: queue, rfl, .inr ⟨out, queue, k, rfl, hk0, hlt, by simp [pending], rfl⟩⟩
    · have hdone' := (hdone k).mpr (by omega)
      rw [show k - out.toWrite = 0 by omega, Nat.min_eq_left (by omega)]
      dsimp only
      rw [if_pos hdone']
      refine ⟨[out], queue, rfl, .inl ⟨?_, rfl⟩⟩
      rw [length_pending_cons]
      simpa [pending] using heq
    · obtain ⟨left, hleft⟩ : ∃ left, k - out.toWrite = left + 1 :=
        ⟨k - out.toWrite - 1, by omega⟩
      rw [hleft]
      dsimp only
      obtain ⟨pre, rest, hsplit, hcase⟩ := ih (left + 1) (by omega)
      refine ⟨out :: pre, rest, by rw [hsplit]; rfl, ?_⟩
      rw [length_pending_cons]
      rcases hcase with ⟨hlen, heq⟩ | ⟨o, tail, n, hrest, hn, hlt, hlen, heq⟩
      · exact .inl ⟨by omega, heq⟩
      · exact .inr ⟨o, tail, n, hrest, hn, hlt, by omega, heq⟩

/-- Crediting a queue with one more message at its end. -/
lemma updateWritten_concat (queue : List RawOut) (out : RawOut) (hout : out.Open) (k : ℕ) :
    updateWritten (queue ++ [out]) k =
      if (updateWritten queue k).1 = 0 then (0, (updateWritten queue k).2 ++ [out])
      else updateWritten [out] (updateWritten queue k).1 := by
  induction queue generalizing k with
  | nil =>
    cases k with
    | zero =>
      have hdone : ¬ out.done = true := by
        rw [RawOut.done_iff]
        exact Nat.pos_iff_ne_zero.mp hout.toWrite_pos
      simp [updateWritten, out.advance_eq, hdone]
    | succ k => simp [updateWritten]
  | cons o queue ih =>
    simp only [List.cons_append, updateWritten, o.advance_eq k]
    cases hleft : k - o.toWrite with
    | zero =>
      simp only [if_true]
      split_ifs <;> rfl
    | succ left => exact ih (left + 1)

/-! ## Descriptors and their positions -/

/-- The writes, or messages, that carry descriptors: each with its position in the stream, which
starts at `off`. -/
def carrying : ℕ → List (Bytes × List ℕ) → List (ℕ × Bytes × List ℕ)
  | _, [] => []
  | off, m :: l =>
    (if m.2 = [] then [] else [(off, m.1, m.2)]) ++ carrying (off + m.1.length) l

/-- The messages of a queue whose descriptors are still to be sent, with their positions where
the queue continues the stream at `off`. -/
def waiting : ℕ → List RawOut → List (ℕ × Bytes × List ℕ)
  | _, [] => []
  | off, out :: queue =>
    (if out.fdsToSend then [(off, out.wire, out.fds)] else []) ++ waiting (off + out.toWrite) queue

/-- A write carries the descriptors of a message: it starts at the first byte of the message, has
all its descriptors, and has bytes of the message only. -/
structure Carries (write message : ℕ × Bytes × List ℕ) : Prop where
  start : write.1 = message.1
  first : write.2.1 ≠ []
  bytes : write.2.1 <+: message.2.1
  fds : write.2.2 = message.2.2

/-- The positions go on behind a list. -/
lemma carrying_append (off : ℕ) (l₁ l₂ : List (Bytes × List ℕ)) :
    carrying off (l₁ ++ l₂) =
      carrying off l₁ ++ carrying (off + (l₁.flatMap Prod.fst).length) l₂ := by
  induction l₁ generalizing off with
  | nil => simp [carrying]
  | cons m l₁ ih =>
    simp only [List.cons_append, carrying, ih, List.flatMap_cons, List.length_append,
      List.append_assoc, Nat.add_assoc]

/-- The positions go on behind a queue. -/
lemma waiting_append (off : ℕ) (q₁ q₂ : List RawOut) :
    waiting off (q₁ ++ q₂) = waiting off q₁ ++ waiting (off + (pending q₁).length) q₂ := by
  induction q₁ generalizing off with
  | nil => simp [waiting, pending]
  | cons out q₁ ih =>
    simp only [List.cons_append, waiting, ih, length_pending_cons, List.append_assoc,
      Nat.add_assoc]

/-- A queue without descriptors to send. -/
lemma waiting_eq_nil {queue : List RawOut} (h : ∀ out ∈ queue, out.fdsToSend = false) (off : ℕ) :
    waiting off queue = [] := by
  induction queue generalizing off with
  | nil => rfl
  | cons out queue ih =>
    simp [waiting, h out List.mem_cons_self, ih fun o ho => h o (List.mem_cons_of_mem _ ho)]

/-- Positions are not before the start. -/
lemma le_of_mem_waiting {queue : List RawOut} {off : ℕ} {e : ℕ × Bytes × List ℕ}
    (he : e ∈ waiting off queue) : off ≤ e.1 := by
  induction queue generalizing off with
  | nil => cases he
  | cons out queue ih =>
    rcases List.mem_append.mp he with he | he
    · split_ifs at he
      · rw [List.mem_singleton.mp he]
      · cases he
    · have := ih he
      omega

/-! ## What is offered -/

/-- What the sender may offer of a queue: some of its first bytes.  They stop in front of every
message with descriptors to send, unless that message is the first one: then they are bytes of
that message only, and its descriptors go with them. -/
structure Offered (queue : List RawOut) (flat : Bytes) (anc : List ℕ) : Prop where
  pos : flat ≠ []
  bytes : flat <+: pending queue
  fds : (anc = [] ∧ ∀ pre out rest, queue = pre ++ out :: rest → out.fdsToSend = true →
      flat.length ≤ (pending pre).length) ∨
    ∃ out rest, queue = out :: rest ∧ out.fdsToSend = true ∧ anc = out.fds ∧ flat <+: out.unsent

/-- The stream accepts at least one byte of what is offered, and no more than that. -/
lemma Offered.exists_accepted {queue : List RawOut} {flat : Bytes} {anc : List ℕ}
    (h : Offered queue flat anc) (n : ℕ) :
    ∃ k, k = min (n + 1) flat.length ∧ 0 < k ∧ k ≤ flat.length := by
  have := List.length_pos_of_ne_nil h.pos
  exact ⟨_, rfl, by omega, Nat.min_le_right _ _⟩

/-- Behind a message with descriptors to send there are only such messages. -/
def FdsLast (queue : List RawOut) : Prop :=
  queue.Pairwise fun out out' => out.fdsToSend = true → out'.fdsToSend = true

/-- The bytes that `populate` adds stop in front of every message with descriptors to send, once
there are any; and then it adds no descriptors.

**Proof sketch.** By induction on the queue. Behind the first slices, a full buffer or a message
with descriptors to send ends the loop. A message in front of that place has none, and its slices
are no longer than what is left of it (`pushBufs_spec`). -/
lemma populate_stops (cap : ℕ) (queue : List RawOut) {ios : List Bytes} (hne : ios ≠ [])
    (hlen : ios.length ≤ cap) (anc : List ℕ) :
    (populate cap queue ios anc).2 = anc ∧
      ∀ pre out rest, queue = pre ++ out :: rest → out.fdsToSend = true →
        (populate cap queue ios anc).1.flatten.length ≤
          ios.flatten.length + (pending pre).length := by
  induction queue generalizing ios with
  | nil =>
    refine ⟨rfl, fun pre out rest hsplit => ?_⟩
    simp at hsplit
  | cons o queue ih =>
    have hempty : ios.isEmpty = false := by simpa [List.isEmpty_iff] using hne
    by_cases hstop : ios.length = cap ∨ o.fdsToSend = true
    · have heq : populate cap (o :: queue) ios anc = (ios, anc) := by
        rcases hstop with hfull | hfds
        · simp [populate, hfull]
        · simp [populate, hfds, hempty]
      rw [heq]
      exact ⟨rfl, fun pre out rest _ _ => Nat.le_add_right _ _⟩
    · rw [not_or, Bool.not_eq_true] at hstop
      have heq : populate cap (o :: queue) ios anc =
          populate cap queue (pushBufs cap o.outBufsLeft ios) anc := by
        simp [populate, hstop.1, hstop.2]
      obtain ⟨hle, hne', t, hflat, -⟩ := pushBufs_spec ios (Nat.lt_of_le_of_ne hlen hstop.1)
        o.outBufsLeft
      obtain ⟨hanc, hbound⟩ := ih hne' hle
      rw [heq]
      refine ⟨hanc, fun pre out rest hsplit hfds => ?_⟩
      cases pre with
      | nil =>
        rw [List.nil_append, List.cons.injEq] at hsplit
        rw [hsplit.1, hfds] at hstop
        cases hstop.2
      | cons o' pre =>
        rw [List.cons_append, List.cons.injEq] at hsplit
        have hrest := hbound pre out rest hsplit.2 hfds
        have hpushed := congrArg List.length hflat
        rw [List.length_append, List.length_append, o.length_outBufsLeft] at hpushed
        rw [← hsplit.1, length_pending_cons]
        omega

/-- The first buffer of a message that is not sent in full is not empty. -/
lemma outBufsLeft_ne_nil {out : RawOut}
    (hleft : out.written < out.header.length + out.body.length) : out.outBufsLeft.1 ≠ [] := by
  have hlen : 0 < out.outBufsLeft.1.length := by
    unfold RawOut.outBufsLeft bufsLeft
    split_ifs
    · simp only [List.length_drop]
      omega
    · simp only [List.length_drop]
      omega
    · simp only [List.length_drop]
      omega
  exact List.ne_nil_of_length_pos hlen

/-- The buffers of a message go behind what is there, the first one always. -/
lemma exists_pushBufs (cap : ℕ) (bufs : Bytes × Option Bytes) (ios : List Bytes) :
    ∃ t, pushBufs cap bufs ios = ios ++ bufs.1 :: t := by
  unfold pushBufs
  cases bufs.2 with
  | none => exact ⟨[], rfl⟩
  | some buf =>
    dsimp only
    split_ifs
    · exact ⟨[], rfl⟩
    · exact ⟨[buf], by rw [List.append_assoc]; rfl⟩

/-- What is pushed goes behind what is there. -/
lemma prefix_pushBufs (cap : ℕ) (bufs : Bytes × Option Bytes) (ios : List Bytes) :
    ios <+: pushBufs cap bufs ios := by
  obtain ⟨t, ht⟩ := exists_pushBufs cap bufs ios
  rw [ht]
  exact List.prefix_append _ _

/-- What is there stays at the front of a write. -/
lemma prefix_populate (cap : ℕ) (queue : List RawOut) (ios : List Bytes) (anc : List ℕ) :
    ios <+: (populate cap queue ios anc).1 := by
  induction queue generalizing ios anc with
  | nil => exact List.prefix_rfl
  | cons out queue ih =>
    have hpush := prefix_pushBufs cap out.outBufsLeft ios
    unfold populate
    split_ifs
    · exact List.prefix_rfl
    · exact hpush.trans (ih _ _)
    · exact List.prefix_rfl
    · exact hpush.trans (ih _ _)

/-- **What `populate` offers** of a queue that is not empty.

**Proof sketch.** The front of the queue is always pushed, and its first slice is not empty. If it
has descriptors to send, every message behind it has some, so the loop stops there
(`populate_stops`) and the bytes are a first part of the front. If it has none, the bytes stop in
front of the first message that has some. -/
theorem populate_offered {cap : ℕ} (hcap : 0 < cap) {out : RawOut} {queue : List RawOut}
    (hout : out.Open) (hlast : FdsLast (out :: queue)) :
    Offered (out :: queue) (populate cap (out :: queue) [] []).1.flatten
      (populate cap (out :: queue) [] []).2 := by
  obtain ⟨hle, hne, t, hflat, -⟩ := pushBufs_spec [] hcap out.outBufsLeft
  have hfirst : populate cap (out :: queue) [] [] =
      populate cap queue (pushBufs cap out.outBufsLeft [])
        (if out.fdsToSend then out.fds else []) := by
    have hcap' : ¬ 0 = cap := by omega
    by_cases hfds : out.fdsToSend = true <;> simp [populate, hfds, hcap']
  obtain ⟨-, -, t', hbytes, -⟩ := populate_spec cap (out :: queue) [] [] (Nat.zero_le _)
  obtain ⟨hanc, hstop⟩ := populate_stops cap queue hne hle (if out.fdsToSend then out.fds else [])
  have hbuf : (pushBufs cap out.outBufsLeft []).flatten.length ≤ out.toWrite := by
    have hpushed := congrArg List.length hflat
    rw [List.flatten_nil, List.nil_append, out.length_outBufsLeft, List.length_append] at hpushed
    omega
  have hprefix : (populate cap (out :: queue) [] []).1.flatten <+: pending (out :: queue) :=
    ⟨t', by simpa using hbytes⟩
  refine ⟨?_, hprefix, ?_⟩
  · -- the first buffer is not empty
    obtain ⟨l, hl⟩ := prefix_populate cap queue (pushBufs cap out.outBufsLeft [])
      (if out.fdsToSend then out.fds else [])
    have hbuf0 := outBufsLeft_ne_nil hout.left
    obtain ⟨l', hl'⟩ := exists_pushBufs cap out.outBufsLeft []
    rw [hfirst, ← hl, hl']
    simp [hbuf0]
  · rw [hfirst, hanc]
    rw [hfirst] at hprefix
    by_cases hfds : out.fdsToSend = true
    · right
      refine ⟨out, queue, rfl, hfds, if_pos hfds, ?_⟩
      refine List.prefix_of_prefix_length_le hprefix (List.prefix_append _ (pending queue)) ?_
      rw [out.length_unsent]
      cases queue with
      | nil => exact hbuf
      | cons o queue =>
        have ho : o.fdsToSend = true := (List.pairwise_cons.mp hlast).1 o List.mem_cons_self hfds
        have hbound := hstop [] o queue rfl ho
        rw [show (pending []).length = 0 from rfl] at hbound
        omega
    · left
      refine ⟨if_neg hfds, fun pre o rest hsplit ho => ?_⟩
      cases pre with
      | nil =>
        rw [List.nil_append, List.cons.injEq] at hsplit
        rw [hsplit.1] at hfds
        exact absurd ho hfds
      | cons o' pre =>
        rw [List.cons_append, List.cons.injEq] at hsplit
        have hbound := hstop pre o rest hsplit.2 ho
        rw [← hsplit.1, length_pending_cons]
        omega

/-- What is offered of a queue is offered of a longer one. -/
lemma Offered.concat {queue : List RawOut} {flat : Bytes} {anc : List ℕ}
    (h : Offered queue flat anc) (out : RawOut) : Offered (queue ++ [out]) flat anc := by
  refine ⟨h.pos, ?_, ?_⟩
  · rw [pending_append]
    exact h.bytes.trans (List.prefix_append _ _)
  · rcases h.fds with ⟨hanc, hstop⟩ | ⟨front, rest, rfl, hfds, hanc, hflat⟩
    · refine .inl ⟨hanc, fun pre o rest hsplit ho => ?_⟩
      rcases List.eq_nil_or_concat rest with rfl | ⟨rest', last, rfl⟩
      · obtain ⟨rfl, -⟩ := List.append_inj' hsplit rfl
        exact h.bytes.length_le
      · rw [List.concat_eq_append, ← List.cons_append, ← List.append_assoc] at hsplit
        obtain ⟨rfl, -⟩ := List.append_inj' hsplit rfl
        exact hstop pre o rest' rfl ho
    · exact .inr ⟨front, rest ++ [out], rfl, hfds, hanc, hflat⟩

/-- **What `write_next_message` offers** of the queue and the new message behind it.

**Proof sketch.** Where the queue is empty this is what `populate` offers of the message alone.
Otherwise the message is offered only if it has no descriptors, and then no message before it has
descriptors to send. -/
theorem writeBufs_offered {queue : List RawOut} {out : RawOut} (hqueue : ∀ o ∈ queue, o.Open)
    (hout : out.Open) (hlast : FdsLast (queue ++ [out])) :
    Offered (queue ++ [out]) (writeBufs queue out).1.flatten (writeBufs queue out).2 := by
  cases queue with
  | nil =>
    have heq : writeBufs [] out = populate 34 [out] [] [] := by
      by_cases hfds : out.fdsToSend = true <;>
        simp [writeBufs, populate, hfds, RawOut.outBufsLeft]
    rw [heq]
    exact populate_offered (by omega) hout hlast
  | cons o queue =>
    have hpop := populate_offered (by omega : 0 < 34) (hqueue o List.mem_cons_self)
      (hlast.sublist (List.sublist_append_left _ _))
    have hne := populate_ne_nil (by omega : 0 < 34) o queue
    by_cases hfull : (populate 34 (o :: queue) [] []).1.length ≠ 34 ∧ out.fds = []
    · obtain ⟨hroom, hnil⟩ := hfull
      have hnone : out.fdsToSend = false := by simp [RawOut.fdsToSend, hnil]
      have hall : ∀ o' ∈ (o :: queue) ++ [out], o'.fdsToSend = false := by
        intro o' ho'
        rcases List.mem_append.mp ho' with ho' | ho'
        · by_contra hfds
          have := (List.pairwise_append.mp hlast).2.2 o' ho' out List.mem_cons_self
            (by simpa using hfds)
          rw [hnone] at this
          cases this
        · rw [List.mem_singleton.mp ho', hnone]
      have heq : writeBufs (o :: queue) out =
          (pushBufs 34 (bufsLeft out.written out.header out.body)
            (populate 34 (o :: queue) [] []).1, (populate 34 (o :: queue) [] []).2) := by
        simp [writeBufs, hroom, hnil, hnone]
      have hcareful : out.fds = [] → NoFdsBehind (o :: queue) :=
        fun _ x hx => hall x (List.mem_append_left _ (List.mem_of_mem_tail hx))
      obtain ⟨t, ht⟩ := writeBufs_prefix hcareful
      refine ⟨?_, ⟨t, ?_⟩, .inl ⟨?_, fun pre x rest hsplit hx => ?_⟩⟩
      · obtain ⟨l, hl⟩ := prefix_pushBufs 34 (bufsLeft out.written out.header out.body)
          (populate 34 (o :: queue) [] []).1
        rw [heq, ← hl]
        simp [hpop.pos]
      · rw [ht, pending_append]
        simp [pending]
      · rw [heq]
        rcases hpop.fds with ⟨hanc, -⟩ | ⟨front, rest, hsplit, hfront, -⟩
        · exact hanc
        · rw [List.cons.injEq] at hsplit
          rw [← hsplit.1, hall o (by simp)] at hfront
          cases hfront
      · rw [hall x (by rw [hsplit]; simp)] at hx
        cases hx
    · have heq : writeBufs (o :: queue) out = populate 34 (o :: queue) [] [] := by
        rw [not_and_or, not_not] at hfull
        rcases hfull with hfull | hfds
        · simp [writeBufs, hfull]
        · simp [writeBufs, hfds, hne]
      rw [heq]
      exact hpop.concat out

end AsyncRustbus
