import AsyncRustbus.Conn.Offered

set_option relaxedAutoImplicit false
set_option autoImplicit false

/-!
# Filling and crediting agree

`populate` walks over the queue buffer by buffer, `update_written` message by message, and both
keep their place through one offset over header and body.  Here they are compared on any queue of
messages that are not finished, with headers and bodies of any length and a vector of any
capacity.

## Main definitions

* `AsyncRustbus.Fills` — buffers that `populate` may offer of a queue.
* `AsyncRustbus.Credits` — what crediting a number of bytes leaves.

## Main results

* `AsyncRustbus.populate_forall` — what holds of all buffers of a queue holds of those offered.
* `AsyncRustbus.populate_fills`, `AsyncRustbus.updateWritten_credits` — the two functions.
-/

namespace AsyncRustbus

/-- The buffers are filled from the queue: they are the first pending bytes, cut between buffers
none of which is empty; and nothing is left out unless the vector is full or a message with
descriptors to send stands behind another one. -/
structure Fills (cap : ℕ) (queue : List RawOut) (ios : List Bytes) : Prop where
  fits : ios.length ≤ cap
  bytes : ios.flatten <+: pending queue
  offers : queue ≠ [] → ios ≠ []
  slices : ∀ slice ∈ ios, slice ≠ []
  covers : ios.length ≠ cap → (∀ out ∈ queue.tail, out.fdsToSend = false) →
    ios.flatten = pending queue

/-- Crediting `w` bytes to `queue` returns `left` and leaves `queue'`: the first `w` pending bytes
are gone and no message is finished, or everything is gone and the excess is returned. -/
structure Credits (queue : List RawOut) (w left : ℕ) (queue' : List RawOut) : Prop where
  within : w ≤ (pending queue).length → left = 0 ∧ pending queue' = (pending queue).drop w ∧
    ∀ out ∈ queue', out.done = false
  beyond : (pending queue).length < w → queue' = [] ∧ left = w - (pending queue).length

/-- A message is not done when it is not sent in full. -/
lemma RawOut.done_eq_false_iff (out : RawOut) :
    out.done = false ↔ out.written < out.header.length + out.body.length := by
  rw [← Bool.not_eq_true, out.done_iff]
  unfold RawOut.toWrite
  omega

/-! ## Filling -/

/-- **What holds of all buffers of a queue holds of those offered.**

**Proof sketch.** By induction on the queue. `push_bufs` adds one or two buffers of the first
message, of which `P` holds, and the rest of the queue follows or is left out. -/
theorem populate_forall {P : Bytes → Prop} (cap : ℕ) (queue : List RawOut) (ios : List Bytes)
    (anc : List ℕ) (hios : ∀ slice ∈ ios, P slice)
    (hqueue : ∀ out ∈ queue, P out.outBufsLeft.1 ∧ ∀ buf ∈ out.outBufsLeft.2, P buf) :
    ∀ slice ∈ (populate cap queue ios anc).1, P slice := by
  induction queue generalizing ios anc with
  | nil => exact hios
  | cons out queue ih =>
    obtain ⟨hfirst, hsecond⟩ := hqueue out List.mem_cons_self
    have hrest : ∀ o ∈ queue, P o.outBufsLeft.1 ∧ ∀ buf ∈ o.outBufsLeft.2, P buf :=
      fun o ho => hqueue o (List.mem_cons_of_mem _ ho)
    have hpush : ∀ slice ∈ pushBufs cap out.outBufsLeft ios, P slice := by
      intro slice hslice
      have hmem : slice ∈ ios ∨ slice = out.outBufsLeft.1 ∨ slice ∈ out.outBufsLeft.2 := by
        unfold pushBufs at hslice
        cases hbuf : out.outBufsLeft.2 with
        | none => simpa [hbuf] using hslice
        | some buf =>
          simp only [hbuf] at hslice
          split_ifs at hslice
          · simp only [List.mem_append, List.mem_singleton] at hslice
            exact hslice.imp_right .inl
          · simp only [List.mem_append, List.mem_singleton, or_assoc] at hslice
            exact hslice.imp_right fun h => h.imp_right fun heq => by rw [heq]; rfl
      rcases hmem with hmem | rfl | hmem
      · exact hios slice hmem
      · exact hfirst
      · exact hsecond slice hmem
    unfold populate
    split_ifs
    · exact hios
    · exact ih _ _ hpush hrest
    · exact hios
    · exact ih _ _ hpush hrest

/-- The second buffer of a message is its body, and only one that is not empty. -/
lemma ne_nil_of_mem_outBufsLeft {out : RawOut} {buf : Bytes} (hbuf : buf ∈ out.outBufsLeft.2) :
    buf ≠ [] := by
  unfold RawOut.outBufsLeft bufsLeft at hbuf
  split_ifs at hbuf with hheader hempty
  · cases hbuf
  · obtain rfl : out.body = buf := by simpa using hbuf
    simpa [List.isEmpty_iff] using hempty
  · cases hbuf

/-- **Filling a write** from a queue of messages that are not finished. -/
theorem populate_fills {cap : ℕ} (hcap : 1 ≤ cap) {queue : List RawOut}
    (hqueue : ∀ out ∈ queue, out.done = false) :
    Fills cap queue (populate cap queue [] []).1 := by
  obtain ⟨hle, -, t, hflat, ht⟩ := populate_spec cap queue [] [] (Nat.zero_le _)
  rw [List.flatten_nil, List.nil_append] at hflat
  refine ⟨hle, ⟨t, hflat⟩, fun hne => ?_, ?_, fun hroom hfds => ?_⟩
  · obtain ⟨out, queue, rfl⟩ := List.exists_cons_of_ne_nil hne
    exact populate_ne_nil hcap out queue
  · refine populate_forall cap queue [] [] (by simp) fun out hout => ⟨?_, fun buf hbuf => ?_⟩
    · exact outBufsLeft_ne_nil (out.done_eq_false_iff.mp (hqueue out hout))
    · exact ne_nil_of_mem_outBufsLeft hbuf
  · rw [← hflat, ht hroom hfds, List.append_nil]

/-! ## Crediting -/

/-- A count beyond the pending bytes empties the queue. -/
lemma updateWritten_beyond (queue : List RawOut) (w : ℕ) (hw : (pending queue).length < w) :
    (updateWritten queue w).2 = [] := by
  induction queue generalizing w with
  | nil => rfl
  | cons out queue ih =>
    rw [length_pending_cons] at hw
    obtain ⟨left, hleft⟩ : ∃ left, w - out.toWrite = left + 1 := ⟨w - out.toWrite - 1, by omega⟩
    simp only [updateWritten, out.advance_eq w, hleft]
    exact ih (left + 1) (by omega)

/-- **Crediting a write** to a queue of messages that are not finished.

**Proof sketch.** By `updateWritten_cases` the messages that are credited in full are removed, and
at most the next one is credited in part, by less than what is left of it. -/
theorem updateWritten_credits {queue : List RawOut} (hqueue : ∀ out ∈ queue, out.done = false)
    (w : ℕ) : Credits queue w (updateWritten queue w).1 (updateWritten queue w).2 := by
  have hleft := updateWritten_left queue w
  refine ⟨fun hw => ⟨by omega, ?_⟩, fun hw => ⟨updateWritten_beyond queue w hw, hleft⟩⟩
  obtain ⟨pre, rest, rfl, ⟨rfl, heq⟩ | ⟨out, tail, n, rfl, hn, hlt, rfl, heq⟩⟩ :=
    updateWritten_cases queue w hw
  · rw [heq, pending_append, List.drop_left]
    exact ⟨rfl, fun out hout => hqueue out (List.mem_append_right _ hout)⟩
  · rw [heq, pending_append, ← List.drop_drop, List.drop_left]
    constructor
    · show ({ out with written := _ } : RawOut).unsent ++ pending tail =
        (out.unsent ++ pending tail).drop n
      rw [out.unsent_written, List.drop_append_of_le_length]
      rw [out.length_unsent]
      exact hlt.le
    · intro o ho
      rcases List.mem_cons.mp ho with rfl | ho
      · rw [← Bool.not_eq_true, RawOut.done_iff, out.toWrite_written]
        omega
      · exact hqueue o (List.mem_append_right _ (List.mem_cons_of_mem _ ho))

/-! ## The two together -/

/-- **Filling and crediting the queue agree**, for every queue of messages that are not finished,
every capacity and every count. -/
theorem populate_updateWritten {cap : ℕ} (hcap : 1 ≤ cap) {queue : List RawOut}
    (hqueue : ∀ out ∈ queue, out.done = false) :
    Fills cap queue (populate cap queue [] []).1 ∧
      ∀ w, Credits queue w (updateWritten queue w).1 (updateWritten queue w).2 :=
  ⟨populate_fills hcap hqueue, updateWritten_credits hqueue⟩

/-- A vector with room for one buffer, and two messages: the first one is cut after its header. -/
theorem populate_updateWritten_cut :
    let queue : List RawOut := [⟨1, [1, 2], [3], []⟩, ⟨0, [4], [], [7]⟩]
    (populate 1 queue [] []).1 = [[2]] ∧ Fills 1 queue (populate 1 queue [] []).1 ∧
      ∀ w, Credits queue w (updateWritten queue w).1 (updateWritten queue w).2 := by
  intro queue
  exact ⟨by decide, populate_updateWritten (le_refl 1) (by decide)⟩

end AsyncRustbus
