import AsyncRustbus.Message.Marshal
import AsyncRustbus.Message.Push

set_option relaxedAutoImplicit false
set_option autoImplicit false

/-!
# Failed pushes, pushes one at a time and `reset`

A push that fails leaves the body as it was, and a push of several parameters succeeds exactly
when the parameters can be pushed one at a time.  `reset` clears the buffer and the signature but
not the descriptors, so that it gives back a fresh body only when there are none.

## Main definitions

* `MarshalContext.Extends`, `Param.Appends` — parameters that only add to the containers.
* `MarshalledMessageBody.pushEach` — pushing parameters one at a time.
* `MarshalledMessageBody.pushRun` — a program of pushes, with the outcomes.
* `MarshalledMessageBody.ResetsFresh` — what comes after a `reset` is as on a new body.

## Main results

* `AsyncRustbus.push_all_or_nothing` — a push happens as a whole or not at all.
* `MarshalledMessageBody.resetsFresh_iff` — `reset` gives back a fresh body only without
  descriptors.
* `BodyRun.resetsFresh` — so it does where no parameter adds descriptors.
-/

namespace AsyncRustbus

/-! ## The containers only grow -/

/-- The second context is the first with more at the end of the buffer and of the descriptors. -/
structure MarshalContext.Extends (c c' : MarshalContext) : Prop where
  buf : c.buf <+: c'.buf
  fds : c.fds <+: c'.fds
  byteorder : c'.byteorder = c.byteorder

/-- A parameter only adds at the end of the buffer, of the descriptors and of the signature,
whether it succeeds or fails. -/
structure Param.Appends (p : Param) : Prop where
  marshal : ∀ c : MarshalContext, c.Extends (p.marshal c).2
  marshalAsVariant : ∀ c : MarshalContext, c.Extends (p.marshalAsVariant c).2
  sigStr : p.ExtendsSig

/-- A parameter that only adds does so as a variant. -/
lemma Param.Appends.asVariant {p : Param} (h : p.Appends) : p.asVariant.Appends :=
  ⟨h.marshalAsVariant, h.marshalAsVariant, p.asVariant_hasSignature.extendsSig⟩

/-- A context extends itself. -/
lemma MarshalContext.Extends.refl (c : MarshalContext) : c.Extends c :=
  ⟨List.prefix_rfl, List.prefix_rfl, rfl⟩

/-- Extensions can be chained. -/
lemma MarshalContext.Extends.trans {c c' c'' : MarshalContext} (h : c.Extends c')
    (h' : c'.Extends c'') : c.Extends c'' :=
  ⟨h.buf.trans h'.buf, h.fds.trans h'.fds, h'.byteorder.trans h.byteorder⟩

/-- The containers of a body are the beginning of those of a context that extends them. -/
lemma MarshalContext.Extends.take_eq {c c' : MarshalContext} (h : c.Extends c') :
    c'.buf.take c.buf.length = c.buf ∧ c'.fds.take c.fds.length = c.fds :=
  ⟨(List.prefix_iff_eq_take.mp h.buf).symm, (List.prefix_iff_eq_take.mp h.fds).symm⟩

section Core

variable {debugAssertions : Bool}

/-- A push of one parameter only adds to the buffer and to the descriptors. -/
lemma pushParamCore_extends {p : Param} (hp : p.Appends) (c : PushCtx) :
    c.ctx.Extends (pushParamCore debugAssertions p c).2.ctx := by
  have hmarshal := hp.marshal c.ctx
  unfold pushParamCore
  split
  · rename_i e ctx h
    rwa [h] at hmarshal
  · rename_i ctx h
    rw [h] at hmarshal
    dsimp only
    split_ifs
    · exact hmarshal
    · exact hmarshal

/-- The closure of a push only adds to the buffer and to the descriptors, however far it gets. -/
lemma pushCores_extends {ps : List Param} (hps : ∀ p ∈ ps, p.Appends) (c : PushCtx) :
    c.ctx.Extends (pushCores debugAssertions ps c).2.ctx :=
  @pushCores_rel debugAssertions (fun c c' => c.ctx.Extends c'.ctx) (fun c => .refl c.ctx)
    MarshalContext.Extends.trans ps (fun p hp => pushParamCore_extends (hps p hp)) c

end Core

/-! ## One push -/

namespace MarshalledMessageBody

section Push

variable (truncate : Str → ℕ → Option Str) (debugAssertions : Bool)

/-- Pushing parameters one at a time with `push_param`, up to the first that fails. -/
def pushEach (b : MarshalledMessageBody) : List Param → Res PushError Unit × MarshalledMessageBody
  | [] => (.ok (), b)
  | p :: ps =>
    match b.pushParam1 truncate debugAssertions p with
    | (.ok (), b) => b.pushEach ps
    | failed => failed

end Push

variable {truncate : Str → ℕ → Option Str} {debugAssertions : Bool} {b b' : MarshalledMessageBody}

/-- What a body lends after a push is what the push gave back. -/
lemma createCtx2_withCtx {c : PushCtx} (h : c.ctx.byteorder = b.byteorder) :
    (b.withCtx c).createCtx2 = c := by
  obtain ⟨⟨buf, fds, bo⟩, sig⟩ := c
  subst h
  rfl

/-- **Several parameters at once or one at a time.**

**Proof sketch.** Induction on the parameters.  The closure goes on from what the first parameter
left, which is what the body lends to the next push. -/
lemma pushCores_iff_pushEach {ps : List Param} (hps : ∀ p ∈ ps, p.Appends) :
    b.pushParamHelper truncate (pushCores debugAssertions ps) = (.ok (), b') ↔
      b.pushEach truncate debugAssertions ps = (.ok (), b') := by
  induction ps generalizing b with
  | nil =>
    rw [pushParamHelper_eq_ok_iff]
    simp [pushCores, pushEach, createCtx2, withCtx, eq_comm]
  | cons p ps ih =>
    rw [List.forall_mem_cons] at hps
    have hextends := @pushParamCore_extends debugAssertions p hps.1 b.createCtx2
    rw [pushParamHelper_eq_ok_iff, pushEach, pushCores]
    split
    · -- The first parameter is pushed.
      rename_i c hcore
      rw [hcore] at hextends
      have hparam : b.pushParam1 truncate debugAssertions p = (.ok (), b.withCtx c) :=
        (pushParamHelper_eq_ok_iff _).mpr ⟨c, hcore, rfl⟩
      rw [hparam]
      dsimp only
      rw [← ih hps.2, pushParamHelper_eq_ok_iff, createCtx2_withCtx hextends.byteorder]
      rfl
    · -- The first parameter fails, and with it both pushes.
      rename_i hfailed
      constructor
      · rintro ⟨c, hok, -⟩
        exact absurd hok (hfailed c)
      · intro hok
        split at hok
        · rename_i b₁ hparam
          obtain ⟨c, hcore, -⟩ := (pushParamHelper_eq_ok_iff _).mp hparam
          exact absurd hcore (hfailed c)
        · rename_i hnot
          exact absurd hok (hnot b')

/-- **A failed push leaves the body as it was.** -/
lemma eq_of_push_err (htruncate : RestoresSignature truncate)
    (hvalid : validateSigStr debugAssertions b.sig = .ok ()) {call : PushCall}
    (hcall : ∀ p ∈ call.args, p.Appends) {e : PushError}
    (h : call.push truncate debugAssertions b = (.err e, b')) : b' = b := by
  have hadded : ∀ p ∈ call.added, p.Appends :=
    PushCall.forall_added (fun p hp => hp.asVariant) hcall
  have hsig := @pushCores_sig_extends debugAssertions call.added
    (fun p hp => (hadded p hp).sigStr) b.createCtx2
  have hextends := @pushCores_extends debugAssertions call.added hadded b.createCtx2
  rw [PushCall.push_eq] at h
  obtain ⟨c, hcores, rfl⟩ := pushParamHelper_eq_err htruncate
    (isSignature_of_validateSigStr hvalid) hsig h
  rw [hcores] at hextends
  obtain ⟨hbuf, hfds⟩ := hextends.take_eq
  simp only [createCtx2] at hbuf hfds
  rw [hbuf, hfds]

end MarshalledMessageBody

/-- **Pushing is all-or-nothing and compositional.**  Where parameters only add to the containers
and `truncate` restores a valid signature: on a body built by any calls, a push that fails leaves
buffer, signature and descriptors as they were; and a push succeeds if and only if pushing its
parameters one at a time does, with the same body after it. -/
theorem push_all_or_nothing (truncate : Str → ℕ → Option Str) (debugAssertions : Bool)
    (htruncate : RestoresSignature truncate) (log : BodyLog) (b : MarshalledMessageBody)
    (hrun : BodyRun truncate debugAssertions log b)
    (hlog : ∀ e ∈ log, ∀ p ∈ e.1.args, p.Appends) (call : PushCall)
    (hcall : ∀ p ∈ call.args, p.Appends) :
    (∀ e b', call.push truncate debugAssertions b = (.err e, b') → b' = b) ∧
      ∀ b', call.push truncate debugAssertions b = (.ok (), b') ↔
        b.pushEach truncate debugAssertions call.added = (.ok (), b') := by
  constructor
  · intro e b' h
    have hvalid := hrun.valid htruncate fun e he p hp => (hlog e he p hp).sigStr
    exact MarshalledMessageBody.eq_of_push_err htruncate hvalid hcall h
  · intro b'
    rw [PushCall.push_eq]
    exact MarshalledMessageBody.pushCores_iff_pushEach
      (PushCall.forall_added (fun p hp => hp.asVariant) hcall)

/-- A writer that appends extends the context. -/
lemma MarshalContext.extends_of_appends (c : MarshalContext) {w : Bytes → Bytes}
    (hw : Appends w) (fds : List UnixFd) : c.Extends ⟨w c.buf, c.fds ++ fds, c.byteorder⟩ := by
  obtain ⟨f, hf⟩ := hw
  rw [hf c.buf]
  exact ⟨List.prefix_append _ _, List.prefix_append _ _, rfl⟩

/-- Strings only add. -/
lemma Param.str_appends (s : Str) : (Param.str s).Appends where
  marshal c := by
    have h := c.extends_of_appends (appends_marshalStr c.byteorder s) []
    rwa [List.append_nil] at h
  marshalAsVariant c := by
    have h := c.extends_of_appends
      ((appends_marshalStr c.byteorder s).comp (appends_marshalSignature ['s'])) []
    rwa [List.append_nil] at h
  sigStr := (Param.str_hasSignature s).extendsSig

/-- Descriptors only add. -/
lemma Param.unixFd_appends (fd : UnixFd) : (Param.unixFd fd).Appends where
  marshal c := by
    obtain ⟨file⟩ := fd
    cases file with
    | none => exact .refl c
    | some n => exact c.extends_of_appends (appends_marshalU32 c.byteorder _) [⟨some n⟩]
  marshalAsVariant c := by
    obtain ⟨file⟩ := fd
    cases file with
    | none => exact .refl c
    | some n =>
      exact c.extends_of_appends
        ((appends_marshalU32 c.byteorder _).comp (appends_marshalSignature ['h'])) [⟨some n⟩]
  sigStr := (Param.unixFd_hasSignature fd).extendsSig

/-- On a body with one string, a push of a string and of a descriptor that cannot be sent fails
and leaves the body as it was. -/
theorem push_all_or_nothing_str :
    ∃ b, MarshalledMessageBody.new.pushParam1 truncateText true (.str ['a']) = (.ok (), b) ∧
      b.pushParam2 truncateText true (.str ['b']) (.unixFd ⟨none⟩) =
        (.err (.other "EmptyUnixFd".toList), b) := by
  have hrun := BodyRun.call (.push (.param (.str ['a']))) (.ok ())
    (@BodyRun.fresh truncateText true .littleEndian) rfl (by simp)
  have hall := push_all_or_nothing truncateText true restoresSignature_truncateText _ _ hrun
    (by simp [BodyCall.args, PushCall.args, Param.str_appends])
    (.param2 (.str ['b']) (.unixFd ⟨none⟩))
    (by simp [PushCall.args, Param.str_appends, Param.unixFd_appends])
  have hsame := hall.1 (.other "EmptyUnixFd".toList) _ rfl
  exact ⟨_, rfl, Prod.ext rfl hsame⟩

/-! ## `reset` -/

namespace MarshalledMessageBody

section Reset

variable (truncate : Str → ℕ → Option Str) (debugAssertions : Bool)

/-- A program of pushes, with the outcomes.  It ends with the first panic. -/
def pushRun (b : MarshalledMessageBody) :
    List PushCall → List (Res PushError Unit) × MarshalledMessageBody
  | [] => ([], b)
  | call :: calls =>
    match call.push truncate debugAssertions b with
    | (.panic, b) => ([.panic], b)
    | (r, b) => (r :: (b.pushRun calls).1, (b.pushRun calls).2)

/-- **`reset` gives back a fresh body**: any pushes after it have the outcomes that they have on a
new body of the same byte order and lead to the same body, for which the same header is
marshalled. -/
def ResetsFresh (b : MarshalledMessageBody) : Prop :=
  ∀ calls, b.reset.pushRun truncate debugAssertions calls =
      (withByteorder b.byteorder).pushRun truncate debugAssertions calls ∧
    ∀ R dynheader typ flags serial,
      MarshalledMessage.marshalHeader R
          ⟨(b.reset.pushRun truncate debugAssertions calls).2, dynheader, typ, flags⟩ serial =
        MarshalledMessage.marshalHeader R
          ⟨((withByteorder b.byteorder).pushRun truncate debugAssertions calls).2, dynheader, typ,
            flags⟩ serial

/-- Without descriptors `reset` gives back a fresh body. -/
lemma resetsFresh_of_rawFds {b : MarshalledMessageBody} (hfds : b.rawFds = []) :
    b.ResetsFresh truncate debugAssertions := by
  have hreset : b.reset = withByteorder b.byteorder := by
    rw [reset, hfds]
    rfl
  intro calls
  rw [hreset]
  exact ⟨rfl, fun _ _ _ _ _ => rfl⟩

/-- **Exactly when `reset` gives back a fresh body**: when no descriptors are in the body, since
`reset` leaves them there. -/
theorem resetsFresh_iff (b : MarshalledMessageBody) :
    b.ResetsFresh truncate debugAssertions ↔ b.rawFds = [] := by
  constructor
  · intro h
    exact congrArg (fun run => run.2.rawFds) (h []).1
  · intro hfds
    exact resetsFresh_of_rawFds truncate debugAssertions hfds

end Reset

end MarshalledMessageBody

/-- A parameter without descriptors. -/
def Param.KeepsFds (p : Param) : Prop :=
  ∀ c, (p.marshal c).2.fds = c.fds ∧ (p.marshalAsVariant c).2.fds = c.fds

/-- A closure of parameters without descriptors leaves the descriptors as they are. -/
lemma pushCores_fds {debugAssertions : Bool} {ps : List Param} (hps : ∀ p ∈ ps, p.KeepsFds)
    {c c' : PushCtx} (h : pushCores debugAssertions ps c = (.ok (), c')) :
    c'.ctx.fds = c.ctx.fds := by
  induction ps generalizing c with
  | nil =>
    cases h
    rfl
  | cons p ps ih =>
    rw [List.forall_mem_cons] at hps
    rw [pushCores] at h
    split at h
    · rename_i c₁ hcore
      obtain ⟨hmarshal, -⟩ := pushParamCore_eq_ok hcore
      have hp := (hps.1 c.ctx).1
      rw [hmarshal] at hp
      rw [ih hps.2 h]
      exact hp
    · rename_i hfailed
      exact absurd h (hfailed c')

/-- **As long as only parameters without descriptors are pushed, `reset` gives back a fresh
body.** -/
theorem BodyRun.resetsFresh {truncate : Str → ℕ → Option Str} {debugAssertions : Bool}
    {log : BodyLog} {b : MarshalledMessageBody} (htruncate : RestoresSignature truncate)
    (h : BodyRun truncate debugAssertions log b)
    (hsig : ∀ e ∈ log, ∀ p ∈ e.1.args, p.ExtendsSig)
    (hfds : ∀ e ∈ log, ∀ p ∈ e.1.args, p.KeepsFds) :
    b.ResetsFresh truncate debugAssertions := by
  apply MarshalledMessageBody.resetsFresh_of_rawFds truncate debugAssertions
  induction h with
  | fresh bo => rfl
  | call c r hbefore hrun hreturns ih =>
    rw [List.forall_mem_cons] at hsig hfds
    have hvalid := hbefore.valid htruncate hsig.2
    have hnone := ih hsig.2 hfds.2
    obtain ⟨rfl, rfl⟩ | ⟨call, c', rfl, rfl, hcores, rfl⟩ | ⟨call, e, c', rfl, rfl, rfl, -⟩ :=
      BodyCall.run_cases htruncate hvalid hsig.1 hrun hreturns
    · exact hnone
    · have hadded : ∀ p ∈ call.added, p.KeepsFds := PushCall.forall_added
        (fun p hp c => ⟨(hp c).2, (hp c).2⟩) hfds.1
      exact (pushCores_fds hadded hcores).trans hnone
    · rw [hnone]
      rfl

/-- On a body that had one descriptor, a descriptor pushed after `reset` is the second one. -/
theorem not_resetsFresh : ¬ ∀ log b, BodyRun truncateText true log b →
    b.ResetsFresh truncateText true := by
  intro h
  have hrun := BodyRun.call (.push (.param (.unixFd ⟨some 7⟩))) (.ok ())
    (@BodyRun.fresh truncateText true .littleEndian) rfl (by simp)
  have hsame := congrArg (fun run => run.2.buf) (h _ _ hrun [.param (.unixFd ⟨some 8⟩)]).1
  have hindex : ([1, 0, 0, 0] : Bytes) = [0, 0, 0, 0] := hsame
  cases hindex

end AsyncRustbus
