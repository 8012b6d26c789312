import AsyncRustbus.Message.Body
import AsyncRustbus.Message.Nesting

set_option relaxedAutoImplicit false
set_option autoImplicit false

/-!
# Bodies under pushes

A push checks only the segment of the signature that it adds, and undoes a failure by truncating
the buffer, the descriptors and the signature to the lengths that they had.

## Main definitions

* `AsyncRustbus.RestoresSignature` — `SignatureBuffer::truncate` restores a valid signature.
* `Param.HasSignature` — `P::sig_str` appends the signature of the type.
* `Param.str`, `Param.unixFd` — strings and descriptors as `rustbus` marshals them.

## Main results

* `AsyncRustbus.validateSigStr_append_ok_iff` — a text behind a valid signature is checked on its
  own.
* `PushCall.push_eq` — every push is a push of a list of parameters.
* `MarshalledMessageBody.pushParam1_str` — the push of a string is `pushStr`.
* `BodyRun.valid`, `BodyRun.sig_eq` — the signature of a body after any calls.
-/

namespace AsyncRustbus

/-! ## Segments of a signature -/

/-- The scan of an accepted text is back in its first state. -/
lemma scan_of_validateSigStr_ok {debugAssertions : Bool} {sig : Str}
    (h : validateSigStr debugAssertions sig = .ok ()) :
    SigScan.scan ⟨[], 0, 0⟩ sig = .ok ⟨[], 0, 0⟩ := by
  unfold validateSigStr at h
  split_ifs at h
  cases hscan : SigScan.scan ⟨[], 0, 0⟩ sig with
  | err e => simp [hscan] at h
  | panic => simp [hscan] at h
  | ok s =>
    obtain ⟨types, frames, -, rfl, -⟩ := SigParse.exists_of_scan hscan
    cases frames with
    | nil => rfl
    | cons f fs =>
      rw [hscan] at h
      cases f <;> simp [SigScan.finish, SigFrame.state, SigFrame.nest] at h

/-- Behind an accepted text the validation goes on as from the start, within the length limit. -/
lemma validateSigStr_append {debugAssertions : Bool} {s₁ s₂ : Str}
    (h₁ : validateSigStr debugAssertions s₁ = .ok ()) :
    validateSigStr debugAssertions (s₁ ++ s₂) =
      if (toUtf8 (s₁ ++ s₂)).length > 255 then .err .tooLong
      else validateSigStr debugAssertions s₂ := by
  rw [validateSigStr, SigScan.scan_append, scan_of_validateSigStr_ok h₁, SigScan.resume]
  split_ifs with hlen
  · rfl
  · have hlen₂ : ¬(toUtf8 s₂).length > 255 := by
      rw [toUtf8_append, List.length_append] at hlen
      omega
    rw [validateSigStr, if_neg hlen₂]

/-- A text behind an accepted one is accepted exactly when it is on its own, within the length
limit. -/
theorem validateSigStr_append_ok_iff {debugAssertions : Bool} {s₁ s₂ : Str}
    (h₁ : validateSigStr debugAssertions s₁ = .ok ()) :
    validateSigStr debugAssertions (s₁ ++ s₂) = .ok () ↔
      validateSigStr debugAssertions s₂ = .ok () ∧ (toUtf8 (s₁ ++ s₂)).length ≤ 255 := by
  rw [validateSigStr_append h₁]
  split_ifs with hlen
  · simp only [false_iff, not_and]
    omega
  · simp only [Nat.le_of_not_lt hlen, and_true]

/-- The segment behind a text is what was added to it. -/
@[simp] lemma sigSegment_append (s t : Str) : sigSegment (s ++ t) (toUtf8 s).length = some t := by
  rw [sigSegment, toUtf8_append, if_pos (by simp), List.drop_left, fromUtf8_toUtf8]

/-! ## What the code relies on -/

/-- `SignatureBuffer::truncate` restores a valid signature that something was added to. -/
def RestoresSignature (truncate : Str → ℕ → Option Str) : Prop :=
  ∀ s t, IsSignature s → truncate (s ++ t) (toUtf8 s).length = some s

/-- `P::sig_str` appends the signature of the type. -/
def Param.HasSignature (p : Param) : Prop := ∀ s, p.sigStr s = s ++ p.signature

/-- `P::sig_str` only adds at the end. -/
def Param.ExtendsSig (p : Param) : Prop := ∀ s, s <+: p.sigStr s

/-- A type that appends its signature only adds at the end. -/
lemma Param.HasSignature.extendsSig {p : Param} (h : p.HasSignature) : p.ExtendsSig := by
  intro s
  rw [h s]
  exact List.prefix_append s _

/-- A variant has the signature `v`. -/
lemma Param.asVariant_hasSignature (p : Param) : p.asVariant.HasSignature := fun _ => rfl

/-! ## Strings and descriptors -/

/-- A `String` or `&str` as a parameter.  Every text is marshalled. -/
def Param.str (s : Str) : Param where
  marshal c := (.ok (), { c with buf := Wire.marshalStr c.byteorder s c.buf })
  marshalAsVariant c := (.ok (), { c with
    buf := Wire.marshalStr c.byteorder s (Wire.marshalSignature ['s'] c.buf) })
  sigStr := (· ++ ['s'])

/-- A `UnixFd` as a parameter: its index among the descriptors of the message.  One whose raw
descriptor has been taken cannot be marshalled. -/
def Param.unixFd (fd : UnixFd) : Param where
  marshal c := match fd.file with
    | none => (.error (.other "EmptyUnixFd".toList), c)
    | some _ => (.ok (), { c with
        buf := Wire.marshalU32 c.byteorder (UInt32.ofNat c.fds.length) c.buf,
        fds := c.fds ++ [fd] })
  marshalAsVariant c := match fd.file with
    | none => (.error (.other "EmptyUnixFd".toList), c)
    | some _ => (.ok (), { c with
        buf := Wire.marshalU32 c.byteorder (UInt32.ofNat c.fds.length)
          (Wire.marshalSignature ['h'] c.buf),
        fds := c.fds ++ [fd] })
  sigStr := (· ++ ['h'])

/-- `SignatureBuffer::truncate` on the texts that are cut at a character. -/
def truncateText (s : Str) (n : ℕ) : Option Str := fromUtf8 ((toUtf8 s).take n)

/-- Cutting a text behind its first part gives that part. -/
lemma restoresSignature_truncateText : RestoresSignature truncateText := by
  intro s t _
  rw [truncateText, toUtf8_append, List.take_left, fromUtf8_toUtf8]

/-- The signature of strings. -/
lemma Param.str_hasSignature (s : Str) : (Param.str s).HasSignature := fun _ => rfl

/-- The signature of descriptors. -/
lemma Param.unixFd_hasSignature (fd : UnixFd) : (Param.unixFd fd).HasSignature := fun _ => rfl

/-! ## One push -/

section Core

variable {debugAssertions : Bool}

/-- A segment passes exactly when it is an accepted text. -/
lemma checkSegment_eq_ok_iff (segment : Str) :
    checkSegment debugAssertions (some segment) = .ok () ↔
      validateSigStr debugAssertions segment = .ok () := by
  simp only [checkSegment]
  cases validateSigStr debugAssertions segment with
  | ok u => simp
  | err e => cases e <;> simp
  | panic => simp

/-- The letter `v` passes. -/
lemma checkSegment_variant : checkSegment debugAssertions (some ['v']) = .ok () := by
  rw [checkSegment_eq_ok_iff]
  cases debugAssertions <;> decide

/-- **What a successful push of one parameter does**: the parameter marshals, and the text it
adds to the signature is accepted and fits. -/
lemma pushParamCore_eq_ok {p : Param} {c c' : PushCtx}
    (h : pushParamCore debugAssertions p c = (.ok (), c')) :
    (p.marshal c.ctx) = (.ok (), c'.ctx) ∧ c'.sig = p.sigStr c.sig ∧
      (toUtf8 c'.sig).length ≤ 255 ∧
      checkSegment debugAssertions (sigSegment c'.sig (toUtf8 c.sig).length) = .ok () := by
  unfold pushParamCore at h
  split at h
  · cases h
  · rename_i ctx hmarshal
    dsimp only at h
    split_ifs at h with hlen
    · cases h
    · obtain ⟨hcheck, rfl⟩ := Prod.mk.inj h
      exact ⟨hmarshal, rfl, Nat.le_of_not_lt hlen, hcheck⟩

/-- The closure of `push_variant` pushes the variant as a parameter: the check of its segment
would always pass. -/
lemma pushVariantCore_eq (p : Param) (c : PushCtx) :
    pushVariantCore p c = pushParamCore debugAssertions p.asVariant c := by
  unfold pushVariantCore pushParamCore Param.asVariant
  simp only [sigSegment_append, checkSegment_variant]

/-- The closure of a push of one parameter. -/
lemma pushCores_singleton (p : Param) (c : PushCtx) :
    pushCores debugAssertions [p] c = pushParamCore debugAssertions p c := by
  unfold pushCores
  split
  · rename_i h
    exact h.symm
  · rfl

/-- After a successful closure the next parameters are pushed. -/
lemma pushCores_append (ps qs : List Param) (c : PushCtx) :
    pushCores debugAssertions (ps ++ qs) c =
      match pushCores debugAssertions ps c with
      | (.ok (), c) => pushCores debugAssertions qs c
      | failed => failed := by
  induction ps generalizing c with
  | nil => rfl
  | cons p ps ih =>
    rw [List.cons_append, pushCores, pushCores]
    split
    · rename_i c' hcore
      exact ih c'
    · rename_i hfailed
      split
      · rename_i c' hok
        exact absurd hok (hfailed c')
      · rfl

/-- **Every push is a push of a list of parameters**, those that it adds to the body. -/
theorem PushCall.push_eq (truncate : Str → ℕ → Option Str) (b : MarshalledMessageBody)
    (call : PushCall) : call.push truncate debugAssertions b =
      b.pushParamHelper truncate (pushCores debugAssertions call.added) := by
  cases call with
  | param p =>
    have hcore := funext fun c => @pushCores_singleton debugAssertions p c
    exact congrArg (b.pushParamHelper truncate) hcore.symm
  | variant p =>
    have hcore := funext fun c =>
      (@pushVariantCore_eq debugAssertions p c).trans (pushCores_singleton p.asVariant c).symm
    exact congrArg (b.pushParamHelper truncate) hcore
  | _ => rfl

/-- What holds of the arguments of a push, and of the variant of a parameter, holds of the
parameters that it adds. -/
lemma PushCall.forall_added {Q : Param → Prop} (hvariant : ∀ p, Q p → Q p.asVariant)
    {call : PushCall} (h : ∀ p ∈ call.args, Q p) : ∀ p ∈ call.added, Q p := by
  cases call with
  | variant p =>
    intro q hq
    rw [List.mem_singleton.mp hq]
    exact hvariant p (h p (by simp [args]))
  | _ => exact h

/-- What every parameter of a closure relates, in steps, the closure relates, however far it
gets. -/
lemma pushCores_rel {r : PushCtx → PushCtx → Prop} (hrefl : ∀ c, r c c)
    (htrans : ∀ {c₁ c₂ c₃}, r c₁ c₂ → r c₂ c₃ → r c₁ c₃) {ps : List Param}
    (hps : ∀ p ∈ ps, ∀ c, r c (pushParamCore debugAssertions p c).2) (c : PushCtx) :
    r c (pushCores debugAssertions ps c).2 := by
  induction ps generalizing c with
  | nil => exact hrefl c
  | cons p ps ih =>
    rw [List.forall_mem_cons] at hps
    have hp := hps.1 c
    rw [pushCores]
    split
    · rename_i c' hcore
      rw [hcore] at hp
      exact htrans hp (ih hps.2 c')
    · exact hp

/-! ## The signature under a push -/

/-- A push of one parameter only adds to the signature. -/
lemma pushParamCore_sig_extends {p : Param} (hp : p.ExtendsSig) (c : PushCtx) :
    c.sig <+: (pushParamCore debugAssertions p c).2.sig := by
  unfold pushParamCore
  split
  · exact List.prefix_rfl
  · dsimp only
    split_ifs
    · exact hp c.sig
    · exact hp c.sig

/-- A successful push of one parameter leads from a valid signature to a valid signature. -/
lemma pushParamCore_valid {p : Param} (hp : p.ExtendsSig) {c c' : PushCtx}
    (hvalid : validateSigStr debugAssertions c.sig = .ok ())
    (h : pushParamCore debugAssertions p c = (.ok (), c')) :
    validateSigStr debugAssertions c'.sig = .ok () := by
  obtain ⟨-, hsig, hlen, hcheck⟩ := pushParamCore_eq_ok h
  obtain ⟨segment, hsegment⟩ := hp c.sig
  rw [hsig, ← hsegment] at hlen hcheck ⊢
  rw [sigSegment_append, checkSegment_eq_ok_iff] at hcheck
  exact (validateSigStr_append_ok_iff hvalid).mpr ⟨hcheck, hlen⟩

/-- The closure of a push only adds to the signature. -/
lemma pushCores_sig_extends {ps : List Param} (hps : ∀ p ∈ ps, p.ExtendsSig) (c : PushCtx) :
    c.sig <+: (pushCores debugAssertions ps c).2.sig :=
  @pushCores_rel debugAssertions (fun c c' => c.sig <+: c'.sig) (fun _ => List.prefix_rfl)
    List.IsPrefix.trans ps (fun p hp => pushParamCore_sig_extends (hps p hp)) c

/-- **The signature stays valid** through a successful closure. -/
lemma pushCores_valid {ps : List Param} (hps : ∀ p ∈ ps, p.ExtendsSig) {c c' : PushCtx}
    (hvalid : validateSigStr debugAssertions c.sig = .ok ())
    (h : pushCores debugAssertions ps c = (.ok (), c')) :
    validateSigStr debugAssertions c'.sig = .ok () := by
  induction ps generalizing c with
  | nil =>
    cases h
    exact hvalid
  | cons p ps ih =>
    rw [List.forall_mem_cons] at hps
    rw [pushCores] at h
    split at h
    · rename_i c₁ hcore
      exact ih hps.2 (pushParamCore_valid hps.1 hvalid hcore) h
    · rename_i hfailed
      exact absurd h (hfailed c')

/-- A successful closure appends the signatures of its parameters. -/
lemma pushCores_sig {ps : List Param} (hps : ∀ p ∈ ps, p.HasSignature) {c c' : PushCtx}
    (h : pushCores debugAssertions ps c = (.ok (), c')) :
    c'.sig = c.sig ++ (ps.map Param.signature).flatten := by
  induction ps generalizing c with
  | nil =>
    cases h
    simp
  | cons p ps ih =>
    rw [List.forall_mem_cons] at hps
    rw [pushCores] at h
    split at h
    · rename_i c₁ hcore
      obtain ⟨-, hsig, -, -⟩ := pushParamCore_eq_ok hcore
      rw [ih hps.2 h, hsig, hps.1 c.sig, List.map_cons, List.flatten_cons, List.append_assoc]
    · rename_i hfailed
      exact absurd h (hfailed c')

end Core

/-! ## Runs -/

section Run

variable {truncate : Str → ℕ → Option Str} {debugAssertions : Bool} {log : BodyLog}
  {b b' : MarshalledMessageBody}

/-- A push succeeds when its closure does. -/
lemma MarshalledMessageBody.pushParamHelper_eq_ok_iff
    (pushFn : PushCtx → Res PushError Unit × PushCtx) :
    b.pushParamHelper truncate pushFn = (.ok (), b') ↔
      ∃ c, pushFn b.createCtx2 = (.ok (), c) ∧ b' = b.withCtx c := by
  unfold pushParamHelper
  constructor
  · intro h
    split at h
    · dsimp only at h
      split at h
      · cases h
      · cases h
    · rename_i c hfn
      exact ⟨c, hfn, (Prod.mk.inj h).2.symm⟩
    · cases h
  · rintro ⟨c, hfn, rfl⟩
    rw [hfn]

/-- **Pushing a string** where the signature has room for its letter is `pushStr`. -/
theorem MarshalledMessageBody.pushParam1_str (s : Str)
    (hroom : (toUtf8 b.sig).length < 255) :
    b.pushParam1 truncate debugAssertions (.str s) = (.ok (), b.pushStr s) := by
  have hlen : ¬ (toUtf8 (b.sig ++ ['s'])).length > 255 := by
    rw [toUtf8_append, List.length_append, show (toUtf8 ['s']).length = 1 from rfl]
    omega
  have hcheck : checkSegment debugAssertions (some ['s']) = .ok () := by
    rw [checkSegment_eq_ok_iff]
    cases debugAssertions <;> decide
  rw [pushParam1, pushParamHelper_eq_ok_iff]
  refine ⟨⟨⟨Wire.marshalStr b.byteorder s b.buf, b.rawFds, b.byteorder⟩, b.sig ++ ['s']⟩, ?_, rfl⟩
  simp only [pushParamCore, Param.str, createCtx2, if_neg hlen, sigSegment_append,
    hcheck]

/-- **A failed push**: the three containers are truncated to the lengths they had, which restores
the signature when it was valid. -/
lemma MarshalledMessageBody.pushParamHelper_eq_err (htruncate : RestoresSignature truncate)
    {pushFn : PushCtx → Res PushError Unit × PushCtx} (hsig : IsSignature b.sig)
    (hextends : b.sig <+: (pushFn b.createCtx2).2.sig) {e : PushError}
    (h : b.pushParamHelper truncate pushFn = (.err e, b')) :
    ∃ c, pushFn b.createCtx2 = (.err e, c) ∧
      b' = ⟨c.ctx.buf.take b.buf.length, b.sig, c.ctx.fds.take b.rawFds.length, b.byteorder⟩ := by
  unfold pushParamHelper at h
  split at h
  · rename_i e' c hfn
    rw [hfn] at hextends
    obtain ⟨added, hadded⟩ := hextends
    have hrestored : truncate c.sig (toUtf8 b.sig).length = some b.sig := by
      rw [← hadded]
      exact htruncate b.sig added hsig
    simp only [hrestored] at h
    obtain ⟨herr, rfl⟩ := Prod.mk.inj h
    cases herr
    exact ⟨c, hfn, rfl⟩
  · cases h
  · cases h

/-- **What a call can do** on a body with a valid signature: reset it, push parameters as its
closure does, or fail and truncate the containers.

**Proof sketch.** By the kind of call. A reset is itself. A push runs the parameters that its
closure adds, each of which extends the signature: if they succeed they are pushed
(`pushParamHelper_eq_ok_iff`), and if one fails the containers are truncated
(`pushParamHelper_eq_err`). -/
lemma BodyCall.run_cases (htruncate : RestoresSignature truncate) {c : BodyCall}
    {r : Res PushError Unit} (hvalid : validateSigStr debugAssertions b.sig = .ok ())
    (hsig : ∀ p ∈ c.args, p.ExtendsSig) (h : c.run truncate debugAssertions b = (r, b'))
    (hreturns : r ≠ .panic) :
    (c = .reset ∧ b' = b.reset) ∨
    (∃ call c', c = .push call ∧ r = .ok () ∧
      pushCores debugAssertions call.added b.createCtx2 = (.ok (), c') ∧ b' = b.withCtx c') ∨
    (∃ call e c', c = .push call ∧ r = .err e ∧
      b' = ⟨c'.ctx.buf.take b.buf.length, b.sig, c'.ctx.fds.take b.rawFds.length, b.byteorder⟩ ∧
      pushCores debugAssertions call.added b.createCtx2 = (.err e, c')) := by
  cases c with
  | reset => exact .inl ⟨rfl, (Prod.mk.inj h).2.symm⟩
  | push call =>
    have hadded : ∀ p ∈ call.added, p.ExtendsSig := PushCall.forall_added
      (fun p _ => p.asVariant_hasSignature.extendsSig) hsig
    rw [BodyCall.run, PushCall.push_eq] at h
    cases r with
    | ok u =>
      obtain ⟨c', hcores, hb'⟩ := (MarshalledMessageBody.pushParamHelper_eq_ok_iff _).mp h
      exact .inr (.inl ⟨call, c', rfl, rfl, hcores, hb'⟩)
    | err e =>
      obtain ⟨c', hcores, hb'⟩ := MarshalledMessageBody.pushParamHelper_eq_err htruncate
        (isSignature_of_validateSigStr hvalid) (pushCores_sig_extends hadded b.createCtx2) h
      exact .inr (.inr ⟨call, e, c', rfl, rfl, hb', hcores⟩)
    | panic => exact absurd rfl hreturns

/-- **The signature of a body is always valid.** -/
theorem BodyRun.valid (htruncate : RestoresSignature truncate)
    (h : BodyRun truncate debugAssertions log b)
    (hsig : ∀ e ∈ log, ∀ p ∈ e.1.args, p.ExtendsSig) :
    validateSigStr debugAssertions b.sig = .ok () := by
  have hempty : validateSigStr debugAssertions [] = .ok () := by
    cases debugAssertions <;> rfl
  induction h with
  | fresh bo => exact hempty
  | call c r _ hrun hreturns ih =>
    rw [List.forall_mem_cons] at hsig
    have hvalid := ih hsig.2
    obtain ⟨rfl, rfl⟩ | ⟨call, c', rfl, rfl, hcores, rfl⟩ | ⟨call, e, c', rfl, rfl, rfl, -⟩ :=
      BodyCall.run_cases htruncate hvalid hsig.1 hrun hreturns
    · exact hempty
    · exact pushCores_valid (PushCall.forall_added
        (fun p _ => p.asVariant_hasSignature.extendsSig) hsig.1) hvalid hcores
    · exact hvalid

/-- **The signature of a body is that of the parameters in it.** -/
theorem BodyRun.sig_eq (htruncate : RestoresSignature truncate)
    (h : BodyRun truncate debugAssertions log b)
    (hsig : ∀ e ∈ log, ∀ p ∈ e.1.args, p.HasSignature) :
    b.sig = ((pushedParams log).map Param.signature).flatten := by
  induction h with
  | fresh bo => rfl
  | call c r hbefore hrun hreturns ih =>
    rw [List.forall_mem_cons] at hsig
    have hvalid := hbefore.valid htruncate fun e he p hp => (hsig.2 e he p hp).extendsSig
    obtain ⟨rfl, rfl⟩ | ⟨call, c', rfl, rfl, hcores, rfl⟩ | ⟨call, e, c', rfl, rfl, rfl, -⟩ :=
      BodyCall.run_cases htruncate hvalid (fun p hp => (hsig.1 p hp).extendsSig) hrun hreturns
    · rfl
    · rw [pushedParams, List.map_append, List.flatten_append, ← ih hsig.2]
      exact pushCores_sig (PushCall.forall_added (fun p _ => p.asVariant_hasSignature) hsig.1)
        hcores
    · exact ih hsig.2

/-- **Checking segment by segment is enough.**  A text behind an accepted one is accepted exactly
when it is on its own, within the length limit; and so the signature of a body is accepted after
any calls, and is the concatenation of the signatures of the parameters in it. -/
theorem segments_suffice (debugAssertions : Bool) :
    (∀ s₁ s₂, validateSigStr debugAssertions s₁ ≠ .panic →
      validateSigStr debugAssertions s₂ ≠ .panic → validateSigStr debugAssertions s₁ = .ok () →
      (validateSigStr debugAssertions (s₁ ++ s₂) = .ok () ↔
        validateSigStr debugAssertions s₂ = .ok () ∧ (toUtf8 (s₁ ++ s₂)).length ≤ 255)) ∧
    ∀ truncate, RestoresSignature truncate → ∀ log b, BodyRun truncate debugAssertions log b →
      (∀ e ∈ log, ∀ p ∈ e.1.args, p.HasSignature) →
      validateSigStr debugAssertions b.sig = .ok () ∧
        b.sig = ((pushedParams log).map Param.signature).flatten := by
  refine ⟨fun s₁ s₂ _ _ h₁ => validateSigStr_append_ok_iff h₁, ?_⟩
  intro truncate htruncate log b hrun hsig
  exact ⟨hrun.valid htruncate fun e he p hp => (hsig e he p hp).extendsSig,
    hrun.sig_eq htruncate hsig⟩

/-- A variant and a string are pushed after a reset, with a failed push between them: the
signature is `vs`. -/
theorem segments_suffice_str :
    validateSigStr true ['v', 's'] = .ok () ∧
      ∃ b, BodyRun truncateText true
        [(.push (.param (.str ['b'])), .ok ()),
          (.push (.param2 (.str ['c']) (.unixFd ⟨none⟩)), .err (.other "EmptyUnixFd".toList)),
          (.push (.variant (.str ['a'])), .ok ()), (.reset, .ok ()),
          (.push (.param (.str ['a'])), .ok ())] b ∧
        validateSigStr true b.sig = .ok () ∧ b.sig = ['v', 's'] := by
  have happend := (segments_suffice true).1 ['v'] ['s'] (by decide) (by decide) (by decide)
  refine ⟨happend.mpr (by decide), ?_⟩
  have h₁ := BodyRun.call (.push (.param (.str ['a']))) (.ok ())
    (@BodyRun.fresh truncateText true .littleEndian) rfl (by simp)
  have h₂ := BodyRun.call .reset (.ok ()) h₁ rfl (by simp)
  have h₃ := BodyRun.call (.push (.variant (.str ['a']))) (.ok ()) h₂ rfl (by simp)
  have h₄ := BodyRun.call (.push (.param2 (.str ['c']) (.unixFd ⟨none⟩)))
    (.err (.other "EmptyUnixFd".toList)) h₃ rfl (by simp)
  have h₅ := BodyRun.call (.push (.param (.str ['b']))) (.ok ()) h₄ rfl (by simp)
  have hsig := (segments_suffice true).2 truncateText restoresSignature_truncateText _ _ h₅
    (by simp [BodyCall.args, PushCall.args, Param.str_hasSignature, Param.unixFd_hasSignature])
  exact ⟨_, h₅, hsig⟩

end Run

end AsyncRustbus
