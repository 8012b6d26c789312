import AsyncRustbus.Message.Basic
import AsyncRustbus.Message.Signature

set_option relaxedAutoImplicit false
set_option autoImplicit false

/-!
# Pushing parameters onto a body (`MarshalledMessageBody`)

Every push runs a closure on the buffer, the descriptors and the signature of the body; when the
closure fails, the three are truncated to the lengths they had.  The closures of the source are
chains of `push_param_core`, which marshals one parameter and checks the signature that it added.

The types that can be pushed are those of the `rustbus` crate and of its users: a parameter is
given by its `Marshal` implementation, and what the code relies on is stated where it is used.
`SignatureBuffer::truncate` is a parameter as well.

## Main definitions

* `AsyncRustbus.Param` — a value of a type that is `Marshal`.
* `AsyncRustbus.pushParamCore`, `MarshalledMessageBody.pushParamHelper` — the two halves of a push.
* `MarshalledMessageBody.pushParam1` .. `pushParams`, `pushVariant`, `reset` — the calls.
* `AsyncRustbus.BodyRun` — the bodies that calls lead to, with the calls and their outcomes.
* `AsyncRustbus.pushedParams` — the parameters in a body.
-/

namespace AsyncRustbus

/-! ## Parameters -/

/-- `rustbus::Error`: the two errors that a push itself returns, both of them
`Validation(InvalidSignature(..))`, and the errors of the parameters. -/
inductive PushError
  | tooManyTypes
  | nestingTooDeep
  | other (name : Str)
  deriving DecidableEq

/-- `rustbus::message_builder::MarshalContext`. -/
structure MarshalContext where
  buf : Bytes
  fds : List UnixFd
  byteorder : ByteOrder
  deriving DecidableEq

/-- A value of a type `P: Marshal`: `marshal` and `marshal_as_variant` on a context, with the
context they leave, and `P::sig_str` on a signature. -/
structure Param where
  marshal : MarshalContext → Except PushError Unit × MarshalContext
  marshalAsVariant : MarshalContext → Except PushError Unit × MarshalContext
  sigStr : Str → Str

/-- The signature of the type of a parameter. -/
def Param.signature (p : Param) : Str := p.sigStr []

/-- What `push_variant` adds for a parameter: a variant. -/
def Param.asVariant (p : Param) : Param where
  marshal := p.marshalAsVariant
  marshalAsVariant := p.marshalAsVariant
  sigStr := (· ++ ['v'])

/-! ## One parameter -/

/-- What `create_ctx2` lends to a push: the context and the signature. -/
structure PushCtx where
  ctx : MarshalContext
  sig : Str
  deriving DecidableEq

/-- `&sig[pre_len..]`, which panics when it does not cut at a character. -/
def sigSegment (sig : Str) (preLen : ℕ) : Option Str :=
  if preLen ≤ (toUtf8 sig).length then fromUtf8 ((toUtf8 sig).drop preLen) else none

/-- The check of the segment that a parameter added.  A segment that is too deep is an error of
the caller, any other invalid segment an error of the `Marshal` implementation. -/
def checkSegment (debugAssertions : Bool) (segment : Option Str) : Res PushError Unit :=
  match segment with
  | none => .panic
  | some segment =>
    match validateSigStr debugAssertions segment with
    | .ok () => .ok ()
    | .err .arraysTooNested => .err .nestingTooDeep
    | .err .structsTooNested => .err .nestingTooDeep
    | .err _ => .panic
    | .panic => .panic

/-- `push_param_core`. -/
def pushParamCore (debugAssertions : Bool) (p : Param) (c : PushCtx) :
    Res PushError Unit × PushCtx :=
  match p.marshal c.ctx with
  | (.error e, ctx) => (.err e, ⟨ctx, c.sig⟩)
  | (.ok (), ctx) =>
    let sig := p.sigStr c.sig
    if (toUtf8 sig).length > 255 then (.err .tooManyTypes, ⟨ctx, sig⟩)
    else (checkSegment debugAssertions (sigSegment sig (toUtf8 c.sig).length), ⟨ctx, sig⟩)

/-- The closures of the pushes of several parameters: one after the other, up to the first that
fails. -/
def pushCores (debugAssertions : Bool) : List Param → PushCtx → Res PushError Unit × PushCtx
  | [], c => (.ok (), c)
  | p :: ps, c =>
    match pushParamCore debugAssertions p c with
    | (.ok (), c) => pushCores debugAssertions ps c
    | failed => failed

/-- The closure of `push_variant`. -/
def pushVariantCore (p : Param) (c : PushCtx) : Res PushError Unit × PushCtx :=
  match p.marshalAsVariant c.ctx with
  | (.error e, ctx) => (.err e, ⟨ctx, c.sig⟩)
  | (.ok (), ctx) =>
    let sig := c.sig ++ ['v']
    if (toUtf8 sig).length > 255 then (.err .tooManyTypes, ⟨ctx, sig⟩) else (.ok (), ⟨ctx, sig⟩)

/-! ## The calls -/

namespace MarshalledMessageBody

/-- `create_ctx2`. -/
def createCtx2 (b : MarshalledMessageBody) : PushCtx := ⟨⟨b.buf, b.rawFds, b.byteorder⟩, b.sig⟩

/-- The body when a push gives back what it was lent. -/
def withCtx (b : MarshalledMessageBody) (c : PushCtx) : MarshalledMessageBody :=
  { b with buf := c.ctx.buf, rawFds := c.ctx.fds, sig := c.sig }

section Push

variable (truncate : Str → ℕ → Option Str) (debugAssertions : Bool) (b : MarshalledMessageBody)

/-- `push_param_helper`, with `SignatureBuffer::truncate` and the closure of the push. -/
def pushParamHelper (pushFn : PushCtx → Res PushError Unit × PushCtx) :
    Res PushError Unit × MarshalledMessageBody :=
  match pushFn b.createCtx2 with
  | (.err e, c) =>
    let ctx := { c.ctx with
      fds := c.ctx.fds.take b.rawFds.length, buf := c.ctx.buf.take b.buf.length }
    match truncate c.sig (toUtf8 b.sig).length with
    | some sig => (.err e, b.withCtx ⟨ctx, sig⟩)
    | none => (.panic, b.withCtx ⟨ctx, c.sig⟩)
  | (.ok (), c) => (.ok (), b.withCtx c)
  | (.panic, c) => (.panic, b.withCtx c)

/-- `push_param`. -/
def pushParam1 (p : Param) : Res PushError Unit × MarshalledMessageBody :=
  b.pushParamHelper truncate (pushParamCore debugAssertions p)

/-- `push_param2`. -/
def pushParam2 (p₁ p₂ : Param) : Res PushError Unit × MarshalledMessageBody :=
  b.pushParamHelper truncate (pushCores debugAssertions [p₁, p₂])

/-- `push_param3`. -/
def pushParam3 (p₁ p₂ p₃ : Param) : Res PushError Unit × MarshalledMessageBody :=
  b.pushParamHelper truncate (pushCores debugAssertions [p₁, p₂, p₃])

/-- `push_param4`. -/
def pushParam4 (p₁ p₂ p₃ p₄ : Param) : Res PushError Unit × MarshalledMessageBody :=
  b.pushParamHelper truncate (pushCores debugAssertions [p₁, p₂, p₃, p₄])

/-- `push_param5`. -/
def pushParam5 (p₁ p₂ p₃ p₄ p₅ : Param) : Res PushError Unit × MarshalledMessageBody :=
  b.pushParamHelper truncate (pushCores debugAssertions [p₁, p₂, p₃, p₄, p₅])

/-- `push_params`. -/
def pushParams (params : List Param) : Res PushError Unit × MarshalledMessageBody :=
  b.pushParamHelper truncate (pushCores debugAssertions params)

/-- `push_variant`. -/
def pushVariant (p : Param) : Res PushError Unit × MarshalledMessageBody :=
  b.pushParamHelper truncate (pushVariantCore p)

/-- `reset`. -/
def reset : MarshalledMessageBody := { b with sig := [], buf := [] }

end Push

end MarshalledMessageBody

/-- A push with its arguments. -/
inductive PushCall
  | param (p : Param)
  | param2 (p₁ p₂ : Param)
  | param3 (p₁ p₂ p₃ : Param)
  | param4 (p₁ p₂ p₃ p₄ : Param)
  | param5 (p₁ p₂ p₃ p₄ p₅ : Param)
  | params (ps : List Param)
  | variant (p : Param)

namespace PushCall

/-- The arguments of a push. -/
def args : PushCall → List Param
  | param p => [p]
  | param2 p₁ p₂ => [p₁, p₂]
  | param3 p₁ p₂ p₃ => [p₁, p₂, p₃]
  | param4 p₁ p₂ p₃ p₄ => [p₁, p₂, p₃, p₄]
  | param5 p₁ p₂ p₃ p₄ p₅ => [p₁, p₂, p₃, p₄, p₅]
  | params ps => ps
  | variant p => [p]

/-- The parameters that a push adds to the body. -/
def added : PushCall → List Param
  | variant p => [p.asVariant]
  | call => call.args

/-- The call. -/
def push (truncate : Str → ℕ → Option Str) (debugAssertions : Bool) (b : MarshalledMessageBody) :
    PushCall → Res PushError Unit × MarshalledMessageBody
  | param p => b.pushParam1 truncate debugAssertions p
  | param2 p₁ p₂ => b.pushParam2 truncate debugAssertions p₁ p₂
  | param3 p₁ p₂ p₃ => b.pushParam3 truncate debugAssertions p₁ p₂ p₃
  | param4 p₁ p₂ p₃ p₄ => b.pushParam4 truncate debugAssertions p₁ p₂ p₃ p₄
  | param5 p₁ p₂ p₃ p₄ p₅ => b.pushParam5 truncate debugAssertions p₁ p₂ p₃ p₄ p₅
  | params ps => b.pushParams truncate debugAssertions ps
  | variant p => b.pushVariant truncate p

end PushCall

/-- A call that changes a body. -/
inductive BodyCall
  | push (call : PushCall)
  | reset

namespace BodyCall

/-- The arguments of a call. -/
def args : BodyCall → List Param
  | push call => call.args
  | reset => []

/-- The call. -/
def run (truncate : Str → ℕ → Option Str) (debugAssertions : Bool) (b : MarshalledMessageBody) :
    BodyCall → Res PushError Unit × MarshalledMessageBody
  | push call => call.push truncate debugAssertions b
  | reset => (.ok (), b.reset)

end BodyCall

/-- Calls on a body with their outcomes, the last call first. -/
abbrev BodyLog := List (BodyCall × Res PushError Unit)

/-- The bodies that calls on a fresh body lead to.  A panic ends the program, so that no call
follows it. -/
inductive BodyRun (truncate : Str → ℕ → Option Str) (debugAssertions : Bool) :
    BodyLog → MarshalledMessageBody → Prop
  | fresh (bo : ByteOrder) : BodyRun truncate debugAssertions [] (.withByteorder bo)
  | call {log : BodyLog} {b b' : MarshalledMessageBody} (c : BodyCall) (r : Res PushError Unit)
      (h : BodyRun truncate debugAssertions log b)
      (hrun : c.run truncate debugAssertions b = (r, b')) (hreturns : r ≠ .panic) :
      BodyRun truncate debugAssertions ((c, r) :: log) b'

/-- The parameters in a body: those of the successful pushes since the last reset. -/
def pushedParams : BodyLog → List Param
  | [] => []
  | (.reset, _) :: _ => []
  | (.push call, .ok ()) :: log => pushedParams log ++ call.added
  | (.push _, _) :: log => pushedParams log

end AsyncRustbus
