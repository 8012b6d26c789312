import AsyncRustbus.Message.Rollback
import Mathlib.Data.Set.Insert

set_option relaxedAutoImplicit false
set_option autoImplicit false

/-!
# Reading parameters from a body (`MessageBodyParser`)

The parser walks through the types of the signature and through the buffer with two cursors.  A
request for several parameters moves both as it goes and puts them back when it fails.

Descriptions of types are those of the `rustbus` crate: `Ty` is its `signature::Type`, and
`parse_description` a parameter.  `D` holds the values of all parameter types, so that a value
pushed as a `&str` and asked for as a `String` is the same element of `D`.

## Main definitions

* `AsyncRustbus.ParamType` — a type that is `Unmarshal`.
* `AsyncRustbus.MessageBodyParser` with `new`, `get`, `getMultHelper`, `get2` .. `get5`.
* `AsyncRustbus.GetCall`, `MessageBodyParser.getRun` — programs of requests.
* `AsyncRustbus.PushedValue`, `AsyncRustbus.RoundTrips` — what the code relies on about `rustbus`.

## Main results

* `BodyRun.exists_pushCores` — a body is what pushing its parameters in one go makes.
* `MessageBodyParser.InStep.run` — the three outcomes of a request.
* `AsyncRustbus.push_parse_round_trip` — the requests that succeed return the pushed values.
-/

namespace AsyncRustbus

/-! ## The parser -/

/-- `rustbus::message_builder::UnmarshalContext`. -/
structure UnmarshalContext where
  byteorder : ByteOrder
  buf : Bytes
  offset : ℕ
  fds : List UnixFd

/-- A type `T: Unmarshal`: `T::signature` and `T::unmarshal`, with the number of bytes consumed,
padding included. -/
structure ParamType (Ty D : Type) where
  signature : Ty
  unmarshal : UnmarshalContext → Except UnmarshalError (ℕ × D)

/-- The errors of a request: the two that the parser itself returns, both of them values of
`rustbus::wire::unmarshal::Error`, and those of the type that was asked for. -/
inductive GetError
  | endOfMessage
  | wrongSignature
  | unmarshal (e : UnmarshalError)
  deriving DecidableEq

/-- `rustbus::signature::Error`. -/
inductive SignatureError
  | emptySignature
  | other (name : Str)
  deriving DecidableEq

/-- `MessageBodyParser`. -/
structure MessageBodyParser (Ty : Type) where
  bufIdx : ℕ
  sigIdx : ℕ
  sigs : List Ty
  body : MarshalledMessageBody

namespace MessageBodyParser

variable {Ty D : Type}

/-- `MessageBodyParser::new`, which panics on a bad signature. -/
def new (parseDescription : Str → Except SignatureError (List Ty)) (body : MarshalledMessageBody) :
    Option (MessageBodyParser Ty) :=
  match parseDescription body.sig with
  | .ok sigs => some ⟨0, 0, sigs, body⟩
  | .error .emptySignature => some ⟨0, 0, [], body⟩
  | .error (.other _) => none

variable [DecidableEq Ty]

/-- `get`. -/
def get (T : ParamType Ty D) (p : MessageBodyParser Ty) :
    Except GetError D × MessageBodyParser Ty :=
  match p.sigs[p.sigIdx]? with
  | none => (.error .endOfMessage, p)
  | some sig =>
    if sig ≠ T.signature then (.error .wrongSignature, p)
    else
      match T.unmarshal ⟨p.body.byteorder, p.body.buf, p.bufIdx, p.body.rawFds⟩ with
      | .ok (bytes, res) => (.ok res, { p with bufIdx := p.bufIdx + bytes, sigIdx := p.sigIdx + 1 })
      | .error e => (.error (.unmarshal e), p)

/-- The closures of `get2` .. `get5`: one `get` after the other, up to the first that fails. -/
def getCalls : List (ParamType Ty D) → MessageBodyParser Ty →
    Except GetError (List D) × MessageBodyParser Ty
  | [], p => (.ok [], p)
  | T :: Ts, p =>
    match p.get T with
    | (.error e, p) => (.error e, p)
    | (.ok ret, p) =>
      match getCalls Ts p with
      | (.error e, p) => (.error e, p)
      | (.ok rets, p) => (.ok (ret :: rets), p)

/-- `get_mult_helper`: when the closure fails the cursors are put back. -/
def getMultHelper (count : ℕ)
    (getCalls : MessageBodyParser Ty → Except GetError (List D) × MessageBodyParser Ty)
    (p : MessageBodyParser Ty) : Except GetError (List D) × MessageBodyParser Ty :=
  if p.sigIdx + count > p.sigs.length then (.error .endOfMessage, p)
  else
    match getCalls p with
    | (.ok ret, p') => (.ok ret, p')
    | (.error e, p') => (.error e, { p' with sigIdx := p.sigIdx, bufIdx := p.bufIdx })

/-- `get2`. -/
def get2 (T₁ T₂ : ParamType Ty D) (p : MessageBodyParser Ty) :
    Except GetError (List D) × MessageBodyParser Ty :=
  p.getMultHelper 2 (getCalls [T₁, T₂])

/-- `get3`. -/
def get3 (T₁ T₂ T₃ : ParamType Ty D) (p : MessageBodyParser Ty) :
    Except GetError (List D) × MessageBodyParser Ty :=
  p.getMultHelper 3 (getCalls [T₁, T₂, T₃])

/-- `get4`. -/
def get4 (T₁ T₂ T₃ T₄ : ParamType Ty D) (p : MessageBodyParser Ty) :
    Except GetError (List D) × MessageBodyParser Ty :=
  p.getMultHelper 4 (getCalls [T₁, T₂, T₃, T₄])

/-- `get5`. -/
def get5 (T₁ T₂ T₃ T₄ T₅ : ParamType Ty D) (p : MessageBodyParser Ty) :
    Except GetError (List D) × MessageBodyParser Ty :=
  p.getMultHelper 5 (getCalls [T₁, T₂, T₃, T₄, T₅])

end MessageBodyParser

/-- A request with the types that are asked for. -/
inductive GetCall (Ty D : Type)
  | get (T : ParamType Ty D)
  | get2 (T₁ T₂ : ParamType Ty D)
  | get3 (T₁ T₂ T₃ : ParamType Ty D)
  | get4 (T₁ T₂ T₃ T₄ : ParamType Ty D)
  | get5 (T₁ T₂ T₃ T₄ T₅ : ParamType Ty D)

namespace GetCall

variable {Ty D : Type}

/-- The types that are asked for. -/
def types : GetCall Ty D → List (ParamType Ty D)
  | get T => [T]
  | get2 T₁ T₂ => [T₁, T₂]
  | get3 T₁ T₂ T₃ => [T₁, T₂, T₃]
  | get4 T₁ T₂ T₃ T₄ => [T₁, T₂, T₃, T₄]
  | get5 T₁ T₂ T₃ T₄ T₅ => [T₁, T₂, T₃, T₄, T₅]

/-- The request, with the values that it returns. -/
def run [DecidableEq Ty] (p : MessageBodyParser Ty) :
    GetCall Ty D → Except GetError (List D) × MessageBodyParser Ty
  | get T => ((p.get T).1.map ([·]), (p.get T).2)
  | get2 T₁ T₂ => p.get2 T₁ T₂
  | get3 T₁ T₂ T₃ => p.get3 T₁ T₂ T₃
  | get4 T₁ T₂ T₃ T₄ => p.get4 T₁ T₂ T₃ T₄
  | get5 T₁ T₂ T₃ T₄ T₅ => p.get5 T₁ T₂ T₃ T₄ T₅

end GetCall

/-- A program of requests, with the outcomes. -/
def MessageBodyParser.getRun {Ty D : Type} [DecidableEq Ty] (p : MessageBodyParser Ty) :
    List (GetCall Ty D) → List (Except GetError (List D)) × MessageBodyParser Ty
  | [] => ([], p)
  | call :: calls =>
    ((call.run p).1 :: ((call.run p).2.getRun calls).1, ((call.run p).2.getRun calls).2)

/-- The values that the successful requests returned. -/
def okValues {D : Type} : List (Except GetError (List D)) → List D
  | [] => []
  | .ok values :: outcomes => values ++ okValues outcomes
  | .error _ :: outcomes => okValues outcomes

/-! ## What the code relies on -/

/-- A value that is pushed: the parameter, its type and the value. -/
structure PushedValue (Ty D : Type) where
  param : Param
  type : Ty
  value : D

/-- A request for the type of a pushed value inverts its `marshal` at every offset, whatever
follows in the buffer and among the descriptors. -/
def ParamType.Inverts {Ty D : Type} (T : ParamType Ty D) (x : PushedValue Ty D) : Prop :=
  T.signature = x.type → ∀ c c' rest fds, x.param.marshal c = (.ok (), c') →
    T.unmarshal ⟨c.byteorder, c'.buf ++ rest, c.buf.length, c'.fds ++ fds⟩ =
      .ok (c'.buf.length - c.buf.length, x.value)

/-- What the code relies on about the values `Params` that are pushed and the types `Types` that
are asked for: parameters only add to the body, requests invert them, and `parse_description`
splits a concatenation of their signatures back into their types. -/
structure RoundTrips {Ty D : Type} (parseDescription : Str → Except SignatureError (List Ty))
    (Params : Set (PushedValue Ty D)) (Types : Set (ParamType Ty D)) : Prop where
  appends : ∀ x ∈ Params, x.param.Appends
  hasSignature : ∀ x ∈ Params, x.param.HasSignature
  inverts : ∀ x ∈ Params, ∀ T ∈ Types, T.Inverts x
  splits : ∀ xs : List (PushedValue Ty D), xs ≠ [] → (∀ x ∈ xs, x ∈ Params) →
    IsSignature (xs.map fun x => x.param.signature).flatten →
    parseDescription (xs.map fun x => x.param.signature).flatten =
      .ok (xs.map PushedValue.type)
  splits_nil : parseDescription [] = .error .emptySignature

/-! ## What is in a body -/

/-- **A body is what pushing its parameters in one go makes**, from an empty buffer and signature
and the descriptors that a reset left. -/
theorem BodyRun.exists_pushCores {truncate : Str → ℕ → Option Str} {debugAssertions : Bool}
    {log : BodyLog} {b : MarshalledMessageBody} (htruncate : RestoresSignature truncate)
    (h : BodyRun truncate debugAssertions log b) (hlog : ∀ e ∈ log, ∀ p ∈ e.1.args, p.Appends) :
    ∃ fds, pushCores debugAssertions (pushedParams log) ⟨⟨[], fds, b.byteorder⟩, []⟩ =
      (.ok (), b.createCtx2) := by
  induction h with
  | fresh bo => exact ⟨[], rfl⟩
  | @call log b b' c r hbefore hrun hreturns ih =>
    rw [List.forall_mem_cons] at hlog
    have hvalid := hbefore.valid htruncate fun e he p hp => (hlog.2 e he p hp).sigStr
    obtain ⟨fds, hfds⟩ := ih hlog.2
    obtain ⟨rfl, rfl⟩ | ⟨call, c', rfl, rfl, hcores, rfl⟩ | ⟨call, e, c', rfl, rfl, -⟩ :=
      BodyCall.run_cases htruncate hvalid (fun p hp => (hlog.1 p hp).sigStr) hrun hreturns
    · exact ⟨b.rawFds, rfl⟩
    · have hextends := @pushCores_extends debugAssertions call.added
        (PushCall.forall_added (fun p hp => hp.asVariant) hlog.1) b.createCtx2
      rw [hcores] at hextends
      refine ⟨fds, ?_⟩
      rw [MarshalledMessageBody.createCtx2_withCtx hextends.byteorder, pushedParams,
        pushCores_append]
      exact hfds ▸ hcores
    · rw [MarshalledMessageBody.eq_of_push_err htruncate hvalid hlog.1 hrun]
      exact ⟨fds, hfds⟩

/-! ## The cursors -/

namespace MessageBodyParser

variable {Ty D : Type} {debugAssertions : Bool} {xs : List (PushedValue Ty D)} {c₀ : PushCtx}
  {p : MessageBodyParser Ty}

/-- **The two cursors are in step**: the body holds the values `xs`, and the cursor of the buffer
stands behind as many of them as the cursor of the signature. -/
structure InStep (debugAssertions : Bool) (xs : List (PushedValue Ty D)) (c₀ : PushCtx)
    (p : MessageBodyParser Ty) : Prop where
  sigs : p.sigs = xs.map PushedValue.type
  body : pushCores debugAssertions (xs.map PushedValue.param) c₀ = (.ok (), p.body.createCtx2)
  le : p.sigIdx ≤ xs.length
  buf : ∃ c, pushCores debugAssertions ((xs.take p.sigIdx).map PushedValue.param) c₀ = (.ok (), c) ∧
    p.bufIdx = c.ctx.buf.length

variable [DecidableEq Ty]

/-- A failed `get` leaves the parser as it was. -/
lemma eq_of_get_error {T : ParamType Ty D} {p' : MessageBodyParser Ty} {e : GetError}
    (h : p.get T = (.error e, p')) : p' = p := by
  unfold MessageBodyParser.get at h
  split at h
  · exact (Prod.mk.inj h).2.symm
  · split_ifs at h
    · exact (Prod.mk.inj h).2.symm
    · split at h
      · cases h
      · exact (Prod.mk.inj h).2.symm

/-- Every request is a request for a list of types. -/
lemma run_eq (call : GetCall Ty D) (p : MessageBodyParser Ty) :
    call.run p = p.getMultHelper call.types.length (getCalls call.types) := by
  cases call with
  | get T =>
    rw [GetCall.run, getMultHelper, GetCall.types, List.length_singleton]
    by_cases hlt : p.sigIdx < p.sigs.length
    · rw [if_neg (Nat.not_lt.mpr hlt), getCalls]
      cases hget : p.get T with
      | mk r p' =>
        cases r with
        | ok ret => rfl
        | error e =>
          rw [eq_of_get_error hget]
          rfl
    · have hnone : p.sigs[p.sigIdx]? = none := List.getElem?_eq_none (Nat.le_of_not_lt hlt)
      rw [if_pos (by omega), MessageBodyParser.get, hnone]
      rfl
  | _ => rfl

/-- **The next value**: a request for its type returns it and moves both cursors behind it.

**Proof sketch.** The values are those already read, `x` and the others. `x` was marshalled into the
buffer as the first of them left it, and what was pushed later only extends the buffer and the
descriptors (`pushCores_extends`). So unmarshalling from the cursor gives `x` back, by `Inverts`,
and moves the cursor to the end of its bytes. -/
lemma InStep.get (h : p.InStep debugAssertions xs c₀) (happends : ∀ x ∈ xs, x.param.Appends)
    {T : ParamType Ty D} (hinverts : ∀ x ∈ xs, T.Inverts x) {x : PushedValue Ty D}
    (hx : xs[p.sigIdx]? = some x) (hsig : T.signature = x.type) :
    ∃ p', p.get T = (.ok x.value, p') ∧ p'.InStep debugAssertions xs c₀ ∧
      p'.sigIdx = p.sigIdx + 1 := by
  obtain ⟨hlt, hget⟩ := List.getElem?_eq_some_iff.mp hx
  have hmem : x ∈ xs := List.mem_of_getElem? hx
  have hsplit : xs = xs.take p.sigIdx ++ x :: xs.drop (p.sigIdx + 1) := by
    rw [← hget, ← List.drop_eq_getElem_cons hlt, List.take_append_drop]
  have htake : xs.take (p.sigIdx + 1) = xs.take p.sigIdx ++ [x] := by
    rw [List.take_add_one, hx]
    rfl
  obtain ⟨c, hbefore, hidx⟩ := h.buf
  -- What was pushed behind the values already read: the value `x`, then the others.
  have hbody := h.body
  rw [hsplit, List.map_append, pushCores_append, hbefore, List.map_cons] at hbody
  dsimp only at hbody
  rw [pushCores] at hbody
  split at hbody
  swap
  · rename_i hfailed
    exact absurd hbody (hfailed _)
  rename_i c₁ hcore
  obtain ⟨hmarshal, -⟩ := pushParamCore_eq_ok hcore
  have hgrow := (happends x hmem).marshal c.ctx
  rw [hmarshal] at hgrow
  have hrest := @pushCores_extends debugAssertions ((xs.drop (p.sigIdx + 1)).map PushedValue.param)
    (by
      intro q hq
      obtain ⟨y, hy, rfl⟩ := List.mem_map.mp hq
      exact happends y (List.mem_of_mem_drop hy)) c₁
  rw [hbody] at hrest
  obtain ⟨rest, hbuf⟩ := hrest.buf
  obtain ⟨fds, hfds⟩ := hrest.fds
  have hbo : p.body.byteorder = c.ctx.byteorder := hrest.byteorder.trans hgrow.byteorder
  have hunmarshal := hinverts x hmem hsig c.ctx c₁.ctx rest fds hmarshal
  have hlen : c.ctx.buf.length ≤ c₁.ctx.buf.length := hgrow.buf.length_le
  have htype : p.sigs[p.sigIdx]? = some x.type := by
    rw [h.sigs, List.getElem?_map, hx]
    rfl
  refine ⟨{ p with bufIdx := c₁.ctx.buf.length, sigIdx := p.sigIdx + 1 }, ?_, ?_, rfl⟩
  · have hctx : (⟨p.body.byteorder, p.body.buf, p.bufIdx, p.body.rawFds⟩ : UnmarshalContext) =
        ⟨c.ctx.byteorder, c₁.ctx.buf ++ rest, c.ctx.buf.length, c₁.ctx.fds ++ fds⟩ := by
      rw [hbo, hidx, hbuf, hfds]
      rfl
    have hmoved : c.ctx.buf.length + (c₁.ctx.buf.length - c.ctx.buf.length) =
        c₁.ctx.buf.length := by omega
    rw [MessageBodyParser.get, htype]
    simp only [ne_eq, hsig, not_true_eq_false, if_false]
    rw [hctx, hunmarshal]
    simp only [hidx, hmoved]
  · refine ⟨h.sigs, h.body, hlt, c₁, ?_, rfl⟩
    rw [htake, List.map_append, pushCores_append, hbefore]
    exact (pushCores_singleton x.param c).trans hcore

/-- A `get` changes neither the types nor the body. -/
lemma get_frame (T : ParamType Ty D) (p : MessageBodyParser Ty) :
    (p.get T).2.sigs = p.sigs ∧ (p.get T).2.body = p.body := by
  unfold MessageBodyParser.get
  split
  · exact ⟨rfl, rfl⟩
  · split_ifs
    · exact ⟨rfl, rfl⟩
    · split
      · exact ⟨rfl, rfl⟩
      · exact ⟨rfl, rfl⟩

/-- Several `get`s change neither the types nor the body. -/
lemma getCalls_frame (Ts : List (ParamType Ty D)) (p : MessageBodyParser Ty) :
    (getCalls Ts p).2.sigs = p.sigs ∧ (getCalls Ts p).2.body = p.body := by
  induction Ts generalizing p with
  | nil => exact ⟨rfl, rfl⟩
  | cons T Ts ih =>
    obtain ⟨hsigs, hbody⟩ := get_frame T p
    rw [getCalls]
    split
    · rename_i e p₁ hget
      rw [hget] at hsigs hbody
      exact ⟨hsigs, hbody⟩
    · rename_i ret p₁ hget
      rw [hget] at hsigs hbody
      obtain ⟨hsigs', hbody'⟩ := ih p₁
      split
      · rename_i e p₂ hcalls
        rw [hcalls] at hsigs' hbody'
        exact ⟨hsigs'.trans hsigs, hbody'.trans hbody⟩
      · rename_i rets p₂ hcalls
        rw [hcalls] at hsigs' hbody'
        exact ⟨hsigs'.trans hsigs, hbody'.trans hbody⟩

/-- The next value and the values behind it. -/
private lemma getElem?_and_drop_of_drop {α : Type} {xs rest : List α} {i : ℕ} {x : α}
    (h : xs.drop i = x :: rest) : xs[i]? = some x ∧ xs.drop (i + 1) = rest := by
  constructor
  · rw [← List.head?_drop, h]
    rfl
  · rw [← List.drop_drop, h]
    rfl

/-- `get`s for the types of the next values return these values.

**Proof sketch.** Induction on the types.  Behind the first value the cursors are in step
again. -/
lemma InStep.getCalls_ok (h : p.InStep debugAssertions xs c₀)
    (happends : ∀ x ∈ xs, x.param.Appends) {Ts : List (ParamType Ty D)}
    (hinverts : ∀ x ∈ xs, ∀ T ∈ Ts, T.Inverts x)
    (htypes : Ts.map ParamType.signature <+: (xs.drop p.sigIdx).map PushedValue.type) :
    ∃ p', getCalls Ts p = (.ok (((xs.drop p.sigIdx).take Ts.length).map PushedValue.value), p') ∧
      p'.InStep debugAssertions xs c₀ ∧ p'.sigIdx = p.sigIdx + Ts.length := by
  induction Ts generalizing p with
  | nil => exact ⟨p, by simp [getCalls], h, rfl⟩
  | cons T Ts ih =>
    cases hdrop : xs.drop p.sigIdx with
    | nil => simp [hdrop] at htypes
    | cons x rest =>
      rw [hdrop, List.map_cons, List.map_cons, List.cons_prefix_cons] at htypes
      obtain ⟨hx, hrest⟩ := getElem?_and_drop_of_drop hdrop
      obtain ⟨p₁, hget, hin, hidx⟩ := h.get happends
        (fun y hy => hinverts y hy T (by simp)) hx htypes.1
      obtain ⟨p₂, hcalls, hin₂, hidx₂⟩ := ih hin
        (fun y hy U hU => hinverts y hy U (by simp [hU])) (by rw [hidx, hrest]; exact htypes.2)
      rw [hidx, hrest] at hcalls
      refine ⟨p₂, ?_, hin₂, ?_⟩
      · rw [getCalls, hget]
        simp only [hcalls, List.length_cons, List.take_succ_cons, List.map_cons]
      · rw [hidx₂, hidx, List.length_cons]
        omega

/-- `get`s for other types fail on the first that is wrong.

**Proof sketch.** By induction on the types. If the first is wrong, the request for it fails. If it
is right, the request succeeds (`InStep.get`) and a later type is wrong, since the types are no
first part of those to come. -/
lemma InStep.getCalls_wrong (h : p.InStep debugAssertions xs c₀)
    (happends : ∀ x ∈ xs, x.param.Appends) {Ts : List (ParamType Ty D)}
    (hinverts : ∀ x ∈ xs, ∀ T ∈ Ts, T.Inverts x) (hle : p.sigIdx + Ts.length ≤ xs.length)
    (htypes : ¬ Ts.map ParamType.signature <+: (xs.drop p.sigIdx).map PushedValue.type) :
    (getCalls Ts p).1 = .error .wrongSignature := by
  induction Ts generalizing p with
  | nil => exact absurd List.nil_prefix htypes
  | cons T Ts ih =>
    rw [List.length_cons] at hle
    cases hdrop : xs.drop p.sigIdx with
    | nil =>
      have := List.drop_eq_nil_iff.mp hdrop
      omega
    | cons x rest =>
      rw [hdrop, List.map_cons, List.map_cons, List.cons_prefix_cons, not_and] at htypes
      obtain ⟨hx, hrest⟩ := getElem?_and_drop_of_drop hdrop
      by_cases hsig : T.signature = x.type
      · -- The first type is right, so a later one is wrong.
        obtain ⟨p₁, hget, hin, hidx⟩ := h.get happends
          (fun y hy => hinverts y hy T (by simp)) hx hsig
        have hwrong := ih hin (fun y hy U hU => hinverts y hy U (by simp [hU])) (by omega)
          (by rw [hidx, hrest]; exact htypes hsig)
        rw [getCalls, hget]
        dsimp only
        split
        · rename_i e p₂ hcalls
          rw [hcalls] at hwrong
          exact hwrong
        · rename_i rets p₂ hcalls
          rw [hcalls] at hwrong
          cases hwrong
      · have htype : p.sigs[p.sigIdx]? = some x.type := by
          rw [h.sigs, List.getElem?_map, hx]
          rfl
        have hget : p.get T = (.error .wrongSignature, p) := by
          rw [MessageBodyParser.get, htype]
          simp only [ne_eq, Ne.symm hsig, not_false_eq_true, if_true]
        rw [getCalls, hget]

/-! ## Requests -/

/-- **The outcomes of a request**: the next values when their types were asked for, an error and
an unchanged parser otherwise.

**Proof sketch.** If the types are those of the next values, there are enough of them and each
request succeeds (`getCalls_ok`). Otherwise there are too few values, or a request fails on a wrong
type (`getCalls_wrong`); both put the cursors back, and the rest of the parser is unchanged
(`getCalls_frame`). -/
theorem InStep.run (h : p.InStep debugAssertions xs c₀) (happends : ∀ x ∈ xs, x.param.Appends)
    (call : GetCall Ty D) (hinverts : ∀ x ∈ xs, ∀ T ∈ call.types, T.Inverts x) :
    (call.types.map ParamType.signature <+: (xs.drop p.sigIdx).map PushedValue.type ∧
      ∃ p', call.run p =
          (.ok (((xs.drop p.sigIdx).take call.types.length).map PushedValue.value), p') ∧
        p'.InStep debugAssertions xs c₀ ∧ p'.sigIdx = p.sigIdx + call.types.length) ∨
    (¬ call.types.map ParamType.signature <+: (xs.drop p.sigIdx).map PushedValue.type ∧
      call.run p = (.error (if xs.length < p.sigIdx + call.types.length then .endOfMessage
        else .wrongSignature), p)) := by
  have hlen : p.sigs.length = xs.length := by rw [h.sigs, List.length_map]
  rw [run_eq, getMultHelper, hlen]
  by_cases htypes : call.types.map ParamType.signature <+:
      (xs.drop p.sigIdx).map PushedValue.type
  · left
    have hle := htypes.length_le
    rw [List.length_map, List.length_map, List.length_drop] at hle
    have hidx := h.le
    obtain ⟨p', hcalls, hin, hmoved⟩ := h.getCalls_ok happends hinverts htypes
    rw [if_neg (by omega), hcalls]
    exact ⟨htypes, p', rfl, hin, hmoved⟩
  · refine .inr ⟨htypes, ?_⟩
    by_cases hlt : xs.length < p.sigIdx + call.types.length
    · rw [if_pos hlt, if_pos hlt]
    · have hwrong := h.getCalls_wrong happends hinverts (Nat.le_of_not_lt hlt) htypes
      obtain ⟨hsigs, hbody⟩ := getCalls_frame call.types p
      rw [if_neg hlt, if_neg hlt]
      split
      · rename_i ret p' hcalls
        rw [hcalls] at hwrong
        cases hwrong
      · rename_i e p' hcalls
        rw [hcalls] at hwrong hsigs hbody
        cases hwrong
        obtain ⟨bufIdx, sigIdx, sigs, body⟩ := p
        subst hsigs hbody
        rfl

/-- **The cursors stay in step** through a program of requests, and the requests that succeed
return the values that the cursors pass. -/
lemma InStep.getRun (happends : ∀ x ∈ xs, x.param.Appends) (calls : List (GetCall Ty D))
    (hinverts : ∀ x ∈ xs, ∀ call ∈ calls, ∀ T ∈ call.types, T.Inverts x)
    (h : p.InStep debugAssertions xs c₀) :
    (p.getRun calls).2.InStep debugAssertions xs c₀ ∧
      (xs.take p.sigIdx).map PushedValue.value ++ okValues (p.getRun calls).1 =
        (xs.take (p.getRun calls).2.sigIdx).map PushedValue.value := by
  induction calls generalizing p with
  | nil => exact ⟨h, by simp [MessageBodyParser.getRun, okValues]⟩
  | cons call calls ih =>
    have hinverts' : ∀ x ∈ xs, ∀ call' ∈ calls, ∀ T ∈ call'.types, T.Inverts x :=
      fun x hx call' hcall' => hinverts x hx call' (by simp [hcall'])
    rw [MessageBodyParser.getRun]
    rcases h.run happends call (fun x hx => hinverts x hx call (by simp)) with
      ⟨-, p', hrun, hin, hidx⟩ | ⟨-, hrun⟩
    · obtain ⟨hin', hvalues⟩ := ih hinverts' hin
      rw [hrun]
      refine ⟨hin', ?_⟩
      rw [← hvalues, hidx, List.take_add, List.map_append, List.append_assoc]
      rfl
    · rw [hrun]
      exact ih hinverts' h

end MessageBodyParser

/-! ## The round trip -/

section RoundTrip

variable {Ty D : Type} {truncate : Str → ℕ → Option Str} {debugAssertions : Bool}
  {parseDescription : Str → Except SignatureError (List Ty)} {Params : Set (PushedValue Ty D)}
  {Types : Set (ParamType Ty D)} {log : BodyLog} {b : MarshalledMessageBody}
  {xs : List (PushedValue Ty D)}

/-- The parser of a body starts with its cursors in step.

**Proof sketch.** The body holds the values of the calls that were not undone (`exists_pushCores`),
so its signature is made of theirs and is valid. The parser splits it into their types again, and
both cursors stand in front of the first value. -/
lemma RoundTrips.exists_new (h : RoundTrips parseDescription Params Types)
    (htruncate : RestoresSignature truncate) (hrun : BodyRun truncate debugAssertions log b)
    (hlog : ∀ e ∈ log, ∀ p ∈ e.1.args, p.Appends) (hxs : ∀ x ∈ xs, x ∈ Params)
    (hpushed : pushedParams log = xs.map PushedValue.param) :
    ∃ p c₀, MessageBodyParser.new parseDescription b = some p ∧
      p.InStep debugAssertions xs c₀ ∧ p.sigIdx = 0 := by
  obtain ⟨fds, hcores⟩ := hrun.exists_pushCores htruncate hlog
  rw [hpushed] at hcores
  have hsignatures : ∀ q ∈ xs.map PushedValue.param, q.HasSignature := by
    intro q hq
    obtain ⟨x, hx, rfl⟩ := List.mem_map.mp hq
    exact h.hasSignature x (hxs x hx)
  have hsig : b.sig = (xs.map fun x => x.param.signature).flatten := by
    have := pushCores_sig hsignatures hcores
    rwa [List.nil_append, List.map_map] at this
  have hvalid := hrun.valid htruncate fun e he p hp => (hlog e he p hp).sigStr
  have hstart := fun sigs (hsigs : sigs = xs.map PushedValue.type) =>
    (⟨hsigs, hcores, Nat.zero_le _, _, rfl, rfl⟩ :
      MessageBodyParser.InStep debugAssertions xs ⟨⟨[], fds, b.byteorder⟩, []⟩ ⟨0, 0, sigs, b⟩)
  by_cases hnil : xs = []
  · refine ⟨⟨0, 0, [], b⟩, _, ?_, hstart [] (by rw [hnil]; rfl), rfl⟩
    rw [MessageBodyParser.new, hsig, hnil, List.map_nil, List.flatten_nil, h.splits_nil]
  · refine ⟨⟨0, 0, xs.map PushedValue.type, b⟩, _, ?_, hstart _ rfl, rfl⟩
    have hsplits := h.splits xs hnil hxs (hsig ▸ isSignature_of_validateSigStr hvalid)
    rw [MessageBodyParser.new, hsig, hsplits]

/-- **The round trip of pushing and parsing.**  Let the body hold the values `xs`, pushed by any
calls, in any grouping.  Then the parser can be made, and after any program of requests:

* the requests that succeeded have returned, in order and each once, the first of the values, as
  many as the cursor of the signature has passed;
* a request succeeds if and only if it asks for the types of the next values;
* a request that fails leaves both cursors as they were;
* behind the last value every request ends with `EndOfMessage`.

**Proof sketch.** The parser starts with its cursors in step (`exists_new`) and every request keeps
them so (`InStep.getRun`), which is the first part. For one more request `InStep.run` gives the two
outcomes: it succeeds exactly for the types of the next values, and otherwise nothing is moved.
Behind the last value no types are left, and a request asks for at least one. -/
theorem push_parse_round_trip [DecidableEq Ty] (h : RoundTrips parseDescription Params Types)
    (htruncate : RestoresSignature truncate) (hrun : BodyRun truncate debugAssertions log b)
    (hlog : ∀ e ∈ log, ∀ p ∈ e.1.args, p.Appends) (hxs : ∀ x ∈ xs, x ∈ Params)
    (hpushed : pushedParams log = xs.map PushedValue.param) :
    ∃ p, MessageBodyParser.new parseDescription b = some p ∧
      ∀ calls, (∀ call ∈ calls, ∀ T ∈ call.types, T ∈ Types) →
        ∀ q outcomes, p.getRun calls = (outcomes, q) →
          okValues outcomes = (xs.map PushedValue.value).take q.sigIdx ∧ q.sigIdx ≤ xs.length ∧
          ∀ call : GetCall Ty D, (∀ T ∈ call.types, T ∈ Types) →
            ((∃ values q', call.run q = (.ok values, q')) ↔
              call.types.map ParamType.signature <+: (xs.map PushedValue.type).drop q.sigIdx) ∧
            (∀ e q', call.run q = (.error e, q') →
              q'.sigIdx = q.sigIdx ∧ q'.bufIdx = q.bufIdx) ∧
            (q.sigIdx = xs.length → call.run q = (.error .endOfMessage, q)) := by
  obtain ⟨p, c₀, hnew, hin, hzero⟩ := h.exists_new htruncate hrun hlog hxs hpushed
  have happends : ∀ x ∈ xs, x.param.Appends := fun x hx => h.appends x (hxs x hx)
  have hinverts : ∀ call : GetCall Ty D, (∀ T ∈ call.types, T ∈ Types) →
      ∀ x ∈ xs, ∀ T ∈ call.types, T.Inverts x :=
    fun call hcall x hx T hT => h.inverts x (hxs x hx) T (hcall T hT)
  refine ⟨p, hnew, ?_⟩
  intro calls hcalls q outcomes hget
  obtain ⟨hin, hvalues⟩ := MessageBodyParser.InStep.getRun happends calls
    (fun x hx call hcall => hinverts call (hcalls call hcall) x hx) hin
  rw [hget, hzero, List.take_zero, List.map_nil, List.nil_append] at hvalues
  rw [hget] at hin
  dsimp only at hin hvalues
  refine ⟨by rw [hvalues, List.map_take], hin.le, ?_⟩
  intro call hcall
  rw [← List.map_drop]
  have hcount : call.types ≠ [] := by cases call <;> simp [GetCall.types]
  rcases hin.run happends call (hinverts call hcall) with
    ⟨htypes, q', hok, -, -⟩ | ⟨htypes, herr⟩
  · refine ⟨⟨fun _ => htypes, fun _ => ⟨_, q', hok⟩⟩, ?_, ?_⟩
    · intro e q'' he
      rw [hok] at he
      cases he
    · intro hend
      have hdrop : xs.drop q.sigIdx = [] := List.drop_eq_nil_of_le (Nat.le_of_eq hend.symm)
      rw [hdrop, List.map_nil, List.prefix_nil, List.map_eq_nil_iff] at htypes
      exact absurd htypes hcount
  · refine ⟨⟨?_, fun hpre => absurd hpre htypes⟩, ?_, ?_⟩
    · rintro ⟨values, q', hok⟩
      rw [herr] at hok
      cases hok
    · intro e q' he
      rw [herr] at he
      cases he
      exact ⟨rfl, rfl⟩
    · intro hend
      have hpos := List.length_pos_iff.mpr hcount
      rw [herr, if_pos (by omega)]

end RoundTrip

/-! ## Strings -/

/-- A pushed string. -/
def PushedValue.str (s : Str) : PushedValue Str (Str ⊕ UInt32) := ⟨.str s, ['s'], .inl s⟩

/-- A request for a `String`. -/
def ParamType.str : ParamType Str (Str ⊕ UInt32) where
  signature := ['s']
  unmarshal ctx := match Wire.readStr ctx.byteorder ctx.buf ctx.offset with
    | some (s, offset) => .ok (offset - ctx.offset, .inl s)
    | none => .error .notEnoughBytes

/-- A request for a `u32`. -/
def ParamType.u32 : ParamType Str (Str ⊕ UInt32) where
  signature := ['u']
  unmarshal ctx := match Wire.readU32 ctx.byteorder ctx.buf ctx.offset with
    | some (n, offset) => .ok (offset - ctx.offset, .inr n)
    | none => .error .notEnoughBytes

/-- `Type::parse_description` on the signatures of basic types. -/
def describeBasic (sig : Str) : Except SignatureError (List Str) :=
  if sig = [] then .error .emptySignature else .ok (sig.map ([·]))

/-- Strings of less than `2 ^ 32` bytes are read back.

**Proof sketch.** A string appends its length, its bytes and a NUL, which `Wire.readStr` reads back.
A signature of strings is one code for each, by induction on the values. -/
lemma roundTrips_str : RoundTrips describeBasic
    {x | ∃ s, (toUtf8 s).length < 2 ^ 32 ∧ x = .str s} {.str, .u32} where
  appends := by
    rintro x ⟨s, -, rfl⟩
    exact Param.str_appends s
  hasSignature := by
    rintro x ⟨s, -, rfl⟩
    exact Param.str_hasSignature s
  inverts := by
    rintro x ⟨s, hs, rfl⟩ T (rfl | rfl)
    · intro _ c c' rest fds hmarshal
      simp only [PushedValue.str, Param.str] at hmarshal
      obtain ⟨-, rfl⟩ := Prod.mk.inj hmarshal
      have hread := Wire.readStr_marshalStr c.byteorder s c.buf rest hs
      simp only [ParamType.str, hread, PushedValue.str]
    · intro hsig
      cases hsig
  splits := by
    intro xs hne hxs hsig
    have htypes : (xs.map fun x => x.param.signature).flatten.map ([·]) =
        xs.map PushedValue.type := by
      clear hne hsig
      induction xs with
      | nil => rfl
      | cons x xs ih =>
        rw [List.forall_mem_cons] at hxs
        obtain ⟨s, -, rfl⟩ := hxs.1
        rw [List.map_cons, List.flatten_cons, List.map_append, ih hxs.2]
        rfl
    rw [describeBasic, if_neg, htypes]
    intro hnil
    rw [hnil, List.map_nil] at htypes
    exact hne (List.map_eq_nil_iff.mp htypes.symm)
  splits_nil := rfl

/-- Two strings pushed at once are read back after requests for a `u32` and for three strings. -/
theorem push_parse_round_trip_str :
    ∃ b p, MarshalledMessageBody.new.pushParam2 truncateText true (.str ['a']) (.str ['b']) =
        (.ok (), b) ∧
      MessageBodyParser.new describeBasic b = some p ∧
      okValues (p.getRun [.get2 .str .u32, .get3 .str .str .str, .get .str, .get .str]).1 =
        [.inl ['a'], .inl ['b']] := by
  have hrun := BodyRun.call (.push (.param2 (.str ['a']) (.str ['b']))) (.ok ())
    (@BodyRun.fresh truncateText true .littleEndian) rfl (by simp)
  have hxs : ∀ x ∈ [PushedValue.str ['a'], PushedValue.str ['b']],
      x ∈ {x | ∃ s, (toUtf8 s).length < 2 ^ 32 ∧ x = PushedValue.str s} := by
    simp only [List.forall_mem_cons, Set.mem_ofPred_eq]
    exact ⟨⟨['a'], by decide, rfl⟩, ⟨['b'], by decide, rfl⟩, by simp⟩
  obtain ⟨p, hnew, hgets⟩ := push_parse_round_trip roundTrips_str restoresSignature_truncateText
    hrun (by simp [BodyCall.args, PushCall.args, Param.str_appends]) hxs rfl
  cases hnew
  have hvalues := (hgets [.get2 .str .u32, .get3 .str .str .str, .get .str, .get .str]
    (by simp [GetCall.types]) _ _ rfl).1
  exact ⟨_, _, rfl, rfl, hvalues⟩

end AsyncRustbus
