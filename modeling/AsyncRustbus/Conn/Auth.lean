import AsyncRustbus.Conn.ExternalAuth
import AsyncRustbus.Conn.Recv
import AsyncRustbus.Conn.Sender
import AsyncRustbus.Lib.Program

set_option relaxedAutoImplicit false
set_option autoImplicit false

/-!
# The handshake (`conn_handshake`)

The client asks for the authentication mechanisms, tries `EXTERNAL` and then `ANONYMOUS` where they
are offered, negotiates descriptors, and begins.  The peer is any function that answers what is
written to it: it may send anything in any pieces, refuse to read, or break the connection.

## Main definitions

* `AsyncRustbus.Peer`, `AsyncRustbus.Session` — the other side, and the connection as the client
  sees it.
* `AsyncRustbus.findAuthMechs`, `awaitOk`, `doExternalAuth`, `doAnonAuth`, `doAuth`,
  `negotiateUnixFds`, `connHandshake` — the code.
* `AsyncRustbus.Authenticated` — what has been said when a mechanism was accepted.

## Main results

* `AsyncRustbus.connHandshake_begins` — with any peer, `BEGIN` is the last thing that is written,
  and only behind a mechanism that was offered and accepted and, where they are wanted, agreed
  descriptors.
-/

namespace AsyncRustbus

/-! ## The connection -/

/-- The errors of the handshake, with their texts in the source. -/
inductive AuthError
  /-- An error from the stream. -/
  | io
  /-- "Invalid AUTH response from remote!" -/
  | invalidResponse
  /-- "External authentication failed with remote!" -/
  | refused
  /-- "Remote doesn't support our auth methods!" -/
  | unsupported
  /-- "Failed to negotiate Unix FDs!" -/
  | noFds
  deriving DecidableEq

/-- Why the handshake stops: an error, a panic, or the fuel of a loop is used up. -/
inductive AuthStop
  | err (e : AuthError)
  | panic
  | running
  deriving DecidableEq

/-- The error that a `match` on the result of a call gets. -/
def AuthStop.error? : AuthStop → Option AuthError
  | .err e => some e
  | _ => none

/-- What the peer does when something is written to it: whether `write_all` succeeds, what it
sends, and whether the stream fails behind that. -/
structure PeerReply (σ : Type) where
  state : σ
  written : Bool
  chunks : List Bytes
  nonempty : ∀ c ∈ chunks, c ≠ []
  broken : Bool

/-- The other side of the connection. -/
abbrev Peer (σ : Type) := σ → Bytes → PeerReply σ

/-- What has happened: something was written, the result of `starts_with`, or an error of the
stream. -/
inductive AuthEvent
  | wrote (bytes : Bytes)
  | read (buf : Bytes) (result : Option Bytes)
  | failed
  deriving DecidableEq

/-- The state of the peer, what it has sent and the client has not read, and what has happened. -/
structure Session (σ : Type) where
  peer : σ
  stream : ByteStream
  broken : Bool
  log : List AuthEvent

/-- A new connection. -/
def Session.new {σ : Type} (peer : σ) : Session σ := ⟨peer, ⟨[], by simp⟩, false, []⟩

/-- More chunks to read. -/
def ByteStream.append (s : ByteStream) (chunks : List Bytes) (h : ∀ c ∈ chunks, c ≠ []) :
    ByteStream :=
  ⟨s.chunks ++ chunks, List.forall_mem_append.mpr ⟨s.nonempty, h⟩⟩

/-- A part of the handshake. -/
abbrev AuthM (σ α : Type) := Program (Session σ) AuthStop α

/-- The build, the caller and the process: debug assertions, overflow checks, fuel for the loops,
the effective uid, whether descriptors are wanted, and whether `dup` fails. -/
structure AuthConfig where
  debugAssertions : Bool
  overflowChecks : Bool
  fuel : ℕ
  uid : UInt32
  withFd : Bool
  dupFails : Bool

variable {σ : Type} (cfg : AuthConfig) (peer : Peer σ)

/-- `stream.write_all`. -/
def writeAll (bytes : Bytes) : AuthM σ Unit :=
  .of fun s =>
    let reply := peer s.peer bytes
    let s' : Session σ :=
      { peer := reply.state, stream := s.stream.append reply.chunks reply.nonempty,
        broken := s.broken || reply.broken,
        log := s.log ++ [if reply.written then .wrote bytes else .failed] }
    if reply.written then (.ok (), s') else (.error (.err .io), s')

/-- The loop of `starts_with` on a stream that may fail when nothing is left to read. -/
def readLineLoop (broken : Bool) (buf : Bytes) :
    ℕ → LineRead → Except AuthStop (Option Bytes) × ByteStream
  | 0, s => (.error .running, s.stream)
  | fuel + 1, s =>
    match startsWithStep buf s with
    | .inl result => (.ok result, s.stream)
    | .inr s' =>
      if broken ∧ s.stream.chunks = [] then (.error (.err .io), s.stream)
      else readLineLoop broken buf fuel s'

/-- `starts_with`. -/
def readLine (buf : Bytes) : AuthM σ (Option Bytes) :=
  .of fun s =>
    if cfg.debugAssertions ∧ ¬ buf.length ≤ 510 then (.error .panic, s)
    else
      match readLineLoop s.broken buf cfg.fuel ⟨[], s.stream⟩ with
      | (.ok result, stream) =>
        (.ok result, { s with stream := stream, log := s.log ++ [.read buf result] })
      | (.error (.err e), stream) =>
        (.error (.err e), { s with stream := stream, log := s.log ++ [.failed] })
      | (.error stop, stream) => (.error stop, { s with stream := stream })

/-! ## The code -/

/-- `b"AUTH\r\n"`. -/
def authLine : Bytes := toUtf8 ['A', 'U', 'T', 'H'] ++ dbusLineEnd

/-- `b"REJECTED"`. -/
def rejectedWord : Bytes := toUtf8 ['R', 'E', 'J', 'E', 'C', 'T', 'E', 'D']

/-- `b"OK"`. -/
def okWord : Bytes := toUtf8 ['O', 'K']

/-- `b"AUTH ANONYMOUS\r\n"`. -/
def authAnonymousLine : Bytes :=
  toUtf8 ['A', 'U', 'T', 'H', ' ', 'A', 'N', 'O', 'N', 'Y', 'M', 'O', 'U', 'S'] ++ dbusLineEnd

/-- `b"NEGOTIATE_UNIX_FD\r\n"`. -/
def negotiateLine : Bytes :=
  toUtf8 ['N', 'E', 'G', 'O', 'T', 'I', 'A', 'T', 'E', '_', 'U', 'N', 'I', 'X', '_', 'F', 'D'] ++
    dbusLineEnd

/-- `b"AGREE_UNIX_FD"`. -/
def agreeWord : Bytes := toUtf8 ['A', 'G', 'R', 'E', 'E', '_', 'U', 'N', 'I', 'X', '_', 'F', 'D']

/-- `b"BEGIN\r\n"`. -/
def beginLine : Bytes := toUtf8 ['B', 'E', 'G', 'I', 'N'] ++ dbusLineEnd

/-- `"EXTERNAL"`. -/
def externalName : Str := ['E', 'X', 'T', 'E', 'R', 'N', 'A', 'L']

/-- `"ANONYMOUS"`. -/
def anonymousName : Str := ['A', 'N', 'O', 'N', 'Y', 'M', 'O', 'U', 'S']

/-- The mechanisms in the answer to `AUTH`: a text that is split at its spaces.  Without an answer
that starts with `REJECTED` there are none. -/
def parseMechs : Option Bytes → Except AuthError (List Str)
  | none => .ok []
  | some rest =>
    if rest.isEmpty then .ok []
    else
      match fromUtf8 rest with
      | none => .error .invalidResponse
      | some text => .ok (text.splitOn ' ')

/-- `find_auth_mechs`.  The set is the list of its elements. -/
def findAuthMechs : AuthM σ (List Str) := do
  writeAll peer authLine
  let ret ← readLine cfg rejectedWord
  match parseMechs ret with
  | .ok mechs => pure mechs
  | .error e => throw (.err e)

/-- `await_ok`. -/
def awaitOk : AuthM σ Unit := do
  match ← readLine cfg okWord with
  | some _ => pure ()
  | none => throw (.err .refused)

/-- `do_external_auth`. -/
def doExternalAuth : AuthM σ Unit :=
  match externalAuthLine cfg.overflowChecks cfg.fuel cfg.uid with
  | none => throw .running
  | some (.ok toWrite) => do
    writeAll peer toWrite
    awaitOk cfg
  | some _ => throw .panic

/-- `do_anon_auth`. -/
def doAnonAuth : AuthM σ Unit := do
  writeAll peer authAnonymousLine
  awaitOk cfg

/-- The end of `do_auth`: `ANONYMOUS`, where nothing or a failed attempt stands before it. -/
def doAuthAnonymous (authMechs : List Str) (err : Option AuthError) : AuthM σ Unit := do
  if anonymousName ∈ authMechs then
    match ← Program.attempt AuthStop.error? (doAnonAuth cfg peer) with
    | .ok _ => pure ()
    | .error e => throw (.err e)
  else
    match err with
    | some e => throw (.err e)
    | none => throw (.err .unsupported)

/-- `do_auth`. -/
def doAuth : AuthM σ Unit := do
  writeAll peer [0]
  let authMechs ← findAuthMechs cfg peer
  if externalName ∈ authMechs then
    match ← Program.attempt AuthStop.error? (doExternalAuth cfg peer) with
    | .ok _ => pure ()
    | .error e => doAuthAnonymous cfg peer authMechs (some e)
  else doAuthAnonymous cfg peer authMechs none

/-- `negotiate_unix_fds`. -/
def negotiateUnixFds : AuthM σ Bool := do
  writeAll peer negotiateLine
  let answer ← readLine cfg agreeWord
  pure answer.isSome

/-- The first part of `conn_handshake`: the authentication and the descriptors. -/
def agree : AuthM σ Unit := do
  doAuth cfg peer
  if cfg.withFd then
    if ← negotiateUnixFds cfg peer then pure () else throw (.err .noFds)

/-- `conn_handshake`: the states of the receiver and the sender. -/
def connHandshake : AuthM σ (RecvState × SendState) := do
  agree cfg peer
  writeAll peer beginLine
  if cfg.dupFails then throw (.err .io)
  else pure (RecvState.new cfg.withFd 4096, SendState.new cfg.withFd)

/-! ## What has been said -/

/-- The mechanisms that the peer has offered. -/
def Offers (mechs : List Str) (log : List AuthEvent) : Prop :=
  ∃ reply more, log = [.wrote [0], .wrote authLine, .read rejectedWord reply] ++ more ∧
    parseMechs reply = .ok mechs

/-- A mechanism was offered and tried, and the peer has answered `OK`. -/
def Authenticated (log : List AuthEvent) : Prop :=
  ∃ mechs pre line rest, Offers mechs pre ∧
    log = pre ++ [.wrote line, .read okWord (some rest)] ∧
    (externalName ∈ mechs ∧ externalAuthLine cfg.overflowChecks cfg.fuel cfg.uid = some (.ok line) ∨
      anonymousName ∈ mechs ∧ line = authAnonymousLine)

/-- Nothing has begun, and what `conn_handshake` needs before that has been said: the peer accepts
a mechanism and, where they are wanted, agrees to descriptors. -/
structure Agreed (log : List AuthEvent) : Prop where
  notBegun : .wrote beginLine ∉ log
  said : ∃ auth, Authenticated cfg auth ∧
    if cfg.withFd then
      ∃ rest, log = auth ++ [.wrote negotiateLine, .read agreeWord (some rest)]
    else log = auth

/-- Mechanisms are offered and nothing has begun. -/
structure Trying (mechs : List Str) (log : List AuthEvent) : Prop where
  offers : Offers mechs log
  notBegun : .wrote beginLine ∉ log

variable {cfg} {mechs : List Str} {log : List AuthEvent}

/-- Other events do not begin anything. -/
lemma Trying.append (h : Trying mechs log) {events : List AuthEvent}
    (hevents : .wrote beginLine ∉ events) : Trying mechs (log ++ events) := by
  obtain ⟨reply, more, hlog, hmechs⟩ := h.offers
  refine ⟨⟨reply, more ++ events, ?_, hmechs⟩, ?_⟩
  · rw [hlog, List.append_assoc]
  · exact fun hmem => (List.mem_append.mp hmem).elim h.notBegun hevents

/-- The line of `EXTERNAL` is another one than `BEGIN`. -/
lemma externalAuthLine_ne_beginLine {line : Bytes}
    (h : externalAuthLine cfg.overflowChecks cfg.fuel cfg.uid = some (.ok line)) :
    line ≠ beginLine := by
  have hhead : ∃ digits, line = authExternal ++ digits := by
    unfold externalAuthLine at h
    split at h
    · cases h
    · split at h
      · cases h
      · rename_i digits _
        exact ⟨digits ++ dbusLineEnd, by rw [← Res.ok.inj (Option.some.inj h), List.append_assoc]⟩
    · cases h
  obtain ⟨digits, rfl⟩ := hhead
  intro heq
  have hfirst := congrArg List.head? heq
  rw [List.head?_append, show authExternal.head? = some 65 by decide,
    show beginLine.head? = some 66 by decide] at hfirst
  cases hfirst

section Triples

variable (cfg) (log)

open Program

/-- What holds for each log with a property. -/
lemma triple_of_log {α : Type} {m : AuthM σ α} {C : List AuthEvent → Prop}
    {Q : α → Session σ → Prop} {E : AuthStop → Session σ → Prop}
    (h : ∀ log, C log → Triple (fun s => s.log = log) m Q E) : Triple (fun s => C s.log) m Q E :=
  fun s hs => h s.log hs s rfl

/-- Writing is recorded. -/
lemma writeAll_triple (bytes : Bytes) : Triple (fun s => s.log = log) (writeAll peer bytes)
    (fun _ s => s.log = log ++ [.wrote bytes]) (fun _ s => s.log = log ++ [.failed]) := by
  rintro s rfl
  simp only [writeAll, exec_of]
  cases (peer s.peer bytes).written
  · rfl
  · rfl

/-- Reading is recorded. -/
lemma readLine_triple (buf : Bytes) : Triple (fun s : Session σ => s.log = log)
    (readLine cfg buf) (fun result s => s.log = log ++ [.read buf result])
    (fun _ s => s.log = log ∨ s.log = log ++ [.failed]) := by
  rintro s rfl
  simp only [readLine, exec_of]
  split_ifs
  · exact .inl rfl
  · rcases readLineLoop s.broken buf cfg.fuel ⟨[], s.stream⟩ with ⟨(_ | _ | _) | _, stream⟩
    · exact .inr rfl
    · exact .inl rfl
    · exact .inl rfl
    · rfl

/-- **Waiting for `OK`** behind the line of a mechanism.

**Proof sketch.** The events after the line are a read or its failure, and none of them writes
`BEGIN`, so that the log stays one of a client that is trying. `readLine_triple` for the word `OK`;
an answer with another word is thrown. -/
lemma awaitOk_triple {line : Bytes} (hlog : Trying mechs log) (hline : line ≠ beginLine) :
    Triple (fun s : Session σ => s.log = log ++ [.wrote line]) (awaitOk cfg)
      (fun _ s => ∃ rest, s.log = log ++ [.wrote line, .read okWord (some rest)])
      (fun _ s => Trying mechs s.log) := by
  have htried : ∀ events : List AuthEvent, .wrote beginLine ∉ events →
      Trying mechs (log ++ [.wrote line] ++ events) := by
    intro events hevents
    rw [List.append_assoc]
    refine hlog.append fun hmem => ?_
    rcases List.mem_append.mp hmem with hmem | hmem
    · exact hline (AuthEvent.wrote.inj (List.mem_singleton.mp hmem)).symm
    · exact hevents hmem
  refine Triple.bind ((readLine_triple cfg (log ++ [.wrote line]) okWord).mono (fun _ h => h)
    (fun _ _ h => h) fun e s h => ?_) fun answer => ?_
  · rcases h with h | h
    · rw [h, ← List.append_nil (log ++ _)]
      exact htried [] (by simp)
    · rw [h]
      exact htried [.failed] (by simp)
  · cases answer with
    | some rest => exact Triple.pure fun s h => ⟨rest, by rw [h]; simp⟩
    | none =>
      refine Triple.throw fun s h => ?_
      rw [h]
      exact htried _ (by simp)

/-- Asking for the mechanisms.

**Proof sketch.** The three steps in their order: the line `AUTH` is written (`writeAll_triple`), a
line with the word `REJECTED` is read (`readLine_triple`), and what it says is parsed. None of the
events writes `BEGIN`, whether the step succeeds or stops. -/
lemma findAuthMechs_triple :
    Triple (fun s : Session σ => s.log = [.wrote [0]]) (findAuthMechs cfg peer)
      (fun mechs s => Trying mechs s.log) (fun _ s => .wrote beginLine ∉ s.log) := by
  have hasked : AuthEvent.wrote beginLine ∉ [.wrote [0], .wrote authLine] := by decide
  refine Triple.bind ((writeAll_triple peer _ authLine).mono (fun _ h => h) (fun _ _ h => h)
    fun _ s h => ?_) fun _ => ?_
  · rw [h]
    decide
  refine Triple.bind ((readLine_triple cfg _ rejectedWord).mono (fun _ h => h) (fun _ _ h => h)
    fun _ s h => ?_) fun reply => ?_
  · rcases h with h | h
    · rw [h]
      exact hasked
    · rw [h]
      decide
  · have hlog : AuthEvent.wrote beginLine ∉
        [.wrote [0], .wrote authLine, .read rejectedWord reply] := by
      simpa using hasked
    cases hmechs : parseMechs reply with
    | error e =>
      refine Triple.throw fun s h => ?_
      rw [h]
      exact hlog
    | ok mechs =>
      refine Triple.pure fun s h => ?_
      rw [h]
      exact ⟨⟨reply, [], rfl, hmechs⟩, hlog⟩

/-- **`EXTERNAL`**, where it is offered. -/
lemma doExternalAuth_triple (hlog : Trying mechs log) (hoffered : externalName ∈ mechs) :
    Triple (fun s : Session σ => s.log = log) (doExternalAuth cfg peer)
      (fun _ s => Authenticated cfg s.log ∧ .wrote beginLine ∉ s.log)
      (fun _ s => Trying mechs s.log) := by
  unfold doExternalAuth
  split
  · refine Triple.throw fun s h => ?_
    rw [h]
    exact hlog
  · rename_i line hline
    have hne := externalAuthLine_ne_beginLine hline
    refine Triple.bind ((writeAll_triple peer log line).mono (fun _ h => h) (fun _ _ h => h)
      fun _ s h => ?_) fun _ => ?_
    · rw [h]
      exact hlog.append (by simp)
    · refine (awaitOk_triple cfg log hlog hne).mono (fun _ h => h) (fun _ s h => ?_)
        fun _ _ h => h
      obtain ⟨rest, h⟩ := h
      refine ⟨⟨mechs, log, line, rest, hlog.offers, h, .inl ⟨hoffered, hline⟩⟩, ?_⟩
      rw [h]
      exact (hlog.append (by simpa using fun heq => hne heq.symm)).notBegun
  · refine Triple.throw fun s h => ?_
    rw [h]
    exact hlog

/-- **`ANONYMOUS`**, where it is offered. -/
lemma doAnonAuth_triple (hlog : Trying mechs log) (hoffered : anonymousName ∈ mechs) :
    Triple (fun s : Session σ => s.log = log) (doAnonAuth cfg peer)
      (fun _ s => Authenticated cfg s.log ∧ .wrote beginLine ∉ s.log)
      (fun _ s => Trying mechs s.log) := by
  have hne : authAnonymousLine ≠ beginLine := by decide
  refine Triple.bind ((writeAll_triple peer log authAnonymousLine).mono (fun _ h => h)
    (fun _ _ h => h) fun _ s h => ?_) fun _ => ?_
  · rw [h]
    exact hlog.append (by simp)
  · refine (awaitOk_triple cfg log hlog hne).mono (fun _ h => h) (fun _ s h => ?_) fun _ _ h => h
    obtain ⟨rest, h⟩ := h
    refine ⟨⟨mechs, log, authAnonymousLine, rest, hlog.offers, h, .inr ⟨hoffered, rfl⟩⟩, ?_⟩
    rw [h]
    exact (hlog.append (by simpa using hne.symm)).notBegun

/-- A mechanism that may fail, and what is done then.

**Proof sketch.** The rule of the library for an attempt (`Program.Triple.attempt`): it turns the
error of `m` into a result, after which the log is one of a client that is trying, and leaves the
other stops, which have not begun. Then the two results are taken apart. -/
lemma attempt_triple {m : AuthM σ Unit} {k : AuthError → AuthM σ Unit}
    {Q : Unit → Session σ → Prop}
    (hm : Triple (fun s : Session σ => s.log = log) m Q (fun _ s => Trying mechs s.log))
    (hk : ∀ e log', Trying mechs log' → Triple (fun s : Session σ => s.log = log') (k e) Q
      (fun _ s => .wrote beginLine ∉ s.log)) :
    Triple (fun s : Session σ => s.log = log)
      (do
        match ← Program.attempt AuthStop.error? m with
        | .ok _ => pure ()
        | .error e => k e)
      Q (fun _ s => .wrote beginLine ∉ s.log) := by
  let R : Except AuthError Unit → Session σ → Prop
    | .ok _, s => Q () s
    | .error _, s => Trying mechs s.log
  have hattempt : Triple (fun s : Session σ => s.log = log)
      (Program.attempt AuthStop.error? m) R (fun _ s => .wrote beginLine ∉ s.log) := by
    refine Triple.attempt (hm.mono (fun _ h => h) (fun _ _ h => h) fun stop s h => ?_)
    cases stop with
    | err e => exact h
    | panic => exact h.notBegun
    | running => exact h.notBegun
  refine Triple.bind hattempt fun result => ?_
  cases result with
  | ok u => exact Triple.pure fun _ h => h
  | error e => exact triple_of_log fun log' hlog' => hk e log' hlog'

/-- The end of `do_auth`. -/
lemma doAuthAnonymous_triple (hlog : Trying mechs log) (err : Option AuthError) :
    Triple (fun s : Session σ => s.log = log) (doAuthAnonymous cfg peer mechs err)
      (fun _ s => Authenticated cfg s.log ∧ .wrote beginLine ∉ s.log)
      (fun _ s => .wrote beginLine ∉ s.log) := by
  have hstop : ∀ e : AuthStop, Triple (fun s : Session σ => s.log = log) (throw e : AuthM σ Unit)
      (fun _ s => Authenticated cfg s.log ∧ .wrote beginLine ∉ s.log)
      (fun _ s => .wrote beginLine ∉ s.log) := by
    refine fun e => Triple.throw fun s h => ?_
    rw [h]
    exact hlog.notBegun
  unfold doAuthAnonymous
  split_ifs with hoffered
  · exact attempt_triple log (doAnonAuth_triple cfg peer log hlog hoffered) fun e log' hlog' =>
      Triple.throw fun s h => by
        rw [h]
        exact hlog'.notBegun
  · cases err with
    | some e => exact hstop (.err e)
    | none => exact hstop (.err .unsupported)

/-- **Authentication**: a mechanism that was offered is accepted, or it stops. -/
lemma doAuth_triple : Triple (fun s : Session σ => s.log = []) (doAuth cfg peer)
    (fun _ s => Authenticated cfg s.log ∧ .wrote beginLine ∉ s.log)
    (fun _ s => .wrote beginLine ∉ s.log) := by
  refine Triple.bind ((writeAll_triple peer [] [0]).mono (fun _ h => h) (fun _ _ h => h)
    fun _ s h => ?_) fun _ => ?_
  · rw [h]
    decide
  refine Triple.bind (findAuthMechs_triple cfg peer) fun mechs => triple_of_log fun log hlog => ?_
  split_ifs with hoffered
  · exact attempt_triple log (doExternalAuth_triple cfg peer log hlog hoffered)
      fun e log' hlog' => doAuthAnonymous_triple cfg peer log' hlog' (some e)
  · exact doAuthAnonymous_triple cfg peer log hlog none

/-- Negotiating descriptors. -/
lemma negotiateUnixFds_triple (hlog : .wrote beginLine ∉ log) :
    Triple (fun s : Session σ => s.log = log) (negotiateUnixFds cfg peer)
      (fun agreed s => .wrote beginLine ∉ s.log ∧ (agreed = true →
        ∃ rest, s.log = log ++ [.wrote negotiateLine, .read agreeWord (some rest)]))
      (fun _ s => .wrote beginLine ∉ s.log) := by
  have hne : beginLine ≠ negotiateLine := by decide
  refine Triple.bind ((writeAll_triple peer log negotiateLine).mono (fun _ h => h)
    (fun _ _ h => h) fun _ s h => ?_) fun _ => ?_
  · rw [h]
    simpa using hlog
  refine Triple.bind ((readLine_triple cfg _ agreeWord).mono (fun _ h => h) (fun _ _ h => h)
    fun _ s h => ?_) fun answer => ?_
  · rcases h with h | h
    · rw [h]
      simpa using ⟨hlog, hne⟩
    · rw [h]
      simpa using ⟨hlog, hne⟩
  · refine Triple.pure fun s h => ⟨?_, fun hagreed => ?_⟩
    · rw [h]
      simpa using ⟨hlog, hne⟩
    · obtain ⟨rest, rfl⟩ := Option.isSome_iff_exists.mp hagreed
      exact ⟨rest, by rw [h, List.append_assoc]; rfl⟩

/-- **What is said before `BEGIN`.** -/
lemma agree_triple : Triple (fun s : Session σ => s.log = []) (agree cfg peer)
    (fun _ s => Agreed cfg s.log) (fun _ s => .wrote beginLine ∉ s.log) := by
  refine Triple.bind (doAuth_triple cfg peer) fun _ => triple_of_log
    (C := fun log => Authenticated cfg log ∧ .wrote beginLine ∉ log) fun log hlog => ?_
  obtain ⟨hauth, hnot⟩ := hlog
  split_ifs with hfd
  · refine Triple.bind (negotiateUnixFds_triple cfg peer log hnot) fun agreed => ?_
    cases agreed with
    | false => exact Triple.throw fun s h => h.1
    | true =>
      refine Triple.pure fun s h => ⟨h.1, log, hauth, ?_⟩
      rw [if_pos hfd]
      exact h.2 rfl
  · refine Triple.pure fun s h => ?_
    rw [h]
    exact ⟨hnot, log, hauth, by rw [if_neg hfd]⟩

end Triples

/-- **`BEGIN` comes last, and only after an agreement.**  With any peer, whatever it sends, in
whatever pieces, and wherever the stream fails: when `BEGIN` is written, it is the last thing that
is written and the first time, and before it a mechanism was tried that the peer had offered and
accepted and, where descriptors are wanted, the peer had agreed to them.  Only then does the
handshake succeed, with the states of a new connection; and then it fails only if `dup` does.

**Proof sketch.** The triple of the handshake: `agree_triple` gives a log without `BEGIN` that shows
the agreement, `writeAll_triple` adds `BEGIN` at its end or fails before it, and then only `dup` can
fail. The statement reads its two postconditions off the log of the run. -/
theorem connHandshake_begins (cfg : AuthConfig) (peer : Peer σ) (start : σ) :
    let run := (connHandshake cfg peer).exec (Session.new start)
    (.wrote beginLine ∈ run.2.log → (∃ pre, run.2.log = pre ++ [.wrote beginLine] ∧
      Agreed cfg pre) ∧ ((∃ states, run.1 = .ok states) ∨ cfg.dupFails = true)) ∧
    ∀ states, run.1 = .ok states → .wrote beginLine ∈ run.2.log ∧
      states = (RecvState.new cfg.withFd 4096, SendState.new cfg.withFd) := by
  let begun : Session σ → Prop := fun s =>
    ∃ pre, s.log = pre ++ [.wrote beginLine] ∧ Agreed cfg pre
  have htriple : Program.Triple (fun s : Session σ => s.log = []) (connHandshake cfg peer)
      (fun states s => begun s ∧
        states = (RecvState.new cfg.withFd 4096, SendState.new cfg.withFd))
      (fun _ s => begun s ∧ cfg.dupFails = true ∨ .wrote beginLine ∉ s.log) := by
    refine Program.Triple.bind ((agree_triple cfg peer).mono (fun _ h => h) (fun _ _ h => h)
      fun _ _ h => .inr h) fun _ => triple_of_log fun log hlog => ?_
    refine Program.Triple.bind ((writeAll_triple peer log beginLine).mono (fun _ h => h)
      (fun _ _ h => h) fun _ s h => .inr ?_) fun _ => ?_
    · rw [h]
      simpa using hlog.notBegun
    · split_ifs with hdup
      · exact Program.Triple.throw fun s h => .inl ⟨⟨log, h, hlog⟩, hdup⟩
      · exact Program.Triple.pure fun s h => ⟨⟨log, h, hlog⟩, rfl⟩
  intro run
  have hmem : begun run.2 → .wrote beginLine ∈ run.2.log := by
    rintro ⟨pre, hlog, -⟩
    rw [hlog]
    simp
  rcases htriple.final (s := Session.new start) rfl with
    ⟨states, hok, hbegun, hstates⟩ | ⟨stop, herr, hend⟩
  · refine ⟨fun _ => ⟨hbegun, .inl ⟨states, hok⟩⟩, fun states' hok' => ⟨hmem hbegun, ?_⟩⟩
    rw [show run.1 = .ok states from hok] at hok'
    rw [← Except.ok.inj hok', hstates]
  · refine ⟨fun hin => (hend.resolve_right fun hnot => hnot hin).imp_right .inr,
      fun states hok => ?_⟩
    rw [show run.1 = .error stop from herr] at hok
    cases hok

end AsyncRustbus
