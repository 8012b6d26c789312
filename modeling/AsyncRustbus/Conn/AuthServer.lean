import AsyncRustbus.Conn.Auth

set_option relaxedAutoImplicit false
set_option autoImplicit false

/-!
# The handshake with a server

A server of the D-Bus authentication protocol answers each command with one line and sends
messages once the client has begun.  Against every such server, and however its answers are cut
into pieces, the handshake comes to the verdict that the server's mechanisms stand for, and leaves
the messages of the server unread.

## Main definitions

* `AsyncRustbus.AuthServer` — the server: what it offers and accepts, and how its answers are cut.
* `AsyncRustbus.AuthServer.verdict` — how the handshake has to end.

## Main results

* `AsyncRustbus.AuthServer.exchange` — a command and the line that answers it.
* `AsyncRustbus.AuthServer.connHandshake_serves` — the handshake ends with the verdict.
-/

namespace AsyncRustbus

open Program

/-! ## The server -/

/-- What a server of the authentication protocol is waiting for. -/
inductive ServerPhase
  | waitingForAuth
  | waitingForBegin
  | begun
  deriving DecidableEq

/-- A server: the mechanisms it offers, the authentication lines it accepts, what stands behind
`OK`, whether it agrees to descriptors, the messages it sends when the client has begun, and the
way in which its `n`-th answer is cut.  Its lines are lines and fit into the buffer of the
client. -/
structure AuthServer where
  mechs : List Str
  accepts : Bytes → Bool
  guid : Bytes
  agrees : Bool
  messages : Bytes
  cut : ℕ → Bytes → List Bytes
  noSpace : ∀ m ∈ mechs, ' ' ∉ m
  rejectedLine : ¬ dbusLineEnd <:+: rejectedWord ++ toUtf8 (mechs.flatMap fun m => ' ' :: m)
  rejectedShort : (rejectedWord ++ toUtf8 (mechs.flatMap fun m => ' ' :: m)).length ≤ 510
  okLine : ¬ dbusLineEnd <:+: okWord ++ guid
  okShort : (okWord ++ guid).length ≤ 510
  flatten_cut : ∀ n bytes, (cut n bytes).flatten = bytes
  cut_nonempty : ∀ n bytes, ∀ c ∈ cut n bytes, c ≠ []

/-- What the server is waiting for, and how many answers it has given. -/
structure ServerState where
  phase : ServerPhase
  answers : ℕ

/-- The line of `EXTERNAL` for a uid. -/
def externalLine (uid : UInt32) : Bytes :=
  authExternal ++ hexEncode (toUtf8 (Nat.toDigits 10 uid.toNat)) ++ dbusLineEnd

/-- A server that refuses a command. -/
def errorWord : Bytes := toUtf8 ['E', 'R', 'R', 'O', 'R']

namespace AuthServer

variable (S : AuthServer)

/-- `REJECTED` and the mechanisms. -/
def rejection : Bytes := rejectedWord ++ toUtf8 (S.mechs.flatMap fun m => ' ' :: m)

/-- The answer to a command. -/
def answer (phase : ServerPhase) (command : Bytes) : ServerPhase × Bytes :=
  match phase with
  | .waitingForAuth =>
    if command = [0] then (.waitingForAuth, [])
    else if command ≠ authLine ∧ S.accepts command then
      (.waitingForBegin, okWord ++ S.guid ++ dbusLineEnd)
    else (.waitingForAuth, S.rejection ++ dbusLineEnd)
  | .waitingForBegin =>
    if command = negotiateLine then
      (.waitingForBegin, (if S.agrees then agreeWord else errorWord) ++ dbusLineEnd)
    else if command = beginLine then (.begun, S.messages)
    else (.waitingForBegin, errorWord ++ dbusLineEnd)
  | .begun => (.begun, [])

/-- The server as a peer. -/
def peer : Peer ServerState := fun state command =>
  { state := ⟨(S.answer state.phase command).1, state.answers + 1⟩
    written := true
    chunks := S.cut state.answers (S.answer state.phase command).2
    nonempty := S.cut_nonempty _ _
    broken := false }

/-- The server offers a mechanism and accepts its line. -/
def lets (mech : Str) (line : Bytes) : Bool := S.mechs.contains mech && S.accepts line

/-- The server lets the client in by one of the two mechanisms. -/
def letsIn (uid : UInt32) : Bool :=
  S.lets externalName (externalLine uid) || S.lets anonymousName authAnonymousLine

/-- The error of a client that is not let in. -/
def refusal : AuthError :=
  if S.mechs.contains externalName || S.mechs.contains anonymousName then .refused
  else .unsupported

/-- **How the handshake has to end**: it succeeds where the server lets the client in and, where
they are wanted, agrees to descriptors. -/
def verdict (withFd : Bool) (uid : UInt32) : Except AuthError Unit :=
  if S.letsIn uid then
    if withFd && !S.agrees then .error .noFds else .ok ()
  else .error S.refusal

/-! ## A command and its answer -/

/-- The client has read everything. -/
structure Quiet (s : Session ServerState) (phase : ServerPhase) : Prop where
  phase : s.peer.phase = phase
  data : s.stream.data = []
  broken : s.broken = false

/-- A new connection is quiet. -/
lemma quiet_new : Quiet (Session.new ⟨.waitingForAuth, 0⟩) .waitingForAuth := ⟨rfl, rfl, rfl⟩

/-- Chunks that arrive are to be read behind the others. -/
lemma data_append (s : ByteStream) (chunks : List Bytes) (h : ∀ c ∈ chunks, c ≠ []) :
    (s.append chunks h).data = s.data ++ chunks.flatten := List.flatten_append

variable {S} (cfg : AuthConfig) {s : Session ServerState} {phase : ServerPhase}

/-- Writing a command. -/
lemma exec_writeAll (h : Quiet s phase) (command : Bytes) :
    ∃ s', (writeAll S.peer command).exec s = (.ok (), s') ∧
      s'.peer.phase = (S.answer phase command).1 ∧
      s'.stream.data = (S.answer phase command).2 ∧ s'.broken = false := by
  refine ⟨_, rfl, ?_, ?_, ?_⟩
  · show (S.answer s.peer.phase command).1 = _
    rw [h.phase]
  · rw [data_append, h.data, List.nil_append]
    show (S.cut _ (S.answer s.peer.phase command).2).flatten = _
    rw [S.flatten_cut, h.phase]
  · show (s.broken || false) = false
    rw [h.broken]
    rfl

/-- **The loop reads a line that stands alone** and nothing is left.

**Proof sketch.** Induction on the fuel.  The loop stops when the end of the line is in its buffer,
and then all of the data is. -/
lemma readLineLoop_line {buf line : Bytes} (hline : ¬ dbusLineEnd <:+: line)
    (hshort : line.length ≤ 510) (fuel : ℕ) {r : LineRead} (h : r.Of (line ++ dbusLineEnd))
    (hfuel : lineCapacity < r.readBuf.length + fuel) :
    ∃ stream, stream.data = [] ∧
      readLineLoop false buf fuel r = (.ok (lineResult buf (line ++ dbusLineEnd)), stream) := by
  have hlen : (line ++ dbusLineEnd).length ≤ lineCapacity := by
    rw [List.length_append]
    show line.length + 2 ≤ 512
    omega
  have hends : LineEnds (line ++ dbusLineEnd) := .inl ⟨line, [], by simp, by
    show line.length + 2 ≤ 512
    omega⟩
  induction fuel generalizing r with
  | zero =>
    have := h.le
    omega
  | succ fuel ih =>
    rw [readLineLoop]
    cases hstep : startsWithStep buf r with
    | inr next =>
      have hlt := h.lt hends hstep
      simp only [Bool.false_eq_true, false_and, if_false]
      exact ih (h.next hstep).1 (by omega)
    | inl result =>
      have hresult := h.result hstep
      rw [List.take_of_length_le hlen] at hresult
      refine ⟨r.stream, ?_, by rw [hresult]⟩
      have hsplit := congrArg List.length h.split
      rw [List.length_append] at hsplit
      cases hloc : findLineEnding r.readBuf with
      | some loc =>
        -- the end of the line is the end of the data
        have hall := findLineEnding_append hloc r.stream.data
        rw [h.split, findLineEnding_line hline] at hall
        have hle := findLineEnding_le hloc
        rw [← Option.some.inj hall] at hle
        rw [List.length_append, show dbusLineEnd.length = 2 from rfl] at hsplit
        exact List.eq_nil_of_length_eq_zero (by omega)
      | none =>
        -- the buffer is full
        unfold startsWithStep at hstep
        simp only [hloc] at hstep
        split_ifs at hstep with hfull
        exact List.eq_nil_of_length_eq_zero (by omega)

/-- Reading the line that answers a command. -/
lemma exec_readLine (hfuel : 512 < cfg.fuel) {buf line : Bytes} (hbuf : buf.length ≤ 510)
    (hline : ¬ dbusLineEnd <:+: line) (hshort : line.length ≤ 510)
    (hdata : s.stream.data = line ++ dbusLineEnd) (hbroken : s.broken = false)
    (hphase : s.peer.phase = phase) :
    ∃ s', (readLine cfg buf).exec s = (.ok (lineResult buf (line ++ dbusLineEnd)), s') ∧
      Quiet s' phase := by
  obtain ⟨stream, hnil, hloop⟩ := @readLineLoop_line buf line hline hshort cfg.fuel
    ⟨[], s.stream⟩ (by rw [← hdata]; exact LineRead.of_start s.stream)
    (by simpa [lineCapacity] using hfuel)
  refine ⟨{ s with stream := stream,
                   log := s.log ++ [.read buf (lineResult buf (line ++ dbusLineEnd))] },
    ?_, hphase, hnil, hbroken⟩
  simp only [readLine, exec_of]
  rw [if_neg (fun hdebug => hdebug.2 hbuf), hbroken, hloop]

/-- **A command and the line that answers it.** -/
theorem exchange (hfuel : 512 < cfg.fuel) (h : Quiet s phase)
    {command buf line : Bytes} {phase' : ServerPhase}
    (hanswer : S.answer phase command = (phase', line ++ dbusLineEnd)) (hbuf : buf.length ≤ 510)
    (hline : ¬ dbusLineEnd <:+: line) (hshort : line.length ≤ 510) :
    ∃ s', Quiet s' phase' ∧ ∀ {α : Type} (k : Option Bytes → AuthM ServerState α),
      (writeAll S.peer command >>= fun _ => readLine cfg buf >>= k).exec s =
        (k (lineResult buf (line ++ dbusLineEnd))).exec s' := by
  obtain ⟨s₁, hwrite, hphase, hdata, hbroken⟩ := exec_writeAll (S := S) h command
  rw [hanswer] at hphase hdata
  obtain ⟨s₂, hread, hquiet⟩ := exec_readLine cfg hfuel hbuf hline hshort hdata hbroken
    hphase
  exact ⟨s₂, hquiet, fun k => by rw [exec_bind_ok hwrite, exec_bind_ok hread]⟩

/-! ## The steps of the handshake -/

/-- A line that does not start with a word. -/
lemma lineResult_eq_none {buf line : Bytes} (hline : ¬ dbusLineEnd <:+: line)
    (hhead : buf.head? ≠ line.head?) (hbuf : buf ≠ []) :
    lineResult buf (line ++ dbusLineEnd) = none := by
  cases hresult : lineResult buf (line ++ dbusLineEnd) with
  | none => rfl
  | some rest =>
    have hsplit := (lineResult_line hline rest).mp hresult
    rw [hsplit, List.head?_append_of_ne_nil _ hbuf] at hhead
    exact absurd rfl hhead

/-- Texts behind a text, with a space before each. -/
lemma append_flatMap_space (text : Str) (texts : List Str) :
    text ++ (texts.flatMap fun m => ' ' :: m) = [' '].intercalate (text :: texts) := by
  induction texts generalizing text with
  | nil => simp
  | cons m texts ih =>
    rw [List.flatMap_cons, List.intercalate_cons_cons, ← ih m]
    simp

/-- The mechanisms that the client reads. -/
lemma parseMechs_rejection (S : AuthServer) :
    ∃ mechs, parseMechs (lineResult rejectedWord (S.rejection ++ dbusLineEnd)) = .ok mechs ∧
      ∀ m : Str, m ≠ [] → (m ∈ mechs ↔ m ∈ S.mechs) := by
  obtain ⟨text, htext⟩ : ∃ text, text = S.mechs.flatMap fun m => ' ' :: m := ⟨_, rfl⟩
  have hresult : lineResult rejectedWord (S.rejection ++ dbusLineEnd) = some (toUtf8 text) :=
    (lineResult_line S.rejectedLine _).mpr (by rw [htext])
  rw [hresult, parseMechs]
  by_cases hnil : (toUtf8 text).isEmpty
  · rw [if_pos hnil]
    refine ⟨[], rfl, fun m _ => ?_⟩
    have hempty : text = [] := toUtf8_injective (List.isEmpty_iff.mp hnil)
    rw [hempty, eq_comm, List.flatMap_eq_nil_iff] at htext
    exact ⟨nofun, fun hmem => absurd (htext m hmem) (by simp)⟩
  · rw [if_neg hnil, fromUtf8_toUtf8]
    have hjoin := append_flatMap_space [] S.mechs
    rw [List.nil_append, ← htext] at hjoin
    have hsplit : text.splitOn ' ' = [] :: S.mechs := by
      rw [hjoin]
      exact List.splitOn_intercalate ' ' (by simpa using S.noSpace) (List.cons_ne_nil _ _)
    exact ⟨[] :: S.mechs, by rw [← hsplit], fun m hm => by simp [hm]⟩

/-- Asking for the mechanisms. -/
lemma exec_findAuthMechs (hfuel : 512 < cfg.fuel) (h : Quiet s .waitingForAuth) :
    ∃ mechs s', (findAuthMechs cfg S.peer).exec s = (.ok mechs, s') ∧ Quiet s' .waitingForAuth ∧
      ∀ m : Str, m ≠ [] → (m ∈ mechs ↔ m ∈ S.mechs) := by
  obtain ⟨mechs, hparse, hmechs⟩ := parseMechs_rejection S
  have hanswer : S.answer .waitingForAuth authLine =
      (.waitingForAuth, S.rejection ++ dbusLineEnd) := rfl
  obtain ⟨s', hquiet, hexec⟩ := exchange cfg hfuel h hanswer
    (show rejectedWord.length ≤ 510 by decide) S.rejectedLine S.rejectedShort
  refine ⟨mechs, s', (hexec _).trans ?_, hquiet, hmechs⟩
  rw [hparse]
  rfl

/-- **Trying a mechanism**: the server accepts its line or not.

**Proof sketch.** The line is neither NUL nor `AUTH`, so the answer of the server is `OK` with its
identifier or the rejection. `exchange` carries the answer over in any pieces; the client reads the
first as accepted, and the second has another first letter than `OK`. -/
lemma exec_tryMech (hfuel : 512 < cfg.fuel) (h : Quiet s .waitingForAuth) {line : Bytes}
    (hnul : line ≠ [0]) (hask : line ≠ authLine) :
    ∃ s', (writeAll S.peer line >>= fun _ => awaitOk cfg).exec s =
        (if S.accepts line then .ok () else .error (.err .refused), s') ∧
      Quiet s' (if S.accepts line then .waitingForBegin else .waitingForAuth) := by
  by_cases haccepts : S.accepts line = true
  · have hanswer : S.answer .waitingForAuth line =
        (.waitingForBegin, okWord ++ S.guid ++ dbusLineEnd) := by
      rw [answer, if_neg hnul, if_pos ⟨hask, haccepts⟩]
    obtain ⟨s', hquiet, hexec⟩ := exchange cfg hfuel h hanswer
      (show okWord.length ≤ 510 by decide) S.okLine S.okShort
    rw [(lineResult_line S.okLine S.guid).mpr rfl] at hexec
    rw [if_pos haccepts, if_pos haccepts]
    exact ⟨s', hexec _, hquiet⟩
  · have hanswer : S.answer .waitingForAuth line =
        (.waitingForAuth, S.rejection ++ dbusLineEnd) := by
      rw [answer, if_neg hnul, if_neg fun hc => haccepts hc.2]
    obtain ⟨s', hquiet, hexec⟩ := exchange cfg hfuel h hanswer
      (show okWord.length ≤ 510 by decide) S.rejectedLine S.rejectedShort
    have hnone : lineResult okWord (S.rejection ++ dbusLineEnd) = none := by
      refine lineResult_eq_none S.rejectedLine ?_ (by decide)
      rw [rejection, List.head?_append_of_ne_nil _ (by decide : rejectedWord ≠ [])]
      decide
    rw [hnone] at hexec
    rw [if_neg haccepts, if_neg haccepts]
    exact ⟨s', hexec _, hquiet⟩

/-- More fuel does not change the result of the first loop. -/
lemma orderLoop_mono {overflowChecks : Bool} {pid order : UInt32} {fuel fuel' : ℕ}
    {r : Res Unit UInt32} (h : orderLoop overflowChecks pid fuel order = some r)
    (hle : fuel ≤ fuel') : orderLoop overflowChecks pid fuel' order = some r := by
  induction fuel generalizing fuel' order with
  | zero => cases h
  | succ fuel ih =>
    obtain ⟨fuel', rfl⟩ : ∃ n, fuel' = n + 1 := ⟨fuel' - 1, by omega⟩
    rw [orderLoop] at h ⊢
    cases hten : mulTen overflowChecks order with
    | none =>
      rw [hten] at h
      exact h
    | some next =>
      simp only [hten] at h ⊢
      split_ifs at h ⊢
      · exact h
      · exact h
      · exact ih h (by omega)

/-- The line of `EXTERNAL` for a uid of at most nine digits. -/
lemma externalAuthLine_eq_externalLine (hfuel : 512 < cfg.fuel) (huid : cfg.uid.toNat < 10 ^ 9) :
    externalAuthLine cfg.overflowChecks cfg.fuel cfg.uid = some (.ok (externalLine cfg.uid)) := by
  obtain ⟨k, hk, hlow, hhigh⟩ := exists_order huid
  exact externalAuthLine_eq (by omega) hlow hhigh (orderLoop_mono
    (orderLoop_eq cfg.overflowChecks (Nat.zero_le k) hk hlow hhigh) (by omega))

/-- It is not one of the lines that every server answers in the same way. -/
lemma externalLine_ne (uid : UInt32) : externalLine uid ≠ [0] ∧ externalLine uid ≠ authLine := by
  have htake : (externalLine uid).take 5 = authExternal.take 5 := by
    rw [externalLine, List.append_assoc, List.take_append_of_le_length (by decide)]
  constructor
  · intro heq
    rw [heq] at htake
    exact absurd htake (by decide)
  · intro heq
    rw [heq] at htake
    exact absurd htake (by decide)

/-- Going on behind a mechanism that the server lets the client in by, or not. -/
lemma exec_attempt {m : AuthM ServerState Unit} {k : AuthError → AuthM ServerState Unit}
    {lets : Bool} {s' : Session ServerState}
    (hm : m.exec s = (if lets then .ok () else .error (.err .refused), s')) :
    exec (do
      match ← Program.attempt AuthStop.error? m with
      | .ok _ => pure ()
      | .error e => k e) s = if lets then (.ok (), s') else (k .refused).exec s' := by
  cases lets with
  | true =>
    rw [exec_bind, Program.attempt, exec_of, hm]
    rfl
  | false =>
    rw [exec_bind, Program.attempt, exec_of, hm]
    rfl

/-- The end of `do_auth`.

**Proof sketch.** If the server offers `ANONYMOUS`, the mechanism is tried (`exec_tryMech`), and
`exec_attempt` returns its error as refused. Otherwise nothing is written, and the earlier error is
returned, if there is one. -/
lemma exec_doAuthAnonymous (hfuel : 512 < cfg.fuel) (h : Quiet s .waitingForAuth)
    {mechs : List Str} (hmechs : anonymousName ∈ mechs ↔ anonymousName ∈ S.mechs)
    (err : Option AuthError) :
    ∃ s', (doAuthAnonymous cfg S.peer mechs err).exec s =
        (if S.lets anonymousName authAnonymousLine then .ok ()
          else .error (.err (if anonymousName ∈ S.mechs then .refused
            else err.getD .unsupported)), s') ∧
      Quiet s' (if S.lets anonymousName authAnonymousLine then .waitingForBegin
        else .waitingForAuth) := by
  unfold doAuthAnonymous
  by_cases hmem : anonymousName ∈ S.mechs
  · obtain ⟨s', hexec, hquiet⟩ := exec_tryMech cfg hfuel h
      (by decide : authAnonymousLine ≠ [0]) (by decide)
    have hlets : S.lets anonymousName authAnonymousLine = S.accepts authAnonymousLine := by
      simp [lets, hmem]
    refine ⟨s', ?_, by rw [hlets]; exact hquiet⟩
    rw [if_pos (hmechs.mpr hmem), hlets, if_pos hmem]
    refine (exec_attempt (k := fun e => throw (.err e)) hexec).trans ?_
    cases S.accepts authAnonymousLine with
    | true => rfl
    | false => rfl
  · have hlets : S.lets anonymousName authAnonymousLine = false := by simp [lets, hmem]
    refine ⟨s, ?_, by rw [hlets]; exact h⟩
    rw [if_neg fun hc => hmem (hmechs.mp hc), hlets, if_neg hmem]
    cases err with
    | some e => rfl
    | none => rfl

/-- **Authentication** succeeds where the server lets the client in.

**Proof sketch.** The NUL byte, then the mechanisms of the server (`exec_findAuthMechs`). If
`EXTERNAL` is among them, it is tried with the line of the user, which
`externalAuthLine_eq_externalLine` shows to be the digits in hexadecimal; if it is refused or not
offered, `exec_doAuthAnonymous` says how the function ends. -/
lemma exec_doAuth (hfuel : 512 < cfg.fuel) (huid : cfg.uid.toNat < 10 ^ 9)
    (h : Quiet s .waitingForAuth) :
    ∃ s', (doAuth cfg S.peer).exec s =
        (if S.letsIn cfg.uid then .ok () else .error (.err S.refusal), s') ∧
      Quiet s' (if S.letsIn cfg.uid then .waitingForBegin else .waitingForAuth) := by
  obtain ⟨s₁, hnul, hphase, hdata, hbroken⟩ := exec_writeAll (S := S) h [0]
  obtain ⟨mechs, s₂, hfind, hquiet, hmechs⟩ := exec_findAuthMechs (S := S) cfg
    (s := s₁) hfuel ⟨hphase, hdata, hbroken⟩
  have hext := hmechs externalName (by decide)
  have hanon := hmechs anonymousName (by decide)
  unfold doAuth letsIn
  rw [exec_bind_ok hnul, exec_bind_ok hfind]
  by_cases hmem : externalName ∈ S.mechs
  · have hlets : S.lets externalName (externalLine cfg.uid) = S.accepts (externalLine cfg.uid) := by
      simp [lets, hmem]
    obtain ⟨hne, hne'⟩ := externalLine_ne cfg.uid
    obtain ⟨s₃, hexec, hquiet₃⟩ := exec_tryMech cfg hfuel hquiet hne hne'
    have hexternal : (doExternalAuth cfg S.peer).exec s₂ =
        (if S.accepts (externalLine cfg.uid) then .ok () else .error (.err .refused), s₃) := by
      rw [doExternalAuth, externalAuthLine_eq_externalLine cfg hfuel huid]
      exact hexec
    have hattempt := exec_attempt
      (k := fun e => doAuthAnonymous cfg S.peer mechs (some e)) hexternal
    have hrefusal : S.refusal = .refused := by simp [refusal, hmem]
    rw [if_pos (hext.mpr hmem), hlets, hrefusal]
    cases haccepts : S.accepts (externalLine cfg.uid) with
    | true =>
      rw [haccepts] at hattempt hquiet₃
      exact ⟨s₃, hattempt, hquiet₃⟩
    | false =>
      rw [haccepts] at hattempt hquiet₃
      obtain ⟨s₄, hlast, hquiet₄⟩ := exec_doAuthAnonymous cfg hfuel hquiet₃ hanon (some .refused)
      have hsame : (if anonymousName ∈ S.mechs then AuthError.refused
          else (some AuthError.refused).getD .unsupported) = .refused := by
        split_ifs
        · rfl
        · rfl
      rw [hsame] at hlast
      exact ⟨s₄, hattempt.trans hlast, hquiet₄⟩
  · have hlets : S.lets externalName (externalLine cfg.uid) = false := by simp [lets, hmem]
    obtain ⟨s₃, hlast, hquiet₃⟩ := exec_doAuthAnonymous cfg hfuel hquiet hanon none
    have hrefusal : S.refusal = if anonymousName ∈ S.mechs then .refused else .unsupported := by
      simp [refusal, hmem]
    rw [if_neg fun hc => hmem (hext.mp hc), hlets, Bool.false_or, hrefusal]
    exact ⟨s₃, hlast, hquiet₃⟩

/-- Negotiating descriptors.

**Proof sketch.** The server answers with `AGREE_UNIX_FD` or `ERROR`, both short and without a line
end, so `exchange` gives the line as it was sent. The client takes the first for an agreement, and
the second begins with another letter. -/
lemma exec_negotiateUnixFds (hfuel : 512 < cfg.fuel) (h : Quiet s .waitingForBegin) :
    ∃ s', (negotiateUnixFds cfg S.peer).exec s = (.ok S.agrees, s') ∧
      Quiet s' .waitingForBegin := by
  have hanswer : S.answer .waitingForBegin negotiateLine =
      (.waitingForBegin, (if S.agrees then agreeWord else errorWord) ++ dbusLineEnd) := by
    rw [answer, if_pos rfl]
  have hline : ¬ dbusLineEnd <:+: (if S.agrees then agreeWord else errorWord) := by
    split_ifs
    · decide
    · decide
  have hshort : (if S.agrees then agreeWord else errorWord).length ≤ 510 := by
    split_ifs
    · decide
    · decide
  obtain ⟨s', hquiet, hexec⟩ := exchange cfg hfuel h hanswer
    (show agreeWord.length ≤ 510 by decide) hline hshort
  have hsome : (lineResult agreeWord ((if S.agrees then agreeWord else errorWord) ++
      dbusLineEnd)).isSome = S.agrees := by
    cases hagrees : S.agrees with
    | true =>
      have hword : ¬ dbusLineEnd <:+: agreeWord := by decide
      have hresult := (@lineResult_line agreeWord agreeWord hword []).mpr
        (List.append_nil agreeWord).symm
      rw [if_pos rfl, hresult]
      rfl
    | false =>
      have hword : ¬ dbusLineEnd <:+: errorWord := by decide
      rw [if_neg Bool.false_ne_true, lineResult_eq_none hword (by decide) (by decide)]
      rfl
  refine ⟨s', (hexec _).trans ?_, hquiet⟩
  rw [hsome]
  rfl

/-- **What comes before `BEGIN`** ends with the verdict.

**Proof sketch.** Authentication ends as `exec_doAuth` says. After a refusal nothing more is done;
otherwise the descriptors are negotiated where they are wanted (`exec_negotiateUnixFds`), and the
server goes on waiting for `BEGIN`. -/
lemma exec_agree (hfuel : 512 < cfg.fuel) (huid : cfg.uid.toNat < 10 ^ 9)
    (h : Quiet s .waitingForAuth) :
    ∃ s' phase, (agree cfg S.peer).exec s =
        ((S.verdict cfg.withFd cfg.uid).mapError .err, s') ∧ Quiet s' phase ∧ phase ≠ .begun ∧
      (S.verdict cfg.withFd cfg.uid = .ok () → phase = .waitingForBegin) := by
  obtain ⟨s₁, hauth, hquiet⟩ := exec_doAuth (S := S) cfg hfuel huid h
  unfold agree verdict
  cases hin : S.letsIn cfg.uid with
  | false =>
    rw [hin] at hauth hquiet
    refine ⟨s₁, .waitingForAuth, ?_, hquiet, by decide, nofun⟩
    rw [exec_bind, hauth]
    rfl
  | true =>
    rw [hin] at hauth hquiet
    rw [exec_bind_ok hauth]
    cases hfd : cfg.withFd with
    | false => exact ⟨s₁, .waitingForBegin, rfl, hquiet, by decide, fun _ => rfl⟩
    | true =>
      obtain ⟨s₂, hnegotiate, hquiet₂⟩ := exec_negotiateUnixFds (S := S) cfg hfuel hquiet
      refine ⟨s₂, .waitingForBegin, ?_, hquiet₂, by decide, fun _ => rfl⟩
      rw [if_pos rfl, exec_bind_ok hnegotiate]
      cases S.agrees with
      | true => rfl
      | false => rfl

/-- **The handshake with a server ends with its verdict**, however the answers are cut: it succeeds
exactly where the verdict says so, with the states of a new connection; then the server has begun,
and its messages, and nothing else, are still to be read.  Otherwise it returns the error of the
verdict and the server has not begun.

**Proof sketch.** Up to `BEGIN` the run is that of `exec_agree`. With an error as verdict it ends
there, and the server has not begun. Otherwise `BEGIN` is written; the server, which waits for it,
begins and sends its messages, of which the client reads nothing. -/
theorem connHandshake_serves (S : AuthServer) (cfg : AuthConfig) (hfuel : 512 < cfg.fuel)
    (huid : cfg.uid.toNat < 10 ^ 9) (hdup : cfg.dupFails = false) :
    let run := (connHandshake cfg S.peer).exec (Session.new ⟨.waitingForAuth, 0⟩)
    (S.verdict cfg.withFd cfg.uid = .ok () →
      run.1 = .ok (RecvState.new cfg.withFd 4096, SendState.new cfg.withFd) ∧
      run.2.peer.phase = .begun ∧ run.2.stream.data = S.messages) ∧
    ∀ e, S.verdict cfg.withFd cfg.uid = .error e →
      run.1 = .error (.err e) ∧ run.2.peer.phase ≠ .begun := by
  obtain ⟨s₁, phase, hagree, hquiet, hphase, hbegin⟩ := exec_agree (S := S) cfg hfuel huid quiet_new
  intro run
  cases hverdict : S.verdict cfg.withFd cfg.uid with
  | error e =>
    rw [hverdict] at hagree
    have hrun : run = (.error (.err e), s₁) := by
      show (agree cfg S.peer >>= _).exec _ = _
      rw [exec_bind, hagree]
      rfl
    refine ⟨nofun, fun e' he' => ?_⟩
    rw [hrun, ← Except.error.inj he']
    exact ⟨rfl, by rw [hquiet.phase]; exact hphase⟩
  | ok u =>
    rw [hverdict] at hagree hbegin
    rw [hbegin rfl] at hquiet
    obtain ⟨s₂, hwrite, hphase₂, hdata₂, -⟩ := exec_writeAll (S := S) hquiet beginLine
    have hanswer : S.answer .waitingForBegin beginLine = (.begun, S.messages) := by
      rw [answer, if_neg (by decide), if_pos rfl]
    rw [hanswer] at hphase₂ hdata₂
    have hrun : run =
        (.ok (RecvState.new cfg.withFd 4096, SendState.new cfg.withFd), s₂) := by
      show (agree cfg S.peer >>= _).exec _ = _
      rw [exec_bind_ok hagree, exec_bind_ok hwrite, hdup]
      rfl
    refine ⟨fun _ => ?_, nofun⟩
    rw [hrun]
    exact ⟨rfl, hphase₂, hdata₂⟩

/-- A server that lets clients in by `ANONYMOUS` only and sends its answers byte by byte. -/
def anonymousServer : AuthServer where
  mechs := [externalName, anonymousName]
  accepts := fun line => decide (line = authAnonymousLine)
  guid := [32, 49]
  agrees := true
  messages := [108, 4]
  cut := fun _ bytes => bytes.map fun byte => [byte]
  noSpace := by decide
  rejectedLine := by decide
  rejectedShort := by decide
  okLine := by decide
  okShort := by decide
  flatten_cut := fun _ bytes => by induction bytes with
    | nil => rfl
    | cons byte bytes ih => rw [List.map_cons, List.flatten_cons, ih]; rfl
  cut_nonempty := fun _ bytes c hc => by
    obtain ⟨byte, -, rfl⟩ := List.mem_map.mp hc
    exact List.cons_ne_nil _ _

/-- The handshake of the superuser with it, descriptors wanted. -/
theorem connHandshake_serves_anonymous :
    let cfg : AuthConfig := ⟨true, true, 513, 0, true, false⟩
    let run := (connHandshake cfg anonymousServer.peer).exec (Session.new ⟨.waitingForAuth, 0⟩)
    run.1 = .ok (RecvState.new true 4096, SendState.new true) ∧ run.2.peer.phase = .begun ∧
      run.2.stream.data = [108, 4] :=
  (connHandshake_serves anonymousServer ⟨true, true, 513, 0, true, false⟩ (by decide) (by decide)
    rfl).1 (by
      have hlets : anonymousServer.lets anonymousName authAnonymousLine = true := by
        simp [lets, anonymousServer]
      have hin : anonymousServer.letsIn 0 = true := by rw [letsIn, hlets, Bool.or_true]
      show (if anonymousServer.letsIn 0 then _ else _) = _
      rw [hin]
      rfl)

end AuthServer

end AsyncRustbus
