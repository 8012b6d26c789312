import AsyncRustbus.Conn.SendRun
import AsyncRustbus.Rpc.Reply

set_option relaxedAutoImplicit false
set_option autoImplicit false

/-!
# Stale entries of the reply map (`lib.rs`)

`send_msg_w_rsp` puts its sender into `reply_map` before it sends, and the entry is taken out by
the reply or when the response future is dropped.  Where sending fails there is no future yet, so
nobody takes the entry out.  Here no bound is put on the serials: the statements are about all
interleavings.

## Main definitions

* `RpcState.ReachableBy` — the states of all runs whose steps are allowed.
* `RpcState.NoStale` — every key belongs to a call in progress or to a response future that is not
  resolved.
* `RpcState.RemovalsRun` — no removal that a drop has spawned is pending.
* `RpcState.NoneLingers` — a future that was not resolved through its channel has been dropped.
* `RpcState.SendsSucceed` — no `send_msg_w_rsp` fails behind the insertion of its sender.

## Main results

* `RpcState.noStale_of_sendsSucceed` — without such failures no entry is stale.
* `RpcState.failSend_leaves_entry` — a failed call whose entry stays.
-/

namespace AsyncRustbus

/-- The call of `send_msg_w_rsp` is in progress, or its response future is not resolved. -/
def Phase.inProgress : Phase → Bool
  | allocated => true
  | sending => true
  | awaiting => true
  | _ => false

/-- The phases in which a request may have an entry, unless sending fails. -/
def Phase.mayHaveEntry : Phase → Bool
  | sending => true
  | awaiting => true
  | resolved _ => true
  | dropped removing => removing
  | _ => false

namespace RpcState

variable {Q : Type}

/-- The states that runs reach whose steps are allowed. -/
inductive ReachableBy (allowed : RpcState Q → Action Q → Prop) : RpcState Q → Prop
  | new : ReachableBy allowed new
  | step {st st' : RpcState Q} (a : Action Q) : ReachableBy allowed st → allowed st a →
      st.step a = some st' → ReachableBy allowed st'

/-- Every key of `reply_map` is the serial of a call in progress or of a response future that is
not resolved. -/
def NoStale (st : RpcState Q) : Prop :=
  ∀ k o, AssocMap.get st.replyMap k = some o →
    ∃ r ∈ st.requests, r.serial = k ∧ r.phase.inProgress = true

/-- The removals that drops have spawned have run. -/
def RemovalsRun (st : RpcState Q) : Prop :=
  ∀ r ∈ st.requests, r.phase ≠ .dropped true

/-- A response future that was resolved by its own reading or by an error, so that nobody has
taken its entry, has been dropped. -/
def NoneLingers (st : RpcState Q) : Prop :=
  ∀ r ∈ st.requests, r.chan = none → ∀ res, r.phase ≠ .resolved res

/-- The step does not make a `send_msg_w_rsp` fail whose sender has been inserted. -/
def SendsSucceed (st : RpcState Q) (a : Action Q) : Prop :=
  ∀ o r, a = .failSend o → st.requests[o]? = some r → r.phase ≠ .sending

/-- Every entry is under the serial of its request, which has got nothing through its channel and
may still have an entry; a request that is not inserted has an empty channel. -/
structure EntriesOwned (st : RpcState Q) : Prop where
  owned : ∀ k o, AssocMap.get st.replyMap k = some o → ∃ r, st.requests[o]? = some r ∧
    r.serial = k ∧ r.chan = none ∧ r.phase.mayHaveEntry = true
  fresh : ∀ r ∈ st.requests, r.phase = .allocated → r.chan = none

/-- What the owner of an entry is, if it is known. -/
private lemma EntriesOwned.owner {st : RpcState Q} (h : st.EntriesOwned) {k : NonZeroU32} {o : ℕ}
    {r : Request} (hk : AssocMap.get st.replyMap k = some o) (hr : st.requests[o]? = some r) :
    r.serial = k ∧ r.chan = none ∧ r.phase.mayHaveEntry = true := by
  obtain ⟨r₀, hr₀, howner⟩ := h.owned k o hk
  rw [hr, Option.some.injEq] at hr₀
  subst hr₀
  exact howner

/-- Replacing a request by one with the same serial that may have an entry if it has one. -/
private lemma EntriesOwned.update {st st' : RpcState Q} (h : st.EntriesOwned) {o : ℕ}
    {r : Request} (hr : st.requests[o]? = some r) (r' : Request) (hser : r'.serial = r.serial)
    (hreq : st'.requests = st.requests.set o r') (hphase : r'.phase ≠ .allocated)
    (hmap : ∀ k o', AssocMap.get st'.replyMap k = some o' →
      (o' = o ∧ k = r.serial ∧ r'.chan = none ∧ r'.phase.mayHaveEntry = true) ∨
        (o' ≠ o ∧ AssocMap.get st.replyMap k = some o')) : st'.EntriesOwned := by
  constructor
  · intro k o' hk
    rw [hreq]
    rcases hmap k o' hk with ⟨rfl, rfl, hentry⟩ | ⟨hne, hold⟩
    · have hlt := (List.getElem?_eq_some_iff.mp hr).1
      exact ⟨r', List.getElem?_set_self hlt, hser, hentry⟩
    · obtain ⟨r₀, hr₀, howner⟩ := h.owned k o' hold
      exact ⟨r₀, by rw [List.getElem?_set_ne (Ne.symm hne), hr₀], howner⟩
  · intro r₀ hr₀ halloc
    rw [hreq] at hr₀
    rcases List.mem_or_eq_of_mem_set hr₀ with hold | rfl
    · exact h.fresh r₀ hold halloc
    · exact absurd halloc hphase

/-- A change of the phase that keeps the map. -/
private lemma EntriesOwned.setPhase {st : RpcState Q} (h : st.EntriesOwned) {o : ℕ}
    {r : Request} (hr : st.requests[o]? = some r) (p : Phase) (hp : p ≠ .allocated)
    (hentry : r.phase.mayHaveEntry = true → p.mayHaveEntry = true) :
    (st.setRequest o { r with phase := p }).EntriesOwned := by
  refine h.update hr { r with phase := p } rfl rfl hp fun k o' hk => ?_
  by_cases ho : o' = o
  · subst ho
    obtain ⟨hser, hchan, hmay⟩ := h.owner hk hr
    exact .inl ⟨rfl, hser.symm, hchan, hentry hmay⟩
  · exact .inr ⟨ho, hk⟩

/-- Taking the entry of a request out, while the request gets another phase or a reply. -/
private lemma EntriesOwned.takeOut {st st' : RpcState Q} (h : st.EntriesOwned) {o : ℕ}
    {r : Request} (hr : st.requests[o]? = some r) (r' : Request) (hser : r'.serial = r.serial)
    (hreq : st'.requests = st.requests.set o r') (hphase : r'.phase ≠ .allocated)
    (hmap : st'.replyMap = AssocMap.remove st.replyMap r.serial) : st'.EntriesOwned := by
  refine h.update hr r' hser hreq hphase fun k o' hk => ?_
  rw [hmap, AssocMap.get_remove] at hk
  split_ifs at hk with hks
  refine .inr ⟨?_, hk⟩
  rintro rfl
  exact hks (h.owner hk hr).1.symm

/-- Reading a message keeps the entries owned. -/
private lemma EntriesOwned.process {st st' : RpcState Q} (h : st.EntriesOwned) {task : Task Q}
    {msg : MarshalledMessage} (hspec : ProcessSpec st task msg st') : st'.EntriesOwned := by
  cases hspec with
  | other hno => exact ⟨h.owned, h.fresh⟩
  | taken o r htask hr hphase hreply =>
    have hset := h.setPhase hr (.resolved (some msg)) (by simp) fun _ => rfl
    exact ⟨hset.owned, hset.fresh⟩
  | forwarded s o r hreply hget hr hlisten =>
    refine h.takeOut hr { r with chan := some msg } rfl rfl ?_ ?_
    · intro halloc
      have halloc' : r.phase = .allocated := halloc
      rw [halloc'] at hlisten
      cases hlisten
    · rw [(h.owner hget hr).1]
      rfl
  | lost s o hreply hget hdeaf =>
    refine ⟨fun k o' hk => ?_, h.fresh⟩
    have hget' : AssocMap.get (AssocMap.remove st.replyMap s) k = some o' := hk
    rw [AssocMap.get_remove] at hget'
    split_ifs at hget'
    exact h.owned k o' hget'

/-- **A step keeps the entries owned**, unless it makes sending fail.

**Proof sketch.** By the action. Inserting adds an entry that the request owns, as it is sending
then; a failed send would keep the entry without an owner, which `hok` excludes. A dropped request
takes its entry out (`takeOut`), reading a message removes at most an entry (`process`), and every
other action leaves the request one that may have an entry. -/
lemma EntriesOwned.step {st st' : RpcState Q} (h : st.EntriesOwned) {a : Action Q}
    (hok : SendsSucceed st a) (hstep : st.step a = some st') : st'.EntriesOwned := by
  cases a with
  | fetchZero =>
    simp only [RpcState.step] at hstep
    split_ifs at hstep
    cases hstep
    exact ⟨h.owned, h.fresh⟩
  | allocateWoRsp =>
    simp only [RpcState.step] at hstep
    split_ifs at hstep
    cases hstep
    exact ⟨h.owned, h.fresh⟩
  | allocateWRsp =>
    simp only [RpcState.step] at hstep
    split_ifs at hstep
    cases hstep
    constructor
    · intro k o hk
      obtain ⟨r, hr, howner⟩ := h.owned k o hk
      have hlt := (List.getElem?_eq_some_iff.mp hr).1
      exact ⟨r, by rw [List.getElem?_append_left hlt, hr], howner⟩
    · intro r hr halloc
      rcases List.mem_append.mp hr with hold | hnew
      · exact h.fresh r hold halloc
      · rw [List.mem_singleton.mp hnew]
  | insertSender o =>
    simp only [RpcState.step] at hstep
    obtain ⟨r, hr, hphase, rfl⟩ := onRequest_eq_some hstep
    have halloc : r.phase = .allocated := of_decide_eq_true hphase
    refine h.update hr { r with phase := .sending } rfl rfl (by simp) fun k o' hk => ?_
    have hget : AssocMap.get (AssocMap.insert st.replyMap r.serial o) k = some o' := hk
    rw [AssocMap.get_insert] at hget
    split_ifs at hget with hks
    · have hchan := h.fresh r (List.mem_of_getElem? hr) halloc
      exact .inl ⟨(Option.some.inj hget).symm, hks, hchan, rfl⟩
    · refine .inr ⟨?_, hget⟩
      rintro rfl
      -- a request that is not inserted yet has no entry
      obtain ⟨-, -, hmay⟩ := h.owner hget hr
      rw [halloc] at hmay
      cases hmay
  | finishSend o =>
    simp only [RpcState.step] at hstep
    obtain ⟨r, hr, -, rfl⟩ := onRequest_eq_some hstep
    exact h.setPhase hr _ (by simp) fun _ => rfl
  | failSend o =>
    simp only [RpcState.step] at hstep
    obtain ⟨r, hr, hphase, rfl⟩ := onRequest_eq_some hstep
    refine h.setPhase hr _ (by simp) fun hentry => ?_
    rcases of_decide_eq_true hphase with hallocated | hsending
    · rw [hallocated] at hentry
      cases hentry
    · exact absurd hsending (hok o r rfl hr)
  | process closed task msg => exact h.process (process_spec hstep)
  | poll o =>
    simp only [RpcState.step] at hstep
    obtain ⟨r, hr, -, rfl⟩ := onRequest_eq_some hstep
    unfold pollChan
    split
    · exact h.setPhase hr _ (by simp) fun _ => rfl
    · split_ifs
      · exact h
      · exact ⟨h.owned, h.fresh⟩
  | ioError o =>
    simp only [RpcState.step] at hstep
    obtain ⟨r, hr, -, rfl⟩ := onRequest_eq_some hstep
    exact h.setPhase hr _ (by simp) fun _ => rfl
  | drop o locked =>
    simp only [RpcState.step] at hstep
    obtain ⟨r, hr, -, rfl⟩ := onRequest_eq_some hstep
    split_ifs
    · exact h.setPhase hr _ (by simp) fun _ => rfl
    · exact h.takeOut hr { r with phase := .dropped false } rfl rfl (by simp) rfl
  | runRemoval o =>
    simp only [RpcState.step] at hstep
    obtain ⟨r, hr, -, rfl⟩ := onRequest_eq_some hstep
    exact h.takeOut hr { r with phase := .dropped false } rfl rfl (by simp) rfl
  | configure hierarchy sigMatches =>
    cases hstep
    exact ⟨h.owned, h.fresh⟩

/-- A run in which no sending fails keeps the entries owned. -/
lemma ReachableBy.entriesOwned {st : RpcState Q} (h : st.ReachableBy SendsSucceed) :
    st.EntriesOwned := by
  induction h with
  | new =>
    constructor
    · intro k o hk
      cases hk
    · intro r hr
      cases hr
  | step a _ hok hstep ih => exact ih.step hok hstep

/-- **No stale entries.**  In every run in which no `send_msg_w_rsp` fails or is cancelled behind
the insertion of its sender, in every state in which the removals have run and the futures that
were not resolved through their channels have been dropped: every key of `reply_map` is the serial
of a call in progress or of a response future that is not resolved. -/
theorem noStale_of_sendsSucceed {st : RpcState Q} (h : st.ReachableBy SendsSucceed)
    (hrun : st.RemovalsRun) (hnone : st.NoneLingers) : st.NoStale := by
  intro k o hk
  obtain ⟨r, hr, hser, hchan, hentry⟩ := h.entriesOwned.owned k o hk
  have hmem := List.mem_of_getElem? hr
  refine ⟨r, hmem, hser, ?_⟩
  cases hphase : r.phase with
  | allocated => rfl
  | sending => rfl
  | awaiting => rfl
  | resolved res => exact absurd hphase (hnone r hmem hchan res)
  | failed =>
    rw [hphase] at hentry
    cases hentry
  | dropped removing =>
    rw [hphase] at hentry
    have hremoving : removing = true := hentry
    exact absurd (hremoving ▸ hphase) (hrun r hmem)

/-- A request that waits for its reply, beside one whose future was dropped while the lock was
taken and whose removal has run. -/
theorem noStale_two : ∃ st : RpcState ℕ, st.ReachableBy SendsSucceed ∧ st.RemovalsRun ∧
    st.NoneLingers ∧ st.replyMap = [(⟨2, by decide⟩, 1)] ∧ st.NoStale := by
  have hrun : ∀ {st st' : RpcState ℕ} (a : Action ℕ), st.ReachableBy SendsSucceed →
      (∀ o, a ≠ .failSend o) → st.step a = some st' → st'.ReachableBy SendsSucceed :=
    fun a hst hne hstep => .step a hst (fun o _ heq => absurd heq (hne o)) hstep
  have h₁ := hrun .allocateWRsp .new (by simp) rfl
  have h₂ := hrun (.insertSender 0) h₁ (by simp) rfl
  have h₃ := hrun (.finishSend 0) h₂ (by simp) rfl
  have h₄ := hrun .allocateWRsp h₃ (by simp) rfl
  have h₅ := hrun (.insertSender 1) h₄ (by simp) rfl
  have h₆ := hrun (.drop 0 true) h₅ (by simp) rfl
  have h₇ := hrun (.runRemoval 0) h₆ (by simp) rfl
  have hsettled : ∀ {st : RpcState ℕ}, st.ReachableBy SendsSucceed →
      (∀ r ∈ st.requests, r.phase = .dropped false ∨ r.phase = .sending) →
      st.RemovalsRun ∧ st.NoneLingers := by
    intro st _ hphases
    constructor
    · intro r hr
      rcases hphases r hr with hphase | hphase <;> simp [hphase]
    · intro r hr _ res
      rcases hphases r hr with hphase | hphase <;> simp [hphase]
  obtain ⟨hremovals, hnone⟩ := hsettled h₇ (by decide)
  exact ⟨_, h₇, hremovals, hnone, rfl, noStale_of_sendsSucceed h₇ hremovals hnone⟩

/-- **A call that fails leaves its entry.**  Sending a message with a descriptor on a connection
without descriptors fails; the call of `send_msg_w_rsp` is over and its serial is still a key.

**Proof sketch.** The refusal is computed. The run allocates, inserts and fails; its only request
has failed, so it is none that lingers or is to be removed, and it is not one that makes progress,
as an entry would need. -/
theorem failSend_leaves_entry :
    let msg : MarshalledMessage :=
      ⟨⟨[], [], [⟨some 7⟩], .littleEndian⟩, { DynamicHeader.default with
        object := some "/".toList, member := some "A".toList }, .call, 0⟩
    ((SendState.new false).writeNextMessage .reference ⟨[], []⟩ msg ⟨1, by decide⟩).1 =
        .error .tooManyFds ∧
      ∃ st : RpcState ℕ, st.ReachableBy (fun _ _ => True) ∧ st.RemovalsRun ∧ st.NoneLingers ∧
        st.requests.map Request.phase = [.failed] ∧
        AssocMap.get st.replyMap ⟨1, by decide⟩ = some 0 ∧ ¬ st.NoStale := by
  intro msg
  refine ⟨by decide, ?_⟩
  have h₁ : ReachableBy (fun _ _ => True) _ := .step (Q := ℕ) .allocateWRsp .new trivial rfl
  have h₂ := ReachableBy.step (.insertSender 0) h₁ trivial rfl
  have h₃ := ReachableBy.step (.failSend 0) h₂ trivial rfl
  have hfailed : ∀ r ∈ ([⟨0, ⟨1, by decide⟩, .failed, none⟩] : List Request),
      r.phase = .failed := by decide
  refine ⟨_, h₃, ?_, ?_, rfl, by decide, ?_⟩
  · intro r hr
    simp [hfailed r hr]
  · intro r hr _ res
    simp [hfailed r hr]
  · intro hstale
    obtain ⟨r, hr, -, hprogress⟩ := hstale ⟨1, by decide⟩ 0 (by decide)
    rw [hfailed r hr] at hprogress
    cases hprogress

end RpcState

end AsyncRustbus
