import AsyncRustbus.Rpc.Reply

set_option relaxedAutoImplicit false
set_option autoImplicit false

/-!
# Reply correlation

The invariants of a connection over all interleavings of its tasks.  Serials are drawn in the
order `1, 2, …, 2 ^ 32 - 1, 1, …`, so that requests which are outstanding together have
different ones; therefore nobody but the dispatcher and the request itself touches the entry of
a request that waits.

## Main definitions

* `RpcState.Numbered` — the counter, the serials and the requests.
* `RpcState.Matched` — the requests, the map and the log.
* `RpcState.Logged` — the log alone.

## Main results

* `RpcState.Reachable.numbered`, `RpcState.Reachable.matched`, `RpcState.Reachable.logged` —
  the invariants hold.
* `RpcState.Reachable.not_panicked` — no future finds its channel closed.
* `RpcState.reply_correlation` — every response future resolves with its own reply, no reply is
  given away twice, the first reply to a waiting request reaches it, its channel is never
  closed, and the serials in use are distinct.
-/

namespace AsyncRustbus

namespace RpcState

variable {Q : Type}

/-! ## Serials -/

/-- The counter, the serials handed out so far and the requests that use them. -/
structure Numbered (st : RpcState Q) : Prop where
  counter : st.serial.toNat = st.allocs.length % (2 ^ 32 - 1) + 1 ∨
    (st.serial = 0 ∧ st.allocs.length % (2 ^ 32 - 1) = 0)
  allocs : ∀ (i : ℕ) (s : NonZeroU32), st.allocs[i]? = some s →
    s.val.toNat = i % (2 ^ 32 - 1) + 1
  requests : ∀ (o : ℕ) (r : Request), st.requests[o]? = some r →
    st.allocs[r.number]? = some r.serial
  sorted : st.requests.Pairwise fun r r' => r.number < r'.number

/-- A new connection. -/
lemma numbered_new : (new : RpcState Q).Numbered where
  counter := .inl rfl
  allocs := by simp [new]
  requests := by simp [new]
  sorted := by simp [new]

/-- Drawing the zero. -/
private lemma Numbered.fetchZero {st : RpcState Q} (h : st.Numbered) (hz : st.serial = 0) :
    ({ st with serial := st.serial + 1 } : RpcState Q).Numbered := by
  refine ⟨.inl ?_, h.allocs, h.requests, h.sorted⟩
  have hlen : st.allocs.length % (2 ^ 32 - 1) = 0 := by
    rcases h.counter with hc | hc
    · rw [hz] at hc
      simp at hc
    · exact hc.2
  simp only [hz, hlen]
  rfl

/-- **Handing out a serial** continues the sequence `1, 2, …, 2 ^ 32 - 1, 1, …`.

**Proof sketch.** The counter is one more than the number of serials handed out, modulo `2 ^ 32 -
1`, and so is the serial handed out. Adding one to it gives the next value, or zero behind the last
one. Earlier serials keep their positions. -/
private lemma Numbered.allocate {st : RpcState Q} (h : st.Numbered) (hz : st.serial ≠ 0) :
    (st.allocate ⟨st.serial, hz⟩).Numbered := by
  have hserial : st.serial.toNat = st.allocs.length % (2 ^ 32 - 1) + 1 := by
    rcases h.counter with hc | hc
    · exact hc
    · exact absurd hc.1 hz
  refine ⟨?_, ?_, ?_, h.sorted⟩
  · simp only [RpcState.allocate, List.length_append, List.length_singleton]
    have hadd : (st.serial + 1).toNat = (st.serial.toNat + 1) % 2 ^ 32 := UInt32.toNat_add _ _
    rcases Nat.lt_or_ge (st.serial.toNat + 1) (2 ^ 32) with hlt | hge
    · left
      rw [hadd]
      omega
    · right
      have hlt := st.serial.toNat_lt
      refine ⟨UInt32.toNat_inj.mp ?_, by omega⟩
      rw [hadd]
      simp only [UInt32.toNat_zero]
      omega
  · intro i s hs
    simp only [RpcState.allocate] at hs
    rcases Nat.lt_or_ge i st.allocs.length with hlt | hge
    · rw [List.getElem?_append_left hlt] at hs
      exact h.allocs i s hs
    · rw [List.getElem?_append_right hge] at hs
      obtain ⟨hi, rfl⟩ := List.getElem?_eq_some_iff.mp hs
      simp only [List.length_singleton] at hi
      obtain rfl : i = st.allocs.length := by omega
      simpa using hserial
  · intro o r hr
    have := h.requests o r hr
    obtain ⟨hlt, -⟩ := List.getElem?_eq_some_iff.mp this
    simp only [RpcState.allocate]
    rw [List.getElem?_append_left hlt, this]

/-- A step that draws no serial and leaves every request its own. -/
structure SameSerials (st st' : RpcState Q) : Prop where
  serial : st'.serial = st.serial
  allocs : st'.allocs = st.allocs
  requests : st'.requests.map (fun r => (r.number, r.serial)) =
    st.requests.map (fun r => (r.number, r.serial))

/-- Such a step keeps the numbering. -/
private lemma Numbered.congr {st st' : RpcState Q} (h : st.Numbered)
    (hsame : SameSerials st st') : st'.Numbered := by
  obtain ⟨hserial, hallocs, hreq⟩ := hsame
  refine ⟨by rw [hserial, hallocs]; exact h.counter, by rw [hallocs]; exact h.allocs, ?_, ?_⟩
  · intro o r hr
    have hmap : (st.requests.map (fun r => (r.number, r.serial)))[o]? =
        some (r.number, r.serial) := by
      rw [← hreq, List.getElem?_map, hr]
      rfl
    rw [List.getElem?_map] at hmap
    obtain ⟨r', hr', heq⟩ := Option.map_eq_some_iff.mp hmap
    simp only [Prod.mk.injEq] at heq
    rw [hallocs, ← heq.1, ← heq.2]
    exact h.requests o r' hr'
  · have hpair : (st.requests.map (fun r => (r.number, r.serial))).Pairwise
        fun a b => a.1 < b.1 := List.pairwise_map.mpr h.sorted
    rw [← hreq, List.pairwise_map] at hpair
    exact hpair

/-- Replacing a request by one with the same serial. -/
private lemma sameSerials_set {st st' : RpcState Q} {o : ℕ} {r : Request}
    (hr : st.requests[o]? = some r) (r' : Request) (hnumber : r'.number = r.number)
    (hser : r'.serial = r.serial) (hserial : st'.serial = st.serial)
    (hallocs : st'.allocs = st.allocs) (hreq : st'.requests = st.requests.set o r') :
    SameSerials st st' := by
  refine ⟨hserial, hallocs, ?_⟩
  rw [hreq, List.map_set, hnumber, hser]
  apply List.ext_getElem?
  intro i
  rw [List.getElem?_set]
  split_ifs with hoi hlt
  · subst hoi
    rw [List.getElem?_map, hr]
    rfl
  · subst hoi
    rw [List.getElem?_eq_none (Nat.le_of_not_lt hlt)]
  · rfl

/-- **Every step keeps the numbering.**

**Proof sketch.** By the kind of step. A serial is handed out by `Numbered.allocate`, and a new
request stands behind all others and has the latest one. Every other step keeps the serials of all
requests. -/
private lemma Numbered.step {st st' : RpcState Q} (h : st.Numbered) (hstep : StepSpec st st') :
    st'.Numbered := by
  cases hstep with
  | fetchZero hz => exact h.fetchZero hz
  | allocate hz => exact h.allocate hz
  | request hz =>
    have halloc := h.allocate hz
    refine ⟨halloc.counter, halloc.allocs, ?_, ?_⟩
    · intro o r hr
      rcases Nat.lt_or_ge o st.requests.length with hlt | hge
      · rw [List.getElem?_append_left hlt] at hr
        exact halloc.requests o r hr
      · rw [List.getElem?_append_right hge] at hr
        obtain ⟨ho, rfl⟩ := List.getElem?_eq_some_iff.mp hr
        simp [RpcState.allocate]
    · refine List.pairwise_append.mpr ⟨h.sorted, by simp, ?_⟩
      intro r hr r' hr'
      obtain ⟨o, ho⟩ := List.getElem?_of_mem hr
      obtain ⟨hlt, -⟩ := List.getElem?_eq_some_iff.mp (h.requests o r ho)
      rw [List.mem_singleton] at hr'
      rw [hr']
      exact hlt
  | phase o r p hr hp =>
    exact h.congr (sameSerials_set hr { r with phase := p } rfl rfl rfl rfl rfl)
  | insert o r hr hphase =>
    exact h.congr (sameSerials_set hr { r with phase := .sending } rfl rfl rfl rfl rfl)
  | remove o r hr hactive =>
    exact h.congr (sameSerials_set hr { r with phase := .dropped false } rfl rfl rfl rfl rfl)
  | process task msg st' hproc =>
    cases hproc with
    | other hno => exact h.congr ⟨rfl, rfl, rfl⟩
    | taken o r htask hr hphase hreply =>
      exact h.congr
        (sameSerials_set hr { r with phase := .resolved (some msg) } rfl rfl rfl rfl rfl)
    | forwarded s o r hreply hget hr hlisten =>
      exact h.congr (sameSerials_set hr { r with chan := some msg } rfl rfl rfl rfl rfl)
    | lost s o hreply hget hdeaf => exact h.congr ⟨rfl, rfl, rfl⟩
  | pending => exact h
  | closed o r hr hphase hchan hgone => exact h.congr ⟨rfl, rfl, rfl⟩
  | configure hierarchy sigMatches => exact h.congr ⟨rfl, rfl, rfl⟩

/-- The numbering holds in every state. -/
theorem Reachable.numbered {st : RpcState Q} (h : st.Reachable) : st.Numbered := by
  induction h with
  | new => exact numbered_new
  | step a _ hstep _ ih => exact ih.step (step_spec hstep)

/-- **Distinct serials**: two of the serials handed out since a request that is outstanding are
different. -/
lemma Numbered.ne_of_lt {st : RpcState Q} (h : st.Numbered) {r : Request}
    (hactive : st.allocs.length - (r.number + 1) < 2 ^ 32 - 1) {i j : ℕ} {s s' : NonZeroU32}
    (hi : r.number ≤ i) (hij : i < j) (hs : st.allocs[i]? = some s)
    (hs' : st.allocs[j]? = some s') : s ≠ s' := by
  rintro rfl
  have h₁ := h.allocs i s hs
  have h₂ := h.allocs j s hs'
  obtain ⟨hj, -⟩ := List.getElem?_eq_some_iff.mp hs'
  omega

/-- Outstanding requests have different serials. -/
private lemma Numbered.serial_ne {st : RpcState Q} (h : st.Numbered) (hwin : st.InWindow)
    {o o' : ℕ} {r r' : Request} (hr : st.requests[o]? = some r)
    (hr' : st.requests[o']? = some r') (hactive : r.phase.active = true)
    (hactive' : r'.phase.active = true) (hne : o ≠ o') : r.serial ≠ r'.serial := by
  obtain ⟨ho, rfl⟩ := List.getElem?_eq_some_iff.mp hr
  obtain ⟨ho', rfl⟩ := List.getElem?_eq_some_iff.mp hr'
  have hsorted := List.pairwise_iff_getElem.mp h.sorted
  have hs := h.requests o _ hr
  have hs' := h.requests o' _ hr'
  rcases Nat.lt_or_gt_of_ne hne with hlt | hgt
  · exact h.ne_of_lt (hwin _ (List.getElem_mem ho) hactive) (Nat.le_refl _)
      (hsorted o o' ho ho' hlt) hs hs'
  · exact (h.ne_of_lt (hwin _ (List.getElem_mem ho') hactive') (Nat.le_refl _)
      (hsorted o' o ho' ho hgt) hs' hs).symm

/-! ## Requests and the map -/

/-- The map of the requests, the requests and the log agree. -/
structure Matched (st : RpcState Q) : Prop where
  /-- An entry stands under the serial of its request. -/
  mapped : ∀ (k : NonZeroU32) (o : ℕ), AssocMap.get st.replyMap k = some o →
    ∃ r : Request, st.requests[o]? = some r ∧ r.serial = k
  /-- A request that listens and has got nothing has its entry. -/
  waiting : ∀ (o : ℕ) (r : Request), st.requests[o]? = some r → r.phase.listening = true →
    r.chan = none → AssocMap.get st.replyMap r.serial = some o
  /-- What a request has got or was resolved with answers it. -/
  answers : ∀ (o : ℕ) (r : Request) (msg : MarshalledMessage), st.requests[o]? = some r →
    r.chan = some msg ∨ r.phase = .resolved (some msg) → msg.IsReplyTo r.serial
  /-- What a request has got was logged. -/
  logged : ∀ (o : ℕ) (r : Request) (msg : MarshalledMessage), st.requests[o]? = some r →
    r.chan = some msg → ∃ n, (n, o) ∈ st.handed

/-- A new connection. -/
private lemma matched_new : (new : RpcState Q).Matched := by
  constructor <;> simp [new, replyMap]

/-- **A step of one request.**  The request `o` is replaced by `r'`; entries are added for it
only, and no other listening request loses its entry.

**Proof sketch.** The four parts one by one, each by whether the request is `o`. For `o` the
hypotheses say what its entry, its answer and the log are; another request is unchanged, keeps its
entry and its place in the log. -/
private lemma Matched.update {st st' : RpcState Q} (h : st.Matched) {o : ℕ} {r : Request}
    (hr : st.requests[o]? = some r) (r' : Request)
    (hreq : ∀ o', st'.requests[o']? = if o' = o then some r' else st.requests[o']?)
    (hserial : r'.serial = r.serial)
    (hmapped : ∀ k o', AssocMap.get st'.replyMap k = some o' →
      AssocMap.get st.replyMap k = some o' ∨ (k = r.serial ∧ o' = o))
    (hothers : ∀ o' r'', o' ≠ o → st.requests[o']? = some r'' → r''.phase.listening = true →
      AssocMap.get st.replyMap r''.serial = some o' →
      AssocMap.get st'.replyMap r''.serial = some o')
    (hself : r'.phase.listening = true → r'.chan = none →
      AssocMap.get st'.replyMap r.serial = some o)
    (hans : ∀ msg, r'.chan = some msg ∨ r'.phase = .resolved (some msg) →
      msg.IsReplyTo r.serial)
    (hlog : ∀ msg, r'.chan = some msg → ∃ n, (n, o) ∈ st'.handed)
    (hhanded : ∀ e ∈ st.handed, e ∈ st'.handed) : st'.Matched := by
  refine ⟨?_, ?_, ?_, ?_⟩
  · intro k o' hget
    rw [hreq]
    rcases hmapped k o' hget with hold | ⟨rfl, rfl⟩
    · obtain ⟨r'', hr'', hk⟩ := h.mapped k o' hold
      split_ifs with ho
      · subst ho
        rw [hr, Option.some.injEq] at hr''
        subst hr''
        exact ⟨r', rfl, by rw [hserial, hk]⟩
      · exact ⟨r'', hr'', hk⟩
    · rw [if_pos rfl]
      exact ⟨r', rfl, hserial⟩
  · intro o' r'' hr'' hlisten hchan
    rw [hreq] at hr''
    split_ifs at hr'' with ho
    · subst ho
      rw [Option.some.injEq] at hr''
      subst hr''
      rw [hserial]
      exact hself hlisten hchan
    · exact hothers o' r'' ho hr'' hlisten (h.waiting o' r'' hr'' hlisten hchan)
  · intro o' r'' msg hr'' hmsg
    rw [hreq] at hr''
    split_ifs at hr'' with ho
    · rw [Option.some.injEq] at hr''
      subst hr''
      rw [hserial]
      exact hans msg hmsg
    · exact h.answers o' r'' msg hr'' hmsg
  · intro o' r'' msg hr'' hmsg
    rw [hreq] at hr''
    split_ifs at hr'' with ho
    · subst ho
      rw [Option.some.injEq] at hr''
      subst hr''
      exact hlog msg hmsg
    · obtain ⟨n, hn⟩ := h.logged o' r'' msg hr'' hmsg
      exact ⟨n, hhanded _ hn⟩

/-- Looking up a request in a list in which one was replaced. -/
private lemma getElem?_set_request {l : List Request} {o : ℕ} {r : Request}
    (hr : l[o]? = some r) (r' : Request) (o' : ℕ) :
    (l.set o r')[o']? = if o' = o then some r' else l[o']? := by
  obtain ⟨ho, -⟩ := List.getElem?_eq_some_iff.mp hr
  rw [List.getElem?_set]
  by_cases hoo : o = o'
  · subst hoo
    simp [ho]
  · simp [hoo, Ne.symm hoo]

/-- Reading a message keeps requests, map and log in agreement.

**Proof sketch.** By what becomes of the message (`ProcessSpec`). If the task that waits takes it,
its request is resolved and stops listening. If it is forwarded, the entry of the request is removed
and its channel is filled; the entry stands under its serial, so no other request loses one. If its
request is gone, only an entry without a listener is removed. -/
private lemma Matched.process {st st' : RpcState Q} (h : st.Matched) {task : Task Q}
    {msg : MarshalledMessage} (hproc : ProcessSpec st task msg st') : st'.Matched := by
  cases hproc with
  | other hno => exact ⟨h.mapped, h.waiting, h.answers, h.logged⟩
  | taken o r htask hr hphase hreply =>
    refine h.update hr { r with phase := .resolved (some msg) } (getElem?_set_request hr _) rfl
      (fun k o' hget => .inl hget) (fun o' r'' _ _ _ hget => hget) ?_ ?_ ?_ ?_
    · intro hlisten
      cases hlisten
    · rintro msg' (hmsg | hmsg)
      · exact h.answers o r msg' hr (.inl hmsg)
      · cases hmsg
        exact hreply
    · intro msg' _
      exact ⟨st.received, by simp⟩
    · intro e he
      exact List.mem_append_left _ he
  | forwarded s o r hreply hget hr hlisten =>
    -- the entry stands under the serial of the request
    obtain ⟨r', hr', hser⟩ := h.mapped s o hget
    rw [hr, Option.some.injEq] at hr'
    subst hr'
    refine h.update hr { r with chan := some msg } (getElem?_set_request hr _) rfl ?_ ?_ ?_ ?_ ?_ ?_
    · intro k o' hget'
      simp only [replyMap, AssocMap.get_remove] at hget'
      split_ifs at hget'
      exact .inl hget'
    · intro o' r'' hne hr'' _ hget''
      have hk : r''.serial ≠ s := by
        intro hk
        rw [hk, hget, Option.some.injEq] at hget''
        exact hne hget''.symm
      simp only [replyMap, AssocMap.get_remove, hk, if_false]
      exact hget''
    · intro _ hchan
      cases hchan
    · rintro msg' (hmsg | hmsg)
      · cases hmsg
        rw [hser]
        exact hreply
      · exact h.answers o r msg' hr (.inr hmsg)
    · intro msg' _
      exact ⟨st.received, by simp⟩
    · intro e he
      exact List.mem_append_left _ he
  | lost s o hreply hget hdeaf =>
    refine ⟨?_, ?_, h.answers, h.logged⟩
    · intro k o' hget'
      simp only [replyMap, AssocMap.get_remove] at hget'
      split_ifs at hget'
      exact h.mapped k o' hget'
    · intro o' r' hr' hlisten hchan
      have hget' := h.waiting o' r' hr' hlisten hchan
      have hk : r'.serial ≠ s := by
        intro hk
        rw [hk, hget, Option.some.injEq] at hget'
        subst hget'
        rw [hdeaf r' hr'] at hlisten
        cases hlisten
      simp only [replyMap, AssocMap.get_remove, hk, if_false]
      exact hget'

/-- A new request keeps requests, map and log in agreement.

**Proof sketch.** The new request stands behind the others, does not listen yet and has got nothing
(`hold`), so each part holds of it at once, and of the others as before. -/
private lemma Matched.request {st : RpcState Q} (h : st.Matched) (hz : st.serial ≠ 0) :
    ({ st.allocate ⟨st.serial, hz⟩ with requests := st.requests ++
      [⟨st.allocs.length, ⟨st.serial, hz⟩, .allocated, none⟩] } : RpcState Q).Matched := by
  -- the new request does not listen, and has got nothing
  have hold : ∀ (o : ℕ) (r : Request),
      (st.requests ++ [⟨st.allocs.length, ⟨st.serial, hz⟩, .allocated, none⟩])[o]? = some r →
      st.requests[o]? = some r ∨ (r.phase = .allocated ∧ r.chan = none) := by
    intro o r hr
    rcases Nat.lt_or_ge o st.requests.length with hlt | hge
    · rw [List.getElem?_append_left hlt] at hr
      exact .inl hr
    · rw [List.getElem?_append_right hge] at hr
      obtain ⟨ho, rfl⟩ := List.getElem?_eq_some_iff.mp hr
      right
      simp
  refine ⟨?_, ?_, ?_, ?_⟩
  · intro k o hget
    obtain ⟨r, hr, hk⟩ := h.mapped k o hget
    obtain ⟨hlt, -⟩ := List.getElem?_eq_some_iff.mp hr
    exact ⟨r, by rw [List.getElem?_append_left hlt, hr], hk⟩
  · intro o r hr hlisten hchan
    rcases hold o r hr with hr' | ⟨hphase, -⟩
    · exact h.waiting o r hr' hlisten hchan
    · rw [hphase] at hlisten
      cases hlisten
  · intro o r msg hr hmsg
    rcases hold o r hr with hr' | ⟨hphase, hchan⟩
    · exact h.answers o r msg hr' hmsg
    · rw [hphase, hchan] at hmsg
      simp at hmsg
  · intro o r msg hr hmsg
    rcases hold o r hr with hr' | ⟨-, hchan⟩
    · exact h.logged o r msg hr' hmsg
    · rw [hchan] at hmsg
      cases hmsg

/-- **Every step keeps requests, map and log in agreement**, as long as the serials in use are
distinct.

**Proof sketch.** An entry disappears when it is used, replaced or removed.  When it is used,
its request has got the message.  When it is replaced or removed by another request, that
request is outstanding or its removal is pending, so that its serial is different from that of
every listening request (`Numbered.serial_ne`). -/
private lemma Matched.step {st st' : RpcState Q} (h : st.Matched) (hnum : st.Numbered)
    (hwin : st.InWindow) (hstep : StepSpec st st') : st'.Matched := by
  cases hstep with
  | fetchZero hz => exact ⟨h.mapped, h.waiting, h.answers, h.logged⟩
  | allocate hz => exact ⟨h.mapped, h.waiting, h.answers, h.logged⟩
  | pending => exact h
  | closed o r hr hphase hchan hgone => exact ⟨h.mapped, h.waiting, h.answers, h.logged⟩
  | configure hierarchy sigMatches => exact ⟨h.mapped, h.waiting, h.answers, h.logged⟩
  | request hz => exact h.request hz
  | phase o r p hr hp =>
    refine h.update hr { r with phase := p } (getElem?_set_request hr _) rfl
      (fun k o' hget => .inl hget) (fun o' r'' _ _ _ hget => hget) ?_ ?_ ?_ (fun e he => he)
    · intro hlisten hchan
      exact h.waiting o r hr (hp.listen hlisten) hchan
    · rintro msg (hmsg | hmsg)
      · exact h.answers o r msg hr (.inl hmsg)
      · exact h.answers o r msg hr (.inl (hp.result msg hmsg))
    · intro msg hmsg
      exact h.logged o r msg hr hmsg
  | insert o r hr hphase =>
    refine h.update hr { r with phase := .sending } (getElem?_set_request hr _) rfl
      ?_ ?_ ?_ ?_ ?_ (fun e he => he)
    · intro k o' hget
      simp only [setReplyMap, replyMap, setRequest, AssocMap.get_insert] at hget
      split_ifs at hget with hk
      · exact .inr ⟨hk, (Option.some.inj hget).symm⟩
      · exact .inl hget
    · intro o' r'' hne hr'' hlisten hget
      have hactive : r.phase.active = true := by rw [hphase]; rfl
      have hser := hnum.serial_ne hwin hr'' hr (Phase.active_of_listening hlisten) hactive hne
      simp only [setReplyMap, replyMap, setRequest, AssocMap.get_insert, hser, if_false]
      exact hget
    · intro _ _
      simp [setReplyMap, replyMap, setRequest]
    · rintro msg (hmsg | hmsg)
      · exact h.answers o r msg hr (.inl hmsg)
      · cases hmsg
    · intro msg hmsg
      exact h.logged o r msg hr hmsg
  | remove o r hr hactive =>
    refine h.update hr { r with phase := .dropped false } (getElem?_set_request hr _) rfl
      ?_ ?_ ?_ ?_ ?_ (fun e he => he)
    · intro k o' hget
      simp only [removeEntry, setReplyMap, replyMap, setRequest, AssocMap.get_remove] at hget
      split_ifs at hget
      exact .inl hget
    · intro o' r'' hne hr'' hlisten hget
      have hser := hnum.serial_ne hwin hr'' hr (Phase.active_of_listening hlisten) hactive hne
      simp only [removeEntry, setReplyMap, replyMap, setRequest, AssocMap.get_remove, hser,
        if_false]
      exact hget
    · intro hlisten
      cases hlisten
    · rintro msg (hmsg | hmsg)
      · exact h.answers o r msg hr (.inl hmsg)
      · cases hmsg
    · intro msg hmsg
      exact h.logged o r msg hr hmsg
  | process task msg st' hproc => exact h.process hproc

/-- The agreement holds in every state. -/
theorem Reachable.matched {st : RpcState Q} (h : st.Reachable) : st.Matched := by
  induction h with
  | new => exact matched_new
  | step a hst hstep _ ih => exact ih.step hst.numbered hst.inWindow (step_spec hstep)

/-- Every message is logged under its own number, and at most once. -/
structure Logged (st : RpcState Q) : Prop where
  lt : ∀ e ∈ st.handed, e.1 < st.received
  nodup : (st.handed.map Prod.fst).Nodup

/-- Logging the message that was just read. -/
private lemma Logged.append {st : RpcState Q} (h : st.Logged) (o : ℕ) :
    (∀ e ∈ st.handed ++ [(st.received, o)], e.1 < st.received + 1) ∧
      ((st.handed ++ [(st.received, o)]).map Prod.fst).Nodup := by
  constructor
  · intro e he
    rcases List.mem_append.mp he with he | he
    · have := h.lt e he
      omega
    · rw [List.mem_singleton] at he
      rw [he]
      exact Nat.lt_succ_self _
  · rw [List.map_append, List.nodup_append]
    refine ⟨h.nodup, by simp, ?_⟩
    intro a ha b hb
    obtain ⟨e, he, rfl⟩ := List.mem_map.mp ha
    have := h.lt e he
    simp only [List.map_cons, List.map_nil, List.mem_singleton] at hb
    omega

/-- The log stays in order. -/
theorem Reachable.logged {st : RpcState Q} (h : st.Reachable) : st.Logged := by
  induction h with
  | new => exact ⟨by simp [RpcState.new], by simp [RpcState.new]⟩
  | step a _ hstep _ ih =>
    cases step_spec hstep with
    | fetchZero hz => exact ⟨ih.lt, ih.nodup⟩
    | allocate hz => exact ⟨ih.lt, ih.nodup⟩
    | request hz => exact ⟨ih.lt, ih.nodup⟩
    | phase o r p hr hp => exact ⟨ih.lt, ih.nodup⟩
    | insert o r hr hphase => exact ⟨ih.lt, ih.nodup⟩
    | remove o r hr hactive => exact ⟨ih.lt, ih.nodup⟩
    | pending => exact ih
    | closed o r hr hphase hchan hgone => exact ⟨ih.lt, ih.nodup⟩
    | configure hierarchy sigMatches => exact ⟨ih.lt, ih.nodup⟩
    | process task msg st' hproc =>
      cases hproc with
      | other hno => exact ⟨fun e he => Nat.lt_succ_of_lt (ih.lt e he), ih.nodup⟩
      | lost s o hreply hget hdeaf =>
        exact ⟨fun e he => Nat.lt_succ_of_lt (ih.lt e he), ih.nodup⟩
      | taken o r htask hr hphase hreply => exact ⟨(ih.append o).1, (ih.append o).2⟩
      | forwarded s o r hreply hget hr hlisten => exact ⟨(ih.append o).1, (ih.append o).2⟩

/-- **The channel of a waiting request is never closed**: its sender is in the map until it is
used. -/
theorem Reachable.not_panicked {st : RpcState Q} (h : st.Reachable) : st.panicked = false := by
  induction h with
  | new => rfl
  | step a hst hstep _ ih =>
    cases step_spec hstep with
    | fetchZero hz => exact ih
    | allocate hz => exact ih
    | request hz => exact ih
    | phase o r p hr hp => exact ih
    | insert o r hr hphase => exact ih
    | remove o r hr hactive => exact ih
    | pending => exact ih
    | configure hierarchy sigMatches => exact ih
    | closed o r hr hphase hchan hgone =>
      have hget := hst.matched.waiting o r hr (by rw [hphase]; rfl) hchan
      exact absurd rfl (hgone _ (AssocMap.mem_of_get hget))
    | process task msg st' hproc =>
      cases hproc with
      | other hno => exact ih
      | lost s o hreply hget hdeaf => exact ih
      | taken o r htask hr hphase hreply => exact ih
      | forwarded s o r hreply hget hr hlisten => exact ih

/-! ## Reply correlation -/

/-- A message answers one call only. -/
private lemma isReplyTo_inj {msg : MarshalledMessage} {s s' : NonZeroU32}
    (h : msg.IsReplyTo s) (h' : msg.IsReplyTo s') : s = s' := by
  have heq := h.2
  rw [h'.2, Option.some.injEq] at heq
  exact heq.symm

/-- **The first reply reaches the request**, whoever reads it.

**Proof sketch.** The request has got nothing yet, so its sender is in the map under its
serial.  The reader takes the reply itself only if it is the future of that serial, and no
other outstanding request has it; else the reply is sent to the request in the map, which
listens. -/
private lemma Reachable.first_reply {st st' : RpcState Q} (h : st.Reachable)
    {closed : Q → Bool} {task : Task Q} {msg : MarshalledMessage}
    (hproc : st.process closed task msg = some st') {o : ℕ} {r : Request}
    (hr : st.requests[o]? = some r) (hlisten : r.phase.listening = true)
    (hreply : msg.IsReplyTo r.serial) (hfirst : ∀ n, (n, o) ∉ st.handed) :
    (st.received, o) ∈ st'.handed ∧ ∃ r', st'.requests[o]? = some r' ∧
      (r'.chan = some msg ∨ r'.phase = .resolved (some msg)) := by
  have hchan : r.chan = none := by
    cases hc : r.chan with
    | none => rfl
    | some m =>
      obtain ⟨n, hn⟩ := h.matched.logged o r m hr hc
      exact absurd hn (hfirst n)
  have hwait := h.matched.waiting o r hr hlisten hchan
  cases process_spec hproc with
  | other hno =>
    rw [(hno r.serial hreply).2] at hwait
    cases hwait
  | taken o' r' htask hr' hphase hreply' =>
    have hactive' : r'.phase.active = true := by rw [hphase]; rfl
    have hoo : o = o' := by
      by_contra hne
      exact h.numbered.serial_ne h.inWindow hr hr' (Phase.active_of_listening hlisten) hactive' hne
        (isReplyTo_inj hreply hreply')
    subst hoo
    refine ⟨by simp, { r' with phase := .resolved (some msg) }, ?_, .inr rfl⟩
    rw [getElem?_set_request hr', if_pos rfl]
  | forwarded s o' r' hreply' hget hr' hlisten' =>
    rw [isReplyTo_inj hreply hreply', hget, Option.some.injEq] at hwait
    subst hwait
    refine ⟨by simp, { r' with chan := some msg }, ?_, .inl rfl⟩
    rw [getElem?_set_request hr', if_pos rfl]
  | lost s o' hreply' hget hdeaf =>
    rw [isReplyTo_inj hreply hreply', hget, Option.some.injEq] at hwait
    subst hwait
    rw [hdeaf r hr] at hlisten
    cases hlisten

/-- The serials handed out since an outstanding request. -/
private lemma Reachable.nodup_allocs {st : RpcState Q} (h : st.Reachable) {r : Request}
    (hr : r ∈ st.requests) (hactive : r.phase.active = true) :
    (st.allocs.drop r.number).Nodup := by
  have hwin := h.inWindow r hr hactive
  refine List.pairwise_iff_getElem.mpr ?_
  intro i j hi hj hij
  rw [List.length_drop] at hi hj
  rw [List.getElem_drop, List.getElem_drop]
  exact h.numbered.ne_of_lt hwin (Nat.le_add_right _ i) (by omega)
    (List.getElem?_eq_getElem (by omega)) (List.getElem?_eq_getElem (by omega))

/-- **Reply correlation.**  In every run in which fewer than `2 ^ 32 - 1` serials are allocated
while a request is outstanding or the removal of its entry is pending: a response future is
resolved only with a reply to its request; a message is given to at most one future; the first
reply to a request that waits is given to it, whichever task reads it; no future finds its
channel closed; and the serials in use are nonzero and pairwise distinct. -/
theorem reply_correlation {st : RpcState Q} (h : st.Reachable) :
    (∀ (o : ℕ) (r : Request) (msg : MarshalledMessage), st.requests[o]? = some r →
      r.phase = .resolved (some msg) → msg.IsReplyTo r.serial) ∧
    (st.handed.map Prod.fst).Nodup ∧
    (∀ (closed : Q → Bool) (task : Task Q) (msg : MarshalledMessage) (st' : RpcState Q) (o : ℕ)
      (r : Request), st.process closed task msg = some st' → st.requests[o]? = some r →
      r.phase.listening = true → msg.IsReplyTo r.serial → (∀ n, (n, o) ∉ st.handed) →
      (st.received, o) ∈ st'.handed ∧ ∃ r', st'.requests[o]? = some r' ∧
        (r'.chan = some msg ∨ r'.phase = .resolved (some msg))) ∧
    st.panicked = false ∧
    (∀ r ∈ st.requests, r.phase.active = true →
      st.allocs[r.number]? = some r.serial ∧ (st.allocs.drop r.number).Nodup) ∧
    ∀ s ∈ st.allocs, s.val ≠ 0 := by
  refine ⟨?_, h.logged.nodup, ?_, h.not_panicked, ?_, fun s _ => s.ne⟩
  · intro o r msg hr hres
    exact h.matched.answers o r msg hr (.inr hres)
  · intro closed task msg st' o r hproc hr hlisten hreply hfirst
    exact h.first_reply hproc hr hlisten hreply hfirst
  · intro r hr hactive
    obtain ⟨o, ho⟩ := List.getElem?_of_mem hr
    exact ⟨h.numbered.requests o r ho, h.nodup_allocs hr hactive⟩

/-- A request is sent, a task that waits for signals reads its reply, and the future is
polled. -/
theorem reply_correlation_exchange : ∃ st : RpcState ℕ, st.Reachable ∧
    (st.requests.map fun r => r.phase) =
      [.resolved (some (receivedReply (NonZeroU32.new 1)))] ∧
    st.handed = [(0, 0)] ∧
    (receivedReply (NonZeroU32.new 1)).IsReplyTo ⟨1, by decide⟩ ∧ st.panicked = false := by
  have h : Reachable (Q := ℕ) _ :=
    .step (.poll 0) (.step (.process (fun _ => false) (.signal .empty)
      (receivedReply (NonZeroU32.new 1))) (.step (.finishSend 0) (.step (.insertSender 0)
      (.step .allocateWRsp .new rfl ?_) rfl ?_) rfl ?_) rfl ?_) rfl ?_
  · exact ⟨_, h, rfl, rfl, (reply_correlation h).1 0 _ _ rfl rfl, (reply_correlation h).2.2.2.1⟩
  all_goals
    unfold InWindow
    decide

end RpcState

end AsyncRustbus
