import AsyncRustbus.Routing.Send
import Mathlib.Logic.Function.Basic

set_option relaxedAutoImplicit false
set_option autoImplicit false

/-!
# The nearest registered ancestor (`routing.rs`)

A call goes to the nearest node on the way to its path that has a handler of its own.  Where that
handler is an `Intro`, the answer should list the children of the node the call is for, and a
path without a node should be unknown.

## Main definitions

* `CallHierarchy.sendQueued` — `send` with the contents of the queues.
* `CallHierarchy.RoutesToNearest` — a call reaches the queue of its nearest registered ancestor or
  is answered.
* `CallHierarchy.AnswersExisting` — only paths that have a node are described.
* `CallHierarchy.MissingBelowPlaceholder` — the paths for which that goes wrong.

## Main results

* `CallHierarchy.routesToNearest_iff` — exactly when `send` routes to the nearest registered
  ancestor.
* `CallHierarchy.answersExisting_iff` — exactly when `send_inner` describes existing nodes only.
-/

namespace AsyncRustbus

namespace CallHierarchy

variable {Q : Type}

/-! ## Calls in queues -/

/-- What `send` answers when it does not panic.

**Proof sketch.** By the status of `send_inner`. Without a panic a queue is open and takes the call
(`sendInner_eq_queue_iff`); every other status is answered, an `Intro` with a description and the
others with the error. -/
private lemma send_cases {closed : Q → Bool} {h : CallHierarchy Q} {msg : MarshalledMessage}
    {path : ObjectPath} (hobj : msg.dynheader.object = some path.inner)
    (hne : h.send closed msg ≠ .panic) :
    (∃ q, h.QueuesTo path.components q ∧ h.send closed msg = .ok q) ∨
    ((∀ q, ¬ h.QueuesTo path.components q) ∧ ∃ reply, h.send closed msg = .err reply ∧
      (reply = makeObjectNotFound msg ∨
        ∃ keys : List (Str × CallHierarchy Q), makeIntroMsg msg keys = .ok reply)) := by
  have hpath : ObjectPath.fromStr path.inner = .ok path :=
    (ObjectPath.fromStr_eq_ok_iff _ _).mpr rfl
  simp only [← sendInner_eq_queue_iff]
  unfold send at hne ⊢
  simp only [hobj, hpath] at hne ⊢
  cases hst : sendInner path.components h with
  | queue q =>
    left
    rw [hst] at hne
    cases hc : closed q with
    | true => simp [hc] at hne
    | false => exact ⟨q, rfl, by simp [hc]⟩
  | dropped => exact .inr ⟨by simp, _, rfl, .inl rfl⟩
  | unhandled keys => exact .inr ⟨by simp, _, rfl, .inl rfl⟩
  | intro keys =>
    right
    rw [hst] at hne
    cases hi : makeIntroMsg msg keys with
    | ok reply => exact ⟨by simp, reply, by simp [hi], .inr ⟨keys, hi⟩⟩
    | err e => exact nomatch e
    | panic => simp [hi] at hne

section Queues

variable [DecidableEq Q]

/-- The queues after `MsgQueue::send`: the message is appended to one of them. -/
def enqueue (queues : Q → List MarshalledMessage) (q : Q) (msg : MarshalledMessage) :
    Q → List MarshalledMessage :=
  Function.update queues q (queues q ++ [msg])

/-- The queue a message was appended to can be read off the contents. -/
lemma enqueue_inj (queues : Q → List MarshalledMessage) {q q' : Q} {msg : MarshalledMessage}
    (h : enqueue queues q msg = enqueue queues q' msg) : q = q' := by
  by_contra hne
  have hat := congrFun h q
  simp [enqueue, Function.update_of_ne hne] at hat

/-- `CallHierarchy::send` with the contents of the queues: its result and the queues as it leaves
them. -/
def sendQueued (closed : Q → Bool) (queues : Q → List MarshalledMessage) (h : CallHierarchy Q)
    (msg : MarshalledMessage) : Res MarshalledMessage Unit × (Q → List MarshalledMessage) :=
  match h.send closed msg with
  | .ok q => (.ok (), enqueue queues q msg)
  | .err reply => (.err reply, queues)
  | .panic => (.panic, queues)

/-- The nearest registered ancestor of `path` decides: the call is appended to a queue iff this
is the queue of that ancestor and it takes the call; where there is no such queue, no queue
changes and the call is answered. -/
def RoutesToNearest (closed : Q → Bool) (queues : Q → List MarshalledMessage)
    (h : CallHierarchy Q) (msg : MarshalledMessage) (path : ObjectPath) : Prop :=
  (∀ q, h.sendQueued closed queues msg = (.ok (), enqueue queues q msg) ↔
    h.QueuesTo path.components q) ∧
  ((∀ q, ¬ h.QueuesTo path.components q) →
    ∃ reply, h.sendQueued closed queues msg = (.err reply, queues) ∧
      (reply = makeObjectNotFound msg ∨
        ∃ keys : List (Str × CallHierarchy Q), makeIntroMsg msg keys = .ok reply))

/-- **Exactly when a call is routed to its nearest registered ancestor**: unless `send` panics,
which is when an `Intro` handler answers a call that names no interface, or when the queue of the
ancestor is closed.

**Proof sketch.** Where `send` does not panic, the answer of `send_inner` is the one of the
nearest registered ancestor.  Where it does, nothing is appended and nothing is answered, but one
of the two is asked for. -/
theorem routesToNearest_iff (closed : Q → Bool) (queues : Q → List MarshalledMessage)
    (h : CallHierarchy Q) (msg : MarshalledMessage) (path : ObjectPath)
    (hobj : msg.dynheader.object = some path.inner) :
    RoutesToNearest closed queues h msg path ↔
      (h.Introspects path.components → msg.dynheader.interface.isSome = true) ∧
      ∀ q, h.QueuesTo path.components q → closed q = false := by
  rw [← send_ne_panic_iff closed hobj]
  constructor
  · rintro ⟨hqueue, hanswer⟩ hpanic
    have hsent : h.sendQueued closed queues msg = (.panic, queues) := by
      simp [sendQueued, hpanic]
    by_cases hq : ∃ q, h.QueuesTo path.components q
    · obtain ⟨q, hq⟩ := hq
      have := (hqueue q).mpr hq
      simp [hsent] at this
    · obtain ⟨reply, hreply, -⟩ := hanswer (not_exists.mp hq)
      simp [hsent] at hreply
  · intro hne
    rcases send_cases hobj hne with ⟨q, hq, hsend⟩ | ⟨hno, reply, hsend, hreply⟩
    · have hsent : h.sendQueued closed queues msg = (.ok (), enqueue queues q msg) := by
        simp [sendQueued, hsend]
      refine ⟨fun q' => ?_, fun hno => absurd hq (hno q)⟩
      rw [hsent]
      constructor
      · intro heq
        rw [← enqueue_inj queues (Prod.mk.inj heq).2]
        exact hq
      · intro hq'
        rw [← sendInner_eq_queue_iff] at hq hq'
        rw [Status.queue.inj (hq.symm.trans hq')]
    · have hsent : h.sendQueued closed queues msg = (.err reply, queues) := by
        simp [sendQueued, hsend]
      refine ⟨fun q => ?_, fun _ => ⟨reply, hsent, hreply⟩⟩
      simp [hsent, hno q]

/-- A call to `/a/b` with a queue registered at `/a`. -/
theorem routesToNearest_child :
    let a : ObjectPath := ⟨"/a".toList, by decide⟩
    let ab : ObjectPath := ⟨"/a/b".toList, by decide⟩
    let h : CallHierarchy ℕ := new.insertPath a .queue 7
    let msg : MarshalledMessage :=
      ⟨.new, { DynamicHeader.default with object := ab.inner }, .call, 0⟩
    h.Reachable ∧ h.QueuesTo ab.components 7 ∧
      RoutesToNearest (fun _ => false) (fun _ => []) h msg ab := by
  intro a ab h msg
  have hst : sendInner ab.components h = .queue 7 := rfl
  refine ⟨.insert _ _ _ .new, (sendInner_eq_queue_iff _ _ _).mp hst,
    (routesToNearest_iff _ _ h msg ab rfl).mpr ⟨?_, fun _ _ => rfl⟩⟩
  rw [← exists_sendInner_intro_iff, hst]
  rintro ⟨keys, hkeys⟩
  cases hkeys

/-- A call to `/` that names no interface, with an `Intro` registered there: nobody gets it and
nobody answers it. -/
theorem sendQueued_intro_panics :
    let root : ObjectPath := ⟨"/".toList, by decide⟩
    let h : CallHierarchy ℕ := new.insertPath root .intro 7
    let msg : MarshalledMessage :=
      ⟨.new, { DynamicHeader.default with object := root.inner }, .call, 0⟩
    h.Reachable ∧ h.sendQueued (fun _ => false) (fun _ => []) msg = (.panic, fun _ => []) ∧
      ¬ RoutesToNearest (fun _ => false) (fun _ => []) h msg root := by
  intro root h msg
  have hsent : h.sendQueued (fun _ => false) (fun _ => []) msg = (.panic, fun _ => []) := rfl
  refine ⟨.insert _ _ _ .new, hsent, ?_⟩
  rintro ⟨-, hanswer⟩
  have hst : sendInner root.components h = .intro [] := rfl
  obtain ⟨reply, hreply, -⟩ := hanswer fun q hq => by
    rw [← sendInner_eq_queue_iff, hst] at hq
    cases hq
  rw [hsent] at hreply
  cases (Prod.mk.inj hreply).1

end Queues

/-! ## Descriptions of nodes -/

/-- No node has two children of one name. -/
def DistinctNames (h : CallHierarchy Q) : Prop :=
  ∀ cs n, nodeAt cs h = some n → (n.children.map Prod.fst).Nodup

/-- The names in a tree are distinct when those of its root are and those in its children. -/
private lemma distinctNames_iff (h : CallHierarchy Q) :
    h.DistinctNames ↔ (h.children.map Prod.fst).Nodup ∧
      ∀ c n, AssocMap.get h.children c = some n → n.DistinctNames := by
  constructor
  · intro hd
    refine ⟨hd [] h (by simp), fun c n hc cs m hm => ?_⟩
    exact hd (c :: cs) m (by simp [hc, hm])
  · rintro ⟨hroot, hch⟩ cs n hn
    cases cs with
    | nil =>
      obtain rfl : h = n := by simpa using hn
      exact hroot
    | cons c cs =>
      rw [nodeAt_cons] at hn
      obtain ⟨child, hc, hn⟩ := Option.bind_eq_some_iff.mp hn
      exact hch c child hc cs n hn

/-- Rebinding one child keeps the names distinct. -/
private lemma DistinctNames.insert {children : List (Str × CallHierarchy Q)}
    {hd : CallHandler Q} {n : CallHierarchy Q} (h : (node children hd).DistinctNames)
    (hn : n.DistinctNames) (c : Str) :
    (node (AssocMap.insert children c n) hd).DistinctNames := by
  rw [distinctNames_iff] at h ⊢
  refine ⟨AssocMap.nodup_keys_insert h.1 c n, fun d m hm => ?_⟩
  simp only [children_node, AssocMap.get_insert] at hm
  split_ifs at hm with hdc
  · obtain rfl : n = m := by simpa using hm
    exact hn
  · exact h.2 d m hm

/-- Removing a child keeps the names distinct. -/
private lemma DistinctNames.remove {children : List (Str × CallHierarchy Q)}
    {hd : CallHandler Q} (h : (node children hd).DistinctNames) (c : Str) :
    (node (AssocMap.remove children c) hd).DistinctNames := by
  rw [distinctNames_iff] at h ⊢
  refine ⟨AssocMap.nodup_keys_remove h.1 c, fun d m hm => ?_⟩
  simp only [children_node, AssocMap.get_remove] at hm
  split_ifs at hm with hdc
  exact h.2 d m hm

/-- A leaf has no names. -/
private lemma distinctNames_leaf (hd : CallHandler Q) : (node [] hd).DistinctNames := by
  rw [distinctNames_iff]
  exact ⟨List.nodup_nil, fun c n hc => by simp at hc⟩

/-- One insertion keeps the names distinct. -/
private lemma insertInner_distinctNames (action : CallAction) (q : Q) (cs : List Str) :
    ∀ h : CallHierarchy Q, h.DistinctNames → (insertInner action q cs h).2.DistinctNames := by
  induction cs with
  | nil =>
    rintro ⟨children, hd⟩ h
    rw [distinctNames_iff] at h ⊢
    exact h
  | cons c cs ih =>
    rintro ⟨children, hd⟩ h
    rw [insertInner]
    split
    · rename_i entry hentry
      have hsub := ih entry (((distinctNames_iff _).mp h).2 c entry hentry)
      split
      · rename_i entry' hins
        rw [hins] at hsub
        exact h.insert hsub c
      · exact h.remove c
    · have hsub := ih (node [] .nothing) (distinctNames_leaf _)
      split
      · rename_i hier hins
        rw [hins] at hsub
        exact h.insert hsub c
      · exact h

/-- The names in a reachable tree are distinct. -/
lemma Reachable.distinctNames {h : CallHierarchy Q} (hr : h.Reachable) : h.DistinctNames := by
  induction hr with
  | new => exact distinctNames_leaf _
  | insert path action q _ ih => exact insertInner_distinctNames action q _ _ ih

/-- What a call for a path without a node gets from its nearest registered ancestor. -/
def missingStatus : CallHandler Q → Status Q
  | .queue q => .queue q
  | .exact _ => .dropped
  | .intro => .dropped
  | .drop => .dropped
  | .nothing => .unhandled []

/-- Only paths that have a node are described: `send_inner` answers `Intro` iff there is a node
at the path and its nearest registered ancestor is an `Intro`; the answer carries the children of
that node, each once; and a path without a node gets what its nearest registered ancestor has for
such paths. -/
structure AnswersExisting (h : CallHierarchy Q) (m : List Str) : Prop where
  intro_iff : (∃ keys, sendInner m h = .intro keys) ↔
    (nodeAt m h).isSome = true ∧ ∃ k, h.NearestAt m k .intro
  children : ∀ keys, sendInner m h = .intro keys →
    ∃ n, nodeAt m h = some n ∧ keys = n.children ∧ (keys.map Prod.fst).Nodup
  missing : nodeAt m h = none → ∀ k hd, h.NearestAt m k hd → sendInner m h = missingStatus hd
  unregistered : nodeAt m h = none → (∀ k hd, ¬ h.NearestAt m k hd) →
    sendInner m h = missingStatus .nothing

/-- There is no node at the path, but there is one between it and its nearest registered
ancestor, and that ancestor is an `Intro`. -/
def MissingBelowPlaceholder (h : CallHierarchy Q) (m : List Str) : Prop :=
  nodeAt m h = none ∧ ∃ k, h.NearestAt m k .intro ∧ nodeAt (m.take (k + 1)) h ≠ none

/-- The handler of a node is found iff the node is there. -/
private lemma exists_findInner_iff (cs : List Str) (h : CallHierarchy Q) :
    (∃ hd, findInner cs h = some hd) ↔ nodeAt cs h ≠ none := by
  rw [findInner_eq]
  cases nodeAt cs h <;> simp

/-- All nodes on the way to a node are there. -/
private lemma nodeAt_take_ne_none {m : List Str} {h : CallHierarchy Q} (hn : nodeAt m h ≠ none)
    (k : ℕ) : nodeAt (m.take k) h ≠ none := by
  intro hnone
  rw [← List.take_append_drop k m, nodeAt_append, hnone] at hn
  exact hn rfl

/-- A registered ancestor of a path without a node is a proper one. -/
private lemma NearestAt.ne_length {h : CallHierarchy Q} {m : List Str} {k : ℕ}
    {hd : CallHandler Q} (hn : h.NearestAt m k hd) (hnone : nodeAt m h = none) :
    k ≠ m.length := by
  rintro rfl
  have hfind := hn.find
  rw [List.take_length, findInner_eq, hnone] at hfind
  cases hfind

/-- A node below an `Intro` is described. -/
private lemma introspects_of_nodeAt {h : CallHierarchy Q} {m : List Str} {k : ℕ}
    (hn : h.NearestAt m k .intro) (hnode : nodeAt m h ≠ none) : h.Introspects m :=
  ⟨k, hn, .inr ((exists_findInner_iff _ _).mpr (nodeAt_take_ne_none hnode _))⟩

/-- A path without a node is described iff there is a placeholder between it and an `Intro`. -/
private lemma introspects_missing_iff {h : CallHierarchy Q} {m : List Str}
    (hnone : nodeAt m h = none) : h.Introspects m ↔ h.MissingBelowPlaceholder m := by
  constructor
  · rintro ⟨k, hn, hk | hnext⟩
    · exact absurd hk (hn.ne_length hnone)
    · exact ⟨hnone, k, hn, (exists_findInner_iff _ _).mp hnext⟩
  · rintro ⟨-, k, hn, hnext⟩
    exact ⟨k, hn, .inr ((exists_findInner_iff _ _).mpr hnext)⟩

/-- A path without a node, where no placeholder stands in between: the status comes from the
nearest registered ancestor. -/
private lemma sendInner_missing {h : CallHierarchy Q} {m : List Str} (hnone : nodeAt m h = none)
    (hgood : ¬ h.MissingBelowPlaceholder m) {k : ℕ} {hd : CallHandler Q}
    (hn : h.NearestAt m k hd) : sendInner m h = missingStatus hd := by
  have hans := sendInner_answers m hn
  have hlast := hn.ne_length hnone
  cases hd with
  | queue q => exact hans
  | exact q => exact hans.2 hlast
  | intro =>
    refine hans.2 ?_
    rintro (hk | hnext)
    · exact hlast hk
    · exact hgood ⟨hnone, k, hn, (exists_findInner_iff _ _).mp hnext⟩
  | drop => exact hans
  | nothing => exact hans.elim

/-- **Exactly when `send_inner` describes existing nodes only**: always, except for a path
without a node that lies below a placeholder whose nearest registered ancestor is an `Intro`.

**Proof sketch.** `send_inner` answers `Intro` iff the nearest registered ancestor is an `Intro`
that is the target or knows the next component (`exists_sendInner_intro_iff`).  For a path with a
node the latter always holds; for one without it holds in the exception only.  The list of
children is the one of the node at the path wherever it comes from (`keys_of_sendInner`). -/
theorem answersExisting_iff (h : CallHierarchy Q) (hr : h.Reachable) (path : ObjectPath) :
    h.AnswersExisting path.components ↔ ¬ h.MissingBelowPlaceholder path.components := by
  constructor
  · intro hex hbad
    have hst := (exists_sendInner_intro_iff _ _).mpr ((introspects_missing_iff hbad.1).mpr hbad)
    have hsome := (hex.intro_iff.mp hst).1
    rw [hbad.1] at hsome
    cases hsome
  · intro hgood
    refine ⟨?_, ?_, fun hnone k hd hn => sendInner_missing hnone hgood hn, ?_⟩
    · rw [exists_sendInner_intro_iff, ← Option.ne_none_iff_isSome]
      constructor
      · intro hi
        obtain ⟨k, hn, -⟩ := id hi
        exact ⟨fun hnone => hgood ((introspects_missing_iff hnone).mp hi), k, hn⟩
      · rintro ⟨hnode, k, hn⟩
        exact introspects_of_nodeAt hn hnode
    · intro keys hst
      have hkeys := keys_of_sendInner _ (.inl hst)
      cases hn : nodeAt path.components h with
      | none =>
        have hi := (exists_sendInner_intro_iff _ _).mp ⟨keys, hst⟩
        exact absurd ((introspects_missing_iff hn).mp hi) hgood
      | some n =>
        obtain rfl : keys = n.children := by simpa [hn] using hkeys
        exact ⟨n, rfl, rfl, hr.distinctNames _ n hn⟩
    · intro hnone hno
      rcases sendInner_cases h path.components with ⟨⟨keys, hst⟩, -⟩ | ⟨k, hd, hn, -⟩
      · have hkeys := keys_of_sendInner _ (.inr hst)
        obtain rfl : keys = [] := by simpa [hnone] using hkeys
        exact hst
      · exact absurd hn (hno k hd)

/-- The placeholder `/a` below an `Intro` at `/`, with a queue at `/a/b`: the description lists
the child `b`. -/
theorem answersExisting_placeholder :
    let root : ObjectPath := ⟨"/".toList, by decide⟩
    let a : ObjectPath := ⟨"/a".toList, by decide⟩
    let ab : ObjectPath := ⟨"/a/b".toList, by decide⟩
    let h : CallHierarchy ℕ := (new.insertPath root .intro 0).insertPath ab .queue 1
    h.Reachable ∧ h.AnswersExisting a.components := by
  intro root a ab h
  have hr : h.Reachable := .insert _ _ _ (.insert _ _ _ .new)
  refine ⟨hr, (answersExisting_iff h hr a).mpr ?_⟩
  rintro ⟨hnone, -⟩
  cases hnone

/-- In the same hierarchy the missing path `/a/c` gets the description of a node without
children, while the missing path `/c` gets an error. -/
theorem sendInner_describes_missing :
    let root : ObjectPath := ⟨"/".toList, by decide⟩
    let ab : ObjectPath := ⟨"/a/b".toList, by decide⟩
    let ac : ObjectPath := ⟨"/a/c".toList, by decide⟩
    let c : ObjectPath := ⟨"/c".toList, by decide⟩
    let h : CallHierarchy ℕ := (new.insertPath root .intro 0).insertPath ab .queue 1
    h.Reachable ∧ nodeAt ac.components h = none ∧ sendInner ac.components h = .intro [] ∧
      sendInner c.components h = .dropped ∧ ¬ h.AnswersExisting ac.components := by
  intro root ab ac c h
  have hnone : nodeAt ac.components h = none := rfl
  have hst : sendInner ac.components h = .intro [] := rfl
  refine ⟨.insert _ _ _ (.insert _ _ _ .new), hnone, hst, rfl, fun hex => ?_⟩
  have hsome := (hex.intro_iff.mp ⟨[], hst⟩).1
  rw [hnone] at hsome
  cases hsome

end CallHierarchy

end AsyncRustbus
