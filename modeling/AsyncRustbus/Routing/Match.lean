import AsyncRustbus.Routing.Insert

set_option relaxedAutoImplicit false
set_option autoImplicit false

/-!
# The fast path and the queue path for calls

A task waiting in `get_call(org)` takes a call to `m` straight off the socket when
`is_match(org, m)` holds; any other task that reads the call hands it to `send`, which puts it
into the queue that `send_inner` selects.  The two recursions agree except in one case:
`is_match_inner` asks a node whether it *has a queue* where `send_inner` asks whether its
handler is `Queue`, so an `Exact` handler also claims a call for a path below it when that
path starts with a placeholder child and nothing on the way is registered.

## Main definitions

* `CallHierarchy.queueAt` — the queue owned by the handler at a list of components.
* `CallHierarchy.OwnQueues` — every handler owns its own queue.
* `CallHierarchy.ExactTakesChild` — the case in which the two recursions differ.

## Main results

* `CallHierarchy.sendInner_unhandled_iff` — a call is unhandled iff every node on its way is a
  placeholder.
* `CallHierarchy.isMatch_iff_sendInner_iff` — exactly when `is_match` and `send_inner` agree.
-/

namespace AsyncRustbus

namespace CallHierarchy

variable {Q : Type}

/-- The queue owned by the handler at a list of components. -/
def queueAt (cs : List Str) (h : CallHierarchy Q) : Option Q :=
  (findInner cs h).bind CallHandler.getQueue

/-- Every handler owns its own queue: `MsgQueue` is not shared between handlers, so the same
queue at two places means the same place. -/
def OwnQueues (h : CallHierarchy Q) : Prop :=
  ∀ p p' q, queueAt p h = some q → queueAt p' h = some q → p = p'

/-- The handler at `org` is `Exact`, `m` leads below it through an existing child, and no node
on the way from that child along `m` has a handler other than `Nothing`. -/
def ExactTakesChild (h : CallHierarchy Q) (org m : List Str) : Prop :=
  ∃ q c rest, findInner org h = some (.exact q) ∧ m = org ++ c :: rest ∧
    (nodeAt (org ++ [c]) h).isSome ∧
    ∀ k hd, findInner (org ++ c :: rest.take k) h = some hd → hd = .nothing

/-! ## Handlers and queues along a path -/

/-- The node whose handler owns a queue. -/
lemma exists_node_of_getQueue {h : CallHierarchy Q} {org : ObjectPath} {q : Q}
    (hq : h.getQueue org = some q) :
    ∃ n, nodeAt org.components h = some n ∧ n.handler.getQueue = some q := by
  obtain ⟨hd, hfind, hqueue⟩ := Option.bind_eq_some_iff.mp hq
  rw [findHandler, findInner_eq] at hfind
  obtain ⟨n, hn, rfl⟩ := Option.map_eq_some_iff.mp hfind
  exact ⟨n, hn, hqueue⟩

/-- The handler of a node at a longer path. -/
lemma findInner_append {p : List Str} {h n : CallHierarchy Q} (hn : nodeAt p h = some n)
    (r : List Str) : findInner (p ++ r) h = findInner r n := by
  rw [findInner_eq, findInner_eq, nodeAt_append, hn]
  rfl

/-- The handler of a child's tree. -/
lemma findInner_cons {c : Str} {h n : CallHierarchy Q} (hn : AssocMap.get h.children c = some n)
    (r : List Str) : findInner (c :: r) h = findInner r n :=
  findInner_append (p := [c]) (by simp [hn]) r

/-- The tree at a path owns its queues too. -/
lemma OwnQueues.below {h n : CallHierarchy Q} {org : List Str} (hown : h.OwnQueues)
    (hn : nodeAt org h = some n) : n.OwnQueues := by
  intro p p' q hp hp'
  have := hown (org ++ p) (org ++ p') q (by rwa [queueAt, findInner_append hn])
    (by rwa [queueAt, findInner_append hn])
  simpa using this

/-- The trees below a tree own their queues too. -/
lemma OwnQueues.child {h n : CallHierarchy Q} {c : Str} (hown : h.OwnQueues)
    (hn : AssocMap.get h.children c = some n) : n.OwnQueues := by
  have hnode : nodeAt [c] h = some n := by simp [hn]
  exact hown.below hnode

/-- A queue that routing selects is owned by a node on the way of the call.

**Proof sketch.** Induction on the components: the queue comes from the node itself or from
the recursive call on a child. -/
lemma queueAt_of_sendInner (m : List Str) :
    ∀ (h : CallHierarchy Q) (q : Q), sendInner m h = .queue q →
      ∃ p, p <+: m ∧ queueAt p h = some q := by
  induction m with
  | nil =>
    rintro ⟨children, hd⟩ q hs
    refine ⟨[], List.nil_prefix, ?_⟩
    cases hd <;> simp_all [sendInner, queueAt, findInner, CallHandler.getQueue]
  | cons c m ih =>
    rintro ⟨children, hd⟩ q hs
    cases hget : AssocMap.get children c with
    | none =>
      refine ⟨[], List.nil_prefix, ?_⟩
      cases hd <;> simp_all [sendInner, queueAt, findInner, CallHandler.getQueue]
    | some child =>
      rcases hsub : sendInner m child with q' | keys | - | keys
      · obtain rfl : q' = q := by simpa [sendInner, hget, hsub] using hs
        obtain ⟨p, hp, hq⟩ := ih child q' hsub
        refine ⟨c :: p, by simpa using hp, ?_⟩
        rwa [queueAt, findInner_cons (n := child) (by simpa using hget)]
      · simp [sendInner, hget, hsub] at hs
      · simp [sendInner, hget, hsub] at hs
      · refine ⟨[], List.nil_prefix, ?_⟩
        cases hd <;> simp_all [sendInner, queueAt, findInner, CallHandler.getQueue]

/-- **A call is unhandled iff every node on its way is a placeholder.**

**Proof sketch.** Induction on the components.  `send_inner` returns `Unhandled` at a node only
if the node's handler is `Nothing` and, when the next child exists, the recursive call returned
`Unhandled`. -/
theorem sendInner_unhandled_iff (m : List Str) :
    ∀ h : CallHierarchy Q, (∃ keys, sendInner m h = .unhandled keys) ↔
      ∀ k hd, findInner (m.take k) h = some hd → hd = .nothing := by
  induction m with
  | nil =>
    rintro ⟨children, hd⟩
    cases hd <;> simp [sendInner, findInner]
  | cons c m ih =>
    rintro ⟨children, hd⟩
    have hself : ∀ k hd', k = 0 → findInner ((c :: m).take k) (node children hd) = some hd' →
        hd' = hd := by
      rintro k hd' rfl hfind
      simpa [findInner, eq_comm] using hfind
    cases hget : AssocMap.get children c with
    | none =>
      have hbelow : ∀ k, findInner ((c :: m).take (k + 1)) (node children hd) = none := by
        intro k
        simp [findInner, hget]
      constructor
      · rintro ⟨keys, hs⟩ k hd' hfind
        cases k with
        | zero =>
          obtain rfl := hself 0 hd' rfl hfind
          cases hd' <;> simp_all [sendInner]
        | succ k =>
          rw [hbelow k] at hfind
          cases hfind
      · intro hall
        obtain rfl : hd = .nothing := hall 0 hd (by simp [findInner])
        exact ⟨[], by simp [sendInner, hget]⟩
    | some child =>
      have hbelow : ∀ k, findInner ((c :: m).take (k + 1)) (node children hd) =
          findInner (m.take k) child := by
        intro k
        simp [findInner, hget]
      constructor
      · rintro ⟨keys, hs⟩ k hd' hfind
        rcases hsub : sendInner m child with q | ks | - | ks
        · simp [sendInner, hget, hsub] at hs
        · simp [sendInner, hget, hsub] at hs
        · simp [sendInner, hget, hsub] at hs
        · cases k with
          | zero =>
            obtain rfl := hself 0 hd' rfl hfind
            cases hd' <;> simp_all [sendInner]
          | succ k => exact (ih child).mp ⟨ks, hsub⟩ k hd' (by rwa [hbelow] at hfind)
      · intro hall
        obtain rfl : hd = .nothing := hall 0 hd (by simp [findInner])
        obtain ⟨keys, hs⟩ := (ih child).mpr fun k hd' hfind =>
          hall (k + 1) hd' (by rwa [hbelow])
        exact ⟨keys, by simp [sendInner, hget, hs]⟩

/-! ## Ownership is kept -/

/-- A handler that owns a queue is registered. -/
lemma queueAt_eq (cs : List Str) (h : CallHierarchy Q) :
    queueAt cs h = (registeredAt cs h).bind CallHandler.getQueue := by
  unfold queueAt registeredAt
  cases findInner cs h with
  | none => rfl
  | some hd => cases hd <;> rfl

/-- Every queue of the tree after an insertion is the new one at the path inserted, or was at
the same place before. -/
private lemma queueAt_insertInner (action : CallAction) (q : Q) (cs : List Str)
    (h : CallHierarchy Q) (r : List Str) (q' : Q)
    (hr : queueAt r (insertInner action q cs h).2 = some q') :
    r = cs ∧ q' = q ∨ queueAt r h = some q' := by
  rw [queueAt_eq] at hr ⊢
  obtain ⟨hd, hreg, hqueue⟩ := Option.bind_eq_some_iff.mp hr
  rcases registeredAt_insertInner action q cs h r hd hreg with ⟨rfl, hview⟩ | ⟨-, hold⟩
  · left
    refine ⟨rfl, ?_⟩
    -- the new handler owns the new queue, if it owns one
    cases action <;> cases hview <;> cases hqueue <;> rfl
  · right
    rw [hold]
    exact hqueue

/-- The initial hierarchy has no queue. -/
lemma queueAt_new (p : List Str) : queueAt p (new : CallHierarchy Q) = none := by
  cases p <;> rfl

/-- So it owns its queues. -/
lemma ownQueues_new : (new : CallHierarchy Q).OwnQueues := by
  intro p p' q hp
  rw [queueAt_new] at hp
  cases hp

/-- **Ownership is kept** by an insertion whose `MsgQueue::new` returns a queue that is not in
the tree yet. -/
lemma OwnQueues.insertPath {h : CallHierarchy Q} (hown : h.OwnQueues) (path : ObjectPath)
    (action : CallAction) {q : Q} (hfresh : ∀ p, queueAt p h ≠ some q) :
    (h.insertPath path action q).OwnQueues := by
  intro p p' q' hp hp'
  rcases queueAt_insertInner action q _ h p q' hp with ⟨rfl, rfl⟩ | hold
  · rcases queueAt_insertInner action q' _ h p' q' hp' with ⟨rfl, -⟩ | hold'
    · rfl
    · exact absurd hold' (hfresh p')
  · rcases queueAt_insertInner action q _ h p' q' hp' with ⟨rfl, rfl⟩ | hold'
    · exact absurd hold (hfresh p)
    · exact hown p p' q' hold hold'

/-! ## Agreement at the registered node -/

/-- The two recursions at the node itself, whose handler owns `q`: they agree unless the
handler is `Exact` and the call leads through an existing child without being handled.

**Proof sketch.** By the next component.  At the end of the path and for a missing child the
two tables are the same.  For an existing child that handles the call, `is_match` is false, and
the queue that handles it is another one since `q` is owned here. -/
private lemma isMatchInner_nil_iff {h : CallHierarchy Q} {q : Q} (hown : h.OwnQueues)
    (hq : h.handler.getQueue = some q) (r : List Str) :
    (isMatchInner [] r h = true ↔ sendInner r h = .queue q) ↔
      ¬(h.handler = .exact q ∧ ∃ c rest child keys, r = c :: rest ∧
        AssocMap.get h.children c = some child ∧ sendInner rest child = .unhandled keys) := by
  obtain ⟨children, hd⟩ := h
  cases r with
  | nil => cases hd <;> simp_all [isMatchInner, sendInner, CallHandler.getQueue]
  | cons c rest =>
    cases hget : AssocMap.get children c with
    | none => cases hd <;> simp_all [isMatchInner, sendInner, CallHandler.getQueue]
    | some child =>
      rcases hsub : sendInner rest child with q' | keys | - | keys
      · -- the queue of a node below is not the queue `q` of this node
        have hne : q' ≠ q := by
          rintro rfl
          obtain ⟨p, -, hp⟩ := queueAt_of_sendInner rest child q' hsub
          have := hown (c :: p) [] q' (by rwa [queueAt, findInner_cons (n := child)
            (by simpa using hget)]) (by simpa [queueAt, findInner] using hq)
          simp at this
        simp [isMatchInner, sendInner, hget, hsub, hne]
      · simp [isMatchInner, sendInner, hget, hsub]
      · simp [isMatchInner, sendInner, hget, hsub]
      · cases hd <;> simp_all [isMatchInner, sendInner, CallHandler.getQueue]

/-- Along the registered path the two recursions go down together.

**Proof sketch.** Induction on the path.  `is_match_inner` follows the children; `send_inner`
passes a queue selected below upwards unchanged, and a queue selected at a node above is not
the one registered at the end of the path. -/
private lemma isMatchInner_append_iff (org r : List Str) :
    ∀ (h n : CallHierarchy Q) (q : Q), h.OwnQueues → nodeAt org h = some n →
      n.handler.getQueue = some q →
      (isMatchInner org (org ++ r) h = isMatchInner [] r n) ∧
      (sendInner (org ++ r) h = .queue q ↔ sendInner r n = .queue q) := by
  induction org with
  | nil =>
    intro h n q _ hn _
    obtain rfl : h = n := by simpa using hn
    exact ⟨rfl, Iff.rfl⟩
  | cons c org ih =>
    rintro ⟨children, hd⟩ n q hown hn hq
    rw [nodeAt_cons] at hn
    obtain ⟨child, hget, hchild⟩ := Option.bind_eq_some_iff.mp hn
    obtain ⟨hmatch, hsend⟩ := ih child n q (hown.child hget) hchild hq
    rw [children_node] at hget
    refine ⟨by simp [isMatchInner, hget, hmatch], ?_⟩
    rw [← hsend]
    rcases hsub : sendInner (org ++ r) child with q' | keys | - | keys
    · simp [sendInner, hget, hsub]
    · simp [sendInner, hget, hsub]
    · simp [sendInner, hget, hsub]
    · -- a queue selected here is owned here, not at the end of the path
      have hnot : ∀ q', hd = .queue q' → q' ≠ q := by
        rintro q' rfl rfl
        have hend : queueAt (c :: org) (node children (.queue q')) = some q' := by
          rw [queueAt, findInner_cons (n := child) (by simpa using hget), findInner_eq,
            hchild]
          exact hq
        have := hown (c :: org) [] q' hend (by simp [queueAt, findInner, CallHandler.getQueue])
        simp at this
      cases hd <;> simp_all [sendInner]

/-- `is_match` is false for a message path that does not extend the registered path. -/
private lemma prefix_of_isMatchInner (org : List Str) :
    ∀ (m : List Str) (h : CallHierarchy Q), isMatchInner org m h = true → org <+: m := by
  induction org with
  | nil => exact fun m _ _ => List.nil_prefix
  | cons c org ih =>
    intro m h hm
    cases m with
    | nil => simp [isMatchInner] at hm
    | cons d m =>
      obtain ⟨children, hd⟩ := h
      simp only [isMatchInner] at hm
      split_ifs at hm with hcd
      split at hm
      · rename_i child _
        simpa [hcd] using ih m child hm
      · exact absurd hm (by decide)

/-- **`get_call` takes every call that would be queued for it**: if the handler at `org` owns the
queue that a call is appended to, `is_match` accepts the call. -/
lemma isMatch_of_sendInner {h : CallHierarchy Q} (hown : h.OwnQueues) {org m : ObjectPath} {q : Q}
    (hq : h.getQueue org = some q) (hsend : sendInner m.components h = .queue q) :
    h.isMatch org m = true := by
  obtain ⟨n, hn, hqueue⟩ := exists_node_of_getQueue hq
  -- the handler that queues the call is the one at `org`, because it owns the queue
  obtain ⟨p, ⟨r, hr⟩, hpq⟩ := queueAt_of_sendInner _ _ _ hsend
  obtain rfl := hown p org.components q hpq hq
  obtain ⟨hmatch, hdown⟩ := isMatchInner_append_iff org.components r h n q hown hn hqueue
  rw [← hr] at hsend
  have hqueued := hdown.mp hsend
  rw [isMatch, ← hr, hmatch]
  refine ((isMatchInner_nil_iff (hown.below hn) hqueue r).mpr ?_).mpr hqueued
  rintro ⟨hexact, c, rest, child, keys, rfl, hget, hun⟩
  obtain ⟨children, hd⟩ := n
  simp_all [sendInner]

/-- **Exactly when the fast path and the queue path agree.**  Let the handler at `org` own the
queue `q`.  Then "`is_match` accepts the call" and "routing the call selects `q`" are equivalent
unless the handler is `Exact` and the call leads below it through an existing child without
meeting any handler other than `Nothing`.

**Proof sketch.** If `m` does not extend `org`, both are false: `is_match` compares the
components, and a selected queue is owned by a node on the way of `m`.  If it does, both
recursions go down to the node at `org` together (`isMatchInner_append_iff`) and are compared
there (`isMatchInner_nil_iff`, `sendInner_unhandled_iff`). -/
theorem isMatch_iff_sendInner_iff (h : CallHierarchy Q) (hown : h.OwnQueues) (org m : ObjectPath)
    (q : Q) (hq : h.getQueue org = some q) :
    (h.isMatch org m = true ↔ sendInner m.components h = .queue q) ↔
      ¬ExactTakesChild h org.components m.components := by
  obtain ⟨n, hn, hqueue⟩ := exists_node_of_getQueue hq
  have hfind : findInner org.components h = some n.handler := by
    rw [findInner_eq, hn]
    rfl
  by_cases hpre : org.components <+: m.components
  · obtain ⟨r, hr⟩ := hpre
    obtain ⟨hmatch, hsend⟩ := isMatchInner_append_iff org.components r h n q hown hn hqueue
    rw [isMatch, ← hr, hmatch, hsend, isMatchInner_nil_iff (hown.below hn) hqueue,
      not_iff_not]
    · constructor
      · rintro ⟨hexact, c, rest, child, keys, rfl, hget, hun⟩
        refine ⟨q, c, rest, ?_, rfl, ?_, ?_⟩
        · rw [← hexact]; exact hfind
        · rw [nodeAt_append, hn]; simp [hget]
        · intro k hd hk
          rw [findInner_append hn, findInner_cons hget] at hk
          exact (sendInner_unhandled_iff rest child).mp ⟨keys, hun⟩ k hd hk
      · rintro ⟨q', c, rest, hexact, hrest, hsome, hall⟩
        obtain rfl : r = c :: rest := List.append_cancel_left hrest
        have hhd : n.handler = .exact q' := by
          rw [hfind] at hexact
          simpa using hexact
        obtain rfl : q' = q := by
          rw [hhd] at hqueue
          simpa [CallHandler.getQueue] using hqueue
        obtain ⟨child, hget⟩ : ∃ child, AssocMap.get n.children c = some child := by
          rw [nodeAt_append, hn] at hsome
          cases hget : AssocMap.get n.children c with
          | none => simp [hget] at hsome
          | some child => exact ⟨child, rfl⟩
        obtain ⟨keys, hun⟩ := (sendInner_unhandled_iff rest child).mpr fun k hd hk =>
          hall k hd (by rwa [findInner_append hn, findInner_cons hget])
        exact ⟨hhd, c, rest, child, keys, rfl, hget, hun⟩
  · have hno : ¬ExactTakesChild h org.components m.components := by
      rintro ⟨-, c, rest, -, hm, -⟩
      exact hpre ⟨c :: rest, hm.symm⟩
    refine iff_of_true ?_ hno
    constructor
    · exact fun hm => absurd (prefix_of_isMatchInner _ _ _ hm) hpre
    · intro hs
      obtain ⟨p, hp, hpq⟩ := queueAt_of_sendInner _ _ _ hs
      obtain rfl := hown p org.components q hpq hq
      exact absurd hp hpre

/-- With `Queue` at `/var` and `Exact` at `/var/log/journal`, a call to the placeholder `/var/log`
between them is for `/var` on both paths. -/
theorem isMatch_iff_sendInner_placeholder :
    let var : ObjectPath := ⟨"/var".toList, by decide⟩
    let log : ObjectPath := ⟨"/var/log".toList, by decide⟩
    let journal : ObjectPath := ⟨"/var/log/journal".toList, by decide⟩
    let h : CallHierarchy ℕ := (new.insertPath var .queue 0).insertPath journal .exact 1
    h.OwnQueues ∧ h.getQueue var = some 0 ∧ h.findHandler log = some .nothing ∧
      (h.isMatch var log = true ↔ sendInner log.components h = .queue 0) := by
  intro var log journal h
  have hown : h.OwnQueues := by
    refine (ownQueues_new.insertPath var .queue fun p hp => ?_).insertPath journal .exact
      fun p hp => ?_
    · rw [queueAt_new] at hp
      cases hp
    · rcases queueAt_insertInner .queue 0 _ new p 1 hp with ⟨-, hq⟩ | hold
      · cases hq
      · rw [queueAt_new] at hold
        cases hold
  refine ⟨hown, rfl, rfl, (isMatch_iff_sendInner_iff h hown var log 0 rfl).mpr ?_⟩
  rintro ⟨q, c, rest, hexact, -⟩
  have hqueue : findInner var.components h = some (.queue 0) := rfl
  rw [hqueue] at hexact
  cases hexact

/-- With `Exact` at `/var` and `Queue` at `/var/log/journal`, a task waiting on `/var` takes a
call to `/var/log`, which any other reader would answer with an error. -/
theorem isMatch_exact_takes_child :
    let var : ObjectPath := ⟨"/var".toList, by decide⟩
    let log : ObjectPath := ⟨"/var/log".toList, by decide⟩
    let journal : ObjectPath := ⟨"/var/log/journal".toList, by decide⟩
    let h : CallHierarchy ℕ := (new.insertPath var .exact 0).insertPath journal .queue 1
    h.Reachable ∧ h.getQueue var = some 0 ∧ h.getAction var = some .exact ∧
      h.isMatch var log = true ∧ sendInner log.components h = .dropped ∧
      ¬(h.isMatch var log = true ↔ sendInner log.components h = .queue 0) := by
  intro var log journal h
  have hmatch : h.isMatch var log = true := by decide
  have hsend : sendInner log.components h = .dropped := rfl
  refine ⟨.insert _ _ _ (.insert _ _ _ .new), by decide, by decide, hmatch, hsend, fun hiff => ?_⟩
  have := hiff.mp hmatch
  rw [hsend] at this
  cases this

end CallHierarchy

end AsyncRustbus
