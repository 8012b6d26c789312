import AsyncRustbus.Message.Basic
import AsyncRustbus.Routing.Match
import Mathlib.Data.Nat.Find

set_option relaxedAutoImplicit false
set_option autoImplicit false

/-!
# Sending a call into the hierarchy (`routing.rs`)

`CallHierarchy::send` appends a call to the queue of the handler it is routed to, or makes the
reply: a description of the node, or an error.  Which handler that is depends only on the last
registered handler on the way along the components of the object path.

## Main definitions

* `AsyncRustbus.makeObjectNotFound`, `AsyncRustbus.makeIntroMsg`, `CallHierarchy.send` — the
  functions.
* `CallHierarchy.NearestAt` — the last registered handler on the way.
* `CallHierarchy.QueuesTo`, `CallHierarchy.Introspects` — the calls that are queued, and those
  that are answered with a description.

## Main results

* `CallHierarchy.sendInner_eq_queue_iff`, `CallHierarchy.exists_sendInner_intro_iff` —
  `send_inner` in terms of the last registered handler.
* `CallHierarchy.send_ne_panic_iff` — when `send` does not panic.
-/

namespace AsyncRustbus

/-- `make_object_not_found`. -/
def makeObjectNotFound (msg : MarshalledMessage) : MarshalledMessage :=
  msg.dynheader.makeErrorResponse "org.freedesktop.DBus.Error.UnknownObject".toList none

/-- `INTRO_START`. -/
def introStart : Str :=
  "<!DOCTYPE node PUBLIC ".toList ++
  "\"-//freedesktop//DTD D-BUS Object Introspection 1.0//EN\" ".toList ++
  "\"http://www.freedesktop.org/standards/dbus/1.0/introspect.dtd\">\n".toList ++
  " <node>\n".toList ++
  "\t<interface name=\"org.freedesktop.DBus.Introspectable\">\n".toList ++
  "\t\t<method name=\"Introspect\">\n".toList ++
  "\t\t\t<arg name=\"xml_data\" type=\"s\" direction=\"out\"/>\n".toList ++
  "\t\t</method>\n".toList ++
  "\t</interface>\n".toList

/-- `INTRO_END`. -/
def introEnd : Str := " </node>".toList

/-- The line of the description for one child. -/
def introLine (child : Str) : Str := "\t<node name=\"".toList ++ child ++ "\"/>\n".toList

/-- The description of a node: all children but the ones that drop their calls. -/
def introText {Q : Type} (children : List (Str × CallHierarchy Q)) : Str :=
  introStart ++ (children.filterMap fun child =>
    match child.2.handler with
    | .drop => none
    | _ => some child.1).flatMap introLine ++ introEnd

/-- `make_intro_msg`.  It panics where the interface is missing (`unwrap`); a text can always be
pushed to a new body. -/
def makeIntroMsg {Q : Type} (msg : MarshalledMessage) (children : List (Str × CallHierarchy Q)) :
    Res Empty MarshalledMessage :=
  match msg.dynheader.interface with
  | none => .panic
  | some interface =>
    if interface = "org.freedesktop.DBus.Introspectable".toList then
      let res := msg.dynheader.makeResponse
      .ok { res with body := res.body.pushStr (introText children) }
    else .ok (msg.dynheader.makeErrorResponse "UnknownInterface".toList none)

namespace CallHierarchy

variable {Q : Type}

/-- `CallHierarchy::send`: the queue the call is appended to, or the reply.  It panics where
the object is missing or no path (`unwrap`), in `make_intro_msg`, and where the channel of the
queue is closed: a receiver of `get_call_recv` can close it. -/
def send (closed : Q → Bool) (h : CallHierarchy Q) (msg : MarshalledMessage) :
    Res MarshalledMessage Q :=
  match msg.dynheader.object with
  | none => .panic
  | some object =>
    match ObjectPath.fromStr object with
    | .error _ => .panic
    | .ok path =>
      match sendInner path.components h with
      | .queue q => if closed q then .panic else .ok q
      | .intro keys =>
        match makeIntroMsg msg keys with
        | .ok reply => .err reply
        | .err e => nomatch e
        | .panic => .panic
      | .unhandled _ => .err (makeObjectNotFound msg)
      | .dropped => .err (makeObjectNotFound msg)

/-! ## The last registered handler -/

/-- The handler `hd` at depth `k` is the last registered one on the way along `m`. -/
structure NearestAt (h : CallHierarchy Q) (m : List Str) (k : ℕ) (hd : CallHandler Q) :
    Prop where
  le : k ≤ m.length
  find : findInner (m.take k) h = some hd
  ne : hd ≠ .nothing
  last : ∀ j hd', k < j → j ≤ m.length → findInner (m.take j) h = some hd' → hd' = .nothing

/-- The last registered handler on the way queues the call: a `Queue` any call, an `Exact` only
one for its own path. -/
def QueuesTo (h : CallHierarchy Q) (m : List Str) (q : Q) : Prop :=
  ∃ k hd, h.NearestAt m k hd ∧ (hd = .queue q ∨ (hd = .exact q ∧ k = m.length))

/-- The last registered handler on the way is an `Intro`, and the call is for its own path or
leads to an existing child. -/
def Introspects (h : CallHierarchy Q) (m : List Str) : Prop :=
  ∃ k, h.NearestAt m k .intro ∧ (k = m.length ∨ ∃ hd, findInner (m.take (k + 1)) h = some hd)

/-- What becomes of a call whose last registered handler is `hd`: `last` says that the call is
for the path of the handler, `next` that it leads to an existing child. -/
def Answers (hd : CallHandler Q) (last next : Prop) (st : Status Q) : Prop :=
  match hd with
  | .queue q => st = .queue q
  | .exact q => (last → st = .queue q) ∧ (¬ last → st = .dropped)
  | .intro => (last ∨ next → ∃ keys, st = .intro keys) ∧ (¬ (last ∨ next) → st = .dropped)
  | .drop => st = .dropped
  | .nothing => False

/-- Such a call is handled. -/
private lemma Answers.ne_unhandled {hd : CallHandler Q} {last next : Prop} {st : Status Q}
    (h : Answers hd last next st) (keys : List (Str × CallHierarchy Q)) :
    st ≠ .unhandled keys := by
  rintro rfl
  cases hd with
  | queue q => cases h
  | exact q =>
    by_cases hl : last
    · cases h.1 hl
    · cases h.2 hl
  | intro =>
    by_cases hl : last ∨ next
    · obtain ⟨keys', hk⟩ := h.1 hl
      cases hk
    · cases h.2 hl
  | drop => cases h
  | nothing => exact h

/-- A child that handles the call decides. -/
private lemma sendInner_cons_of_handled {c : Str} {m : List Str}
    {children : List (Str × CallHierarchy Q)} {hd : CallHandler Q} {child : CallHierarchy Q}
    (hget : AssocMap.get children c = some child)
    (h : ∀ keys, sendInner m child ≠ .unhandled keys) :
    sendInner (c :: m) (node children hd) = sendInner m child := by
  cases hst : sendInner m child with
  | unhandled keys => exact absurd hst (h keys)
  | queue q => simp only [sendInner, hget, hst]
  | intro keys => simp only [sendInner, hget, hst]
  | dropped => simp only [sendInner, hget, hst]

/-- **Routing by the last registered handler.**

**Proof sketch.** Induction on the components.  If the handler is the one of the node itself,
everything below is a placeholder: the child is missing or leaves the call unhandled
(`sendInner_unhandled_iff`), and the table of `send_inner` gives the answer.  If it stands below
the node, the child handles the call and the node passes the answer on. -/
lemma sendInner_answers (m : List Str) :
    ∀ {h : CallHierarchy Q} {k : ℕ} {hd : CallHandler Q}, h.NearestAt m k hd →
      Answers hd (k = m.length) (∃ hd', findInner (m.take (k + 1)) h = some hd')
        (sendInner m h) := by
  induction m with
  | nil =>
    rintro ⟨children, hd₀⟩ k hd hn
    obtain rfl : k = 0 := by simpa using hn.le
    obtain rfl : hd₀ = hd := by simpa [findInner] using hn.find
    have hne := hn.ne
    cases hd₀ <;> simp_all [Answers, sendInner]
  | cons c m ih =>
    rintro ⟨children, hd₀⟩ k hd hn
    cases k with
    | zero =>
      obtain rfl : hd₀ = hd := by simpa [findInner] using hn.find
      have hne := hn.ne
      cases hget : AssocMap.get children c with
      | none => cases hd₀ <;> simp_all [Answers, sendInner, findInner]
      | some child =>
        have hdeep : ∀ k hd', findInner (m.take k) child = some hd' → hd' = .nothing := by
          intro k hd' hfind
          by_cases hk : k ≤ m.length
          · refine hn.last (k + 1) hd' (by omega) (by simpa using hk) ?_
            simpa [findInner, hget] using hfind
          · refine hn.last (m.length + 1) hd' (by omega) (by simp) ?_
            rw [List.take_of_length_le (by omega)] at hfind
            simpa [findInner, hget] using hfind
        obtain ⟨keys, hkeys⟩ := (sendInner_unhandled_iff m child).mpr hdeep
        have hself : ∃ hd', findInner [] child = some hd' := by
          obtain ⟨children', hd'⟩ := child
          exact ⟨hd', rfl⟩
        cases hd₀ <;> simp_all [Answers, sendInner, findInner]
    | succ k =>
      have hle : k ≤ m.length := by simpa using hn.le
      cases hget : AssocMap.get children c with
      | none =>
        have hfind := hn.find
        simp [findInner, hget] at hfind
      | some child =>
        have hbelow : ∀ j, findInner ((c :: m).take (j + 1)) (node children hd₀) =
            findInner (m.take j) child := by
          intro j
          simp [findInner, hget]
        have hchild : child.NearestAt m k hd := by
          refine ⟨hle, by rw [← hbelow, hn.find], hn.ne, ?_⟩
          intro j hd' hkj hj hfind
          exact hn.last (j + 1) hd' (by omega) (by simpa using hj) (by rw [hbelow, hfind])
        have hans := ih hchild
        rw [sendInner_cons_of_handled hget hans.ne_unhandled, hbelow]
        have hlast : (k + 1 = (c :: m).length) = (k = m.length) := by simp
        rw [hlast]
        exact hans

/-- Either everything on the way is a placeholder, or there is a last registered handler. -/
private lemma exists_nearestAt (h : CallHierarchy Q) (m : List Str) :
    (∀ k hd, findInner (m.take k) h = some hd → hd = .nothing) ∨
      ∃ k hd, h.NearestAt m k hd := by
  classical
  by_cases hall : ∀ k hd, findInner (m.take k) h = some hd → hd = .nothing
  · exact .inl hall
  · right
    push Not at hall
    obtain ⟨k, hd, hfind, hne⟩ := hall
    -- the greatest depth at which something is registered
    let P : ℕ → Prop := fun k => ∃ hd, findInner (m.take k) h = some hd ∧ hd ≠ .nothing
    have hP : P (min k m.length) := by
      refine ⟨hd, ?_, hne⟩
      rcases Nat.le_total k m.length with hk | hk
      · rw [Nat.min_eq_left hk, hfind]
      · rw [Nat.min_eq_right hk, ← hfind, List.take_of_length_le hk, List.take_length]
    obtain ⟨hd', hfind', hne'⟩ := Nat.findGreatest_spec (Nat.min_le_right k m.length) hP
    refine ⟨Nat.findGreatest P m.length, hd', Nat.findGreatest_le _, hfind', hne', ?_⟩
    intro j hd'' hlt hj hfind''
    by_contra hne''
    exact Nat.findGreatest_is_greatest hlt hj ⟨hd'', hfind'', hne''⟩

/-- The last registered handler is determined. -/
lemma NearestAt.unique {h : CallHierarchy Q} {m : List Str} {k k' : ℕ}
    {hd hd' : CallHandler Q} (hn : h.NearestAt m k hd) (hn' : h.NearestAt m k' hd') :
    k = k' ∧ hd = hd' := by
  have hk : k = k' := by
    rcases Nat.lt_trichotomy k k' with hlt | heq | hgt
    · exact absurd (hn.last k' hd' hlt hn'.le hn'.find) hn'.ne
    · exact heq
    · exact absurd (hn'.last k hd hgt hn.le hn.find) hn.ne
  subst hk
  have hfind := hn.find
  rw [hn'.find, Option.some.injEq] at hfind
  exact ⟨rfl, hfind.symm⟩

/-- A call that nothing on its way handles is not routed by a last registered handler. -/
lemma sendInner_cases (h : CallHierarchy Q) (m : List Str) :
    ((∃ keys, sendInner m h = .unhandled keys) ∧ ∀ k hd, ¬ h.NearestAt m k hd) ∨
      ∃ k hd, h.NearestAt m k hd ∧
        Answers hd (k = m.length) (∃ hd', findInner (m.take (k + 1)) h = some hd')
          (sendInner m h) := by
  rcases exists_nearestAt h m with hall | ⟨k, hd, hn⟩
  · exact .inl ⟨(sendInner_unhandled_iff m h).mpr hall,
      fun k hd hn => hn.ne (hall k hd hn.find)⟩
  · exact .inr ⟨k, hd, hn, sendInner_answers m hn⟩

/-- **A call is queued** iff the last registered handler on its way queues it.

**Proof sketch.** `sendInner_cases`: nothing is registered on the way, or the answer is that of the
last registered handler, which is the only one (`unique`). A queue takes the call, an exact one only
at its own path, and every other handler answers in another way. -/
theorem sendInner_eq_queue_iff (h : CallHierarchy Q) (m : List Str) (q : Q) :
    sendInner m h = .queue q ↔ h.QueuesTo m q := by
  rcases sendInner_cases h m with ⟨⟨keys, hst⟩, hnone⟩ | ⟨k, hd, hn, hans⟩
  · rw [hst]
    simp only [reduceCtorEq, false_iff]
    rintro ⟨k, hd, hn, -⟩
    exact hnone k hd hn
  · constructor
    · intro hst
      refine ⟨k, hd, hn, ?_⟩
      rw [hst] at hans
      cases hd with
      | queue q' =>
        left
        rw [Status.queue.inj hans]
      | exact q' =>
        by_cases hl : k = m.length
        · right
          exact ⟨by rw [Status.queue.inj (hans.1 hl)], hl⟩
        · cases hans.2 hl
      | intro =>
        by_cases hl : k = m.length ∨ ∃ hd', findInner (m.take (k + 1)) h = some hd'
        · obtain ⟨keys, hk⟩ := hans.1 hl
          cases hk
        · cases hans.2 hl
      | drop => cases hans
      | nothing => exact hans.elim
    · rintro ⟨k', hd', hn', hq⟩
      obtain ⟨rfl, rfl⟩ := hn.unique hn'
      rcases hq with rfl | ⟨rfl, hl⟩
      · exact hans
      · exact hans.1 hl

/-- **A call is answered with a description** iff the last registered handler on its way is an
`Intro` that knows the next component.

**Proof sketch.** `sendInner_cases`: nothing is registered on the way, or the answer is that of the
last registered handler, which is the only one (`unique`). Only an `Intro` describes, and only where
the next component is known. -/
theorem exists_sendInner_intro_iff (h : CallHierarchy Q) (m : List Str) :
    (∃ keys, sendInner m h = .intro keys) ↔ h.Introspects m := by
  rcases sendInner_cases h m with ⟨⟨keys, hst⟩, hnone⟩ | ⟨k, hd, hn, hans⟩
  · rw [hst]
    simp only [reduceCtorEq, exists_false, false_iff]
    rintro ⟨k, hn, -⟩
    exact hnone k _ hn
  · constructor
    · rintro ⟨keys, hst⟩
      rw [hst] at hans
      cases hd with
      | queue q' => cases hans
      | exact q' =>
        by_cases hl : k = m.length
        · cases hans.1 hl
        · cases hans.2 hl
      | intro =>
        refine ⟨k, hn, ?_⟩
        by_contra hl
        cases hans.2 hl
      | drop => cases hans
      | nothing => exact hans.elim
    · rintro ⟨k', hn', hl⟩
      obtain ⟨rfl, rfl⟩ := hn.unique hn'
      exact hans.1 hl

/-! ## Panics -/

/-- The names of the children are path elements. -/
def NamedBySegments (children : List (Str × CallHierarchy Q)) : Prop :=
  ∀ e ∈ children, IsSegment e.1

/-- The children of a node of a well-formed tree. -/
lemma WellFormed.namedBySegments {children : List (Str × CallHierarchy Q)}
    {hd : CallHandler Q} (hw : (node children hd).WellFormed) : NamedBySegments children := by
  intro e he
  obtain ⟨n, hn⟩ := AssocMap.exists_get_of_mem he
  exact ((wellFormed_iff _).mp hw e.1 n hn).1

/-- **The children that `send_inner` hands on** are those of the node at the path; there are none
where the path has no node.

**Proof sketch.** Induction on the components.  The list is made where the path ends or where the
next child is missing, and every node above hands it on as it is. -/
lemma keys_of_sendInner (m : List Str) :
    ∀ {h : CallHierarchy Q} {keys : List (Str × CallHierarchy Q)},
      sendInner m h = .intro keys ∨ sendInner m h = .unhandled keys →
        keys = ((nodeAt m h).map children).getD [] := by
  induction m with
  | nil =>
    rintro ⟨children, hd⟩ keys hst
    cases hd <;> simp_all [sendInner]
  | cons c m ih =>
    rintro ⟨children, hd⟩ keys hst
    cases hget : AssocMap.get children c with
    | none => cases hd <;> simp_all [sendInner]
    | some child =>
      have hdown : nodeAt (c :: m) (node children hd) = nodeAt m child := by
        simp [hget]
      rw [hdown]
      cases hsub : sendInner m child with
      | unhandled keys' =>
        have hkeys := ih (.inr hsub)
        cases hd <;> simp_all [sendInner]
      | queue q => simp [sendInner, hget, hsub] at hst
      | intro keys' =>
        have hkeys := ih (.inl hsub)
        simp_all [sendInner]
      | dropped => simp [sendInner, hget, hsub] at hst

/-- `make_intro_msg` panics iff the call has no interface. -/
private lemma makeIntroMsg_ne_panic_iff (children : List (Str × CallHierarchy Q))
    (msg : MarshalledMessage) :
    makeIntroMsg msg children ≠ .panic ↔ msg.dynheader.interface.isSome = true := by
  unfold makeIntroMsg
  cases hi : msg.dynheader.interface with
  | none => simp
  | some interface =>
    simp only [Option.isSome_some, iff_true]
    split_ifs <;> simp

/-- **When `send` does not panic**: a call that is answered with a description names an
interface, and the queue of a call that is queued is open.

**Proof sketch.** By the answer of `send_inner`, which the last registered handler decides. -/
theorem send_ne_panic_iff (closed : Q → Bool) {h : CallHierarchy Q}
    {msg : MarshalledMessage} {path : ObjectPath}
    (hobj : msg.dynheader.object = some path.inner) :
    h.send closed msg ≠ .panic ↔
      (h.Introspects path.components → msg.dynheader.interface.isSome = true) ∧
      ∀ q, h.QueuesTo path.components q → closed q = false := by
  have hpath : ObjectPath.fromStr path.inner = .ok path :=
    (ObjectPath.fromStr_eq_ok_iff _ _).mpr rfl
  simp only [← exists_sendInner_intro_iff, ← sendInner_eq_queue_iff]
  unfold send
  simp only [hobj, hpath]
  cases hst : sendInner path.components h with
  | queue q => simp
  | dropped => simp
  | unhandled keys => simp
  | intro keys =>
    have hmake := makeIntroMsg_ne_panic_iff keys msg
    cases hi : makeIntroMsg msg keys with
    | ok reply => simpa [hi] using hmake
    | err e => exact nomatch e
    | panic => simpa [hi] using hmake

/-- **A call that `get_call` takes is not answered with a description**: `send_inner` queues or
drops it.

**Proof sketch.** By induction on the path of the registration, `is_match_inner` holds only where
`send_inner` queues or drops the call: on the way both go to the same child, and at its end a queue
answers for what is below it. -/
lemma not_introspects_of_isMatch {h : CallHierarchy Q} {org m : ObjectPath}
    (hmatch : h.isMatch org m = true) : ¬ h.Introspects m.components := by
  have key : ∀ (org m : List Str) (h : CallHierarchy Q), isMatchInner org m h = true →
      (∃ q, sendInner m h = .queue q) ∨ sendInner m h = .dropped := by
    intro org
    induction org with
    | nil =>
      rintro (_ | ⟨c, m⟩) ⟨children, hd⟩ hm
      · cases hd <;> simp_all [isMatchInner, sendInner, CallHandler.getQueue]
      · cases hget : AssocMap.get children c with
        | none => cases hd <;> simp_all [isMatchInner, sendInner]
        | some child =>
          cases hsub : sendInner m child <;> cases hd <;>
            simp_all [isMatchInner, sendInner, CallHandler.getQueue]
    | cons o org ih =>
      rintro (_ | ⟨c, m⟩) ⟨children, hd⟩ hm
      · simp [isMatchInner] at hm
      · by_cases hoc : o = c
        · subst hoc
          cases hget : AssocMap.get children o with
          | none => simp [isMatchInner, hget] at hm
          | some child =>
            simp only [isMatchInner, if_true, hget] at hm
            rcases ih m child hm with ⟨q, hq⟩ | hdrop
            · exact .inl ⟨q, by simp [sendInner, hget, hq]⟩
            · exact .inr (by simp [sendInner, hget, hdrop])
        · simp [isMatchInner, hoc] at hm
  rw [← exists_sendInner_intro_iff]
  rintro ⟨keys, hkeys⟩
  rcases key _ _ _ hmatch with ⟨q, hq⟩ | hdrop
  · rw [hkeys] at hq
    cases hq
  · rw [hkeys] at hdrop
    cases hdrop

end CallHierarchy

end AsyncRustbus
