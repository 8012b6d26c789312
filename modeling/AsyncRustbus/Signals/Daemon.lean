import AsyncRustbus.Lib.Mirror
import AsyncRustbus.Signals.Atomic

set_option relaxedAutoImplicit false
set_option autoImplicit false

/-!
# The registry and the bus daemon (`lib.rs`)

`insert_sig_match` and `remove_sig_match` change the registry under the receive lock, give the lock
back, and tell the daemon; only then the answer is looked at, and a refused insertion takes the
lock again to take its rule out.  Any number of tasks do this at the same time, and the daemon
serves their calls in any order.

The daemon is a parameter: what it reads from a match string and which matches it refuses are left
open.  It keeps one match for each `AddMatch` that it accepts, and gives one up for each
`RemoveMatch`, which it refuses where there is none.

## Main definitions

* `SigMatches.beginInsert`, `SigMatches.beginRemove`, `SigMatches.endCall` — the parts of
  `insert_sig_match` and `remove_sig_match` between two awaits.
* `AsyncRustbus.MatchDaemon` — what the daemon promises.
* `AsyncRustbus.Registrations` — tasks that share a registry, and the daemon.
* `Registrations.Separate` — no rule is removed while an equal one is being inserted.
* `Registrations.Agrees` — the registry and the daemon agree up to the calls on their way.

## Main results

* `SigMatches.insertSigMatch_eq`, `SigMatches.removeSigMatch_eq` — the parts make up the calls.
* `Registrations.run_agrees` — when no call is on its way the daemon has exactly the matches of
  the registered rules, and the daemon never refuses a removal.
-/

namespace AsyncRustbus

/-- A call to the daemon. -/
inductive MatchCall
  | addMatch
  | removeMatch
  deriving DecidableEq

/-- A task in `insert_sig_match` (`addMatch`) or in `remove_sig_match` (`removeMatch`). -/
inductive MatchTask (Q : Type)
  /-- The registry is changed and the call is on its way. -/
  | calling (call : MatchCall) (rule : MatchRule Q)
  /-- The daemon has answered. -/
  | answered (call : MatchCall) (rule : MatchRule Q) (res : MarshalledMessage)
  /-- The function has returned. -/
  | returned (call : MatchCall) (result : Res IoError Unit)

/-! ## The parts of a call -/

namespace SigMatches

variable {Q : Type}

/-- `insert_sig_match` until the lock is given back. -/
def beginInsert (queue : Q) (sigMatches : SigMatches Q) (sigMatch : MatchRule Q) :
    MatchTask Q × SigMatches Q :=
  if sigMatch.path.isSome && sigMatch.pathNamespace.isSome then
    (.returned .addMatch .panic, sigMatches)
  else
    match binarySearch sigMatches sigMatch with
    | .ok _ => (.returned .addMatch (.err alreadyExists), sigMatches)
    | .error insertIdx =>
      let toInsert := { sigMatch.clone with queue := some queue }
      (.calling .addMatch sigMatch, sigMatches.insertIdx insertIdx toInsert)

/-- `remove_sig_match` until the lock is given back. -/
def beginRemove (sigMatches : SigMatches Q) (sigMatch : MatchRule Q) :
    MatchTask Q × SigMatches Q :=
  match binarySearch sigMatches sigMatch with
  | .error _ => (.returned .removeMatch (.err doesntExist), sigMatches)
  | .ok idx => (.calling .removeMatch sigMatch, sigMatches.eraseIdx idx)

variable (bodyText : MarshalledMessageBody → Option Str)

/-- The `match` on the answer of the daemon. -/
def endCall (call : MatchCall) (res : MarshalledMessage) (sigMatches : SigMatches Q)
    (sigMatch : MatchRule Q) : Res IoError Unit × SigMatches Q :=
  match res.typ with
  | .reply => (.ok (), sigMatches)
  | .error =>
    match call with
    | .addMatch =>
      match binarySearch sigMatches sigMatch with
      | .ok idx => (.err (daemonError bodyText res), sigMatches.eraseIdx idx)
      | .error _ => (.err (daemonError bodyText res), sigMatches)
    | .removeMatch => (.err (daemonError bodyText res), sigMatches)
  | _ => (.panic, sigMatches)

/-- A call that no other task interrupts. -/
def completeCall (exchange : Exchange) :
    MatchTask Q × SigMatches Q → Res IoError Unit × SigMatches Q
  | (.calling call rule, sigMatches) =>
    match exchange with
    | .sendFailed e => (.err e, sigMatches)
    | .awaitFailed e => (.err e, sigMatches)
    | .answered res => endCall bodyText call res sigMatches rule
  | (.answered call rule res, sigMatches) => endCall bodyText call res sigMatches rule
  | (.returned _ result, sigMatches) => (result, sigMatches)

/-- **The parts of `insert_sig_match` make up the function.** -/
theorem insertSigMatch_eq (queue : Q) (exchange : Exchange) (l : SigMatches Q) (r : MatchRule Q) :
    insertSigMatch bodyText queue exchange l r =
      completeCall bodyText exchange (beginInsert queue l r) := by
  unfold insertSigMatch beginInsert
  split_ifs
  · rfl
  cases binarySearch l r with
  | ok i => rfl
  | error i =>
    cases exchange with
    | answered res =>
      obtain ⟨body, dynheader, typ, flags⟩ := res
      cases typ with
      | _ => rfl
    | _ => rfl

/-- **The parts of `remove_sig_match` make up the function.** -/
theorem removeSigMatch_eq (exchange : Exchange) (l : SigMatches Q) (r : MatchRule Q) :
    removeSigMatch bodyText exchange l r = completeCall bodyText exchange (beginRemove l r) := by
  unfold removeSigMatch beginRemove
  cases binarySearch l r with
  | error i => rfl
  | ok i =>
    cases exchange with
    | answered res =>
      obtain ⟨body, dynheader, typ, flags⟩ := res
      cases typ with
      | _ => rfl
    | _ => rfl

end SigMatches

/-! ## Tasks and the daemon -/

/-- What the daemon promises: it has no match at first, adds one for an `AddMatch` that it answers
with a `Reply` and none otherwise, and answers a `RemoveMatch` with a `Reply` iff it has a match for
it, which it then gives up. -/
structure MatchDaemon (D K : Type) where
  /-- What a rule string asks for. -/
  meaning : Str → K
  /-- The matches that the daemon has for the connection. -/
  held : D → Multiset K
  start : D
  /-- It serves a call with a rule string, and accepts or refuses it. -/
  serve : D → MatchCall → Str → Bool × D
  held_start : held start = 0
  held_accepted : ∀ d rule, (serve d .addMatch rule).1 = true →
    held (serve d .addMatch rule).2 = meaning rule ::ₘ held d
  held_refused : ∀ d rule, (serve d .addMatch rule).1 = false →
    held (serve d .addMatch rule).2 = held d
  remove_iff : ∀ d rule, (serve d .removeMatch rule).1 = true ↔ meaning rule ∈ held d
  held_removed : ∀ d rule, meaning rule ∈ held d →
    held d = meaning rule ::ₘ held (serve d .removeMatch rule).2

/-- Tasks that share a registry, and the state of the daemon. -/
structure Registrations (Q D : Type) where
  sigMatches : SigMatches Q
  daemon : D
  tasks : List (MatchTask Q)

/-- A step: a call starts, the daemon serves the call of a task, or a task looks at its answer. -/
inductive RegistrationOp (Q : Type)
  | insert (rule : MatchRule Q) (queue : Q)
  | remove (rule : MatchRule Q)
  | serve (task : ℕ) (res : MarshalledMessage)
  | finish (task : ℕ)

namespace Registrations

variable {Q D K : Type} (S : MatchDaemon D K) (bodyText : MarshalledMessageBody → Option Str)

/-- A new connection. -/
def new : Registrations Q D := ⟨[], S.start, []⟩

/-- One step. -/
def step (st : Registrations Q D) : RegistrationOp Q → Registrations Q D
  | .insert rule queue =>
    let (task, l) := st.sigMatches.beginInsert queue rule
    { st with sigMatches := l, tasks := st.tasks ++ [task] }
  | .remove rule =>
    let (task, l) := st.sigMatches.beginRemove rule
    { st with sigMatches := l, tasks := st.tasks ++ [task] }
  | .serve t res =>
    match st.tasks[t]? with
    | some (.calling call rule) =>
      let (accepted, daemon) := S.serve st.daemon call rule.matchString
      let res := { res with typ := if accepted then .reply else .error }
      { st with daemon := daemon, tasks := st.tasks.set t (.answered call rule res) }
    | _ => st
  | .finish t =>
    match st.tasks[t]? with
    | some (.answered call rule res) =>
      let (result, l) := st.sigMatches.endCall bodyText call res rule
      { st with sigMatches := l, tasks := st.tasks.set t (.returned call result) }
    | _ => st

/-- A run. -/
def run (ops : List (RegistrationOp Q)) (st : Registrations Q D) : Registrations Q D :=
  ops.foldl (step S bodyText) st

end Registrations

namespace MatchTask

variable {Q : Type}

/-- The rule of a task, registered here and not with the daemon. -/
def adding : MatchTask Q → Option (MatchRule Q)
  | .calling .addMatch rule => some rule.clone
  | .answered .addMatch rule res => if res.typ = .error then some rule.clone else none
  | _ => none

/-- The rule of a task, registered with the daemon and no more here. -/
def removing : MatchTask Q → Option (MatchRule Q)
  | .calling .removeMatch rule => some rule.clone
  | _ => none

/-- Removals are not refused. -/
def Granted : MatchTask Q → Prop
  | .answered .removeMatch _ res => res.typ = .reply
  | .returned .removeMatch result => result = .ok () ∨ result = .err SigMatches.doesntExist
  | _ => True

end MatchTask

namespace Registrations

variable {Q D K : Type} {S : MatchDaemon D K} {bodyText : MarshalledMessageBody → Option Str}

/-- The rules of the registry. -/
def rules (st : Registrations Q D) : Multiset (MatchRule Q) :=
  (st.sigMatches.map MatchRule.clone : List (MatchRule Q))

/-- The rules that are registered here and not yet, or not, with the daemon. -/
def adding (st : Registrations Q D) : Multiset (MatchRule Q) := st.tasks.filterMap MatchTask.adding

/-- The rules that the daemon is still to give up. -/
def removing (st : Registrations Q D) : Multiset (MatchRule Q) :=
  st.tasks.filterMap MatchTask.removing

/-- No call is on its way. -/
def Quiet (st : Registrations Q D) : Prop := st.adding = 0 ∧ st.removing = 0

/-- The condition on a step: an inserted rule closes no cycle of the ordering with two registered
ones, and a rule is not removed while an equal one is being inserted. -/
def Separate (st : Registrations Q D) : RegistrationOp Q → Prop
  | .insert rule _ => ¬ BinarySearch.ClosesCycle MatchRule.cmp st.sigMatches rule
  | .remove rule => rule.clone ∉ st.adding
  | _ => True

instance [DecidableEq Q] (st : Registrations Q D) (op : RegistrationOp Q) :
    Decidable (st.Separate op) :=
  match op with
  | .insert _ _ => inferInstanceAs (Decidable (¬ BinarySearch.ClosesCycle _ _ _))
  | .remove _ => inferInstanceAs (Decidable (_ ∉ _))
  | .serve _ _ => inferInstanceAs (Decidable True)
  | .finish _ => inferInstanceAs (Decidable True)

/-- Every step of a run meets the condition. -/
def SeparateRun (S : MatchDaemon D K) (bodyText : MarshalledMessageBody → Option Str) :
    List (RegistrationOp Q) → Registrations Q D → Prop
  | [], _ => True
  | op :: ops, st => st.Separate op ∧ SeparateRun S bodyText ops (st.step S bodyText op)

instance decidableSeparateRun [DecidableEq Q] : (ops : List (RegistrationOp Q)) →
    (st : Registrations Q D) → Decidable (SeparateRun S bodyText ops st)
  | [], _ => inferInstanceAs (Decidable True)
  | op :: ops, st =>
    have := decidableSeparateRun ops (st.step S bodyText op)
    inferInstanceAs (Decidable (_ ∧ _))

/-- **The registry and the daemon agree** up to the calls on their way, and no removal is
refused. -/
structure Agrees (S : MatchDaemon D K) (st : Registrations Q D) : Prop where
  sorted : BinarySearch.Sorted MatchRule.cmp st.sigMatches
  mirror : Mirror (fun r : MatchRule Q => S.meaning r.matchString) (S.held st.daemon) st.rules
    st.adding st.removing
  granted : ∀ task ∈ st.tasks, task.Granted

/-! ## One step -/

variable {st : Registrations Q D}

/-- A new connection. -/
lemma agrees_new : (new S : Registrations Q D).Agrees S where
  sorted := List.Pairwise.nil
  mirror := by
    rw [new, S.held_start]
    exact Mirror.empty
  granted := by simp [new]

/-- One more task. -/
lemma granted_concat {tasks : List (MatchTask Q)} (h : ∀ task ∈ tasks, task.Granted)
    {task : MatchTask Q} (htask : task.Granted) : ∀ task' ∈ tasks ++ [task], task'.Granted := by
  rw [List.forall_mem_append]
  exact ⟨h, List.forall_mem_singleton.mpr htask⟩

/-- Another task in the place of one. -/
lemma granted_set {tasks : List (MatchTask Q)} (h : ∀ task ∈ tasks, task.Granted) (t : ℕ)
    {task : MatchTask Q} (htask : task.Granted) : ∀ task' ∈ tasks.set t task, task'.Granted := by
  intro task' hmem
  rcases List.mem_or_eq_of_mem_set hmem with hmem | rfl
  · exact h task' hmem
  · exact htask

/-- A call that returns at once. -/
lemma Agrees.returned (h : st.Agrees S) {call : MatchCall} {result : Res IoError Unit}
    (hgranted : (MatchTask.returned call result : MatchTask Q).Granted) :
    ({ st with tasks := st.tasks ++ [.returned call result] } : Registrations Q D).Agrees
      S := by
  refine ⟨h.sorted, ?_, granted_concat h.granted hgranted⟩
  have hadding := Multiset.coe_filterMap_concat st.tasks MatchTask.adding (.returned call result)
  have hremoving := Multiset.coe_filterMap_concat st.tasks MatchTask.removing
    (.returned call result)
  have hmirror := h.mirror
  rw [adding, removing, hadding, hremoving]
  exact hmirror

/-- **An insertion starts**: the rule is registered and is being added. -/
lemma Agrees.insert (h : st.Agrees S) {r : MatchRule Q}
    (hcycle : ¬ BinarySearch.ClosesCycle MatchRule.cmp st.sigMatches r) (queue : Q) :
    (st.step S bodyText (.insert r queue)).Agrees S := by
  simp only [step, SigMatches.beginInsert]
  split_ifs
  · exact h.returned trivial
  cases hi : st.sigMatches.binarySearch r with
  | ok i => exact h.returned trivial
  | error i =>
    -- the ordering does not see the queue
    have hsearch : st.sigMatches.binarySearch { r.clone with queue := some queue } = .error i := hi
    have hcycle' : ¬ BinarySearch.ClosesCycle MatchRule.cmp st.sigMatches
      { r.clone with queue := some queue } := hcycle
    have hle : i ≤ st.sigMatches.length := BinarySearch.le_length_of_search hi
    have hrules : ((st.sigMatches.insertIdx i { r.clone with queue := some queue }).map
        MatchRule.clone : Multiset (MatchRule Q)) = r.clone ::ₘ st.rules :=
      Multiset.coe_eq_coe.mpr ((List.perm_insertIdx _ _ hle).map _)
    refine ⟨h.sorted.insertIdx MatchRule.cmp_congr hcycle' hsearch, ?_,
      granted_concat h.granted trivial⟩
    rw [rules, adding, removing, hrules, Multiset.coe_filterMap_concat,
      Multiset.coe_filterMap_concat]
    exact h.mirror.add r.clone

/-- **A removal starts**: the rule is registered no more, and the daemon is to give it up. -/
lemma Agrees.remove (h : st.Agrees S) {r : MatchRule Q} (hr : r.clone ∉ st.adding) :
    (st.step S bodyText (.remove r)).Agrees S := by
  simp only [step, SigMatches.beginRemove]
  cases hi : st.sigMatches.binarySearch r with
  | error i => exact h.returned (.inr rfl)
  | ok i =>
    obtain ⟨x, hx, hxr⟩ := BinarySearch.search_eq_ok hi
    rw [MatchRule.cmp_eq_iff, MatchRule.eq_iff] at hxr
    have hmirror := h.mirror
    rw [rules, Multiset.coe_map_eraseIdx hx, hxr] at hmirror
    refine ⟨h.sorted.sublist (List.eraseIdx_sublist _ i), ?_, granted_concat h.granted trivial⟩
    rw [adding, removing, Multiset.coe_filterMap_concat, Multiset.coe_filterMap_concat]
    exact hmirror.remove hr

/-- **The daemon serves a call**: it accepts or refuses a match, or gives one up.

**Proof sketch.** Serving the call changes one task and the daemon. A match that is refused is still
being added, until the task looks at the answer; one that is accepted is no longer
(`Mirror.accept`). A removal finds its match, because everything that is being removed is with the
daemon (`Mirror.key_mem`), so it is granted and the match is given up (`Mirror.giveUp`). -/
lemma Agrees.serve (h : st.Agrees S) (t : ℕ) (res : MarshalledMessage) :
    (st.step S bodyText (.serve t res)).Agrees S := by
  simp only [step]
  cases htask : st.tasks[t]? with
  | none => exact h
  | some task =>
    cases task with
    | answered call r res' => exact h
    | returned call result => exact h
    | calling call r =>
      dsimp only
      obtain ⟨reply, hreply⟩ : ∃ reply, reply = ({ res with
        typ := if (S.serve st.daemon call r.matchString).1 then .reply else .error } :
          MarshalledMessage) := ⟨_, rfl⟩
      have htyp : reply.typ =
          if (S.serve st.daemon call r.matchString).1 then .reply else .error := by
        rw [hreply]
      rw [← hreply]
      obtain ⟨adding', hadding, hadding'⟩ := Multiset.coe_filterMap_set htask MatchTask.adding
        (.answered call r reply)
      obtain ⟨removing', hremoving, hremoving'⟩ := Multiset.coe_filterMap_set htask
        MatchTask.removing (.answered call r reply)
      have hmirror := h.mirror
      rw [adding, removing, hadding, hremoving] at hmirror
      cases call with
      | addMatch =>
        refine ⟨h.sorted, ?_, granted_set h.granted t trivial⟩
        rw [adding, removing, hadding', hremoving', MatchTask.adding]
        cases haccepted : (S.serve st.daemon .addMatch r.matchString).1 with
        | false =>
          rw [haccepted] at htyp
          rw [if_pos (show reply.typ = .error from htyp), S.held_refused _ _ haccepted]
          exact hmirror
        | true =>
          rw [haccepted] at htyp
          have hreplied : reply.typ = .reply := htyp
          rw [if_neg (by rw [hreplied]; decide), S.held_accepted _ _ haccepted]
          exact hmirror.accept
      | removeMatch =>
        have hmem : S.meaning r.matchString ∈ S.held st.daemon := hmirror.key_mem
        rw [(S.remove_iff _ _).mpr hmem] at htyp
        rw [S.held_removed _ _ hmem] at hmirror
        have hgiven : Mirror (fun r : MatchRule Q => S.meaning r.matchString)
            (S.held (S.serve st.daemon .removeMatch r.matchString).2) st.rules adding' removing' :=
          Mirror.giveUp (a := r.clone) hmirror
        refine ⟨h.sorted, ?_, granted_set h.granted t htyp⟩
        rw [adding, removing, hadding', hremoving']
        exact hgiven

/-- **A task looks at its answer**: where the daemon has refused a match, the rule is taken out.

**Proof sketch.** Looking at the answer changes one task and perhaps the registry. If a match was
refused, its rule is still registered, so the search in the sorted registry finds it and takes it
out (`Mirror.takeBack`). After any other answer the registry stays as it is, and a removal has been
granted. -/
lemma Agrees.finish (h : st.Agrees S) (t : ℕ) :
    (st.step S bodyText (.finish t)).Agrees S := by
  simp only [step]
  cases htask : st.tasks[t]? with
  | none => exact h
  | some task =>
    cases task with
    | calling call r => exact h
    | returned call result => exact h
    | answered call r res =>
      dsimp only
      have hgranted := h.granted _ (List.mem_of_getElem? htask)
      obtain ⟨result, hresult⟩ : ∃ result,
        result = (st.sigMatches.endCall bodyText call res r).1 := ⟨_, rfl⟩
      rw [← hresult]
      obtain ⟨adding', hadding, hadding'⟩ := Multiset.coe_filterMap_set htask MatchTask.adding
        (.returned call result)
      obtain ⟨removing', hremoving, hremoving'⟩ := Multiset.coe_filterMap_set htask
        MatchTask.removing (.returned call result)
      have hmirror := h.mirror
      rw [adding, removing, hadding, hremoving] at hmirror
      cases call with
      | addMatch =>
        by_cases hrefused : res.typ = .error
        · -- the rule is found, because it is registered as long as it is being added
          have hmem : r.clone ∈ st.rules := by
            refine Multiset.mem_of_le hmirror.adding_le ?_
            rw [MatchTask.adding, if_pos hrefused]
            exact Multiset.mem_cons_self _ _
          obtain ⟨a, ha, har⟩ := List.mem_map.mp (Multiset.mem_coe.mp hmem)
          rw [← MatchRule.eq_iff, ← MatchRule.cmp_eq_iff] at har
          obtain ⟨i, hi⟩ := (h.sorted.exists_search_ok_iff MatchRule.cmp_congr r).mpr ⟨a, ha, har⟩
          obtain ⟨x, hx, hxr⟩ := BinarySearch.search_eq_ok hi
          rw [MatchRule.cmp_eq_iff, MatchRule.eq_iff] at hxr
          have hend : (st.sigMatches.endCall bodyText .addMatch res r).2 =
              st.sigMatches.eraseIdx i := by
            rw [SigMatches.endCall, hrefused]
            simp only [SigMatches.binarySearch, hi]
          rw [rules, Multiset.coe_map_eraseIdx hx, hxr, MatchTask.adding, if_pos hrefused]
            at hmirror
          rw [hend]
          refine ⟨h.sorted.sublist (List.eraseIdx_sublist _ i), ?_,
            granted_set h.granted t trivial⟩
          rw [adding, removing, hadding', hremoving']
          exact hmirror.takeBack
        · have hend : (st.sigMatches.endCall bodyText .addMatch res r).2 = st.sigMatches := by
            rw [SigMatches.endCall]
            cases htyp : res.typ with
            | error => exact absurd htyp hrefused
            | _ => rfl
          rw [MatchTask.adding, if_neg hrefused] at hmirror
          rw [hend]
          refine ⟨h.sorted, ?_, granted_set h.granted t trivial⟩
          rw [adding, removing, hadding', hremoving']
          exact hmirror
      | removeMatch =>
        have hend : st.sigMatches.endCall bodyText .removeMatch res r =
            (.ok (), st.sigMatches) := by
          rw [SigMatches.endCall, show res.typ = .reply from hgranted]
        rw [hend] at hresult ⊢
        refine ⟨h.sorted, ?_, granted_set h.granted t (.inl hresult)⟩
        rw [adding, removing, hadding', hremoving']
        exact hmirror

/-- **One step.** -/
lemma Agrees.step (h : st.Agrees S) {op : RegistrationOp Q} (hop : st.Separate op) :
    (st.step S bodyText op).Agrees S := by
  cases op with
  | insert r queue => exact h.insert hop queue
  | remove r => exact h.remove hop
  | serve t res => exact h.serve t res
  | finish t => exact h.finish t

/-- **A run.** -/
lemma Agrees.run {ops : List (RegistrationOp Q)} (h : st.Agrees S)
    (hops : SeparateRun S bodyText ops st) : (st.run S bodyText ops).Agrees S := by
  induction ops generalizing st with
  | nil => exact h
  | cons op ops ih => exact ih (h.step hops.1) hops.2

/-- When no call is on its way, the daemon has the matches of the registered rules. -/
lemma Agrees.held_eq (h : st.Agrees S) (hquiet : st.Quiet) :
    S.held st.daemon = (st.sigMatches.map fun r => S.meaning r.matchString : List K) := by
  have hmirror := h.mirror
  rw [hquiet.1, hquiet.2] at hmirror
  have hcopy := hmirror.remote_eq
  rw [rules, Multiset.map_coe, List.map_map] at hcopy
  exact hcopy

/-- **The registry and the daemon agree in every interleaving** of insertions and removals in which
no rule closes a cycle of the ordering, no rule is removed while an equal one is being inserted,
and no exchange fails: no two rules of the registry are equal; whenever no call is on its way, the
daemon has exactly the matches of the registered rules; and the daemon refuses no removal. -/
theorem run_agrees (S : MatchDaemon D K) (bodyText : MarshalledMessageBody → Option Str)
    (ops : List (RegistrationOp Q)) (hops : SeparateRun S bodyText ops (new S)) :
    let st : Registrations Q D := run S bodyText ops (new S)
    (st.sigMatches.Pairwise fun a b => a.eq b = false) ∧
      (st.Quiet →
        S.held st.daemon = (st.sigMatches.map fun r => S.meaning r.matchString : List K)) ∧
      ∀ result, .returned .removeMatch result ∈ st.tasks →
        result = .ok () ∨ result = .err SigMatches.doesntExist := by
  have h := Agrees.run agrees_new hops
  refine ⟨?_, h.held_eq, fun result hresult => h.granted _ hresult⟩
  have hset : SigMatches.Represents (run S bodyText ops (new S)).sigMatches
      fun r => (run S bodyText ops (new S)).sigMatches.any fun a => a.eq r :=
    ⟨h.sorted, fun r => List.any_eq_true⟩
  exact hset.pairwise_ne

/-- A daemon that has matches for rule strings, and its answers to the next calls of `AddMatch`. -/
abbrev ScriptedDaemon : Type := List Str × List Bool

/-- It serves a call. -/
def scriptedServe (d : ScriptedDaemon) (call : MatchCall) (rule : Str) : Bool × ScriptedDaemon :=
  match call with
  | .addMatch =>
    if d.2.headD true then (true, rule :: d.1, d.2.tail) else (false, d.1, d.2.tail)
  | .removeMatch => if d.1.contains rule then (true, d.1.erase rule, d.2) else (false, d)

/-- What it does with an `AddMatch`. -/
private lemma scriptedServe_addMatch (d : ScriptedDaemon) (rule : Str) :
    ((scriptedServe d .addMatch rule).1 = true →
      (scriptedServe d .addMatch rule).2.1 = rule :: d.1) ∧
    ((scriptedServe d .addMatch rule).1 = false →
      (scriptedServe d .addMatch rule).2.1 = d.1) := by
  unfold scriptedServe
  dsimp only
  split_ifs with hgrant
  · exact ⟨fun _ => rfl, fun h => absurd h (by decide)⟩
  · exact ⟨fun h => absurd h (by decide), fun _ => rfl⟩

/-- What it does with a `RemoveMatch`. -/
private lemma scriptedServe_removeMatch (d : ScriptedDaemon) (rule : Str) :
    ((scriptedServe d .removeMatch rule).1 = true ↔ rule ∈ d.1) ∧
    (rule ∈ d.1 → d.1.Perm (rule :: (scriptedServe d .removeMatch rule).2.1)) := by
  unfold scriptedServe
  dsimp only
  split_ifs with hcontains <;> rw [List.contains_iff_mem] at hcontains
  · exact ⟨iff_of_true rfl hcontains, fun _ => List.perm_cons_erase hcontains⟩
  · exact ⟨iff_of_false (by decide) hcontains, fun h => absurd h hcontains⟩

/-- It keeps what a daemon promises. -/
def scriptedDaemon : MatchDaemon ScriptedDaemon Str where
  meaning rule := rule
  held d := d.1
  start := ([], [true, false])
  serve := scriptedServe
  held_start := rfl
  held_accepted d rule h := congrArg Multiset.ofList ((scriptedServe_addMatch d rule).1 h)
  held_refused d rule h := congrArg Multiset.ofList ((scriptedServe_addMatch d rule).2 h)
  remove_iff d rule := (scriptedServe_removeMatch d rule).1
  held_removed d rule h := Multiset.coe_eq_coe.mpr ((scriptedServe_removeMatch d rule).2 h)

/-- Two rules are inserted at the same time, the daemon serves the second call first and refuses
the other, and one rule is removed again while another insertion is on its way. -/
def overlappingOps : List (RegistrationOp ℕ) :=
  [.insert (SigMatches.namespaceRule "/a" none) 0, .insert (SigMatches.namespaceRule "/b" none) 1,
    .serve 1 SigMatches.emptyReply, .serve 0 SigMatches.emptyReply, .finish 0, .finish 1,
    .insert (SigMatches.namespaceRule "/c" none) 2, .remove (SigMatches.namespaceRule "/b" none),
    .serve 2 SigMatches.emptyReply, .serve 3 SigMatches.emptyReply, .finish 3, .finish 2]

/-- After them one rule is registered, and the daemon has its match. -/
theorem run_agrees_overlapping :
    let st : Registrations ℕ ScriptedDaemon :=
      run scriptedDaemon (fun _ => none) overlappingOps (new scriptedDaemon)
    st.sigMatches.length = 1 ∧
      scriptedDaemon.held st.daemon = (st.sigMatches.map fun r => r.matchString : List Str) := by
  intro st
  have hagrees := run_agrees scriptedDaemon (fun _ => none) overlappingOps (by decide +kernel)
  exact ⟨by decide +kernel, hagrees.2.1 ⟨by decide +kernel, by decide +kernel⟩⟩

end Registrations

end AsyncRustbus
