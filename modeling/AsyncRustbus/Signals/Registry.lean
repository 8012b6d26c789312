import AsyncRustbus.Lib.BinarySearch
import AsyncRustbus.Signals.MatchRule

set_option relaxedAutoImplicit false
set_option autoImplicit false

/-!
# The registry of match rules (`lib.rs`)

`RpcConn` keeps its match rules in the vector `sig_matches`, inserts and removes them with
`slice::binary_search`, and tells the bus daemon about every change.  A signal is taken by the
`get_signal` that reads it, or appended to the queue of the first rule that matches it.  The
registry is compared with what it stands for, the set of the rules that were inserted and not
removed since.

## Main definitions

* `SigMatches.insertSigMatch`, `SigMatches.removeSigMatch`, `SigMatches.getSignalQueue` —
  `RpcConn::insert_sig_match`, `RpcConn::remove_sig_match` and the lookup of
  `RpcConn::get_signal`, given the outcome of the exchange with the daemon.
* `SigMatches.queueSig`, `MatchRule.sigPred` — `queue_sig` and the predicate of `get_signal`.
* `SigMatches.Represents` — the registry holds a set of rules.
* `RegistryOp`, `SigMatches.run`, `registered` — sequences of calls, the registry they leave and
  the set they stand for.

## Main results

* `SigMatches.run_set` — as long as no rule is inserted that closes a cycle of the ordering
  with two rules of the registry, the registry is the set.
* `SigMatches.run_loses_rule` — rules can close such a cycle, and then a rule is lost.
* `SigMatches.sigPred_iff_queueSig_iff` — `get_signal` and `queue_sig` agree about a signal and
  a rule iff the rule does not match or no earlier rule does.
-/

namespace AsyncRustbus

/-- `std::io::ErrorKind`: the kinds that `lib.rs` uses, and the others. -/
inductive ErrorKind
  | invalidInput
  | interrupted
  | wouldBlock
  | other
  | os (code : ℕ)
  deriving DecidableEq

/-- `std::io::Error`. -/
structure IoError where
  kind : ErrorKind
  text : Str
  deriving DecidableEq

/-- The outcome of `send_msg_w_rsp(&call).await?.await?`. -/
inductive Exchange
  | sendFailed (e : IoError)
  | awaitFailed (e : IoError)
  | answered (res : MarshalledMessage)
  deriving DecidableEq

/-- The field `sig_matches`. -/
abbrev SigMatches (Q : Type) := List (MatchRule Q)

/-- The predicate with which `get_signal` takes messages off the socket. -/
def MatchRule.sigPred {Q : Type} (sigMatch : MatchRule Q) (msg : MarshalledMessage) : Bool :=
  sigMatch.matchesMsg msg

namespace SigMatches

variable {Q : Type}

/-- `sig_matches.binary_search(sig_match)`. -/
def binarySearch (sigMatches : SigMatches Q) (sigMatch : MatchRule Q) : Except ℕ ℕ :=
  BinarySearch.search (fun r => r.cmp sigMatch) sigMatches

/-- `queue_sig`: the queue the signal is appended to, that of the first rule that matches.  The
channel of a registered rule is open, because the rule holds its receiving end and
`get_signal` hands no copy of it out. -/
def queueSig : SigMatches Q → MarshalledMessage → Res Empty (Option Q)
  | [], _ => .ok none
  | sigMatch :: sigMatches, sig =>
    if sigMatch.matchesMsg sig then
      match sigMatch.queue with
      | some q => .ok (some q)
      | none => .panic
    else queueSig sigMatches sig

section Calls

/- `res.body.parser().get::<&str>()` of the `rustbus` crate. -/
variable (bodyText : MarshalledMessageBody → Option Str)

/-- The error made from an `Error` message of the daemon. -/
def daemonError (res : MarshalledMessage) : IoError :=
  ⟨.other, (bodyText res.body).getD "Unknown DBus Error Type!".toList⟩

/-- The error of inserting a rule that is registered. -/
def alreadyExists : IoError := ⟨.invalidInput, "Already exists".toList⟩

/-- The error of removing a rule that is not registered. -/
def doesntExist : IoError := ⟨.invalidInput, "MatchRule doesn't exist!".toList⟩

/-- The error of waiting for a rule that is not registered. -/
def unknownRule : IoError := ⟨.invalidInput, "Unknown match rule given!".toList⟩

/-- `RpcConn::insert_sig_match`, with the queue that `MsgQueue::new` returns. -/
def insertSigMatch (queue : Q) (exchange : Exchange) (sigMatches : SigMatches Q)
    (sigMatch : MatchRule Q) : Res IoError Unit × SigMatches Q :=
  if sigMatch.path.isSome && sigMatch.pathNamespace.isSome then (.panic, sigMatches)
  else
    match binarySearch sigMatches sigMatch with
    | .ok _ => (.err alreadyExists, sigMatches)
    | .error insertIdx =>
      let toInsert := { sigMatch.clone with queue := some queue }
      let sigMatches := sigMatches.insertIdx insertIdx toInsert
      match exchange with
      | .sendFailed e => (.err e, sigMatches)
      | .awaitFailed e => (.err e, sigMatches)
      | .answered res =>
        match res.typ with
        | .reply => (.ok (), sigMatches)
        | .error =>
          match binarySearch sigMatches sigMatch with
          | .ok idx => (.err (daemonError bodyText res), sigMatches.eraseIdx idx)
          | .error _ => (.err (daemonError bodyText res), sigMatches)
        | _ => (.panic, sigMatches)

/-- `RpcConn::remove_sig_match`. -/
def removeSigMatch (exchange : Exchange) (sigMatches : SigMatches Q) (sigMatch : MatchRule Q) :
    Res IoError Unit × SigMatches Q :=
  match binarySearch sigMatches sigMatch with
  | .error _ => (.err doesntExist, sigMatches)
  | .ok idx =>
    let sigMatches := sigMatches.eraseIdx idx
    match exchange with
    | .sendFailed e => (.err e, sigMatches)
    | .awaitFailed e => (.err e, sigMatches)
    | .answered res =>
      match res.typ with
      | .reply => (.ok (), sigMatches)
      | .error => (.err (daemonError bodyText res), sigMatches)
      | _ => (.panic, sigMatches)

end Calls

/-- The lookup of `RpcConn::get_signal`: the queue to wait on. -/
def getSignalQueue (sigMatches : SigMatches Q) (sigMatch : MatchRule Q) : Res IoError Q :=
  match binarySearch sigMatches sigMatch with
  | .error _ => .err unknownRule
  | .ok idx =>
    match sigMatches[idx]? with
    | none => .panic
    | some r =>
      match r.queue with
      | some q => .ok q
      | none => .panic

/-! ## The registry as a set -/

/-- `S` is the set of the rules in the registry, which is sorted. -/
structure Represents (l : SigMatches Q) (S : MatchRule Q → Bool) : Prop where
  sorted : BinarySearch.Sorted MatchRule.cmp l
  mem_iff : ∀ r, S r = true ↔ ∃ a ∈ l, a.eq r = true

/-- The empty registry is the empty set. -/
lemma Represents.nil : Represents ([] : SigMatches Q) fun _ => false :=
  ⟨List.Pairwise.nil, by simp⟩

/-- A sorted registry holds no rule twice. -/
lemma Represents.pairwise_ne {l : SigMatches Q} {S : MatchRule Q → Bool}
    (h : Represents l S) : l.Pairwise fun a b => a.eq b = false := by
  refine h.sorted.imp ?_
  intro a b hab
  rw [Bool.eq_false_iff]
  intro heq
  rw [(MatchRule.cmp_eq_iff a b).mpr heq] at hab
  cases hab

/-- **Lookup**: the search succeeds for the rules of the set. -/
lemma Represents.exists_ok_iff {l : SigMatches Q} {S : MatchRule Q → Bool}
    (h : Represents l S) (r : MatchRule Q) : (∃ i, binarySearch l r = .ok i) ↔ S r = true := by
  rw [h.mem_iff]
  simp only [← MatchRule.cmp_eq_iff]
  exact h.sorted.exists_search_ok_iff MatchRule.cmp_congr r

/-- A search that fails is one for a rule outside the set. -/
lemma Represents.of_error {l : SigMatches Q} {S : MatchRule Q → Bool} (h : Represents l S)
    {r : MatchRule Q} {i : ℕ} (hi : binarySearch l r = .error i) : S r = false := by
  rw [Bool.eq_false_iff, ne_eq, ← h.exists_ok_iff, hi]
  simp

/-- Equality of rules is symmetric and transitive. -/
private lemma eq_congr_left {a b : MatchRule Q} (h : a.eq b = true) (r : MatchRule Q) :
    a.eq r = b.eq r := by
  rw [MatchRule.eq_iff] at h
  rw [Bool.eq_iff_iff, MatchRule.eq_iff, MatchRule.eq_iff, h]

/-- Giving a rule a queue leaves it equal. -/
private lemma withQueue_eq (a r : MatchRule Q) (q : Option Q) :
    ({ a.clone with queue := q } : MatchRule Q).eq r = a.eq r := rfl

/-- **Insertion** adds the rule to the set, unless it closes a cycle. -/
lemma Represents.insertIdx {l : SigMatches Q} {S : MatchRule Q → Bool} (h : Represents l S)
    {r : MatchRule Q} (hr : ¬ BinarySearch.ClosesCycle MatchRule.cmp l r) {i : ℕ}
    (hi : binarySearch l r = .error i) (q : Q) :
    Represents (l.insertIdx i { r.clone with queue := some q })
      (fun r' => S r' || r.eq r') := by
  have hsearch : binarySearch l { r.clone with queue := some q } = .error i := by
    rw [← hi, binarySearch, binarySearch]
    rfl
  have hcycle : ¬ BinarySearch.ClosesCycle MatchRule.cmp l { r.clone with queue := some q } := hr
  have hle : i ≤ l.length := BinarySearch.le_length_of_search hi
  refine ⟨h.sorted.insertIdx MatchRule.cmp_congr hcycle hsearch, ?_⟩
  intro r'
  rw [Bool.or_eq_true, h.mem_iff]
  simp only [List.mem_insertIdx hle, exists_eq_or_imp, withQueue_eq]
  exact or_comm

/-- **Removal** takes the rule out of the set.

**Proof sketch.** The rule that is taken out equals `r`, and all others differ from it pairwise. So
a rule equal to `r'` is left iff there was one and it is not the one taken out, which is to say that
`r` and `r'` differ. -/
lemma Represents.eraseIdx {l : SigMatches Q} {S : MatchRule Q → Bool} (h : Represents l S)
    {r : MatchRule Q} {i : ℕ} (hi : binarySearch l r = .ok i) :
    Represents (l.eraseIdx i) (fun r' => S r' && !r.eq r') := by
  obtain ⟨x, hx, hxr⟩ := BinarySearch.search_eq_ok hi
  obtain ⟨hil, rfl⟩ := List.getElem?_eq_some_iff.mp hx
  rw [MatchRule.cmp_eq_iff] at hxr
  refine ⟨h.sorted.sublist (List.eraseIdx_sublist l i), ?_⟩
  intro r'
  rw [Bool.and_eq_true, Bool.not_eq_true', h.mem_iff, ← eq_congr_left hxr]
  have hne := List.pairwise_iff_getElem.mp h.pairwise_ne
  constructor
  · rintro ⟨⟨a, ha, har⟩, hxr'⟩
    obtain ⟨j, hj, rfl⟩ := List.getElem_of_mem ha
    refine ⟨l[j], List.mem_eraseIdx_iff_getElem.mpr ⟨j, hj, ?_, rfl⟩, har⟩
    rintro rfl
    rw [har] at hxr'
    cases hxr'
  · rintro ⟨a, ha, har⟩
    obtain ⟨j, hj, hji, rfl⟩ := List.mem_eraseIdx_iff_getElem.mp ha
    refine ⟨⟨l[j], List.getElem_mem hj, har⟩, ?_⟩
    -- the two elements are different, so they cannot both be equal to `r'`
    rw [Bool.eq_false_iff]
    intro hxr'
    rw [MatchRule.eq_iff] at har hxr'
    rcases Nat.lt_or_gt_of_ne hji with hlt | hgt
    · have := hne j i hj hil hlt
      rw [Bool.eq_false_iff, ne_eq, MatchRule.eq_iff] at this
      exact this (har.trans hxr'.symm)
    · have := hne i j hil hj hgt
      rw [Bool.eq_false_iff, ne_eq, MatchRule.eq_iff] at this
      exact this (hxr'.trans har.symm)

end SigMatches

/-! ## Sequences of calls -/

/-- A call of `insert_sig_match` or `remove_sig_match`, with the outcome of its exchange. -/
inductive RegistryOp (Q : Type)
  | insert (rule : MatchRule Q) (queue : Q) (exchange : Exchange)
  | remove (rule : MatchRule Q) (exchange : Exchange)

namespace RegistryOp

variable {Q : Type}

/-- The rule of a call. -/
def rule : RegistryOp Q → MatchRule Q
  | insert r _ _ => r
  | remove r _ => r

/-- The exchange of a call. -/
def exchange : RegistryOp Q → Exchange
  | insert _ _ e => e
  | remove _ e => e

/-- The daemon answers with a `Reply`. -/
def Answered (op : RegistryOp Q) : Prop := ∃ res, op.exchange = .answered res ∧ res.typ = .reply

/-- The call itself. -/
def apply (bodyText : MarshalledMessageBody → Option Str) :
    RegistryOp Q → SigMatches Q → Res IoError Unit × SigMatches Q
  | insert r q e, l => SigMatches.insertSigMatch bodyText q e l r
  | remove r e, l => SigMatches.removeSigMatch bodyText e l r

/-- What the call does to the set of registered rules. -/
def update : RegistryOp Q → (MatchRule Q → Bool) → MatchRule Q → Bool
  | insert r _ _, S => fun r' => S r' || r.eq r'
  | remove r _, S => fun r' => S r' && !r.eq r'

/-- The call inserts a rule that closes a cycle of the ordering with two rules of `l`. -/
def ClosesCycle : RegistryOp Q → SigMatches Q → Prop
  | insert r _ _, l => BinarySearch.ClosesCycle MatchRule.cmp l r
  | remove _ _, _ => False

end RegistryOp

/-- The rules that were inserted and not removed since. -/
def registered {Q : Type} (ops : List (RegistryOp Q)) : MatchRule Q → Bool :=
  ops.foldl (fun S op => op.update S) fun _ => false

namespace SigMatches

variable {Q : Type} (bodyText : MarshalledMessageBody → Option Str)

/-- The registry after a sequence of calls. -/
def run (ops : List (RegistryOp Q)) (l : SigMatches Q) : SigMatches Q :=
  ops.foldl (fun l op => (op.apply bodyText l).2) l

/-- No call of the sequence inserts a rule that closes a cycle of the ordering with two rules
registered at that moment. -/
def NoCycles : List (RegistryOp Q) → SigMatches Q → Prop
  | [], _ => True
  | op :: ops, l => ¬ op.ClosesCycle l ∧ NoCycles ops (op.apply bodyText l).2

variable {bodyText}

/-- Inserting a rule that is not registered. -/
private lemma insertSigMatch_of_error {l : SigMatches Q} {r : MatchRule Q} {i : ℕ}
    (hr : r.Exclusive) (hi : binarySearch l r = .error i) (q : Q) {res : MarshalledMessage}
    (hres : res.typ = .reply) :
    insertSigMatch bodyText q (.answered res) l r =
      (.ok (), l.insertIdx i { r.clone with queue := some q }) := by
  unfold insertSigMatch
  rw [if_neg (r.exclusive_iff.mp hr), hi]
  simp only [hres]

/-- Inserting a rule that is found. -/
lemma insertSigMatch_of_ok {l : SigMatches Q} {r : MatchRule Q} {i : ℕ}
    (hr : r.Exclusive) (hi : binarySearch l r = .ok i) (q : Q) (e : Exchange) :
    insertSigMatch bodyText q e l r = (.err alreadyExists, l) := by
  unfold insertSigMatch
  rw [if_neg (r.exclusive_iff.mp hr), hi]

/-- Removing a rule that is found. -/
private lemma removeSigMatch_of_ok {l : SigMatches Q} {r : MatchRule Q} {i : ℕ}
    (hi : binarySearch l r = .ok i) {res : MarshalledMessage} (hres : res.typ = .reply) :
    removeSigMatch bodyText (.answered res) l r = (.ok (), l.eraseIdx i) := by
  unfold removeSigMatch
  rw [hi]
  simp only [hres]

/-- Removing a rule that is not found. -/
lemma removeSigMatch_of_error {l : SigMatches Q} {r : MatchRule Q} {i : ℕ}
    (hi : binarySearch l r = .error i) (e : Exchange) :
    removeSigMatch bodyText e l r = (.err doesntExist, l) := by
  unfold removeSigMatch
  rw [hi]

/-- **One call**: the registry follows the set, unless the call closes a cycle.

**Proof sketch.** A failing search is one for a rule outside the set, so the insertion is a new
rule at the place the search names, and the removal changes neither side.  A successful search
is one for a rule of the set: the insertion changes neither side, and the removal takes out
the only rule equal to the one searched for. -/
lemma Represents.apply {l : SigMatches Q} {S : MatchRule Q → Bool} (h : Represents l S)
    {op : RegistryOp Q} (hrule : op.rule.Exclusive) (hans : op.Answered)
    (hcycle : ¬ op.ClosesCycle l) : Represents (op.apply bodyText l).2 (op.update S) := by
  obtain ⟨res, hexch, hres⟩ := hans
  cases op with
  | insert r q e =>
    simp only [RegistryOp.exchange] at hexch
    subst hexch
    have hr : r.Exclusive := hrule
    simp only [RegistryOp.apply, RegistryOp.update]
    cases hi : binarySearch l r with
    | error i =>
      rw [insertSigMatch_of_error hr hi q hres]
      exact h.insertIdx hcycle hi q
    | ok i =>
      rw [insertSigMatch_of_ok hr hi]
      have hS : S r = true := (h.exists_ok_iff r).mp ⟨i, hi⟩
      obtain ⟨a, ha, har⟩ := (h.mem_iff r).mp hS
      refine ⟨h.sorted, fun r' => ?_⟩
      rw [Bool.or_eq_true, or_iff_left_of_imp, h.mem_iff]
      intro hrr'
      rw [h.mem_iff]
      exact ⟨a, ha, by rw [eq_congr_left har, hrr']⟩
  | remove r e =>
    simp only [RegistryOp.exchange] at hexch
    subst hexch
    simp only [RegistryOp.apply, RegistryOp.update]
    cases hi : binarySearch l r with
    | ok i =>
      rw [removeSigMatch_of_ok hi hres]
      exact h.eraseIdx hi
    | error i =>
      rw [removeSigMatch_of_error hi]
      refine ⟨h.sorted, fun r' => ?_⟩
      rw [Bool.and_eq_true, and_iff_left_of_imp, h.mem_iff]
      intro hr'
      rw [Bool.not_eq_true', Bool.eq_false_iff]
      intro hrr'
      obtain ⟨a, ha, har'⟩ := (h.mem_iff r').mp hr'
      have hS : S r = true := by
        rw [h.mem_iff]
        refine ⟨a, ha, ?_⟩
        rw [MatchRule.eq_iff] at har' hrr' ⊢
        exact har'.trans hrr'.symm
      rw [h.of_error hi] at hS
      cases hS

/-- **A sequence of calls**: the registry follows the set. -/
lemma Represents.run {ops : List (RegistryOp Q)} :
    ∀ {l : SigMatches Q} {S : MatchRule Q → Bool}, Represents l S →
      (∀ op ∈ ops, op.rule.Exclusive) → (∀ op ∈ ops, op.Answered) → NoCycles bodyText ops l →
      Represents (run bodyText ops l) (ops.foldl (fun S op => op.update S) S) := by
  induction ops with
  | nil =>
    intro l S h _ _ _
    exact h
  | cons op ops ih =>
    intro l S h hrule hans hcycle
    rw [List.forall_mem_cons] at hrule hans
    exact ih (h.apply hrule.1 hans.1 hcycle.1) hrule.2 hans.2 hcycle.2

/-- **The registry is a set of rules** as long as no rule is inserted that closes a cycle of
the ordering with two registered rules: it holds no rule twice, the search succeeds exactly for
the rules inserted and not removed since, and the three methods report accordingly.

**Proof sketch.** The registry stays sorted (`Represents.run`).  In a sorted registry the search
is exact (`Represents.exists_ok_iff`), and each method's report is decided by the search. -/
theorem run_set (bodyText : MarshalledMessageBody → Option Str) (ops : List (RegistryOp Q))
    (hrule : ∀ op ∈ ops, op.rule.Exclusive) (hans : ∀ op ∈ ops, op.Answered)
    (hcycle : NoCycles bodyText ops []) (r : MatchRule Q) (hr : r.Exclusive) (q : Q)
    (res : MarshalledMessage) (hres : res.typ = .reply) :
    (run bodyText ops []).Pairwise (fun a b => a.eq b = false) ∧
    ((∃ i, binarySearch (run bodyText ops []) r = .ok i) ↔ registered ops r = true) ∧
    ((insertSigMatch bodyText q (.answered res) (run bodyText ops []) r).1 =
      .err alreadyExists ↔ registered ops r = true) ∧
    ((removeSigMatch bodyText (.answered res) (run bodyText ops []) r).1 =
      .err doesntExist ↔ registered ops r = false) ∧
    (getSignalQueue (run bodyText ops []) r = .err unknownRule ↔ registered ops r = false) := by
  have h : Represents (run bodyText ops []) (registered ops) :=
    Represents.nil.run hrule hans hcycle
  refine ⟨h.pairwise_ne, h.exists_ok_iff r, ?_⟩
  cases hi : binarySearch (run bodyText ops []) r with
  | ok i =>
    have hreg : registered ops r = true := (h.exists_ok_iff r).mp ⟨i, hi⟩
    rw [insertSigMatch_of_ok hr hi, removeSigMatch_of_ok hi hres, getSignalQueue, hi, hreg]
    refine ⟨by simp, by simp, ?_⟩
    dsimp only
    split
    · simp
    · split <;> simp
  | error i =>
    have hreg : registered ops r = false := h.of_error hi
    rw [insertSigMatch_of_error hr hi q hres, removeSigMatch_of_error hi, getSignalQueue, hi,
      hreg]
    simp

/-! ### A cycle of the ordering -/

/-- A rule for a namespace and possibly an interface. -/
def namespaceRule (pathNamespace : String) (interface : Option String) : MatchRule ℕ :=
  ⟨none, none, some pathNamespace.toList, interface.map String.toList, none, none⟩

/-- The daemon's answer to a call that succeeds. -/
def emptyReply : MarshalledMessage where
  body := ⟨[], [], [], .littleEndian⟩
  dynheader := ⟨none, none, none, none, none, none, none, none, none, none⟩
  typ := .reply
  flags := 0

/-- Three insertions and a removal.  The rule for `/a/b` is less than the one for `/a`, which
it lies inside; that one is less than the rule for `/m`, by text; and that one is less than the
rule for `/a/b`, because it names an interface. -/
def cycleOps : List (RegistryOp ℕ) :=
  [.insert (namespaceRule "/a" (some "x.Y")) 0 (.answered emptyReply),
    .insert (namespaceRule "/m" (some "x.Y")) 1 (.answered emptyReply),
    .insert (namespaceRule "/a/b" none) 2 (.answered emptyReply),
    .remove (namespaceRule "/m" (some "x.Y")) (.answered emptyReply)]

/-- Two insertions that close no cycle, and the removal of the first rule: the second is found, and
the first cannot be removed again.

**Proof sketch.** The conditions on the three calls are decided one by one, and `run_set` is applied
to both rules. -/
theorem run_set_removed :
    let a := namespaceRule "/a" (some "x.Y")
    let m := namespaceRule "/m" (some "x.Y")
    let ops := cycleOps.take 2 ++ [.remove a (.answered emptyReply)]
    (∃ i, binarySearch (run (fun _ => none) ops []) m = .ok i) ∧
      (removeSigMatch (fun _ => none) (.answered emptyReply) (run (fun _ => none) ops []) a).1 =
        .err doesntExist := by
  intro a m ops
  have hops : ops = [.insert a 0 (.answered emptyReply), .insert m 1 (.answered emptyReply),
    .remove a (.answered emptyReply)] := rfl
  have hrule : ∀ op ∈ ops, op.rule.Exclusive := by
    intro op hop
    simp only [hops, List.mem_cons, List.not_mem_nil, or_false] at hop
    rcases hop with rfl | rfl | rfl <;> simp [MatchRule.Exclusive, RegistryOp.rule, a, m,
      namespaceRule]
  have hans : ∀ op ∈ ops, op.Answered := by
    intro op hop
    simp only [hops, List.mem_cons, List.not_mem_nil, or_false] at hop
    rcases hop with rfl | rfl | rfl <;> exact ⟨emptyReply, rfl, rfl⟩
  have hcycle : NoCycles (fun _ => none) ops [] := by
    refine ⟨?_, ?_, ?_, trivial⟩
    · unfold RegistryOp.ClosesCycle
      decide
    · unfold RegistryOp.ClosesCycle
      decide
    · unfold RegistryOp.ClosesCycle
      decide
  have hset := fun r hr => run_set (fun _ => none) ops hrule hans hcycle r hr 3 emptyReply rfl
  refine ⟨(hset m ?_).2.1.mpr (by decide), (hset a ?_).2.2.2.1.mpr (by decide)⟩
  · simp [MatchRule.Exclusive, m, namespaceRule]
  · simp [MatchRule.Exclusive, a, namespaceRule]

/-- **A rule is lost**: after these calls the rule for `/a` is registered and the search misses
it, so `remove_sig_match` and `get_signal` report an unknown rule, and inserting it again
succeeds and leaves the registry with two equal rules. -/
theorem run_loses_rule :
    registered cycleOps (namespaceRule "/a" (some "x.Y")) = true ∧
    (∀ op ∈ cycleOps, op.rule.Exclusive ∧ op.Answered) ∧
    binarySearch (run (fun _ => none) cycleOps []) (namespaceRule "/a" (some "x.Y")) =
      .error 2 ∧
    (removeSigMatch (fun _ => none) (.answered emptyReply) (run (fun _ => none) cycleOps [])
      (namespaceRule "/a" (some "x.Y"))).1 = .err doesntExist ∧
    getSignalQueue (run (fun _ => none) cycleOps []) (namespaceRule "/a" (some "x.Y")) =
      .err unknownRule ∧
    (insertSigMatch (fun _ => none) 3 (.answered emptyReply) (run (fun _ => none) cycleOps [])
      (namespaceRule "/a" (some "x.Y"))).1 = .ok () ∧
    ¬ (insertSigMatch (fun _ => none) 3 (.answered emptyReply) (run (fun _ => none) cycleOps [])
      (namespaceRule "/a" (some "x.Y"))).2.Pairwise (fun a b => a.eq b = false) := by
  refine ⟨by decide, ?_, by decide, by decide, by decide, by decide, by decide⟩
  intro op hop
  simp only [cycleOps, List.mem_cons, List.not_mem_nil, or_false] at hop
  rcases hop with rfl | rfl | rfl | rfl <;>
    exact ⟨by simp [MatchRule.Exclusive, RegistryOp.rule, namespaceRule], emptyReply, rfl, rfl⟩

/-! ## Who gets a signal -/

/-- Every rule has a queue, and no two rules have the same. -/
structure Queued (l : SigMatches Q) : Prop where
  isSome : ∀ r ∈ l, r.queue.isSome = true
  nodup : (l.map MatchRule.queue).Nodup

/-- A part of the registry keeps its queues. -/
lemma Queued.sublist {l l' : SigMatches Q} (h : Queued l) (hl : l'.Sublist l) : Queued l' :=
  ⟨fun r hr => h.isSome r (hl.subset hr), h.nodup.sublist (hl.map _)⟩

/-- Inserting a rule with a new queue. -/
private lemma Queued.insertIdx {l : SigMatches Q} (h : Queued l) {q : Q}
    (hq : ∀ r ∈ l, r.queue ≠ some q) (r : MatchRule Q) (i : ℕ) :
    Queued (l.insertIdx i { r with queue := some q }) := by
  by_cases hi : i ≤ l.length
  · have hperm := List.perm_insertIdx { r with queue := some q } l hi
    refine ⟨?_, ?_⟩
    · intro r' hr'
      rcases List.mem_cons.mp (hperm.mem_iff.mp hr') with rfl | hr'
      · rfl
      · exact h.isSome r' hr'
    · rw [(hperm.map MatchRule.queue).nodup_iff, List.map_cons, List.nodup_cons]
      refine ⟨?_, h.nodup⟩
      intro hmem
      obtain ⟨r', hr', hr'q⟩ := List.mem_map.mp hmem
      exact hq r' hr' hr'q
  · rwa [List.insertIdx_of_length_lt (Nat.lt_of_not_le hi)]

/-- `insert_sig_match` gives the rule a queue of its own, whatever the daemon answers.

**Proof sketch.** The rule is put in with its own queue (`insertIdx`). A refusal takes out a rule
again, which leaves the queues of the others; every other answer leaves the registry as it is then.
-/
lemma Queued.insertSigMatch {l : SigMatches Q} (h : Queued l) {q : Q}
    (hq : ∀ r ∈ l, r.queue ≠ some q) (e : Exchange) (r : MatchRule Q) :
    Queued (insertSigMatch bodyText q e l r).2 := by
  unfold SigMatches.insertSigMatch
  split_ifs
  · exact h
  · cases hi : binarySearch l r with
    | ok i => exact h
    | error i =>
      have hins := h.insertIdx hq r.clone i
      cases e with
      | sendFailed e => exact hins
      | awaitFailed e => exact hins
      | answered res =>
        dsimp only
        cases res.typ with
        | error =>
          dsimp only
          split
          · exact hins.sublist (List.eraseIdx_sublist _ _)
          · exact hins
        | reply => exact hins
        | signal => exact hins
        | call => exact hins
        | invalid => exact hins

/-- `remove_sig_match` leaves the other rules their queues. -/
lemma Queued.removeSigMatch {l : SigMatches Q} (h : Queued l) (e : Exchange)
    (r : MatchRule Q) : Queued (removeSigMatch bodyText e l r).2 := by
  refine h.sublist ?_
  unfold SigMatches.removeSigMatch
  cases binarySearch l r with
  | error i => exact List.Sublist.refl l
  | ok i =>
    have hsub := List.eraseIdx_sublist l i
    cases e with
    | sendFailed e => exact hsub
    | awaitFailed e => exact hsub
    | answered res =>
      dsimp only
      cases res.typ <;> exact hsub

/-- A signal is appended to the queue of a rule of the registry. -/
lemma exists_mem_of_queueSig {l : SigMatches Q} {m : MarshalledMessage} {q : Q}
    (h : queueSig l m = .ok (some q)) : ∃ r ∈ l, r.queue = some q := by
  induction l with
  | nil => simp [queueSig] at h
  | cons a l ih =>
    unfold queueSig at h
    split_ifs at h with ha
    · split at h
      · rename_i q' hq'
        cases h
        exact ⟨a, List.mem_cons_self, hq'⟩
      · cases h
    · obtain ⟨r, hr, hrq⟩ := ih h
      exact ⟨r, List.mem_cons_of_mem a hr, hrq⟩

/-- **The queue a signal is appended to** is that of the first rule that matches.

**Proof sketch.** Induction on the rules before `r`.  A rule before `r` that matches ends the
scan with its own queue, which is not `r`'s; when `r` itself does not match, the scan goes on to
rules whose queues are not `r`'s either. -/
lemma queueSig_eq_some_iff {before after : SigMatches Q} {r : MatchRule Q}
    (h : Queued (before ++ r :: after)) {q : Q} (hq : r.queue = some q) (m : MarshalledMessage) :
    queueSig (before ++ r :: after) m = .ok (some q) ↔
      r.matchesMsg m = true ∧ ∀ r' ∈ before, r'.matchesMsg m = false := by
  induction before with
  | nil =>
    by_cases hm : r.matchesMsg m = true
    · simp [queueSig, hm, hq]
    · have hother : queueSig after m ≠ .ok (some q) := by
        intro hafter
        obtain ⟨r', hr', hr'q⟩ := exists_mem_of_queueSig hafter
        have hnodup := h.nodup
        rw [List.nil_append, List.map_cons, List.nodup_cons, hq] at hnodup
        exact hnodup.1 (List.mem_map.mpr ⟨r', hr', hr'q⟩)
      simp [queueSig, hm, hother]
  | cons a before ih =>
    have htail := ih (h.sublist (List.sublist_cons_self a _))
    by_cases ha : a.matchesMsg m = true
    · have hne : a.queue ≠ some q := by
        have hnodup := h.nodup
        rw [List.cons_append, List.map_cons, List.nodup_cons] at hnodup
        intro haq
        exact hnodup.1 (List.mem_map.mpr ⟨r, by simp, by rw [hq, haq]⟩)
      have hscan : queueSig (a :: before ++ r :: after) m ≠ .ok (some q) := by
        simp only [List.cons_append, queueSig, ha, if_true]
        split
        · rename_i q' hq'
          intro heq
          cases heq
          exact hne hq'
        · simp
      rw [iff_false_left hscan]
      rintro ⟨-, hnone⟩
      rw [hnone a (by simp)] at ha
      cases ha
    · have hscan : queueSig (a :: before ++ r :: after) m = queueSig (before ++ r :: after) m := by
        simp [queueSig, ha]
      rw [hscan, htail]
      simp [ha]

/-- **Fast path and queue path**: `get_signal` of a registered rule takes a signal iff
`queue_sig` would append it to the queue of that rule, if and only if the rule does not match
the signal or no rule before it in the registry does. -/
theorem sigPred_iff_queueSig_iff {before after : SigMatches Q} {r : MatchRule Q}
    (h : Queued (before ++ r :: after)) {q : Q} (hq : r.queue = some q) (m : MarshalledMessage) :
    ((r.sigPred m = true ↔ queueSig (before ++ r :: after) m = .ok (some q)) ↔
      (r.matchesMsg m = false ∨ ∀ r' ∈ before, r'.matchesMsg m = false)) := by
  rw [queueSig_eq_some_iff h hq, MatchRule.sigPred]
  by_cases hr : r.matchesMsg m = true
  · simp [hr]
  · simp [hr]

/-- A rule for the interface `x.Y`, with its queue. -/
def interfaceRule (q : ℕ) : MatchRule ℕ := ⟨none, none, none, some "x.Y".toList, none, some q⟩

/-- The rule that matches every signal, with its queue. -/
def anyRule (q : ℕ) : MatchRule ℕ := { (MatchRule.empty : MatchRule ℕ) with queue := some q }

/-- A signal of the interface `x.Y`. -/
def interfaceSignal : MarshalledMessage where
  body := ⟨[], [], [], .littleEndian⟩
  dynheader := ⟨some "x.Y".toList, some "Z".toList, some "/a".toList, none, NonZeroU32.new 1,
    none, none, none, none, none⟩
  typ := .signal
  flags := 0

/-- The first rule of a registry with two rules agrees with the scan. -/
theorem sigPred_iff_queueSig_first :
    (interfaceRule 0).sigPred interfaceSignal = true ↔
      queueSig [interfaceRule 0, anyRule 1] interfaceSignal = .ok (some 0) := by
  have h : Queued ([] ++ interfaceRule 0 :: [anyRule 1]) := ⟨by decide, by decide⟩
  exact (sigPred_iff_queueSig_iff h rfl interfaceSignal).mpr (.inr (by simp))

/-- **The fast path takes another rule's signal**: both rules are registered and match the
signal; `queue_sig` appends it to the queue of the first, more specific one, and `get_signal` of
the second takes it. -/
theorem sigPred_takes_specific :
    run (fun _ => none) [.insert (anyRule 9) 1 (.answered emptyReply),
      .insert (interfaceRule 9) 0 (.answered emptyReply)] [] = [interfaceRule 0, anyRule 1] ∧
    Queued [interfaceRule 0, anyRule 1] ∧
    queueSig [interfaceRule 0, anyRule 1] interfaceSignal = .ok (some 0) ∧
    ¬ ((anyRule 1).sigPred interfaceSignal = true ↔
      queueSig [interfaceRule 0, anyRule 1] interfaceSignal = .ok (some 1)) :=
  ⟨by decide, ⟨by decide, by decide⟩, by decide, by decide⟩

end SigMatches

end AsyncRustbus
