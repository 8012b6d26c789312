import AsyncRustbus.Signals.Registry

set_option relaxedAutoImplicit false
set_option autoImplicit false

/-!
# Failed registrations (`lib.rs`)

`insert_sig_match` and `remove_sig_match` change the registry before they ask the daemon.  When
the exchange fails they return at once and the change stays; when the daemon answers with an
`Error`, only `insert_sig_match` takes its change back, by a second search for the rule.

## Main definitions

* `SigMatches.Atomic` — a call that returns an error leaves the registry as it was.
* `SigMatches.UndoFinds` — the second search finds the rule where the first one put it.
* `SigMatches.FailuresUndone` — the exchanges after which nothing is left to take back.

## Main results

* `SigMatches.undoFinds_of_sorted` — the second search succeeds in a sorted registry, if the rule
  closes no cycle of the ordering.
* `SigMatches.atomic_iff_failuresUndone` — when failed calls leave the registry as it was.
-/

namespace AsyncRustbus

namespace SigMatches

variable {Q : Type}

/-- A call of `insert_sig_match` or of `remove_sig_match` that returns an error leaves the
registry as it was. -/
def Atomic (bodyText : MarshalledMessageBody → Option Str) (queue : Q) (exchange : Exchange)
    (l : SigMatches Q) (r : MatchRule Q) : Prop :=
  (∀ e l', insertSigMatch bodyText queue exchange l r = (.err e, l') → l' = l) ∧
    ∀ e l', removeSigMatch bodyText exchange l r = (.err e, l') → l' = l

/-- The search for a rule finds it at `i` after it was inserted there with its queue. -/
def UndoFinds (queue : Q) (l : SigMatches Q) (r : MatchRule Q) (i : ℕ) : Prop :=
  binarySearch (l.insertIdx i { r.clone with queue := some queue }) r = .ok i

/-- The exchanges whose failure `insert_sig_match` takes back, for a rule that it inserts at `i`:
the daemon answers, and if it answers with an `Error` then the rule is found again. -/
def InsertUndone (queue : Q) (l : SigMatches Q) (r : MatchRule Q) (i : ℕ) : Exchange → Prop
  | .sendFailed _ => False
  | .awaitFailed _ => False
  | .answered res => res.typ = .error → UndoFinds queue l r i

/-- The exchanges after which `remove_sig_match` has nothing to take back: the daemon answers, and
not with an `Error`. -/
def RemoveSettled : Exchange → Prop
  | .sendFailed _ => False
  | .awaitFailed _ => False
  | .answered res => res.typ ≠ .error

/-- A rule that is not registered is inserted with an exchange whose failure is taken back, and
one that is registered is removed with an exchange that does not fail. -/
structure FailuresUndone (queue : Q) (exchange : Exchange) (l : SigMatches Q) (r : MatchRule Q) :
    Prop where
  insert : r.Exclusive → ∀ i, binarySearch l r = .error i → InsertUndone queue l r i exchange
  remove : ∀ i, binarySearch l r = .ok i → RemoveSettled exchange

/-! ## The undo -/

/-- An insertion changes the registry. -/
private lemma insertIdx_ne_self {l : SigMatches Q} {i : ℕ} (hi : i ≤ l.length)
    (r : MatchRule Q) : l.insertIdx i r ≠ l := by
  intro h
  have hlen := congrArg List.length h
  rw [List.length_insertIdx_of_le_length hi] at hlen
  omega

/-- A removal changes the registry. -/
private lemma eraseIdx_ne_self {l : SigMatches Q} {i : ℕ} (hi : i < l.length) :
    l.eraseIdx i ≠ l := by
  intro h
  have hlen := congrArg List.length h
  rw [List.length_eraseIdx_of_lt hi] at hlen
  omega

/-- Taking a rule out of the registry undoes the insertion of a new rule iff it is the new rule
that is taken out.

**Proof sketch.** Otherwise the new rule stays, and the registry did not hold it before. -/
private lemma eraseIdx_insertIdx_eq_iff {l : SigMatches Q} {i : ℕ} (hi : i ≤ l.length)
    {r : MatchRule Q} (hr : r ∉ l) (j : ℕ) : (l.insertIdx i r).eraseIdx j = l ↔ j = i := by
  constructor
  · intro h
    by_contra hne
    have hget : (l.insertIdx i r)[i]? = some r := by
      rw [List.getElem?_insertIdx_self, if_pos hi]
    have hmem : r ∈ (l.insertIdx i r).eraseIdx j :=
      List.mem_eraseIdx_iff_getElem?.mpr ⟨i, fun h => hne h.symm, hget⟩
    rw [h] at hmem
    exact hr hmem
  · rintro rfl
    exact List.eraseIdx_insertIdx_self r

/-- **In a sorted registry the undo finds the rule**, unless the rule closes a cycle of the
ordering. -/
theorem undoFinds_of_sorted {l : SigMatches Q} {r : MatchRule Q} {i : ℕ}
    (hs : BinarySearch.Sorted MatchRule.cmp l)
    (hr : ¬ BinarySearch.ClosesCycle MatchRule.cmp l r) (hi : binarySearch l r = .error i)
    (queue : Q) : UndoFinds queue l r i := by
  -- the ordering does not see the queue
  have hsearch : binarySearch l { r.clone with queue := some queue } = .error i := hi
  have hcycle : ¬ BinarySearch.ClosesCycle MatchRule.cmp l { r.clone with queue := some queue } :=
    hr
  exact hs.search_insertIdx MatchRule.cmp_congr hcycle hsearch

/-! ## The calls -/

/-- **Insertion**: a failed `insert_sig_match` leaves the registry as it was iff the rule was
registered, or the failure is an `Error` of the daemon and the second search finds the rule.

**Proof sketch.** The registry with the rule is longer than it was, so every exit that keeps it
fails; on an `Error` the rule at the index of the second search is taken out, and that undoes the
insertion iff it is the rule just inserted, because no rule had its queue before. -/
lemma insertSigMatch_atomic_iff (bodyText : MarshalledMessageBody → Option Str) (queue : Q)
    (exchange : Exchange) (l : SigMatches Q) (r : MatchRule Q)
    (hqueue : ∀ a ∈ l, a.queue ≠ some queue) :
    (∀ e l', insertSigMatch bodyText queue exchange l r = (.err e, l') → l' = l) ↔
      (r.Exclusive → ∀ i, binarySearch l r = .error i → InsertUndone queue l r i exchange) := by
  by_cases hr : r.Exclusive
  swap
  · have hboth := not_not.mp (mt r.exclusive_iff.mpr hr)
    unfold insertSigMatch
    simp [hboth, hr]
  cases hi : binarySearch l r with
  | ok i => simp [insertSigMatch_of_ok hr hi]
  | error i =>
    have hle : i ≤ l.length := BinarySearch.le_length_of_search hi
    have hnew : ({ r.clone with queue := some queue } : MatchRule Q) ∉ l :=
      fun h => hqueue _ h rfl
    simp only [hr, forall_const, Except.error.injEq, forall_eq']
    unfold insertSigMatch
    rw [if_neg (r.exclusive_iff.mp hr), hi]
    cases exchange with
    | sendFailed e => simp [InsertUndone, insertIdx_ne_self hle]
    | awaitFailed e => simp [InsertUndone, insertIdx_ne_self hle]
    | answered res =>
      cases htyp : res.typ with
      | error =>
        simp only [InsertUndone, UndoFinds, htyp, forall_const]
        cases hj : binarySearch (l.insertIdx i { r.clone with queue := some queue }) r with
        | ok j => simp [eraseIdx_insertIdx_eq_iff hle hnew]
        | error j => simp [insertIdx_ne_self hle]
      | reply => simp [InsertUndone, htyp]
      | _ => simp [InsertUndone, htyp]

/-- **Removal**: a failed `remove_sig_match` leaves the registry as it was iff the rule was not
registered; nothing is put back. -/
lemma removeSigMatch_atomic_iff (bodyText : MarshalledMessageBody → Option Str)
    (exchange : Exchange) (l : SigMatches Q) (r : MatchRule Q) :
    (∀ e l', removeSigMatch bodyText exchange l r = (.err e, l') → l' = l) ↔
      ∀ i, binarySearch l r = .ok i → RemoveSettled exchange := by
  cases hi : binarySearch l r with
  | error i => simp [removeSigMatch_of_error hi]
  | ok i =>
    obtain ⟨x, hx, -⟩ := BinarySearch.search_eq_ok hi
    obtain ⟨hil, -⟩ := List.getElem?_eq_some_iff.mp hx
    simp only [Except.ok.injEq, forall_eq']
    unfold removeSigMatch
    rw [hi]
    cases exchange with
    | sendFailed e => simp [RemoveSettled, eraseIdx_ne_self hil]
    | awaitFailed e => simp [RemoveSettled, eraseIdx_ne_self hil]
    | answered res =>
      cases htyp : res.typ with
      | error => simp [RemoveSettled, htyp, eraseIdx_ne_self hil]
      | _ => simp [RemoveSettled, htyp]

/-- **When failed calls leave the registry as it was.**  `MsgQueue::new` returns a queue that no
registered rule has. -/
theorem atomic_iff_failuresUndone (bodyText : MarshalledMessageBody → Option Str) (queue : Q)
    (exchange : Exchange) (l : SigMatches Q) (r : MatchRule Q)
    (hqueue : ∀ a ∈ l, a.queue ≠ some queue) :
    Atomic bodyText queue exchange l r ↔ FailuresUndone queue exchange l r := by
  unfold Atomic
  rw [insertSigMatch_atomic_iff bodyText queue exchange l r hqueue,
    removeSigMatch_atomic_iff bodyText exchange l r]
  exact ⟨fun h => ⟨h.1, h.2⟩, fun h => ⟨h.insert, h.remove⟩⟩

/-- An `Error` of the daemon with an empty body. -/
def emptyError : MarshalledMessage := { emptyReply with typ := .error }

/-- The daemon refuses a rule that goes before the one of the registry, and the rule is taken out
again. -/
theorem atomic_refused :
    Atomic (fun _ => none) 0 (.answered emptyError)
      [{ namespaceRule "/b" (some "x.Y") with queue := some 7 }] (namespaceRule "/b/c" none) := by
  have hsearch : binarySearch [{ namespaceRule "/b" (some "x.Y") with queue := some 7 }]
      (namespaceRule "/b/c" none) = .error 0 := by decide
  refine (atomic_iff_failuresUndone _ 0 _ _ _ (by simp)).mpr ⟨?_, ?_⟩
  · intro _ i hi _
    rw [hsearch] at hi
    cases hi
    rfl
  · intro i hi
    rw [hsearch] at hi
    cases hi

/-- **The send fails and the rule stays**: the first rule of a connection is registered although
the call returns an error, and a rule that is registered is lost although the call that removes
it returns an error. -/
theorem insertSigMatch_sendFailed_stays :
    ¬ Atomic (fun _ => none) 0 (.sendFailed ⟨.other, []⟩) [] (namespaceRule "/a" none) ∧
      ¬ Atomic (fun _ => none) 1 (.answered emptyError)
        [{ namespaceRule "/a" none with queue := some 0 }] (namespaceRule "/a" none) := by
  constructor
  · rintro ⟨h, -⟩
    have hkept := h _ _ rfl
    cases hkept
  · rintro ⟨-, h⟩
    have hkept := h _ _ rfl
    cases hkept

end SigMatches

end AsyncRustbus
