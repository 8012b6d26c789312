import AsyncRustbus.Routing.Insert

set_option relaxedAutoImplicit false
set_option autoImplicit false

/-!
# Trimming

A hierarchy keeps no trace of what has been unregistered: every node below the root has a handler
or a child, and when the last call for every path has set it to `Nothing`, no child is left.  The
first fact is an invariant of the tree alone.  The second needs the history of the calls: a
handler in the tree is one that some call has put there and no later call has taken away.

## Main definitions

* `CallHierarchy.InsertCall` — a call of `insert_path`.
* `CallHierarchy.insertAll` — the hierarchy after a sequence of calls.
* `CallHierarchy.lastAction` — the last action set for a path.
* `CallHierarchy.Trimmed` — no dead placeholder at any depth.

## Main results

* `CallHierarchy.insertInner_registered` — an insertion registers nothing but its path.
* `CallHierarchy.lastAction_of_registered` — what is registered was registered last.
* `CallHierarchy.insertAll_trimmed` — no dead placeholders, and nothing left at the end.
-/

namespace AsyncRustbus

namespace CallHierarchy

variable {Q : Type}

/-- A call of `insert_path`, with the queue that `MsgQueue::new` would return. -/
structure InsertCall (Q : Type) where
  path : ObjectPath
  action : CallAction
  queue : Q

/-- The hierarchy after the calls, the newest one first. -/
def insertAll : List (InsertCall Q) → CallHierarchy Q
  | [] => new
  | call :: calls => (insertAll calls).insertPath call.path call.action call.queue

/-- The action of the newest call for a path. -/
def lastAction (calls : List (InsertCall Q)) (path : ObjectPath) : Option CallAction :=
  (calls.find? fun call => call.path = path).map InsertCall.action

/-- Every node below the root has a handler or a child. -/
def Trimmed (h : CallHierarchy Q) : Prop :=
  ∀ cs n, cs ≠ [] → nodeAt cs h = some n → n.handler ≠ .nothing ∨ n.children ≠ []

/-- The hierarchies after sequences of calls are the reachable ones. -/
lemma insertAll_reachable (calls : List (InsertCall Q)) : (insertAll calls).Reachable := by
  induction calls with
  | nil => exact .new
  | cons call calls ih => exact .insert call.path call.action call.queue ih

/-! ## What an insertion registers -/

/-- **An insertion registers nothing but its path**, and that only with an action other than
`Nothing`; the path itself does not keep its old handler. -/
theorem insertInner_registered (action : CallAction) (q : Q) (cs : List Str)
    (h : CallHierarchy Q) (r : List Str)
    (hreg : registeredAt r (insertInner action q cs h).2 ≠ none) :
    (r = cs ∧ action ≠ .nothing) ∨ (r ≠ cs ∧ registeredAt r h ≠ none) := by
  obtain ⟨hd, hsome⟩ := Option.ne_none_iff_exists'.mp hreg
  rcases registeredAt_insertInner action q cs h r hd hsome with ⟨hr, hview⟩ | ⟨hr, hold⟩
  · refine .inl ⟨hr, ?_⟩
    rintro rfl
    cases hview
  · exact .inr ⟨hr, by simp [hold]⟩

/-- **What is registered was registered last**: below the root, the last call for a path with a
handler did not set it to `Nothing`.

**Proof sketch.** Induction on the calls, by `insertInner_registered`: the newest call is for this
path, or the handler was there before it. -/
theorem lastAction_of_registered (calls : List (InsertCall Q)) (path : ObjectPath)
    (hroot : path.components ≠ []) (hreg : (insertAll calls).registered path ≠ none) :
    ∃ action, lastAction calls path = some action ∧ action ≠ .nothing := by
  induction calls with
  | nil =>
    obtain ⟨c, cs, hcs⟩ := List.exists_cons_of_ne_nil hroot
    rw [registered, hcs, registeredAt_cons] at hreg
    exact absurd rfl hreg
  | cons call calls ih =>
    rcases insertInner_registered call.action call.queue call.path.components _ _ hreg with
      ⟨hpath, haction⟩ | ⟨hpath, hbefore⟩
    · have heq := ObjectPath.components_injective hpath
      exact ⟨call.action, by simp [lastAction, heq], haction⟩
    · have hne : call.path ≠ path := fun heq => hpath (by rw [heq])
      obtain ⟨action, hlast, haction⟩ := ih hbefore
      refine ⟨action, ?_, haction⟩
      rw [← hlast]
      simp [lastAction, hne]

/-! ## What is left -/

/-- Below a child of a reachable hierarchy something is registered. -/
lemma Reachable.exists_registered_of_children {h : CallHierarchy Q} (hr : h.Reachable)
    (hne : h.children ≠ []) :
    ∃ path : ObjectPath, path.components ≠ [] ∧ h.registered path ≠ none := by
  obtain ⟨c, n, hc⟩ := AssocMap.exists_get_of_ne_nil hne
  obtain ⟨hseg, halive, hwf⟩ := (wellFormed_iff h).mp hr.wellFormed c n hc
  obtain ⟨cs, hcs, hreg⟩ := exists_registered n hwf halive
  have hsegs : ∀ w ∈ c :: cs, IsSegment w := by
    intro w hw
    rcases List.mem_cons.mp hw with rfl | hw
    · exact hseg
    · exact hcs w hw
  refine ⟨.ofSegments (c :: cs) hsegs, by simp, ?_⟩
  rw [registered, ObjectPath.components_ofSegments, registeredAt_cons, hc]
  exact hreg

/-- **No dead placeholders.**  After any sequence of calls every node below the root has a handler
or a child, at every depth; and when the last call for every path below the root has set it to
`Nothing`, the root has no children. -/
theorem insertAll_trimmed (calls : List (InsertCall Q)) :
    (insertAll calls).Trimmed ∧
      ((∀ call ∈ calls, call.path.components ≠ [] →
          lastAction calls call.path = some .nothing) →
        (insertAll calls).children = []) := by
  have hr := insertAll_reachable calls
  refine ⟨fun cs n hne hn => (hr.wellFormed cs n hne hn).1, fun hall => ?_⟩
  by_contra hne
  obtain ⟨path, hroot, hreg⟩ := hr.exists_registered_of_children hne
  obtain ⟨action, hlast, haction⟩ := lastAction_of_registered calls path hroot hreg
  obtain ⟨call, hfind, -⟩ := Option.map_eq_some_iff.mp hlast
  obtain rfl : call.path = path := by simpa using List.find?_some hfind
  have hnothing := hall call (List.mem_of_find?_eq_some hfind) hroot
  rw [hlast, Option.some.injEq] at hnothing
  exact haction hnothing

/-- Registering two nested paths and unregistering them, the deeper one last. -/
theorem insertAll_trimmed_nested :
    let bin : ObjectPath := ⟨"/usr/bin".toList, by decide⟩
    let find : ObjectPath := ⟨"/usr/bin/hello/find".toList, by decide⟩
    let calls : List (InsertCall ℕ) :=
      [⟨find, .nothing, 3⟩, ⟨bin, .nothing, 2⟩, ⟨find, .queue, 1⟩, ⟨bin, .queue, 0⟩]
    (insertAll calls).Trimmed ∧ (insertAll calls).children = [] := by
  intro bin find calls
  obtain ⟨htrimmed, hempty⟩ := insertAll_trimmed calls
  have hne : bin ≠ find := by decide
  refine ⟨htrimmed, hempty fun call hcall _ => ?_⟩
  have hpath : call.path = bin ∨ call.path = find := by
    simp only [calls, List.mem_cons, List.not_mem_nil, or_false] at hcall
    rcases hcall with rfl | rfl | rfl | rfl <;> simp
  rcases hpath with hpath | hpath
  · rw [hpath]
    simp [calls, lastAction, hne.symm]
  · rw [hpath]
    simp [calls, lastAction]

end CallHierarchy

end AsyncRustbus
