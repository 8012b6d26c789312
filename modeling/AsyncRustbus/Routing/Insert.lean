import AsyncRustbus.Routing.Hierarchy

set_option relaxedAutoImplicit false
set_option autoImplicit false

/-!
# What an insertion changes

Seen as a map from object paths to registered handlers, `insert_path` should rebind one path
and leave every other registration alone.  It does, except when a path without a node is set
to `Nothing` below a placeholder: the branch for a missing child returns `false` although the
placeholder still has children, and the parent then deletes the placeholder with everything
below it.

## Main definitions

* `CallHierarchy.PointUpdate` — the map after is the map before, rebound at one path.
* `CallHierarchy.StopsAtPlaceholder` — walking down a path, the last node there is is a
  placeholder below the root.

## Main results

* `CallHierarchy.insertInner_registeredAt` — the effect of `insert_inner` where it is a point
  update.
* `CallHierarchy.insertPath_pointUpdate_iff` — exactly when `insert_path` is a point update.
-/

namespace AsyncRustbus

namespace CallHierarchy

variable {Q : Type}

/-- A handler as the value of the map: `Nothing` is the absence of a binding. -/
def view (hd : CallHandler Q) : Option (CallHandler Q) := if hd.isNothing then none else some hd

/-- As maps from object paths to handlers (with their queues), `h'` is `h` rebound at `path`
to `hd`. -/
def PointUpdate (h h' : CallHierarchy Q) (path : ObjectPath) (hd : CallHandler Q) : Prop :=
  ∀ r : ObjectPath, h'.registered r = if r = path then view hd else h.registered r

/-- The way down along `cs` ends at a placeholder below the root: there is a node at a proper
prefix `pre`, it has the handler `Nothing`, and it has no child for the next component. -/
def StopsAtPlaceholder (cs : List Str) (h : CallHierarchy Q) : Prop :=
  ∃ pre c rest, pre ≠ [] ∧ cs = pre ++ c :: rest ∧ findInner pre h = some .nothing ∧
    nodeAt (pre ++ [c]) h = none

/-! ## The effect of an insertion -/

/-- Nothing is registered in a tree that is not alive. -/
lemma registeredAt_of_not_alive {h : CallHierarchy Q} (hdead : ¬h.Alive)
    (r : List Str) : registeredAt r h = none := by
  obtain ⟨children, hd⟩ := h
  simp only [Alive, handler_node, children_node, not_or, not_not] at hdead
  obtain ⟨rfl, rfl⟩ := hdead
  cases r <;> rfl

/-- Changing the child `c` of a node changes nothing at the paths that do not start with `c`. -/
lemma registeredAt_of_children {children children' : List (Str × CallHierarchy Q)}
    {hd : CallHandler Q} {c : Str} {r : List Str}
    (hother : ∀ d, d ≠ c → AssocMap.get children' d = AssocMap.get children d)
    (hr : ∀ r', r ≠ c :: r') :
    registeredAt r (node children' hd) = registeredAt r (node children hd) := by
  cases r with
  | nil => rw [registeredAt_nil, registeredAt_nil]; rfl
  | cons d r =>
    have hdc : d ≠ c := by
      rintro rfl
      exact hr r rfl
    rw [registeredAt_cons, registeredAt_cons, children_node, children_node, hother d hdc]

/-- What is registered after a child has been changed: the child's own registrations, or one that
was there before. -/
private lemma registeredAt_of_child {children children' : List (Str × CallHierarchy Q)}
    {hd x : CallHandler Q} {c : Str} {cs : List Str} {P : Prop}
    (hother : ∀ d, d ≠ c → AssocMap.get children' d = AssocMap.get children d)
    (hc : ∀ r, (AssocMap.get children' c).bind (registeredAt r) = some x →
      (r = cs ∧ P) ∨ (r ≠ cs ∧ (AssocMap.get children c).bind (registeredAt r) = some x))
    (r : List Str) (hreg : registeredAt r (node children' hd) = some x) :
    (r = c :: cs ∧ P) ∨ (r ≠ c :: cs ∧ registeredAt r (node children hd) = some x) := by
  by_cases hstart : ∃ r', r = c :: r'
  · obtain ⟨r, rfl⟩ := hstart
    rw [registeredAt_cons, children_node] at hreg ⊢
    simpa using hc r hreg
  · rw [not_exists] at hstart
    rw [registeredAt_of_children hother hstart] at hreg
    exact .inr ⟨hstart cs, hreg⟩

/-- **What is registered after an insertion** is the new handler at its path, or was registered at
another path before.

**Proof sketch.** Induction on the components.  A child that is kept or attached is the result of
the recursive call; one that is removed registers nothing; and nothing is registered in the fresh
placeholder that a missing child starts from. -/
lemma registeredAt_insertInner (action : CallAction) (q : Q) (cs : List Str) :
    ∀ (h : CallHierarchy Q) (r : List Str) (x : CallHandler Q),
      registeredAt r (insertInner action q cs h).2 = some x →
        (r = cs ∧ view (CallHandler.ofAction q action) = some x) ∨
          (r ≠ cs ∧ registeredAt r h = some x) := by
  induction cs with
  | nil =>
    rintro ⟨children, hd⟩ r x hreg
    cases r with
    | nil =>
      rw [registeredAt_nil] at hreg
      exact .inl ⟨rfl, hreg⟩
    | cons d r =>
      right
      refine ⟨by simp, ?_⟩
      simpa [registeredAt_cons, insertInner] using hreg
  | cons c cs ih =>
    rintro ⟨children, hd⟩ r x hreg
    cases hget : AssocMap.get children c with
    | some entry =>
      rcases hins : insertInner action q cs entry with ⟨_ | _, entry'⟩
      · -- the child is removed
        simp only [insertInner, hget, hins] at hreg
        refine registeredAt_of_child (fun d hd' => by simp [hd']) (fun s hs => ?_) r hreg
        simp at hs
      · simp only [insertInner, hget, hins] at hreg
        refine registeredAt_of_child (fun d hd' => by simp [hd']) (fun s hs => ?_) r hreg
        have hsub := ih entry s x
        rw [hins] at hsub
        rw [AssocMap.get_insert, if_pos rfl, Option.bind_some] at hs
        simpa [hget] using hsub hs
    | none =>
      rcases hins : insertInner action q cs (node [] .nothing) with ⟨_ | _, hier⟩
      · -- the placeholder is dropped
        simp only [insertInner, hget, hins] at hreg
        refine registeredAt_of_child (fun d _ => rfl) (fun s hs => ?_) r hreg
        simp [hget] at hs
      · simp only [insertInner, hget, hins] at hreg
        refine registeredAt_of_child (fun d hd' => by simp [hd']) (fun s hs => ?_) r hreg
        have hsub := ih (node [] .nothing) s x
        have hleaf : registeredAt s (node [] (.nothing : CallHandler Q)) = none :=
          registeredAt_of_not_alive (by simp [Alive]) s
        rw [hins, hleaf] at hsub
        rw [AssocMap.get_insert, if_pos rfl, Option.bind_some] at hs
        exact .inl ((hsub hs).resolve_right fun hnone => by cases hnone.2)

/-- Changing the child `c` of a node so that its tree is rebound at `cs` rebinds the node at
`c :: cs`. -/
private lemma registeredAt_rebind {children children' : List (Str × CallHierarchy Q)}
    {hd : CallHandler Q} {c : Str} {cs : List Str} {v : Option (CallHandler Q)}
    (hother : ∀ d, d ≠ c → AssocMap.get children' d = AssocMap.get children d)
    (hc : ∀ r, (AssocMap.get children' c).bind (registeredAt r) =
      if r = cs then v else (AssocMap.get children c).bind (registeredAt r)) (r : List Str) :
    registeredAt r (node children' hd) =
      if r = c :: cs then v else registeredAt r (node children hd) := by
  by_cases hstart : ∃ r', r = c :: r'
  · obtain ⟨r, rfl⟩ := hstart
    rw [registeredAt_cons, registeredAt_cons, children_node, children_node, hc r]
    simp
  · rw [not_exists] at hstart
    rw [if_neg (hstart cs), registeredAt_of_children hother hstart]

/-- A placeholder leaf has no node below it. -/
private lemma not_stopsAtPlaceholder_leaf (cs : List Str) :
    ¬StopsAtPlaceholder cs (node [] (.nothing : CallHandler Q)) := by
  rintro ⟨pre, c, rest, hne, -, hfind, -⟩
  obtain ⟨d, pre', rfl⟩ := List.exists_cons_of_ne_nil hne
  simp [findInner] at hfind

/-- **The effect of `insert_inner`** when the way down does not stop at a placeholder or the
action is not `Nothing`: it rebinds the path, and it returns `false` only for a dead node or
for a placeholder without the first component.

**Proof sketch.** Induction on the components.  If the child exists, the second part of the
induction hypothesis says that it is removed only when it is dead (the other case would be a
way down that stops at this child), and nothing is registered in a dead tree.  If it does not
exist, the recursive call works on a fresh placeholder, which is attached only when it holds
the new handler. -/
theorem insertInner_registeredAt (action : CallAction) (q : Q) (cs : List Str) :
    ∀ h : CallHierarchy Q, ¬(action = .nothing ∧ StopsAtPlaceholder cs h) →
      (∀ r, registeredAt r (insertInner action q cs h).2 =
        if r = cs then view (CallHandler.ofAction q action) else registeredAt r h) ∧
      ((insertInner action q cs h).1 = false → ¬(insertInner action q cs h).2.Alive ∨
        action = .nothing ∧ ∃ c rest, cs = c :: rest ∧ h.handler = .nothing ∧
          AssocMap.get h.children c = none) := by
  induction cs with
  | nil =>
    rintro ⟨children, hd⟩ -
    refine ⟨fun r => ?_, fun hres => Or.inl ?_⟩
    · cases r with
      | nil => rw [registeredAt_nil]; rfl
      | cons c r => simp [registeredAt_cons, insertInner]
    · by_cases hn : CallHandler.ofAction q action = .nothing
      · simpa [insertInner, hn, CallHandler.isNothing, Alive] using hres
      · have hsome : (CallHandler.ofAction q action).isNothing = false := by
          rw [← Bool.not_eq_true, CallHandler.isNothing_iff]
          exact hn
        simp [insertInner, hsome] at hres
  | cons c cs ih =>
    rintro ⟨children, hd⟩ hgood
    cases hget : AssocMap.get children c with
    | some entry =>
      have hsub : ¬(action = .nothing ∧ StopsAtPlaceholder cs entry) := by
        rintro ⟨ha, pre, d, rest, hne, rfl, hfind, hnone⟩
        refine hgood ⟨ha, c :: pre, d, rest, by simp, rfl, ?_, ?_⟩
        · simpa [findInner, hget] using hfind
        · simpa [hget] using hnone
      obtain ⟨hreg, hfalse⟩ := ih entry hsub
      rcases hins : insertInner action q cs entry with ⟨_ | _, entry'⟩
      · rw [hins] at hreg hfalse
        have hdead : ¬entry'.Alive := by
          rcases hfalse rfl with hdead | ⟨ha, d, rest, rfl, hnothing, hnone⟩
          · exact hdead
          · refine absurd ⟨ha, [c], d, rest, by simp, rfl, ?_, ?_⟩ hgood
            · obtain ⟨echildren, ehd⟩ := entry
              obtain rfl : ehd = .nothing := hnothing
              simp [findInner, hget]
            · simp [hget, hnone]
        refine ⟨?_, fun hres => Or.inl ?_⟩
        · simp only [insertInner, hget, hins]
          refine registeredAt_rebind (fun d hd' => by simp [hd']) fun r => ?_
          have := hreg r
          rw [registeredAt_of_not_alive hdead] at this
          simpa [hget] using this
        · simpa [insertInner, hget, hins, Alive, and_comm] using hres
      · rw [hins] at hreg
        refine ⟨?_, fun hres => ?_⟩
        · simp only [insertInner, hget, hins]
          exact registeredAt_rebind (fun d hd' => by simp [hd']) fun r => by
            simpa [hget] using hreg r
        · simp [insertInner, hget, hins] at hres
    | none =>
      obtain ⟨hreg, hfalse⟩ := ih (node [] .nothing) fun h => not_stopsAtPlaceholder_leaf cs h.2
      have hleaf : ∀ r, registeredAt r (node [] (.nothing : CallHandler Q)) = none :=
        registeredAt_of_not_alive (by simp [Alive])
      rcases hins : insertInner action q cs (node [] .nothing) with ⟨_ | _, hier⟩
      · rw [hins] at hreg hfalse
        have haction : action = .nothing := by
          rcases hfalse rfl with hdead | ⟨ha, -⟩
          · have := hreg cs
            rw [registeredAt_of_not_alive hdead, if_pos rfl] at this
            by_contra hne
            have hsome : (CallHandler.ofAction q action).isNothing = false := by
              rw [← Bool.not_eq_true, CallHandler.isNothing_iff, CallHandler.ofAction_eq_nothing]
              exact hne
            simp [view, hsome] at this
          · exact ha
        refine ⟨fun r => ?_, fun hres => Or.inr ⟨haction, c, cs, rfl, ?_, hget⟩⟩
        · simp only [insertInner, hget, hins]
          split_ifs with hr
          · subst hr
            simp [registeredAt_cons, hget, view, haction, CallHandler.ofAction,
              CallHandler.isNothing]
          · rfl
        · simpa [insertInner, hget, hins] using hres
      · rw [hins] at hreg
        refine ⟨?_, fun hres => ?_⟩
        · simp only [insertInner, hget, hins]
          exact registeredAt_rebind (fun d hd' => by simp [hd']) fun r => by
            simpa [hget, hleaf] using hreg r
        · simp [insertInner, hget, hins] at hres

/-! ## The subtree that is lost -/

/-- Setting a path below a placeholder leaf to `Nothing` reports that the leaf is dead. -/
private lemma insertInner_nothing_leaf (q : Q) (cs : List Str) :
    (insertInner .nothing q cs (node [] .nothing)).1 = false := by
  induction cs with
  | nil => rfl
  | cons c cs ih =>
    rcases hins : insertInner .nothing q cs (node [] .nothing) with ⟨b, hier⟩
    rw [hins] at ih
    obtain rfl : b = false := ih
    simp [insertInner, hins, CallHandler.isNothing]

/-- Setting a path to `Nothing` whose way down stops at a placeholder: for the placeholder
itself the call returns `false`, and in the tree above it the placeholder is gone.

**Proof sketch.** Induction on the path of the placeholder.  Its parent receives `false` and
removes it; further up, the node on the way is either kept with the placeholder already gone
or removed as well. -/
private lemma insertInner_nothing_drops (q : Q) (c : Str) (rest : List Str) (pre : List Str) :
    ∀ h : CallHierarchy Q, findInner pre h = some .nothing → nodeAt (pre ++ [c]) h = none →
      (pre = [] → (insertInner .nothing q (pre ++ c :: rest) h).1 = false) ∧
      (pre ≠ [] → nodeAt pre (insertInner .nothing q (pre ++ c :: rest) h).2 = none) := by
  induction pre with
  | nil =>
    rintro ⟨children, hd⟩ hfind hnone
    obtain rfl : hd = .nothing := by simpa [findInner] using hfind
    have hget : AssocMap.get children c = none := by
      cases hc : AssocMap.get children c with
      | none => rfl
      | some n => simp [hc] at hnone
    refine ⟨fun _ => ?_, fun hne => absurd rfl hne⟩
    rcases hins : insertInner .nothing q rest (node [] .nothing) with ⟨b, hier⟩
    have hb := insertInner_nothing_leaf q rest
    rw [hins] at hb
    obtain rfl : b = false := hb
    simp [insertInner, hget, hins, CallHandler.isNothing]
  | cons d pre ih =>
    rintro ⟨children, hd⟩ hfind hnone
    refine ⟨fun hne => absurd hne (by simp), fun _ => ?_⟩
    cases hget : AssocMap.get children d with
    | none => simp [findInner, hget] at hfind
    | some entry =>
      obtain ⟨hroot, hbelow⟩ := ih entry (by simpa [findInner, hget] using hfind)
        (by simpa [hget] using hnone)
      rcases hins : insertInner .nothing q (pre ++ c :: rest) entry with ⟨b, entry'⟩
      rw [hins] at hroot hbelow
      cases b with
      | false => simp [insertInner, hget, hins]
      | true =>
        have hpre : pre ≠ [] := fun h => absurd (hroot h) (by simp)
        simpa [insertInner, hget, hins] using hbelow hpre

/-- **Exactly when `insert_path` is a point update** of the map from object paths to handlers
(with their queues): always, except when a path is set to `Nothing` that has no node and whose
nearest existing ancestor is a placeholder below the root.

**Proof sketch.** Outside the exception this is `insertInner_registeredAt`.  In the exception
the placeholder is removed with its subtree (`insertInner_nothing_drops`); it was alive, so
something was registered below it (`exists_registered`), at a path other than the one set. -/
theorem insertPath_pointUpdate_iff (h : CallHierarchy Q) (hr : h.Reachable) (path : ObjectPath)
    (action : CallAction) (q : Q) :
    PointUpdate h (h.insertPath path action q) path (CallHandler.ofAction q action) ↔
      ¬(action = .nothing ∧ StopsAtPlaceholder path.components h) := by
  constructor
  · rintro hupd ⟨rfl, pre, c, rest, hne, hcs, hfind, hnone⟩
    obtain ⟨n, hn⟩ : ∃ n, nodeAt pre h = some n := by
      rw [findInner_eq] at hfind
      obtain ⟨n, hn, -⟩ := Option.map_eq_some_iff.mp hfind
      exact ⟨n, hn⟩
    obtain ⟨halive, hseg⟩ := hr.wellFormed pre n hne hn
    obtain ⟨cs, hcs', hreg⟩ := exists_registered n (hr.wellFormed.nodeAt hn) halive
    -- the registration that is lost
    let r := ObjectPath.ofSegments (pre ++ cs) fun w hw =>
      (List.mem_append.mp hw).elim (hseg w) (hcs' w)
    have hbefore : h.registered r ≠ none := by
      have : h.registered r = registeredAt cs n := by
        simp [registered, r, registeredAt, findInner_eq, nodeAt_append, hn]
      rwa [this]
    have hgone : nodeAt pre (h.insertPath path .nothing q) = none := by
      rw [insertPath, hcs]
      exact (insertInner_nothing_drops q c rest pre h hfind hnone).2 hne
    have hafter : (h.insertPath path .nothing q).registered r = none := by
      simp [registered, r, registeredAt, findInner_eq, nodeAt_append, hgone]
    have hother : r ≠ path := by
      intro heq
      apply hbefore
      have : h.registered path = none := by
        have hsplit : path.components = (pre ++ [c]) ++ rest := by simp [hcs]
        rw [registered, registeredAt, findInner_eq, hsplit, nodeAt_append, hnone]
        rfl
      rw [heq, this]
    have := hupd r
    rw [hafter, if_neg hother] at this
    exact hbefore this.symm
  · intro hgood r
    have hreg := (insertInner_registeredAt action q path.components h hgood).1 r.components
    rw [registered, insertPath, hreg]
    by_cases hrp : r = path
    · simp [hrp]
    · rw [if_neg hrp, if_neg fun hcomp => hrp (ObjectPath.components_injective hcomp)]
      rfl

/-- Unregistering `/a/c` beside `/a/b`: the sibling keeps its queue. -/
theorem insertPath_pointUpdate_unregister :
    let ab : ObjectPath := ⟨"/a/b".toList, by decide⟩
    let ac : ObjectPath := ⟨"/a/c".toList, by decide⟩
    let h : CallHierarchy ℕ := (new.insertPath ab .queue 0).insertPath ac .exact 1
    h.Reachable ∧ h.registered ac = some (.exact 1) ∧
      PointUpdate h (h.insertPath ac .nothing 2) ac (CallHandler.ofAction 2 .nothing) ∧
      (h.insertPath ac .nothing 2).registered ab = some (.queue 0) := by
  intro ab ac h
  have hr : h.Reachable := .insert _ _ _ (.insert _ _ _ .new)
  refine ⟨hr, by decide, (insertPath_pointUpdate_iff h hr ac .nothing 2).mpr ?_, by decide⟩
  -- the path has a node
  rintro ⟨-, pre, c, rest, hne, hcs, -, hnone⟩
  obtain ⟨d, pre, rfl⟩ := List.exists_cons_of_ne_nil hne
  rw [show ac.components = [['a'], ['c']] by decide, List.cons_append, List.cons.injEq] at hcs
  obtain ⟨rfl, hcs⟩ := hcs
  cases pre with
  | nil =>
    obtain ⟨rfl, -⟩ := List.cons.inj hcs
    exact absurd hnone (by decide)
  | cons e pre => simp at hcs

/-- Setting the unregistered `/a/c` to `Nothing` when only `/a/b` is registered unregisters
`/a/b`, with its queue. -/
theorem insertPath_drops_sibling :
    let ab : ObjectPath := ⟨"/a/b".toList, by decide⟩
    let ac : ObjectPath := ⟨"/a/c".toList, by decide⟩
    let h : CallHierarchy ℕ := new.insertPath ab .queue 0
    h.Reachable ∧ h.registered ab = some (.queue 0) ∧ ac ≠ ab ∧
      (h.insertPath ac .nothing 1).registered ab = none ∧
      ¬PointUpdate h (h.insertPath ac .nothing 1) ac (CallHandler.ofAction 1 .nothing) := by
  intro ab ac h
  have hlost : (h.insertPath ac .nothing 1).registered ab = none := by decide
  have hbefore : h.registered ab = some (.queue 0) := by decide
  have hne : ac ≠ ab := by decide
  refine ⟨.insert _ _ _ .new, hbefore, hne, hlost, fun hupd => ?_⟩
  have := hupd ab
  rw [hlost, if_neg hne.symm, hbefore] at this
  cases this

end CallHierarchy

end AsyncRustbus
