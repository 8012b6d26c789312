import AsyncRustbus.Path
import AsyncRustbus.Lib.AssocMap

set_option relaxedAutoImplicit false
set_option autoImplicit false

/-!
# The call hierarchy (`routing.rs`)

Incoming calls are sorted into a tree of handlers that follows the components of their object
path.  A node without a handler of its own (`Nothing`) is a placeholder on the way to its
children.  The tree is generic in the type `Q` of queues: a `MsgQueue` is a pair of channel
ends, so what a handler holds is the identity of a channel, and `MsgQueue::new` is an
argument of the functions that call it.

## Main definitions

* `AsyncRustbus.CallHandler`, `AsyncRustbus.CallAction`, `AsyncRustbus.CallHierarchy`,
  `AsyncRustbus.Status` — the types of `routing.rs`.
* `CallHierarchy.sendInner`, `insertInner`, `insertPath`, `findInner`, `getQueue`,
  `isMatchInner`, `isMatch` — its functions.
* `CallHierarchy.nodeAt` — the node at a list of components.
* `CallHierarchy.Reachable` — the trees `insert_path` builds from `CallHierarchy::new`.

## Main results

* `CallHierarchy.Reachable.wellFormed` — in a reachable tree every node below the root has a
  handler or a child, and every edge is a valid path element.
* `CallHierarchy.exists_registered` — below such a node something is registered.
-/

namespace AsyncRustbus

/-- `CallAction`: what to do with incoming calls for a path. -/
inductive CallAction
  | drop
  | queue
  | exact
  | intro
  | nothing
  deriving DecidableEq, Repr

/-- `CallHandler`: a `CallAction` with its queue. -/
inductive CallHandler (Q : Type)
  | queue (q : Q)
  | exact (q : Q)
  | intro
  | nothing
  | drop
  deriving DecidableEq

namespace CallHandler

variable {Q : Type}

/-- `CallHandler::is_nothing`. -/
def isNothing : CallHandler Q → Bool
  | .nothing => true
  | _ => false

/-- `CallHandler::get_queue`. -/
def getQueue : CallHandler Q → Option Q
  | .queue q => some q
  | .exact q => some q
  | _ => none

/-- `From<CallAction> for CallHandler`, with the queue that `MsgQueue::new` returns. -/
def ofAction (q : Q) : CallAction → CallHandler Q
  | .queue => .queue q
  | .exact => .exact q
  | .drop => .drop
  | .nothing => .nothing
  | .intro => .intro

/-- `From<&CallHandler> for CallAction`. -/
def toAction : CallHandler Q → CallAction
  | .exact _ => .exact
  | .queue _ => .queue
  | .drop => .drop
  | .nothing => .nothing
  | .intro => .intro

/-- Only `Nothing` is nothing. -/
@[simp] lemma isNothing_iff (hd : CallHandler Q) : hd.isNothing = true ↔ hd = .nothing := by
  cases hd <;> simp [isNothing]

/-- A handler is made from `Nothing` only by the action `Nothing`. -/
@[simp] lemma ofAction_eq_nothing (q : Q) (a : CallAction) :
    ofAction q a = .nothing ↔ a = .nothing := by
  cases a <;> simp [ofAction]

/-- Reading a handler back as an action gives the action it was made from. -/
@[simp] lemma toAction_ofAction (q : Q) (a : CallAction) : (ofAction q a).toAction = a := by
  cases a <;> rfl

end CallHandler

/-- `CallHierarchy`: a node with its children and its handler. -/
inductive CallHierarchy (Q : Type)
  | node (children : List (Str × CallHierarchy Q)) (handler : CallHandler Q)

/-- `Status`: the outcome of routing a call.  The two iterators over children are the lists of
children they range over. -/
inductive Status (Q : Type)
  | queue (q : Q)
  | intro (keys : List (Str × CallHierarchy Q))
  | dropped
  | unhandled (keys : List (Str × CallHierarchy Q))

namespace CallHierarchy

variable {Q : Type}

/-- The field `children`. -/
def children : CallHierarchy Q → List (Str × CallHierarchy Q)
  | node c _ => c

/-- The field `handler`. -/
def handler : CallHierarchy Q → CallHandler Q
  | node _ hd => hd

/-- The children of a node. -/
@[simp] lemma children_node (c : List (Str × CallHierarchy Q)) (hd : CallHandler Q) :
    (node c hd).children = c := rfl

/-- The handler of a node. -/
@[simp] lemma handler_node (c : List (Str × CallHierarchy Q)) (hd : CallHandler Q) :
    (node c hd).handler = hd := rfl

/-- `CallHierarchy::new`. -/
def new : CallHierarchy Q := node [] .drop

/-- `CallHierarchy::send_inner`. -/
def sendInner : List Str → CallHierarchy Q → Status Q
  | child :: tarComps, node children handler =>
    match AssocMap.get children child with
    | some child =>
      match sendInner tarComps child with
      | .unhandled keys =>
        match handler with
        | .nothing => .unhandled keys
        | .queue q => .queue q
        | .intro => .intro keys
        | .exact _ => .dropped
        | .drop => .dropped
      | handled => handled
    | none =>
      match handler with
      | .queue q => .queue q
      | .nothing => .unhandled []
      | .intro => .dropped
      | .exact _ => .dropped
      | .drop => .dropped
  | [], node children handler =>
    match handler with
    | .queue q => .queue q
    | .exact q => .queue q
    | .nothing => .unhandled children
    | .drop => .dropped
    | .intro => .intro children

/-- `CallHierarchy::insert_inner`, with the queue `q` that `MsgQueue::new` would return: the
Boolean result and the node as the call leaves it. -/
def insertInner (action : CallAction) (q : Q) :
    List Str → CallHierarchy Q → Bool × CallHierarchy Q
  | child :: tarComps, node children handler =>
    match AssocMap.get children child with
    | some entry =>
      match insertInner action q tarComps entry with
      | (true, entry) => (true, node (AssocMap.insert children child entry) handler)
      | (false, _) =>
        (!((AssocMap.remove children child).isEmpty && handler.isNothing),
          node (AssocMap.remove children child) handler)
    | none =>
      match insertInner action q tarComps (node [] .nothing) with
      | (true, hierarchy) => (true, node (AssocMap.insert children child hierarchy) handler)
      | (false, _) => (!handler.isNothing, node children handler)
  | [], node children _ =>
    (if (CallHandler.ofAction q action).isNothing then !children.isEmpty else true,
      node children (CallHandler.ofAction q action))

/-- `CallHierarchy::insert_path`. -/
def insertPath (h : CallHierarchy Q) (path : ObjectPath) (action : CallAction) (q : Q) :
    CallHierarchy Q :=
  (insertInner action q path.components h).2

/-- `CallHierarchy::find_inner`. -/
def findInner : List Str → CallHierarchy Q → Option (CallHandler Q)
  | child :: tarComps, node children _ =>
    match AssocMap.get children child with
    | some child => findInner tarComps child
    | none => none
  | [], node _ handler => some handler

/-- `CallHierarchy::find_handler`. -/
def findHandler (h : CallHierarchy Q) (path : ObjectPath) : Option (CallHandler Q) :=
  findInner path.components h

/-- `CallHierarchy::get_queue`. -/
def getQueue (h : CallHierarchy Q) (path : ObjectPath) : Option Q :=
  (h.findHandler path).bind CallHandler.getQueue

/-- `CallHierarchy::get_action`. -/
def getAction (h : CallHierarchy Q) (path : ObjectPath) : Option CallAction :=
  (h.findHandler path).map CallHandler.toAction

/-- `CallHierarchy::is_match_inner`. -/
def isMatchInner : List Str → List Str → CallHierarchy Q → Bool
  | org :: orgComps, msg :: msgComps, node children _ =>
    if org = msg then
      match AssocMap.get children org with
      | some child => isMatchInner orgComps msgComps child
      | none => false
    else false
  | [], msg :: msgComps, node children handler =>
    match AssocMap.get children msg with
    | some child =>
      match sendInner msgComps child with
      | .unhandled _ => handler.getQueue.isSome
      | _ => false
    | none =>
      match handler with
      | .queue _ => true
      | _ => false
  | _ :: _, [], _ => false
  | [], [], node _ handler => handler.getQueue.isSome

/-- `CallHierarchy::is_match`. -/
def isMatch (h : CallHierarchy Q) (orgPath msgPath : ObjectPath) : Bool :=
  isMatchInner orgPath.components msgPath.components h

/-! ## Nodes and handlers of the tree -/

/-- The node at a list of components. -/
def nodeAt : List Str → CallHierarchy Q → Option (CallHierarchy Q)
  | [], h => some h
  | c :: cs, node children _ => (AssocMap.get children c).bind (nodeAt cs)

/-- The node at the empty list is the tree itself. -/
@[simp] lemma nodeAt_nil (h : CallHierarchy Q) : nodeAt [] h = some h := by
  cases h
  rfl

/-- One step down the tree. -/
@[simp] lemma nodeAt_cons (c : Str) (cs : List Str) (h : CallHierarchy Q) :
    nodeAt (c :: cs) h = (AssocMap.get h.children c).bind (nodeAt cs) := by
  cases h
  rfl

/-- Going down in two stages. -/
lemma nodeAt_append (p r : List Str) (h : CallHierarchy Q) :
    nodeAt (p ++ r) h = (nodeAt p h).bind (nodeAt r) := by
  induction p generalizing h with
  | nil => simp
  | cons c p ih =>
    simp only [List.cons_append, nodeAt_cons]
    cases AssocMap.get h.children c with
    | none => rfl
    | some child => exact ih child

/-- `find_inner` returns the handler of the node. -/
lemma findInner_eq (cs : List Str) (h : CallHierarchy Q) :
    findInner cs h = (nodeAt cs h).map handler := by
  induction cs generalizing h with
  | nil =>
    cases h
    rfl
  | cons c cs ih =>
    obtain ⟨children, hd⟩ := h
    simp only [findInner, nodeAt]
    cases AssocMap.get children c with
    | none => rfl
    | some child => exact ih child

/-- The handler registered at a list of components: the one of the node there, unless there is
no node or it is a placeholder. -/
def registeredAt (cs : List Str) (h : CallHierarchy Q) : Option (CallHandler Q) :=
  (findInner cs h).filter fun hd => !hd.isNothing

/-- The hierarchy as a map from object paths to registered handlers. -/
def registered (h : CallHierarchy Q) (path : ObjectPath) : Option (CallHandler Q) :=
  registeredAt path.components h

/-- What is registered at a node itself. -/
lemma registeredAt_nil (h : CallHierarchy Q) :
    registeredAt [] h = if h.handler.isNothing then none else some h.handler := by
  obtain ⟨children, hd⟩ := h
  cases hd <;> rfl

/-- What is registered below a node is registered at its children. -/
lemma registeredAt_cons (c : Str) (cs : List Str) (h : CallHierarchy Q) :
    registeredAt (c :: cs) h = (AssocMap.get h.children c).bind (registeredAt cs) := by
  obtain ⟨children, hd⟩ := h
  simp only [registeredAt, findInner, children_node]
  cases AssocMap.get children c <;> rfl

/-! ## Reachable trees -/

/-- A node that routing can stop at or pass through: it has a handler or a child. -/
def Alive (h : CallHierarchy Q) : Prop := h.handler ≠ .nothing ∨ h.children ≠ []

/-- No node below the root is a dead placeholder, and every edge is a valid path element. -/
def WellFormed (h : CallHierarchy Q) : Prop :=
  ∀ cs n, cs ≠ [] → nodeAt cs h = some n → n.Alive ∧ ∀ w ∈ cs, IsSegment w

/-- The trees reachable from `CallHierarchy::new` by calls of `insert_path`. -/
inductive Reachable : CallHierarchy Q → Prop
  | new : Reachable new
  | insert {h : CallHierarchy Q} (path : ObjectPath) (action : CallAction) (q : Q) :
      Reachable h → Reachable (h.insertPath path action q)

/-- A tree is well-formed when its children are alive, named by segments, and well-formed. -/
lemma wellFormed_iff (h : CallHierarchy Q) :
    h.WellFormed ↔ ∀ c n, AssocMap.get h.children c = some n →
      IsSegment c ∧ n.Alive ∧ n.WellFormed := by
  constructor
  · intro hw c n hc
    have hroot := hw [c] n (by simp) (by simp [hc])
    refine ⟨hroot.2 c (by simp), hroot.1, fun cs m hne hm => ?_⟩
    have := hw (c :: cs) m (by simp) (by simp [hc, hm])
    exact ⟨this.1, fun w hmem => this.2 w (by simp [hmem])⟩
  · intro hch cs n hne hn
    cases cs with
    | nil => exact absurd rfl hne
    | cons c cs =>
      rw [nodeAt_cons] at hn
      obtain ⟨child, hc, hn⟩ := Option.bind_eq_some_iff.mp hn
      obtain ⟨hseg, halive, hwf⟩ := hch c child hc
      cases cs with
      | nil =>
        obtain rfl : child = n := by simpa using hn
        exact ⟨halive, by simpa using hseg⟩
      | cons d ds =>
        have := hwf (d :: ds) n (by simp) hn
        exact ⟨this.1, fun w hmem => (List.mem_cons.mp hmem).elim (· ▸ hseg) (this.2 w)⟩

/-- The nodes of a well-formed tree are well-formed. -/
lemma WellFormed.nodeAt {h n : CallHierarchy Q} {cs : List Str} (hw : h.WellFormed)
    (hn : nodeAt cs h = some n) : n.WellFormed := by
  intro ds m hne hm
  obtain ⟨halive, hseg⟩ := hw (cs ++ ds) m (by simp [hne]) (by simp [nodeAt_append, hn, hm])
  exact ⟨halive, fun w hmem => hseg w (by simp [hmem])⟩

/-- Rebinding one child keeps a tree well-formed if the new child qualifies. -/
private lemma wellFormed_insert {children : List (Str × CallHierarchy Q)}
    {hd : CallHandler Q} {c : Str} {n : CallHierarchy Q} (hw : (node children hd).WellFormed)
    (hc : IsSegment c) (ha : n.Alive) (hn : n.WellFormed) :
    (node (AssocMap.insert children c n) hd).WellFormed := by
  rw [wellFormed_iff] at hw ⊢
  intro d m hd'
  simp only [children_node, AssocMap.get_insert] at hd'
  split_ifs at hd' with hdc
  · obtain rfl : n = m := by simpa using hd'
    exact ⟨hdc ▸ hc, ha, hn⟩
  · exact hw d m hd'

/-- Removing a child keeps a tree well-formed. -/
private lemma wellFormed_remove {children : List (Str × CallHierarchy Q)}
    {hd : CallHandler Q} (c : Str) (hw : (node children hd).WellFormed) :
    (node (AssocMap.remove children c) hd).WellFormed := by
  rw [wellFormed_iff] at hw ⊢
  intro d m hd'
  simp only [children_node, AssocMap.get_remove] at hd'
  split_ifs at hd' with hdc
  exact hw d m hd'

/-- A leaf is well-formed. -/
private lemma wellFormed_leaf (hd : CallHandler Q) : (node [] hd).WellFormed := by
  rw [wellFormed_iff]
  intro c n hc
  simp at hc

/-- **One insertion keeps a tree well-formed**, and a node for which it returns `true` is
alive.

**Proof sketch.** Induction on the components.  At the end of the path the result is computed
from the new handler and the children.  Above it, a child is kept (or attached) only when the
recursive call returned `true`, so the induction hypothesis makes it alive; otherwise it is
removed, and the result tests the handler and the children that are left. -/
lemma insertInner_wellFormed (action : CallAction) (q : Q) (cs : List Str)
    (hcs : ∀ w ∈ cs, IsSegment w) :
    ∀ h : CallHierarchy Q, h.WellFormed →
      (insertInner action q cs h).2.WellFormed ∧
        ((insertInner action q cs h).1 = true → (insertInner action q cs h).2.Alive) := by
  induction cs with
  | nil =>
    rintro ⟨children, hd⟩ hw
    refine ⟨?_, ?_⟩
    · rw [wellFormed_iff] at hw ⊢
      exact hw
    · intro hres
      by_cases hn : CallHandler.ofAction q action = .nothing
      · right
        simpa [insertInner, hn, CallHandler.isNothing] using hres
      · exact Or.inl hn
  | cons c cs ih =>
    rintro ⟨children, hd⟩ hw
    have hc := hcs c (by simp)
    have ih := ih fun w hmem => hcs w (by simp [hmem])
    rw [insertInner]
    split
    · rename_i entry hentry
      have hsub := ((wellFormed_iff _).mp hw c entry hentry).2.2
      obtain ⟨hwf, halive⟩ := ih entry hsub
      split
      · rename_i entry' hins
        rw [hins] at hwf halive
        exact ⟨wellFormed_insert hw hc (halive rfl) hwf,
          fun _ => Or.inr (AssocMap.insert_ne_nil _ _ _)⟩
      · refine ⟨wellFormed_remove c hw, fun hres => ?_⟩
        by_cases hn : hd = .nothing
        · right
          simpa [hn, CallHandler.isNothing] using hres
        · exact Or.inl hn
    · obtain ⟨hwf, halive⟩ := ih (node [] .nothing) (wellFormed_leaf _)
      split
      · rename_i hier hins
        rw [hins] at hwf halive
        exact ⟨wellFormed_insert hw hc (halive rfl) hwf,
          fun _ => Or.inr (AssocMap.insert_ne_nil _ _ _)⟩
      · refine ⟨hw, fun hres => Or.inl ?_⟩
        rintro rfl
        simp [CallHandler.isNothing] at hres

/-- **No dead placeholders**: every reachable tree is well-formed. -/
theorem Reachable.wellFormed {h : CallHierarchy Q} (hr : h.Reachable) : h.WellFormed := by
  induction hr with
  | new => exact wellFormed_leaf _
  | insert path action q _ ih =>
    exact (insertInner_wellFormed action q _ path.exists_segments.1 _ ih).1

/-- The child bound to a name is a smaller tree. -/
private lemma sizeOf_get_lt {children : List (Str × CallHierarchy Q)} {hd : CallHandler Q}
    {c : Str} {n : CallHierarchy Q} (h : AssocMap.get children c = some n) :
    sizeOf n < sizeOf (node children hd) := by
  have hlt := List.sizeOf_lt_of_mem (AssocMap.mem_of_get h)
  have hpair : sizeOf n < sizeOf (c, n) := by
    simp only [Prod.mk.sizeOf_spec]
    omega
  simp only [node.sizeOf_spec]
  omega

/-- **Below a live node something is registered**, at a path of valid elements.

**Proof sketch.** Strong induction on the size of the tree.  A node with a handler is itself
registered; one without has a child, which is alive and smaller. -/
theorem exists_registered (h : CallHierarchy Q) (hw : h.WellFormed) (ha : h.Alive) :
    ∃ cs, (∀ w ∈ cs, IsSegment w) ∧ registeredAt cs h ≠ none := by
  induction hsize : sizeOf h using Nat.strong_induction_on generalizing h with
  | _ size ih =>
    obtain ⟨children, hd⟩ := h
    by_cases hn : hd = .nothing
    · have hne : children ≠ [] := by
        rcases ha with ha | ha
        · exact absurd hn ha
        · exact ha
      obtain ⟨c, n, hc⟩ := AssocMap.exists_get_of_ne_nil hne
      obtain ⟨hseg, halive, hwf⟩ := (wellFormed_iff _).mp hw c n hc
      obtain ⟨cs, hcs, hreg⟩ := ih (sizeOf n) (hsize ▸ sizeOf_get_lt hc) n hwf halive rfl
      refine ⟨c :: cs, fun w hmem => (List.mem_cons.mp hmem).elim (· ▸ hseg) (hcs w), ?_⟩
      simpa [registeredAt_cons, hc] using hreg
    · have hsome : registeredAt [] (node children hd) = some hd := by
        rw [registeredAt_nil, handler_node, if_neg (mt (CallHandler.isNothing_iff hd).mp hn)]
      exact ⟨[], by simp, by simp [hsome]⟩

end CallHierarchy

end AsyncRustbus
