import AsyncRustbus.Message.Basic

set_option relaxedAutoImplicit false
set_option autoImplicit false

/-!
# Match rules (`routing.rs`)

A match rule selects signals by their header fields; an absent field selects every value.  The
rules of a connection are kept in a vector that is searched with their ordering, which is meant
to list more specific rules first.  The type is generic in the type `Q` of queues, as the call
hierarchy is.

## Main definitions

* `AsyncRustbus.MatchRule`, with `MatchRule.matchesMsg` (`matches`), `MatchRule.matchString`,
  `MatchRule.eq` and `MatchRule.clone`.
* `AsyncRustbus.optionOrd`, `AsyncRustbus.pathSubset`, `MatchRule.cmp` — the ordering.

## Main results

* `MatchRule.cmp_swap`, `MatchRule.cmp_eq_iff`, `MatchRule.cmp_congr` — the ordering is
  antisymmetric and consistent with `==`.  It is not transitive (`Signals.Specificity`).
* `MatchRule.matchesMsg_congr` — equal rules select the same signals.
-/

namespace AsyncRustbus

/-- `MatchRule`: what a field says is required of a signal, what it leaves out is not. -/
structure MatchRule (Q : Type) where
  sender : Option Str
  path : Option Str
  pathNamespace : Option Str
  interface : Option Str
  member : Option Str
  queue : Option Q
  deriving DecidableEq

/-- One field of `matches`: an absent field accepts everything, a present one only a present
value that passes the test. -/
def fieldMatches (accepts : Str → Str → Bool) : Option Str → Option Str → Bool
  | some ss, some ms => accepts ss ms
  | some _, none => false
  | none, _ => true

/-- One field of `match_string`: `name='value',` when the field is present. -/
def matchStringField (name : String) : Option Str → Str
  | some value => name.toList ++ "='".toList ++ value ++ "',".toList
  | none => []

namespace MatchRule

variable {Q : Type}

/-- `EMPTY_MATCH`, also `MatchRule::new`: every field is absent. -/
def empty : MatchRule Q := ⟨none, none, none, none, none, none⟩

/-- A rule that does not use `path` and `path_namespace` together. -/
def Exclusive (r : MatchRule Q) : Prop := ¬ (r.path.isSome = true ∧ r.pathNamespace.isSome = true)

/-- The assertion of `insert_sig_match`. -/
lemma exclusive_iff (r : MatchRule Q) :
    r.Exclusive ↔ ¬ (r.path.isSome && r.pathNamespace.isSome) = true := by
  rw [Bool.and_eq_true]
  rfl

/-- `MatchRule::clone`: the copy has no queue. -/
def clone (self : MatchRule Q) : MatchRule Q := { self with queue := none }

/-- `MatchRule::matches`. -/
def matchesMsg (self : MatchRule Q) (msg : MarshalledMessage) : Bool :=
  decide (msg.typ = .signal) &&
  fieldMatches (fun ss ms => decide (ss = ms)) self.sender msg.dynheader.sender &&
  fieldMatches (fun ss ms => decide (ss = ms)) self.path msg.dynheader.object &&
  fieldMatches (fun ss ms => pathStartsWith ms ss) self.pathNamespace msg.dynheader.object &&
  fieldMatches (fun ss ms => decide (ss = ms)) self.interface msg.dynheader.interface &&
  fieldMatches (fun ss ms => decide (ss = ms)) self.member msg.dynheader.member

/-- `MatchRule::match_string`: the rule in the syntax of `AddMatch`. -/
def matchString (self : MatchRule Q) : Str :=
  matchStringField "sender" self.sender ++ matchStringField "path" self.path ++
  matchStringField "path_namespace" self.pathNamespace ++
  matchStringField "interface" self.interface ++ matchStringField "member" self.member ++
  "type='signal'".toList

/-- `<MatchRule as PartialEq>::eq`: the queue is not compared, the path is compared twice. -/
def eq (self other : MatchRule Q) : Bool :=
  if self.sender ≠ other.sender then false
  else if self.path ≠ other.path then false
  else if self.path ≠ other.path then false
  else if self.pathNamespace ≠ other.pathNamespace then false
  else if self.interface ≠ other.interface then false
  else if self.member ≠ other.member then false
  else true

/-- Rules are equal iff they differ in their queues at most. -/
lemma eq_iff (a b : MatchRule Q) : a.eq b = true ↔ a.clone = b.clone := by
  unfold eq
  split_ifs <;> simp_all [clone]

/-- What does not see the queue of a rule is the same for equal rules. -/
private lemma congr_of_clone {β : Type} {f : MatchRule Q → β} (hf : ∀ c, f c = f c.clone)
    {a b : MatchRule Q} (h : a.eq b = true) : f a = f b := by
  rw [hf a, hf b, (eq_iff a b).mp h]

/-- Equal rules select the same signals. -/
theorem matchesMsg_congr {a b : MatchRule Q} (h : a.eq b = true) (msg : MarshalledMessage) :
    a.matchesMsg msg = b.matchesMsg msg :=
  congr_of_clone (f := fun c => c.matchesMsg msg) (fun _ => rfl) h

/-- The string of a rule does not mention its queue. -/
lemma matchString_congr {a b : MatchRule Q} (h : a.eq b = true) :
    a.matchString = b.matchString :=
  congr_of_clone (fun _ => rfl) h

end MatchRule

/-! ## The ordering -/

/-- `option_ord`: a present field is less than an absent one. -/
def optionOrd {α : Type} : Option α → Option α → Option Ordering
  | some _, none => some .lt
  | none, some _ => some .gt
  | _, _ => none

/-- The loop of `path_subset`. -/
def subsetLoop : List Component → List Component → Option Ordering
  | lComp :: lPath, rComp :: rPath => if lComp = rComp then subsetLoop lPath rPath else none
  | _ :: _, [] => some .lt
  | [], _ :: _ => some .gt
  | [], [] => none

/-- `path_subset`: of two namespaces one of which lies inside the other, the inner one is
less.  Both are present when neither side of `option_ord` is. -/
def pathSubset (left right : Option Str) : Option Ordering :=
  match optionOrd left right with
  | some ord => some ord
  | none =>
    match left, right with
    | some l, some r => subsetLoop (pathComponents l) (pathComponents r)
    | _, _ => none

/-- `<Option<Arc<str>> as Ord>::cmp`: an absent text is less than a present one, and texts are
compared by their bytes. -/
def strCmp (left right : Option Str) : Ordering := compare (left.map toUtf8) (right.map toUtf8)

/-- `option_ord` never says that its arguments are equal. -/
lemma optionOrd_ne_eq {α : Type} (a b : Option α) : optionOrd a b ≠ some .eq := by
  cases a <;> cases b <;> simp [optionOrd]

/-- Swapping the arguments of `option_ord`. -/
lemma optionOrd_swap {α : Type} (a b : Option α) :
    optionOrd a b = (optionOrd b a).map Ordering.swap := by
  cases a <;> cases b <;> rfl

/-- A field compared with itself is undecided. -/
@[simp] lemma optionOrd_self {α : Type} (a : Option α) : optionOrd a a = none := by
  cases a <;> rfl

/-- The loop never says that its arguments are equal. -/
private lemma subsetLoop_ne_eq (l r : List Component) : subsetLoop l r ≠ some .eq := by
  fun_induction subsetLoop l r with
  | case1 => assumption
  | case2 => simp
  | case3 => simp
  | case4 => simp
  | case5 => simp

/-- Swapping the arguments of the loop. -/
private lemma subsetLoop_swap (l r : List Component) :
    subsetLoop l r = (subsetLoop r l).map Ordering.swap := by
  induction l generalizing r with
  | nil => cases r <;> rfl
  | cons lComp lPath ih =>
    cases r with
    | nil => rfl
    | cons rComp rPath =>
      by_cases h : lComp = rComp
      · simp [subsetLoop, h, ih rPath]
      · simp [subsetLoop, h, Ne.symm h]

/-- Equal paths are undecided. -/
@[simp] lemma subsetLoop_self (l : List Component) : subsetLoop l l = none := by
  induction l with
  | nil => rfl
  | cons c l ih => simp [subsetLoop, ih]

/-- `path_subset` never says that its arguments are equal. -/
lemma pathSubset_ne_eq (a b : Option Str) : pathSubset a b ≠ some .eq := by
  cases a <;> cases b <;> simp [pathSubset, optionOrd, subsetLoop_ne_eq]

/-- Swapping the arguments of `path_subset`. -/
lemma pathSubset_swap (a b : Option Str) :
    pathSubset a b = (pathSubset b a).map Ordering.swap := by
  rcases a with _ | l <;> rcases b with _ | r
  · rfl
  · rfl
  · rfl
  · exact subsetLoop_swap _ _

/-- A namespace compared with itself is undecided. -/
@[simp] lemma pathSubset_self (a : Option Str) : pathSubset a a = none := by
  cases a <;> simp [pathSubset]

/-- Swapping the arguments of the comparison of texts. -/
private lemma strCmp_swap (a b : Option Str) : strCmp a b = (strCmp b a).swap :=
  Std.OrientedOrd.eq_swap

/-- Texts compare as equal only when they are. -/
lemma strCmp_eq_iff (a b : Option Str) : strCmp a b = .eq ↔ a = b := by
  have hinj := Option.map_injective toUtf8_injective
  rw [strCmp, Std.LawfulEqCmp.compare_eq_iff_eq]
  exact hinj.eq_iff

/-- A decided step ends a comparison, an undecided one leaves it to the rest. -/
lemma getD_eq_eq_iff {o : Option Ordering} (ho : o ≠ some .eq) (rest : Ordering) :
    o.getD rest = .eq ↔ o = none ∧ rest = .eq := by
  cases o with
  | none => simp
  | some ord => simpa using ho

/-- Swapping a step of a comparison and the rest of it. -/
private lemma getD_map_swap (o : Option Ordering) (rest : Ordering) :
    (o.map Ordering.swap).getD rest.swap = (o.getD rest).swap := by
  cases o <;> rfl

namespace MatchRule

variable {Q : Type}

/-- `<MatchRule as Ord>::cmp`: presence of the sender, presence of the path, presence and
inclusion of the namespace, presence of the interface and of the member, and only then the
values. -/
def cmp (self other : MatchRule Q) : Ordering :=
  (optionOrd self.sender other.sender).getD <|
  (optionOrd self.path other.path).getD <|
  (pathSubset self.pathNamespace other.pathNamespace).getD <|
  (optionOrd self.interface other.interface).getD <|
  (optionOrd self.member other.member).getD <|
  (strCmp self.sender other.sender).then <|
  (strCmp self.path other.path).then <|
  (strCmp self.pathNamespace other.pathNamespace).then <|
  (strCmp self.interface other.interface).then <|
  strCmp self.member other.member

/-- **Antisymmetry**: swapping the rules swaps the outcome. -/
theorem cmp_swap (a b : MatchRule Q) : a.cmp b = (b.cmp a).swap := by
  unfold cmp
  rw [optionOrd_swap a.sender, optionOrd_swap a.path, pathSubset_swap a.pathNamespace,
    optionOrd_swap a.interface, optionOrd_swap a.member, strCmp_swap a.sender,
    strCmp_swap a.path, strCmp_swap a.pathNamespace, strCmp_swap a.interface,
    strCmp_swap a.member]
  simp only [← Ordering.swap_then, getD_map_swap]

instance : Std.OrientedCmp (cmp : MatchRule Q → MatchRule Q → Ordering) where
  eq_swap := cmp_swap _ _

/-- **Consistency with equality**: rules compare as equal iff they are `==`. -/
theorem cmp_eq_iff (a b : MatchRule Q) : a.cmp b = .eq ↔ a.eq b = true := by
  rw [eq_iff]
  constructor
  · intro h
    simp only [cmp, getD_eq_eq_iff (optionOrd_ne_eq _ _), getD_eq_eq_iff (pathSubset_ne_eq _ _),
      Ordering.then_eq_eq, strCmp_eq_iff] at h
    simp [clone, h]
  · intro h
    simp only [clone, mk.injEq] at h
    simp [cmp, h, (strCmp_eq_iff _ _).mpr]

/-- The ordering does not see the queue. -/
theorem cmp_congr {a b : MatchRule Q} (h : a.cmp b = .eq) (c : MatchRule Q) :
    a.cmp c = b.cmp c :=
  congr_of_clone (f := fun r => r.cmp c) (fun _ => rfl) ((cmp_eq_iff a b).mp h)

end MatchRule

end AsyncRustbus
