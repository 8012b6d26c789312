import AsyncRustbus.Lib.Threads
import AsyncRustbus.Routing.Hierarchy

set_option relaxedAutoImplicit false
set_option autoImplicit false

/-!
# The map without children (`routing.rs`)

`send_inner` returns the children of the object that a call is for, and where there is no such
object an empty map.  All connections share one empty map in a `static mut`, which the first caller
of `get_empty_map` initializes: a flag says whether it is uninitialized (0), being initialized (1)
or ready (2), and callers that come while it is being initialized spin.  Every load, store and
exchange of the flag and the write of the map are atomic actions; the flag is stored with `Release`
and loaded with `Acquire`, so that they are seen in order.

## Main definitions

* `AsyncRustbus.MapTuple`, `AsyncRustbus.EmptyMapPoint`, `AsyncRustbus.getEmptyMap` — the static and
  the calls.
* `AsyncRustbus.MapTuple.Initialized` — the invariant.
* `AsyncRustbus.MapTuple.Once` — what the calls rely on.

## Main results

* `AsyncRustbus.MapTuple.getEmptyMap_once` — in every interleaving the map is written at most once,
  never while somebody has it, and what is returned is the empty map; no fair order of turns spins
  forever.
-/

namespace AsyncRustbus

variable {Q : Type}

/-- `MAP_TUPLE`, and how often its map has been written. -/
structure MapTuple (Q : Type) where
  flag : UInt8
  map : Option (List (Str × CallHierarchy Q))
  writes : ℕ

/-- Where a call of `get_empty_map` is. -/
inductive EmptyMapPoint (Q : Type)
  /-- Before the flag is loaded. -/
  | start
  /-- `init_empty_map` is called with the flag that was loaded. -/
  | called (flag : UInt8)
  /-- The exchange succeeded: the map is to be written. -/
  | writing
  /-- The map is written. -/
  | storing
  /-- The loop. -/
  | spinning
  /-- The call has returned a reference to this map. -/
  | done (map : Option (List (Str × CallHierarchy Q)))

/-- `get_empty_map` and `init_empty_map`, one action of the thread at a time. -/
def getEmptyMap (s : MapTuple Q) : EmptyMapPoint Q → MapTuple Q × EmptyMapPoint Q
  | .start => if s.flag = 2 then (s, .done s.map) else (s, .called s.flag)
  | .called flag =>
    if flag = 0 ∧ s.flag = 0 then ({ s with flag := 1 }, .writing) else (s, .spinning)
  | .writing => ({ s with map := some [], writes := s.writes + 1 }, .storing)
  | .storing => ({ s with flag := 2 }, .done s.map)
  | .spinning => if s.flag = 2 then (s, .done s.map) else (s, .spinning)
  | .done map => (s, .done map)

/-- The program is loaded, and there will be `n` calls. -/
def MapTuple.start (Q : Type) (n : ℕ) : Threads (MapTuple Q) (EmptyMapPoint Q) :=
  ⟨⟨0, none, 0⟩, List.replicate n .start⟩

namespace EmptyMapPoint

/-- How far a call has come. -/
def rank : EmptyMapPoint Q → ℕ
  | start => 0
  | called _ => 1
  | writing => 2
  | storing => 3
  | spinning => 4
  | done _ => 5

/-- The call initializes the map. -/
def initializes : EmptyMapPoint Q → Bool
  | writing | storing => true
  | _ => false

end EmptyMapPoint

/-- Nothing is done, one call initializes the map, or it is ready. -/
inductive MapTuple.Initialized : Threads (MapTuple Q) (EmptyMapPoint Q) → Prop
  | untouched (points : List (EmptyMapPoint Q))
      (hpoints : ∀ p ∈ points, p = .start ∨ p = .called 0) : Initialized ⟨⟨0, none, 0⟩, points⟩
  | writing (points : List (EmptyMapPoint Q)) (t : ℕ) (hwriter : points[t]? = some .writing)
      (hothers : ∀ t' p, t' ≠ t → points[t']? = some p → p.rank ≤ 1 ∨ p = .spinning) :
      Initialized ⟨⟨1, none, 0⟩, points⟩
  | storing (points : List (EmptyMapPoint Q)) (t : ℕ) (hwriter : points[t]? = some .storing)
      (hothers : ∀ t' p, t' ≠ t → points[t']? = some p → p.rank ≤ 1 ∨ p = .spinning) :
      Initialized ⟨⟨1, some [], 1⟩, points⟩
  | ready (points : List (EmptyMapPoint Q))
      (hpoints : ∀ p ∈ points, p.rank ≤ 1 ∨ p = .spinning ∨ p = .done (some [])) :
      Initialized ⟨⟨2, some [], 1⟩, points⟩

namespace MapTuple

/-- Nothing is done at the start. -/
lemma initialized_start (n : ℕ) : Initialized (MapTuple.start Q n) :=
  .untouched _ fun _ hp => .inl (List.eq_of_mem_replicate hp)

/-- What holds of the others still holds after a call has moved. -/
private lemma others_set {points : List (EmptyMapPoint Q)} {t t₀ : ℕ} {p p' : EmptyMapPoint Q}
    (hp : points[t₀]? = some p) (hp' : t₀ ≠ t → p'.rank ≤ 1 ∨ p' = .spinning)
    (hothers : ∀ (t' : ℕ) q, t' ≠ t → points[t']? = some q → q.rank ≤ 1 ∨ q = .spinning) :
    ∀ (t' : ℕ) q, t' ≠ t → (points.set t₀ p')[t']? = some q → q.rank ≤ 1 ∨ q = .spinning := by
  intro t' q hne hq
  rcases Threads.getElem?_set_point hp hq with ⟨rfl, rfl⟩ | ⟨-, hold⟩
  · exact hp' hne
  · exact hothers t' q hne hold

/-- While the map is being initialized, another call can only come to the loop. -/
private lemma getEmptyMap_waiting {s : MapTuple Q} (hflag : s.flag = 1) {p : EmptyMapPoint Q}
    (hp : p.rank ≤ 1 ∨ p = .spinning) :
    (getEmptyMap s p).1 = s ∧
      ((getEmptyMap s p).2.rank ≤ 1 ∨ (getEmptyMap s p).2 = .spinning) := by
  have hone : ¬ (1 : UInt8) = 2 := by decide
  have hzero : ¬ (1 : UInt8) = 0 := by decide
  cases p with
  | start => simp [getEmptyMap, hflag, hone, EmptyMapPoint.rank]
  | called flag => simp [getEmptyMap, hflag, hzero]
  | spinning => simp [getEmptyMap, hflag, hone]
  | writing => simp [EmptyMapPoint.rank] at hp
  | storing => simp [EmptyMapPoint.rank] at hp
  | done map => simp [EmptyMapPoint.rank] at hp

/-- A turn where nothing is done yet. -/
private lemma turn_untouched {points : List (EmptyMapPoint Q)}
    (hpoints : ∀ p ∈ points, p = .start ∨ p = .called 0) {t₀ : ℕ} {p : EmptyMapPoint Q}
    (hp : points[t₀]? = some p) :
    Initialized ⟨(getEmptyMap ⟨0, none, 0⟩ p).1,
      points.set t₀ (getEmptyMap ⟨0, none, 0⟩ p).2⟩ := by
  rcases hpoints p (List.mem_of_getElem? hp) with rfl | rfl
  · refine .untouched _ fun q hq => ?_
    rcases List.mem_or_eq_of_mem_set hq with hq | rfl
    · exact hpoints q hq
    · exact .inr rfl
  · -- the exchange succeeds
    have hlt := (List.getElem?_eq_some_iff.mp hp).1
    refine .writing _ t₀ (List.getElem?_set_self hlt) fun t' q hne hq => ?_
    rcases Threads.getElem?_set_point hp hq with ⟨heq, -⟩ | ⟨-, hold⟩
    · exact absurd heq hne
    · rcases hpoints q (List.mem_of_getElem? hold) with rfl | rfl
      · exact .inl (Nat.zero_le _)
      · exact .inl (Nat.le_refl _)

/-- A turn where the map is ready. -/
private lemma turn_ready {points : List (EmptyMapPoint Q)}
    (hpoints : ∀ p ∈ points, p.rank ≤ 1 ∨ p = .spinning ∨ p = .done (some [])) {t₀ : ℕ}
    {p : EmptyMapPoint Q} (hp : points[t₀]? = some p) :
    Initialized ⟨(getEmptyMap ⟨2, some [], 1⟩ p).1,
      points.set t₀ (getEmptyMap ⟨2, some [], 1⟩ p).2⟩ := by
  have hturn : (getEmptyMap (⟨2, some [], 1⟩ : MapTuple Q) p).1 = ⟨2, some [], 1⟩ ∧
      ((getEmptyMap (⟨2, some [], 1⟩ : MapTuple Q) p).2 = .spinning ∨
        (getEmptyMap (⟨2, some [], 1⟩ : MapTuple Q) p).2 = .done (some [])) := by
    rcases hpoints p (List.mem_of_getElem? hp) with hrank | rfl | rfl
    · cases p with
      | start => exact ⟨rfl, .inr rfl⟩
      | called flag => simp [getEmptyMap]
      | writing => simp [EmptyMapPoint.rank] at hrank
      | storing => simp [EmptyMapPoint.rank] at hrank
      | spinning => simp [EmptyMapPoint.rank] at hrank
      | done map => simp [EmptyMapPoint.rank] at hrank
    · exact ⟨rfl, .inr rfl⟩
    · exact ⟨rfl, .inr rfl⟩
  rw [hturn.1]
  refine .ready _ fun q hq => ?_
  rcases List.mem_or_eq_of_mem_set hq with hq | rfl
  · exact hpoints q hq
  · exact .inr hturn.2

/-- **A turn keeps the invariant.**

**Proof sketch.** Only the exchange leaves the first case, and only where the flag is 0; then the
call that succeeded is the one that initializes the map, and the others can only spin. -/
lemma Initialized.turn (st : Threads (MapTuple Q) (EmptyMapPoint Q)) (t₀ : ℕ)
    (p : EmptyMapPoint Q) (h : Initialized st) (hp : st.points[t₀]? = some p) :
    Initialized ⟨(getEmptyMap st.shared p).1, st.points.set t₀ (getEmptyMap st.shared p).2⟩ := by
  cases h with
  | untouched points hpoints => exact turn_untouched hpoints hp
  | writing points t hwriter hothers =>
    by_cases heq : t₀ = t
    · subst heq
      obtain rfl : p = .writing := Option.some.inj (hp.symm.trans hwriter)
      have hlt := (List.getElem?_eq_some_iff.mp hp).1
      exact .storing _ t₀ (List.getElem?_set_self hlt)
        (others_set hp (fun hne => absurd rfl hne) hothers)
    · obtain ⟨hsame, hwait⟩ := getEmptyMap_waiting (s := ⟨1, none, 0⟩) rfl (hothers t₀ p heq hp)
      rw [hsame]
      refine .writing _ t ?_ (others_set hp (fun _ => hwait) hothers)
      rw [List.getElem?_set_ne heq]
      exact hwriter
  | storing points t hwriter hothers =>
    by_cases heq : t₀ = t
    · subst heq
      obtain rfl : p = .storing := Option.some.inj (hp.symm.trans hwriter)
      refine .ready _ fun q hq => ?_
      obtain ⟨t', ht'⟩ := List.mem_iff_getElem?.mp hq
      rcases Threads.getElem?_set_point hp ht' with ⟨-, rfl⟩ | ⟨hne, hold⟩
      · exact .inr (.inr rfl)
      · rcases hothers t' q hne hold with h | h
        · exact .inl h
        · exact .inr (.inl h)
    · obtain ⟨hsame, hwait⟩ :=
        getEmptyMap_waiting (s := ⟨1, some [], 1⟩) rfl (hothers t₀ p heq hp)
      rw [hsame]
      refine .storing _ t ?_ (others_set hp (fun _ => hwait) hothers)
      rw [List.getElem?_set_ne heq]
      exact hwriter
  | ready points hpoints => exact turn_ready hpoints hp

/-! ## Nobody spins forever -/

/-- A turn moves its call up, to the loop at least. -/
lemma min_le_rank_getEmptyMap (s : MapTuple Q) (p : EmptyMapPoint Q) :
    min 4 (p.rank + 1) ≤ (getEmptyMap s p).2.rank := by
  cases p with
  | start =>
    by_cases hflag : s.flag = 2 <;> simp [getEmptyMap, hflag, EmptyMapPoint.rank]
  | called flag =>
    by_cases hflag : flag = 0 ∧ s.flag = 0 <;> simp [getEmptyMap, hflag, EmptyMapPoint.rank]
  | writing => simp [getEmptyMap, EmptyMapPoint.rank]
  | storing => simp [getEmptyMap, EmptyMapPoint.rank]
  | spinning =>
    by_cases hflag : s.flag = 2 <;> simp [getEmptyMap, hflag, EmptyMapPoint.rank]
  | done map => simp [getEmptyMap, EmptyMapPoint.rank]

/-- Where the map is ready, also out of the loop. -/
lemma min_le_rank_of_ready {s : MapTuple Q} (hready : s.flag = 2) (p : EmptyMapPoint Q) :
    min 5 (p.rank + 1) ≤ (getEmptyMap s p).2.rank := by
  cases p with
  | start => simp [getEmptyMap, hready, EmptyMapPoint.rank]
  | called flag => simp [getEmptyMap, hready, EmptyMapPoint.rank]
  | writing => simp [getEmptyMap, EmptyMapPoint.rank]
  | storing => simp [getEmptyMap, EmptyMapPoint.rank]
  | spinning => simp [getEmptyMap, hready, EmptyMapPoint.rank]
  | done map => simp [getEmptyMap, EmptyMapPoint.rank]

/-- Only one call initializes the map.

**Proof sketch.** By the state of the initialization: while the map is written or stored, all calls
but one have not got so far or wait in the loop; before and after it none initializes. -/
private lemma Initialized.unique {st : Threads (MapTuple Q) (EmptyMapPoint Q)}
    (h : Initialized st) {t t' : ℕ} {p p' : EmptyMapPoint Q} (hp : st.points[t]? = some p)
    (hp' : st.points[t']? = some p') (hinit : p.initializes = true)
    (hinit' : p'.initializes = true) : t = t' := by
  have hidle : ∀ q : EmptyMapPoint Q, q.rank ≤ 1 ∨ q = .spinning → q.initializes = false := by
    intro q hq
    cases q with
    | start => rfl
    | called flag => rfl
    | spinning => rfl
    | done map => rfl
    | writing => simp [EmptyMapPoint.rank] at hq
    | storing => simp [EmptyMapPoint.rank] at hq
  have hsame : ∀ (points : List (EmptyMapPoint Q)) (t₀ : ℕ),
      (∀ (t' : ℕ) q, t' ≠ t₀ → points[t']? = some q → q.rank ≤ 1 ∨ q = .spinning) →
      ∀ {t : ℕ} {p}, points[t]? = some p → p.initializes = true → t = t₀ := by
    intro points t₀ hothers t p hp hinit
    by_contra hne
    rw [hidle p (hothers t p hne hp)] at hinit
    cases hinit
  cases h with
  | untouched points hpoints =>
    rcases hpoints p (List.mem_of_getElem? hp) with rfl | rfl
    · cases hinit
    · cases hinit
  | writing points t₀ hwriter hothers =>
    exact (hsame points t₀ hothers hp hinit).trans (hsame points t₀ hothers hp' hinit').symm
  | storing points t₀ hwriter hothers =>
    exact (hsame points t₀ hothers hp hinit).trans (hsame points t₀ hothers hp' hinit').symm
  | ready points hpoints =>
    rcases hpoints p (List.mem_of_getElem? hp) with hrank | rfl | rfl
    · rw [hidle p (.inl hrank)] at hinit
      cases hinit
    · cases hinit
    · cases hinit

/-- Where a call has returned, the map is ready.

**Proof sketch.** By the state of the initialization: before the map is ready no call has returned,
as the one that initializes has not and the others have not got so far. When it is ready, every call
that has returned got the empty map, and none initializes. -/
private lemma Initialized.of_done {st : Threads (MapTuple Q) (EmptyMapPoint Q)}
    (h : Initialized st) {map : Option (List (Str × CallHierarchy Q))}
    (hmap : .done map ∈ st.points) :
    map = some [] ∧ st.shared = ⟨2, some [], 1⟩ ∧ ∀ p ∈ st.points, p.initializes = false := by
  have hothers : ∀ (points : List (EmptyMapPoint Q)) (t₀ : ℕ) (q : EmptyMapPoint Q),
      points[t₀]? = some q → q.initializes = true → .done map ∈ points →
      ¬ ∀ (t' : ℕ) q, t' ≠ t₀ → points[t']? = some q → q.rank ≤ 1 ∨ q = .spinning := by
    intro points t₀ q hq hinit hmap hothers
    obtain ⟨t', ht'⟩ := List.mem_iff_getElem?.mp hmap
    have hne : t' ≠ t₀ := by
      rintro rfl
      rw [ht', Option.some.injEq] at hq
      subst hq
      cases hinit
    simpa [EmptyMapPoint.rank] using hothers t' _ hne ht'
  cases h with
  | untouched points hpoints => simpa using hpoints _ hmap
  | writing points t₀ hwriter hothers' =>
    exact absurd hothers' (hothers points t₀ _ hwriter rfl hmap)
  | storing points t₀ hwriter hothers' =>
    exact absurd hothers' (hothers points t₀ _ hwriter rfl hmap)
  | ready points hpoints =>
    refine ⟨by simpa [EmptyMapPoint.rank] using hpoints _ hmap, rfl, fun p hp => ?_⟩
    rcases hpoints p hp with hrank | rfl | rfl
    · cases p with
      | start => rfl
      | called flag => rfl
      | spinning => rfl
      | done map => rfl
      | writing => simp [EmptyMapPoint.rank] at hrank
      | storing => simp [EmptyMapPoint.rank] at hrank
    · rfl
    · rfl

/-- The flag once all calls are in the loop or have returned. -/
private lemma Initialized.flag_of_rank {st : Threads (MapTuple Q) (EmptyMapPoint Q)}
    (h : Initialized st) (hrank : ∀ p ∈ st.points, 4 ≤ p.rank) {p : EmptyMapPoint Q}
    (hp : p ∈ st.points) : st.shared.flag = 2 := by
  cases h with
  | untouched points hpoints =>
    have hfour := hrank p hp
    rcases hpoints p hp with rfl | rfl
    · simp [EmptyMapPoint.rank] at hfour
    · simp [EmptyMapPoint.rank] at hfour
  | writing points t₀ hwriter hothers =>
    have hfour := hrank _ (List.mem_of_getElem? hwriter)
    simp [EmptyMapPoint.rank] at hfour
  | storing points t₀ hwriter hothers =>
    have hfour := hrank _ (List.mem_of_getElem? hwriter)
    simp [EmptyMapPoint.rank] at hfour
  | ready points hpoints => rfl

/-- The map has been written once or not yet. -/
private lemma Initialized.writes {st : Threads (MapTuple Q) (EmptyMapPoint Q)}
    (h : Initialized st) : st.shared.writes ≤ 1 := by
  cases h with
  | untouched => exact Nat.zero_le _
  | writing => exact Nat.zero_le _
  | storing => exact Nat.le_refl _
  | ready => exact Nat.le_refl _

/-- **Five rounds are enough**: after four every call is in the loop or has returned, the map is
ready then, and a turn more leaves the loop.

**Proof sketch.** The rank of a point counts the turns that lead to it, and a round raises every
rank below four by one (`Threads.le_rank_of_rounds`). So after four rounds each call is in the loop
or has returned; then the flag says that the map is ready, and a further round raises all ranks to
five, which is that of a return. The map returned is the empty one (`Initialized.of_done`). -/
private lemma Initialized.done_of_rounds {st : Threads (MapTuple Q) (EmptyMapPoint Q)}
    (h : Initialized st) (rounds : List (List ℕ)) (hfive : 5 ≤ rounds.length)
    (hrounds : ∀ turns ∈ rounds, Threads.Round st.points.length turns) :
    ∀ p ∈ (st.run getEmptyMap rounds.flatten).points, p = .done (some []) := by
  obtain ⟨first, rest, rfl, hfirst, hrest⟩ : ∃ first rest, rounds = first ++ rest ∧
      first.length = 4 ∧ 1 ≤ rest.length := by
    refine ⟨rounds.take 4, rounds.drop 4, (List.take_append_drop 4 rounds).symm, ?_, ?_⟩
    · rw [List.length_take]
      omega
    · rw [List.length_drop]
      omega
  have hinit := Threads.run_induction Initialized.turn h first.flatten
  have hinit' := Threads.run_induction Initialized.turn hinit rest.flatten
  have hloop := Threads.le_rank_of_rounds (fun _ _ _ => trivial)
    (fun s p (_ : True) => min_le_rank_getEmptyMap s p) first
    (fun turns hturns => hrounds turns (List.mem_append_left _ hturns)) trivial 0
    (fun p _ => Nat.zero_le _)
  rw [hfirst] at hloop
  rw [List.flatten_append, Threads.run_append]
  intro p hp
  have hflag : ((st.run getEmptyMap first.flatten).shared).flag = 2 := by
    obtain ⟨t, ht⟩ := List.mem_iff_getElem?.mp hp
    have hlt := (List.getElem?_eq_some_iff.mp ht).1
    rw [Threads.length_points_run] at hlt
    exact hinit.flag_of_rank hloop (List.getElem_mem hlt)
  have hstays : ∀ (s : MapTuple Q) p, s.flag = 2 → (getEmptyMap s p).1.flag = 2 := by
    intro s p hs
    cases p with
    | start => simp [getEmptyMap, hs]
    | called flag => simp [getEmptyMap, hs]
    | writing => exact hs
    | storing => rfl
    | spinning => simp [getEmptyMap, hs]
    | done map => exact hs
  have hdone := Threads.le_rank_of_rounds hstays (fun s p hs => min_le_rank_of_ready hs p) rest
    (fun turns hturns => by
      rw [Threads.length_points_run]
      exact hrounds turns (List.mem_append_right _ hturns)) hflag 4
    (fun p hp => (hloop p hp).trans' (by omega)) p hp
  have hrank : 5 ≤ p.rank := by omega
  cases p with
  | done map => rw [(hinit'.of_done hp).1]
  | start => simp [EmptyMapPoint.rank] at hrank
  | called flag => simp [EmptyMapPoint.rank] at hrank
  | writing => simp [EmptyMapPoint.rank] at hrank
  | storing => simp [EmptyMapPoint.rank] at hrank
  | spinning => simp [EmptyMapPoint.rank] at hrank

/-- What the calls of `get_empty_map` rely on, in a state of `n` calls: the map is written at most
once; no two calls initialize it; where a call has returned, it has returned the empty map, and no
call is going to write it; and if the turns go on in a fair order, every call returns after at most
five rounds. -/
structure Once (n : ℕ) (st : Threads (MapTuple Q) (EmptyMapPoint Q)) : Prop where
  writes : st.shared.writes ≤ 1
  unique : ∀ (t t' : ℕ) p p', st.points[t]? = some p → st.points[t']? = some p' →
    p.initializes = true → p'.initializes = true → t = t'
  returned : ∀ map, .done map ∈ st.points → map = some [] ∧ st.shared.map = some [] ∧
    ∀ p ∈ st.points, p.initializes = false
  returns : ∀ rounds : List (List ℕ), 5 ≤ rounds.length → (∀ r ∈ rounds, Threads.Round n r) →
    ∀ p ∈ (st.run getEmptyMap rounds.flatten).points, p = .done (some [])

/-- **The empty map is initialized once**, however the turns of any number of calls follow each
other. -/
theorem getEmptyMap_once (Q : Type) (n : ℕ) (turns : List ℕ) :
    Once n ((MapTuple.start Q n).run getEmptyMap turns) := by
  have h : Initialized ((MapTuple.start Q n).run getEmptyMap turns) :=
    Threads.run_induction Initialized.turn (initialized_start n) turns
  have hlength : ((MapTuple.start Q n).run getEmptyMap turns).points.length = n := by
    rw [Threads.length_points_run]
    exact List.length_replicate
  refine ⟨h.writes, fun t t' p p' hp hp' => h.unique hp hp', fun map hmap => ?_,
    fun rounds hfive hrounds => ?_⟩
  · obtain ⟨hnil, hshared, hnone⟩ := h.of_done hmap
    exact ⟨hnil, congrArg MapTuple.map hshared, hnone⟩
  · exact h.done_of_rounds rounds hfive (by rw [hlength]; exact hrounds)

/-- Three calls: the second one is in the loop when the first one has the exchange behind it. -/
theorem getEmptyMap_once_three :
    let st := (MapTuple.start ℕ 3).run getEmptyMap [0, 1, 0, 1, 1]
    st.shared.flag = 1 ∧
      ∀ p ∈ (st.run getEmptyMap (List.replicate 5 [0, 1, 2]).flatten).points,
        p = .done (some []) := by
  intro st
  refine ⟨rfl, (getEmptyMap_once ℕ 3 [0, 1, 0, 1, 1]).returns (List.replicate 5 [0, 1, 2])
    (by decide) fun r hr t ht => ?_⟩
  rw [List.eq_of_mem_replicate hr]
  have hcases : t = 0 ∨ t = 1 ∨ t = 2 := by omega
  simpa using hcases

end MapTuple

end AsyncRustbus
