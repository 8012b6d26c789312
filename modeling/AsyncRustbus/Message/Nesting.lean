import AsyncRustbus.Message.Signature

set_option relaxedAutoImplicit false
set_option autoImplicit false

/-!
# The stack and the counters of `validate_sig_str`

The stack of the scan has room for 64 containers.  The scan refuses more than 32 open arrays and
more than 32 open structs, but it does not count the open dict entries, which are on the stack
with the arrays they are in: up to 96 containers can be open within 255 characters, and the push
of the 65th panics.

## Main definitions

* `SigScan.Opens` — the characters on which the loop body pushes.
* `AsyncRustbus.ScansSafely` — no run of the scan overruns the stack or the counters.
* `AsyncRustbus.NestsWithin` — the number of containers open at any position of a text.

## Main results

* `SigScan.scan_frames` — the scan reads the beginnings of containers.
* `SigScan.step_state_eq_panic` — a step from a parse panics only when it opens a 65th container.
* `AsyncRustbus.scansSafely_iff` — the scan is safe exactly on the texts that never have more
  than 64 open containers.
-/

namespace AsyncRustbus

namespace SigFrame

/-- Another container does not lower the number of open arrays. -/
lemma arrays_le_cons (f : SigFrame) (fs : List SigFrame) : arrays fs ≤ arrays (f :: fs) := by
  cases f <;> simp [arrays]

/-- Another container does not lower the number of open structs. -/
lemma structs_le_cons (f : SigFrame) (fs : List SigFrame) : structs fs ≤ structs (f :: fs) := by
  cases f <;> simp [structs]

end SigFrame

namespace SigScan

/-! ## Runs -/

/-- A scan of two texts is the scan of the first and then of the second. -/
lemma scan_append (s : SigScan) (p q : Str) : s.scan (p ++ q) = resume (s.scan p) q := by
  induction p generalizing s with
  | nil => rfl
  | cons c p ih =>
    rw [List.cons_append, scan_cons, scan_cons]
    cases s.step c with
    | ok s₁ => exact ih s₁
    | err e => rfl
    | panic => rfl

/-- A scan panics on one of its characters. -/
lemma exists_step_panic {s : SigScan} {text : Str} (h : s.scan text = .panic) :
    ∃ p c rest s', text = p ++ c :: rest ∧ s.scan p = .ok s' ∧ s'.step c = .panic := by
  induction text generalizing s with
  | nil => cases h
  | cons c text ih =>
    rw [scan_cons] at h
    cases hstep : s.step c with
    | ok s₁ =>
      rw [hstep] at h
      obtain ⟨p, d, rest, s', rfl, hp, hd⟩ := ih h
      refine ⟨c :: p, d, rest, s', rfl, ?_, hd⟩
      rw [scan_cons, hstep]
      exact hp
    | err e =>
      rw [hstep] at h
      cases h
    | panic => exact ⟨[], c, text, s, rfl, rfl, hstep⟩

/-! ## The beginnings of containers -/

/-- Going on from outcomes that are the same up to a full stack. -/
lemma PanicsOr.resume {r r' : Res SigErr SigScan} (h : PanicsOr r r') (cs : Str) :
    PanicsOr (resume r cs) (resume r' cs) := by
  rcases h with rfl | rfl
  · exact .inl rfl
  · exact .inr rfl

open SigFrame in
/-- Behind the containers `fs` the scan reads what was read of a container that sits on them.

**Proof sketch.** The opening bracket pushes the container, and the types the container has are
read by `scan_text` and `scan_texts`. -/
lemma scan_frame (f : SigFrame) (fs : List SigFrame) (hsits : f.Sits fs)
    (ha : arrays (f :: fs) ≤ maxNestingDepth) (hb : structs (f :: fs) ≤ maxNestingDepth) :
    PanicsOr ((state fs).scan f.text) (.ok (state (f :: fs))) := by
  cases f with
  | array =>
    have hkey : (state fs).stack.head? ≠ some (.dictEntry 0) := by
      rw [ne_eq, head?_state_stack]
      exact hsits
    rw [SigFrame.text, scan_cons, step_array hkey ha]
    exact resume_push _ _ _
  | entry =>
    obtain ⟨fs, rfl⟩ := hsits
    rw [SigFrame.text, scan_cons]
    exact (step_openEntry _ _ _).symm ▸ resume_push _ _ _
  | entryKey key =>
    obtain ⟨fs, rfl⟩ := hsits
    have hopen := resume_push (state (.array :: fs)) (.dictEntry 0) [key.code]
    rw [SigFrame.text, scan_cons]
    refine PanicsOr.trans ((step_openEntry _ _ _).symm ▸ hopen) (.inr ?_)
    rw [scan_cons, step_basic, complete_dictEntry, if_neg (by decide)]
    rfl
  | entryValue key value =>
    obtain ⟨⟨fs, rfl⟩, hvalue⟩ := hsits
    have hopen := resume_push (state (.array :: fs)) (.dictEntry 0) (key.code :: value.text)
    rw [SigFrame.text, scan_cons]
    refine PanicsOr.trans ((step_openEntry _ _ _).symm ▸ hopen) ?_
    rw [scan_cons, step_basic, complete_dictEntry, if_neg (by decide)]
    have hread := scan_text value ⟨.dictEntry 1 :: (state (.array :: fs)).stack,
      (state (.array :: fs)).aCnt, (state (.array :: fs)).bCnt⟩ [] hvalue.1 hvalue.2 (by simp)
    rw [List.append_nil, complete_dictEntry, if_neg (by decide)] at hread
    exact hread
  | struct fields =>
    obtain ⟨hhead, hfields⟩ := hsits
    have hkey : (state fs).stack.head? ≠ some (.dictEntry 0) := by
      rw [ne_eq, head?_state_stack]
      exact hhead
    rw [SigFrame.text, scan_cons, step_open hkey hb]
    refine (resume_push _ _ _).trans ?_
    cases fields with
    | nil => exact .inr rfl
    | cons first rest =>
      have hfirst := hfields first (by simp)
      have hrest : ∀ t ∈ rest, Fits (arrays fs) (structs fs + 1) t :=
        fun t ht => hfields t (by simp [ht])
      have hreadFirst := scan_text first ⟨.struct false :: (state fs).stack, (state fs).aCnt,
        (state fs).bCnt + 1⟩ (SigType.texts rest) hfirst.1 hfirst.2 (by simp)
      obtain ⟨hrestA, hrestB⟩ := Fits.depths ha hb hrest
      have hreadRest := scan_texts rest ⟨.struct true :: (state fs).stack, (state fs).aCnt,
        (state fs).bCnt + 1⟩ [] hrestA hrestB (complete_struct _ _ _ _) (by simp)
      rw [complete_struct] at hreadFirst
      rw [List.append_nil] at hreadRest
      exact hreadFirst.trans hreadRest

open SigFrame in
/-- **The scan reads the beginnings of containers** that sit on one another, behind complete
types. -/
theorem scan_frames (types : List SigType) (frames : List SigFrame)
    (htypes : ∀ t ∈ types, Fits 0 0 t) (hwf : WellFormed frames)
    (ha : arrays frames ≤ maxNestingDepth) (hb : structs frames ≤ maxNestingDepth) :
    PanicsOr (scan ⟨[], 0, 0⟩ (SigType.texts types ++ SigFrame.texts frames))
      (.ok (state frames)) := by
  induction frames with
  | nil =>
    obtain ⟨hdepthA, hdepthB⟩ := Fits.depths (Nat.zero_le _) (Nat.zero_le _) htypes
    exact scan_texts types ⟨[], 0, 0⟩ [] hdepthA hdepthB (complete_nil 0 0) (by simp)
  | cons f fs ih =>
    obtain ⟨hsits, hwf⟩ := hwf
    have hbelow := ih hwf (Nat.le_trans (arrays_le_cons f fs) ha)
      (Nat.le_trans (structs_le_cons f fs) hb)
    rw [SigFrame.texts, ← List.append_assoc, scan_append]
    exact (hbelow.resume f.text).trans (scan_frame f fs hsits ha hb)

/-! ## Where a step panics -/

/-- The characters on which the loop body pushes a container. -/
def Opens (s : SigScan) (c : Char) : Prop :=
  s.stack.head? ≠ some (.dictEntry 0) ∧
    ((c = 'a' ∧ s.aCnt < maxNestingDepth) ∨ (c = '(' ∧ s.bCnt < maxNestingDepth) ∨
      (c = '{' ∧ s.stack.head? = some .array))

/-- A push panics only when the stack is full. -/
lemma push_eq_panic {s : SigScan} {nest : Nest} (h : s.push nest = .panic) :
    nestCapacity ≤ s.stack.length := by
  unfold push at h
  split_ifs at h with hroom
  exact Nat.le_of_not_lt hroom

open SigFrame in
/-- The counter of arrays is never behind the stack. -/
lemma popArrays_state (fs : List SigFrame) :
    popArrays (state fs).stack (state fs).aCnt ≠ none := by
  induction fs with
  | nil => simp [state, popArrays]
  | cons f fs ih =>
    cases f with
    | array => exact ih
    | _ => simp [state, nest, popArrays]

open SigFrame in
/-- Completing a type never panics. -/
lemma complete_state_ne_panic (fs : List SigFrame) : (state fs).complete ≠ .panic := by
  unfold complete
  split
  · exact absurd ‹_› (popArrays_state fs)
  · split_ifs <;> simp
  · simp
  · simp

/-- Opening a container on a full stack panics. -/
lemma Opens.step_eq_panic {s : SigScan} {c : Char} (h : s.Opens c)
    (hfull : nestCapacity ≤ s.stack.length) : s.step c = .panic := by
  have hpush : ∀ t : SigScan, t.stack = s.stack → ∀ nest, t.push nest = .panic := by
    intro t ht nest
    rw [push, if_neg (by rw [ht]; exact Nat.not_lt.mpr hfull)]
  obtain ⟨hkey, ⟨rfl, ha⟩ | ⟨rfl, hb⟩ | ⟨rfl, harray⟩⟩ := h
  · rw [step_array hkey ha]
    exact hpush { s with aCnt := s.aCnt + 1 } rfl _
  · rw [step_open hkey hb]
    exact hpush { s with bCnt := s.bCnt + 1 } rfl _
  · obtain ⟨stack, hstack⟩ := List.head?_eq_some_iff.mp harray
    obtain ⟨_, aCnt, bCnt⟩ := s
    subst hstack
    rw [step_openEntry]
    exact hpush _ rfl _

/-- Popping arrays does not lengthen the stack. -/
lemma popArrays_length_le {stack stack' : List Nest} {aCnt aCnt' : ℕ}
    (h : popArrays stack aCnt = some (stack', aCnt')) : stack'.length ≤ stack.length := by
  fun_induction popArrays stack aCnt with
  | case1 => cases h
  | case2 stack aCnt ih => exact Nat.le_succ_of_le (ih h)
  | case3 stack aCnt => cases h; exact le_rfl

/-- Completing a type does not lengthen the stack. -/
lemma complete_length_le {s s' : SigScan} (h : s.complete = .ok s') :
    s'.stack.length ≤ s.stack.length := by
  unfold complete at h
  cases hpop : popArrays s.stack s.aCnt with
  | none => simp [hpop] at h
  | some popped =>
    obtain ⟨stack, aCnt⟩ := popped
    have hle := popArrays_length_le hpop
    rcases stack with _ | ⟨_ | cnt | nonEmpty, stack⟩
    · simp only [hpop, Res.ok.injEq] at h
      exact h ▸ hle
    · simp only [hpop, Res.ok.injEq] at h
      exact h ▸ hle
    · simp only [hpop] at h
      split_ifs at h
      cases h
      exact hle
    · simp only [hpop, Res.ok.injEq] at h
      exact h ▸ hle

/-- A step does not overfill the stack. -/
lemma step_length_le {s s' : SigScan} {c : Char} (h : s.step c = .ok s')
    (hs : s.stack.length ≤ nestCapacity) : s'.stack.length ≤ nestCapacity := by
  have hroom : s.Opens c → s.stack.length < nestCapacity := by
    intro hopens
    by_contra hfull
    rw [hopens.step_eq_panic (Nat.le_of_not_lt hfull)] at h
    cases h
  obtain ⟨rfl, hkey, hlt, rfl⟩ | ⟨rfl, hkey, hlt, rfl⟩ | ⟨rfl, ⟨stack, hstack⟩, rfl⟩ |
    ⟨rfl, stack, hstack, hpos, hc⟩ | ⟨rfl, stack, hstack, hc⟩ | ⟨rfl, hkey, hc⟩ | ⟨hbasic, hc⟩ :=
    step_cases h
  · exact hroom ⟨hkey, .inl ⟨rfl, hlt⟩⟩
  · exact hroom ⟨hkey, .inr (.inl ⟨rfl, hlt⟩)⟩
  · exact hroom ⟨by simp [hstack], .inr (.inr ⟨rfl, by simp [hstack]⟩)⟩
  · have hle := complete_length_le hc
    rw [hstack, List.length_cons] at hs
    exact Nat.le_trans hle (Nat.le_of_succ_le hs)
  · have hle := complete_length_le hc
    rw [hstack, List.length_cons] at hs
    exact Nat.le_trans hle (Nat.le_of_succ_le hs)
  · exact Nat.le_trans (complete_length_le hc) hs
  · exact Nat.le_trans (complete_length_le hc) hs

/-- No scan that goes on has overfilled the stack. -/
lemma scan_length_le {s s' : SigScan} {p : Str} (h : s.scan p = .ok s')
    (hs : s.stack.length ≤ nestCapacity) : s'.stack.length ≤ nestCapacity := by
  induction p generalizing s with
  | nil =>
    cases h
    exact hs
  | cons c p ih =>
    rw [scan_cons] at h
    cases hstep : s.step c with
    | ok s₁ =>
      rw [hstep] at h
      exact ih h (step_length_le hstep hs)
    | err e =>
      rw [hstep] at h
      cases h
    | panic =>
      rw [hstep] at h
      cases h

open SigFrame in
/-- **Where a step panics**: with containers open that the counters count, only the opening of
one more container on a full stack can panic.

**Proof sketch.** The branches of the step that can panic. Opening a container panics on a full
stack only. Closing a struct decreases a counter that is not zero, as a struct is open; and
completing a type in a state of this form never panics (`complete_state_ne_panic`). -/
theorem step_state_eq_panic {fs : List SigFrame} {c : Char} (h : (state fs).step c = .panic) :
    (state fs).Opens c ∧ nestCapacity ≤ fs.length := by
  have hlen : (state fs).stack.length = fs.length := List.length_map nest
  unfold step at h
  split_ifs at h with hkey h1 ha h2 hb h3 hclose hzero h4 hentry h5 hclose h6
  · have hkey' : (state fs).stack.head? ≠ some (.dictEntry 0) := fun hhead =>
      hkey ⟨by simp [h1], hhead⟩
    have hfull := push_eq_panic h
    exact ⟨⟨hkey', .inl ⟨h1, Nat.lt_of_not_le ha⟩⟩, Nat.le_trans hfull (Nat.le_of_eq hlen)⟩
  · have hkey' : (state fs).stack.head? ≠ some (.dictEntry 0) := fun hhead =>
      hkey ⟨by simp [h2], hhead⟩
    have hfull := push_eq_panic h
    exact ⟨⟨hkey', .inr (.inl ⟨h2, Nat.lt_of_not_le hb⟩)⟩, Nat.le_trans hfull (Nat.le_of_eq hlen)⟩
  · -- A struct is open, so the counter of structs is not zero.
    obtain ⟨stack, hstack⟩ := List.head?_eq_some_iff.mp (not_not.mp hclose)
    obtain ⟨f, fs, rfl, hf, -⟩ := state_stack_eq_cons hstack
    obtain ⟨first, rest, rfl⟩ := nest_eq_struct hf
    simp [state, structs] at hzero
  · obtain ⟨stack, hstack⟩ := List.head?_eq_some_iff.mp (not_not.mp hclose)
    obtain ⟨f, fs, rfl, hf, -⟩ := state_stack_eq_cons hstack
    obtain ⟨first, rest, rfl⟩ := nest_eq_struct hf
    exact absurd h (complete_state_ne_panic fs)
  · have hkey' : (state fs).stack.head? ≠ some (.dictEntry 0) := by
      rw [not_not.mp hentry]
      simp
    have hfull := push_eq_panic h
    exact ⟨⟨hkey', .inr (.inr ⟨h4, not_not.mp hentry⟩)⟩, Nat.le_trans hfull (Nat.le_of_eq hlen)⟩
  · obtain ⟨stack, hstack⟩ := List.head?_eq_some_iff.mp (not_not.mp hclose)
    obtain ⟨f, fs, rfl, hf, -⟩ := state_stack_eq_cons hstack
    obtain ⟨key, value, rfl⟩ := nest_eq_entryValue hf
    exact absurd h (complete_state_ne_panic fs)
  · exact absurd h (complete_state_ne_panic fs)

open SigFrame in
/-- Opening a container is reading the beginning of a container that sits on the open ones. -/
lemma Opens.exists_frame {fs : List SigFrame} {c : Char} (h : (state fs).Opens c) :
    ∃ f : SigFrame, f.text = [c] ∧ f.Sits fs ∧ (arrays fs ≤ maxNestingDepth →
      arrays (f :: fs) ≤ maxNestingDepth) ∧ (structs fs ≤ maxNestingDepth →
      structs (f :: fs) ≤ maxNestingDepth) := by
  obtain ⟨hkey, ⟨rfl, ha⟩ | ⟨rfl, hb⟩ | ⟨rfl, harray⟩⟩ := h
  · rw [ne_eq, head?_state_stack] at hkey
    exact ⟨.array, rfl, hkey, fun _ => ha, id⟩
  · rw [ne_eq, head?_state_stack] at hkey
    exact ⟨.struct [], rfl, ⟨hkey, by simp⟩, id, fun _ => hb⟩
  · obtain ⟨stack, hstack⟩ := List.head?_eq_some_iff.mp harray
    obtain ⟨f, fs, rfl, hf, -⟩ := state_stack_eq_cons hstack
    have hf : f = .array := by
      cases f <;> simp_all [nest]
    exact ⟨.entry, rfl, ⟨fs, by rw [hf]⟩, id, id⟩

end SigScan

/-! ## The safety of the scan -/

/-- The number of open arrays on the stack. -/
def SigScan.openArrays (s : SigScan) : ℕ := s.stack.count .array

/-- The number of open structs on the stack. -/
def SigScan.openStructs (s : SigScan) : ℕ :=
  s.stack.count (.struct true) + s.stack.count (.struct false)

/-- **The run of `validate_sig_str` on a text is safe**: it does not panic, in any build; every
push happens on a stack with fewer than 64 entries; and after every character the counters are
the numbers of the arrays and of the structs on the stack. -/
structure ScansSafely (sig : Str) : Prop where
  returns : ∀ debugAssertions, validateSigStr debugAssertions sig ≠ .panic
  room : (toUtf8 sig).length ≤ 255 → ∀ p c rest s, sig = p ++ c :: rest →
    SigScan.scan ⟨[], 0, 0⟩ p = .ok s → s.Opens c → s.stack.length < nestCapacity
  counts : (toUtf8 sig).length ≤ 255 → ∀ p rest s, sig = p ++ rest →
    SigScan.scan ⟨[], 0, 0⟩ p = .ok s → s.aCnt = s.openArrays ∧ s.bCnt = s.openStructs

/-- At most `n` containers are open at any position of the text: where a part of it can be read
as complete types and the beginnings of containers, at most 32 of them arrays and at most 32 of
them structs, there are no more than `n` of these containers. -/
def NestsWithin (n : ℕ) (sig : Str) : Prop :=
  ∀ types frames rest, sig = SigType.texts types ++ SigFrame.texts frames ++ rest →
    (∀ t ∈ types, SigFrame.Fits 0 0 t) → SigFrame.WellFormed frames →
    SigFrame.arrays frames ≤ maxNestingDepth → SigFrame.structs frames ≤ maxNestingDepth →
    frames.length ≤ n

/-- The open containers of a parse are counted by kind. -/
lemma SigFrame.counts_state (fs : List SigFrame) :
    (SigFrame.state fs).aCnt = (SigFrame.state fs).openArrays ∧
      (SigFrame.state fs).bCnt = (SigFrame.state fs).openStructs := by
  induction fs with
  | nil => simp [SigFrame.state, SigFrame.arrays, SigFrame.structs, SigScan.openArrays,
      SigScan.openStructs]
  | cons f fs ih =>
    simp only [SigFrame.state, SigScan.openArrays, SigScan.openStructs, List.map_cons] at ih ⊢
    cases f with
    | struct fields =>
      cases fields <;>
        simp [SigFrame.arrays, SigFrame.structs, SigFrame.nest] <;> omega
    | _ =>
      simp [SigFrame.arrays, SigFrame.structs, SigFrame.nest]
      omega

/-- What a scan has read, as a parse. -/
lemma SigParse.exists_of_scan {p : Str} {s : SigScan} (h : SigScan.scan ⟨[], 0, 0⟩ p = .ok s) :
    Nonempty (SigParse p s) := by
  have start : SigParse [] ⟨[], 0, 0⟩ :=
    ⟨[], [], rfl, rfl, by simp, trivial, by decide, by decide⟩
  exact start.of_scan p h

/-- With at most 64 open containers the validation does not panic.

**Proof sketch.** A panic of the scan is the opening of a 65th container, and the text read with
it has 65 open containers.  At the end the counters are zero with an empty stack. -/
lemma validateSigStr_ne_panic {sig : Str} (h : NestsWithin nestCapacity sig)
    (debugAssertions : Bool) : validateSigStr debugAssertions sig ≠ .panic := by
  unfold validateSigStr
  split_ifs with hlen
  · simp
  cases hscan : SigScan.scan ⟨[], 0, 0⟩ sig with
  | err e => simp
  | ok s =>
    obtain ⟨types, frames, -, rfl, -⟩ := SigParse.exists_of_scan hscan
    cases frames with
    | nil => simp [SigScan.finish, SigFrame.state, SigFrame.arrays, SigFrame.structs]
    | cons f fs => cases f <;> simp [SigScan.finish, SigFrame.state, SigFrame.nest]
  | panic =>
    obtain ⟨p, c, rest, s, rfl, hp, hstep⟩ := SigScan.exists_step_panic hscan
    obtain ⟨types, frames, rfl, rfl, htypes, hwf, ha, hb⟩ := SigParse.exists_of_scan hp
    obtain ⟨hopens, hfull⟩ := SigScan.step_state_eq_panic hstep
    obtain ⟨f, htext, hsits, hfa, hfb⟩ := hopens.exists_frame
    have hle := h types (f :: frames) rest (by simp [SigFrame.texts, htext]) htypes
      ⟨hsits, hwf⟩ (hfa ha) (hfb hb)
    rw [List.length_cons] at hle
    omega

/-- A panic of the scan on a part of a text that is not too long is a panic of the validation. -/
lemma validateSigStr_of_scan_panic {p : Str} (rest : Str) (debugAssertions : Bool)
    (hlen : (toUtf8 (p ++ rest)).length ≤ 255)
    (h : SigScan.scan ⟨[], 0, 0⟩ p = .panic) :
    validateSigStr debugAssertions (p ++ rest) = .panic := by
  rw [validateSigStr, if_neg (Nat.not_lt.mpr hlen), SigScan.scan_append, h]
  rfl

/-- Where the validation does not panic, at most 64 containers are open. -/
lemma nestsWithin_of_ne_panic {sig : Str} {debugAssertions : Bool}
    (h : validateSigStr debugAssertions sig ≠ .panic) (hlen : (toUtf8 sig).length ≤ 255) :
    NestsWithin nestCapacity sig := by
  rintro types frames rest rfl htypes hwf ha hb
  rcases SigScan.scan_frames types frames htypes hwf ha hb with hscan | hscan
  · exact absurd (validateSigStr_of_scan_panic rest debugAssertions hlen hscan) h
  · have hle := SigScan.scan_length_le hscan (Nat.zero_le _)
    rwa [SigFrame.state, List.length_map] at hle

/-- **The exact safety of `validate_sig_str`**: its run on a text overruns neither the stack nor
a counter if and only if the text is longer than 255 bytes or never has more than 64 open
containers.

**Proof sketch.** The scan reads into a parse whose open containers are the stack, so that the
counters are right and only the push of a 65th container can panic.  Conversely the scan reads
every beginning of containers that is within its limits, and puts all of them on the stack. -/
theorem scansSafely_iff (sig : Str) :
    ScansSafely sig ↔ ((toUtf8 sig).length ≤ 255 → NestsWithin 64 sig) := by
  constructor
  · intro h
    exact nestsWithin_of_ne_panic (h.returns true)
  · intro h
    have hreturns : ∀ debugAssertions, validateSigStr debugAssertions sig ≠ .panic := by
      intro debugAssertions
      by_cases hlen : (toUtf8 sig).length ≤ 255
      · exact validateSigStr_ne_panic (h hlen) debugAssertions
      · rw [validateSigStr, if_pos (Nat.lt_of_not_le hlen)]
        simp
    refine ⟨hreturns, ?_, ?_⟩
    · rintro hlen p c rest s rfl hp hopens
      by_contra hfull
      have hpanic : SigScan.scan ⟨[], 0, 0⟩ (p ++ [c]) = .panic := by
        rw [SigScan.scan_append, hp, SigScan.resume, SigScan.scan_cons,
          hopens.step_eq_panic (Nat.le_of_not_lt hfull)]
        rfl
      have hsplit : p ++ c :: rest = p ++ [c] ++ rest := by simp
      rw [hsplit] at hlen hreturns
      exact hreturns true (validateSigStr_of_scan_panic rest true hlen hpanic)
    · intro hlen p rest s hsig hp
      obtain ⟨types, frames, -, rfl, -⟩ := SigParse.exists_of_scan hp
      exact SigFrame.counts_state frames

/-- The validation panics on `a{s` thirty-two times and an opening parenthesis. -/
theorem not_scansSafely : ¬ ∀ sig, ScansSafely sig := by
  intro h
  have hpanic : validateSigStr true ((List.replicate 32 ['a', '{', 's']).flatten ++ ['(']) =
      .panic := by decide +kernel
  exact (h _).returns true hpanic

end AsyncRustbus
