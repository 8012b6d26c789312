import AsyncRustbus.Lib.TagScan
import AsyncRustbus.Message.Builder
import AsyncRustbus.Routing.Nearest
import Mathlib.Data.List.Nodup

set_option relaxedAutoImplicit false
set_option autoImplicit false

/-!
# Discovering objects (`routing.rs`)

A client learns which objects a connection provides from the descriptions that `Intro` handlers
answer: it asks for the description of an object, reads the names of the children from the text,
and goes on with each of them.  The text is the one of `make_intro_msg`, which leaves out the
children whose handler drops its calls; the reader knows nothing of it but the elements `node`.

## Main definitions

* `AsyncRustbus.introspectCall`, `AsyncRustbus.describedChildren` — the call of a client and what
  it reads from the answer.
* `CallHierarchy.crawl` — the client.
* `CallHierarchy.Discoverable` — the objects it should find.

## Main results

* `AsyncRustbus.childNames_introText` — the names of the children are read back.
* `CallHierarchy.crawl_discovers` — the client finds exactly these objects, each once.
-/

namespace AsyncRustbus

/-! ## The client -/

/-- The call of a client that asks for the description of an object, as it is received. -/
def introspectCall (serial : Option NonZeroU32) (sender : Option Str) (path : Str) :
    MarshalledMessage :=
  let msg := (((MessageBuilder.new.call "Introspect".toList).on path).withInterface
    "org.freedesktop.DBus.Introspectable".toList).build
  { msg with dynheader := { msg.dynheader with serial := serial, sender := sender } }

/-- What stands before the name of a child in a description. -/
def nodeTag : Str := '<' :: "node name=\"".toList

/-- The names of the elements `node` of a description. -/
def childNames (text : Str) : List Str := TagScan.scan nodeTag '"' text

/-- The children that a client reads from an answer. -/
def describedChildren (reply : MarshalledMessage) : Option (List Str) :=
  if reply.typ = .reply ∧ reply.body.sig = ['s'] then
    (Wire.readStr reply.body.byteorder reply.body.buf 0).map fun read => childNames read.1
  else none

/-! ## The text -/

/-- The children that a description names. -/
def shownNames {Q : Type} (children : List (Str × CallHierarchy Q)) : List Str :=
  children.filterMap fun child =>
    match child.2.handler with
    | .drop => none
    | _ => some child.1

variable {Q : Type} {children : List (Str × CallHierarchy Q)}

/-- The names are those of the children that do not drop their calls.

**Proof sketch.** By the handler of the child: only one that drops its calls is filtered out. -/
lemma mem_shownNames {c : Str} :
    c ∈ shownNames children ↔ ∃ n, (c, n) ∈ children ∧ n.handler ≠ .drop := by
  unfold shownNames
  rw [List.mem_filterMap]
  constructor
  · rintro ⟨⟨name, n⟩, hmem, hshown⟩
    cases hhandler : n.handler with
    | drop => simp [hhandler] at hshown
    | queue q =>
      obtain rfl : name = c := by simpa [hhandler] using hshown
      exact ⟨n, hmem, by simp [hhandler]⟩
    | exact q =>
      obtain rfl : name = c := by simpa [hhandler] using hshown
      exact ⟨n, hmem, by simp [hhandler]⟩
    | intro =>
      obtain rfl : name = c := by simpa [hhandler] using hshown
      exact ⟨n, hmem, by simp [hhandler]⟩
    | nothing =>
      obtain rfl : name = c := by simpa [hhandler] using hshown
      exact ⟨n, hmem, by simp [hhandler]⟩
  · rintro ⟨n, hmem, hne⟩
    refine ⟨(c, n), hmem, ?_⟩
    cases hhandler : n.handler with
    | drop => exact absurd hhandler hne
    | queue q => rfl
    | exact q => rfl
    | intro => rfl
    | nothing => rfl

/-- Names that are distinct stay distinct. -/
lemma nodup_shownNames (h : (children.map Prod.fst).Nodup) : (shownNames children).Nodup := by
  induction children with
  | nil => exact List.nodup_nil
  | cons child children ih =>
    rw [List.map_cons, List.nodup_cons] at h
    have hrest := ih h.2
    unfold shownNames at hrest ⊢
    rw [List.filterMap_cons]
    split
    · exact hrest
    · rename_i name hname
      obtain rfl : child.1 = name := by
        split at hname
        · cases hname
        · exact Option.some.inj hname
      refine List.nodup_cons.mpr ⟨fun hmem => h.1 ?_, hrest⟩
      obtain ⟨n, hn, -⟩ := mem_shownNames.mp hmem
      exact List.mem_map.mpr ⟨_, hn, rfl⟩

/-- The fixed part of a description names no child. -/
private lemma quiet_introStart : TagScan.quiet nodeTag introStart = true := by decide +kernel

/-- The line of a child is read as its name.

**Proof sketch.** The line is a tab, the tag with the name in it, and the end of the line. A segment
holds neither a quote nor the start of a tag, so the scan reads exactly the name
(`TagScan.scan_tag`) and finds no other tag in the line. -/
private lemma childNames_introLine {child : Str} (h : IsSegment child) (rest : Str) :
    childNames (introLine child ++ rest) = child :: childNames rest := by
  have hchars : ∀ d : Char, isElementChar d = false → d ∉ child := by
    intro d hd hmem
    rw [h.2 d hmem] at hd
    cases hd
  have hquote : '"' ∉ child := hchars '"' (by decide)
  have hquiet : TagScan.quiet nodeTag ("node name=\"".toList ++ child) = true := by
    apply TagScan.quiet_of_notMem
    rw [List.mem_append, not_or]
    exact ⟨by decide, hchars '<' (by decide)⟩
  have htab : TagScan.quiet nodeTag ['\t'] = true := by decide
  have hend : TagScan.quiet nodeTag ['"', '/', '>', '\n'] = true := by decide
  have hline : introLine child ++ rest =
      ['\t'] ++ (nodeTag ++ child ++ '"' :: (['/', '>', '\n'] ++ rest)) := by
    have hstart : "\t<node name=\"".toList = '\t' :: nodeTag := rfl
    have hstop : "\"/>\n".toList = ['"', '/', '>', '\n'] := rfl
    unfold introLine
    rw [hstart, hstop]
    simp only [List.cons_append, List.nil_append, List.append_assoc]
  unfold childNames
  rw [hline, TagScan.scan_append_of_quiet htab]
  have hread := TagScan.scan_tag hquote hquiet (['/', '>', '\n'] ++ rest)
  rw [show nodeTag = '<' :: "node name=\"".toList from rfl] at hend ⊢
  rw [hread]
  exact congrArg _ (TagScan.scan_append_of_quiet hend rest)

/-- The parts of a description. -/
lemma introText_eq (children : List (Str × CallHierarchy Q)) :
    introText children = introStart ++ ((shownNames children).flatMap introLine ++ introEnd) := by
  rw [← List.append_assoc]
  rfl

/-- **The names of the children are read back from a description.** -/
theorem childNames_introText (h : CallHierarchy.NamedBySegments children) :
    childNames (introText children) = shownNames children := by
  have hlines : ∀ names : List Str, (∀ c ∈ names, IsSegment c) →
      childNames (names.flatMap introLine ++ introEnd) = names := by
    intro names hnames
    induction names with
    | nil =>
      exact TagScan.scan_of_quiet (by decide)
    | cons c names ih =>
      rw [List.flatMap_cons, List.append_assoc,
        childNames_introLine (hnames c List.mem_cons_self),
        ih fun d hd => hnames d (List.mem_cons_of_mem _ hd)]
  rw [introText_eq, childNames, TagScan.scan_append_of_quiet quiet_introStart]
  apply hlines
  intro c hc
  obtain ⟨n, hmem, -⟩ := mem_shownNames.mp hc
  exact h (c, n) hmem

/-! ## Asking and crawling -/

namespace CallHierarchy

/-- What a client learns from asking for the description of an object: nothing where the call is
queued or answered with an error. -/
def ask (closed : Q → Bool) (h : CallHierarchy Q) (serial : Option NonZeroU32)
    (sender : Option Str) (cs : List Str) : Option (List Str) :=
  match h.send closed (introspectCall serial sender (segmentsText cs)) with
  | .err reply => describedChildren reply
  | _ => none

/-- The objects that a client finds below an object, as far as `n` levels below it. -/
def crawl (closed : Q → Bool) (h : CallHierarchy Q) (serial : Option NonZeroU32)
    (sender : Option Str) : ℕ → List Str → List (List Str)
  | 0, _ => []
  | n + 1, cs =>
    match ask closed h serial sender cs with
    | none => []
    | some names =>
      names.flatMap fun c => (cs ++ [c]) :: crawl closed h serial sender n (cs ++ [c])

/-- The objects that can be discovered from `root`: there is a node that does not drop its calls,
and the nodes on the way to it have an `Intro` handler or none. -/
structure Discoverable (h : CallHierarchy Q) (root rel : List Str) : Prop where
  below : rel ≠ []
  shown : ∃ hd, findInner (root ++ rel) h = some hd ∧ hd ≠ .drop
  passed : ∀ k hd, 0 < k → k < rel.length → findInner (root ++ rel.take k) h = some hd →
    hd = .intro ∨ hd = .nothing

/-- The description of every node can be sent: its length fits in thirty-two bits. -/
def Describable (h : CallHierarchy Q) : Prop :=
  ∀ cs n, nodeAt cs h = some n → (toUtf8 (introText n.children)).length < 2 ^ 32

variable {h : CallHierarchy Q} {closed : Q → Bool} {serial : Option NonZeroU32}
  {sender : Option Str}

/-- The call of a client is for the path that it asks about. -/
private lemma object_introspectCall {cs : List Str} (hsegs : ∀ w ∈ cs, IsSegment w) :
    ∃ path : ObjectPath, path.components = cs ∧
      ObjectPath.fromStr (segmentsText cs) = .ok path ∧
      (introspectCall serial sender (segmentsText cs)).dynheader.object =
        some (segmentsText cs) :=
  ⟨.ofSegments cs hsegs, ObjectPath.components_ofSegments cs hsegs,
    (ObjectPath.fromStr_eq_ok_iff _ _).mpr rfl, rfl⟩

/-- **The client reads the children of a node** from a description. -/
lemma ask_eq_some {cs : List Str} (hsegs : ∀ w ∈ cs, IsSegment w)
    {keys : List (Str × CallHierarchy Q)} (hkeys : NamedBySegments keys)
    (hsize : (toUtf8 (introText keys)).length < 2 ^ 32) (hst : sendInner cs h = .intro keys) :
    ask closed h serial sender cs = some (shownNames keys) := by
  have hmake : makeIntroMsg (introspectCall serial sender (segmentsText cs)) keys =
      .ok { (introspectCall serial sender (segmentsText cs)).dynheader.makeResponse with
        body := MarshalledMessageBody.new.pushStr (introText keys) } := by
    have hinterface : (introspectCall serial sender (segmentsText cs)).dynheader.interface =
        some "org.freedesktop.DBus.Introspectable".toList := rfl
    have hbody : (introspectCall serial sender (segmentsText cs)).dynheader.makeResponse.body =
        MarshalledMessageBody.new := rfl
    simp only [makeIntroMsg, hinterface, if_true, hbody]
  have hread := Wire.readStr_marshalStr .littleEndian (introText keys) [] [] hsize
  rw [List.append_nil, List.length_nil] at hread
  obtain ⟨path, hcomps, hpath, hobject⟩ :=
    @object_introspectCall serial sender cs hsegs
  unfold ask send
  simp only [hobject, hpath, hcomps, hst, hmake]
  have htext : describedChildren
      { (introspectCall serial sender (segmentsText cs)).dynheader.makeResponse with
        body := MarshalledMessageBody.new.pushStr (introText keys) } =
      (Wire.readStr .littleEndian (Wire.marshalStr .littleEndian (introText keys) []) 0).map
        fun read => childNames read.1 := if_pos ⟨rfl, rfl⟩
  rw [htext, hread, Option.map_some, childNames_introText hkeys]

/-- The client learns nothing where no handler describes the object. -/
lemma ask_eq_none {cs : List Str} (hsegs : ∀ w ∈ cs, IsSegment w)
    (hst : ∀ keys, sendInner cs h ≠ .intro keys) : ask closed h serial sender cs = none := by
  have herror : describedChildren
      (makeObjectNotFound (introspectCall serial sender (segmentsText cs))) = none := by
    refine if_neg ?_
    rintro ⟨htyp, -⟩
    cases htyp
  obtain ⟨path, hcomps, hpath, hobject⟩ :=
    @object_introspectCall serial sender cs hsegs
  unfold ask send
  simp only [hobject, hpath, hcomps]
  cases hcase : sendInner cs h with
  | queue q =>
    dsimp only
    split_ifs
    · rfl
    · rfl
  | intro keys => exact absurd hcase (hst keys)
  | dropped => exact herror
  | unhandled keys => exact herror

/-! ## What is found -/

/-- A node whose nearest registered ancestor is an `Intro` is described by its children. -/
private lemma sendInner_of_nearestAt {cs : List Str} {n : CallHierarchy Q} {k : ℕ}
    (hn : nodeAt cs h = some n) (hnear : h.NearestAt cs k .intro) :
    sendInner cs h = .intro n.children := by
  have hintro : h.Introspects cs := by
    refine ⟨k, hnear, .inr ?_⟩
    have htake : nodeAt (cs.take (k + 1)) h ≠ none := by
      intro hnone
      rw [← List.take_append_drop (k + 1) cs, nodeAt_append, hnone] at hn
      cases hn
    obtain ⟨m, hm⟩ := Option.ne_none_iff_exists'.mp htake
    exact ⟨m.handler, by rw [findInner_eq, hm]; rfl⟩
  obtain ⟨keys, hst⟩ := (exists_sendInner_intro_iff h cs).mpr hintro
  have hkeys := keys_of_sendInner cs (.inl hst)
  rw [hn] at hkeys
  rw [hst, hkeys]
  rfl

/-- The nearest registered ancestor of a child without a handler is that of its parent. -/
private lemma NearestAt.child_nothing {cs : List Str} {c : Str} {k : ℕ} {hd : CallHandler Q}
    (hnear : h.NearestAt cs k hd) (hfind : findInner (cs ++ [c]) h = some .nothing) :
    h.NearestAt (cs ++ [c]) k hd := by
  have hle := hnear.le
  refine ⟨by rw [List.length_append]; omega, ?_, hnear.ne, fun j hd' hlt hj hfind' => ?_⟩
  · rw [List.take_append_of_le_length hle, hnear.find]
  · rw [List.length_append, List.length_singleton] at hj
    by_cases hlast : j ≤ cs.length
    · rw [List.take_append_of_le_length hlast] at hfind'
      exact hnear.last j hd' hlt hlast hfind'
    · have hall : (cs ++ [c]).take j = cs ++ [c] := by
        apply List.take_of_length_le
        rw [List.length_append, List.length_singleton]
        omega
      rw [hall, hfind, Option.some.injEq] at hfind'
      exact hfind'.symm

/-- A node with a handler is its own nearest registered ancestor. -/
private lemma nearestAt_self {cs : List Str} {hd : CallHandler Q}
    (hfind : findInner cs h = some hd) (hne : hd ≠ .nothing) : h.NearestAt cs cs.length hd := by
  refine ⟨Nat.le_refl _, by rw [List.take_length, hfind], hne, fun j hd' hlt hj => ?_⟩
  omega

/-- An object is discovered by way of the first node on the way to it.

**Proof sketch.** By cases on whether the object is the first node itself. Otherwise the nodes
passed on the way are the first one and those passed behind it, and the handler that is shown is
found from there, as the paths are the same (`nodeAt_append`). -/
private lemma discoverable_cons_iff {root : List Str} {c : Str} {rel : List Str} :
    h.Discoverable root (c :: rel) ↔
      ∃ hd, findInner (root ++ [c]) h = some hd ∧ hd ≠ .drop ∧
        (rel = [] ∨ ((hd = .intro ∨ hd = .nothing) ∧ h.Discoverable (root ++ [c]) rel)) := by
  have hassoc : ∀ l : List Str, root ++ c :: l = root ++ [c] ++ l := fun l => by simp
  constructor
  · rintro ⟨-, ⟨hd, hfind, hdrop⟩, hpassed⟩
    cases rel with
    | nil => exact ⟨hd, hfind, hdrop, .inl rfl⟩
    | cons d rel =>
      rw [hassoc, findInner_eq, nodeAt_append] at hfind
      cases hn : nodeAt (root ++ [c]) h with
      | none =>
        rw [hn] at hfind
        cases hfind
      | some n =>
        have hself : findInner (root ++ [c]) h = some n.handler := by
          rw [findInner_eq, hn]
          rfl
        have hfirst := hpassed 1 n.handler (by omega) (by simp) hself
        refine ⟨n.handler, hself, ?_, .inr ⟨hfirst, List.cons_ne_nil d rel, ⟨hd, ?_, hdrop⟩, ?_⟩⟩
        · rcases hfirst with heq | heq
          · rw [heq]
            exact fun hne => nomatch hne
          · rw [heq]
            exact fun hne => nomatch hne
        · rw [findInner_eq, nodeAt_append]
          exact hfind
        · intro k hd' hpos hlt hfind'
          refine hpassed (k + 1) hd' (by omega) ?_ ?_
          · simp only [List.length_cons] at hlt ⊢
            omega
          · rw [List.take_succ_cons, hassoc]
            exact hfind'
  · rintro ⟨hd, hfind, hdrop, hrel⟩
    refine ⟨List.cons_ne_nil c rel, ?_, fun k hd' hpos hlt hfind' => ?_⟩
    · rcases hrel with rfl | ⟨-, hrest⟩
      · exact ⟨hd, hfind, hdrop⟩
      · rw [hassoc]
        exact hrest.shown
    · rcases hrel with rfl | ⟨hfirst, hrest⟩
      · simp only [List.length_cons, List.length_nil] at hlt
        omega
      · obtain ⟨k, rfl⟩ : ∃ j, k = j + 1 := ⟨k - 1, by omega⟩
        rw [List.take_succ_cons, hassoc] at hfind'
        cases k with
        | zero =>
          rw [List.take_zero, List.append_nil, hfind, Option.some.injEq] at hfind'
          rw [← hfind']
          exact hfirst
        | succ k =>
          refine hrest.passed (k + 1) hd' (by omega) ?_ hfind'
          rw [List.length_cons] at hlt
          omega

/-- The children that are shown are those that are found and do not drop their calls. -/
private lemma mem_shownNames_children (hr : h.Reachable) {cs : List Str} {n : CallHierarchy Q}
    (hn : nodeAt cs h = some n) {c : Str} :
    c ∈ shownNames n.children ↔ ∃ hd, findInner (cs ++ [c]) h = some hd ∧ hd ≠ .drop := by
  have hfind : findInner (cs ++ [c]) h = (AssocMap.get n.children c).map handler := by
    rw [findInner_eq, nodeAt_append, hn, Option.bind_some, nodeAt_cons]
    cases AssocMap.get n.children c with
    | none => rfl
    | some m => simp
  rw [mem_shownNames, hfind]
  constructor
  · rintro ⟨m, hmem, hdrop⟩
    exact ⟨m.handler, by rw [AssocMap.get_of_mem (hr.distinctNames cs n hn) hmem]; rfl, hdrop⟩
  · rintro ⟨hd, hget, hdrop⟩
    obtain ⟨m, hm, rfl⟩ := Option.map_eq_some_iff.mp hget
    exact ⟨m, AssocMap.mem_of_get hm, hdrop⟩

/-- What is found below an object starts with its path. -/
private lemma prefix_of_mem_crawl {n : ℕ} {cs found : List Str}
    (hmem : found ∈ crawl closed h serial sender n cs) : ∃ rel, rel ≠ [] ∧ found = cs ++ rel := by
  induction n generalizing cs with
  | zero => cases hmem
  | succ n ih =>
    unfold crawl at hmem
    cases hask : ask closed h serial sender cs with
    | none =>
      rw [hask] at hmem
      cases hmem
    | some names =>
      rw [hask] at hmem
      obtain ⟨c, -, hfound⟩ := List.mem_flatMap.mp hmem
      rcases List.mem_cons.mp hfound with rfl | hbelow
      · exact ⟨[c], List.cons_ne_nil c [], rfl⟩
      · obtain ⟨rel, -, rfl⟩ := ih hbelow
        exact ⟨c :: rel, List.cons_ne_nil c rel, by simp⟩

/-- Nothing is found below an object that no handler describes. -/
private lemma crawl_eq_nil {cs : List Str} (hsegs : ∀ w ∈ cs, IsSegment w) {hd : CallHandler Q}
    (hfind : findInner cs h = some hd) (hne : hd ≠ .nothing) (hne' : hd ≠ .intro) (n : ℕ) :
    crawl closed h serial sender n cs = [] := by
  cases n with
  | zero => rfl
  | succ n =>
    have hask : ask closed h serial sender cs = none := by
      refine ask_eq_none hsegs fun keys hst => ?_
      obtain ⟨k, hnear, -⟩ := (exists_sendInner_intro_iff h cs).mp ⟨keys, hst⟩
      exact hne' ((nearestAt_self hfind hne).unique hnear).2
    rw [crawl, hask]

/-- The client finds exactly the objects that can be discovered, each once, as far as `n` levels
below an object. -/
private def Finds (closed : Q → Bool) (h : CallHierarchy Q) (serial : Option NonZeroU32)
    (sender : Option Str) (n : ℕ) (cs : List Str) : Prop :=
  (crawl closed h serial sender n cs).Nodup ∧
    ∀ rel, cs ++ rel ∈ crawl closed h serial sender n cs ↔
      rel.length ≤ n ∧ h.Discoverable cs rel

/-- What is found by way of one child: a child without a handler or with an `Intro` is described,
and the calls for any other child are queued or refused.

**Proof sketch.** A child with an `Intro`, or without a handler below one, has an `Intro` as its
nearest handler, so `hfinds` applies to it. Calls for any other child are not answered with a
description, and nothing is found by way of it (`crawl_eq_nil`). -/
private lemma crawl_child (hr : h.Reachable) {n k : ℕ} {cs : List Str}
    (hnear : h.NearestAt cs k .intro)
    (hfinds : ∀ {cs : List Str} {m : CallHierarchy Q} {k : ℕ}, nodeAt cs h = some m →
      h.NearestAt cs k .intro → Finds closed h serial sender n cs)
    {c : Str} {hd : CallHandler Q} (hfind : findInner (cs ++ [c]) h = some hd) :
    (crawl closed h serial sender n (cs ++ [c])).Nodup ∧
      ∀ rel, cs ++ [c] ++ rel ∈ crawl closed h serial sender n (cs ++ [c]) ↔
        rel.length ≤ n ∧ (hd = .intro ∨ hd = .nothing) ∧ h.Discoverable (cs ++ [c]) rel := by
  obtain ⟨m, hm⟩ : ∃ m, nodeAt (cs ++ [c]) h = some m := by
    rw [findInner_eq] at hfind
    obtain ⟨m, hm, -⟩ := Option.map_eq_some_iff.mp hfind
    exact ⟨m, hm⟩
  by_cases hpass : hd = .intro ∨ hd = .nothing
  · obtain ⟨k', hnear'⟩ : ∃ k', h.NearestAt (cs ++ [c]) k' .intro := by
      rcases hpass with rfl | rfl
      · exact ⟨_, nearestAt_self hfind fun hne => nomatch hne⟩
      · exact ⟨k, hnear.child_nothing hfind⟩
    obtain ⟨hnodup, hmem⟩ := hfinds hm hnear'
    refine ⟨hnodup, fun rel => ?_⟩
    rw [hmem]
    exact ⟨fun hfound => ⟨hfound.1, hpass, hfound.2⟩, fun hfound => ⟨hfound.1, hfound.2.2⟩⟩
  · rw [not_or] at hpass
    have hsegs : ∀ w ∈ cs ++ [c], IsSegment w := (hr.wellFormed (cs ++ [c]) m (by simp) hm).2
    rw [crawl_eq_nil hsegs hfind hpass.2 hpass.1]
    refine ⟨List.nodup_nil, fun rel => ⟨fun hmem => (List.not_mem_nil hmem).elim, ?_⟩⟩
    rintro ⟨-, heq | heq, -⟩
    · exact absurd heq hpass.1
    · exact absurd heq hpass.2

/-- A described node is crawled by its children. -/
private lemma crawl_succ (hr : h.Reachable) (hsize : h.Describable) {cs : List Str}
    {m : CallHierarchy Q} {k : ℕ} (hn : nodeAt cs h = some m) (hnear : h.NearestAt cs k .intro)
    (n : ℕ) :
    crawl closed h serial sender (n + 1) cs =
      (shownNames m.children).flatMap fun c =>
        (cs ++ [c]) :: crawl closed h serial sender n (cs ++ [c]) := by
  have hwf := hr.wellFormed
  have hsegs : ∀ w ∈ cs, IsSegment w := by
    intro w hw
    exact (hwf cs m (List.ne_nil_of_mem hw) hn).2 w hw
  have hkeys : NamedBySegments m.children := by
    obtain ⟨children, hd⟩ := m
    exact (hwf.nodeAt hn).namedBySegments
  rw [crawl, ask_eq_some hsegs hkeys (hsize cs m hn) (sendInner_of_nearestAt hn hnear)]

/-- **What a client finds** below a node whose nearest registered ancestor is an `Intro`.

**Proof sketch.** Induction on the number of levels.  What is found by way of a child starts with
the path of the child, so that nothing is found by way of two. -/
private lemma finds (hr : h.Reachable) (hsize : h.Describable) (n : ℕ) {cs : List Str}
    {m : CallHierarchy Q} {k : ℕ} (hn : nodeAt cs h = some m) (hnear : h.NearestAt cs k .intro) :
    Finds closed h serial sender n cs := by
  induction n generalizing cs m k with
  | zero =>
    refine ⟨List.nodup_nil, fun rel => ⟨fun hmem => (List.not_mem_nil hmem).elim, ?_⟩⟩
    rintro ⟨hlen, hdisc⟩
    exact absurd (List.length_eq_zero_iff.mp (Nat.le_zero.mp hlen)) hdisc.below
  | succ n ih =>
    have hstarts : ∀ c found, found ∈ (cs ++ [c]) :: crawl closed h serial sender n (cs ++ [c]) →
        ∃ rel, found = cs ++ c :: rel := by
      intro c found hfound
      rcases List.mem_cons.mp hfound with rfl | hbelow
      · exact ⟨[], rfl⟩
      · obtain ⟨rel, -, rfl⟩ := prefix_of_mem_crawl hbelow
        exact ⟨rel, by rw [List.append_assoc]; rfl⟩
    have happend : ∀ c (rel : List Str), cs ++ [c] ++ rel = cs ++ c :: rel :=
      fun c rel => List.append_assoc cs [c] rel
    unfold Finds
    rw [crawl_succ hr hsize hn hnear]
    refine ⟨List.nodup_flatMap.mpr ⟨fun c hc => ?_, ?_⟩, fun rel => ?_⟩
    · obtain ⟨hd, hfind, -⟩ := (mem_shownNames_children hr hn).mp hc
      refine List.nodup_cons.mpr ⟨fun hself => ?_, (crawl_child hr hnear ih hfind).1⟩
      obtain ⟨rel, hrel, heq⟩ := prefix_of_mem_crawl hself
      exact hrel (List.append_right_eq_self.mp heq.symm)
    · -- what is found by way of two children differs in their names
      refine (nodup_shownNames (hr.distinctNames cs m hn)).imp fun {c d} hne found hc hd => ?_
      obtain ⟨rel, rfl⟩ := hstarts c found hc
      obtain ⟨rel', heq⟩ := hstarts d _ hd
      exact hne (List.cons.inj (List.append_cancel_left heq)).1
    · rw [List.mem_flatMap]
      constructor
      · rintro ⟨c, hc, hfound⟩
        obtain ⟨hd, hfind, hdrop⟩ := (mem_shownNames_children hr hn).mp hc
        obtain ⟨rest, heq⟩ := hstarts c _ hfound
        obtain rfl := List.append_cancel_left heq
        rcases List.mem_cons.mp hfound with heq | hbelow
        · obtain rfl : rest = [] := (List.cons.inj (List.append_cancel_left heq)).2
          exact ⟨by simp, discoverable_cons_iff.mpr ⟨hd, hfind, hdrop, .inl rfl⟩⟩
        · rw [← happend c rest] at hbelow
          obtain ⟨hlen, hpass, hdisc⟩ := ((crawl_child hr hnear ih hfind).2 rest).mp hbelow
          refine ⟨?_, discoverable_cons_iff.mpr ⟨hd, hfind, hdrop, .inr ⟨hpass, hdisc⟩⟩⟩
          simpa using hlen
      · rintro ⟨hlen, hdisc⟩
        cases rel with
        | nil => exact absurd rfl hdisc.below
        | cons c rest =>
          obtain ⟨hd, hfind, hdrop, hrest⟩ := discoverable_cons_iff.mp hdisc
          refine ⟨c, (mem_shownNames_children hr hn).mpr ⟨hd, hfind, hdrop⟩, ?_⟩
          rcases hrest with rfl | ⟨hpass, hbelow⟩
          · exact List.mem_cons_self
          · apply List.mem_cons_of_mem
            rw [← happend c rest]
            exact ((crawl_child hr hnear ih hfind).2 rest).mpr ⟨by simpa using hlen, hpass, hbelow⟩

/-- **A client discovers what is provided.**  In every hierarchy built by `insert_path`, from every
node whose nearest registered ancestor is an `Intro`, a client that reads descriptions and goes on
with the children in them finds exactly the objects that can be discovered, as far as it goes, and
each of them once; and at or below each of them something is registered.

**Proof sketch.** `finds` says what is found from the node, and everything found lies below it
(`prefix_of_mem_crawl`). An object that is found has a node, and in a hierarchy without superfluous
nodes something is registered at or below every node (`exists_registered`). -/
theorem crawl_discovers (hr : h.Reachable) (hsize : h.Describable) (closed : Q → Bool)
    (serial : Option NonZeroU32) (sender : Option Str) (root : ObjectPath) {k : ℕ}
    (hnear : h.NearestAt root.components k .intro) (hnode : nodeAt root.components h ≠ none)
    (n : ℕ) :
    (crawl closed h serial sender n root.components).Nodup ∧
      (∀ found, found ∈ crawl closed h serial sender n root.components ↔
        ∃ rel, found = root.components ++ rel ∧ rel.length ≤ n ∧
          h.Discoverable root.components rel) ∧
      ∀ found ∈ crawl closed h serial sender n root.components,
        ∃ below, registeredAt (found ++ below) h ≠ none := by
  obtain ⟨m, hm⟩ := Option.ne_none_iff_exists'.mp hnode
  obtain ⟨hnodup, hmem⟩ : Finds closed h serial sender n root.components :=
    finds hr hsize n hm hnear
  have hiff : ∀ found, found ∈ crawl closed h serial sender n root.components ↔
      ∃ rel, found = root.components ++ rel ∧ rel.length ≤ n ∧
        h.Discoverable root.components rel := by
    intro found
    constructor
    · intro hfound
      obtain ⟨rel, -, rfl⟩ := prefix_of_mem_crawl hfound
      exact ⟨rel, rfl, (hmem rel).mp hfound⟩
    · rintro ⟨rel, rfl, hfound⟩
      exact (hmem rel).mpr hfound
  refine ⟨hnodup, hiff, fun found hfound => ?_⟩
  obtain ⟨rel, rfl, -, hdisc⟩ := (hiff found).mp hfound
  obtain ⟨hd, hfind, -⟩ := hdisc.shown
  rw [findInner_eq] at hfind
  obtain ⟨node, hnode', -⟩ := Option.map_eq_some_iff.mp hfind
  have hne : root.components ++ rel ≠ [] := List.append_ne_nil_of_right_ne_nil _ hdisc.below
  obtain ⟨below, -, hreg⟩ := exists_registered node (hr.wellFormed.nodeAt hnode')
    (hr.wellFormed _ node hne hnode').1
  refine ⟨below, ?_⟩
  rw [registeredAt, findInner_eq, nodeAt_append, hnode', Option.bind_some]
  rw [registeredAt, findInner_eq] at hreg
  exact hreg

/-- A queue at `/a` and a handler at `/d` that drops its calls, below an `Intro` at `/`: the client
finds the queue and not the other.

**Proof sketch.** The hierarchy is written out; every node of it has a short description.
`crawl_discovers` then says what is found: the queue can be discovered, and the other handler is not
shown. -/
theorem crawl_discovers_queue :
    let root : ObjectPath := ⟨['/'], by decide⟩
    let a : ObjectPath := ⟨['/', 'a'], by decide⟩
    let d : ObjectPath := ⟨['/', 'd'], by decide⟩
    let h : CallHierarchy ℕ :=
      ((new.insertPath root .intro 0).insertPath a .queue 1).insertPath d .drop 2
    [['a']] ∈ h.crawl (fun _ => false) none none 3 root.components ∧
      [['d']] ∉ h.crawl (fun _ => false) none none 3 root.components := by
  intro root a d h
  have hr : h.Reachable := .insert _ _ _ (.insert _ _ _ (.insert _ _ _ .new))
  have hh : h = node [(['d'], node [] .drop), (['a'], node [] (.queue 1))] .intro := rfl
  have hroot : root.components = [] := rfl
  have hleaf : ∀ (hd : CallHandler ℕ) cs n, nodeAt cs (node [] hd) = some n → n.children = [] := by
    intro hd cs n hn
    cases cs with
    | nil =>
      rw [← Option.some.inj hn]
      rfl
    | cons c cs => cases hn
  have hshort : ∀ children : List (Str × CallHierarchy ℕ),
      (toUtf8 ((shownNames children).flatMap introLine ++ introEnd)).length ≤ 2 ^ 31 →
        (toUtf8 (introText children)).length < 2 ^ 32 := by
    intro children hrest
    have hstart : (toUtf8 introStart).length < 2 ^ 31 := by decide +kernel
    rw [introText_eq, toUtf8_append, List.length_append]
    omega
  rw [hh] at hr ⊢
  have hsize : (node [(['d'], node [] .drop), (['a'], node [] (.queue 1))]
      (.intro : CallHandler ℕ)).Describable := by
    intro cs n hn
    cases cs with
    | nil =>
      rw [← Option.some.inj hn]
      exact hshort _ (by decide +kernel)
    | cons c cs =>
      rw [nodeAt_cons, children_node] at hn
      obtain ⟨child, hchild, hn⟩ := Option.bind_eq_some_iff.mp hn
      have hnil : n.children = [] := by
        rcases List.mem_cons.mp (AssocMap.mem_of_get hchild) with heq | hmem
        · rw [(Prod.mk.inj heq).2] at hn
          exact hleaf _ cs n hn
        · rw [(Prod.mk.inj (List.mem_singleton.mp hmem)).2] at hn
          exact hleaf _ cs n hn
      rw [hnil]
      exact hshort [] (by decide +kernel)
  have hnear : (node [(['d'], node [] .drop), (['a'], node [] (.queue 1))]
      (.intro : CallHandler ℕ)).NearestAt root.components 0 .intro := by
    rw [hroot]
    exact nearestAt_self rfl fun hne => nomatch hne
  obtain ⟨-, hiff, -⟩ := crawl_discovers hr hsize (fun _ => false) none none root hnear
    (by rw [hroot]; exact fun hnone => nomatch hnone) 3
  rw [hroot] at hiff ⊢
  refine ⟨(hiff _).mpr ⟨[['a']], rfl, by decide, ?_⟩, fun hmem => ?_⟩
  · refine ⟨List.cons_ne_nil _ _, ⟨.queue 1, rfl, fun hne => nomatch hne⟩, ?_⟩
    intro k hd hpos hlt
    rw [List.length_singleton] at hlt
    omega
  · obtain ⟨rel, rfl, -, hdisc⟩ := (hiff _).mp hmem
    obtain ⟨hd, hfind, hdrop⟩ := hdisc.shown
    exact hdrop (Option.some.inj hfind).symm

end CallHierarchy

end AsyncRustbus
