import AsyncRustbus.Signals.MatchRule

set_option relaxedAutoImplicit false
set_option autoImplicit false

/-!
# Match strings and the rules they denote

`match_string` puts the value of every field between apostrophes, as it is.  In the grammar of
match rules an apostrophe ends a quoted section, so that a value with an apostrophe in it is read
as something else by the other side.

## Main definitions

* `AsyncRustbus.parseMatchRule` — the grammar of match rules, as a parser.
* `MatchRule.items` — what the string of a rule is meant to denote.
* `MatchRule.Unquoted` — a rule whose values have no apostrophes.

## Main results

* `AsyncRustbus.unquoted_of_parseItems` — no value that was parsed has an apostrophe.
* `MatchRule.matchString_denotes_iff` — a rule is read back exactly when it has no apostrophes, and
  rules without apostrophes have different strings unless they are equal.
-/

namespace AsyncRustbus

/-! ## The grammar of match rules -/

/-- Where the reader of a match rule is: in the key of an item or in its value, inside a quoted
section or not. -/
inductive ItemMode
  | key
  | value (quoted : Bool)
  deriving DecidableEq

/-- The items of a match rule: `key=value` between commas.  Inside a value an apostrophe starts or
ends a quoted section, in which a comma is part of the value.  The key and the value of the
current item are read up to here. -/
def parseItems : ItemMode → Str → Str → Str → Option (List (Str × Str))
  | .key, _, _, [] => none
  | .key, key, value, c :: cs =>
    if c = '=' then parseItems (.value false) key value cs
    else if c = ',' then none
    else parseItems .key (key ++ [c]) value cs
  | .value quoted, key, value, [] => if quoted then none else some [(key, value)]
  | .value quoted, key, value, c :: cs =>
    if c = '\'' then parseItems (.value !quoted) key value cs
    else if c = ',' ∧ quoted = false then (parseItems .key [] [] cs).map ((key, value) :: ·)
    else parseItems (.value quoted) key (value ++ [c]) cs

/-- A match rule as a list of keys and values. -/
def parseMatchRule (rule : Str) : Option (List (Str × Str)) :=
  if rule = [] then some [] else parseItems .key [] [] rule

/-- The item of a field, when it is present. -/
def fieldItem (name : String) : Option Str → List (Str × Str)
  | some value => [(name.toList, value)]
  | none => []

namespace MatchRule

variable {Q : Type}

/-- What the string of a rule is meant to denote: the present fields with their values, and the
type. -/
def items (self : MatchRule Q) : List (Str × Str) :=
  fieldItem "sender" self.sender ++ fieldItem "path" self.path ++
  fieldItem "path_namespace" self.pathNamespace ++ fieldItem "interface" self.interface ++
  fieldItem "member" self.member ++ fieldItem "type" (some "signal".toList)

/-- No value of the rule has an apostrophe in it. -/
def Unquoted (self : MatchRule Q) : Prop :=
  ∀ field ∈ [self.sender, self.path, self.pathNamespace, self.interface, self.member],
    ∀ value ∈ field, '\'' ∉ value

end MatchRule

/-! ## Reading a match string -/

/-- The key of an item is read up to the equals sign. -/
lemma parseItems_key {name : Str} (h : ∀ c ∈ name, c ≠ '=' ∧ c ≠ ',') (key value rest : Str) :
    parseItems .key key value (name ++ '=' :: rest) =
      parseItems (.value false) (key ++ name) value rest := by
  induction name generalizing key with
  | nil => simp [parseItems]
  | cons c name ih =>
    rw [List.forall_mem_cons] at h
    rw [List.cons_append, parseItems, if_neg h.1.1, if_neg h.1.2, ih h.2, List.append_assoc]
    rfl

/-- A quoted section without apostrophes is part of the value. -/
lemma parseItems_quoted {text : Str} (h : '\'' ∉ text) (key value rest : Str) :
    parseItems (.value true) key value (text ++ rest) =
      parseItems (.value true) key (value ++ text) rest := by
  induction text generalizing value with
  | nil => simp
  | cons c text ih =>
    rw [List.mem_cons, not_or] at h
    rw [List.cons_append, parseItems, if_neg (Ne.symm h.1), if_neg (by simp), ih h.2,
      List.append_assoc]
    rfl

/-- **No value that was parsed has an apostrophe**: an apostrophe is never part of a value.

**Proof sketch.** By induction on the text: an apostrophe changes the quoting and is left out, a
comma ends the value, and any other character is added to it. -/
theorem unquoted_of_parseItems {mode : ItemMode} {key value text : Str}
    {items : List (Str × Str)} (h : parseItems mode key value text = some items)
    (hvalue : '\'' ∉ value) : ∀ item ∈ items, '\'' ∉ item.2 := by
  induction text generalizing mode key value items with
  | nil =>
    cases mode with
    | key => cases h
    | value quoted =>
      rw [parseItems] at h
      split_ifs at h
      obtain rfl := Option.some.inj h
      simpa using hvalue
  | cons c text ih =>
    cases mode with
    | key =>
      rw [parseItems] at h
      split_ifs at h
      · exact ih h hvalue
      · exact ih h hvalue
    | value quoted =>
      rw [parseItems] at h
      split_ifs at h with hquote hcomma
      · exact ih h hvalue
      · obtain ⟨later, hlater, rfl⟩ := Option.map_eq_some_iff.mp h
        rw [List.forall_mem_cons]
        exact ⟨hvalue, ih hlater (by simp)⟩
      · refine ih h ?_
        rw [List.mem_append, List.mem_singleton, not_or]
        exact ⟨hvalue, Ne.symm hquote⟩

/-- A field of a match string is read. -/
lemma parseItems_field {name : String} (hname : ∀ c ∈ name.toList, c ≠ '=' ∧ c ≠ ',')
    {field : Option Str} (h : ∀ value ∈ field, '\'' ∉ value) (rest : Str) :
    parseItems .key [] [] (matchStringField name field ++ rest) =
      (parseItems .key [] [] rest).map (fieldItem name field ++ ·) := by
  cases field with
  | none => simp [matchStringField, fieldItem]
  | some value =>
    have hopen : matchStringField name (some value) ++ rest =
        name.toList ++ '=' :: ('\'' :: (value ++ ('\'' :: ',' :: rest))) := by
      simp [matchStringField]
    rw [hopen, parseItems_key hname, parseItems, if_pos rfl, Bool.not_false,
      parseItems_quoted (h value rfl), parseItems, if_pos rfl, Bool.not_true, parseItems,
      if_neg (by decide), if_pos ⟨rfl, rfl⟩]
    rfl

namespace MatchRule

variable {Q : Type}

/-- **A rule without apostrophes is read back.** -/
lemma parse_matchString {r : MatchRule Q} (h : r.Unquoted) :
    parseMatchRule r.matchString = some r.items := by
  have hne : r.matchString ≠ [] := by simp [matchString]
  obtain ⟨hsender, hpath, hnamespace, hinterface, hmember⟩ :
      (∀ v ∈ r.sender, '\'' ∉ v) ∧ (∀ v ∈ r.path, '\'' ∉ v) ∧
      (∀ v ∈ r.pathNamespace, '\'' ∉ v) ∧ (∀ v ∈ r.interface, '\'' ∉ v) ∧
      ∀ v ∈ r.member, '\'' ∉ v := by simpa [Unquoted] using h
  have hlast : parseItems .key [] [] "type='signal'".toList =
      some (fieldItem "type" (some "signal".toList)) := by decide
  rw [parseMatchRule, if_neg hne, matchString]
  simp only [List.append_assoc]
  rw [parseItems_field (by simp) hsender, parseItems_field (by simp) hpath,
    parseItems_field (by simp) hnamespace, parseItems_field (by simp) hinterface,
    parseItems_field (by simp) hmember, hlast]
  simp only [Option.map_some, items, List.append_assoc]

/-- Looking a key up behind a field. -/
lemma lookup_fieldItem (name : String) (field : Option Str) (rest : List (Str × Str))
    (key : Str) : (fieldItem name field ++ rest).lookup key =
      if key = name.toList then field.or (rest.lookup key) else rest.lookup key := by
  cases field with
  | none => simp [fieldItem]
  | some value =>
    by_cases hkey : key = name.toList
    · simp [fieldItem, hkey]
    · have hne : (key == name.toList) = false := beq_eq_false_iff_ne.mpr hkey
      simp [fieldItem, List.lookup_cons, hkey, hne]

/-- The fields of a rule are under their names in what is meant by it. -/
lemma lookup_items (r : MatchRule Q) :
    r.items.lookup "sender".toList = r.sender ∧ r.items.lookup "path".toList = r.path ∧
      r.items.lookup "path_namespace".toList = r.pathNamespace ∧
      r.items.lookup "interface".toList = r.interface ∧
      r.items.lookup "member".toList = r.member := by
  have hitems : r.items = fieldItem "sender" r.sender ++ (fieldItem "path" r.path ++
      (fieldItem "path_namespace" r.pathNamespace ++ (fieldItem "interface" r.interface ++
      (fieldItem "member" r.member ++ (fieldItem "type" (some "signal".toList) ++ []))))) := by
    simp only [items, List.append_assoc, List.append_nil]
  rw [hitems]
  simp only [lookup_fieldItem, String.toList_inj, String.reduceEq, if_true, if_false,
    List.lookup_nil, Option.or_none, and_self]

/-- Rules that mean the same are equal. -/
lemma eq_of_items {r r' : MatchRule Q} (h : r.items = r'.items) : r.eq r' = true := by
  obtain ⟨hsender, hpath, hnamespace, hinterface, hmember⟩ := r.lookup_items
  obtain ⟨hsender', hpath', hnamespace', hinterface', hmember'⟩ := r'.lookup_items
  rw [eq_iff, clone, clone, ← hsender, ← hpath, ← hnamespace, ← hinterface, ← hmember, h, hsender',
    hpath', hnamespace', hinterface', hmember']

/-- **Exactly which rules are denoted by their strings**: those without apostrophes in their
values.  The strings of two such rules are the same if and only if the rules are equal.

**Proof sketch.** Without apostrophes every value is the quoted section that `match_string` makes
of it.  Conversely no value that is read has an apostrophe. -/
theorem matchString_denotes_iff :
    (∀ r : MatchRule Q, parseMatchRule r.matchString = some r.items ↔ r.Unquoted) ∧
      ∀ r r' : MatchRule Q, r.Unquoted → r'.Unquoted →
        (r.matchString = r'.matchString ↔ r.eq r' = true) := by
  refine ⟨fun r => ⟨?_, parse_matchString⟩, ?_⟩
  · intro h
    have hne : r.matchString ≠ [] := by simp [matchString]
    rw [parseMatchRule, if_neg hne] at h
    have hitems := unquoted_of_parseItems h (by simp)
    intro field hfield value hvalue
    obtain rfl : field = some value := hvalue
    have hitem : ∀ key, r.items.lookup key = some value → '\'' ∉ value := by
      intro key hkey
      obtain ⟨before, after, hsplit, -⟩ := List.lookup_eq_some_iff.mp hkey
      exact hitems (key, value) (by rw [hsplit]; simp)
    obtain ⟨hsender, hpath, hnamespace, hinterface, hmember⟩ := r.lookup_items
    simp only [List.mem_cons, List.not_mem_nil, or_false] at hfield
    rcases hfield with hf | hf | hf | hf | hf
    · exact hitem _ (hsender.trans hf.symm)
    · exact hitem _ (hpath.trans hf.symm)
    · exact hitem _ (hnamespace.trans hf.symm)
    · exact hitem _ (hinterface.trans hf.symm)
    · exact hitem _ (hmember.trans hf.symm)
  · intro r r' h h'
    refine ⟨fun hsame => ?_, matchString_congr⟩
    have hread := parse_matchString h
    rw [hsame, parse_matchString h'] at hread
    exact eq_of_items (Option.some.inj hread).symm

/-- Commas and keys inside values are read back as parts of them, so the string is not that of the
rule with those fields. -/
theorem matchString_denotes_keys :
    let r : MatchRule ℕ := ⟨some ":1.5,path=/a".toList, some "/b".toList, none,
      some "x.Y,member=Z".toList, none, none⟩
    let r' : MatchRule ℕ := ⟨some ":1.5".toList, some "/a,path=/b".toList, none,
      some "x.Y".toList, some "Z".toList, none⟩
    parseMatchRule r.matchString = some r.items ∧ r.matchString ≠ r'.matchString := by
  intro r r'
  have hr : r.Unquoted := by
    unfold Unquoted
    decide
  have hr' : r'.Unquoted := by
    unfold Unquoted
    decide
  refine ⟨(matchString_denotes_iff.1 r).mpr hr, fun hsame => ?_⟩
  have heq := (matchString_denotes_iff.2 r r' hr hr').mp hsame
  exact absurd heq (by decide)

/-- The rule for the sender `a',path='b` has the string of the rule for the sender `a` and the
path `b`, and is read as that rule. -/
theorem not_matchString_denotes :
    ¬ ∀ r : MatchRule ℕ, parseMatchRule r.matchString = some r.items ∧
      ∀ r' : MatchRule ℕ, r.matchString = r'.matchString → r.eq r' = true := by
  intro h
  have hsame := (h ⟨some "a',path='b".toList, none, none, none, none, none⟩).2
    ⟨some ['a'], some ['b'], none, none, none, none⟩ (by decide)
  exact absurd hsame (by decide)

end MatchRule

end AsyncRustbus
