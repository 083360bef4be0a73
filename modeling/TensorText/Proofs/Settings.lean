/-
What pairs of texts make of the settings.

A pair is no setting, spells one, or has one of our keys with a value that spells none; `Spells`
and `Bad` say which, without saying how it is found out.  Read one after another, the pairs do
what their settings do when these are set one after another, and the first bad pair ends it.

What was set last under a key is what remains of it, and no key has a say in what remains of
another.  So the settings are told by three look-ups, and if no key occurs twice, each look-up
finds the same wherever its pair stands.
-/
import Mathlib.Data.List.Induction
import Mathlib.Data.List.Nodup
import TensorText.Failure
import TensorText.Proofs.Steps

namespace TensorText

namespace Setting

/-! ### What one pair spells -/

/-- The word in the value of a switch: without the white space around it, in lower case. -/
def word (value : String) : String := String.ofList ((Text.trim value.toList).map Char.toLower)

/-- The keys that are ours. -/
def keys : List String := [enabledKey, strictKey, outputKey]

/-- The pair spells this setting. -/
inductive Spells : String × String → Setting → Prop
  | enabled {value : String} {b : Bool} (h : word value = toString b) :
      Spells (enabledKey, value) (.enabled b)
  | strict {value : String} {b : Bool} (h : word value = toString b) :
      Spells (strictKey, value) (.strict b)
  | output {value : String} (h : value ≠ "") : Spells (outputKey, value) (.output value)

/-- The pair has one of our keys, but no value for it. -/
inductive Bad : String × String → SettingFault → Prop
  | notBoolean {key value : String} (hkey : key = enabledKey ∨ key = strictKey)
      (htrue : word value ≠ "true") (hfalse : word value ≠ "false") :
      Bad (key, value) (.notBoolean key (word value))
  | emptyName : Bad (outputKey, "") (.emptyName outputKey)

theorem readSwitch_eq (key value : String) : readSwitch key value =
    if word value = "true" then .ok true
    else if word value = "false" then .ok false
    else .error (SettingFault.notBoolean key (word value)) := rfl

theorem readSwitch_eq_ok_iff {key value : String} {b : Bool} :
    readSwitch key value = .ok b ↔ word value = toString b := by
  have htrue : toString true = "true" := rfl
  have hfalse : toString false = "false" := rfl
  rw [readSwitch_eq]
  split
  · rename_i h
    rw [h]
    cases b <;> simp [htrue, hfalse]
  · split
    · rename_i h
      rw [h]
      cases b <;> simp [htrue, hfalse]
    · rename_i hnt hnf
      cases b <;> simp [htrue, hfalse, hnt, hnf]

theorem readSwitch_eq_error_iff {key value : String} {fault : SettingFault} :
    readSwitch key value = .error fault ↔
      word value ≠ "true" ∧ word value ≠ "false" ∧
        fault = SettingFault.notBoolean key (word value) := by
  rw [readSwitch_eq]
  split
  · rename_i h
    simp [h]
  · split
    · rename_i h
      simp [h]
    · rename_i htrue hfalse
      simp [htrue, hfalse, eq_comm]

/-! The three keys are different texts, so each branch of the reader is that of one of them. -/

theorem ofPair?_enabled (value : String) : ofPair? enabledKey value =
    (readSwitch enabledKey value).map fun b => some (.enabled b) := by
  rw [ofPair?, if_pos rfl]

theorem ofPair?_strict (value : String) : ofPair? strictKey value =
    (readSwitch strictKey value).map fun b => some (.strict b) := by
  rw [ofPair?, if_neg (by decide), if_pos rfl]

theorem ofPair?_output (value : String) : ofPair? outputKey value =
    if value = "" then .error (.emptyName outputKey) else .ok (some (.output value)) := by
  rw [ofPair?, if_neg (by decide), if_neg (by decide), if_pos rfl]

theorem ofPair?_other {key : String} (h : key ∉ keys) (value : String) :
    ofPair? key value = .ok none := by
  simp only [keys, List.mem_cons, List.not_mem_nil, or_false, not_or] at h
  rw [ofPair?, if_neg h.1, if_neg h.2.1, if_neg h.2.2]

theorem mem_keys {key : String} :
    key ∈ keys ↔ key = enabledKey ∨ key = strictKey ∨ key = outputKey := by
  simp [keys]

/-- A pair spells a setting, is bad, or has a key that is not one of ours. -/
theorem ofPair?_eq_some_iff {p : String × String} {x : Setting} :
    ofPair? p.1 p.2 = .ok (some x) ↔ Spells p x := by
  obtain ⟨key, value⟩ := p
  constructor
  · intro h
    by_cases hkey : key ∈ keys
    · obtain rfl | rfl | rfl := mem_keys.mp hkey
      · rw [ofPair?_enabled] at h
        obtain ⟨b, hb, hx⟩ := map_eq_ok.mp h
        cases hx
        exact .enabled (readSwitch_eq_ok_iff.mp hb)
      · rw [ofPair?_strict] at h
        obtain ⟨b, hb, hx⟩ := map_eq_ok.mp h
        cases hx
        exact .strict (readSwitch_eq_ok_iff.mp hb)
      · rw [ofPair?_output] at h
        split at h
        · cases h
        · rename_i hvalue
          cases h
          exact .output hvalue
    · rw [ofPair?_other hkey] at h
      cases h
  · intro h
    cases h with
    | enabled h =>
        rw [ofPair?_enabled, readSwitch_eq_ok_iff.mpr h]
        rfl
    | strict h =>
        rw [ofPair?_strict, readSwitch_eq_ok_iff.mpr h]
        rfl
    | output h => rw [ofPair?_output, if_neg h]

theorem ofPair?_eq_error_iff {p : String × String} {fault : SettingFault} :
    ofPair? p.1 p.2 = .error fault ↔ Bad p fault := by
  have hmap : ∀ {key value : String} (f : Bool → Option Setting),
      (readSwitch key value).map f = .error fault ↔ readSwitch key value = .error fault := by
    intro key value f
    cases readSwitch key value <;> simp [Except.map]
  obtain ⟨key, value⟩ := p
  constructor
  · intro h
    by_cases hkey : key ∈ keys
    · obtain rfl | rfl | rfl := mem_keys.mp hkey
      · rw [ofPair?_enabled, hmap, readSwitch_eq_error_iff] at h
        obtain ⟨htrue, hfalse, rfl⟩ := h
        exact .notBoolean (Or.inl rfl) htrue hfalse
      · rw [ofPair?_strict, hmap, readSwitch_eq_error_iff] at h
        obtain ⟨htrue, hfalse, rfl⟩ := h
        exact .notBoolean (Or.inr rfl) htrue hfalse
      · rw [ofPair?_output] at h
        by_cases hvalue : value = ""
        · rw [hvalue, if_pos rfl] at h
          cases h
          rw [hvalue]
          exact .emptyName
        · rw [if_neg hvalue] at h
          cases h
    · rw [ofPair?_other hkey] at h
      cases h
  · intro h
    cases h with
    | notBoolean hkey htrue hfalse =>
        have hswitch (key : String) :
            readSwitch key value = .error (.notBoolean key (word value)) :=
          readSwitch_eq_error_iff.mpr ⟨htrue, hfalse, rfl⟩
        rcases hkey with rfl | rfl
        · rw [ofPair?_enabled, hmap, hswitch]
        · rw [ofPair?_strict, hmap, hswitch]
    | emptyName => rw [ofPair?_output, if_pos rfl]

theorem ofPair?_eq_none_iff {p : String × String} :
    ofPair? p.1 p.2 = .ok none ↔ p.1 ∉ keys := by
  have hmap : ∀ {x : Except SettingFault Bool} (f : Bool → Setting),
      (x.map fun b => some (f b)) ≠ .ok none := by
    intro x f
    cases x <;> simp [Except.map]
  refine ⟨fun h hkey => ?_, fun h => ofPair?_other h p.2⟩
  obtain ⟨key, value⟩ := p
  obtain rfl | rfl | rfl := mem_keys.mp hkey
  · rw [ofPair?_enabled] at h
    exact hmap _ h
  · rw [ofPair?_strict] at h
    exact hmap _ h
  · rw [ofPair?_output] at h
    split at h
    · cases h
    · cases h

end Setting

namespace Settings

open Setting

/-! ### Pairs one after another -/

/-- Settings set one after another. -/
def setAll (s : Settings) (settings : List Setting) : Settings := settings.foldl set s

theorem setPair_eq (s : Settings) (p : String × String) :
    s.setPair p = (ofPair? p.1 p.2).map fun x => s.setAll x.toList := by
  unfold setPair
  cases ofPair? p.1 p.2 with
  | error fault => rfl
  | ok x =>
      cases x with
      | none => rfl
      | some x => rfl

/-- Pairs are read like the settings they spell are set, unless one is bad. -/
theorem foldlM_setPair (s : Settings) (pairs : List (String × String)) :
    pairs.foldlM setPair s =
      (pairs.mapM fun p => ofPair? p.1 p.2).map fun xs => s.setAll (xs.flatMap Option.toList) := by
  induction pairs generalizing s with
  | nil => rfl
  | cons p pairs ih =>
      rw [List.foldlM_cons, List.mapM_cons, setPair_eq]
      cases ofPair? p.1 p.2 with
      | error fault => rfl
      | ok x =>
          show pairs.foldlM setPair (s.setAll x.toList) = _
          rw [ih]
          cases pairs.mapM fun p => ofPair? p.1 p.2 with
          | error fault => rfl
          | ok xs =>
              refine congrArg Except.ok ?_
              show _ = s.setAll (x.toList ++ xs.flatMap Option.toList)
              exact (List.foldl_append).symm

/-- What pairs spell is spelt, one setting for each, by those with our keys. -/
theorem forall₂_spells {pairs : List (String × String)} {xs : List (Option Setting)}
    (h : List.Forall₂ (fun p x => ofPair? p.1 p.2 = .ok x) pairs xs) :
    List.Forall₂ Spells (pairs.filter fun p => p.1 ∈ keys) (xs.flatMap Option.toList) := by
  induction h with
  | nil => exact .nil
  | @cons p x pairs xs hx _ ih =>
      cases x with
      | none =>
          rw [List.filter_cons_of_neg (by simpa using ofPair?_eq_none_iff.mp hx)]
          exact ih
      | some x =>
          have hkey : p.1 ∈ keys := by
            by_contra hnot
            rw [ofPair?_eq_none_iff.mpr hnot] at hx
            cases hx
          rw [List.filter_cons_of_pos (by simpa using hkey)]
          exact .cons (ofPair?_eq_some_iff.mp hx) ih

theorem isOk_iff_not_bad {p : String × String} :
    (∃ x, ofPair? p.1 p.2 = .ok x) ↔ ∀ fault, ¬Bad p fault := by
  cases h : ofPair? p.1 p.2 with
  | ok x =>
      simp only [Except.ok.injEq, exists_eq', true_iff]
      intro fault hbad
      rw [ofPair?_eq_error_iff.mpr hbad] at h
      cases h
  | error fault =>
      simp only [reduceCtorEq, exists_false, false_iff, not_forall, not_not]
      exact ⟨fault, ofPair?_eq_error_iff.mp h⟩

/-- The first bad pair decides. -/
theorem ofPairs_eq_error_iff {pairs : List (String × String)} {fault : SettingFault} :
    ofPairs pairs = .error fault ↔ ∃ before p after, pairs = before ++ p :: after ∧
      (∀ q ∈ before, ∀ f, ¬Bad q f) ∧ Bad p fault := by
  have hmap : ofPairs pairs = .error fault ↔
      (pairs.mapM fun p => ofPair? p.1 p.2) = .error fault := by
    rw [ofPairs, foldlM_setPair]
    cases pairs.mapM fun p => ofPair? p.1 p.2 <;> simp [Except.map]
  simp only [hmap, mapM_eq_error, isOk_iff_not_bad, ofPair?_eq_error_iff]

/-- Pairs are read as the settings they spell, set one after another. -/
theorem exists_calls {pairs : List (String × String)} {s : Settings}
    (h : ofPairs pairs = .ok s) : ∃ calls,
      List.Forall₂ Spells (pairs.filter fun p => p.1 ∈ keys) calls ∧
        s = default.setAll calls := by
  rw [ofPairs, foldlM_setPair] at h
  obtain ⟨xs, hxs, rfl⟩ := map_eq_ok.mp h
  exact ⟨_, forall₂_spells (mapM_eq_ok.mp hxs), rfl⟩

/-! ### The last pair of each key -/

/-- The value of the last pair with the key. -/
def lastValue? (key : String) (pairs : List (String × String)) : Option String :=
  pairs.reverse.lookup key

/-- The settings that the last value of each key makes. -/
def ofLast (pairs : List (String × String)) : Settings where
  enabled := ((lastValue? enabledKey pairs).map fun v => word v == "true").getD default.enabled
  strict := ((lastValue? strictKey pairs).map fun v => word v == "true").getD default.strict
  output := (lastValue? outputKey pairs).getD default.output

theorem lastValue?_concat (key : String) (pairs : List (String × String))
    (p : String × String) :
    lastValue? key (pairs ++ [p]) = if key = p.1 then some p.2 else lastValue? key pairs := by
  rw [lastValue?, List.reverse_append, List.reverse_singleton, List.singleton_append,
    List.lookup_cons]
  split
  · rename_i h
    rw [if_pos (by simpa using h)]
  · rename_i h
    rw [if_neg (by simpa using h)]
    rfl

theorem ofLast_concat_of_not_mem {p : String × String} (h : p.1 ∉ keys)
    (pairs : List (String × String)) : ofLast (pairs ++ [p]) = ofLast pairs := by
  simp only [keys, List.mem_cons, List.not_mem_nil, or_false, not_or] at h
  simp only [ofLast, lastValue?_concat, if_neg (Ne.symm h.1), if_neg (Ne.symm h.2.1),
    if_neg (Ne.symm h.2.2)]

/-- A key has no say in what remains of the others. -/
theorem ofLast_concat {p : String × String} {x : Setting} (h : Spells p x)
    (pairs : List (String × String)) : ofLast (pairs ++ [p]) = (ofLast pairs).set x := by
  have hword : ∀ {value : String} {b : Bool}, word value = toString b →
      (word value == "true") = b := by
    intro value b h
    rw [h]
    cases b <;> rfl
  have hkeys : enabledKey ≠ strictKey ∧ enabledKey ≠ outputKey ∧ strictKey ≠ outputKey := by decide
  cases h with
  | enabled h =>
      simp only [ofLast, lastValue?_concat, if_true, if_neg hkeys.1.symm, if_neg hkeys.2.1.symm,
        Option.map_some, Option.getD_some, hword h]
      rfl
  | strict h =>
      simp only [ofLast, lastValue?_concat, if_true, if_neg hkeys.1, if_neg hkeys.2.2.symm,
        Option.map_some, Option.getD_some, hword h]
      rfl
  | output h =>
      simp only [ofLast, lastValue?_concat, if_true, if_neg hkeys.2.1, if_neg hkeys.2.2,
        Option.getD_some]
      rfl

theorem eq_ofLast {pairs : List (String × String)} {s : Settings}
    (h : ofPairs pairs = .ok s) : s = ofLast pairs := by
  induction pairs using List.reverseRecOn generalizing s with
  | nil =>
      cases h
      rfl
  | append_singleton pairs p ih =>
      rw [ofPairs, List.foldlM_append] at h
      obtain ⟨s', hs', h⟩ := bind_eq_ok.mp h
      obtain rfl := ih hs'
      rw [List.foldlM_cons] at h
      obtain ⟨s', hp, h⟩ := bind_eq_ok.mp h
      cases h
      rw [setPair_eq] at hp
      obtain ⟨x, hx, rfl⟩ := map_eq_ok.mp hp
      cases x with
      | none => exact (ofLast_concat_of_not_mem (ofPair?_eq_none_iff.mp hx) pairs).symm
      | some x => exact (ofLast_concat (ofPair?_eq_some_iff.mp hx) pairs).symm

/-- **Pairs none of which is bad are read, and the last of each key counts.** -/
theorem ofPairs_eq_ok_iff {pairs : List (String × String)} {s : Settings} :
    ofPairs pairs = .ok s ↔ (∀ p ∈ pairs, ∀ fault, ¬Bad p fault) ∧ s = ofLast pairs := by
  constructor
  · intro h
    refine ⟨?_, eq_ofLast h⟩
    rw [ofPairs, foldlM_setPair] at h
    obtain ⟨xs, hxs, -⟩ := map_eq_ok.mp h
    exact fun p hp => isOk_iff_not_bad.mp (exists_ok_of_mapM hxs p hp)
  · rintro ⟨hgood, rfl⟩
    cases h : ofPairs pairs with
    | ok s => rw [eq_ofLast h]
    | error fault =>
        obtain ⟨before, p, after, rfl, -, hbad⟩ := ofPairs_eq_error_iff.mp h
        exact absurd hbad (hgood p (by simp) fault)

/-! ### Pairs in another order -/

/-- Where no key occurs twice, a value is the last of its key wherever its pair stands. -/
theorem lastValue?_eq_some_iff {pairs : List (String × String)}
    (h : (pairs.map Prod.fst).Nodup) {key value : String} :
    lastValue? key pairs = some value ↔ (key, value) ∈ pairs := by
  rw [lastValue?, List.lookup_eq_some_iff, ← List.mem_reverse]
  constructor
  · rintro ⟨before, after, hsplit, -⟩
    rw [hsplit]
    simp
  · intro hmem
    obtain ⟨before, after, hsplit⟩ := List.append_of_mem hmem
    refine ⟨before, after, hsplit, ?_⟩
    rw [← List.nodup_reverse, ← List.map_reverse, hsplit, List.map_append, List.map_cons] at h
    intro p hp
    rw [bne_iff_ne]
    rintro rfl
    exact (List.nodup_append.mp h).2.2 _ (List.mem_map_of_mem hp) _ (by simp) rfl

theorem ofLast_perm {pairs pairs' : List (String × String)} (hperm : pairs.Perm pairs')
    (h : (pairs.map Prod.fst).Nodup) : ofLast pairs = ofLast pairs' := by
  have h' : (pairs'.map Prod.fst).Nodup := (hperm.map Prod.fst).nodup_iff.mp h
  have hlast : ∀ key, lastValue? key pairs = lastValue? key pairs' := by
    intro key
    ext value
    rw [lastValue?_eq_some_iff h, lastValue?_eq_some_iff h', hperm.mem_iff]
  simp only [ofLast, hlast]

/--
**The last pair of a key counts, and the first bad one ends it all.**  Reading pairs fails exactly
if one is bad, with the fault of the first that is, and this is a failure of the settings.  If none
is, each of the settings is what the last pair with its key says, or else what holds where nothing
is set; the same comes of setting, one after another, what the pairs with our keys spell.  Where no
key occurs twice, the pairs may stand in any order.
-/
theorem ofPairs_last_wins (pairs : List (String × String)) :
    ((∃ fault, ofPairs pairs = .error fault) ↔ ∃ p ∈ pairs, ∃ fault, Bad p fault) ∧
    (∀ fault, ofPairs pairs = .error fault ↔ ∃ before p after, pairs = before ++ p :: after ∧
      (∀ q ∈ before, ∀ f, ¬Bad q f) ∧ Bad p fault) ∧
    (∀ fault, (Failure.badSetting fault).kind = .setting ∧
      (Failure.badSetting fault).detail = fault.message) ∧
    (∀ s, ofPairs pairs = .ok s ↔ (∀ p ∈ pairs, ∀ fault, ¬Bad p fault) ∧ s = ofLast pairs) ∧
    (∀ s, ofPairs pairs = .ok s → ∃ calls,
      List.Forall₂ Spells (pairs.filter fun p => p.1 ∈ keys) calls ∧ s = default.setAll calls) ∧
    ∀ pairs', pairs.Perm pairs' → (pairs.map Prod.fst).Nodup →
      (∃ s, ofPairs pairs = .ok s ∧ ofPairs pairs' = .ok s) ∨
        ∃ fault fault', ofPairs pairs = .error fault ∧ ofPairs pairs' = .error fault' := by
  have hfails : ∀ pairs, (∃ fault, ofPairs pairs = .error fault) ↔
      ∃ p ∈ pairs, ∃ fault, Bad p fault := by
    intro pairs
    constructor
    · rintro ⟨fault, h⟩
      obtain ⟨before, p, after, rfl, -, hbad⟩ := ofPairs_eq_error_iff.mp h
      exact ⟨p, by simp, fault, hbad⟩
    · rintro ⟨p, hp, fault, hbad⟩
      cases h : ofPairs pairs with
      | error fault => exact ⟨fault, rfl⟩
      | ok s => exact absurd hbad ((ofPairs_eq_ok_iff.mp h).1 p hp fault)
  refine ⟨hfails pairs, fun fault => ofPairs_eq_error_iff, fun fault => ⟨rfl, rfl⟩,
    fun s => ofPairs_eq_ok_iff, fun s => exists_calls, ?_⟩
  intro pairs' hperm hkeys
  by_cases hbad : ∃ p ∈ pairs, ∃ fault, Bad p fault
  · obtain ⟨fault, h⟩ := (hfails pairs).mpr hbad
    obtain ⟨p, hp, hbad⟩ := hbad
    obtain ⟨fault', h'⟩ := (hfails pairs').mpr ⟨p, hperm.mem_iff.mp hp, hbad⟩
    exact Or.inr ⟨fault, fault', h, h'⟩
  · push Not at hbad
    refine Or.inl ⟨ofLast pairs, ofPairs_eq_ok_iff.mpr ⟨hbad, rfl⟩, ofPairs_eq_ok_iff.mpr ⟨?_, ?_⟩⟩
    · intro p hp
      exact hbad p (hperm.mem_iff.mpr hp)
    · exact ofLast_perm hperm hkeys

/-- Three keys of which one is not ours, in two orders, with a switch in capital letters; and two
bad pairs behind one that is good, the first of which is reported. -/
theorem ofPairs_last_wins_orders :
    [(outputKey, "a"), ("vw.model", "x"), (strictKey, " TRUE\t")].Perm
        [(strictKey, " TRUE\t"), (outputKey, "a"), ("vw.model", "x")] ∧
      ofPairs [(outputKey, "a"), ("vw.model", "x"), (strictKey, " TRUE\t")] =
        .ok ⟨true, true, "a"⟩ ∧
      ofPairs [(strictKey, " TRUE\t"), (outputKey, "a"), ("vw.model", "x")] =
        .ok ⟨true, true, "a"⟩ ∧
      ofPairs [(enabledKey, "false"), (enabledKey, "No"), (outputKey, "")] =
        .error (.notBoolean enabledKey "no") := by
  have hperm : [(outputKey, "a"), ("vw.model", "x"), (strictKey, " TRUE\t")].Perm
      [(strictKey, " TRUE\t"), (outputKey, "a"), ("vw.model", "x")] := by decide
  have hread : ofPairs [(outputKey, "a"), ("vw.model", "x"), (strictKey, " TRUE\t")] =
      .ok ⟨true, true, "a"⟩ := rfl
  have hword : word "No" = "no" := by decide
  refine ⟨hperm, hread, ?_, ?_⟩
  · rcases (ofPairs_last_wins _).2.2.2.2.2 _ hperm (by decide) with
      ⟨s, hs, hs'⟩ | ⟨fault, fault', hfault, -⟩
    · rw [hread] at hs
      cases hs
      exact hs'
    · rw [hread] at hfault
      cases hfault
  · have hbad : Bad (enabledKey, "No") (.notBoolean enabledKey (word "No")) :=
      .notBoolean (Or.inl rfl) (by decide) (by decide)
    rw [hword] at hbad
    refine ((ofPairs_last_wins _).2.1 _).mpr
      ⟨[(enabledKey, "false")], (enabledKey, "No"), [(outputKey, "")], rfl, ?_, hbad⟩
    have hgood : ofPair? enabledKey "false" = .ok (some (.enabled false)) := rfl
    intro q hq
    rw [List.mem_singleton.mp hq]
    exact isOk_iff_not_bad.mp ⟨_, hgood⟩

end Settings

end TensorText
