/-
The ways to spell data.

Many JSON values are read as one datum (`Spells`): the members of an object may stand in any order, and others among them
that no field asks for; a field that holds nothing may be `null` or left out, as far as its schema admits; and names may
have capitals. Together with the blanks of a text (`Scan.TextOf`) these are the ways to write a datum.

- `readMembers_declared`: the declared keys are met in the order in which they stand, and everything else is passed over.
- `settle_of_forall₂`: each field is settled by what was met under its key, or by what stands in for it.
- `read_spelled`, `readText_spelled`: each spelling is read as the datum.
-/
import BuildImport.Json.Schema
import BuildImport.Proofs.Json.Layout
import BuildImport.Proofs.Outcomes

namespace BuildImport

open Scan

/-! ## Spellings -/

/-- what stands in for a field that is missing in an object -/
def Absence.standIn? : Absence → Option Datum
  | .required => none
  | .default d => some d
  | .nothing => some .none

namespace Schema

/-- the members under one of the keys -/
def declared (keys : List String) (ms : List (String × Json)) : List (String × Json) := ms.filter fun m => m.1 ∈ keys

theorem mem_declared {keys : List String} {ms : List (String × Json)} {m : String × Json} :
    m ∈ declared keys ms ↔ m ∈ ms ∧ m.1 ∈ keys := by
  simp [declared]

/-- each of the keys stands at most once -/
def Once (keys : List String) (ms : List (String × Json)) : Prop := ((declared keys ms).map (·.1)).Nodup

theorem Once.of_subset {keys keys' : List String} {ms : List (String × Json)} (h : Once keys' ms) (hsub : keys ⊆ keys') :
    Once keys ms := by
  refine h.sublist ((List.monotone_filter_right ms fun m hm => ?_).map _)
  simpa using hsub (by simpa using hm)

end Schema

open Schema

mutual
/-- JSON values that spell a datum. A variant is looked through before it is read, so that all its members must be sound,
with brackets less than `depth` deep. -/
inductive Spells : Nat → Schema → Datum → Json → Prop
  | text {depth : Nat} (s : String) : Spells depth .text (.text s) (.text s)
  | flag {depth : Nat} (b : Bool) : Spells depth .flag (.flag b) (.bool b)
  | count {depth max n : Nat} : n ≤ max → max < Nat.pow 2 53 → Spells depth (.count max) (.count n) (.number n)
  | name {depth : Nat} {known : List String} {s given : String} :
      nameOf? known given = some s → Spells depth (.name known) (.text s) (.text given)
  | list {depth : Nat} {item : Schema} {ps : List (Datum × Json)} :
      (∀ p ∈ ps, Spells (depth - 1) item p.1 p.2) →
      Spells depth (.list item) (.list (ps.map (·.1))) (.array (ps.map (·.2)))
  | dictionary {depth : Nat} {value : Schema} {es : List (String × Datum × Json)} :
      (∀ e ∈ es, Spells (depth - 1) value e.2.1 e.2.2) →
      Spells depth (.dictionary value) (.dictionary (es.map fun e => (e.1, e.2.1)))
        (.object (es.map fun e => (e.1, e.2.2)))
  | record {depth : Nat} {fields : List RecordField} {ds : List Datum} {ms : List (String × Json)} :
      (fields.map (·.1)).Nodup → Once (fields.map (·.1)) ms → FieldsSpelled (depth - 1) ms fields ds →
      Spells depth (.record fields) (.record ds) (.object ms)
  | variant {depth : Nat} {key s : String} {cases : List (String × List RecordField)} {fields : List RecordField}
      {ds : List Datum} {ms : List (String × Json)} :
      cases.lookup s = some fields → (key, .text s) ∈ ms → (key :: fields.map (·.1)).Nodup →
      Once (key :: fields.map (·.1)) ms → FieldsSpelled (depth - 1) ms fields ds →
      (∀ m ∈ ms, whole (depth - 1) (ofJson m.2) = none) → Spells depth (.variant key cases) (.variant s ds) (.object ms)

/-- members that spell the data of fields -/
inductive FieldsSpelled : Nat → List (String × Json) → List RecordField → List Datum → Prop
  | nil {depth : Nat} {ms : List (String × Json)} : FieldsSpelled depth ms [] []
  | held {depth : Nat} {ms : List (String × Json)} {key : String} {presence : Presence} {absence : Absence}
      {schema : Schema} {d : Datum} {j : Json} {fs : List RecordField} {ds : List Datum} :
      (key, j) ∈ ms → Spells depth schema d j → FieldsSpelled depth ms fs ds →
      FieldsSpelled depth ms ((key, presence, absence, schema) :: fs) (d :: ds)
  | null {depth : Nat} {ms : List (String × Json)} {key : String} {presence : Presence} {absence : Absence}
      {schema : Schema} {fs : List RecordField} {ds : List Datum} :
      (key, .null) ∈ ms → presence.admitsNull = true → FieldsSpelled depth ms fs ds →
      FieldsSpelled depth ms ((key, presence, absence, schema) :: fs) (.none :: ds)
  | missing {depth : Nat} {ms : List (String × Json)} {key : String} {presence : Presence} {absence : Absence}
      {schema : Schema} {d : Datum} {fs : List RecordField} {ds : List Datum} :
      key ∉ ms.map (·.1) → absence.standIn? = some d → FieldsSpelled depth ms fs ds →
      FieldsSpelled depth ms ((key, presence, absence, schema) :: fs) (d :: ds)
end

namespace Schema

/-! ## Scans of JSON values -/

/-- a number that a schema admits is scanned as itself -/
theorem ofJson_number {n : Nat} (h : n < Nat.pow 2 53) : ofJson (.number n) = .number (some n) := by
  rw [ofJson, isTooLarge_digits h]
  rfl

theorem ofMembers_eq_map (ms : List (String × Json)) : ofMembers ms = ms.map fun m => (.ok m.1, ofJson m.2) := by
  induction ms with
  | nil => rfl
  | cons m ms ih => rw [ofMembers, ih, List.map_cons]

mutual
/-- whatever a JSON value is, it can be passed over -/
theorem skip_ofJson : ∀ j : Json, (ofJson j).skip = none
  | .null | .bool _ | .text _ => rfl
  | .number n => by
    rw [ofJson]
    split <;> rfl
  | .array vs => by rw [ofJson, skip, skipItems_ofItems vs]; rfl
  | .object ms => by rw [ofJson, skip, skipMembers_ofMembers ms]; rfl

theorem skipItems_ofItems : ∀ vs : List Json, skipItems (ofItems vs) = none
  | [] => rfl
  | v :: vs => by rw [ofItems, skipItems, skip_ofJson v, skipItems_ofItems vs]; rfl

theorem skipMembers_ofMembers : ∀ ms : List (String × Json), skipMembers (ofMembers ms) = none
  | [] => rfl
  | (_, v) :: ms => by rw [ofMembers, skipMembers, skip_ofJson v, skipMembers_ofMembers ms]; rfl
end

/-- only nothing is spelled as `null` -/
theorem isNull_of_spells {depth : Nat} {schema : Schema} {d : Datum} {j : Json} (h : Spells depth schema d j) :
    (ofJson j).isNull = false := by
  cases h with
  | count hn hmax =>
    rw [ofJson_number (Nat.lt_of_le_of_lt hn hmax)]
    rfl
  | text | flag | name | list | dictionary | record | variant => rfl

/-! ## Lists and dictionaries -/

theorem readItems_map {depth : Nat} {item : Schema} {ps : List (Datum × Json)}
    (h : ∀ p ∈ ps, read depth item (ofJson p.2) = .ok p.1) :
    readItems depth item (ofItems (ps.map (·.2))) = .ok (ps.map (·.1)) := by
  induction ps with
  | nil => rfl
  | cons p ps ih =>
    rw [List.map_cons, ofItems, readItems, h p List.mem_cons_self, ih fun q hq => h q (List.mem_cons_of_mem _ hq)]
    rfl

theorem readEntries_map {depth : Nat} {value : Schema} {es : List (String × Datum × Json)}
    (h : ∀ e ∈ es, read depth value (ofJson e.2.2) = .ok e.2.1) :
    readEntries depth value (ofMembers (es.map fun e => (e.1, e.2.2))) = .ok (es.map fun e => (e.1, e.2.1)) := by
  induction es with
  | nil => rfl
  | cons e es ih =>
    rw [List.map_cons, ofMembers, readEntries, h e List.mem_cons_self, ih fun f hf => h f (List.mem_cons_of_mem _ hf)]
    rfl

/-! ## Fields among members -/

/-- what is read of a field: nothing of `null` where that may stand, else what its schema says -/
def readField (depth : Nat) (presence : Presence) (schema : Schema) (v : Scan) : Except Fault Datum :=
  if presence.admitsNull && v.isNull then pure .none else read depth schema v

theorem readField_of_read {depth : Nat} {presence : Presence} {schema : Schema} {v : Scan} (h : v.isNull = false) :
    readField depth presence schema v = read depth schema v := by
  simp [readField, h]

/-- where a field stands among members: under its key, with a value that is read as the datum, or nowhere, and the datum
stands in for it -/
def Stands (depth : Nat) (ms : List (String × Json)) (f : RecordField) (d : Datum) : Prop :=
  (∃ j, (f.1, j) ∈ ms ∧ readField depth f.2.1 f.2.2.2 (ofJson j) = .ok d) ∨
    f.1 ∉ ms.map (·.1) ∧ f.2.2.1.standIn? = some d

section

variable {α : Type} {es : List (String × α)} {key : String}

theorem mem_of_lookup {a : α} (h : es.lookup key = some a) : (key, a) ∈ es := by
  rw [List.lookup_eq_some_iff] at h
  obtain ⟨before, after, rfl, -⟩ := h
  simp

theorem lookup_eq_none_of_not_mem (h : key ∉ es.map (·.1)) : es.lookup key = none := by
  rw [List.lookup_eq_none_iff]
  intro e he
  rw [bne_iff_ne]
  rintro rfl
  exact h (List.mem_map_of_mem he)

theorem exists_lookup_of_mem (h : key ∈ es.map (·.1)) : ∃ a, es.lookup key = some a := by
  cases hlookup : es.lookup key with
  | some a => exact ⟨a, rfl⟩
  | none =>
    obtain ⟨e, he, rfl⟩ := List.mem_map.1 h
    rw [List.lookup_eq_none_iff] at hlookup
    exact absurd rfl (bne_iff_ne.1 (hlookup e he))

end

/-- data that stand beside keys, no key twice, are a function of the keys -/
theorem exists_values {R : RecordField → Datum → Prop} {fs : List RecordField} {ds : List Datum}
    (h : List.Forall₂ R fs ds) (hnodup : (fs.map (·.1)).Nodup) :
    ∃ value : String → Datum, ds = fs.map (fun f => value f.1) ∧ ∀ f ∈ fs, R f (value f.1) := by
  induction h with
  | nil => exact ⟨fun _ => .none, rfl, fun _ => nofun⟩
  | @cons f d fs ds hd _ ih =>
    obtain ⟨hkey, hnodup⟩ := List.nodup_cons.1 hnodup
    obtain ⟨value, rfl, hvalue⟩ := ih hnodup
    have hother : ∀ g ∈ fs, Function.update value f.1 d g.1 = value g.1 := fun g hg =>
      Function.update_of_ne (ne_of_mem_of_not_mem (List.mem_map_of_mem hg) hkey) _ _
    refine ⟨Function.update value f.1 d, ?_, ?_⟩
    · rw [List.map_cons, Function.update_self, List.map_congr_left hother]
    · rw [List.forall_mem_cons, Function.update_self]
      exact ⟨hd, fun g hg => by rw [hother g hg]; exact hvalue g hg⟩

section

variable {depth : Nat} {all : List RecordField} {met : List (String × Datum)} {key : String} {presence : Presence}
  {absence : Absence} {schema : Schema} {v : Scan} {ms : List (Except Flaw String × Scan)}

/-- one more field is met -/
theorem readMembers_field {d : Datum} (hfield : all.lookup key = some (presence, absence, schema))
    (hmet : met.lookup key = none) (hread : readField depth presence schema v = .ok d) :
    readMembers depth all met ((.ok key, v) :: ms) = readMembers depth all (met ++ [(key, d)]) ms := by
  rw [readMembers]
  rw [readField] at hread
  split at hread
  · next hnull =>
    obtain rfl := Except.ok.inj hread
    simp [keyText, hfield, hmet, hnull, bind, Except.bind, pure, Except.pure]
  · next hnull => simp [keyText, hfield, hmet, hnull, hread, bind, Except.bind]

/-- a key that no field has is passed over -/
theorem readMembers_skip (hfield : all.lookup key = none) (hskip : v.skip = none) :
    readMembers depth all met ((.ok key, v) :: ms) = readMembers depth all met ms := by
  rw [readMembers]
  simp [keyText, hfield, hskip, after, bind, Except.bind]

end

/-- **The declared keys are met in the order in which they stand**, and the other members are passed over. -/
theorem readMembers_declared {depth : Nat} {fields : List RecordField} {value : String → Datum}
    {ms : List (String × Json)} {met : List (String × Datum)}
    (hread : ∀ m ∈ ms, ∀ presence absence schema, fields.lookup m.1 = some (presence, absence, schema) →
      readField depth presence schema (ofJson m.2) = .ok (value m.1))
    (honce : (met.map (·.1) ++ (declared (fields.map (·.1)) ms).map (·.1)).Nodup) :
    readMembers depth fields met (ofMembers ms) =
      .ok (met ++ (declared (fields.map (·.1)) ms).map fun m => (m.1, value m.1)) := by
  induction ms generalizing met with
  | nil => simp [ofMembers, readMembers, declared]
  | cons m ms ih =>
    obtain ⟨key, j⟩ := m
    rw [List.forall_mem_cons] at hread
    rw [ofMembers]
    by_cases hkey : key ∈ fields.map (·.1)
    · have hdeclared : declared (fields.map (·.1)) ((key, j) :: ms) = (key, j) :: declared (fields.map (·.1)) ms :=
        List.filter_cons_of_pos (by simpa using hkey)
      rw [hdeclared, List.map_cons] at honce ⊢
      obtain ⟨⟨presence, absence, schema⟩, hfield⟩ := exists_lookup_of_mem hkey
      have hmet : met.lookup key = none := by
        refine lookup_eq_none_of_not_mem fun hmem => ?_
        exact (List.nodup_append.1 honce).2.2 _ hmem _ List.mem_cons_self rfl
      rw [readMembers_field hfield hmet (hread.1 _ _ _ hfield), ih hread.2 (by simpa using honce), List.append_assoc]
      rfl
    · have hdeclared : declared (fields.map (·.1)) ((key, j) :: ms) = declared (fields.map (·.1)) ms :=
        List.filter_cons_of_neg (by simpa using hkey)
      rw [hdeclared] at honce ⊢
      rw [readMembers_skip (lookup_eq_none_of_not_mem hkey) (skip_ofJson j), ih hread.2 honce]

/-- each field is settled by what was met under its key, or by what stands in for it -/
theorem settle_of_forall₂ {met : List (String × Datum)} {fs : List RecordField} {ds : List Datum}
    (h : List.Forall₂ (fun f d => (met.lookup f.1).or f.2.2.1.standIn? = some d) fs ds) : settle met fs = .ok ds := by
  induction h with
  | nil => rfl
  | @cons f d fs ds hd _ ih =>
    obtain ⟨key, presence, absence, schema⟩ := f
    cases hmet : met.lookup key with
    | some d' =>
      obtain rfl : d' = d := by simpa [hmet] using hd
      simp [settle, hmet, ih, bind, Except.bind, pure, Except.pure]
    | none =>
      rw [hmet, Option.none_or] at hd
      cases absence with
      | required => cases hd
      | default d' | nothing =>
        obtain rfl := Option.some.inj hd
        simp [settle, hmet, ih, bind, Except.bind, pure, Except.pure]

/-- what stands beside keys, as a function of the keys, is found under each of them -/
theorem lookup_map_value {value : String → Datum} {ms : List (String × Json)} {key : String} (h : key ∈ ms.map (·.1)) :
    (ms.map fun m => (m.1, value m.1)).lookup key = some (value key) := by
  have hkey : key ∈ (ms.map fun m => (m.1, value m.1)).map (·.1) := by simpa using h
  obtain ⟨d, hd⟩ := exists_lookup_of_mem hkey
  obtain ⟨m, -, hm⟩ := List.mem_map.1 (mem_of_lookup hd)
  rw [hd, ← (Prod.mk.inj hm).1, ← (Prod.mk.inj hm).2]

/-- the fields of a record are read from members among which each stands once or nowhere -/
theorem exists_readMembers {depth : Nat} {fields : List RecordField} {ds : List Datum} {ms : List (String × Json)}
    (hnodup : (fields.map (·.1)).Nodup) (honce : Once (fields.map (·.1)) ms)
    (h : List.Forall₂ (Stands depth ms) fields ds) :
    ∃ met, readMembers depth fields [] (ofMembers ms) = .ok met ∧ settle met fields = .ok ds := by
  obtain ⟨value, rfl, hstands⟩ := exists_values h hnodup
  -- a member under a declared key is the one that the field is read from
  have hread : ∀ m ∈ ms, ∀ presence absence schema, fields.lookup m.1 = some (presence, absence, schema) →
      readField depth presence schema (ofJson m.2) = .ok (value m.1) := by
    intro m hm presence absence schema hfield
    have hkey : m.1 ∈ fields.map (·.1) := List.mem_map_of_mem (mem_of_lookup hfield)
    rcases hstands _ (mem_of_lookup hfield) with ⟨j, hj, hread⟩ | ⟨hmissing, -⟩
    · have hsame : m = (m.1, j) :=
        List.inj_on_of_nodup_map honce (mem_declared.2 ⟨hm, hkey⟩) (mem_declared.2 ⟨hj, hkey⟩) rfl
      rwa [congrArg Prod.snd hsame]
    · exact absurd (List.mem_map_of_mem hm) hmissing
  have hsettle : ∀ f ∈ fields, (((declared (fields.map (·.1)) ms).map fun m => (m.1, value m.1)).lookup f.1).or
      f.2.2.1.standIn? = some (value f.1) := by
    intro f hf
    have hkey : f.1 ∈ fields.map (·.1) := List.mem_map_of_mem hf
    rcases hstands f hf with ⟨j, hj, -⟩ | ⟨hmissing, hstandIn⟩
    · have hmem : f.1 ∈ (declared (fields.map (·.1)) ms).map (·.1) :=
        List.mem_map.2 ⟨(f.1, j), mem_declared.2 ⟨hj, hkey⟩, rfl⟩
      rw [lookup_map_value hmem, Option.some_or]
    · rw [lookup_eq_none_of_not_mem, Option.none_or, hstandIn]
      simp only [List.map_map, declared]
      exact fun hmem => hmissing ((List.filter_sublist.map _).subset hmem)
  refine ⟨_, readMembers_declared hread honce, settle_of_forall₂ ?_⟩
  exact List.forall₂_map_right_iff.2 (List.forall₂_same.2 hsettle)

/-! ## The choice of a variant -/

/-- the text under the key chooses the fields -/
theorem choice_cons {key s : String} {cases : List (String × List RecordField)} {depth : Nat}
    {fields : List RecordField} {ms : List (Except Flaw String × Scan)} (hcase : cases.lookup s = some fields) :
    choice key cases depth none ((.ok key, .text s) :: ms) = choice key cases depth (some (s, fields)) ms := by
  rw [choice]
  simp [keyText, hcase, bind, Except.bind]

/-- members under other keys are looked through -/
theorem choice_append {key : String} {cases : List (String × List RecordField)} {depth : Nat}
    {chosen : Option (String × List RecordField)} {ms : List (String × Json)} {rest : List (Except Flaw String × Scan)}
    (hkey : key ∉ ms.map (·.1)) (hwhole : ∀ m ∈ ms, whole depth (ofJson m.2) = none) :
    choice key cases depth chosen (ofMembers ms ++ rest) = choice key cases depth chosen rest := by
  induction ms with
  | nil => rfl
  | cons m ms ih =>
    rw [List.map_cons, List.mem_cons, not_or] at hkey
    rw [List.forall_mem_cons] at hwhole
    rw [ofMembers, List.cons_append, choice.eq_def]
    simp only [keyText, bind, Except.bind, if_neg (Ne.symm hkey.1), hwhole.1, after]
    exact ih hkey.2 hwhole.2

theorem choice_eq_ok {key s : String} {cases : List (String × List RecordField)} {depth : Nat}
    {fields : List RecordField} {ms : List (String × Json)} (hcase : cases.lookup s = some fields)
    (hmem : (key, .text s) ∈ ms) (honce : Once [key] ms) (hwhole : ∀ m ∈ ms, whole depth (ofJson m.2) = none) :
    choice key cases depth none (ofMembers ms) = .ok (some (s, fields)) := by
  obtain ⟨before, rest, rfl⟩ := List.append_of_mem hmem
  rw [List.forall_mem_append, List.forall_mem_cons] at hwhole
  -- the key stands neither before nor after
  have hdeclared : declared [key] (before ++ (key, .text s) :: rest) =
      declared [key] before ++ (key, .text s) :: declared [key] rest := by
    simp [declared]
  rw [Once, hdeclared, List.map_append, List.map_cons, List.nodup_append, List.nodup_cons] at honce
  obtain ⟨-, ⟨hrest, -⟩, hbefore⟩ := honce
  have hnot : ∀ {ms : List (String × Json)}, key ∉ (declared [key] ms).map (·.1) → key ∉ ms.map (·.1) := by
    intro ms h hkey
    obtain ⟨m, hm, rfl⟩ := List.mem_map.1 hkey
    exact h (List.mem_map.2 ⟨m, mem_declared.2 ⟨hm, List.mem_singleton_self _⟩, rfl⟩)
  have hsplit : ofMembers (before ++ (key, .text s) :: rest) =
      ofMembers before ++ (.ok key, .text s) :: ofMembers rest := by
    simp [ofMembers_eq_map, ofJson]
  rw [hsplit, choice_append (hnot fun hmem => hbefore _ hmem _ List.mem_cons_self rfl) hwhole.1, choice_cons hcase,
    ← List.append_nil (ofMembers rest), choice_append (hnot hrest) hwhole.2.2, choice]

/-! ## Readings -/

-- By induction on the spelling. How fields are found among the members is settled by now, so that only what is read of
-- each of them is left to the recursion.
mutual
/-- **Each spelling is read as the datum.** -/
theorem read_spelled {depth : Nat} {schema : Schema} {d : Datum} {j : Json} (h : Spells depth schema d j) :
    schema.read depth (ofJson j) = .ok d := by
  match h with
  | .text _ | .flag _ => rfl
  | .name hname =>
    rw [ofJson, read]
    simp only [hname]
  | .count hn hmax =>
    rw [ofJson_number (Nat.lt_of_le_of_lt hn hmax), read]
    simp only [if_pos hn]
  | .list hitems =>
    rw [ofJson, read]
    simp only [readItems_map fun p hp => read_spelled (hitems p hp)]
    rfl
  | .dictionary hentries =>
    rw [ofJson, read]
    simp only [readEntries_map fun e he => read_spelled (hentries e he)]
    rfl
  | .record hnodup honce hfields =>
    obtain ⟨met, hmembers, hsettle⟩ := exists_readMembers hnodup honce (stands_of_spelled hfields)
    rw [ofJson, read]
    simp only [hmembers, bind, Except.bind, after, hsettle]
    rfl
  | .variant hcase hmem hnodup honce hfields hwhole =>
    obtain ⟨-, hnodup⟩ := List.nodup_cons.1 hnodup
    obtain ⟨met, hmembers, hsettle⟩ :=
      exists_readMembers hnodup (honce.of_subset (List.subset_cons_self _ _)) (stands_of_spelled hfields)
    have hchoice := choice_eq_ok hcase hmem (honce.of_subset (List.cons_subset_cons _ (List.nil_subset _))) hwhole
    rw [ofJson, read]
    simp only [hchoice, bind, Except.bind, after, hmembers, hsettle]
    rfl

theorem stands_of_spelled {depth : Nat} {ms : List (String × Json)} {fs : List RecordField} {ds : List Datum}
    (h : FieldsSpelled depth ms fs ds) : List.Forall₂ (Stands depth ms) fs ds := by
  match h with
  | .nil => exact .nil
  | .held hmem hd hfields =>
    exact .cons (.inl ⟨_, hmem, (readField_of_read (isNull_of_spells hd)).trans (read_spelled hd)⟩)
      (stands_of_spelled hfields)
  | .null hmem hnull hfields =>
    refine .cons (.inl ⟨_, hmem, ?_⟩) (stands_of_spelled hfields)
    simp only [readField, hnull, ofJson, isNull, Bool.and_self, if_true]
    rfl
  | .missing hmissing hstandIn hfields => exact .cons (.inr ⟨hmissing, hstandIn⟩) (stands_of_spelled hfields)
end

/-- a text of a spelling is read as the datum -/
theorem readText_spelled {schema : Schema} {d : Datum} {j : Json} {content : String} (h : Spells maxDepth schema d j)
    (htext : TextOf j content) : schema.readText content = .ok d := by
  obtain ⟨blank, hblank, hscan⟩ := ofText_of_textOf htext
  have hend : skipSpace blank = [] := by
    rw [← List.append_nil blank, skipSpace_append hblank]
    rfl
  rw [readText, hscan]
  simp only [read_spelled h, bind, Except.bind, Option.map_some, hend]
  rfl

end Schema

end BuildImport
