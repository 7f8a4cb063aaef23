/-
Data that fit a schema, and that reading gives back what writing wrote.

`Fits` says for each kind of schema which data it is made for: numbers up to the bound, names that are known as they are
spelled, and a record with one datum for each field. A field may hold nothing where reading restores nothing.

- `spells_write`: what is written of a datum that fits is one of its spellings. The two brackets of a record or a list
  stand one deeper than the value, so the depth must exceed the height of the schema.
- `read_write`: so reading it gives the datum.
- `readText_compact`, `readText_pretty`: the same for whole texts.
-/
import BuildImport.Proofs.Json.Spelling

namespace BuildImport

open Scan

namespace Schema

/-! ## Heights -/

mutual
/-- how many brackets stand in each other at most -/
def height : Schema → Nat
  | text | flag | count _ | name _ => 0
  | list item => item.height + 1
  | dictionary value => value.height + 1
  | record fields => fieldsHeight fields + 1
  | variant _ cases => casesHeight cases + 1

def fieldsHeight : List (String × Presence × Absence × Schema) → Nat
  | [] => 0
  | (_, _, _, schema) :: fs => max schema.height (fieldsHeight fs)

def casesHeight : List (String × List (String × Presence × Absence × Schema)) → Nat
  | [] => 0
  | (_, fields) :: cs => max (fieldsHeight fields) (casesHeight cs)
end

theorem fieldsHeight_le_of_lookup {cases : List (String × List RecordField)} {s : String} {fields : List RecordField}
    (h : cases.lookup s = some fields) : fieldsHeight fields ≤ casesHeight cases := by
  induction cases with
  | nil => simp at h
  | cons c cases ih =>
    obtain ⟨name, first⟩ := c
    rw [casesHeight]
    rw [List.lookup_cons] at h
    split at h
    · rw [Option.some.inj h]
      exact Nat.le_max_left _ _
    · exact Nat.le_trans (ih h) (Nat.le_max_right _ _)

end Schema

/-! ## Data that fit -/

/-- whether a field that is not written holds nothing -/
def Absence.IsNothing : Absence → Prop
  | .nothing | .default .none => True
  | _ => False

mutual
/-- data of the shape that a schema describes -/
inductive Fits : Schema → Datum → Prop
  | text (s : String) : Fits .text (.text s)
  | flag (b : Bool) : Fits .flag (.flag b)
  | count {max n : Nat} : n ≤ max → max < Nat.pow 2 53 → Fits (.count max) (.count n)
  | name {known : List String} {s : String} : Schema.nameOf? known s = some s → Fits (.name known) (.text s)
  | list {item : Schema} {ds : List Datum} : (∀ d ∈ ds, Fits item d) → Fits (.list item) (.list ds)
  | dictionary {value : Schema} {es : List (String × Datum)} :
      (∀ e ∈ es, Fits value e.2) → Fits (.dictionary value) (.dictionary es)
  | record {fields : List RecordField} {ds : List Datum} :
      (fields.map (·.1)).Nodup → FieldsFit fields ds → Fits (.record fields) (.record ds)
  | variant {key s : String} {cases : List (String × List RecordField)} {fields : List RecordField}
      {ds : List Datum} :
      cases.lookup s = some fields → (key :: fields.map (·.1)).Nodup → FieldsFit fields ds →
      Fits (.variant key cases) (.variant s ds)

/-- one datum for each field -/
inductive FieldsFit : List RecordField → List Datum → Prop
  | nil : FieldsFit [] []
  | held {key : String} {presence : Presence} {absence : Absence} {schema : Schema} {d : Datum}
      {fs : List RecordField} {ds : List Datum} :
      Fits schema d → FieldsFit fs ds → FieldsFit ((key, presence, absence, schema) :: fs) (d :: ds)
  | null {key : String} {absence : Absence} {schema : Schema} {fs : List RecordField} {ds : List Datum} :
      FieldsFit fs ds → FieldsFit ((key, .nullable, absence, schema) :: fs) (.none :: ds)
  | omitted {key : String} {absence : Absence} {schema : Schema} {fs : List RecordField} {ds : List Datum} :
      absence.IsNothing → FieldsFit fs ds → FieldsFit ((key, .omitted, absence, schema) :: fs) (.none :: ds)
end

theorem Absence.IsNothing.standIn?_eq {absence : Absence} (h : absence.IsNothing) : absence.standIn? = some .none := by
  unfold IsNothing at h
  split at h
  · rfl
  · rfl
  · contradiction

theorem Fits.ne_none {schema : Schema} {d : Datum} (h : Fits schema d) : d ≠ .none := by
  rintro rfl
  cases h

namespace Schema

/-! ## What is written -/

theorem writeItems_eq_map (item : Schema) (ds : List Datum) : writeItems item ds = ds.map (write item) := by
  induction ds with
  | nil => rfl
  | cons d ds ih => rw [writeItems, ih, List.map_cons]

theorem writeEntries_eq_map (value : Schema) (es : List (String × Datum)) :
    writeEntries value es = es.map fun e => (e.1, write value e.2) := by
  induction es with
  | nil => rfl
  | cons e es ih => rw [writeEntries, ih, List.map_cons]

theorem writeFields_held {key : String} {presence : Presence} {absence : Absence} {schema : Schema}
    {fs : List RecordField} {d : Datum} {ds : List Datum} (h : d ≠ .none) :
    writeFields ((key, presence, absence, schema) :: fs) (d :: ds) = (key, schema.write d) :: writeFields fs ds := by
  rw [writeFields]
  exact fun _ => h

/-- what is written for a field that holds nothing is left out, or `null` -/
theorem writeFields_null {key : String} {absence : Absence} {schema : Schema} {fs : List RecordField}
    {ds : List Datum} :
    writeFields ((key, .nullable, absence, schema) :: fs) (.none :: ds) = (key, .null) :: writeFields fs ds := rfl

theorem writeFields_omitted {key : String} {absence : Absence} {schema : Schema} {fs : List RecordField}
    {ds : List Datum} :
    writeFields ((key, .omitted, absence, schema) :: fs) (.none :: ds) = writeFields fs ds := rfl

/-- a record is written under the keys of its fields, in their order -/
theorem keys_writeFields_sublist {fs : List RecordField} {ds : List Datum} (h : FieldsFit fs ds) :
    ((writeFields fs ds).map (·.1)).Sublist (fs.map (·.1)) := by
  match h with
  | .nil => exact List.Sublist.slnil
  | .held hd hfit =>
    rw [writeFields_held hd.ne_none]
    exact (keys_writeFields_sublist hfit).cons_cons _
  | .null hfit =>
    rw [writeFields_null]
    exact (keys_writeFields_sublist hfit).cons_cons _
  | .omitted _ hfit =>
    rw [writeFields_omitted]
    exact (keys_writeFields_sublist hfit).cons _

/-! ## Written and looked through -/

theorem whole_array {depth : Nat} {vs : List Json} (h : ∀ v ∈ vs, whole (depth - 1) (ofJson v) = none)
    (hdepth : 1 < depth) : whole depth (ofJson (.array vs)) = none := by
  have hitems : wholeItems (depth - 1) (ofItems vs) = none := by
    induction vs with
    | nil => rfl
    | cons v vs ih =>
      rw [List.forall_mem_cons] at h
      rw [ofItems, wholeItems, h.1, ih h.2]
      rfl
  rw [ofJson, whole, if_neg (by omega), hitems]
  rfl

theorem whole_object {depth : Nat} {ms : List (String × Json)} (h : ∀ m ∈ ms, whole (depth - 1) (ofJson m.2) = none)
    (hdepth : 1 < depth) : whole depth (ofJson (.object ms)) = none := by
  have hmembers : wholeMembers (depth - 1) (ofMembers ms) = none := by
    induction ms with
    | nil => rfl
    | cons m ms ih =>
      rw [List.forall_mem_cons] at h
      rw [ofMembers, wholeMembers, h.1, ih h.2]
      rfl
  rw [ofJson, whole, if_neg (by omega), hmembers]
  rfl

mutual
/-- what is written can be looked through where brackets may stand deeper than the schema is high -/
theorem whole_write {schema : Schema} {d : Datum} (h : Fits schema d) {depth : Nat} (hdepth : schema.height < depth) :
    whole depth (ofJson (schema.write d)) = none := by
  match h with
  | .text _ | .flag _ | .name _ => rfl
  | .count hn hmax =>
    rw [write, ofJson_number (Nat.lt_of_le_of_lt hn hmax)]
    rfl
  | .list hds =>
    rw [height] at hdepth
    rw [write, writeItems_eq_map]
    refine whole_array (List.forall_mem_map.2 fun d hd => ?_) (by omega)
    exact whole_write (hds d hd) (by omega)
  | .dictionary hes =>
    rw [height] at hdepth
    rw [write, writeEntries_eq_map]
    refine whole_object (List.forall_mem_map.2 fun e he => ?_) (by omega)
    exact whole_write (hes e he) (by omega)
  | .record _ hfit =>
    rw [height] at hdepth
    rw [write]
    exact whole_object (whole_writeFields hfit (by omega)) (by omega)
  | .variant hcase _ hfit =>
    have hfields := fieldsHeight_le_of_lookup hcase
    rw [height] at hdepth
    rw [write, hcase, Option.getD_some]
    exact whole_object (List.forall_mem_cons.2 ⟨rfl, whole_writeFields hfit (by omega)⟩) (by omega)

theorem whole_writeFields {fs : List RecordField} {ds : List Datum} (h : FieldsFit fs ds) {depth : Nat}
    (hdepth : fieldsHeight fs < depth) : ∀ m ∈ writeFields fs ds, whole depth (ofJson m.2) = none := by
  match h with
  | .nil => exact fun _ => nofun
  | .held hd hfit =>
    rw [fieldsHeight] at hdepth
    rw [writeFields_held hd.ne_none]
    exact List.forall_mem_cons.2 ⟨whole_write hd (by omega), whole_writeFields hfit (by omega)⟩
  | .null hfit =>
    rw [fieldsHeight] at hdepth
    rw [writeFields_null]
    exact List.forall_mem_cons.2 ⟨rfl, whole_writeFields hfit (by omega)⟩
  | .omitted _ hfit =>
    rw [fieldsHeight] at hdepth
    rw [writeFields_omitted]
    exact whole_writeFields hfit (by omega)
end

/-! ## Written and read -/

theorem once_of_nodup {keys : List String} {ms : List (String × Json)} (h : (ms.map (·.1)).Nodup) : Once keys ms :=
  h.sublist (List.filter_sublist.map _)

mutual
/-- **What is written is one of the spellings.** -/
theorem spells_write {schema : Schema} {d : Datum} (h : Fits schema d) {depth : Nat} (hdepth : schema.height < depth) :
    Spells depth schema d (schema.write d) := by
  match h with
  | .text s => exact .text s
  | .flag b => exact .flag b
  | .name hname => exact .name hname
  | .count hn hmax => exact .count hn hmax
  | @Fits.list item ds hds =>
    rw [height] at hdepth
    have hitems : ∀ p ∈ ds.map fun d => (d, item.write d), Spells (depth - 1) item p.1 p.2 :=
      List.forall_mem_map.2 fun d hd => spells_write (hds d hd) (by omega)
    rw [write, writeItems_eq_map]
    simpa [Function.comp_def] using Spells.list hitems
  | @Fits.dictionary value es hes =>
    rw [height] at hdepth
    have hentries : ∀ e ∈ es.map fun e => (e.1, e.2, value.write e.2), Spells (depth - 1) value e.2.1 e.2.2 :=
      List.forall_mem_map.2 fun e he => spells_write (hes e he) (by omega)
    rw [write, writeEntries_eq_map]
    simpa [Function.comp_def] using Spells.dictionary hentries
  | .record hnodup hfit =>
    rw [height] at hdepth
    rw [write]
    refine .record hnodup (once_of_nodup (hnodup.sublist (keys_writeFields_sublist hfit))) ?_
    exact spelled_writeFields hfit (by omega) hnodup (fun m hm => hm) fun _ _ hkey => hkey
  | .variant hcase hnodup hfit =>
    have hfields := fieldsHeight_le_of_lookup hcase
    rw [height] at hdepth
    rw [write, hcase, Option.getD_some]
    refine .variant hcase List.mem_cons_self hnodup ?_ ?_ ?_
    · exact once_of_nodup (hnodup.sublist ((keys_writeFields_sublist hfit).cons_cons _))
    · obtain ⟨hkey, hnodup⟩ := List.nodup_cons.1 hnodup
      refine spelled_writeFields hfit (by omega) hnodup (fun m hm => List.mem_cons_of_mem _ hm) fun k hk hmem => ?_
      exact (List.mem_cons.1 hmem).resolve_left (ne_of_mem_of_not_mem hk hkey)
    · exact List.forall_mem_cons.2 ⟨rfl, whole_writeFields hfit (by omega)⟩

/-- the fields are spelled by members that hold what is written of them, and nothing else under their keys -/
theorem spelled_writeFields {fs : List RecordField} {ds : List Datum} (h : FieldsFit fs ds) {depth : Nat}
    (hdepth : fieldsHeight fs < depth) (hnodup : (fs.map (·.1)).Nodup) {ms : List (String × Json)}
    (hwritten : ∀ m ∈ writeFields fs ds, m ∈ ms)
    (hkeys : ∀ key ∈ fs.map (·.1), key ∈ ms.map (·.1) → key ∈ (writeFields fs ds).map (·.1)) :
    FieldsSpelled depth ms fs ds := by
  match h with
  | .nil => exact .nil
  | .held hd hfit =>
    obtain ⟨hkey, hnodup⟩ := List.nodup_cons.1 hnodup
    rw [fieldsHeight] at hdepth
    rw [writeFields_held hd.ne_none] at hwritten hkeys
    rw [List.forall_mem_cons] at hwritten
    refine .held hwritten.1 (spells_write hd (by omega)) ?_
    refine spelled_writeFields hfit (by omega) hnodup hwritten.2 fun k hk hmem => ?_
    exact (List.mem_cons.1 (hkeys k (List.mem_cons_of_mem _ hk) hmem)).resolve_left (ne_of_mem_of_not_mem hk hkey)
  | .null hfit =>
    obtain ⟨hkey, hnodup⟩ := List.nodup_cons.1 hnodup
    rw [fieldsHeight] at hdepth
    rw [writeFields_null] at hwritten hkeys
    rw [List.forall_mem_cons] at hwritten
    refine .null hwritten.1 rfl ?_
    refine spelled_writeFields hfit (by omega) hnodup hwritten.2 fun k hk hmem => ?_
    exact (List.mem_cons.1 (hkeys k (List.mem_cons_of_mem _ hk) hmem)).resolve_left (ne_of_mem_of_not_mem hk hkey)
  | .omitted habsence hfit =>
    obtain ⟨hkey, hnodup⟩ := List.nodup_cons.1 hnodup
    rw [fieldsHeight] at hdepth
    rw [writeFields_omitted] at hwritten hkeys
    have hmissing : _ ∉ ms.map (·.1) := fun hmem =>
      hkey ((keys_writeFields_sublist hfit).subset (hkeys _ List.mem_cons_self hmem))
    exact .missing hmissing habsence.standIn?_eq
      (spelled_writeFields hfit (by omega) hnodup hwritten fun k hk => hkeys k (List.mem_cons_of_mem _ hk))
end

/-- **Reading gives back what writing wrote.** -/
theorem read_write {schema : Schema} {d : Datum} (h : Fits schema d) {depth : Nat} (hdepth : schema.height < depth) :
    schema.read depth (ofJson (schema.write d)) = .ok d := read_spelled (spells_write h hdepth)

/-! ## Whole texts -/

theorem readText_compact {schema : Schema} {d : Datum} (h : Fits schema d) (hdepth : schema.height < maxDepth) :
    schema.readText (schema.write d).compact = .ok d := by
  rw [readText, ofText_compact]
  simp only [read_write h hdepth, bind, Except.bind]
  rfl

theorem readText_pretty {schema : Schema} {d : Datum} (h : Fits schema d) (hdepth : schema.height < maxDepth) :
    schema.readText (schema.write d).pretty = .ok d := by
  rw [readText, ofText_pretty]
  simp only [read_write h hdepth, bind, Except.bind]
  rfl

end Schema

end BuildImport
