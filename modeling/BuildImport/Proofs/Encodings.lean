/-
Every value is restored from the texts that it is written as.

What a schema reads and writes is proved once for all schemas, so that two things are left for each type: the datum of a
value fits its schema, and the value is restored from the datum. A value of which both hold is `Faithful`.

- `ofInserts_toList`: a set is what comes of adding its own elements one after the other, although paths that are spelled
  differently may be equal in the order. For maps this is `SortedMap.ofList_of_perm`, in any order.
- `Module.faithful`, `Project.faithful`, `Envelope.faithful`, `TargetRecord.faithful`, `ActionGraph.faithful`,
  `Config.faithful`: each from those of its parts.
- `encodings_lossless`: values are read back from both texts, and different values have different texts.
-/
import Mathlib.Tactic
import BuildImport.Config
import BuildImport.ActionGraph
import BuildImport.Storage
import BuildImport.Proofs.Json.Fitting
import BuildImport.Proofs.Membership

namespace BuildImport

open Std

/-! ## Sets from their own elements -/

namespace SortedSet

variable {α : Type} [Ord α]

/-- an element above all others goes to the end -/
theorem place_of_above [TransOrd α] {pick : α → α → α} {a : α} {xs : List α} (h : ∀ b ∈ xs, compare b a = .lt) :
    place pick a xs = xs ++ [a] := by
  induction xs with
  | nil => rfl
  | cons b xs ih =>
    have hgt : compare a b = .gt := OrientedCmp.gt_iff_lt.2 (h b List.mem_cons_self)
    rw [place]
    simp only [hgt]
    rw [ih fun c hc => h c (List.mem_cons_of_mem _ hc), List.cons_append]

variable [TransOrd α]

theorem toList_foldl_insert (s : SortedSet α) {xs : List α}
    (h : (s.toList ++ xs).Pairwise fun a b => compare a b = .lt) : (xs.foldl insert s).toList = s.toList ++ xs := by
  induction xs generalizing s with
  | nil => simp
  | cons a xs ih =>
    have habove : ∀ b ∈ s.toList, compare b a = .lt := fun b hb =>
      (List.pairwise_append.1 h).2.2 b hb a List.mem_cons_self
    have hinsert : (s.insert a).toList = s.toList ++ [a] := place_of_above habove
    rw [List.foldl_cons, ih _ (by rw [hinsert, List.append_assoc]; exact h), hinsert, List.append_assoc]
    rfl

/-- a set is restored from its elements -/
@[simp] theorem ofInserts_toList (s : SortedSet α) : ofInserts s.toList = s :=
  ext (toList_foldl_insert ∅ s.ascending)

end SortedSet

/-! ## Values of common types -/

namespace Datum

theorem mapM_map_eq_some {α β : Type} {f : α → β} {g : β → Option α} {xs : List α} (h : ∀ a ∈ xs, g (f a) = some a) :
    (xs.map f).mapM g = some xs := by
  induction xs with
  | nil => rfl
  | cons a xs ih =>
    rw [List.map_cons, List.mapM_cons, h a List.mem_cons_self, ih fun b hb => h b (List.mem_cons_of_mem _ hb)]
    rfl

variable {α : Type} {f : α → Datum} {g : Datum → Option α}

theorem asList?_map {xs : List α} (h : ∀ a ∈ xs, g (f a) = some a) : asList? g (.list (xs.map f)) = some xs :=
  mapM_map_eq_some h

theorem asOption?_getD {o : Option α} (h : ∀ a ∈ o, g (f a) = some a) (hne : ∀ a ∈ o, f a ≠ .none) :
    asOption? g ((o.map f).getD .none) = some o := by
  cases o with
  | none => rfl
  | some a =>
    rw [Option.map_some, Option.getD_some, asOption?.eq_def]
    split
    · next heq => exact absurd heq (hne a rfl)
    · rw [h a rfl]
      rfl

theorem ofText?_eq (o : Option String) : ofText? o = (o.map Datum.text).getD .none := by
  cases o <;> rfl

@[simp] theorem asOption?_ofText? (o : Option String) : asOption? asText? (ofText? o) = some o := by
  cases o <;> rfl

@[simp] theorem asTexts?_texts (xs : List String) : asTexts? (texts xs) = some xs := asList?_map fun _ _ => rfl

end Datum

open Datum

theorem fits_listOf {α : Type} {f : α → Datum} {item : Schema} {xs : List α} (h : ∀ a ∈ xs, Fits item (f a)) :
    Fits (.list item) (.list (xs.map f)) := by
  refine .list fun d hd => ?_
  obtain ⟨a, ha, rfl⟩ := List.mem_map.1 hd
  exact h a ha

theorem fits_texts (xs : List String) : Fits (.list .text) (texts xs) := fits_listOf fun s _ => .text s

namespace FieldsFit

variable {α : Type} {f : α → Datum} {key : String} {absence : Absence} {schema : Schema} {fs : List RecordField}
  {ds : List Datum}

/-- a field that is always written, as `null` where it holds nothing -/
theorem nullable {o : Option α} (h : ∀ a ∈ o, Fits schema (f a)) (hfit : FieldsFit fs ds) :
    FieldsFit ((key, .nullable, absence, schema) :: fs) ((o.map f).getD .none :: ds) := by
  cases o with
  | none => exact .null hfit
  | some a => exact .held (h a rfl) hfit

/-- a field that is left out where it holds nothing -/
theorem optional {o : Option α} (habsence : absence.IsNothing) (h : ∀ a ∈ o, Fits schema (f a))
    (hfit : FieldsFit fs ds) : FieldsFit ((key, .omitted, absence, schema) :: fs) ((o.map f).getD .none :: ds) := by
  cases o with
  | none => exact .omitted habsence hfit
  | some a => exact .held (h a rfl) hfit

theorem nullableText (o : Option String) (hfit : FieldsFit fs ds) :
    FieldsFit ((key, .nullable, absence, .text) :: fs) (ofText? o :: ds) := by
  rw [ofText?_eq]
  exact nullable (fun s _ => .text s) hfit

theorem optionalText (habsence : absence.IsNothing) (o : Option String) (hfit : FieldsFit fs ds) :
    FieldsFit ((key, .omitted, absence, .text) :: fs) (ofText? o :: ds) := by
  rw [ofText?_eq]
  exact optional habsence (fun s _ => .text s) hfit

end FieldsFit

/-! ## Faithful values -/

namespace Encoded

variable {α : Type} [Encoded α]

/-- the datum of a value fits the schema, and the value is restored from it -/
structure Faithful (a : α) : Prop where
  fits : Fits (schema α) (toDatum a)
  restored : ofDatum? (toDatum a) = some a

theorem Faithful.ne_none {a : α} (h : Faithful a) : toDatum a ≠ .none := h.fits.ne_none

theorem fits_list {xs : List α} (h : ∀ a ∈ xs, Faithful a) : Fits (.list (schema α)) (.list (xs.map toDatum)) :=
  fits_listOf fun a ha => (h a ha).fits

theorem restored_list {xs : List α} (h : ∀ a ∈ xs, Faithful a) :
    asList? ofDatum? (.list (xs.map toDatum)) = some xs :=
  asList?_map fun a ha => (h a ha).restored

theorem restored_option {o : Option α} (h : ∀ a ∈ o, Faithful a) :
    asOption? ofDatum? ((o.map toDatum).getD .none) = some o :=
  asOption?_getD (fun a ha => (h a ha).restored) fun a ha => (h a ha).ne_none

end Encoded

open Encoded

/-! ## Parts of modules -/

namespace Path

theorem faithful (p : Path) : Faithful p where
  fits := .text _
  restored := rfl

theorem fits_listDatum (ps : List Path) : Fits (.list .text) (listDatum ps) := fits_listOf fun p _ => .text p.text

@[simp] theorem ofListDatum?_listDatum (ps : List Path) : ofListDatum? (listDatum ps) = some ps :=
  restored_list fun p _ => p.faithful

@[simp] theorem ofSetDatum?_listDatum (s : SortedSet Path) : ofSetDatum? (listDatum s.toList) = some s := by
  rw [ofSetDatum?, ofListDatum?_listDatum, Option.map_some, SortedSet.ofInserts_toList]

@[simp] theorem asOption?_ofText? (o : Option Path) :
    asOption? Encoded.ofDatum? (ofText? (o.map Path.text)) = some o := by
  cases o <;> rfl

end Path

theorem Label.faithful (l : Label) : Faithful l where
  fits := .text _
  restored := rfl

theorem Language.faithful (l : Language) : Faithful l where
  fits := .name (by cases l <;> decide)
  restored := ofName?_name l

theorem Tag.faithful (t : Tag) : Faithful t where
  fits := .name (by cases t <;> decide)
  restored := ofName?_name t

theorem JavaPayload.faithful (p : JavaPayload) : Faithful p where
  fits :=
    .record (by decide) <| .nullableText _ <| .held (fits_texts _) <| .held (fits_texts _) <| .nullableText _ <|
      .held (Path.fits_listDatum _) <| .nullableText _ <| .held (fits_texts _) <| .held (Path.fits_listDatum _) <|
      .held (Path.fits_listDatum _) <| .held (Path.fits_listDatum _) .nil
  restored := by
    unfold instEncodedJavaPayload
    simp

theorem ScalaPayload.faithful (p : ScalaPayload) : Faithful p where
  fits :=
    .record (by decide) <| .held (fits_texts _) <| .held (Path.fits_listDatum _) <|
      .nullable (fun q _ => q.faithful.fits) .nil
  restored := by
    unfold instEncodedScalaPayload
    simp [restored_option fun q _ => JavaPayload.faithful q]

/-- a payload is written as the record that it holds, under one more key -/
theorem Payload.faithful (p : Payload) : Faithful p := by
  cases p with
  | java q =>
    obtain ⟨hfits, hrestored⟩ := q.faithful
    cases hfits with
    | record hnodup hfit => exact ⟨.variant rfl (by decide) hfit, congrArg (Option.map Payload.java) hrestored⟩
  | scala q =>
    obtain ⟨hfits, hrestored⟩ := q.faithful
    cases hfits with
    | record hnodup hfit => exact ⟨.variant rfl (by decide) hfit, congrArg (Option.map Payload.scala) hrestored⟩

theorem SourceSet.faithful (s : SourceSet) : Faithful s where
  fits := .record (by decide) <| .held (Path.fits_listDatum _) <| .held (Path.fits_listDatum _) .nil
  restored := by
    unfold SourceSet.instEncoded
    simp

/-! ## Modules and projects -/

theorem Module.faithful (m : Module) : Faithful m where
  fits :=
    .record (by decide) <| .held (.text _) <| .held (.flag _) <| .held (fits_list fun l _ => Label.faithful l) <|
      .held (fits_list fun l _ => Language.faithful l) <| .held (fits_list fun t _ => Tag.faithful t) <|
      .held (.text _) <| .held m.sourceSet.faithful.fits <| .held (Path.fits_listDatum _) <|
      .held (Path.fits_listDatum _) <| .optional trivial (fun p _ => p.faithful.fits) .nil
  restored := by
    unfold Module.instEncoded
    simp [restored_list fun l _ => Label.faithful l, restored_list fun l _ => Language.faithful l,
      restored_list fun t _ => Tag.faithful t, m.sourceSet.faithful.restored,
      restored_option fun p _ => Payload.faithful p]

/-- the datum of a project, with its owners listed in some order -/
def Project.datumBy (p : Project) (owners : List (Path × Label)) : Datum :=
  .record [.text p.workspaceRoot.text, .list (p.modules.map toDatum),
    .dictionary (owners.map fun e => (e.1.text, .text e.2.text))]

/-- a project is restored in whatever order its owners are listed -/
theorem Project.restored_datumBy {p : Project} {owners : List (Path × Label)} (h : owners.Perm p.owners.entries) :
    ofDatum? (p.datumBy owners) = some p := by
  unfold Project.instEncoded Project.datumBy
  dsimp only
  rw [mapM_map_eq_some, restored_list fun m _ => Module.faithful m]
  · simp [SortedMap.ofList_of_perm h]
  · exact fun _ _ => rfl

theorem Project.faithful (p : Project) : Faithful p where
  fits :=
    .record (by decide) <| .held (.text _) <| .held (fits_list fun m _ => Module.faithful m) <|
      .held (.dictionary fun e he => by obtain ⟨e, -, rfl⟩ := List.mem_map.1 he; exact .text _) .nil
  restored := restored_datumBy (.refl _)

/-- the datum of an envelope, with the owners of its project listed in some order -/
def Envelope.datumBy (e : Envelope) (owners : List (Path × Label)) : Datum :=
  .record [.count e.version, .text e.checksum, e.project.datumBy owners]

theorem Envelope.restored_datumBy {e : Envelope} {owners : List (Path × Label)}
    (h : owners.Perm e.project.owners.entries) : ofDatum? (e.datumBy owners) = some e := by
  unfold instEncodedEnvelope Envelope.datumBy
  simp [Project.restored_datumBy h]

theorem Envelope.faithful {e : Envelope} (h : e.version ≤ 4294967295) : Faithful e where
  fits := .record (by decide) <| .held (.count h (by decide)) <| .held (.text _) <| .held e.project.faithful.fits .nil
  restored := restored_datumBy (.refl _)

/-! ## Target records -/

theorem FileLocation.faithful (l : FileLocation) : Faithful l where
  fits := .record (by decide) <| .held (.text _) <| .held (.text _) <| .held (.flag _) <| .held (.flag _) .nil
  restored := rfl

namespace FileLocation

theorem fits_listDatum (ls : List FileLocation) : Fits listSchema (listDatum ls) := fits_list fun l _ => l.faithful

@[simp] theorem ofListDatum?_listDatum (ls : List FileLocation) : ofListDatum? (listDatum ls) = some ls :=
  restored_list fun l _ => l.faithful

end FileLocation

open FileLocation in
theorem OutputJars.faithful (j : OutputJars) : Faithful j where
  fits := .record (by decide) <| .held (fits_listDatum _) <| .held (fits_listDatum _) <| .held (fits_listDatum _) .nil
  restored := by
    unfold instEncodedOutputJars
    simp

open FileLocation in
theorem JavaInfo.faithful (i : JavaInfo) : Faithful i where
  fits :=
    .record (by decide) <| .held (fits_list fun j _ => OutputJars.faithful j) <| .held (fits_texts _) <|
      .held (fits_texts _) <| .held (.text _) <| .held (fits_texts _) <| .held (fits_listDatum _) <|
      .held (fits_listDatum _) <| .held (fits_listDatum _) .nil
  restored := by
    unfold instEncodedJavaInfo
    simp [restored_list fun j _ => OutputJars.faithful j]

open FileLocation in
theorem ScalaInfo.faithful (i : ScalaInfo) : Faithful i where
  fits := .record (by decide) <| .held (fits_texts _) <| .held (fits_listDatum _) .nil
  restored := by
    unfold instEncodedScalaInfo
    simp

open FileLocation in
theorem TargetRecord.faithful (r : TargetRecord) : Faithful r where
  fits :=
    .record (by decide) <| .held (.text _) <| .held (.text _) <| .held (fits_texts _) <|
      .held (fits_listOf fun id _ => .record (by decide) (.held (.text id) .nil)) <| .held (fits_listDatum _) <|
      .held (fits_listDatum _) <| .optional trivial (fun i _ => JavaInfo.faithful i |>.fits) <|
      .optional trivial (fun i _ => ScalaInfo.faithful i |>.fits) .nil
  restored := by
    have hdependencies : asList? ofDependency? (.list (r.dependencies.map fun id => .record [.text id])) =
        some r.dependencies := asList?_map fun _ _ => rfl
    unfold TargetRecord.instEncoded
    simp [hdependencies, restored_option fun i _ => JavaInfo.faithful i, restored_option fun i _ => ScalaInfo.faithful i]

/-! ## Action graphs -/

namespace ActionGraph

/-- the largest id -/
def maxId : Nat := 4294967295

theorem fits_id {id : Nat} (h : id ≤ maxId) : Fits idSchema (.count id) := .count h (by decide)

theorem fits_idsDatum {ids : List Nat} (h : ∀ id ∈ ids, id ≤ maxId) : Fits (.list idSchema) (idsDatum ids) :=
  fits_listOf fun id hid => fits_id (h id hid)

@[simp] theorem asList?_idsDatum (ids : List Nat) : asList? asCount? (idsDatum ids) = some ids :=
  asList?_map fun _ _ => rfl

/-- the ids of an artifact and of what it refers to -/
def Artifact.ids (a : Artifact) : List Nat := a.id :: a.fragmentId.toList

def Action.ids (a : Action) : List Nat := a.targetId :: (a.inputSets ++ a.outputs)

def FileSet.ids (s : FileSet) : List Nat := s.id :: (s.artifacts ++ s.sets)

def Fragment.ids (f : Fragment) : List Nat := [f.id, f.parentId]

/-- all ids in an action graph -/
def ids (g : ActionGraph) : List Nat :=
  g.artifacts.flatMap Artifact.ids ++ g.actions.flatMap Action.ids ++ g.targets.map Target.id ++
    g.fileSets.flatMap FileSet.ids ++ g.fragments.flatMap Fragment.ids

theorem Artifact.faithful {a : Artifact} (h : ∀ id ∈ a.ids, id ≤ maxId) : Faithful a where
  fits :=
    .record (by decide) <| .held (fits_id (h _ (by simp [ids]))) <|
      .optional trivial (fun f hf => fits_id (h f (by simp_all [ids]))) <| .optionalText (by trivial) _ .nil
  restored := by
    have hfragment : asOption? asCount? ((a.fragmentId.map Datum.count).getD .none) = some a.fragmentId :=
      asOption?_getD (fun _ _ => rfl) fun _ _ => nofun
    unfold instEncodedArtifact
    simp [hfragment]

theorem Action.faithful {a : Action} (h : ∀ id ∈ a.ids, id ≤ maxId) : Faithful a where
  fits :=
    .record (by decide) <| .held (fits_id (h _ (by simp [ids]))) <| .held (.text _) <| .held (fits_texts _) <|
      .held (fits_idsDatum fun id hid => h id (by simp_all [ids])) <|
      .held (fits_idsDatum fun id hid => h id (by simp_all [ids])) .nil
  restored := by
    unfold instEncodedAction
    simp

theorem Target.faithful {t : Target} (h : t.id ≤ maxId) : Faithful t where
  fits := .record (by decide) <| .held (fits_id h) <| .held (.text _) .nil
  restored := rfl

theorem FileSet.faithful {s : FileSet} (h : ∀ id ∈ s.ids, id ≤ maxId) : Faithful s where
  fits :=
    .record (by decide) <| .held (fits_id (h _ (by simp [ids]))) <|
      .held (fits_idsDatum fun id hid => h id (by simp_all [ids])) <|
      .held (fits_idsDatum fun id hid => h id (by simp_all [ids])) .nil
  restored := by
    unfold instEncodedFileSet
    simp

theorem Fragment.faithful {f : Fragment} (h : ∀ id ∈ f.ids, id ≤ maxId) : Faithful f where
  fits :=
    .record (by decide) <| .held (fits_id (h _ (by simp [ids]))) <| .held (.text _) <|
      .held (fits_id (h _ (by simp [ids]))) .nil
  restored := rfl

end ActionGraph

open ActionGraph in
/-- ids are written as numbers, and a number counts only if it has thirty-two bits -/
theorem ActionGraph.faithful {g : ActionGraph} (h : ∀ id ∈ g.ids, id ≤ maxId) : Faithful g := by
  simp only [ids, List.forall_mem_append, List.forall_mem_flatMap, List.forall_mem_map] at h
  obtain ⟨⟨⟨⟨hartifacts, hactions⟩, htargets⟩, hsets⟩, hfragments⟩ := h
  have hartifacts : ∀ a ∈ g.artifacts, Faithful a := fun a ha => Artifact.faithful (hartifacts a ha)
  have hactions : ∀ a ∈ g.actions, Faithful a := fun a ha => Action.faithful (hactions a ha)
  have htargets : ∀ t ∈ g.targets, Faithful t := fun t ht => Target.faithful (htargets t ht)
  have hsets : ∀ s ∈ g.fileSets, Faithful s := fun s hs => FileSet.faithful (hsets s hs)
  have hfragments : ∀ f ∈ g.fragments, Faithful f := fun f hf => Fragment.faithful (hfragments f hf)
  constructor
  · exact .record (by decide) <| .held (fits_list hartifacts) <| .held (fits_list hactions) <|
      .held (fits_list htargets) <| .held (fits_list hsets) <| .held (fits_list hfragments) .nil
  · unfold ActionGraph.instEncoded
    simp [restored_list hartifacts, restored_list hactions, restored_list htargets, restored_list hsets,
      restored_list hfragments]

/-! ## Configurations -/

theorem ProjectView.faithful (v : ProjectView) : Faithful v where
  fits := fits_texts _
  restored := by
    unfold ProjectView.instEncoded
    simp

theorem MergeConfig.faithful (c : MergeConfig) : Faithful c where
  fits := .record (by decide) <| .held (.flag _) <| .held (fits_texts _) .nil
  restored := by
    unfold instEncodedMergeConfig
    simp

theorem PlaceholderConfig.faithful (c : PlaceholderConfig) : Faithful c where
  fits := .record (by decide) <| .held (.flag _) .nil
  restored := rfl

theorem Config.faithful (c : Config) : Faithful c where
  fits :=
    .record (by decide) <| .held c.targets.faithful.fits <| .held c.merge.faithful.fits <|
      .held c.placeholders.faithful.fits <| .optionalText (by trivial) _ .nil
  restored := by
    unfold instEncodedConfig
    simp [c.targets.faithful.restored, c.merge.faithful.restored, c.placeholders.faithful.restored]

/-! ## Whole texts -/

namespace Encoded

variable {α : Type} [Encoded α]

theorem Faithful.parse_compact {a : α} (h : Faithful a) (hdepth : (schema α).height < Schema.maxDepth) :
    parse α (compact a) = .ok a := by
  rw [parse, compact, toJson, Schema.readText_compact h.fits hdepth]
  simp [bind, Except.bind, ofDatum, h.restored]

theorem Faithful.parse_pretty {a : α} (h : Faithful a) (hdepth : (schema α).height < Schema.maxDepth) :
    parse α (pretty a) = .ok a := by
  rw [parse, pretty, toJson, Schema.readText_pretty h.fits hdepth]
  simp [bind, Except.bind, ofDatum, h.restored]

/-- the two texts of a value -/
def forms (a : α) : List String := [compact a, pretty a]

/-- values of which each is read back from both its texts, and of which no two share a text -/
structure Lossless (P : α → Prop) : Prop where
  read_back : ∀ a, P a → ∀ text ∈ forms a, parse α text = .ok a
  apart : ∀ a b, P a → P b → a ≠ b → ∀ text ∈ forms a, text ∉ forms b

theorem lossless_of_faithful {P : α → Prop} (h : ∀ a, P a → Faithful a)
    (hdepth : (schema α).height < Schema.maxDepth) : Lossless P := by
  have hread : ∀ a, P a → ∀ text ∈ forms a, parse α text = .ok a := by
    intro a ha text htext
    rcases List.mem_pair.1 htext with rfl | rfl
    · exact (h a ha).parse_compact hdepth
    · exact (h a ha).parse_pretty hdepth
  refine ⟨hread, fun a b ha hb hne text htext hshared => hne ?_⟩
  exact Except.ok.inj ((hread a ha text htext).symm.trans (hread b hb text hshared))

/-- **No encoding loses anything.** Projects, modules, records of targets, configurations and action graphs, whose ids
are those of thirty-two bits, are read back as they were from either text, and different ones have different texts. -/
theorem encodings_lossless :
    Lossless (fun _ : Project => True) ∧ Lossless (fun _ : Module => True) ∧ Lossless (fun _ : TargetRecord => True) ∧
      Lossless (fun _ : Config => True) ∧ Lossless (fun g : ActionGraph => ∀ id ∈ g.ids, id ≤ ActionGraph.maxId) :=
  ⟨lossless_of_faithful (fun p _ => p.faithful) (by decide), lossless_of_faithful (fun m _ => m.faithful) (by decide),
    lossless_of_faithful (fun r _ => r.faithful) (by decide), lossless_of_faithful (fun c _ => c.faithful) (by decide),
    lossless_of_faithful (fun _ hg => ActionGraph.faithful hg) (by decide)⟩

/-- an artifact with the largest id, whose path has a quote, a line break and a letter beyond ASCII -/
def oddGraph : ActionGraph :=
  { artifacts := [{ id := 4294967295, execPath := some "a\"b\n\u00e9" }], fragments := [{ id := 7, parentId := 7 }] }

theorem oddGraph_read_back : parse ActionGraph (pretty oddGraph) = .ok oddGraph :=
  encodings_lossless.2.2.2.2.read_back oddGraph (by decide) _ (List.mem_cons_of_mem _ List.mem_cons_self)

end Encoded

end BuildImport
