/-
What is believed of a file that was changed.

The checksum is taken of the project that was read and not of the text. So it does not matter how the file is spelled
(`Envelope.SpelledBy`): blanks, the order of keys, keys that nothing asks for and capitals in names go unnoticed. But no
other project goes unnoticed under the checksum of a project, not even one that only spells a path differently, unless two
texts have one checksum: the compact text of a project holds all of it (`compact_injective`).

- `Envelope.parse_of_spelledBy`: each spelling of an envelope is read as the envelope.
- `collision_of_load`: another project that is loaded gives a collision.

`load_changed_file` puts this together.
-/
import BuildImport.Digest.Md5
import BuildImport.Proofs.ColdStart

namespace BuildImport

open Schema Scan Encoded

/-! ## Spellings of an envelope -/

/-- the texts of an envelope: any of the ways to spell its datum, with the owners of the project in any order -/
def Envelope.SpelledBy (e : Envelope) (content : String) : Prop :=
  ∃ owners j, owners.Perm e.project.owners.entries ∧ Spells maxDepth (schema Envelope) (e.datumBy owners) j ∧
    TextOf j content

/-- **Each spelling of an envelope is read as the envelope.** -/
theorem Envelope.parse_of_spelledBy {e : Envelope} {content : String} (h : e.SpelledBy content) :
    parse Envelope content = .ok e := by
  obtain ⟨owners, j, howners, hspells, htext⟩ := h
  rw [parse, readText_spelled hspells htext]
  simp [bind, Except.bind, ofDatum, restored_datumBy howners]

/-- what is stored is one of the spellings -/
theorem Envelope.spelledBy_pretty {e : Envelope} (h : e.version ≤ 4294967295) : e.SpelledBy (pretty e) :=
  ⟨e.project.owners.entries, toJson e, .refl _, spells_write (faithful h).fits (by decide), textOf_pretty _⟩

/-- different projects have different texts -/
theorem Project.compact_injective : Function.Injective (compact : Project → String) := by
  intro p q htexts
  have hp := p.faithful.parse_compact (by decide)
  rw [htexts, q.faithful.parse_compact (by decide)] at hp
  exact (Except.ok.inj hp).symm

namespace Storage

variable {s : Storage} {t : FileTree} {content : String} {p q : Project}

/-! ## Loading -/

/-- another project under the checksum of a project is not accepted, or its text has that checksum, too -/
theorem accept_changed (s : Storage) (p q : Project) :
    s.accept ⟨1, (s.enclose p).checksum, q⟩ = .error (.cacheChecksum s.path) ∨
      s.checksum (compact p) = s.checksum (compact q) := by
  by_cases hchecksum : s.checksum (compact p) = s.checksum (compact q)
  · exact .inr hchecksum
  · left
    rw [accept, if_neg (by simp [Error.storedVersion])]
    exact if_pos (Ne.symm hchecksum)

/-- **A changed project that is loaded gives a collision**: two texts with one checksum. -/
theorem collision_of_load (hread : t.readText s.path = .ok content) (hne : p ≠ q)
    (hparse : parse Envelope content = .ok ⟨1, (s.enclose p).checksum, q⟩)
    (hload : s.load t ≠ .error (.cacheChecksum s.path)) :
    s.checksum (compact p) = s.checksum (compact q) ∧ compact p ≠ compact q := by
  refine ⟨(s.accept_changed p q).resolve_left fun haccept => hload ?_, Project.compact_injective.ne hne⟩
  rw [load_of_parse hread hparse, haccept]
  rfl

/-- **A changed file is rejected, and a respelled one is not.** Where the file is read as an envelope with the checksum of
`p` and another project, if only by the spelling of a path, loading fails because of the checksum, unless the texts of the
two collide. Where it is read as the envelope of `p`, `p` is loaded; and so it is read in each spelling. -/
theorem load_changed_file (hread : t.readText s.path = .ok content) (p q : Project) :
    (p ≠ q → (s.checksum (compact p) = s.checksum (compact q) → compact p = compact q) →
        parse Envelope content = .ok ⟨1, (s.enclose p).checksum, q⟩ → s.load t = .error (.cacheChecksum s.path)) ∧
      (parse Envelope content = .ok (s.enclose p) → s.load t = .ok (some p)) ∧
      ((s.enclose p).SpelledBy content → s.load t = .ok (some p)) := by
  have hloaded : parse Envelope content = .ok (s.enclose p) → s.load t = .ok (some p) := fun hparse =>
    load_eq_ok_iff.2 ⟨content, hread, hparse⟩
  refine ⟨fun hne hcollision hparse => ?_, hloaded, fun h => hloaded (Envelope.parse_of_spelledBy h)⟩
  by_contra hload
  obtain ⟨hchecksum, htexts⟩ := collision_of_load hread hne hparse hload
  exact htexts (hcollision hchecksum)

/-! ## A file that is respelled, and one that is changed -/

/-- a module with two files -/
def testModule : Module where
  label := ⟨"//a"⟩
  languages := ⟨[.java], by decide⟩
  tags := ⟨[.test], by decide⟩
  baseDirectory := ⟨"/ws/a"⟩
  sourceSet := { sources := ⟨[⟨"/ws/a/A.java"⟩, ⟨"/ws/a/B.java"⟩], by decide +kernel⟩ }

def testProject : Project where
  workspaceRoot := ⟨"/ws"⟩
  modules := [testModule]
  owners := ⟨[(⟨"/ws/a/A.java"⟩, ⟨"//a"⟩), (⟨"/ws/a/B.java"⟩, ⟨"//a"⟩)], by decide +kernel⟩

/-- the module with its keys in another order, capitals, and `null` for no payload -/
def respelledModule : Json :=
  .object [("tags", .array [.text "TEST"]), ("languages", .array [.text "Java"]), ("language_data", .null),
    ("label", .text "//a"), ("is_synthetic", .bool false),
    ("source_set", .object
      [("source_roots", .array []), ("sources", .array [.text "/ws/a/A.java", .text "/ws/a/B.java"])]),
    ("direct_dependencies", .array []), ("resources", .array []), ("source_dependencies", .array []),
    ("base_directory", .text "/ws/a")]

/-- the envelope with its keys in another order, those of the owners, too, and two that nothing asks for -/
def respelled (checksum : String) : Json :=
  .object [("checksum", .text checksum), ("note", .array [.null, .bool true]),
    ("project", .object
      [("source_to_target", .object [("/ws/a/B.java", .text "//a"), ("/ws/a/A.java", .text "//a")]),
        ("modules", .array [respelledModule]), ("note", .number 0), ("workspace_root", .text "/ws")]),
    ("version", .number 1)]

theorem spells_texts {depth : Nat} (ss : List String) :
    Spells depth (.list .text) (.texts ss) (.array (ss.map .text)) := by
  have htexts : ∀ p ∈ ss.map fun s => (Datum.text s, Json.text s), Spells (depth - 1) .text p.1 p.2 :=
    List.forall_mem_map.2 fun s _ => .text s
  simpa [Datum.texts, Function.comp_def] using Spells.list htexts

theorem spells_singleton {depth : Nat} {item : Schema} {d : Datum} {j : Json} (h : Spells (depth - 1) item d j) :
    Spells depth (.list item) (.list [d]) (.array [j]) :=
  @Spells.list depth item [(d, j)] (by simpa using h)

theorem respelledModule_spells {depth : Nat} : Spells depth (schema Module) (toDatum testModule) respelledModule := by
  have hsources : Spells (depth - 1) (schema SourceSet) (toDatum testModule.sourceSet)
      (.object [("source_roots", .array []), ("sources", .array [.text "/ws/a/A.java", .text "/ws/a/B.java"])]) :=
    .record (by decide) (once_of_nodup (by simp)) <| .held (by simp) (spells_texts ["/ws/a/A.java", "/ws/a/B.java"]) <|
      .held (by simp) (spells_texts []) .nil
  have hlanguages : Spells (depth - 1) (.list (schema Language)) (.list [.text "java"]) (.array [.text "Java"]) :=
    spells_singleton (.name (by decide))
  have htags : Spells (depth - 1) (.list (schema Tag)) (.list [.text "test"]) (.array [.text "TEST"]) :=
    spells_singleton (.name (by decide))
  exact .record (by decide) (once_of_nodup (by simp)) <| .held (by simp [testModule]) (.text _) <|
    .held (by simp [testModule]) (.flag _) <| .held (by simp) (spells_texts []) <| .held (by simp) hlanguages <|
    .held (by simp) htags <| .held (by simp [testModule]) (.text _) <| .held (by simp) hsources <|
    .held (by simp) (spells_texts []) <| .held (by simp) (spells_texts []) <| .null (by simp) rfl .nil

theorem respelled_spells (checksum : String) :
    Spells maxDepth (schema Envelope) (Envelope.datumBy ⟨1, checksum, testProject⟩ testProject.owners.entries.reverse)
      (respelled checksum) := by
  have howners : ∀ e ∈ [("/ws/a/B.java", Datum.text "//a", Json.text "//a"), ("/ws/a/A.java", .text "//a", .text "//a")],
      Spells (maxDepth - 1 - 1 - 1) .text e.2.1 e.2.2 :=
    List.forall_mem_cons.2 ⟨.text _, List.forall_mem_singleton.2 (.text _)⟩
  have hproject : Spells (maxDepth - 1) (schema Project) (testProject.datumBy testProject.owners.entries.reverse)
      (.object [("source_to_target", .object [("/ws/a/B.java", .text "//a"), ("/ws/a/A.java", .text "//a")]),
        ("modules", .array [respelledModule]), ("note", .number 0), ("workspace_root", .text "/ws")]) :=
    .record (by decide) (once_of_nodup (by simp)) <| .held (by simp [testProject]) (.text _) <|
      .held (by simp) (spells_singleton respelledModule_spells) <| .held (by simp) (.dictionary howners) .nil
  have hversion : Spells (maxDepth - 1) (.count 4294967295) (.count 1) (.number 1) := .count (by decide) (by decide)
  exact .record (by decide) (once_of_nodup (by simp)) <| .held (by simp) hversion <| .held (by simp) (.text _) <|
    .held (by simp) hproject .nil

/-- lines that end in two characters and are moved by tabs -/
def loose : Layout where
  line depth := '\r' :: '\n' :: List.replicate depth '\t'
  gap := ['\t', ' ']
  line_blank depth := by
    intro c hc
    simp only [List.mem_cons, List.mem_replicate] at hc
    rcases hc with rfl | rfl | ⟨-, rfl⟩ <;> decide
  gap_blank := by simp [Blank, isSpace]

/-- a file system with one file -/
def holding (content : String) : FileTree := ⟨.ofList [(["cache.json"], .file content.toUTF8)], []⟩

def guarded : Storage := ⟨⟨"/cache.json"⟩, Digest.Md5.ofText⟩

theorem readText_holding (content : String) : (holding content).readText guarded.path = .ok content := by
  have hread : (holding content).read guarded.path = .ok content.toUTF8 := rfl
  rw [FileTree.readText, hread]
  exact FileTree.textOf_toUTF8 content

/-- A slash after the root of the workspace is noticed; an envelope that is written in another way is believed. -/
theorem guarded_changed_file :
    let p : Project := .ofModules ⟨"/ws"⟩ []
    let q : Project := .ofModules ⟨"/ws/"⟩ []
    let checksum := (guarded.enclose testProject).checksum
    guarded.load (holding (pretty (⟨1, (guarded.enclose p).checksum, q⟩ : Envelope))) =
        .error (.cacheChecksum guarded.path) ∧
      guarded.load (holding (pretty (guarded.enclose p))) = .ok (some p) ∧
      guarded.load (holding (String.ofList (loose.chars 0 (respelled checksum)))) = .ok (some testProject) := by
  intro p q checksum
  have hversion : (1 : Nat) ≤ 4294967295 := by decide
  have hchecksums : guarded.checksum (compact p) ≠ guarded.checksum (compact q) := by decide +kernel
  have hne : p ≠ q := fun h => hchecksums (by rw [h])
  have hspelled : (guarded.enclose testProject).SpelledBy (String.ofList (loose.chars 0 (respelled checksum))) :=
    ⟨_, _, List.reverse_perm _, respelled_spells checksum, textOf_chars loose _⟩
  obtain ⟨hrejected, -, -⟩ := load_changed_file (readText_holding _) p q
  obtain ⟨-, hloaded, -⟩ := load_changed_file (readText_holding _) p q
  obtain ⟨-, -, hrespelled⟩ := load_changed_file (readText_holding _) testProject testProject
  refine ⟨hrejected hne (fun h => absurd h hchecksums) ?_, hloaded ?_, hrespelled hspelled⟩
  · exact Envelope.parse_of_spelledBy (Envelope.spelledBy_pretty hversion)
  · exact Envelope.parse_of_spelledBy (Envelope.spelledBy_pretty hversion)

end Storage

end BuildImport
