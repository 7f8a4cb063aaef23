/-
Universes from files.

A fetch takes the records from the files at a path and below it whose names end as those of records do. It gives all of
them or none: it succeeds iff something is there and each such file holds a record (`exists_fetch_eq_ok_iff`). Files are
read in the order of a walk (`FileTree.filesFrom_eq_walk`), and a later record of an id replaces an earlier one
(`Universe.find?_ofLists`). What counts is therefore the record in the last file (`find?_fetch_iff`), where files are
compared name by name and not by the texts of their paths. `fetch_spec` has it all.

The path need not lead to a directory: a file there is taken for all that lies below it, and what it holds is of no
interest unless its name has the ending (`lone_file_fetched`).
-/
import Mathlib.Tactic
import BuildImport.AspectOutput
import BuildImport.Proofs.Outcomes
import BuildImport.Proofs.Closure
import BuildImport.Proofs.Imported
import BuildImport.Proofs.Walks

namespace BuildImport

open Std Text Outcome

/-! ## Last elements -/

/-- in an ascending list the first element with a property is the least one -/
theorem find?_eq_some_iff_of_pairwise {α : Type} {lt : α → α → Prop} (hasymm : ∀ {a b}, lt a b → ¬lt b a)
    {P : α → Bool} {xs : List α} (h : xs.Pairwise lt) {x : α} :
    xs.find? P = some x ↔ x ∈ xs ∧ P x = true ∧ ∀ y ∈ xs, P y = true → ¬lt y x := by
  induction xs with
  | nil => simp
  | cons a xs ih =>
    obtain ⟨ha, hxs⟩ := List.pairwise_cons.1 h
    rw [List.find?_cons]
    cases hP : P a with
    | true =>
      simp only [Option.some.injEq]
      constructor
      · rintro rfl
        refine ⟨List.mem_cons_self, hP, fun y hy _ hlt => ?_⟩
        rcases List.mem_cons.1 hy with rfl | hy
        · exact hasymm hlt hlt
        · exact hasymm hlt (ha y hy)
      · rintro ⟨hx, -, hleast⟩
        rcases List.mem_cons.1 hx with rfl | hx
        · rfl
        · exact absurd (ha x hx) (hleast a List.mem_cons_self hP)
    | false =>
      simp only [ih hxs, List.mem_cons]
      constructor
      · rintro ⟨hx, hPx, hleast⟩
        refine ⟨.inr hx, hPx, ?_⟩
        rintro y (rfl | hy) hPy
        · simp [hP] at hPy
        · exact hleast y hy hPy
      · rintro ⟨rfl | hx, hPx, hleast⟩
        · simp [hP] at hPx
        · exact ⟨hx, hPx, fun y hy => hleast y (.inr hy)⟩

/-- what stands beside an element of a list, where it is determined by that element -/
theorem mem_zip_iff {α β : Type} {R : α → β → Prop} (hR : ∀ {a b b'}, R a b → R a b' → b = b')
    {xs : List α} {ys : List β} (h : List.Forall₂ R xs ys) {x : α} {y : β} :
    (x, y) ∈ xs.zip ys ↔ x ∈ xs ∧ R x y := by
  induction h with
  | nil => simp
  | @cons a b as bs hab hrest ih =>
    simp only [List.zip_cons_cons, List.mem_cons, Prod.mk.injEq, ih, or_and_right]
    refine or_congr_left ⟨?_, ?_⟩
    · rintro ⟨rfl, rfl⟩
      exact ⟨rfl, hab⟩
    · rintro ⟨rfl, hxy⟩
      exact ⟨rfl, hR hxy hab⟩

/-- **Of the records of one id the last counts.** -/
theorem Universe.find?_ofLists (rs : List TargetRecord) (roots : List String) (id : String) :
    (ofLists rs roots).find? id = rs.reverse.find? fun r => r.id = id := by
  induction rs using List.reverseRecOn with
  | nil => rfl
  | append_singleton rs r ih =>
    have hlast : (ofLists (rs ++ [r]) roots).find? id = if id = r.id then some r else (ofLists rs roots).find? id := by
      simp only [ofLists, find?, recordsOf, SortedMap.ofList, List.map_append, List.map_cons, List.map_nil,
        List.foldl_append, List.foldl_cons, List.foldl_nil, SortedMap.find?_insert, Std.compare_eq_iff_eq]
    rw [hlast, List.reverse_append, List.reverse_singleton, List.singleton_append, List.find?_cons, ih]
    by_cases hid : r.id = id
    · simp [hid]
    · simp [hid, Ne.symm hid]

/-! ## Files with records -/

/-- a file at a path, or below the directory there -/
inductive FileTree.FoundFrom (t : FileTree) (p : Path) : List String → ByteArray → Prop
  | here {key : List String} {bytes : ByteArray} : t.find p = .ok (key, .file bytes) → FoundFrom t p key bytes
  | below {base key : List String} {bytes : ByteArray} : t.find p = .ok (base, .directory) →
      (∃ rest, rest ≠ [] ∧ key = base ++ rest) → t.node? key = some (.file bytes) → FoundFrom t p key bytes

/-- the name of a file that is found is the file name of its path -/
theorem FileTree.fileName?_of_find {t : FileTree} {p : Path} {key : List String} {bytes : ByteArray}
    (h : t.find p = .ok (key, .file bytes)) : p.fileName? = key.getLast? := by
  obtain ⟨place, hplace, hat⟩ := bind_eq_ok_iff.1 h
  cases place with
  | directory base => cases hat
  | named base slash =>
    obtain ⟨rfl, -, -⟩ := at?_named_eq_ok_iff.1 hat
    exact (fileName?_of_locate hplace).1

/-- the files at a path or below it, in the order of their names from the root -/
theorem FileTree.exists_filesFrom {t : FileTree} {p : Path} (h : t.exists? p = true) :
    ∃ fs : List (List String × ByteArray), t.filesFrom p = .ok (fs.map fun f => (f.1.getLast?.getD "", f.2)) ∧
      (fs.Pairwise fun a b => compare a.1 b.1 = .lt) ∧ ∀ f, f ∈ fs ↔ t.FoundFrom p f.1 f.2 := by
  obtain ⟨⟨base, n⟩, hfind⟩ := Option.isSome_iff_exists.1 h
  have hfind := toOption_eq_some_iff.1 hfind
  cases n with
  | file content =>
    refine ⟨[(base, content)], ?_, List.pairwise_singleton _ _, fun ⟨key, bytes⟩ => ?_⟩
    · rw [filesFrom, hfind]
      simp only [List.map_cons, List.map_nil, ← fileName?_of_find hfind]
      rfl
    · rw [List.mem_singleton]
      constructor
      · rintro ⟨⟩
        exact .here hfind
      · rintro (hfile | ⟨hdirectory, -, -⟩)
        · cases hfind.symm.trans hfile
          rfl
        · cases hfind.symm.trans hdirectory
  | directory =>
    refine ⟨t.filesBelow base, filesFrom_directory hfind, pairwise_filesBelow t base, fun ⟨key, bytes⟩ => ?_⟩
    rw [mem_filesBelow_iff]
    constructor
    · rintro ⟨hbelow, hnode⟩
      exact .below hfind hbelow hnode
    · rintro (hfile | ⟨hdirectory, hbelow, hnode⟩)
      · cases hfind.symm.trans hfile
      · cases hfind.symm.trans hdirectory
        exact ⟨hbelow, hnode⟩
  | sink =>
    refine ⟨[], ?_, .nil, fun f => ?_⟩
    · rw [filesFrom, hfind]
      rfl
    · simp only [List.not_mem_nil, false_iff]
      rintro (hfile | ⟨hdirectory, -, -⟩)
      · cases hfind.symm.trans hfile
      · cases hfind.symm.trans hdirectory

namespace AspectOutput

variable {t : FileTree} {p : Path} {view : ProjectView} {bytes : ByteArray} {r : TargetRecord} {id : String}

/-- a file at a path or below it whose name is that of a file with a record -/
structure IsInfoFile (t : FileTree) (p : Path) (key : List String) (bytes : ByteArray) : Prop where
  found : t.FoundFrom p key bytes
  named : ∃ name, key.getLast? = some name ∧ endsWith ending name = true

/-- bytes that are the text of a record -/
def IsRecord (bytes : ByteArray) (r : TargetRecord) : Prop :=
  ∃ text, FileTree.textOf bytes = .ok text ∧ Encoded.parse TargetRecord text = .ok r

/-- the record of an id in the last of the files that have one -/
def IsLatest (t : FileTree) (p : Path) (id : String) (r : TargetRecord) : Prop :=
  ∃ key bytes, IsInfoFile t p key bytes ∧ IsRecord bytes r ∧ r.id = id ∧
    ∀ key' bytes' r', IsInfoFile t p key' bytes' → IsRecord bytes' r' → r'.id = id → ¬IsAfter key' key

theorem recordOf_eq_ok_iff : recordOf bytes = .ok r ↔ IsRecord bytes r := by
  unfold recordOf IsRecord
  cases htext : FileTree.textOf bytes with
  | error e => simp
  | ok text =>
    simp only [Except.ok.injEq, exists_eq_left']
    cases Encoded.parse TargetRecord text with
    | error fault => simp
    | ok r' => simp

theorem IsRecord.unique {r' : TargetRecord} (h : IsRecord bytes r) (h' : IsRecord bytes r') : r = r' :=
  Except.ok.inj ((recordOf_eq_ok_iff.2 h).symm.trans (recordOf_eq_ok_iff.2 h'))

/-- the files with records at a path or below it, in the order of their names from the root -/
theorem exists_infoFiles (h : t.exists? p = true) :
    ∃ fs : List (List String × ByteArray), infoFiles t p = .ok (fs.map (·.2)) ∧
      (fs.Pairwise fun a b => compare a.1 b.1 = .lt) ∧ ∀ f, f ∈ fs ↔ IsInfoFile t p f.1 f.2 := by
  obtain ⟨fs, hfiles, hascending, hmem⟩ := FileTree.exists_filesFrom h
  have hnamed : ∀ key : List String, endsWith ending (key.getLast?.getD "") = true ↔
      ∃ name, key.getLast? = some name ∧ endsWith ending name = true := by
    intro key
    cases key.getLast? with
    | none => simpa using by decide
    | some name => simp
  refine ⟨fs.filter fun f => endsWith ending (f.1.getLast?.getD ""), ?_, hascending.filter _, fun f => ?_⟩
  · simp only [infoFiles, hfiles, List.filter_map, List.map_map, Function.comp_def]
  · rw [List.mem_filter, hmem, hnamed]
    exact ⟨fun ⟨hfound, hname⟩ => ⟨hfound, hname⟩, fun ⟨hfound, hname⟩ => ⟨hfound, hname⟩⟩

/-! ## Fetches -/

/-- a fetch reads the files in the order of their paths, and all of them -/
theorem exists_fetch_iff (h : t.exists? p = true) (view : ProjectView) :
    ∃ fs : List (List String × ByteArray), (fs.Pairwise fun a b => compare a.1 b.1 = .lt) ∧
      (∀ f, f ∈ fs ↔ IsInfoFile t p f.1 f.2) ∧ ∀ u, fetch t p view false = .ok u ↔
        ∃ rs, List.Forall₂ (fun f r => IsRecord f.2 r) fs rs ∧
          Universe.ofLists rs ((Universe.recordsOf rs).keys.filter view.selectsLabel) = u := by
  obtain ⟨fs, hfiles, hascending, hmem⟩ := exists_infoFiles h
  refine ⟨fs, hascending, hmem, fun u => ?_⟩
  have hread : ∀ rs, (fs.map (·.2)).mapM recordOf = .ok rs ↔ List.Forall₂ (fun f r => IsRecord f.2 r) fs rs := by
    intro rs
    rw [mapM_eq_ok_iff, List.forall₂_map_left_iff]
    simp only [recordOf_eq_ok_iff]
  simp only [fetch, hfiles, bind_eq_ok_iff, pure_eq_ok_iff, Except.ok.injEq, exists_eq_left', hread, Bool.false_eq_true,
    if_false, Universe.ofLists]

theorem exists?_of_fetch {u : Universe} {stop : Bool} (h : fetch t p view stop = .ok u) : t.exists? p = true := by
  obtain ⟨files, hfiles, -⟩ := bind_eq_ok_iff.1 h
  cases hfind : t.find p with
  | ok e => rw [FileTree.exists?, hfind]; rfl
  | error e =>
    have hfailed : t.filesFrom p = .error e := by
      rw [FileTree.filesFrom, hfind]
      rfl
    simp [infoFiles, hfailed] at hfiles

/-- **All or nothing.** A fetch succeeds iff something is there and every file with a record can be read as one. -/
theorem exists_fetch_eq_ok_iff :
    (∃ u, fetch t p view false = .ok u) ↔
      t.exists? p = true ∧ ∀ key bytes, IsInfoFile t p key bytes → ∃ r, IsRecord bytes r := by
  constructor
  · rintro ⟨u, hu⟩
    have hexists := exists?_of_fetch hu
    obtain ⟨fs, -, hmem, hfetch⟩ := exists_fetch_iff hexists view
    obtain ⟨rs, hrs, -⟩ := (hfetch u).1 hu
    refine ⟨hexists, fun key bytes hinfo => ?_⟩
    obtain ⟨r, -, hr⟩ := exists_of_mem_left hrs ((hmem (key, bytes)).2 hinfo)
    exact ⟨r, hr⟩
  · rintro ⟨hexists, hall⟩
    obtain ⟨fs, -, hmem, hfetch⟩ := exists_fetch_iff hexists view
    have hread : ∀ f ∈ fs, ∃ r, recordOf f.2 = .ok r := by
      intro f hf
      obtain ⟨r, hr⟩ := hall _ _ ((hmem f).1 hf)
      exact ⟨r, recordOf_eq_ok_iff.2 hr⟩
    have hrs := (forall₂_filterMap_toOption hread).imp fun _ _ => recordOf_eq_ok_iff.1
    exact ⟨_, (hfetch _).2 ⟨_, hrs, rfl⟩⟩

/-- the records that a fetch reads, beside the names of their files -/
theorem exists_records_of_fetch {u : Universe} (h : fetch t p view false = .ok u) :
    ∃ rs : List (List String × TargetRecord),
      u = .ofLists (rs.map (·.2)) ((Universe.recordsOf (rs.map (·.2))).keys.filter view.selectsLabel) ∧
      (rs.Pairwise fun a b => compare a.1 b.1 = .lt) ∧
      ∀ key r, (key, r) ∈ rs ↔ ∃ bytes, IsInfoFile t p key bytes ∧ IsRecord bytes r := by
  obtain ⟨fs, hascending, hmem, hfetch⟩ := exists_fetch_iff (exists?_of_fetch h) view
  obtain ⟨rs, hrs, rfl⟩ := (hfetch u).1 h
  have hlength : (fs.map (·.1)).length = rs.length := by rw [List.length_map, hrs.length_eq]
  have hpair : ∀ f r, (f, r) ∈ fs.zip rs ↔ IsInfoFile t p f.1 f.2 ∧ IsRecord f.2 r := by
    intro f r
    rw [mem_zip_iff (fun hr hr' => hr.unique hr') hrs, hmem]
  refine ⟨(fs.map (·.1)).zip rs, by rw [List.map_snd_zip hlength.ge], ?_, fun key r => ?_⟩
  · have hnames : (fs.map (·.1)).Pairwise fun a b => compare a b = .lt := List.pairwise_map.2 hascending
    rw [← List.map_fst_zip hlength.le, List.pairwise_map] at hnames
    exact hnames
  · rw [List.zip_map_left, List.mem_map]
    constructor
    · rintro ⟨⟨⟨_, bytes⟩, _⟩, hmem, ⟨⟩⟩
      exact ⟨bytes, (hpair _ _).1 hmem⟩
    · rintro ⟨bytes, hinfo⟩
      exact ⟨((key, bytes), r), (hpair _ _).2 hinfo, rfl⟩

/-- **The last file counts.** -/
theorem find?_fetch_iff {u : Universe} (h : fetch t p view false = .ok u) :
    u.find? id = some r ↔ IsLatest t p id r := by
  obtain ⟨rs, rfl, hascending, hmem⟩ := exists_records_of_fetch h
  have hafter : ∀ key key' : List String, compare key key' = .lt ↔ IsAfter key' key := by
    intro key key'
    rw [isAfter_iff, OrientedCmp.gt_iff_lt]
  -- from the back, the last record is the first one, and files stand in descending order
  have hdescending : rs.reverse.Pairwise fun a b => IsAfter a.1 b.1 := by
    simp only [← hafter]
    exact List.pairwise_reverse.2 hascending
  have hasymm : ∀ {a b : List String × TargetRecord}, IsAfter a.1 b.1 → ¬IsAfter b.1 a.1 := by
    intro a b hab hba
    rw [← hafter] at hab
    rw [isAfter_iff, hab] at hba
    cases hba
  rw [Universe.find?_ofLists, ← List.map_reverse, List.find?_map, Option.map_eq_some_iff]
  simp only [find?_eq_some_iff_of_pairwise hasymm hdescending, List.mem_reverse, Prod.exists, Prod.forall, hmem,
    Function.comp_apply, decide_eq_true_iff]
  constructor
  · rintro ⟨key, r', ⟨⟨bytes, hinfo, hr⟩, hid, hlast⟩, rfl⟩
    refine ⟨key, bytes, hinfo, hr, hid, fun key' bytes' r'' hinfo' hr' hid' => ?_⟩
    exact hlast key' r'' ⟨bytes', hinfo', hr'⟩ hid'
  · rintro ⟨key, bytes, hinfo, hr, hid, hlast⟩
    refine ⟨key, r, ⟨⟨bytes, hinfo, hr⟩, hid, ?_⟩, rfl⟩
    rintro key' r' ⟨bytes', hinfo', hr'⟩ hid'
    exact hlast key' bytes' r' hinfo' hr' hid'

/-- **Every id in a file has a record**, and no other id has one. -/
theorem mem_ids_fetch_iff {u : Universe} (h : fetch t p view false = .ok u) :
    id ∈ u.ids ↔ ∃ key bytes r, IsInfoFile t p key bytes ∧ IsRecord bytes r ∧ r.id = id := by
  obtain ⟨rs, rfl, -, hmem⟩ := exists_records_of_fetch h
  have hlast : (∃ r, (rs.map (·.2)).reverse.find? (fun r => r.id = id) = some r) ↔ ∃ e ∈ rs, e.2.id = id := by
    rw [← Option.isSome_iff_exists, List.find?_isSome]
    simp only [List.mem_reverse, List.mem_map, decide_eq_true_iff, exists_exists_and_eq_and]
  simp only [Universe.mem_ids_iff, Universe.find?_ofLists, hlast, Prod.exists, hmem]
  constructor
  · rintro ⟨key, r, ⟨bytes, hinfo, hr⟩, hid⟩
    exact ⟨key, bytes, r, hinfo, hr, hid⟩
  · rintro ⟨key, bytes, r, hinfo, hr, hid⟩
    exact ⟨key, r, ⟨bytes, hinfo, hr⟩, hid⟩

/-- **All records or none, of each id the last, and for roots what the view selects.** -/
theorem fetch_spec (t : FileTree) (p : Path) (view : ProjectView) :
    ((∃ u, fetch t p view false = .ok u) ↔
      t.exists? p = true ∧ ∀ key bytes, IsInfoFile t p key bytes → ∃ r, IsRecord bytes r) ∧
    ∀ u, fetch t p view false = .ok u →
      (∀ id, id ∈ u.ids ↔ ∃ key bytes r, IsInfoFile t p key bytes ∧ IsRecord bytes r ∧ r.id = id) ∧
      (∀ id r, u.find? id = some r ↔ IsLatest t p id r) ∧ u.Keyed ∧
      ∀ id, id ∈ u.roots.toList ↔ id ∈ u.ids ∧ view.selectsLabel id = true := by
  refine ⟨exists_fetch_eq_ok_iff, fun u hu => ⟨?ids, ?records, ?keyed, ?roots⟩⟩
  case ids => exact fun id => mem_ids_fetch_iff hu
  case records => exact fun id r => find?_fetch_iff hu
  case keyed =>
    obtain ⟨rs, rfl, -, -⟩ := exists_records_of_fetch hu
    exact Universe.keyed_ofLists _ _
  case roots =>
    intro id
    obtain ⟨rs, rfl, -, -⟩ := exists_records_of_fetch hu
    rw [Universe.ofLists, SortedSet.mem_ofList, List.mem_filter]
    rfl

/-- a directory beside one whose name begins with its name, each with a record of the same target -/
def twoReports : FileTree :=
  ⟨.ofList
    [(["out"], .directory), (["out", "a"], .directory), (["out", "a-b"], .directory),
     (["out", "a", "app.target-info.json"], .file "\x7b\"id\": \"//app:app\", \"kind\": \"java_library\"\x7d".toUTF8),
     (["out", "a-b", "app.target-info.json"],
       .file "\x7b\"id\": \"//app:app\", \"kind\": \"scala_library\"\x7d".toUTF8)], []⟩

/-- as a text, the path of the record that counts would come first -/
theorem twoReports_fetched :
    "out/a-b/app.target-info.json" < "out/a/app.target-info.json" ∧
    ∃ u r, fetch twoReports ⟨"out"⟩ ⟨["//app/..."]⟩ false = .ok u ∧ u.Keyed ∧
      IsLatest twoReports ⟨"out"⟩ "//app:app" r ∧ r.kind = "scala_library" ∧ "//app:app" ∈ u.roots.toList := by
  obtain ⟨u, hu, hfound⟩ := any_toOption_iff.1 (show
    (fetch twoReports ⟨"out"⟩ ⟨["//app/..."]⟩ false).toOption.any
      (fun u => (u.find? "//app:app").any fun r => r.kind = "scala_library") = true by decide +kernel)
  obtain ⟨r, hr, hkind⟩ := (Option.any_eq_true _ _).1 hfound
  obtain ⟨hids, hrecords, hkeyed, hroots⟩ := (fetch_spec twoReports ⟨"out"⟩ ⟨["//app/..."]⟩).2 u hu
  have hroot : "//app:app" ∈ u.roots.toList :=
    (hroots _).2 ⟨Universe.mem_ids_iff.2 ⟨r, hr⟩, by decide +kernel⟩
  exact ⟨by decide +kernel, u, r, hu, hkeyed, (hrecords _ _).1 hr, of_decide_eq_true hkind, hroot⟩

/-- a file that holds no record and does not have the name of one that does -/
def loneFile : FileTree :=
  ⟨.ofList [(["out"], .directory), (["out", "notes.json"], .file "not a record".toUTF8)], []⟩

/-- **A path to a file can be fetched from**, though no directory is there. -/
theorem lone_file_fetched :
    ¬((∃ u, fetch loneFile ⟨"out/notes.json"⟩ ⟨[]⟩ false = .ok u) ↔
      loneFile.isDirectory ⟨"out/notes.json"⟩ = true ∧
        ∀ key bytes, IsInfoFile loneFile ⟨"out/notes.json"⟩ key bytes → ∃ r, IsRecord bytes r) := by
  have hfetched : ∃ u, fetch loneFile ⟨"out/notes.json"⟩ ⟨[]⟩ false = .ok u := by
    obtain ⟨u, hu, -⟩ := any_toOption_iff.1 (show
      (fetch loneFile ⟨"out/notes.json"⟩ ⟨[]⟩ false).toOption.any (fun u => u.ids = []) = true by decide +kernel)
    exact ⟨u, hu⟩
  intro hclaim
  have hdirectory : loneFile.isDirectory ⟨"out/notes.json"⟩ = false := by decide +kernel
  rw [(hclaim.1 hfetched).1] at hdirectory
  cases hdirectory

end AspectOutput

end BuildImport
