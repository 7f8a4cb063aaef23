/-
The first call on a new cache over a stored project.

A program that starts asks its cache once. Whatever the file of the stored project holds, the call believes it only if it
is an envelope of the right version with the right checksum; else it resolves once, stores, and the next program believes
what was stored. How a checksum is made is left open, and so is where projects come from: a `ProjectSource` answers as it
likes and may work on the files meanwhile. Only a device with the name of the draft would spoil it, for it would forget
the draft and then be renamed itself; the null device has another name (`clear_of_nullDevice`).

- `load_eq_ok_iff`: when a stored project is believed.
- `load_store`: what was stored is loaded, in the same spelling; from the text of the envelope (`Envelope.faithful`) and
  from what a draft that is renamed leaves (`readText_commit`).
- `firstTurn`: the ways that the first call can go, told by what the file holds.
- `cold_start`: the first call, and the one after it.
-/
import BuildImport.Session
import BuildImport.Proofs.CacheCalls
import BuildImport.Proofs.Encodings
import BuildImport.Proofs.Files
import BuildImport.Proofs.Membership

namespace BuildImport

open Std Outcome

/-! ## Storing and loading -/

namespace Storage

variable {s : Storage} {t t' : FileTree} {p : Project}

/-- the file holds an envelope of the right version around the project, with the checksum of its compact form -/
def Holds (s : Storage) (t : FileTree) (p : Project) : Prop :=
  ∃ content, t.readText s.path = .ok content ∧
    Encoded.parse Envelope content = .ok ⟨1, s.checksum (Encoded.compact p), p⟩

theorem accept_eq_ok_iff {e : Envelope} : s.accept e = .ok p ↔ e = ⟨1, s.checksum (Encoded.compact p), p⟩ := by
  obtain ⟨version, checksum, project⟩ := e
  rw [accept]
  split_ifs with hversion hchecksum
  · constructor
    · exact nofun
    · rintro ⟨⟩
      exact absurd rfl hversion
  · constructor
    · exact nofun
    · rintro ⟨⟩
      exact absurd rfl hchecksum
  · simp only [ne_eq, not_not] at hversion hchecksum
    constructor
    · rintro ⟨⟩
      rw [← hchecksum, hversion]
      rfl
    · rintro ⟨⟩
      rfl

/-- what can be read is there -/
theorem exists?_of_readText {content : String} {path : Path} (h : t.readText path = .ok content) :
    t.exists? path = true := by
  obtain ⟨bytes, hread, -⟩ := bind_eq_ok_iff.1 h
  obtain ⟨place, hfind, -⟩ := bind_eq_ok_iff.1 hread
  rw [FileTree.exists?, hfind]
  rfl

/-- what is loaded is decided by what the text is read as, however it is spelled -/
theorem load_of_parse {content : String} {e : Envelope} (hread : t.readText s.path = .ok content)
    (hparse : Encoded.parse Envelope content = .ok e) : s.load t = (s.accept e).map some := by
  rw [load, if_pos (exists?_of_readText hread)]
  simp only [hread, hparse]

/-- **When a stored project is believed.** -/
theorem load_eq_ok_iff : s.load t = .ok (some p) ↔ s.Holds t p := by
  constructor
  · intro h
    rw [load] at h
    split at h
    · cases hread : t.readText s.path with
      | error e => simp [hread] at h
      | ok content =>
        cases hparse : Encoded.parse Envelope content with
        | error fault => simp [hread, hparse] at h
        | ok e =>
          simp only [hread, hparse] at h
          obtain ⟨q, haccept, hq⟩ := map_eq_ok_iff.1 h
          rw [Option.some.inj hq] at haccept
          exact ⟨content, hread, by rw [hparse, accept_eq_ok_iff.1 haccept]⟩
    · simp at h
  · rintro ⟨content, hread, hparse⟩
    rw [load_of_parse hread hparse, accept_eq_ok_iff.2 rfl]
    rfl

theorem Holds.unique {q : Project} (hp : s.Holds t p) (hq : s.Holds t q) : p = q :=
  Option.some.inj (Except.ok.inj ((load_eq_ok_iff.2 hp).symm.trans (load_eq_ok_iff.2 hq)))

/-- no device has the name of the draft -/
def Clear (s : Storage) (t : FileTree) : Prop := ∀ key, t.node? key = some .sink → key.getLast? ≠ s.draft.fileName?

theorem Clear.of_noNewDevice (h : s.Clear t) (hnew : t.NoNewDevice t') : s.Clear t' :=
  fun key hkey => h key (hnew key hkey)

/-- the null device has another name, whatever the path -/
theorem clear_of_nullDevice (h : ∀ key, t.node? key = some .sink → key = ["dev", "null"]) : s.Clear t := by
  intro key hsink hname
  rw [h key hsink] at hname
  rcases s.path.withExtension_cases "json.tmp" with hnone | ⟨front, hfront⟩
  · rw [draft, hnone] at hname
    cases hname
  · obtain ⟨stem, hstem⟩ := Path.fileName?_of_extension hfront (by decide) (by decide)
    rw [draft, hstem] at hname
    have hlength : "null".toList.length = (stem ++ '.' :: "json.tmp".toList).length := by
      have hlist := congrArg String.toList (Option.some.inj hname)
      rw [String.toList_ofList] at hlist
      exact congrArg List.length hlist
    have hend : "json.tmp".toList.length = 8 := by decide
    have hnull : "null".toList.length = 4 := by decide
    rw [List.length_append, List.length_cons, hend, hnull] at hlength
    omega

/-- what a draft that is renamed leaves -/
theorem readText_commit {content : String} (hclear : s.Clear t) (h : s.commit t content = (t', .ok ())) :
    t'.readText s.path = .ok content := by
  cases hwrite : t.write s.draft content.toUTF8 with
  | error e =>
    rw [commit, hwrite] at h
    cases h
  | ok written =>
    cases hrename : written.rename s.draft s.path with
    | error e =>
      simp only [commit, hwrite, hrename] at h
      cases h
    | ok renamed =>
      simp only [commit, hwrite, hrename] at h
      obtain rfl : renamed = t' := (Prod.mk.inj h).1
      have hdevice : ∀ key slash, t.locate s.draft = .ok (.named key slash) → t.node? key ≠ some .sink :=
        fun key slash hplace hsink => hclear key hsink (FileTree.fileName?_of_locate hplace).1.symm
      obtain ⟨key, hdraft, hfile⟩ := FileTree.file_of_write hwrite hdevice
      rw [FileTree.readText, FileTree.read_of_rename hrename hdraft hfile]
      exact FileTree.textOf_toUTF8 content

/-- a project is stored by making the directory, if the path has one, and committing the envelope -/
theorem store_eq_ok (h : s.store t p = (t', .ok ())) :
    ∃ t₁, (t₁ = t ∨ ∃ parent, t₁ = (t.ensureDirectory parent).1) ∧
      s.commit t₁ (Encoded.pretty (s.enclose p)) = (t', .ok ()) := by
  -- an error of the commit is one of the storing
  have hdone : ∀ t₁, ((s.commit t₁ (Encoded.pretty (s.enclose p))).1,
      (s.commit t₁ (Encoded.pretty (s.enclose p))).2.mapError Error.io) = (t', .ok ()) →
      s.commit t₁ (Encoded.pretty (s.enclose p)) = (t', .ok ()) := by
    intro t₁ h
    obtain ⟨t₂, done, hcommit⟩ : ∃ t₂ done, s.commit t₁ (Encoded.pretty (s.enclose p)) = (t₂, done) := ⟨_, _, rfl⟩
    rw [hcommit] at h ⊢
    cases done with
    | error e => cases h
    | ok _ =>
      obtain rfl : t₂ = t' := (Prod.mk.inj h).1
      rfl
  unfold store at h
  cases hparent : s.path.parent? with
  | none =>
    simp only [hparent] at h
    exact ⟨t, .inl rfl, hdone t h⟩
  | some parent =>
    obtain ⟨t₁, made, hmade⟩ : ∃ t₁ made, t.ensureDirectory parent = (t₁, made) := ⟨_, _, rfl⟩
    simp only [hparent, hmade] at h
    cases made with
    | error e => cases h
    | ok _ => exact ⟨t₁, .inr ⟨parent, by rw [hmade]⟩, hdone t₁ h⟩

/-- **What was stored is loaded.** -/
theorem load_store (hclear : s.Clear t) (h : s.store t p = (t', .ok ())) : s.load t' = .ok (some p) := by
  have hversion : (s.enclose p).version ≤ 4294967295 := show 1 ≤ 4294967295 by decide
  have hparse : Encoded.parse Envelope (Encoded.pretty (s.enclose p)) = .ok (s.enclose p) :=
    (Envelope.faithful hversion).parse_pretty (by decide)
  obtain ⟨t₁, hmade, hcommit⟩ := store_eq_ok h
  have hclear₁ : s.Clear t₁ := by
    rcases hmade with rfl | ⟨parent, rfl⟩
    · exact hclear
    · exact hclear.of_noNewDevice (FileTree.noNewDevice_ensureDirectory t parent)
  exact load_eq_ok_iff.2 ⟨_, readText_commit hclear₁ hcommit, hparse⟩

end Storage

/-! ## Sources -/

/-- where projects come from: anything that answers with a project or an error, says whether the import is to stop, and
may work on the files meanwhile -/
structure ProjectSource where
  resolve : Bool → FileTree → (Except Error Project × Bool) × FileTree

namespace ProjectSource

/-- the projects of a source, stored in a file -/
def backend (source : ProjectSource) (s : Storage) : Backend FileTree Project where
  resolve := source.resolve
  load t := (s.load t, t)
  store p t :=
    let (t, done) := s.store t p
    (done, t)

/-- the import of a workspace changes no files -/
def ofResolution (r : Resolution) : ProjectSource where
  resolve stop t := (r.run t stop, t)

/-- the backend of a session is one of these -/
theorem backend_ofResolution (r : Resolution) (s : Storage) : (ofResolution r).backend s = Session.backend r s := rfl

end ProjectSource

/-! ## The first call -/

/-- a request to the source -/
def Request.isResolve {α : Type} : Request α → Bool
  | .resolve .. => true
  | _ => false

namespace ProjectCache

variable {s : Storage} {t : FileTree}

/-- how often and with what answers the source was asked -/
def Turn.resolutions {σ ℓ α : Type} (turn : Turn σ ℓ α) : List (Request α) := turn.requests.filter Request.isResolve

/-- the first call on a new cache -/
def firstGet (ℓ : Type) (source : ProjectSource) (s : Storage) (stop : Bool) (t : FileTree) : Turn FileTree ℓ Project :=
  perform (source.backend s) (.get stop) {} t

/-- The ways that the first call can go: a stored project is believed; or none is, and the source fails, or has a project
that is to be stored. -/
inductive FirstTurn (ℓ : Type) (source : ProjectSource) (s : Storage) (stop : Bool) (t : FileTree) :
    Turn FileTree ℓ Project → Prop
  | believed {p : Project} : s.Holds t p →
      FirstTurn ℓ source s stop t ⟨.ok (some p), { slot := some p }, t, [.load (.ok (some p))], []⟩
  | failed {r : Except Error (Option Project)} {e : Error} {stopped : Bool} {t₁ : FileTree} : (∀ p, ¬s.Holds t p) →
      source.resolve stop t = ((.error e, stopped), t₁) →
      FirstTurn ℓ source s stop t ⟨.error e, {}, t₁, [.load r, .resolve (.error e) stopped], []⟩
  | resolved {r : Except Error (Option Project)} {p : Project} {stopped : Bool} {done : Except Error Unit}
      {t₁ t₂ : FileTree} : (∀ p, ¬s.Holds t p) →
      source.resolve stop t = ((.ok p, stopped), t₁) → s.store t₁ p = (t₂, done) →
      FirstTurn ℓ source s stop t
        ⟨(done.mapError .cacheStore).map fun _ => some p, { slot := some p }, t₂,
          [.load r, .resolve (.ok p) stopped, .store p done], []⟩

theorem firstTurn (ℓ : Type) (source : ProjectSource) (s : Storage) (stop : Bool) (t : FileTree) :
    FirstTurn ℓ source s stop t (firstGet ℓ source s stop t) := by
  have hstep := step_get (source.backend s) ({} : ProjectCache ℓ Project) stop t
  -- what is not loaded is not believed
  have hunheld : ∀ {r t₁}, (source.backend s).load t = (r, t₁) → (∀ p, r ≠ .ok (some p)) →
      t₁ = t ∧ ∀ p, ¬s.Holds t p := by
    intro r t₁ hload hnot
    obtain ⟨rfl, rfl⟩ := Prod.mk.inj hload
    exact ⟨rfl, fun p hp => hnot p (Storage.load_eq_ok_iff.2 hp)⟩
  rw [firstGet]
  generalize perform (source.backend s) (.get stop) ({} : ProjectCache ℓ Project) t = turn at hstep
  cases hstep with
  | found hslot => cases hslot
  | loaded _ hload =>
    obtain ⟨heq, rfl⟩ := Prod.mk.inj hload
    exact .believed (Storage.load_eq_ok_iff.1 heq)
  | unresolved _ hload hnot hresolve =>
    obtain ⟨rfl, hall⟩ := hunheld hload hnot
    exact .failed hall hresolve
  | resolved _ hload hnot hresolve hstore =>
    obtain ⟨rfl, hall⟩ := hunheld hload hnot
    obtain ⟨hdone, hworld⟩ := Prod.mk.inj hstore
    exact .resolved hall hresolve (Prod.ext hworld hdone)

/-- a project that is believed is the answer, and the source is not asked -/
theorem firstGet_of_holds (ℓ : Type) {p : Project} (h : s.Holds t p) (source : ProjectSource) (stop : Bool) :
    (firstGet ℓ source s stop t).answer = .ok (some p) ∧ (firstGet ℓ source s stop t).resolutions = [] := by
  have hturn := firstTurn ℓ source s stop t
  generalize firstGet ℓ source s stop t = turn at hturn
  cases hturn with
  | believed hq =>
    obtain rfl := h.unique hq
    exact ⟨rfl, rfl⟩
  | failed hall | resolved hall => exact absurd h (hall p)

/-- what is answered without asking the source was stored -/
theorem holds_of_unasked {ℓ : Type} {source : ProjectSource} {stop : Bool} {p : Project}
    (h : (firstGet ℓ source s stop t).answer = .ok (some p)) (hnone : (firstGet ℓ source s stop t).resolutions = []) :
    s.Holds t p := by
  have hturn := firstTurn ℓ source s stop t
  generalize firstGet ℓ source s stop t = turn at hturn h hnone
  cases hturn with
  | believed hq =>
    obtain rfl := Option.some.inj (Except.ok.inj h)
    exact hq
  | failed | resolved => cases hnone

/-- what is answered once the source has been asked: `said` is its answer, `stored` how storing a project ends -/
inductive Answered (said : Except Error Project) (stored : Project → Except Error Unit) :
    Except Error (Option Project) → Prop
  | failed {e : Error} : said = .error e → Answered said stored (.error e)
  | unstored {p : Project} {cause : Error} : said = .ok p → stored p = .error cause →
      Answered said stored (.error (.cacheStore cause))
  | project {p : Project} : said = .ok p → stored p = .ok () → Answered said stored (.ok (some p))

theorem Answered.eq_project {said : Except Error Project} {stored : Project → Except Error Unit}
    {answer : Except Error (Option Project)} (h : Answered said stored answer) {p : Project} (hsaid : said = .ok p)
    (hstored : stored p = .ok ()) : answer = .ok (some p) := by
  cases h with
  | failed hfailed =>
    rw [hsaid] at hfailed
    cases hfailed
  | unstored hsaid' hfailed =>
    obtain rfl : p = _ := Except.ok.inj (hsaid.symm.trans hsaid')
    rw [hstored] at hfailed
    cases hfailed
  | project hsaid' _ =>
    obtain rfl : p = _ := Except.ok.inj (hsaid.symm.trans hsaid')
    rfl

/-- if no project is believed, the source is asked once, and what it says is the answer unless storing fails -/
theorem firstGet_of_not_holds (ℓ : Type) (h : ∀ p, ¬s.Holds t p) (source : ProjectSource) (stop : Bool) :
    let said := (source.resolve stop t).1
    let t₁ := (source.resolve stop t).2
    (firstGet ℓ source s stop t).resolutions = [.resolve said.1 said.2] ∧
      Answered said.1 (fun p => (s.store t₁ p).2) (firstGet ℓ source s stop t).answer := by
  have hturn := firstTurn ℓ source s stop t
  generalize firstGet ℓ source s stop t = turn at hturn
  cases hturn with
  | believed hp => exact absurd hp (h _)
  | failed _ hresolve =>
    rw [hresolve]
    exact ⟨rfl, .failed rfl⟩
  | @resolved _ _ _ done _ _ _ hresolve hstore =>
    rw [hresolve]
    cases done with
    | ok _ => exact ⟨rfl, .project rfl (by rw [hstore])⟩
    | error cause => exact ⟨rfl, .unstored rfl (by rw [hstore])⟩

/-- a project that is the answer is stored -/
theorem holds_of_firstGet {ℓ : Type} {source : ProjectSource} {stop : Bool} (hclear : s.Clear (source.resolve stop t).2)
    {p : Project} (h : (firstGet ℓ source s stop t).answer = .ok (some p)) :
    s.Holds (firstGet ℓ source s stop t).world p := by
  have hturn := firstTurn ℓ source s stop t
  generalize firstGet ℓ source s stop t = turn at hturn h
  cases hturn with
  | believed hq =>
    obtain rfl := Option.some.inj (Except.ok.inj h)
    exact hq
  | failed => cases h
  | @resolved _ _ _ done _ _ _ hresolve hstore =>
    rw [hresolve] at hclear
    cases done with
    | error cause => cases h
    | ok _ =>
      obtain rfl := Option.some.inj (Except.ok.inj h)
      exact Storage.load_eq_ok_iff.1 (Storage.load_store hclear hstore)

/-- **Cold start.** The first call on a new cache answers with the stored project, without asking the source, iff that is
believed; else it asks the source once and answers as the source does, unless storing fails. And what it answered the
next new cache answers too, whatever its source, which is not asked; for this, no device may stand where the draft is
written. -/
theorem cold_start (ℓ : Type) (s : Storage) (source : ProjectSource) (t : FileTree) :
    let first := firstGet ℓ source s false t
    let said := (source.resolve false t).1
    let t₁ := (source.resolve false t).2
    (∀ p, first.answer = .ok (some p) ∧ first.resolutions = [] ↔ s.Holds t p) ∧
      ((∀ p, ¬s.Holds t p) →
        first.resolutions = [.resolve said.1 said.2] ∧ Answered said.1 (fun p => (s.store t₁ p).2) first.answer) ∧
      (s.Clear t₁ → ∀ p, first.answer = .ok (some p) → ∀ (other : ProjectSource) (stop : Bool),
        let second := firstGet ℓ other s stop first.world
        second.answer = .ok (some p) ∧ second.resolutions = []) := by
  intro first said t₁
  refine ⟨fun p => ⟨fun h => holds_of_unasked h.1 h.2, fun hp => firstGet_of_holds ℓ hp source false⟩,
    fun hall => firstGet_of_not_holds ℓ hall source false, ?_⟩
  intro hclear p h other stop
  exact firstGet_of_holds ℓ (holds_of_firstGet hclear h) other stop

/-- a file system with the null device and a stored project that breaks off -/
def damaged : FileTree :=
  ⟨.ofList [(["dev"], .directory), (["dev", "null"], .sink), (["ws"], .directory),
    (["ws", "cache.json"], .file "[1".toUTF8)], []⟩

def damagedStorage : Storage := ⟨⟨"/ws/cache.json"⟩, id⟩

/-- a source that has one project -/
def steadySource (p : Project) : ProjectSource := ⟨fun stop t => ((.ok p, stop), t)⟩

/-- a source that is never to be asked -/
def brokenSource : ProjectSource := ⟨fun _ t => ((.error .cancelled, true), t)⟩

theorem damagedStorage_clear : damagedStorage.Clear damaged := by
  apply Storage.clear_of_nullDevice
  intro key hkey
  cases key with
  | nil => cases hkey
  | cons name names =>
    have hmem := SortedMap.mem_entries_ofList (SortedMap.mem_of_find? hkey)
    simpa using hmem

theorem not_damagedStorage_holds (p : Project) : ¬damagedStorage.Holds damaged p := by
  rintro ⟨content, hread, hparse⟩
  have hcontent : damaged.readText damagedStorage.path = .ok "[1" := by decide +kernel
  have hfault : Encoded.parse Envelope "[1" = .error .unfinished := by decide +kernel
  obtain rfl : "[1" = content := Except.ok.inj (hcontent.symm.trans hread)
  rw [hfault] at hparse
  cases hparse

/-- the directory of the file is there, and so nothing keeps a project from being stored -/
theorem damagedStorage_stores (p : Project) : (damagedStorage.store damaged p).2 = .ok () := rfl

/-- the first start replaces what breaks off, and the second one does without its source -/
theorem damaged_cold_start :
    let p : Project := .ofModules ⟨"/ws"⟩ []
    let first := firstGet Unit (steadySource p) damagedStorage false damaged
    let second := firstGet Unit brokenSource damagedStorage true first.world
    first.resolutions = [.resolve (.ok p) false] ∧ first.answer = .ok (some p) ∧
      second.answer = .ok (some p) ∧ second.resolutions = [] := by
  obtain ⟨-, hunbelieved, hnext⟩ := cold_start Unit damagedStorage (steadySource (.ofModules ⟨"/ws"⟩ [])) damaged
  obtain ⟨hone, hanswered⟩ := hunbelieved not_damagedStorage_holds
  have hanswer := hanswered.eq_project rfl (damagedStorage_stores _)
  exact ⟨hone, hanswer, hnext damagedStorage_clear _ hanswer brokenSource true⟩

end ProjectCache

end BuildImport
