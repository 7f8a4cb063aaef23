/-
Records that the roots do not reach.

A build query may return more records than the project needs. One that no root reaches leaves no trace in the project,
whatever it depends on itself: neither if it stands on a cycle, nor if it depends on roots, nor through its sources and
tags. The only thing that it could have a say in is the language level, which is agreed on for the whole universe; so it
must name none (`Universe.Unrelated`).

What a dependency of a root reaches, the root reaches (`Universe.Reaches.of_listed`). Thus no dependency of an importable
record reaches an unrelated one, and `createProject_addRecord` applies.
-/
import Mathlib.Tactic
import BuildImport.Proofs.Selection

namespace BuildImport

namespace Universe

variable {u : Universe} {x : TargetRecord}

/-- The record is new and not that of a root, no root reaches it in the universe that has it, and it names no language
level. -/
structure Unrelated (u : Universe) (x : TargetRecord) : Prop where
  new : u.find? x.id = none
  noRoot : u.isRoot x.id = false
  unreached : ∀ id ∈ u.roots.toList, ¬ (u.addRecord x).Reaches id x.id
  noLevel : Plugin.NamesNoLevel x

/-- what a root lists does not reach an unrelated record -/
theorem Unrelated.not_reaches_of_listed (hx : u.Unrelated x) {r : TargetRecord} (hroot : u.isRoot r.id = true)
    (hr : u.find? r.id = some r) {d : String} (hd : d ∈ u.listed r.id) : ¬ (u.addRecord x).Reaches d x.id := by
  intro hreach
  have hne : r.id ≠ x.id := fun he => by simp [he, hx.new] at hr
  have hid : r.id ∈ (u.addRecord x).ids := mem_ids_addRecord.2 (.inr (mem_ids_iff.2 ⟨r, hr⟩))
  rw [← listed_addRecord_of_ne hne] at hd
  exact hx.unreached r.id (SortedSet.contains_iff_mem.1 hroot) (hreach.of_listed hid hd)

end Universe

namespace Mapping

variable {m : Mapping} {t : FileTree} {u : Universe} {view : ProjectView} {stop : Bool} {x : TargetRecord}

/-- **Unrelated records leave no trace.** With the plugins for the Java machine an import gives the same project or fails
in the same way, whether or not the universe has a record that no root reaches and that names no language level. -/
theorem createProject_unrelated (hk : u.Keyed) (hp : m.plugins = Plugin.standard) (hx : u.Unrelated x) :
    m.createProject t (u.addRecord x) view stop = m.createProject t u view stop := by
  cases stop with
  | true => rfl
  | false =>
    have hout : ¬ m.Importable (u.addRecord x) x := fun hi => by
      have hroot : u.isRoot x.id = true := hi.root
      simp [hx.noRoot] at hroot
    exact createProject_addRecord hk hp hx.new hx.noLevel hout
      fun r hr d hd => hx.not_reaches_of_listed hr.root hr.record hd

/-- two roots on a cycle with their helper, and a tool that nothing needs and that needs a record that is not there -/
def strayNeeded : Universe :=
  .ofLists
    [{ id := "//app:app", kind := "java_binary", dependencies := ["//lib:lib"], sources := [.source "app/Main.java"],
       java := some { javacOpts := ["--release", "17"] } },
     { id := "//lib:lib", kind := "java_library", dependencies := ["//lib:helper"], sources := [.source "lib/Lib.java"],
       java := some {} },
     { id := "//lib:helper", kind := "java_library", dependencies := ["//app:app", "//gone:gone"],
       java := some { jars := [{ source := [.source "lib/helper-src.jar"] }] } },
     { id := "//tools:tool", kind := "java_binary", dependencies := ["//tools:stray", "//lib:lib"] }]
    ["//app:app", "//lib:lib", "//missing:missing"]

/-- the missing record: it depends on a root, on the tool and on itself -/
def stray : TargetRecord :=
  { id := "//tools:stray", kind := "scala_binary", dependencies := ["//app:app", "//tools:tool", "//tools:stray"],
    sources := [.source "app/Main.java", .source "tools/Stray.scala"], tags := ["no-ide"],
    java := some { javacOpts := ["-Xlint", "--release-notes"], jars := [{ source := [.source "tools/stray-src.jar"] }] } }

/-- the roots and what they need; these ids list only each other -/
def settled : List String := ["//app:app", "//lib:lib", "//lib:helper", "//gone:gone", "//missing:missing"]

/-- `stray`, on a cycle with the tool, leaves no trace in the merged project of the two roots -/
theorem stray_unrelated :
    strayNeeded.Keyed ∧ partImport.plugins = Plugin.standard ∧ strayNeeded.Unrelated stray ∧
      partImport.createProject ⟨∅, []⟩ (strayNeeded.addRecord stray) .standard false =
        partImport.createProject ⟨∅, []⟩ strayNeeded .standard false := by
  have hk : strayNeeded.Keyed := Universe.keyed_ofLists _ _
  have hclosed : ∀ c ∈ settled, ∀ d ∈ (strayNeeded.addRecord stray).listed c, d ∈ settled := by decide
  have hroots : ∀ id ∈ strayNeeded.roots.toList, id ∈ settled := by decide
  have hx : strayNeeded.Unrelated stray :=
    ⟨by decide, by decide, fun id hid h => absurd (h.of_closed hclosed (hroots id hid)) (by decide), by decide⟩
  exact ⟨hk, rfl, hx, createProject_unrelated hk rfl hx⟩

end Mapping

end BuildImport
