import Mathlib.Data.List.Basic
import JarRefit.Proofs.Access.Table
import JarRefit.Proofs.Nesting.Entrywise

/-!
# Patches and access tables

A patch applies to an entry, in turn, the changes that are requested for it. An access table merges
what is directed for the same class. The two make the same flags when both amount to the same
change.

## Main definitions

* `Sheet.entryAt?`: the entry at a place of a sheet.
* `requested`, `directed`: the changes that a text holds for a nested class, as a patch and as an
  access table read it.
* `PatchedAlike`: a text patches the entries for a nested class as its access table would.
-/
namespace JarRefit.Nesting

open Access (Change Directive Flags RenameTable Table)

/-! ## Entries in their places -/

namespace Entry

theorem flags_foldl_change (e : Entry) (cs : List Change) :
    (cs.foldl change e).flags = (Change.inTurn cs).elim e.flags (·.apply e.flags) := by
  rw [← Change.foldl_apply]
  induction cs generalizing e with
  | nil => rfl
  | cons c cs ih => simpa using ih (e.change c)

end Entry

namespace Sheet

/-- The entry at a place, with the class whose record it is in. -/
def entryAt? (s : Sheet) (i j : Nat) : Option (String × Entry) := do
  let (owner, record) ← s.classes[i]?
  let e ← (← record.entries)[j]?
  return (owner, e)

theorem entryAt?_mapEntries (s : Sheet) (f : String → Entry → Entry) (i j : Nat) :
    (s.mapEntries f).entryAt? i j =
      (s.entryAt? i j).map fun (owner, e) => (owner, f owner e) := by
  simp only [entryAt?, mapEntries, List.getElem?_map]
  cases s.classes[i]? with
  | none => rfl
  | some owned =>
    obtain ⟨owner, r⟩ := owned
    cases hentries : r.entries with
    | none => simp [hentries]
    | some entries => cases hentry : entries[j]? <;> simp [hentries, hentry]

end Sheet

/-! ## Patches and tables -/

/-- The lines of a text. -/
def linesOf (text : String) : List String :=
  (Text.lines text.toList).map String.ofList

/-- The changes that the lines of a text request for a class, in order. -/
def requested (text inner : String) : List Change :=
  (((linesOf text).filterMap Request.ofLine?).filter (·.target = inner)).map (·.change)

/-- The changes that the directives of a text have at the key of a class, in order. -/
def directed (renames : RenameTable) (text cls : String) : List Change :=
  ((Table.directives renames text).filter (·.key = cls)).map (·.change)

/-- A patch applies to the flags of an entry for a nested class what is requested for the class. -/
theorem flags_patch (text : String) {s : Sheet} {inner owner : String} {outer rest : List Char}
    {i j : Nat} {e : Entry} (hinner : Text.cut? '$' inner.toList = some (outer, rest))
    (hentry : s.entryAt? i j = some (owner, e)) (he : e.innerClass = inner)
    (howner : owner = inner ∨ owner = String.ofList outer) :
    ∃ e', (s.patch (linesOf text)).entryAt? i j = some (owner, e') ∧
      e'.flags = (Change.inTurn (requested text inner)).elim e.flags (·.apply e.flags) := by
  have haims : ((linesOf text).filterMap Request.ofLine?).filter (·.Aims owner e.innerClass) =
      ((linesOf text).filterMap Request.ofLine?).filter (·.target = inner) := by
    refine List.filter_congr fun q hq => ?_
    obtain ⟨line, -, hline⟩ := List.mem_filterMap.1 hq
    obtain ⟨outer', rest', hcut, houter⟩ := Request.outer_of_ofLine? hline
    rw [decide_eq_decide, Request.Aims, he, and_iff_left_iff_imp]
    rintro rfl
    rw [hinner] at hcut
    cases hcut
    rw [houter]
    exact howner.symm
  rw [Sheet.patch, Sheet.foldl_patchRequest s fun q => Sheet.outer_ne_target_of_mem,
    Sheet.entryAt?_mapEntries, hentry]
  exact ⟨_, rfl, by rw [haims, Entry.flags_foldl_change]; rfl⟩

theorem applyClass_load (renames : RenameTable) (text cls : String) (f : Flags) :
    (Table.empty.load renames text).applyClass cls f =
      (Change.merged (directed renames text cls)).elim f (·.apply f) := by
  have hasked : {c | c ∈ directed renames text cls} =
      Directive.askedAt (Table.directives renames text) cls := by
    ext c
    simp [directed, Directive.askedAt, and_assoc]
  have hload : Table.Holds (Table.empty.load renames text) (Table.directives renames text) :=
    Table.holds_empty.addAll _
  have hstands := Change.standsFor_merged (directed renames text cls)
  rw [hasked] at hstands
  rw [Table.applyClass, Table.classChange, (hload cls).unique hstands]

/-- A text patches the entries for a nested class, in the record of the class itself and in that of
its outermost class, as its access table changes the class. -/
def PatchedAlike (renames : RenameTable) (text inner outer : String) : Prop :=
  ∀ (s : Sheet) (i j : Nat) (owner : String) (e : Entry), s.entryAt? i j = some (owner, e) →
    e.innerClass = inner → owner = inner ∨ owner = outer →
      ∃ e', (s.patch (linesOf text)).entryAt? i j = some (owner, e') ∧
        e'.flags = (Table.empty.load renames text).applyClass inner e.flags

/-- No line that is about a class names it with an empty segment. -/
def PlainTargets (text : String) : Prop :=
  ∀ line ∈ linesOf text, ∀ access target, Directive.lineWords line = [access, target] →
    "/".intercalate (Directive.ownerSegments target) = target

/-- A line requests for a nested class what its directive asks for at the key of the class. -/
theorem request_eq_directive (renames : RenameTable) {line inner : String}
    {outer rest : List Char} {first : Char}
    (hinner : Text.cut? '$' inner.toList = some (first :: outer, rest)) (hdot : '.' ∉ inner.toList)
    (hplain : ∀ access target, Directive.lineWords line = [access, target] →
      "/".intercalate (Directive.ownerSegments target) = target) :
    ((Request.ofLine? line).filter (·.target = inner)).map (·.change) =
      (((Directive.parse? line).map fun (_, d) => renames.redirect d).filter
        (·.key = inner)).map (·.change) := by
  unfold Request.ofLine? Directive.parse?
  rcases hwords : Directive.lineWords line with
    _ | ⟨access, _ | ⟨target, _ | ⟨member, more⟩⟩⟩
  · rfl
  · rfl
  · have hkey : (Directive.mk (Directive.ownerSegments target) none
        (.ofToken access)).key = target := hplain access target hwords
    dsimp only
    split
    · simp [Option.filter_some, RenameTable.redirect, hkey]
    · have hne : target ≠ inner := by
        rintro rfl
        simp_all
      simp [Option.filter_some, RenameTable.redirect, hkey, hne]
  · -- The key of a member has a dot in it.
    have hkey : (renames.redirect ⟨Directive.ownerSegments target,
        some (.ofToken member), .ofToken access⟩).key ≠ inner := fun hkey => by
      simpa [RenameTable.redirect] using ((Directive.key_eq_owner_iff hdot).1 hkey).2
    simp [hkey, Option.filter_some]

theorem requested_eq_directed (renames : RenameTable) {text inner : String}
    {outer rest : List Char} {first : Char}
    (hinner : Text.cut? '$' inner.toList = some (first :: outer, rest)) (hdot : '.' ∉ inner.toList)
    (hplain : PlainTargets text) : requested text inner = directed renames text inner := by
  have hdirected : directed renames text inner = (linesOf text).filterMap fun line =>
      (((Directive.parse? line).map fun (_, d) => renames.redirect d).filter
        (·.key = inner)).map (·.change) := by
    simp [directed, linesOf, Table.directives, List.filter_filterMap, List.map_filterMap,
      List.filterMap_map]
  have hrequested : requested text inner = (linesOf text).filterMap fun line =>
      ((Request.ofLine? line).filter (·.target = inner)).map (·.change) := by
    simp [requested, List.filter_filterMap, List.map_filterMap]
  rw [hdirected, hrequested]
  exact List.filterMap_congr fun line hline =>
    request_eq_directive renames hinner hdot (hplain line hline)

/-- The entries for a nested class are patched as the class files are widened exactly if what is
requested for the class in turn amounts to what is directed for it. Where no class is named with an
empty segment, that is so unless the final flag is taken away and the last toggle sets it again. -/
theorem patchedAlike_iff (renames : RenameTable) (text inner : String) {outer rest : List Char}
    {first : Char} (hinner : Text.cut? '$' inner.toList = some (first :: outer, rest)) :
    (PatchedAlike renames text inner (String.ofList (first :: outer)) ↔
      Change.inTurn (requested text inner) = Change.merged (directed renames text inner)) ∧
    ('.' ∉ inner.toList → PlainTargets text →
      (PatchedAlike renames text inner (String.ofList (first :: outer)) ↔
        ((∃ c ∈ requested text inner, c.toggle = .forceNonFinal) →
          Change.lastToggle (requested text inner) = .forceNonFinal))) := by
  have hiff : PatchedAlike renames text inner (String.ofList (first :: outer)) ↔
      Change.inTurn (requested text inner) = Change.merged (directed renames text inner) := by
    rw [← Change.elim_apply_inj]
    constructor
    · intro halike f
      let e : Entry := Entry.withFlags { innerClass := inner } f
      have hentry : (Sheet.mk [(inner, { entries := some [e] })]).entryAt? 0 0 = some (inner, e) :=
        rfl
      obtain ⟨e₁, he₁, hflags₁⟩ := halike _ 0 0 _ _ hentry rfl (.inl rfl)
      obtain ⟨e₂, he₂, hflags₂⟩ := flags_patch text hinner hentry rfl (.inl rfl)
      cases he₁.symm.trans he₂
      rw [hflags₁, applyClass_load, Entry.flags_withFlags] at hflags₂
      exact hflags₂.symm
    · intro hsame s i j owner e hentry he howner
      obtain ⟨e', he', hflags⟩ := flags_patch text hinner hentry he howner
      exact ⟨e', he', by rw [hflags, applyClass_load, hsame]⟩
  refine ⟨hiff, fun hdot hplain => ?_⟩
  rw [hiff, ← requested_eq_directed renames hinner hdot hplain, Change.inTurn_eq_merged_iff]

/-- A nested class that two lines make public, the first of them not final as well. -/
theorem patchedAlike_two_lines :
    Text.cut? '$' "a/b$c".toList = some (['a', '/', 'b'], ['c']) ∧
      '.' ∉ "a/b$c".toList ∧ PlainTargets "public-f a.b$c\npublic a/b$c" ∧
      PatchedAlike .empty "public-f a.b$c\npublic a/b$c" "a/b$c" "a/b" := by
  have hcut : Text.cut? '$' "a/b$c".toList = some (['a', '/', 'b'], ['c']) := by decide
  have hdot : '.' ∉ "a/b$c".toList := by decide
  have hplain : PlainTargets "public-f a.b$c\npublic a/b$c" := by
    have hlines : linesOf "public-f a.b$c\npublic a/b$c" = ["public-f a.b$c", "public a/b$c"] := by
      decide
    have hfirst : Directive.lineWords "public-f a.b$c" = ["public-f", "a/b$c"] := by decide
    have hsecond : Directive.lineWords "public a/b$c" = ["public", "a/b$c"] := by decide
    intro line hline access target hwords
    rw [hlines] at hline
    obtain rfl : target = "a/b$c" := by
      simp only [List.mem_cons, List.not_mem_nil, or_false] at hline
      rcases hline with rfl | rfl <;> simp_all
    decide
  exact ⟨hcut, hdot, hplain, ((patchedAlike_iff .empty _ "a/b$c" hcut).2 hdot hplain).2
    fun _ => by decide⟩

/-- A line that makes a nested class final again is followed by the patch, while the access table
lets the earlier line win. -/
theorem not_patchedAlike_final_again :
    (Sheet.mk [("a", { entries := some [{ innerClass := "a$b" }] })]).entryAt? 0 0 =
        some ("a", { innerClass := "a$b" }) ∧
      ((Sheet.mk [("a", { entries := some [{ innerClass := "a$b" }] })]).patch
          (linesOf "public-f a$b\npublic+f a$b")).entryAt? 0 0 =
        some ("a", { innerClass := "a$b", access := some "11" }) ∧
      (Table.empty.load .empty "public-f a$b\npublic+f a$b").applyClass "a$b" ⟨0⟩ = ⟨0x1⟩ ∧
      ¬PatchedAlike .empty "public-f a$b\npublic+f a$b" "a$b" "a" := by
  have hentry : (Sheet.mk [("a", { entries := some [{ innerClass := "a$b" }] })]).entryAt? 0 0 =
      some ("a", { innerClass := "a$b" }) := rfl
  have hpatch : ((Sheet.mk [("a", { entries := some [{ innerClass := "a$b" }] })]).patch
      (linesOf "public-f a$b\npublic+f a$b")).entryAt? 0 0 =
        some ("a", { innerClass := "a$b", access := some "11" }) := by
    rfl
  have htable : (Table.empty.load .empty "public-f a$b\npublic+f a$b").applyClass "a$b" ⟨0⟩ =
      ⟨0x1⟩ := by
    rw [applyClass_load, directed, Table.directives_empty]
    decide
  refine ⟨hentry, hpatch, htable, fun halike => ?_⟩
  obtain ⟨e, he, hflags⟩ := halike _ 0 0 _ _ hentry rfl (.inr rfl)
  cases hpatch.symm.trans he
  exact absurd (hflags.trans htable) (by decide)

end JarRefit.Nesting
