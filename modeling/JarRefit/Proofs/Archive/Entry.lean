import JarRefit.Archive.Entry

/-!
# What a container keeps of an entry

Class files come back from a container under their names and with their data, and no other entry
comes back as one.
-/
namespace JarRefit.Archive

variable {e : Entry}

namespace Entry

/-- A file that is no class file. -/
def isResource (e : Entry) : Bool :=
  !e.isDirectory && !e.isClass

theorem isDirectory_of_isClass (hcls : e.isClass = true) : e.isDirectory = false := by
  simpa using (Bool.and_eq_true_iff.1 hcls).1

theorem isClass_iff : e.isClass = true ↔
    e.isDirectory = false ∧ ∃ front, e.name = front ++ classSuffix := by
  have hsuffix : classSuffix.toList <:+ e.name.toList ↔ ∃ front, e.name = front ++ classSuffix := by
    constructor
    · rintro ⟨front, hfront⟩
      exact ⟨String.ofList front, String.toList_inj.1 (by simp [← hfront])⟩
    · rintro ⟨front, hfront⟩
      exact ⟨front.toList, by simp [hfront]⟩
  rw [isClass, Bool.and_eq_true, Bool.not_eq_true', List.isSuffixOf_iff_suffix, hsuffix]

theorem endsAsDirectory_append_classSuffix (front : String) :
    endsAsDirectory (front ++ classSuffix) = false := by
  simp [endsAsDirectory, classSuffix]

/-- Just those entries come back from a container as they are of which nothing can be lost: a name
ends as that of a directory if the entry is one, a directory holds no data, and seconds are
even. -/
theorem stored_eq_self_iff : e.stored = e ↔
    endsAsDirectory e.name = e.isDirectory ∧ (e.isDirectory = true → e.data = []) ∧
      e.time.second % 2 = 0 := by
  obtain ⟨name, isDirectory, ⟨year, month, day, hour, minute, second⟩, data⟩ := e
  have hsecond : second / 2 * 2 = second ↔ second % 2 = 0 := by omega
  cases isDirectory <;> cases hname : endsAsDirectory name <;>
    simp [stored, hname, hsecond, and_comm]

/-- Only directories come back under another name. -/
theorem name_stored (hdir : e.isDirectory = false) : e.stored.name = e.name := by
  simp [stored, hdir]

/-- A class file loses nothing but half a second. -/
theorem stored_of_isClass (hcls : e.isClass = true) : e.stored.name = e.name ∧
    e.stored.data = e.data := by
  obtain ⟨hdir, front, hfront⟩ := isClass_iff.1 hcls
  simp [stored, hdir, hfront, endsAsDirectory_append_classSuffix]

theorem isDirectory_stored (hdir : e.isDirectory = true) : e.stored.isDirectory = true := by
  cases hname : endsAsDirectory e.name <;> simp [stored, hdir, hname]
  simp [endsAsDirectory]

theorem isClass_stored (e : Entry) : e.stored.isClass = e.isClass := by
  cases hdir : e.isDirectory with
  | true => simp [isClass, hdir, isDirectory_stored hdir]
  | false =>
    rw [Bool.eq_iff_iff, isClass_iff, isClass_iff, name_stored hdir]
    refine and_congr_left fun ⟨front, hfront⟩ => iff_of_true ?_ hdir
    simp [stored, hdir, hfront, endsAsDirectory_append_classSuffix]

end Entry

end JarRefit.Archive
