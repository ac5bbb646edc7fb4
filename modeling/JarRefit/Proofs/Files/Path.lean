import JarRefit.Files.Path
import JarRefit.Proofs.Text.Split

/-!
# Segments of paths

A name joined to a path is the last segment of the result.
-/
namespace JarRefit.Files.Path

/-- A text that names one segment of a path. -/
def IsSegment (name : String) : Prop :=
  '/' ∉ name.toList ∧ name ≠ "" ∧ name ≠ "."

instance (name : String) : Decidable (IsSegment name) :=
  inferInstanceAs (Decidable (_ ∧ _))

variable {name : String}

theorem IsSegment.splitWhere (h : IsSegment name) :
    Text.splitWhere (· == '/') name.toList = [name.toList] :=
  Text.splitWhere_eq_singleton fun c hc => by
    simpa using fun hslash : c = '/' => h.1 (hslash ▸ hc)

theorem IsSegment.pieces (h : IsSegment name) : Path.pieces name = [name] := by
  simp [Path.pieces, h.splitWhere]

theorem IsSegment.segments (h : IsSegment name) : Path.segments name = [name] := by
  simp [Path.segments, h.pieces, h.2.1, h.2.2]

theorem IsSegment.isAbsolute (h : IsSegment name) : Path.isAbsolute name = false := by
  obtain ⟨hslash, -, -⟩ := h
  unfold Path.isAbsolute
  cases hname : name.toList with
  | nil => rfl
  | cons c cs =>
    have : c ≠ '/' := fun hc => hslash (by simp [hname, hc])
    simpa using this

theorem segments_append (front : String) (h : IsSegment name) :
    Path.segments (front ++ "/" ++ name) = Path.segments front ++ [name] := by
  have hchars : (front ++ "/" ++ name).toList = front.toList ++ '/' :: name.toList := by
    simp
  simp [Path.segments, Path.pieces, hchars, Text.splitWhere_append_cons, h.splitWhere, h.2.1, h.2.2]

theorem getLast?_segments_join (directory : Path) (h : IsSegment name) :
    (join directory name).segments.getLast? = some name := by
  unfold join
  split
  · simp [h.segments]
  · split
    · next hslash =>
      obtain ⟨front, hfront⟩ := List.getLast?_eq_some_iff.1 hslash
      have hdirectory : directory = String.ofList front ++ "/" := by
        rw [← String.ofList_toList (s := directory), hfront, String.ofList_append]
      rw [hdirectory, segments_append _ h, List.getLast?_concat]
    · rw [segments_append _ h, List.getLast?_concat]

end JarRefit.Files.Path
