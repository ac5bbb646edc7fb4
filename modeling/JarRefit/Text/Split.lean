import JarRefit.Text.Blank

/-!
# Cutting text

Splitting at separators, at the first and the last occurrence of a character, into lines and
into words. `splitWhere` is the one recursion; lines and words are read off its parts.
-/
namespace JarRefit.Text

/-- The parts between the characters that satisfy `p`; there is one more part than separators. -/
def splitWhere (p : Char → Bool) (cs : List Char) : List (List Char) :=
  cs.foldr (fun c parts => if p c then [] :: parts else parts.modifyHead (c :: ·)) [[]]

@[simp] theorem splitWhere_nil (p : Char → Bool) : splitWhere p [] = [[]] := rfl

theorem splitWhere_cons (p : Char → Bool) (c : Char) (cs : List Char) :
    splitWhere p (c :: cs) =
      if p c then [] :: splitWhere p cs else (splitWhere p cs).modifyHead (c :: ·) := rfl

theorem splitWhere_ne_nil (p : Char → Bool) (cs : List Char) : splitWhere p cs ≠ [] := by
  induction cs with
  | nil => simp
  | cons c cs ih =>
    rw [splitWhere_cons]
    split
    · simp
    · cases h : splitWhere p cs with
      | nil => exact absurd h ih
      | cons w ws => simp

/-- The maximal runs of characters that are not blank. -/
def words (cs : List Char) : List (List Char) :=
  (splitWhere isBlank cs).filter (fun w => !w.isEmpty)

/-- A line's text without the carriage return of a carriage return and line feed. -/
def dropReturn (line : List Char) : List Char :=
  if line.getLast? = some '\r' then line.dropLast else line

/-- The lines of a text. A line ends at a line feed or at the end of the text; what follows the
last line feed counts only if it is not empty, and keeps a carriage return at its end. -/
def lines (cs : List Char) : List (List Char) :=
  let parts := splitWhere (· == '\n') cs
  parts.dropLast.map dropReturn ++ (parts.getLast?.toList.filter (fun l => !l.isEmpty))

/-- The text before and after the first `c`, if there is one. -/
def cut? (c : Char) (cs : List Char) : Option (List Char × List Char) :=
  match cs.dropWhile (· != c) with
  | [] => none
  | _ :: after => some (cs.takeWhile (· != c), after)

/-- The text before and after the last `c`, if there is one. -/
def cutLast? (c : Char) (cs : List Char) : Option (List Char × List Char) :=
  (cut? c cs.reverse).map fun (after, before) => (before.reverse, after.reverse)

theorem cut?_eq_some {c : Char} {cs before after : List Char}
    (h : cut? c cs = some (before, after)) : cs = before ++ c :: after ∧ c ∉ before := by
  unfold cut? at h
  cases hd : cs.dropWhile (· != c) with
  | nil => simp [hd] at h
  | cons d rest =>
    simp only [hd, Option.some.injEq, Prod.mk.injEq] at h
    obtain ⟨rfl, rfl⟩ := h
    have hdc : d = c := by
      have := List.head?_dropWhile_not (· != c) cs
      simpa [hd] using this
    refine ⟨?_, fun hm => ?_⟩
    · have h := List.takeWhile_append_dropWhile (p := (· != c)) (l := cs)
      rw [hd, hdc] at h
      exact h.symm
    · have h := List.all_eq_true.1 (List.all_takeWhile (p := (· != c)) (l := cs)) c hm
      simp at h

theorem cutLast?_eq_some {c : Char} {cs before after : List Char}
    (h : cutLast? c cs = some (before, after)) : cs = before ++ c :: after ∧ c ∉ after := by
  unfold cutLast? at h
  obtain ⟨⟨a, b⟩, hab, heq⟩ := Option.map_eq_some_iff.1 h
  simp only [Prod.mk.injEq] at heq
  obtain ⟨rfl, rfl⟩ := heq
  obtain ⟨hcs, hc⟩ := cut?_eq_some hab
  refine ⟨?_, by simpa using hc⟩
  have := congrArg List.reverse hcs
  simpa using this

/-- The text joined with `sep` between neighbours. -/
def joinWith (sep : Char) (parts : List (List Char)) : List Char :=
  (parts.intersperse [sep]).flatten

/-- The text after `front`, if it starts with it. -/
def dropFront? (front cs : List Char) : Option (List Char) :=
  if front.isPrefixOf cs then some (cs.drop front.length) else none

/-- The text before `back`, if it ends with it. -/
def dropBack? (back cs : List Char) : Option (List Char) :=
  (dropFront? back.reverse cs.reverse).map List.reverse

/-- Whether `part` stands somewhere in the text. -/
def occursIn (part : List Char) : List Char → Bool
  | [] => part.isEmpty
  | c :: cs => part.isPrefixOf (c :: cs) || occursIn part cs

end JarRefit.Text
