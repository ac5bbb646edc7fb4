import JarRefit.Access.RenameTable
import JarRefit.Proofs.Text.Split

/-!
# Symbols of directives

A directive aims at a symbol or, through a wildcard, at all members of a kind. No owner that a
directive names has a dot in it, so the key of a directive tells its owner and its member apart. A
rename table redirects the directives for the members that it has a new name for.

## Main definitions

* `Symbol`: a class, a field or a method whose flags are asked for.
* `Directive.Concerns`: the directives that aim at a symbol.
* `Directive.Redirects`: what redirecting makes of a directive.
-/
namespace JarRefit.Access

/-- A symbol whose flags can be changed. -/
inductive Symbol where
  | cls (owner : String)
  | field (owner name : String)
  | method (owner name descriptor : String)
deriving DecidableEq, Repr

/-- The class that a symbol is or belongs to. -/
def Symbol.owner : Symbol → String
  | .cls owner | .field owner _ | .method owner _ _ => owner

/-- The member tokens by which directives name a symbol, if it is a member. -/
def Symbol.tokens? : Symbol → Option (List String)
  | .cls _ => none
  | .field _ name => some [name, "*"]
  | .method _ name descriptor => some [name ++ descriptor, "*()"]

namespace Directive

/-- Whether a directive aims at a symbol: at the class itself, or at a member of it by one of its
tokens. -/
def Concerns (d : Directive) (s : Symbol) : Prop :=
  d.owner = s.owner ∧
    match s.tokens? with
    | none => d.member = none
    | some tokens => ∃ m, d.member = some m ∧ m.token ∈ tokens

/-! ## Redirecting -/

/-- A member that the table knows gets its new name; a class and any other member stay as they are.
The owner, the descriptor of the member and the change are kept. -/
inductive Redirects (renames : RenameTable) : Directive → Directive → Prop where
  | cls {ownerPath : List String} {change : Change} :
      Redirects renames ⟨ownerPath, none, change⟩ ⟨ownerPath, none, change⟩
  | known {ownerPath : List String} {name new : String} {descriptor : Option String}
      {change : Change} (h : renames.lookup name = some new) :
      Redirects renames ⟨ownerPath, some ⟨name, descriptor⟩, change⟩
        ⟨ownerPath, some ⟨new, descriptor⟩, change⟩
  | unknown {ownerPath : List String} {name : String} {descriptor : Option String}
      {change : Change} (h : renames.lookup name = none) :
      Redirects renames ⟨ownerPath, some ⟨name, descriptor⟩, change⟩
        ⟨ownerPath, some ⟨name, descriptor⟩, change⟩

theorem redirects_iff {renames : RenameTable} {read d : Directive} :
    Redirects renames read d ↔ renames.redirect read = d := by
  constructor
  · intro h
    cases h with
    | cls => rfl
    | known h | unknown h => simp [RenameTable.redirect, h]
  · rintro rfl
    obtain ⟨ownerPath, _ | ⟨name, descriptor⟩, change⟩ := read
    · exact .cls
    · cases h : renames.lookup name with
      | none => simpa [RenameTable.redirect, h] using .unknown h
      | some new => simpa [RenameTable.redirect, h] using .known h

/-! ## Owners have no dots -/

theorem dot_notMem_normalizeLine {line text : String} (h : normalizeLine line = some text) :
    '.' ∉ text.toList := by
  unfold normalizeLine at h
  dsimp only at h
  split at h
  · cases h
  · cases h
    simp only [String.toList_ofList, List.mem_map, not_exists, not_and]
    intro c _ hc
    split at hc
    · cases hc
    · exact absurd hc ‹_›

theorem dot_notMem_lineWords {line word : String} (h : word ∈ lineWords line) :
    '.' ∉ word.toList := by
  unfold lineWords at h
  cases hline : normalizeLine line with
  | none => simp [hline] at h
  | some text =>
    rw [hline] at h
    obtain ⟨w, hw, rfl⟩ := List.mem_map.1 h
    intro hdot
    rw [String.toList_ofList] at hdot
    exact dot_notMem_normalizeLine hline (Text.mem_of_mem_words hw hdot).1

theorem mem_of_mem_intercalate {c : Char} {sep : List Char} {parts : List (List Char)}
    (h : c ∈ sep.intercalate parts) : c ∈ sep ∨ ∃ part ∈ parts, c ∈ part := by
  induction parts with
  | nil => simp at h
  | cons part parts ih =>
    cases parts with
    | nil => exact .inr ⟨part, by simp, by simpa using h⟩
    | cons next parts =>
      rw [List.intercalate_cons_cons] at h
      simp only [List.mem_append] at h
      rcases h with (h | h) | h
      · exact .inr ⟨part, by simp, h⟩
      · exact .inl h
      · rcases ih h with h | ⟨part', hpart, hc⟩
        · exact .inl h
        · exact .inr ⟨part', List.mem_cons_of_mem _ hpart, hc⟩

/-- No owner of a directive that is read has a dot in it. -/
theorem dot_notMem_owner {line path : String} {d : Directive} (h : parse? line = some (path, d)) :
    '.' ∉ d.owner.toList := by
  unfold parse? at h
  split at h
  case h_2 => cases h
  case h_1 access owner rest hwords =>
    cases h
    have hmem : owner ∈ lineWords line := by simp [hwords]
    have howner := dot_notMem_lineWords hmem
    intro hdot
    rw [Directive.owner, String.toList_intercalate] at hdot
    rcases mem_of_mem_intercalate hdot with hdot | ⟨part, hpart, hdot⟩
    · exact absurd hdot (by decide)
    · simp only [ownerSegments, List.mem_map, List.mem_filter] at hpart
      obtain ⟨_, ⟨segment, ⟨hsegment, -⟩, rfl⟩, rfl⟩ := hpart
      rw [String.toList_ofList] at hdot
      exact howner (Text.mem_of_mem_splitWhere hsegment hdot).1

/-! ## Keys -/

variable {d : Directive} {owner token : String}

theorem toList_join (owner token : String) :
    (owner ++ "." ++ token).toList = owner.toList ++ '.' :: token.toList := by
  simp [String.toList_append]

/-- The key of a member tells its owner and its token apart, as long as owners have no dots. -/
theorem key_eq_join_iff (hd : '.' ∉ d.owner.toList) (howner : '.' ∉ owner.toList) :
    d.key = owner ++ "." ++ token ↔
      d.owner = owner ∧ ∃ m, d.member = some m ∧ m.token = token := by
  unfold key
  cases d.member with
  | none =>
    simp only [reduceCtorEq, false_and, exists_false, and_false, iff_false]
    intro hkey
    rw [hkey, toList_join] at hd
    simp at hd
  | some m =>
    simp only [Option.some.injEq, exists_eq_left']
    rw [← String.toList_inj, toList_join, toList_join, Text.append_cons_inj hd howner,
      String.toList_inj, String.toList_inj]

/-- The key of a class has no dot, the key of a member has one. -/
theorem key_eq_owner_iff (howner : '.' ∉ owner.toList) :
    d.key = owner ↔ d.owner = owner ∧ d.member = none := by
  unfold key
  cases d.member with
  | none => simp
  | some m =>
    simp only [reduceCtorEq, and_false, iff_false]
    rintro rfl
    rw [toList_join] at howner
    simp at howner

end Directive

end JarRefit.Access
