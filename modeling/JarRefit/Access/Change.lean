import JarRefit.Access.Flags

/-!
# Access changes

A change asks for a visibility and may turn the final flag on or off. Applying one widens: only a
private symbol takes over whatever visibility is asked for. Merging two changes for one symbol
keeps the wider visibility, and taking the final flag away beats adding it.
-/
namespace JarRefit.Access

/-- The visibility that the keyword at the front of an access token asks for; a token without
keyword asks for the visibility of the package. -/
def Visibility.ofToken (token : List Char) : Visibility :=
  if "public".toList.isPrefixOf token then .pub
  else if "private".toList.isPrefixOf token then .priv
  else if "protected".toList.isPrefixOf token then .prot
  else .pkg

/-- What a change does to the final flag. -/
inductive FinalToggle where
  | unchanged
  | forceFinal
  | forceNonFinal
deriving DecidableEq, Repr

namespace FinalToggle

/-- The marker at the back of an access token. -/
def ofToken (token : List Char) : FinalToggle :=
  if "-f".toList.isSuffixOf token then .forceNonFinal
  else if "+f".toList.isSuffixOf token then .forceFinal
  else .unchanged

def marker : FinalToggle → String
  | .unchanged => ""
  | .forceFinal => "+f"
  | .forceNonFinal => "-f"

/-- Taking the flag away beats setting it, which beats leaving it. -/
def merge : FinalToggle → FinalToggle → FinalToggle
  | .forceNonFinal, _ | _, .forceNonFinal => .forceNonFinal
  | .forceFinal, _ | _, .forceFinal => .forceFinal
  | .unchanged, .unchanged => .unchanged

def apply (toggle : FinalToggle) (flags : Flags) : Flags :=
  match toggle with
  | .unchanged => flags
  | .forceFinal => flags.union .finalBit
  | .forceNonFinal => flags.remove .finalBit

end FinalToggle

/-- The visibility of a symbol that had `old` when `target` is asked for. -/
def Visibility.widen (old target : Visibility) : Visibility :=
  match old with
  | .priv => target
  | .pkg => if target = .priv then .pkg else target
  | .prot => if target = .pub then .pub else .prot
  | .pub => .pub

/-- Widening is the maximum of the order. -/
theorem Visibility.widen_eq_max (old target : Visibility) : old.widen target = max old target := by
  cases old <;> cases target <;> decide

/-- A visibility that is asked for, with what happens to the final flag. -/
structure Change where
  visibility : Visibility
  toggle : FinalToggle
deriving DecidableEq, Repr

namespace Change

/-- The change that an access token such as `public-f` stands for. Every token stands for one. -/
def ofToken (token : String) : Change :=
  ⟨.ofToken token.toList, .ofToken token.toList⟩

/-- The shortest token of a change. -/
def token (c : Change) : String :=
  c.visibility.keyword ++ c.toggle.marker

theorem ofToken_token (c : Change) : ofToken c.token = c := by
  obtain ⟨v, t⟩ := c
  cases v <;> cases t <;> decide

/-- The flags of a symbol after the change. -/
def apply (c : Change) (flags : Flags) : Flags :=
  c.toggle.apply (flags.withVisibility (flags.visibility.widen c.visibility))

/-- One change in place of two for the same symbol. -/
def merge (c other : Change) : Change :=
  ⟨max c.visibility other.visibility, c.toggle.merge other.toggle⟩

end Change

end JarRefit.Access
