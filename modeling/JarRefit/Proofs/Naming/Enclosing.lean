import JarRefit.Naming.SymbolMapping
import JarRefit.Proofs.Naming.Grammar
import JarRefit.Proofs.Text.Split

/-!
# Classes that follow what is around them

A class without an entry follows the class around it, and a class outside of others its package.
Over all levels a class follows the longest of the names that enclose it and have an entry, and if
none has one, the package of the name in front of its first `$`.

What stands in front of a `$` counts as a class wherever the `$` stands. So a class in a package
with a `$` in its name does not follow that package, but whatever the name in front of the `$`
follows.

## Main definitions

* `Encloses`: a class name that another one goes on from, and how it goes on.
* `InPackage`: the package and the simple name of a class.
* `SymbolMapping.LongestEntry`: the longest enclosing name with an entry.
* `SymbolMapping.Placed`: where a class goes by the entry of its package.
-/
namespace JarRefit.Naming

open Grammar (nestedName toList_nestedName)

variable {outer rest cls host simple package name new : String}

/-! ## Enclosing names -/

/-- A name with a `$` is nested in what stands in front of the last one. -/
theorem exists_nestedName (h : '$' ∈ cls.toList) :
    ∃ host simple, cls = nestedName host simple ∧ '$' ∉ simple.toList := by
  obtain ⟨before, after, hcut, hfree⟩ := Text.exists_last_of_mem h
  refine ⟨String.ofList before, String.ofList after, ?_, by simpa using hfree⟩
  rw [← String.toList_inj, hcut, toList_nestedName, String.toList_ofList, String.toList_ofList]

theorem nestedName_ne_self (outer inner : String) : nestedName outer inner ≠ outer := by
  intro h
  have hlength := congrArg (·.toList.length) h
  simp only [toList_nestedName, List.length_append, List.length_cons] at hlength
  omega

/-- A class name is `outer`, or starts with it and goes on with a `$`; `rest` is all behind it. -/
structure Encloses (outer rest cls : String) : Prop where
  name : cls = outer ++ rest
  border : rest = "" ∨ ∃ inner, rest = "$" ++ inner

namespace Encloses

theorem refl (cls : String) : Encloses cls "" cls :=
  ⟨String.append_empty.symm, .inl rfl⟩

theorem nest (h : Encloses outer rest host) (simple : String) :
    Encloses outer (nestedName rest simple) (nestedName host simple) where
  name := by simp [nestedName, h.name, String.append_assoc]
  border := by
    right
    rcases h.border with rfl | ⟨inner, rfl⟩
    · exact ⟨simple, by simp [nestedName]⟩
    · exact ⟨nestedName inner simple, by simp [nestedName, String.append_assoc]⟩

/-- A name encloses itself, or another one that the class is directly nested in. -/
theorem self_or_nested (h : Encloses outer rest cls) : rest = "" ∧ cls = outer ∨
    ∃ rest' host simple, '$' ∉ simple.toList ∧ rest = nestedName rest' simple ∧
      cls = nestedName host simple ∧ Encloses outer rest' host := by
  obtain ⟨rfl, rfl | ⟨inner, rfl⟩⟩ := h
  · exact .inl ⟨rfl, String.append_empty⟩
  right
  have hdollar : '$' ∈ ("$" ++ inner).toList := by simp
  obtain ⟨front, simple, hrest, hfree⟩ := exists_nestedName hdollar
  refine ⟨front, outer ++ front, simple, hfree, hrest, ?_, rfl, ?_⟩
  · rw [hrest]
    simp [nestedName, String.append_assoc]
  · -- What is left in front of the last `$` starts with the first one, if it is not empty.
    have hchars := congrArg String.toList hrest
    rw [toList_nestedName] at hchars
    cases hfront : front.toList with
    | nil => exact .inl (String.toList_inj.1 hfront)
    | cons d front' =>
      have hd : d = '$' := by simpa [hfront] using (congrArg List.head? hchars).symm
      exact .inr ⟨String.ofList front', by rw [← String.toList_inj]; simp [hfront, hd]⟩

/-- A class gets into an enclosing name by one level after another. -/
theorem induction {motive : ∀ rest cls, Encloses outer rest cls → Prop}
    (self : motive "" outer (.refl outer))
    (nested : ∀ rest host simple (_ : '$' ∉ simple.toList) (hhost : Encloses outer rest host),
      motive rest host hhost →
        motive (nestedName rest simple) (nestedName host simple) (hhost.nest simple))
    {rest cls : String} (h : Encloses outer rest cls) : motive rest cls h := by
  induction hn : cls.toList.length using Nat.strongRecOn generalizing rest cls with
  | _ n ih =>
    rcases h.self_or_nested with ⟨rfl, rfl⟩ | ⟨rest', host, simple, hfree, rfl, rfl, hhost⟩
    · exact self
    · refine nested rest' host simple hfree hhost (ih _ ?_ hhost rfl)
      rw [← hn, toList_nestedName, List.length_append, List.length_cons]
      omega

end Encloses

/-! ## Packages -/

open SymbolMapping (defaultPackage)

/-- The package and the simple name of a class: what stands in front of the last slash and behind
it. A class without slashes is in the unnamed package. -/
inductive InPackage (package simple : String) : String → Prop where
  | named (hsimple : '/' ∉ simple.toList) : InPackage package simple (package ++ "/" ++ simple)
  | unnamed (hpackage : package = defaultPackage) (hsimple : '/' ∉ simple.toList) :
      InPackage package simple simple

theorem InPackage.splitPackage_eq (h : InPackage package simple cls) :
    SymbolMapping.splitPackage cls = (package, simple) := by
  cases h with
  | named hsimple =>
    have hcut : (package ++ "/" ++ simple).toList = package.toList ++ '/' :: simple.toList := by
      simp
    rw [SymbolMapping.splitPackage, hcut, Text.cutLast?_append hsimple]
    simp
  | unnamed hpackage hsimple =>
    rw [SymbolMapping.splitPackage, Text.cutLast?_eq_none hsimple, hpackage]

theorem InPackage.unique {package' simple' : String} (h : InPackage package simple cls)
    (h' : InPackage package' simple' cls) : package = package' ∧ simple = simple' := by
  have hsplit := h.splitPackage_eq.symm.trans h'.splitPackage_eq
  simpa using hsplit

theorem exists_inPackage (cls : String) : ∃ package simple, InPackage package simple cls := by
  by_cases h : '/' ∈ cls.toList
  · obtain ⟨before, after, hcut, hfree⟩ := Text.exists_last_of_mem h
    have hcls : cls = String.ofList before ++ "/" ++ String.ofList after := by
      rw [← String.toList_inj, hcut]
      simp
    rw [hcls]
    exact ⟨_, _, .named (by simpa using hfree)⟩
  · exact ⟨defaultPackage, cls, .unnamed rfl h⟩

namespace SymbolMapping

variable {m : SymbolMapping}

/-- Where a class goes by the entry of its package: into the new package, out of all packages if
that is the unnamed one, and nowhere if there is no entry. -/
inductive Placed (m : SymbolMapping) (cls : String) : String → Prop where
  | moved {package simple new : String} (hcls : InPackage package simple cls)
      (hentry : m.packages[package]? = some new) (hnew : new ≠ defaultPackage) :
      Placed m cls (new ++ "/" ++ simple)
  | freed {package simple : String} (hcls : InPackage package simple cls)
      (hentry : m.packages[package]? = some defaultPackage) : Placed m cls simple
  | kept {package simple : String} (hcls : InPackage package simple cls)
      (hentry : m.packages[package]? = none) : Placed m cls cls

theorem placed_iff : m.Placed cls name ↔ name = m.relocate cls := by
  constructor
  · intro h
    cases h with
    | moved hcls hentry hnew => simp [relocate, hcls.splitPackage_eq, hentry, hnew]
    | freed hcls hentry => simp [relocate, hcls.splitPackage_eq, hentry]
    | kept hcls hentry => simp [relocate, hcls.splitPackage_eq, hentry]
  · rintro rfl
    obtain ⟨package, simple, hcls⟩ := exists_inPackage cls
    unfold relocate
    rw [hcls.splitPackage_eq]
    dsimp only
    split
    · next new hentry =>
      split
      · next hnew => exact .freed hcls (hnew ▸ hentry)
      · next hnew => exact .moved hcls hentry hnew
    · next hentry => exact .kept hcls hentry

theorem Placed.unique {name' : String} (h : m.Placed cls name) (h' : m.Placed cls name') :
    name = name' :=
  (placed_iff.1 h).trans (placed_iff.1 h').symm

/-! ## Levels -/

/-- The new name of a class by its entry, or else by the class around it, or else by its package. -/
theorem renameClass_eq (m : SymbolMapping) (cls : String) : m.renameClass cls =
    match m.classes[cls]?, Text.cutLast? '$' cls.toList with
    | some new, _ => new
    | none, some (outer, inner) =>
      if m.renameClass (String.ofList outer) = String.ofList outer then cls
      else m.renameClass (String.ofList outer) ++ "$" ++ String.ofList inner
    | none, none => m.relocate cls := by
  rw [renameClass]
  split
  · simp_all
  · split <;> simp_all

theorem renameClass_of_entry (h : m.classes[cls]? = some new) : m.renameClass cls = new := by
  rw [renameClass_eq, h]

theorem renameClass_nestedName (hentry : m.classes[nestedName host simple]? = none)
    (hfree : '$' ∉ simple.toList) :
    m.renameClass (nestedName host simple) = nestedName (m.renameClass host) simple := by
  rw [renameClass_eq, hentry, toList_nestedName, Text.cutLast?_append hfree]
  simp only [String.ofList_toList]
  split
  · next hsame => rw [hsame]
  · rfl

theorem renameClass_of_free (hentry : m.classes[cls]? = none) (hfree : '$' ∉ cls.toList) :
    m.renameClass cls = m.relocate cls := by
  rw [renameClass_eq, hentry, Text.cutLast?_eq_none hfree]

/-- A class follows an enclosing name as long as none of the longer ones has an entry. -/
theorem renameClass_of_encloses (h : Encloses outer rest cls)
    (hlonger : ∀ p tail, Encloses p tail cls → outer.length < p.length → m.classes[p]? = none) :
    m.renameClass cls = m.renameClass outer ++ rest := by
  induction h using Encloses.induction with
  | self => rw [String.append_empty]
  | nested rest host simple hfree hhost ih =>
    have hlength : outer.length < (nestedName host simple).length := by
      simp only [hhost.name, nestedName, String.length_append]
      have : "$".length = 1 := rfl
      omega
    have hentry : m.classes[nestedName host simple]? = none := hlonger _ _ (.refl _) hlength
    have hhost := ih fun p tail hp hlt => hlonger p _ (hp.nest simple) hlt
    rw [renameClass_nestedName hentry hfree, hhost]
    simp [nestedName, String.append_assoc]

/-- The longest of the names that enclose a class and have an entry, with its new name and how the
class goes on behind it. -/
structure LongestEntry (m : SymbolMapping) (cls outer rest new : String) : Prop where
  encloses : Encloses outer rest cls
  entry : m.classes[outer]? = some new
  longest : ∀ p tail, Encloses p tail cls → m.classes[p]? ≠ none → p.length ≤ outer.length

/-- A class takes the new name of the longest enclosing name with an entry, and goes on behind it as
before. If none has an entry, the name in front of the first `$` goes where its package does. -/
theorem renameClass_follows (m : SymbolMapping) (cls : String) :
    (∀ outer rest new, m.LongestEntry cls outer rest new → m.renameClass cls = new ++ rest) ∧
    ((∀ outer rest, Encloses outer rest cls → m.classes[outer]? = none) →
      ∀ host rest, Encloses host rest cls → '$' ∉ host.toList →
        ∃ name, m.Placed host name ∧ m.renameClass cls = name ++ rest) := by
  constructor
  · intro outer rest new h
    rw [← renameClass_of_entry h.entry]
    refine renameClass_of_encloses h.encloses fun p tail hp hlt => ?_
    by_cases hentry : m.classes[p]? = none
    · exact hentry
    · exact absurd (h.longest p tail hp hentry) (Nat.not_le.2 hlt)
  · intro hnone host rest hhost hfree
    refine ⟨m.relocate host, placed_iff.2 rfl, ?_⟩
    rw [← renameClass_of_free (hnone host rest hhost) hfree]
    exact renameClass_of_encloses hhost fun p tail hp _ => hnone p tail hp

/-! ## Packages with a `$` -/

end SymbolMapping

/-- A simple name without `$` leaves only the package to have one. -/
theorem InPackage.free_iff (h : InPackage package simple cls) (hsimple : '$' ∉ simple.toList) :
    '$' ∉ cls.toList ↔ '$' ∉ package.toList := by
  cases h with
  | named => simp [hsimple]
  | unnamed hpackage => simp [hsimple, hpackage, defaultPackage]

/-- A class in a package with a `$` has the form of a nested class. -/
theorem InPackage.eq_nestedName {inner : String}
    (h : InPackage (nestedName outer inner) simple cls) :
    cls = nestedName outer (inner ++ "/" ++ simple) ∧
      cls = nestedName outer inner ++ "/" ++ simple := by
  cases h with
  | named => simp [nestedName, String.append_assoc]
  | unnamed hpackage =>
    have hdollar : '$' ∈ (nestedName outer inner).toList := by simp [toList_nestedName]
    rw [hpackage] at hdollar
    exact absurd hdollar (by decide)

namespace SymbolMapping

variable {m : SymbolMapping}

/-- In a package with a `$` a class is renamed as if it were nested in the name in front of it. -/
theorem renameClass_of_nestedPackage {inner : String}
    (hcls : InPackage (nestedName outer inner) simple cls) (hentry : m.classes[cls]? = none)
    (hinner : '$' ∉ inner.toList) (hsimple : '$' ∉ simple.toList) :
    m.renameClass cls = nestedName (m.renameClass outer) inner ++ "/" ++ simple := by
  obtain ⟨rfl, -⟩ := hcls.eq_nestedName
  rw [renameClass_nestedName hentry (by simp [hinner, hsimple])]
  simp [nestedName, String.append_assoc]

/-- A class goes by its package into a package other than the unnamed one just if that is the
entry. -/
theorem Placed.eq_moved_iff {target : String} (h : m.Placed cls name)
    (hcls : InPackage package simple cls) (hnamed : cls = package ++ "/" ++ simple)
    (htarget : target ≠ defaultPackage) :
    target ++ "/" ++ simple = name ↔ m.packages[package]?.getD package = target := by
  cases h with
  | moved hcls' hnew =>
    obtain ⟨rfl, rfl⟩ := hcls.unique hcls'
    rw [hnew, Option.getD_some, String.append_left_inj, String.append_left_inj]
    exact eq_comm
  | freed hcls' hnew =>
    obtain ⟨rfl, rfl⟩ := hcls.unique hcls'
    rw [hnew, Option.getD_some]
    refine iff_of_false (fun h => ?_) htarget.symm
    have hlength := congrArg String.length h
    have hslash : "/".length = 1 := rfl
    simp only [String.length_append] at hlength
    omega
  | kept hcls' hnew =>
    obtain ⟨rfl, rfl⟩ := hcls.unique hcls'
    rw [hnew, Option.getD_none, hnamed, String.append_left_inj, String.append_left_inj]
    exact eq_comm

/-- A class without an entry whose simple name has no `$` follows its package, whatever other
classes have entries, just if its package has no `$` either. Else it is renamed as if it were nested
in the name in front of the last `$`, and that agrees with its package only if the package is
renamed in that way too. -/
theorem renameClass_eq_placed_iff (hcls : InPackage package simple cls)
    (hentry : m.classes[cls]? = none) (hsimple : '$' ∉ simple.toList)
    (hplaced : m.Placed cls name) :
    ((∀ classes : Std.HashMap String String, classes[cls]? = none →
        { m with classes }.renameClass cls = name) ↔ '$' ∉ package.toList) ∧
    ∀ outer inner, package = nestedName outer inner → '$' ∉ inner.toList →
      m.renameClass cls = nestedName (m.renameClass outer) inner ++ "/" ++ simple ∧
      (m.renameClass cls = name ↔
        m.packages[package]?.getD package = nestedName (m.renameClass outer) inner) := by
  constructor
  · rw [← hcls.free_iff hsimple]
    constructor
    · -- The class in front of the last `$` makes another name of this one, given a fitting entry.
      intro hall hdollar
      obtain ⟨host, inner, rfl, hfree⟩ := exists_nestedName hdollar
      let classes : Std.HashMap String String := (∅ : Std.HashMap String String).insert host name
      have hnone : classes[nestedName host inner]? = none := by
        simp [classes, (nestedName_ne_self host inner).symm]
      have hhost : classes[host]? = some name := by simp [classes]
      have hname := hall classes hnone
      rw [renameClass_nestedName hnone hfree, renameClass_of_entry hhost] at hname
      exact nestedName_ne_self name inner hname
    · intro hfree classes hentry
      rw [renameClass_of_free hentry hfree]
      exact (placed_iff.1 hplaced).symm
  · rintro outer inner rfl hinner
    have hvalue := renameClass_of_nestedPackage hcls hentry hinner hsimple
    have hnamed : nestedName (m.renameClass outer) inner ≠ defaultPackage := by
      intro h
      have hdollar : '$' ∈ defaultPackage.toList := by rw [← h]; simp [toList_nestedName]
      exact absurd hdollar (by decide)
    refine ⟨hvalue, ?_⟩
    rw [hvalue]
    exact hplaced.eq_moved_iff hcls hcls.eq_nestedName.2 hnamed

/-! ### A class nested in one with an entry, and a class in a package with a `$` -/

/-- New names for the classes `a` and `a$b` and for the packages `p` and `p$q`. -/
def layered : SymbolMapping :=
  (((SymbolMapping.empty.addClass "a" "x").addClass "a$b" "y").addPackage "p" "r").addPackage
    "p$q" "s"

theorem classes_layered (cls : String) : layered.classes[cls]? =
    if cls = "a" then some "x" else if cls = "a$b" then some "y" else none := by
  simp only [layered, addPackage, addClass, empty, Std.HashMap.getElem?_insertIfNew]
  grind

theorem packages_layered (package : String) : layered.packages[package]? =
    if package = "p" then some "r" else if package = "p$q" then some "s" else none := by
  have hp : normalizePackage "p" = "p" := by decide
  have hr : normalizePackage "r" = "r" := by decide
  have hpq : normalizePackage "p$q" = "p$q" := by decide
  have hs : normalizePackage "s" = "s" := by decide
  simp only [layered, addPackage, addClass, empty, hp, hr, hpq, hs,
    Std.HashMap.getElem?_insertIfNew]
  grind

theorem longestEntry_layered : layered.LongestEntry "a$b$$c" "a$b" "$$c" "y" where
  encloses := ⟨by decide, .inr ⟨"$c", by decide⟩⟩
  entry := by simp [classes_layered]
  longest p tail _ hentry := by
    rw [classes_layered] at hentry
    have hp : p = "a" ∨ p = "a$b" := by grind
    rcases hp with rfl | rfl <;> decide

/-- No name that starts with another letter than `a` is enclosed by a class with an entry. -/
theorem classes_layered_of_encloses (hcls : cls.toList.head? ≠ some 'a')
    (h : Encloses outer rest cls) : layered.classes[outer]? = none := by
  rw [classes_layered]
  have hne : outer ≠ "a" ∧ outer ≠ "a$b" := by
    constructor <;> rintro rfl <;> exact hcls (by simp [h.name])
  simp [hne]

theorem inPackage_pc : InPackage "p" "c" "p/c" := by
  have hname : "p/c" = "p" ++ "/" ++ "c" := by decide
  rw [hname]
  exact .named (by decide)

theorem inPackage_pqc : InPackage "p$q" "c" "p$q/c" := by
  have hname : "p$q/c" = "p$q" ++ "/" ++ "c" := by decide
  rw [hname]
  exact .named (by decide)

theorem placed_layered :
    layered.Placed "p/c" ("r" ++ "/" ++ "c") ∧ layered.Placed "p$q/c" ("s" ++ "/" ++ "c") :=
  ⟨.moved inPackage_pc (by simp [packages_layered]) (by decide),
    .moved inPackage_pqc (by simp [packages_layered]) (by decide)⟩

/-- The class `a$b$$c` follows `a$b` and not `a`, and `p/c$d` follows the package of `p/c`. -/
theorem renameClass_follows_layered :
    layered.LongestEntry "a$b$$c" "a$b" "$$c" "y" ∧ layered.renameClass "a$b$$c" = "y$$c" ∧
      (∀ outer rest, Encloses outer rest "p/c$d" → layered.classes[outer]? = none) ∧
      Encloses "p/c" "$d" "p/c$d" ∧ '$' ∉ "p/c".toList ∧
      layered.renameClass "p/c$d" = "r/c$d" := by
  obtain ⟨hlongest, -⟩ := renameClass_follows layered "a$b$$c"
  obtain ⟨-, hnone⟩ := renameClass_follows layered "p/c$d"
  have hbare : ∀ outer rest, Encloses outer rest "p/c$d" → layered.classes[outer]? = none :=
    fun _ _ => classes_layered_of_encloses (by decide)
  have hhost : Encloses "p/c" "$d" "p/c$d" := ⟨by decide, .inr ⟨"d", by decide⟩⟩
  have hfree : '$' ∉ "p/c".toList := by decide
  obtain ⟨name, hplaced, hname⟩ := hnone hbare "p/c" "$d" hhost hfree
  rw [hplaced.unique placed_layered.1] at hname
  refine ⟨longestEntry_layered, ?_, hbare, hhost, hfree, hname.trans (by decide)⟩
  exact (hlongest _ _ _ longestEntry_layered).trans (by decide)

/-- The class `p/c` follows its package, and `p$q/c` does not. -/
theorem renameClass_eq_placed_layered :
    (InPackage "p" "c" "p/c" ∧ layered.classes["p/c"]? = none ∧
      layered.Placed "p/c" ("r" ++ "/" ++ "c") ∧
      layered.renameClass "p/c" = "r" ++ "/" ++ "c") ∧
    (InPackage "p$q" "c" "p$q/c" ∧ layered.classes["p$q/c"]? = none ∧
      layered.Placed "p$q/c" ("s" ++ "/" ++ "c") ∧
      layered.renameClass "p$q/c" ≠ "s" ++ "/" ++ "c") ∧ '$' ∉ "c".toList := by
  have hplain : layered.classes["p/c"]? = none := by simp [classes_layered]
  have hdollar : layered.classes["p$q/c"]? = none := by simp [classes_layered]
  have hsimple : '$' ∉ "c".toList := by decide
  obtain ⟨hfollows, -⟩ := renameClass_eq_placed_iff inPackage_pc hplain hsimple placed_layered.1
  obtain ⟨-, hnested⟩ := renameClass_eq_placed_iff inPackage_pqc hdollar hsimple placed_layered.2
  obtain ⟨-, hagrees⟩ := hnested "p" "q" (by decide) (by decide)
  refine ⟨⟨inPackage_pc, hplain, placed_layered.1, hfollows.2 (by decide) _ hplain⟩,
    ⟨inPackage_pqc, hdollar, placed_layered.2, fun hname => ?_⟩, hsimple⟩
  have hpackage := hagrees.1 hname
  rw [packages_layered, if_neg (by decide), if_pos rfl, Option.getD_some] at hpackage
  have hmem : '$' ∈ "s".toList := by rw [hpackage]; simp [toList_nestedName]
  exact absurd hmem (by decide)

/-- The class `c` of the package `p$q` keeps its name, while the package becomes `s`. -/
theorem not_placed_renameClass :
    InPackage "p$q" "c" "p$q/c" ∧ layered.classes["p$q/c"]? = none ∧ '$' ∉ "c".toList ∧
      layered.packages["p$q"]? = some "s" ∧ layered.renameClass "p$q/c" = "p$q/c" ∧
      ¬ layered.Placed "p$q/c" (layered.renameClass "p$q/c") := by
  have hentry : layered.classes[nestedName "p" "q/c"]? = none := by
    simp [classes_layered, nestedName]
  have hhost : layered.renameClass "p" = "p" := by
    have hp : InPackage defaultPackage "p" "p" := .unnamed rfl (by decide)
    have hkept : layered.Placed "p" "p" := .kept hp (by simp [packages_layered, defaultPackage])
    rw [renameClass_of_free (by simp [classes_layered]) (by decide), ← placed_iff.1 hkept]
  have hname : layered.renameClass "p$q/c" = "p$q/c" := by
    have hcls : "p$q/c" = nestedName "p" "q/c" := by decide
    rw [hcls, renameClass_nestedName hentry (by decide), hhost]
  refine ⟨inPackage_pqc, by simp [classes_layered], by decide, by simp [packages_layered], hname,
    fun hplaced => ?_⟩
  rw [hname] at hplaced
  exact absurd (hplaced.unique placed_layered.2) (by decide)

end SymbolMapping

end JarRefit.Naming
