import JarRefit.Access.Table
import JarRefit.Proofs.Access.Directive
import JarRefit.Proofs.Access.RenameTable
import JarRefit.Proofs.Access.Sequence

/-!
# Loaded access tables

A table that directives were loaded into gives every symbol what the directives that aim at it ask
for. Of the texts that were loaded only the set of their directives counts.

## Main definitions

* `Directive.redirected`: the directives that texts hold, with the new names of their members.
* `Directive.asked`: the changes that directives ask for a symbol.
* `Table.ofChanges`: the table of changes that are recorded one after another.
* `Table.Holds`: a table that has merged directives by their keys.
* `Table.loadAll`: the table of texts that are loaded one after another.
* `Table.applyTo`: the flags of a symbol after what the table has for it.
-/
namespace JarRefit.Access

/-- The keys under which a table holds what concerns a symbol. -/
def Symbol.keys : Symbol → List String
  | .cls owner => [owner]
  | .field owner name => [owner ++ "." ++ name, owner ++ "." ++ "*"]
  | .method owner name descriptor => [owner ++ "." ++ (name ++ descriptor), owner ++ "." ++ "*()"]

theorem Directive.key_mem_keys_iff {d : Directive} {s : Symbol} (hd : '.' ∉ d.owner.toList)
    (hs : '.' ∉ s.owner.toList) : d.key ∈ s.keys ↔ d.Concerns s := by
  cases s with
  | cls owner => exact List.mem_singleton.trans (key_eq_owner_iff hs)
  | field owner name | method owner name descriptor =>
    change '.' ∉ owner.toList at hs
    simp only [Symbol.keys, List.mem_cons, List.not_mem_nil, or_false, key_eq_join_iff hd hs,
      Directive.Concerns, Symbol.tokens?, Symbol.owner, ← and_or_left, ← exists_or]

/-- The directives that the lines of a text hold. -/
def Directive.readAll (text : String) : List Directive :=
  (Text.lines text.toList).filterMap fun line => (parse? (String.ofList line)).map (·.2)

/-- The directives that the lines of some texts hold, redirected. -/
def Directive.redirected (renames : RenameTable) (texts : List String) : Set Directive :=
  {d | ∃ text ∈ texts, ∃ read ∈ readAll text, Redirects renames read d}

/-- The changes that directives ask for a symbol. -/
def Directive.asked (ds : Set Directive) (s : Symbol) : Set Change :=
  {c | ∃ d ∈ ds, d.Concerns s ∧ d.change = c}

/-- The changes that directives ask for at a key. -/
def Directive.askedAt (ds : List Directive) (key : String) : Set Change :=
  {c | ∃ d ∈ ds, d.key = key ∧ d.change = c}

namespace Table

variable {table table' : Table} {ds : List Directive} {asked : Set Change}
  {given given' : List (String × Change)}

/-! ## Recording -/

/-- A change that is recorded is merged with what its key has; other keys keep what they have. -/
theorem getElem?_add (table : Table) (key : String) (c : Change) (other : String) :
    (table.add key c).changes[other]? =
      if key = other then some (table.changes[key]?.elim c (·.merge c))
      else table.changes[other]? := by
  simp only [Table.add, Std.HashMap.getElem?_insert, beq_iff_eq]
  cases table.changes[key]? <;> rfl

theorem standsFor_add {asked : String → Set Change}
    (h : ∀ key : String, StandsFor (asked key) table.changes[key]?) (key : String) (c : Change)
    (other : String) :
    StandsFor (asked other ∪ if key = other then {c} else ∅)
      (table.add key c).changes[other]? := by
  rw [getElem?_add]
  split
  · next hother =>
    subst hother
    exact (h key).union (.singleton c)
  · simpa using h other

/-- The table that changes are recorded in one after another, each under its key. -/
def ofChanges (given : List (String × Change)) : Table :=
  given.foldl (fun table (key, c) => table.add key c) .empty

theorem standsFor_ofChanges (given : List (String × Change)) (key : String) :
    StandsFor {c | (key, c) ∈ given} (ofChanges given).changes[key]? := by
  induction given using List.reverseRecOn generalizing key with
  | nil => simp [ofChanges, empty, StandsFor]
  | append_singleton given p ih =>
    obtain ⟨new, c⟩ := p
    have hsplit : {d | (key, d) ∈ given ++ [(new, c)]} =
        {d | (key, d) ∈ given} ∪ if new = key then {c} else ∅ := by
      ext d
      by_cases hkey : new = key
      · simp [hkey, or_comm]
      · simp [hkey, Ne.symm hkey]
    rw [ofChanges, List.foldl_append, hsplit]
    exact standsFor_add ih new c key

/-- Which changes were recorded is all that counts: neither their order nor how often one was. -/
theorem getElem?_ofChanges_congr (h : ∀ p, p ∈ given' ↔ p ∈ given) (key : String) :
    (ofChanges given').changes[key]? = (ofChanges given).changes[key]? := by
  refine (standsFor_ofChanges given' key).unique ?_
  simpa only [h] using standsFor_ofChanges given key

/-! ## Loading -/

/-- The table has the directives merged by their keys. -/
def Holds (table : Table) (ds : List Directive) : Prop :=
  ∀ key, StandsFor (Directive.askedAt ds key) table.changes[key]?

theorem holds_empty : Holds .empty [] := by
  intro key
  simp [empty, StandsFor, Directive.askedAt]

theorem askedAt_append_singleton (d : Directive) (key : String) :
    Directive.askedAt (ds ++ [d]) key =
      Directive.askedAt ds key ∪ if d.key = key then {d.change} else ∅ := by
  ext c
  by_cases hkey : d.key = key
  · simp [Directive.askedAt, hkey, or_and_right, exists_or, or_comm, eq_comm]
  · simp [Directive.askedAt, hkey, or_and_right, exists_or]

/-- One more directive is merged with the earlier ones at its key. -/
theorem Holds.addDirective (h : Holds table ds) (d : Directive) :
    Holds (table.addDirective d) (ds ++ [d]) := by
  intro key
  rw [askedAt_append_singleton]
  exact standsFor_add h d.key d.change key

theorem Holds.addAll (h : Holds table ds) (more : List Directive) :
    Holds (table.addAll more) (ds ++ more) := by
  induction more generalizing table ds with
  | nil => simpa [Table.addAll] using h
  | cons d more ih => simpa [Table.addAll] using ih (h.addDirective d)

/-- The table with texts loaded one after another. -/
def loadAll (renames : RenameTable) (texts : List String) : Table :=
  texts.foldl (·.load renames ·) .empty

/-- The directives of several texts. -/
def directivesOf (renames : RenameTable) (texts : List String) : List Directive :=
  texts.flatMap (directives renames)

theorem directives_eq_map (renames : RenameTable) (text : String) :
    directives renames text = (Directive.readAll text).map renames.redirect := by
  simp only [directives, Directive.readAll, List.map_filterMap, Option.map_map, Function.comp_def]

theorem mem_redirected_iff {renames : RenameTable} {texts : List String} {d : Directive} :
    d ∈ Directive.redirected renames texts ↔
      ∃ read ∈ texts.flatMap Directive.readAll, renames.redirect read = d := by
  simp only [Directive.redirected, Set.mem_ofPred_eq, Directive.redirects_iff, List.mem_flatMap]
  constructor
  · rintro ⟨text, htext, read, hread, hd⟩
    exact ⟨read, ⟨text, htext, hread⟩, hd⟩
  · rintro ⟨read, ⟨text, htext, hread⟩, hd⟩
    exact ⟨text, htext, read, hread, hd⟩

theorem mem_directivesOf_iff {renames : RenameTable} {texts : List String} {d : Directive} :
    d ∈ directivesOf renames texts ↔ d ∈ Directive.redirected renames texts := by
  have hmap : directivesOf renames texts =
      (texts.flatMap Directive.readAll).map renames.redirect := by
    rw [directivesOf, List.map_flatMap, funext (directives_eq_map renames)]
  rw [hmap, List.mem_map, mem_redirected_iff]

theorem redirect_empty (d : Directive) : RenameTable.empty.redirect d = d := by
  obtain ⟨ownerPath, member, change⟩ := d
  cases member <;> simp [RenameTable.redirect, RenameTable.lookup, RenameTable.empty]

/-- Without renames the directives of a text are those that its lines hold. -/
theorem directives_empty (text : String) : directives .empty text = Directive.readAll text := by
  rw [directives_eq_map, List.map_congr_left fun d _ => redirect_empty d, List.map_id']

theorem holds_loadAll (renames : RenameTable) (texts : List String) :
    Holds (loadAll renames texts) (directivesOf renames texts) := by
  suffices ∀ texts table ds, Holds table ds → Holds (texts.foldl (·.load renames ·) table)
      (ds ++ directivesOf renames texts) by
    simpa [loadAll] using this texts _ _ holds_empty
  intro texts
  induction texts with
  | nil => simp [directivesOf]
  | cons text texts ih =>
    intro table ds h
    simpa [directivesOf, Table.load, List.append_assoc] using
      ih _ _ (h.addAll (directives renames text))

/-! ## Asking -/

theorem Holds.merged_foldl (h : Holds table ds) {c : Change} (hc : Merged asked c)
    (keys : List String) :
    Merged (asked ∪ {c | ∃ key ∈ keys, c ∈ Directive.askedAt ds key})
      ((keys.filterMap (table.changes[·]?)).foldl Change.merge c) := by
  induction keys generalizing asked c with
  | nil => simpa using hc
  | cons key keys ih =>
    have hkey := h key
    have hsplit : {c | ∃ k ∈ key :: keys, c ∈ Directive.askedAt ds k} =
        Directive.askedAt ds key ∪ {c | ∃ k ∈ keys, c ∈ Directive.askedAt ds k} := by
      ext
      simp
    rw [hsplit, ← Set.union_assoc]
    cases hlook : table.changes[key]? with
    | none =>
      rw [hlook] at hkey
      simp only [StandsFor] at hkey
      simpa [hlook, hkey] using ih hc
    | some c' =>
      rw [hlook] at hkey
      simpa [hlook] using ih (hc.union hkey)

/-- The merged change of several keys stands for the directives at any of them. -/
theorem Holds.mergedChange (h : Holds table ds) (keys : List String) :
    StandsFor {c | ∃ key ∈ keys, c ∈ Directive.askedAt ds key} (table.mergedChange keys) := by
  induction keys with
  | nil => simp [Table.mergedChange, StandsFor]
  | cons key keys ih =>
    have hkey := h key
    cases hlook : table.changes[key]? with
    | none =>
      rw [hlook] at hkey
      simp only [StandsFor] at hkey
      simpa [Table.mergedChange, hlook, hkey] using ih
    | some c =>
      rw [hlook] at hkey
      have hrest := h.merged_foldl hkey keys
      simp only [Table.mergedChange, List.filterMap_cons, hlook, StandsFor]
      convert hrest using 2
      ext
      simp

/-- The flags of a symbol after what the table has for it. -/
def applyTo (table : Table) : Symbol → Flags → Flags
  | .cls owner => table.applyClass owner
  | .field owner name => table.applyField owner name
  | .method owner name descriptor => table.applyMethod owner name descriptor

theorem applyTo_eq (table : Table) (s : Symbol) (f : Flags) :
    table.applyTo s f = (table.mergedChange s.keys).elim f (·.apply f) := by
  cases s with
  | cls owner =>
    cases hlook : table.changes[owner]? <;>
      simp [applyTo, applyClass, classChange, mergedChange, Symbol.keys, hlook]
  | field owner name | method owner name descriptor => rfl

@[simp]
theorem applyTo_empty (s : Symbol) (f : Flags) : empty.applyTo s f = f := by
  have hkeys : s.keys.filterMap (empty.changes[·]?) = [] :=
    List.filterMap_eq_nil_iff.2 fun key _ => by simp [empty]
  rw [applyTo_eq, mergedChange, hkeys]
  rfl

/-- What a table makes of flags it leaves the next time. -/
theorem applyTo_applyTo (table : Table) (s : Symbol) (f : Flags) :
    table.applyTo s (table.applyTo s f) = table.applyTo s f := by
  rw [applyTo_eq, applyTo_eq]
  cases table.mergedChange s.keys with
  | none => rfl
  | some c => exact c.apply_self f

theorem applyTo_congr (h : ∀ key : String, table'.changes[key]? = table.changes[key]?) :
    table'.applyTo = table.applyTo := by
  funext s f
  simp only [applyTo_eq, mergedChange, h]

theorem dot_notMem_owner_of_mem {renames : RenameTable} {texts : List String} {d : Directive}
    (h : d ∈ directivesOf renames texts) : '.' ∉ d.owner.toList := by
  simp only [directivesOf, directives, List.mem_flatMap, List.mem_filterMap,
    Option.map_eq_some_iff] at h
  obtain ⟨_, -, _, -, ⟨_, read⟩, hparse, rfl⟩ := h
  exact (Directive.dot_notMem_owner hparse : '.' ∉ read.owner.toList)

theorem Holds.widened (h : Holds table ds) (hds : ∀ d ∈ ds, '.' ∉ d.owner.toList) {s : Symbol}
    (hs : '.' ∉ s.owner.toList) (f : Flags) :
    Widened (Directive.asked {d | d ∈ ds} s) f (table.applyTo s f) := by
  have hasked : Directive.asked {d | d ∈ ds} s =
      {c | ∃ key ∈ s.keys, c ∈ Directive.askedAt ds key} := by
    ext c
    constructor
    · rintro ⟨d, hd, hconcerns, rfl⟩
      exact ⟨d.key, (Directive.key_mem_keys_iff (hds d hd) hs).2 hconcerns, d, hd, rfl, rfl⟩
    · rintro ⟨_, hkey, d, hd, rfl, rfl⟩
      exact ⟨d, hd, (Directive.key_mem_keys_iff (hds d hd) hs).1 hkey, rfl⟩
  rw [applyTo_eq, hasked]
  exact (h.mergedChange s.keys).widened f

theorem widened_loadAll (renames : RenameTable) (texts : List String) {s : Symbol}
    (hs : '.' ∉ s.owner.toList) (f : Flags) :
    Widened (Directive.asked (Directive.redirected renames texts) s) f
      ((loadAll renames texts).applyTo s f) := by
  have hredirected : {d | d ∈ directivesOf renames texts} = Directive.redirected renames texts :=
    Set.ext fun _ => mem_directivesOf_iff
  rw [← hredirected]
  exact (holds_loadAll renames texts).widened (fun _ => dot_notMem_owner_of_mem) hs f

/-- A loaded table makes of the flags of a symbol what the redirected directives that concern it ask
for. It never narrows their visibility, and which directives there are is all that counts: neither
their order nor the texts they stand in nor how often one is given. -/
theorem widened_applyTo_loadAll (renames : RenameTable) (texts : List String) (s : Symbol)
    (hs : '.' ∉ s.owner.toList) (f : Flags) :
    Widened (Directive.asked (Directive.redirected renames texts) s) f
        ((loadAll renames texts).applyTo s f) ∧
      f.visibility ≤ ((loadAll renames texts).applyTo s f).visibility ∧
      ∀ renames' texts', Directive.redirected renames' texts' = Directive.redirected renames texts →
        (loadAll renames' texts').applyTo s f = (loadAll renames texts).applyTo s f := by
  have hwidened := widened_loadAll renames texts hs f
  refine ⟨hwidened, hwidened.visibility.2 (Set.mem_insert _ _), fun renames' texts' hsame => ?_⟩
  exact (hsame ▸ widened_loadAll renames' texts' hs f).unique hwidened

/-- New names for the field `x` and the method `run`. -/
def memberRenames : RenameTable :=
  .loadAll ["searge,name,side\nx,y,0\nrun,go,2"]

/-- Directives for `x` and `run`, for the class they belong to and for all its fields. -/
def memberTexts : List String :=
  ["public-f a.b x\npublic a.b run()V", "protected a.b\nprivate+f a/b *"]

theorem lookup_memberRenames : memberRenames.lookup "x" = some "y" ∧
    memberRenames.lookup "run" = some "go" ∧ memberRenames.lookup "*" = none := by
  simp only [memberRenames, RenameTable.lookup_loadAll]
  decide

theorem redirected_memberTexts : Directive.redirected memberRenames memberTexts =
    {⟨["a", "b"], some ⟨"y", none⟩, ⟨.pub, .forceNonFinal⟩⟩,
      ⟨["a", "b"], some ⟨"go", some "()V"⟩, ⟨.pub, .unchanged⟩⟩,
      ⟨["a", "b"], none, ⟨.prot, .unchanged⟩⟩,
      ⟨["a", "b"], some ⟨"*", none⟩, ⟨.priv, .forceFinal⟩⟩} := by
  have hread : memberTexts.flatMap Directive.readAll =
      [⟨["a", "b"], some ⟨"x", none⟩, ⟨.pub, .forceNonFinal⟩⟩,
        ⟨["a", "b"], some ⟨"run", some "()V"⟩, ⟨.pub, .unchanged⟩⟩,
        ⟨["a", "b"], none, ⟨.prot, .unchanged⟩⟩,
        ⟨["a", "b"], some ⟨"*", none⟩, ⟨.priv, .forceFinal⟩⟩] := by
    decide
  obtain ⟨hx, hrun, hall⟩ := lookup_memberRenames
  ext d
  rw [mem_redirected_iff, hread]
  simp [RenameTable.redirect, hx, hrun, hall, eq_comm]

/-- A private final field that one directive names after its renaming and another reaches by the
wildcard, one that only the wildcard reaches, and a method that is named with its descriptor. -/
theorem widened_applyTo_memberTexts :
    '.' ∉ (Symbol.field "a/b" "y").owner.toList ∧
      '.' ∉ (Symbol.field "a/b" "x").owner.toList ∧
      '.' ∉ (Symbol.method "a/b" "go" "()V").owner.toList ∧
      (loadAll memberRenames memberTexts).applyTo (.field "a/b" "y") ⟨0x12⟩ = ⟨0x1⟩ ∧
      (loadAll memberRenames memberTexts).applyTo (.field "a/b" "x") ⟨0x12⟩ = ⟨0x12⟩ ∧
      (loadAll memberRenames memberTexts).applyTo (.method "a/b" "go" "()V") ⟨0x10⟩ = ⟨0x11⟩ := by
  have hy : '.' ∉ (Symbol.field "a/b" "y").owner.toList := by decide
  have hx : '.' ∉ (Symbol.field "a/b" "x").owner.toList := by decide
  have hgo : '.' ∉ (Symbol.method "a/b" "go" "()V").owner.toList := by decide
  have hyasked : Directive.asked (Directive.redirected memberRenames memberTexts)
      (.field "a/b" "y") = {⟨.pub, .forceNonFinal⟩} ∪ {⟨.priv, .forceFinal⟩} := by
    ext c
    simp [Directive.asked, redirected_memberTexts, Directive.Concerns, Symbol.tokens?,
      Symbol.owner, Directive.owner, MemberTarget.token, or_comm, eq_comm]
  have hxasked : Directive.asked (Directive.redirected memberRenames memberTexts)
      (.field "a/b" "x") = {⟨.priv, .forceFinal⟩} := by
    ext c
    simp [Directive.asked, redirected_memberTexts, Directive.Concerns, Symbol.tokens?,
      Symbol.owner, Directive.owner, MemberTarget.token, eq_comm]
  have hgoasked : Directive.asked (Directive.redirected memberRenames memberTexts)
      (.method "a/b" "go" "()V") = {⟨.pub, .unchanged⟩} := by
    ext c
    simp [Directive.asked, redirected_memberTexts, Directive.Concerns, Symbol.tokens?,
      Symbol.owner, Directive.owner, MemberTarget.token, eq_comm]
  have hywidened :=
    (widened_applyTo_loadAll memberRenames memberTexts (.field "a/b" "y") hy ⟨0x12⟩).1
  have hxwidened :=
    (widened_applyTo_loadAll memberRenames memberTexts (.field "a/b" "x") hx ⟨0x12⟩).1
  have hgowidened :=
    (widened_applyTo_loadAll memberRenames memberTexts (.method "a/b" "go" "()V") hgo ⟨0x10⟩).1
  rw [hyasked] at hywidened
  rw [hxasked] at hxwidened
  rw [hgoasked] at hgowidened
  exact ⟨hy, hx, hgo, hywidened.unique (((Merged.singleton _).union (.singleton _)).widened _),
    hxwidened.unique ((Merged.singleton _).widened _),
    hgowidened.unique ((Merged.singleton _).widened _)⟩

end Table

end JarRefit.Access
