import Mathlib.Data.List.Basic
import JarRefit.Proofs.Naming.Enclosing
import JarRefit.Proofs.Naming.Hierarchy
import JarRefit.Proofs.Tables
import JarRefit.Proofs.Text.Split

/-!
# What a loaded mapping answers

The lines of a text that are accepted, with the symbols as they stand in them. A mapping that was
loaded from texts, one after another, answers for a symbol what the first accepted line for it says.
A line that is neither blank nor accepted is reported, and has no other effect.

## Main definitions

* `Srg.Line`, `Srg.Line.WellFormed`: the lines that are accepted.
* `Srg.acceptedLines`: the accepted lines of a text, in their order.
* `Srg.Rejected`, `Srg.Reports`: the lines that are neither blank nor accepted, and their reports.
* `SymbolMapping.loadAll`: the mapping that texts make, loaded one after another.
-/
namespace JarRefit.Naming

/-! ## Accepted lines -/

namespace Srg

/-- An accepted line, with the symbols as they stand in it. -/
inductive Line where
  | package (old new : String)
  | cls (old new : String)
  | field (old new : String)
  | method (old descriptor new newDescriptor : String)
deriving DecidableEq

/-- Whether a symbol names a member: an owner and a name, neither of them empty, with the last `/`
between them. -/
def IsMember (symbol : String) : Prop :=
  ∃ owner name, owner ≠ "" ∧ name ≠ "" ∧ '/' ∉ name.toList ∧ symbol = owner ++ "/" ++ name

/-- What stands behind the last `/` of a symbol. -/
def lastSegment (symbol : String) : String :=
  String.ofList (symbol.toList.reverse.takeWhile (· != '/')).reverse

namespace Line

/-- The words that a line is made of. -/
def words : Line → List String
  | package old new => ["PK:", old, new]
  | cls old new => ["CL:", old, new]
  | field old new => ["FD:", old, new]
  | method old descriptor new newDescriptor => ["MD:", old, descriptor, new, newDescriptor]

/-- Whether the symbols of a field or a method name members. -/
def WellFormed : Line → Prop
  | package _ _ | cls _ _ => True
  | field old new | method old _ new _ => IsMember old ∧ IsMember new

/-- The line that words make up, if it is accepted. -/
def ofWords? : List String → Option Line
  | ["PK:", old, new] => some (.package old new)
  | ["CL:", old, new] => some (.cls old new)
  | ["FD:", old, new] =>
    if (splitMember? old).isSome && (splitMember? new).isSome then some (.field old new) else none
  | ["MD:", old, descriptor, new, newDescriptor] =>
    if (splitMember? old).isSome && (splitMember? new).isSome then
      some (.method old descriptor new newDescriptor)
    else none
  | _ => none

/-- The new name that a line gives to a class. -/
def newClass? (symbol : String) : Line → Option String
  | cls old new => if old = symbol then some new else none
  | _ => none

/-- The new name that a line gives to a field. -/
def newField? (symbol : String) : Line → Option String
  | field old new => if old = symbol then some (lastSegment new) else none
  | _ => none

/-- The new name that a line gives to a method. -/
def newMethod? (symbol descriptor : String) : Line → Option String
  | method old oldDescriptor new _ =>
    if old = symbol ∧ oldDescriptor = descriptor then some (lastSegment new) else none
  | _ => none

end Line

/-- The accepted lines of a text, in their order. -/
def acceptedLines (text : String) : List Line :=
  (lines text).filterMap fun line => Line.ofWords? (lineWords line)

/-- Whether a line is neither blank nor accepted. -/
def Rejected (line : String) : Prop :=
  (∃ c ∈ line.toList, Text.isBlank c = false) ∧
    ¬ ∃ l : Line, l.WellFormed ∧ lineWords line = l.words

/-- Whether notices report the rejected lines of a text, each one once and with the number that it
has when lines are counted from 1, and nothing else. -/
structure Reports (text : String) (ns : List Notice) : Prop where
  mem_iff : ∀ n, n ∈ ns ↔ ∃ i line, (lines text)[i]? = some line ∧ Rejected line ∧
    n = .mappingLineMalformed (i + 1) (String.ofList (Text.trim line.toList))
  nodup : ns.Nodup

/-! ### Members -/

theorem splitMember?_eq_some_iff {symbol owner name : String} :
    splitMember? symbol = some (owner, name) ↔
      owner ≠ "" ∧ name ≠ "" ∧ '/' ∉ name.toList ∧ symbol = owner ++ "/" ++ name := by
  unfold splitMember?
  constructor
  · intro h
    split at h
    · next before after hcut =>
      split at h
      · cases h
      · next hempty =>
        cases h
        obtain ⟨hsymbol, hafter⟩ := Text.cutLast?_eq_some hcut
        simp only [Bool.or_eq_true, List.isEmpty_iff, not_or] at hempty
        refine ⟨by simpa using hempty.1, by simpa using hempty.2, by simpa using hafter, ?_⟩
        rw [← String.toList_inj]
        simpa using hsymbol
    · cases h
  · rintro ⟨howner, hname, hfree, rfl⟩
    have hsymbol : (owner ++ "/" ++ name).toList = owner.toList ++ '/' :: name.toList := by simp
    rw [hsymbol, Text.cutLast?_append hfree]
    simp [howner, hname]

theorem isSome_splitMember?_iff {symbol : String} :
    (splitMember? symbol).isSome ↔ IsMember symbol := by
  simp only [Option.isSome_iff_exists, Prod.exists, splitMember?_eq_some_iff, IsMember]

theorem isMember_of_splitMember? {symbol : String} {sides : String × String}
    (h : splitMember? symbol = some sides) : IsMember symbol :=
  isSome_splitMember?_iff.1 (by rw [h, Option.isSome_some])

theorem lastSegment_append {owner name : String} (h : '/' ∉ name.toList) :
    lastSegment (owner ++ "/" ++ name) = name := by
  have hname : ∀ c ∈ name.toList.reverse, (c != '/') = true := by
    intro c hc
    rw [bne_iff_ne]
    rintro rfl
    exact h (List.mem_reverse.1 hc)
  have hreverse : (owner ++ "/" ++ name).toList.reverse =
      name.toList.reverse ++ '/' :: owner.toList.reverse := by simp
  rw [lastSegment, hreverse, List.takeWhile_append_of_pos hname]
  simp

/-! ### Words of a line -/

/-- What makes up an entry makes up an accepted line. -/
theorem exists_line_of_ofWords? {ws : List String} {e : SrgEntry} (h : ofWords? ws = some e) :
    ∃ l : Line, l.WellFormed ∧ ws = l.words := by
  unfold ofWords? at h
  split at h
  · exact ⟨.package _ _, trivial, rfl⟩
  · exact ⟨.cls _ _, trivial, rfl⟩
  · obtain ⟨_, hold, h⟩ := Option.bind_eq_some_iff.1 h
    obtain ⟨_, hnew, -⟩ := Option.bind_eq_some_iff.1 h
    exact ⟨.field _ _, ⟨isMember_of_splitMember? hold, isMember_of_splitMember? hnew⟩, rfl⟩
  · obtain ⟨_, hold, h⟩ := Option.bind_eq_some_iff.1 h
    obtain ⟨_, hnew, -⟩ := Option.bind_eq_some_iff.1 h
    exact ⟨.method _ _ _ _, ⟨isMember_of_splitMember? hold, isMember_of_splitMember? hnew⟩, rfl⟩
  · cases h

theorem Line.ofWords?_eq_some_iff {ws : List String} {l : Line} :
    ofWords? ws = some l ↔ l.WellFormed ∧ ws = l.words := by
  constructor
  · intro h
    unfold ofWords? at h
    split at h
    · cases h
      exact ⟨trivial, rfl⟩
    · cases h
      exact ⟨trivial, rfl⟩
    iterate 2
      · split at h
        · next hmembers =>
          cases h
          rw [Bool.and_eq_true, isSome_splitMember?_iff, isSome_splitMember?_iff] at hmembers
          exact ⟨hmembers, rfl⟩
        · cases h
    · cases h
  · rintro ⟨hl, rfl⟩
    cases l with
    | package | cls => rfl
    | field | method =>
      have hmembers := Bool.and_eq_true_iff.2
        ⟨isSome_splitMember?_iff.2 hl.1, isSome_splitMember?_iff.2 hl.2⟩
      simp [words, ofWords?, hmembers]

end Srg

open Srg (Line acceptedLines lastSegment)

namespace SymbolMapping

/-- The mapping with what a line says. -/
def addLine (m : SymbolMapping) : Line → SymbolMapping
  | .package old new => m.addPackage old new
  | .cls old new => m.addClass old new
  | .field old new => { m with fields := m.fields.insertIfNew old (lastSegment new) }
  | .method old descriptor new _ =>
    { m with methods := m.methods.insertIfNew (old ++ " " ++ descriptor) (lastSegment new) }

variable {m : SymbolMapping}

theorem exists_entry {l : Line} (hl : l.WellFormed) :
    ∃ e, Srg.ofWords? l.words = some e ∧ ∀ m : SymbolMapping, m.add e = m.addLine l := by
  cases l with
  | package | cls => exact ⟨_, rfl, fun _ => rfl⟩
  | field old new =>
    obtain ⟨⟨owner, name, howner⟩, ⟨owner', name', howner'⟩⟩ := hl
    refine ⟨.field owner name name', ?_, fun m => ?_⟩
    · simp [Line.words, Srg.ofWords?, Srg.splitMember?_eq_some_iff.2 howner,
        Srg.splitMember?_eq_some_iff.2 howner']
    · obtain ⟨-, -, -, rfl⟩ := howner
      obtain ⟨-, -, hfree, rfl⟩ := howner'
      rw [addLine, Srg.lastSegment_append hfree]
      rfl
  | method old descriptor new newDescriptor =>
    obtain ⟨⟨owner, name, howner⟩, ⟨owner', name', howner'⟩⟩ := hl
    refine ⟨.method owner name descriptor name', ?_, fun m => ?_⟩
    · simp [Line.words, Srg.ofWords?, Srg.splitMember?_eq_some_iff.2 howner,
        Srg.splitMember?_eq_some_iff.2 howner']
    · obtain ⟨-, -, -, rfl⟩ := howner
      obtain ⟨-, -, hfree, rfl⟩ := howner'
      rw [addLine, Srg.lastSegment_append hfree]
      rfl

end SymbolMapping

/-! ## Rejected lines -/

namespace Srg

theorem ofWords?_eq_none_iff {ws : List String} :
    ofWords? ws = none ↔ ¬ ∃ l : Line, l.WellFormed ∧ ws = l.words := by
  constructor
  · rintro h ⟨l, hl, rfl⟩
    obtain ⟨e, he, -⟩ := SymbolMapping.exists_entry hl
    rw [h] at he
    cases he
  · exact fun h => Option.eq_none_iff_forall_ne_some.2 fun e he => h (exists_line_of_ofWords? he)

theorem isMalformed_iff {line : String} : isMalformed line = true ↔ Rejected line := by
  have hwords : lineWords line = [] ↔ ∀ c ∈ line.toList, Text.isBlank c = true := by
    rw [lineWords, List.map_eq_nil_iff, Text.words_eq_nil_iff]
  simp [isMalformed, Rejected, hwords, ofWords?_eq_none_iff]

theorem reports_notices (text : String) : Reports text (notices text) where
  mem_iff n := by
    simp only [notices, List.mem_filterMap, Prod.exists, List.mk_mem_zipIdx_iff_le_and_getElem?_sub,
      Option.ite_none_right_eq_some, isMalformed_iff, Option.some.injEq]
    constructor
    · rintro ⟨line, number, ⟨hpos, hline⟩, hrejected, rfl⟩
      exact ⟨number - 1, line, hline, hrejected, by rw [Nat.sub_add_cancel hpos]⟩
    · rintro ⟨i, line, hline, hrejected, rfl⟩
      exact ⟨line, i + 1, ⟨Nat.le_add_left 1 i, hline⟩, hrejected, rfl⟩
  nodup := by
    -- The numbers of the lines go up, and a notice names its number.
    have hnumbers : ((lines text).zipIdx 1).Pairwise (·.2 < ·.2) := by
      rw [← List.pairwise_map, List.zipIdx_map_snd]
      exact List.pairwise_lt_range'
    refine hnumbers.filterMap _ fun a b hlt n hn n' hn' hsame => ?_
    simp only [Option.ite_none_right_eq_some, Option.some.injEq] at hn hn'
    rw [← hn.2, ← hn'.2, Notice.mappingLineMalformed.injEq] at hsame
    exact absurd hsame.1 (Nat.ne_of_lt hlt)

/-- The words of an accepted line hold no blanks. -/
theorem isBlank_eq_false_of_mem {text word : String} {l : Line} (hl : l ∈ acceptedLines text)
    (hword : word ∈ l.words) {c : Char} (hc : c ∈ word.toList) : Text.isBlank c = false := by
  obtain ⟨line, -, hread⟩ := List.mem_filterMap.1 hl
  rw [← (Line.ofWords?_eq_some_iff.1 hread).2] at hword
  obtain ⟨part, hpart, rfl⟩ := List.mem_map.1 hword
  exact (Text.mem_of_mem_words hpart (by simpa using hc)).2

end Srg

/-! ## Loading -/

namespace SymbolMapping

/-- Loading follows the accepted lines, in their order, and nothing else. -/
theorem load_eq_foldl (m : SymbolMapping) (text : String) :
    m.load text = (acceptedLines text).foldl addLine m := by
  rw [load, Srg.entries, acceptedLines]
  induction Srg.lines text generalizing m with
  | nil => rfl
  | cons line lines ih =>
    cases hline : Line.ofWords? (Srg.lineWords line) with
    | none =>
      have hnone : Srg.ofWords? (Srg.lineWords line) = none := by
        refine Srg.ofWords?_eq_none_iff.2 fun ⟨l, hl⟩ => ?_
        rw [Line.ofWords?_eq_some_iff.2 hl] at hline
        cases hline
      simp only [List.filterMap_cons, hnone, hline]
      exact ih m
    | some l =>
      obtain ⟨hl, hwords⟩ := Line.ofWords?_eq_some_iff.1 hline
      obtain ⟨e, he, hadd⟩ := exists_entry hl
      rw [← hwords] at he
      simp only [List.filterMap_cons, he, hline, List.foldl_cons, hadd]
      exact ih _

/-- The mapping that texts make, loaded one after another. -/
def loadAll (texts : List String) : SymbolMapping :=
  texts.foldl load empty

theorem loadAll_eq_foldl (texts : List String) :
    loadAll texts = (texts.flatMap acceptedLines).foldl addLine empty := by
  rw [loadAll, List.foldl_flatMap]
  congr
  funext m text
  exact load_eq_foldl m text

/-! ### First answers -/

theorem getElem?_classes_foldl (m : SymbolMapping) (ls : List Line) (symbol : String) :
    (ls.foldl addLine m).classes[symbol]? =
      (m.classes[symbol]?).or (ls.findSome? (·.newClass? symbol)) := by
  refine foldl_eq_or (fun m : SymbolMapping => m.classes[symbol]?) (fun m l => ?_) m ls
  cases l with
  | cls old new => exact getElem?_insertIfNew _ _ _ _
  | _ => exact Option.or_none.symm

theorem getElem?_fields_foldl (m : SymbolMapping) (ls : List Line) (symbol : String) :
    (ls.foldl addLine m).fields[symbol]? =
      (m.fields[symbol]?).or (ls.findSome? (·.newField? symbol)) := by
  refine foldl_eq_or (fun m : SymbolMapping => m.fields[symbol]?) (fun m l => ?_) m ls
  cases l with
  | field old new => exact getElem?_insertIfNew _ _ _ _
  | _ => exact Option.or_none.symm

/-- The new name that a line gives under a key of the table of methods. -/
def newMethodAt? (key : String) : Line → Option String
  | .method old descriptor new _ =>
    if old ++ " " ++ descriptor = key then some (lastSegment new) else none
  | _ => none

theorem getElem?_methods_foldl (m : SymbolMapping) (ls : List Line) (key : String) :
    (ls.foldl addLine m).methods[key]? =
      (m.methods[key]?).or (ls.findSome? (newMethodAt? key)) := by
  refine foldl_eq_or (fun m : SymbolMapping => m.methods[key]?) (fun m l => ?_) m ls
  cases l with
  | method old descriptor new _ => exact getElem?_insertIfNew _ _ _ _
  | _ => exact Option.or_none.symm

/-- A symbol and a descriptor without spaces can be told from the key that they make up. -/
theorem append_space_inj {symbol symbol' descriptor descriptor' : String}
    (h : ' ' ∉ descriptor.toList) (h' : ' ' ∉ descriptor'.toList) :
    symbol ++ " " ++ descriptor = symbol' ++ " " ++ descriptor' ↔
      symbol = symbol' ∧ descriptor = descriptor' := by
  refine ⟨fun heq => ?_, by rintro ⟨rfl, rfl⟩; rfl⟩
  have hkey : symbol.toList ++ ' ' :: descriptor.toList =
      symbol'.toList ++ ' ' :: descriptor'.toList := by
    simpa using congrArg String.toList heq
  have hcut := congrArg (Text.cutLast? ' ') hkey
  rw [Text.cutLast?_append h, Text.cutLast?_append h', Option.some.injEq, Prod.mk.injEq,
    String.toList_inj, String.toList_inj] at hcut
  exact hcut

theorem newMethodAt?_eq {text : String} {l : Line} (hl : l ∈ acceptedLines text)
    {symbol descriptor : String} (h : ' ' ∉ descriptor.toList) :
    newMethodAt? (symbol ++ " " ++ descriptor) l = l.newMethod? symbol descriptor := by
  cases l with
  | method old oldDescriptor new newDescriptor =>
    have hfree : ' ' ∉ oldDescriptor.toList := fun hspace =>
      absurd (Srg.isBlank_eq_false_of_mem hl (by simp [Line.words]) hspace) (by decide)
    simp only [newMethodAt?, Line.newMethod?, append_space_inj hfree h]
  | _ => rfl

/-- Without a hierarchy only the class itself is asked. -/
theorem findInHierarchy_loadAll (texts : List String) (lookup? : String → Option String)
    (cls : String) : (loadAll texts).findInHierarchy lookup? cls = lookup? cls := by
  have hnone : (loadAll texts).hierarchy = none := by
    have hstep (m : SymbolMapping) (hm : m.hierarchy = none) (l : Line) :
        (m.addLine l).hierarchy = none := by
      cases l <;> exact hm
    rw [loadAll_eq_foldl]
    exact List.foldlRecOn (motive := fun m : SymbolMapping => m.hierarchy = none)
      (texts.flatMap acceptedLines) addLine rfl fun m hm l _ => hstep m hm l
  rw [findInHierarchy, hnone, Option.getD_none, Hierarchy.find?_eq_or]
  exact (congrArg _ (Hierarchy.search_nil _ _ _)).trans Option.or_none

variable (texts : List String)

theorem renameField?_loadAll (owner name : String) :
    (loadAll texts).renameField? owner name =
      (texts.flatMap acceptedLines).findSome? (·.newField? (owner ++ "/" ++ name)) := by
  rw [renameField?, findInHierarchy_loadAll, fieldEntry?, loadAll_eq_foldl, getElem?_fields_foldl]
  simp [empty, fieldKey]

theorem methodEntry?_loadAll (owner name descriptor : String) :
    methodEntry? (loadAll texts) name descriptor owner =
      (texts.flatMap acceptedLines).findSome?
        (newMethodAt? (owner ++ "/" ++ name ++ " " ++ descriptor)) := by
  unfold methodEntry?
  rw [loadAll_eq_foldl, getElem?_methods_foldl]
  simp [empty, methodKey]

theorem renameMethod?_loadAll {owner name descriptor : String} (hname : isReserved name = false)
    (hdescriptor : ' ' ∉ descriptor.toList) :
    (loadAll texts).renameMethod? owner name descriptor =
      (texts.flatMap acceptedLines).findSome?
        (·.newMethod? (owner ++ "/" ++ name) descriptor) := by
  rw [renameMethod?, hname, if_neg Bool.false_ne_true, findInHierarchy_loadAll,
    methodEntry?_loadAll]
  rw [← List.head?_filterMap, ← List.head?_filterMap]
  refine congrArg List.head? (List.filterMap_congr fun l hl => ?_)
  obtain ⟨text, -, hl⟩ := List.mem_flatMap.1 hl
  exact newMethodAt?_eq hl hdescriptor

theorem findSome?_newClass? {ls : List Line} {cls new : String} (h : Line.cls cls new ∈ ls) :
    ∃ first, ls.findSome? (·.newClass? cls) = some first := by
  rw [← Option.isSome_iff_exists, List.findSome?_isSome_iff]
  exact ⟨_, h, by simp [Line.newClass?]⟩

theorem renameClass_loadAll {cls new : String}
    (h : (texts.flatMap acceptedLines).findSome? (·.newClass? cls) = some new) :
    (loadAll texts).renameClass cls = new := by
  refine renameClass_of_entry ?_
  rw [loadAll_eq_foldl, getElem?_classes_foldl, h]
  simp [empty]

/-- A first answer stays the first one when more texts follow. -/
theorem findSome?_flatMap_append {answer : Line → Option String} {new : String}
    (h : (texts.flatMap acceptedLines).findSome? answer = some new) (more : List String) :
    ((texts ++ more).flatMap acceptedLines).findSome? answer = some new := by
  rw [List.flatMap_append, List.findSome?_append, h, Option.some_or]

/-! ### All texts -/

/-- Whether a mapping answers what the first one of some lines says: for each class that one of them
is about, and for each member. A member that none of them is about has no answer. -/
structure AnswersFirst (ls : List Line) (m : SymbolMapping) : Prop where
  cls : ∀ cls new, Line.cls cls new ∈ ls →
    ls.findSome? (·.newClass? cls) = some (m.renameClass cls)
  field : ∀ owner name,
    m.renameField? owner name = ls.findSome? (·.newField? (owner ++ "/" ++ name))
  method : ∀ owner name descriptor, isReserved name = false → ' ' ∉ descriptor.toList →
    m.renameMethod? owner name descriptor =
      ls.findSome? (·.newMethod? (owner ++ "/" ++ name) descriptor)

theorem answersFirst_loadAll : AnswersFirst (texts.flatMap acceptedLines) (loadAll texts) where
  cls cls new h := by
    obtain ⟨first, hfirst⟩ := findSome?_newClass? h
    rw [renameClass_loadAll texts hfirst, hfirst]
  field := renameField?_loadAll texts
  method _ _ _ := renameMethod?_loadAll texts

/-- Whether a mapping keeps what another one answered for members, and for the classes that some
lines are about. -/
structure KeepsAnswers (ls : List Line) (m m' : SymbolMapping) : Prop where
  cls : ∀ cls new, Line.cls cls new ∈ ls → m'.renameClass cls = m.renameClass cls
  field : ∀ owner name new,
    m.renameField? owner name = some new → m'.renameField? owner name = some new
  method : ∀ owner name descriptor new, m.renameMethod? owner name descriptor = some new →
    m'.renameMethod? owner name descriptor = some new

theorem keepsAnswers_loadAll (more : List String) :
    KeepsAnswers (texts.flatMap acceptedLines) (loadAll texts) (loadAll (texts ++ more)) where
  cls cls new h := by
    obtain ⟨first, hfirst⟩ := findSome?_newClass? h
    rw [renameClass_loadAll texts hfirst,
      renameClass_loadAll _ (findSome?_flatMap_append texts hfirst more)]
  field owner name new h := by
    rw [renameField?_loadAll] at h ⊢
    exact findSome?_flatMap_append texts h more
  method owner name descriptor new h := by
    cases hname : isReserved name with
    | true => simp [renameMethod?, hname] at h
    | false =>
      simp only [renameMethod?, hname, Bool.false_eq_true, if_false, findInHierarchy_loadAll,
        methodEntry?_loadAll] at h ⊢
      exact findSome?_flatMap_append texts h more

/-- A mapping that is made of texts answers what the first accepted line for a symbol says, and
keeps its answers when more texts follow. Each line that is neither blank nor accepted is reported
once; what a text does to a mapping depends on its accepted lines alone. -/
theorem loadAll_answers_first (texts : List String) :
    AnswersFirst (texts.flatMap acceptedLines) (loadAll texts) ∧
      (∀ more, KeepsAnswers (texts.flatMap acceptedLines) (loadAll texts)
        (loadAll (texts ++ more))) ∧
      ∀ text, Srg.Reports text (Srg.notices text) ∧
        ∀ m text', acceptedLines text = acceptedLines text' → load m text = load m text' := by
  refine ⟨answersFirst_loadAll texts, keepsAnswers_loadAll texts, fun text =>
    ⟨Srg.reports_notices text, fun m text' haccepted => ?_⟩⟩
  rw [load_eq_foldl, load_eq_foldl, haccepted]

/-- Two texts with two lines for a class and two for a field; the third line of the first text is
rejected. -/
theorem loadAll_answers_first_repeated :
    let texts := ["CL: a x\nFD: a/b x/f\nMD: a/c x/g\n",
      "CL: a y\nMD: a/c (I)V x/g (I)V\nFD: a/b x/h"]
    (loadAll texts).renameClass "a" = "x" ∧
      (loadAll texts).renameField? "a" "b" = some "f" ∧
      (loadAll texts).renameField? "a" "c" = none ∧
      (loadAll texts).renameMethod? "a" "c" "(I)V" = some "g" ∧
      (loadAll (texts ++ ["FD: a/b x/i"])).renameField? "a" "b" = some "f" ∧
      load empty "MD: a/c x/g" = load empty "" := by
  intro texts
  have hlines : texts.flatMap acceptedLines =
      [.cls "a" "x", .field "a/b" "x/f", .cls "a" "y", .method "a/c" "(I)V" "x/g" "(I)V",
        .field "a/b" "x/h"] := by decide +kernel
  obtain ⟨hanswers, hkeeps, hload⟩ := loadAll_answers_first texts
  have hfield : (loadAll texts).renameField? "a" "b" = some "f" := by
    rw [hanswers.field, hlines]
    decide
  refine ⟨?_, hfield, ?_, ?_, (hkeeps ["FD: a/b x/i"]).field "a" "b" "f" hfield, ?_⟩
  · have hcls := hanswers.cls "a" "x" (by rw [hlines]; simp)
    rw [hlines] at hcls
    simpa [Line.newClass?] using hcls.symm
  · rw [hanswers.field, hlines]
    decide
  · rw [hanswers.method "a" "c" "(I)V" (by decide) (by decide), hlines]
    decide
  · exact (hload "MD: a/c x/g").2 empty "" (by decide +kernel)

end SymbolMapping

end JarRefit.Naming
