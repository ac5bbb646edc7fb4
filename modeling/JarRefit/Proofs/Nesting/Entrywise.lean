import Mathlib.Algebra.BigOperators.Group.List.Basic
import Mathlib.Data.List.Basic
import JarRefit.Nesting.Patch
import JarRefit.Proofs.Access.Sequence
import JarRefit.Proofs.Text.Digit
import JarRefit.Proofs.Text.Split

/-!
# Patches, entry by entry

A patch leaves every record and every entry of a sheet in its place and keeps everything in an entry
but the access flags. To these it applies, in turn, the changes that its lines ask for the entry.

## Main definitions

* `Hosts`: the records in which a line has the entries for a nested class changed.
* `asked`: the changes that lines ask for the entries for a class in a record.
* `Entry.changedBy`: an entry after changes of its flags.
* `Sheet.mapEntries`, `Sheet.places`: a sheet with all its entries changed, and their list.
-/
namespace JarRefit.Nesting

open Access (Change Directive Flags)

/-! ## Entries -/

namespace Entry

variable {e : Entry} {c : Change}

@[simp]
theorem flags_withFlags (e : Entry) (f : Flags) : (e.withFlags f).flags = f := by
  obtain ⟨bits⟩ := f
  by_cases hzero : bits = 0
  · simp [withFlags, flags, hzero]
  · have hread : hexValue? (Flags.hexDigits bits.toNat) = some bits := by
      unfold hexValue? Flags.hexDigits
      split
      · exact absurd ‹_› (Text.toDigits_ne_cons_plus _ _)
      · dsimp only
        rw [Text.number?_toDigits]
        simp [bits.toNat_lt]
    simp [withFlags, flags, hzero, Flags.toHex, hread]

@[simp]
theorem innerClass_change : (e.change c).innerClass = e.innerClass :=
  rfl

@[simp]
theorem flags_change : (e.change c).flags = c.apply e.flags :=
  flags_withFlags e _

/-- The text for access flags: their number in base sixteen, and nothing if none is set. -/
def accessText (f : Flags) : Option String :=
  if f.bits = 0 then none else some (String.ofList (Nat.toDigits 16 f.bits.toNat))

/-- The entry after changes of its flags, one after another. Without any change its access text
stays as it is, be it readable or not. -/
def changedBy (e : Entry) (cs : List Change) : Entry :=
  if cs = [] then e
  else { e with access := accessText (cs.foldl (fun f c => c.apply f) e.flags) }

theorem foldl_change_withFlags (e : Entry) (f : Flags) (cs : List Change) :
    cs.foldl change (e.withFlags f) = e.withFlags (cs.foldl (fun f c => c.apply f) f) := by
  induction cs generalizing f with
  | nil => rfl
  | cons c cs ih =>
    have hchange : (e.withFlags f).change c = e.withFlags (c.apply f) := by
      rw [change, flags_withFlags]
      rfl
    rw [List.foldl_cons, hchange, ih, List.foldl_cons]

/-- The flags pass from one change to the next one through their text. -/
theorem foldl_change (e : Entry) (cs : List Change) : cs.foldl change e = e.changedBy cs := by
  cases cs with
  | nil => rfl
  | cons c cs =>
    rw [List.foldl_cons, change, foldl_change_withFlags]
    rfl

end Entry

/-! ## What lines ask for -/

/-- Whether a record has the entries for a nested class changed: the record of the class itself or
that of the class in front of the first `$`, which does not stand at the front of the name. -/
def Hosts (owner inner : String) : Prop :=
  ∃ outer rest, outer ≠ "" ∧ '$' ∉ outer.toList ∧ inner = outer ++ "$" ++ rest ∧
    (owner = outer ∨ owner = inner)

theorem hosts_iff {owner inner : String} : Hosts owner inner ↔
    ∃ first outer rest, Text.cut? '$' inner.toList = some (first :: outer, rest) ∧
      (owner = String.ofList (first :: outer) ∨ owner = inner) := by
  constructor
  · rintro ⟨outer, rest, hne, hfree, hinner, howner⟩
    obtain ⟨first, more, hcons⟩ := List.exists_cons_of_ne_nil (mt String.toList_eq_nil_iff.1 hne)
    have hchars : inner.toList = outer.toList ++ '$' :: rest.toList := by simp [hinner]
    refine ⟨first, more, rest.toList, ?_, ?_⟩
    · rw [hchars, Text.cut?_append hfree, hcons]
    · rwa [← hcons, String.ofList_toList]
  · rintro ⟨first, outer, rest, hcut, howner⟩
    obtain ⟨hchars, hfree⟩ := Text.cut?_eq_some hcut
    have hinner : inner = String.ofList (first :: outer) ++ "$" ++ String.ofList rest := by
      rw [← String.toList_inj, hchars]
      simp
    exact ⟨_, _, by simp, by simpa using hfree, hinner, howner⟩

instance (owner inner : String) : Decidable (Hosts owner inner) :=
  decidable_of_iff ((Text.cut? '$' inner.toList).any fun (outer, _) =>
    !outer.isEmpty && (owner = String.ofList outer || owner = inner)) (by
      rw [hosts_iff]
      cases Text.cut? '$' inner.toList with
      | none => simp
      | some sides =>
        obtain ⟨outer, rest⟩ := sides
        cases outer <;> simp)

/-- What a line of two words asks for its second word, if that is the class in question. -/
def askedOf? (inner line : String) : Option Change :=
  match Directive.lineWords line with
  | [access, target] => if target = inner then some (.ofToken access) else none
  | _ => none

/-- The changes that lines ask for the entries for a class in the record of `owner`, in order. -/
def asked (lines : List String) (owner inner : String) : List Change :=
  if Hosts owner inner then lines.filterMap (askedOf? inner) else []

/-- Whether a request is about the entries for a class in the record of another one. -/
def Request.Aims (q : Request) (owner inner : String) : Prop :=
  q.target = inner ∧ (owner = q.outer ∨ owner = q.target)

instance (q : Request) (owner inner : String) : Decidable (q.Aims owner inner) :=
  inferInstanceAs (Decidable (_ ∧ _))

theorem Request.outer_of_ofLine? {line : String} {q : Request} (h : ofLine? line = some q) :
    ∃ outer rest, Text.cut? '$' q.target.toList = some (outer, rest) ∧
      q.outer = String.ofList outer := by
  unfold ofLine? at h
  split at h
  · split at h
    · cases h
      exact ⟨_, _, ‹_›, rfl⟩
    · cases h
  · cases h

theorem Request.outer_ne_target {line : String} {q : Request} (h : ofLine? line = some q) :
    q.outer ≠ q.target := by
  obtain ⟨outer, rest, hcut, houter⟩ := outer_of_ofLine? h
  intro hsame
  have hparts := (Text.cut?_eq_some hcut).1
  rw [← hsame, houter, String.toList_ofList] at hparts
  simp at hparts

theorem aims_ofLine? (owner inner line : String) :
    ((Request.ofLine? line).filter (·.Aims owner inner)).map (·.change) =
      if Hosts owner inner then askedOf? inner line else none := by
  unfold Request.ofLine? askedOf?
  rcases Directive.lineWords line with _ | ⟨access, _ | ⟨target, _ | ⟨word, words⟩⟩⟩
  · simp
  · simp
  · by_cases htarget : target = inner
    · subst htarget
      rcases hcut : Text.cut? '$' target.toList with _ | ⟨_ | ⟨first, outer⟩, rest⟩ <;>
        simp [hosts_iff, hcut, Option.filter_some, Request.Aims]
    · rcases hcut : Text.cut? '$' target.toList with _ | ⟨_ | ⟨first, outer⟩, rest⟩ <;>
        simp [htarget, hcut, Option.filter_some, Request.Aims]
  · simp

/-- The lines ask for an entry what the requests among them that aim at it are for. -/
theorem asked_eq (lines : List String) (owner inner : String) :
    asked lines owner inner = ((lines.filterMap Request.ofLine?).filter
      (·.Aims owner inner)).map (·.change) := by
  have hrequests : ((lines.filterMap Request.ofLine?).filter (·.Aims owner inner)).map (·.change) =
      lines.filterMap fun line => if Hosts owner inner then askedOf? inner line else none := by
    rw [List.filter_filterMap, List.map_filterMap]
    exact List.filterMap_congr fun line _ => aims_ofLine? owner inner line
  rw [hrequests, asked]
  split <;> simp

/-! ## Sheets -/

namespace Sheet

variable {s : Sheet} {f g : String → Entry → Entry} {q : Request}

/-- Whether a sheet has no two records for one class. -/
def NamesOnce (s : Sheet) : Prop :=
  (s.classes.map Prod.fst).Nodup

/-- The sheet with each entry changed in its place; what is changed may depend on the class whose
record it is in. -/
def mapEntries (s : Sheet) (f : String → Entry → Entry) : Sheet :=
  ⟨s.classes.map fun (owner, r) => (owner, { r with entries := r.entries.map (·.map (f owner)) })⟩

/-- All entries, each with the class whose record it is in. -/
def places (s : Sheet) : List (String × Entry) :=
  s.classes.flatMap fun (owner, r) => (r.entries.getD []).map (owner, ·)

theorem mapEntries_mapEntries (s : Sheet) (f g : String → Entry → Entry) :
    (s.mapEntries f).mapEntries g = s.mapEntries fun owner e => g owner (f owner e) := by
  simp [mapEntries, Function.comp_def]

theorem mapEntries_self (s : Sheet) : (s.mapEntries fun _ e => e) = s := by
  simp [mapEntries]

theorem NamesOnce.mapEntries (h : s.NamesOnce) (f : String → Entry → Entry) :
    (s.mapEntries f).NamesOnce := by
  simpa [NamesOnce, Sheet.mapEntries, Function.comp_def] using h

/-! ### Requests -/

theorem patchIn_eq (s : Sheet) (owner target : String) (c : Change) :
    s.patchIn owner target c = s.mapEntries fun name e =>
      if e.innerClass = target ∧ name = owner then e.change c else e := by
  rw [patchIn, mapEntries]
  congr
  funext ⟨name, r⟩
  by_cases hname : name = owner <;> simp [hname, ClassRecord.patch]

theorem patchRequest_eq (s : Sheet) (hq : q.outer ≠ q.target) :
    s.patchRequest q = s.mapEntries fun owner e =>
      if q.Aims owner e.innerClass then e.change q.change else e := by
  rw [patchRequest, patchIn_eq, patchIn_eq, mapEntries_mapEntries]
  congr
  funext owner e
  by_cases hinner : e.innerClass = q.target
  · by_cases howner : owner = q.outer <;> simp [Request.Aims, hinner, howner, hq]
  · simp [Request.Aims, hinner, Ne.symm hinner]

/-- A patch applies to an entry the changes of all requests that aim at it, in turn. -/
theorem foldl_patchRequest (s : Sheet) {qs : List Request}
    (hqs : ∀ q ∈ qs, q.outer ≠ q.target) :
    qs.foldl patchRequest s = s.mapEntries fun owner e =>
      ((qs.filter (·.Aims owner e.innerClass)).map (·.change)).foldl Entry.change e := by
  induction qs generalizing s with
  | nil => exact (mapEntries_self s).symm
  | cons q qs ih =>
    rw [List.forall_mem_cons] at hqs
    rw [List.foldl_cons, ih _ hqs.2, patchRequest_eq s hqs.1, mapEntries_mapEntries]
    congr
    funext owner e
    by_cases haims : q.Aims owner e.innerClass <;> simp [haims]

theorem outer_ne_target_of_mem {lines : List String} (h : q ∈ lines.filterMap Request.ofLine?) :
    q.outer ≠ q.target := by
  obtain ⟨line, -, hline⟩ := List.mem_filterMap.1 h
  exact Request.outer_ne_target hline

theorem patch_eq (s : Sheet) (lines : List String) :
    s.patch lines = s.mapEntries fun owner e =>
      e.changedBy (asked lines owner e.innerClass) := by
  rw [patch, foldl_patchRequest s fun q => outer_ne_target_of_mem]
  simp only [Entry.foldl_change, asked_eq]

/-! ### Counts -/

theorem fst_mem_of_mem_places {place : String × Entry} (h : place ∈ s.places) :
    place.1 ∈ s.classes.map Prod.fst := by
  obtain ⟨owned, howned, hplace⟩ := List.mem_flatMap.1 h
  obtain ⟨e, -, rfl⟩ := List.mem_map.1 hplace
  exact List.mem_map_of_mem howned

theorem countIn_eq (hs : s.NamesOnce) (owner target : String) :
    s.countIn owner target =
      s.places.countP fun (name, e) => name = owner ∧ e.innerClass = target := by
  obtain ⟨classes⟩ := s
  induction classes with
  | nil => rfl
  | cons owned classes ih =>
    obtain ⟨name, r⟩ := owned
    obtain ⟨hfresh, hs⟩ := List.nodup_cons.1 hs
    have hplaces : places ⟨(name, r) :: classes⟩ =
        (r.entries.getD []).map (name, ·) ++ places ⟨classes⟩ := rfl
    rw [hplaces, List.countP_append, List.countP_map]
    by_cases hname : name = owner
    · subst hname
      have hothers : (places ⟨classes⟩).countP
          (fun (other, e) => other = name ∧ e.innerClass = target) = 0 := by
        refine List.countP_eq_zero.2 fun (other, e) hplace hother => hfresh ?_
        rw [← (of_decide_eq_true hother).1]
        exact fst_mem_of_mem_places hplace
      rw [hothers]
      simp [countIn, record?, ClassRecord.countFor, Function.comp_def]
    · have hrecord : countIn ⟨(name, r) :: classes⟩ owner target =
          countIn ⟨classes⟩ owner target := by
        have howner : (owner == name) = false := beq_false_of_ne (Ne.symm hname)
        simp only [countIn, record?, List.lookup_cons, howner]
      rw [hrecord, ih hs]
      simp [hname, Function.comp_def]

theorem countRequest_eq (hs : s.NamesOnce) (hq : q.outer ≠ q.target) :
    s.countRequest q = s.places.countP fun (owner, e) => q.Aims owner e.innerClass := by
  rw [countRequest, countIn_eq hs, countIn_eq hs]
  induction s.places with
  | nil => rfl
  | cons place places ih =>
    obtain ⟨owner, e⟩ := place
    simp only [List.countP_cons, ← ih]
    by_cases hinner : e.innerClass = q.target
    · by_cases howner : owner = q.outer
      · simp [Request.Aims, hinner, howner, hq]
        omega
      · simp [Request.Aims, hinner, howner]
        omega
    · simp [Request.Aims, hinner, Ne.symm hinner]

/-- Pairs are counted alike from both sides. -/
theorem sum_countP_comm {α β : Type} (p : α → β → Bool) (as : List α) (bs : List β) :
    (as.map fun a => bs.countP (p a)).sum = (bs.map fun b => as.countP (p · b)).sum := by
  induction as with
  | nil => simp
  | cons a as ih =>
    have hfirst : (bs.map fun b => if p a b then 1 else 0).sum = bs.countP (p a) := by
      simp [List.sum_map_ite, List.countP_eq_length_filter]
    simp only [List.map_cons, List.sum_cons, ih, List.countP_cons, List.sum_map_add, hfirst]
    exact Nat.add_comm _ _

theorem patchCount_eq (hs : s.NamesOnce) (lines : List String) :
    s.patchCount lines =
      (s.places.map fun (owner, e) => (asked lines owner e.innerClass).length).sum := by
  have hcounts : s.patchCount lines = ((lines.filterMap Request.ofLine?).map fun q =>
      s.places.countP fun (owner, e) => q.Aims owner e.innerClass).sum := by
    rw [patchCount, ← List.foldl_map, ← List.sum_eq_foldl]
    refine congrArg List.sum (List.map_congr_left fun q hq => ?_)
    exact countRequest_eq hs (outer_ne_target_of_mem hq)
  rw [hcounts, sum_countP_comm]
  simp only [asked_eq, List.length_map, List.countP_eq_length_filter]

/-- A patch applies to each entry what the lines ask for it, and leaves everything else as it is. It
counts the changes that it makes. -/
theorem patch_entrywise (s : Sheet) (lines : List String) :
    (s.patch lines = s.mapEntries fun owner e => e.changedBy (asked lines owner e.innerClass)) ∧
      (s.NamesOnce → s.patchCount lines =
        (s.places.map fun (owner, e) => (asked lines owner e.innerClass).length).sum) :=
  ⟨patch_eq s lines, fun hs => patchCount_eq hs lines⟩

/-- Two entries for one nested class, of which the second has an unreadable text, get two changes
each; an entry for another class keeps a text that stands for no flags. -/
theorem patch_entrywise_twice :
    let sheet (first second : String) : Sheet :=
      ⟨[("a", ⟨some [{ innerClass := "a$b", access := some first },
        { innerClass := "a$b", access := some second },
        { innerClass := "a$c", access := some "0" }], [("k", .null)]⟩)]⟩
    let lines := ["default a$b # first", "default+f a$b"]
    (sheet "a" "x").NamesOnce ∧ (sheet "a" "x").patch lines = sheet "18" "10" ∧
      (sheet "a" "x").patchCount lines = 4 := by
  intro sheet lines
  have hs : (sheet "a" "x").NamesOnce := List.pairwise_singleton _ _
  have hasked : asked lines "a" "a$b" = [.ofToken "default", .ofToken "default+f"] := by
    decide +kernel
  have hasked' : asked lines "a" "a$c" = [] := by decide +kernel
  obtain ⟨hpatch, hcount⟩ := patch_entrywise (sheet "a" "x") lines
  refine ⟨hs, hpatch.trans ?_, (hcount hs).trans (by decide +kernel)⟩
  simp only [sheet, mapEntries, List.map_cons, List.map_nil, Option.map_some, hasked, hasked']
  rfl

end Sheet

end JarRefit.Nesting
