import Mathlib.Data.List.TakeWhile
import JarRefit.Proofs.Access.Directive

/-!
# The canonical form of a directive

A line that normalization made stays as it is when it is normalized again, and holds the directive
of the line that it was made of. A directive that was read can be written down: the token of its
change and its symbol path make up a line that holds it again. Its owner and its member can be taken
apart into what they were put together from.

## Main definitions

* `Normal`: the lines that normalization leaves as they are.
* `Plain`: the words that normal lines are made of.
* `Directive.OwnerInOrder`: the owners of directives that were read.
-/
namespace JarRefit.Access

variable {line text word path : String} {d : Directive}

/-! ## Normal lines -/

/-- The lines that normalization leaves as they are. -/
structure Normal (text : String) : Prop where
  nonempty : text ≠ ""
  noComment : '#' ∉ text.toList
  noDot : '.' ∉ text.toList
  trimmed : Text.Trimmed text.toList

theorem normalizeLine_eq_some_iff : normalizeLine line = some text ↔
    Text.trim (line.toList.takeWhile (· != '#')) ≠ [] ∧
      text.toList = (Text.trim (line.toList.takeWhile (· != '#'))).map
        fun c => if c = '.' then '/' else c := by
  unfold normalizeLine
  generalize Text.trim (line.toList.takeWhile (· != '#')) = content
  cases content with
  | nil => simp
  | cons c content => simp [← String.toList_inj, eq_comm]

theorem normal_of_normalizeLine (h : normalizeLine line = some text) : Normal text := by
  obtain ⟨hne, htext⟩ := normalizeLine_eq_some_iff.1 h
  refine ⟨?_, ?_, Directive.dot_notMem_normalizeLine h, ?_⟩
  · rintro rfl
    simp [hne] at htext
  · intro hmem
    rw [htext, List.mem_map] at hmem
    obtain ⟨c, hc, hslash⟩ := hmem
    have hkept := List.mem_takeWhile_imp (Text.mem_of_mem_trim hc)
    split at hslash
    · cases hslash
    · simp [hslash] at hkept
  · rw [htext]
    refine (Text.trimmed_trim _).map fun c => ?_
    split
    · next hdot => rw [hdot]; rfl
    · rfl

theorem Normal.normalizeLine_eq (h : Normal text) : normalizeLine text = some text := by
  have hkept : text.toList.takeWhile (· != '#') = text.toList := by
    rw [List.takeWhile_eq_self_iff]
    intro c hc
    rw [bne_iff_ne]
    rintro rfl
    exact h.noComment hc
  rw [normalizeLine_eq_some_iff, hkept, h.trimmed.trim_eq]
  have hsame : (text.toList.map fun c => if c = '.' then '/' else c) = text.toList.map id := by
    refine List.map_congr_left fun c hc => if_neg ?_
    rintro rfl
    exact h.noDot hc
  exact ⟨by simpa using h.nonempty, by rw [hsame, List.map_id]⟩

/-! ## Plain words -/

/-- The words that normal lines are made of. -/
def Plain (word : String) : Prop :=
  Text.IsWord word.toList ∧ '#' ∉ word.toList ∧ '.' ∉ word.toList

theorem plain_iff_all : Plain word ↔ word.toList ≠ [] ∧
    word.toList.all (fun c => !Text.isBlank c && c != '#' && c != '.') = true := by
  simp only [Plain, Text.IsWord, List.all_eq_true, Bool.and_eq_true, Bool.not_eq_true', bne_iff_ne,
    forall_and, and_assoc, List.forall_mem_ne']

theorem Change.plain_token (c : Change) : Plain c.token := by
  obtain ⟨v, t⟩ := c
  rw [plain_iff_all]
  cases v <;> cases t <;> decide

theorem Normal.lineWords_eq (h : Normal text) :
    Directive.lineWords text = (Text.words text.toList).map String.ofList := by
  rw [Directive.lineWords, h.normalizeLine_eq]

theorem plain_of_mem_lineWords (h : word ∈ Directive.lineWords line) : Plain word := by
  unfold Directive.lineWords at h
  cases hline : normalizeLine line with
  | none => simp [hline] at h
  | some text =>
    rw [hline] at h
    obtain ⟨w, hw, rfl⟩ := List.mem_map.1 h
    have hnormal := normal_of_normalizeLine hline
    unfold Plain
    rw [String.toList_ofList]
    exact ⟨Text.isWord_of_mem_words hw,
      fun hc => hnormal.noComment (Text.mem_of_mem_words hw hc).1,
      fun hc => hnormal.noDot (Text.mem_of_mem_words hw hc).1⟩

/-- Plain words with a space between neighbours make up a normal line. -/
theorem normal_intercalate {ws : List String} (hne : ws ≠ []) (h : ∀ w ∈ ws, Plain w) :
    Normal (" ".intercalate ws) := by
  have htext : (" ".intercalate ws).toList = [' '].intercalate (ws.map String.toList) :=
    String.toList_intercalate
  have hwords : ∀ w ∈ ws.map String.toList, Text.IsWord w := by
    simpa using fun w hw => (h w hw).1
  have hfree (c : Char) (hblank : c ≠ ' ') (hfree : ∀ w ∈ ws, c ∉ w.toList) :
      c ∉ (" ".intercalate ws).toList := by
    rw [htext]
    intro hc
    rcases Directive.mem_of_mem_intercalate hc with hc | ⟨_, hpart, hc⟩
    · exact hblank (by simpa using hc)
    · obtain ⟨w, hw, rfl⟩ := List.mem_map.1 hpart
      exact hfree w hw hc
  refine ⟨fun hempty => ?_, hfree '#' (by decide) fun w hw => (h w hw).2.1,
    hfree '.' (by decide) fun w hw => (h w hw).2.2, htext ▸ Text.trimmed_intercalate hwords⟩
  have hparts := Text.words_intercalate hwords
  rw [← htext, hempty] at hparts
  exact hne (List.map_eq_nil_iff.1 hparts.symm)

theorem lineWords_intercalate {ws : List String} (hne : ws ≠ []) (h : ∀ w ∈ ws, Plain w) :
    Directive.lineWords (" ".intercalate ws) = ws := by
  have hwords : ∀ w ∈ ws.map String.toList, Text.IsWord w := by
    simpa using fun w hw => (h w hw).1
  rw [(normal_intercalate hne h).lineWords_eq, String.toList_intercalate]
  refine (congrArg _ (Text.words_intercalate hwords)).trans ?_
  simp

/-! ## Members and owners -/

/-- A member token that is cut at its first parenthesis can be put together again. -/
@[simp]
theorem MemberTarget.token_ofToken (token : String) : (ofToken token).token = token := by
  unfold ofToken
  split
  · next name rest hcut =>
    obtain ⟨htoken, -⟩ := Text.cut?_eq_some hcut
    rw [← String.toList_inj, htoken]
    simp [MemberTarget.token]
  · simp [MemberTarget.token]

namespace Directive

/-- The owner of a directive holds no dots and no blanks. It is put together from segments, none of
them empty, and between its slashes stand just these. -/
structure OwnerInOrder (d : Directive) : Prop where
  noDot : '.' ∉ d.owner.toList
  noBlank : ∀ c ∈ d.owner.toList, Text.isBlank c = false
  segments : ∀ segment ∈ d.ownerPath, segment ≠ ""
  split : d.owner ≠ "" →
    Text.splitWhere (· == '/') d.owner.toList = d.ownerPath.map String.toList

theorem mem_ownerSegments {owner segment : String} (h : segment ∈ ownerSegments owner) :
    segment ≠ "" ∧ ∀ c ∈ segment.toList, c ∈ owner.toList ∧ c ≠ '/' := by
  obtain ⟨part, hpart, rfl⟩ := List.mem_map.1 h
  obtain ⟨hpart, hne⟩ := List.mem_filter.1 hpart
  refine ⟨by simpa using hne, fun c hc => ?_⟩
  rw [String.toList_ofList] at hc
  obtain ⟨howner, hslash⟩ := Text.mem_of_mem_splitWhere hpart hc
  exact ⟨howner, by simpa using hslash⟩

theorem mem_owner {c : Char} (h : c ∈ d.owner.toList) :
    c = '/' ∨ ∃ segment ∈ d.ownerPath, c ∈ segment.toList := by
  rw [owner, String.toList_intercalate] at h
  rcases mem_of_mem_intercalate h with hc | ⟨_, hpart, hc⟩
  · exact .inl (by simpa using hc)
  · obtain ⟨segment, hsegment, rfl⟩ := List.mem_map.1 hpart
    exact .inr ⟨segment, hsegment, hc⟩

theorem ownerInOrder_of_plain {word : String} (h : Plain word)
    (hd : d.ownerPath = ownerSegments word) : d.OwnerInOrder where
  noDot hdot := by
    obtain hc | ⟨segment, hsegment, hc⟩ := mem_owner hdot
    · exact absurd hc (by decide)
    · exact h.2.2 ((mem_ownerSegments (hd ▸ hsegment)).2 _ hc).1
  noBlank c hmem := by
    obtain rfl | ⟨segment, hsegment, hc⟩ := mem_owner hmem
    · rfl
    · exact h.1.2 c ((mem_ownerSegments (hd ▸ hsegment)).2 c hc).1
  segments segment hsegment := (mem_ownerSegments (hd ▸ hsegment)).1
  split hne := by
    have hpath : d.ownerPath ≠ [] := fun hnil => hne (by simp [owner, hnil])
    rw [owner, String.toList_intercalate]
    refine Text.splitWhere_intercalate (by simpa using hpath) rfl ?_
    intro part hpart c hc
    obtain ⟨segment, hsegment, rfl⟩ := List.mem_map.1 hpart
    simpa using ((mem_ownerSegments (hd ▸ hsegment)).2 c hc).2

/-! ## Directives -/

theorem parse?_eq_some_iff : parse? line = some (path, d) ↔
    ∃ access owner rest, lineWords line = access :: owner :: rest ∧
      path = " ".intercalate (owner :: rest.head?.toList) ∧
      d = ⟨ownerSegments owner, rest.head?.map .ofToken, .ofToken access⟩ := by
  constructor
  · intro h
    unfold parse? at h
    split at h
    · next access owner rest hwords =>
      cases h
      exact ⟨access, owner, rest, hwords, rfl, rfl⟩
    · cases h
  · rintro ⟨access, owner, rest, hwords, rfl, rfl⟩
    rw [parse?, hwords]

/-- The access token and the symbol path of a line make up a line of their words. -/
theorem append_intercalate (token owner : String) (member : Option String) :
    token ++ " " ++ " ".intercalate (owner :: member.toList) =
      " ".intercalate (token :: owner :: member.toList) := by
  rw [← String.toList_inj, String.toList_append, String.toList_append, String.toList_intercalate,
    String.toList_intercalate, List.map_cons, List.map_cons, List.map_cons,
    List.intercalate_cons_cons]

/-- The token of a change and the symbol path make up a line that holds the directive again. -/
theorem parse?_written (h : parse? line = some (path, d)) :
    parse? (d.change.token ++ " " ++ path) = some (path, d) := by
  obtain ⟨access, owner, rest, hwords, rfl, rfl⟩ := parse?_eq_some_iff.1 h
  have hplain : ∀ word ∈ access :: owner :: rest, Plain word := fun word hword =>
    plain_of_mem_lineWords (hwords ▸ hword)
  -- The words that are written are those that were read, but for the shorter token.
  have hread : lineWords (" ".intercalate ((Change.ofToken access).token :: owner ::
      rest.head?.toList)) = (Change.ofToken access).token :: owner :: rest.head?.toList := by
    refine lineWords_intercalate (by simp) (List.forall_mem_cons.2 ⟨Change.plain_token _, ?_⟩)
    refine List.forall_mem_cons.2 ⟨hplain owner (by simp), fun word hword => ?_⟩
    exact hplain word (by simp [List.mem_of_head? (Option.mem_toList.1 hword)])
  rw [append_intercalate]
  refine parse?_eq_some_iff.2 ⟨_, owner, _, hread, ?_, ?_⟩
  · cases rest.head? <;> rfl
  · rw [Change.ofToken_token]
    cases rest.head? <;> rfl

/-- Normalizing twice is normalizing once, and what a line holds is what it holds once it is
normalized. A directive that is read can be written with the token of its change and its symbol
path; its owner is in order, and its member is the third word of the line, cut at the first
parenthesis. -/
theorem parse?_canonical :
    (∀ line text, normalizeLine line = some text →
      normalizeLine text = some text ∧ parse? text = parse? line) ∧
    ∀ line path d, parse? line = some (path, d) →
      (∃ text, normalizeLine line = some text) ∧
        parse? (d.change.token ++ " " ++ path) = some (path, d) ∧
        d.OwnerInOrder ∧
        d.member.map MemberTarget.token = (lineWords line)[2]? ∧
        ∀ m ∈ d.member, MemberTarget.ofToken m.token = m := by
  refine ⟨fun line text h => ?_, fun line path d h => ?_⟩
  · have hagain := (normal_of_normalizeLine h).normalizeLine_eq
    exact ⟨hagain, by simp only [parse?, lineWords, hagain, h]⟩
  · have hwritten := parse?_written h
    obtain ⟨access, owner, rest, hwords, rfl, rfl⟩ := parse?_eq_some_iff.1 h
    have howner : owner ∈ lineWords line := by simp [hwords]
    refine ⟨?_, hwritten, ownerInOrder_of_plain (plain_of_mem_lineWords howner) rfl, ?_, ?_⟩
    · rw [← Option.isSome_iff_exists]
      cases hline : normalizeLine line with
      | none => simp [lineWords, hline] at hwords
      | some text => rfl
    · rw [hwords]
      cases rest <;> simp
    · intro m hm
      obtain ⟨token, -, rfl⟩ := Option.map_eq_some_iff.1 hm
      rw [MemberTarget.token_ofToken]

/-- A method of a class in a path with an empty segment, between blanks of several kinds, with a
fourth word and a comment. -/
theorem parse?_canonical_spaced :
    let line :=
      "\t public-final-f  net.minecraft..World\u00a0func_1(Lnet.minecraft.Entity;)Z x # y "
    let text := "public-final-f  net/minecraft//World\u00a0func_1(Lnet/minecraft/Entity;)Z x"
    let path := "net/minecraft//World func_1(Lnet/minecraft/Entity;)Z"
    let d : Directive := ⟨["net", "minecraft", "World"],
      some ⟨"func_1", some "(Lnet/minecraft/Entity;)Z"⟩, ⟨.pub, .forceNonFinal⟩⟩
    normalizeLine line = some text ∧ parse? line = some (path, d) ∧
      normalizeLine text = some text ∧ parse? text = parse? line ∧
      parse? ("public-f" ++ " " ++ path) = some (path, d) ∧ d.OwnerInOrder := by
  intro line text path d
  have hline : normalizeLine line = some text := by decide +kernel
  have hparse : parse? line = some (path, d) := by decide +kernel
  obtain ⟨hnormal, hread⟩ := parse?_canonical
  obtain ⟨-, hwritten, howner, -⟩ := hread line path d hparse
  exact ⟨hline, hparse, (hnormal line text hline).1, (hnormal line text hline).2, hwritten, howner⟩

end Directive

end JarRefit.Access
