import JarRefit.Text.Split

/-!
# Characters of the parts of a text

The parts and the words of a text stand in it and hold characters of it, and none of them holds a
separator. Where a text is cut at the first of a character, both sides of the cut are settled. Parts
and words that are put together can be taken apart again.
-/
namespace JarRefit.Text

variable {p : Char → Bool} {c : Char} {cs part : List Char}

theorem mem_of_mem_splitWhere (h : part ∈ splitWhere p cs) (hc : c ∈ part) :
    c ∈ cs ∧ p c = false := by
  induction cs generalizing part with
  | nil => simp_all
  | cons d cs ih =>
    rw [splitWhere_cons] at h
    split at h
    · rcases List.mem_cons.1 h with rfl | h
      · cases hc
      · exact ⟨List.mem_cons_of_mem _ (ih h hc).1, (ih h hc).2⟩
    · next hd =>
      cases hparts : splitWhere p cs with
      | nil => exact absurd hparts (splitWhere_ne_nil p cs)
      | cons w ws =>
        rw [hparts, List.modifyHead_cons] at h
        rw [hparts] at ih
        rcases List.mem_cons.1 h with rfl | h
        · rcases List.mem_cons.1 hc with rfl | hc
          · exact ⟨List.mem_cons_self, by simpa using hd⟩
          · have := ih List.mem_cons_self hc
            exact ⟨List.mem_cons_of_mem _ this.1, this.2⟩
        · have := ih (List.mem_cons_of_mem _ h) hc
          exact ⟨List.mem_cons_of_mem _ this.1, this.2⟩

theorem mem_of_mem_words (h : part ∈ words cs) (hc : c ∈ part) : c ∈ cs ∧ isBlank c = false :=
  mem_of_mem_splitWhere (List.mem_filter.1 h).1 hc

/-- A text has no words just if it is blank. -/
theorem words_eq_nil_iff : words cs = [] ↔ ∀ c ∈ cs, isBlank c = true := by
  induction cs with
  | nil => simp [words]
  | cons c cs ih =>
    obtain ⟨part, parts, hparts⟩ := List.exists_cons_of_ne_nil (splitWhere_ne_nil isBlank cs)
    cases hc : isBlank c with
    | true => simpa [words, splitWhere_cons, hc] using ih
    | false => simp [words, splitWhere_cons, hparts, hc]

theorem splitWhere_eq_singleton (h : ∀ c ∈ cs, p c = false) : splitWhere p cs = [cs] := by
  induction cs with
  | nil => rfl
  | cons d cs ih => simp [splitWhere_cons, h d, ih fun c hc => h c (.tail _ hc)]

/-- The parts on both sides of a separator. -/
theorem splitWhere_append_cons (h : p c = true) (before after : List Char) :
    splitWhere p (before ++ c :: after) = splitWhere p before ++ splitWhere p after := by
  induction before with
  | nil => simp [splitWhere_cons, h]
  | cons d before ih =>
    rw [List.cons_append, splitWhere_cons, splitWhere_cons, ih]
    split
    · rfl
    · cases hparts : splitWhere p before with
      | nil => exact absurd hparts (splitWhere_ne_nil p before)
      | cons w ws => rfl

/-- Two texts cut at the first of a character are equal just if their sides are. -/
theorem append_cons_inj {before before' after after' : List Char} (h : c ∉ before)
    (h' : c ∉ before') :
    before ++ c :: after = before' ++ c :: after' ↔ before = before' ∧ after = after' := by
  refine ⟨fun heq => ?_, by rintro ⟨rfl, rfl⟩; rfl⟩
  induction before generalizing before' with
  | nil =>
    cases before' with
    | nil => exact ⟨rfl, (List.cons.inj heq).2⟩
    | cons d before' =>
      obtain ⟨rfl, -⟩ := List.cons.inj heq
      exact absurd List.mem_cons_self h'
  | cons d before ih =>
    cases before' with
    | nil =>
      obtain ⟨rfl, -⟩ := List.cons.inj heq
      exact absurd List.mem_cons_self h
    | cons d' before' =>
      obtain ⟨rfl, hrest⟩ := List.cons.inj heq
      obtain ⟨rfl, rfl⟩ := ih (fun hm => h (.tail _ hm)) (fun hm => h' (.tail _ hm)) hrest
      exact ⟨rfl, rfl⟩

theorem cut?_append {before after : List Char} (h : c ∉ before) :
    cut? c (before ++ c :: after) = some (before, after) := by
  have hbefore : ∀ d ∈ before, (d != c) = true := by
    intro d hd
    rw [bne_iff_ne]
    rintro rfl
    exact h hd
  rw [cut?, List.dropWhile_append_of_pos hbefore, List.takeWhile_append_of_pos hbefore]
  simp

theorem cutLast?_append {before after : List Char} (h : c ∉ after) :
    cutLast? c (before ++ c :: after) = some (before, after) := by
  have hreverse : (before ++ c :: after).reverse = after.reverse ++ c :: before.reverse := by simp
  rw [cutLast?, hreverse, cut?_append (by simpa using h)]
  simp

theorem cutLast?_eq_none (h : c ∉ cs) : cutLast? c cs = none := by
  cases hcut : cutLast? c cs with
  | none => rfl
  | some sides => exact absurd (by simp [(cutLast?_eq_some hcut).1]) h

/-- A text that holds a character can be cut at the last one. -/
theorem exists_last_of_mem (h : c ∈ cs) :
    ∃ before after, cs = before ++ c :: after ∧ c ∉ after := by
  obtain ⟨after, before, hreverse, hfree⟩ := List.eq_append_cons_of_mem (List.mem_reverse.2 h)
  refine ⟨before.reverse, after.reverse, ?_, by simpa using hfree⟩
  simpa using congrArg List.reverse hreverse

theorem cut?_cons_of_ne {d : Char} (h : d ≠ c) :
    cut? c (d :: cs) = (cut? c cs).map fun sides => (d :: sides.1, sides.2) := by
  have hd : (d != c) = true := bne_iff_ne.2 h
  simp only [cut?, List.dropWhile_cons, List.takeWhile_cons, hd, if_true]
  cases cs.dropWhile (· != c) <;> rfl

/-! ### Parts put together -/

/-- Parts without separators are the parts of the text that they make up. -/
theorem splitWhere_intercalate {parts : List (List Char)} (hparts : parts ≠ [])
    (hc : p c = true) (h : ∀ part ∈ parts, ∀ d ∈ part, p d = false) :
    splitWhere p ([c].intercalate parts) = parts := by
  induction parts with
  | nil => exact absurd rfl hparts
  | cons part parts ih =>
    have hpart := splitWhere_eq_singleton (h part List.mem_cons_self)
    cases parts with
    | nil => simpa using hpart
    | cons next parts =>
      have hrest := ih (by simp) fun part hpart => h part (.tail _ hpart)
      rw [List.intercalate_cons_cons, List.append_assoc, List.singleton_append,
        splitWhere_append_cons hc, hpart, hrest, List.singleton_append]

/-- Whether a text is a single word. -/
def IsWord (cs : List Char) : Prop :=
  cs ≠ [] ∧ ∀ c ∈ cs, isBlank c = false

theorem isWord_of_mem_words (h : part ∈ words cs) : IsWord part :=
  ⟨by simpa using (List.mem_filter.1 h).2, fun _ hc => (mem_of_mem_words h hc).2⟩

theorem words_intercalate {ws : List (List Char)} (h : ∀ w ∈ ws, IsWord w) :
    words ([' '].intercalate ws) = ws := by
  cases ws with
  | nil => rfl
  | cons w ws =>
    rw [words, splitWhere_intercalate (by simp) rfl fun part hpart => (h part hpart).2,
      List.filter_eq_self]
    exact fun part hpart => by simpa using (h part hpart).1

/-! ### Trimmed texts -/

/-- Whether a text has no blanks at its front and at its back. -/
structure Trimmed (cs : List Char) : Prop where
  first : ∀ c ∈ cs.head?, isBlank c = false
  last : ∀ c ∈ cs.getLast?, isBlank c = false

theorem isBlank_of_mem_head?_dropWhile (h : c ∈ (cs.dropWhile isBlank).head?) :
    isBlank c = false := by
  have hhead := List.head?_dropWhile_not isBlank cs
  rwa [Option.mem_def.1 h] at hhead

theorem dropWhile_eq_self (h : ∀ c ∈ cs.head?, isBlank c = false) :
    cs.dropWhile isBlank = cs := by
  cases cs with
  | nil => rfl
  | cons c cs => simp [h c rfl]

/-- Trimming takes blanks away from the front and then from the back. -/
theorem isPrefix_trim (cs : List Char) : trim cs <+: cs.dropWhile isBlank := by
  have hback : (cs.dropWhile isBlank).reverse.dropWhile isBlank <:+
      (cs.dropWhile isBlank).reverse := List.dropWhile_suffix isBlank
  simpa [trim] using List.reverse_prefix.2 hback

theorem mem_of_mem_trim (h : c ∈ trim cs) : c ∈ cs :=
  (List.dropWhile_suffix isBlank).mem ((isPrefix_trim cs).mem h)

theorem trimmed_trim (cs : List Char) : Trimmed (trim cs) where
  first c hc := by
    obtain ⟨rest, hrest⟩ := isPrefix_trim cs
    have hfront : c ∈ (cs.dropWhile isBlank).head? := by
      rw [← hrest, Option.mem_def, List.head?_append, Option.mem_def.1 hc, Option.some_or]
    exact isBlank_of_mem_head?_dropWhile hfront
  last c hc := by
    rw [trim, List.getLast?_reverse] at hc
    exact isBlank_of_mem_head?_dropWhile hc

theorem Trimmed.trim_eq (h : Trimmed cs) : trim cs = cs := by
  have hback : cs.reverse.dropWhile isBlank = cs.reverse :=
    dropWhile_eq_self (by simpa using h.last)
  rw [trim, dropWhile_eq_self h.first, hback, List.reverse_reverse]

theorem Trimmed.map (h : Trimmed cs) {f : Char → Char} (hf : ∀ c, isBlank (f c) = isBlank c) :
    Trimmed (cs.map f) where
  first := by simpa [hf] using h.first
  last := by simpa [hf] using h.last

theorem IsWord.trimmed (h : IsWord cs) : Trimmed cs :=
  ⟨fun _ hc => h.2 _ (List.mem_of_head? hc), fun _ hc => h.2 _ (List.mem_of_getLast? hc)⟩

/-- A word in front of a trimmed text, with something between them, leaves it trimmed. -/
theorem IsWord.trimmed_append (h : IsWord part) (hcs : Trimmed cs) (hne : cs ≠ [])
    (between : List Char) : Trimmed (part ++ between ++ cs) where
  first c hc := by
    obtain ⟨d, rest, rfl⟩ := List.exists_cons_of_ne_nil h.1
    exact h.trimmed.first c (by simpa using hc)
  last c hc := by
    have hlast := List.getLast?_eq_some_getLast hne
    rw [List.getLast?_append, hlast, Option.some_or] at hc
    exact hcs.last c (hlast ▸ hc)

/-- Words with a blank between neighbours make up a trimmed text. -/
theorem trimmed_intercalate {ws : List (List Char)} (h : ∀ w ∈ ws, IsWord w) :
    Trimmed ([' '].intercalate ws) := by
  induction ws with
  | nil => constructor <;> simp
  | cons w ws ih =>
    have hw := h w List.mem_cons_self
    cases ws with
    | nil => simpa using hw.trimmed
    | cons next ws =>
      rw [List.intercalate_cons_cons]
      refine hw.trimmed_append (ih fun v hv => h v (.tail _ hv)) ?_ _
      have hnext : next ≠ [] := (h next (by simp)).1
      cases ws <;> simp [List.intercalate_cons_cons, hnext]

/-! ### Parts inside a text -/

theorem occursIn_iff : occursIn part cs = true ↔ part <:+: cs := by
  induction cs with
  | nil => simp [occursIn]
  | cons d cs ih =>
    rw [occursIn, Bool.or_eq_true, ih, List.isPrefixOf_iff_prefix, List.infix_cons_iff]

/-- The first part of a text starts it, and the others stand somewhere in it. -/
theorem prefix_of_splitWhere_eq {w : List Char} {ws : List (List Char)}
    (h : splitWhere p cs = w :: ws) : w <+: cs ∧ ∀ part ∈ ws, part <:+: cs := by
  induction cs generalizing w ws with
  | nil =>
    obtain ⟨rfl, rfl⟩ := List.cons.inj h
    exact ⟨List.prefix_rfl, by simp⟩
  | cons d cs ih =>
    obtain ⟨w', ws', hparts⟩ := List.exists_cons_of_ne_nil (splitWhere_ne_nil p cs)
    obtain ⟨hfirst, hothers⟩ := ih hparts
    rw [splitWhere_cons, hparts] at h
    split at h
    · obtain ⟨rfl, rfl⟩ := List.cons.inj h
      refine ⟨List.nil_prefix, List.forall_mem_cons.2 ⟨List.infix_cons hfirst.isInfix, ?_⟩⟩
      exact fun part hpart => List.infix_cons (hothers part hpart)
    · obtain ⟨rfl, rfl⟩ := List.cons.inj h
      refine ⟨List.cons_prefix_cons.2 ⟨rfl, hfirst⟩, ?_⟩
      exact fun part hpart => List.infix_cons (hothers part hpart)

theorem infix_of_mem_splitWhere (h : part ∈ splitWhere p cs) : part <:+: cs := by
  obtain ⟨w, ws, hparts⟩ := List.exists_cons_of_ne_nil (splitWhere_ne_nil p cs)
  obtain ⟨hfirst, hothers⟩ := prefix_of_splitWhere_eq hparts
  rw [hparts] at h
  rcases List.mem_cons.1 h with rfl | h
  · exact hfirst.isInfix
  · exact hothers part h

/-! ### Stops -/

/-- Whether a text starts with one of the stops. -/
def StartsIn (stops cs : List Char) : Prop :=
  ∃ c ∈ stops, ∃ rest, cs = c :: rest

variable {stops before before' after after' : List Char}

/-- A text without stops goes on to the first stop. -/
theorem span_append (hbefore : ∀ c ∈ before, c ∉ stops) (hafter : StartsIn stops after) :
    (before ++ after).takeWhile (!stops.contains ·) = before ∧
      (before ++ after).dropWhile (!stops.contains ·) = after := by
  obtain ⟨c, hc, rest, rfl⟩ := hafter
  have hbefore : ∀ d ∈ before, (!stops.contains d) = true := by simpa using hbefore
  rw [List.takeWhile_append_of_pos hbefore, List.dropWhile_append_of_pos hbefore]
  simp [hc]

/-- Two texts cut at the first stop are equal just if their sides are. -/
theorem append_inj_of_startsIn (hbefore : ∀ c ∈ before, c ∉ stops)
    (hbefore' : ∀ c ∈ before', c ∉ stops) (hafter : StartsIn stops after)
    (hafter' : StartsIn stops after') (h : before ++ after = before' ++ after') :
    before = before' ∧ after = after' := by
  obtain ⟨htake, hdrop⟩ := span_append hbefore hafter
  obtain ⟨htake', hdrop'⟩ := span_append hbefore' hafter'
  rw [h] at htake hdrop
  exact ⟨htake.symm.trans htake', hdrop.symm.trans hdrop'⟩

end JarRefit.Text
