import Mathlib.Data.List.Basic
import Mathlib.Data.List.Forall2
import Mathlib.Data.String.Basic
import JarRefit.Json.Reading
import JarRefit.Proofs.Steps

/-!
# Values and their readings

A value that is read back keeps everything but the order of the members in its objects, which
becomes that of their names. A value whose members are in this order is read back as it is.

## Main definitions

* `Value.Everywhere`: a property of the member names of all objects in a value.
* `Value.NamesOnce`, `Value.Sorted`: no object has a name twice; all objects are sorted by name.
* `Value.Alike`, `MembersAlike`: values that are equal but for the order of members.
-/
namespace JarRefit.Json

variable {name : String} {v w : Value} {vs ws : List Value} {ms ns ns' : Members}

/-! ## Values -/

namespace Value

/-- Whether the member names of each object in a value have a property. -/
inductive Everywhere (p : List String → Prop) : Value → Prop
  | null : Everywhere p .null
  | boolean (value : Bool) : Everywhere p (.boolean value)
  | number (value : Number) : Everywhere p (.number value)
  | string (text : String) : Everywhere p (.string text)
  | array {items : List Value} (all : ∀ v ∈ items, Everywhere p v) : Everywhere p (.array items)
  | object {members : Members} (names : p (members.map Prod.fst))
      (all : ∀ m ∈ members, Everywhere p m.2) : Everywhere p (.object members)

attribute [simp] Everywhere.null Everywhere.boolean Everywhere.number Everywhere.string

@[simp]
theorem everywhere_array_iff {p : List String → Prop} :
    Everywhere p (.array vs) ↔ ∀ v ∈ vs, Everywhere p v :=
  ⟨fun | .array all => all, .array⟩

@[simp]
theorem everywhere_object_iff {p : List String → Prop} :
    Everywhere p (.object ms) ↔ p (ms.map Prod.fst) ∧ ∀ m ∈ ms, Everywhere p m.2 :=
  ⟨fun | .object names all => ⟨names, all⟩, fun ⟨names, all⟩ => .object names all⟩

/-- Whether no object in a value has two members of one name. -/
def NamesOnce (v : Value) : Prop :=
  v.Everywhere List.Nodup

/-- Whether the members of each object in a value are sorted by name, with each name there once. -/
def Sorted (v : Value) : Prop :=
  v.Everywhere (List.Pairwise (· < ·))

/-- Whether two values are equal but for the order of the members in objects. -/
inductive Alike : Value → Value → Prop
  | null : Alike .null .null
  | boolean (value : Bool) : Alike (.boolean value) (.boolean value)
  | number (value : Number) : Alike (.number value) (.number value)
  | string (text : String) : Alike (.string text) (.string text)
  | array {vs ws : List Value} (length : vs.length = ws.length)
      (items : ∀ v w, (v, w) ∈ vs.zip ws → Alike v w) : Alike (.array vs) (.array ws)
  | object {ms ns : Members} (names : (ms.map Prod.fst).Perm (ns.map Prod.fst))
      (values : ∀ name v w, (name, v) ∈ ms → (name, w) ∈ ns → Alike v w) :
      Alike (.object ms) (.object ns)

theorem Alike.of_forall₂ (h : List.Forall₂ Alike vs ws) : Alike (.array vs) (.array ws) :=
  have ⟨hlength, hitems⟩ := List.forall₂_iff_zip.1 h
  .array hlength fun _ _ => hitems

end Value

/-! ## Members -/

/-- Whether members are equal but for their order, and for the order of the members in their
values. -/
structure MembersAlike (ms ns : Members) : Prop where
  names : (ms.map Prod.fst).Perm (ns.map Prod.fst)
  values : ∀ name v w, (name, v) ∈ ms → (name, w) ∈ ns → v.Alike w

namespace MembersAlike

theorem nil : MembersAlike [] [] :=
  ⟨.nil, by simp⟩

theorem mem_names_iff (h : MembersAlike ms ns) :
    name ∈ ms.map Prod.fst ↔ name ∈ ns.map Prod.fst :=
  h.names.mem_iff

/-- Members stay alike when one more is added on both sides, wherever it is put. -/
theorem add (h : MembersAlike ms ns) (hfresh : name ∉ ms.map Prod.fst) (halike : v.Alike w)
    (hperm : ns'.Perm ((name, w) :: ns)) : MembersAlike (ms ++ [(name, v)]) ns' where
  names := by
    have hnames := (hperm.map Prod.fst).symm
    rw [List.map_append]
    exact (List.perm_append_singleton _ _).trans ((h.names.cons _).trans hnames)
  values other a b ha hb := by
    have hfresh' : name ∉ ns.map Prod.fst := mt h.mem_names_iff.2 hfresh
    rw [hperm.mem_iff, List.mem_cons] at hb
    rw [List.mem_append, List.mem_singleton] at ha
    rcases ha with ha | ha <;> rcases hb with hb | hb
    · cases hb
      exact absurd (List.mem_map_of_mem ha) hfresh
    · exact h.values other a b ha hb
    · cases ha
      cases hb
      exact halike
    · cases ha
      exact absurd (List.mem_map_of_mem hb) hfresh'

end MembersAlike

/-! ### Sorted members -/

/-- Whether members are sorted by name, each name once, and have sorted values. -/
structure MembersSorted (ms : Members) : Prop where
  names : (ms.map Prod.fst).Pairwise (· < ·)
  values : ∀ m ∈ ms, m.2.Sorted

theorem MembersSorted.nil : MembersSorted [] :=
  ⟨.nil, by simp⟩

namespace Value

theorem insertMember_perm (h : name ∉ ms.map Prod.fst) :
    (insertMember name v ms).Perm ((name, v) :: ms) := by
  induction ms with
  | nil => exact .refl _
  | cons m ms ih =>
    obtain ⟨other, old⟩ := m
    rw [List.map_cons, List.mem_cons, not_or] at h
    unfold insertMember
    split
    · exact .refl _
    · rw [if_neg h.1]
      exact ((ih h.2).cons _).trans (.swap _ _ _)

theorem mem_insertMember {m : String × Value} (h : m ∈ insertMember name v ms) :
    m = (name, v) ∨ m ∈ ms := by
  induction ms with
  | nil => simpa [insertMember] using h
  | cons _ ms ih => grind [insertMember]

theorem pairwise_insertMember (h : (ms.map Prod.fst).Pairwise (· < ·)) :
    ((insertMember name v ms).map Prod.fst).Pairwise (· < ·) := by
  induction ms with
  | nil => simp [insertMember]
  | cons m ms ih =>
    obtain ⟨other, old⟩ := m
    have hrest := (List.pairwise_cons.1 h).2
    have hfirst : ∀ n ∈ ms, other < n.1 := by simpa using (List.pairwise_cons.1 h).1
    unfold insertMember
    split
    · next hlt =>
      refine List.pairwise_cons.2 ⟨?_, h⟩
      simp only [List.map_cons, List.mem_cons, List.mem_map, forall_eq_or_imp]
      exact ⟨hlt, by rintro _ ⟨n, hn, rfl⟩; exact hlt.trans (hfirst n hn)⟩
    · next hge =>
      split
      · next heq =>
        subst heq
        exact h
      · next hne =>
        have hlt : other < name := lt_of_le_of_ne (not_lt.1 hge) (Ne.symm hne)
        refine List.pairwise_cons.2 ⟨?_, ih hrest⟩
        simp only [List.mem_map]
        rintro _ ⟨n, hn, rfl⟩
        rcases mem_insertMember hn with rfl | hn
        · exact hlt
        · exact hfirst n hn

theorem membersSorted_insertMember (h : MembersSorted ms) (hv : v.Sorted) :
    MembersSorted (insertMember name v ms) where
  names := pairwise_insertMember h.names
  values m hm := by
    rcases mem_insertMember hm with rfl | hm
    · exact hv
    · exact h.values m hm

/-- A member whose name comes after all others is put at the end. -/
theorem insertMember_last (h : ∀ m ∈ ms, m.1 < name) :
    insertMember name v ms = ms ++ [(name, v)] := by
  induction ms with
  | nil => rfl
  | cons m ms ih =>
    obtain ⟨other, old⟩ := m
    have hother : other < name := h _ List.mem_cons_self
    rw [insertMember, if_neg hother.not_gt, if_neg hother.ne', ih fun m hm => h m (.tail _ hm)]
    rfl

end Value

/-! ## Readings -/

theorem Value.itemReadings_eq_map (vs : List Value) : itemReadings vs = vs.map reading := by
  induction vs with
  | nil => rfl
  | cons v vs ih => rw [itemReadings, ih, List.map_cons]

theorem Value.memberReadings_eq_map (ms : Members) :
    memberReadings ms = ms.map fun m => (m.1, m.2.reading) := by
  induction ms with
  | nil => rfl
  | cons m ms ih =>
    obtain ⟨name, v⟩ := m
    rw [memberReadings, ih, List.map_cons]

theorem Value.memberReadings_append (ms ns : Members) :
    memberReadings (ms ++ ns) = memberReadings ms ++ memberReadings ns := by
  simp only [memberReadings_eq_map, List.map_append]

namespace Reading

theorem values_eq_mapM (rs : List Reading) : values rs = rs.mapM value := by
  induction rs with
  | nil => rfl
  | cons r rs ih => rw [values, ih, List.mapM_cons]

theorem members_eq_foldlM (sorted : Members) (rs : List (String × Reading)) :
    members sorted rs = rs.foldlM (fun sorted m =>
      (Value.insertMember m.1 · sorted) <$> value m.2) sorted := by
  induction rs generalizing sorted with
  | nil => rfl
  | cons m rs ih =>
    obtain ⟨name, r⟩ := m
    rw [members, List.foldlM_cons]
    cases hr : value r with
    | error => rfl
    | ok v => exact ih _

end Reading

/-- Where names stand once, none of those in front of a name is the same. -/
theorem notMem_of_nodup_names {α : Type} {a : α} {done rest : List (String × α)}
    (h : ((done ++ (name, a) :: rest).map Prod.fst).Nodup) : name ∉ done.map Prod.fst := by
  rw [List.map_append, List.nodup_append] at h
  exact fun hname => h.2.2 name hname name (by simp) rfl

/-- A walk over the members of a value, of which each has a name of its own, keeps what each step
keeps. -/
theorem foldlM_readings {σ : Type} {step : σ → String × Reading → Except Fault σ}
    (Inv : Members → σ → Prop) {start s' : σ} (hnames : (ms.map Prod.fst).Nodup)
    (hstart : Inv [] start)
    (hstep : ∀ done name v s s', (name, v) ∈ ms → name ∉ done.map Prod.fst → Inv done s →
      step s (name, v.reading) = .ok s' → Inv (done ++ [(name, v)]) s')
    (h : (Value.memberReadings ms).foldlM step start = .ok s') : Inv ms s' := by
  -- The members are those that were walked over and those that are left.
  suffices hwalk : ∀ rest done s, ms = done ++ rest → Inv done s →
      (Value.memberReadings rest).foldlM step s = .ok s' → Inv ms s' from
    hwalk ms [] start rfl hstart h
  intro rest
  induction rest with
  | nil =>
    intro done s hms hdone hs
    cases hs
    rwa [hms, List.append_nil]
  | cons m rest ih =>
    intro done s hms hdone hs
    obtain ⟨name, v⟩ := m
    rw [Value.memberReadings, List.foldlM_cons, except_bind_eq_ok_iff] at hs
    obtain ⟨s₁, hs₁, hs⟩ := hs
    have hmem : (name, v) ∈ ms := by simp [hms]
    have hfresh := notMem_of_nodup_names (hms ▸ hnames)
    have hdone₁ := hstep done name v s s₁ hmem hfresh hdone hs₁
    exact ih (done ++ [(name, v)]) s₁ (by simp [hms]) hdone₁ hs

/-- A walk keeps what each of its steps keeps. -/
theorem Reading.walk_keeps {σ : Type} {expected : String}
    {step : σ → String → Reading → Except Fault σ} {start s : σ} {r : Reading} (Inv : σ → Prop)
    (hstart : Inv start)
    (hstep : ∀ s name r s', Inv s → step s name r = .ok s' → Inv s')
    (h : r.walk expected step start = .ok s) : Inv s := by
  cases r with
  | object ms stop =>
    obtain ⟨s', hfold, hstop⟩ := except_bind_eq_ok_iff.1 h
    cases stop with
    | some => cases hstop
    | none =>
      cases hstop
      induction ms generalizing start with
      | nil =>
        cases hfold
        exact hstart
      | cons m ms ih =>
        rw [List.foldlM_cons, except_bind_eq_ok_iff] at hfold
        obtain ⟨s₁, hs₁, hrest⟩ := hfold
        exact ih (hstep start m.1 m.2 s₁ hstart hs₁) (by rw [walk, hrest]; rfl) hrest
  | _ => cases h

/-! ### Parts of a value -/

namespace Reading

theorem text_eq_ok_iff {t : String} : v.reading.text = .ok t ↔ v = .string t := by
  cases v <;> simp [Value.reading, text]

theorem optional_eq_ok_iff {α : Type} {read : Reading → Except Fault α} {x : Option α} :
    optional read v.reading = .ok x ↔
      v = .null ∧ none = x ∨ v ≠ .null ∧ ∃ a, read v.reading = .ok a ∧ some a = x := by
  cases v <;> simp [Value.reading, optional, except_map_eq_ok_iff]

theorem optional_cases {α : Type} {read : Reading → Except Fault α} {r : Reading} {x : Option α}
    (h : optional read r = .ok x) : x = none ∨ ∃ a, read r = .ok a ∧ x = some a := by
  cases r with
  | null => cases h; exact .inl rfl
  | _ =>
    obtain ⟨a, ha, rfl⟩ := except_map_eq_ok_iff.1 h
    exact .inr ⟨a, ha, rfl⟩

theorem items_eq_ok_iff {α : Type} {read : Reading → Except Fault α} {as : List α} :
    items read v.reading = .ok as ↔
      ∃ vs, v = .array vs ∧ List.Forall₂ (fun v a => read v.reading = .ok a) vs as := by
  cases v <;> simp [Value.reading, items, except_bind_eq_ok_iff, stopped,
    Value.itemReadings_eq_map, mapM_eq_ok_iff]

theorem walk_eq_ok_iff {σ : Type} {expected : String}
    {step : σ → String → Reading → Except Fault σ} {start s : σ} :
    v.reading.walk expected step start = .ok s ↔ ∃ ms, v = .object ms ∧
      (Value.memberReadings ms).foldlM (fun s m => step s m.1 m.2) start = .ok s := by
  cases v <;> simp [Value.reading, walk, except_bind_eq_ok_iff, stopped]

end Reading

/-! ### Reading values back -/

/-- What is read back from a value is the value, but for the order of members. -/
theorem Value.NamesOnce.alike (h : v.NamesOnce) (hread : v.reading.value = .ok w) : v.Alike w := by
  induction h generalizing w with
  | null => cases hread; exact .null
  | boolean => cases hread; exact .boolean _
  | number => cases hread; exact .number _
  | string => cases hread; exact .string _
  | @array items _ ih =>
    rw [reading, Reading.value, Reading.values_eq_mapM, itemReadings_eq_map,
      except_bind_eq_ok_iff] at hread
    obtain ⟨ws, hws, hstop⟩ := hread
    cases hstop
    rw [mapM_eq_ok_iff, List.forall₂_map_left_iff] at hws
    refine .of_forall₂ (List.forall₂_iff_zip.2 ⟨hws.length_eq, fun hpair => ?_⟩)
    exact ih _ (List.of_mem_zip hpair).1 ((List.forall₂_iff_zip.1 hws).2 hpair)
  | @object members names _ ih =>
    rw [reading, Reading.value, Reading.members_eq_foldlM, except_bind_eq_ok_iff] at hread
    obtain ⟨ns, hns, hstop⟩ := hread
    cases hstop
    have halike : MembersAlike members ns := by
      refine foldlM_readings MembersAlike names .nil
        (fun done name v s s' hmem hfresh hdone hstep => ?_) hns
      obtain ⟨w, hw, rfl⟩ := except_map_eq_ok_iff.1 hstep
      have hfresh' : name ∉ s.map Prod.fst := mt hdone.mem_names_iff.2 hfresh
      exact hdone.add hfresh (ih _ hmem hw) (insertMember_perm hfresh')
    exact .object halike.names halike.values

namespace Reading

mutual

theorem sorted_value : ∀ (r : Reading) {w : Value}, r.value = .ok w → w.Sorted
  | .null, _, h => by cases h; exact .null
  | .boolean _, _, h => by cases h; exact .boolean _
  | .number _, _, h => by cases h; exact .number _
  | .string _, _, h => by cases h; exact .string _
  | .array rs stop, _, h => by
    rw [value, except_bind_eq_ok_iff] at h
    obtain ⟨ws, hws, hstop⟩ := h
    cases stop with
    | some => cases hstop
    | none =>
      cases hstop
      exact .array (sorted_values rs hws)
  | .object ms stop, _, h => by
    rw [value, except_bind_eq_ok_iff] at h
    obtain ⟨ns, hns, hstop⟩ := h
    cases stop with
    | some => cases hstop
    | none =>
      cases hstop
      have hsorted := membersSorted_members ms .nil hns
      exact .object hsorted.names hsorted.values
  | .fault _, _, h => by cases h

theorem sorted_values : ∀ (rs : List Reading) {ws : List Value}, values rs = .ok ws →
    ∀ w ∈ ws, w.Sorted
  | [], _, h => by cases h; simp
  | r :: rs, _, h => by
    simp only [values, except_bind_eq_ok_iff, except_pure_eq_ok_iff] at h
    obtain ⟨w, hw, ws, hws, rfl⟩ := h
    exact List.forall_mem_cons.2 ⟨sorted_value r hw, sorted_values rs hws⟩

theorem membersSorted_members : ∀ (rs : List (String × Reading)) {ms ns : Members},
    MembersSorted ms → members ms rs = .ok ns → MembersSorted ns
  | [], _, _, hms, h => by cases h; exact hms
  | (_, r) :: rs, _, _, hms, h => by
    rw [members, except_bind_eq_ok_iff] at h
    obtain ⟨w, hw, hrest⟩ := h
    exact membersSorted_members rs (Value.membersSorted_insertMember hms (sorted_value r hw)) hrest

end

/-- Members that go on sorted ones are put behind them. -/
theorem members_memberReadings {rest : Members}
    (hnames : ((ms ++ rest).map Prod.fst).Pairwise (· < ·))
    (hrest : ∀ m ∈ rest, m.2.reading.value = .ok m.2) :
    members ms (Value.memberReadings rest) = .ok (ms ++ rest) := by
  induction rest generalizing ms with
  | nil => simp [Value.memberReadings, members]
  | cons m rest ih =>
    obtain ⟨name, v⟩ := m
    have hlast : ∀ n ∈ ms, n.1 < name := by
      rw [List.map_append, List.pairwise_append] at hnames
      exact fun n hn => hnames.2.2 n.1 (List.mem_map_of_mem hn) name (by simp)
    rw [List.forall_mem_cons] at hrest
    rw [Value.memberReadings, members, hrest.1]
    change members (Value.insertMember name v ms) _ = _
    rw [Value.insertMember_last hlast, ih (by simpa using hnames) hrest.2]
    simp

end Reading

/-- A sorted value is read back as it is. -/
theorem Value.Sorted.value_reading (h : v.Sorted) : v.reading.value = .ok v := by
  induction h with
  | null | boolean | number | string => rfl
  | @array items _ ih =>
    have hitems : Reading.values (itemReadings items) = .ok items := by
      rw [Reading.values_eq_mapM, itemReadings_eq_map, mapM_eq_ok_iff,
        List.forall₂_map_left_iff, List.forall₂_same]
      exact ih
    rw [reading, Reading.value, hitems]
    rfl
  | @object members names _ ih =>
    have hmembers : Reading.members [] (memberReadings members) = .ok members :=
      Reading.members_memberReadings names ih
    rw [reading, Reading.value, hmembers]
    rfl

theorem MembersSorted.members_memberReadings (h : MembersSorted ms) :
    Reading.members [] (Value.memberReadings ms) = .ok ms :=
  Reading.members_memberReadings h.names fun m hm => (h.values m hm).value_reading

/-- A walk that keeps members as an object does keeps all of them, if they are sorted. -/
theorem MembersSorted.foldlM_memberReadings {σ : Type}
    {step : σ → String × Reading → Except Fault σ} (h : MembersSorted ms) (put : Members → σ)
    (hstep : ∀ kept, ∀ m ∈ ms, step (put kept) (m.1, m.2.reading) =
      (fun w => put (Value.insertMember m.1 w kept)) <$> m.2.reading.value) :
    (Value.memberReadings ms).foldlM step (put []) = .ok (put ms) := by
  have hfold : ∀ (rest kept : Members), (∀ m ∈ rest, m ∈ ms) →
      (Value.memberReadings rest).foldlM step (put kept) =
        put <$> Reading.members kept (Value.memberReadings rest) := by
    intro rest
    induction rest with
    | nil => exact fun _ _ => rfl
    | cons m rest ih =>
      intro kept hrest
      obtain ⟨name, v⟩ := m
      rw [List.forall_mem_cons] at hrest
      rw [Value.memberReadings, List.foldlM_cons, hstep kept _ hrest.1, Reading.members]
      cases v.reading.value with
      | error => rfl
      | ok w => exact ih _ hrest.2
  rw [hfold ms [] fun _ hm => hm, h.members_memberReadings]
  rfl

end JarRefit.Json
