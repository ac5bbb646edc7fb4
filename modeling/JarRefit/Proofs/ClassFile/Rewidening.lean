import JarRefit.Proofs.ClassFile.Widening

/-!
# Widening twice, and in another order

A class that is widened is a fixed point of the table that widened it, and has everything that the
class had but the visibility and the final flag of itself and of its members. The table matters
only through the changes that were recorded in it, in whatever order.

## Main definitions

* `ClassFile.withoutChangeable`: the class without the flags that widening can touch.
-/
namespace JarRefit.ClassFile

variable {table table' : Access.Table} {c c' : ClassFile} {owner : String} {pool : ConstantPool}
  {kind : MemberKind} {d d' : Member}

/-! ## What widening cannot touch -/

/-- The member without the flags that widening can touch. -/
def Member.withoutChangeable (d : Member) : Member :=
  { d with access := d.access.remove .changeable }

/-- The class without the flags that widening can touch, its own and those of its members. -/
def withoutChangeable (c : ClassFile) : ClassFile :=
  { c with
    access := c.access.remove .changeable
    fields := c.fields.map Member.withoutChangeable
    methods := c.methods.map Member.withoutChangeable }

theorem MemberWidened.withoutChangeable (h : MemberWidened d d') :
    d'.withoutChangeable = d.withoutChangeable := by
  rw [h.rest, Member.withoutChangeable, Member.withoutChangeable, h.changed.remove_changeable]

theorem ClassWidened.withoutChangeable (h : ClassWidened c c') :
    c'.withoutChangeable = c.withoutChangeable := by
  have hmembers (kind : MemberKind) : (c'.members kind).map Member.withoutChangeable =
      (c.members kind).map Member.withoutChangeable :=
    map_eq_map_of_forall₂ (h.members kind) fun _ _ => MemberWidened.withoutChangeable
  have hfields : c'.fields.map _ = c.fields.map _ := hmembers .field
  have hmethods : c'.methods.map _ = c.methods.map _ := hmembers .method
  rw [ClassFile.withoutChangeable, ClassFile.withoutChangeable, hfields, hmethods,
    h.changed.remove_changeable, h.rest]

/-! ## Widening again -/

/-- A member keeps its symbol, and so gets nothing new from the table. -/
theorem WidensTo.again (h : WidensTo table owner pool kind d d') :
    WidensTo table owner pool kind d' d' := by
  obtain ⟨s, hs, rfl⟩ := h
  refine ⟨s, ?_, ?_⟩
  · cases kind <;> exact hs
  · simp only [table.applyTo_applyTo]

theorem widen_again (h : c.widen table = .ok () c') : c'.widen table = .ok () c' := by
  obtain ⟨owner, howner, hmembers, hrest⟩ := widen_eq_ok_iff.1 h
  have hname : c'.name = c.name := by
    rw [hrest]
    rfl
  have hpool : c'.pool = c.pool := by rw [hrest]
  have haccess : c'.access = table.applyTo (.cls owner) c.access := by rw [hrest]
  refine widen_eq_ok_iff.2 ⟨owner, hname.trans howner, fun kind => ?_, ?_⟩
  · rw [hpool]
    exact forall₂_right (hmembers kind) fun _ _ => WidensTo.again
  · rw [haccess, table.applyTo_applyTo, ← haccess]

/-! ## Other tables -/

/-- A table widens as its changes say, however they got into it. -/
theorem widen_congr (h : ∀ key : String, table'.changes[key]? = table.changes[key]?) :
    c.widen table' = .ok () c' ↔ c.widen table = .ok () c' := by
  have happly := Access.Table.applyTo_congr h
  have hmember : WidensTo table' = WidensTo table := by
    funext owner pool kind d d'
    rw [WidensTo, WidensTo, happly]
  rw [widen_eq_ok_iff, widen_eq_ok_iff, happly, hmember]

/-- Widening touches the visibility and the final flag of a class and of its members and nothing
else, and doing it again changes nothing. A table with the same changes, recorded in another order
or more than once, makes the same class. -/
theorem widen_settles (h : c.widen table = .ok () c') :
    c'.withoutChangeable = c.withoutChangeable ∧
      c'.widen table = .ok () c' ∧
      ∀ given given', table = .ofChanges given → (∀ p, p ∈ given' ↔ p ∈ given) →
        c.widen (.ofChanges given') = .ok () c' := by
  refine ⟨(classWidened_of_widen h).withoutChangeable, widen_again h, ?_⟩
  rintro given given' rfl hsame
  exact (widen_congr (Access.Table.getElem?_ofChanges_congr hsame)).2 h

/-! ### A class with contradictory changes -/

/-- A final enumeration `a` with a private final static field `x` and a synthetic method `x` whose
visibility is both public and private. -/
def guarded : ClassFile where
  minorVersion := 0
  majorVersion := 52
  pool := ⟨#[.unusable, .utf8 (Utf8.encode "a"), .classRef 1, .utf8 (Utf8.encode "x"),
    .utf8 (Utf8.encode "I"), .utf8 (Utf8.encode "()V")]⟩
  access := ⟨0x4010⟩
  thisClass := 2
  superClass := 0
  interfaces := []
  fields := [⟨⟨0x001A⟩, 3, 4, []⟩]
  methods := [⟨⟨0x1003⟩, 3, 5, []⟩]
  attributes := []

/-- The class once it is widened. -/
def guardedWidened : ClassFile :=
  { guarded with
    access := ⟨0x4001⟩
    fields := [⟨⟨0x000C⟩, 3, 4, []⟩]
    methods := [⟨⟨0x1011⟩, 3, 5, []⟩] }

/-- Changes for the class, for its field by name and by wildcard, and for its method. -/
def guardedChanges : List (String × Access.Change) :=
  [("a.x", ⟨.priv, .forceFinal⟩), ("a.*()", ⟨.prot, .forceFinal⟩), ("a", ⟨.pub, .forceNonFinal⟩),
    ("a.x", ⟨.pkg, .unchanged⟩), ("a.*", ⟨.prot, .forceNonFinal⟩), ("a", ⟨.prot, .forceFinal⟩)]

theorem applyTo_guarded :
    (Access.Table.ofChanges guardedChanges).applyTo (.cls "a") ⟨0x4010⟩ = ⟨0x4001⟩ ∧
      (Access.Table.ofChanges guardedChanges).applyTo (.field "a" "x") ⟨0x001A⟩ = ⟨0x000C⟩ ∧
      (Access.Table.ofChanges guardedChanges).applyTo (.method "a" "x" "()V") ⟨0x1003⟩ =
        ⟨0x1011⟩ := by
  simp only [Access.Table.applyTo_eq, Access.Table.mergedChange, Access.Symbol.keys]
  simp [Access.Table.ofChanges, guardedChanges, Access.Table.getElem?_add, Access.Table.empty]
  decide

theorem widen_guarded : guarded.widen (.ofChanges guardedChanges) = .ok () guardedWidened := by
  have hname : guarded.name = .ok "a" :=
    ConstantPool.className_eq_ok_iff.2 ⟨1, rfl, ConstantPool.text_eq_ok_iff.2 rfl⟩
  have hmember : guarded.pool.text 3 = .ok "x" := ConstantPool.text_eq_ok_iff.2 rfl
  have hdescriptor : guarded.pool.text 5 = .ok "()V" := ConstantPool.text_eq_ok_iff.2 rfl
  obtain ⟨hclass, hfield, hmethod⟩ := applyTo_guarded
  refine widen_eq_ok_iff.2 ⟨"a", hname, ?_, ?_⟩
  · rintro (_ | _)
    · refine .cons ⟨.field "a" "x", ?_, ?_⟩ .nil
      · simp [Member.symbol, hmember]
      · simp only [hfield]
    · refine .cons ⟨.method "a" "x" "()V", ?_, ?_⟩ .nil
      · simp [Member.symbol, hmember, hdescriptor, bind, Except.bind, pure, Except.pure]
      · simp only [hmethod]
  · rw [show guarded.access = ⟨0x4010⟩ from rfl, hclass]
    rfl

/-- Changes that contradict each other about the final flag of the class and of its field. -/
theorem widen_settles_guarded :
    guarded.widen (.ofChanges guardedChanges) = .ok () guardedWidened ∧
      guardedWidened.withoutChangeable = guarded.withoutChangeable ∧
      guardedWidened.widen (.ofChanges guardedChanges) = .ok () guardedWidened ∧
      guarded.widen (.ofChanges guardedChanges.reverse) = .ok () guardedWidened := by
  obtain ⟨hrest, hagain, hother⟩ := widen_settles widen_guarded
  refine ⟨widen_guarded, hrest, hagain, hother guardedChanges _ rfl fun p => ?_⟩
  exact List.mem_reverse

end JarRefit.ClassFile
