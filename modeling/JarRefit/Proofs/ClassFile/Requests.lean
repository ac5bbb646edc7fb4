import JarRefit.Proofs.ClassFile.Building
import JarRefit.Proofs.ClassFile.Search

/-!
# Requests for texts and classes

A pool is asked for texts and classes, one after another, and some of the requests may fail. An
index that is given once stays good, and asking again gives the same one; no text is added twice,
and nothing that stood in the pool is changed.

## Main definitions

* `ConstantPool.Request`: what a pool can be asked for.
* `ConstantPool.WantsRoom`: the faults of a request, for want of room.
* `Request.Found`: where a pool holds what is asked for, so that nothing has to be added.
* `ConstantPool.Settled`: a text that will not be added any more.
* `ConstantPool.AnswersStably`: how a pool answers, whatever it was asked before.
-/
namespace JarRefit.ClassFile.ConstantPool

variable {pool old new : ConstantPool} {s : String} {i : UInt16} {e : Fault}

/-! ## Adding behind what is there -/

theorem prefix_stateAfter_push (k : Constant) (pool : ConstantPool) :
    pool.slots.toList <+: (stateAfter (push k) pool).slots.toList := by
  rcases stateAfter_push k pool with hsame | ⟨i, hi⟩
  · exact ⟨[], by rw [hsame, List.append_nil]⟩
  · rw [(push_eq_ok_iff.1 hi).2.2]
    exact List.prefix_append _ _

theorem prefix_stateAfter_internText (s : String) (pool : ConstantPool) :
    pool.slots.toList <+: (stateAfter (internText s) pool).slots.toList := by
  rcases stateAfter_internText s pool with hsame | hsame
  · exact ⟨[], by rw [hsame, List.append_nil]⟩
  · rw [hsame]
    exact prefix_stateAfter_push _ _

theorem prefix_stateAfter_internClass (name : String) (pool : ConstantPool) :
    (stateAfter (internText name) pool).slots.toList <+:
      (stateAfter (internClass name) pool).slots.toList := by
  rcases stateAfter_internClass name pool with hsame | ⟨n, hsame⟩
  · exact ⟨[], by rw [hsame, List.append_nil]⟩
  · rw [hsame]
    exact prefix_stateAfter_push _ _

theorem size_le_of_isPrefix (h : old.slots.toList <+: new.slots.toList) : old.size ≤ new.size := by
  simpa [ConstantPool.size] using h.length_le

/-! ## Where a text is -/

/-- The text for which an index is given is found there from then on. -/
theorem findText?_of_internText (h : internText s old = .ok i new) :
    new.findText? s = some i := by
  rw [internText_eq] at h
  cases hfound : old.findText? s with
  | some j =>
    rw [hfound] at h
    cases h
    exact hfound
  | none =>
    rw [hfound] at h
    have hpush := (pushText_eq_ok_iff.1 h).2
    rw [findText?, findIndex?_push rfl hpush (by simp), ← findText?, hfound, if_pos rfl]
    rfl

/-- A request for a text fails only where adding the text does. -/
theorem pushText_of_internText_eq_error (h : internText s old = .error e new) :
    pushText s old = .error e new := by
  rw [internText_eq] at h
  cases hfound : old.findText? s with
  | some j =>
    rw [hfound] at h
    cases h
  | none => rwa [hfound] at h

/-- The fault is due to want of room: the pool is full, or one of the texts is too long. -/
def WantsRoom (pool : ConstantPool) (texts : List String) (e : Fault) : Prop :=
  e = .poolFull ∧ limit ≤ pool.size ∨
    ∃ s ∈ texts, e = .textTooLong s.utf8ByteSize ∧ limit < s.utf8ByteSize

theorem wantsRoom_of_pushText {texts : List String} (hs : s ∈ texts)
    (h : pushText s old = .error e new) : new.WantsRoom texts e := by
  obtain ⟨⟨hlong, he⟩ | ⟨-, hfull, he⟩, rfl⟩ := pushText_eq_error_iff.1 h
  · exact .inr ⟨s, hs, he, hlong⟩
  · exact .inl ⟨he, hfull⟩

theorem wantsRoom_of_push {k : Constant} (hw : k.isWide = false) {texts : List String}
    (h : push k old = .error e new) : new.WantsRoom texts e := by
  obtain ⟨hfull, he, rfl⟩ := push_eq_error_iff.1 h
  rw [Constant.width, hw] at hfull
  exact .inl ⟨he, Nat.le_of_lt_succ hfull⟩

/-- Either a constant holds the text, or none will: the text is too long, or the pool is full. -/
def Settled (pool : ConstantPool) (s : String) : Prop :=
  (∃ i, pool.findText? s = some i) ∨ limit < s.utf8ByteSize ∨ limit ≤ pool.size

theorem Settled.mono (h : old.Settled s) (hslots : old.slots.toList <+: new.slots.toList) :
    new.Settled s := by
  rcases h with ⟨i, hfound⟩ | hlong | hfull
  · exact .inl ⟨i, findIndex?_of_isPrefix hslots (by simp) hfound⟩
  · exact .inr (.inl hlong)
  · exact .inr (.inr (hfull.trans (size_le_of_isPrefix hslots)))

theorem settled_of_mem (h : .utf8 (Utf8.encode s) ∈ pool.slots) : pool.Settled s := by
  refine .inl (Option.ne_none_iff_exists'.1 fun hnone => ?_)
  exact (findIndex?_beq_eq_none_iff (by simp)).1 hnone h

/-- However a request for a text ends, the text is settled. -/
theorem settled_stateAfter_internText (s : String) (pool : ConstantPool) :
    (stateAfter (internText s) pool).Settled s := by
  cases h : internText s pool with
  | ok i new =>
    rw [stateAfter_of_ok h]
    exact .inl ⟨i, findText?_of_internText h⟩
  | error e new =>
    obtain ⟨⟨hlong, -⟩ | ⟨-, hfull, -⟩, rfl⟩ :=
      pushText_eq_error_iff.1 (pushText_of_internText_eq_error h)
    · exact .inr (.inl hlong)
    · rw [stateAfter_of_error h]
      exact .inr (.inr hfull)

/-- A text that is settled is not added. -/
theorem Settled.stateAfter_internText (h : pool.Settled s) :
    stateAfter (internText s) pool = pool := by
  rw [stateAfter, internText_eq]
  cases hfound : pool.findText? s with
  | some j => rfl
  | none =>
    by_cases hlong : limit < s.utf8ByteSize
    · rw [pushText_eq_error_iff.2 ⟨.inl ⟨hlong, rfl⟩, rfl⟩]
    · have hfull : limit ≤ pool.size := by
        rcases h with ⟨i, hi⟩ | hlong' | hfull
        · rw [hfound] at hi
          cases hi
        · exact absurd hlong' hlong
        · exact hfull
      rw [pushText_eq_error_iff.2 ⟨.inr ⟨Nat.not_lt.1 hlong, hfull, rfl⟩, rfl⟩]

/-! ## Requests -/

/-- What a pool is asked for: the slot of a text, or of the class with a name. -/
inductive Request where
  | text (s : String)
  | className (name : String)

namespace Request

variable {r : Request}

/-- The text, or the name of the class. -/
def spelling : Request → String
  | text s | className s => s

/-- Asks the pool, which adds what it does not hold. -/
def run : Request → PoolM UInt16
  | text s => internText s
  | className name => internClass name

/-- What stands at an index: a text, or a class, of which it is the name. -/
def resolve (pool : ConstantPool) (i : UInt16) : Request → Except Fault String
  | text _ => pool.text i
  | className _ => pool.className i

/-- The first text that is spelled so is at the index, or the first class that points to it. -/
def Found (pool : ConstantPool) (i : UInt16) : Request → Prop
  | text s => pool.findText? s = some i
  | className name =>
    ∃ n, pool.findText? name = some n ∧ pool.findIndex? (· == .classRef n) = some i

theorem Found.mono (h : r.Found old i) (hslots : old.slots.toList <+: new.slots.toList) :
    r.Found new i := by
  cases r with
  | text s => exact findIndex?_of_isPrefix hslots (by simp) h
  | className name =>
    obtain ⟨n, htext, hclass⟩ := h
    exact ⟨n, findIndex?_of_isPrefix hslots (by simp) htext,
      findIndex?_of_isPrefix hslots (by simp) hclass⟩

/-- What is found resolves to what was asked for. -/
theorem Found.resolve (h : r.Found pool i) (hpool : pool.Addressable) :
    r.resolve pool i = .ok r.spelling := by
  have htext {s : String} {n : UInt16} (hs : pool.findText? s = some n) : pool.text n = .ok s :=
    text_eq_ok_iff.2 (hpool.getElem?_of_findIndex? (by simp) hs)
  cases r with
  | text s => exact htext h
  | className name =>
    obtain ⟨n, hname, hclass⟩ := h
    exact className_eq_ok_iff.2
      ⟨n, hpool.getElem?_of_findIndex? (by simp) hclass, htext hname⟩

/-- What is found is given, and nothing is added. -/
theorem Found.run (h : r.Found pool i) : r.run pool = .ok i pool := by
  have htext {s : String} {n : UInt16} (hs : pool.findText? s = some n) :
      internText s pool = .ok n pool := by
    rw [internText_eq, hs]
  cases r with
  | text s => exact htext h
  | className name =>
    obtain ⟨n, hname, hclass⟩ := h
    rw [Request.run, internClass, estate_bind_of_ok (htext hname),
      estate_bind_of_ok (estate_get_eq pool), hclass]
    rfl

/-- What is given is found from then on. -/
theorem found_of_run (h : r.run old = .ok i new) : r.Found new i := by
  cases r with
  | text s => exact findText?_of_internText h
  | className name =>
    obtain ⟨n, named, hname, h⟩ := estate_bind_eq_ok_iff.1 h
    have hn := findText?_of_internText hname
    rw [estate_bind_of_ok (estate_get_eq named)] at h
    cases hclass : named.findIndex? (· == .classRef n) with
    | some j =>
      rw [hclass] at h
      cases h
      exact ⟨n, hn, hclass⟩
    | none =>
      rw [hclass] at h
      have hslots : named.slots.toList <+: new.slots.toList := by
        rw [(push_eq_ok_iff.1 h).2.2]
        exact List.prefix_append _ _
      refine ⟨n, findIndex?_of_isPrefix hslots (by simp) hn, ?_⟩
      rw [findIndex?_push rfl h (by simp), hclass, if_pos rfl]
      rfl

/-- A request fails only for want of room. -/
theorem wantsRoom_of_run (h : r.run old = .error e new) : new.WantsRoom [r.spelling] e := by
  have htext {s : String} (h : internText s old = .error e new) : new.WantsRoom [s] e :=
    wantsRoom_of_pushText (List.mem_singleton.2 rfl) (pushText_of_internText_eq_error h)
  cases r with
  | text s => exact htext h
  | className name =>
    rcases estate_bind_eq_error_iff.1 h with h | ⟨n, named, -, h⟩
    · exact htext h
    rw [estate_bind_of_ok (estate_get_eq named)] at h
    cases hclass : named.findIndex? (· == .classRef n) with
    | some j =>
      rw [hclass] at h
      cases h
    | none =>
      rw [hclass] at h
      exact wantsRoom_of_push rfl h

theorem prefix_stateAfter (r : Request) (pool : ConstantPool) :
    pool.slots.toList <+: (stateAfter r.run pool).slots.toList := by
  cases r with
  | text s => exact prefix_stateAfter_internText s pool
  | className name =>
    exact (prefix_stateAfter_internText name pool).trans (prefix_stateAfter_internClass name pool)

/-- However a request ends, what it spells is settled. -/
theorem settled_stateAfter (r : Request) (pool : ConstantPool) :
    (stateAfter r.run pool).Settled r.spelling := by
  cases r with
  | text s => exact settled_stateAfter_internText s pool
  | className name =>
    exact (settled_stateAfter_internText name pool).mono (prefix_stateAfter_internClass name pool)

end Request

/-! ## Requests in a row -/

/-- The pool after requests in a row, of which each can fail. -/
def afterAll (pool : ConstantPool) (requests : List Request) : ConstantPool :=
  stateAfterAll Request.run pool requests

theorem afterAll_append (pool : ConstantPool) (earlier later : List Request) :
    pool.afterAll (earlier ++ later) = (pool.afterAll earlier).afterAll later :=
  stateAfterAll_append Request.run pool earlier later

theorem afterAll_cons (pool : ConstantPool) (r : Request) (later : List Request) :
    pool.afterAll (r :: later) = (stateAfter r.run pool).afterAll later :=
  stateAfterAll_cons Request.run pool r later

theorem prefix_afterAll (pool : ConstantPool) (requests : List Request) :
    pool.slots.toList <+: (pool.afterAll requests).slots.toList :=
  stateAfterAll_keeps (P := fun later : ConstantPool => pool.slots.toList <+: later.slots.toList)
    (fun (r : Request) _ middle h => h.trans (r.prefix_stateAfter middle)) (List.prefix_refl _)

theorem Filled.afterAll (h : pool.Filled) (requests : List Request) :
    (pool.afterAll requests).Filled := by
  refine stateAfterAll_keeps (fun r _ middle hmiddle => ?_) h
  cases r with
  | text s => exact hmiddle.internText s
  | className name => exact hmiddle.internClass name

/-- What was given is found for as long as requests follow. -/
theorem found_afterAll {r : Request} {earlier : List Request}
    (h : r.run (pool.afterAll earlier) = .ok i new) (later : List Request) :
    r.Found (pool.afterAll (earlier ++ r :: later)) i := by
  rw [afterAll_append, afterAll_cons, stateAfter_of_ok h]
  exact (Request.found_of_run h).mono (prefix_afterAll new later)

/-- What was asked for is settled for as long as requests follow. -/
theorem settled_afterAll {r : Request} {requests : List Request} (h : r ∈ requests)
    (pool : ConstantPool) : (pool.afterAll requests).Settled r.spelling := by
  obtain ⟨earlier, later, rfl⟩ := List.append_of_mem h
  rw [afterAll_append, afterAll_cons]
  exact (r.settled_stateAfter _).mono (prefix_afterAll _ later)

/-- The new pool is the old one with constants added of which none is a text. -/
def AddsNoText (old new : ConstantPool) : Prop :=
  ∃ added, new.slots.toList = old.slots.toList ++ added ∧ ∀ bytes, Constant.utf8 bytes ∉ added

theorem AddsNoText.refl (pool : ConstantPool) : AddsNoText pool pool := ⟨[], by simp, by simp⟩

theorem addsNoText_stateAfter_push {k : Constant} (hk : ∀ bytes, k ≠ .utf8 bytes)
    (pool : ConstantPool) : AddsNoText pool (stateAfter (push k) pool) := by
  rcases stateAfter_push k pool with hsame | ⟨i, hi⟩
  · rw [hsame]
    exact .refl pool
  · refine ⟨k.slots, (push_eq_ok_iff.1 hi).2.2, fun bytes hmem => ?_⟩
    rcases Constant.mem_slots hmem with heq | heq
    · exact hk bytes heq.symm
    · cases heq

/-- A request for what is settled adds no text; for a class it can still add the class. -/
theorem Settled.addsNoText {r : Request} (h : pool.Settled r.spelling) :
    AddsNoText pool (stateAfter r.run pool) := by
  have hname := h.stateAfter_internText
  cases r with
  | text s =>
    rw [Request.spelling] at hname
    rw [Request.run, hname]
    exact .refl pool
  | className name =>
    rw [Request.spelling] at hname
    rcases stateAfter_internClass name pool with hsame | ⟨n, hsame⟩ <;>
      rw [Request.run, hsame, hname]
    · exact .refl pool
    · exact addsNoText_stateAfter_push (by simp) pool

/-- How a pool answers requests that stand in a row, of which any can fail. What is given for a
request resolves to what was asked for, then and after later requests, and is given again when the
same is asked for; nothing is given only for want of room. Two texts with one index are the same. A
text that is held by a constant, or was asked for before, is not added, and no request changes what
is there. -/
structure AnswersStably (pool : ConstantPool) : Prop where
  resolves : ∀ earlier (r : Request) later i new, r.run (pool.afterAll earlier) = .ok i new →
    r.resolve (pool.afterAll (earlier ++ r :: later)) i = .ok r.spelling
  repeats : ∀ earlier (r : Request) later i new, r.run (pool.afterAll earlier) = .ok i new →
    r.run (pool.afterAll (earlier ++ r :: later)) =
      .ok i (pool.afterAll (earlier ++ r :: later))
  refused : ∀ earlier (r : Request) e new, r.run (pool.afterAll earlier) = .error e new →
    new.WantsRoom [r.spelling] e
  tellsApart : ∀ earlier s later t i new new', internText s (pool.afterAll earlier) = .ok i new →
    internText t (pool.afterAll (earlier ++ .text s :: later)) = .ok i new' → s = t
  addsOnce : ∀ earlier (r : Request),
    .utf8 (Utf8.encode r.spelling) ∈ (pool.afterAll earlier).slots ∨
      (∃ r' ∈ earlier, r'.spelling = r.spelling) →
    AddsNoText (pool.afterAll earlier) (pool.afterAll (earlier ++ [r]))
  keeps : ∀ earlier (r : Request), (pool.afterAll earlier).slots.toList <+:
    (pool.afterAll (earlier ++ [r])).slots.toList

/-- Every pool that is filled answers so. -/
theorem answersStably_of_filled (h : pool.Filled) : pool.AnswersStably where
  resolves earlier r later i new hrun :=
    (found_afterAll hrun later).resolve (h.afterAll _).addressable
  repeats earlier r later i new hrun := (found_afterAll hrun later).run
  refused _ _ _ _ hrun := Request.wantsRoom_of_run hrun
  tellsApart earlier s later t i new new' hs ht := by
    -- The index still leads to the first text when the second one is given it.
    have hfirst := found_afterAll (r := .text s) hs (later ++ [.text t])
    have hsecond := found_afterAll (r := .text t) ht []
    rw [← List.cons_append, ← List.append_assoc] at hfirst
    have hfilled := h.afterAll (earlier ++ .text s :: later ++ [.text t])
    exact Except.ok.inj ((hfirst.resolve hfilled.addressable).symm.trans
      (hsecond.resolve hfilled.addressable))
  addsOnce earlier r hknown := by
    have hsettled : (pool.afterAll earlier).Settled r.spelling := by
      rcases hknown with hmem | ⟨r', hr', hsame⟩
      · exact settled_of_mem hmem
      · exact hsame ▸ settled_afterAll hr' pool
    rw [afterAll_append]
    exact hsettled.addsNoText
  keeps earlier r := by
    rw [afterAll_append]
    exact r.prefix_stateAfter _

/-- A pool with the text `a` twice, and a class that points to the second one. -/
def doubled : ConstantPool :=
  ⟨#[.unusable, .utf8 [97], .utf8 [97], .classRef 2]⟩

theorem answersStably_doubled : doubled.Filled ∧ doubled.AnswersStably := by
  have hfilled : doubled.Filled :=
    Filled.empty.pushAll [.utf8 [97], .utf8 [97], .classRef 2]
  exact ⟨hfilled, answersStably_of_filled hfilled⟩

end JarRefit.ClassFile.ConstantPool
