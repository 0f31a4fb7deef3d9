import Mathlib.Logic.Function.Basic
import Mathlib.Order.Nat

/-!
# Named objects

A store of objects that are opened by name. Removing a name leaves its object to those that have
opened it, and the next one to ask for the name gets a new object. So a name stands for one object
after the other. The store itself belongs to somebody else, and all that is used of it is stated
as its laws.

## Main definitions

* `NamedObjects ν β`: a store, by its operations
* `NamedObjects.Lawful`: what its operations are taken to do
* `NamedObjects.Sound`: names stand for objects that were created under them
* `NamedStore ν β`, `NamedStore.objects`: a store that numbers the objects as they are created

## Main results

* `NamedObjects.Lawful.sound_empty`, `NamedObjects.Created.sound`,
  `NamedObjects.Lawful.sound_remove`, `NamedObjects.Lawful.sound_modify`: the operations keep the
  store sound
* `NamedObjects.Lawful.openOrCreate_cases`: a name is opened, or a new object takes it
* `NamedObjects.Lawful.object_openOrCreate`: opening a name changes no object that there is
* `NamedStore.lawful`: there is such a store
-/

namespace Foundation

open Function

/-! ## The store and its laws -/

/-- The operations of a store of named objects. An object is known by its number to those that have
opened it. -/
structure NamedObjects (ν β : Type*) where
  State : Type*
  empty : State
  /-- The object that a name stands for. -/
  names : State → ν → Option ℕ
  /-- The objects, each with the name that it was created under. -/
  object : State → ℕ → Option (ν × β)
  openOrCreate : State → ν → β → ℕ × State
  remove : State → ν → State
  /-- An operation on an object, by those that have opened it. -/
  modify : State → ℕ → (β → β) → State

namespace NamedObjects

variable {ν β : Type*} [DecidableEq ν] {os : NamedObjects ν β} {s : os.State} {n n' : ν} {b : β}
  {o o' : ℕ} {p : ν × β}

/-- A new object has taken a name, and nothing else is changed. -/
structure Created (os : NamedObjects ν β) (s : os.State) (n : ν) (b : β) (r : ℕ × os.State) :
    Prop where
  unused : os.object s r.1 = none
  names : os.names r.2 = update (os.names s) n (some r.1)
  object : os.object r.2 = update (os.object s) r.1 (some (n, b))

/-- What the operations are taken to do. -/
structure Lawful (os : NamedObjects ν β) : Prop where
  names_empty : ∀ n, os.names os.empty n = none
  object_empty : ∀ o, os.object os.empty o = none
  /-- A name that stands for an object is opened. -/
  opened : ∀ {s n o} (b), os.names s n = some o → os.openOrCreate s n b = (o, s)
  /-- A name that is free is given to a new object. -/
  created : ∀ {s n} (b), os.names s n = none → os.Created s n b (os.openOrCreate s n b)
  /-- Removing a name takes it away, and leaves the objects. -/
  names_remove : ∀ s n, os.names (os.remove s n) = update (os.names s) n none
  object_remove : ∀ s n, os.object (os.remove s n) = os.object s
  /-- An operation on an object concerns this object only, whether or not it has its name. -/
  names_modify : ∀ s o f, os.names (os.modify s o f) = os.names s
  object_modify : ∀ s o f, os.object (os.modify s o f) =
    update (os.object s) o ((os.object s o).map fun p => (p.1, f p.2))

/-- Names stand for objects that were created under them. -/
def Sound (os : NamedObjects ν β) (s : os.State) : Prop :=
  ∀ n o, os.names s n = some o → ∃ b, os.object s o = some (n, b)

/-! ## A new object -/

namespace Created

variable {r : ℕ × os.State}

theorem names_self (h : os.Created s n b r) : os.names r.2 n = some r.1 := by
  rw [h.names, update_self]

theorem names_of_ne (h : os.Created s n b r) (hne : n' ≠ n) : os.names r.2 n' = os.names s n' := by
  rw [h.names, update_of_ne hne]

theorem object_self (h : os.Created s n b r) : os.object r.2 r.1 = some (n, b) := by
  rw [h.object, update_self]

theorem object_of_ne (h : os.Created s n b r) (hne : o ≠ r.1) :
    os.object r.2 o = os.object s o := by
  rw [h.object, update_of_ne hne]

/-- An object that there was is not the new one. -/
theorem ne (h : os.Created s n b r) (ho : os.object s o = some p) : o ≠ r.1 := by
  rintro rfl
  rw [h.unused] at ho
  cases ho

theorem sound (h : os.Created s n b r) (hs : os.Sound s) : os.Sound r.2 := by
  intro n' o ho
  by_cases hne : n' = n
  · subst hne
    rw [h.names_self] at ho
    obtain rfl := Option.some.inj ho
    exact ⟨b, h.object_self⟩
  · rw [h.names_of_ne hne] at ho
    obtain ⟨b', hb'⟩ := hs n' o ho
    exact ⟨b', by rw [h.object_of_ne (h.ne hb'), hb']⟩

end Created

/-! ## The operations -/

namespace Lawful

variable (hos : os.Lawful)
include hos

theorem sound_empty : os.Sound os.empty := by
  intro n o ho
  rw [hos.names_empty] at ho
  cases ho

theorem names_remove_self : os.names (os.remove s n) n = none := by
  rw [hos.names_remove, update_self]

theorem names_remove_of_ne (hne : n' ≠ n) : os.names (os.remove s n) n' = os.names s n' := by
  rw [hos.names_remove, update_of_ne hne]

theorem sound_remove (hs : os.Sound s) (n : ν) : os.Sound (os.remove s n) := by
  intro n' o ho
  rw [hos.object_remove]
  by_cases hne : n' = n
  · subst hne
    rw [hos.names_remove_self] at ho
    cases ho
  · rw [hos.names_remove_of_ne hne] at ho
    exact hs n' o ho

theorem object_modify_self (f : β → β) :
    os.object (os.modify s o f) o = (os.object s o).map fun p => (p.1, f p.2) := by
  rw [hos.object_modify, update_self]

theorem object_modify_of_ne (hne : o' ≠ o) (f : β → β) :
    os.object (os.modify s o f) o' = os.object s o' := by
  rw [hos.object_modify, update_of_ne hne]

theorem sound_modify (hs : os.Sound s) (o : ℕ) (f : β → β) : os.Sound (os.modify s o f) := by
  intro n o' ho'
  rw [hos.names_modify] at ho'
  obtain ⟨b, hb⟩ := hs n o' ho'
  by_cases hne : o' = o
  · subst hne
    exact ⟨f b, by rw [hos.object_modify_self, hb]; rfl⟩
  · exact ⟨b, by rw [hos.object_modify_of_ne hne, hb]⟩

/-- A name is opened where it stands for an object, and stands for a new one otherwise. -/
theorem openOrCreate_cases (s : os.State) (n : ν) (b : β) :
    (∃ o, os.names s n = some o ∧ os.openOrCreate s n b = (o, s)) ∨
      (os.names s n = none ∧ os.Created s n b (os.openOrCreate s n b)) := by
  cases hnames : os.names s n with
  | some o => exact Or.inl ⟨o, rfl, hos.opened b hnames⟩
  | none => exact Or.inr ⟨rfl, hos.created b hnames⟩

/-- Opening a name changes no object that there is. -/
theorem object_openOrCreate (n : ν) (b : β) (ho : os.object s o = some p) :
    os.object (os.openOrCreate s n b).2 o = some p := by
  rcases hos.openOrCreate_cases s n b with ⟨o, -, heq⟩ | ⟨-, hcreated⟩
  · rwa [heq]
  · rw [hcreated.object_of_ne (hcreated.ne ho), ho]

end Lawful

end NamedObjects

/-! ## Numbered objects -/

/-- Objects that are numbered as they are created. -/
structure NamedStore (ν β : Type*) where
  names : ν → Option ℕ := fun _ => none
  /-- The number of objects. -/
  next : ℕ := 0
  object : ℕ → Option (ν × β) := fun _ => none
  fresh : ∀ o, next ≤ o → object o = none := by exact fun _ _ => rfl

namespace NamedStore

variable {ν β : Type*} [DecidableEq ν]

/-- A new object takes a name. -/
def create (s : NamedStore ν β) (n : ν) (b : β) : NamedStore ν β where
  names := update s.names n (some s.next)
  next := s.next + 1
  object := update s.object s.next (some (n, b))
  fresh o ho := by
    rw [update_of_ne (Nat.ne_of_gt ho)]
    exact s.fresh o ((Nat.le_succ _).trans ho)

/-- An object is changed. -/
def modify (s : NamedStore ν β) (o : ℕ) (f : β → β) : NamedStore ν β where
  names := s.names
  next := s.next
  object := update s.object o ((s.object o).map fun p => (p.1, f p.2))
  fresh o' ho' := by
    by_cases hne : o' = o
    · subst hne
      rw [update_self, s.fresh o' ho']
      rfl
    · rw [update_of_ne hne, s.fresh o' ho']

/-- The store that numbers its objects. -/
def objects (ν β : Type*) [DecidableEq ν] : NamedObjects ν β where
  State := NamedStore ν β
  empty := {}
  names := names
  object := object
  openOrCreate s n b :=
    match s.names n with
    | some o => (o, s)
    | none => (s.next, s.create n b)
  remove s n := { s with names := update s.names n none }
  modify := modify

theorem lawful (ν β : Type*) [DecidableEq ν] : (objects ν β).Lawful where
  names_empty _ := rfl
  object_empty _ := rfl
  opened {s n o} b h := by
    have h' : s.names n = some o := h
    simp only [objects, h']
  created {s n} b h := by
    have h' : s.names n = none := h
    have heq : (objects ν β).openOrCreate s n b = (s.next, s.create n b) := by
      simp only [objects, h']
    rw [heq]
    exact ⟨s.fresh _ le_rfl, rfl, rfl⟩
  names_remove _ _ := rfl
  object_remove _ _ := rfl
  names_modify _ _ _ := rfl
  object_modify _ _ _ := rfl

end NamedStore

end Foundation
